import DockDoe.Foundations.NullableAggregates
import DockDoe.Foundations.WeightedMeans

/-! Bands: three nullable columns that are NULL together or ordered together.
Every way of combining bands column by column that is used on charts gives a band again.
-/

namespace Nullable

variable {α : Type u} {ρ : Type v}

/-- A low, a middle and a high column that are all NULL, or all present and in order. -/
inductive Banded [LE α] : Option α → Option α → Option α → Prop
  | absent : Banded none none none
  | present {low mid high : α} (below : low ≤ mid) (above : mid ≤ high)
    : Banded (some low) (some mid) (some high)

/-- The columns of a band are present together. -/
theorem Banded.isSome_eq [LE α] {low mid high : Option α} (band : Banded low mid high)
    : low.isSome = mid.isSome ∧ high.isSome = mid.isSome := by
  cases band <;> exact ⟨rfl, rfl⟩

/-- A present middle value lies between a present low and a present high. -/
theorem Banded.of_mid [LE α] {low high : Option α} {middle : α}
    (band : Banded low (some middle) high)
    : ∃ l h, low = some l ∧ high = some h ∧ l ≤ middle ∧ middle ≤ h := by
  cases band with
  | present below above => exact ⟨_, _, rfl, rfl, below, above⟩

section Columns

variable {low mid high : ρ → Option α} {rows : List ρ}

/-- The values of two columns that are NULL together pair up in order.
Witness: induction on the rows, both columns skipping the same ones.
-/
theorem forall₂_reduceOption_of_banded [LE α]
    (banded : ∀ row ∈ rows, Banded (low row) (mid row) (high row))
    : List.Forall₂ (· ≤ ·) (rows.map low).reduceOption (rows.map mid).reduceOption
      ∧ List.Forall₂ (· ≤ ·) (rows.map mid).reduceOption (rows.map high).reduceOption := by
  induction rows with
  | nil => exact ⟨.nil, .nil⟩
  | cons head rest ih =>
      have tail := ih (fun row member => banded row (List.mem_cons_of_mem _ member))
      have first := banded head List.mem_cons_self
      simp only [List.map_cons]
      generalize low head = l at first ⊢
      generalize mid head = m at first ⊢
      generalize high head = h at first ⊢
      cases first with
      | absent => simpa only [List.reduceOption_cons_of_none] using tail
      | present below above =>
          simp only [List.reduceOption_cons_of_some]
          exact ⟨.cons below tail.1, .cons above tail.2⟩

/-- Each value of the middle column lies between a low and a high value. -/
theorem exists_band_of_mem [LE α]
    (banded : ∀ row ∈ rows, Banded (low row) (mid row) (high row)) {middle : α}
    (member : some middle ∈ rows.map mid)
    : ∃ l h, some l ∈ rows.map low ∧ some h ∈ rows.map high ∧ l ≤ middle ∧ middle ≤ h := by
  obtain ⟨row, inRows, equal⟩ := List.mem_map.mp member
  have band := banded row inRows
  rw [equal] at band
  obtain ⟨l, h, lowEq, highEq, below, above⟩ := band.of_mid
  exact ⟨l, h, List.mem_map.mpr ⟨row, inRows, lowEq⟩,
    List.mem_map.mpr ⟨row, inRows, highEq⟩, below, above⟩

/-- A middle column without values leaves both outer columns without values, since a row's three
cells are present together.
-/
theorem outer_empty_of_mid_empty [LE α]
    (banded : ∀ row ∈ rows, Banded (low row) (mid row) (high row))
    (empty : ∀ value, some value ∉ rows.map mid)
    : (∀ value, some value ∉ rows.map low) ∧ ∀ value, some value ∉ rows.map high := by
  have midNone {row} (inRows : row ∈ rows) : (mid row).isSome = false := by
    cases found : mid row with
    | none => rfl
    | some value => exact absurd (List.mem_map.mpr ⟨row, inRows, found⟩) (empty value)
  constructor
  · intro value member
    obtain ⟨row, inRows, equal⟩ := List.mem_map.mp member
    have present := (banded row inRows).isSome_eq.1
    simp [equal, midNone inRows] at present
  · intro value member
    obtain ⟨row, inRows, equal⟩ := List.mem_map.mp member
    have present := (banded row inRows).isSome_eq.2
    simp [equal, midNone inRows] at present

end Columns

section Aggregates

variable [Field α] [LinearOrder α] [IsStrictOrderedRing α]

variable {low mid high : ρ → Option α} {rows : List ρ}

/-- Summing bands column by column gives a band. -/
theorem Banded.sum (banded : ∀ row ∈ rows, Banded (low row) (mid row) (high row))
    : Banded (sumAgg (rows.map low)) (sumAgg (rows.map mid)) (sumAgg (rows.map high)) := by
  obtain ⟨lowMid, midHigh⟩ := forall₂_reduceOption_of_banded banded
  have lowLength := lowMid.length_eq
  have highLength := midHigh.length_eq
  simp only [sumAgg, List.isEmpty_iff_length_eq_zero, lowLength, ← highLength]
  split
  · exact .absent
  · exact .present lowMid.sum_le_sum midHigh.sum_le_sum

/-- The least low, the mean middle and the greatest high of a list of bands form a band.
Witness: the middle values lie between their own lows and highs, hence between the
extremes, and so does their mean.
-/
theorem Banded.aggregate (banded : ∀ row ∈ rows, Banded (low row) (mid row) (high row))
    : Banded (minAgg (rows.map low)) (avgAgg (rows.map mid)) (maxAgg (rows.map high)) := by
  by_cases empty : ∀ value, some value ∉ rows.map mid
  · obtain ⟨lowEmpty, highEmpty⟩ := outer_empty_of_mid_empty banded empty
    rw [minAgg_eq_none_iff.mpr lowEmpty, avgAgg_eq_none_iff.mpr empty,
      maxAgg_eq_none_iff.mpr highEmpty]
    exact .absent
  · simp only [not_forall, not_not] at empty
    obtain ⟨value, member⟩ := empty
    obtain ⟨_, _, lowMember, highMember, _⟩ := exists_band_of_mem banded member
    obtain ⟨least, leastEq⟩ := exists_minAgg_of_mem lowMember
    obtain ⟨greatest, greatestEq⟩ := exists_maxAgg_of_mem highMember
    have between {v} (inMid : v ∈ (rows.map mid).reduceOption) : least ≤ v ∧ v ≤ greatest := by
      obtain ⟨l, h, inLow, inHigh, below, above⟩ :=
        exists_band_of_mem banded (List.reduceOption_mem_iff.mp inMid)
      exact ⟨((minAgg_eq_some_iff.mp leastEq).2 l inLow).trans below,
        above.trans ((maxAgg_eq_some_iff.mp greatestEq).2 h inHigh)⟩
    have nonempty : (rows.map mid).reduceOption ≠ [] :=
      List.ne_nil_of_mem (List.reduceOption_mem_iff.mpr member)
    -- The plain mean is the weighted mean with weight one.
    have mean
        : avgAgg (rows.map mid)
          = some (WeightedMeans.mean id (fun _ => 1) (rows.map mid).reduceOption) := by
      simp [avgAgg, sumAgg_of_mem member, WeightedMeans.mean]
    rw [leastEq, mean, greatestEq]
    exact .present
      (WeightedMeans.le_mean id _ nonempty (fun _ _ => one_pos) (fun _ inMid => (between inMid).1))
      (WeightedMeans.mean_le id _ nonempty (fun _ _ => one_pos) (fun _ inMid => (between inMid).2))

/-- Two nullable values merged by their weights, skipping NULL. -/
def weightedOf (s t : α) : Option α → Option α → Option α
  | none, right => right
  | some left, none => some left
  | some left, some right => some (WeightedMeans.combine left s right t)

/-- Merging two bands keeps the extremes and weighs the middle values: a band again.
Witness: where both are present, the merged middle lies between the merged extremes.
-/
theorem Banded.merge {low mid high low' mid' high' : Option α} {s t : α}
    (left : Banded low mid high) (right : Banded low' mid' high') (sPos : 0 < s) (tPos : 0 < t)
    : Banded (leastOf low low') (weightedOf s t mid mid') (greatestOf high high') := by
  cases left with
  | absent =>
      rw [leastOf_none_left, greatestOf_none_left, weightedOf]
      exact right
  | present below above =>
      cases right with
      | absent =>
          rw [leastOf_none_right, greatestOf_none_right]
          exact .present below above
      | present below' above' =>
          rw [leastOf_some, greatestOf_some, weightedOf]
          refine .present (WeightedMeans.le_combine sPos tPos ?_ ?_)
            (WeightedMeans.combine_le sPos tPos ?_ ?_)
          · exact (min_le_left _ _).trans below
          · exact (min_le_right _ _).trans below'
          · exact above.trans (le_max_left _ _)
          · exact above'.trans (le_max_right _ _)

end Aggregates

end Nullable
