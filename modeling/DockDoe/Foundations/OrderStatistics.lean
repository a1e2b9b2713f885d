import Mathlib

/-! Extremes and median of a list, read off a sorted copy, and maxima of sums. -/

namespace OrderStatistics

variable {α : Type u}

/-- `m` is the middle one of the sorted values, or the mean of the two middle ones. -/
def IsMedian [Field α] [LinearOrder α] (values : List α) (m : α) : Prop :=
  ∃ sorted : List α,
    sorted.Perm values
    ∧ sorted.Pairwise (fun left right => left ≤ right)
    ∧ (values.length % 2 = 1 → sorted[values.length / 2]? = some m)
    ∧ (values.length % 2 = 0
        → ∃ lower upper,
          sorted[values.length / 2 - 1]? = some lower
          ∧ sorted[values.length / 2]? = some upper
          ∧ m = (lower + upper) / 2)

/-- The median of values that are all the same is that value. -/
theorem IsMedian.eq_of_constant [Field α] [LinearOrder α] [CharZero α] {values : List α} {m v : α}
    (median : IsMedian values m) (constant : ∀ value ∈ values, value = v)
    : m = v := by
  obtain ⟨sorted, perm, _, odd, even⟩ := median
  have own {i : ℕ} {value : α} (found : sorted[i]? = some value) : value = v :=
    constant value (perm.mem_iff.mp (List.mem_of_getElem? found))
  rcases Nat.mod_two_eq_zero_or_one values.length with isEven | isOdd
  · obtain ⟨lower, upper, foundLower, foundUpper, rfl⟩ := even isEven
    rw [own foundLower, own foundUpper]
    field_simp
    ring
  · exact own (odd isOdd)

/-- The median lies between bounds of the values. -/
theorem IsMedian.between [Field α] [LinearOrder α] [IsStrictOrderedRing α] {values : List α}
    {m low high : α} (median : IsMedian values m)
    (bounds : ∀ value ∈ values, low ≤ value ∧ value ≤ high)
    : low ≤ m ∧ m ≤ high := by
  obtain ⟨sorted, perm, _, odd, even⟩ := median
  have own {i : ℕ} {value : α} (found : sorted[i]? = some value) : low ≤ value ∧ value ≤ high :=
    bounds value (perm.mem_iff.mp (List.mem_of_getElem? found))
  rcases Nat.mod_two_eq_zero_or_one values.length with isEven | isOdd
  · obtain ⟨lower, upper, foundLower, foundUpper, rfl⟩ := even isEven
    obtain ⟨lowLower, lowerHigh⟩ := own foundLower
    obtain ⟨lowUpper, upperHigh⟩ := own foundUpper
    constructor <;> linarith
  · exact own (odd isOdd)

section Extremes

variable [LinearOrder α] {values sorted : List α}

/-- The first value of a sorted copy is the least value. -/
theorem isLeast_of_sorted (perm : sorted.Perm values)
    (ascending : sorted.Pairwise (fun left right => left ≤ right)) {least : α}
    (first : sorted[0]? = some least)
    : IsLeast {value | value ∈ values} least := by
  cases sorted with
  | nil => cases first
  | cons head rest =>
      obtain rfl : head = least := Option.some.inj first
      refine ⟨perm.mem_iff.mp List.mem_cons_self, ?_⟩
      intro value member
      rcases List.mem_cons.mp (perm.mem_iff.mpr member) with same | later
      · exact same.ge
      · exact List.rel_of_pairwise_cons ascending later

/-- The last value of a sorted copy is the greatest value. -/
theorem isGreatest_of_sorted (perm : sorted.Perm values)
    (ascending : sorted.Pairwise (fun left right => left ≤ right)) {greatest : α}
    (last : sorted[sorted.length - 1]? = some greatest)
    : IsGreatest {value | value ∈ values} greatest := by
  obtain ⟨within, found⟩ := List.getElem?_eq_some_iff.mp last
  refine ⟨perm.mem_iff.mp (List.mem_of_getElem? last), ?_⟩
  intro value member
  obtain ⟨i, inRange, rfl⟩ := List.getElem_of_mem (perm.mem_iff.mpr member)
  rcases Nat.lt_or_ge i (sorted.length - 1) with before | same
  · rw [← found]
    exact List.pairwise_iff_getElem.mp ascending i (sorted.length - 1) inRange within before
  · obtain rfl : i = sorted.length - 1 := by omega
    exact found.le

end Extremes

section Maxima

variable [AddCommMonoid α] [LinearOrder α] [IsOrderedCancelAddMonoid α]

/-- Summands that are bounded one by one agree as soon as their sums do. -/
theorem eq_of_sum_eq {ρ : Type w} {lower upper : ρ → α} {items : List ρ}
    (bounded : ∀ item ∈ items, lower item ≤ upper item)
    (same : (items.map lower).sum = (items.map upper).sum)
    : ∀ item ∈ items, lower item = upper item := by
  induction items with
  | nil => exact fun item member => absurd member List.not_mem_nil
  | cons head rest ih =>
      have restBounded : ∀ item ∈ rest, lower item ≤ upper item :=
        fun item member => bounded item (List.mem_cons_of_mem _ member)
      simp only [List.map_cons, List.sum_cons] at same
      have restLe : (rest.map lower).sum ≤ (rest.map upper).sum := List.sum_le_sum restBounded
      obtain ⟨first, later⟩ :=
        (add_eq_add_iff_eq_and_eq (bounded head List.mem_cons_self) restLe).mp same
      intro item member
      rcases List.mem_cons.mp member with rfl | inRest
      · exact first
      · exact ih restBounded later item inRest

/-- Maxima add up to the maximum of the sums exactly when one index attains all of them. -/
theorem sum_sup_eq_sup_sum_iff {ι : Type v} [Fintype ι] [Nonempty ι] [OrderBot α]
    (columns : List (ι → α))
    : (columns.map (fun column => Finset.univ.sup column)).sum
          = Finset.univ.sup (fun i => (columns.map (fun column => column i)).sum)
        ↔ ∃ i, ∀ column ∈ columns, column i = Finset.univ.sup column := by
  have bounded (i : ι) : ∀ column ∈ columns, column i ≤ Finset.univ.sup column :=
    fun column _ => Finset.le_sup (Finset.mem_univ i)
  constructor
  · intro same
    obtain ⟨i, _, attained⟩ := Finset.exists_mem_eq_sup Finset.univ Finset.univ_nonempty
      (fun i => (columns.map (fun column => column i)).sum)
    exact ⟨i, eq_of_sum_eq (bounded i) (attained.symm.trans same.symm)⟩
  · intro h
    rcases h with ⟨i, attains⟩
    have own
        : (columns.map (fun column => Finset.univ.sup column)).sum
          = (columns.map (fun column => column i)).sum :=
      congrArg List.sum (List.map_congr_left (fun column member => (attains column member).symm))
    refine le_antisymm ?_ (Finset.sup_le (fun j _ => List.sum_le_sum (bounded j)))
    rw [own]
    exact Finset.le_sup (f := fun i => (columns.map (fun column => column i)).sum)
      (Finset.mem_univ i)

end Maxima

end OrderStatistics
