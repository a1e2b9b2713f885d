import DockDoe.Foundations.KeyedFolds
import DockDoe.Foundations.NullableAggregates

/-! Downsampling records directly, or entries that summarise them.
An entry stands for records of its own group and keeps, for every quantity, a low and a high
value that some of them attain; then grouping entries gives the same extremes as grouping
the records, in the groups that have any value.
-/

namespace Downsampling

open KeyedFolds Nullable

variable {κ : Type u} {ρ : Type v} {τ : Type w} {ι : Type x} {α : Type y}
variable [LinearOrder κ] [LinearOrder α]

/-- The entries cover every value of the records, group by group, and their low and high
values are values of records; no entry is without a value.
-/
structure Summarises (fineKey : ρ → κ) (value : ι → ρ → Option α) (records : List ρ)
    (coarseKey : τ → κ) (low high : ι → τ → Option α) (entries : List τ)
    : Prop where
  covered
    : ∀ record ∈ records, ∀ i v, value i record = some v →
      ∃ entry ∈ entries,
        coarseKey entry = fineKey record
        ∧ (∃ l, low i entry = some l ∧ l ≤ v)
        ∧ ∃ h, high i entry = some h ∧ v ≤ h
  lowAttained
    : ∀ entry ∈ entries, ∀ i l, low i entry = some l →
      ∃ record ∈ records, fineKey record = coarseKey entry ∧ value i record = some l
  highAttained
    : ∀ entry ∈ entries, ∀ i h, high i entry = some h →
      ∃ record ∈ records, fineKey record = coarseKey entry ∧ value i record = some h
  occupied : ∀ entry ∈ entries, ∃ i l, low i entry = some l

variable {fineKey : ρ → κ} {value : ι → ρ → Option α} {records : List ρ}
variable {coarseKey : τ → κ} {low high : ι → τ → Option α} {entries : List τ}

omit [LinearOrder α] in
/-- A value stands in a group's column when a record of the group has it. -/
theorem mem_column_iff {key : ρ → κ} {k : κ} {column : ρ → Option α} {v : α}
    : some v ∈ (under key k records).map column
      ↔ ∃ record ∈ records, key record = k ∧ column record = some v := by
  simp only [List.mem_map, mem_under_iff, and_assoc]

/-- Both ways of downsampling give a group the same minimum: each low is attained by a value, and
each value is bounded by a low.
-/
theorem Summarises.min_eq
    (summarises : Summarises fineKey value records coarseKey low high entries) (k : κ) (i : ι)
    : minAgg ((under coarseKey k entries).map (low i))
      = minAgg ((under fineKey k records).map (value i)) := by
  refine minAgg_eq_of_matched (fun l member => ?_) (fun v member => ?_)
  · obtain ⟨entry, inEntries, rfl, own⟩ := mem_column_iff.mp member
    exact ⟨l, mem_column_iff.mpr (summarises.lowAttained entry inEntries i l own), le_rfl⟩
  · obtain ⟨record, inRecords, rfl, own⟩ := mem_column_iff.mp member
    obtain ⟨entry, inEntries, same, ⟨l, ownLow, below⟩, _⟩ :=
      summarises.covered record inRecords i v own
    exact ⟨l, mem_column_iff.mpr ⟨entry, inEntries, same, ownLow⟩, below⟩

/-- Both ways of downsampling give a group the same maximum, likewise with the highs. -/
theorem Summarises.max_eq
    (summarises : Summarises fineKey value records coarseKey low high entries) (k : κ) (i : ι)
    : maxAgg ((under coarseKey k entries).map (high i))
      = maxAgg ((under fineKey k records).map (value i)) := by
  refine maxAgg_eq_of_matched (fun h member => ?_) (fun v member => ?_)
  · obtain ⟨entry, inEntries, rfl, own⟩ := mem_column_iff.mp member
    exact ⟨h, mem_column_iff.mpr (summarises.highAttained entry inEntries i h own), le_rfl⟩
  · obtain ⟨record, inRecords, rfl, own⟩ := mem_column_iff.mp member
    obtain ⟨entry, inEntries, same, _, h, ownHigh, above⟩ :=
      summarises.covered record inRecords i v own
    exact ⟨h, mem_column_iff.mpr ⟨entry, inEntries, same, ownHigh⟩, above⟩

/-- The groups of the entries are those of the records in which a quantity has a value. Both
lists of keys ascend, so equal members are enough.
-/
theorem Summarises.keysOf_eq
    (summarises : Summarises fineKey value records coarseKey low high entries)
    (present : κ → Bool)
    (presentIff
      : ∀ k, present k = true ↔ ∃ i v, some v ∈ (under fineKey k records).map (value i))
    : keysOf coarseKey entries = (keysOf fineKey records).filter present := by
  refine (keysOf_ascending coarseKey entries).eq_of_mem_iff
    ((keysOf_ascending fineKey records).filter present) (fun k => ?_)
  rw [List.mem_filter, mem_keysOf_iff, mem_keysOf_iff, presentIff]
  constructor
  · intro h
    rcases h with ⟨entry, inEntries, rfl⟩
    obtain ⟨i, l, own⟩ := summarises.occupied entry inEntries
    obtain ⟨record, inRecords, same, ownValue⟩ :=
      summarises.lowAttained entry inEntries i l own
    exact ⟨⟨record, inRecords, same⟩, i, l,
      mem_column_iff.mpr ⟨record, inRecords, same, ownValue⟩⟩
  · intro h
    rcases h with ⟨_, i, v, member⟩
    obtain ⟨record, inRecords, rfl, own⟩ := mem_column_iff.mp member
    obtain ⟨entry, inEntries, same, _⟩ := summarises.covered record inRecords i v own
    exact ⟨entry, inEntries, same⟩

-----------------------------------------------------------------------------------------
-- Groups of a width
-----------------------------------------------------------------------------------------

/-- A window of so many widths reaches at most one group border more, wherever it starts.
Witness: borders are multiples of the width, and their quotients lie between those of the
window's ends.
-/
theorem length_borders_le {width low high : ℤ} {widths : ℕ} {borders : List ℤ}
    (positive : 0 < width) (short : high ≤ low + widths * width)
    (ascending : borders.Pairwise (fun earlier later => earlier < later))
    (reached
      : ∀ border ∈ borders, ∃ position, (low ≤ position ∧ position ≤ high)
        ∧ position / width * width = border)
    : borders.length ≤ widths + 1 := by
  have distinct : borders.Nodup := ascending.imp (fun less => ne_of_lt less)
  have quotients : high / width ≤ low / width + widths := by
    rw [← Int.add_mul_ediv_right low widths (ne_of_gt positive)]
    exact Int.ediv_le_ediv positive short
  have among
      : borders.toFinset
        ⊆ (Finset.Icc (low / width) (high / width)).image (fun quotient => quotient * width) := by
    intro border member
    obtain ⟨position, ⟨after, before⟩, rfl⟩ := reached border (List.mem_toFinset.mp member)
    exact Finset.mem_image_of_mem _ (Finset.mem_Icc.mpr
      ⟨Int.ediv_le_ediv positive after, Int.ediv_le_ediv positive before⟩)
  calc borders.length
      = borders.toFinset.card := (List.toFinset_card_of_nodup distinct).symm
    _ ≤ (Finset.Icc (low / width) (high / width)).card :=
        (Finset.card_le_card among).trans Finset.card_image_le
    _ = (high / width + 1 - low / width).toNat := Int.card_Icc _ _
    _ ≤ widths + 1 := by omega

end Downsampling
