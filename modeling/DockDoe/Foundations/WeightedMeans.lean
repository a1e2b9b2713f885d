import Mathlib

/-! Weighted means over a field, and what merging two of them preserves.
Combining two means by weights that are not their own totals gives the overall mean
only when the two means agree or the weights keep the ratio of the totals.
-/

namespace WeightedMeans

variable {α : Type u} {ρ : Type v}

section Field

variable [Field α]

/-- The mean of `value` over `records`, each counted `weight` times. -/
def mean (value weight : ρ → α) (records : List ρ) : α :=
  (records.map (fun record => value record * weight record)).sum / (records.map weight).sum

/-- Two values merged by their weights. -/
def combine (left leftWeight right rightWeight : α) : α :=
  (left * leftWeight + right * rightWeight) / (leftWeight + rightWeight)

/-- The mean of one record with a nonzero weight is its value. -/
theorem mean_singleton (value weight : ρ → α) (record : ρ) (nonzero : weight record ≠ 0)
    : mean value weight [record] = value record := by
  simp [mean, nonzero]

/-- Merging the means of two parts by their total weights is the mean of the whole. -/
theorem combine_mean (value weight : ρ → α) (left right : List ρ)
    (leftNonzero : (left.map weight).sum ≠ 0) (rightNonzero : (right.map weight).sum ≠ 0)
    : combine (mean value weight left) (left.map weight).sum
          (mean value weight right) (right.map weight).sum
        = mean value weight (left ++ right) := by
  simp only [combine, mean, List.map_append, List.sum_append,
    div_mul_cancel₀ _ leftNonzero, div_mul_cancel₀ _ rightNonzero]

/-- A mean does not depend on the order of its records. -/
theorem mean_perm (value weight : ρ → α) {left right : List ρ} (perm : left.Perm right)
    : mean value weight left = mean value weight right := by
  simp only [mean, (perm.map _).sum_eq]

/-- Two merges of the same values differ exactly by the values' difference times the
cross difference of the weights. Witness: clear both denominators.
-/
theorem combine_eq_combine_iff {left right s t n m : α}
    (weights : s + t ≠ 0) (totals : n + m ≠ 0)
    : combine left s right t = combine left n right m ↔ left = right ∨ s * m = t * n := by
  have difference
      : (left * s + right * t) * (n + m) - (left * n + right * m) * (s + t)
        = (left - right) * (s * m - t * n) := by
    ring
  rw [combine, combine, div_eq_div_iff weights totals, ← sub_eq_zero, difference,
    mul_eq_zero, sub_eq_zero, sub_eq_zero]

end Field

section Ordered

variable [Field α] [LinearOrder α] [IsStrictOrderedRing α]

/-- A merge with positive weights stays above a common lower bound of its values. -/
theorem le_combine {left right s t bound : α} (sPos : 0 < s) (tPos : 0 < t)
    (leftBound : bound ≤ left) (rightBound : bound ≤ right)
    : bound ≤ combine left s right t := by
  rw [combine, le_div_iff₀ (add_pos sPos tPos), mul_add]
  gcongr

/-- A merge with positive weights stays below a common upper bound of its values. -/
theorem combine_le {left right s t bound : α} (sPos : 0 < s) (tPos : 0 < t)
    (leftBound : left ≤ bound) (rightBound : right ≤ bound)
    : combine left s right t ≤ bound := by
  rw [combine, div_le_iff₀ (add_pos sPos tPos), mul_add]
  gcongr

/-- Records that all weigh something weigh something together. -/
theorem sum_weight_pos (weight : ρ → α) {records : List ρ} (nonempty : records ≠ [])
    (positive : ∀ record ∈ records, 0 < weight record)
    : 0 < (records.map weight).sum := by
  refine List.sum_pos _ ?_ (by simpa using nonempty)
  simpa using positive

/-- A mean with positive weights stays above a lower bound of its values.
Witness: weighting the bound by the same total undercuts every summand.
-/
theorem le_mean (value weight : ρ → α) {records : List ρ} {bound : α}
    (nonempty : records ≠ []) (positive : ∀ record ∈ records, 0 < weight record)
    (bounded : ∀ record ∈ records, bound ≤ value record)
    : bound ≤ mean value weight records := by
  rw [mean, le_div_iff₀ (sum_weight_pos weight nonempty positive), ← List.sum_map_mul_left]
  refine List.sum_le_sum (fun record member => ?_)
  exact mul_le_mul_of_nonneg_right (bounded record member) (positive record member).le

/-- A mean with positive weights stays below an upper bound of its values. -/
theorem mean_le (value weight : ρ → α) {records : List ρ} {bound : α}
    (nonempty : records ≠ []) (positive : ∀ record ∈ records, 0 < weight record)
    (bounded : ∀ record ∈ records, value record ≤ bound)
    : mean value weight records ≤ bound := by
  rw [mean, div_le_iff₀ (sum_weight_pos weight nonempty positive), ← List.sum_map_mul_left]
  refine List.sum_le_sum (fun record member => ?_)
  exact mul_le_mul_of_nonneg_right (bounded record member) (positive record member).le

end Ordered

end WeightedMeans
