import Mathlib

/-! Half-open intervals laid end to end: a point between the outer ends lies in exactly one of
them, and a point outside in none.
-/

namespace Tilings

variable {α : Type u} [LinearOrder α]

/-- A point lies in a half-open interval. -/
def Within (x : α) (interval : α × α) : Prop :=
  interval.1 ≤ x ∧ x < interval.2

instance (x : α) (interval : α × α) : Decidable (Within x interval) :=
  inferInstanceAs (Decidable (_ ∧ _))

/-- Intervals that lead from one point to another, each from where the one before it ends. -/
inductive Tiles : α → List (α × α) → α → Prop
  | nil (lower : α) : Tiles lower [] lower
  | cons {lower middle upper : α} {rest : List (α × α)} (le : lower ≤ middle)
      (tiles : Tiles middle rest upper)
      : Tiles lower ((lower, middle) :: rest) upper

variable {lower upper : α} {intervals : List (α × α)}

theorem Tiles.le (tiles : Tiles lower intervals upper) : lower ≤ upper := by
  induction tiles with
  | nil lower => exact le_rfl
  | cons le _ ih => exact le.trans ih

/-- A point lies in one interval between the ends and in none elsewhere, by induction on the
intervals.
-/
theorem Tiles.countP_within (tiles : Tiles lower intervals upper) (x : α)
    : intervals.countP (fun interval => Within x interval)
      = if lower ≤ x ∧ x < upper then 1 else 0 := by
  induction tiles with
  | nil lower =>
      rw [List.countP_nil, if_neg]
      intro both
      exact both.1.not_gt both.2
  | @cons lower middle upper rest le tiles ih =>
      rw [List.countP_cons, ih]
      by_cases first : x < middle
      · have outside : ¬ (middle ≤ x ∧ x < upper) := fun both => both.1.not_gt first
        have inside : x < upper := first.trans_le tiles.le
        rw [if_neg outside, Nat.zero_add]
        exact if_congr (by simp [Within, first, inside]) rfl rfl
      · have outside : ¬ Within x (lower, middle) := fun both => first both.2
        have after : lower ≤ x := le.trans (not_lt.mp first)
        rw [decide_eq_false outside, if_neg Bool.false_ne_true, Nat.add_zero]
        exact if_congr (by simp [not_lt.mp first, after]) rfl rfl

end Tilings
