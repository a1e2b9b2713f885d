import Mathlib

/-! Walks along a relation, and when they can go on forever. On a finite set that every
element has a step within, every walk runs into a cycle.
-/

namespace Walks

open Relation

variable {α : Type u} {R : α → α → Prop}

/-- A cycle can be reached: an element that leads back to itself. -/
def ReachesCycle (R : α → α → Prop) (a : α) : Prop :=
  ∃ c, ReflTransGen R a c ∧ TransGen R c c

/-- On the way to a cycle, and around it, there is always a next element. -/
theorem ReachesCycle.next {a : α} (reaches : ReachesCycle R a)
    : ∃ b, R a b ∧ ReachesCycle R b := by
  obtain ⟨c, path, cycle⟩ := reaches
  rcases ReflTransGen.cases_head path with rfl | ⟨b, step, rest⟩
  · obtain ⟨b, step, back⟩ := TransGen.head'_iff.mp cycle
    exact ⟨b, step, a, back, cycle⟩
  · exact ⟨b, step, c, rest, cycle⟩

/-- A walk of a function's iterates along a relation. -/
theorem reflTransGen_iterate {f : α → α} {a : α} (steps : ∀ n, R (f^[n] a) (f^[n + 1] a))
    (m n : ℕ)
    : ReflTransGen R (f^[m] a) (f^[m + n] a) := by
  induction n with
  | zero => exact .refl
  | succ n ih => exact ih.tail (steps (m + n))

/-- Where a finite set has no last element, a cycle is reached from everywhere in it.
Witness: the iterates of a choice of next elements repeat.
-/
theorem reachesCycle_of_next {S : Set α} (finite : S.Finite)
    (next : ∀ a ∈ S, ∃ b ∈ S, R a b) {a : α} (member : a ∈ S)
    : ReachesCycle R a := by
  classical
  let f (x : α) : α := if inside : x ∈ S then (next x inside).choose else x
  have advances {x : α} (inside : x ∈ S) : f x ∈ S ∧ R x (f x) := by
    have chosen := (next x inside).choose_spec
    simpa only [f, dif_pos inside] using chosen
  have stays (n : ℕ) : f^[n] a ∈ S := by
    induction n with
    | zero => exact member
    | succ n ih =>
        rw [Function.iterate_succ_apply']
        exact (advances ih).1
  have steps (n : ℕ) : R (f^[n] a) (f^[n + 1] a) := by
    rw [Function.iterate_succ_apply']
    exact (advances (stays n)).2
  have : Finite S := finite
  obtain ⟨i, j, differ, same⟩ :=
    Finite.exists_ne_map_eq_of_infinite (fun n : ℕ => (⟨f^[n] a, stays n⟩ : S))
  have repeats {i j : ℕ} (before : i < j) (same : f^[i] a = f^[j] a) : ReachesCycle R a := by
    obtain ⟨k, rfl⟩ := Nat.exists_eq_add_of_lt before
    refine ⟨f^[i] a, ?_, ?_⟩
    · simpa using reflTransGen_iterate steps 0 i
    · have around := TransGen.tail' (reflTransGen_iterate steps i k) (steps (i + k))
      rwa [← same] at around
  have sameIterate : f^[i] a = f^[j] a := congrArg Subtype.val same
  rcases Nat.lt_or_gt_of_ne differ with before | after
  · exact repeats before sameIterate
  · exact repeats after sameIterate.symm

end Walks
