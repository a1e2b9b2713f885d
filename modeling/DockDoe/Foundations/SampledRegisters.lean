import Mathlib

/-! A register that is published again and again, and samples of it on their way to a mirror.
Every sample is named by its position among the publications. Samples are taken of the latest
publication and may get lost, but do not overtake each other, so the mirror never goes back.
-/

namespace SampledRegisters

/-- Samples of the publications so far, from the oldest sample to the latest. -/
structure InOrder (published : ℕ) (samples : List ℕ) : Prop where
  sorted : samples.Pairwise (· ≤ ·)
  bounded : ∀ i ∈ samples, i < published

variable {published : ℕ} {samples : List ℕ}

theorem inOrder_nil (published : ℕ) : InOrder published [] where
  sorted := .nil
  bounded := by simp

theorem InOrder.publish (inOrder : InOrder published samples) {more : ℕ}
    (grown : published ≤ more)
    : InOrder more samples where
  sorted := inOrder.sorted
  bounded i member := (inOrder.bounded i member).trans_le grown

/-- A sample of the latest publication comes after all others, which are no later. -/
theorem InOrder.take (inOrder : InOrder (published + 1) samples)
    : InOrder (published + 1) (samples ++ [published]) where
  sorted := by
    refine List.pairwise_append.mpr ⟨inOrder.sorted, List.pairwise_singleton _ _, ?_⟩
    intro i member j isLatest
    rw [List.mem_singleton.mp isLatest]
    exact Nat.lt_succ_iff.mp (inOrder.bounded i member)
  bounded i member := by
    rcases List.mem_append.mp member with earlier | isLatest
    · exact inOrder.bounded i earlier
    · rw [List.mem_singleton.mp isLatest]
      exact Nat.lt_succ_self published

/-- Samples may get lost. -/
theorem InOrder.lose (inOrder : InOrder published samples) {kept : List ℕ}
    (sublist : kept.Sublist samples)
    : InOrder published kept where
  sorted := inOrder.sorted.sublist sublist
  bounded i member := inOrder.bounded i (sublist.subset member)

end SampledRegisters
