import Mathlib

/-! Stretches of presence, runs of one value and the latest announcement in a discrete run.
`status` gives an optional value to each step; `emits` says which values a step announces.
-/

namespace Stretches

variable {σ : Type u}

/-- `p` is the first step of the maximal unbroken stretch up to `k` with a status. -/
structure StretchStart (status : ℕ → Option σ) (p k : ℕ) : Prop where
  le : p ≤ k
  present : ∀ i, p ≤ i → i ≤ k → (status i).isSome
  first : p = 0 ∨ status (p - 1) = none

/-- `j` is the first step of the maximal run up to `k` in which the status is `s`. -/
structure RunStart (status : ℕ → Option σ) (j k : ℕ) (s : σ) : Prop where
  le : j ≤ k
  same : ∀ i, j ≤ i → i ≤ k → status i = some s
  first : j = 0 ∨ status (j - 1) ≠ some s

/-- `base` is the status of the latest emission within `p..k-1`, or the status at `p`. -/
def Baseline (status : ℕ → Option σ) (emits : ℕ → σ → Prop) (p k : ℕ)
    (base : σ)
    : Prop :=
  (∃ l, p ≤ l ∧ l < k ∧ emits l base ∧ ∀ i, l < i → i < k → ∀ s, ¬ emits i s)
  ∨ ((∀ i, p ≤ i → i < k → ∀ s, ¬ emits i s) ∧ status p = some base)

/-- A stretch has one start: of two, the later one would not have a gap before it. -/
theorem StretchStart.unique {status : ℕ → Option σ} {p q k : ℕ}
    (left : StretchStart status p k) (right : StretchStart status q k)
    : p = q := by
  have notBefore {a b : ℕ} (la : StretchStart status a k) (lb : StretchStart status b k)
      : ¬ a < b := by
    intro less
    rcases lb.first with zero | gap
    · omega
    · have present := la.present (b - 1) (by omega) (by have := lb.le; omega)
      rw [gap] at present
      cases present
  have := notBefore left right
  have := notBefore right left
  omega

/-- A run has one start: of two, the later one would follow its own status. -/
theorem RunStart.unique {status : ℕ → Option σ} {i j k : ℕ} {s : σ}
    (left : RunStart status i k s) (right : RunStart status j k s)
    : i = j := by
  have notBefore {a b : ℕ} (la : RunStart status a k s) (lb : RunStart status b k s)
      : ¬ a < b := by
    intro less
    rcases lb.first with zero | gap
    · omega
    · exact gap (la.same (b - 1) (by omega) (by have := lb.le; omega))
  have := notBefore left right
  have := notBefore right left
  omega

/-- A stretch has one baseline at a time: the latest emission in it, or what was adopted if there
was none.
-/
theorem Baseline.unique {status : ℕ → Option σ} {emits : ℕ → σ → Prop} {p k : ℕ}
    {base other : σ} (functional : ∀ i s t, emits i s → emits i t → s = t)
    (left : Baseline status emits p k base) (right : Baseline status emits p k other)
    : base = other := by
  rcases left with ⟨l, pl, lk, emitted, last⟩ | ⟨silent, adopted⟩
  · rcases right with ⟨m, pm, mk, emitted', last'⟩ | ⟨silent, _⟩
    · rcases Nat.lt_trichotomy l m with less | same | greater
      · exact absurd emitted' (last m less mk other)
      · exact functional l base other emitted (same ▸ emitted')
      · exact absurd emitted (last' l greater lk base)
    · exact absurd emitted (silent l pl lk base)
  · rcases right with ⟨m, pm, mk, emitted', _⟩ | ⟨_, adopted'⟩
    · exact absurd emitted' (silent m pm mk other)
    · exact Option.some.inj (adopted.symm.trans adopted')

/-- Without an emission at `k` the baseline carries over to the next step, by cases on where it
comes from.
-/
theorem Baseline.silent {status : ℕ → Option σ} {emits : ℕ → σ → Prop} {p k : ℕ}
    {base : σ} (baseline : Baseline status emits p k base)
    (quiet : ∀ s, ¬ emits k s)
    : Baseline status emits p (k + 1) base := by
  have still {i : ℕ} (below : i < k + 1) : i < k ∨ i = k := by omega
  rcases baseline with ⟨l, pl, lk, emitted, last⟩ | ⟨silent, adopted⟩
  · refine Or.inl ⟨l, pl, by omega, emitted, ?_⟩
    intro i li below s
    rcases still below with earlier | now
    · exact last i li earlier s
    · exact now ▸ quiet s
  · refine Or.inr ⟨?_, adopted⟩
    intro i pi below s
    rcases still below with earlier | now
    · exact silent i pi earlier s
    · exact now ▸ quiet s

/-- An emission at `k` is the baseline of the next step. -/
theorem Baseline.emitted {status : ℕ → Option σ} {emits : ℕ → σ → Prop} {p k : ℕ}
    {s : σ} (le : p ≤ k) (emission : emits k s)
    : Baseline status emits p (k + 1) s :=
  Or.inl ⟨k, le, Nat.lt_succ_self k, emission, fun i above below => by omega⟩

/-- A stretch that reaches `k` reaches a present step `k + 1` too. -/
theorem StretchStart.extend {status : ℕ → Option σ} {p k : ℕ}
    (stretch : StretchStart status p k) (present : (status (k + 1)).isSome)
    : StretchStart status p (k + 1) := by
  refine ⟨by have := stretch.le; omega, ?_, stretch.first⟩
  intro i above below
  rcases Nat.lt_or_ge k i with last | earlier
  · obtain rfl : i = k + 1 := by omega
    exact present
  · exact stretch.present i above earlier

/-- A run of `s` that reaches `k` goes on when the next status is `s` as well. -/
theorem RunStart.extend {status : ℕ → Option σ} {j k : ℕ} {s : σ}
    (run : RunStart status j k s) (same : status (k + 1) = some s)
    : RunStart status j (k + 1) s := by
  refine ⟨by have := run.le; omega, ?_, run.first⟩
  intro i above below
  rcases Nat.lt_or_ge k i with last | earlier
  · obtain rfl : i = k + 1 := by omega
    exact same
  · exact run.same i above earlier

/-- A status unlike the one before starts a run of its own. -/
theorem RunStart.begin {status : ℕ → Option σ} {k : ℕ} {s : σ}
    (now : status k = some s) (before : k = 0 ∨ status (k - 1) ≠ some s)
    : RunStart status k k s := by
  refine ⟨le_refl k, ?_, before⟩
  intro i above below
  obtain rfl : i = k := by omega
  exact now

end Stretches
