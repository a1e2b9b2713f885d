import Mathlib

/-! Things reached stage by stage. A listing in stages keeps the listing order within a
stage, so whether a relation holds along it can be read off the listing itself.
-/

namespace Stages

variable {α : Type u}

/-- The stage at which an element is reached, up to a last one: that one if it is not. -/
def stage (reached : ℕ → α → Bool) : ℕ → α → ℕ
  | 0, _ => 0
  | bound + 1, a => if reached (bound + 1) a then stage reached bound a else bound + 1

/-- Nothing is reached at first, and nothing reached is lost. -/
structure Grows (reached : ℕ → α → Bool) : Prop where
  initial : ∀ a, reached 0 a = false
  kept : ∀ k a, reached k a = true → reached (k + 1) a = true

section Stage

variable {reached : ℕ → α → Bool} {a : α}

theorem Grows.mono (grows : Grows reached) {j k : ℕ} (le : j ≤ k) (atJ : reached j a = true)
    : reached k a = true := by
  induction le with
  | refl => exact atJ
  | step _ ih => exact grows.kept _ _ ih

theorem stage_le (reached : ℕ → α → Bool) (bound : ℕ) (a : α) : stage reached bound a ≤ bound := by
  induction bound with
  | zero => exact le_rfl
  | succ bound ih =>
      simp only [stage]
      split
      · omega
      · exact le_rfl

/-- An element is reached after its stage, if that is not the last one. By induction on the
number of stages.
-/
theorem stage_spec (grows : Grows reached) (bound : ℕ) (a : α)
    : reached (stage reached bound a) a = false
      ∧ (stage reached bound a < bound → reached (stage reached bound a + 1) a = true) := by
  induction bound with
  | zero => exact ⟨grows.initial a, fun less => absurd less (Nat.not_lt_zero _)⟩
  | succ bound ih =>
      simp only [stage]
      split
      next now =>
        refine ⟨ih.1, fun _ => ?_⟩
        rcases (stage_le reached bound a).lt_or_eq with less | last
        · exact ih.2 less
        · rw [last, now]
      next notYet => exact ⟨Bool.eq_false_iff.mpr notYet, fun less => absurd less (lt_irrefl _)⟩

/-- The stage is the only one at which an element is not reached but at once after, since what is
reached stays so.
-/
theorem stage_eq_iff (grows : Grows reached) {bound k : ℕ} (within : k ≤ bound)
    : stage reached bound a = k
      ↔ reached k a = false ∧ (k < bound → reached (k + 1) a = true) := by
  constructor
  · intro same
    exact same ▸ stage_spec grows bound a
  · intro h
    obtain ⟨notYet, after⟩ := h
    obtain ⟨stageNot, stageAfter⟩ := stage_spec grows bound a
    have le := stage_le reached bound a
    rcases lt_trichotomy (stage reached bound a) k with less | same | greater
    · have early := grows.mono less (stageAfter (by omega))
      rw [notYet] at early
      exact absurd early (by decide)
    · exact same
    · have early := grows.mono greater (after (by omega))
      rw [stageNot] at early
      exact absurd early (by decide)

/-- A stage that reaches something new reaches more of a list, by induction on the list. -/
theorem Grows.countP_lt_of_new (grows : Grows reached) {k : ℕ} {items : List α} {a : α}
    (member : a ∈ items) (notYet : reached k a = false) (now : reached (k + 1) a = true)
    : items.countP (reached k) < items.countP (reached (k + 1)) := by
  induction items with
  | nil => cases member
  | cons first rest ih =>
      have restLe : rest.countP (reached k) ≤ rest.countP (reached (k + 1)) :=
        List.countP_mono_left (fun b _ => grows.kept k b)
      rw [List.countP_cons, List.countP_cons]
      rcases List.mem_cons.mp member with rfl | later
      · rw [if_neg (by simp [notYet]), if_pos now]
        omega
      · have less := ih later
        have kept := grows.kept k first
        by_cases before : reached k first = true
        · rw [if_pos before, if_pos (kept before)]
          omega
        · rw [if_neg before]
          omega

/-- When stages without anything new are the last ones, those of a list are over after as
many stages as the list is long. Witness: each of them reaches one more, or all are over.
-/
theorem Grows.settled (grows : Grows reached) {items : List α}
    (forever
      : ∀ k, (∀ a ∈ items, reached (k + 1) a = reached k a)
        → ∀ j, ∀ a ∈ items, reached (k + j) a = reached k a)
    : ∀ a ∈ items, reached (items.length + 1) a = reached items.length a := by
  have progress (k : ℕ)
      : (∃ j, j < k ∧ ∀ a ∈ items, reached (j + 1) a = reached j a)
        ∨ k ≤ items.countP (reached k) := by
    induction k with
    | zero => exact .inr (Nat.zero_le _)
    | succ k ih =>
        rcases ih with ⟨j, before, stuck⟩ | enough
        · exact .inl ⟨j, before.trans (Nat.lt_succ_self k), stuck⟩
        · by_cases stuck : ∀ a ∈ items, reached (k + 1) a = reached k a
          · exact .inl ⟨k, Nat.lt_succ_self k, stuck⟩
          · push Not at stuck
            obtain ⟨a, member, differs⟩ := stuck
            refine .inr (Nat.lt_of_le_of_lt enough ?_)
            cases notYet : reached k a with
            | true => exact absurd (grows.kept k a notYet) (by rwa [notYet] at differs)
            | false =>
                rw [notYet] at differs
                exact grows.countP_lt_of_new member notYet (Bool.eq_true_of_not_eq_false differs)
  intro a member
  rcases progress items.length with ⟨j, before, stuck⟩ | enough
  · have atEnd := forever j stuck (items.length - j) a member
    have after := forever j stuck (items.length - j + 1) a member
    rw [Nat.add_sub_cancel' before.le] at atEnd
    rw [← Nat.add_assoc, Nat.add_sub_cancel' before.le] at after
    rw [after, atEnd]
  · have all := List.countP_eq_length.mp (le_antisymm List.countP_le_length enough) a member
    rw [all, grows.kept _ a all]

end Stage

/-- The elements of a list by rank, up to a greatest one, in listing order within a rank. -/
def inStages (rank : α → ℕ) (bound : ℕ) (items : List α) : List α :=
  (List.range (bound + 1)).flatMap (fun k => items.filter (fun a => rank a == k))

section Order

variable {rank : α → ℕ} {bound : ℕ} {items : List α}

/-- The elements of a list below a rank, in stages. -/
def below (rank : α → ℕ) (bound : ℕ) (items : List α) : List α :=
  (List.range bound).flatMap (fun k => items.filter (fun a => rank a == k))

theorem mem_below {a : α} : a ∈ below rank bound items ↔ a ∈ items ∧ rank a < bound := by
  simp [below, and_comm]

/-- The last stage comes after all others, in listing order. -/
theorem inStages_eq (rank : α → ℕ) (bound : ℕ) (items : List α)
    : inStages rank bound items
      = below rank bound items ++ items.filter (fun a => rank a == bound) := by
  rw [inStages, List.range_succ, List.flatMap_append, List.flatMap_singleton, below]

/-- Listing by stages rearranges a list: each element is counted at its own rank and at no other. -/
theorem inStages_perm (bounded : ∀ a ∈ items, rank a ≤ bound)
    : (inStages rank bound items).Perm items := by
  classical
  apply List.perm_iff_count.mpr
  intro a
  rw [inStages, List.count_flatMap]
  have counted (k : ℕ)
      : (List.count a ∘ fun k => items.filter (fun a => rank a == k)) k
        = if k = rank a then items.count a else 0 := by
    by_cases same : k = rank a
    · simp [same, List.count_filter]
    · rw [if_neg same, Function.comp_apply, List.count_eq_zero]
      intro member
      exact same (beq_iff_eq.mp (List.mem_filter.mp member).2).symm
  rw [List.map_congr_left (fun k _ => counted k)]
  by_cases present : a ∈ items
  · have within : rank a < bound + 1 := Nat.lt_succ_of_le (bounded a present)
    change ∑ k ∈ Finset.range (bound + 1), (if k = rank a then items.count a else 0) = _
    rw [Finset.sum_ite_eq', if_pos (Finset.mem_range.mpr within)]
  · simp [List.count_eq_zero.mpr present]

/-- A relation holds along the stages when it holds from lower to higher rank, and in listing
order between equal ranks. Within and between the stages the two sides ask for the same pairs.
-/
theorem pairwise_inStages_iff {relation : α → α → Prop}
    (bounded : ∀ a ∈ items, rank a ≤ bound)
    : (inStages rank bound items).Pairwise relation
      ↔ items.Pairwise (fun first second =>
          if rank second < rank first then relation second first else relation first second) := by
  have along
      : (inStages rank bound items).Pairwise relation
        ↔ (∀ k, items.Pairwise (fun a b => rank a = k → rank b = k → relation a b))
          ∧ ∀ a ∈ items, ∀ b ∈ items, rank a < rank b → relation a b := by
    simp only [inStages, List.pairwise_flatMap, List.pairwise_filter, beq_iff_eq,
      List.mem_filter, List.mem_range]
    constructor
    · intro h
      refine ⟨fun k => ?_, ?_⟩
      · by_cases within : k < bound + 1
        · exact h.1 k within
        · apply List.Pairwise.imp_of_mem _ (List.pairwise_of_forall (fun _ _ => trivial))
          intro a b memberA _ _ same
          exact absurd (Nat.lt_succ_of_le (bounded a memberA)) (same ▸ within)
      · intro a memberA b memberB lower
        have apart := List.pairwise_iff_getElem.mp h.2 (rank a) (rank b)
          (by simpa using Nat.lt_succ_of_le (bounded a memberA))
          (by simpa using Nat.lt_succ_of_le (bounded b memberB)) lower
        simp only [List.getElem_range] at apart
        exact apart a ⟨memberA, rfl⟩ b ⟨memberB, rfl⟩
    · intro h
      refine ⟨fun k _ => h.1 k, ?_⟩
      apply List.Pairwise.imp _ List.pairwise_lt_range
      intro j k lower a atJ b atK
      exact h.2 a atJ.1 b atK.1 (by omega)
  rw [along]
  constructor
  · intro h
    apply List.pairwise_iff_getElem.mpr
    intro i j _ _ before
    rcases lt_trichotomy (rank items[i]) (rank items[j]) with lower | same | higher
    · rw [if_neg lower.le.not_gt]
      exact h.2 _ (List.getElem_mem _) _ (List.getElem_mem _) lower
    · rw [if_neg same.le.not_gt]
      exact List.pairwise_iff_getElem.mp (h.1 (rank items[j])) i j _ _ before same rfl
    · rw [if_pos higher]
      exact h.2 _ (List.getElem_mem _) _ (List.getElem_mem _) higher
  · intro h
    constructor
    · intro k
      apply h.imp
      intro a b along atA atB
      rwa [if_neg (by omega)] at along
    · intro a memberA b memberB lower
      obtain ⟨i, boundI, rfl⟩ := List.getElem_of_mem memberA
      obtain ⟨j, boundJ, rfl⟩ := List.getElem_of_mem memberB
      have order := List.pairwise_iff_getElem.mp h
      rcases lt_trichotomy i j with before | same | after
      · have along := order i j boundI boundJ before
        rwa [if_neg lower.le.not_gt] at along
      · subst same
        exact absurd lower (lt_irrefl _)
      · have along := order j i boundJ boundI after
        rwa [if_pos lower] at along

/-- Along the stages ranks do not fall, neither within a stage nor from one to the next. -/
theorem pairwise_below (rank : α → ℕ) (bound : ℕ) (items : List α)
    : (below rank bound items).Pairwise (fun first second => rank first ≤ rank second) := by
  rw [below, List.pairwise_flatMap]
  constructor
  · intro k _
    refine List.pairwise_filter.mpr (List.pairwise_of_forall (fun a b atK bAtK => ?_))
    rw [beq_iff_eq.mp atK, beq_iff_eq.mp bAtK]
  · refine List.pairwise_lt_range.imp (fun {j k} lower a atJ b atK => ?_)
    rw [beq_iff_eq.mp (List.mem_filter.mp atJ).2, beq_iff_eq.mp (List.mem_filter.mp atK).2]
    exact lower.le

end Order

end Stages
