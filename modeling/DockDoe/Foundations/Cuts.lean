import Mathlib

/-! Cutting a list in two at the first occurrence of a pattern. -/

namespace Cuts

variable {α : Type u} [DecidableEq α]

/-- The parts of a list before and after the first occurrence of a pattern. -/
def cut (pattern : List α) : List α → Option (List α × List α)
  | [] => if pattern.isEmpty then some ([], []) else none
  | a :: rest =>
      match pattern.isPrefixOf? (a :: rest) with
      | some after => some ([], after)
      | none => (cut pattern rest).map (fun (before, after) => (a :: before, after))

/-- The parts of a list before and after the last occurrence of an element. -/
def cutLast (separator : α) (items : List α) : Option (List α × List α) :=
  (cut [separator] items.reverse).map (fun (after, before) => (before.reverse, after.reverse))

section Separator

variable {separator : α}

theorem cut_cons (a : α) (rest : List α)
    : cut [separator] (a :: rest)
      = if separator = a then some ([], rest)
        else (cut [separator] rest).map (fun (before, after) => (a :: before, after)) := by
  rw [cut]
  by_cases same : separator = a
  · simp [List.isPrefixOf?, same]
  · simp [List.isPrefixOf?, same]

/-- A list without the separator in front of one is what comes before the cut. -/
theorem cut_append {before : List α} (absent : separator ∉ before) (after : List α)
    : cut [separator] (before ++ separator :: after) = some (before, after) := by
  induction before with
  | nil => simp [cut_cons]
  | cons a rest ih =>
      simp only [List.mem_cons, not_or] at absent
      rw [List.cons_append, cut_cons, if_neg absent.1, ih absent.2, Option.map_some]

/-- A cut is made at the first separator, by induction on what is cut. -/
theorem eq_append_of_cut {items before after : List α}
    (found : cut [separator] items = some (before, after))
    : items = before ++ separator :: after ∧ separator ∉ before := by
  induction items generalizing before with
  | nil => cases found
  | cons a rest ih =>
      rw [cut_cons] at found
      split at found
      next same =>
        obtain ⟨rfl, rfl⟩ := Prod.mk.inj (Option.some.inj found)
        simp [same]
      next other =>
        obtain ⟨⟨inner, tail⟩, foundInner, parts⟩ := Option.map_eq_some_iff.mp found
        obtain ⟨rfl, rfl⟩ := Prod.mk.inj parts
        obtain ⟨whole, absent⟩ := ih foundInner
        refine ⟨by rw [whole, List.cons_append], ?_⟩
        simp only [List.mem_cons, not_or]
        exact ⟨other, absent⟩

/-- No cut is made exactly when there is no separator, by induction on the list. -/
theorem cut_eq_none_iff {items : List α} : cut [separator] items = none ↔ separator ∉ items := by
  induction items with
  | nil => exact iff_of_true rfl List.not_mem_nil
  | cons a rest ih =>
      rw [cut_cons]
      by_cases same : separator = a
      · simp [same]
      · simp [same, ih]

/-- A list without the separator behind one is what comes after the last cut. -/
theorem cutLast_append {after : List α} (absent : separator ∉ after) (before : List α)
    : cutLast separator (before ++ separator :: after) = some (before, after) := by
  have reversed : separator ∉ after.reverse := by simpa using absent
  rw [cutLast, List.reverse_append, List.reverse_cons, List.append_assoc,
    List.singleton_append, cut_append reversed]
  simp

/-- The last cut is made at a separator. -/
theorem eq_append_of_cutLast {items : List α} {parts : List α × List α}
    (found : cutLast separator items = some parts)
    : items = parts.1 ++ separator :: parts.2 := by
  obtain ⟨reversed, foundReversed, rfl⟩ := Option.map_eq_some_iff.mp found
  have whole := (eq_append_of_cut foundReversed).1
  rw [← List.reverse_reverse items, whole]
  simp

theorem cutLast_eq_none_iff {items : List α}
    : cutLast separator items = none ↔ separator ∉ items := by
  rw [cutLast, Option.map_eq_none_iff, cut_eq_none_iff, List.mem_reverse]

omit [DecidableEq α] in
/-- A list with the separator has a last one. -/
theorem exists_last_separator {items : List α} (occurs : separator ∈ items)
    : ∃ before after, items = before ++ separator :: after ∧ separator ∉ after := by
  obtain ⟨after, before, reversed, absent⟩ :=
    List.eq_append_cons_of_mem (List.mem_reverse.mpr occurs)
  refine ⟨before.reverse, after.reverse, ?_, by simpa using absent⟩
  rw [← List.reverse_reverse items, reversed]
  simp

end Separator

omit [DecidableEq α] in
/-- The longest start whose elements all satisfy a predicate is the one that ends where the
predicate fails.
-/
theorem eq_takeWhile_iff {p : α → Bool} {before items : List α}
    : before = items.takeWhile p
      ↔ ∃ after,
          items = before ++ after
          ∧ (∀ a ∈ before, p a = true)
          ∧ ∀ a ∈ after.head?, p a = false := by
  constructor
  · rintro rfl
    refine ⟨items.dropWhile p, by simp, fun a member => List.mem_takeWhile_imp member, ?_⟩
    intro a first
    have stops := List.head?_dropWhile_not p items
    rw [Option.mem_def.mp first] at stops
    simpa using stops
  · intro division
    obtain ⟨after, rfl, inside, stops⟩ := division
    rw [List.takeWhile_append_of_pos inside]
    cases after with
    | nil => simp
    | cons a rest => simp [stops a rfl]

omit [DecidableEq α] in
/-- What is dropped from the end ends behind an element that is kept. By induction on what
follows it, from the back.
-/
theorem rdropWhile_append_of_last {p : α → Bool} {x : α} (kept : p x = false)
    (before after : List α)
    : (before ++ x :: after).rdropWhile p = before ++ x :: after.rdropWhile p := by
  induction after using List.reverseRecOn with
  | nil => simpa using List.rdropWhile_concat_neg p before x (by simp [kept])
  | append_singleton rest y ih =>
      rw [← List.cons_append, ← List.append_assoc, List.rdropWhile_concat,
        List.rdropWhile_concat]
      cases p y with
      | true => simpa using ih
      | false => simp

omit [DecidableEq α] in
/-- Two divisions of one list at an element are the same, or one lies further on. By cases on
which front is the longer one, and on whether the difference is empty.
-/
theorem divisions_iff {a : α} {before after left right : List α}
    : before ++ a :: after = left ++ a :: right
      ↔ (before = left ∧ after = right)
        ∨ (∃ middle, left = before ++ a :: middle ∧ after = middle ++ a :: right)
        ∨ ∃ middle, before = left ++ a :: middle ∧ right = middle ++ a :: after := by
  rw [List.append_eq_append_iff]
  constructor
  · intro overlap
    rcases overlap with ⟨part, longer, rest⟩ | ⟨part, longer, rest⟩
    · cases part with
      | nil => simp_all
      | cons b middle =>
          obtain ⟨rfl, rfl⟩ := List.cons.inj rest
          exact .inr (.inl ⟨middle, longer, rfl⟩)
    · cases part with
      | nil => simp_all
      | cons b middle =>
          obtain ⟨rfl, rfl⟩ := List.cons.inj rest
          exact .inr (.inr ⟨middle, longer, rfl⟩)
  · intro divisions
    rcases divisions with ⟨rfl, rfl⟩ | ⟨middle, rfl, rfl⟩ | ⟨middle, rfl, rfl⟩
    · exact .inl ⟨[], by simp⟩
    · exact .inl ⟨a :: middle, rfl, rfl⟩
    · exact .inr ⟨a :: middle, rfl, rfl⟩

omit [DecidableEq α] in
/-- An element that occurs once divides a list in one way. -/
theorem divide_unique {a : α} {before after left right : List α} (notBefore : a ∉ before)
    (notAfter : a ∉ after) (same : before ++ a :: after = left ++ a :: right)
    : before = left ∧ after = right := by
  rcases divisions_iff.mp same with parts | ⟨middle, _, rfl⟩ | ⟨middle, rfl, _⟩
  · exact parts
  · exact (notAfter (by simp)).elim
  · exact (notBefore (by simp)).elim

end Cuts
