import Mathlib

/-! Traversals of a list whose steps may fail, and the steps they are made of. -/

namespace FallibleLists

variable {α : Type u} {β σ ε : Type v}

/-- A sequence of two steps succeeds when both do. -/
theorem bind_eq_ok_iff {first : Except ε σ} {next : σ → Except ε β} {result : β}
    : (first >>= next) = .ok result ↔ ∃ value, first = .ok value ∧ next value = .ok result := by
  cases first <;> simp [bind, Except.bind]

/-- A sequence of two steps fails when one of them does, the second after the first. -/
theorem bind_eq_error_iff {first : Except ε σ} {next : σ → Except ε β} {error : ε}
    : (first >>= next) = .error error
      ↔ first = .error error ∨ ∃ value, first = .ok value ∧ next value = .error error := by
  cases first <;> simp [bind, Except.bind]

/-- As many results as items, by induction on the items. -/
theorem length_of_mapM {α β : Type} {step : α → Option β} {items : List α} {results : List β}
    (mapped : items.mapM step = some results)
    : results.length = items.length := by
  induction items generalizing results with
  | nil =>
      cases mapped
      rfl
  | cons item rest ih =>
      rw [List.mapM_cons] at mapped
      obtain ⟨result, _, mapped⟩ := Option.bind_eq_some_iff.mp mapped
      obtain ⟨more, mappedRest, same⟩ := Option.bind_eq_some_iff.mp mapped
      cases same
      rw [List.length_cons, List.length_cons, ih mappedRest]

/-- A traversal whose steps all succeed yields their results in order, by induction on the items. -/
theorem mapM_ok {step : α → Except ε β} {result : α → β} {items : List α}
    (each : ∀ item ∈ items, step item = .ok (result item))
    : items.mapM step = .ok (items.map result) := by
  induction items with
  | nil => rfl
  | cons head rest ih =>
      have first := each head List.mem_cons_self
      have later := ih (fun item member => each item (List.mem_cons_of_mem _ member))
      rw [List.mapM_cons, first, later]
      rfl

/-- A traversal whose steps all succeed yields results that are related to the items, by
induction on the items.
-/
theorem mapM_forall₂ {step : α → Except ε β} {related : α → β → Prop} {items : List α}
    (each : ∀ item ∈ items, ∃ result, step item = .ok result ∧ related item result)
    : ∃ results, items.mapM step = .ok results ∧ List.Forall₂ related items results := by
  induction items with
  | nil => exact ⟨[], rfl, .nil⟩
  | cons head rest ih =>
      obtain ⟨result, first, holds⟩ := each head List.mem_cons_self
      obtain ⟨results, later, holdLater⟩ :=
        ih (fun item member => each item (List.mem_cons_of_mem _ member))
      refine ⟨result :: results, ?_, .cons holds holdLater⟩
      rw [List.mapM_cons, first, later]
      rfl

/-- A traversal fails as soon as one of its steps does. By induction on the items: an earlier
step may fail first, and is then the one reported.
-/
theorem mapM_error {step : α → Except ε β} {items : List α} {item : α} {error : ε}
    (member : item ∈ items) (failed : step item = .error error)
    : ∃ reported, items.mapM step = .error reported := by
  induction items with
  | nil => exact absurd member List.not_mem_nil
  | cons head rest ih =>
      rw [List.mapM_cons]
      cases first : step head with
      | error reported => exact ⟨reported, rfl⟩
      | ok value =>
          rcases List.mem_cons.mp member with same | later
          · rw [same, first] at failed
            cases failed
          · obtain ⟨reported, stops⟩ := ih later
            exact ⟨reported, by rw [stops]; rfl⟩

/-- A traversal for effect succeeds when all its steps do, by induction on the items. -/
theorem forM_ok {step : α → Except ε PUnit} {items : List α}
    (each : ∀ item ∈ items, step item = .ok ⟨⟩)
    : items.forM step = .ok ⟨⟩ := by
  induction items with
  | nil => rfl
  | cons head rest ih =>
      have first := each head List.mem_cons_self
      have later := ih (fun item member => each item (List.mem_cons_of_mem _ member))
      change (step head >>= fun _ => rest.forM step) = _
      rw [first]
      exact later

/-- A fold whose steps all succeed is the fold of their results, by induction on the items. -/
theorem foldlM_ok {step : σ → α → Except ε σ} {next : σ → α → σ} (start : σ)
    (items : List α) (each : ∀ state, ∀ item ∈ items, step state item = .ok (next state item))
    : items.foldlM step start = .ok (items.foldl next start) := by
  induction items generalizing start with
  | nil => rfl
  | cons head rest ih =>
      have first := each start head List.mem_cons_self
      rw [List.foldlM_cons, first]
      exact ih (next start head)
        (fun state item member => each state item (List.mem_cons_of_mem _ member))

end FallibleLists
