import Mathlib

/-! Programs whose state is a trace that they only append to. A rule for each construct
tells what a program answers together with what it appends.
-/

namespace Traces

variable {ε α β : Type}

/-- Whatever the trace, a program appends to it, and answers and appends as required. -/
def Ensures (program : StateM (List ε) α) (post : α → List ε → Prop) : Prop :=
  ∀ trace, ∃ added,
    (program.run trace).2 = trace ++ added ∧ post (program.run trace).1 added

/-- What a program appends to a trace. -/
def appended (program : StateM (List ε) α) (trace : List ε) : List ε :=
  (program.run trace).2.drop trace.length

variable {program : StateM (List ε) α} {post : α → List ε → Prop}

theorem Ensures.run_eq (ensures : Ensures program post) (trace : List ε)
    : (program.run trace).2 = trace ++ appended program trace := by
  obtain ⟨added, grown, _⟩ := ensures trace
  rw [appended, grown, List.drop_left]

theorem Ensures.appended (ensures : Ensures program post) (trace : List ε)
    : post (program.run trace).1 (appended program trace) := by
  obtain ⟨added, grown, holds⟩ := ensures trace
  rwa [Traces.appended, grown, List.drop_left]

theorem Ensures.mono {weaker : α → List ε → Prop} (ensures : Ensures program post)
    (implies : ∀ a added, post a added → weaker a added)
    : Ensures program weaker := by
  intro trace
  obtain ⟨added, grown, holds⟩ := ensures trace
  exact ⟨added, grown, implies _ added holds⟩

/-- A sequence runs its second part where its first ends. -/
theorem run_bind (next : α → StateM (List ε) β) (trace : List ε)
    : (program >>= next).run trace = (next (program.run trace).1).run (program.run trace).2 :=
  rfl

theorem ensures_pure (a : α)
    : Ensures (pure a : StateM (List ε) α) (fun answer added => answer = a ∧ added = []) :=
  fun trace => ⟨[], (List.append_nil trace).symm, rfl, rfl⟩

/-- A read of the trace appends nothing. -/
theorem ensures_get (answer : List ε → α)
    : Ensures (do return answer (← get)) (fun _ added => added = []) :=
  fun trace => ⟨[], (List.append_nil trace).symm, rfl⟩

theorem ensures_modify (event : ε)
    : Ensures (modify (· ++ [event])) (fun (_ : Unit) added => added = [event]) :=
  fun _ => ⟨[event], rfl, rfl⟩

/-- What a sequence appends is what its first part appends and then what its second does, the
latter from the longer trace.
-/
theorem Ensures.bind {next : α → StateM (List ε) β} (nextPost : α → β → List ε → Prop)
    (first : Ensures program post)
    (second : ∀ a added, post a added → Ensures (next a) (nextPost a))
    : Ensures (program >>= next) (fun b added =>
        ∃ a before after, added = before ++ after ∧ post a before ∧ nextPost a b after) := by
  intro trace
  obtain ⟨before, grown, holds⟩ := first trace
  obtain ⟨after, grownAfter, holdsAfter⟩ := second _ before holds (trace ++ before)
  have run
      : (program >>= next).run trace = (next (program.run trace).1).run (trace ++ before) := by
    rw [← grown, run_bind]
  refine ⟨before ++ after, ?_, (program.run trace).1, before, after, rfl, holds, ?_⟩
  · rw [run, grownAfter, List.append_assoc]
  · rwa [run]

section Shows

variable {γ : Type} {shown : ε → Option γ} {steps more : List γ}

/-- A program shows the same steps whatever the trace. -/
def Shows (shown : ε → Option γ) (program : StateM (List ε) α) (steps : List γ) : Prop :=
  Ensures program (fun _ added => added.filterMap shown = steps)

theorem shows_pure (a : α) : Shows shown (pure a) [] := by
  apply (ensures_pure a).mono
  intro _ added h
  obtain ⟨_, silent⟩ := h
  rw [silent, List.filterMap_nil]

theorem shows_get (answer : List ε → α) : Shows shown (do return answer (← get)) [] := by
  apply (ensures_get answer).mono
  intro _ added silent
  rw [silent, List.filterMap_nil]

theorem shows_modify (event : ε) : Shows shown (modify (· ++ [event])) (shown event).toList := by
  apply (ensures_modify event).mono
  intro _ added same
  rw [same]
  cases found : shown event <;> simp [found]

theorem Shows.bind {next : α → StateM (List ε) β} (first : Shows shown program steps)
    (second : ∀ a, Shows shown (next a) more)
    : Shows shown (program >>= next) (steps ++ more) := by
  apply (Ensures.bind _ first (fun a _ _ => second a)).mono
  intro _ added h
  obtain ⟨_, before, after, split, atFirst, atSecond⟩ := h
  rw [split, List.filterMap_append, atFirst, atSecond]

/-- A sequence shows what its first part shows when its second shows nothing. -/
theorem Shows.bind_silent {next : α → StateM (List ε) β} (first : Shows shown program steps)
    (second : ∀ a, Shows shown (next a) [])
    : Shows shown (program >>= next) steps := by
  simpa using first.bind second

/-- A sequence shows what its second part shows when its first shows nothing. -/
theorem Shows.silent_bind {next : α → StateM (List ε) β} (first : Shows shown program [])
    (second : ∀ a, Shows shown (next a) more)
    : Shows shown (program >>= next) more := by
  simpa using first.bind second

theorem shows_forM {step : α → StateM (List ε) PUnit} {stepShows : α → List γ}
    (each : ∀ a, Shows shown (step a) (stepShows a)) (items : List α)
    : Shows shown (forM items step) (items.flatMap stepShows) := by
  induction items with
  | nil => exact shows_pure _
  | cons a rest ih =>
      rw [List.forM_cons, List.flatMap_cons]
      exact (each a).bind (fun _ => ih)

theorem shows_foldlM {step : β → α → StateM (List ε) β} {stepShows : α → List γ}
    (each : ∀ b a, Shows shown (step b a) (stepShows a)) (items : List α) (b : β)
    : Shows shown (items.foldlM step b) (items.flatMap stepShows) := by
  induction items generalizing b with
  | nil => exact shows_pure _
  | cons a rest ih =>
      rw [List.foldlM_cons, List.flatMap_cons]
      exact (each b a).bind (fun b => ih b)

end Shows

/-- What a loop appends is what its rounds append, one after the other. By induction on the
items.
-/
theorem ensures_foldlM {step : β → α → StateM (List ε) β} {stepPost : α → List ε → Prop}
    (each : ∀ b a, Ensures (step b a) (fun _ added => stepPost a added)) (items : List α) (b : β)
    : Ensures (items.foldlM step b) (fun _ added =>
        ∃ parts : List (List ε), added = parts.flatten ∧ List.Forall₂ stepPost items parts) := by
  induction items generalizing b with
  | nil =>
      rw [List.foldlM_nil]
      apply (ensures_pure b).mono
      intro _ added h
      obtain ⟨_, silent⟩ := h
      exact ⟨[], silent, .nil⟩
  | cons a rest ih =>
      rw [List.foldlM_cons]
      apply (Ensures.bind _ (each b a) (fun b _ _ => ih b)).mono
      intro _ added h
      obtain ⟨_, before, after, split, first, parts, flat, others⟩ := h
      exact ⟨before :: parts, by rw [split, flat, List.flatten_cons], .cons first others⟩

/-- What each round of a loop keeps, about the items so far, the loop keeps. By induction on the
items still to come, for any done.
-/
theorem ensures_foldlM_invariant {step : β → α → StateM (List ε) β}
    {inv : List α → β → List ε → Prop}
    (each
      : ∀ done a b before,
          inv done b before
          → Ensures (step b a) (fun answer added => inv (done ++ [a]) answer (before ++ added)))
    (items : List α) {b : β} (initial : inv [] b [])
    : Ensures (items.foldlM step b) (inv items) := by
  suffices loop
      : ∀ done b before,
          inv done b before
          → Ensures (items.foldlM step b)
              (fun answer added => inv (done ++ items) answer (before ++ added)) from
    loop [] b [] initial
  induction items with
  | nil =>
      intro done b before holds
      apply (ensures_pure b).mono
      intro _ added h
      obtain ⟨same, silent⟩ := h
      rwa [same, silent, List.append_nil, List.append_nil]
  | cons a rest ih =>
      intro done b before holds trace
      obtain ⟨first, grown, step⟩ := each done a b before holds trace
      obtain ⟨others, grownAfter, loop⟩ := ih _ _ _ step (trace ++ first)
      refine ⟨first ++ others, ?_, ?_⟩
      · rw [List.foldlM_cons, run_bind, grown, grownAfter, List.append_assoc]
      · rw [List.foldlM_cons, run_bind, grown]
        simpa only [List.append_assoc, List.singleton_append] using loop

end Traces
