import DockDoe.Foundations.Traces
import DockDoe.Model.Stacks

/-! What the calls to an endpoint, and the waits for a container, leave in the trace. -/

namespace DockDoe

open Traces

/-- The step of a pass over a stack that an event is, if it is one. -/
def passStep : Event → Option PassStep
  | .step step => some step
  | _ => none

/-- The steps of passes over a stack among some events, in order. -/
def passSteps (events : List Event) : List PassStep :=
  events.filterMap passStep

/-- The container that an event stops, if it does. -/
def stoppedId : Event → Option Text
  | .applied .stop id _ => some id
  | _ => none

section Calls

variable {γ : Type} {shown : Event → Option γ}

theorem ensures_call {α : Type} (answer : List Event → α) (event : α → Event)
    : Ensures (call answer event) (fun a added => added = [event a]) :=
  fun _ => ⟨_, rfl, rfl⟩

theorem call_shows {α : Type} (answer : List Event → α) {event : α → Event} {steps : List γ}
    (same : ∀ a, (shown (event a)).toList = steps)
    : Shows shown (call answer event) steps := by
  apply (ensures_call answer event).mono
  intro a added only
  rw [only, ← same a]
  cases found : shown (event a) <;> simp [found]

theorem record_run (event : Event) (trace : List Event)
    : (record event).run trace = ((), trace ++ [event]) :=
  rfl

theorem now_run (endpoint : Endpoint) (trace : List Event)
    : endpoint.now.run trace = (endpoint.nowMs trace, trace) :=
  rfl

theorem apply_run (endpoint : Endpoint) (id : Text) (action : Action) (trace : List Event)
    : (endpoint.apply id action).run trace
      = (withContext (action.debug ++ " container ".toList ++ id)
          (endpoint.lifecycle trace action id),
        trace ++ [.applied action id (endpoint.lifecycle trace action id)]) :=
  rfl

theorem apply_shows (endpoint : Endpoint) (id : Text) (action : Action) {steps : List γ}
    (same : ∀ answer, (shown (.applied action id answer)).toList = steps := by intros; rfl)
    : Shows shown (endpoint.apply id action) steps :=
  (call_shows _ same).bind_silent (fun _ => shows_pure _)

end Calls

section Waits

variable {γ : Type} {shown : Event → Option γ}

/-- An observer to whom inspecting a container and sleeping are nothing. -/
structure SkipsPolls (shown : Event → Option γ) : Prop where
  inspected : ∀ id answer, shown (.inspected id answer) = none
  slept : ∀ ms, shown (.slept ms) = none

theorem skipsPolls_passStep : SkipsPolls passStep :=
  ⟨fun _ _ => rfl, fun _ => rfl⟩

theorem record_shows (step : PassStep)
    : Shows shown (record (.step step)) (shown (.step step)).toList :=
  shows_modify (Event.step step)

theorem now_silent (endpoint : Endpoint) : Shows shown endpoint.now [] :=
  shows_get endpoint.nowMs

theorem inspect_silent (skips : SkipsPolls shown) (endpoint : Endpoint) (id : Text)
    : Shows shown (endpoint.inspect id) [] :=
  call_shows _ (fun answer => by rw [skips.inspected, Option.toList_none])

theorem runState_silent (skips : SkipsPolls shown) (endpoint : Endpoint) (id : Text)
    : Shows shown (endpoint.runState id) [] := by
  apply (inspect_silent skips endpoint id).silent_bind
  intro answer
  cases answer with
  | error => exact shows_pure _
  | ok => exact shows_pure _

theorem isRunning_silent (skips : SkipsPolls shown) (endpoint : Endpoint) (id : Text)
    : Shows shown (endpoint.isRunning id) [] :=
  (runState_silent skips endpoint id).silent_bind (fun _ => shows_pure _)

theorem healthStatus_silent (skips : SkipsPolls shown) (endpoint : Endpoint) (id : Text)
    : Shows shown (endpoint.healthStatus id) [] := by
  apply (inspect_silent skips endpoint id).silent_bind
  intro answer
  cases answer with
  | error => exact shows_pure _
  | ok => exact shows_pure _

/-- Polling shows nothing when looking does not, by induction on the polls. -/
theorem pollUntil_silent (skips : SkipsPolls shown) (endpoint : Endpoint) {done : Calls Bool}
    (looks : Shows shown done []) (startMs polls : ℕ)
    : Shows shown (endpoint.pollUntil done startMs polls) [] := by
  induction polls with
  | zero => exact shows_pure _
  | succ polls ih =>
      apply looks.silent_bind
      intro isDone
      cases isDone with
      | true => exact shows_pure _
      | false =>
          apply (now_silent endpoint).silent_bind
          intro now
          by_cases late : now - startMs ≥ depWaitMs
          · simpa only [late, if_true] using shows_pure _
          · simp only [late, if_false]
            have sleeps
                : Shows shown (record (.slept depPollMs)) (shown (.slept depPollMs)).toList :=
              shows_modify _
            rw [skips.slept] at sleeps
            exact sleeps.silent_bind (fun _ => ih)

/-- A wait for health shows that it waits, and nothing else: looking at the clock and at the
health is silent.
-/
theorem waitHealthy_shows (skips : SkipsPolls shown) (endpoint : Endpoint) (id : Text)
    : Shows shown (endpoint.waitHealthy id) (shown (.step (.awaited .healthy id))).toList := by
  apply (record_shows (.awaited .healthy id)).bind_silent
  intro _
  apply (now_silent endpoint).silent_bind
  intro startMs
  apply pollUntil_silent skips
  apply (healthStatus_silent skips endpoint id).silent_bind
  intro status
  split <;> exact shows_pure _

/-- So does a wait for an exit. -/
theorem waitCompleted_shows (skips : SkipsPolls shown) (endpoint : Endpoint) (id : Text)
    : Shows shown (endpoint.waitCompleted id)
        (shown (.step (.awaited .completedSuccessfully id))).toList := by
  apply (record_shows (.awaited .completedSuccessfully id)).bind_silent
  intro _
  apply (now_silent endpoint).silent_bind
  intro startMs
  apply pollUntil_silent skips
  apply (runState_silent skips endpoint id).silent_bind
  intro state
  split <;> exact shows_pure _

end Waits

end DockDoe
