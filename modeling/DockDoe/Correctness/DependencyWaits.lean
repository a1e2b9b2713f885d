import DockDoe.Correctness.EndpointCalls
import DockDoe.Correctness.StackOrder

/-! When a start waits for the dependencies of its member.
A pass takes the members in turn, and a turn waits for one container of each service that
its member names with a condition.
-/

namespace DockDoe

open Traces

/-- Every start waits for the conditions of its member's dependencies, on each of their
containers, after the member was found not running.
-/
def AwaitsDependencies (members : List Member) (steps : List PassStep) : Prop :=
  ∀ before m after,
    steps = before ++ .starting m :: after
    → ∃ early late,
        before = early ++ .checked m false :: late
        ∧ ∀ d ∈ m.deps,
            d.condition ≠ .started
            → ∀ other ∈ members,
                other.service = d.service → .awaited d.condition other.id ∈ late

/-- Each container of a service that a member names with a condition is the one some service
that it names with that condition stands for.
-/
def AwaitsEach (members : List Member) (m : Member) : Prop :=
  ∀ d ∈ m.deps,
    d.condition ≠ .started
    → ∀ other ∈ members,
        other.service = d.service
        → ∃ e ∈ m.deps, e.condition = d.condition ∧ idByService members e.service = some other.id

section Turns

variable {members : List Member}

/-- The wait for one dependency. -/
def awaited (members : List Member) (d : Dep) : Option PassStep :=
  match d.condition with
  | .started => none
  | condition => (idByService members d.service).map (.awaited condition)

/-- One member's turn in a pass. -/
def turn (members : List Member) : Member × Bool → List PassStep
  | (m, true) => [.checked m true]
  | (m, false) => .checked m false :: (m.deps.filterMap (awaited members) ++ [.starting m])

/-- A wait for a dependency shows the step of waiting, if there is something to wait for, by the
cases of the condition and the service.
-/
theorem awaitDep_shows {γ : Type} {shown : Event → Option γ} (skips : SkipsPolls shown)
    (endpoint : Endpoint) (members : List Member) (d : Dep)
    : Shows shown (endpoint.awaitDep members d)
        ((awaited members d).bind (fun step => shown (.step step))).toList := by
  unfold Endpoint.awaitDep awaited
  cases d.condition with
  | started => cases idByService members d.service <;> exact shows_pure _
  | healthy =>
      cases idByService members d.service with
      | none => exact shows_pure _
      | some id => exact waitHealthy_shows skips endpoint id
  | completedSuccessfully =>
      cases idByService members d.service with
      | none => exact shows_pure _
      | some id => exact waitCompleted_shows skips endpoint id

/-- Before it is started, a member waits for its dependencies one after the other, which the loop
over them shows.
-/
theorem startStopped_shows (endpoint : Endpoint) (members : List Member) (tally : ℕ × Bool)
    (m : Member)
    : Shows passStep (endpoint.startStopped members tally m)
        (m.deps.filterMap (awaited members) ++ [.starting m]) := by
  rw [List.filterMap_eq_flatMap_toList]
  have waits (d : Dep)
      : Shows passStep (endpoint.awaitDep members d) (awaited members d).toList := by
    simpa [passStep] using awaitDep_shows skipsPolls_passStep endpoint members d
  apply (shows_forM waits m.deps).bind
  intro _
  apply (record_shows (.starting m)).bind_silent
  intro _
  apply (apply_shows endpoint m.id .start).silent_bind
  intro result
  cases result with
  | ok => exact shows_pure _
  | error => exact shows_pure _

/-- A member's turn checks it and, if it does not run, waits and starts it, by the answer to the
check.
-/
theorem startMember_ensures (endpoint : Endpoint) (members : List Member) (tally : ℕ × Bool)
    (m : Member)
    : Ensures (endpoint.startMember members tally m) (fun _ added =>
        ∃ running, added.filterMap passStep = turn members (m, running)) := by
  have rest (running : Bool)
      : Shows passStep
          (do
            record (.step (.checked m running))
            if running then return tally else endpoint.startStopped members tally m)
          (turn members (m, running)) := by
    cases running with
    | true => exact (record_shows (.checked m true)).bind_silent (fun _ => shows_pure tally)
    | false =>
        exact (record_shows (.checked m false)).bind
          (fun _ => startStopped_shows endpoint members tally m)
  apply (Ensures.bind _ (isRunning_silent skipsPolls_passStep endpoint m.id)
      (fun running _ _ => rest running)).mono
  intro _ added h
  obtain ⟨running, before, after, split, silent, shows⟩ := h
  exact ⟨running, by rw [split, List.filterMap_append, silent, shows, List.nil_append]⟩

/-- A pass takes the members in turn, each found running or not, by induction on the turns that
the loop shows.
-/
theorem startPass_turns (endpoint : Endpoint) (members : List Member) (events : List Event)
    : ∃ turns : List (Member × Bool),
        turns.map Prod.fst = topoOrder members
        ∧ passSteps (appended (endpoint.startPass members) events)
          = turns.flatMap (turn members) := by
  have loop := ensures_foldlM (startMember_ensures endpoint members) (topoOrder members) (0, false)
  obtain ⟨parts, flat, each⟩ := loop.appended events
  change ∃ turns, _ ∧ passSteps (appended ((topoOrder members).foldlM _ _) events) = _
  rw [flat]
  clear flat loop
  generalize topoOrder members = order at each ⊢
  induction each with
  | nil => exact ⟨[], rfl, rfl⟩
  | @cons m part _ _ first _ ih =>
      obtain ⟨running, shows⟩ := first
      obtain ⟨turns, taken, steps⟩ := ih
      refine ⟨(m, running) :: turns, by rw [List.map_cons, taken], ?_⟩
      rw [List.flatten_cons, passSteps, List.filterMap_append, shows, List.flatMap_cons]
      exact congrArg _ steps

/-- What is waited for is the container of the dependency's service, by the cases of the
condition.
-/
theorem awaited_eq_some {d : Dep} {step : PassStep} (found : awaited members d = some step)
    : ∃ id,
        idByService members d.service = some id
        ∧ d.condition ≠ .started
        ∧ step = .awaited d.condition id := by
  unfold awaited at found
  cases condition : d.condition with
  | started => simp [condition] at found
  | healthy =>
      simp only [condition, Option.map_eq_some_iff] at found
      obtain ⟨id, stands, rfl⟩ := found
      exact ⟨id, stands, by decide, rfl⟩
  | completedSuccessfully =>
      simp only [condition, Option.map_eq_some_iff] at found
      obtain ⟨id, stands, rfl⟩ := found
      exact ⟨id, stands, by decide, rfl⟩

theorem mem_awaits {m : Member} {step : PassStep} (wait : step ∈ m.deps.filterMap (awaited members))
    : ∃ e ∈ m.deps, ∃ id,
        idByService members e.service = some id
        ∧ e.condition ≠ .started
        ∧ step = .awaited e.condition id := by
  obtain ⟨e, dep, found⟩ := List.mem_filterMap.mp wait
  exact ⟨e, dep, awaited_eq_some found⟩

/-- A member's start ends its turn, as no other step of a turn is a start. -/
theorem turn_of_starting {m n : Member} {running : Bool} {before after : List PassStep}
    (split : turn members (n, running) = before ++ .starting m :: after)
    : n = m
      ∧ running = false
      ∧ before = .checked m false :: m.deps.filterMap (awaited members) := by
  have started : PassStep.starting m ∈ turn members (n, running) := by simp [split]
  cases running with
  | true => simp [turn] at started
  | false =>
      have notWaiting {m n : Member}
          : PassStep.starting m
            ∉ PassStep.checked n false :: n.deps.filterMap (awaited members) := by
        intro member
        rcases List.mem_cons.mp member with check | wait
        · cases check
        · obtain ⟨_, _, _, _, _, wait⟩ := mem_awaits wait
          cases wait
      have same : n = m := by
        have last := started
        rw [turn, ← List.cons_append, List.mem_append] at last
        rcases last with waiting | last
        · exact absurd waiting notWaiting
        · exact (PassStep.starting.inj (List.mem_singleton.mp last)).symm
      subst same
      rw [turn, ← List.cons_append] at split
      exact ⟨rfl, rfl, (Cuts.divide_unique notWaiting List.not_mem_nil split).1.symm⟩

/-- A start in a pass belongs to the turn of its member, by induction on the turns. -/
theorem turns_of_starting {turns : List (Member × Bool)} {m : Member}
    {before after : List PassStep}
    (split : turns.flatMap (turn members) = before ++ .starting m :: after)
    : ∃ earlier later,
        turns = earlier ++ (m, false) :: later
        ∧ before
          = earlier.flatMap (turn members)
            ++ .checked m false :: m.deps.filterMap (awaited members) := by
  induction turns generalizing before with
  | nil => simp at split
  | cons first rest ih =>
      rw [List.flatMap_cons, List.append_eq_append_iff] at split
      rcases split with ⟨inRest, whole, split⟩ | ⟨start, whole, split⟩
      · obtain ⟨earlier, later, turns, steps⟩ := ih split
        exact ⟨first :: earlier, later, by rw [turns, List.cons_append],
          by rw [whole, steps, List.flatMap_cons, List.append_assoc]⟩
      · cases start with
        | nil =>
            have inRest : rest.flatMap (turn members) = [] ++ .starting m :: after := split.symm
            obtain ⟨earlier, later, turns, steps⟩ := ih inRest
            simp at steps
        | cons step start =>
            obtain ⟨rfl, _⟩ := List.cons.inj split
            obtain ⟨rfl, stopped, rfl⟩ := turn_of_starting whole
            exact ⟨[], rest, by rw [← stopped]; rfl, rfl⟩

/-- A pass finds a member stopped in the member's turn, for a turn checks no other member. -/
theorem checked_mem_iff {turns : List (Member × Bool)} {m : Member}
    : .checked m false ∈ turns.flatMap (turn members) ↔ (m, false) ∈ turns := by
  rw [List.mem_flatMap]
  constructor
  · intro h
    obtain ⟨⟨n, running⟩, member, check⟩ := h
    cases running with
    | true => simp [turn] at check
    | false =>
        rw [turn, List.mem_cons, List.mem_append] at check
        rcases check with check | wait | start
        · cases check
          exact member
        · obtain ⟨_, _, _, _, _, wait⟩ := mem_awaits wait
          cases wait
        · simp at start
  · intro member
    exact ⟨(m, false), member, List.mem_cons_self⟩

/-- The waits of a turn include those for each conditional dependency whose service stands for a
container.
-/
theorem awaited_mem {m : Member} {e : Dep} (dep : e ∈ m.deps) (conditional : e.condition ≠ .started)
    {id : Text} (stands : idByService members e.service = some id)
    : .awaited e.condition id ∈ m.deps.filterMap (awaited members) := by
  apply List.mem_filterMap.mpr
  refine ⟨e, dep, ?_⟩
  unfold awaited
  cases condition : e.condition with
  | started => exact absurd condition conditional
  | healthy => simp [stands]
  | completedSuccessfully => simp [stands]

/-- Turns wait for all dependencies when each member found not running awaits each.
Witness: the waits between a member's check and its start are those of its own turn.
-/
theorem turns_await_iff (turns : List (Member × Bool))
    : AwaitsDependencies members (turns.flatMap (turn members))
      ↔ ∀ m, .checked m false ∈ turns.flatMap (turn members) → AwaitsEach members m := by
  constructor
  · intro awaits m check
    obtain ⟨earlier, later, rfl, first⟩ := List.eq_append_cons_of_mem (checked_mem_iff.mp check)
    have waits : .checked m false ∉ m.deps.filterMap (awaited members) := by
      intro wait
      obtain ⟨_, _, _, _, _, wait⟩ := mem_awaits wait
      cases wait
    obtain ⟨early, late, split, awaitsLate⟩ :=
      awaits
        (earlier.flatMap (turn members)
          ++ .checked m false :: m.deps.filterMap (awaited members))
        m (later.flatMap (turn members)) (by simp [turn])
    obtain ⟨_, rfl⟩ :=
      Cuts.divide_unique (fun check => first (checked_mem_iff.mp check)) waits split
    intro d dep conditional other member service
    obtain ⟨e, depE, id, stands, _, same⟩ :=
      mem_awaits (awaitsLate d dep conditional other member service)
    obtain ⟨sameCondition, sameId⟩ := PassStep.awaited.inj same
    exact ⟨e, depE, sameCondition.symm, sameId ▸ stands⟩
  · intro each before m after split
    obtain ⟨earlier, later, rfl, rfl⟩ := turns_of_starting split
    refine ⟨_, _, rfl, ?_⟩
    intro d dep conditional other member service
    have check : .checked m false ∈ (earlier ++ (m, false) :: later).flatMap (turn members) :=
      checked_mem_iff.mpr (by simp)
    obtain ⟨e, depE, same, stands⟩ := each m check d dep conditional other member service
    rw [← same]
    exact awaited_mem depE (same ▸ conditional) stands

end Turns

section Down

/-- An endpoint at which nothing runs or can be inspected, and everything can be started. -/
def downEndpoint : Endpoint where
  listContainers _ := .ok []
  inspectContainer _ _ := .error (.other [])
  lifecycle _ _ _ := .ok ()
  createExec _ _ _ := .error (.other [])
  startExec _ _ := .error (.other [])
  resizeExec _ _ _ _ := .error (.other [])
  nowMs _ := 0

/-- At an endpoint where nothing runs, a turn is that of a stopped member. -/
theorem startMember_down (members : List Member) (tally : ℕ × Bool) (m : Member)
    : Shows passStep (downEndpoint.startMember members tally m) (turn members (m, false)) := by
  have isDown
      : Ensures (downEndpoint.isRunning m.id)
          (fun running added => running = false ∧ added.filterMap passStep = []) :=
    fun trace => ⟨[.inspected m.id (.error (.other []))], rfl, rfl, rfl⟩
  have rest (running : Bool) (stopped : running = false)
      : Shows passStep
          (do
            record (.step (.checked m running))
            if running then return tally else downEndpoint.startStopped members tally m)
          (turn members (m, false)) := by
    subst stopped
    exact (record_shows (.checked m false)).bind
      (fun _ => startStopped_shows downEndpoint members tally m)
  apply (Ensures.bind _ isDown (fun running _ holds => rest running holds.1)).mono
  intro _ added h
  obtain ⟨running, before, after, split, ⟨_, silent⟩, shows⟩ := h
  rw [split, List.filterMap_append, silent, shows, List.nil_append]

theorem startPass_down (members : List Member) (events : List Event)
    : passSteps (appended (downEndpoint.startPass members) events)
      = (topoOrder members).flatMap (fun m => turn members (m, false)) :=
  (shows_foldlM (startMember_down members) (topoOrder members) (0, false)).appended events

end Down

/-- A pass waits for all dependencies exactly when the members it finds not running await
each of their containers; every pass does exactly when all members do.
Witness: at an endpoint where nothing runs, a pass starts every member.
-/
theorem awaitsDependencies_iff (members : List Member)
    : (∀ (endpoint : Endpoint) (events : List Event),
        AwaitsDependencies members (passSteps (appended (endpoint.startPass members) events))
        ↔ ∀ m,
            .checked m false ∈ passSteps (appended (endpoint.startPass members) events)
            → AwaitsEach members m)
      ∧ ((∀ (endpoint : Endpoint) (events : List Event),
          AwaitsDependencies members (passSteps (appended (endpoint.startPass members) events)))
        ↔ ∀ m ∈ members, AwaitsEach members m) := by
  have onePass (endpoint : Endpoint) (events : List Event)
      : AwaitsDependencies members (passSteps (appended (endpoint.startPass members) events))
        ↔ ∀ m,
            .checked m false ∈ passSteps (appended (endpoint.startPass members) events)
            → AwaitsEach members m := by
    obtain ⟨turns, _, steps⟩ := startPass_turns endpoint members events
    rw [steps]
    exact turns_await_iff turns
  refine ⟨onePass, ?_⟩
  constructor
  · intro every m member
    apply (onePass downEndpoint []).mp (every downEndpoint []) m
    rw [startPass_down, List.mem_flatMap]
    exact ⟨m, (topoOrder_perm members).mem_iff.mpr member, List.mem_cons_self⟩
  · intro each endpoint events
    apply (onePass endpoint events).mpr
    intro m check
    obtain ⟨turns, order, steps⟩ := startPass_turns endpoint members events
    rw [steps, checked_mem_iff] at check
    apply each m
    apply (topoOrder_perm members).mem_iff.mp
    rw [← order]
    exact List.mem_map_of_mem check

section ScaledDatabase

/-- An app that needs a healthy database. -/
def needyApp : Member where
  id := "app".toList
  service := "app".toList
  deps := [{ service := "db".toList, condition := .healthy }]

/-- A stack with two containers of the database that its app needs. -/
def scaledDatabase : List Member :=
  [{ id := "db-1".toList, service := "db".toList, deps := [] },
    { id := "db-2".toList, service := "db".toList, deps := [] },
    needyApp]

/-- Only one of two database containers is waited for, the last one of the service. -/
theorem scaledDatabase_not_awaited
    : ¬ AwaitsDependencies scaledDatabase
        (passSteps (appended (downEndpoint.startPass scaledDatabase) [])) := by
  rw [startPass_down]
  intro awaits
  obtain ⟨early, late, split, waits⟩ :=
    awaits ((topoOrder scaledDatabase).flatMap (fun m => turn scaledDatabase (m, false))).dropLast
      needyApp [] (by decide)
  have wait := waits { service := "db".toList, condition := .healthy } (by decide) (by decide)
    { id := "db-1".toList, service := "db".toList, deps := [] } (by decide) rfl
  have inPass := List.mem_append_right early (List.mem_cons_of_mem (.checked needyApp false) wait)
  rw [← split] at inPass
  exact absurd inPass (by decide)

end ScaledDatabase

end DockDoe
