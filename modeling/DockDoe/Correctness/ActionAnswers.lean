import DockDoe.Model.Handlers

/-! How a node answers an action, and what has happened at its hosts then. -/

namespace DockDoe

/-- What has happened at the Docker endpoint of a host. -/
def AppState.eventsAt (state : AppState) (host : Text) : List Event :=
  match state.hosts.lookup host with
  | some { source := .docker _ events, .. } => events
  | _ => []

/-- Whether a container action has made its Docker call, with success. -/
def AppState.Recorded (before after : AppState) (host id name : Text) : Prop :=
  ∃ action,
    Action.parse name = some action
    ∧ after.eventsAt host = before.eventsAt host ++ [.applied action id (.ok ())]

/-- A container action that is answered with buttons although no Docker call has succeeded:
Docker has denied it, or it was forwarded once more.
-/
inductive AppState.Pretends (state : AppState) (host id name : Text) : Prop
  | denied {around events readOnly action error}
    (found : state.hosts.lookup host = some { source := .docker around events, readOnly })
    (parsed : Action.parse name = some action)
    (answer : around.endpoint.lifecycle events action id = .error error)
    (forbidden : error.isForbidden = true)
  | relayed {forwardAction readOnly action}
    (found : state.hosts.lookup host = some { source := .node forwardAction, readOnly })
    (parsed : Action.parse name = some action)
    (outcome
      : nodeOutcome (forwardAction ("/api/container/".toList ++ id ++ '/' :: name)) = .applied
        ∨ nodeOutcome (forwardAction ("/api/container/".toList ++ id ++ '/' :: name)) = .denied)

section Handlers

variable {state : AppState} {host id name : Text}

/-- An entry that is replaced is found as what replaces it, by induction on the hosts. -/
theorem lookup_map {α : Type} {hosts : List (Text × α)} {host : Text} {old : α} (rt : α)
    (found : hosts.lookup host = some old)
    : (hosts.map (fun entry => (entry.1, if entry.1 = host then rt else entry.2))).lookup host
      = some rt := by
  induction hosts with
  | nil => cases found
  | cons entry rest ih =>
      rw [List.lookup_cons] at found
      rw [List.map_cons, List.lookup_cons]
      cases same : host == entry.1 with
      | true => simp [(beq_iff_eq.mp same).symm]
      | false =>
          rw [same] at found
          exact ih found

/-- What has happened at a host is recorded with its runtime. -/
theorem eventsAt_withRuntime {old : HostRuntime} (found : state.hosts.lookup host = some old)
    (around : Surroundings) (events : List Event) (readOnly : Bool)
    : (state.withRuntime host { source := .docker around events, readOnly }).eventsAt host
      = events := by
  unfold AppState.eventsAt AppState.withRuntime
  rw [lookup_map _ found]

theorem eventsAt_withRuntime_node {old : HostRuntime}
    (found : state.hosts.lookup host = some old) (forwardAction : Text → Except Text (ℕ × Text))
    (readOnly : Bool)
    : (state.withRuntime host { source := .node forwardAction, readOnly }).eventsAt host = [] := by
  unfold AppState.eventsAt AppState.withRuntime
  rw [lookup_map _ found]

/-- The run of a container action at a Docker endpoint. -/
theorem containerAction_docker (id : Text) {around : Surroundings} {events : List Event}
    {readOnly : Bool} {action : Action}
    (found : state.hosts.lookup host = some { source := .docker around events, readOnly })
    (parsed : Action.parse name = some action)
    : ∃ answer,
        answer
          = containerAnswer host id readOnly
              (withContext (action.debug ++ " container ".toList ++ id)
                (around.endpoint.lifecycle events action id))
        ∧ state.containerAction host id name
          = (answer.1, state.withRuntime host {
              source :=
                .docker around
                  (events ++ [.applied action id (around.endpoint.lifecycle events action id)])
              readOnly := answer.2 }) := by
  refine ⟨_, rfl, ?_⟩
  unfold AppState.containerAction Surroundings.containerAction
  rw [found, parsed]
  rfl

theorem containerAction_node (id : Text) {forwardAction : Text → Except Text (ℕ × Text)}
    {readOnly : Bool} {action : Action}
    (found : state.hosts.lookup host = some { source := .node forwardAction, readOnly })
    (parsed : Action.parse name = some action)
    : ∃ answer,
        answer
          = (nodeOutcome (forwardAction ("/api/container/".toList ++ id ++ '/' :: name))).answer
              (.actionButtons host id) readOnly
        ∧ state.containerAction host id name
          = (answer.1, state.withRuntime host {
              source := .node forwardAction
              readOnly := answer.2 }) := by
  refine ⟨_, rfl, ?_⟩
  unfold AppState.containerAction
  rw [found, parsed]

/-- A node pretends at an endpoint of its own exactly when Docker denies the call, for the other
way needs a host behind a further node.
-/
theorem pretends_docker_iff (id : Text) {around : Surroundings} {events : List Event}
    {readOnly : Bool} {action : Action}
    (found : state.hosts.lookup host = some { source := .docker around events, readOnly })
    (parsed : Action.parse name = some action)
    : state.Pretends host id name
      ↔ ∃ error,
          around.endpoint.lifecycle events action id = .error error
          ∧ error.isForbidden = true := by
  constructor
  · intro pretends
    cases pretends with
    | denied other otherParsed answer forbidden =>
        cases found.symm.trans other
        cases parsed.symm.trans otherParsed
        exact ⟨_, answer, forbidden⟩
    | relayed other => cases found.symm.trans other
  · intro h
    obtain ⟨error, answer, forbidden⟩ := h
    exact .denied found parsed answer forbidden

/-- A node pretends at a host behind a further node exactly when that one applies or denies the
action, for the other way needs an endpoint of its own.
-/
theorem pretends_node_iff (id : Text) {forwardAction : Text → Except Text (ℕ × Text)}
    {readOnly : Bool} {action : Action}
    (found : state.hosts.lookup host = some { source := .node forwardAction, readOnly })
    (parsed : Action.parse name = some action)
    : state.Pretends host id name
      ↔ nodeOutcome (forwardAction ("/api/container/".toList ++ id ++ '/' :: name)) = .applied
        ∨ nodeOutcome (forwardAction ("/api/container/".toList ++ id ++ '/' :: name))
          = .denied := by
  constructor
  · intro pretends
    cases pretends with
    | denied other => cases found.symm.trans other
    | relayed other _ outcome =>
        cases found.symm.trans other
        exact outcome
  · exact .relayed found parsed

/-- Only a known host and a known action make an answer that pretends. -/
theorem known_of_pretends (pretends : state.Pretends host id name)
    : state.hosts.lookup host ≠ none ∧ Action.parse name ≠ none := by
  cases pretends with
  | denied found parsed => simp [found, parsed]
  | relayed found parsed => simp [found, parsed]

/-- The three ways in which a container action ends: it is applied, it is answered as if it
were, or it fails.
-/
inductive ActionEnd (state : AppState) (host id name : Text) (result : Response × AppState) : Prop
  | applied
    (recorded : state.Recorded result.2 host id name)
    (status : result.1.status = 200)
    (honest : ¬ state.Pretends host id name)
  | pretended
    (unrecorded : ¬ state.Recorded result.2 host id name)
    (status : result.1.status = 200)
    (pretends : state.Pretends host id name)
  | failed
    (status : result.1.status = 400 ∨ result.1.status = 404 ∨ result.1.status = 502)
    (honest : ¬ state.Pretends host id name)

/-- A container action at a Docker endpoint ends by the answer to its call, by the cases of the
answer: success, a denial that is answered like one, and any other failure.
-/
theorem actionEnd_docker {around : Surroundings} {events : List Event} {readOnly : Bool}
    {action : Action}
    (found : state.hosts.lookup host = some { source := .docker around events, readOnly })
    (parsed : Action.parse name = some action)
    : ActionEnd state host id name (state.containerAction host id name) := by
  obtain ⟨answer, answered, result⟩ := containerAction_docker id found parsed
  have before : state.eventsAt host = events := by
    rw [AppState.eventsAt, found]
  have honesty := pretends_docker_iff id found parsed
  rw [result]
  cases outcome : around.endpoint.lifecycle events action id with
  | ok =>
      rw [outcome] at answered honesty
      apply ActionEnd.applied
      · exact ⟨action, parsed, by rw [eventsAt_withRuntime found, before]⟩
      · rw [answered]
        rfl
      · rw [honesty]
        intro h
        obtain ⟨_, failed, _⟩ := h
        cases failed
  | error error =>
      rw [outcome] at answered honesty
      cases forbidden : error.isForbidden with
      | true =>
          apply ActionEnd.pretended
          · intro h
            obtain ⟨other, _, recorded⟩ := h
            rw [eventsAt_withRuntime found, before] at recorded
            cases List.append_cancel_left recorded
          · rw [answered]
            simp [containerAnswer, withContext, isForbidden, forbidden, Response.ok]
          · exact honesty.mpr ⟨error, rfl, forbidden⟩
      | false =>
          apply ActionEnd.failed
          · rw [answered]
            simp [containerAnswer, withContext, isForbidden, forbidden, Response.plain]
          · rw [honesty]
            intro h
            obtain ⟨other, same, denied⟩ := h
            cases same
            cases forbidden.symm.trans denied

/-- A container action that is forwarded once more makes no call of its own, and ends by the
cases of what becomes of it there.
-/
theorem actionEnd_node {forwardAction : Text → Except Text (ℕ × Text)} {readOnly : Bool}
    {action : Action}
    (found : state.hosts.lookup host = some { source := .node forwardAction, readOnly })
    (parsed : Action.parse name = some action)
    : ActionEnd state host id name (state.containerAction host id name) := by
  obtain ⟨answer, answered, result⟩ := containerAction_node id found parsed
  have unrecorded
      : ¬ state.Recorded
          (state.withRuntime host { source := .node forwardAction, readOnly := answer.2 })
          host id name := by
    intro h
    obtain ⟨_, _, recorded⟩ := h
    rw [eventsAt_withRuntime_node found] at recorded
    simp at recorded
  have honesty := pretends_node_iff id found parsed
  rw [result]
  cases outcome
      : nodeOutcome (forwardAction ("/api/container/".toList ++ id ++ '/' :: name)) with
  | applied =>
      rw [outcome] at answered honesty
      exact .pretended unrecorded (by rw [answered]; rfl) (honesty.mpr (Or.inl rfl))
  | denied =>
      rw [outcome] at answered honesty
      exact .pretended unrecorded (by rw [answered]; rfl) (honesty.mpr (Or.inr rfl))
  | rejected body =>
      rw [outcome] at answered honesty
      exact .failed (by rw [answered]; exact Or.inr (Or.inr rfl)) (by simp [honesty])
  | unreachable =>
      rw [outcome] at answered honesty
      exact .failed (by rw [answered]; exact Or.inr (Or.inr rfl)) (by simp [honesty])

/-- Witness: the host's source and the answer to the call decide. -/
theorem containerAction_end (state : AppState) (host id name : Text)
    : ActionEnd state host id name (state.containerAction host id name) := by
  cases found : state.hosts.lookup host with
  | none =>
      have status : (state.containerAction host id name).1.status = 404 := by
        rw [AppState.containerAction, found]
        rfl
      exact .failed (Or.inr (Or.inl status))
        (fun pretends => (known_of_pretends pretends).1 found)
  | some rt =>
      obtain ⟨source, readOnly⟩ := rt
      cases parsed : Action.parse name with
      | none =>
          have status : (state.containerAction host id name).1.status = 400 := by
            rw [AppState.containerAction, found]
            cases source <;> simp only [Surroundings.containerAction, parsed] <;> rfl
          exact .failed (Or.inl status) (fun pretends => (known_of_pretends pretends).2 parsed)
      | some action =>
          cases source with
          | docker around events => exact actionEnd_docker found parsed
          | node forwardAction => exact actionEnd_node found parsed

/-- The outcome of a stack action is answered with success or a bad gateway, by its cases. -/
theorem stackAnswer_status (host name : Text) (readOnly : Bool)
    (result : Except Failure StackOutcome)
    : (stackAnswer host name readOnly result).1.status = 200
      ∨ (stackAnswer host name readOnly result).1.status = 502 := by
  unfold stackAnswer
  split
  next => exact Or.inl rfl
  next =>
    split
    next => exact Or.inl rfl
    next => exact Or.inr rfl

theorem nodeAnswer_status (buttons : Bool → Body) (readOnly : Bool) (outcome : NodeOutcome)
    : (outcome.answer buttons readOnly).1.status = 200
      ∨ (outcome.answer buttons readOnly).1.status = 502 := by
  cases outcome with
  | applied => exact Or.inl rfl
  | denied => exact Or.inl rfl
  | rejected => exact Or.inr rfl
  | unreachable => exact Or.inr rfl

/-- A stack action is answered with one of four statuses, by the cases of the host, of the
action's name and of the outcome.
-/
theorem stackAction_status {state after : AppState} {host name action : Text} {answer : Response}
    (answered : state.stackAction host name action = some (answer, after))
    : answer.status = 200 ∨ answer.status = 400 ∨ answer.status = 404 ∨ answer.status = 502 := by
  unfold AppState.stackAction at answered
  split at answered
  next =>
    cases answered
    exact Or.inr (Or.inr (Or.inl rfl))
  next rt found =>
    split at answered
    next around events docker =>
      obtain ⟨⟨finished, readOnly⟩, run, same⟩ := Option.map_eq_some_iff.mp answered
      cases same
      cases parsed : Action.parse action with
      | none =>
          simp only [parsed] at run
          cases run
          exact Or.inr (Or.inl rfl)
      | some act =>
          simp only [parsed] at run
          obtain ⟨result, _, same⟩ := Option.map_eq_some_iff.mp run
          have status := stackAnswer_status host name rt.readOnly result
          rw [same] at status
          exact status.imp_right (fun failed => Or.inr (Or.inr failed))
    next forwardAction node =>
      split at answered
      next =>
        cases answered
        exact Or.inr (Or.inl rfl)
      next =>
        cases answered
        exact (nodeAnswer_status _ _ _).imp_right (fun failed => Or.inr (Or.inr failed))

end Handlers

end DockDoe
