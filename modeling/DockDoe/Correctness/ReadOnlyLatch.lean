import DockDoe.Correctness.EndpointCalls
import DockDoe.Model.HostActions

/-! When a denied call makes its host read-only.
A container action and the opening of a terminal hand a `403 Forbidden` on to their handler.
A stack action only counts the failures of its members, and a terminal drops the answers to
its resizes.
-/

namespace DockDoe

open Traces

/-- The status 403 of an answer. -/
def answeredForbidden {α : Type} : Except BollardError α → Bool
  | .ok _ => false
  | .error error => error.isForbidden

/-- A start, stop, restart or exec call that was answered 403. -/
def Event.denied : Event → Bool
  | .applied _ _ answer => answeredForbidden answer
  | .execCreated _ _ answer => answeredForbidden answer
  | .execStarted _ answer => answeredForbidden answer
  | .execResized _ _ _ answer => answeredForbidden answer
  | _ => false

/-- A resize of a terminal that was answered 403. -/
def Event.deniedResize : Event → Bool
  | .execResized _ _ _ answer => answeredForbidden answer
  | _ => false

namespace Handled

/-- What happened at the endpoint during a request. -/
def events (handled : Handled) : List Event :=
  handled.after.events.drop handled.before.events.length

/-- A call denied during a request leaves its host read-only. -/
def Latches (handled : Handled) : Prop :=
  (∃ e ∈ handled.events, e.denied = true) → handled.after.readOnly = true

/-- A request whose denied calls are all noticed: none of the members of a stack action is
denied, and no resize of a terminal, unless the host was read-only before.
-/
def NoticesDenials (handled : Handled) : Prop :=
  handled.before.readOnly = true
  ∨ match handled.request with
    | .container _ _ => True
    | .stack _ _ => ∀ e ∈ handled.events, e.denied = false
    | .terminal _ _ _ => ∀ e ∈ handled.events, e.deniedResize = false

end Handled

/-- Whether a result is a Docker 403, under whatever context. -/
def failsForbidden {α : Type} : Except Failure α → Bool
  | .ok _ => false
  | .error err => isForbidden err

@[simp]
theorem failsForbidden_withContext {α : Type} (context : Text) (answer : Except BollardError α)
    : failsForbidden (withContext context answer) = answeredForbidden answer := by
  cases answer <;> rfl

section Requests

variable (around : Surroundings) (host id : Text) (readOnly : Bool)

theorem containerAnswer_flag (result : Except Failure Unit)
    : (containerAnswer host id readOnly result).2 = (readOnly || failsForbidden result) := by
  cases result with
  | ok => simp [containerAnswer, failsForbidden]
  | error err =>
      cases forbidden : isForbidden err <;> simp [containerAnswer, failsForbidden, forbidden]

theorem stackAnswer_flag (name : Text) (result : Except Failure StackOutcome)
    : (stackAnswer host name readOnly result).2 = (readOnly || failsForbidden result) := by
  cases result with
  | ok => simp [stackAnswer, failsForbidden]
  | error err => cases forbidden : isForbidden err <;> simp [stackAnswer, failsForbidden, forbidden]

/-- A container action sets the flag when its call is denied; an unknown action calls nothing. -/
theorem containerAction_ensures (action : Text)
    : Ensures (around.containerAction host id action readOnly) (fun answer added =>
        answer.2 = true ↔ readOnly = true ∨ ∃ e ∈ added, e.denied = true) := by
  unfold Surroundings.containerAction
  cases Action.parse action with
  | none =>
      apply (ensures_pure _).mono
      intro _ added h
      obtain ⟨same, silent⟩ := h
      simp [same, silent]
  | some parsed =>
      intro trace
      refine ⟨[.applied parsed id (around.endpoint.lifecycle trace parsed id)], rfl, ?_⟩
      change (containerAnswer host id readOnly
        (withContext _ (around.endpoint.lifecycle trace parsed id))).2 = true ↔ _
      simp [containerAnswer_flag, Event.denied]

theorem failsForbidden_attachedSession (execId : Text) (started : Except Failure StartExecResults)
    : failsForbidden (Endpoint.attachedSession execId started) = failsForbidden started := by
  cases started with
  | error => rfl
  | ok results => cases results <;> rfl

theorem execAttach_ensures (execId : Text)
    : Ensures (around.endpoint.execAttach execId) (fun result added =>
        (failsForbidden result = true ↔ ∃ e ∈ added, e.denied = true)
        ∧ ∀ e ∈ added, e.deniedResize = false) := by
  apply (Ensures.bind _ (ensures_call _ _) (fun _ _ _ => ensures_pure _)).mono
  intro result added h
  obtain ⟨started, before, after, split, onlyStart, same, silent⟩ := h
  rw [same, failsForbidden_attachedSession, failsForbidden_withContext, split, onlyStart, silent]
  simp [Event.denied, Event.deniedResize]

/-- Opening an exec session fails with 403 when one of its calls is denied, and resizes nothing:
the first call is the creation, the second the start, which is made only if the first went
through.
-/
theorem execStart_ensures (cmd : Text)
    : Ensures (around.endpoint.execStart id cmd) (fun result added =>
        (failsForbidden result = true ↔ ∃ e ∈ added, e.denied = true)
        ∧ ∀ e ∈ added, e.deniedResize = false) := by
  let opens (created : Except BollardError Text) (result : Except Failure Text)
      (added : List Event) : Prop :=
    (failsForbidden result = true
      ↔ answeredForbidden created = true ∨ ∃ e ∈ added, e.denied = true)
    ∧ ∀ e ∈ added, e.deniedResize = false
  apply (Ensures.bind opens (ensures_call _ _) _).mono
  · intro result added h
    obtain ⟨created, before, after, split, onlyCreate, denied, noResize⟩ := h
    rw [denied, split, onlyCreate]
    refine ⟨by simp [Event.denied], ?_⟩
    intro e member
    rcases List.mem_append.mp member with first | later
    · rw [List.mem_singleton.mp first]
      rfl
    · exact noResize e later
  · intro created _ _
    cases created with
    | error error =>
        apply (ensures_pure _).mono
        intro result added h
        obtain ⟨same, silent⟩ := h
        simp [opens, same, silent, failsForbidden, isForbidden, answeredForbidden]
    | ok execId =>
        apply (execAttach_ensures around execId).mono
        intro result added attached
        simpa [opens, answeredForbidden] using attached

theorem execResize_ensures (execId : Text) (cols rows : ℕ)
    : Ensures (around.endpoint.execResize execId cols rows) (fun _ added =>
        ∀ e ∈ added, e.denied = e.deniedResize) := by
  apply (Ensures.bind _ (ensures_call _ _) (fun _ _ _ => ensures_pure _)).mono
  intro _ added h e member
  obtain ⟨answer, before, after, split, onlyResize, _, silent⟩ := h
  rw [split, onlyResize, silent, List.append_nil, List.mem_singleton] at member
  rw [member]
  rfl

/-- What the browser sends to a terminal is denied in resizes only. By induction on the messages;
each is a resize, an input that calls nothing, or the end.
-/
theorem fromClient_ensures (execId : Text) (messages : List ClientMessage)
    : Ensures (around.fromClient execId messages) (fun _ added =>
        ∀ e ∈ added, e.denied = e.deniedResize) := by
  induction messages with
  | nil =>
      apply (ensures_pure _).mono
      intro _ added h
      obtain ⟨_, silent⟩ := h
      simp [silent]
  | cons message rest ih =>
      have stop : Ensures (pure () : Calls Unit) (fun _ added =>
          ∀ e ∈ added, e.denied = e.deniedResize) := by
        apply (ensures_pure _).mono
        intro _ added h
        obtain ⟨_, silent⟩ := h
        simp [silent]
      cases message with
      | binary written =>
          cases written with
          | true => exact ih
          | false => exact stop
      | close => exact stop
      | other => exact ih
      | text text =>
          rw [Surroundings.fromClient]
          cases around.resizeMsg text with
          | none => exact ih
          | some size =>
              apply (Ensures.bind _ (execResize_ensures around execId size.1 size.2)
                (fun _ _ _ => ih)).mono
              intro _ added h e member
              obtain ⟨_, before, after, split, first, later⟩ := h
              rw [split] at member
              rcases List.mem_append.mp member with inFirst | inLater
              · exact first e inFirst
              · exact later e inLater

/-- A terminal either has no denied resize and sets the flag when a call is denied, or has denied
resizes only and keeps the flag: the former when the session could not be opened, the latter when
it was.
-/
theorem execBridge_ensures (cmd : Text) (messages : List ClientMessage)
    : Ensures (around.execBridge id cmd messages readOnly) (fun flag added =>
        ((∀ e ∈ added, e.deniedResize = false)
          ∧ (flag = true ↔ readOnly = true ∨ ∃ e ∈ added, e.denied = true))
        ∨ (flag = readOnly ∧ ∀ e ∈ added, e.denied = e.deniedResize)) := by
  let bridges (result : Except Failure Text) (flag : Bool) (added : List Event) : Prop :=
    (added = [] ∧ flag = (readOnly || failsForbidden result))
    ∨ (failsForbidden result = false
      ∧ flag = readOnly
      ∧ ∀ e ∈ added, e.denied = e.deniedResize)
  apply (Ensures.bind bridges (execStart_ensures around id cmd) _).mono
  · intro flag added h
    obtain ⟨result, before, after, split, ⟨denied, noResize⟩, bridged⟩ := h
    rcases bridged with ⟨nothing, latched⟩ | ⟨opened, kept, resizes⟩
    · left
      rw [split, nothing, List.append_nil, latched]
      refine ⟨noResize, ?_⟩
      rw [Bool.or_eq_true, denied]
    · right
      refine ⟨kept, ?_⟩
      intro e member
      rw [split] at member
      rcases List.mem_append.mp member with first | later
      · have allowed : e.denied = false := by
          rw [Bool.eq_false_iff]
          intro forbidden
          have fails := denied.mpr ⟨e, first, forbidden⟩
          rw [opened] at fails
          cases fails
        rw [allowed, noResize e first]
      · exact resizes e later
  · intro result _ _
    cases result with
    | error err =>
        apply (ensures_pure _).mono
        intro flag added h
        obtain ⟨same, silent⟩ := h
        exact Or.inl ⟨silent, same⟩
    | ok execId =>
        apply (Ensures.bind _ (fromClient_ensures around execId messages)
          (fun _ _ _ => ensures_pure _)).mono
        intro flag added h
        obtain ⟨_, before, after, split, resizes, same, silent⟩ := h
        right
        refine ⟨rfl, same, ?_⟩
        rw [split, silent, List.append_nil]
        exact resizes

/-- A stack action fails only when its first call does, the listing: what comes after it is
turned into an outcome.
-/
theorem stackAction_run (endpoint : Endpoint) (hashOrder : List (Text × Text) → List (Text × Text))
    (retries : ℕ) (project : Text) (action : Action) (events : List Event)
    : (∃ outcome : Option StackOutcome,
        ((endpoint.stackAction hashOrder retries project action).run events).1
          = outcome.map .ok)
      ∨ ∃ err answer,
          (endpoint.stackAction hashOrder retries project action).run events
            = (some (.error err), events ++ [.listed answer]) := by
  have listing
      : (∃ members,
          ((endpoint.stackMembers hashOrder project).run events).1 = .ok members)
        ∨ ∃ err answer,
            (endpoint.stackMembers hashOrder project).run events
              = (.error err, events ++ [.listed answer]) := by
    have asked
        : endpoint.list.run events
          = (endpoint.listContainers events,
              events ++ [.listed (endpoint.listContainers events)]) :=
      rfl
    rw [Endpoint.stackMembers, run_bind, asked]
    cases listed : endpoint.listContainers events with
    | error error =>
        right
        exact ⟨_, .error error, rfl⟩
    | ok containers =>
        left
        exact ⟨_, rfl⟩
  rw [Endpoint.stackAction, run_bind]
  rcases listing with ⟨members, ok⟩ | ⟨err, answer, failed⟩
  · left
    rw [ok]
    exact ⟨_, rfl⟩
  · right
    rw [failed]
    exact ⟨err, answer, rfl⟩

/-- A stack action keeps the flag, or fails with its listing before any member is called, by
`stackAction_run`.
-/
theorem stackHandled_flag {name stack action : Text} {before after : DockerHost}
    (done : before.handle around name (.stack stack action) = some after)
    : after.readOnly = before.readOnly
      ∨ ((before.readOnly = true → after.readOnly = true)
        ∧ ∀ e ∈ after.events.drop before.events.length, e.denied = false) := by
  let program := around.stackAction name stack action before.readOnly
  have finished
      : (program.run before.events).1.map
          (fun answer => DockerHost.mk answer.2 (program.run before.events).2)
        = some after :=
    done
  obtain ⟨answer, answered, rfl⟩ := Option.map_eq_some_iff.mp finished
  cases parsed : Action.parse action with
  | none =>
      have refused
          : program = pure (some (.plain 400 "unknown action", before.readOnly)) := by
        simp only [program, Surroundings.stackAction, parsed]
      rw [refused] at answered
      cases answered
      exact Or.inl rfl
  | some act =>
      have relayed
          : program.run before.events
            = (((around.endpoint.stackAction around.hashOrder around.retries stack act).run
                  before.events).1.map (stackAnswer name stack before.readOnly),
                ((around.endpoint.stackAction around.hashOrder around.retries stack act).run
                  before.events).2) := by
        simp only [program, Surroundings.stackAction, parsed]
        rfl
      rw [relayed] at answered ⊢
      rcases stackAction_run around.endpoint around.hashOrder around.retries stack act
        before.events with ⟨outcome, ok⟩ | ⟨err, listing, failed⟩
      · left
        rw [ok, Option.map_map] at answered
        obtain ⟨_, _, same⟩ := Option.map_eq_some_iff.mp answered
        rw [← same]
        rfl
      · right
        rw [failed] at answered ⊢
        rw [← Option.some.inj answered, stackAnswer_flag, List.drop_left]
        refine ⟨fun readOnly => by rw [readOnly, Bool.true_or], ?_⟩
        simp [Event.denied]

/-- A request that keeps the flag latches when it was set before or nothing is denied. -/
theorem latches_iff_of_kept {events : List Event} {denies : Event → Bool} {before after : Bool}
    (kept : after = before)
    : ((∃ e ∈ events, denies e = true) → after = true)
      ↔ before = true ∨ ∀ e ∈ events, denies e = false := by
  subst kept
  cases after with
  | true => simp
  | false => simp

/-- One request latches exactly when it notices its denials. By cases on the request: a container
action and a terminal by what their calls ensure, a stack action by `stackHandled_flag`.
-/
theorem handle_latches_iff {around : Surroundings} {name : Text} {before after : DockerHost}
    {request : HostRequest} (done : before.handle around name request = some after)
    : (Handled.mk request before after).Latches
      ↔ (Handled.mk request before after).NoticesDenials := by
  cases request with
  | container id action =>
      have latched := (containerAction_ensures around name id before.readOnly action).appended
        before.events
      rw [← Option.some.inj done]
      exact iff_of_true (fun denied => latched.mpr (Or.inr denied)) (Or.inr trivial)
  | stack stack action =>
      rcases stackHandled_flag around done with kept | ⟨keeps, nothing⟩
      · exact latches_iff_of_kept kept
      · apply iff_of_true
        · intro h
          obtain ⟨e, member, denied⟩ := h
          rw [nothing e member] at denied
          cases denied
        · exact Or.inr nothing
  | terminal id cmd messages =>
      let program := around.execBridge id (cmd.getD []) messages before.readOnly
      have finished
          : after = ⟨(program.run before.events).1, (program.run before.events).2⟩ :=
        (Option.some.inj done).symm
      have bridged := (execBridge_ensures around id before.readOnly (cmd.getD []) messages).appended
        before.events
      rw [finished]
      rcases bridged with ⟨noResize, latched⟩ | ⟨kept, resizes⟩
      · exact iff_of_true (fun denied => latched.mpr (Or.inr denied)) (Or.inr noResize)
      · apply Iff.trans _ (latches_iff_of_kept kept)
        apply imp_congr_left
        apply exists_congr
        intro e
        apply and_congr_right
        intro member
        rw [resizes e member]

end Requests

/-- In every run of requests, each latches exactly when it notices its denials, by induction on
the requests: the latch is only ever raised, and by the request at hand.
-/
theorem readOnlyLatch_iff (around : Surroundings) (name : Text) (host : DockerHost)
    (requests : List HostRequest) (handled : List Handled)
    (run : host.handleAll around name requests = some handled)
    : ∀ h ∈ handled, h.Latches ↔ h.NoticesDenials := by
  induction requests generalizing host handled with
  | nil =>
      cases run
      simp
  | cons request rest ih =>
      simp only [DockerHost.handleAll, Option.bind_eq_bind, Option.bind_eq_some_iff,
        Option.pure_def, Option.some.injEq] at run
      obtain ⟨after, done, later, runLater, rfl⟩ := run
      intro h member
      rcases List.mem_cons.mp member with first | inLater
      · rw [first]
        exact handle_latches_iff done
      · exact ih after later runLater h inLater

section DeniedStop

/-- An endpoint with one stack of one container, which denies all that would change it. -/
def denyingEndpoint : Endpoint where
  listContainers _ :=
    .ok [{
      id := some "c".toList
      labels := some [("com.docker.compose.project".toList, "web".toList)]
    }]
  inspectContainer _ _ := .error (.other [])
  lifecycle _ _ _ := .error (.dockerResponseServerError 403 [])
  createExec _ _ _ := .error (.dockerResponseServerError 403 [])
  startExec _ _ := .error (.dockerResponseServerError 403 [])
  resizeExec _ _ _ _ := .error (.dockerResponseServerError 403 [])
  nowMs _ := 0

def denyingSurroundings : Surroundings where
  endpoint := denyingEndpoint
  hashOrder entries := entries
  retries := 1
  resizeMsg _ := none

/-- A container action that is denied makes its host read-only. -/
theorem readOnlyLatch_container
    : ∃ handled,
        (DockerHost.mk false []).handleAll denyingSurroundings "local".toList
          [.container "c".toList "stop".toList]
          = some handled
        ∧ ∀ h ∈ handled, h.Latches ↔ h.NoticesDenials :=
  ⟨_, rfl,
    readOnlyLatch_iff denyingSurroundings "local".toList ⟨false, []⟩
      [.container "c".toList "stop".toList] _ rfl⟩

/-- A stack whose member may not be stopped does not make its host read-only. -/
theorem deniedStop_not_latched
    : ∃ h,
        (DockerHost.mk false []).handleAll denyingSurroundings "local".toList
          [.stack "web".toList "stop".toList]
          = some [h]
        ∧ (∃ e ∈ h.events, e.denied = true)
        ∧ h.after.readOnly = false := by
  refine ⟨_, rfl, ?_, rfl⟩
  exact ⟨.applied .stop "c".toList (.error (.dockerResponseServerError 403 [])),
    List.mem_cons_of_mem _ (List.mem_cons_of_mem _ List.mem_cons_self), rfl⟩

end DeniedStop

end DockDoe
