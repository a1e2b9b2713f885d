import DockDoe.Model.Router

/-! The handlers of the lifecycle actions, of the login and of the home page. -/

namespace DockDoe

/-- What an answer of a node says to the hub that forwarded an action. -/
inductive NodeOutcome
  | applied | denied
  | rejected (body : Text)
  | unreachable
  deriving DecidableEq

def nodeOutcome : Except Text (ℕ × Text) → NodeOutcome
  | .error _ => .unreachable
  | .ok (status, body) =>
      if 200 ≤ status ∧ status < 300 then .applied
      else if status = 401 ∨ status = 403 then .denied
      else .rejected body

/-- The hub's answer to a forwarded action with its own buttons, and its flag afterwards. -/
def NodeOutcome.answer (buttons : Bool → Body) (readOnly : Bool) : NodeOutcome → Response × Bool
  | .applied => (.ok (buttons readOnly), readOnly)
  | .denied => (.ok (buttons true), true)
  | .rejected body => ({ Response.plain 502 "" with body := .text body }, readOnly)
  | .unreachable => (.plain 502 "node unreachable", readOnly)

namespace AppState

/-- Changing what is stored under a name does not change which names are there, by induction on
the hosts.
-/
theorem lookup_map_isSome {α : Type} (hosts : List (Text × α)) (change : Text × α → α)
    (name : Text)
    : ((hosts.map (fun entry => (entry.1, change entry))).lookup name).isSome
      = (hosts.lookup name).isSome := by
  induction hosts with
  | nil => rfl
  | cons entry rest ih =>
      rw [List.map_cons, List.lookup_cons, List.lookup_cons]
      cases name == entry.1 with
      | true => rfl
      | false => exact ih

/-- The state after a host's runtime has changed. -/
def withRuntime (state : AppState) (host : Text) (rt : HostRuntime) : AppState :=
  { state with
    hosts :=
      state.hosts.map (fun entry => (entry.1, if entry.1 = host then rt else entry.2))
    listed := by
      intro name member
      obtain ⟨slug, known⟩ := state.listed name member
      exact ⟨slug, (lookup_map_isSome _ _ _).trans known⟩ }

variable (state : AppState)

/-- `container_action` -/
def containerAction (host id action : Text) : Response × AppState :=
  match state.hosts.lookup host with
  | none => (.plain 404 "unknown host", state)
  | some rt =>
      match rt.source with
      | .docker around events =>
          let ((answer, readOnly), events) :=
            (around.containerAction host id action rt.readOnly).run events
          (answer, state.withRuntime host { source := .docker around events, readOnly })
      | .node forwardAction =>
          match Action.parse action with
          | none => (.plain 400 "unknown action", state)
          | some _ =>
              let outcome :=
                nodeOutcome
                  (forwardAction ("/api/container/".toList ++ id ++ '/' :: action))
              let (answer, readOnly) := outcome.answer (.actionButtons host id) rt.readOnly
              (answer, state.withRuntime host { rt with readOnly })

/-- `stack_action`; none while it is not finished. -/
def stackAction (host name action : Text) : Option (Response × AppState) :=
  match state.hosts.lookup host with
  | none => some (.plain 404 "unknown host", state)
  | some rt =>
      match rt.source with
      | .docker around events =>
          let (finished, events) :=
            (around.stackAction host name action rt.readOnly).run events
          finished.map (fun (answer, readOnly) =>
            (answer, state.withRuntime host { source := .docker around events, readOnly }))
      | .node forwardAction =>
          match Action.parse action with
          | none => some (.plain 400 "unknown action", state)
          | some _ =>
              let outcome :=
                nodeOutcome (forwardAction ("/api/stack/".toList ++ name ++ '/' :: action))
              let (answer, readOnly) := outcome.answer (.stackActionButtons host name) rt.readOnly
              some (answer, state.withRuntime host { rt with readOnly })

/-- `login_page` -/
def loginPage (platform : Platform) (req : Request) : Response :=
  match state.auth with
  | none => .redirect "/".toList
  | some auth =>
      if requestIsAuthenticated platform.hmac auth req.headers platform.nowUnix then
        .redirect "/".toList
      else
        .ok (.loginShell false)

/-- `host_index` -/
def hostIndex : Response :=
  match state.hostOrder with
  | [only] => .redirect ("/host/".toList ++ only)
  | _ => .ok (.hostIndexPage state.hostOrder)

/-- `dashboard` -/
def dashboard (host : Text) : Response :=
  match state.hosts.lookup host with
  | none => .plain 404 "unknown host"
  | some _ => .ok (.dashboard host)

end AppState

/-- `logout`, without the cookie that it clears. -/
def logout : Response :=
  .redirect "/login".toList

/-- The rest of the web layer: how a body is written out, and the other handlers. -/
structure Pages where
  render : Body → Text
  respond : AppState → Dispatched → Response × AppState

/-- A handler's response and the state afterwards; none while it is not finished. -/
def respond (platform : Platform) (pages : Pages) (state : AppState) (dispatched : Dispatched)
    : Option (Response × AppState) :=
  match dispatched.handler, dispatched.params with
  | .containerAction, [host, id, action] => some (state.containerAction host id action)
  | .stackAction, [host, name, action] => state.stackAction host name action
  | .loginPage, _ => some (state.loginPage platform dispatched.request, state)
  | .logout, _ => some (logout, state)
  | .hostIndex, _ => some (state.hostIndex, state)
  | .dashboard, [host] => some (state.dashboard host, state)
  | _, _ => some (pages.respond state dispatched)

/-- A request that has been served: the handler that ran for it, if one did, the response, and
the states before and after.
-/
structure Served where
  before : AppState
  ran : Option Dispatched
  response : Response
  after : AppState

/-- Serve a request; none while it is not finished. -/
def serve (platform : Platform) (pages : Pages) (state : AppState) (req : Request)
    : Option Served :=
  match platform.dispatch state req with
  | .error response => some { before := state, ran := none, response, after := state }
  | .ok dispatched =>
      (respond platform pages state dispatched).map (fun (response, after) =>
        { before := state, ran := some dispatched, response, after })

end DockDoe
