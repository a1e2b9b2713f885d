import DockDoe.Model.Requests
import DockDoe.Model.Stacks

/-! The effectful requests to a host: container actions, stack actions and terminals. A
host keeps a flag that says its endpoint is read-only.
-/

namespace DockDoe

/-- An error as its outermost context prints it. -/
def Failure.display (err : Failure) : Text :=
  match err.context, err.cause with
  | context :: _, _ => context
  | [], .message text => text
  | [], .bollard (.dockerResponseServerError _ message) => message
  | [], .bollard (.other message) => message

/-- The answer to a container action at a Docker endpoint, and the flag afterwards. -/
def containerAnswer (host id : Text) (readOnly : Bool) : Except Failure Unit → Response × Bool
  | .ok () => (.ok (.actionButtons host id readOnly), readOnly)
  | .error err =>
      if isForbidden err then
        (.ok (.actionButtons host id true), true)
      else
        ({ Response.plain 502 "" with body := .text ("action failed: ".toList ++ err.display) },
          readOnly)

/-- The answer to a stack action at a Docker endpoint, and the flag afterwards. -/
def stackAnswer (host name : Text) (readOnly : Bool)
    : Except Failure StackOutcome → Response × Bool
  | .ok _ => (.ok (.stackActionButtons host name readOnly), readOnly)
  | .error err =>
      if isForbidden err then
        (.ok (.stackActionButtons host name true), true)
      else
        ({ Response.plain 502 "" with
            body := .text ("stack action failed: ".toList ++ err.display) },
          readOnly)

/-- A message from the browser's end of a terminal. -/
inductive ClientMessage
  -- Input, and whether the container still takes it.
  | binary (written : Bool)
  | text (text : Text)
  | close
  | other

/-- A Docker-backed host: its flag, and what has happened at its endpoint. -/
structure DockerHost where
  readOnly : Bool
  events : List Event

/-- What a request to a host depends on besides the host: how its endpoint answers, in what
order a hash map is searched, how often a stack's start is retried at most, and how a resize
message is read.
-/
structure Surroundings where
  endpoint : Endpoint
  hashOrder : List (Text × Text) → List (Text × Text)
  retries : ℕ
  resizeMsg : Text → Option (ℕ × ℕ)

namespace Surroundings

/-- `container_action` at a Docker endpoint. -/
def containerAction (around : Surroundings) (host id action : Text) (readOnly : Bool)
    : Calls (Response × Bool) := do
  match Action.parse action with
  | none => return (.plain 400 "unknown action", readOnly)
  | some parsed => return containerAnswer host id readOnly (← around.endpoint.apply id parsed)

/-- `stack_action` at a Docker endpoint; none while it is not finished. -/
def stackAction (around : Surroundings) (host name action : Text) (readOnly : Bool)
    : Calls (Option (Response × Bool)) := do
  match Action.parse action with
  | none => return some (.plain 400 "unknown action", readOnly)
  | some parsed =>
      return (← around.endpoint.stackAction around.hashOrder around.retries name parsed).map
        (stackAnswer host name readOnly)

/-- Relay the browser's messages to an exec session, until one ends it. -/
def fromClient (around : Surroundings) (execId : Text) : List ClientMessage → Calls Unit
  | [] => pure ()
  | .binary true :: rest => around.fromClient execId rest
  | .binary false :: _ => pure ()
  | .text text :: rest => do
      match around.resizeMsg text with
      | some (cols, rows) => let _ ← around.endpoint.execResize execId cols rows
      | none => pure ()
      around.fromClient execId rest
  | .close :: _ => pure ()
  | .other :: rest => around.fromClient execId rest

/-- `exec_bridge`: the flag afterwards. The messages are those that arrive before the
container's side ends the session.
-/
def execBridge (around : Surroundings) (id cmd : Text) (messages : List ClientMessage)
    (readOnly : Bool)
    : Calls Bool := do
  match ← around.endpoint.execStart id cmd with
  | .error err => return readOnly || isForbidden err
  | .ok execId =>
      around.fromClient execId messages
      return readOnly

end Surroundings

/-- A request to a host. -/
inductive HostRequest
  | container (id action : Text)
  | stack (name action : Text)
  | terminal (id : Text) (cmd : Option Text) (messages : List ClientMessage)

/-- Handle one request; none while it is not finished. -/
def DockerHost.handle (around : Surroundings) (name : Text) (host : DockerHost)
    : HostRequest → Option DockerHost
  | .container id action =>
      let ((_, readOnly), events) :=
        (around.containerAction name id action host.readOnly).run host.events
      some { readOnly, events }
  | .stack stack action =>
      let (answer, events) := (around.stackAction name stack action host.readOnly).run host.events
      answer.map (fun (_, readOnly) => { readOnly, events })
  | .terminal id cmd messages =>
      let (readOnly, events) :=
        (around.execBridge id (cmd.getD []) messages host.readOnly).run host.events
      some { readOnly, events }

/-- A request that has been handled, with the host before and after. -/
structure Handled where
  request : HostRequest
  before : DockerHost
  after : DockerHost

/-- Handle requests one after the other. -/
def DockerHost.handleAll (around : Surroundings) (name : Text)
    : DockerHost → List HostRequest → Option (List Handled)
  | _, [] => some []
  | before, request :: rest => do
      let after ← before.handle around name request
      let later ← after.handleAll around name rest
      return { request, before, after } :: later

end DockDoe
