import DockDoe.Model.Texts

/-! A Docker endpoint and the calls made to it. What it answers may depend on everything
that has been asked and answered before, so its behaviour over time is arbitrary.
-/

namespace DockDoe

/-- A lifecycle action that can be applied to a container. -/
inductive Action
  | start | stop | restart
  deriving DecidableEq

/-- Parse an action from a URL path segment. -/
def Action.parse (s : Text) : Option Action :=
  if s = "start".toList then
    some .start
  else if s = "stop".toList then
    some .stop
  else if s = "restart".toList then
    some .restart
  else
    none

/-- The action's name in an error's context. -/
def Action.debug : Action → Text
  | .start => "Start".toList
  | .stop => "Stop".toList
  | .restart => "Restart".toList

/-- An error of the Docker client: an answer with an error status, or anything else. -/
inductive BollardError
  | dockerResponseServerError (statusCode : ℕ) (message : Text)
  | other (message : Text)
  deriving DecidableEq

/-- What an error is about. -/
inductive Cause
  | bollard (error : BollardError)
  | message (text : Text)

/-- An error below the contexts it has been given, the outermost first (`anyhow::Error`). -/
structure Failure where
  context : List Text
  cause : Cause

/-- `Context::context`, for an error of the Docker client. -/
def withContext {α : Type} (context : Text) : Except BollardError α → Except Failure α
  | .ok a => .ok a
  | .error error => .error { context := [context], cause := .bollard error }

/-- Whether the Docker client was answered `403 Forbidden`. -/
def BollardError.isForbidden : BollardError → Bool
  | .dockerResponseServerError statusCode _ => statusCode == 403
  | .other _ => false

/-- Whether an error is a Docker `403 Forbidden`, under whatever context. -/
def isForbidden (err : Failure) : Bool :=
  match err.cause with
  | .bollard error => error.isForbidden
  | .message _ => false

/-- A container in a listing. -/
structure ContainerSummary where
  id : Option Text
  labels : Option (List (Text × Text))

/-- A healthcheck's status. -/
inductive HealthStatus
  | empty | none | starting | healthy | unhealthy
  deriving DecidableEq

/-- The state of an inspected container. -/
structure InspectState where
  running : Option Bool
  exitCode : Option ℤ
  health : Option (Option HealthStatus)

/-- The namespace modes of an inspected container. -/
structure HostModes where
  networkMode : Option Text
  ipcMode : Option Text
  pidMode : Option Text

structure ContainerInspect where
  state : Option InspectState
  hostConfig : Option HostModes

/-- What a started exec turns out to be. -/
inductive StartExecResults
  | attached | detached

/-- The condition of a `depends_on` edge. -/
inductive DepCondition
  | started | healthy | completedSuccessfully
  deriving DecidableEq

/-- One `depends_on` edge. -/
structure Dep where
  service : Text
  condition : DepCondition
  deriving DecidableEq

/-- A compose stack member and its dependency edges. -/
structure Member where
  id : Text
  service : Text
  deps : List Dep
  deriving DecidableEq

/-- What a pass over a stack does to its members. -/
inductive PassStep
  | checked (m : Member) (running : Bool)
  | awaited (condition : DepCondition) (id : Text)
  | starting (m : Member)
  deriving DecidableEq

/-- Everything that happens at an endpoint: calls with their answers, and in between the
steps of a pass over a stack and the time spent asleep.
-/
inductive Event
  | listed (answer : Except BollardError (List ContainerSummary))
  | inspected (id : Text) (answer : Except BollardError ContainerInspect)
  | applied (action : Action) (id : Text) (answer : Except BollardError Unit)
  | execCreated (id : Text) (argv : List Text) (answer : Except BollardError Text)
  | execStarted (execId : Text) (answer : Except BollardError StartExecResults)
  | execResized (execId : Text) (width height : ℕ) (answer : Except BollardError Unit)
  | step (step : PassStep)
  | slept (ms : ℕ)

/-- How an endpoint answers, given the events so far, and what time it is then. -/
structure Endpoint where
  listContainers : List Event → Except BollardError (List ContainerSummary)
  inspectContainer : List Event → Text → Except BollardError ContainerInspect
  lifecycle : List Event → Action → Text → Except BollardError Unit
  createExec : List Event → Text → List Text → Except BollardError Text
  startExec : List Event → Text → Except BollardError StartExecResults
  resizeExec : List Event → Text → ℕ → ℕ → Except BollardError Unit
  nowMs : List Event → ℕ

/-- Code that makes calls to an endpoint: its state is the list of events so far. -/
abbrev Calls := StateM (List Event)

/-- The time at this moment. -/
def Endpoint.now (endpoint : Endpoint) : Calls ℕ := do
  return endpoint.nowMs (← get)

/-- Append an event. -/
def record (event : Event) : Calls Unit :=
  modify (· ++ [event])

/-- Make a call: its answer is recorded with it. -/
def call {α : Type} (answer : List Event → α) (event : α → Event) : Calls α := do
  let answer := answer (← get)
  record (event answer)
  return answer

namespace Endpoint

def list (endpoint : Endpoint) : Calls (Except BollardError (List ContainerSummary)) :=
  call endpoint.listContainers .listed

def inspect (endpoint : Endpoint) (id : Text)
    : Calls (Except BollardError ContainerInspect) :=
  call (endpoint.inspectContainer · id) (.inspected id)

/-- Apply a lifecycle action to one container. -/
def apply (endpoint : Endpoint) (id : Text) (action : Action) : Calls (Except Failure Unit) := do
  let answer ← call (endpoint.lifecycle · action id) (.applied action id)
  return withContext (action.debug ++ " container ".toList ++ id) answer

/-- The argument vector of a terminal's command; an empty one is a shell. -/
def execArgv (cmd : Text) : List Text :=
  let argv := (cmd.splitOnP isWhitespace).filter (fun word => !word.isEmpty)
  if argv.isEmpty then ["/bin/sh".toList] else argv

/-- The id of an exec session that was started attached. -/
def attachedSession (execId : Text) : Except Failure StartExecResults → Except Failure Text
  | .error err => .error err
  | .ok .attached => .ok execId
  | .ok .detached =>
      .error { context := [], cause := .message "exec started detached".toList }

/-- Start a created exec session. -/
def execAttach (endpoint : Endpoint) (execId : Text) : Calls (Except Failure Text) := do
  let started ← call (endpoint.startExec · execId) (.execStarted execId)
  return attachedSession execId (withContext "starting exec".toList started)

/-- Start an interactive exec session in a container; its id is the answer. -/
def execStart (endpoint : Endpoint) (id cmd : Text) : Calls (Except Failure Text) := do
  let argv := execArgv cmd
  let created ← call (endpoint.createExec · id argv) (.execCreated id argv)
  match withContext ("creating exec in ".toList ++ id) created with
  | .error err => return .error err
  | .ok execId => endpoint.execAttach execId

/-- Resize an exec session's terminal. -/
def execResize (endpoint : Endpoint) (execId : Text) (cols rows : ℕ)
    : Calls (Except Failure Unit) := do
  let answer ← call (endpoint.resizeExec · execId cols rows) (.execResized execId cols rows)
  return withContext "resizing exec".toList answer

end Endpoint

end DockDoe
