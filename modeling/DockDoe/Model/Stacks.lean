import DockDoe.Model.DockerEndpoint

/-! Compose stacks: their members, the order of their dependencies, and how a whole stack
is started and stopped.
-/

namespace DockDoe

/-- How long to wait for a dependency's condition. -/
def depWaitMs : ℕ := 120000

/-- How often to poll a dependency's state while waiting. -/
def depPollMs : ℕ := 1000

/-- Overall budget for getting every member of a stack running. -/
def stackStartTimeoutMs : ℕ := 120000

/-- The outcome of a stack-wide action. -/
structure StackOutcome where
  total : ℕ
  failed : ℕ

/-- One entry of a `depends_on` label. -/
def parseDep (entry : Text) : Option Dep :=
  -- Only the first two of the (at most three) parts are read.
  match (trim entry).splitOn ':' with
  | [] => none
  | first :: rest =>
      let service := trim first
      if service.isEmpty then
        none
      else
        let condition :=
          match rest.head? with
          | none => .started
          | some condition =>
              if condition = "service_healthy".toList then
                .healthy
              else if condition = "service_completed_successfully".toList then
                .completedSuccessfully
              else
                .started
        some { service, condition }

/-- Parse a `com.docker.compose.depends_on` label. -/
def parseDependsOn (label : Text) : List Dep :=
  (label.splitOn ',').filterMap parseDep

/-- Resolve a `container:<id>` reference to an in-stack service, by full id or else by the
first entry that shares a prefix with it.
-/
def resolveService (serviceById : List (Text × Text)) (targetId : Text) : Option Text :=
  match serviceById.lookup targetId with
  | some service => some service
  | none =>
      (serviceById.find? fun (id, _) => targetId.isPrefixOf id || id.isPrefixOf targetId).map
        Prod.snd

section Order

/-- Whether a service has a container in the stack. -/
def inStack (members : List Member) (service : Text) : Bool :=
  members.any (fun m => m.service == service)

/-- Whether every dependency of a member is placed or outside the stack. -/
def isReady (members : List Member) (placed : List Text) (m : Member) : Bool :=
  m.deps.all (fun d => !inStack members d.service || placed.contains d.service)

/-- The loop of `topo_order`. Every round but the last places a member, so there are at
most as many rounds as members.
-/
def topoLoop (members : List Member) : ℕ → List Text → List Member → List Member → List Member
  | 0, _, result, _ => result
  | fuel + 1, placed, result, remaining =>
      if remaining.isEmpty then
        result
      else
        let ready := remaining.filter (isReady members placed)
        let notReady := remaining.filter (fun m => !isReady members placed m)
        if ready.isEmpty then
          -- A cycle or a missing dependency: listing order for the rest.
          result ++ notReady
        else
          topoLoop members fuel (placed ++ ready.map Member.service) (result ++ ready) notReady

/-- Order members so that containers come after the in-stack dependencies they declare. -/
def topoOrder (members : List Member) : List Member :=
  topoLoop members members.length [] [] members

end Order

/-- The container a service stands for while starting: its last one. -/
def idByService (members : List Member) (service : Text) : Option Text :=
  (members.reverse.find? (fun m => m.service == service)).map Member.id

namespace Endpoint

/-- Whether a container runs, and its exit code; none if it cannot be read. -/
def runState (endpoint : Endpoint) (id : Text) : Calls (Option (Bool × ℤ)) := do
  match ← endpoint.inspect id with
  | .error _ => return none
  | .ok info =>
      return info.state.map (fun state => (state.running.getD false, state.exitCode.getD 0))

def isRunning (endpoint : Endpoint) (id : Text) : Calls Bool := do
  return (← endpoint.runState id).any (fun (running, _) => running)

def healthStatus (endpoint : Endpoint) (id : Text) : Calls (Option HealthStatus) := do
  match ← endpoint.inspect id with
  | .error _ => return none
  | .ok info => return info.state.bind (fun state => state.health.join)

/-- Containers this container shares a namespace with. -/
def namespaceDeps (endpoint : Endpoint) (id : Text) : Calls (List Text) := do
  match ← endpoint.inspect id with
  | .error _ => return []
  | .ok info =>
      match info.hostConfig with
      | none => return []
      | some host =>
          return [host.networkMode, host.ipcMode, host.pidMode].filterMap
            (fun mode => mode.bind (stripPrefix "container:".toList))

/-- Poll while the time is not up. A poll is followed by a sleep of at least `depPollMs`, so
`depWaitMs` is over after `polls = depWaitMs / depPollMs + 1` of them at the latest.
-/
def pollUntil (endpoint : Endpoint) (done : Calls Bool) (startMs : ℕ) : ℕ → Calls Unit
  | 0 => pure ()
  | polls + 1 => do
      if ← done then
        return
      if (← endpoint.now) - startMs ≥ depWaitMs then
        return
      record (.slept depPollMs)
      pollUntil endpoint done startMs polls

/-- Poll a container's health until it is healthy, or give up. A container without a
healthcheck is not waited on.
-/
def waitHealthy (endpoint : Endpoint) (id : Text) : Calls Unit := do
  record (.step (.awaited .healthy id))
  let startMs ← endpoint.now
  endpoint.pollUntil
    (do
      match ← endpoint.healthStatus id with
      | some .healthy | none | some .none | some .empty => return true
      | some .starting | some .unhealthy => return false)
    startMs (depWaitMs / depPollMs + 1)

/-- Poll until a container has exited, or give up. -/
def waitCompleted (endpoint : Endpoint) (id : Text) : Calls Unit := do
  record (.step (.awaited .completedSuccessfully id))
  let startMs ← endpoint.now
  endpoint.pollUntil
    (do
      match ← endpoint.runState id with
      | some (false, _) | none => return true
      | some (true, _) => return false)
    startMs (depWaitMs / depPollMs + 1)

/-- The containers of a compose project, with the dependencies their labels record. -/
def labelledMembers (project : Text) (containers : List ContainerSummary) : List Member :=
  containers.filterMap (fun c => do
    let labels ← c.labels
    guard (labels.lookup "com.docker.compose.project".toList = some project)
    let id ← c.id
    let service := (labels.lookup "com.docker.compose.service".toList).getD []
    let deps :=
      ((labels.lookup "com.docker.compose.depends_on".toList).map parseDependsOn).getD []
    some { id, service, deps })

/-- A member that shares a namespace with another container also depends on its service. -/
def bindNamespace (serviceById : List (Text × Text)) (m : Member) (targetId : Text) : Member :=
  match resolveService serviceById targetId with
  | none => m
  | some service =>
      if service ≠ m.service && !m.deps.any (fun d => d.service == service) then
        { m with deps := m.deps ++ [{ service, condition := .started }] }
      else
        m

/-- The containers of a compose project, with their service and dependency edges. A hash
map of services by id is searched in no particular order.
-/
def stackMembers (endpoint : Endpoint)
    (hashOrder : List (Text × Text) → List (Text × Text)) (project : Text)
    : Calls (Except Failure (List Member)) := do
  match withContext "listing containers".toList (← endpoint.list) with
  | .error err => return .error err
  | .ok containers =>
      let members := labelledMembers project containers
      -- A later container of an id overrides an earlier one.
      let serviceById :=
        hashOrder ((members.map (fun m => (m.id, m.service))).reverse.eraseDupsBy
          (fun a b => a.1 == b.1))
      let bound ← members.mapM (fun m => do
        return (← endpoint.namespaceDeps m.id).foldl (bindNamespace serviceById) m)
      return .ok bound

/-- Wait for the condition of one dependency. -/
def awaitDep (endpoint : Endpoint) (members : List Member) (dep : Dep) : Calls Unit := do
  match idByService members dep.service with
  | none => return
  | some depId =>
      match dep.condition with
      | .healthy => endpoint.waitHealthy depId
      | .completedSuccessfully => endpoint.waitCompleted depId
      | .started => return

/-- Start a member that does not run, after waiting for its dependencies: the failures so
far and whether anything was started.
-/
def startStopped (endpoint : Endpoint) (members : List Member) (tally : ℕ × Bool) (m : Member)
    : Calls (ℕ × Bool) := do
  forM m.deps (endpoint.awaitDep members)
  record (.step (.starting m))
  match ← endpoint.apply m.id .start with
  | .ok () => return (tally.1, true)
  | .error _ => return (tally.1 + 1, tally.2)

/-- One member's turn in a pass: a member that runs needs no action. -/
def startMember (endpoint : Endpoint) (members : List Member) (tally : ℕ × Bool) (m : Member)
    : Calls (ℕ × Bool) := do
  let running ← endpoint.isRunning m.id
  record (.step (.checked m running))
  if running then return tally else endpoint.startStopped members tally m

/-- One pass of `start_in_order`: how many starts failed and whether one succeeded. -/
def startPass (endpoint : Endpoint) (members : List Member) : Calls (ℕ × Bool) :=
  (topoOrder members).foldlM (endpoint.startMember members) (0, false)

/-- The passes of `start_in_order`, while there is fuel. -/
def startPasses (endpoint : Endpoint) (members : List Member) (deadlineMs : ℕ)
    : ℕ → Calls (Option StackOutcome)
  | 0 => return none
  | fuel + 1 => do
      let (failed, progressed) ← endpoint.startPass members
      if failed = 0 then
        return some { total := members.length, failed := 0 }
      if (← endpoint.now) ≥ deadlineMs then
        return some { total := members.length, failed }
      if !progressed then
        record (.slept depPollMs)
      startPasses endpoint members deadlineMs fuel

/-- Start a whole stack: passes in dependency order until everything runs or the time is
up. The answer is none while the passes go on.
-/
def startInOrder (endpoint : Endpoint) (fuel : ℕ) (members : List Member)
    : Calls (Option StackOutcome) := do
  let deadlineMs := (← endpoint.now) + stackStartTimeoutMs
  endpoint.startPasses members deadlineMs fuel

/-- Stop one member: the failures so far. -/
def stopMember (endpoint : Endpoint) (failed : ℕ) (m : Member) : Calls ℕ := do
  match ← endpoint.apply m.id .stop with
  | .ok () => return failed
  | .error _ => return failed + 1

/-- Stop members in reverse dependency order. -/
def stopInOrder (endpoint : Endpoint) (members : List Member) : Calls StackOutcome := do
  let failed ← (topoOrder members).reverse.foldlM endpoint.stopMember 0
  return { total := members.length, failed }

/-- Apply an action to the members of a stack; none while it is not finished. -/
def applyInOrder (endpoint : Endpoint) (fuel : ℕ) (members : List Member)
    : Action → Calls (Option StackOutcome)
  | .start => endpoint.startInOrder fuel members
  | .stop => return some (← endpoint.stopInOrder members)
  | .restart => do
      let stop ← endpoint.stopInOrder members
      -- The end state is "started", so the start failures are reported.
      return (← endpoint.startInOrder fuel members).map
        (fun start => { stop with failed := start.failed })

/-- Apply an action to a whole compose stack; none while it is not finished. -/
def stackAction (endpoint : Endpoint) (hashOrder : List (Text × Text) → List (Text × Text))
    (fuel : ℕ) (project : Text) (action : Action)
    : Calls (Option (Except Failure StackOutcome)) := do
  match ← endpoint.stackMembers hashOrder project with
  | .error err => return some (.error err)
  | .ok members => return (← endpoint.applyInOrder fuel members action).map .ok

end Endpoint

end DockDoe
