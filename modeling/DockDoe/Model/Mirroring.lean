import DockDoe.Model.Snapshots
import DockDoe.Model.SseParser

/-! A hub that mirrors one host of a node: the event stream of the node's snapshots, how the
hub's federation loop consumes it, and the polling that replaces it. Both sides and what is in
flight between them change in any order.
-/

namespace DockDoe

-----------------------------------------------------------------------------------------
-- At the node
-----------------------------------------------------------------------------------------

/-- What the web layer and a collector share for a host: the latest dashboard, and whether
the host has latched read-only.
-/
structure LiveHost where
  shared : Option Dashboard
  readOnly : Bool

/-- `dashboard_stream` between two polls: the timestamp of what it yielded last, at first zero. -/
structure DashboardStream where
  last : ℕ

namespace DashboardStream

def opened : DashboardStream where
  last := 0

/-- One poll of the shared dashboard, and what it yields. -/
def poll (stream : DashboardStream) : Option Dashboard → DashboardStream × Option Dashboard
  | none => (stream, none)
  | some dash =>
      if dash.generatedAtUnixMs ≠ stream.last then
        ({ last := dash.generatedAtUnixMs }, some dash)
      else
        (stream, none)

end DashboardStream

/-- An event with a name and one line of data: its fields, each on a line, and an empty line. -/
def sseEvent (name data : Text) : Text :=
  "event: ".toList ++ name ++ ['\n'] ++ ("data: ".toList ++ data ++ ['\n']) ++ ['\n']

/-- The event of `api_events`. -/
def snapshotEvent (floats : FloatFormat) (snapshot : NodeSnapshot) : Text :=
  sseEvent "snapshot".toList (snapshot.toJson floats)

/-- The comment that keeps a stream alive. -/
def keepAlive : Text :=
  [':', '\n', '\n']

-----------------------------------------------------------------------------------------
-- At the hub
-----------------------------------------------------------------------------------------

/-- Why no host of a node is picked, with the names of its hosts. -/
inductive PickError
  | noSuchHost (want : Text) (names : List Text)
  | noHosts
  | severalHosts (names : List Text)

/-- The message of an error; `quote` writes a string in quotes (`{:?}`). -/
def PickError.text (quote : Text → Text) : PickError → Text
  | .noSuchHost want names =>
      "node has no host ".toList ++ quote want ++ " (it has: ".toList
      ++ [',', ' '].intercalate names ++ [')']
  | .noHosts => "node reports no hosts".toList
  | .severalHosts names =>
      "node monitors several hosts (".toList ++ [',', ' '].intercalate names
      ++ "); set node_host to pick one".toList

/-- The host `configured` names, or the node's only host when unset. -/
def pickHost (hosts : List HostEntry) (configured : Option Text) : Except PickError HostEntry :=
  match configured with
  | some want =>
      match hosts.find? (fun entry => entry.name == want) with
      | some entry => .ok entry
      | none => .error (.noSuchHost want (hosts.map HostEntry.name))
  | none =>
      match hosts with
      | [only] => .ok only
      | [] => .error .noHosts
      | _ => .error (.severalHosts (hosts.map HostEntry.name))

/-- Show a node's snapshot: the flag is mirrored, and the dashboard published. -/
def LiveHost.mirror (_host : LiveHost) (snapshot : NodeSnapshot) : LiveHost where
  shared := some snapshot.dashboard
  readOnly := snapshot.readOnly

/-- The snapshot that an event of the stream carries. Other events are ignored, and so are
snapshots that cannot be decoded.
-/
def eventSnapshot (floats : FloatFormat) (event : Text × Text) : Option NodeSnapshot :=
  if event.1 = "snapshot".toList then NodeSnapshot.fromJson floats event.2 else none

/-- A turn of the loop of `consume_stream`: the parser's buffer after a chunk, and the
snapshots to be mirrored.
-/
def consumeChunk (floats : FloatFormat) (buf : Text) (chunk : List UInt8)
    : Text × List NodeSnapshot :=
  let (buf, events) := SseParser.push buf chunk
  (buf, events.filterMap (eventSnapshot floats))

-----------------------------------------------------------------------------------------
-- Both and what is in flight between them
-----------------------------------------------------------------------------------------

/-- A session of the event stream at the node, with a dashboard that it has taken from the
shared one and not sent yet.
-/
structure Session where
  stream : DashboardStream
  taken : Option Dashboard

/-- An open connection to the event stream. The node's end may be gone already. -/
structure Connection where
  session : Option Session
  inFlight : Text
  buf : Text

/-- A request for a snapshot: on its way, with the dashboard that the node has taken for it, or
answered.
-/
inductive PollRequest
  | asked
  | taken (dash : Dashboard)
  | answered (body : Text)

/-- What the federation loop of the hub waits for. -/
inductive Activity
  | ticker
  | stream (connection : Connection)
  | poll (request : PollRequest)

/-- The hub's federation loop for a host entry, and what it shares with the web layer. -/
structure FederationLoop where
  nodeHost : Option Text
  streaming : Bool
  live : LiveHost
  activity : Activity

/-- The node's hosts, in the order of its configuration, with the hub's loop. -/
structure Mirroring where
  hosts : List HostEntry
  node : Text → LiveHost
  hub : FederationLoop

/-- What happens to dashboards and flags. An action of the hub is denied with 401 or 403. -/
inductive MirrorEvent
  | published (host : Text) (dash : Dashboard)
  | latched (host : Text)
  | mirrored (snapshot : NodeSnapshot)
  | denied

namespace Mirroring

/-- Before the hub's first tick. -/
def started (hosts : List HostEntry) : Mirroring where
  hosts
  node _ := { shared := none, readOnly := false }
  hub := {
    nodeHost := none
    streaming := true
    live := { shared := none, readOnly := false }
    activity := .ticker
  }

def withNode (s : Mirroring) (host : Text) (live : LiveHost) : Mirroring :=
  { s with node := Function.update s.node host live }

def withActivity (s : Mirroring) (activity : Activity) : Mirroring :=
  { s with hub := { s.hub with activity } }

/-- The hub has shown snapshots, one after the other. -/
def withMirrored (s : Mirroring) (snapshots : List NodeSnapshot) : Mirroring :=
  { s with hub := { s.hub with live := snapshots.foldl LiveHost.mirror s.hub.live } }

end Mirroring

/-- What becomes of a wait when the node goes away: what is in flight may still arrive. -/
def Activity.abandoned : Activity → Activity
  | .ticker => .ticker
  | .stream connection => .stream { connection with session := none }
  | .poll (.answered body) => .poll (.answered body)
  | .poll _ => .poll .asked

section Steps

variable (floats : FloatFormat) (version : Text) (configured : Option Text)

/-- One step of the node, of the hub or of the network. Chunks carry whole characters. -/
inductive Mirroring.Step : Mirroring → List MirrorEvent → Mirroring → Prop
  /-- A collector of the node publishes a dashboard. -/
  | publish {s : Mirroring} (host : Text) (dash : Dashboard) (inRange : dash.InRange)
    : Step s [.published host dash] (s.withNode host { s.node host with shared := some dash })
  | latch {s : Mirroring} (host : Text)
    : Step s [.latched host] (s.withNode host { s.node host with readOnly := true })
  /-- The node starts anew, with other hosts perhaps, and with nothing published or latched. -/
  | restart {s : Mirroring} (hosts : List HostEntry)
    : Step s [] {
        hosts
        node := fun _ => { shared := none, readOnly := false }
        hub := { s.hub with activity := s.hub.activity.abandoned }
      }
  | resolve {s : Mirroring} {entry : HostEntry} (waits : s.hub.activity = .ticker)
      (unresolved : s.hub.nodeHost = none) (picked : pickHost s.hosts configured = .ok entry)
    : Step s [] { s with hub := { s.hub with nodeHost := some entry.name } }
  | openStream {s : Mirroring} {target : Text} (waits : s.hub.activity = .ticker)
      (resolved : s.hub.nodeHost = some target) (streaming : s.hub.streaming = true)
    : Step s [] (s.withActivity (.stream {
        session := some { stream := .opened, taken := none }
        inFlight := []
        buf := []
      }))
  /-- The node does not have the stream, or does not know the host. -/
  | unsupported {s : Mirroring} (waits : s.hub.activity = .ticker)
    : Step s [] { s with hub := { s.hub with streaming := false } }
  /-- A session at the node polls the shared dashboard. -/
  | take {s : Mirroring} {target : Text} {connection : Connection} {stream : DashboardStream}
      {dash : Dashboard} {next : DashboardStream}
      (resolved : s.hub.nodeHost = some target)
      (streams : s.hub.activity = .stream connection)
      (session : connection.session = some { stream, taken := none })
      (yields : stream.poll (s.node target).shared = (next, some dash))
    : Step s [] (s.withActivity (.stream {
        connection with session := some { stream := next, taken := some dash } }))
  /-- The session sends what it has taken, with the flag as it is now. -/
  | send {s : Mirroring} {target : Text} {connection : Connection} {stream : DashboardStream}
      {dash : Dashboard}
      (resolved : s.hub.nodeHost = some target)
      (streams : s.hub.activity = .stream connection)
      (session : connection.session = some { stream, taken := some dash })
    : Step s [] (s.withActivity (.stream {
        connection with
        session := some { stream, taken := none }
        inFlight := connection.inFlight ++ snapshotEvent floats {
          version, readOnly := (s.node target).readOnly, dashboard := dash }
      }))
  | keepAlive {s : Mirroring} {connection : Connection} {session : Session}
      (streams : s.hub.activity = .stream connection)
      (alive : connection.session = some session)
    : Step s [] (s.withActivity (.stream {
        connection with inFlight := connection.inFlight ++ DockDoe.keepAlive }))
  /-- A chunk arrives at the hub, which mirrors the snapshots that it completes. -/
  | deliver {s : Mirroring} {connection : Connection} {piece rest : Text} {buf : Text}
      {snapshots : List NodeSnapshot}
      (streams : s.hub.activity = .stream connection)
      (cut : connection.inFlight = piece ++ rest)
      (consumed : consumeChunk floats connection.buf (asBytes piece) = (buf, snapshots))
    : Step s (snapshots.map .mirrored)
        ((s.withMirrored snapshots).withActivity (.stream {
          connection with inFlight := rest, buf }))
  /-- The stream ends, goes silent or fails; what has not arrived is lost. -/
  | disconnect {s : Mirroring} {connection : Connection}
      (streams : s.hub.activity = .stream connection)
    : Step s [] (s.withActivity .ticker)
  | ask {s : Mirroring} {target : Text} (waits : s.hub.activity = .ticker)
      (resolved : s.hub.nodeHost = some target) (polling : s.hub.streaming = false)
    : Step s [] (s.withActivity (.poll .asked))
  | takeForPoll {s : Mirroring} {target : Text} {dash : Dashboard}
      (resolved : s.hub.nodeHost = some target) (polls : s.hub.activity = .poll .asked)
      (current : (s.node target).shared = some dash)
    : Step s [] (s.withActivity (.poll (.taken dash)))
  | answer {s : Mirroring} {target : Text} {dash : Dashboard}
      (resolved : s.hub.nodeHost = some target) (polls : s.hub.activity = .poll (.taken dash))
    : Step s [] (s.withActivity (.poll (.answered (NodeSnapshot.toJson floats {
        version, readOnly := (s.node target).readOnly, dashboard := dash }))))
  | receive {s : Mirroring} {body : Text} {snapshot : NodeSnapshot}
      (polls : s.hub.activity = .poll (.answered body))
      (decoded : NodeSnapshot.fromJson floats body = some snapshot)
    : Step s [.mirrored snapshot] ((s.withMirrored [snapshot]).withActivity .ticker)
  /-- The poll fails, or the node has no snapshot yet; the last one is kept. -/
  | pollFails {s : Mirroring} {request : PollRequest} (polls : s.hub.activity = .poll request)
    : Step s [] (s.withActivity .ticker)
  /-- The node denies an action or a terminal of the hub, for whatever reason: a token that is
  wrong, the guard of the lifecycle actions, the allowlist of hosts.
  -/
  | denied {s : Mirroring} {target : Text} (resolved : s.hub.nodeHost = some target)
    : Step s [.denied]
        { s with hub := { s.hub with live := { s.hub.live with readOnly := true } } }

/-- Steps one after the other, with what happens in them. -/
inductive Mirroring.Run (s : Mirroring) : List MirrorEvent → Mirroring → Prop
  | refl : Run s [] s
  | tail {t u : Mirroring} {before events : List MirrorEvent} (run : Run s before t)
      (step : Mirroring.Step floats version configured t events u)
    : Run s (before ++ events) u

end Steps

end DockDoe
