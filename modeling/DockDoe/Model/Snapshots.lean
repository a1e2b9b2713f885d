import DockDoe.Foundations.JsonRecords
import DockDoe.Model.Overview
import DockDoe.Model.SampleQueries

/-! What hosts report to a federation hub, as JSON: the writers and the readers that both sides
derive from the same types. Absent optional fields are null, and unknown names of states are
those that a newer version reports.
-/

namespace DockDoe

open Json (Reader)

/-- One monitored host, as `GET /api/hosts` lists it. -/
structure HostEntry where
  name : Text
  version : Text
  deriving DecidableEq

/-- What `GET /host/{host}/api/snapshot` reports to a federation hub. -/
structure NodeSnapshot where
  version : Text
  readOnly : Bool
  dashboard : Dashboard

/-- The ports lie in the range of their type. -/
def Port.InRange (port : Port) : Prop :=
  port.privatePort < 2 ^ 16 ∧ ∀ publicPort ∈ port.publicPort, publicPort < 2 ^ 16

/-- The integers of a container lie in the ranges of their types. -/
structure ContainerMetrics.InRange (c : ContainerMetrics) : Prop where
  memUsed : ∀ bytes ∈ c.memUsed, bytes < 2 ^ 64
  memLimit : ∀ bytes ∈ c.memLimit, bytes < 2 ^ 64
  ports : ∀ port ∈ c.ports, port.InRange

/-- The integers of a dashboard lie in the ranges of their types. -/
structure Dashboard.InRange (dash : Dashboard) : Prop where
  generatedAtUnixMs : dash.generatedAtUnixMs < 2 ^ 64
  cpuCount : dash.cpuCount < 2 ^ 64
  containers : ∀ c ∈ dash.containers, c.InRange

/-- How finite floats are written and read. The reader takes what the writer writes, but need
not restore the last digit of a float.
-/
structure FloatFormat where
  text : ℚ → Json.Literal
  read : Json.Literal → Option ℚ
  reread : ℚ → ℚ
  read_text : ∀ x, read (text x) = some (reread x)

/-- A record with its fields in the order of their declaration. -/
def jsonRecord (fields : List (String × Json.Value)) : Json.Value :=
  .object (fields.map (fun field => (field.1.toList, field.2)))

def jsonString (s : String) : Json.Value :=
  .string s.toList

def jsonNat (n : ℕ) : Json.Value :=
  .number (.ofNat n)

def readString : Reader String :=
  fun value => (Reader.string value).map String.ofList

/-- An optional field may be absent. -/
def optional {α : Type} (read : Reader α) (key : String) (members : List (Text × Json.Value))
    : Option (Option α) :=
  Reader.field (Reader.option read) (some none) key.toList members

/-- A field that may not be absent. -/
def required {α : Type} (read : Reader α) (key : String) (members : List (Text × Json.Value))
    : Option α :=
  Reader.field read none key.toList members

/-- A variant by its name; a fallback takes names that no variant has. -/
def readVariant {α : Type} (named : List (String × α)) (fallback : α) : Reader α :=
  fun value =>
    (Reader.variantName value).map (fun name =>
      ((named.find? (fun variant => variant.1.toList == name)).map Prod.snd).getD fallback)

namespace ContainerState

/-- The names of the states other than `unknown`. -/
def named : List (String × ContainerState) := [
  ("created", .created),
  ("running", .running),
  ("paused", .paused),
  ("restarting", .restarting),
  ("exited", .exited),
  ("removing", .removing),
  ("dead", .dead),
  ("stopping", .stopping)
]

def name : ContainerState → String
  | .created => "created"
  | .running => "running"
  | .paused => "paused"
  | .restarting => "restarting"
  | .exited => "exited"
  | .removing => "removing"
  | .dead => "dead"
  | .stopping => "stopping"
  | .unknown => "unknown"

def read : Reader ContainerState :=
  readVariant named .unknown

end ContainerState

namespace HealthState

/-- The names of the states other than `none`. -/
def named : List (String × HealthState) :=
  [("healthy", .healthy), ("unhealthy", .unhealthy), ("starting", .starting)]

def name : HealthState → String
  | .healthy => "healthy"
  | .unhealthy => "unhealthy"
  | .starting => "starting"
  | .none => "none"

def read : Reader HealthState :=
  readVariant named .none

end HealthState

namespace Port

def json (port : Port) : Json.Value :=
  jsonRecord [
    ("private", jsonNat port.privatePort),
    ("public", jsonOption jsonNat port.publicPort),
    ("proto", jsonString port.proto)
  ]

def read : Reader Port :=
  fun value => do
    let members ← Reader.members (["private", "public", "proto"].map String.toList) value
    let privatePort ← required (Reader.nat (2 ^ 16)) "private" members
    let publicPort ← optional (Reader.nat (2 ^ 16)) "public" members
    let proto ← required readString "proto" members
    return { privatePort, publicPort, proto }

end Port

section Floats

variable (floats : FloatFormat)

def jsonFloat (x : ℚ) : Json.Value :=
  .number (floats.text x)

def readFloat : Reader ℚ :=
  Reader.number floats.read

namespace ContainerMetrics

def fields : List String :=
  [
    "id", "name", "image", "state", "status", "health", "stack", "cpu_percent", "mem_used",
    "mem_limit", "net_rx_bps", "net_tx_bps", "disk_read_bps", "disk_write_bps", "ports"
  ]

def json (c : ContainerMetrics) : Json.Value :=
  jsonRecord [
    ("id", jsonString c.id),
    ("name", jsonString c.name),
    ("image", jsonString c.image),
    ("state", jsonString c.state.name),
    ("status", jsonString c.status),
    ("health", jsonString c.health.name),
    ("stack", jsonOption jsonString c.stack),
    ("cpu_percent", jsonOption (jsonFloat floats) c.cpuPercent),
    ("mem_used", jsonOption jsonNat c.memUsed),
    ("mem_limit", jsonOption jsonNat c.memLimit),
    ("net_rx_bps", jsonOption (jsonFloat floats) c.netRxBps),
    ("net_tx_bps", jsonOption (jsonFloat floats) c.netTxBps),
    ("disk_read_bps", jsonOption (jsonFloat floats) c.diskReadBps),
    ("disk_write_bps", jsonOption (jsonFloat floats) c.diskWriteBps),
    ("ports", .array (c.ports.map Port.json))
  ]

def read : Reader ContainerMetrics :=
  fun value => do
    let members ← Reader.members (fields.map String.toList) value
    let id ← required readString "id" members
    let name ← required readString "name" members
    let image ← required readString "image" members
    let state ← required ContainerState.read "state" members
    let status ← required readString "status" members
    let health ← required HealthState.read "health" members
    let stack ← optional readString "stack" members
    let cpuPercent ← optional (readFloat floats) "cpu_percent" members
    let memUsed ← optional (Reader.nat (2 ^ 64)) "mem_used" members
    let memLimit ← optional (Reader.nat (2 ^ 64)) "mem_limit" members
    let netRxBps ← optional (readFloat floats) "net_rx_bps" members
    let netTxBps ← optional (readFloat floats) "net_tx_bps" members
    let diskReadBps ← optional (readFloat floats) "disk_read_bps" members
    let diskWriteBps ← optional (readFloat floats) "disk_write_bps" members
    let ports ← required (Reader.list Port.read) "ports" members
    return {
      id, name, image, state, status, health, stack, cpuPercent, memUsed, memLimit, netRxBps,
      netTxBps, diskReadBps, diskWriteBps, ports
    }

end ContainerMetrics

namespace Dashboard

def json (dash : Dashboard) : Json.Value :=
  jsonRecord [
    ("generated_at_unix_ms", jsonNat dash.generatedAtUnixMs),
    ("cpu_count", jsonNat dash.cpuCount),
    ("containers", .array (dash.containers.map (·.json floats)))
  ]

def read : Reader Dashboard :=
  fun value => do
    let members ←
      Reader.members (["generated_at_unix_ms", "cpu_count", "containers"].map String.toList) value
    let generatedAtUnixMs ← required (Reader.nat (2 ^ 64)) "generated_at_unix_ms" members
    let cpuCount ← required (Reader.nat (2 ^ 64)) "cpu_count" members
    let containers ← required (Reader.list (ContainerMetrics.read floats)) "containers" members
    return { generatedAtUnixMs, cpuCount, containers }

end Dashboard

namespace NodeSnapshot

def json (snapshot : NodeSnapshot) : Json.Value :=
  jsonRecord [
    ("version", .string snapshot.version),
    ("read_only", .bool snapshot.readOnly),
    ("dashboard", snapshot.dashboard.json floats)
  ]

def read : Reader NodeSnapshot :=
  fun value => do
    let members ← Reader.members (["version", "read_only", "dashboard"].map String.toList) value
    let version ← required Reader.string "version" members
    let readOnly ← Reader.field Reader.bool (some false) "read_only".toList members
    let dashboard ← required (Dashboard.read floats) "dashboard" members
    return { version, readOnly, dashboard }

/-- `serde_json::to_string`. -/
def toJson (snapshot : NodeSnapshot) : Text :=
  (snapshot.json floats).text Json.standardEscape

/-- `serde_json::from_str`. -/
def fromJson (s : Text) : Option NodeSnapshot :=
  (Json.parse s).bind (read floats)

end NodeSnapshot

end Floats

end DockDoe
