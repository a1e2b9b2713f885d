import Mathlib

/-! The dashboard data model: one container's metrics and identity, and the six metrics
that trends are kept for. Floating-point values are exact rationals throughout.
-/

namespace DockDoe

/-- Docker's container state. -/
inductive ContainerState
  | created | running | paused | restarting | exited | removing | dead | stopping | unknown
  deriving DecidableEq

/-- Health as reported by Docker's healthcheck, if one is configured. -/
inductive HealthState
  | healthy | unhealthy | starting | none
  deriving DecidableEq

/-- A network port a container exposes: the port inside the container, and the host port
it is published to, if any.
-/
structure Port where
  privatePort : ℕ
  publicPort : Option ℕ
  proto : String
  deriving DecidableEq

/-- Per-container metrics and identity. -/
structure ContainerMetrics where
  id : String
  name : String
  image : String
  state : ContainerState
  status : String
  health : HealthState
  stack : Option String
  cpuPercent : Option ℚ
  memUsed : Option ℕ
  memLimit : Option ℕ
  netRxBps : Option ℚ
  netTxBps : Option ℚ
  diskReadBps : Option ℚ
  diskWriteBps : Option ℚ
  ports : List Port

/-- One collection cycle of a host: its containers at a time. -/
structure Snapshot where
  tsMs : ℕ
  containers : List ContainerMetrics

/-- Which metric a trend row describes. -/
inductive Metric
  | cpu | mem | netRx | netTx | diskRead | diskWrite
  deriving DecidableEq

namespace Metric

/-- Every metric, in the column order of the wide trend row (`Metric::ALL`). -/
def all : List Metric :=
  [.cpu, .mem, .netRx, .netTx, .diskRead, .diskWrite]

/-- The short string a long-format trend row stores. -/
def asStr : Metric → String
  | .cpu => "cpu"
  | .mem => "mem"
  | .netRx => "net_rx"
  | .netTx => "net_tx"
  | .diskRead => "disk_read"
  | .diskWrite => "disk_write"

/-- A metric's position in `all`. -/
def slot : Metric → ℕ
  | .cpu => 0
  | .mem => 1
  | .netRx => 2
  | .netTx => 3
  | .diskRead => 4
  | .diskWrite => 5

/-- The metric a string names: the first of `all` with that name. -/
def ofStr? (name : String) : Option Metric :=
  all.find? (fun metric => metric.asStr == name)

/-- Every metric occurs in `all`. -/
@[simp]
theorem mem_all (metric : Metric) : metric ∈ all := by
  cases metric <;> decide

instance : Fintype Metric where
  elems := all.toFinset
  complete := by simp

/-- Metrics are ordered by their column position. -/
instance : LinearOrder Metric :=
  LinearOrder.lift' slot (by intro left right; cases left <;> cases right <;> decide)

/-- A metric is found under its own name. -/
@[simp]
theorem ofStr?_asStr (metric : Metric) : ofStr? metric.asStr = some metric := by
  cases metric <;> decide

/-- A name that is found is the found metric's own. -/
theorem asStr_of_ofStr? {name : String} {metric : Metric} (found : ofStr? name = some metric)
    : metric.asStr = name := by
  simpa using List.find?_some found

/-- Perform a fallible step for every metric, in column order. -/
def collect {ε α : Type} (step : Metric → Except ε α) : Except ε (Metric → α) := do
  let cpu ← step .cpu
  let mem ← step .mem
  let netRx ← step .netRx
  let netTx ← step .netTx
  let diskRead ← step .diskRead
  let diskWrite ← step .diskWrite
  return fun
    | .cpu => cpu
    | .mem => mem
    | .netRx => netRx
    | .netTx => netTx
    | .diskRead => diskRead
    | .diskWrite => diskWrite

/-- Collecting steps that all succeed yields their results. -/
theorem collect_ok {ε α : Type} {step : Metric → Except ε α} {result : Metric → α}
    (each : ∀ metric, step metric = .ok (result metric))
    : collect step = .ok result := by
  simp only [collect, each, bind, Except.bind, pure, Except.pure, Except.ok.injEq]
  funext metric
  cases metric <;> rfl

end Metric

/-- The value a container reports for a metric, as the bucketer takes it. -/
def ContainerMetrics.metric? (c : ContainerMetrics) : Metric → Option ℚ
  | .cpu => c.cpuPercent
  | .mem => c.memUsed.map (fun bytes : ℕ => (bytes : ℚ))
  | .netRx => c.netRxBps
  | .netTx => c.netTxBps
  | .diskRead => c.diskReadBps
  | .diskWrite => c.diskWriteBps

end DockDoe
