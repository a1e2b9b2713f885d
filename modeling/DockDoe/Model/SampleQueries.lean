import DockDoe.Model.StoreTables
import DockDoe.Foundations.FallibleLists

/-! Writing raw samples, pruning them and reading them back as chart points. The writer's
parameter list and the reader's column list are spelled out position by position, as in
the two SQL statements.
-/

namespace DockDoe

/-- One raw metric point at a timestamp, as it seeds and feeds the live charts. -/
structure MetricPoint where
  tsMs : ℕ
  cpuPercent : ℚ
  memUsed : Option ℕ
  netRx : Option ℚ
  netTx : Option ℚ
  diskRead : Option ℚ
  diskWrite : Option ℚ
  deriving DecidableEq

/-- The parameters `?1 .. ?11` of the sample insert. -/
def sampleParams (host : String) (tsMs : ℕ) (c : ContainerMetrics) : List Value :=
  [
    .integer (toDb tsMs),
    .text host,
    .text c.id,
    .text c.name,
    .ofReal? c.cpuPercent,
    .ofInteger? (c.memUsed.map toDb),
    .ofInteger? (c.memLimit.map toDb),
    .ofReal? c.netRxBps,
    .ofReal? c.netTxBps,
    .ofReal? c.diskReadBps,
    .ofReal? c.diskWriteBps
  ]

/-- The row the insert's column list makes of its parameters. -/
def SampleRow.ofParams (params : List Value) : Except SqlError SampleRow := do
  let tsMs ← getColumn ℤ params 0
  let host ← getColumn String params 1
  let id ← getColumn String params 2
  let name ← getColumn String params 3
  let cpuPercent ← getColumn (Option ℚ) params 4
  let memUsed ← getColumn (Option ℤ) params 5
  let memLimit ← getColumn (Option ℤ) params 6
  let netRx ← getColumn (Option ℚ) params 7
  let netTx ← getColumn (Option ℚ) params 8
  let diskRead ← getColumn (Option ℚ) params 9
  let diskWrite ← getColumn (Option ℚ) params 10
  return { tsMs, host, id, name, cpuPercent, memUsed, memLimit, netRx, netTx, diskRead, diskWrite }

/-- `Store::insert_samples`: one row per container, in one transaction. -/
def Store.insertSamples (store : Store) (host : String) (tsMs : ℕ)
    (containers : List ContainerMetrics)
    : Except SqlError Store := do
  let rows ← containers.mapM (fun c => SampleRow.ofParams (sampleParams host tsMs c))
  return { store with containerSample := store.containerSample ++ rows }

/-- `Store::prune_raw`: drop the raw samples older than `beforeMs`. -/
def Store.pruneRaw (store : Store) (beforeMs : ℕ) : Store :=
  {
    store with
    containerSample := store.containerSample.filter (fun row => ¬ row.tsMs < toDb beforeMs)
  }

/-- The columns the chart seed selects from a sample row. -/
def SampleRow.selectPoint (row : SampleRow) : List Value :=
  [
    .integer row.tsMs,
    .ofReal? row.cpuPercent,
    .ofInteger? row.memUsed,
    .ofReal? row.netRx,
    .ofReal? row.netTx,
    .ofReal? row.diskRead,
    .ofReal? row.diskWrite
  ]

/-- `row_to_point`: a selected row as a point. The CPU column is read as a plain float. -/
def rowToPoint (row : List Value) : Except SqlError MetricPoint := do
  let tsMs ← getColumn ℤ row 0
  let cpuPercent ← getColumn ℚ row 1
  let memUsed ← getColumn (Option ℤ) row 2
  let netRx ← getColumn (Option ℚ) row 3
  let netTx ← getColumn (Option ℚ) row 4
  let diskRead ← getColumn (Option ℚ) row 5
  let diskWrite ← getColumn (Option ℚ) row 6
  return {
    tsMs := fromDb tsMs, cpuPercent, memUsed := memUsed.map fromDb, netRx, netTx, diskRead
    diskWrite
  }

/-- `Store::recent_container_samples`: one container's samples from `sinceMs` on, oldest
first. One row that does not convert fails the whole query.
-/
def Store.recentContainerSamples (store : Store) (host id : String) (sinceMs : ℕ)
    : Except SqlError (List MetricPoint) :=
  let selected :=
    store.containerSample.filter
      (fun row => row.host = host ∧ row.id = id ∧ toDb sinceMs ≤ row.tsMs)
  let ordered := selected.insertionSort (fun left right => left.tsMs ≤ right.tsMs)
  ordered.mapM (fun row => rowToPoint row.selectPoint)

/-- The point `events_container` streams for a container of a snapshot. -/
def livePoint (generatedAtUnixMs : ℕ) (c : ContainerMetrics) : MetricPoint :=
  {
    tsMs := generatedAtUnixMs
    cpuPercent := c.cpuPercent.getD 0
    memUsed := c.memUsed
    netRx := c.netRxBps
    netTx := c.netTxBps
    diskRead := c.diskReadBps
    diskWrite := c.diskWriteBps
  }

/-- The row stored for one container of a snapshot. -/
def SampleRow.ofContainer (host : String) (tsMs : ℕ) (c : ContainerMetrics) : SampleRow :=
  {
    tsMs := toDb tsMs
    host
    id := c.id
    name := c.name
    cpuPercent := c.cpuPercent
    memUsed := c.memUsed.map toDb
    memLimit := c.memLimit.map toDb
    netRx := c.netRxBps
    netTx := c.netTxBps
    diskRead := c.diskReadBps
    diskWrite := c.diskWriteBps
  }

/-- The insert's parameters land in the columns of the same meaning. -/
theorem SampleRow.ofParams_sampleParams (host : String) (tsMs : ℕ) (c : ContainerMetrics)
    : SampleRow.ofParams (sampleParams host tsMs c) = .ok (.ofContainer host tsMs c) := by
  simp [ofParams, sampleParams, getColumn, ofContainer, bind, Except.bind, pure, Except.pure]

/-- Storing a snapshot never fails and appends its containers' rows, since every bound value has
the type of its column.
-/
theorem Store.insertSamples_eq (store : Store) (host : String) (tsMs : ℕ)
    (containers : List ContainerMetrics)
    : store.insertSamples host tsMs containers
      = .ok {
          store with
          containerSample :=
            store.containerSample ++ containers.map (SampleRow.ofContainer host tsMs)
        } := by
  have rows
      : containers.mapM (fun c => SampleRow.ofParams (sampleParams host tsMs c))
        = .ok (containers.map (SampleRow.ofContainer host tsMs)) :=
    FallibleLists.mapM_ok (fun c _ => SampleRow.ofParams_sampleParams host tsMs c)
  simp only [insertSamples, rows]
  rfl

/-- A row without a CPU value does not read back as a point. -/
theorem rowToPoint_of_cpu_none {row : SampleRow} (absent : row.cpuPercent = none)
    : rowToPoint row.selectPoint = .error (.invalidColumnType 1) := by
  simp [rowToPoint, SampleRow.selectPoint, getColumn, absent, bind, Except.bind]

/-- A row with a CPU value reads back as the point of its columns. -/
theorem rowToPoint_of_cpu_some {row : SampleRow} {cpu : ℚ} (present : row.cpuPercent = some cpu)
    : rowToPoint row.selectPoint
      = .ok {
          tsMs := fromDb row.tsMs
          cpuPercent := cpu
          memUsed := row.memUsed.map fromDb
          netRx := row.netRx
          netTx := row.netTx
          diskRead := row.diskRead
          diskWrite := row.diskWrite
        } := by
  simp [rowToPoint, SampleRow.selectPoint, getColumn, present, bind, Except.bind, pure,
    Except.pure]

end DockDoe
