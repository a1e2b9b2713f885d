import DockDoe.Foundations.FallibleLists
import DockDoe.Foundations.KeyedFolds
import DockDoe.Foundations.NullableAggregates
import DockDoe.Model.DockerClient
import DockDoe.Model.SampleQueries

/-! The chart of a stack: the live aggregate over its current members, and the seed that is
summed up from the trend rows of its members.
-/

namespace DockDoe

open Nullable

-----------------------------------------------------------------------------------------
-- The live aggregate
-----------------------------------------------------------------------------------------

/-- Accumulates a stack's per-second rates across its members. -/
structure StackIo where
  netRx : Option ℚ
  netTx : Option ℚ
  diskRead : Option ℚ
  diskWrite : Option ℚ

/-- `StackIo::default()`. -/
def StackIo.default : StackIo :=
  { netRx := none, netTx := none, diskRead := none, diskWrite := none }

/-- `add_opt`: an absent value adds nothing, not even zero. -/
def addOpt (acc value : Option ℚ) : Option ℚ :=
  match value with
  | none => acc
  | some v => some (acc.getD 0 + v)

def StackIo.add (io : StackIo) (c : ContainerMetrics) : StackIo :=
  {
    netRx := addOpt io.netRx c.netRxBps
    netTx := addOpt io.netTx c.netTxBps
    diskRead := addOpt io.diskRead c.diskReadBps
    diskWrite := addOpt io.diskWrite c.diskWriteBps
  }

/-- The members of a stack. -/
def Snapshot.members (dash : Snapshot) (stack : String) : List ContainerMetrics :=
  dash.containers.filter (fun c => c.stack = some stack)

/-- The point `events_stack` streams for a stack of a snapshot. The sum of the members'
memory wraps at 64 bits.
-/
def stackPoint (stack : String) (dash : Snapshot) : MetricPoint :=
  let members := dash.members stack
  let cpu := members.foldl (fun total c => total + c.cpuPercent.getD 0) 0
  let mem := members.foldl (fun total c => (total + c.memUsed.getD 0) % 2 ^ 64) 0
  let io := members.foldl StackIo.add .default
  {
    tsMs := dash.tsMs
    cpuPercent := cpu
    memUsed := some mem
    netRx := io.netRx
    netTx := io.netTx
    diskRead := io.diskRead
    diskWrite := io.diskWrite
  }

-----------------------------------------------------------------------------------------
-- The stored seed
-----------------------------------------------------------------------------------------

/-- `m.round().max(0.0) as u64`: the cast saturates. Halves round up here and away from zero
there, which differs for negative values only, and those read as zero.
-/
def wholeBytes (m : ℚ) : ℕ :=
  min (max (round m) 0).toNat u64Max

/-- `trend_row_to_point`: the summed columns of a bucket as a point. -/
def trendRowToPoint (row : List Value) : Except SqlError MetricPoint := do
  let mem ← getColumn (Option ℚ) row 2
  let tsMs ← getColumn ℤ row 0
  let cpu ← getColumn (Option ℚ) row 1
  let netRx ← getColumn (Option ℚ) row 3
  let netTx ← getColumn (Option ℚ) row 4
  let diskRead ← getColumn (Option ℚ) row 5
  let diskWrite ← getColumn (Option ℚ) row 6
  return {
    tsMs := fromDb tsMs
    cpuPercent := cpu.getD 0
    memUsed := mem.map wholeBytes
    netRx
    netTx
    diskRead
    diskWrite
  }

/-- `COALESCE(value, 0)`. -/
def Value.orZero : Option ℚ → Value
  | none => .integer 0
  | some value => .real value

/-- `SUM` over one metric's medians. -/
def sumMedians (metric : Metric) (rows : List TrendRow) : Option ℚ :=
  sumAgg (rows.map (fun row => (row.columns metric).med))

/-- The columns that the stack seed selects for the trend rows of a bucket. -/
def selectStackPoint (bucketStartMs : ℤ) (rows : List TrendRow) : List Value :=
  [
    .integer bucketStartMs,
    .orZero (sumMedians .cpu rows),
    .orZero (sumMedians .mem rows),
    .ofReal? (sumMedians .netRx rows),
    .ofReal? (sumMedians .netTx rows),
    .ofReal? (sumMedians .diskRead rows),
    .ofReal? (sumMedians .diskWrite rows)
  ]

/-- `Store::recent_stack_trends`: the trend rows of a stack, summed per bucket. -/
def Store.recentStackTrends (store : Store) (host stack : String) (sinceMs : ℕ)
    : Except SqlError (List MetricPoint) :=
  let rows := store.containerTrend.toList.filter (fun entry =>
    entry.1.host = host
    ∧ entry.2.stack = some stack
    ∧ entry.1.bucketStartMs ≥ toDb sinceMs)
  (KeyedFolds.groups (fun entry => entry.1.bucketStartMs) rows).mapM (fun group =>
    trendRowToPoint (selectStackPoint group.1 (group.2.map Prod.snd)))

-----------------------------------------------------------------------------------------
-- Both in terms of SUM
-----------------------------------------------------------------------------------------

/-- A point with the sums of six columns, in which only the rates can be unknown. -/
def pointOfSums (tsMs : ℕ) (sums : Metric → Option ℚ) : MetricPoint :=
  {
    tsMs
    cpuPercent := (sums .cpu).getD 0
    memUsed := some (wholeBytes ((sums .mem).getD 0))
    netRx := sums .netRx
    netTx := sums .netTx
    diskRead := sums .diskRead
    diskWrite := sums .diskWrite
  }

@[simp]
theorem columnResult_orZero (value : Option ℚ)
    : (FromSql.columnResult (Value.orZero value) : Option (Option ℚ))
      = some (some (value.getD 0)) := by
  cases value <;> rfl

/-- Reading a selected bucket never fails. -/
theorem trendRowToPoint_selectStackPoint (bucketStartMs : ℤ) (rows : List TrendRow)
    : trendRowToPoint (selectStackPoint bucketStartMs rows)
      = .ok (pointOfSums (fromDb bucketStartMs) (fun metric => sumMedians metric rows)) := by
  simp [trendRowToPoint, selectStackPoint, pointOfSums, getColumn, bind, Except.bind, pure,
    Except.pure]

/-- The seed never fails; it has one point for each bucket start among the stack's rows. -/
theorem Store.recentStackTrends_eq (store : Store) (host stack : String) (sinceMs : ℕ)
    : store.recentStackTrends host stack sinceMs
      = .ok ((KeyedFolds.groups (fun entry : StoredKey × TrendRow => entry.1.bucketStartMs)
          (store.containerTrend.toList.filter (fun entry =>
            entry.1.host = host
            ∧ entry.2.stack = some stack
            ∧ entry.1.bucketStartMs ≥ toDb sinceMs))).map (fun group =>
          pointOfSums (fromDb group.1)
            (fun metric => sumMedians metric (group.2.map Prod.snd)))) :=
  FallibleLists.mapM_ok (fun group _ => trendRowToPoint_selectStackPoint group.1 _)

end DockDoe
