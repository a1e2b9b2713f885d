import DockDoe.Foundations.FallibleLists
import DockDoe.Foundations.KeyedFolds
import DockDoe.Foundations.NullableAggregates
import DockDoe.Model.StoreTables

/-! The history queries: raw samples or trend rows of a window, downsampled into groups of a
width, each with the extremes and the mean of every metric.
-/

namespace DockDoe

open Nullable

/-- One bucket of the history view: the envelope of every metric, absent without data. -/
structure HistoryPoint where
  tsMs : ℕ
  columns : Metric → EnvelopeColumns
  deriving DecidableEq

/-- `history_row_to_point`: a downsampled row, read column by column. -/
def historyRowToPoint (row : List Value) : Except SqlError HistoryPoint := do
  let tsMs ← getColumn ℤ row 0
  let columns ← Metric.collect (fun metric => do
    let min ← getColumn (Option ℚ) row (1 + 3 * metric.slot)
    let med ← getColumn (Option ℚ) row (2 + 3 * metric.slot)
    let max ← getColumn (Option ℚ) row (3 + 3 * metric.slot)
    return ({ min, med, max } : EnvelopeColumns))
  return { tsMs := fromDb tsMs, columns }

/-- `(start / width) * width`: SQLite's integer division truncates. -/
def historyBucket (width start : ℤ) : ℤ :=
  start.tdiv width * width

/-- The width of the groups, as it is bound. -/
def historyWidth (groupMs : ℕ) : ℤ :=
  toDb (max groupMs 1)

/-- `envelope_columns`: extremes of the extremes and the mean of the medians. -/
def EnvelopeColumns.aggregate (rows : List EnvelopeColumns) : EnvelopeColumns :=
  {
    min := minAgg (rows.map EnvelopeColumns.min)
    med := avgAgg (rows.map EnvelopeColumns.med)
    max := maxAgg (rows.map EnvelopeColumns.max)
  }

/-- The sums over the members of a stack. -/
def EnvelopeColumns.sum (rows : List EnvelopeColumns) : EnvelopeColumns :=
  {
    min := sumAgg (rows.map EnvelopeColumns.min)
    med := sumAgg (rows.map EnvelopeColumns.med)
    max := sumAgg (rows.map EnvelopeColumns.max)
  }

/-- The columns that a history query selects for a group of rows. -/
def selectHistory (bucket : ℤ) (rows : List (Metric → EnvelopeColumns)) : List Value :=
  .integer bucket
  :: Metric.all.flatMap (fun metric =>
      let envelope := EnvelopeColumns.aggregate (rows.map (fun columns => columns metric))
      [.ofReal? envelope.min, .ofReal? envelope.med, .ofReal? envelope.max])

/-- `Store::history_container`: the trend rows of a name, grouped. -/
def Store.historyContainer (store : Store) (host name : String) (sinceMs untilMs groupMs : ℕ)
    : Except SqlError (List HistoryPoint) :=
  let rows := store.containerTrend.toList.filter (fun entry =>
    entry.1.host = host
    ∧ entry.1.name = name
    ∧ entry.1.bucketStartMs ≥ toDb sinceMs
    ∧ entry.1.bucketStartMs ≤ toDb untilMs)
  let groups := KeyedFolds.groups
    (fun entry => historyBucket (historyWidth groupMs) entry.1.bucketStartMs) rows
  groups.mapM (fun group =>
    historyRowToPoint (selectHistory group.1 (group.2.map (fun entry => entry.2.columns))))

/-- The common table `per_bucket`: the members of a stack, summed per bucket start. -/
def Store.perBucket (store : Store) (host stack : String) (sinceMs untilMs : ℕ)
    : List (ℤ × (Metric → EnvelopeColumns)) :=
  let rows := store.containerTrend.toList.filter (fun entry =>
    entry.1.host = host
    ∧ entry.2.stack = some stack
    ∧ entry.1.bucketStartMs ≥ toDb sinceMs
    ∧ entry.1.bucketStartMs ≤ toDb untilMs)
  (KeyedFolds.groups (fun entry => entry.1.bucketStartMs) rows).map (fun group =>
    (group.1, fun metric => .sum (group.2.map (fun entry => entry.2.columns metric))))

/-- `Store::history_stack`: the summed buckets of a stack, grouped. -/
def Store.historyStack (store : Store) (host stack : String) (sinceMs untilMs groupMs : ℕ)
    : Except SqlError (List HistoryPoint) :=
  let groups := KeyedFolds.groups
    (fun bucket => historyBucket (historyWidth groupMs) bucket.1)
    (store.perBucket host stack sinceMs untilMs)
  groups.mapM (fun group => historyRowToPoint (selectHistory group.1 (group.2.map Prod.snd)))

-----------------------------------------------------------------------------------------
-- Raw samples
-----------------------------------------------------------------------------------------

/-- The three aggregates of a real column. -/
def selectReals (column : List (Option ℚ)) : List Value :=
  [.ofReal? (minAgg column), .ofReal? (avgAgg column), .ofReal? (maxAgg column)]

/-- The three aggregates of an integer column; its mean is a real. -/
def selectIntegers (column : List (Option ℤ)) : List Value :=
  [
    .ofInteger? (minAgg column),
    .ofReal? (avgAgg (column.map (fun value => value.map (fun v : ℤ => (v : ℚ))))),
    .ofInteger? (maxAgg column)
  ]

/-- The columns that the raw history query selects for a group of samples. -/
def selectRawHistory (bucket : ℤ) (rows : List SampleRow) : List Value :=
  .integer bucket
  :: selectReals (rows.map SampleRow.cpuPercent)
  ++ selectIntegers (rows.map SampleRow.memUsed)
  ++ selectReals (rows.map SampleRow.netRx)
  ++ selectReals (rows.map SampleRow.netTx)
  ++ selectReals (rows.map SampleRow.diskRead)
  ++ selectReals (rows.map SampleRow.diskWrite)

/-- `Store::history_container_raw`: the samples of an id, grouped. -/
def Store.historyContainerRaw (store : Store) (host id : String) (sinceMs untilMs groupMs : ℕ)
    : Except SqlError (List HistoryPoint) :=
  let rows := store.containerSample.filter (fun row =>
    row.host = host ∧ row.id = id ∧ row.tsMs ≥ toDb sinceMs ∧ row.tsMs ≤ toDb untilMs)
  let groups := KeyedFolds.groups
    (fun row => historyBucket (historyWidth groupMs) row.tsMs) rows
  groups.mapM (fun group => historyRowToPoint (selectRawHistory group.1 group.2))

-----------------------------------------------------------------------------------------
-- What the queries return
-----------------------------------------------------------------------------------------

/-- Reading a selected group never fails: every column is found at its place with the type it is
read at, metric by metric.
-/
theorem historyRowToPoint_selectHistory (bucket : ℤ) (rows : List (Metric → EnvelopeColumns))
    : historyRowToPoint (selectHistory bucket rows)
      = .ok {
          tsMs := fromDb bucket
          columns := fun metric => .aggregate (rows.map (fun columns => columns metric))
        } := by
  have columns
      : Metric.collect (fun metric => do
          let min ← getColumn (Option ℚ) (selectHistory bucket rows) (1 + 3 * metric.slot)
          let med ← getColumn (Option ℚ) (selectHistory bucket rows) (2 + 3 * metric.slot)
          let max ← getColumn (Option ℚ) (selectHistory bucket rows) (3 + 3 * metric.slot)
          return ({ min, med, max } : EnvelopeColumns))
        = (.ok (fun metric => .aggregate (rows.map (fun columns => columns metric)))
            : Except SqlError _) := by
    refine Metric.collect_ok (fun metric => ?_)
    cases metric <;>
      simp [getColumn, selectHistory, Metric.all, Metric.slot, bind, Except.bind, pure,
        Except.pure]
  unfold historyRowToPoint
  rw [columns]
  simp [getColumn, selectHistory, bind, Except.bind, pure, Except.pure]

/-- The columns of a group of single values. -/
def EnvelopeColumns.ofValues (values : List (Option ℚ)) : EnvelopeColumns :=
  { min := minAgg values, med := avgAgg values, max := maxAgg values }

/-- Reading a selected group of samples never fails; whole bytes read as reals, and converting
them keeps their order.
-/
theorem historyRowToPoint_selectRawHistory (bucket : ℤ) (rows : List SampleRow)
    : historyRowToPoint (selectRawHistory bucket rows)
      = .ok {
          tsMs := fromDb bucket
          columns := fun metric => .ofValues (rows.map (fun row => row.metric? metric))
        } := by
  have bytes
      : rows.map (fun row => row.metric? .mem)
        = (rows.map SampleRow.memUsed).map (Option.map (fun bytes : ℤ => (bytes : ℚ))) := by
    rw [List.map_map]
    rfl
  have least := minAgg_map (Int.cast_mono (R := ℚ)) (rows.map SampleRow.memUsed)
  have greatest := maxAgg_map (Int.cast_mono (R := ℚ)) (rows.map SampleRow.memUsed)
  have columns
      : Metric.collect (fun metric => do
          let min ← getColumn (Option ℚ) (selectRawHistory bucket rows) (1 + 3 * metric.slot)
          let med ← getColumn (Option ℚ) (selectRawHistory bucket rows) (2 + 3 * metric.slot)
          let max ← getColumn (Option ℚ) (selectRawHistory bucket rows) (3 + 3 * metric.slot)
          return ({ min, med, max } : EnvelopeColumns))
        = (.ok (fun metric => .ofValues (rows.map (fun row => row.metric? metric)))
            : Except SqlError _) := by
    refine Metric.collect_ok (fun metric => ?_)
    cases metric with
    | mem =>
        rw [bytes, EnvelopeColumns.ofValues, least, greatest]
        simp [getColumn, selectRawHistory, selectReals, selectIntegers, Metric.slot, bind,
          Except.bind, pure, Except.pure]
    | cpu | netRx | netTx | diskRead | diskWrite =>
        simp [getColumn, selectRawHistory, selectReals, selectIntegers, Metric.slot, bind,
          Except.bind, pure, Except.pure, EnvelopeColumns.ofValues, SampleRow.metric?]
  unfold historyRowToPoint
  rw [columns]
  simp [getColumn, selectRawHistory, bind, Except.bind, pure, Except.pure]

end DockDoe
