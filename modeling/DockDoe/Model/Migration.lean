import DockDoe.Foundations.KeyedFolds
import DockDoe.Foundations.NullableAggregates
import DockDoe.Model.StoreTables

/-! Opening a database: tables and columns that an earlier build lacks are added, and a trend
table in the long layout, one row per container, bucket and metric, is pivoted into the wide
one.
-/

namespace DockDoe

open Nullable

/-- A row of the long trend table from before the `host` column. -/
structure HostlessTrend where
  bucketStartMs : ℤ
  bucketSecs : ℤ
  id : String
  name : String
  stack : Option String
  metric : String
  min : ℚ
  max : ℚ
  median : ℚ
  samples : ℤ
  deriving DecidableEq

/-- A row of the long trend table. -/
structure LegacyTrend extends HostlessTrend where
  host : String
  deriving DecidableEq

/-- The layouts of `container_trend`: long without and with the host column, and wide. -/
inductive TrendLayout
  | hostless (rows : List HostlessTrend)
  | long (rows : List LegacyTrend)
  | wide (table : TrendTable)

/-- The columns of `container_sample` that every build has had. -/
def firstSampleColumns : List String :=
  ["ts_ms", "id", "name", "cpu_percent", "mem_used", "mem_limit"]

/-- The columns of `container_sample` that were added later, in the order they are checked. -/
def laterSampleColumns : List String :=
  ["host", "net_rx", "net_tx", "disk_read", "disk_write"]

/-- `container_sample` with the columns it has. What a row holds under a column that the
table lacks means nothing: adding the column overwrites it.
-/
structure SampleTable where
  columns : List String
  rows : List SampleRow
  complete : firstSampleColumns ⊆ columns

/-- A database file, as far as it concerns samples and trends. -/
structure Database where
  containerSample : Option SampleTable
  containerTrend : Option TrendLayout

/-- An opened store, closed again. -/
def Store.toDatabase (store : Store) : Database :=
  {
    containerSample :=
      some {
        columns := firstSampleColumns ++ laterSampleColumns
        rows := store.containerSample
        complete := List.subset_append_left _ _
      }
    containerTrend := some (.wide store.containerTrend)
  }

-----------------------------------------------------------------------------------------
-- Missing tables and columns
-----------------------------------------------------------------------------------------

/-- The sample table of `CREATE_TABLES`. -/
def SampleTable.empty : SampleTable :=
  {
    columns := firstSampleColumns ++ laterSampleColumns
    rows := []
    complete := List.subset_append_left _ _
  }

/-- A row with the default that `ALTER TABLE … ADD COLUMN` fills a later column with. -/
def SampleRow.withDefault (row : SampleRow) : String → SampleRow
  | "host" => { row with host := "local" }
  | "net_rx" => { row with netRx := none }
  | "net_tx" => { row with netTx := none }
  | "disk_read" => { row with diskRead := none }
  | "disk_write" => { row with diskWrite := none }
  | _ => row

/-- `add_column_if_missing` on the sample table. -/
def SampleTable.addColumnIfMissing (table : SampleTable) (column : String) : SampleTable :=
  if column ∈ table.columns then
    table
  else
    {
      columns := table.columns ++ [column]
      rows := table.rows.map (fun row => row.withDefault column)
      complete := List.Subset.trans table.complete (List.subset_append_left _ _)
    }

/-- `add_column_if_missing` of the trend table's `host`. -/
def TrendLayout.addHostIfMissing : TrendLayout → TrendLayout
  | .hostless rows => .long (rows.map (fun row => { row with host := "local" }))
  | layout => layout

-----------------------------------------------------------------------------------------
-- Pivoting the long trend table
-----------------------------------------------------------------------------------------

/-- The `(host, name, bucket_start_ms)` that legacy rows are grouped by. -/
def LegacyTrend.key (row : LegacyTrend) : StoredKey :=
  { host := row.host, name := row.name, bucketStartMs := row.bucketStartMs }

/-- `CASE WHEN metric = … THEN value END` over a group. -/
def caseMetric (metric : Metric) (value : LegacyTrend → ℚ) (group : List LegacyTrend)
    : List (Option ℚ) :=
  group.map (fun row => if row.metric = metric.asStr then some (value row) else none)

/-- The columns of one metric that `LEGACY_PIVOT_SQL` selects for a group. -/
def EnvelopeColumns.ofLegacy (metric : Metric) (group : List LegacyTrend) : EnvelopeColumns :=
  {
    min := minAgg (caseMetric metric (fun row => row.min) group)
    med :=
      quotient (sumAgg (caseMetric metric (fun row => row.median * row.samples) group))
        (sumAgg (caseMetric metric (fun row => row.samples) group))
    max := maxAgg (caseMetric metric (fun row => row.max) group)
  }

/-- A value for a column that must not be NULL. -/
def notNull {α : Type} : Option α → Except SqlError α
  | none => .error .constraintNotNull
  | some value => .ok value

/-- The row that `LEGACY_PIVOT_SQL` selects for a group. -/
def TrendRow.ofLegacy (group : List LegacyTrend) : Except SqlError TrendRow := do
  let bucketSecs ← notNull (maxAgg (group.map (fun row => some row.bucketSecs)))
  let id ← notNull (maxAgg (group.map (fun row => some row.id)))
  let stack := maxAgg (group.map (fun row => row.stack))
  let samples ← notNull (maxAgg (group.map (fun row => some row.samples)))
  return { bucketSecs, id, stack, samples, columns := fun metric => .ofLegacy metric group }

/-- A plain `INSERT`: a taken primary key is a conflict. -/
def TrendTable.insertNew (table : TrendTable) (key : StoredKey) (row : TrendRow)
    : Except SqlError TrendTable :=
  if key ∈ table then .error .constraintPrimaryKey else .ok (table.insert key row)

/-- One execution of `LEGACY_PIVOT_SQL`, for the bucket starts from `lower` up to `upper`. -/
def pivotChunk (legacy : List LegacyTrend) (lower upper : ℤ) (table : TrendTable)
    : Except SqlError TrendTable :=
  let chunk := legacy.filter (fun row => lower ≤ row.bucketStartMs ∧ row.bucketStartMs < upper)
  (KeyedFolds.groups LegacyTrend.key chunk).foldlM
    (fun table group => do
      let row ← TrendRow.ofLegacy group.2
      table.insertNew group.1 row)
    table

/-- `MIGRATION_CHUNK_MS`: an hour. -/
def migrationChunkMs : ℤ := 3600000

/-- `i64::saturating_add`. -/
def saturatingAdd (v w : ℤ) : ℤ :=
  max (-2 ^ 63) (min (v + w) i64Max)

/-- The loop over the chunks; `none` when it takes more than `fuel` rounds. -/
def pivotChunks (legacy : List LegacyTrend) (last : ℤ)
    : ℕ → ℤ → TrendTable → Option (Except SqlError TrendTable)
  | 0, lower, table => if lower ≤ last then none else some (.ok table)
  | fuel + 1, lower, table =>
      if lower ≤ last then
        let upper := saturatingAdd lower migrationChunkMs
        match pivotChunk legacy lower upper table with
        | .error error => some (.error error)
        | .ok table => pivotChunks legacy last fuel upper table
      else
        some (.ok table)

/-- `migrate_trend_layout`: a wide table stays as it is; the legacy one is pivoted into a new
one and dropped.
-/
def migrateTrendLayout (fuel : ℕ) : TrendLayout → Option (Except SqlError TrendTable)
  | .wide table => some (.ok table)
  | .hostless [] => some (.ok ∅)
  | .hostless (_ :: _) => some (.error (.noSuchColumn "host"))
  | .long legacy =>
      let first := minAgg (legacy.map (fun row => some row.bucketStartMs))
      let last := maxAgg (legacy.map (fun row => some row.bucketStartMs))
      match first, last with
      | some first, some last => pivotChunks legacy last fuel first ∅
      | _, _ => some (.ok ∅)

/-- The indexed columns of `container_sample`; those of the wide trend table exist. -/
def createIndexes (table : SampleTable) : Except SqlError Unit :=
  ["host", "id", "ts_ms"].forM (fun column =>
    if column ∈ table.columns then .ok () else .error (.noSuchColumn column))

/-- `Store::from_connection`: tables first, then missing columns, then the trend layout and
last the indexes; `none` when the migration takes more than `fuel` rounds.
-/
def Store.fromConnection (fuel : ℕ) (db : Database) : Option (Except SqlError Store) :=
  let samples := db.containerSample.getD .empty
  let trends := db.containerTrend.getD (.wide ∅)
  let samples := laterSampleColumns.foldl SampleTable.addColumnIfMissing samples
  let trends := trends.addHostIfMissing
  (migrateTrendLayout fuel trends).map (fun migrated => do
    let containerTrend ← migrated
    createIndexes samples
    return { containerSample := samples.rows, containerTrend })

end DockDoe
