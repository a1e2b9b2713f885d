import DockDoe.Foundations.NullableAggregates
import DockDoe.Model.TrendRows

/-! Storing a batch of trend rollups: the pivoted rows are bound to the placeholders of one
insert statement, which merges a row into the one already there for that name and bucket.
-/

namespace DockDoe

open Nullable

/-- What the insert statement makes of its 25 parameters: a primary key and a row. -/
def bindTrendParams (params : List Value) : Except SqlError (StoredKey × TrendRow) := do
  let host ← getColumn String params 0
  let name ← getColumn String params 1
  let bucketStartMs ← getColumn ℤ params 2
  let bucketSecs ← getColumn ℤ params 3
  let id ← getColumn String params 4
  let stack ← getColumn (Option String) params 5
  let samples ← getColumn ℤ params 6
  let columns ← Metric.collect (fun metric => do
    let min ← getColumn (Option ℚ) params (7 + 3 * metric.slot)
    let med ← getColumn (Option ℚ) params (8 + 3 * metric.slot)
    let max ← getColumn (Option ℚ) params (9 + 3 * metric.slot)
    return ({ min, med, max } : EnvelopeColumns))
  return ({ host, name, bucketStartMs }, { bucketSecs, id, stack, samples, columns })

/-- The assignments of `ON CONFLICT … DO UPDATE` to one metric's columns. -/
def EnvelopeColumns.upsert (samples excludedSamples : ℤ) (stored excluded : EnvelopeColumns)
    : EnvelopeColumns :=
  {
    min := scalarMin (coalesce stored.min excluded.min) (coalesce excluded.min stored.min)
    med :=
      match stored.med, excluded.med with
      | none, med => med
      | some med, none => some med
      | some med, some excludedMed =>
          quotient (some (med * samples + excludedMed * excludedSamples))
            (some ((samples : ℚ) + excludedSamples))
    max := scalarMax (coalesce stored.max excluded.max) (coalesce excluded.max stored.max)
  }

/-- The row that `INSERT_TREND_SQL` leaves under the key of the row it is given. -/
def TrendRow.upsert (stored : Option TrendRow) (excluded : TrendRow) : TrendRow :=
  match stored with
  | none => excluded
  | some stored =>
      {
        bucketSecs := excluded.bucketSecs
        id := excluded.id
        stack := coalesce excluded.stack stored.stack
        samples := stored.samples + excluded.samples
        columns := fun metric =>
          EnvelopeColumns.upsert stored.samples excluded.samples (stored.columns metric)
            (excluded.columns metric)
      }

/-- One execution of `INSERT_TREND_SQL`. -/
def TrendTable.insertTrend (table : TrendTable) (params : List Value)
    : Except SqlError TrendTable := do
  let (key, row) ← bindTrendParams params
  return table.alter key (fun stored => some (TrendRow.upsert stored row))

/-- `Store::insert_container_trends`: the pivoted rows of a batch in key order, in one
transaction.
-/
def Store.insertContainerTrends (store : Store) (trends : List ContainerTrend)
    : Except SqlError Store := do
  if trends.isEmpty then
    return store
  let table ← (pivotTrends trends).toList.foldlM
    (fun (table : TrendTable) entry => table.insertTrend (entry.2.intoValues entry.1))
    store.containerTrend
  return { store with containerTrend := table }

/-- `Store::prune_trends`: drop the rows whose bucket starts before `beforeMs`. -/
def Store.pruneTrends (store : Store) (beforeMs : ℕ) : Store :=
  {
    store with
    containerTrend :=
      store.containerTrend.filter (fun key _ => ¬ key.bucketStartMs < toDb beforeMs)
  }

/-- A sequence of batches. -/
def Store.insertBatches (store : Store) (batches : List (List ContainerTrend))
    : Except SqlError Store :=
  batches.foldlM Store.insertContainerTrends store

/-- The columns an envelope is stored as. -/
def EnvelopeColumns.ofEnvelope (envelope : Option Envelope) : EnvelopeColumns :=
  {
    min := envelope.map Envelope.min
    med := envelope.map Envelope.median
    max := envelope.map Envelope.max
  }

/-- The row a pivoted one is stored as. -/
def TrendRow.ofWide (row : WideTrend) : TrendRow :=
  {
    bucketSecs := toDb row.bucketSecs
    id := row.id
    stack := row.stack
    samples := row.samples
    columns := fun metric => .ofEnvelope (row.metrics metric)
  }

/-- The 25 bind values land in the columns of the same meaning. -/
theorem bindTrendParams_intoValues (row : WideTrend) (key : PivotKey)
    : bindTrendParams (row.intoValues key) = .ok (key.toStored, .ofWide row) := by
  have columns
      : Metric.collect (fun metric => do
          let min ← getColumn (Option ℚ) (row.intoValues key) (7 + 3 * metric.slot)
          let med ← getColumn (Option ℚ) (row.intoValues key) (8 + 3 * metric.slot)
          let max ← getColumn (Option ℚ) (row.intoValues key) (9 + 3 * metric.slot)
          return ({ min, med, max } : EnvelopeColumns))
        = (.ok (fun metric => .ofEnvelope (row.metrics metric)) : Except SqlError _) := by
    refine Metric.collect_ok (fun metric => ?_)
    cases metric <;>
      simp [getColumn, WideTrend.intoValues, Metric.all, Metric.slot, bind, Except.bind, pure,
        Except.pure, EnvelopeColumns.ofEnvelope]
  unfold bindTrendParams
  rw [columns]
  simp [getColumn, WideTrend.intoValues, bind, Except.bind, pure, Except.pure,
    TrendRow.ofWide, TrendKey.toStored]

end DockDoe
