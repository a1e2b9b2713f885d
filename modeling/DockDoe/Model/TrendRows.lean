import DockDoe.Foundations.KeyedFolds
import DockDoe.Model.StoreTables

/-! Trend rollups in the long format of the bucketer, and the wide rows that a batch of
them is pivoted into before it is stored.
-/

namespace DockDoe

/-- `u32::MAX`. -/
def u32Max : ℕ := 2 ^ 32 - 1

/-- A min/max/median rollup over one time bucket for one container and one metric. -/
structure ContainerTrend where
  bucketStartMs : ℕ
  bucketSecs : ℕ
  host : String
  id : String
  name : String
  stack : Option String
  metric : String
  min : ℚ
  max : ℚ
  median : ℚ
  samples : ℕ
  deriving DecidableEq

/-- A metric's envelope inside a wide trend row. -/
structure Envelope where
  min : ℚ
  median : ℚ
  max : ℚ
  samples : ℕ
  deriving DecidableEq

/-- Fold another rollup of the same metric and bucket in: extremes are kept, the median is
weighted by sample count. The counts are 32-bit and wrap.
-/
def Envelope.merge (self other : Envelope) : Envelope :=
  let samples : ℕ := (self.samples + other.samples) % 2 ^ 32
  let weight (e : Envelope) : ℚ := e.median * e.samples
  {
    min := Min.min self.min other.min
    median := if samples = 0 then self.median else (weight self + weight other) / samples
    max := Max.max self.max other.max
    samples
  }

/-- One wide trend row minus its key: every metric's envelope for one container in one
bucket, `none` for metrics the bucket has no data for.
-/
structure WideTrend where
  bucketSecs : ℕ
  id : String
  stack : Option String
  samples : ℕ
  metrics : Metric → Option Envelope

/-- `WideTrend::default()`. -/
def WideTrend.default : WideTrend :=
  { bucketSecs := 0, id := "", stack := none, samples := 0, metrics := fun _ => none }

/-- The key a rollup is pivoted under. -/
def ContainerTrend.key (t : ContainerTrend) : PivotKey :=
  { host := t.host, name := t.name, bucketStartMs := t.bucketStartMs }

/-- The envelope a single rollup contributes. -/
def ContainerTrend.envelope (t : ContainerTrend) : Envelope :=
  { min := t.min, median := t.median, max := t.max, samples := t.samples }

/-- The loop body of `pivot_trends`: one rollup of a known metric, folded into its row. -/
def WideTrend.absorb (row : WideTrend) (t : ContainerTrend) (slot : Metric) : WideTrend :=
  let merged :=
    match row.metrics slot with
    | none => t.envelope
    | some existing => existing.merge t.envelope
  {
    bucketSecs := t.bucketSecs
    id := t.id
    stack := row.stack.or t.stack
    samples := max row.samples merged.samples
    metrics := Function.update row.metrics slot (some merged)
  }

/-- A rollup together with the metric its name denotes; an unknown name is dropped. -/
def ContainerTrend.known? (t : ContainerTrend) : Option (ContainerTrend × Metric) :=
  (Metric.ofStr? t.metric).map (fun slot => (t, slot))

/-- `pivot_trends`: the long rollups of a batch as wide rows in primary-key order. -/
def pivotTrends (trends : List ContainerTrend) : Std.ExtTreeMap PivotKey WideTrend :=
  KeyedFolds.foldAll
    (fun entry => entry.1.key)
    (fun old entry => (old.getD .default).absorb entry.1 entry.2)
    ∅
    (trends.filterMap ContainerTrend.known?)

/-- `WideTrend::into_values`: the bind values of the trend insert, key first, then the
metric envelopes in column order.
-/
def WideTrend.intoValues (row : WideTrend) (key : PivotKey) : List Value :=
  [
    .text key.host,
    .text key.name,
    .integer (toDb key.bucketStartMs),
    .integer (toDb row.bucketSecs),
    .text row.id,
    .ofText? row.stack,
    .integer row.samples
  ]
  ++ Metric.all.flatMap (fun metric =>
      let envelope := row.metrics metric
      [
        .ofReal? (envelope.map Envelope.min),
        .ofReal? (envelope.map Envelope.median),
        .ofReal? (envelope.map Envelope.max)
      ])

end DockDoe
