import DockDoe.Foundations.OrderStatistics
import DockDoe.Foundations.Transducers
import DockDoe.Model.TrendRows

/-! The bucketer of one host: it accumulates samples into a wall-clock aligned bucket and
rolls the bucket up as soon as a sample of a later one arrives.
-/

namespace DockDoe

/-- Min, max, median and count over a set of samples. -/
structure Stats where
  min : ℚ
  max : ℚ
  median : ℚ
  count : ℕ
  deriving DecidableEq

/-- Median of an already sorted, non-empty list. -/
def medianOfSorted (sorted : List ℚ) : ℚ :=
  let n := sorted.length
  if n % 2 = 1 then
    sorted.getD (n / 2) 0
  else
    (sorted.getD (n / 2 - 1) 0 + sorted.getD (n / 2) 0) / 2

/-- `Stats::from`. -/
def Stats.ofValues (values : List ℚ) : Option Stats :=
  if values.isEmpty then
    none
  else
    let sorted := values.insertionSort (fun left right => left ≤ right)
    some {
      min := sorted.getD 0 0
      max := sorted.getD (sorted.length - 1) 0
      median := medianOfSorted sorted
      count := Min.min sorted.length u32Max
    }

/-- The values of one container and metric in the open bucket, with the container's name
and stack as first seen in it.
-/
structure ContainerAcc where
  name : String
  stack : Option String
  values : List ℚ
  deriving DecidableEq

/-- The accumulators of a bucketer are kept under `(id, metric)`. -/
structure AccKey where
  id : String
  metric : Metric
  deriving DecidableEq

instance : LinearOrder AccKey :=
  LinearOrder.lift' (fun key => (toLex (key.id, key.metric) : String ×ₗ Metric)) (by
    intro h given same
    rcases h with ⟨id, metric⟩
    rcases given with ⟨id', metric'⟩
    simpa using same)

/-- One proof that the key order is transitive, for all maps of accumulators. -/
instance : Std.TransCmp (compare : AccKey → AccKey → Ordering) :=
  inferInstance

structure Bucketer where
  bucketMs : ℕ
  host : String
  /-- Start of the bucket currently filling. -/
  currentStart : Option ℕ
  containers : Std.ExtTreeMap AccKey ContainerAcc

/-- `Bucketer::new`; the multiplication wraps at 64 bits. -/
def Bucketer.new (bucketSecs : ℕ) (host : String) : Bucketer :=
  {
    bucketMs := max bucketSecs 1 * 1000 % 2 ^ 64
    host
    currentStart := none
    containers := ∅
  }

/-- A present value of one metric of one container. -/
structure Reading where
  container : ContainerMetrics
  metric : Metric
  value : ℚ

def Reading.key (reading : Reading) : AccKey :=
  { id := reading.container.id, metric := reading.metric }

/-- The values a container reports, in the order `push` accumulates them. -/
def ContainerMetrics.readings (c : ContainerMetrics) : List Reading :=
  Metric.all.filterMap (fun metric =>
    (c.metric? metric).map (fun value => { container := c, metric, value }))

/-- The values of a snapshot. -/
def Snapshot.readings (snap : Snapshot) : List Reading :=
  snap.containers.flatMap ContainerMetrics.readings

/-- `self.acc(c, metric).push(value)`: the entry of a reading's key afterwards. -/
def ContainerAcc.record (old : Option ContainerAcc) (reading : Reading) : ContainerAcc :=
  let acc :=
    old.getD { name := reading.container.name, stack := reading.container.stack, values := [] }
  { acc with values := acc.values ++ [reading.value] }

/-- Record readings in their accumulators. -/
def accumulate (containers : Std.ExtTreeMap AccKey ContainerAcc) (readings : List Reading)
    : Std.ExtTreeMap AccKey ContainerAcc :=
  KeyedFolds.foldAll Reading.key ContainerAcc.record containers readings

/-- The trend row of one accumulator. -/
def Bucketer.trendRow (bucketMs : ℕ) (host : String) (start : ℕ) (key : AccKey)
    (acc : ContainerAcc)
    : Option ContainerTrend :=
  (Stats.ofValues acc.values).map (fun stats => {
    bucketStartMs := start
    bucketSecs := bucketMs / 1000
    host
    id := key.id
    name := acc.name
    stack := acc.stack
    metric := key.metric.asStr
    min := stats.min
    max := stats.max
    median := stats.median
    samples := stats.count
  })

/-- `Bucketer::close`: the rows of all accumulators, which are drained. -/
def Bucketer.close (b : Bucketer) (start : ℕ) : Bucketer × List ContainerTrend :=
  ({ b with containers := ∅ },
    b.containers.toList.filterMap (fun entry => trendRow b.bucketMs b.host start entry.1 entry.2))

/-- Start of the bucket that a timestamp falls into. -/
def bucketStart (bucketMs tsMs : ℕ) : ℕ :=
  tsMs - tsMs % bucketMs

/-- The body of `Bucketer::push` for a bucket width other than zero. -/
def Bucketer.feed (b : Bucketer) (snap : Snapshot) : Bucketer × List ContainerTrend :=
  let start := bucketStart b.bucketMs snap.tsMs
  let (b, flushed) :=
    match b.currentStart with
    | some cur =>
        if cur < start then
          let (b, out) := b.close cur
          ({ b with currentStart := some start }, out)
        else
          (b, [])
    | none => ({ b with currentStart := some start }, [])
  ({ b with containers := accumulate b.containers snap.readings }, flushed)

/-- `Bucketer::push`: a bucket width of zero panics in the remainder. -/
def Bucketer.push (b : Bucketer) (snap : Snapshot) : Option (Bucketer × List ContainerTrend) :=
  if b.bucketMs = 0 then none else some (b.feed snap)

/-- A sequence of pushes with the rows each of them returns. -/
def Bucketer.pushAll (b : Bucketer) : List Snapshot → Option (Bucketer × List (List ContainerTrend))
  | [] => some (b, [])
  | snap :: rest => do
      let (next, flushed) ← b.push snap
      let (final, later) ← next.pushAll rest
      return (final, flushed :: later)

end DockDoe
