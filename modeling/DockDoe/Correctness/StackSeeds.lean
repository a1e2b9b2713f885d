import DockDoe.Correctness.BucketRollups
import DockDoe.Correctness.PivotedEnvelopes
import DockDoe.Model.StackCharts

/-! The stored seed of a stack's chart continues its live aggregate: a bucket of equal
snapshots is summed up to the point that was streamed for each of them.
-/

namespace DockDoe

open Nullable OrderStatistics

-----------------------------------------------------------------------------------------
-- The live aggregate as sums
-----------------------------------------------------------------------------------------

/-- The sum of one metric over some containers. -/
def liveSum (metric : Metric) (members : List ContainerMetrics) : Option ℚ :=
  sumAgg (members.map (fun c => c.metric? metric))

theorem addOpt_sumAgg (column : List (Option ℚ)) (value : Option ℚ)
    : addOpt (sumAgg column) value = sumAgg (column ++ [value]) := by
  cases value with
  | none => rw [sumAgg_append_none]; rfl
  | some v => rw [sumAgg_append_some]; rfl

/-- The rates add up to the sums of the four columns, by induction on the members from the back. -/
theorem StackIo.foldl_add (members : List ContainerMetrics)
    : members.foldl StackIo.add .default
      = {
          netRx := liveSum .netRx members
          netTx := liveSum .netTx members
          diskRead := liveSum .diskRead members
          diskWrite := liveSum .diskWrite members
        } := by
  induction members using List.reverseRecOn with
  | nil => rfl
  | append_singleton members c ih =>
      rw [List.foldl_append, ih]
      simp only [List.foldl_cons, List.foldl_nil, StackIo.add, liveSum, addOpt_sumAgg,
        List.map_append, List.map_cons, List.map_nil, ContainerMetrics.metric?]

/-- A wrapping sum is the remainder of the sum. -/
theorem foldl_wrapping {α : Type} (weight : α → ℕ) (modulus : ℕ) (items : List α)
    : items.foldl (fun total item => (total + weight item) % modulus) 0
      = (items.map weight).sum % modulus := by
  induction items using List.reverseRecOn with
  | nil => simp
  | append_singleton items item ih => simp [List.foldl_append, ih]

/-- Whole bytes that fit into 64 bits are read back as they are. -/
theorem wholeBytes_natCast {bytes : ℕ} (fits : bytes < 2 ^ 64)
    : wholeBytes (bytes : ℚ) = bytes := by
  rw [wholeBytes, round_natCast, u64Max]
  omega

/-- The live point holds the sums over the members, whose memory must fit into 64 bits: the
program's folds are the aggregates' sums with nothing counted as zero.
-/
theorem stackPoint_eq {stack : String} {dash : Snapshot}
    (fits : ((dash.members stack).map (fun c => c.memUsed.getD 0)).sum < 2 ^ 64)
    : stackPoint stack dash
      = pointOfSums dash.tsMs (fun metric => liveSum metric (dash.members stack)) := by
  have cpu
      : (dash.members stack).foldl (fun total c => total + c.cpuPercent.getD 0) 0
        = (liveSum .cpu (dash.members stack)).getD 0 := by
    rw [liveSum, getD_sumAgg, List.map_map, List.sum_eq_foldl, List.foldl_map]
    rfl
  have mem
      : ((dash.members stack).foldl (fun total c => (total + c.memUsed.getD 0) % 2 ^ 64) 0)
        = wholeBytes ((liveSum .mem (dash.members stack)).getD 0) := by
    have bytes
        : (liveSum .mem (dash.members stack)).getD 0
          = (((dash.members stack).map (fun c => c.memUsed.getD 0)).sum : ℕ) := by
      rw [liveSum, getD_sumAgg, List.map_map, Nat.cast_list_sum, List.map_map]
      congr 1
      refine List.map_congr_left (fun c _ => ?_)
      cases absent : c.memUsed <;> simp [ContainerMetrics.metric?, absent]
    rw [foldl_wrapping, bytes, wholeBytes_natCast fits, Nat.mod_eq_of_lt fits]
  simp only [stackPoint, cpu, mem, StackIo.foldl_add, pointOfSums]

-----------------------------------------------------------------------------------------
-- A bucket of equal snapshots
-----------------------------------------------------------------------------------------

/-- The row of a bucket in which one container reported one value of a metric throughout. -/
structure ContainerTrend.Repeats (row : ContainerTrend) (host : String) (start : ℕ)
    (c : ContainerMetrics) (metric : Metric) (value : ℚ)
    : Prop where
  bucketStartMs : row.bucketStartMs = start
  host : row.host = host
  id : row.id = c.id
  name : row.name = c.name
  stack : row.stack = c.stack
  metric : row.metric = metric.asStr
  median : row.median = value

/-- A reading is a present value of one of the snapshot's containers. Every metric is among those
that are read.
-/
theorem Snapshot.mem_readings_iff {snap : Snapshot} {reading : Reading}
    : reading ∈ snap.readings
      ↔ reading.container ∈ snap.containers
        ∧ reading.container.metric? reading.metric = some reading.value := by
  rcases reading with ⟨container, metric, value⟩
  simp only [readings, ContainerMetrics.readings, List.mem_flatMap, List.mem_filterMap,
    Option.map_eq_some_iff, Reading.mk.injEq]
  constructor
  · intro h
    rcases h with ⟨c, member, other, _, v, found, rfl, rfl, rfl⟩
    exact ⟨member, found⟩
  · intro h
    obtain ⟨member, found⟩ := h
    exact ⟨container, member, metric, Metric.mem_all metric, value, found, rfl, rfl, rfl⟩

namespace Bucketer

/-- The name and stack of a row are those of one of its accumulator's readings, namely the first. -/
theorem rowOf_first {bucketMs : ℕ} {host : String} {start : ℕ} {key : AccKey}
    {readings : List Reading} {row : ContainerTrend}
    (emitted : rowOf bucketMs host start key readings = some row)
    : ∃ reading ∈ readingsOf key readings,
        row.name = reading.container.name ∧ row.stack = reading.container.stack := by
  unfold rowOf at emitted
  cases members : readingsOf key readings with
  | nil =>
      rw [members] at emitted
      cases emitted
  | cons head rest =>
      rw [members, ContainerAcc.ofReadings, Option.bind_some] at emitted
      obtain ⟨stats, _, rfl⟩ := Option.map_eq_some_iff.mp emitted
      exact ⟨head, List.mem_cons_self, rfl, rfl⟩

/-- A bucket of equal snapshots closes with one row for every value a container reports: the
readings of an accumulator are all that value, so it is its own minimum, median and maximum.
-/
theorem mem_closeRows_of_equal {width : ℕ} {host : String} {start : ℕ} {filled : List Snapshot}
    {containers : List ContainerMetrics} {row : ContainerTrend}
    (ids : (containers.map ContainerMetrics.id).Nodup)
    (equal : ∀ snap ∈ filled, snap.containers = containers)
    (member : row ∈ closeRows width host start (filled.flatMap Snapshot.readings))
    : ∃ c ∈ containers, ∃ metric value,
        c.metric? metric = some value ∧ row.Repeats host start c metric value := by
  have own {reading : Reading} (pushed : reading ∈ filled.flatMap Snapshot.readings)
      : reading.container ∈ containers
        ∧ reading.container.metric? reading.metric = some reading.value := by
    obtain ⟨snap, inFilled, inSnap⟩ := List.mem_flatMap.mp pushed
    rw [← equal snap inFilled]
    exact Snapshot.mem_readings_iff.mp inSnap
  obtain ⟨key, emitted⟩ := mem_closeRows_iff.mp member
  obtain ⟨reading, inKey, name, stack⟩ := rowOf_first emitted
  obtain ⟨pushed, rfl⟩ := KeyedFolds.mem_under_iff.mp inKey
  obtain ⟨inContainers, found⟩ := own pushed
  have row := rowFor_of_rowOf emitted
  refine ⟨_, inContainers, _, _, found, row.bucketStartMs, row.host, row.id, name, stack,
    row.metric, row.describes.median.eq_of_constant ?_⟩
  intro value listed
  obtain ⟨other, inOther, rfl⟩ := List.mem_map.mp listed
  obtain ⟨otherPushed, sameKey⟩ := KeyedFolds.mem_under_iff.mp inOther
  obtain ⟨otherIn, otherFound⟩ := own otherPushed
  have sameId : other.container.id = reading.container.id := congrArg AccKey.id sameKey
  have sameMetric : other.metric = reading.metric := congrArg AccKey.metric sameKey
  have same : other.container = reading.container :=
    List.inj_on_of_nodup_map ids otherIn inContainers sameId
  rw [same, sameMetric, found] at otherFound
  exact (Option.some.inj otherFound).symm

/-- Every value that a container reports in a bucket of equal snapshots has its row, since it is
read from the first of them.
-/
theorem exists_closeRow {width : ℕ} {host : String} {start : ℕ} {filled : List Snapshot}
    {containers : List ContainerMetrics} (ids : (containers.map ContainerMetrics.id).Nodup)
    (nonempty : filled ≠ []) (equal : ∀ snap ∈ filled, snap.containers = containers)
    {c : ContainerMetrics} (member : c ∈ containers) {metric : Metric} {value : ℚ}
    (reported : c.metric? metric = some value)
    : ∃ row ∈ closeRows width host start (filled.flatMap Snapshot.readings),
        row.Repeats host start c metric value := by
  obtain ⟨snap, inFilled⟩ := List.exists_mem_of_ne_nil filled nonempty
  have pushed : (⟨c, metric, value⟩ : Reading) ∈ filled.flatMap Snapshot.readings := by
    refine List.mem_flatMap.mpr ⟨snap, inFilled, Snapshot.mem_readings_iff.mpr ⟨?_, reported⟩⟩
    rw [equal snap inFilled]
    exact member
  have present
      : rowOf width host start ⟨c.id, metric⟩ (filled.flatMap Snapshot.readings) ≠ none := by
    rw [Ne, rowOf_eq_none_iff]
    exact List.ne_nil_of_mem (KeyedFolds.mem_under_iff.mpr ⟨pushed, rfl⟩)
  obtain ⟨row, emitted⟩ := Option.ne_none_iff_exists'.mp present
  have inRows := mem_closeRows_iff.mpr ⟨_, emitted⟩
  have about := (rowFor_of_rowOf emitted).about
  refine ⟨row, inRows, ?_⟩
  obtain ⟨other, otherMember, metric', value', found, repeats⟩ :=
    mem_closeRows_of_equal ids equal inRows
  have sameContainer : other = c :=
    List.inj_on_of_nodup_map ids otherMember member (repeats.id.symm.trans about.1)
  have sameKey : (⟨c.id, metric'⟩ : AccKey) = ⟨c.id, metric⟩ :=
    ContainerTrend.About.unique ⟨about.1, repeats.metric⟩ about
  obtain rfl : metric' = metric := congrArg AccKey.metric sameKey
  subst sameContainer
  rwa [Option.some.inj (reported.symm.trans found)]

/-- A run of pushes fills a bucket: those before do not reach it, the first of it opens it,
and the next push lies beyond. Pushes that go back in time stay in the open bucket.
-/
structure FilledBucket (width start : ℕ) (before filled : List Snapshot) (closing : Snapshot)
    : Prop where
  before : ∀ snap ∈ before, bucketStart width snap.tsMs < start
  opened : ∃ first ∈ filled.head?, bucketStart width first.tsMs = start
  filled : ∀ snap ∈ filled, bucketStart width snap.tsMs ≤ start
  closed : start < bucketStart width closing.tsMs

section Run

variable {width : ℕ} {host : String} {start : ℕ}

/-- Pushes that do not reach a bucket leave an earlier one open, or none. By induction on the
pushes from the back.
-/
theorem holds_before (host : String) {before : List Snapshot}
    (early : ∀ snap ∈ before, bucketStart width snap.tsMs < start)
    : (before = [] ∨ ∃ cur < start, ∃ readings,
        (Transducer.after feed (fresh width host) before).Holds width host (some cur)
          readings) := by
  induction before using List.reverseRecOn with
  | nil => exact .inl rfl
  | append_singleton before snap ih =>
      right
      have last := early snap (List.mem_append_right _ (List.mem_singleton_self snap))
      have earlier := ih (fun other member => early other (List.mem_append_left _ member))
      rw [Transducer.after_append]
      rcases earlier with rfl | ⟨cur, less, readings, holds⟩
      · exact ⟨_, last, _, ((holds_fresh width host).feed_stays (by simp)).1⟩
      · rcases Nat.lt_or_ge cur (bucketStart width snap.tsMs) with beyond | stays
        · exact ⟨_, last, _, (holds.feed_closes beyond).1⟩
        · exact ⟨_, less, _, (holds.feed_stays (by simpa using stays)).1⟩

/-- Further pushes into the open bucket join its readings, by induction on the pushes. -/
theorem Holds.after_stays {b : Bucketer} {readings : List Reading}
    (holds : b.Holds width host (some start) readings) {pushes : List Snapshot}
    (within : ∀ snap ∈ pushes, bucketStart width snap.tsMs ≤ start)
    : (Transducer.after feed b pushes).Holds width host (some start)
        (readings ++ pushes.flatMap Snapshot.readings) := by
  induction pushes generalizing b readings with
  | nil => simpa [Transducer.after] using holds
  | cons snap rest ih =>
      have first := (holds.feed_stays (by simpa using within snap List.mem_cons_self)).1
      have whole := ih first (fun other member => within other (List.mem_cons_of_mem _ member))
      rwa [List.append_assoc, ← List.flatMap_cons] at whole

/-- The push that closes a bucket emits the rows of all snapshots that filled it: the first opens
it, the others stay, the closing one starts another.
-/
theorem FilledBucket.flushed {before filled later : List Snapshot} {closing : Snapshot}
    (bucket : FilledBucket width start before filled closing)
    : (Transducer.outputs feed (fresh width host) (before ++ filled ++ closing :: later))[
          (before ++ filled).length]?
        = some (closeRows width host start (filled.flatMap Snapshot.readings)) := by
  obtain ⟨first, head, own⟩ := bucket.opened
  obtain ⟨rest, rfl⟩ : ∃ rest, filled = first :: rest := List.head?_eq_some_iff.mp head
  have opened
      : ((Transducer.after feed (fresh width host) before).feed first).1.Holds width host
          (some start) first.readings := by
    subst own
    rcases holds_before host bucket.before with rfl | ⟨cur, less, readings, holds⟩
    · exact ((holds_fresh width host).feed_stays (by simp)).1
    · exact (holds.feed_closes less).1
  have full := opened.after_stays
    (fun snap member => bucket.filled snap (List.mem_cons_of_mem _ member))
  rw [← List.flatMap_cons] at full
  rw [Transducer.getElem?_outputs, List.getElem?_append_right (Nat.le_refl _), Nat.sub_self,
    List.take_left, Transducer.after_append]
  exact congrArg some (full.feed_closes bucket.closed).2

end Run

end Bucketer

-----------------------------------------------------------------------------------------
-- The stored rows of the bucket
-----------------------------------------------------------------------------------------

/-- The envelope of at most one rollup has that rollup's median. -/
theorem Envelope.median_ofRollups_single {rollups : List ContainerTrend} {median : Option ℚ}
    (single : rollups.map ContainerTrend.median = median.toList)
    : (ofRollups rollups).map Envelope.median = median := by
  cases median with
  | none =>
      rw [List.map_eq_nil_iff.mp single]
      rfl
  | some value =>
      obtain ⟨t, rfl, own⟩ := List.map_eq_singleton_iff.mp single
      exact congrArg some own

/-- What all items yield is what the first one does. -/
theorem findSome?_constant {α β : Type} {f : α → Option β} {items : List α} {result : Option β}
    (nonempty : items ≠ []) (constant : ∀ item ∈ items, f item = result)
    : items.findSome? f = result := by
  cases result with
  | none => exact List.findSome?_eq_none_iff.mpr constant
  | some value =>
      obtain ⟨first, rest, rfl⟩ := List.exists_cons_of_ne_nil nonempty
      rw [List.findSome?_cons, constant first List.mem_cons_self]

/-- The container reports some metric. -/
def ContainerMetrics.Reports (c : ContainerMetrics) : Prop :=
  ∃ metric value, c.metric? metric = some value

/-- A batch that rolls up one bucket in which each container repeated its values: one rollup
for each of them.
-/
structure SteadyBatch (trends : List ContainerTrend) (host : String) (start : ℕ)
    (containers : List ContainerMetrics)
    : Prop where
  names : (containers.map ContainerMetrics.name).Nodup
  every
    : ∀ t ∈ trends, ∃ c ∈ containers, ∃ metric value,
        c.metric? metric = some value ∧ t.Repeats host start c metric value
  complete
    : ∀ c ∈ containers, ∀ metric value,
        c.metric? metric = some value → ∃ t ∈ trends, t.Repeats host start c metric value
  once
    : trends.Pairwise (fun left right => ¬ (left.id = right.id ∧ left.metric = right.metric))

namespace SteadyBatch

variable {trends : List ContainerTrend} {host : String} {start : ℕ}
  {containers : List ContainerMetrics}

/-- The key under which a container's row of the bucket is pivoted. -/
def keyOf (host : String) (start : ℕ) (name : String) : PivotKey :=
  { host, name, bucketStartMs := start }

/-- The key of a rollup names its container. -/
theorem key_eq {t : ContainerTrend} {c : ContainerMetrics} {metric : Metric} {value : ℚ}
    (repeats : t.Repeats host start c metric value)
    : t.key = keyOf host start c.name := by
  rw [ContainerTrend.key, repeats.host, repeats.name, repeats.bucketStartMs, keyOf]

/-- The rollups under a container's name are the container's own. -/
theorem own (batch : SteadyBatch trends host start containers) {c : ContainerMetrics}
    (member : c ∈ containers) {t : ContainerTrend} (inTrends : t ∈ trends)
    (sameKey : t.key = keyOf host start c.name)
    : ∃ metric value, c.metric? metric = some value ∧ t.Repeats host start c metric value := by
  obtain ⟨other, otherMember, metric, value, found, repeats⟩ := batch.every t inTrends
  have sameName : other.name = c.name :=
    congrArg TrendKey.name ((key_eq repeats).symm.trans sameKey)
  obtain rfl := List.inj_on_of_nodup_map batch.names otherMember member sameName
  exact ⟨metric, value, found, repeats⟩

/-- A container has one rollup for each metric that it reports, and no other. The filter is
without duplicates, and all it holds is that rollup.
-/
theorem filter_eq (batch : SteadyBatch trends host start containers) {c : ContainerMetrics}
    (member : c ∈ containers) (metric : Metric)
    : (trends.filter (fun t => t.key = keyOf host start c.name ∧ t.metric = metric.asStr)).map
          ContainerTrend.median
        = (c.metric? metric).toList := by
  have ofFilter {t : ContainerTrend}
      (kept : t ∈ trends.filter
        (fun t => t.key = keyOf host start c.name ∧ t.metric = metric.asStr))
      : ∃ value, c.metric? metric = some value ∧ t.Repeats host start c metric value := by
    obtain ⟨inTrends, named⟩ := List.mem_filter.mp kept
    obtain ⟨sameKey, sameMetric⟩ := of_decide_eq_true named
    obtain ⟨other, value, found, repeats⟩ := batch.own member inTrends sameKey
    have same : some other = some metric := by
      rw [← Metric.ofStr?_asStr, ← repeats.metric, sameMetric, Metric.ofStr?_asStr]
    obtain rfl := Option.some.inj same
    exact ⟨value, found, repeats⟩
  cases reported : c.metric? metric with
  | none =>
      have empty : trends.filter
          (fun t => t.key = keyOf host start c.name ∧ t.metric = metric.asStr) = [] := by
        refine List.eq_nil_iff_forall_not_mem.mpr (fun t kept => ?_)
        obtain ⟨value, found, _⟩ := ofFilter kept
        rw [reported] at found
        cases found
      rw [empty]
      rfl
  | some value =>
      obtain ⟨t, inTrends, repeats⟩ := batch.complete c member metric value reported
      have kept : t ∈ trends.filter
          (fun t => t.key = keyOf host start c.name ∧ t.metric = metric.asStr) :=
        List.mem_filter.mpr ⟨inTrends, by simp [key_eq repeats, repeats.metric]⟩
      have differ := batch.once.sublist (List.filter_sublist
        (p := fun t => t.key = keyOf host start c.name ∧ t.metric = metric.asStr))
      -- Two rollups of the container and metric would be about the same accumulator.
      have single : trends.filter
          (fun t => t.key = keyOf host start c.name ∧ t.metric = metric.asStr) = [t] := by
        generalize trends.filter _ = kept' at *
        match kept' with
        | [] => cases kept
        | [only] => rw [List.mem_singleton.mp kept]
        | first :: second :: rest =>
            obtain ⟨_, _, firstOwn⟩ := ofFilter (List.mem_cons_self)
            obtain ⟨_, _, secondOwn⟩ := ofFilter (List.mem_cons_of_mem _ List.mem_cons_self)
            refine absurd ⟨?_, ?_⟩ (List.rel_of_pairwise_cons differ List.mem_cons_self)
            · rw [firstOwn.id, secondOwn.id]
            · rw [firstOwn.metric, secondOwn.metric]
      rw [single, List.map_singleton, repeats.median]
      rfl

/-- The bucket's keys have different stored forms. -/
theorem alone (batch : SteadyBatch trends host start containers) {name : String}
    {t : ContainerTrend} (inTrends : t ∈ trends)
    (stored : t.key.toStored = (keyOf host start name).toStored)
    : t.key = keyOf host start name := by
  obtain ⟨c, _, _, _, _, repeats⟩ := batch.every t inTrends
  rw [key_eq repeats] at stored ⊢
  have sameName : c.name = name := congrArg TrendKey.name stored
  rw [sameName]

/-- The row that a container's rollups are pivoted into has its stack and its values. Each metric
has at most one rollup, whose median is the row's.
-/
theorem row_spec (batch : SteadyBatch trends host start containers) {c : ContainerMetrics}
    (member : c ∈ containers) (reports : c.Reports)
    : ∃ write : Write,
        writesTo (keyOf host start c.name).toStored (writesOf trends) = [write]
        ∧ write.row.stack = c.stack
        ∧ ∀ metric, (write.row.columns metric).med = c.metric? metric := by
  obtain ⟨metric, value, reported⟩ := reports
  obtain ⟨t, inTrends, repeats⟩ := batch.complete c member metric value reported
  have ownKnown
      : (t, metric) ∈ KeyedFolds.under (fun entry : KnownTrend => entry.1.key)
          (keyOf host start c.name) (trends.filterMap ContainerTrend.known?) := by
    refine KeyedFolds.mem_under_iff.mpr ⟨List.mem_filterMap.mpr ⟨t, inTrends, ?_⟩, key_eq repeats⟩
    rw [ContainerTrend.known?, repeats.metric, Metric.ofStr?_asStr, Option.map_some]
  have nonempty := List.ne_nil_of_mem ownKnown
  refine ⟨_, (writesTo_toStored (fun t inTrends => batch.alone inTrends)).trans
    (if_neg nonempty), ?_, ?_⟩
  · refine (WideTrend.stack_ofRollups _).trans ?_
    refine findSome?_constant nonempty (fun entry inRollups => ?_)
    obtain ⟨known, sameKey⟩ := KeyedFolds.mem_under_iff.mp inRollups
    obtain ⟨u, uMember, found⟩ := List.mem_filterMap.mp known
    obtain ⟨_, _, rfl⟩ := Option.map_eq_some_iff.mp found
    obtain ⟨_, _, _, uRepeats⟩ := batch.own member uMember sameKey
    exact uRepeats.stack
  · intro other
    change ((WideTrend.ofRollups _).metrics other).map Envelope.median = _
    rw [WideTrend.metrics_ofRollups, ofMetric_under]
    exact Envelope.median_ofRollups_single (batch.filter_eq member other)

/-- The bucket's stored row of a name is that of the container with this name: the key was vacant
and is written to once.
-/
theorem stored_iff (batch : SteadyBatch trends host start containers) {table : TrendTable}
    (vacant : ∀ name, table[(keyOf host start name).toStored]? = none) (name : String)
    (stack : Option String) (values : Metric → Option ℚ)
    : (∃ row, (table.written (writesOf trends))[(keyOf host start name).toStored]? = some row
          ∧ row.stack = stack
          ∧ ∀ metric, (row.columns metric).med = values metric)
        ↔ ∃ c ∈ containers, c.Reports ∧ c.name = name ∧ c.stack = stack ∧ c.metric? = values := by
  rw [TrendTable.getElem?_written, vacant]
  constructor
  · intro h
    obtain ⟨row, found, sameStack, sameValues⟩ := h
    have written
        : writesTo (keyOf host start name).toStored (writesOf trends) ≠ [] := by
      intro none
      rw [none] at found
      cases found
    rw [writesTo_toStored (fun t inTrends => batch.alone inTrends)] at written
    obtain ⟨entry, inUnder⟩ := List.exists_mem_of_ne_nil _ (fun empty => written (if_pos empty))
    obtain ⟨known, sameKey⟩ := KeyedFolds.mem_under_iff.mp inUnder
    obtain ⟨t, inTrends, same⟩ := List.mem_filterMap.mp known
    obtain ⟨_, _, rfl⟩ := Option.map_eq_some_iff.mp same
    obtain ⟨c, member, metric, value, reported, repeats⟩ := batch.every t inTrends
    obtain rfl : c.name = name := congrArg TrendKey.name ((key_eq repeats).symm.trans sameKey)
    obtain ⟨write, only, stack, meds⟩ := batch.row_spec member ⟨metric, value, reported⟩
    rw [only] at found
    obtain rfl : write.row = row := Option.some.inj found
    exact ⟨c, member, ⟨metric, value, reported⟩, rfl, stack.symm.trans sameStack,
      funext (fun metric => (meds metric).symm.trans (sameValues metric))⟩
  · intro h
    obtain ⟨c, member, reports, sameName, sameStack, sameValues⟩ := h
    subst sameName
    obtain ⟨write, only, stack, meds⟩ := batch.row_spec member reports
    rw [only]
    exact ⟨write.row, rfl, stack.trans sameStack,
      fun metric => (meds metric).trans (congrFun sameValues metric)⟩

/-- What a stored row contributes to the seed: its name and its medians. -/
def rowPoint (entry : StoredKey × TrendRow) : String × (Metric → Option ℚ) :=
  (entry.1.name, fun metric => (entry.2.columns metric).med)

/-- What a container contributes to the live sum: its name and its values. -/
def memberPoint (c : ContainerMetrics) : String × (Metric → Option ℚ) :=
  (c.name, c.metric?)

/-- The rows of a stack's bucket are those of its reporting members: name by name they carry the
same values, and neither side has a name twice.
-/
theorem rowPoints_perm (batch : SteadyBatch trends host start containers) {table : TrendTable}
    (vacant : ∀ name, table[(keyOf host start name).toStored]? = none) (stack : String)
    {rows : List (StoredKey × TrendRow)} (distinct : rows.Pairwise (fun l r => l.1 < r.1))
    (selected
      : ∀ entry, entry ∈ rows
        ↔ (table.written (writesOf trends))[entry.1]? = some entry.2
          ∧ entry.1.host = host
          ∧ entry.1.bucketStartMs = toDb start
          ∧ entry.2.stack = some stack)
    [DecidablePred ContainerMetrics.Reports]
    : (rows.map rowPoint).Perm
        (((containers.filter (fun c => c.stack = some stack)).filter (fun c => c.Reports)).map
          memberPoint) := by
  have key {entry : StoredKey × TrendRow} (member : entry ∈ rows)
      : entry.1 = (keyOf host start entry.1.name).toStored := by
    obtain ⟨_, ownHost, ownStart, _⟩ := (selected entry).mp member
    rcases entry with ⟨⟨h, name, s⟩, row⟩
    obtain rfl : h = host := ownHost
    obtain rfl : s = toDb start := ownStart
    rfl
  have rowsNodup : (rows.map rowPoint).Nodup := by
    refine List.pairwise_map.mpr (distinct.imp_of_mem (fun {l r} inL inR less same => ?_))
    have sameName : l.1.name = r.1.name := congrArg Prod.fst same
    rw [key inL, key inR, sameName] at less
    exact lt_irrefl _ less
  have membersNodup
      : (((containers.filter (fun c => c.stack = some stack)).filter (fun c => c.Reports)).map
          memberPoint).Nodup := by
    refine List.Nodup.of_map Prod.fst ?_
    rw [List.map_map]
    exact batch.names.sublist ((List.filter_sublist.trans List.filter_sublist).map _)
  refine (List.perm_ext_iff_of_nodup rowsNodup membersNodup).mpr (fun point => ?_)
  rcases point with ⟨name, values⟩
  have own := batch.stored_iff vacant name (some stack) values
  constructor
  · intro inRows
    obtain ⟨entry, member, same⟩ := List.mem_map.mp inRows
    obtain ⟨rfl, rfl⟩ := Prod.mk.inj same
    obtain ⟨found, _, _, sameStack⟩ := (selected entry).mp member
    rw [key member] at found
    obtain ⟨c, inContainers, reports, sameName, ownStack, sameValues⟩ :=
      own.mp ⟨entry.2, found, sameStack, fun _ => rfl⟩
    refine List.mem_map.mpr ⟨c, ?_, Prod.ext sameName sameValues⟩
    simp [inContainers, ownStack, reports]
  · intro inMembers
    obtain ⟨c, kept, same⟩ := List.mem_map.mp inMembers
    obtain ⟨rfl, rfl⟩ := Prod.mk.inj same
    obtain ⟨inContainers, reports, ownStack⟩
        : c ∈ containers ∧ c.Reports ∧ c.stack = some stack := by
      simpa using kept
    obtain ⟨row, found, sameStack, sameValues⟩ :=
      own.mpr ⟨c, inContainers, reports, rfl, ownStack, rfl⟩
    refine List.mem_map.mpr ⟨((keyOf host start c.name).toStored, row), ?_, ?_⟩
    · exact (selected _).mpr ⟨found, rfl, rfl, sameStack⟩
    · exact Prod.ext rfl (funext sameValues)

/-- The rows of the bucket that are attributed to a stack, summed up, are the sums over the
stack's members. Witness: name by name they carry the same values, and members without a
row report none.
-/
theorem sumMedians_eq (batch : SteadyBatch trends host start containers) {table : TrendTable}
    (vacant : ∀ name, table[(keyOf host start name).toStored]? = none) (stack : String)
    {rows : List (StoredKey × TrendRow)} (distinct : rows.Pairwise (fun l r => l.1 < r.1))
    (selected
      : ∀ entry, entry ∈ rows
        ↔ (table.written (writesOf trends))[entry.1]? = some entry.2
          ∧ entry.1.host = host
          ∧ entry.1.bucketStartMs = toDb start
          ∧ entry.2.stack = some stack)
    (metric : Metric)
    : sumMedians metric (rows.map Prod.snd)
      = liveSum metric (containers.filter (fun c => c.stack = some stack)) := by
  classical
  let members := containers.filter (fun c => c.stack = some stack)
  have perm := batch.rowPoints_perm vacant stack distinct selected
  have silent : ∀ c ∈ members, decide c.Reports = false → c.metric? metric = none := by
    intro c _ not
    by_contra present
    obtain ⟨value, found⟩ := Option.ne_none_iff_exists'.mp present
    exact of_decide_eq_false not ⟨metric, value, found⟩
  calc sumMedians metric (rows.map Prod.snd)
    _ = sumAgg ((rows.map rowPoint).map (fun point => point.2 metric)) := by
        rw [sumMedians, List.map_map, List.map_map]
        rfl
    _ = sumAgg (((members.filter (fun c => c.Reports)).map memberPoint).map
          (fun point => point.2 metric)) :=
        sumAgg_eq_of_perm ((perm.map _).filterMap id)
    _ = sumAgg ((members.filter (fun c => c.Reports)).map (fun c => c.metric? metric)) := by
        rw [List.map_map]
        rfl
    _ = liveSum metric members := sumAgg_map_filter silent

end SteadyBatch

/-- The one point of the seed for a bucket, once the bucket's rollups are stored.
Witness: the seed's groups have different starts, and one of them is the bucket's.
-/
theorem SteadyBatch.seed_point {trends : List ContainerTrend} {host : String} {start : ℕ}
    {containers : List ContainerMetrics} (batch : SteadyBatch trends host start containers)
    {store : Store}
    (vacant
      : ∀ name, store.containerTrend[(⟨host, name, toDb start⟩ : StoredKey)]? = none)
    {stack : String} (reported : ∃ c ∈ containers, c.stack = some stack ∧ c.Reports)
    {sinceMs : ℕ} (recent : toDb sinceMs ≤ toDb start)
    : ∃ stored points,
        store.insertContainerTrends trends = .ok stored
        ∧ stored.recentStackTrends host stack sinceMs = .ok points
        ∧ points.filter (fun point => point.tsMs = fromDb (toDb start))
          = [pointOfSums (fromDb (toDb start)) (fun metric =>
              liveSum metric (containers.filter (fun c => c.stack = some stack)))] := by
  refine ⟨_, _, store.insertContainerTrends_eq trends, Store.recentStackTrends_eq _ _ _ _, ?_⟩
  let table := store.containerTrend.written (writesOf trends)
  let start' (entry : StoredKey × TrendRow) : ℤ := entry.1.bucketStartMs
  let rows := table.toList.filter (fun entry =>
    entry.1.host = host ∧ entry.2.stack = some stack ∧ entry.1.bucketStartMs ≥ toDb sinceMs)
  let own := KeyedFolds.under start' (toDb start) rows
  have selected (entry : StoredKey × TrendRow)
      : entry ∈ own
        ↔ table[entry.1]? = some entry.2
          ∧ entry.1.host = host
          ∧ entry.1.bucketStartMs = toDb start
          ∧ entry.2.stack = some stack := by
    rw [KeyedFolds.mem_under_iff, List.mem_filter, ← KeyedFolds.mem_toList_iff]
    constructor
    · intro h
      obtain ⟨⟨held, kept⟩, sameStart⟩ := h
      obtain ⟨sameHost, sameStack, _⟩ := of_decide_eq_true kept
      exact ⟨held, sameHost, sameStart, sameStack⟩
    · intro h
      obtain ⟨held, sameHost, sameStart, sameStack⟩ := h
      exact ⟨⟨held, decide_eq_true ⟨sameHost, sameStack, sameStart ▸ recent⟩⟩, sameStart⟩
  have distinct : own.Pairwise (fun l r => l.1 < r.1) :=
    (KeyedFolds.toList_ascending table).sublist
      (List.filter_sublist.trans List.filter_sublist)
  have sums (metric : Metric) := batch.sumMedians_eq vacant stack distinct selected metric
  have present : own ≠ [] := by
    obtain ⟨c, member, ownStack, reports⟩ := reported
    obtain ⟨row, found, sameStack, _⟩ :=
      (batch.stored_iff vacant c.name (some stack) c.metric?).mpr
        ⟨c, member, reports, rfl, ownStack, rfl⟩
    exact List.ne_nil_of_mem ((selected (_, row)).mpr ⟨found, rfl, rfl, sameStack⟩)
  have sameStart (group : ℤ × List (StoredKey × TrendRow))
      (occurs : group ∈ KeyedFolds.groups start' rows)
      : fromDb group.1 = fromDb (toDb start) ↔ group.1 = toDb start := by
    refine ⟨fun same => ?_, fun same => congrArg fromDb same⟩
    obtain ⟨nonempty, _⟩ := (KeyedFolds.mem_groups_iff _ _ group.1 group.2).mp occurs
    obtain ⟨entry, inGroup⟩ := List.exists_mem_of_ne_nil _ nonempty
    obtain ⟨inRows, ofGroup⟩ := KeyedFolds.mem_of_mem_groups occurs inGroup
    obtain ⟨_, _, late⟩ := of_decide_eq_true (List.mem_filter.mp inRows).2
    have := toDb_nonneg sinceMs
    have := toDb_nonneg start
    change entry.1.bucketStartMs = group.1 at ofGroup
    unfold fromDb at same
    omega
  have picked := KeyedFolds.filter_groups start' rows (toDb start)
  rw [if_neg present] at picked
  rw [List.filter_map]
  refine (congrArg (List.map _)
    ((List.filter_congr (fun group occurs => ?_)).trans picked)).trans ?_
  · exact decide_eq_decide.mpr (sameStart group occurs)
  · rw [List.map_singleton]
    exact congrArg (fun sums => [pointOfSums (fromDb (toDb start)) sums]) (funext sums)

/-- A bucketer that got through a push has a bucket width. -/
theorem Bucketer.bucketMs_pos {b : Bucketer} {pushes : List Snapshot} (nonempty : pushes ≠ [])
    {result : Bucketer × List (List ContainerTrend)} (ran : b.pushAll pushes = some result)
    : 0 < b.bucketMs := by
  obtain ⟨snap, rest, rfl⟩ := List.exists_cons_of_ne_nil nonempty
  by_contra zero
  rw [pushAll, push, if_pos (by omega)] at ran
  cases ran

/-- The rows that a bucket of equal snapshots closes with, drained in any order, are a steady
batch.
-/
theorem SteadyBatch.ofEqual {width start : ℕ} {host : String} {filled : List Snapshot}
    (nonempty : filled ≠ []) {containers : List ContainerMetrics}
    (equal : ∀ snap ∈ filled, snap.containers = containers)
    (ids : (containers.map ContainerMetrics.id).Nodup)
    (names : (containers.map ContainerMetrics.name).Nodup) {drained : List ContainerTrend}
    (hashOrder
      : drained.Perm
        (Bucketer.closeRows width host start (filled.flatMap Snapshot.readings)))
    : SteadyBatch drained host start containers := by
  refine ⟨names, fun t inDrained => ?_, fun c member metric value found => ?_, ?_⟩
  · exact Bucketer.mem_closeRows_of_equal ids equal (hashOrder.mem_iff.mp inDrained)
  · obtain ⟨t, inRows, repeats⟩ := Bucketer.exists_closeRow ids nonempty equal member found
    exact ⟨t, hashOrder.mem_iff.mpr inRows, repeats⟩
  · refine (hashOrder.pairwise_iff (fun {left right} differ same => ?_)).mpr
      (Bucketer.closeRows_distinct _ _ _ _)
    exact differ ⟨same.1.symm, same.2.symm⟩

/-- A bucket filled with equal snapshots is stored as the point that was streamed for each of
them: the seed of the stack's chart has one point of the bucket, with the same values. Witness:
the median of equal readings is each of them, and both points sum up the same members.
-/
theorem stackSeed_continues (bucketSecs : ℕ) (host stack : String) {start : ℕ}
    {before filled later : List Snapshot} {closing : Snapshot}
    (bucket
      : Bucketer.FilledBucket (Bucketer.new bucketSecs host).bucketMs start before filled closing)
    {final : Bucketer} {flushes : List (List ContainerTrend)}
    (ran
      : (Bucketer.new bucketSecs host).pushAll (before ++ filled ++ closing :: later)
        = some (final, flushes))
    {flushed drained : List ContainerTrend}
    (emitted : flushes[(before ++ filled).length]? = some flushed)
    (hashOrder : drained.Perm flushed) {containers : List ContainerMetrics}
    (equal : ∀ snap ∈ filled, snap.containers = containers)
    (ids : (containers.map ContainerMetrics.id).Nodup)
    (names : (containers.map ContainerMetrics.name).Nodup)
    (fits
      : ((containers.filter (fun c => c.stack = some stack)).map
          (fun c => c.memUsed.getD 0)).sum < 2 ^ 64)
    (reported : ∃ c ∈ containers, c.stack = some stack ∧ c.Reports) {store : Store}
    (vacant
      : ∀ name, store.containerTrend[(⟨host, name, toDb start⟩ : StoredKey)]? = none)
    {sinceMs : ℕ} (recent : toDb sinceMs ≤ toDb start)
    : ∃ stored points point,
        store.insertContainerTrends drained = .ok stored
        ∧ stored.recentStackTrends host stack sinceMs = .ok points
        ∧ points.filter (fun p => p.tsMs = fromDb (toDb start)) = [point]
        ∧ ∀ snap ∈ filled, stackPoint stack snap = { point with tsMs := snap.tsMs } := by
  have positive := Bucketer.bucketMs_pos (by simp) ran
  have outputs := Bucketer.pushAll_eq
    (Bucketer.holds_fresh (Bucketer.new bucketSecs host).bucketMs host) positive
    (before ++ filled ++ closing :: later)
  obtain ⟨_, rfl⟩ := Prod.mk.inj (Option.some.inj (ran.symm.trans outputs))
  obtain rfl := Option.some.inj (emitted.symm.trans bucket.flushed)
  have nonempty : filled ≠ [] := by
    obtain ⟨first, head, _⟩ := bucket.opened
    exact List.ne_nil_of_mem (List.mem_of_mem_head? head)
  have batch := SteadyBatch.ofEqual nonempty equal ids names hashOrder
  obtain ⟨stored, points, inserted, seeded, single⟩ := batch.seed_point vacant reported recent
  refine ⟨stored, points, _, inserted, seeded, single, fun snap member => ?_⟩
  have sameContainers := equal snap member
  rw [← sameContainers] at fits
  rw [stackPoint_eq fits, Snapshot.members, sameContainers]
  rfl

/-- A container of the stack `shop`. -/
private def shopMember (id : String) (cpu : Option ℚ) (mem : Option ℕ) (netRx : Option ℚ)
    : ContainerMetrics :=
  {
    id, name := "shop-" ++ id, image := "img", state := .running, status := "Up"
    health := .none, stack := some "shop", cpuPercent := cpu, memUsed := mem
    memLimit := none, netRxBps := netRx, netTxBps := none, diskReadBps := none
    diskWriteBps := none, ports := []
  }

/-- Members that report different metrics, and one that reports nothing. -/
private def shopMembers : List ContainerMetrics :=
  [shopMember "web" (some 3) (some 1000) none, shopMember "db" none (some 24) (some 5),
    shopMember "idle" none none none]

theorem stackSeed_continues_shop
    : ∃ flushed stored points point,
        Store.empty.insertContainerTrends flushed = .ok stored
        ∧ stored.recentStackTrends "local" "shop" 0 = .ok points
        ∧ points.filter (fun p => p.tsMs = fromDb (toDb 60000)) = [point]
        ∧ ∀ snap ∈ [(⟨60000, shopMembers⟩ : Snapshot), ⟨90000, shopMembers⟩],
          stackPoint "shop" snap = { point with tsMs := snap.tsMs } := by
  have bucket
      : Bucketer.FilledBucket (Bucketer.new 60 "local").bucketMs 60000 []
          [⟨60000, shopMembers⟩, ⟨90000, shopMembers⟩] ⟨125000, []⟩ :=
    ⟨by simp, ⟨⟨60000, shopMembers⟩, rfl, rfl⟩, by simp [bucketStart, Bucketer.new],
      by simp [bucketStart, Bucketer.new]⟩
  have ran := Bucketer.pushAll_eq
    (Bucketer.holds_fresh (Bucketer.new 60 "local").bucketMs "local")
    (by simp [Bucketer.new])
    ([] ++ [⟨60000, shopMembers⟩, ⟨90000, shopMembers⟩] ++ ⟨125000, []⟩ :: [])
  have equal
      : ∀ snap ∈ [(⟨60000, shopMembers⟩ : Snapshot), ⟨90000, shopMembers⟩],
          snap.containers = shopMembers := by
    simp
  refine ⟨_, stackSeed_continues 60 "local" "shop" bucket ran bucket.flushed (.refl _)
    equal ?_ ?_ ?_ ?_ (fun _ => rfl) (toDb_mono (Nat.zero_le _))⟩
  · decide
  · decide
  · decide
  · exact ⟨shopMember "web" (some 3) (some 1000) none, List.mem_cons_self, rfl, .cpu, 3, rfl⟩

end DockDoe
