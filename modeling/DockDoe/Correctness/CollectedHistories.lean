import DockDoe.Correctness.BucketRollups
import DockDoe.Correctness.StoredExtremes
import DockDoe.Foundations.Downsampling
import DockDoe.Model.CollectionCycles
import DockDoe.Model.HistoryQueries

/-! The raw and the trend history of a container agree: downsampling the stored rollups gives
the same extremes as downsampling the samples they were made of.
-/

namespace DockDoe

open Nullable

/-- The sample rows of a run. -/
def sampleRows (host : String) (cycles : List Snapshot) : List SampleRow :=
  cycles.flatMap (fun snap => snap.containers.map (SampleRow.ofContainer host snap.tsMs))

theorem sampleRows_concat (host : String) (cycles : List Snapshot) (snap : Snapshot)
    : sampleRows host (cycles ++ [snap])
      = sampleRows host cycles ++ snap.containers.map (SampleRow.ofContainer host snap.tsMs) := by
  rw [sampleRows, List.flatMap_append, List.flatMap_singleton]
  rfl

/-- The width of the buckets stays. -/
theorem bucketMs_after (bucketSecs : ℕ) (host : String) (cycles : List Snapshot)
    : (Transducer.after Bucketer.feed (.new bucketSecs host) cycles).bucketMs
      = (Bucketer.new bucketSecs host).bucketMs := by
  obtain ⟨_, _, invariant⟩ :=
    Bucketer.runInvariant (Bucketer.new bucketSecs host).bucketMs host cycles
  exact invariant.holds.bucketMs

/-- A run stores its samples and, in some order, all rollups its bucketer emits, by induction on
the cycles.
-/
theorem Collected.stored {bucketSecs : ℕ} {host : String} {cycles : List Snapshot} {b : Bucketer}
    {store : Store} (run : Collected bucketSecs host cycles b store)
    : ∃ batches : List (List ContainerTrend),
        batches.flatten.Perm
          (Transducer.outputs Bucketer.feed (.new bucketSecs host) cycles).flatten
        ∧ store = {
          containerSample := sampleRows host cycles
          containerTrend := TrendTable.written ∅ (batches.flatMap writesOf)
        }
        ∧ b = Transducer.after Bucketer.feed (.new bucketSecs host) cycles := by
  induction run with
  | start => exact ⟨[], .nil, rfl, rfl⟩
  | @cycle cycles b next store sampled stored flushed drained _ snap pushed order samples trends
      ih =>
      obtain ⟨batches, perm, rfl, rfl⟩ := ih
      have fed : Bucketer.feed (Transducer.after Bucketer.feed (.new bucketSecs host) cycles) snap
          = (next, flushed) := by
        unfold Bucketer.push at pushed
        split at pushed
        · cases pushed
        · exact Option.some.inj pushed
      rw [Store.insertSamples_eq] at samples
      obtain rfl := Except.ok.inj samples
      rw [Store.insertContainerTrends_eq] at trends
      obtain rfl := Except.ok.inj trends
      refine ⟨batches ++ [drained], ?_, ?_, ?_⟩
      · rw [Transducer.outputs_append, List.flatten_append, List.flatten_append]
        refine perm.append ?_
        simpa [Transducer.outputs, fed] using order
      · rw [sampleRows_concat, List.flatMap_append, TrendTable.written_append,
          List.flatMap_singleton]
      · rw [Transducer.after_append]
        change next = (Bucketer.feed _ snap).1
        rw [fed]

/-- The store after cycles whose closing buckets are drained in key order. -/
def storeAfter (bucketSecs : ℕ) (host : String) (cycles : List Snapshot) : Store :=
  {
    containerSample := sampleRows host cycles
    containerTrend :=
      TrendTable.written ∅
        ((Transducer.outputs Bucketer.feed (.new bucketSecs host) cycles).flatMap writesOf)
  }

/-- Collecting never fails, by induction on the cycles: a width of at least a millisecond divides
every time.
-/
theorem collected_storeAfter {bucketSecs : ℕ} (noOverflow : max bucketSecs 1 * 1000 < 2 ^ 64)
    (host : String) (cycles : List Snapshot)
    : Collected bucketSecs host cycles
        (Transducer.after Bucketer.feed (.new bucketSecs host) cycles)
        (storeAfter bucketSecs host cycles) := by
  refine Transducer.run_induction Bucketer.feed (.new bucketSecs host)
    (motive := fun cycles b flushes => Collected bucketSecs host cycles b {
      containerSample := sampleRows host cycles
      containerTrend := TrendTable.written ∅ (flushes.flatMap writesOf)
    }) .start (fun cycles snap earlier => ?_) cycles
  have width : (Transducer.after Bucketer.feed (.new bucketSecs host) cycles).bucketMs ≠ 0 := by
    rw [bucketMs_after]
    change max bucketSecs 1 * 1000 % 2 ^ 64 ≠ 0
    rw [Nat.mod_eq_of_lt noOverflow]
    omega
  rw [sampleRows_concat, List.flatMap_append, List.flatMap_singleton, TrendTable.written_append]
  exact earlier.cycle snap (if_neg width) .rfl (Store.insertSamples_eq _ _ _ _)
    (Store.insertContainerTrends_eq _ _)

/-- Below the largest integer a window is the same for stored times. -/
theorem window_toDb_iff {sinceMs untilMs t : ℕ} (inRange : untilMs < i64Max)
    : (toDb t ≥ toDb sinceMs ∧ toDb t ≤ toDb untilMs) ↔ sinceMs ≤ t ∧ t ≤ untilMs := by
  simp only [toDb_eq_min]
  omega

/-- A time and the start of its bucket fall into the same group of whole buckets, by the cases of
a group width that is stored and one that is cut down.
-/
theorem historyBucket_bucketStart {width groupMs untilMs t : ℕ} (positive : 0 < groupMs)
    (whole : width ∣ groupMs) (inRange : untilMs < i64Max) (within : t ≤ untilMs)
    : historyBucket (historyWidth groupMs) (toDb (bucketStart width t))
      = historyBucket (historyWidth groupMs) (toDb t) := by
  have startLe : bucketStart width t ≤ t := Nat.sub_le _ _
  have quotients : bucketStart width t / min groupMs i64Max = t / min groupMs i64Max := by
    rcases le_total groupMs i64Max with fits | saturates
    · rw [min_eq_left fits]
      obtain ⟨buckets, rfl⟩ := whole
      have widthPositive : 0 < width := Nat.pos_of_mul_pos_right positive
      rw [← Nat.div_div_eq_div_mul, ← Nat.div_div_eq_div_mul]
      congr 1
      have split := Nat.mod_add_div t width
      have start : bucketStart width t = width * (t / width) := by
        unfold bucketStart
        omega
      rw [start, Nat.mul_div_cancel_left _ widthPositive]
    · rw [min_eq_right saturates, Nat.div_eq_of_lt (by omega), Nat.div_eq_of_lt (by omega)]
  have asNat (x : ℕ) (small : x ≤ untilMs)
      : historyBucket (historyWidth groupMs) (toDb x)
        = ((x / min groupMs i64Max * min groupMs i64Max : ℕ) : ℤ) := by
    rw [historyBucket, historyWidth, max_eq_left positive, toDb_of_le (by omega), toDb_eq_min,
      Nat.cast_mul, Int.ofNat_tdiv]
  rw [asNat _ (startLe.trans within), asNat t within, quotients]

theorem mem_bucketValues_iff {width : ℕ} {cycles : List Snapshot} {start : ℕ} {id : String}
    {metric : Metric} {v : ℚ}
    : v ∈ bucketValues width cycles start id metric
      ↔ ∃ snap ∈ cycles,
        (start ≤ snap.tsMs ∧ snap.tsMs < start + width)
        ∧ ∃ c ∈ snap.containers, c.id = id ∧ c.metric? metric = some v := by
  simp [bucketValues, Snapshot.values, and_assoc]

theorem container_of_mem_readingsIn {width : ℕ} {cycles : List Snapshot} {start : ℕ}
    {reading : Reading} (member : reading ∈ Bucketer.readingsIn width cycles start)
    : ∃ snap ∈ cycles, reading.container ∈ snap.containers := by
  obtain ⟨snap, kept, inSnap⟩ := List.mem_flatMap.mp member
  obtain ⟨c, inContainers, ofContainer⟩ := List.mem_flatMap.mp inSnap
  obtain ⟨metric, _, found⟩ := List.mem_filterMap.mp ofContainer
  obtain ⟨value, _, rfl⟩ := Option.map_eq_some_iff.mp found
  exact ⟨snap, List.mem_of_mem_filter kept, inContainers⟩

/-- A row carries the name exactly when its accumulator has the id, for one of the readings
behind it tells both.
-/
theorem name_eq_iff {width : ℕ} {host name id : String} {cycles : List Snapshot} {start : ℕ}
    {key : AccKey} {t : ContainerTrend}
    (named : ∀ snap ∈ cycles, ∀ c ∈ snap.containers, c.id = id ↔ c.name = name)
    (row : Bucketer.RowFor width host start key (Bucketer.readingsIn width cycles start) t)
    : t.name = name ↔ key.id = id := by
  obtain ⟨reading, member, sameName⟩ := row.name
  obtain ⟨inReadings, sameKey⟩ := KeyedFolds.mem_under_iff.mp member
  obtain ⟨snap, inCycles, inContainers⟩ := container_of_mem_readingsIn inReadings
  have sameId : reading.container.id = key.id := congrArg AccKey.id sameKey
  rw [sameName, ← sameId]
  exact (named snap inCycles reading.container inContainers).symm

/-- Memory below the largest integer is stored exactly. -/
theorem metric?_ofContainer {host : String} {tsMs : ℕ} {c : ContainerMetrics}
    (inRange : ∀ bytes, c.memUsed = some bytes → bytes ≤ i64Max) (metric : Metric)
    : (SampleRow.ofContainer host tsMs c).metric? metric = c.metric? metric := by
  cases metric <;> try rfl
  simp only [SampleRow.metric?, SampleRow.ofContainer, ContainerMetrics.metric?]
  cases found : c.memUsed with
  | none => rfl
  | some bytes => simp [toDb_of_le (inRange bytes found)]

-----------------------------------------------------------------------------------------
-- The stored rollups summarise the samples
-----------------------------------------------------------------------------------------

/-- Groups and a window of whole buckets, none of them still open, for a container with an id
and a name of its own.
-/
structure WholeBuckets (width : ℕ) (name id : String) (cycles : List Snapshot)
    (current : Option ℕ) (sinceMs untilMs groupMs : ℕ)
    : Prop where
  chronological : Bucketer.Chronological cycles
  named : ∀ snap ∈ cycles, ∀ c ∈ snap.containers, c.id = id ↔ c.name = name
  group : 0 < groupMs
  wholeGroup : width ∣ groupMs
  wholeSince : width ∣ sinceMs
  wholeUntil : width ∣ untilMs + 1
  closed : ∀ cur, current = some cur → untilMs + 1 ≤ cur

/-- A window and memory readings in it that are stored as they are. -/
structure Comparable (width : ℕ) (name id : String) (cycles : List Snapshot)
    (current : Option ℕ) (sinceMs untilMs groupMs : ℕ)
    : Prop
    extends WholeBuckets width name id cycles current sinceMs untilMs groupMs where
  inRange : untilMs < i64Max
  bytes
    : ∀ snap ∈ cycles, sinceMs ≤ snap.tsMs ∧ snap.tsMs ≤ untilMs →
        ∀ c ∈ snap.containers, c.id = id → ∀ bytes, c.memUsed = some bytes → bytes ≤ i64Max

/-- The samples of a window. -/
def sampleWindow (host id : String) (sinceMs untilMs : ℕ) (rows : List SampleRow)
    : List SampleRow :=
  rows.filter (fun row =>
    row.host = host ∧ row.id = id ∧ row.tsMs ≥ toDb sinceMs ∧ row.tsMs ≤ toDb untilMs)

/-- The trend rows of a window. -/
def trendWindow (host name : String) (sinceMs untilMs : ℕ) (table : TrendTable)
    : List (StoredKey × TrendRow) :=
  table.toList.filter (fun entry =>
    entry.1.host = host
    ∧ entry.1.name = name
    ∧ entry.1.bucketStartMs ≥ toDb sinceMs
    ∧ entry.1.bucketStartMs ≤ toDb untilMs)

section Comparison

variable {width : ℕ} {host name id : String} {cycles : List Snapshot} {current : Option ℕ}
  {sinceMs untilMs groupMs : ℕ} {batches : List (List ContainerTrend)}

/-- A value of a sample of the window is one that a cycle of the window reports, by what a cycle
stores of its containers.
-/
theorem exists_sample_iff
    (comparable : Comparable width name id cycles current sinceMs untilMs groupMs)
    {metric : Metric} {v : ℚ} {bucket : ℤ}
    : (∃ row ∈ sampleWindow host id sinceMs untilMs (sampleRows host cycles),
          historyBucket (historyWidth groupMs) row.tsMs = bucket ∧ row.metric? metric = some v)
      ↔ ∃ snap ∈ cycles,
        (sinceMs ≤ snap.tsMs ∧ snap.tsMs ≤ untilMs)
        ∧ historyBucket (historyWidth groupMs) (toDb snap.tsMs) = bucket
        ∧ ∃ c ∈ snap.containers, c.id = id ∧ c.metric? metric = some v := by
  constructor
  · intro h
    rcases h with ⟨row, member, sameBucket, own⟩
    obtain ⟨stored, inWindow⟩ := List.mem_filter.mp member
    obtain ⟨snap, inCycles, ofSnap⟩ := List.mem_flatMap.mp stored
    obtain ⟨c, inContainers, rfl⟩ := List.mem_map.mp ofSnap
    obtain ⟨_, ownId, reached, within⟩ := of_decide_eq_true inWindow
    have inWindow := (window_toDb_iff comparable.inRange).mp ⟨reached, within⟩
    rw [metric?_ofContainer (comparable.bytes snap inCycles inWindow c inContainers ownId)] at own
    exact ⟨snap, inCycles, inWindow, sameBucket, c, inContainers, ownId, own⟩
  · intro h
    rcases h with ⟨snap, inCycles, inWindow, sameBucket, c, inContainers, ownId, own⟩
    obtain ⟨reached, within⟩ := (window_toDb_iff comparable.inRange).mpr inWindow
    refine ⟨.ofContainer host snap.tsMs c, List.mem_filter.mpr ⟨?_, ?_⟩, sameBucket, ?_⟩
    · exact List.mem_flatMap.mpr ⟨snap, inCycles, List.mem_map_of_mem inContainers⟩
    · exact decide_eq_true ⟨rfl, ownId, reached, within⟩
    · rw [metric?_ofContainer (comparable.bytes snap inCycles inWindow c inContainers ownId)]
      exact own

variable (positive : 0 < width)
  (comparable : Comparable width name id cycles current sinceMs untilMs groupMs)

include positive comparable

/-- A value of a bucket of the window is in a sample of the bucket's group, as a whole bucket
lies in the window.
-/
theorem exists_sample_of_bucketValues {start : ℕ} (aligned : width ∣ start)
    (reached : sinceMs ≤ start) (within : start ≤ untilMs) {metric : Metric} {v : ℚ}
    (member : v ∈ bucketValues width cycles start id metric)
    : ∃ row ∈ sampleWindow host id sinceMs untilMs (sampleRows host cycles),
        historyBucket (historyWidth groupMs) row.tsMs
          = historyBucket (historyWidth groupMs) (toDb start)
        ∧ row.metric? metric = some v := by
  obtain ⟨snap, inCycles, ⟨startLe, before⟩, own⟩ := mem_bucketValues_iff.mp member
  have ends : start + width ≤ untilMs + 1 :=
    Nat.le_of_lt_add_of_dvd (by omega) (aligned.add (dvd_refl width)) comparable.wholeUntil
  have ownStart : bucketStart width snap.tsMs = start :=
    (Bucketer.bucketStart_eq_iff positive).mpr ⟨aligned, startLe, before⟩
  refine (exists_sample_iff comparable).mpr
    ⟨snap, inCycles, ⟨by omega, by omega⟩, ?_, own⟩
  rw [← ownStart]
  exact (historyBucket_bucketStart comparable.group comparable.wholeGroup comparable.inRange
    (by omega)).symm

variable
  (stored
    : batches.flatten.Perm
        (Transducer.outputs Bucketer.feed (Bucketer.fresh width host) cycles).flatten)

include stored

/-- A stored rollup is the row of a bucket and an accumulator. -/
theorem rowFor_of_stored {t : ContainerTrend} (member : t ∈ batches.flatten)
    : ∃ start key,
        width ∣ start
        ∧ Bucketer.RowFor width host start key (Bucketer.readingsIn width cycles start) t := by
  obtain ⟨start, key, aligned, _, ofKey⟩ :=
    (Bucketer.mem_flatten_outputs_iff positive host comparable.chronological).mp
      (stored.mem_iff.mp member)
  exact ⟨start, key, aligned, Bucketer.rowFor_of_rowOf ofKey⟩

/-- The extremes of a rollup behind a trend row of the window are values of samples.
Witness: the rollup describes the values of a whole bucket of the window.
-/
theorem exists_sample_of_rollup {table : TrendTable} {entry : StoredKey × TrendRow}
    (inWindow : entry ∈ trendWindow host name sinceMs untilMs table) {metric : Metric}
    {t : ContainerTrend} (member : t ∈ rollupsOf batches entry.1 metric) {v : ℚ}
    (extreme : v = t.min ∨ v = t.max)
    : ∃ row ∈ sampleWindow host id sinceMs untilMs (sampleRows host cycles),
        historyBucket (historyWidth groupMs) row.tsMs
          = historyBucket (historyWidth groupMs) entry.1.bucketStartMs
        ∧ row.metric? metric = some v := by
  obtain ⟨inBatches, ownKey⟩ := List.mem_filter.mp member
  obtain ⟨sameKey, sameMetric⟩ := of_decide_eq_true ownKey
  obtain ⟨_, ownName, reached, within⟩ := of_decide_eq_true (List.mem_filter.mp inWindow).2
  obtain ⟨start, key, aligned, row⟩ := rowFor_of_stored positive comparable stored inBatches
  have startEq : entry.1.bucketStartMs = toDb start := by
    rw [← sameKey, ← row.bucketStartMs]
    rfl
  have keyId : key.id = id := by
    apply (name_eq_iff comparable.named row).mp
    rw [← ownName, ← sameKey]
    rfl
  obtain rfl : key = ⟨id, metric⟩ :=
    row.about.unique ⟨row.id.trans keyId, sameMetric⟩
  have describes := row.describes
  rw [Bucketer.values_readingsIn] at describes
  have own : v ∈ bucketValues width cycles start id metric := by
    rcases extreme with isMin | isMax
    · exact isMin ▸ describes.least.1
    · exact isMax ▸ describes.greatest.1
  rw [startEq] at reached within ⊢
  obtain ⟨reached, within⟩ := (window_toDb_iff comparable.inRange).mp ⟨reached, within⟩
  exact exists_sample_of_bucketValues positive comparable aligned reached within own

/-- Every rollup of a run is of a known metric. -/
theorem known_of_stored : ∀ t ∈ batches.flatten, (Metric.ofStr? t.metric).isSome := by
  intro t member
  obtain ⟨start, key, _, row⟩ := rowFor_of_stored positive comparable stored member
  rw [row.metric, Metric.ofStr?_asStr]
  rfl

/-- A value that a cycle of the window reports is in a stored rollup of the container. Witness:
the window ends before the open bucket, so the cycle's bucket has been left behind.
-/
theorem exists_rollup_of_cycle
    (open? : current = cycles.getLast?.map (fun last => bucketStart width last.tsMs))
    {snap : Snapshot} (inCycles : snap ∈ cycles) (within : snap.tsMs ≤ untilMs) {metric : Metric}
    {v : ℚ} (own : ∃ c ∈ snap.containers, c.id = id ∧ c.metric? metric = some v)
    : ∃ t ∈ rollupsOf batches
          { host, name, bucketStartMs := toDb (bucketStart width snap.tsMs) } metric,
        t.min ≤ v ∧ v ≤ t.max := by
  obtain ⟨aligned, startLe, before⟩ := Bucketer.bucketStart_spec positive snap.tsMs
  have ends : bucketStart width snap.tsMs + width ≤ untilMs + 1 :=
    Nat.le_of_lt_add_of_dvd (by omega) (aligned.add (dvd_refl width)) comparable.wholeUntil
  have left : ∃ later ∈ cycles, bucketStart width snap.tsMs + width ≤ later.tsMs := by
    cases last? : cycles.getLast? with
    | none => exact absurd inCycles (List.getLast?_eq_none_iff.mp last? ▸ List.not_mem_nil)
    | some last =>
        have closed := comparable.closed (bucketStart width last.tsMs) (by rw [open?, last?]; rfl)
        have lastLe := (Bucketer.bucketStart_spec positive last.tsMs).2.1
        exact ⟨last, List.mem_of_getLast? last?, by omega⟩
  have member
      : v ∈ bucketValues width cycles (bucketStart width snap.tsMs) id metric :=
    mem_bucketValues_iff.mpr ⟨snap, inCycles, ⟨startLe, before⟩, own⟩
  rw [← Bucketer.values_readingsIn width cycles (bucketStart width snap.tsMs) ⟨id, metric⟩]
    at member
  have present
      : Bucketer.rowOf width host (bucketStart width snap.tsMs) ⟨id, metric⟩
          (Bucketer.readingsIn width cycles (bucketStart width snap.tsMs))
        ≠ none := by
    intro absent
    rw [Bucketer.rowOf_eq_none_iff] at absent
    rw [absent] at member
    exact List.not_mem_nil member
  obtain ⟨t, ofKey⟩ := Option.ne_none_iff_exists'.mp present
  have row := Bucketer.rowFor_of_rowOf ofKey
  have emitted := stored.mem_iff.mpr
    ((Bucketer.mem_flatten_outputs_iff positive host comparable.chronological).mpr
      ⟨_, _, aligned, left, ofKey⟩)
  have sameKey
      : t.key.toStored = { host, name, bucketStartMs := toDb (bucketStart width snap.tsMs) } := by
    rw [ContainerTrend.key, row.host, (name_eq_iff comparable.named row).mpr rfl,
      row.bucketStartMs]
    rfl
  refine ⟨t, List.mem_filter.mpr ⟨emitted, decide_eq_true ⟨sameKey, row.metric⟩⟩, ?_, ?_⟩
  · exact row.describes.least.2 member
  · exact row.describes.greatest.2 member

/-- A cycle of the window whose bucket has a rollup has a trend row in the window: the row of the
rollup's key.
-/
theorem exists_trendRow_of_rollup {snap : Snapshot} (reached : sinceMs ≤ snap.tsMs)
    (within : snap.tsMs ≤ untilMs) {metric : Metric} {t : ContainerTrend}
    (member
      : t ∈ rollupsOf batches
          { host, name, bucketStartMs := toDb (bucketStart width snap.tsMs) } metric)
    : ∃ row,
        (⟨host, name, toDb (bucketStart width snap.tsMs)⟩, row)
        ∈ trendWindow host name sinceMs untilMs
            (TrendTable.written ∅ (batches.flatMap writesOf)) := by
  obtain ⟨inBatches, ownKey⟩ := List.mem_filter.mp member
  obtain ⟨row, hasRow⟩ := Option.isSome_iff_exists.mp
    ((isSome_written (known_of_stored positive comparable stored) _).mpr
      ⟨t, inBatches, (of_decide_eq_true ownKey).1⟩)
  obtain ⟨aligned, startLe, before⟩ := Bucketer.bucketStart_spec positive snap.tsMs
  -- The window starts with a whole bucket, so it has the bucket's start with the cycle.
  have startReached : sinceMs ≤ bucketStart width snap.tsMs :=
    Nat.le_of_lt_add_of_dvd (reached.trans_lt before) comparable.wholeSince aligned
  obtain ⟨stays, ends⟩ :=
    (window_toDb_iff comparable.inRange).mpr ⟨startReached, startLe.trans within⟩
  exact ⟨row, List.mem_filter.mpr ⟨KeyedFolds.mem_toList_iff.mpr hasRow,
    decide_eq_true ⟨rfl, rfl, stays, ends⟩⟩⟩

/-- The trend rows of the window summarise its samples: every sample's bucket has a row that
reaches as far, and every row's bounds are values of samples.
-/
theorem trendWindow_summarises
    (open? : current = cycles.getLast?.map (fun last => bucketStart width last.tsMs))
    : Downsampling.Summarises
        (fun row : SampleRow => historyBucket (historyWidth groupMs) row.tsMs)
        (fun metric row => row.metric? metric)
        (sampleWindow host id sinceMs untilMs (sampleRows host cycles))
        (fun entry : StoredKey × TrendRow =>
          historyBucket (historyWidth groupMs) entry.1.bucketStartMs)
        (fun metric entry => (entry.2.columns metric).min)
        (fun metric entry => (entry.2.columns metric).max)
        (trendWindow host name sinceMs untilMs
          (TrendTable.written ∅ (batches.flatMap writesOf))) := by
  have extremes {entry : StoredKey × TrendRow}
      (inWindow : entry ∈ trendWindow host name sinceMs untilMs
        (TrendTable.written ∅ (batches.flatMap writesOf))) (metric : Metric)
      : ExtremesOf (entry.2.columns metric) (rollupsOf batches entry.1 metric) :=
    extremes_written (KeyedFolds.mem_toList_iff.mp (List.mem_of_mem_filter inWindow)) metric
  refine ⟨?_, ?_, ?_, ?_⟩
  · intro row member metric v own
    obtain ⟨snap, inCycles, ⟨reached, within⟩, sameBucket, ofCycle⟩ :=
      (exists_sample_iff comparable).mp ⟨row, member, rfl, own⟩
    obtain ⟨t, inRollups, minLe, leMax⟩ :=
      exists_rollup_of_cycle positive comparable stored open? inCycles within ofCycle
    obtain ⟨trend, listed⟩ :=
      exists_trendRow_of_rollup positive comparable stored reached within inRollups
    obtain ⟨⟨l, lowEq, below⟩, h, highEq, above⟩ := (extremes listed metric).bounds inRollups
    refine ⟨_, listed, ?_, ⟨l, lowEq, below.trans minLe⟩, h, highEq, leMax.trans above⟩
    rw [← sameBucket]
    exact historyBucket_bucketStart comparable.group comparable.wholeGroup comparable.inRange
      within
  · intro entry inWindow metric l own
    obtain ⟨t, inRollups, rfl⟩ := ((extremes inWindow metric).least l own).1
    exact exists_sample_of_rollup positive comparable stored inWindow inRollups (.inl rfl)
  · intro entry inWindow metric h own
    obtain ⟨t, inRollups, rfl⟩ := ((extremes inWindow metric).greatest h own).1
    exact exists_sample_of_rollup positive comparable stored inWindow inRollups (.inr rfl)
  · intro entry inWindow
    have known := known_of_stored positive comparable stored
    have hasRow := KeyedFolds.mem_toList_iff.mp (List.mem_of_mem_filter inWindow)
    obtain ⟨t, inBatches, sameKey⟩ :=
      (isSome_written known entry.1).mp (Option.isSome_iff_exists.mpr ⟨entry.2, hasRow⟩)
    obtain ⟨metric, named⟩ := Option.isSome_iff_exists.mp (known t inBatches)
    have inRollups : t ∈ rollupsOf batches entry.1 metric :=
      List.mem_filter.mpr ⟨inBatches,
        decide_eq_true ⟨sameKey, (Metric.asStr_of_ofStr? named).symm⟩⟩
    obtain ⟨⟨l, lowEq, _⟩, _⟩ := (extremes inWindow metric).bounds inRollups
    exact ⟨metric, l, lowEq⟩

end Comparison

-----------------------------------------------------------------------------------------
-- The two histories
-----------------------------------------------------------------------------------------

/-- The time of a point and every metric's extremes. -/
def HistoryPoint.extremes (point : HistoryPoint) : ℕ × (Metric → Option ℚ × Option ℚ) :=
  (point.tsMs, fun metric => ((point.columns metric).min, (point.columns metric).max))

/-- A point has at least one metric. -/
def HistoryPoint.Present (point : HistoryPoint) : Prop :=
  ∃ metric, point.columns metric ≠ { min := none, med := none, max := none }

instance (point : HistoryPoint) : Decidable point.Present :=
  inferInstanceAs (Decidable (∃ metric, point.columns metric ≠ _))

/-- The point that the trend history has for a bucket. -/
def trendPoint (width : ℤ) (entries : List (StoredKey × TrendRow)) (bucket : ℤ) : HistoryPoint :=
  {
    tsMs := fromDb bucket
    columns := fun metric =>
      .aggregate ((KeyedFolds.under (fun entry : StoredKey × TrendRow =>
        historyBucket width entry.1.bucketStartMs) bucket entries).map
          (fun entry => entry.2.columns metric))
  }

/-- The point that the raw history has for a bucket. -/
def samplePoint (width : ℤ) (rows : List SampleRow) (bucket : ℤ) : HistoryPoint :=
  {
    tsMs := fromDb bucket
    columns := fun metric =>
      .ofValues ((KeyedFolds.under (fun row : SampleRow => historyBucket width row.tsMs) bucket
        rows).map (fun row => row.metric? metric))
  }

/-- A history has a point for each group of the rows in its window, as no query fails on rows
that were stored.
-/
theorem historyContainer_eq (store : Store) (host name : String) (sinceMs untilMs groupMs : ℕ)
    : store.historyContainer host name sinceMs untilMs groupMs
      = .ok ((KeyedFolds.keysOf
            (fun entry : StoredKey × TrendRow =>
              historyBucket (historyWidth groupMs) entry.1.bucketStartMs)
            (trendWindow host name sinceMs untilMs store.containerTrend)).map
          (trendPoint (historyWidth groupMs)
            (trendWindow host name sinceMs untilMs store.containerTrend))) := by
  refine (FallibleLists.mapM_ok
    (fun group _ => historyRowToPoint_selectHistory group.1 _)).trans ?_
  rw [KeyedFolds.groups_eq_map, List.map_map]
  refine congrArg Except.ok (List.map_congr_left (fun bucket _ => ?_))
  simp only [Function.comp_apply, List.map_map, trendPoint]
  rfl

theorem historyContainerRaw_eq (store : Store) (host id : String) (sinceMs untilMs groupMs : ℕ)
    : store.historyContainerRaw host id sinceMs untilMs groupMs
      = .ok ((KeyedFolds.keysOf
            (fun row : SampleRow => historyBucket (historyWidth groupMs) row.tsMs)
            (sampleWindow host id sinceMs untilMs store.containerSample)).map
          (samplePoint (historyWidth groupMs)
            (sampleWindow host id sinceMs untilMs store.containerSample))) := by
  refine (FallibleLists.mapM_ok
    (fun group _ => historyRowToPoint_selectRawHistory group.1 group.2)).trans ?_
  rw [KeyedFolds.groups_eq_map, List.map_map]
  rfl

/-- A point of the raw history has a metric as soon as one of its samples has a value: the least
of no values is none.
-/
theorem samplePoint_present_iff {width : ℤ} {rows : List SampleRow} {bucket : ℤ}
    : (samplePoint width rows bucket).Present
      ↔ ∃ (metric : Metric) (v : ℚ),
        some v ∈ (KeyedFolds.under (fun row : SampleRow => historyBucket width row.tsMs) bucket
          rows).map (fun row => row.metric? metric) := by
  refine exists_congr (fun metric => ?_)
  rw [samplePoint, not_iff_comm, not_exists]
  constructor
  · intro noValue
    simp only [EnvelopeColumns.ofValues, minAgg_eq_none_iff.mpr noValue,
      avgAgg_eq_none_iff.mpr noValue, maxAgg_eq_none_iff.mpr noValue]
  · intro same
    exact minAgg_eq_none_iff.mp (congrArg EnvelopeColumns.min same)

/-- The trend history has the points of the raw history that have a metric, with the same
times and extremes.
-/
def HistoriesAgree (store : Store) (host name id : String) (sinceMs untilMs groupMs : ℕ) : Prop :=
  ∃ raw trend,
    store.historyContainerRaw host id sinceMs untilMs groupMs = .ok raw
    ∧ store.historyContainer host name sinceMs untilMs groupMs = .ok trend
    ∧ trend.map HistoryPoint.extremes
      = (raw.filter (fun point => point.Present)).map HistoryPoint.extremes

/-- The raw and the trend history of a container agree, bucket by bucket: the samples of a bucket
and the rollups that were flushed of it summarise the same readings, and extremes of extremes are
those of the readings.
-/
theorem histories_agree {bucketSecs : ℕ} {host : String} {cycles : List Snapshot} {b : Bucketer}
    {store : Store} (run : Collected bucketSecs host cycles b store) (name id : String)
    (sinceMs untilMs groupMs : ℕ)
    (comparable : Comparable b.bucketMs name id cycles b.currentStart sinceMs untilMs groupMs)
    : HistoriesAgree store host name id sinceMs untilMs groupMs := by
  refine ⟨_, _, historyContainerRaw_eq _ _ _ _ _ _, historyContainer_eq _ _ _ _ _ _, ?_⟩
  obtain ⟨batches, stored, rfl, rfl⟩ := run.stored
  rw [bucketMs_after] at comparable
  have positive := Nat.pos_of_dvd_of_pos comparable.wholeGroup comparable.group
  have summarises := trendWindow_summarises positive comparable stored
    (Bucketer.holds_after positive host comparable.chronological).currentStart
  have keys := summarises.keysOf_eq
    (fun bucket => decide (samplePoint (historyWidth groupMs)
      (sampleWindow host id sinceMs untilMs (sampleRows host cycles)) bucket).Present)
    (fun bucket => decide_eq_true_iff.trans samplePoint_present_iff)
  rw [List.filter_map, List.map_map, List.map_map, keys]
  refine List.map_congr_left (fun bucket _ => Prod.ext rfl (funext (fun metric => ?_)))
  refine Prod.ext ?_ ?_
  · refine Eq.trans (congrArg minAgg ?_) (summarises.min_eq bucket metric)
    exact List.map_map
  · refine Eq.trans (congrArg maxAgg ?_) (summarises.max_eq bucket metric)
    exact List.map_map

/-- A container that reports a CPU value and its memory. -/
private def levelContainer (level : ℚ × ℕ) : ContainerMetrics :=
  {
    id := "x", name := "c-x", image := "img", state := .running, status := "Up"
    health := .none, stack := none, cpuPercent := some level.1, memUsed := some level.2
    memLimit := none, netRxBps := none, netTxBps := none, diskReadBps := none
    diskWriteBps := none, ports := []
  }

/-- The cycles that report levels at times. -/
private def levelCycles (levels : List (ℕ × ℚ × ℕ)) : List Snapshot :=
  levels.map (fun level => { tsMs := level.1, containers := [levelContainer level.2] })

private theorem wholeBuckets_levels {levels : List (ℕ × ℚ × ℕ)} {untilMs : ℕ} (cur : ℕ)
    (chronological : levels.Pairwise (fun earlier later => earlier.1 ≤ later.1))
    (wholeUntil : 1000 ∣ untilMs + 1)
    (current
      : (Transducer.after Bucketer.feed (.new 1 "local") (levelCycles levels)).currentStart
        = some cur)
    (closed : untilMs + 1 ≤ cur)
    : WholeBuckets
        (Transducer.after Bucketer.feed (.new 1 "local") (levelCycles levels)).bucketMs "c-x" "x"
        (levelCycles levels)
        (Transducer.after Bucketer.feed (.new 1 "local") (levelCycles levels)).currentStart
        0 untilMs 1000 := by
  rw [bucketMs_after, current]
  refine ⟨?_, ?_, by decide, by decide, by decide, wholeUntil, ?_⟩
  · exact List.pairwise_map.mpr chronological
  · intro snap inCycles c inContainers
    obtain ⟨level, _, rfl⟩ := List.mem_map.mp inCycles
    obtain rfl := List.mem_singleton.mp inContainers
    exact ⟨fun _ => rfl, fun _ => rfl⟩
  · intro _ h
    rcases h with ⟨⟩
    exact closed

/-- Two samples of a second and one of the next. -/
theorem histories_agree_second
    : HistoriesAgree (storeAfter 1 "local" (levelCycles [(0, 2, 7), (500, 8, 5), (1000, 3, 6)]))
        "local" "c-x" "x" 0 999 1000 := by
  refine histories_agree (collected_storeAfter (by decide) "local" _) "c-x" "x" 0 999 1000
    ⟨wholeBuckets_levels 1000 (by decide) (by decide) (by decide +kernel) (by decide),
      by decide, ?_⟩
  decide

/-- The maximum of a metric at every point. -/
private def maxima (metric : Metric) (history : Except SqlError (List HistoryPoint))
    : Option (List (Option ℚ)) :=
  history.toOption.map (fun points => points.map (fun point => (point.columns metric).max))

private theorem not_agree {store : Store} {sinceMs untilMs groupMs : ℕ} (metric : Metric)
    (low high : Option ℚ)
    (ofRaw
      : maxima metric (store.historyContainerRaw "local" "x" sinceMs untilMs groupMs)
        = some [low])
    (ofTrend
      : maxima metric (store.historyContainer "local" "c-x" sinceMs untilMs groupMs)
        = some [high])
    (differ : low ≠ high)
    : ¬ HistoriesAgree store "local" "c-x" "x" sinceMs untilMs groupMs := by
  intro h
  rcases h with ⟨raw, trend, rawRead, trendRead, same⟩
  rw [rawRead] at ofRaw
  rw [trendRead] at ofTrend
  have rawMax : raw.map (fun point => (point.columns metric).max) = [low] :=
    Option.some.inj ofRaw
  have trendMax : trend.map (fun point => (point.columns metric).max) = [high] :=
    Option.some.inj ofTrend
  obtain ⟨point, inTrend, own⟩ := List.mem_map.mp (trendMax ▸ List.mem_singleton_self high)
  obtain ⟨other, inRaw, extremes⟩ :=
    List.mem_map.mp (same ▸ List.mem_map_of_mem (f := HistoryPoint.extremes) inTrend)
  have otherMax : (other.columns metric).max ∈ [low] :=
    rawMax ▸ List.mem_map.mpr ⟨other, List.mem_of_mem_filter inRaw, rfl⟩
  have equal : (other.columns metric).max = (point.columns metric).max :=
    congrArg (fun e : ℕ × (Metric → Option ℚ × Option ℚ) => (e.2 metric).2) extremes
  exact differ ((List.mem_singleton.mp otherMax).symm.trans (equal.trans own))

/-- Counters beyond the storable integers keep the histories apart: memory saturates in the
samples alone, by a factor of two at the largest counter, and a late sample saturates into the
window. Both by evaluating the two histories of a run.
-/
theorem saturated_histories_differ
    : (∃ b store,
        Collected 1 "local" (levelCycles [(0, 2, 2 ^ 64 - 1), (1000, 2, 2 ^ 64 - 1)]) b store
        ∧ WholeBuckets b.bucketMs "c-x" "x"
            (levelCycles [(0, 2, 2 ^ 64 - 1), (1000, 2, 2 ^ 64 - 1)])
            b.currentStart 0 999 1000
        ∧ ¬ HistoriesAgree store "local" "c-x" "x" 0 999 1000)
      ∧ ∃ b store,
        Collected 1 "local" (levelCycles [(2 ^ 63 - 708, 1, 7), (2 ^ 63 + 292, 5, 7)]) b store
        ∧ WholeBuckets b.bucketMs "c-x" "x"
            (levelCycles [(2 ^ 63 - 708, 1, 7), (2 ^ 63 + 292, 5, 7)])
            b.currentStart 0 (2 ^ 63 + 191) 1000
        ∧ ¬ HistoriesAgree store "local" "c-x" "x" 0 (2 ^ 63 + 191) 1000 := by
  constructor
  · refine ⟨_, _, collected_storeAfter (by decide) "local" _, ?_, ?_⟩
    · exact wholeBuckets_levels 1000 (by decide) (by decide) (by decide +kernel) le_rfl
    · exact not_agree .mem (some (2 ^ 63 - 1)) (some (2 ^ 64 - 1))
        (by decide +kernel) (by decide +kernel) (by decide +kernel)
  · refine ⟨_, _, collected_storeAfter (by decide) "local" _, ?_, ?_⟩
    · exact wholeBuckets_levels (2 ^ 63 + 192) (by decide) (by decide) (by decide +kernel) le_rfl
    · exact not_agree .cpu (some 5) (some 1) (by decide +kernel) (by decide +kernel)
        (by decide +kernel)

end DockDoe
