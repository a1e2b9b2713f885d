import DockDoe.Correctness.BucketContents

/-! Every pushed value is rolled up exactly once, in the bucket it belongs to. -/

namespace DockDoe

/-- The present values of a metric that a snapshot carries for a container. -/
def Snapshot.values (snap : Snapshot) (id : String) (metric : Metric) : List ℚ :=
  (snap.containers.filter (fun c => c.id = id)).filterMap (fun c => c.metric? metric)

/-- The values pushed for a container and metric with a timestamp of the bucket. -/
def bucketValues (width : ℕ) (pushes : List Snapshot) (start : ℕ) (id : String)
    (metric : Metric)
    : List ℚ :=
  (pushes.filter (fun snap => start ≤ snap.tsMs ∧ snap.tsMs < start + width)).flatMap
    (fun snap => snap.values id metric)

namespace Bucketer

/-- The values of a container and metric that no row has reported yet. -/
def buffered (b : Bucketer) (id : String) (metric : Metric) : List ℚ :=
  ((b.containers[({ id, metric } : AccKey)]?).map ContainerAcc.values).getD []

/-- The rows emitted push by push are one for each bucket, container and metric that has
values and has been left behind; each describes those values and is emitted by the first
push beyond its bucket.
-/
structure RollsUp (width : ℕ) (pushes : List Snapshot) (flushes : List (List ContainerTrend))
    : Prop where
  once
    : flushes.flatten.Pairwise (fun left right =>
        ¬ (left.bucketStartMs = right.bucketStartMs
          ∧ left.id = right.id
          ∧ left.metric = right.metric))
  complete
    : ∀ start id (metric : Metric),
      (∃ row ∈ flushes.flatten,
        row.bucketStartMs = start ∧ row.id = id ∧ row.metric = metric.asStr)
      ↔ width ∣ start
        ∧ bucketValues width pushes start id metric ≠ []
        ∧ ∃ later ∈ pushes, start + width ≤ later.tsMs
  described
    : ∀ k rows, flushes[k]? = some rows → ∀ row ∈ rows, ∃ metric : Metric,
      row.metric = metric.asStr
      ∧ FirstBeyond width pushes row.bucketStartMs k
      ∧ row.Describes (bucketValues width pushes row.bucketStartMs row.id metric)
      ∧ row.samples = (bucketValues width pushes row.bucketStartMs row.id metric).length

/-- For every container and metric the pushed values split, in order, into those that its
emitted rows describe one after another and those still buffered; the rows of one flush
share a bucket start, and later flushes have later ones.
-/
structure Conserves (pushes : List Snapshot) (final : Bucketer)
    (flushes : List (List ContainerTrend))
    : Prop where
  counted
    : ∀ id (metric : Metric), ∃ parts,
      List.Forall₂ ContainerTrend.Describes
        (flushes.flatten.filter (fun row => row.id = id ∧ row.metric = metric.asStr)) parts
      ∧ parts.flatten ++ final.buffered id metric
        = pushes.flatMap (fun snap => snap.values id metric)
  shared : ∀ rows ∈ flushes, ∃ start, ∀ row ∈ rows, row.bucketStartMs = start
  increasing
    : flushes.Pairwise (fun earlier later =>
        ∀ row ∈ earlier, ∀ next ∈ later, row.bucketStartMs < next.bucketStartMs)

/-- A container's readings under a key are its value of the metric, if the key is its own: every
other metric has another key.
-/
theorem values_readingsOf_container (c : ContainerMetrics) (key : AccKey)
    : (readingsOf key c.readings).map Reading.value
      = if c.id = key.id then (c.metric? key.metric).toList else [] := by
  rcases key with ⟨id, metric⟩
  have one (other : Metric) (has : Reading → Bool)
      (hasIff : ∀ reading, has reading = true ↔ reading.key = ⟨id, metric⟩)
      : ((c.metric? other).map (Reading.mk c other)).filter has
        = if c.id = id ∧ other = metric then (c.metric? other).map (Reading.mk c other) else none
        := by
    cases c.metric? other <;> by_cases own : c.id = id ∧ other = metric <;>
      simp [Reading.key, own, Option.filter, hasIff]
  have kept
      : readingsOf ⟨id, metric⟩ c.readings
        = Metric.all.filterMap (fun other =>
            if c.id = id ∧ other = metric then (c.metric? other).map (Reading.mk c other) else none)
      := by
    rw [readingsOf, KeyedFolds.under, ContainerMetrics.readings, List.filter_filterMap]
    exact List.filterMap_congr (fun other _ => one other _ (by simp))
  rw [kept]
  by_cases own : c.id = id
  · cases value : c.metric? metric <;> cases metric <;> simp [own, Metric.all, value]
  · simp [own]

/-- A snapshot's readings under a key are the values of the container's entries, by induction on
the containers.
-/
theorem values_readingsOf (snap : Snapshot) (key : AccKey)
    : (readingsOf key snap.readings).map Reading.value = snap.values key.id key.metric := by
  obtain ⟨_, containers⟩ := snap
  simp only [Snapshot.readings, Snapshot.values]
  induction containers with
  | nil => rfl
  | cons c rest ih =>
      rw [List.flatMap_cons, readingsOf, KeyedFolds.under_append, List.map_append]
      change (readingsOf key c.readings).map Reading.value ++ (readingsOf key _).map _ = _
      rw [ih, values_readingsOf_container]
      by_cases own : c.id = key.id
      · cases value : c.metric? key.metric <;> simp [own, value]
      · simp [own]

theorem values_readingsOf_flatMap (pushes : List Snapshot) (key : AccKey)
    : (readingsOf key (pushes.flatMap Snapshot.readings)).map Reading.value
      = pushes.flatMap (fun snap => snap.values key.id key.metric) := by
  induction pushes with
  | nil => rfl
  | cons snap rest ih =>
      rw [List.flatMap_cons, List.flatMap_cons, ← ih, ← values_readingsOf, ← List.map_append]
      exact congrArg _ (KeyedFolds.under_append Reading.key key snap.readings _)

theorem values_readingsIn (width : ℕ) (pushes : List Snapshot) (start : ℕ) (key : AccKey)
    : (readingsOf key (readingsIn width pushes start)).map Reading.value
      = bucketValues width pushes start key.id key.metric :=
  values_readingsOf_flatMap _ key

theorem Holds.buffered_eq {b : Bucketer} {width : ℕ} {host : String} {current : Option ℕ}
    {readings : List Reading} (holds : b.Holds width host current readings) (id : String)
    (metric : Metric)
    : b.buffered id metric = (readingsOf ⟨id, metric⟩ readings).map Reading.value := by
  rw [buffered, holds.containers, getElem?_accumulate]
  cases readingsOf ⟨id, metric⟩ readings with
  | nil => rfl
  | cons head rest => rfl

-----------------------------------------------------------------------------------------
-- Any order of timestamps
-----------------------------------------------------------------------------------------

/-- What a run keeps up: the readings since the last flush are still held, those before
are described by rows whose starts lie before the open bucket.
-/
structure RunInvariant (width : ℕ) (host : String) (pushes : List Snapshot) (b : Bucketer)
    (flushes : List (List ContainerTrend)) (current : Option ℕ) (readings : List Reading)
    : Prop where
  holds : b.Holds width host current readings
  counted
    : ∀ key : AccKey, ∃ parts,
      List.Forall₂ ContainerTrend.Describes
        (flushes.flatten.filter (fun row => row.About key)) parts
      ∧ parts.flatten ++ (readingsOf key readings).map Reading.value
        = pushes.flatMap (fun snap => snap.values key.id key.metric)
  before : ∀ row ∈ flushes.flatten, ∃ cur ∈ current, row.bucketStartMs < cur
  shared : ∀ rows ∈ flushes, ∃ start, ∀ row ∈ rows, row.bucketStartMs = start
  distinct
    : ∀ rows ∈ flushes,
      rows.Pairwise (fun left right => ¬ (left.id = right.id ∧ left.metric = right.metric))
  increasing
    : flushes.Pairwise (fun earlier later =>
        ∀ row ∈ earlier, ∀ next ∈ later, row.bucketStartMs < next.bucketStartMs)

section Step

variable {width : ℕ} {host : String} {pushes : List Snapshot} {b : Bucketer}
  {flushes : List (List ContainerTrend)} {current : Option ℕ} {readings : List Reading}
  {snap : Snapshot}

/-- A push that flushes nothing leaves one more snapshot's values buffered; what has been counted
stays as it is.
-/
theorem RunInvariant.stays (invariant : RunInvariant width host pushes b flushes current readings)
    (stays : ∀ cur ∈ current, bucketStart width snap.tsMs ≤ cur)
    : RunInvariant width host (pushes ++ [snap]) (b.feed snap).1 (flushes ++ [(b.feed snap).2])
        (some (current.getD (bucketStart width snap.tsMs))) (readings ++ snap.readings) := by
  obtain ⟨holds, silent⟩ := invariant.holds.feed_stays stays
  rw [silent]
  refine ⟨holds, ?_, ?_, ?_, ?_, ?_⟩
  · intro key
    obtain ⟨parts, described, split⟩ := invariant.counted key
    refine ⟨parts, by simpa using described, ?_⟩
    rw [readingsOf, KeyedFolds.under_append, List.map_append, List.flatMap_append, ← split,
      List.append_assoc]
    simpa [readingsOf] using values_readingsOf snap key
  · intro row member
    obtain ⟨cur, open?, less⟩ := invariant.before row (by simpa using member)
    exact ⟨cur, by simp [Option.mem_def.mp open?], less⟩
  · intro rows member
    rcases List.mem_append.mp member with earlier | now
    · exact invariant.shared rows earlier
    · exact ⟨0, by simp [List.mem_singleton.mp now]⟩
  · intro rows member
    rcases List.mem_append.mp member with earlier | now
    · exact invariant.distinct rows earlier
    · exact (List.mem_singleton.mp now) ▸ List.Pairwise.nil
  · refine List.pairwise_append.mpr ⟨invariant.increasing, List.pairwise_singleton _ _, ?_⟩
    intro rows _ now member row _ next inNow
    rw [List.mem_singleton.mp member] at inNow
    exact absurd inNow List.not_mem_nil

/-- A push that flushes turns the buffered values of each accumulator into its row: the rows so
far describe parts of the values, and the buffer is the next part.
-/
theorem RunInvariant.closes {cur : ℕ}
    (invariant : RunInvariant width host pushes b flushes (some cur) readings)
    (beyond : cur < bucketStart width snap.tsMs)
    : RunInvariant width host (pushes ++ [snap]) (b.feed snap).1 (flushes ++ [(b.feed snap).2])
        (some (bucketStart width snap.tsMs)) snap.readings := by
  obtain ⟨holds, flushed⟩ := invariant.holds.feed_closes beyond
  rw [flushed]
  have start {row : ContainerTrend} (member : row ∈ closeRows width host cur readings)
      : row.bucketStartMs = cur := by
    obtain ⟨key, ofKey⟩ := mem_closeRows_iff.mp member
    exact (rowFor_of_rowOf ofKey).bucketStartMs
  have earlierLess {row : ContainerTrend} (member : row ∈ flushes.flatten)
      : row.bucketStartMs < cur := by
    obtain ⟨other, same, less⟩ := invariant.before row member
    obtain rfl := Option.some.inj same
    exact less
  refine ⟨holds, ?_, ?_, ?_, ?_, ?_⟩
  · intro key
    obtain ⟨parts, described, split⟩ := invariant.counted key
    simp only [List.flatten_append, List.flatten_singleton, List.filter_append,
      filter_closeRows, List.flatMap_append, List.flatMap_singleton, ← split]
    rw [values_readingsOf]
    cases ofKey : rowOf width host cur key readings with
    | none =>
        rw [rowOf_eq_none_iff.mp ofKey]
        exact ⟨parts, by simpa using described, by simp⟩
    | some row =>
        refine ⟨parts ++ [(readingsOf key readings).map Reading.value], ?_, by simp⟩
        exact List.rel_append described (.cons (rowFor_of_rowOf ofKey).describes .nil)
  · intro row member
    refine ⟨_, rfl, ?_⟩
    rw [List.flatten_append, List.flatten_singleton] at member
    rcases List.mem_append.mp member with earlier | now
    · exact (earlierLess earlier).trans beyond
    · exact (start now).trans_lt beyond
  · intro rows member
    rcases List.mem_append.mp member with earlier | now
    · exact invariant.shared rows earlier
    · exact ⟨cur, fun row inRows => start ((List.mem_singleton.mp now) ▸ inRows)⟩
  · intro rows member
    rcases List.mem_append.mp member with earlier | now
    · exact invariant.distinct rows earlier
    · exact (List.mem_singleton.mp now) ▸ closeRows_distinct width host cur readings
  · refine List.pairwise_append.mpr ⟨invariant.increasing, List.pairwise_singleton _ _, ?_⟩
    intro rows earlier now member row inRows next inNow
    rw [List.mem_singleton.mp member] at inNow
    rw [start inNow]
    exact earlierLess (List.mem_flatten.mpr ⟨rows, earlier, inRows⟩)

end Step

/-- Every run keeps the invariant, by induction on the pushes with the cases of one that flushes
and one that does not.
-/
theorem runInvariant (width : ℕ) (host : String) (pushes : List Snapshot)
    : ∃ current readings,
        RunInvariant width host pushes (Transducer.after feed (fresh width host) pushes)
          (Transducer.outputs feed (fresh width host) pushes) current readings := by
  refine Transducer.run_induction feed (fresh width host)
    (motive := fun pushes b flushes =>
      ∃ current readings, RunInvariant width host pushes b flushes current readings) ?_ ?_ pushes
  · refine ⟨none, [], holds_fresh width host, ?_, ?_, ?_, ?_, .nil⟩
    · exact fun key => ⟨[], .nil, rfl⟩
    · exact fun row member => absurd member List.not_mem_nil
    · exact fun rows member => absurd member List.not_mem_nil
    · exact fun rows member => absurd member List.not_mem_nil
  · intro pushes snap h
    rcases h with ⟨current, readings, invariant⟩
    by_cases stays : ∀ cur ∈ current, bucketStart width snap.tsMs ≤ cur
    · exact ⟨_, _, invariant.stays stays⟩
    · push Not at stays
      obtain ⟨cur, rfl, beyond⟩ := stays
      exact ⟨_, _, invariant.closes beyond⟩

/-- In time order the emitted rows are exactly those of the buckets left behind.
Witness: the rows of each push are known; a bucket with values and a later push beyond it
is emitted by the first such push.
-/
theorem rollsUp_of_chronological {width : ℕ} (positive : 0 < width) (host : String)
    {pushes : List Snapshot} (chronological : Chronological pushes)
    (few
      : ∀ start id (metric : Metric),
        (bucketValues width pushes start id metric).length < 2 ^ 32)
    : RollsUp width pushes (Transducer.outputs feed (fresh width host) pushes) := by
  obtain ⟨_, _, invariant⟩ := runInvariant width host pushes
  refine ⟨?_, ?_, ?_⟩
  · refine List.pairwise_flatten.mpr ⟨?_, ?_⟩
    · intro rows member
      exact (invariant.distinct rows member).imp (fun differ same => differ same.2)
    · refine invariant.increasing.imp (fun increasing row inRows next inNext same => ?_)
      exact (increasing row inRows next inNext).ne same.1
  · intro start id metric
    constructor
    · intro h
      rcases h with ⟨row, member, rfl, rfl, sameMetric⟩
      obtain ⟨start, key, aligned, left, ofKey⟩ :=
        (mem_flatten_outputs_iff positive host chronological).mp member
      have own := rowFor_of_rowOf ofKey
      obtain rfl : key = ⟨row.id, metric⟩ := own.about.unique ⟨rfl, sameMetric⟩
      rw [own.bucketStartMs]
      refine ⟨aligned, ?_, left⟩
      rw [← values_readingsIn width pushes start ⟨row.id, metric⟩]
      exact List.ne_nil_of_mem own.describes.least.1
    · intro h
      rcases h with ⟨aligned, nonempty, left⟩
      have present
          : rowOf width host start ⟨id, metric⟩ (readingsIn width pushes start) ≠ none := by
        intro absent
        rw [rowOf_eq_none_iff] at absent
        rw [← values_readingsIn width pushes start ⟨id, metric⟩, absent] at nonempty
        exact nonempty rfl
      obtain ⟨row, ofKey⟩ := Option.ne_none_iff_exists'.mp present
      have own := rowFor_of_rowOf ofKey
      refine ⟨row, ?_, own.bucketStartMs, own.id, own.metric⟩
      exact (mem_flatten_outputs_iff positive host chronological).mpr
        ⟨start, _, aligned, left, ofKey⟩
  · intro k rows emitted row member
    obtain ⟨start, key, first, aligned, ofKey⟩ :=
      (mem_outputs_iff positive host chronological emitted).mp member
    have own := rowFor_of_rowOf ofKey
    have describes := own.describes
    rw [values_readingsIn, ← own.id, ← own.bucketStartMs] at describes
    refine ⟨key.metric, own.metric, own.bucketStartMs ▸ first, describes, ?_⟩
    rw [describes.samples, u32Max]
    have := few row.bucketStartMs row.id key.metric
    omega

/-- Pushing never fails; in time order the emitted rows are exactly the rollups of the buckets
left behind, and in any order no value is lost or counted twice. Witness: the open bucket holds
the readings since the last flush, by induction on the snapshots.
-/
theorem rolls_up (bucketSecs : ℕ) (noOverflow : max bucketSecs 1 * 1000 < 2 ^ 64)
    (host : String) (pushes : List Snapshot)
    : ∃ final flushes,
        (Bucketer.new bucketSecs host).pushAll pushes = some (final, flushes)
        ∧ flushes.length = pushes.length
        ∧ (Chronological pushes
            → (∀ start id (metric : Metric),
              (bucketValues (max bucketSecs 1 * 1000) pushes start id metric).length < 2 ^ 32)
            → RollsUp (max bucketSecs 1 * 1000) pushes flushes)
        ∧ Conserves pushes final flushes := by
  have positive : 0 < max bucketSecs 1 * 1000 := by omega
  have start : Bucketer.new bucketSecs host = fresh (max bucketSecs 1 * 1000) host := by
    simp only [Bucketer.new, fresh, Nat.mod_eq_of_lt noOverflow]
  obtain ⟨current, readings, invariant⟩ := runInvariant (max bucketSecs 1 * 1000) host pushes
  refine ⟨_, _, by rw [start]; exact pushAll_eq (holds_fresh _ host) positive pushes,
    Transducer.length_outputs _ _ pushes, ?_, ?_⟩
  · exact rollsUp_of_chronological positive host
  · refine ⟨?_, invariant.shared, invariant.increasing⟩
    intro id metric
    obtain ⟨parts, described, split⟩ := invariant.counted ⟨id, metric⟩
    refine ⟨parts, described, ?_⟩
    rw [invariant.holds.buffered_eq, split]

/-- A container that reports a CPU value only. -/
private def cpuContainer (cpu : ℚ) : ContainerMetrics :=
  {
    id := "x", name := "c-x", image := "img", state := .running, status := "Up"
    health := .none, stack := some "stack", cpuPercent := some cpu, memUsed := none
    memLimit := none, netRxBps := none, netTxBps := none, diskReadBps := none
    diskWriteBps := none, ports := []
  }

/-- Two samples of one minute and one of the next. -/
private def crossingPushes : List Snapshot :=
  [⟨60000, [cpuContainer 2]⟩, ⟨90000, [cpuContainer 8]⟩, ⟨125000, [cpuContainer 5]⟩]

theorem crossing_rolls_up
    : ∃ final flushes,
        (Bucketer.new 60 "local").pushAll crossingPushes = some (final, flushes)
        ∧ RollsUp 60000 crossingPushes flushes
        ∧ Conserves crossingPushes final flushes := by
  have single (snap : Snapshot) (member : snap ∈ crossingPushes) (id : String) (metric : Metric)
      : (snap.values id metric).length ≤ 1 := by
    refine (List.length_filterMap_le _ _).trans ((List.length_filter_le _ _).trans ?_)
    fin_cases member <;> exact le_rfl
  obtain ⟨final, flushes, ran, _, rolled, conserved⟩ :=
    rolls_up 60 (by norm_num) "local" crossingPushes
  refine ⟨final, flushes, ran, rolled ?_ ?_, conserved⟩
  · simp [Chronological, crossingPushes]
  · intro start id metric
    rw [bucketValues, List.length_flatMap]
    refine (List.sum_le_card_nsmul _ 1 ?_).trans_lt ?_
    · simp only [List.forall_mem_map]
      exact fun snap kept => single snap (List.mem_of_mem_filter kept) id metric
    · rw [List.length_map, smul_eq_mul, mul_one]
      exact (List.length_filter_le _ crossingPushes).trans_lt (by decide)

end Bucketer

end DockDoe
