import DockDoe.Model.Bucketer

/-! What a bucketer holds and emits, told from the readings pushed into it. An accumulator
is determined by its key's readings since the last flush; along a run in time order these
are the readings of one bucket.
-/

namespace DockDoe

open OrderStatistics

/-- The row's min, max, median and sample count are those of the values. -/
structure ContainerTrend.Describes (row : ContainerTrend) (values : List ℚ) : Prop where
  least : IsLeast {value | value ∈ values} row.min
  greatest : IsGreatest {value | value ∈ values} row.max
  median : IsMedian values row.median
  samples : row.samples = Min.min values.length u32Max

/-- The statistics of a nonempty list are its extremes, its median and its length. Witness: the
sorted list is a permutation whose ends are the extremes.
-/
theorem Stats.ofValues_spec {values : List ℚ} (nonempty : values ≠ [])
    : ∃ stats,
        Stats.ofValues values = some stats
        ∧ IsLeast {value | value ∈ values} stats.min
        ∧ IsGreatest {value | value ∈ values} stats.max
        ∧ IsMedian values stats.median
        ∧ stats.count = Min.min values.length u32Max := by
  have perm : (values.insertionSort (fun left right => left ≤ right)).Perm values :=
    List.perm_insertionSort _ values
  have ascending := List.pairwise_insertionSort (fun left right : ℚ => left ≤ right) values
  have length := perm.length_eq
  have positive : 0 < values.length := List.length_pos_of_ne_nil nonempty
  refine ⟨_, by rw [Stats.ofValues, if_neg (by simpa using nonempty)], ?_⟩
  generalize values.insertionSort (fun left right => left ≤ right) = sorted at *
  have read {i : ℕ} (within : i < values.length) : sorted[i]? = some (sorted.getD i 0) := by
    rw [List.getD_eq_getElem?_getD, List.getElem?_eq_getElem (by omega), Option.getD_some]
  refine ⟨isLeast_of_sorted perm ascending (read positive),
    isGreatest_of_sorted perm ascending (read (by omega)),
    ⟨sorted, perm, ascending, ?_, ?_⟩, by rw [length]⟩
  · intro odd
    rw [read (by omega), medianOfSorted, length, if_pos odd]
  · intro even
    refine ⟨_, _, read (by omega), read (by omega), ?_⟩
    rw [medianOfSorted, length, if_neg (by omega)]

/-- The accumulator that readings of one key end up in. -/
def ContainerAcc.ofReadings : List Reading → Option ContainerAcc
  | [] => none
  | head :: rest =>
      some {
        name := head.container.name
        stack := head.container.stack
        values := (head :: rest).map Reading.value
      }

/-- The readings of one accumulator, in the order they were pushed. -/
def readingsOf (key : AccKey) (readings : List Reading) : List Reading :=
  KeyedFolds.under Reading.key key readings

/-- Recording readings into an accumulator appends their values. -/
private theorem foldl_record (acc : ContainerAcc) (readings : List Reading)
    : readings.foldl (fun old reading => some (ContainerAcc.record old reading)) (some acc)
      = some { acc with values := acc.values ++ readings.map Reading.value } := by
  induction readings generalizing acc with
  | nil => simp
  | cons head rest ih =>
      have later := ih (ContainerAcc.record (some acc) head)
      simpa [ContainerAcc.record] using later

/-- Starting from nothing, an accumulator is that of its key's readings: other keys leave it
alone.
-/
theorem getElem?_accumulate (readings : List Reading) (key : AccKey)
    : (accumulate ∅ readings)[key]? = ContainerAcc.ofReadings (readingsOf key readings) := by
  rw [accumulate, KeyedFolds.getElem?_foldAll, Std.ExtTreeMap.getElem?_empty]
  change (readingsOf key readings).foldl _ none = _
  cases readingsOf key readings with
  | nil => rfl
  | cons head rest =>
      rw [List.foldl_cons, foldl_record]
      simp [ContainerAcc.record, ContainerAcc.ofReadings]

/-- The row that the readings of one key give when their bucket is closed. -/
def Bucketer.rowOf (bucketMs : ℕ) (host : String) (start : ℕ) (key : AccKey)
    (readings : List Reading)
    : Option ContainerTrend :=
  (ContainerAcc.ofReadings (readingsOf key readings)).bind (trendRow bucketMs host start key)

/-- A row has the start of its bucket, the bucketer's host, and its accumulator's key and
first container; its numbers describe the accumulated values.
-/
structure Bucketer.RowFor (bucketMs : ℕ) (host : String) (start : ℕ) (key : AccKey)
    (readings : List Reading) (row : ContainerTrend)
    : Prop where
  bucketStartMs : row.bucketStartMs = start
  bucketSecs : row.bucketSecs = bucketMs / 1000
  host : row.host = host
  id : row.id = key.id
  metric : row.metric = key.metric.asStr
  name : ∃ reading ∈ readingsOf key readings, row.name = reading.container.name
  describes : row.Describes ((readingsOf key readings).map Reading.value)

/-- An accumulator has no row only where it has no readings, by the cases of an empty list. -/
theorem Bucketer.rowOf_eq_none_iff {bucketMs : ℕ} {host : String} {start : ℕ} {key : AccKey}
    {readings : List Reading}
    : rowOf bucketMs host start key readings = none ↔ readingsOf key readings = [] := by
  unfold rowOf
  cases readingsOf key readings with
  | nil => simp [ContainerAcc.ofReadings]
  | cons head rest =>
      obtain ⟨stats, found, _⟩ := @Stats.ofValues_spec ((head :: rest).map Reading.value) (by simp)
      simp only [ContainerAcc.ofReadings, Option.bind_some, trendRow, found, Option.map_some]
      simp

/-- The row of an accumulator describes the readings that went into it, by the statistics of a
nonempty list.
-/
theorem Bucketer.rowFor_of_rowOf {bucketMs : ℕ} {host : String} {start : ℕ} {key : AccKey}
    {readings : List Reading} {row : ContainerTrend}
    (emitted : rowOf bucketMs host start key readings = some row)
    : RowFor bucketMs host start key readings row := by
  unfold rowOf at emitted
  cases members : readingsOf key readings with
  | nil =>
      rw [members] at emitted
      cases emitted
  | cons head rest =>
      obtain ⟨stats, found, least, greatest, median, count⟩ :=
        @Stats.ofValues_spec ((head :: rest).map Reading.value) (by simp)
      rw [members] at emitted
      simp only [ContainerAcc.ofReadings, Option.bind_some, trendRow, found, Option.map_some,
        Option.some.injEq] at emitted
      subst emitted
      refine ⟨rfl, rfl, rfl, rfl, rfl, ?_, ?_⟩
      · exact ⟨head, by simp [members], rfl⟩
      · rw [members]
        exact ⟨least, greatest, median, count⟩

-----------------------------------------------------------------------------------------
-- One push
-----------------------------------------------------------------------------------------

/-- The row is about the accumulator's container and metric. -/
def ContainerTrend.About (row : ContainerTrend) (key : AccKey) : Prop :=
  row.id = key.id ∧ row.metric = key.metric.asStr

instance (row : ContainerTrend) (key : AccKey) : Decidable (row.About key) :=
  inferInstanceAs (Decidable (_ ∧ _))

/-- A row is about one accumulator only: metrics have different names. -/
theorem ContainerTrend.About.unique {row : ContainerTrend} {left right : AccKey}
    (leftOwn : row.About left) (rightOwn : row.About right)
    : left = right := by
  have metric : some left.metric = some right.metric := by
    rw [← Metric.ofStr?_asStr, ← leftOwn.2, rightOwn.2, Metric.ofStr?_asStr]
  rcases left with ⟨id, leftMetric⟩
  rcases right with ⟨otherId, rightMetric⟩
  obtain rfl : id = otherId := leftOwn.1.symm.trans rightOwn.1
  obtain rfl : leftMetric = rightMetric := Option.some.inj metric
  rfl

theorem Bucketer.RowFor.about {bucketMs : ℕ} {host : String} {start : ℕ} {key : AccKey}
    {readings : List Reading} {row : ContainerTrend}
    (own : RowFor bucketMs host start key readings row)
    : row.About key :=
  ⟨own.id, own.metric⟩

namespace Bucketer

/-- The rows a bucketer emits when it closes a bucket filled with some readings. -/
def closeRows (bucketMs : ℕ) (host : String) (start : ℕ) (readings : List Reading)
    : List ContainerTrend :=
  (accumulate ∅ readings).toList.filterMap (fun entry =>
    trendRow bucketMs host start entry.1 entry.2)

/-- A closed bucket has one row for every accumulator with readings, by looking the accumulators
up.
-/
theorem mem_closeRows_iff {bucketMs : ℕ} {host : String} {start : ℕ} {readings : List Reading}
    {row : ContainerTrend}
    : row ∈ closeRows bucketMs host start readings
      ↔ ∃ key, rowOf bucketMs host start key readings = some row := by
  rw [closeRows, List.mem_filterMap]
  constructor
  · intro h
    rcases h with ⟨⟨key, acc⟩, held, emitted⟩
    have found := KeyedFolds.mem_toList_iff.mp held
    rw [getElem?_accumulate] at found
    exact ⟨key, Option.bind_eq_some_iff.mpr ⟨acc, found, emitted⟩⟩
  · intro h
    rcases h with ⟨key, emitted⟩
    obtain ⟨acc, found, emitted⟩ := Option.bind_eq_some_iff.mp emitted
    rw [← getElem?_accumulate] at found
    exact ⟨(key, acc), KeyedFolds.mem_toList_iff.mpr found, emitted⟩

/-- The rows of a closed bucket are about distinct accumulators, as the keys of a map are
distinct.
-/
theorem closeRows_distinct (bucketMs : ℕ) (host : String) (start : ℕ) (readings : List Reading)
    : (closeRows bucketMs host start readings).Pairwise
        (fun left right => ¬ (left.id = right.id ∧ left.metric = right.metric)) := by
  have about {key : AccKey} {acc : ContainerAcc} {row : ContainerTrend}
      (emitted : trendRow bucketMs host start key acc = some row)
      : row.About key := by
    obtain ⟨stats, _, rfl⟩ := Option.map_eq_some_iff.mp emitted
    exact ⟨rfl, rfl⟩
  refine List.Pairwise.filterMap _ ?_ (KeyedFolds.toList_ascending (accumulate ∅ readings))
  intro left right less row emitted other otherEmitted same
  have shared : row.About right.1 :=
    ⟨same.1.trans (about otherEmitted).1, same.2.trans (about otherEmitted).2⟩
  exact less.ne ((about emitted).unique shared)

/-- The row of one accumulator, picked out of its closed bucket: the rows are distinct, and each
is about its own accumulator.
-/
theorem filter_closeRows (bucketMs : ℕ) (host : String) (start : ℕ) (readings : List Reading)
    (key : AccKey)
    : (closeRows bucketMs host start readings).filter (fun row => row.About key)
      = (rowOf bucketMs host start key readings).toList := by
  have nodup : (closeRows bucketMs host start readings).Nodup :=
    (closeRows_distinct bucketMs host start readings).imp
      (fun differ same =>
        differ ⟨congrArg ContainerTrend.id same, congrArg ContainerTrend.metric same⟩)
  have owner {row : ContainerTrend} (member : row ∈ closeRows bucketMs host start readings)
      (own : row.About key)
      : rowOf bucketMs host start key readings = some row := by
    obtain ⟨other, emitted⟩ := mem_closeRows_iff.mp member
    rwa [own.unique (rowFor_of_rowOf emitted).about]
  cases emitted : rowOf bucketMs host start key readings with
  | none =>
      refine List.filter_eq_nil_iff.mpr (fun row member own => ?_)
      rw [owner member (of_decide_eq_true own)] at emitted
      cases emitted
  | some row =>
      have member := mem_closeRows_iff.mpr ⟨key, emitted⟩
      have only : ∀ other ∈ closeRows bucketMs host start readings,
          decide (other.About key) = decide (other = row) := by
        intro other inRows
        refine decide_eq_decide.mpr ⟨fun own => ?_, ?_⟩
        · exact Option.some.inj ((owner inRows own).symm.trans emitted)
        · intro equal
          subst equal
          exact (rowFor_of_rowOf emitted).about
      rw [List.filter_congr only, List.filter_eq, List.count_eq_one_of_mem nodup member]
      rfl

variable {width : ℕ}

/-- A timestamp's bucket starts at the multiple of the width that it reaches, by division with
remainder.
-/
theorem bucketStart_eq_iff (positive : 0 < width) {ts start : ℕ}
    : bucketStart width ts = start ↔ width ∣ start ∧ start ≤ ts ∧ ts < start + width := by
  have remainder := Nat.mod_lt ts positive
  have split := Nat.mod_add_div ts width
  unfold bucketStart
  constructor
  · intro same
    subst same
    exact ⟨Nat.dvd_sub_mod ts, by omega, by omega⟩
  · intro h
    rcases h with ⟨⟨q, rfl⟩, reached, within⟩
    have quotient : ts / width = q := by
      refine (Nat.div_eq_iff positive).mpr ⟨?_, ?_⟩
      · rw [Nat.mul_comm]
        exact reached
      · rw [Nat.mul_comm] at within
        omega
    rw [quotient] at split
    omega

theorem bucketStart_spec (positive : 0 < width) (ts : ℕ)
    : width ∣ bucketStart width ts
      ∧ bucketStart width ts ≤ ts
      ∧ ts < bucketStart width ts + width :=
  (bucketStart_eq_iff positive).mp rfl

/-- Later timestamps fall into the same or a later bucket. -/
theorem bucketStart_mono {ts later : ℕ} (le : ts ≤ later)
    : bucketStart width ts ≤ bucketStart width later := by
  have tsSplit := Nat.mod_add_div ts width
  have laterSplit := Nat.mod_add_div later width
  have quotients := Nat.mul_le_mul_left width (Nat.div_le_div_right (c := width) le)
  unfold bucketStart
  omega

/-- A timestamp of an earlier bucket lies before the later one's start, for a start that it
reached would be its own bucket's.
-/
theorem lt_bucketStart_of_lt (positive : 0 < width) {ts later : ℕ}
    (less : bucketStart width ts < bucketStart width later)
    : ts < bucketStart width later := by
  obtain ⟨tsAligned, _, within⟩ := bucketStart_spec positive ts
  obtain ⟨laterAligned, _⟩ := bucketStart_spec positive later
  by_contra reached
  have notBeyond : bucketStart width later ≤ bucketStart width ts :=
    Nat.le_of_lt_add_of_dvd ((not_lt.mp reached).trans_lt within) laterAligned tsAligned
  omega

/-- A timestamp's bucket lies beyond a bucket once the timestamp does, for starts are whole
widths apart.
-/
theorem lt_bucketStart_iff (positive : 0 < width) {start ts : ℕ} (aligned : width ∣ start)
    : start < bucketStart width ts ↔ start + width ≤ ts := by
  obtain ⟨startAligned, reached, within⟩ := bucketStart_spec positive ts
  constructor
  · intro less
    refine le_trans (Nat.le_of_lt_add_of_dvd ?_ (aligned.add (dvd_refl width)) startAligned) reached
    omega
  · intro beyond
    omega

/-- The bucketer before any push. -/
def fresh (width : ℕ) (host : String) : Bucketer :=
  { bucketMs := width, host, currentStart := none, containers := ∅ }

/-- The bucketer has this width and host, this open bucket, and these readings in it. -/
structure Holds (b : Bucketer) (width : ℕ) (host : String) (current : Option ℕ)
    (readings : List Reading)
    : Prop where
  bucketMs : b.bucketMs = width
  host : b.host = host
  currentStart : b.currentStart = current
  containers : b.containers = accumulate ∅ readings

variable {b : Bucketer} {host : String} {current : Option ℕ} {readings : List Reading}
  {snap : Snapshot}

theorem holds_fresh (width : ℕ) (host : String) : (fresh width host).Holds width host none [] :=
  ⟨rfl, rfl, rfl, rfl⟩

/-- A push into a bucket that is not before the open one's end adds its readings to it, by the
cases of an open bucket and none.
-/
theorem Holds.feed_stays (holds : b.Holds width host current readings)
    (stays : ∀ cur ∈ current, bucketStart width snap.tsMs ≤ cur)
    : (b.feed snap).1.Holds width host
          (some (current.getD (bucketStart width snap.tsMs))) (readings ++ snap.readings)
        ∧ (b.feed snap).2 = [] := by
  obtain ⟨rfl, rfl, rfl, contents⟩ := holds
  have added
      : accumulate b.containers snap.readings = accumulate ∅ (readings ++ snap.readings) := by
    rw [contents, accumulate, accumulate, accumulate, KeyedFolds.foldAll_append]
  cases open? : b.currentStart with
  | none =>
      refine ⟨⟨?_, ?_, ?_, ?_⟩, ?_⟩ <;> simp [feed, open?, added]
  | some cur =>
      have bound : ¬ cur < bucketStart b.bucketMs snap.tsMs := not_lt.mpr (stays cur open?)
      refine ⟨⟨?_, ?_, ?_, ?_⟩, ?_⟩ <;> simp [feed, open?, bound, added]

/-- A push beyond the open bucket emits that bucket's rows and starts over. -/
theorem Holds.feed_closes {cur : ℕ} (holds : b.Holds width host (some cur) readings)
    (beyond : cur < bucketStart width snap.tsMs)
    : (b.feed snap).1.Holds width host (some (bucketStart width snap.tsMs)) snap.readings
      ∧ (b.feed snap).2 = closeRows width host cur readings := by
  obtain ⟨rfl, rfl, current, contents⟩ := holds
  refine ⟨⟨?_, ?_, ?_, ?_⟩, ?_⟩ <;> simp [feed, current, beyond, close, contents, closeRows]

/-- A bucketer of positive width never fails: its pushes are the runs of `feed`, by induction on
the pushes.
-/
theorem pushAll_eq (holds : b.Holds width host current readings) (positive : 0 < width)
    (pushes : List Snapshot)
    : b.pushAll pushes
      = some (Transducer.after feed b pushes, Transducer.outputs feed b pushes) := by
  induction pushes generalizing b current readings with
  | nil => rfl
  | cons snap rest ih =>
      have next : ∃ current' readings', (b.feed snap).1.Holds width host current' readings' := by
        by_cases stays : ∀ cur ∈ current, bucketStart width snap.tsMs ≤ cur
        · exact ⟨_, _, (holds.feed_stays stays).1⟩
        · push Not at stays
          obtain ⟨cur, rfl, beyond⟩ := stays
          exact ⟨_, _, (holds.feed_closes beyond).1⟩
      obtain ⟨current', readings', holds'⟩ := next
      have nonzero : b.bucketMs ≠ 0 := by
        rw [holds.bucketMs]
        exact positive.ne'
      simp only [pushAll, push, if_neg nonzero, bind, Option.bind, ih holds']
      rfl

-----------------------------------------------------------------------------------------
-- Runs in time order
-----------------------------------------------------------------------------------------

/-- The pushes do not go back in time. -/
def Chronological (pushes : List Snapshot) : Prop :=
  pushes.Pairwise (fun earlier later => earlier.tsMs ≤ later.tsMs)

/-- The push at position `k` is the first one beyond the end of the bucket. -/
def FirstBeyond (width : ℕ) (pushes : List Snapshot) (start k : ℕ) : Prop :=
  (∃ snap, pushes[k]? = some snap ∧ start + width ≤ snap.tsMs)
  ∧ ∀ earlier ∈ pushes.take k, earlier.tsMs < start + width

/-- The readings pushed with a timestamp of the bucket. -/
def readingsIn (width : ℕ) (pushes : List Snapshot) (start : ℕ) : List Reading :=
  (pushes.filter (fun snap => start ≤ snap.tsMs ∧ snap.tsMs < start + width)).flatMap
    Snapshot.readings

/-- The readings of the last push's bucket. -/
def openReadings (width : ℕ) (pushes : List Snapshot) : List Reading :=
  (pushes.getLast?.map (fun last => readingsIn width pushes (bucketStart width last.tsMs))).getD []

theorem readingsIn_append (width : ℕ) (left right : List Snapshot) (start : ℕ)
    : readingsIn width (left ++ right) start
      = readingsIn width left start ++ readingsIn width right start := by
  simp only [readingsIn, List.filter_append, List.flatMap_append]

theorem readingsIn_eq_nil {pushes : List Snapshot} {start : ℕ}
    (outside : ∀ snap ∈ pushes, snap.tsMs < start ∨ start + width ≤ snap.tsMs)
    : readingsIn width pushes start = [] := by
  have none : pushes.filter (fun snap => start ≤ snap.tsMs ∧ snap.tsMs < start + width) = [] := by
    refine List.filter_eq_nil_iff.mpr (fun snap member => ?_)
    rcases outside snap member with before | beyond <;> simp <;> omega
  rw [readingsIn, none, List.flatMap_nil]

theorem readingsIn_singleton {snap : Snapshot} {start : ℕ} (reached : start ≤ snap.tsMs)
    (within : snap.tsMs < start + width)
    : readingsIn width [snap] start = snap.readings := by
  simp [readingsIn, reached, within]

theorem Chronological.le_last {pushes : List Snapshot} (chronological : Chronological pushes)
    {last other : Snapshot} (found : pushes.getLast? = some last) (member : other ∈ pushes)
    : other.tsMs ≤ last.tsMs := by
  obtain ⟨before, rfl⟩ := List.getLast?_eq_some_iff.mp found
  rcases List.mem_append.mp member with earlier | same
  · exact (List.pairwise_append.mp chronological).2.2 other earlier last
      (List.mem_singleton_self last)
  · exact (List.mem_singleton.mp same) ▸ le_rfl

/-- A run in time order leaves the last push's bucket open, with that bucket's readings.
Witness: induction on the pushes; one into the open bucket joins its readings, one beyond
it finds no earlier push in its own bucket.
-/
theorem holds_after (positive : 0 < width) (host : String) {pushes : List Snapshot}
    (chronological : Chronological pushes)
    : (Transducer.after feed (fresh width host) pushes).Holds width host
        (pushes.getLast?.map (fun last => bucketStart width last.tsMs))
        (openReadings width pushes) := by
  induction pushes using List.reverseRecOn with
  | nil => exact holds_fresh width host
  | append_singleton pushes snap ih =>
      obtain ⟨earlier, _, order⟩ := List.pairwise_append.mp chronological
      have before := ih earlier
      obtain ⟨_, reached, within⟩ := bucketStart_spec positive snap.tsMs
      have own := readingsIn_singleton reached within
      rw [Transducer.after_append]
      simp only [openReadings, List.getLast?_concat, Option.map_some, Option.getD_some,
        readingsIn_append, own]
      change ((Transducer.after feed (fresh width host) pushes).feed snap).1.Holds _ _ _ _
      cases found : pushes.getLast? with
      | none =>
          obtain rfl := List.getLast?_eq_none_iff.mp found
          exact (before.feed_stays (by simp)).1
      | some last =>
          simp only [openReadings, found, Option.map_some, Option.getD_some] at before
          have lastLe : last.tsMs ≤ snap.tsMs :=
            order last (List.mem_of_getLast? found) snap (List.mem_singleton_self snap)
          have mono : bucketStart width last.tsMs ≤ bucketStart width snap.tsMs :=
            bucketStart_mono lastLe
          rcases mono.lt_or_eq with beyond | same
          · -- No earlier push reaches the new bucket, so only this one's readings are in it.
            have fresh : readingsIn width pushes (bucketStart width snap.tsMs) = [] :=
              readingsIn_eq_nil (fun other member =>
                Or.inl ((Chronological.le_last earlier found member).trans_lt
                  (lt_bucketStart_of_lt positive beyond)))
            rw [fresh]
            exact (before.feed_closes beyond).1
          · rw [same] at before
            exact (before.feed_stays (by simp)).1

/-- In a run in time order a push splits it into earlier and later pushes, as pairs of a sorted
list are in order.
-/
theorem Chronological.split {pushes : List Snapshot} (chronological : Chronological pushes)
    {k : ℕ} {snap : Snapshot} (found : pushes[k]? = some snap)
    : pushes = pushes.take k ++ pushes.drop k
      ∧ (∀ other ∈ pushes.take k, other.tsMs ≤ snap.tsMs)
      ∧ ∀ other ∈ pushes.drop k, snap.tsMs ≤ other.tsMs := by
  obtain ⟨within, rfl⟩ := List.getElem?_eq_some_iff.mp found
  have whole := (List.take_append_drop k pushes).symm
  have rest := List.drop_eq_getElem_cons within
  have pairs := chronological
  rw [whole, rest] at pairs
  obtain ⟨_, later, order⟩ := List.pairwise_append.mp pairs
  refine ⟨whole, fun other member => order other member _ List.mem_cons_self, ?_⟩
  intro other member
  rw [rest] at member
  rcases List.mem_cons.mp member with same | after
  · exact same ▸ le_rfl
  · exact List.rel_of_pairwise_cons later after

/-- The readings of a bucket have all been pushed before the first push beyond it. -/
theorem readingsIn_take {pushes : List Snapshot} (chronological : Chronological pushes)
    {start k : ℕ} (first : FirstBeyond width pushes start k)
    : readingsIn width (pushes.take k) start = readingsIn width pushes start := by
  obtain ⟨⟨snap, found, beyond⟩, _⟩ := first
  obtain ⟨whole, _, later⟩ := chronological.split found
  have none : readingsIn width (pushes.drop k) start = [] :=
    readingsIn_eq_nil (fun other member => Or.inr (beyond.trans (later other member)))
  conv_rhs => rw [whole, readingsIn_append, none, List.append_nil]

/-- Each push of a run in time order emits exactly the rows of the bucket that it is the first to
lie beyond. Witness: before it the open bucket is that of the push before, with the readings of
its own pushes.
-/
theorem mem_outputs_iff (positive : 0 < width) (host : String) {pushes : List Snapshot}
    (chronological : Chronological pushes) {k : ℕ} {rows : List ContainerTrend}
    (emitted : (Transducer.outputs feed (fresh width host) pushes)[k]? = some rows)
    {row : ContainerTrend}
    : row ∈ rows
      ↔ ∃ start key,
        FirstBeyond width pushes start k
        ∧ width ∣ start
        ∧ rowOf width host start key (readingsIn width pushes start) = some row := by
  rw [Transducer.getElem?_outputs] at emitted
  obtain ⟨snap, found, rfl⟩ := Option.map_eq_some_iff.mp emitted
  obtain ⟨whole, earlier, later⟩ := chronological.split found
  have before := holds_after positive host (chronological.sublist (List.take_sublist k pushes))
  cases last? : (pushes.take k).getLast? with
  | none =>
      rw [last?] at before
      have stays : ∀ cur ∈ (none : Option ℕ), bucketStart width snap.tsMs ≤ cur := by simp
      have silent := (before.feed_stays stays).2
      rw [silent]
      refine ⟨fun member => absurd member List.not_mem_nil, ?_⟩
      intro h
      rcases h with ⟨start, key, first, _, emitted⟩
      rw [← readingsIn_take chronological first, List.getLast?_eq_none_iff.mp last?] at emitted
      cases emitted
  | some last =>
      obtain ⟨aligned, reached, within⟩ := bucketStart_spec positive last.tsMs
      simp only [openReadings, last?, Option.map_some, Option.getD_some] at before
      have lastMember := List.mem_of_getLast? last?
      have lastLatest {other : Snapshot} (member : other ∈ pushes.take k)
          : other.tsMs ≤ last.tsMs :=
        Chronological.le_last (chronological.sublist (List.take_sublist k pushes)) last? member
      constructor
      · intro member
        rcases Nat.lt_or_ge (bucketStart width last.tsMs) (bucketStart width snap.tsMs)
          with beyond | stays
        · rw [(before.feed_closes beyond).2] at member
          obtain ⟨key, ofKey⟩ := mem_closeRows_iff.mp member
          have first : FirstBeyond width pushes (bucketStart width last.tsMs) k :=
            ⟨⟨snap, found, (lt_bucketStart_iff positive aligned).mp beyond⟩,
              fun other member => (lastLatest member).trans_lt within⟩
          rw [readingsIn_take chronological first] at ofKey
          exact ⟨_, key, first, aligned, ofKey⟩
        · rw [(before.feed_stays (by simpa using stays)).2] at member
          exact absurd member List.not_mem_nil
      · intro h
        rcases h with ⟨start, key, first, startAligned, ofKey⟩
        -- A reading of the bucket was pushed before, so the last push is in the bucket too.
        have own : bucketStart width last.tsMs = start := by
          rw [bucketStart_eq_iff positive]
          refine ⟨startAligned, ?_, first.2 last lastMember⟩
          by_contra notReached
          have none : readingsIn width (pushes.take k) start = [] :=
            readingsIn_eq_nil (fun other member => Or.inl (by
              have := lastLatest member
              omega))
          rw [← readingsIn_take chronological first, none] at ofKey
          cases ofKey
        obtain ⟨other, found', beyond⟩ := first.1
        obtain rfl : snap = other := Option.some.inj (found.symm.trans found')
        rw [own] at before
        rw [(before.feed_closes ((lt_bucketStart_iff positive startAligned).mpr beyond)).2,
          mem_closeRows_iff, readingsIn_take chronological first]
        exact ⟨key, ofKey⟩

/-- A bucket that a push lies beyond has a first such push, by searching from the first index on. -/
theorem exists_firstBeyond {pushes : List Snapshot} {start : ℕ} {later : Snapshot}
    (member : later ∈ pushes) (beyond : start + width ≤ later.tsMs)
    : ∃ k, FirstBeyond width pushes start k := by
  have exists_beyond : ∃ k : ℕ, ∃ snap, pushes[k]? = some snap ∧ start + width ≤ snap.tsMs := by
    obtain ⟨k, found⟩ := List.getElem?_of_mem member
    exact ⟨k, later, found, beyond⟩
  refine ⟨Nat.find exists_beyond, Nat.find_spec exists_beyond, fun earlier inTake => ?_⟩
  by_contra notBefore
  obtain ⟨i, found⟩ := List.getElem?_of_mem inTake
  rw [List.getElem?_take] at found
  split at found
  · rename_i less
    exact Nat.find_min exists_beyond less ⟨earlier, found, not_lt.mp notBefore⟩
  · cases found

/-- A run in time order emits the rows of exactly the buckets that a push lies beyond, each at
the first such push.
-/
theorem mem_flatten_outputs_iff (positive : 0 < width) (host : String) {pushes : List Snapshot}
    (chronological : Chronological pushes) {row : ContainerTrend}
    : row ∈ (Transducer.outputs feed (fresh width host) pushes).flatten
      ↔ ∃ start key,
        width ∣ start
        ∧ (∃ later ∈ pushes, start + width ≤ later.tsMs)
        ∧ rowOf width host start key (readingsIn width pushes start) = some row := by
  rw [List.mem_flatten]
  constructor
  · intro h
    rcases h with ⟨rows, inFlushes, inRows⟩
    obtain ⟨k, emitted⟩ := List.getElem?_of_mem inFlushes
    obtain ⟨start, key, first, aligned, ofKey⟩ :=
      (mem_outputs_iff positive host chronological emitted).mp inRows
    obtain ⟨snap, found, beyond⟩ := first.1
    exact ⟨start, key, aligned, ⟨snap, List.mem_of_getElem? found, beyond⟩, ofKey⟩
  · intro h
    rcases h with ⟨start, key, aligned, ⟨later, member, beyond⟩, ofKey⟩
    obtain ⟨k, first⟩ := exists_firstBeyond member beyond
    obtain ⟨snap, found, _⟩ := first.1
    obtain ⟨rows, emitted⟩
        : ∃ rows, (Transducer.outputs feed (fresh width host) pushes)[k]? = some rows :=
      ⟨_, by rw [Transducer.getElem?_outputs, found, Option.map_some]⟩
    exact ⟨rows, List.mem_of_getElem? emitted,
      (mem_outputs_iff positive host chronological emitted).mpr ⟨start, key, first, aligned, ofKey⟩⟩

end Bucketer

end DockDoe
