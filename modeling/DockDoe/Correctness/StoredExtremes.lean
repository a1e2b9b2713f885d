import DockDoe.Correctness.PivotedEnvelopes

/-! The stored extremes of a key and metric are those of all its rollups, in whatever batches
they arrived. A bucket start is part of the key as it is stored, that is, saturated.
-/

namespace DockDoe

open Nullable

/-- All rollups of a stored key and metric in a sequence of batches. -/
def rollupsOf (batches : List (List ContainerTrend)) (key : StoredKey) (metric : Metric)
    : List ContainerTrend :=
  batches.flatten.filter (fun t => t.key.toStored = key ∧ t.metric = metric.asStr)

/-- The extreme columns are NULL without rollups, and otherwise the least minimum and the
greatest maximum of the rollups.
-/
structure ExtremesOf (columns : EnvelopeColumns) (rollups : List ContainerTrend) : Prop where
  minAbsent : columns.min = none ↔ rollups = []
  maxAbsent : columns.max = none ↔ rollups = []
  least : ∀ value ∈ columns.min, IsLeast {v | ∃ t ∈ rollups, t.min = v} value
  greatest : ∀ value ∈ columns.max, IsGreatest {v | ∃ t ∈ rollups, t.max = v} value

/-- The rollups of one metric among some writes. -/
def metricRollups (metric : Metric) (writes : List Write) : List ContainerTrend :=
  ofMetric metric (writes.flatMap Write.rollups)

theorem metricRollups_cons (metric : Metric) (write : Write) (rest : List Write)
    : metricRollups metric (write :: rest)
      = ofMetric metric write.rollups ++ metricRollups metric rest := by
  rw [metricRollups, List.flatMap_cons, ofMetric_append]
  rfl

theorem metricRollups_append (metric : Metric) (left right : List Write)
    : metricRollups metric (left ++ right)
      = metricRollups metric left ++ metricRollups metric right := by
  rw [metricRollups, List.flatMap_append, ofMetric_append]
  rfl

theorem metricRollups_concat (metric : Metric) (writes : List Write) (write : Write)
    : metricRollups metric (writes ++ [write])
      = metricRollups metric writes ++ ofMetric metric write.rollups := by
  rw [metricRollups_append, metricRollups_cons]
  exact congrArg (metricRollups metric writes ++ ·) (List.append_nil _)

theorem ofMetric_knownTo (key : StoredKey) (metric : Metric) (trends : List ContainerTrend)
    : ofMetric metric (knownTo key trends)
      = trends.filter (fun t => t.key.toStored = key ∧ t.metric = metric.asStr) := by
  have own := ofMetric_filter_known metric trends (fun t => decide (t.key.toStored = key))
  rw [knownTo]
  simpa only [decide_eq_true_eq] using own

theorem writesTo_append (key : StoredKey) (left right : List Write)
    : writesTo key (left ++ right) = writesTo key left ++ writesTo key right :=
  KeyedFolds.under_append Write.stored key left right

theorem writesTo_concat (key : StoredKey) (writes : List Write) (write : Write)
    : writesTo key (writes ++ [write])
      = if write.stored = key then writesTo key writes ++ [write] else writesTo key writes := by
  rw [writesTo_append, writesTo, writesTo, KeyedFolds.under_singleton]
  by_cases own : write.stored = key
  · rw [if_pos own, if_pos own]
  · rw [if_neg own, if_neg own, List.append_nil]

theorem writesTo_initial (key : StoredKey) {left right : List Write} (initial : left <+: right)
    : writesTo key left <+: writesTo key right :=
  initial.filter _

/-- The writes to a key carry exactly the rollups of that key, metric by metric. By induction on
the batches, whose writes are grouped by key.
-/
theorem metricRollups_perm (batches : List (List ContainerTrend)) (key : StoredKey)
    (metric : Metric)
    : (metricRollups metric (writesTo key (batches.flatMap writesOf))).Perm
        (rollupsOf batches key metric) := by
  induction batches with
  | nil => exact .refl []
  | cons trends rest ih =>
      have own := ((rollups_writesTo_perm key trends).filter (fun entry => entry.2 = metric)).map
        Prod.fst
      change (ofMetric metric _).Perm (ofMetric metric _) at own
      rw [ofMetric_knownTo] at own
      rw [List.flatMap_cons, writesTo_append, metricRollups_append, rollupsOf, List.flatten_cons,
        List.filter_append]
      exact own.append ih

/-- A write to a key comes from a rollup of that key, as no group is empty. -/
theorem exists_of_mem_writesTo {trends : List ContainerTrend} {key : StoredKey} {write : Write}
    (member : write ∈ writesTo key (writesOf trends))
    : ∃ t ∈ trends, t.key.toStored = key := by
  obtain ⟨ofTrends, sameKey⟩ := KeyedFolds.mem_under_iff.mp member
  obtain ⟨present, rollups⟩ := mem_writesOf.mp ofTrends
  obtain ⟨entry, inRollups⟩ := List.exists_mem_of_ne_nil _ present
  rw [rollups] at inRollups
  obtain ⟨inKnown, ownKey⟩ := KeyedFolds.mem_under_iff.mp inRollups
  obtain ⟨t, inTrends, isKnown⟩ := List.mem_filterMap.mp inKnown
  obtain ⟨slot, _, rfl⟩ := Option.map_eq_some_iff.mp isKnown
  refine ⟨t, inTrends, ?_⟩
  have keys : t.key = write.key := ownKey
  rw [keys]
  exact sameKey

/-- A key is written to as soon as one known rollup has it, which is then in the group of its
key.
-/
theorem writesTo_ne_nil_iff {batches : List (List ContainerTrend)} {key : StoredKey}
    (known : ∀ t ∈ batches.flatten, (Metric.ofStr? t.metric).isSome)
    : writesTo key (batches.flatMap writesOf) ≠ []
      ↔ ∃ t ∈ batches.flatten, t.key.toStored = key := by
  constructor
  · intro nonempty
    obtain ⟨write, member⟩ := List.exists_mem_of_ne_nil _ nonempty
    obtain ⟨inWrites, sameKey⟩ := KeyedFolds.mem_under_iff.mp member
    obtain ⟨trends, inBatches, ofTrends⟩ := List.mem_flatMap.mp inWrites
    obtain ⟨t, inTrends, ownKey⟩ :=
      exists_of_mem_writesTo (KeyedFolds.mem_under_iff.mpr ⟨ofTrends, sameKey⟩)
    exact ⟨t, List.mem_flatten.mpr ⟨trends, inBatches, inTrends⟩, ownKey⟩
  · intro h empty
    rcases h with ⟨t, member, sameKey⟩
    obtain ⟨metric, found⟩ := Option.isSome_iff_exists.mp (known t member)
    have perm := metricRollups_perm batches key metric
    rw [empty] at perm
    have inRollups : t ∈ rollupsOf batches key metric :=
      List.mem_filter.mpr ⟨member, by simp [sameKey, Metric.asStr_of_ofStr? found]⟩
    exact absurd (perm.mem_iff.mpr inRollups) List.not_mem_nil

/-- A metric's extreme columns, NULL where there is no row. -/
def minOf (metric : Metric) (row : Option TrendRow) : Option ℚ :=
  row.bind (fun row => (row.columns metric).min)

def maxOf (metric : Metric) (row : Option TrendRow) : Option ℚ :=
  row.bind (fun row => (row.columns metric).max)

/-- One write merges its own extremes into those stored. Absent columns are neutral on both
sides.
-/
theorem extremes_upsert (metric : Metric) (row : Option TrendRow) (write : Write)
    : minOf metric (some (TrendRow.upsert row write.row))
        = leastOf (minOf metric row)
          (minAgg ((ofMetric metric write.rollups).map (fun t => some t.min)))
      ∧ maxOf metric (some (TrendRow.upsert row write.row))
        = greatestOf (maxOf metric row)
          (maxAgg ((ofMetric metric write.rollups).map (fun t => some t.max))) := by
  obtain ⟨least, greatest⟩ := Envelope.extremes_ofRollups (ofMetric metric write.rollups)
  rw [← least, ← greatest, ← WideTrend.metrics_ofRollups]
  cases row with
  | none =>
      rw [minOf, maxOf, minOf, maxOf, Option.bind_none, Option.bind_none, leastOf_none_left,
        greatestOf_none_left]
      exact ⟨rfl, rfl⟩
  | some row => exact ⟨rfl, rfl⟩

/-- A row's extremes are those it started with and those of all rollups written to it.
Witness: induction on the writes; the extremes of a list in two parts are merged ones.
-/
theorem extremes_rowAfter (metric : Metric) (start : Option TrendRow) (writes : List Write)
    : minOf metric (rowAfter start writes)
        = leastOf (minOf metric start)
          (minAgg ((metricRollups metric writes).map (fun t => some t.min)))
      ∧ maxOf metric (rowAfter start writes)
        = greatestOf (maxOf metric start)
          (maxAgg ((metricRollups metric writes).map (fun t => some t.max))) := by
  induction writes using List.reverseRecOn with
  | nil => exact ⟨(leastOf_none_right _).symm, (greatestOf_none_right _).symm⟩
  | append_singleton writes write ih =>
      obtain ⟨least, greatest⟩ := ih
      obtain ⟨lower, upper⟩ := extremes_upsert metric (rowAfter start writes) write
      rw [rowAfter_append, metricRollups_concat, List.map_append, List.map_append,
        minAgg_append, maxAgg_append, ← leastOf_assoc, ← greatestOf_assoc, ← least, ← greatest]
      exact ⟨lower, upper⟩

/-- Merged extremes of a column are its own extreme values: an aggregate is absent for no values,
and attained and a bound otherwise.
-/
theorem extremesOf_aggregates {columns : EnvelopeColumns} {rollups : List ContainerTrend}
    (least : columns.min = minAgg (rollups.map (fun t => some t.min)))
    (greatest : columns.max = maxAgg (rollups.map (fun t => some t.max)))
    : ExtremesOf columns rollups := by
  refine ⟨?_, ?_, ?_, ?_⟩
  · rw [least, minAgg_eq_none_iff, List.eq_nil_iff_forall_not_mem]
    simp
  · rw [greatest, maxAgg_eq_none_iff, List.eq_nil_iff_forall_not_mem]
    simp
  · intro value found
    obtain ⟨member, bound⟩ := minAgg_eq_some_iff.mp (least.symm.trans found)
    refine ⟨by simpa using member, ?_⟩
    intro _ h
    rcases h with ⟨t, inRollups, rfl⟩
    exact bound t.min (List.mem_map_of_mem inRollups)
  · intro value found
    obtain ⟨member, bound⟩ := maxAgg_eq_some_iff.mp (greatest.symm.trans found)
    refine ⟨by simpa using member, ?_⟩
    intro _ h
    rcases h with ⟨t, inRollups, rfl⟩
    exact bound t.max (List.mem_map_of_mem inRollups)

/-- A rollup keeps both extreme columns present and lies between them. -/
theorem ExtremesOf.bounds {columns : EnvelopeColumns} {rollups : List ContainerTrend}
    (extremes : ExtremesOf columns rollups) {t : ContainerTrend} (member : t ∈ rollups)
    : (∃ l, columns.min = some l ∧ l ≤ t.min) ∧ ∃ h, columns.max = some h ∧ t.max ≤ h := by
  have nonempty := List.ne_nil_of_mem member
  obtain ⟨l, lowEq⟩ := Option.ne_none_iff_exists'.mp (nonempty ∘ extremes.minAbsent.mp)
  obtain ⟨h, highEq⟩ := Option.ne_none_iff_exists'.mp (nonempty ∘ extremes.maxAbsent.mp)
  exact ⟨⟨l, lowEq, (extremes.least l lowEq).2 ⟨t, member, rfl⟩⟩,
    h, highEq, (extremes.greatest h highEq).2 ⟨t, member, rfl⟩⟩

/-- The extremes do not depend on the order, since they are those of a set. -/
theorem ExtremesOf.perm {columns : EnvelopeColumns} {left right : List ContainerTrend}
    (perm : left.Perm right) (extremes : ExtremesOf columns left)
    : ExtremesOf columns right := by
  have same (v : ContainerTrend → ℚ) : {x | ∃ t ∈ left, v t = x} = {x | ∃ t ∈ right, v t = x} := by
    ext x
    simp only [Set.mem_ofPred_eq, perm.mem_iff]
  refine ⟨extremes.minAbsent.trans ?_, extremes.maxAbsent.trans ?_, ?_, ?_⟩
  · exact ⟨fun empty => (empty ▸ perm).nil_eq.symm, fun empty => (empty ▸ perm).eq_nil⟩
  · exact ⟨fun empty => (empty ▸ perm).nil_eq.symm, fun empty => (empty ▸ perm).eq_nil⟩
  · rw [← same ContainerTrend.min]
    exact extremes.least
  · rw [← same ContainerTrend.max]
    exact extremes.greatest

/-- A batch leaves the rows of keys it does not mention unchanged, as it has no write to them. -/
theorem getElem?_written_of_unmentioned {table : TrendTable} {trends : List ContainerTrend}
    {key : StoredKey} (unmentioned : ∀ t ∈ trends, t.key.toStored ≠ key)
    : (table.written (writesOf trends))[key]? = table[key]? := by
  have noWrites : writesTo key (writesOf trends) = [] := by
    refine List.eq_nil_iff_forall_not_mem.mpr (fun write member => ?_)
    obtain ⟨t, inTrends, ownKey⟩ := exists_of_mem_writesTo member
    exact unmentioned t inTrends ownKey
  rw [TrendTable.getElem?_written, noWrites]
  rfl

/-- A key has a row as soon as a rollup of it was stored. -/
theorem isSome_written {batches : List (List ContainerTrend)}
    (known : ∀ t ∈ batches.flatten, (Metric.ofStr? t.metric).isSome) (key : StoredKey)
    : ((TrendTable.written ∅ (batches.flatMap writesOf))[key]?).isSome
      ↔ ∃ t ∈ batches.flatten, t.key.toStored = key := by
  rw [TrendTable.getElem?_written, isSome_rowAfter, writesTo_ne_nil_iff known]
  simp

/-- A stored row has the extremes of all rollups of its key: those merged by its writes, which
carry just these rollups.
-/
theorem extremes_written {batches : List (List ContainerTrend)} {key : StoredKey} {row : TrendRow}
    (found : (TrendTable.written ∅ (batches.flatMap writesOf))[key]? = some row) (metric : Metric)
    : ExtremesOf (row.columns metric) (rollupsOf batches key metric) := by
  rw [TrendTable.getElem?_written, Std.ExtTreeMap.getElem?_empty] at found
  obtain ⟨least, greatest⟩ :=
    extremes_rowAfter metric none (writesTo key (batches.flatMap writesOf))
  rw [found] at least greatest
  refine ExtremesOf.perm (metricRollups_perm batches key metric) (extremesOf_aggregates ?_ ?_)
  · exact least.trans (leastOf_none_left _)
  · exact greatest.trans (greatestOf_none_left _)

/-- Storing batches into an empty store keeps every key's extremes, by folding the writes of a
key: each upsert takes the extremes of what is stored and what arrives.
-/
theorem keepsExtremes (batches : List (List ContainerTrend))
    (known : ∀ t ∈ batches.flatten, (Metric.ofStr? t.metric).isSome)
    : ∃ store,
        Store.empty.insertBatches batches = .ok store
        ∧ (∀ key,
            (store.containerTrend[key]?).isSome ↔ ∃ t ∈ batches.flatten, t.key.toStored = key)
        ∧ (∀ key row, store.containerTrend[key]? = some row →
            ∀ metric, ExtremesOf (row.columns metric) (rollupsOf batches key metric))
        ∧ ∀ trends, ∃ next,
            store.insertContainerTrends trends = .ok next
            ∧ ∀ key,
                (∀ t ∈ trends, t.key.toStored ≠ key) →
                next.containerTrend[key]? = store.containerTrend[key]? := by
  refine ⟨_, Store.insertBatches_eq .empty batches, isSome_written known,
    fun key row => extremes_written, fun trends => ?_⟩
  refine ⟨_, Store.insertContainerTrends_eq _ trends, fun key unmentioned => ?_⟩
  exact getElem?_written_of_unmentioned unmentioned

/-- A rollup of a single level, for the examples of this development. -/
def ContainerTrend.level (bucketStartMs : ℕ) (metric : Metric) (value : ℚ) (samples : ℕ)
    : ContainerTrend :=
  {
    bucketStartMs
    bucketSecs := 60
    host := "local"
    id := "b"
    name := "web"
    stack := none
    metric := metric.asStr
    min := value
    max := value
    median := value
    samples
  }

/-- The key of the levels of the first bucket. -/
def firstKey : StoredKey :=
  { host := "local", name := "web", bucketStartMs := 0 }

theorem keepsExtremes_written_twice
    : ∃ store,
        Store.empty.insertBatches [[.level 0 .cpu 5 2, .level 0 .mem 8 2], [.level 0 .cpu 3 1]]
          = .ok store
        ∧ (store.containerTrend[firstKey]?).isSome
        ∧ ∀ row, store.containerTrend[firstKey]? = some row →
            ExtremesOf (row.columns .cpu) [.level 0 .cpu 5 2, .level 0 .cpu 3 1]
            ∧ ExtremesOf (row.columns .mem) [.level 0 .mem 8 2]
            ∧ ExtremesOf (row.columns .netRx) [] := by
  obtain ⟨store, inserted, rows, extremes, _⟩ :=
    keepsExtremes [[.level 0 .cpu 5 2, .level 0 .mem 8 2], [.level 0 .cpu 3 1]] (by decide)
  refine ⟨store, inserted, (rows _).mpr ⟨.level 0 .cpu 5 2, by simp, rfl⟩, ?_⟩
  intro row found
  exact ⟨extremes _ row found .cpu, extremes _ row found .mem, extremes _ row found .netRx⟩

/-- Bucket starts beyond `i64::MAX` saturate: two keys share a row. -/
theorem saturated_starts_share_row
    : (ContainerTrend.level (2 ^ 63 - 1) .cpu 5 1).key
        ≠ (ContainerTrend.level (2 ^ 63) .cpu 3 1).key
      ∧ ∃ store,
        Store.empty.insertBatches [[.level (2 ^ 63 - 1) .cpu 5 1, .level (2 ^ 63) .cpu 3 1]]
          = .ok store
        ∧ store.containerTrend.size = 1 := by
  refine ⟨by decide, _, Store.insertBatches_eq _ _, ?_⟩
  decide +kernel

end DockDoe
