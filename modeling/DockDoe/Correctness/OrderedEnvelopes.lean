import DockDoe.Correctness.BestCoverage
import DockDoe.Foundations.NullableBands
import DockDoe.Model.HistoryQueries

/-! Envelopes stay ordered: in every reachable store, and in every point that the history
queries compute from it, a metric is absent or has its minimum, median and maximum in order.
-/

namespace DockDoe

open Nullable

/-- A metric's columns are all NULL, or all present and in order. -/
def EnvelopeColumns.Ordered (columns : EnvelopeColumns) : Prop :=
  Banded columns.min columns.med columns.max

/-- A rollup with samples whose median lies between its extremes. -/
structure ContainerTrend.Ordered (t : ContainerTrend) : Prop where
  minLe : t.min ≤ t.median
  leMax : t.median ≤ t.max
  positive : 1 ≤ t.samples

/-- A row that counts samples and whose metrics are all ordered. -/
structure TrendRow.Ordered (row : TrendRow) : Prop where
  positive : 0 < row.samples
  columns : ∀ metric, (row.columns metric).Ordered

/-- No metric of a key counts more samples in a batch than 32 bits hold. -/
def SmallBatch (trends : List ContainerTrend) : Prop :=
  ∀ key metric, totalSamples (rollupsOf [trends] key metric) < 2 ^ 32

/-- The legacy rollups of a database, ordered and with counts that 32 bits hold. -/
structure Database.Ordered (db : Database) : Prop where
  layout : db.containerTrend = none ∨ ∃ legacy, db.longRows = some legacy
  ordered
    : ∀ row ∈ db.longRows.getD [],
      row.min ≤ row.median ∧ row.median ≤ row.max ∧ 1 ≤ row.samples
  small
    : ∀ key metric,
      totalSamples (legacyOfMetric metric (legacyUnder key (db.longRows.getD []))) < 2 ^ 32

/-- The stores reached by opening an empty or a legacy database, storing batches of ordered
rollups and pruning.
-/
inductive Reachable : Store → Prop
  | opened (db : Database) (fuel : ℕ) {store : Store}
      (ordered : db.Ordered) (opening : Store.fromConnection fuel db = some (.ok store))
    : Reachable store
  | inserted {store next : Store} {trends : List ContainerTrend}
      (earlier : Reachable store) (ordered : ∀ t ∈ trends, t.Ordered) (small : SmallBatch trends)
      (stored : store.insertContainerTrends trends = .ok next)
    : Reachable next
  | pruned {store : Store} (earlier : Reachable store) (beforeMs : ℕ)
    : Reachable (store.pruneTrends beforeMs)

/-- The envelope that ordered rollups merge into is ordered.
Witness: its median is a mean of medians that lie between the merged extremes.
-/
theorem Envelope.ordered_ofRollups {rollups : List ContainerTrend}
    (ordered : ∀ t ∈ rollups, t.Ordered) (small : totalSamples rollups < 2 ^ 32)
    : (EnvelopeColumns.ofEnvelope (ofRollups rollups)).Ordered := by
  cases merged : ofRollups rollups with
  | none => exact .absent
  | some envelope =>
      have nonempty : rollups ≠ [] := by
        intro same
        subst same
        cases merged
      obtain ⟨least, greatest⟩ := extremes_ofRollups rollups
      rw [merged] at least greatest
      have lower := (minAgg_eq_some_iff.mp least.symm).2
      have upper := (maxAgg_eq_some_iff.mp greatest.symm).2
      have median := median_ofRollups (fun t member => (ordered t member).positive) small merged
      have weights : ∀ t ∈ rollups, (0 : ℚ) < t.samples :=
        fun t member => by exact_mod_cast (ordered t member).positive
      change Banded (some envelope.min) (some envelope.median) (some envelope.max)
      rw [median]
      refine .present (WeightedMeans.le_mean _ _ nonempty weights (fun t member => ?_))
        (WeightedMeans.mean_le _ _ nonempty weights (fun t member => ?_))
      · exact (lower t.min (List.mem_map_of_mem member)).trans (ordered t member).minLe
      · exact (ordered t member).leMax.trans (upper t.max (List.mem_map_of_mem member))

/-- The upsert merges two ordered metrics into an ordered one: a weighted mean of two medians
lies between the lesser minimum and the greater maximum.
-/
theorem EnvelopeColumns.ordered_upsert {stored excluded : EnvelopeColumns}
    {samples excludedSamples : ℤ} (left : stored.Ordered) (right : excluded.Ordered)
    (positive : 0 < samples) (excludedPositive : 0 < excludedSamples)
    : (upsert samples excludedSamples stored excluded).Ordered := by
  have weight : (0 : ℚ) < samples := by exact_mod_cast positive
  have excludedWeight : (0 : ℚ) < excludedSamples := by exact_mod_cast excludedPositive
  have nonzero : (samples : ℚ) + excludedSamples ≠ 0 := (add_pos weight excludedWeight).ne'
  have med
      : (upsert samples excludedSamples stored excluded).med
        = weightedOf (samples : ℚ) excludedSamples stored.med excluded.med := by
    cases storedMed : stored.med <;> cases excludedMed : excluded.med <;>
      simp [upsert, storedMed, excludedMed, quotient, nonzero, weightedOf, WeightedMeans.combine]
  rw [Ordered, med]
  exact Banded.merge left right weight excludedWeight

/-- An upsert of ordered rows is an ordered row, metric by metric. -/
theorem TrendRow.ordered_upsert {stored : Option TrendRow} {excluded : TrendRow}
    (left : ∀ row, stored = some row → row.Ordered) (right : excluded.Ordered)
    : (upsert stored excluded).Ordered := by
  cases stored with
  | none => exact right
  | some row =>
      have own := left row rfl
      refine ⟨add_pos own.positive right.positive, fun metric => ?_⟩
      exact EnvelopeColumns.ordered_upsert (own.columns metric) (right.columns metric)
        own.positive right.positive

/-- A rollup of a write is one of its batch, stored under the metric that it names. -/
theorem mem_of_mem_ofMetric {trends : List ContainerTrend} {write : Write} {metric : Metric}
    {t : ContainerTrend} (member : write ∈ writesOf trends)
    (own : t ∈ ofMetric metric write.rollups)
    : t ∈ trends := by
  obtain ⟨entry, inRollups, rfl⟩ := List.mem_map.mp own
  have inWrite := List.mem_of_mem_filter inRollups
  rw [(mem_writesOf.mp member).2] at inWrite
  obtain ⟨u, inTrends, known⟩ := List.mem_filterMap.mp (KeyedFolds.mem_under_iff.mp inWrite).1
  obtain ⟨slot, _, rfl⟩ := Option.map_eq_some_iff.mp known
  exact inTrends

/-- Every write of a batch of ordered rollups stores an ordered row: its envelopes merge the
rollups without wrapping their counts.
-/
theorem Write.ordered_row {trends : List ContainerTrend} {write : Write}
    (ordered : ∀ t ∈ trends, t.Ordered) (small : SmallBatch trends)
    (member : write ∈ writesOf trends)
    : write.row.Ordered := by
  have inWrites : write ∈ writesTo write.stored ([trends].flatMap writesOf) := by
    rw [List.flatMap_singleton]
    exact KeyedFolds.mem_under_iff.mpr ⟨member, rfl⟩
  have writeSmall := small_of_mem_writesTo (small write.stored) inWrites
  have rollupsOrdered (metric : Metric) : ∀ t ∈ ofMetric metric write.rollups, t.Ordered :=
    fun t own => ordered t (mem_of_mem_ofMetric member own)
  constructor
  · obtain ⟨entry, inRollups⟩ := List.exists_mem_of_ne_nil _ (mem_writesOf.mp member).1
    have own : entry.1 ∈ ofMetric entry.2 write.rollups :=
      List.mem_map.mpr ⟨entry, List.mem_filter.mpr ⟨inRollups, by simp⟩, rfl⟩
    have total := totalSamples_pos (List.ne_nil_of_mem own)
      (fun t inMetric => (rollupsOrdered entry.2 t inMetric).positive)
    have covered : totalSamples (ofMetric entry.2 write.rollups) ≤ write.bestCovered :=
      Finset.le_sup (f := fun metric => totalSamples (ofMetric metric write.rollups))
        (Finset.mem_univ entry.2)
    rw [Write.samples_row writeSmall]
    omega
  · intro metric
    change (EnvelopeColumns.ofEnvelope ((WideTrend.ofRollups write.rollups).metrics metric)).Ordered
    rw [WideTrend.metrics_ofRollups]
    exact Envelope.ordered_ofRollups (rollupsOrdered metric) (writeSmall metric)

/-- Ordered writes leave an ordered row ordered, by induction on the writes. -/
theorem ordered_rowAfter {start : Option TrendRow} {writes : List Write}
    (startOrdered : ∀ row, start = some row → row.Ordered)
    (ordered : ∀ write ∈ writes, write.row.Ordered)
    : ∀ row, rowAfter start writes = some row → row.Ordered := by
  induction writes using List.reverseRecOn with
  | nil => exact startOrdered
  | append_singleton writes write ih =>
      have earlier := ih (fun other member => ordered other (List.mem_append_left _ member))
      rw [rowAfter_append]
      intro row found
      obtain rfl := Option.some.inj found
      exact TrendRow.ordered_upsert earlier (ordered write (by simp))

/-- The migration leaves ordered rows: a quotient of weighted sums lies between the extremes of
what is summed.
-/
theorem PivotRow.ordered {group : List LegacyTrend} {row : TrendRow} (pivot : PivotRow group row)
    (ordered
      : ∀ row ∈ group, row.min ≤ row.median ∧ row.median ≤ row.max ∧ 1 ≤ row.samples)
    (small : ∀ metric, totalSamples (legacyOfMetric metric group) < 2 ^ 32)
    : row.Ordered := by
  have positive : ∀ row ∈ group, 1 ≤ row.samples := fun row member => (ordered row member).2.2
  constructor
  · obtain ⟨entry, member, same⟩ := List.mem_map.mp (maxAgg_eq_some_iff.mp pivot.samples).1
    have own : entry.samples = row.samples := Option.some.inj same
    have := positive entry member
    omega
  · intro metric
    rw [pivot.columns, EnvelopeColumns.ofLegacy_eq metric positive (small metric)]
    refine Envelope.ordered_ofRollups (fun t member => ?_) (small metric)
    have counted := positive_legacyOfMetric positive t member
    obtain ⟨entry, own, rfl⟩ := List.mem_map.mp member
    obtain ⟨minLe, leMax, _⟩ := ordered entry (List.mem_of_mem_filter own)
    exact ⟨minLe, leMax, counted⟩

/-- Every row of a reachable store is ordered, by induction on how the store was reached. -/
theorem Reachable.ordered {store : Store} (reachable : Reachable store)
    (key : StoredKey) (row : TrendRow) (found : store.containerTrend[key]? = some row)
    : row.Ordered := by
  induction reachable generalizing row with
  | opened db fuel ordered opening =>
      have pivot := (opened_pivoted ordered.layout opening key row).mp found
      refine pivot.ordered (fun entry member => ?_) (ordered.small key)
      exact ordered.ordered entry (KeyedFolds.mem_under_iff.mp member).1
  | @inserted store next trends _ ordered small stored ih =>
      rw [Store.insertContainerTrends_eq] at stored
      obtain rfl := Except.ok.inj stored
      rw [TrendTable.getElem?_written] at found
      refine ordered_rowAfter ih (fun write member => ?_) row found
      exact Write.ordered_row ordered small (KeyedFolds.mem_under_iff.mp member).1
  | @pruned store _ beforeMs ih =>
      have kept := KeyedFolds.getElem?_filter_keys store.containerTrend
        (fun key => decide (¬ key.bucketStartMs < toDb beforeMs)) key
      change (store.containerTrend.filter _)[key]? = some row at found
      rw [kept] at found
      exact ih row (Option.ite_none_right_eq_some.mp found).2

theorem EnvelopeColumns.ordered_aggregate {rows : List EnvelopeColumns}
    (ordered : ∀ row ∈ rows, row.Ordered)
    : (aggregate rows).Ordered :=
  Banded.aggregate ordered

theorem EnvelopeColumns.ordered_sum {rows : List EnvelopeColumns}
    (ordered : ∀ row ∈ rows, row.Ordered)
    : (sum rows).Ordered :=
  Banded.sum ordered

/-- Selecting groups of ordered rows gives ordered points, since aggregates keep the order. -/
theorem ordered_selectHistory {ρ : Type} {groups : List (ℤ × List ρ)}
    {columns : ρ → Metric → EnvelopeColumns}
    (ordered : ∀ group ∈ groups, ∀ row ∈ group.2, ∀ metric, (columns row metric).Ordered)
    : ∃ points,
        groups.mapM (fun group => historyRowToPoint (selectHistory group.1 (group.2.map columns)))
          = .ok points
        ∧ ∀ point ∈ points, ∀ metric, (point.columns metric).Ordered := by
  refine ⟨_, FallibleLists.mapM_ok
    (fun group _ => historyRowToPoint_selectHistory group.1 (group.2.map columns)), ?_⟩
  intro point member metric
  obtain ⟨group, inGroups, rfl⟩ := List.mem_map.mp member
  refine EnvelopeColumns.ordered_aggregate (fun own inRows => ?_)
  obtain ⟨_, inColumns, rfl⟩ := List.mem_map.mp inRows
  obtain ⟨row, inGroup, rfl⟩ := List.mem_map.mp inColumns
  exact ordered group inGroups row inGroup metric

/-- In every reachable store all rows are ordered, and so is every point of its histories: a
point's band is made of the rows' extremes and its median of medians between them, which
aggregates keep in order.
-/
theorem envelopes_ordered {store : Store} (reachable : Reachable store)
    : (∀ (key : StoredKey) (row : TrendRow), store.containerTrend[key]? = some row →
          ∀ metric, (row.columns metric).Ordered)
      ∧ (∀ host name sinceMs untilMs groupMs, ∃ points,
          store.historyContainer host name sinceMs untilMs groupMs = .ok points
          ∧ ∀ point ∈ points, ∀ metric, (point.columns metric).Ordered)
      ∧ ∀ host stack sinceMs untilMs groupMs, ∃ points,
          store.historyStack host stack sinceMs untilMs groupMs = .ok points
          ∧ ∀ point ∈ points, ∀ metric, (point.columns metric).Ordered := by
  have listed {entry : StoredKey × TrendRow} (member : entry ∈ store.containerTrend.toList)
      (metric : Metric)
      : (entry.2.columns metric).Ordered :=
    (reachable.ordered entry.1 entry.2 (KeyedFolds.mem_toList_iff.mp member)).columns metric
  refine ⟨fun key row found => (reachable.ordered key row found).columns, ?_, ?_⟩
  · intro host name sinceMs untilMs groupMs
    refine ordered_selectHistory (fun group occurs entry member => ?_)
    exact listed (List.mem_of_mem_filter (KeyedFolds.mem_of_mem_groups occurs member).1)
  · intro host stack sinceMs untilMs groupMs
    refine ordered_selectHistory (fun group occurs bucket member metric => ?_)
    obtain ⟨members, inBuckets, rfl⟩ :=
      List.mem_map.mp (KeyedFolds.mem_of_mem_groups occurs member).1
    refine EnvelopeColumns.ordered_sum (fun own inRows => ?_)
    obtain ⟨entry, inMembers, rfl⟩ := List.mem_map.mp inRows
    have inTable := List.mem_of_mem_filter (KeyedFolds.mem_of_mem_groups inBuckets inMembers).1
    exact listed inTable metric

/-- A fresh database, opened, filled with two metrics of a bucket and pruned, is reachable. -/
theorem envelopes_ordered_pruned
    : ∃ store points,
        Store.empty.insertContainerTrends [.level 60000 .cpu 2 10, .level 60000 .mem 100 20]
          = .ok store
        ∧ (store.pruneTrends 60000).historyContainer "local" "web" 0 90000 60000 = .ok points
        ∧ points.length = 1
        ∧ ∀ point ∈ points, ∀ metric, (point.columns metric).Ordered := by
  let trends : List ContainerTrend := [.level 60000 .cpu 2 10, .level 60000 .mem 100 20]
  have fresh : Database.fresh.Ordered :=
    ⟨.inl rfl, fun row member => absurd member List.not_mem_nil, fun key metric => by
      change totalSamples [] < 2 ^ 32
      decide⟩
  have ordered : ∀ t ∈ trends, t.Ordered := by
    intro t member
    rcases List.mem_pair.mp member with rfl | rfl
    · exact ⟨le_rfl, le_rfl, by decide⟩
    · exact ⟨le_rfl, le_rfl, by decide⟩
  have small : SmallBatch trends := fun key metric =>
    (totalSamples_le_of_sublist List.filter_sublist).trans_lt (by decide)
  have opened : Reachable .empty := .opened .fresh 0 fresh rfl
  have stored := Store.insertContainerTrends_eq .empty trends
  have reachable := (opened.inserted ordered small stored).pruned 60000
  obtain ⟨points, queried, allOrdered⟩ :=
    (envelopes_ordered reachable).2.1 "local" "web" 0 90000 60000
  have counted
      : (((Store.mk [] (TrendTable.written ∅ (writesOf trends))).pruneTrends 60000).historyContainer
          "local" "web" 0 90000 60000).toOption.map List.length
        = some 1 := by
    decide +kernel
  refine ⟨_, points, stored, queried, ?_, allOrdered⟩
  rw [← Option.some.injEq, ← counted]
  exact congrArg (fun result => result.toOption.map List.length) queried.symm

end DockDoe
