import DockDoe.Correctness.ChartedLines
import DockDoe.Correctness.OrderedEnvelopes
import DockDoe.Correctness.BucketContents
import DockDoe.Correctness.RawWindows
import DockDoe.Model.HistoryDialog
import DockDoe.Model.HistoryResponses

/-! What the history overlay draws of an answer: the broken line through its points, with a band
around every median.
-/

namespace DockDoe

open BrokenLines Nullable

-----------------------------------------------------------------------------------------
-- What is answered
-----------------------------------------------------------------------------------------

/-- Points in the order of their times, whose metrics are ordered. -/
structure OrderedPoints (points : List HistoryPoint) : Prop where
  ordered : (points.map HistoryPoint.tsMs).Pairwise (· ≤ ·)
  banded : ∀ point ∈ points, ∀ metric, (point.columns metric).Ordered

theorem fromDb_mono {v w : ℤ} (le : v ≤ w) : fromDb v ≤ fromDb w :=
  Int.toNat_le_toNat le

/-- The points of ascending groups are in order. -/
theorem pairwise_tsMs {ρ : Type} (key : ρ → ℤ) (rows : List ρ)
    {point : ℤ × List ρ → HistoryPoint} (starts : ∀ group, (point group).tsMs = fromDb group.1)
    : (((KeyedFolds.groups key rows).map point).map HistoryPoint.tsMs).Pairwise (· ≤ ·) := by
  rw [List.map_map, List.pairwise_map]
  refine (KeyedFolds.groups_ascending key rows).imp ?_
  intro left right less
  simp only [Function.comp_apply, starts]
  exact fromDb_mono less.le

/-- Raw samples are bands without a width, and aggregating bands in order keeps them in order. -/
theorem EnvelopeColumns.ordered_ofValues (values : List (Option ℚ))
    : (ofValues values).Ordered := by
  have flat : ∀ value ∈ values, Banded value value value := by
    intro value _
    cases value with
    | none => exact .absent
    | some v => exact .present le_rfl le_rfl
  have aggregated
      : Banded (minAgg (values.map id)) (avgAgg (values.map id)) (maxAgg (values.map id)) :=
    Banded.aggregate flat
  rwa [List.map_id] at aggregated

theorem orderedPoints_historyContainerRaw (store : Store) (host id : String)
    (sinceMs untilMs groupMs : ℕ)
    : OrderedPoints (fetchPoints (store.historyContainerRaw host id sinceMs untilMs groupMs)) := by
  unfold Store.historyContainerRaw
  rw [FallibleLists.mapM_ok (fun group _ => historyRowToPoint_selectRawHistory group.1 group.2)]
  refine ⟨pairwise_tsMs _ _ (fun _ => rfl), ?_⟩
  intro point member metric
  obtain ⟨group, -, rfl⟩ := List.mem_map.mp member
  exact EnvelopeColumns.ordered_ofValues _

/-- Ordered groups of rows are ordered in order: no group's conversion fails, and each point
aggregates columns that are.
-/
theorem orderedPoints_selectHistory {ρ : Type} {key : ρ → ℤ} {rows : List ρ}
    {columns : ρ → Metric → EnvelopeColumns}
    (ordered : ∀ row ∈ rows, ∀ metric, (columns row metric).Ordered)
    : OrderedPoints (fetchPoints ((KeyedFolds.groups key rows).mapM (fun group =>
        historyRowToPoint (selectHistory group.1 (group.2.map columns))))) := by
  have inGroups : ∀ group ∈ KeyedFolds.groups key rows, ∀ row ∈ group.2, ∀ metric,
      (columns row metric).Ordered :=
    fun group occurs row member =>
      ordered row (KeyedFolds.mem_of_mem_groups occurs member).1
  obtain ⟨points, selected, banded⟩ := ordered_selectHistory inGroups
  have each : ∀ group ∈ KeyedFolds.groups key rows,
      historyRowToPoint (selectHistory group.1 (group.2.map columns)) = .ok _ :=
    fun group _ => historyRowToPoint_selectHistory group.1 (group.2.map columns)
  have read := FallibleLists.mapM_ok each
  obtain rfl := Except.ok.inj (selected.symm.trans read)
  rw [selected]
  exact ⟨pairwise_tsMs _ _ (fun _ => rfl), banded⟩

/-- Every stored row is ordered. -/
def Store.RowsOrdered (store : Store) : Prop :=
  ∀ (key : StoredKey) (row : TrendRow), store.containerTrend[key]? = some row → row.Ordered

variable {store : Store}

theorem Store.RowsOrdered.historyContainer (ordered : store.RowsOrdered) (host name : String)
    (sinceMs untilMs groupMs : ℕ)
    : OrderedPoints (fetchPoints (store.historyContainer host name sinceMs untilMs groupMs)) := by
  refine orderedPoints_selectHistory (fun entry member metric => ?_)
  have inTable := KeyedFolds.mem_toList_iff.mp (List.mem_of_mem_filter member)
  exact (ordered entry.1 entry.2 inTable).columns metric

/-- The history of a stack is ordered, since sums of ordered columns are ordered before they are
aggregated.
-/
theorem Store.RowsOrdered.historyStack (ordered : store.RowsOrdered) (host stack : String)
    (sinceMs untilMs groupMs : ℕ)
    : OrderedPoints (fetchPoints (store.historyStack host stack sinceMs untilMs groupMs)) := by
  refine orderedPoints_selectHistory (fun bucket member metric => ?_)
  obtain ⟨members, inBuckets, rfl⟩ := List.mem_map.mp member
  refine EnvelopeColumns.ordered_sum (fun own inRows => ?_)
  obtain ⟨entry, inMembers, rfl⟩ := List.mem_map.mp inRows
  have inTable := List.mem_of_mem_filter (KeyedFolds.mem_of_mem_groups inBuckets inMembers).1
  exact (ordered entry.1 entry.2 (KeyedFolds.mem_toList_iff.mp inTable)).columns metric

/-- What a local host answers a history request with, for a container or for a stack. -/
inductive Store.Answers (store : Store) (points : List HistoryPoint) : Prop
  | container {snapshot : Option Snapshot} {host id : String} {q : HistoryQuery}
      {seedWindow : Duration} {now : ℕ}
      (answered : store.containerResponse snapshot host id q seedWindow now = some points)
    : Answers store points
  | stack {host name : String} {q : HistoryQuery} {seedWindow : Duration} {now : ℕ}
      (answered : store.stackResponse host name q seedWindow now = some points)
    : Answers store points

/-- Whatever the store answers is ordered. By cases on the table that the window chose. -/
theorem Store.RowsOrdered.points (ordered : store.RowsOrdered) {points : List HistoryPoint}
    (answers : store.Answers points)
    : OrderedPoints points := by
  cases answers with
  | @container snapshot host id _ _ _ answered =>
      obtain ⟨window, -, rfl⟩ := Option.map_eq_some_iff.mp answered
      split
      · exact orderedPoints_historyContainerRaw store host id _ _ _
      · cases store.trendName snapshot host id with
        | none => exact ⟨.nil, fun point member => absurd member List.not_mem_nil⟩
        | some name => exact ordered.historyContainer host name _ _ _
  | @stack host name _ _ _ answered =>
      obtain ⟨window, -, rfl⟩ := Option.map_eq_some_iff.mp answered
      exact ordered.historyStack host name _ _ _

-----------------------------------------------------------------------------------------
-- What is drawn
-----------------------------------------------------------------------------------------

variable {metric : ChartMetric}

/-- What an entry draws in a column: an inserted hole is null. -/
def drawnEntry (metric : ChartMetric) (column : Fin metric.keys.length × EnvelopeLine)
    : Entry HistoryPoint → Option ℚ
  | .sample p => p.plotted metric column
  | .hole _ => none

namespace HistoryChart

/-- The arrays that show entries. -/
def ofEntries (metric : ChartMetric) (entries : List (Entry HistoryPoint)) : HistoryChart metric :=
  {
    times := entries.map (Entry.time HistoryPoint.secs)
    columns := fun column => entries.map (drawnEntry metric column)
  }

/-- One round of the loop extends the line: the hole is inserted exactly when the last entry is a
point that is further away than the gap.
-/
theorem renderPoint_ofEntries (gapSecs : ℤ) (entries : List (Entry HistoryPoint))
    (p : HistoryPoint)
    : renderPoint metric gapSecs (ofEntries metric entries) p
      = ofEntries metric (extend HistoryPoint.secs gapSecs entries p) := by
  have last : (ofEntries metric entries).times.getLast? = endTime HistoryPoint.secs entries :=
    List.getLast?_map
  rw [renderPoint, ChartData.breakLine, last, extend]
  cases endTime HistoryPoint.secs entries with
  | none =>
      simp [holeAfter, ofEntries, ChartData.append, drawnEntry, Entry.time]
  | some t =>
      by_cases far : gapSecs < p.secs - t <;>
        simp [holeAfter, far, ofEntries, ChartData.append, drawnEntry, Entry.time]

end HistoryChart

/-- The loop draws the broken line through the points. By induction on the points from the back,
a round at a time.
-/
theorem render_eq (metric : ChartMetric) (points : List HistoryPoint)
    : render metric points
      = .ofEntries metric
          (line HistoryPoint.secs (gapFromSpacing (points.map HistoryPoint.secs)) points) := by
  unfold render
  generalize gapFromSpacing (points.map HistoryPoint.secs) = gapSecs
  induction points using List.reverseRecOn with
  | nil => rfl
  | append_singleton rest p ih =>
      rw [List.foldl_concat, ih, line_concat, HistoryChart.renderPoint_ofEntries]

theorem ChartMetric.scale_pos (metric : ChartMetric) : 0 < metric.scale := by
  cases metric <;> norm_num [scale]

/-- A point draws a band of every key, since scaling by a positive factor keeps the order. -/
theorem HistoryPoint.banded_plotted {p : HistoryPoint}
    (ordered : ∀ metric, (p.columns metric).Ordered) (key : Fin metric.keys.length)
    : Banded (p.plotted metric (key, .lo)) (p.plotted metric (key, .med))
        (p.plotted metric (key, .hi)) := by
  have band : Banded _ _ _ := ordered metric.keys[key]
  have positive := metric.scale_pos.le
  simp only [plotted, EnvelopeColumns.line]
  generalize (p.columns metric.keys[key]).min = lo at band ⊢
  generalize (p.columns metric.keys[key]).med = med at band ⊢
  generalize (p.columns metric.keys[key]).max = hi at band ⊢
  cases band with
  | absent => exact .absent
  | present below above =>
      exact .present (mul_le_mul_of_nonneg_right below positive)
        (mul_le_mul_of_nonneg_right above positive)

/-- A chart shows points: all of them in order and on level arrays, with a null where two
neighbours are further apart than the gap, and every median within its band.
-/
structure HistoryChart.Draws (gapSecs : ℤ) (points : List HistoryPoint) (d : HistoryChart metric)
    : Prop where
  complete
    : ∃ entries, d = ofEntries metric entries ∧ entries.filterMap Entry.sample? = points
  level : ∀ column, (d.columns column).length = d.times.length
  ordered : d.times.Pairwise (· ≤ ·)
  broken
    : ∀ n earlier later,
        d.times[n]? = some earlier
        → d.times[n + 1]? = some later
        → gapSecs < later - earlier
        → ∀ column, (d.columns column)[n]? = some none
  banded
    : ∀ (n : ℕ) key (lo med hi : Option ℚ),
        (d.columns (key, .lo))[n]? = some lo
        → (d.columns (key, .med))[n]? = some med
        → (d.columns (key, .hi))[n]? = some hi
        → Banded lo med hi

/-- Whatever is answered out of ordered rows, all of it is drawn: by `render_eq` the chart is a
broken line, so its samples are the points, its holes are the gaps and its times ascend.
-/
theorem OrderedPoints.draws {points : List HistoryPoint} (inOrder : OrderedPoints points)
    (metric : ChartMetric)
    : HistoryChart.Draws (gapFromSpacing (points.map HistoryPoint.secs)) points
        (render metric points) := by
  obtain ⟨ordered, banded⟩ := inOrder
  rw [render_eq]
  set gapSecs := gapFromSpacing (points.map HistoryPoint.secs)
  have positive : 0 < gapSecs := by
    have := le_gapFromSpacing (points.map HistoryPoint.secs)
    omega
  have inSeconds : (points.map HistoryPoint.secs).Pairwise (· ≤ ·) := by
    rw [List.pairwise_map] at ordered ⊢
    refine ordered.imp ?_
    intro left right le
    exact Int.ofNat_le.mpr (Nat.div_le_div_right le)
  have chain := isChain_line positive inSeconds
  have through : (line HistoryPoint.secs gapSecs points).filterMap Entry.sample? = points :=
    filterMap_line points
  generalize line HistoryPoint.secs gapSecs points = entries at chain through
  refine ⟨⟨entries, rfl, through⟩, ?_, pairwise_times chain, ?_, ?_⟩
  · intro column
    rw [HistoryChart.ofEntries, List.length_map, List.length_map]
  · intro n earlier later isEarlier isLater wide column
    simp only [HistoryChart.ofEntries, List.getElem?_map, Option.map_eq_some_iff]
      at isEarlier isLater ⊢
    obtain ⟨entry, atEntry, rfl⟩ := isEarlier
    obtain ⟨next, atNext, rfl⟩ := isLater
    obtain ⟨inside, rfl⟩ := List.getElem?_eq_some_iff.mp atNext
    obtain ⟨_, rfl⟩ := List.getElem?_eq_some_iff.mp atEntry
    obtain ⟨t, isHole⟩ := (chain.getElem n inside).broken wide
    exact ⟨_, atEntry, by rw [isHole]; rfl⟩
  · intro n key lo med hi isLo isMed isHi
    simp only [HistoryChart.ofEntries, List.getElem?_map, Option.map_eq_some_iff]
      at isLo isMed isHi
    obtain ⟨entry, atEntry, rfl⟩ := isLo
    simp only [atEntry, Option.some.injEq, exists_eq_left'] at isMed isHi
    subst isMed isHi
    cases entry with
    | hole t => exact .absent
    | sample p =>
        have member : p ∈ points := by
          rw [← through]
          exact List.mem_filterMap.mpr ⟨_, List.mem_of_getElem? atEntry, rfl⟩
        exact HistoryPoint.banded_plotted (banded p member) key

-----------------------------------------------------------------------------------------
-- The collectors and their store
-----------------------------------------------------------------------------------------

/-- What a bucketer flushes is ordered: a median lies between the extremes of its values, of
which there is at least one.
-/
theorem Bucketer.ordered_push {b next : Bucketer} {snap : Snapshot}
    {flushed : List ContainerTrend} (pushed : b.push snap = some (next, flushed))
    : ∀ t ∈ flushed, t.Ordered := by
  have closes (b : Bucketer) (start : ℕ) : ∀ t ∈ (b.close start).2, t.Ordered := by
    intro t member
    obtain ⟨entry, -, emitted⟩ := List.mem_filterMap.mp member
    obtain ⟨stats, computed, rfl⟩ := Option.map_eq_some_iff.mp emitted
    have nonempty : entry.2.values ≠ [] := by
      intro empty
      rw [empty] at computed
      cases computed
    obtain ⟨own, found, least, greatest, median, count⟩ := Stats.ofValues_spec nonempty
    obtain rfl := Option.some.inj (found.symm.trans computed)
    obtain ⟨below, above⟩ :=
      median.between (fun value inValues => ⟨least.2 inValues, greatest.2 inValues⟩)
    refine ⟨below, above, ?_⟩
    show 1 ≤ own.count
    have positive := List.length_pos_iff.mpr nonempty
    rw [count, u32Max]
    omega
  unfold Bucketer.push at pushed
  split at pushed
  · cases pushed
  · obtain ⟨-, rfl⟩ := Prod.mk.inj (Option.some.inj pushed)
    dsimp only
    split
    · split
      · exact closes _ _
      · exact fun t member => absurd member List.not_mem_nil
    · exact fun t member => absurd member List.not_mem_nil

section Systems

variable {ι : Type} {s next : System ι}

/-- No batch that is to be stored has more samples of a metric under one key than 32 bits hold. -/
def System.SmallBatches (s : System ι) : Prop :=
  ∀ i trends, .insertContainerTrends trends ∈ (s.collectors i).pending → SmallBatch trends

/-- The trends are those of a reachable store, and what is to be stored is ordered. -/
structure System.Orderly (s : System ι) : Prop where
  trends : ∃ earlier, Reachable earlier ∧ earlier.containerTrend = s.store.containerTrend
  due
    : ∀ i trends,
        .insertContainerTrends trends ∈ (s.collectors i).pending → ∀ t ∈ trends, t.Ordered

/-- A turn of the loop is to store what its bucketer flushed, in some order, and what was flushed
is ordered.
-/
theorem Collector.tick_ordered {collector next : Collector}
    {hashOrder : List ContainerTrend → List ContainerTrend}
    {listing : Except BollardError (List ListedContainer)}
    {fetchStats : String → Option StatsSample} {now tsMs : ℕ}
    (idle : collector.pending = []) (drains : ∀ trends, (hashOrder trends).Perm trends)
    (ticked : collector.tick hashOrder listing fetchStats now tsMs = some next)
    : ∀ trends, .insertContainerTrends trends ∈ next.pending → ∀ t ∈ trends, t.Ordered := by
  intro trends member
  obtain ⟨-, nothing | ⟨containers, bucketer, flushed, pushed, pending⟩⟩ :=
    Collector.tick_cases idle ticked
  · exact absurd (nothing ▸ member) List.not_mem_nil
  have own : trends = hashOrder flushed := by
    rcases List.mem_append.mp (pending ▸ member) with insert | prune
    · simpa using insert
    · rcases Collector.mem_pruneSteps prune with same | same <;> cases same
  intro t isTrend
  rw [own, (drains flushed).mem_iff] at isTrend
  exact Bucketer.ordered_push pushed t isTrend

variable [DecidableEq ι]

theorem System.Orderly.withCollector (orderly : s.Orderly) {i : ι} {collector : Collector}
    (ordered
      : ∀ trends, .insertContainerTrends trends ∈ collector.pending → ∀ t ∈ trends, t.Ordered)
    : (s.withCollector i collector).Orderly where
  trends := orderly.trends
  due :=
    (Function.forall_update_iff s.collectors (fun _ c =>
        ∀ trends, .insertContainerTrends trends ∈ c.pending → ∀ t ∈ trends, t.Ordered)).mpr
      ⟨ordered, fun j _ => orderly.due j⟩

/-- Storing ordered rollups, or pruning, leaves the trends of a reachable store: either is a step
of such stores, and samples do not touch the trends.
-/
theorem StoreStep.run_trends {host : String} {after earlier : Store} {step : StoreStep}
    (ran : step.run host store = .ok after) (reachable : Reachable earlier)
    (same : earlier.containerTrend = store.containerTrend)
    (stored
      : ∀ trends, step = .insertContainerTrends trends
          → SmallBatch trends ∧ ∀ t ∈ trends, t.Ordered)
    : ∃ later, Reachable later ∧ later.containerTrend = after.containerTrend := by
  cases step with
  | insertSamples tsMs containers =>
      rw [StoreStep.run, Store.insertSamples_eq] at ran
      cases ran
      exact ⟨earlier, reachable, same⟩
  | insertContainerTrends trends =>
      obtain ⟨small, ordered⟩ := stored trends rfl
      rw [StoreStep.run, Store.insertContainerTrends_eq] at ran
      cases ran
      refine ⟨_, reachable.inserted ordered small (Store.insertContainerTrends_eq _ _), ?_⟩
      rw [same]
  | pruneRaw beforeMs =>
      cases ran
      exact ⟨earlier, reachable, same⟩
  | pruneTrends beforeMs =>
      cases ran
      refine ⟨_, reachable.pruned beforeMs, ?_⟩
      rw [Store.pruneTrends, Store.pruneTrends, same]

/-- Every step keeps the system in order: what a turn leaves to be stored is ordered, and what is
written was.
-/
theorem System.Step.orderly (step : System.Step s next) (small : s.SmallBatches)
    (orderly : s.Orderly)
    : next.Orderly := by
  cases step with
  | wait now later => exact ⟨orderly.trends, orderly.due⟩
  | tick i collector hashOrder listing fetchStats now idle drains ticked =>
      exact orderly.withCollector (Collector.tick_ordered idle drains ticked)
  | persist i step rest store pending ran =>
      have isFirst : step ∈ (s.collectors i).pending := pending ▸ List.mem_cons_self
      have kept : (s.withCollector i { s.collectors i with pending := rest }).Orderly :=
        orderly.withCollector (fun trends member =>
          orderly.due i trends (pending ▸ List.mem_cons_of_mem _ member))
      obtain ⟨earlier, reachable, same⟩ := orderly.trends
      refine ⟨StoreStep.run_trends ran reachable same ?_, kept.due⟩
      rintro trends rfl
      exact ⟨small i trends isFirst, orderly.due i trends isFirst⟩
  | fail i step rest pending =>
      exact orderly.withCollector (fun _ member => absurd member List.not_mem_nil)

theorem System.Started.run_orderly {cfg : AppConfig} {past : List Sample} {start : System ι}
    (started : start.Started cfg past)
    (opened : ∃ earlier, Reachable earlier ∧ earlier.containerTrend = start.store.containerTrend)
    (run : Relation.ReflTransGen (fun s next => s.SmallBatches ∧ System.Step s next) start s)
    : s.Orderly := by
  induction run with
  | refl =>
      refine ⟨opened, fun i trends member => ?_⟩
      obtain ⟨_, _, same⟩ := started.collectors i
      rw [same] at member
      cases member
  | tail _ step ih => exact step.2.orderly step.1 ih

/-- Collectors on one store, in any order of their steps: whatever it answers to a history
request, the overlay draws all of it in order, bridges no gap, and keeps every median within its
band. Witness: rows with ordered columns are all that the steps store, and aggregates keep the
order.
-/
theorem history_drawn {cfg : AppConfig} {past : List Sample} {start : System ι}
    (started : start.Started cfg past)
    (opened : ∃ earlier, Reachable earlier ∧ earlier.containerTrend = start.store.containerTrend)
    (run : Relation.ReflTransGen (fun s next => s.SmallBatches ∧ System.Step s next) start s)
    {points : List HistoryPoint} (answers : s.store.Answers points) (metric : ChartMetric)
    : HistoryChart.Draws (gapFromSpacing (points.map HistoryPoint.secs)) points
        (render metric points) := by
  obtain ⟨earlier, reachable, same⟩ := (started.run_orderly opened run).trends
  have rows : s.store.RowsOrdered := by
    intro key row found
    rw [← same] at found
    exact reachable.ordered key row found
  exact (rows.points answers).draws metric

end Systems

/-- Witness: a store with an old and a recent sample, while its collector persists a cycle. The
run is built step by step, each with its small batch.
-/
theorem history_drawn_hourly
    : ∃ (s : System Unit) (points : List HistoryPoint),
        points.length = 1
        ∧ s.store.Answers points
        ∧ HistoryChart.Draws (gapFromSpacing (points.map HistoryPoint.secs)) points
            (render .net points) := by
  have fresh : Database.fresh.Ordered :=
    ⟨.inl rfl, fun row member => absurd member List.not_mem_nil, fun key metric => by
      change totalSamples [] < 2 ^ 32
      decide⟩
  have idle {s : System Unit} (pending : (s.collectors ()).pending = []) : s.SmallBatches := by
    intro i trends member
    exact absurd (pending ▸ member) List.not_mem_nil
  have due {s : System Unit} {tsMs rawBefore trendsBefore : ℕ}
      (pending
        : (s.collectors ()).pending
          = [.insertSamples tsMs [], .insertContainerTrends [], .pruneRaw rawBefore,
            .pruneTrends trendsBefore])
      : s.SmallBatches := by
    intro i trends member
    rw [pending] at member
    obtain rfl : trends = [] := by
      simpa using member
    intro key metric
    change totalSamples [] < 2 ^ 32
    decide
  have start : Relation.ReflTransGen
      (fun s next : System Unit => s.SmallBatches ∧ System.Step s next) hourlyStart hourlyStart :=
    .refl
  have primed := start.tail
    ⟨idle rfl, .tick _ () _ id (.ok []) (fun _ => none) 0 rfl (fun _ => .refl _) rfl⟩
  have cycled := primed.tail
    ⟨idle rfl, .tick _ () _ id (.ok []) (fun _ => none) 1 rfl (fun _ => .refl _) rfl⟩
  have sampled := cycled.tail ⟨due rfl, .persist _ () _ _ _ rfl rfl⟩
  let q : HistoryQuery := { range := none, sinceMs := some 9000000, untilMs := some 10000000 }
  let response (store : Store) :=
    store.containerResponse none "local" "a" q (seedWindow hourlyConfig) 10000000
  have opened : ∃ earlier, Reachable earlier
      ∧ earlier.containerTrend = hourlyStart.store.containerTrend :=
    ⟨.empty, .opened .fresh 0 fresh rfl, rfl⟩
  obtain ⟨s, run, answered⟩
      : ∃ s : System Unit,
          Relation.ReflTransGen (fun s next => s.SmallBatches ∧ System.Step s next) hourlyStart s
          ∧ (response s.store).map List.length = some 1 :=
    ⟨_, sampled, by decide +kernel⟩
  obtain ⟨points, found, counted⟩ := Option.map_eq_some_iff.mp answered
  have answers : s.store.Answers points := .container found
  exact ⟨s, points, counted, answers, history_drawn hourlyStart_started opened run answers .net⟩

end DockDoe
