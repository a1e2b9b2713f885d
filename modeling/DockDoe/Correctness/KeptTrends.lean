import DockDoe.Correctness.RawWindows
import DockDoe.Correctness.StoredExtremes
import DockDoe.Model.HistoryResponses

/-! What has been rolled up stays visible until its retention is over, whatever else is stored
and pruned by the collectors of all hosts: a spike is not lost, only merged into a wider row.
-/

namespace DockDoe

open Nullable

-----------------------------------------------------------------------------------------
-- Rows and stores
-----------------------------------------------------------------------------------------

section Rows

variable {metric : Metric} {t : ContainerTrend} {row : Option TrendRow} {store after : Store}
  {trends : List ContainerTrend}

/-- A row spans a rollup: its extremes reach as far. -/
def Spans (metric : Metric) (t : ContainerTrend) (row : Option TrendRow) : Prop :=
  (∃ lo, minOf metric row = some lo ∧ lo ≤ t.min)
  ∧ ∃ hi, maxOf metric row = some hi ∧ t.max ≤ hi

/-- The row of a rollup's key reaches as far. -/
def Store.Covers (store : Store) (metric : Metric) (t : ContainerTrend) : Prop :=
  Spans metric t store.containerTrend[t.key.toStored]?

/-- Writing to a row only widens it: an upsert takes the lesser and the greater of both. -/
theorem Spans.rowAfter (spans : Spans metric t row) (writes : List Write)
    : Spans metric t (rowAfter row writes) := by
  obtain ⟨⟨lo, isLo, below⟩, hi, isHi, above⟩ := spans
  obtain ⟨least, greatest⟩ := extremes_rowAfter metric row writes
  obtain ⟨lower, isLower, lowerLe⟩ := exists_leastOf (.inl isLo)
  obtain ⟨upper, isUpper, leUpper⟩ := exists_greatestOf (.inl isHi)
  exact ⟨⟨lower, least.trans isLower, lowerLe.trans below⟩,
    upper, greatest.trans isUpper, above.trans leUpper⟩

/-- A row reaches as far as what is written to it, as its extremes are those of all that was. -/
theorem spans_rowAfter {writes : List Write} (member : t ∈ metricRollups metric writes)
    : Spans metric t (rowAfter row writes) := by
  obtain ⟨least, greatest⟩ := extremes_rowAfter metric row writes
  have inMins : some t.min ∈ (metricRollups metric writes).map (fun t => some t.min) :=
    List.mem_map_of_mem member
  have inMaxes : some t.max ∈ (metricRollups metric writes).map (fun t => some t.max) :=
    List.mem_map_of_mem member
  obtain ⟨lo, isLo⟩ := exists_minAgg_of_mem inMins
  obtain ⟨hi, isHi⟩ := exists_maxAgg_of_mem inMaxes
  obtain ⟨lower, isLower, lowerLe⟩ := exists_leastOf (.inr isLo)
  obtain ⟨upper, isUpper, leUpper⟩ := exists_greatestOf (.inr isHi)
  have loLe := (minAgg_eq_some_iff.mp isLo).2 _ inMins
  have leHi := (maxAgg_eq_some_iff.mp isHi).2 _ inMaxes
  exact ⟨⟨lower, least.trans isLower, lowerLe.trans loLe⟩,
    upper, greatest.trans isUpper, leHi.trans leUpper⟩

/-- A batch covers its rollups: each is among those that are written to its key. -/
theorem covers_of_mem (ran : store.insertContainerTrends trends = .ok after)
    (member : t ∈ trends) (known : t.metric = metric.asStr)
    : after.Covers metric t := by
  rw [Store.insertContainerTrends_eq] at ran
  cases ran
  have perm := metricRollups_perm [trends] t.key.toStored metric
  rw [List.flatMap_singleton] at perm
  have inRollups : t ∈ rollupsOf [trends] t.key.toStored metric := by
    simp [rollupsOf, member, known]
  show Spans metric t (TrendTable.written _ _)[t.key.toStored]?
  rw [TrendTable.getElem?_written]
  exact spans_rowAfter (perm.mem_iff.mpr inRollups)

/-- A step that prunes trends leaves those from a time on alone. -/
def StoreStep.SparesTrends (sinceMs : ℕ) : StoreStep → Prop
  | .pruneTrends beforeMs => beforeMs ≤ sinceMs
  | _ => True

theorem StoreStep.SparesTrends.mono {step : StoreStep} {sinceMs later : ℕ}
    (spares : step.SparesTrends sinceMs) (le : sinceMs ≤ later)
    : step.SparesTrends later := by
  cases step with
  | pruneTrends beforeMs => exact le_trans spares le
  | insertSamples | insertContainerTrends | pruneRaw => trivial

/-- What is covered stays covered by every step that spares it, by its cases: upserts widen rows,
and pruning leaves the recent ones.
-/
theorem Store.Covers.run {host : String} {step : StoreStep} (covers : store.Covers metric t)
    (ran : step.run host store = .ok after) (spares : step.SparesTrends t.bucketStartMs)
    : after.Covers metric t := by
  cases step with
  | insertSamples tsMs containers =>
      rw [StoreStep.run, Store.insertSamples_eq] at ran
      cases ran
      exact covers
  | insertContainerTrends trends =>
      rw [StoreStep.run, Store.insertContainerTrends_eq] at ran
      cases ran
      show Spans metric t (TrendTable.written _ _)[t.key.toStored]?
      rw [TrendTable.getElem?_written]
      exact Spans.rowAfter covers _
  | pruneRaw beforeMs =>
      cases ran
      exact covers
  | pruneTrends beforeMs =>
      cases ran
      have kept := KeyedFolds.getElem?_filter_keys store.containerTrend
        (fun key => decide (¬ key.bucketStartMs < toDb beforeMs)) t.key.toStored
      have recent : ¬ toDb t.bucketStartMs < toDb beforeMs := not_lt.mpr (toDb_mono spares)
      have own : decide (¬ t.key.toStored.bucketStartMs < toDb beforeMs) = true :=
        decide_eq_true recent
      rw [own, if_pos rfl] at kept
      show Spans metric t (store.containerTrend.filter _)[t.key.toStored]?
      rw [kept]
      exact covers

end Rows

-----------------------------------------------------------------------------------------
-- Runs of the collectors
-----------------------------------------------------------------------------------------

section Runs

variable {ι : Type} {s next : System ι} {retentionMs : ℕ} {cfg : AppConfig}
  {past : List Sample} {metric : Metric} {t : ContainerTrend}

/-- Trends are kept for some time: no step still due drops any that are younger. -/
structure System.RetainsTrends (retentionMs : ℕ) (s : System ι) : Prop where
  configured : ∀ i, durationMs (s.collectors i).config.trendRetention = retentionMs
  due : ∀ i, ∀ step ∈ (s.collectors i).pending, step.SparesTrends (s.clock - retentionMs)

/-- What a tick leaves to be done spares the rollups within the retention: its cutoff is the
retention before its clock.
-/
theorem Collector.tick_sparesTrends {collector next : Collector}
    {hashOrder : List ContainerTrend → List ContainerTrend}
    {listing : Except BollardError (List ListedContainer)}
    {fetchStats : String → Option StatsSample} {now tsMs : ℕ}
    (idle : collector.pending = [])
    (ticked : collector.tick hashOrder listing fetchStats now tsMs = some next)
    : next.config = collector.config
      ∧ ∀ step ∈ next.pending,
          step.SparesTrends (tsMs - durationMs collector.config.trendRetention) := by
  obtain ⟨config, nothing | ⟨containers, bucketer, flushed, -, pending⟩⟩ :=
    Collector.tick_cases idle ticked
  · exact ⟨config, fun step member => absurd (nothing ▸ member) List.not_mem_nil⟩
  · refine ⟨config, fun step member => ?_⟩
    rcases List.mem_append.mp (pending ▸ member) with insert | prune
    · simp only [List.mem_cons, List.not_mem_nil, or_false] at insert
      rcases insert with rfl | rfl <;> trivial
    · rcases Collector.mem_pruneSteps prune with rfl | rfl
      · trivial
      · exact le_rfl

/-- A system that starts has nothing to do yet that could prune a rollup. -/
theorem System.Started.retainsTrends (started : s.Started cfg past)
    : s.RetainsTrends (durationMs (.fromSecs cfg.trendRetentionSecs)) where
  configured i := by
    obtain ⟨_, _, same⟩ := started.collectors i
    rw [same]
    rfl
  due i step member := by
    obtain ⟨_, _, same⟩ := started.collectors i
    rw [same] at member
    cases member

variable [DecidableEq ι]

theorem System.RetainsTrends.withCollector (retains : s.RetainsTrends retentionMs) {i : ι}
    {collector : Collector} (sameConfig : collector.config = (s.collectors i).config)
    (spares : ∀ step ∈ collector.pending, step.SparesTrends (s.clock - retentionMs))
    : (s.withCollector i collector).RetainsTrends retentionMs where
  configured :=
    (Function.forall_update_iff s.collectors
        (fun _ c => durationMs c.config.trendRetention = retentionMs)).mpr
      ⟨by rw [sameConfig]; exact retains.configured i, fun j _ => retains.configured j⟩
  due :=
    (Function.forall_update_iff s.collectors
        (fun _ c => ∀ step ∈ c.pending, step.SparesTrends (s.clock - retentionMs))).mpr
      ⟨spares, fun j _ => retains.due j⟩

/-- A step retains the rollups within the retention, by its cases: waiting only moves the cutoff
on, and ticks add steps that spare them.
-/
theorem System.Step.retainsTrends (step : System.Step s next)
    (retains : s.RetainsTrends retentionMs)
    : next.RetainsTrends retentionMs := by
  cases step with
  | wait now later =>
      have cutoff : s.clock - retentionMs ≤ now - retentionMs := Nat.sub_le_sub_right later _
      exact ⟨retains.configured, fun i step member => (retains.due i step member).mono cutoff⟩
  | tick i collector hashOrder listing fetchStats now idle _ ticked =>
      obtain ⟨same, spares⟩ := Collector.tick_sparesTrends idle ticked
      rw [retains.configured i] at spares
      exact retains.withCollector same spares
  | persist i step rest store pending ran =>
      have spares : ∀ other ∈ step :: rest, other.SparesTrends (s.clock - retentionMs) :=
        pending ▸ retains.due i
      have persisted
          : (s.withCollector i { s.collectors i with pending := rest }).RetainsTrends _ :=
        retains.withCollector rfl (List.forall_mem_cons.mp spares).2
      exact ⟨persisted.configured, persisted.due⟩
  | fail i step rest pending =>
      exact retains.withCollector rfl (fun _ member => absurd member List.not_mem_nil)

theorem System.Started.run_retainsTrends {start : System ι} (started : start.Started cfg past)
    (run : Relation.ReflTransGen System.Step start s)
    : s.RetainsTrends (durationMs (.fromSecs cfg.trendRetentionSecs)) := by
  induction run with
  | refl => exact started.retainsTrends
  | tail _ step ih => exact step.retainsTrends ih

theorem System.Step.clock_le (step : System.Step s next) : s.clock ≤ next.clock := by
  cases step with
  | wait now later => exact later
  | tick | persist | fail => exact le_rfl

/-- A step leaves covered what is not over its retention. -/
theorem System.Step.covers (step : System.Step s next) (retains : s.RetainsTrends retentionMs)
    (kept : s.clock - retentionMs ≤ t.bucketStartMs) (covers : s.store.Covers metric t)
    : next.store.Covers metric t := by
  cases step with
  | wait | tick | fail => exact covers
  | persist i step rest store pending ran =>
      have spares := retains.due i step (pending ▸ List.mem_cons_self)
      exact covers.run ran (spares.mono kept)

/-- What is covered stays covered until its retention is over, by induction on the run. -/
theorem System.RetainsTrends.run_covers {start : System ι}
    (retains : start.RetainsTrends retentionMs)
    (run : Relation.ReflTransGen System.Step start s)
    (kept : s.clock - retentionMs ≤ t.bucketStartMs) (covers : start.store.Covers metric t)
    : s.RetainsTrends retentionMs ∧ s.store.Covers metric t := by
  induction run with
  | refl => exact ⟨retains, covers⟩
  | tail _ step ih =>
      have before := (Nat.sub_le_sub_right step.clock_le retentionMs).trans kept
      obtain ⟨retained, covered⟩ := ih before
      exact ⟨step.retainsTrends retained, step.covers retained before covered⟩

/-- Downsampled columns reach as far as each of theirs, by their extremes. -/
theorem EnvelopeColumns.reaches_aggregate {rows : List EnvelopeColumns} {own : EnvelopeColumns}
    (member : own ∈ rows) {lo hi : ℚ} (isMin : own.min = some lo) (isMax : own.max = some hi)
    : (∃ least, (aggregate rows).min = some least ∧ least ≤ lo)
      ∧ ∃ greatest, (aggregate rows).max = some greatest ∧ hi ≤ greatest := by
  have inMins : some lo ∈ rows.map EnvelopeColumns.min :=
    isMin ▸ List.mem_map_of_mem member
  have inMaxes : some hi ∈ rows.map EnvelopeColumns.max :=
    isMax ▸ List.mem_map_of_mem member
  obtain ⟨least, isLeast⟩ := exists_minAgg_of_mem inMins
  obtain ⟨greatest, isGreatest⟩ := exists_maxAgg_of_mem inMaxes
  exact ⟨⟨least, isLeast, (minAgg_eq_some_iff.mp isLeast).2 _ inMins⟩,
    greatest, isGreatest, (maxAgg_eq_some_iff.mp isGreatest).2 _ inMaxes⟩

/-- A history over a covered rollup has a point that reaches as far: its row is in the window, in
a group of its own or with others.
-/
theorem Store.Covers.historyContainer {store : Store} (covers : store.Covers metric t)
    {sinceMs untilMs : ℕ} (after : sinceMs ≤ t.bucketStartMs) (before : t.bucketStartMs ≤ untilMs)
    (groupMs : ℕ)
    : ∃ point ∈ fetchPoints (store.historyContainer t.host t.name sinceMs untilMs groupMs),
        (∃ lo, (point.columns metric).min = some lo ∧ lo ≤ t.min)
        ∧ ∃ hi, (point.columns metric).max = some hi ∧ t.max ≤ hi := by
  obtain ⟨⟨lo, isLo, below⟩, hi, isHi, above⟩ := covers
  obtain ⟨row, found, isMin⟩ := Option.bind_eq_some_iff.mp isLo
  have isMax : (row.columns metric).max = some hi := by
    rw [found] at isHi
    exact isHi
  let rows := store.containerTrend.toList.filter (fun entry =>
    entry.1.host = t.host
    ∧ entry.1.name = t.name
    ∧ entry.1.bucketStartMs ≥ toDb sinceMs
    ∧ entry.1.bucketStartMs ≤ toDb untilMs)
  let start (entry : StoredKey × TrendRow) :=
    historyBucket (historyWidth groupMs) entry.1.bucketStartMs
  have inWindow : (t.key.toStored, row) ∈ rows := by
    apply List.mem_filter.mpr
    exact ⟨KeyedFolds.mem_toList_iff.mpr found,
      decide_eq_true ⟨rfl, rfl, toDb_mono after, toDb_mono before⟩⟩
  have occurs := KeyedFolds.group_of_mem start inWindow
  have own : (t.key.toStored, row) ∈ KeyedFolds.under start (start (t.key.toStored, row)) rows :=
    KeyedFolds.mem_under_iff.mpr ⟨inWindow, rfl⟩
  have each : ∀ group ∈ KeyedFolds.groups start rows,
      historyRowToPoint (selectHistory group.1 (group.2.map (fun entry => entry.2.columns)))
        = .ok _ :=
    fun group _ => historyRowToPoint_selectHistory group.1 _
  have read : store.historyContainer t.host t.name sinceMs untilMs groupMs = .ok _ :=
    FallibleLists.mapM_ok each
  rw [read]
  refine ⟨_, List.mem_map_of_mem occurs, ?_⟩
  have column := List.mem_map_of_mem (f := fun columns => columns metric)
    (List.mem_map_of_mem (f := fun entry : StoredKey × TrendRow => entry.2.columns) own)
  obtain ⟨⟨least, isLeast, leastLe⟩, greatest, isGreatest, leGreatest⟩ :=
    EnvelopeColumns.reaches_aggregate column isMin isMax
  exact ⟨⟨least, isLeast, leastLe.trans below⟩, greatest, isGreatest, above.trans leGreatest⟩

/-- The state in which a collector has stored a batch. -/
def System.storedTrends (s : System ι) (i : ι) (trends : List ContainerTrend)
    (rest : List StoreStep) (store : Store)
    : System ι :=
  {
    s.withCollector i { s.collectors i with pending := rest } with
    store
    inserted :=
      s.inserted ++ (StoreStep.insertContainerTrends trends).inserts (s.collectors i).host
  }

/-- A rollup that has once been stored is seen in every history that its bucket belongs to and
that is served from trends, until its retention is over: whatever the collectors of all hosts
store and prune meanwhile, a point reaches as far as it. Witness: its row stays and covers it, by
induction on the steps since.
-/
theorem rollup_visible {start : System ι} (started : start.Started cfg past)
    (run : Relation.ReflTransGen System.Step start s) {i : ι} {trends : List ContainerTrend}
    {rest : List StoreStep} {stored : Store}
    (due : (s.collectors i).pending = .insertContainerTrends trends :: rest)
    (ran : s.store.insertContainerTrends trends = .ok stored)
    (later : Relation.ReflTransGen System.Step (s.storedTrends i trends rest stored) next)
    (member : t ∈ trends) (known : t.metric = metric.asStr)
    (kept : next.clock - durationMs (.fromSecs cfg.trendRetentionSecs) ≤ t.bucketStartMs)
    {q : HistoryQuery} {w : HistoryWindow}
    (resolved : resolveHistory q (seedWindow cfg) next.clock = some w) (trendPath : w.raw = false)
    (within : w.sinceMs ≤ t.bucketStartMs ∧ t.bucketStartMs ≤ w.untilMs)
    {snapshot : Option Snapshot} {id : String}
    (named : next.store.trendName snapshot t.host id = some t.name)
    : ∃ points,
        next.store.containerResponse snapshot t.host id q (seedWindow cfg) next.clock
          = some points
        ∧ ∃ point ∈ points,
            (∃ lo, (point.columns metric).min = some lo ∧ lo ≤ t.min)
            ∧ ∃ hi, (point.columns metric).max = some hi ∧ t.max ≤ hi := by
  have step : System.Step s (s.storedTrends i trends rest stored) :=
    .persist s i (.insertContainerTrends trends) rest stored due ran
  have retains := step.retainsTrends (started.run_retainsTrends run)
  obtain ⟨-, covers⟩ := retains.run_covers later kept (covers_of_mem ran member known)
  refine ⟨_, by rw [Store.containerResponse, resolved, Option.map_some], ?_⟩
  rw [if_neg (by simp [trendPath]), named]
  exact covers.historyContainer within.1 within.2 w.groupMs

end Runs

section Witness

/-- A running container that uses some memory. -/
def webListed : ListedContainer where
  id := some "a".toList
  labels := none
  names := some ["/web".toList]
  image := none
  state := some .running
  status := none
  ports := none

def webStats : StatsSample where
  cpuStats := none
  memoryStats := some { usage := some 5000, stats := none, limit := none }
  networks := none
  blkioStats := none

/-- A container is sampled, and a minute later its bucket is rolled up, as running the collector
shows.
-/
theorem hourly_rolled
    : ∃ (s : System Unit) (trends : List ContainerTrend) (rest : List StoreStep),
        Relation.ReflTransGen System.Step hourlyStart s
        ∧ s.clock = 10060000
        ∧ (s.collectors ()).pending = .insertContainerTrends trends :: rest
        ∧ trends.map (fun t => (t.host, t.name, t.metric, t.bucketStartMs, t.max))
          = [("local", "web", "mem", 9960000, 5000)] := by
  have primed := Relation.ReflTransGen.single (System.Step.tick hourlyStart () _ id (.ok [])
    (fun _ => none) 0 rfl (fun _ => .refl _) rfl)
  have cycled := primed.tail (.tick _ () _ id (.ok [webListed]) (fun _ => some webStats) 1 rfl
    (fun _ => .refl _) rfl)
  have sampled := cycled.tail (.persist _ () _ _ _ rfl rfl)
  have stored := sampled.tail (.persist _ () _ _ _ rfl rfl)
  have pruned := (stored.tail (.persist _ () _ _ _ rfl rfl)).tail (.persist _ () _ _ _ rfl rfl)
  have later := pruned.tail (.wait _ 10060000 (by decide))
  have closed := later.tail (.tick _ () _ id (.ok []) (fun _ => none) 2 rfl
    (fun _ => .refl _) rfl)
  have due := closed.tail (.persist _ () _ _ _ rfl rfl)
  exact ⟨_, _, _, due, rfl, rfl, by decide +kernel⟩

/-- The rollup is seen in the history of the last hours, which is served from trends. -/
theorem rollup_visible_hourly
    : ∃ (s : System Unit) (points : List HistoryPoint),
        Relation.ReflTransGen System.Step hourlyStart s
        ∧ s.store.containerResponse (some { tsMs := 0, containers := [stopped] }) "local" "a"
            { range := none, sinceMs := some 0, untilMs := some 10060000 }
            (seedWindow hourlyConfig) s.clock
          = some points
        ∧ ∃ point ∈ points, ∃ hi, (point.columns .mem).max = some hi ∧ 5000 ≤ hi := by
  obtain ⟨s, trends, rest, run, clock, due, rows⟩ := hourly_rolled
  obtain ⟨t, rfl, own⟩ := List.map_eq_singleton_iff.mp rows
  obtain ⟨host, name, isMem, bucket, top⟩ := by simpa only [Prod.mk.injEq] using own
  obtain ⟨stored, ran⟩ : ∃ stored, s.store.insertContainerTrends [t] = .ok stored :=
    ⟨_, Store.insertContainerTrends_eq s.store [t]⟩
  have step : System.Step s (s.storedTrends () [t] rest stored) :=
    .persist s () (.insertContainerTrends [t]) rest stored due ran
  have resolved
      : resolveHistory { range := none, sinceMs := some 0, untilMs := some 10060000 }
          (seedWindow hourlyConfig) s.clock
        = some {
            sinceMs := 0
            untilMs := 10060000
            groupMs := groupForWindow 10060000
            raw := false
          } := by
    rw [clock]
    simp [resolveHistory, HistoryQuery.bounds, seedWindow, Duration.fromSecs, durationMs,
      hourlyConfig, u64Max]
  have kept
      : s.clock - durationMs (.fromSecs hourlyConfig.trendRetentionSecs) ≤ t.bucketStartMs := by
    rw [clock, bucket]
    decide
  have within : 0 ≤ t.bucketStartMs ∧ t.bucketStartMs ≤ 10060000 := by
    rw [bucket]
    decide
  have named
      : stored.trendName (some { tsMs := 0, containers := [stopped] }) t.host "a"
        = some t.name := by
    rw [name]
    rfl
  obtain ⟨points, answered, point, member, -, hi, isHi, above⟩ :=
    rollup_visible hourlyStart_started run due ran .refl (List.mem_singleton.mpr rfl)
      (show t.metric = Metric.mem.asStr from isMem) kept resolved rfl within named
  rw [host] at answered
  rw [top] at above
  exact ⟨_, points, run.tail step, answered, point, member, hi, isHi, above⟩

end Witness

end DockDoe
