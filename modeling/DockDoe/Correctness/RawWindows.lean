import DockDoe.Model.HistoryWindows

/-! What a window served from raw samples can rely on.
All collectors prune the whole store, each with a cutoff of its own. No cutoff is later than
the clock less the retention, and from there on the store has lost nothing.
-/

namespace DockDoe

/-- The samples from a time on. -/
def samplesFrom (sinceMs : ℕ) (samples : List Sample) : List Sample :=
  samples.filter (fun sample => sinceMs ≤ sample.tsMs)

/-- A step that prunes raw samples leaves those from a time on alone. -/
def StoreStep.Spares (sinceMs : ℕ) : StoreStep → Prop
  | .pruneRaw beforeMs => beforeMs ≤ sinceMs
  | _ => True

/-- With respect to how long samples are kept: no step still due loses any from that time on,
and the store holds all of them that were ever inserted.
-/
structure System.Retains {ι : Type} (retentionMs : ℕ) (s : System ι) : Prop where
  configured : ∀ i, durationMs (s.collectors i).config.rawRetention = retentionMs
  due : ∀ i, ∀ step ∈ (s.collectors i).pending, step.Spares (s.clock - retentionMs)
  holds
    : ∀ sinceMs,
        s.clock - retentionMs ≤ sinceMs
        → ((samplesFrom sinceMs s.inserted).map Sample.row).Sublist s.store.containerSample

section Steps

variable {host : String} {store after : Store} {step : StoreStep} {sinceMs : ℕ}
  {inserted : List Sample}

theorem StoreStep.Spares.mono {later : ℕ} (spares : step.Spares sinceMs) (le : sinceMs ≤ later)
    : step.Spares later := by
  cases step with
  | pruneRaw beforeMs => exact le_trans spares le
  | insertSamples | insertContainerTrends | pruneTrends => trivial

theorem containerSample_insertContainerTrends {trends : List ContainerTrend}
    (ran : store.insertContainerTrends trends = .ok after)
    : after.containerSample = store.containerSample := by
  unfold Store.insertContainerTrends at ran
  split at ran
  · cases ran
    rfl
  · obtain ⟨table, _, same⟩ := FallibleLists.bind_eq_ok_iff.mp ran
    cases same
    rfl

/-- A step that spares the samples from a time on adds what it inserts to them. By cases on the
step: only pruning removes rows, and its cutoff is not later.
-/
theorem StoreStep.run_holds (ran : step.run host store = .ok after)
    (spares : step.Spares sinceMs)
    (holds : ((samplesFrom sinceMs inserted).map Sample.row).Sublist store.containerSample)
    : ((samplesFrom sinceMs (inserted ++ step.inserts host)).map Sample.row).Sublist
        after.containerSample := by
  cases step with
  | insertSamples tsMs containers =>
      rw [StoreStep.run, Store.insertSamples_eq] at ran
      cases ran
      rw [samplesFrom, List.filter_append, List.map_append]
      apply holds.append
      have rows
          : (StoreStep.inserts host (.insertSamples tsMs containers)).map Sample.row
            = containers.map (SampleRow.ofContainer host tsMs) := by
        rw [StoreStep.inserts, List.map_map]
        rfl
      rw [← rows]
      exact List.filter_sublist.map Sample.row
  | insertContainerTrends trends =>
      rw [containerSample_insertContainerTrends ran]
      simpa [StoreStep.inserts] using holds
  | pruneRaw beforeMs =>
      cases ran
      have kept
          : ((samplesFrom sinceMs inserted).map Sample.row).filter
              (fun row => ¬ row.tsMs < toDb beforeMs)
            = (samplesFrom sinceMs inserted).map Sample.row := by
        apply List.filter_eq_self.mpr
        intro row member
        obtain ⟨sample, recent, rfl⟩ := List.mem_map.mp member
        have since : sinceMs ≤ sample.tsMs := by simpa using (List.mem_filter.mp recent).2
        have bound : toDb beforeMs ≤ toDb sample.tsMs := toDb_mono (le_trans spares since)
        exact decide_eq_true (not_lt.mpr bound)
      rw [show StoreStep.inserts host (.pruneRaw beforeMs) = [] from rfl, List.append_nil, ← kept]
      exact holds.filter _
  | pruneTrends beforeMs =>
      cases ran
      rw [show StoreStep.inserts host (.pruneTrends beforeMs) = [] from rfl, List.append_nil]
      exact holds

/-- A turn of the loop keeps the settings; it is to persist nothing, or a cycle with what the
bucketer flushed. By cases on whether containers were listed and whether it was the first cycle.
-/
theorem Collector.tick_cases {collector next : Collector}
    {hashOrder : List ContainerTrend → List ContainerTrend}
    {listing : Except BollardError (List ListedContainer)}
    {fetchStats : String → Option StatsSample} {now tsMs : ℕ}
    (idle : collector.pending = [])
    (ticked : collector.tick hashOrder listing fetchStats now tsMs = some next)
    : next.config = collector.config
      ∧ (next.pending = []
        ∨ ∃ containers bucketer flushed,
            collector.bucketer.push { tsMs, containers } = some (bucketer, flushed)
            ∧ next.pending
              = [.insertSamples tsMs containers, .insertContainerTrends (hashOrder flushed)]
                ++ collector.pruneSteps tsMs) := by
  unfold Collector.tick at ticked
  split at ticked
  · cases ticked
    exact ⟨rfl, .inl idle⟩
  split at ticked
  · cases ticked
    exact ⟨rfl, .inl idle⟩
  obtain ⟨⟨bucketer, flushed⟩, pushed, same⟩ := Option.bind_eq_some_iff.mp ticked
  cases same
  exact ⟨rfl, .inr ⟨_, bucketer, flushed, pushed, rfl⟩⟩

/-- A step that prunes what has aged out has the cutoff of its kind. -/
theorem Collector.mem_pruneSteps {collector : Collector} {tsMs : ℕ} {step : StoreStep}
    (member : step ∈ collector.pruneSteps tsMs)
    : step = .pruneRaw (tsMs - durationMs collector.config.rawRetention)
      ∨ step = .pruneTrends (tsMs - durationMs collector.config.trendRetention) := by
  simp only [Collector.pruneSteps] at member
  split at member
  · simpa using member
  · cases member

/-- A turn of the loop keeps the settings, and its cutoff is the clock less the retention, which
only the pruning step has.
-/
theorem Collector.tick_due {collector next : Collector}
    {hashOrder : List ContainerTrend → List ContainerTrend}
    {listing : Except BollardError (List ListedContainer)}
    {fetchStats : String → Option StatsSample} {now tsMs : ℕ}
    (idle : collector.pending = [])
    (ticked : collector.tick hashOrder listing fetchStats now tsMs = some next)
    : next.config = collector.config
      ∧ ∀ step ∈ next.pending,
          step.Spares (tsMs - durationMs collector.config.rawRetention) := by
  unfold Collector.tick at ticked
  split at ticked
  · cases ticked
    exact ⟨rfl, fun step member => absurd (idle ▸ member) List.not_mem_nil⟩
  split at ticked
  · cases ticked
    exact ⟨rfl, fun step member => absurd (idle ▸ member) List.not_mem_nil⟩
  obtain ⟨⟨bucketer, flushed⟩, _, same⟩ := Option.bind_eq_some_iff.mp ticked
  cases same
  refine ⟨rfl, ?_⟩
  intro step member
  rcases List.mem_append.mp member with insert | prune
  · simp only [List.mem_cons, List.not_mem_nil, or_false] at insert
    rcases insert with rfl | rfl <;> trivial
  · simp only [Collector.pruneSteps] at prune
    split at prune
    · simp only [List.mem_cons, List.not_mem_nil, or_false] at prune
      rcases prune with rfl | rfl
      · exact le_rfl
      · trivial
    · cases prune

end Steps

section Runs

variable {ι : Type} {s next : System ι} {retentionMs : ℕ} {cfg : AppConfig} {past : List Sample}

theorem System.Started.retains (started : s.Started cfg past)
    : s.Retains (durationMs (seedWindow cfg)) where
  configured i := by
    obtain ⟨_, _, same⟩ := started.collectors i
    rw [same]
    rfl
  due i step member := by
    obtain ⟨_, _, same⟩ := started.collectors i
    rw [same] at member
    cases member
  holds sinceMs _ := by
    rw [started.inserted, started.samples]
    exact List.filter_sublist.map Sample.row

variable [DecidableEq ι]

/-- A collector may be replaced by one of the same configuration whose steps lose nothing. -/
theorem System.Retains.withCollector (retains : s.Retains retentionMs) {i : ι}
    {collector : Collector} (sameConfig : collector.config = (s.collectors i).config)
    (spares : ∀ step ∈ collector.pending, step.Spares (s.clock - retentionMs))
    : (s.withCollector i collector).Retains retentionMs where
  configured :=
    (Function.forall_update_iff s.collectors
        (fun _ c => durationMs c.config.rawRetention = retentionMs)).mpr
      ⟨by rw [sameConfig]; exact retains.configured i, fun j _ => retains.configured j⟩
  due :=
    (Function.forall_update_iff s.collectors
        (fun _ c => ∀ step ∈ c.pending, step.Spares (s.clock - retentionMs))).mpr
      ⟨spares, fun j _ => retains.due j⟩
  holds := retains.holds

/-- Every step of the system keeps what is retained. A later clock only moves the cutoff on; a
turn adds steps whose cutoff is the clock's; a write is `StoreStep.run_holds`.
-/
theorem System.Step.retains (step : System.Step s next) (retains : s.Retains retentionMs)
    : next.Retains retentionMs := by
  cases step with
  | wait now later =>
      have cutoff : s.clock - retentionMs ≤ now - retentionMs := Nat.sub_le_sub_right later _
      exact ⟨retains.configured, fun i step member => (retains.due i step member).mono cutoff,
        fun sinceMs recent => retains.holds sinceMs (cutoff.trans recent)⟩
  | tick i collector hashOrder listing fetchStats now idle _ ticked =>
      obtain ⟨same, spares⟩ := Collector.tick_due idle ticked
      rw [retains.configured i] at spares
      exact retains.withCollector same spares
  | persist i step rest store pending ran =>
      have spares : ∀ other ∈ step :: rest, other.Spares (s.clock - retentionMs) :=
        pending ▸ retains.due i
      have persisted : (s.withCollector i { s.collectors i with pending := rest }).Retains _ :=
        retains.withCollector rfl (List.forall_mem_cons.mp spares).2
      refine ⟨persisted.configured, persisted.due, ?_⟩
      intro sinceMs recent
      exact StoreStep.run_holds ran ((List.forall_mem_cons.mp spares).1.mono recent)
        (retains.holds sinceMs recent)
  | fail i step rest pending =>
      exact retains.withCollector rfl (fun _ member => absurd member List.not_mem_nil)

theorem System.Started.run_retains {start : System ι} (started : start.Started cfg past)
    (run : Relation.ReflTransGen System.Step start s)
    : s.Retains (durationMs (seedWindow cfg)) := by
  induction run with
  | refl => exact started.retains
  | tail _ step ih => exact step.retains ih

/-- A window that is served from raw samples has lost none to pruning.
Witness: it starts no earlier than the clock less the retention, and so after all cutoffs.
-/
theorem rawWindow_whole {start : System ι} (started : start.Started cfg past)
    (run : Relation.ReflTransGen System.Step start s) {q : HistoryQuery} {w : HistoryWindow}
    (resolved : resolveHistory q (seedWindow cfg) s.clock = some w) (raw : w.raw = true)
    : ((s.inserted.filter
          (fun sample => w.sinceMs ≤ sample.tsMs ∧ sample.tsMs ≤ w.untilMs)).map
        Sample.row).Sublist s.store.containerSample := by
  have recent : s.clock - durationMs (seedWindow cfg) ≤ w.sinceMs := by
    obtain ⟨_, _, rfl⟩ := Option.map_eq_some_iff.mp resolved
    exact of_decide_eq_true raw
  have inWindow
      : s.inserted.filter (fun sample => w.sinceMs ≤ sample.tsMs ∧ sample.tsMs ≤ w.untilMs)
        = (samplesFrom w.sinceMs s.inserted).filter (fun sample => sample.tsMs ≤ w.untilMs) := by
    rw [samplesFrom, List.filter_filter]
    apply List.filter_congr
    intro sample _
    rw [Bool.decide_and, Bool.and_comm]
  rw [inWindow]
  exact (List.filter_sublist.map Sample.row).trans ((started.run_retains run).holds _ recent)

end Runs

section HourlyPrune

/-- A configuration that keeps samples for an hour. -/
def hourlyConfig : AppConfig where
  bind := []
  dbPath := []
  intervalSecs := 3
  rawRetentionSecs := 3600
  trendBucketSecs := 60
  trendRetentionSecs := 86400
  pruneIntervalSecs := 3600
  allowedHosts := []
  appriseUrl := none
  notifyDelaySecs := 0
  authUser := none
  authPassword := none
  cookieSecure := false
  apiToken := none
  log := []
  overview := { cpuScale := .sqrt, memScale := .log, memCap := 0 }
  hosts := []

/-- A stopped container. -/
def stopped : ContainerMetrics where
  id := "a"
  name := "web"
  image := ""
  state := .exited
  status := ""
  health := .none
  stack := none
  cpuPercent := none
  memUsed := none
  memLimit := none
  netRxBps := none
  netTxBps := none
  diskReadBps := none
  diskWriteBps := none
  ports := []

/-- A store with an old and a recent sample of a container. -/
def hourlyStart : System Unit where
  collectors _ := .started "local" (collectorConfig hourlyConfig 3)
  store :=
    { Store.empty with
      containerSample := [.ofContainer "local" 0 stopped, .ofContainer "local" 9000000 stopped] }
  clock := 10000000
  inserted :=
    [{ host := "local", tsMs := 0, container := stopped },
      { host := "local", tsMs := 9000000, container := stopped }]

theorem hourlyStart_started
    : hourlyStart.Started hourlyConfig hourlyStart.inserted where
  collectors _ := ⟨_, _, rfl⟩
  inserted := rfl
  samples := rfl

/-- The first cycle after the priming one prunes the old sample. -/
theorem hourly_pruned
    : ∃ s,
        Relation.ReflTransGen System.Step hourlyStart s
        ∧ s.store.containerSample = [.ofContainer "local" 9000000 stopped]
        ∧ s.clock = 10000000 := by
  have primed := Relation.ReflTransGen.single (System.Step.tick hourlyStart () _ id (.ok [])
    (fun _ => none) 0 rfl (fun _ => .refl _) rfl)
  have cycled := primed.tail (.tick _ () _ id (.ok []) (fun _ => none) 1 rfl (fun _ => .refl _) rfl)
  have sampled := cycled.tail (.persist _ () _ _ _ rfl rfl)
  have stored := sampled.tail (.persist _ () _ _ _ rfl rfl)
  have pruned := stored.tail (.persist _ () _ _ _ rfl rfl)
  exact ⟨_, pruned, rfl, rfl⟩

/-- Witness: the hourly run, in which the window since the recent sample is served from the
samples left.
-/
theorem rawWindow_whole_hourly
    : ∃ s : System Unit,
        s.store.containerSample = [.ofContainer "local" 9000000 stopped]
        ∧ ((s.inserted.filter
              (fun sample => 9000000 ≤ sample.tsMs ∧ sample.tsMs ≤ 10000000)).map
            Sample.row).Sublist s.store.containerSample := by
  obtain ⟨s, run, rows, clock⟩ := hourly_pruned
  let q : HistoryQuery := { range := none, sinceMs := some 9000000, untilMs := some 10000000 }
  have resolved
      : resolveHistory q (seedWindow hourlyConfig) s.clock
        = some {
            sinceMs := 9000000
            untilMs := 10000000
            groupMs := groupForWindow 1000000
            raw := true
          } := by
    rw [clock]
    simp [resolveHistory, HistoryQuery.bounds, q, seedWindow, Duration.fromSecs, durationMs,
      hourlyConfig, u64Max]
  exact ⟨s, rows, rawWindow_whole hourlyStart_started run resolved rfl⟩

end HourlyPrune

end DockDoe
