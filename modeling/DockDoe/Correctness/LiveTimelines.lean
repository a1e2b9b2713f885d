import DockDoe.Correctness.ChartedLines
import DockDoe.Correctness.LiveConnections
import DockDoe.Correctness.MirroredHosts
import DockDoe.Correctness.SampleSeeds

/-! The charts of a page never go back in time while the wall clock of the host does not: what was
missed is fetched before the stream is opened again, and the stream starts with the latest that
was published.
-/

namespace DockDoe

open BrokenLines

-----------------------------------------------------------------------------------------
-- The store
-----------------------------------------------------------------------------------------

/-- A container's samples are read from its rows, oldest first: the rows without a CPU value are
left out, so none fails to be read.
-/
theorem recentContainerSamples_spec {store : Store} {host id : String} {sinceMs : ℕ}
    {points : List MetricPoint}
    (found : store.recentContainerSamples host id sinceMs = .ok points)
    : points.Pairwise (fun left right => left.tsMs ≤ right.tsMs)
      ∧ ∀ p ∈ points, ∃ row ∈ store.containerSample,
          row.host = host ∧ toDb sinceMs ≤ row.tsMs ∧ p.tsMs = fromDb row.tsMs := by
  let selected := store.containerSample.filter
    (fun row => row.host = host ∧ row.id = id ∧ toDb sinceMs ≤ row.tsMs)
  let ordered := selected.insertionSort (fun left right => left.tsMs ≤ right.tsMs)
  have query : ordered.mapM (fun row => rowToPoint row.selectPoint) = .ok points := found
  have readable : ∀ row ∈ ordered, row.cpuPercent.isSome := by
    intro row member
    rw [← Option.ne_none_iff_isSome]
    intro absent
    obtain ⟨error, failed⟩ := mapM_rowToPoint_error member absent
    rw [failed] at query
    cases query
  rw [mapM_rowToPoint readable] at query
  obtain rfl := Except.ok.inj query
  refine ⟨points_sorted selected, ?_⟩
  intro p member
  obtain ⟨row, inOrder, rfl⟩ := List.mem_map.mp member
  have inSelected := (List.perm_insertionSort _ selected).mem_iff.mp inOrder
  obtain ⟨stored, wanted⟩ := List.mem_filter.mp inSelected
  obtain ⟨sameHost, -, recent⟩ := of_decide_eq_true wanted
  exact ⟨row, stored, sameHost, recent, rfl⟩

namespace MonitoredHost

variable {host : String} {h next : MonitoredHost}

/-- The time of the latest cycle. -/
def clock (h : MonitoredHost) : ℕ :=
  h.cycles.getLast?.getD 0

/-- The wall clock has not been set back between two cycles, and its milliseconds can be stored. -/
structure Steady (h : MonitoredHost) : Prop where
  ordered : h.cycles.Pairwise (· ≤ ·)
  inRange : ∀ tsMs ∈ h.cycles, tsMs < i64Max

theorem Steady.earlier (steady : next.Steady) (earlier : h.cycles <+: next.cycles) : h.Steady where
  ordered := steady.ordered.sublist earlier.sublist
  inRange tsMs member := steady.inRange tsMs (earlier.subset member)

/-- A further cycle of a steady clock is not before the latest. -/
theorem Steady.clock_le {tsMs : ℕ} (steady : next.Steady)
    (cycles : next.cycles = h.cycles ++ [tsMs])
    : h.clock ≤ tsMs := by
  have ordered := steady.ordered
  rw [cycles] at ordered
  unfold clock
  cases last : h.cycles.getLast? with
  | none => exact Nat.zero_le tsMs
  | some latest =>
      exact (List.pairwise_append.mp ordered).2.2 latest (List.mem_of_getLast? last) tsMs
        (List.mem_singleton_self tsMs)

/-- Cycles are only added. -/
theorem Step.cycles_prefix (step : Step host h next) : h.cycles <+: next.cycles := by
  cases step with
  | publish => exact List.prefix_append _ _
  | _ => exact List.prefix_rfl

/-- The shared dashboard is that of the latest cycle, and the rows of the host are not later. -/
structure Dated (host : String) (h : MonitoredHost) : Prop where
  shared : ∀ dash ∈ h.shared, dash.generatedAtUnixMs = h.clock
  unsaved : ∀ dash ∈ h.unsaved, dash.generatedAtUnixMs ≤ h.clock
  stored : ∀ row ∈ h.store.containerSample, row.host = host → row.tsMs ≤ toDb h.clock
  inRange : h.clock < i64Max

/-- While the clock is steady a cycle is the latest one, so that every row stays behind it. By
cases on the step; the rows of other hosts do not count.
-/
theorem Dated.step (dated : h.Dated host) (step : Step host h next) (steady : next.Steady)
    : next.Dated host ∧ h.clock ≤ next.clock := by
  obtain ⟨shared, unsaved, stored, inRange⟩ := dated
  cases step with
  | publish dash idle =>
      have later := steady.clock_le rfl
      have now
          : MonitoredHost.clock
              { h with
                shared := some dash
                unsaved := some dash
                cycles := h.cycles ++ [dash.generatedAtUnixMs] }
            = dash.generatedAtUnixMs := by
        rw [clock, List.getLast?_concat, Option.getD_some]
      rw [now]
      refine ⟨⟨?_, ?_, ?_, ?_⟩, later⟩
      · simp [now]
      · simp [now]
      · intro row member own
        rw [now]
        exact (stored row member own).trans (toDb_mono later)
      · rw [now]
        exact steady.inRange _ (by simp)
  | @persist dash store due inserted =>
      rw [Store.insertSamples_eq] at inserted
      obtain rfl := Except.ok.inj inserted
      refine ⟨⟨shared, by simp, ?_, inRange⟩, le_rfl⟩
      intro row member own
      rcases List.mem_append.mp member with old | new
      · exact stored row old own
      · obtain ⟨c, -, rfl⟩ := List.mem_map.mp new
        exact toDb_mono (unsaved dash due)
  | persistFails => exact ⟨⟨shared, by simp, stored, inRange⟩, le_rfl⟩
  | prune beforeMs =>
      refine ⟨⟨shared, unsaved, ?_, inRange⟩, le_rfl⟩
      intro row member own
      exact stored row (List.mem_filter.mp member).1 own
  | @others other tsMs containers store different inserted =>
      rw [Store.insertSamples_eq] at inserted
      obtain rfl := Except.ok.inj inserted
      refine ⟨⟨shared, unsaved, ?_, inRange⟩, le_rfl⟩
      intro row member own
      rcases List.mem_append.mp member with old | new
      · exact stored row old own
      · obtain ⟨c, -, rfl⟩ := List.mem_map.mp new
        exact absurd own different
  | restart => exact ⟨⟨by simp, by simp, stored, inRange⟩, le_rfl⟩

/-- While the clock is steady every reachable host is dated, by induction on its steps. -/
theorem Reachable.dated (reachable : Reachable host h) (steady : h.Steady) : h.Dated host := by
  induction reachable with
  | started =>
      exact ⟨by simp [MonitoredHost.started], by simp [MonitoredHost.started],
        by simp [MonitoredHost.started, Store.empty],
        by norm_num [MonitoredHost.started, clock, i64Max]⟩
  | step _ step ih => exact ((ih (steady.earlier step.cycles_prefix)).step step steady).1

/-- What the store answers is not later than the latest cycle, and not before what was asked, as
its rows are dated; a failure answers nothing.
-/
theorem Dated.fetched (dated : h.Dated host) (id : String) (sinceMs : ℕ)
    : (fetchPoints (h.store.recentContainerSamples host id sinceMs)).Pairwise
        (fun left right => left.tsMs ≤ right.tsMs)
      ∧ ∀ p ∈ fetchPoints (h.store.recentContainerSamples host id sinceMs),
          p.tsMs ≤ h.clock ∧ min sinceMs i64Max ≤ p.tsMs := by
  cases found : h.store.recentContainerSamples host id sinceMs with
  | error err => exact ⟨.nil, nofun⟩
  | ok points =>
      obtain ⟨sorted, rows⟩ := recentContainerSamples_spec found
      refine ⟨sorted, ?_⟩
      intro p member
      obtain ⟨row, stored, own, recent, same⟩ := rows p member
      have notLater := dated.stored row stored own
      rw [toDb_eq_min] at notLater recent
      rw [same, fromDb]
      omega

end MonitoredHost

-----------------------------------------------------------------------------------------
-- Points in the order of their seconds
-----------------------------------------------------------------------------------------

/-- Points in the order of their seconds, none later than a time. -/
structure Timely (clock : ℕ) (points : List MetricPoint) : Prop where
  ordered : (points.map MetricPoint.secs).Pairwise (· ≤ ·)
  bounded : ∀ p ∈ points, p.tsMs ≤ clock

section Points

variable {clock : ℕ} {points more : List MetricPoint}

theorem MetricPoint.secs_mono {p q : MetricPoint} (le : p.tsMs ≤ q.tsMs) : p.secs ≤ q.secs := by
  unfold MetricPoint.secs
  omega

theorem Timely.mono (timely : Timely clock points) {later : ℕ} (le : clock ≤ later)
    : Timely later points where
  ordered := timely.ordered
  bounded p member := (timely.bounded p member).trans le

/-- Points in order after points in order are in order. -/
theorem Timely.append (timely : Timely clock points) (others : Timely clock more)
    (after : ∀ p ∈ points, ∀ q ∈ more, p.secs ≤ q.secs)
    : Timely clock (points ++ more) where
  ordered := by
    rw [List.map_append]
    refine List.pairwise_append.mpr ⟨timely.ordered, others.ordered, ?_⟩
    intro a inPoints b inMore
    obtain ⟨p, member, rfl⟩ := List.mem_map.mp inPoints
    obtain ⟨q, other, rfl⟩ := List.mem_map.mp inMore
    exact after p member q other
  bounded p member := by
    rcases List.mem_append.mp member with earlier | later
    · exact timely.bounded p earlier
    · exact others.bounded p later

theorem Timely.left (timely : Timely clock (points ++ more)) : Timely clock points where
  ordered := by
    have ordered := timely.ordered
    rw [List.map_append] at ordered
    exact (List.pairwise_append.mp ordered).1
  bounded p member := timely.bounded p (List.mem_append_left _ member)

/-- The points of the latest snapshot come after all others: it has one of the container at most,
with the clock's time.
-/
theorem Timely.yields (timely : Timely clock points) {id : String} {dash : Dashboard}
    (latest : dash.generatedAtUnixMs = clock)
    : Timely clock (points ++ containerPoints id dash) := by
  have now : ∀ q ∈ containerPoints id dash, q.tsMs = clock := by
    intro q member
    obtain ⟨c, -, rfl⟩ := List.mem_map.mp member
    exact latest
  refine timely.append ⟨?_, fun q member => (now q member).le⟩ ?_
  · unfold containerPoints
    cases dash.containers.find? (fun c => c.id == id) <;> simp
  · intro p member q isNew
    exact MetricPoint.secs_mono ((timely.bounded p member).trans (now q isNew).ge)

/-- What the store answers comes after everything that the charts show: it is sorted, and no
older than what was asked.
-/
theorem Timely.fetches {h : MonitoredHost} {host id : String} {sinceMs : ℕ}
    (timely : Timely h.clock points) (dated : h.Dated host) (small : sinceMs ≤ i64Max)
    (recent : ∀ p ∈ points, ∀ q : MetricPoint, sinceMs ≤ q.tsMs → p.secs ≤ q.secs)
    {window : Duration} {now : ℕ}
    : Timely h.clock (points ++ fetchPoints
        (h.store.recentContainerSamples host id (clampSince sinceMs window now))) := by
  obtain ⟨sorted, bounds⟩ := dated.fetched id (clampSince sinceMs window now)
  refine timely.append ⟨?_, fun q member => (bounds q member).1⟩ ?_
  · exact List.pairwise_map.mpr (sorted.imp MetricPoint.secs_mono)
  · intro p member q fetched
    have notBefore := (bounds q fetched).2
    apply recent p member q
    unfold clampSince at notBefore
    omega

/-- Points in order are not later than the last, by splitting it off. -/
theorem Timely.le_last (timely : Timely clock points) {last : MetricPoint}
    (isLast : points.getLast? = some last)
    : ∀ p ∈ points, p.secs ≤ last.secs := by
  intro p member
  obtain ⟨rest, rfl⟩ := List.getLast?_eq_some_iff.mp isLast
  rcases List.mem_append.mp member with earlier | same
  · have ordered := timely.ordered
    rw [List.map_append] at ordered
    exact (List.pairwise_append.mp ordered).2.2 _ (List.mem_map_of_mem earlier) _ (by simp)
  · rw [List.mem_singleton.mp same]

/-- A recorder ends at the sample that it was given last. -/
theorem endTime_record {gap : ℤ} (entries : List (Entry MetricPoint)) (p : MetricPoint)
    : endTime MetricPoint.secs (BrokenLines.record MetricPoint.secs gap maxPoints entries p)
      = some p.secs := by
  unfold BrokenLines.record
  split
  · assumption
  · rw [endTime_rtake (by decide), endTime_extend]

end Points

-----------------------------------------------------------------------------------------
-- The page
-----------------------------------------------------------------------------------------

namespace LiveSystem

/-- The charts of a page show what has come to them, and end where it ends. -/
def EndsWith (charts : LiveCharts) (points : List MetricPoint) : Prop :=
  ∃ entries,
    charts.Shows entries
    ∧ endTime MetricPoint.secs entries = points.getLast?.map MetricPoint.secs

theorem EndsWith.addPoint {charts : LiveCharts} {points : List MetricPoint}
    (endsWith : EndsWith charts points) (p : MetricPoint)
    : EndsWith (charts.addPoint p) (points ++ [p]) := by
  obtain ⟨entries, shows, -⟩ := endsWith
  exact ⟨_, shows.addPoint p, by simp [endTime_record]⟩

theorem EndsWith.backfill {charts : LiveCharts} {points : List MetricPoint}
    (endsWith : EndsWith charts points) (more : List MetricPoint)
    : EndsWith (charts.backfill more) (points ++ more) := by
  induction more generalizing charts points with
  | nil => simpa [LiveCharts.backfill] using endsWith
  | cons p rest ih =>
      have next := ih (endsWith.addPoint p)
      rwa [List.append_assoc, List.singleton_append] at next

/-- A request asks for nothing before the last second of the charts, which the CPU chart ends
with as all others do.
-/
theorem EndsWith.since_le {charts : LiveCharts} {points : List MetricPoint}
    (endsWith : EndsWith charts points) {clock : ℕ} (timely : Timely clock points)
    (inRange : clock < i64Max)
    : charts.sinceMs.toNat ≤ i64Max
      ∧ ∀ p ∈ points, ∀ q : MetricPoint, charts.sinceMs.toNat ≤ q.tsMs → p.secs ≤ q.secs := by
  obtain ⟨entries, shows, ends⟩ := endsWith
  have last : charts.cpu.times.getLast? = points.getLast?.map MetricPoint.secs := by
    rw [shows.cpu, ChartData.getLast?_times_ofEntries, ends]
  unfold LiveCharts.sinceMs
  rw [last]
  cases final : points.getLast? with
  | none =>
      obtain rfl := List.getLast?_eq_none_iff.mp final
      refine ⟨?_, nofun⟩
      norm_num [i64Max]
  | some p =>
      have bounded := timely.bounded p (List.mem_of_getLast? final)
      constructor
      · simp only [Option.map_some, Option.getD_some, MetricPoint.secs]
        omega
      · intro earlier member q recent
        have notLater := timely.le_last final earlier member
        simp only [Option.map_some, Option.getD_some, MetricPoint.secs] at recent notLater ⊢
        omega

/-- What has come to the charts of a page is in order, and so is what may come next. -/
structure Timeline (s : LiveSystem) (points : List MetricPoint) : Prop where
  fetches : s.page.hasBackfillUrl = true
  charts : ∃ charts, s.page.charts = some charts ∧ EndsWith charts points
  timely : Timely s.host.clock points
  streamed : ∀ source ∈ s.page.sources, Timely s.host.clock (points ++ source.inFlight)
  asked : ∀ sinceMs, s.page.backfilling = some (.asked sinceMs)
    → sinceMs ≤ i64Max ∧ ∀ p ∈ points, ∀ q : MetricPoint, sinceMs ≤ q.tsMs → p.secs ≤ q.secs
  answered : ∀ more, s.page.backfilling = some (.answered more)
    → Timely s.host.clock (points ++ more)

variable {host id : String} {window : Duration} {s t : LiveSystem} {points : List MetricPoint}

section Connections

variable {page : LivePage} {h : MonitoredHost}

/-- A stream that is opened has nothing on its way, so what comes to the charts stays in order. -/
theorem Timeline.openStream (timeline : Timeline ⟨h, page⟩ points)
    : Timeline ⟨h, page.openStream⟩ points := by
  unfold LivePage.openStream
  split
  · exact timeline
  · refine { timeline with streamed := ?_ }
    intro source member
    rcases List.mem_append.mp member with old | new
    · exact timeline.streamed source old
    · obtain rfl := List.mem_singleton.mp new
      simpa using timeline.timely

/-- What is closed delivers nothing more, so what comes to the charts stays in order. -/
theorem Timeline.disconnect (timeline : Timeline ⟨h, page⟩ points)
    : Timeline ⟨h, page.disconnect⟩ points := by
  unfold LivePage.disconnect
  split
  · exact timeline
  · refine { timeline with streamed := ?_ }
    intro source member
    exact timeline.streamed source (List.mem_filter.mp member).1

/-- A page with charts fetches what it has missed before it opens a stream. -/
theorem connect_cases {charts : LiveCharts} (has : page.charts = some charts)
    (url : page.hasBackfillUrl = true)
    : page.connect = page
      ∨ page.connect = { page with backfilling := some (.asked charts.sinceMs.toNat) } := by
  unfold LivePage.connect
  split
  · exact .inl rfl
  · right
    rw [has, url]

/-- A page that connects asks for what it has missed, and not for more; otherwise nothing
changes.
-/
theorem Timeline.connect (timeline : Timeline ⟨h, page⟩ points) (inRange : h.clock < i64Max)
    : Timeline ⟨h, page.connect⟩ points := by
  obtain ⟨charts, has, endsWith⟩ := timeline.charts
  rcases connect_cases has timeline.fetches with same | asks
  · rwa [same]
  · rw [asks]
    refine { timeline with asked := ?_, answered := nofun }
    intro sinceMs asked
    cases asked
    exact endsWith.since_le timeline.timely inRange

/-- What the script sets besides its connections does not matter, field by field. -/
theorem Timeline.of_same {other : LivePage} (timeline : Timeline ⟨h, page⟩ points)
    (same
      : other
        = {
          page with
          hidden := other.hidden
          away := other.away
          reconnectTimer := other.reconnectTimer
        })
    : Timeline ⟨h, other⟩ points := by
  rw [same]
  exact {
    fetches := timeline.fetches
    charts := timeline.charts
    timely := timeline.timely
    streamed := timeline.streamed
    asked := timeline.asked
    answered := timeline.answered
  }

theorem Timeline.connectUnlessHidden (timeline : Timeline ⟨h, page⟩ points)
    (inRange : h.clock < i64Max)
    : Timeline ⟨h, if page.hidden then page else page.connect⟩ points := by
  split
  · exact timeline
  · exact timeline.connect inRange

end Connections

/-- A page that fetches has no stream, so what it fetches comes next, after which it may open
one.
-/
theorem Timeline.backfilled (timeline : Timeline s points) (managed : s.page.Managed)
    (pending : s.page.backfilling.isSome = true) (more : List MetricPoint)
    (timely : Timely s.host.clock (points ++ more))
    : Timeline { s with page := s.page.backfilled more } (points ++ more) := by
  have unknown : s.page.es = none := by
    by_contra known
    rw [managed.exclusive (Option.isSome_iff_ne_none.mpr known)] at pending
    cases pending
  have closed : s.page.sources = [] := by
    simpa [unknown] using managed.single
  obtain ⟨charts, has, endsWith⟩ := timeline.charts
  let filled : LivePage := {
    s.page with
    charts := s.page.charts.map (fun charts => charts.backfill more)
    backfilling := none
  }
  have still : Timeline ⟨s.host, filled⟩ (points ++ more) := {
    fetches := timeline.fetches
    charts := ⟨charts.backfill more, by simp [filled, has], endsWith.backfill more⟩
    timely := timely
    streamed := by simp [filled, closed]
    asked := nofun
    answered := nofun
  }
  show Timeline ⟨s.host, if filled.hidden then filled else filled.openStream⟩ _
  split
  · exact still
  · exact still.openStream

/-- A page that has a stream has no other, and fetches nothing, since it knows the only one. -/
theorem alone {page : LivePage} (managed : page.Managed) {source : EventSource}
    {before after : List EventSource} (sources : page.sources = before ++ source :: after)
    : before = [] ∧ after = [] ∧ page.backfilling = none := by
  have ids := managed.single
  rw [sources, List.map_append, List.map_cons] at ids
  cases known : page.es with
  | none => simp [known] at ids
  | some id =>
      rw [known, Option.toList_some] at ids
      have lengths := congrArg List.length ids
      simp only [List.length_append, List.length_map, List.length_cons, List.length_nil] at lengths
      exact ⟨List.length_eq_zero_iff.mp (by omega), List.length_eq_zero_iff.mp (by omega),
        managed.exclusive (by simp [known])⟩

/-- A step keeps what comes to the charts in order: a page has one source at most, or waits for
what it has missed and has none. By cases on the step.
-/
theorem Timeline.step {arrivals : List LiveCharts.Arrival} (timeline : Timeline s points)
    (dated : s.host.Dated host) (managed : s.page.Managed)
    (step : Step host id window s arrivals t) (steady : t.host.Steady)
    : Timeline t (points ++ arrivals.flatMap LiveCharts.Arrival.points) := by
  cases step with
  | @host next step =>
      have later := (dated.step step steady).2
      rw [List.flatMap_nil, List.append_nil]
      exact {
        fetches := timeline.fetches
        charts := timeline.charts
        timely := timeline.timely.mono later
        streamed := fun source member => (timeline.streamed source member).mono later
        asked := timeline.asked
        answered := fun more answers => (timeline.answered more answers).mono later
      }
  | @accept source before after sources =>
      obtain ⟨rfl, rfl, -⟩ := alone managed sources
      rw [List.flatMap_nil, List.append_nil]
      refine { timeline with streamed := ?_ }
      intro other member
      obtain rfl := List.mem_singleton.mp member
      exact timeline.streamed source (by simp [sources])
  | @yield source before after stream next dash sources session yields =>
      obtain ⟨rfl, rfl, -⟩ := alone managed sources
      rw [List.flatMap_nil, List.append_nil]
      refine { timeline with streamed := ?_ }
      intro other member
      obtain rfl := List.mem_singleton.mp member
      rw [← List.append_assoc]
      exact (timeline.streamed source (by simp [sources])).yields
        (dated.shared dash (DashboardStream.of_poll yields).1)
  | @metrics source before after point rest sources arrives =>
      obtain ⟨rfl, rfl, idle⟩ := alone managed sources
      obtain ⟨charts, has, endsWith⟩ := timeline.charts
      have streamed := timeline.streamed source (by simp [sources])
      rw [arrives, ← List.singleton_append, ← List.append_assoc] at streamed
      exact {
        fetches := timeline.fetches
        charts := ⟨charts.addPoint point, by simp [has, LiveCharts.onMetrics],
          endsWith.addPoint point⟩
        timely := streamed.left
        streamed := by
          intro other member
          obtain rfl := List.mem_singleton.mp member
          exact streamed
        asked := by simp [idle]
        answered := by simp [idle]
      }
  | error member =>
      rw [List.flatMap_nil, List.append_nil]
      exact timeline.disconnect.of_same rfl
  | reconnect set =>
      rw [List.flatMap_nil, List.append_nil]
      have still : Timeline ⟨s.host, { s.page with reconnectTimer := false }⟩ points :=
        timeline.of_same rfl
      exact still.connectUnlessHidden dated.inRange
  | @answer sinceMs now asked =>
      rw [List.flatMap_nil, List.append_nil]
      obtain ⟨small, recent⟩ := timeline.asked sinceMs asked
      refine { timeline with asked := nofun, answered := ?_ }
      intro more answers
      cases answers
      exact timeline.timely.fetches dated small recent
  | @backfilled more answered =>
      have fetched := timeline.backfilled managed (by simp [answered]) more
        (timeline.answered more answered)
      simpa [LiveCharts.Arrival.points] using fetched
  | backfillFails pending =>
      have fetched := timeline.backfilled managed pending []
        (by simpa using timeline.timely)
      simpa [LiveCharts.Arrival.points] using fetched
  | visibilityChange hidden =>
      rw [List.flatMap_nil, List.append_nil]
      have still : Timeline ⟨s.host, { s.page with hidden }⟩ points := timeline.of_same rfl
      cases hidden with
      | true => exact still.disconnect
      | false => exact still.connect dated.inRange
  | pageHide =>
      rw [List.flatMap_nil, List.append_nil]
      exact timeline.disconnect.of_same rfl
  | pageShow =>
      rw [List.flatMap_nil, List.append_nil]
      have still : Timeline ⟨s.host, { s.page with away := false }⟩ points :=
        timeline.of_same rfl
      exact still.connect dated.inRange

-----------------------------------------------------------------------------------------
-- Runs
-----------------------------------------------------------------------------------------

variable {arrivals : List LiveCharts.Arrival}

theorem openStream_charts (page : LivePage) : page.openStream.charts = page.charts := by
  unfold LivePage.openStream
  split <;> rfl

theorem disconnect_charts (page : LivePage) : page.disconnect.charts = page.charts := by
  unfold LivePage.disconnect
  split <;> rfl

/-- Connecting leaves the charts alone. -/
theorem connect_charts (page : LivePage) : page.connect.charts = page.charts := by
  unfold LivePage.connect
  split
  · rfl
  · split
    · rfl
    · exact openStream_charts page

theorem loaded_charts (charts : Option LiveCharts) (hasBackfillUrl hidden : Bool)
    : (LivePage.loaded charts hasBackfillUrl hidden).charts = charts := by
  simp only [LivePage.loaded]
  split
  · rfl
  · rw [connect_charts]
    rfl

theorem backfilled_charts (page : LivePage) (points : List MetricPoint)
    : (page.backfilled points).charts = page.charts.map (fun charts => charts.backfill points) := by
  simp only [LivePage.backfilled]
  split
  · rfl
  · rw [openStream_charts]

/-- The charts take what arrives, and nothing else, by cases on the step. -/
theorem Step.charts (step : Step host id window s arrivals t)
    : t.page.charts
      = s.page.charts.map (fun charts => arrivals.foldl LiveCharts.handle charts) := by
  cases step with
  | host | accept | yield | answer => simp
  | metrics => rfl
  | error | pageHide =>
      exact (disconnect_charts s.page).trans (by simp)
  | reconnect =>
      simp only [LivePage.reconnect]
      split <;> simp [connect_charts]
  | backfilled => exact backfilled_charts _ _
  | backfillFails => exact backfilled_charts _ _
  | visibilityChange hidden =>
      simp only [LivePage.visibilityChange]
      split <;> simp [connect_charts, disconnect_charts]
  | pageShow => exact (connect_charts _).trans (by simp)

/-- Over a run, the charts take what arrives one after the other, by induction on its steps. -/
theorem Run.charts (run : Run host id window s arrivals t)
    : t.page.charts
      = s.page.charts.map (fun charts => arrivals.foldl LiveCharts.handle charts) := by
  induction run with
  | refl => simp
  | tail _ step ih =>
      rw [step.charts, ih, Option.map_map]
      congr 1
      funext charts
      simp

theorem Step.cycles_prefix (step : Step host id window s arrivals t)
    : s.host.cycles <+: t.host.cycles := by
  cases step with
  | host step => exact step.cycles_prefix
  | _ => exact List.prefix_rfl

theorem Run.cycles_prefix (run : Run host id window s arrivals t)
    : s.host.cycles <+: t.host.cycles := by
  induction run with
  | refl => exact List.prefix_rfl
  | tail _ step ih => exact ih.trans step.cycles_prefix

/-- Over a run, by induction on its steps. The clock was steady before if it is in the end. -/
theorem Run.timeline (timeline : Timeline s points) (dated : s.host.Dated host)
    (managed : s.page.Managed ∧ s.page.Live) (run : Run host id window s arrivals t)
    (steady : t.host.Steady)
    : Timeline t (points ++ arrivals.flatMap LiveCharts.Arrival.points) ∧ t.host.Dated host := by
  induction run with
  | refl => exact ⟨by simpa using timeline, dated⟩
  | tail run step ih =>
      obtain ⟨timeline, dated⟩ := ih (steady.earlier step.cycles_prefix)
      have next := timeline.step dated (run.managed managed).1 step steady
      rw [List.append_assoc, ← List.flatMap_append] at next
      refine ⟨next, ?_⟩
      cases step with
      | host step => exact (dated.step step steady).1
      | _ => exact dated

/-- A container's page is loaded with its seed out of the store. -/
structure Loaded (host id : String) (layout : ChartPage) (seed : List MetricPoint)
    (s : LiveSystem)
    : Prop where
  reachable : s.host.Reachable host
  fetched : ∃ sinceMs, seed = fetchPoints (s.host.store.recentContainerSamples host id sinceMs)
  page : ∃ charts hidden,
    LiveCharts.seeded layout seed = some charts ∧ s.page = .loaded (some charts) true hidden

/-- A page that has loaded shows its seed, which the store answered in order. -/
theorem Loaded.timeline {layout : ChartPage} {seed : List MetricPoint}
    (loaded : Loaded host id layout seed s) (steady : s.host.Steady)
    : Timeline s seed ∧ s.host.Dated host := by
  obtain ⟨reachable, ⟨sinceMs, rfl⟩, charts, hidden, seeded, page⟩ := loaded
  have dated := reachable.dated steady
  obtain ⟨sorted, bounds⟩ := dated.fetched id sinceMs
  have timely : Timely s.host.clock _ :=
    ⟨List.pairwise_map.mpr (sorted.imp MetricPoint.secs_mono), fun p member => (bounds p member).1⟩
  have fresh : Timeline ⟨s.host, .fresh (some charts) true hidden⟩ _ := {
    fetches := rfl
    charts := ⟨charts, rfl, _, (LiveCharts.shows_seeded seeded).2, endTime_line _⟩
    timely
    streamed := nofun
    asked := nofun
    answered := nofun
  }
  obtain ⟨host, own⟩ := s
  obtain rfl : own = _ := page
  exact ⟨fresh.connectUnlessHidden dated.inRange, dated⟩

/-- Over the whole life of a container's page, whatever the host, the server, the network and the
browser do, the charts take points in the order of their seconds and never go back in time,
unless the host's wall clock does. Witness: what may come next is not before what has come, for
the stream starts with the latest cycle, and a backfill ends with it.
-/
theorem charted_in_order {layout : ChartPage} {seed : List MetricPoint}
    (loaded : Loaded host id layout seed s) (run : Run host id window s arrivals t)
    (steady : t.host.Steady)
    : ∃ charts,
        t.page.charts = some charts
        ∧ LiveCharts.run layout seed arrivals = some charts
        ∧ ((seed ++ arrivals.flatMap LiveCharts.Arrival.points).map MetricPoint.secs).Pairwise
          (· ≤ ·)
        ∧ charts.Each (fun d => d.times.Pairwise (· ≤ ·)) := by
  obtain ⟨timeline, dated⟩ := loaded.timeline (steady.earlier run.cycles_prefix)
  obtain ⟨reachable, -, charts, hidden, seeded, page⟩ := loaded
  have managed := LivePage.loaded_managed (some charts) true hidden
  rw [← page] at managed
  obtain ⟨⟨-, ⟨now, has, -⟩, timely, -⟩, -⟩ :=
    run.timeline timeline dated managed steady
  have fed : LiveCharts.run layout seed arrivals = some now := by
    rw [LiveCharts.run, seeded, ← has, run.charts, page, loaded_charts]
  refine ⟨now, has, fed, timely.ordered, ?_⟩
  obtain ⟨threshold, shows⟩ := LiveCharts.shows_run fed
  have positive : 0 < now.gapSecs := by
    have := le_gapFromSpacing (seed.map MetricPoint.secs)
    omega
  exact shows.each (fun metric => pairwise_times (isChain_recorded positive timely.ordered))

/-- A cycle with one container. -/
def cycleAt (tsMs : ℕ) : Dashboard where
  generatedAtUnixMs := tsMs
  cpuCount := 2
  containers := [sampleContainer]

/-- The page of a container that has been sampled once. -/
def sampledPage : LiveSystem :=
  let rows := [SampleRow.ofContainer "local" 5000 sampleContainer]
  let store := { Store.empty with containerSample := rows }
  let seed := fetchPoints (store.recentContainerSamples "local" "deadbeef" 0)
  {
    host := { shared := some (cycleAt 5000), unsaved := none, store, cycles := [5000] }
    page := .loaded (LiveCharts.seeded everyChart seed) true false
  }

theorem sampledPage_loaded
    : Loaded "local" "deadbeef" everyChart
        (fetchPoints (sampledPage.host.store.recentContainerSamples "local" "deadbeef" 0))
        sampledPage where
  reachable := by
    have published : MonitoredHost.Reachable "local" _ :=
      .step .started (.publish (cycleAt 5000) rfl)
    exact published.step (.persist rfl (Store.insertSamples_eq _ _ _ _))
  fetched := ⟨0, rfl⟩
  page := ⟨_, false, rfl, rfl⟩

/-- The page misses a cycle while it is connecting, and takes it from the stream, step by step. -/
theorem sampledPage_run
    : ∃ t,
        Run "local" "deadbeef" 1000 sampledPage
          [.backfill [], .metrics (some (livePoint 10000 sampleContainer))] t
        ∧ t.host.cycles = [5000, 10000] := by
  have start : Run "local" "deadbeef" 1000 sampledPage [] sampledPage := .refl
  have run := start
    |>.tail (.backfillFails rfl)
    |>.tail (.host (.publish (cycleAt 10000) rfl))
    |>.tail (.accept [] [] rfl)
    |>.tail (.yield [] [] rfl rfl rfl)
    |>.tail (.metrics [] [] rfl rfl)
  exact ⟨_, run, rfl⟩

theorem charted_in_order_sampled
    : ∃ arrivals t charts,
        Run "local" "deadbeef" 1000 sampledPage arrivals t
        ∧ arrivals = [.backfill [], .metrics (some (livePoint 10000 sampleContainer))]
        ∧ t.page.charts = some charts
        ∧ charts.Each (fun d => d.times.Pairwise (· ≤ ·)) := by
  obtain ⟨t, run, cycles⟩ := sampledPage_run
  have steady : t.host.Steady := by
    constructor <;> simp [cycles, i64Max]
  obtain ⟨charts, has, -, -, ordered⟩ := charted_in_order sampledPage_loaded run steady
  exact ⟨_, t, charts, run, rfl, has, ordered⟩

end LiveSystem

end DockDoe
