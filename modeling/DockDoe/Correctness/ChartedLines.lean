import DockDoe.Foundations.BrokenLines
import DockDoe.Model.LiveCharts

/-! The live charts of a page show one broken line. Each chart keeps its own arrays, but all of
them are columns of the same entries: the samples that were taken and the holes between them.
-/

namespace DockDoe

open BrokenLines

/-- What an entry plots of a metric: an inserted hole is null. -/
def plottedEntry (metric : Metric) : Entry MetricPoint → Option ℚ
  | .sample p => p.plotted metric
  | .hole _ => none

namespace ChartData

variable {ι : Type}

/-- The arrays that show entries. -/
def ofEntries (metric : ι → Metric) (entries : List (Entry MetricPoint)) : ChartData ι :=
  {
    times := entries.map (Entry.time MetricPoint.secs)
    columns := fun i => entries.map (plottedEntry (metric i))
  }

-----------------------------------------------------------------------------------------
-- Every operation on arrays is one on their entries
-----------------------------------------------------------------------------------------

section Operations

variable (metric : ι → Metric) (entries : List (Entry MetricPoint)) (gapSecs : ℤ)
  (p : MetricPoint)

theorem getLast?_times_ofEntries
    : (ofEntries metric entries).times.getLast? = endTime MetricPoint.secs entries :=
  List.getLast?_map

theorem append_ofEntries_sample
    : (ofEntries metric entries).append p.secs (fun i => p.plotted (metric i))
      = ofEntries metric (entries ++ [.sample p]) := by
  simp [append, ofEntries, plottedEntry, Entry.time]

theorem append_ofEntries_hole (t : ℤ)
    : (ofEntries metric entries).append t (fun _ => none)
      = ofEntries metric (entries ++ [.hole t]) := by
  simp [append, ofEntries, plottedEntry, Entry.time]

/-- Breaking a line appends the hole that is recorded, by the cases of a last entry that is far
and one that is near.
-/
theorem breakLine_ofEntries
    : (ofEntries metric entries).breakLine gapSecs p.secs
      = ofEntries metric
          (entries ++ holeAfter MetricPoint.secs gapSecs (endTime MetricPoint.secs entries) p) := by
  rw [breakLine, getLast?_times_ofEntries]
  cases endTime MetricPoint.secs entries with
  | none =>
      rw [holeAfter, List.append_nil]
  | some last =>
      by_cases far : gapSecs < p.secs - last
      · simp only [holeAfter, far, if_true, append_ofEntries_hole]
      · simp only [holeAfter, far, if_false, List.append_nil]

/-- The loop leaves the last entries, by induction on the entries. -/
theorem trim_ofEntries
    : (ofEntries metric entries).trim = ofEntries metric (entries.rtake maxPoints) := by
  have width (entries : List (Entry MetricPoint))
      : (ofEntries metric entries).times.length = entries.length :=
    List.length_map _
  induction entries with
  | nil =>
      rw [trim, width, List.length_nil, if_neg (Nat.not_lt_zero _), List.rtake_nil]
  | cons entry rest ih =>
      rw [trim, width, List.length_cons]
      by_cases long : maxPoints < rest.length + 1
      · rw [if_pos long, rtake_cons long, ← ih]
        rfl
      · rw [if_neg long, rtake_of_length_le (not_lt.mp long)]

/-- Pushing values onto a line records their point, by the cases of a time that is there already
and a new one.
-/
theorem pushValues_ofEntries
    : (ofEntries metric entries).pushValues gapSecs p.secs (fun i => p.plotted (metric i))
      = ofEntries metric (record MetricPoint.secs gapSecs maxPoints entries p) := by
  rw [pushValues, getLast?_times_ofEntries, record]
  by_cases skipped : endTime MetricPoint.secs entries = some p.secs
  · rw [if_pos skipped, if_pos skipped]
  · rw [if_neg skipped, if_neg skipped, breakLine_ofEntries, append_ofEntries_sample,
      trim_ofEntries]
    rfl

end Operations

end ChartData

/-- The loop over the seed draws the broken line through it. -/
theorem foldl_seedPoint (gapSecs : ℤ) (seed : List MetricPoint)
    : seed.foldl (seedPoint gapSecs) .empty
      = .ofEntries id (line MetricPoint.secs gapSecs seed) := by
  induction seed using List.reverseRecOn with
  | nil => rfl
  | append_singleton rest p ih =>
      rw [List.foldl_concat, ih, line_concat, seedPoint, ChartData.breakLine_ofEntries]
      exact ChartData.append_ofEntries_sample id _ p

-----------------------------------------------------------------------------------------
-- All charts show the same entries
-----------------------------------------------------------------------------------------

/-- The two lines of a chart are those of two metrics. -/
theorem plotted_pair (p : MetricPoint) (left right : Metric)
    : (fun i => p.plotted (![left, right] i)) = ![p.plotted left, p.plotted right] := by
  funext i
  fin_cases i <;> rfl

theorem plotted_single (p : MetricPoint) (metric : Metric)
    : (fun i => p.plotted (![metric] i)) = ![p.plotted metric] := by
  funext i
  fin_cases i
  rfl

namespace LiveCharts

/-- Every chart of the page has a property. -/
def Each (charts : LiveCharts) (property : ∀ {ι : Type}, ChartData ι → Prop) : Prop :=
  property charts.cpu ∧ property charts.mem
  ∧ (∀ net ∈ charts.net, property net) ∧ ∀ disk ∈ charts.disk, property disk

/-- Every chart of the page shows its metrics of the entries. -/
structure Shows (charts : LiveCharts) (entries : List (Entry MetricPoint)) : Prop where
  cpu : charts.cpu = .ofEntries ![.cpu] entries
  mem : charts.mem = .ofEntries ![.mem] entries
  net : ∀ net ∈ charts.net, net = .ofEntries ![.netRx, .netTx] entries
  disk : ∀ disk ∈ charts.disk, disk = .ofEntries ![.diskRead, .diskWrite] entries

variable {charts : LiveCharts} {entries : List (Entry MetricPoint)}

/-- What holds of the arrays of the entries, whatever the metrics, holds of every chart, as each
of them shows these entries.
-/
theorem Shows.each {property : ∀ {ι : Type}, ChartData ι → Prop} (shows : charts.Shows entries)
    (holds : ∀ {ι : Type} (metric : ι → Metric), property (.ofEntries metric entries))
    : charts.Each property := by
  refine ⟨?_, ?_, fun net own => ?_, fun disk own => ?_⟩
  · rw [shows.cpu]
    exact holds _
  · rw [shows.mem]
    exact holds _
  · rw [shows.net net own]
    exact holds _
  · rw [shows.disk disk own]
    exact holds _

/-- A page that has loaded shows the broken line through its seed, by folding the seed's points
one after the other.
-/
theorem shows_seeded {page : ChartPage} {seed : List MetricPoint}
    (loaded : seeded page seed = some charts)
    : charts.gapSecs = gapFromSpacing (seed.map MetricPoint.secs)
      ∧ charts.Shows (line MetricPoint.secs charts.gapSecs seed) := by
  unfold seeded at loaded
  by_cases present : (page.cpuEl && page.memEl && page.uPlot) = true
  · rw [if_pos present] at loaded
    obtain rfl := Option.some.inj loaded
    have drawn := foldl_seedPoint (gapFromSpacing (seed.map MetricPoint.secs)) seed
    have selected {κ : Type} (column : κ → Metric) :=
      congrArg (fun d => ChartData.select d column) drawn
    refine ⟨rfl, selected _, selected _, fun net own => ?_, fun disk own => ?_⟩
    · by_cases shown : page.netEl = true
      · obtain rfl := Option.some.inj ((if_pos shown).symm.trans own)
        exact selected _
      · cases (if_neg shown).symm.trans own
    · by_cases shown : page.diskEl = true
      · obtain rfl := Option.some.inj ((if_pos shown).symm.trans own)
        exact selected _
      · cases (if_neg shown).symm.trans own
  · rw [if_neg present] at loaded
    cases loaded

/-- A push keeps a chart in step with the entries. -/
theorem push_eq {gapSecs : ℤ} {chart : ChartData (Fin 1)} {p : MetricPoint} {metric : Metric}
    (shown : chart = .ofEntries ![metric] entries)
    : push gapSecs chart p.secs (p.plotted metric)
      = .ofEntries ![metric] (record MetricPoint.secs gapSecs maxPoints entries p) := by
  rw [push, shown, ← plotted_single, ChartData.pushValues_ofEntries]

/-- So does one to a chart that the page may not have. -/
theorem mem_push2 {gapSecs : ℤ} {chart : Option (ChartData (Fin 2))} {p : MetricPoint}
    {left right : Metric} (shown : ∀ d ∈ chart, d = .ofEntries ![left, right] entries)
    : ∀ d ∈ push2 gapSecs chart p.secs (p.plotted left) (p.plotted right),
        d = .ofEntries ![left, right] (record MetricPoint.secs gapSecs maxPoints entries p) := by
  intro d own
  obtain ⟨before, member, rfl⟩ := Option.map_eq_some_iff.mp own
  rw [shown before member, ← plotted_pair, ChartData.pushValues_ofEntries]

/-- A point that arrives is recorded once, by all charts alike. -/
theorem Shows.addPoint (shows : charts.Shows entries) (p : MetricPoint)
    : (charts.addPoint p).Shows
        (record MetricPoint.secs charts.gapSecs maxPoints entries p) where
  cpu := push_eq shows.cpu
  mem := push_eq shows.mem
  net := mem_push2 shows.net
  disk := mem_push2 shows.disk

/-- Points that arrive are recorded one after the other, by induction on the points. -/
theorem Shows.backfill (shows : charts.Shows entries) (points : List MetricPoint)
    : (charts.backfill points).gapSecs = charts.gapSecs
      ∧ (charts.backfill points).Shows
        (points.foldl (record MetricPoint.secs charts.gapSecs maxPoints) entries) := by
  induction points generalizing charts entries with
  | nil => exact ⟨rfl, shows⟩
  | cons p rest ih => exact ih (shows.addPoint p)

/-- Live events and fetched points come to the same: a sequence of points, by induction on the
arrivals.
-/
theorem foldl_handle (charts : LiveCharts) (arrivals : List Arrival)
    : arrivals.foldl handle charts = charts.backfill (arrivals.flatMap Arrival.points) := by
  induction arrivals generalizing charts with
  | nil => rfl
  | cons arrival rest ih =>
      rw [List.foldl_cons, ih, List.flatMap_cons, backfill, backfill, List.foldl_append]
      congr 1
      cases arrival with
      | metrics data => cases data <;> rfl
      | backfill points => rfl

/-- The charts of a page show what is recorded of its seed and of the points that arrive: the
broken line of the seed, and then point by point.
-/
theorem shows_run {page : ChartPage} {seed : List MetricPoint} {arrivals : List Arrival}
    (ran : run page seed arrivals = some charts)
    : charts.gapSecs = gapFromSpacing (seed.map MetricPoint.secs)
      ∧ charts.Shows
        (recorded MetricPoint.secs charts.gapSecs maxPoints seed
          (arrivals.flatMap Arrival.points)) := by
  obtain ⟨loaded, found, rfl⟩ := Option.map_eq_some_iff.mp ran
  obtain ⟨threshold, shows⟩ := shows_seeded found
  obtain ⟨same, after⟩ := shows.backfill (arrivals.flatMap Arrival.points)
  rw [foldl_record_line (by decide)] at after
  rw [foldl_handle, same]
  exact ⟨threshold, after⟩

end LiveCharts

-----------------------------------------------------------------------------------------
-- No chart bridges a gap
-----------------------------------------------------------------------------------------

theorem le_gapFromSpacing (times : List ℤ) : 15 ≤ gapFromSpacing times := by
  unfold gapFromSpacing
  by_cases few : times.length < 3
  · rw [if_pos few]
  · rw [if_neg few]
    exact le_max_left _ _

/-- A chart of entries is level and in order, and where two neighbours are further apart than
the threshold, the earlier one is an inserted null sample.
-/
structure ChartData.Unbridged {ι : Type} (gapSecs : ℤ) (entries : List (Entry MetricPoint))
    (d : ChartData ι)
    : Prop where
  level : ∀ i, (d.columns i).length = d.times.length
  ordered : d.times.Pairwise (· ≤ ·)
  broken
    : ∀ n earlier later,
        d.times[n]? = some earlier
        → d.times[n + 1]? = some later
        → gapSecs < later - earlier
        → entries[n]? = some (.hole earlier) ∧ ∀ i, (d.columns i)[n]? = some none

/-- Where each entry follows the one before without bridging a gap, so do neighbours in the
arrays: an index of either array is that of an entry.
-/
theorem ChartData.unbridged_ofEntries {ι : Type} {gapSecs : ℤ}
    {entries : List (Entry MetricPoint)} (metric : ι → Metric)
    (chain : entries.IsChain (Follows MetricPoint.secs gapSecs))
    : (ofEntries metric entries).Unbridged gapSecs entries where
  level i := by
    rw [ofEntries, List.length_map, List.length_map]
  ordered := pairwise_times chain
  broken n earlier later isEarlier isLater wide := by
    rw [ofEntries, List.getElem?_map, Option.map_eq_some_iff] at isEarlier isLater
    obtain ⟨entry, atEntry, rfl⟩ := isEarlier
    obtain ⟨next, atNext, rfl⟩ := isLater
    obtain ⟨inside, rfl⟩ := List.getElem?_eq_some_iff.mp atNext
    obtain ⟨_, rfl⟩ := List.getElem?_eq_some_iff.mp atEntry
    obtain ⟨t, isHole⟩ := (chain.getElem n inside).broken wide
    rw [atEntry, isHole]
    refine ⟨rfl, fun i => ?_⟩
    rw [ofEntries, List.getElem?_map, atEntry, isHole]
    rfl

/-- Whatever has arrived, in the order of its seconds, all charts of a page have the same times
and show the same entries without bridging a gap; they are bounded as soon as a point was new.
Witness: the charts show one broken line, of which a bound cuts the start.
-/
theorem LiveCharts.run_unbridged {page : ChartPage} {seed : List MetricPoint}
    {arrivals : List Arrival} {charts : LiveCharts}
    (ordered
      : ((seed ++ arrivals.flatMap Arrival.points).map MetricPoint.secs).Pairwise (· ≤ ·))
    (ran : run page seed arrivals = some charts)
    : charts.gapSecs = gapFromSpacing (seed.map MetricPoint.secs)
      ∧ charts.Each (fun d => d.times = charts.cpu.times)
      ∧ ((∃ p ∈ arrivals.flatMap Arrival.points,
            seed.getLast?.map MetricPoint.secs ≠ some p.secs)
          → charts.Each (fun d => d.times.length ≤ maxPoints))
      ∧ ∃ entries,
        entries
          = recorded MetricPoint.secs charts.gapSecs maxPoints seed
              (arrivals.flatMap Arrival.points)
        ∧ charts.Shows entries
        ∧ charts.Each (ChartData.Unbridged charts.gapSecs entries) := by
  obtain ⟨threshold, shows⟩ := shows_run ran
  have positive : 0 < charts.gapSecs := by
    have := le_gapFromSpacing (seed.map MetricPoint.secs)
    omega
  refine ⟨threshold, shows.each (fun metric => ?_), ?_, _, rfl, shows, ?_⟩
  · rw [shows.cpu]
    rfl
  · intro arrived
    obtain ⟨p, member, other⟩ := arrived
    refine shows.each (fun metric => ?_)
    rw [ChartData.ofEntries, List.length_map]
    exact length_recorded_le member other
  · exact shows.each (fun metric =>
      ChartData.unbridged_ofEntries metric (isChain_recorded positive ordered))

/-- A page with every chart. -/
def everyChart : ChartPage :=
  { cpuEl := true, memEl := true, netEl := true, diskEl := true, uPlot := true }

/-- A point that does not know every rate. -/
def pointAt (tsMs : ℕ) : MetricPoint :=
  {
    tsMs
    cpuPercent := 3 / 2
    memUsed := some 1048576
    netRx := some 10
    netTx := none
    diskRead := none
    diskWrite := some 20
  }

/-- A point that is fetched after a gap, and two live events, of which one repeats its second. -/
def fetchedAfterGap : List LiveCharts.Arrival :=
  [.backfill [pointAt 100500], .metrics (some (pointAt 100900)), .metrics (some (pointAt 103000))]

/-- What is fetched after a gap is drawn behind a hole. -/
theorem LiveCharts.run_unbridged_fetched
    : ∃ charts entries,
        run everyChart [pointAt 0, pointAt 5000] fetchedAfterGap = some charts
        ∧ charts.gapSecs = 15
        ∧ charts.Shows entries
        ∧ charts.Each (ChartData.Unbridged charts.gapSecs entries) := by
  have ordered
      : (([pointAt 0, pointAt 5000] ++ fetchedAfterGap.flatMap Arrival.points).map
          MetricPoint.secs).Pairwise (· ≤ ·) := by
    decide
  obtain ⟨charts, ran⟩
      : ∃ charts, run everyChart [pointAt 0, pointAt 5000] fetchedAfterGap = some charts :=
    ⟨_, rfl⟩
  obtain ⟨threshold, _, _, entries, _, shows, unbridged⟩ := run_unbridged ordered ran
  exact ⟨charts, entries, ran, threshold, shows, unbridged⟩

end DockDoe
