import DockDoe.Model.Containers
import DockDoe.Model.SampleQueries

/-! The live charts of a page: seeded when it loads, then fed by live events and by the points
fetched before a reconnect. Every chart keeps its own arrays; seconds are whole numbers.
-/

namespace DockDoe

/-- `MAX_POINTS`. -/
def maxPoints : ℕ := 1200

/-- `Math.floor(p.ts_ms / 1000)`. -/
def MetricPoint.secs (p : MetricPoint) : ℤ :=
  (p.tsMs / 1000 : ℕ)

/-- What is plotted of a point: memory in MiB, the other metrics as they are. -/
def MetricPoint.plotted (p : MetricPoint) : Metric → Option ℚ
  | .cpu => some p.cpuPercent
  | .mem => p.memUsed.map (fun used => (used : ℚ) / 1048576)
  | .netRx => p.netRx
  | .netTx => p.netTx
  | .diskRead => p.diskRead
  | .diskWrite => p.diskWrite

/-- The threshold of a line break: about four typical intervals between the times. -/
def gapFromSpacing (times : List ℤ) : ℤ :=
  if times.length < 3 then
    15
  else
    let deltas := List.zipWith (fun later earlier => later - earlier) times.tail times
    let sorted := deltas.mergeSort (fun a b => decide (a ≤ b))
    max 15 (sorted.getD (deltas.length / 2) 0 * 4)

-----------------------------------------------------------------------------------------
-- The arrays of a chart
-----------------------------------------------------------------------------------------

/-- The arrays of a chart: the times, and one column of values for each of its lines. A missing
value is null.
-/
structure ChartData (ι : Type) where
  times : List ℤ
  columns : ι → List (Option ℚ)

namespace ChartData

variable {ι : Type}

def empty : ChartData ι :=
  { times := [], columns := fun _ => [] }

/-- `push` on every array. -/
def append (d : ChartData ι) (t : ℤ) (values : ι → Option ℚ) : ChartData ι :=
  { times := d.times ++ [t], columns := fun i => d.columns i ++ [values i] }

/-- `shift` on every array. -/
def shift (d : ChartData ι) : ChartData ι :=
  { times := d.times.tail, columns := fun i => (d.columns i).tail }

/-- `while (d[0].length > MAX_POINTS)`. -/
def trim (d : ChartData ι) : ChartData ι :=
  if maxPoints < d.times.length then d.shift.trim else d
termination_by d.times.length
decreasing_by
  rw [shift, List.length_tail]
  omega

/-- A null sample right after the last time, when the next one is too far from it. -/
def breakLine (gapSecs : ℤ) (d : ChartData ι) (t : ℤ) : ChartData ι :=
  match d.times.getLast? with
  | none => d
  | some last => if gapSecs < t - last then d.append (last + 1) (fun _ => none) else d

/-- A new sample, with the duplicate and gap handling that `push` and `push2` share. -/
def pushValues (gapSecs : ℤ) (d : ChartData ι) (t : ℤ) (values : ι → Option ℚ) : ChartData ι :=
  if d.times.getLast? = some t then d else ((d.breakLine gapSecs t).append t values).trim

/-- Some of the columns, with their own copy of the times. -/
def select {κ : Type} (d : ChartData ι) (column : κ → ι) : ChartData κ :=
  { times := d.times, columns := fun i => d.columns (column i) }

end ChartData

/-- One round of the loop over the seed: a seed has no duplicates skipped and is not cut. -/
def seedPoint (gapSecs : ℤ) (d : ChartData Metric) (p : MetricPoint) : ChartData Metric :=
  (d.breakLine gapSecs p.secs).append p.secs p.plotted

/-- `push`: one sample for a chart with one line. -/
def push (gapSecs : ℤ) (chart : ChartData (Fin 1)) (t : ℤ) (y : Option ℚ) : ChartData (Fin 1) :=
  chart.pushValues gapSecs t ![y]

/-- `push2`: one sample for a chart with two lines, if the page has it. -/
def push2 (gapSecs : ℤ) (chart : Option (ChartData (Fin 2))) (t : ℤ) (yIn yOut : Option ℚ)
    : Option (ChartData (Fin 2)) :=
  chart.map (fun chart => chart.pushValues gapSecs t ![yIn, yOut])

-----------------------------------------------------------------------------------------
-- The charts of a page
-----------------------------------------------------------------------------------------

/-- What a page has: the elements of the charts, and the plotting library. -/
structure ChartPage where
  cpuEl : Bool
  memEl : Bool
  netEl : Bool
  diskEl : Bool
  uPlot : Bool

/-- The charts of a page that has some; those of the I/O metrics are optional. -/
structure LiveCharts where
  gapSecs : ℤ
  cpu : ChartData (Fin 1)
  mem : ChartData (Fin 1)
  net : Option (ChartData (Fin 2))
  disk : Option (ChartData (Fin 2))

namespace LiveCharts

/-- The charts of a page that has loaded. -/
def seeded (page : ChartPage) (seed : List MetricPoint) : Option LiveCharts :=
  if page.cpuEl && page.memEl && page.uPlot then
    let rawTs := seed.map MetricPoint.secs
    let gapSecs := gapFromSpacing rawTs
    let d := seed.foldl (seedPoint gapSecs) .empty
    some {
      gapSecs
      cpu := d.select ![.cpu]
      mem := d.select ![.mem]
      net := if page.netEl then some (d.select ![.netRx, .netTx]) else none
      disk := if page.diskEl then some (d.select ![.diskRead, .diskWrite]) else none
    }
  else
    none

/-- The pushes of one point to all charts. -/
def addPoint (charts : LiveCharts) (p : MetricPoint) : LiveCharts :=
  let t := p.secs
  {
    gapSecs := charts.gapSecs
    cpu := push charts.gapSecs charts.cpu t (p.plotted .cpu)
    mem := push charts.gapSecs charts.mem t (p.plotted .mem)
    net := push2 charts.gapSecs charts.net t (p.plotted .netRx) (p.plotted .netTx)
    disk := push2 charts.gapSecs charts.disk t (p.plotted .diskRead) (p.plotted .diskWrite)
  }

/-- `onMetrics`; data that does not parse is ignored. -/
def onMetrics (charts : LiveCharts) : Option MetricPoint → LiveCharts
  | none => charts
  | some p => charts.addPoint p

/-- The `since_ms` of a reconnect: just after the last second of the CPU chart. -/
def sinceMs (charts : LiveCharts) : ℤ :=
  charts.cpu.times.getLast?.getD 0 * 1000 + 1

/-- The points that a reconnect has fetched; none when that failed. -/
def backfill (charts : LiveCharts) (points : List MetricPoint) : LiveCharts :=
  points.foldl addPoint charts

/-- What brings points to the charts. -/
inductive Arrival
  | metrics (data : Option MetricPoint)
  | backfill (points : List MetricPoint)

/-- The points of an arrival. -/
def Arrival.points : Arrival → List MetricPoint
  | .metrics data => data.toList
  | .backfill points => points

def handle (charts : LiveCharts) : Arrival → LiveCharts
  | .metrics data => charts.onMetrics data
  | .backfill points => charts.backfill points

/-- The charts of a page after its seed and everything that has arrived; without charts, points
are ignored.
-/
def run (page : ChartPage) (seed : List MetricPoint) (arrivals : List Arrival)
    : Option LiveCharts :=
  (seeded page seed).map (fun charts => arrivals.foldl handle charts)

end LiveCharts

end DockDoe
