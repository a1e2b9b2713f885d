import DockDoe.Model.HistoryWindows
import DockDoe.Model.LiveCharts

/-! The history overlay of a page: which view it shows, the trail of views that were drilled
into, and the requests for them, whose responses arrive in any order. Times are whole seconds
and milliseconds.
-/

namespace DockDoe

-----------------------------------------------------------------------------------------
-- The chart
-----------------------------------------------------------------------------------------

/-- What a chart of the overlay can be about. -/
inductive ChartMetric
  | cpu
  | mem
  | net
  | disk
  deriving DecidableEq

/-- The columns of a point that a metric shows. -/
def ChartMetric.keys : ChartMetric → List Metric
  | .cpu => [.cpu]
  | .mem => [.mem]
  | .net => [.netRx, .netTx]
  | .disk => [.diskRead, .diskWrite]

/-- What turns the stored unit into the one shown: memory in MiB, the others as they are. -/
def ChartMetric.scale : ChartMetric → ℚ
  | .mem => 1 / 1048576
  | _ => 1

/-- The lines that are drawn for a key: its median, and the edges of its band. -/
inductive EnvelopeLine
  | med
  | hi
  | lo

def EnvelopeColumns.line (columns : EnvelopeColumns) : EnvelopeLine → Option ℚ
  | .med => columns.med
  | .hi => columns.max
  | .lo => columns.min

/-- The arrays of a rendered chart: for each key of its metric three lines. -/
abbrev HistoryChart (metric : ChartMetric) :=
  ChartData (Fin metric.keys.length × EnvelopeLine)

/-- `Math.floor(p.ts_ms / 1000)`. -/
def HistoryPoint.secs (p : HistoryPoint) : ℤ :=
  (p.tsMs / 1000 : ℕ)

/-- What is plotted of a point. -/
def HistoryPoint.plotted (metric : ChartMetric) (p : HistoryPoint)
    (column : Fin metric.keys.length × EnvelopeLine)
    : Option ℚ :=
  ((p.columns metric.keys[column.1]).line column.2).map (· * metric.scale)

/-- One round of the loop of `render`. -/
def renderPoint (metric : ChartMetric) (gapSecs : ℤ) (d : HistoryChart metric) (p : HistoryPoint)
    : HistoryChart metric :=
  (d.breakLine gapSecs p.secs).append p.secs (p.plotted metric)

/-- `render`: the arrays that are drawn. -/
def render (metric : ChartMetric) (points : List HistoryPoint) : HistoryChart metric :=
  points.foldl (renderPoint metric (gapFromSpacing (points.map HistoryPoint.secs))) .empty

-----------------------------------------------------------------------------------------
-- The dialog
-----------------------------------------------------------------------------------------

/-- A named range or a free window. -/
inductive HistoryView
  | range (name : Text)
  | window (sinceMs untilMs : ℕ)
  deriving DecidableEq

/-- The query of a view. -/
def HistoryView.query : HistoryView → HistoryQuery
  | .range name => { range := some name, sinceMs := none, untilMs := none }
  | .window sinceMs untilMs =>
      { range := none, sinceMs := some sinceMs, untilMs := some untilMs }

/-- A request that has been sent. Aborting it makes it fail, unless its response has already
arrived.
-/
structure HistoryRequest where
  seq : ℕ
  view : HistoryView
  aborted : Bool

/-- What has come of a request: its points, or no success. -/
abbrev HistoryOutcome :=
  Option (List HistoryPoint)

/-- The area of the chart. An empty series leaves a text instead of a chart. -/
inductive ChartArea
  | blank
  | rendered (metric : ChartMetric) (points : List HistoryPoint)
  | failed

/-- What is shown of an outcome. -/
def HistoryOutcome.area (metric : ChartMetric) : HistoryOutcome → ChartArea
  | some points => .rendered metric points
  | none => .failed

/-- The variables of `history.js`, and its requests that have not come back. `loadAbort` aborts
the request with that number.
-/
structure HistoryDialog where
  isOpen : Bool
  metric : ChartMetric
  lastRange : Text
  view : HistoryView
  backStack : List HistoryView
  area : ChartArea
  loadSeq : ℕ
  loadAbort : Option ℕ
  requests : List HistoryRequest

namespace HistoryDialog

def initial : HistoryDialog where
  isOpen := false
  metric := .cpu
  lastRange := "24h".toList
  view := .range "24h".toList
  backStack := []
  area := .blank
  loadSeq := 0
  loadAbort := none
  requests := []

/-- `loadAbort.abort()`. -/
def abort (dialog : HistoryDialog) : HistoryDialog :=
  match dialog.loadAbort with
  | none => dialog
  | some seq => {
      dialog with
      requests := dialog.requests.map (fun request =>
        if request.seq = seq then { request with aborted := true } else request)
    }

/-- Fetch and display a view. -/
def «show» (dialog : HistoryDialog) (view : HistoryView) : HistoryDialog :=
  let seq := dialog.loadSeq + 1
  let aborted := dialog.abort
  {
    aborted with
    view
    lastRange := match view with
      | .range name => name
      | .window .. => dialog.lastRange
    loadSeq := seq
    loadAbort := some seq
    requests := aborted.requests ++ [{ seq, view, aborted := false }]
  }

/-- Accidental nudges are ignored. -/
def drill (dialog : HistoryDialog) (sinceMs untilMs : ℕ) : HistoryDialog :=
  if untilMs - sinceMs < 10000 then
    dialog
  else
    HistoryDialog.show { dialog with backStack := dialog.backStack ++ [dialog.view] }
      (.window sinceMs untilMs)

/-- A double-click walks the trail back. -/
def goBack (dialog : HistoryDialog) : HistoryDialog :=
  match dialog.backStack.getLast? with
  | some view =>
      HistoryDialog.show { dialog with backStack := dialog.backStack.dropLast } view
  | none =>
      match dialog.view with
      | .range _ => dialog
      | .window .. => dialog.show (.range dialog.lastRange)

/-- A click on the button of a range. -/
def pickRange (dialog : HistoryDialog) (name : Text) : HistoryDialog :=
  HistoryDialog.show { dialog with backStack := [] } (.range name)

def openFor (dialog : HistoryDialog) (metric : ChartMetric) : HistoryDialog :=
  { dialog with metric, backStack := [], isOpen := true }

/-- The expand button of a chart card. -/
def zoom (dialog : HistoryDialog) (metric : ChartMetric) : HistoryDialog :=
  (dialog.openFor metric).show (.range dialog.lastRange)

/-- A selection on a small live chart. -/
def drillLive (dialog : HistoryDialog) (metric : ChartMetric) (sinceMs untilMs : ℕ)
    : HistoryDialog :=
  if untilMs - sinceMs < 10000 then
    dialog
  else
    (dialog.openFor metric).show (.window sinceMs untilMs)

/-- The dialog closes, in whatever way. -/
def close (dialog : HistoryDialog) : HistoryDialog :=
  { dialog.abort with isOpen := false, loadSeq := dialog.loadSeq + 1, loadAbort := none }

/-- A request comes back; only the latest one changes what is shown. -/
def settle (dialog : HistoryDialog) (request : HistoryRequest) (outcome : HistoryOutcome)
    : HistoryDialog :=
  let requests := dialog.requests.filter (fun other => other.seq ≠ request.seq)
  if request.seq = dialog.loadSeq then
    { dialog with requests, area := HistoryOutcome.area dialog.metric outcome }
  else
    { dialog with requests }

end HistoryDialog

/-- What users and the network do. A deep link opens the overlay as the page loads. -/
inductive DialogEvent
  | deepLink (metric : ChartMetric) (range : Option Text)
  | zoom (metric : ChartMetric)
  | drillLive (metric : ChartMetric) (sinceMs untilMs : ℕ)
  | pickRange (name : Text)
  | drill (sinceMs untilMs : ℕ)
  | goBack
  | close
  | settle (request : HistoryRequest) (outcome : HistoryOutcome)

namespace HistoryDialog

/-- The names on the buttons, which the server renders from its list. -/
def rangeButtons : List Text :=
  historyRanges.map Prod.fst

/-- What can happen: a range has a button, an open dialog covers the page, and a request comes
back once.
-/
def Admits (dialog : HistoryDialog) : DialogEvent → Prop
  | .deepLink .. | .zoom _ | .drillLive .. => dialog.isOpen = false
  | .pickRange name => dialog.isOpen = true ∧ name ∈ rangeButtons
  | .drill .. | .goBack | .close => dialog.isOpen = true
  | .settle request _ => request ∈ dialog.requests

def handle (dialog : HistoryDialog) : DialogEvent → HistoryDialog
  | .deepLink metric range =>
      let known := range.filter (· ∈ rangeButtons)
      (dialog.openFor metric).show (.range (known.getD dialog.lastRange))
  | .zoom metric => dialog.zoom metric
  | .drillLive metric sinceMs untilMs => dialog.drillLive metric sinceMs untilMs
  | .pickRange name => dialog.pickRange name
  | .drill sinceMs untilMs => dialog.drill sinceMs untilMs
  | .goBack => dialog.goBack
  | .close => dialog.close
  | .settle request outcome => dialog.settle request outcome

/-- Events one after the other. -/
inductive Run (start : HistoryDialog) : List DialogEvent → HistoryDialog → Prop
  | refl : Run start [] start
  | tail {dialog : HistoryDialog} {before : List DialogEvent} {event : DialogEvent}
      (run : Run start before dialog) (admits : dialog.Admits event)
    : Run start (before ++ [event]) (dialog.handle event)

end HistoryDialog

end DockDoe
