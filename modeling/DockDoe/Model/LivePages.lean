import DockDoe.Model.Collectors
import DockDoe.Model.HistoryResponses
import DockDoe.Model.LiveCharts
import DockDoe.Model.Mirroring

/-! A container's page over its whole life: the host's collector publishes and persists what it
samples, the server streams what is published and answers backfills out of the store, and the
page opens, closes and reopens its one live connection. All of them change in any order.
-/

namespace DockDoe

-----------------------------------------------------------------------------------------
-- The host
-----------------------------------------------------------------------------------------

/-- A host that this server monitors: the dashboard it shares, the one that is not persisted
yet, the store, and the wall-clock times of its cycles.
-/
structure MonitoredHost where
  shared : Option Dashboard
  unsaved : Option Dashboard
  store : Store
  cycles : List ℕ

namespace MonitoredHost

def started : MonitoredHost where
  shared := none
  unsaved := none
  store := .empty
  cycles := []

/-- A step of the host's collector, or of others on the same store. -/
inductive Step (host : String) : MonitoredHost → MonitoredHost → Prop
  | publish {h : MonitoredHost} (dash : Dashboard) (idle : h.unsaved = none)
    : Step host h {
        h with
        shared := some dash
        unsaved := some dash
        cycles := h.cycles ++ [dash.generatedAtUnixMs]
      }
  | persist {h : MonitoredHost} {dash : Dashboard} {store : Store}
      (due : h.unsaved = some dash)
      (inserted
        : h.store.insertSamples host dash.generatedAtUnixMs dash.containers = .ok store)
    : Step host h { h with unsaved := none, store }
  | persistFails (h : MonitoredHost) : Step host h { h with unsaved := none }
  | prune (h : MonitoredHost) (beforeMs : ℕ)
    : Step host h { h with store := h.store.pruneRaw beforeMs }
  /-- The collector of another host persists its samples. -/
  | others {h : MonitoredHost} {other : String} {tsMs : ℕ} {containers : List ContainerMetrics}
      {store : Store} (different : other ≠ host)
      (inserted : h.store.insertSamples other tsMs containers = .ok store)
    : Step host h { h with store }
  /-- The server starts anew, on the store that it has left. -/
  | restart (h : MonitoredHost) : Step host h { h with shared := none, unsaved := none }

inductive Reachable (host : String) : MonitoredHost → Prop
  | started : Reachable host started
  | step {h next : MonitoredHost} (reachable : Reachable host h) (step : Step host h next)
    : Reachable host next

end MonitoredHost

-----------------------------------------------------------------------------------------
-- The page
-----------------------------------------------------------------------------------------

/-- An `EventSource` that the page has not closed: the stream at the server, once it has
accepted, and the metric points in flight.
-/
structure EventSource where
  id : ℕ
  session : Option DashboardStream
  inFlight : List MetricPoint

/-- A request for the missed points, and its answer. -/
inductive Backfill
  | asked (sinceMs : ℕ)
  | answered (points : List MetricPoint)

/-- The page, with the variables of its script. `sources` are all connections that are open;
`es` names the one that the script knows.
-/
structure LivePage where
  charts : Option LiveCharts
  hasBackfillUrl : Bool
  hidden : Bool
  -- Between `pagehide` and `pageshow`
  away : Bool
  es : Option ℕ
  backfilling : Option Backfill
  reconnectTimer : Bool
  sources : List EventSource
  created : ℕ

namespace LivePage

def openStream (page : LivePage) : LivePage :=
  match page.es with
  | some _ => page
  | none => {
      page with
      es := some page.created
      sources := page.sources ++ [{ id := page.created, session := none, inFlight := [] }]
      created := page.created + 1
    }

def connect (page : LivePage) : LivePage :=
  if page.es.isSome || page.backfilling.isSome then
    page
  else
    match page.charts, page.hasBackfillUrl with
    | some charts, true => { page with backfilling := some (.asked charts.sinceMs.toNat) }
    | _, _ => page.openStream

def disconnect (page : LivePage) : LivePage :=
  match page.es with
  | none => page
  | some id => {
      page with
      es := none
      sources := page.sources.filter (fun source => source.id ≠ id)
    }

/-- `onerror` of a source. -/
def onError (page : LivePage) : LivePage :=
  { page.disconnect with reconnectTimer := true }

/-- The timer that `onerror` has set fires. -/
def reconnect (page : LivePage) : LivePage :=
  let page := { page with reconnectTimer := false }
  if page.hidden then page else page.connect

/-- The backfill is in, or has failed and brings nothing. -/
def backfilled (page : LivePage) (points : List MetricPoint) : LivePage :=
  let page := {
    page with
    charts := page.charts.map (fun charts => charts.backfill points)
    backfilling := none
  }
  if page.hidden then page else page.openStream

/-- `visibilitychange`. -/
def visibilityChange (page : LivePage) (hidden : Bool) : LivePage :=
  let page := { page with hidden }
  if hidden then page.disconnect else page.connect

def pageHide (page : LivePage) : LivePage :=
  { page.disconnect with away := true }

def pageShow (page : LivePage) : LivePage :=
  LivePage.connect { page with away := false }

/-- The variables of the script at first. -/
def fresh (charts : Option LiveCharts) (hasBackfillUrl hidden : Bool) : LivePage where
  charts
  hasBackfillUrl
  hidden
  away := false
  es := none
  backfilling := none
  reconnectTimer := false
  sources := []
  created := 0

/-- The page after its script has run. -/
def loaded (charts : Option LiveCharts) (hasBackfillUrl hidden : Bool) : LivePage :=
  let page := fresh charts hasBackfillUrl hidden
  if page.hidden then page else page.connect

end LivePage

-----------------------------------------------------------------------------------------
-- Both, with the server between them
-----------------------------------------------------------------------------------------

/-- `clamp_since`, at some time. -/
def clampSince (sinceMs : ℕ) (window : Duration) (now : ℕ) : ℕ :=
  max sinceMs (now - durationMs window)

/-- The metric points of the events that `events_container` makes of a snapshot. -/
def containerPoints (id : String) (dash : Dashboard) : List MetricPoint :=
  (dash.containers.find? (fun c => c.id == id)).toList.map (livePoint dash.generatedAtUnixMs)

/-- A monitored host, and one page of a container of it. -/
structure LiveSystem where
  host : MonitoredHost
  page : LivePage

/-- One step of the host, the server, the network, the browser or the page; and what brings points
to the charts. -/
inductive LiveSystem.Step (host id : String) (window : Duration)
    : LiveSystem → List LiveCharts.Arrival → LiveSystem → Prop
  | host {s : LiveSystem} {next : MonitoredHost} (step : s.host.Step host next)
    : Step host id window s [] { s with host := next }
  /-- The server accepts a connection. -/
  | accept {s : LiveSystem} {source : EventSource} (before after : List EventSource)
      (sources : s.page.sources = before ++ source :: after)
    : Step host id window s [] {
        s with
        page.sources := before ++ { source with session := some .opened } :: after
      }
  /-- A stream at the server polls, and sends the events of what it yields. -/
  | yield {s : LiveSystem} {source : EventSource} (before after : List EventSource)
      {stream next : DashboardStream} {dash : Dashboard}
      (sources : s.page.sources = before ++ source :: after)
      (session : source.session = some stream)
      (yields : stream.poll s.host.shared = (next, some dash))
    : Step host id window s [] {
        s with
        page.sources := before ++ {
          source with
          session := some next
          inFlight := source.inFlight ++ containerPoints id dash
        } :: after
      }
  /-- A metrics event arrives. -/
  | metrics {s : LiveSystem} {source : EventSource} (before after : List EventSource)
      {point : MetricPoint} {rest : List MetricPoint}
      (sources : s.page.sources = before ++ source :: after)
      (arrives : source.inFlight = point :: rest)
    : Step host id window s [.metrics (some point)] {
        s with
        page.sources := before ++ { source with inFlight := rest } :: after
        page.charts := s.page.charts.map (fun charts => charts.onMetrics (some point))
      }
  /-- A connection fails. -/
  | error {s : LiveSystem} {source : EventSource} (member : source ∈ s.page.sources)
    : Step host id window s [] { s with page := s.page.onError }
  | reconnect {s : LiveSystem} (set : s.page.reconnectTimer = true)
    : Step host id window s [] { s with page := s.page.reconnect }
  /-- The server answers a backfill out of the store. -/
  | answer {s : LiveSystem} {sinceMs : ℕ} (now : ℕ)
      (asked : s.page.backfilling = some (.asked sinceMs))
    : Step host id window s [] {
        s with
        page.backfilling := some (.answered (fetchPoints
          (s.host.store.recentContainerSamples host id (clampSince sinceMs window now))))
      }
  | backfilled {s : LiveSystem} {points : List MetricPoint}
      (answered : s.page.backfilling = some (.answered points))
    : Step host id window s [.backfill points] { s with page := s.page.backfilled points }
  | backfillFails {s : LiveSystem} (pending : s.page.backfilling.isSome = true)
    : Step host id window s [.backfill []] { s with page := s.page.backfilled [] }
  | visibilityChange (s : LiveSystem) (hidden : Bool)
    : Step host id window s [] { s with page := s.page.visibilityChange hidden }
  | pageHide (s : LiveSystem) : Step host id window s [] { s with page := s.page.pageHide }
  | pageShow (s : LiveSystem) : Step host id window s [] { s with page := s.page.pageShow }

/-- Steps one after the other, with what brings points to the charts. -/
inductive LiveSystem.Run (host id : String) (window : Duration) (s : LiveSystem)
    : List LiveCharts.Arrival → LiveSystem → Prop
  | refl : Run host id window s [] s
  | tail {t u : LiveSystem} {before arrivals : List LiveCharts.Arrival}
      (run : Run host id window s before t)
      (step : LiveSystem.Step host id window t arrivals u)
    : Run host id window s (before ++ arrivals) u

end DockDoe
