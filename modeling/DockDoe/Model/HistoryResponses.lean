import DockDoe.Model.HistoryQueries
import DockDoe.Model.HistoryWindows

/-! The points that a local host answers history requests with.
A window is served from raw samples where that is possible, and from trends otherwise.
-/

namespace DockDoe

/-- `fetch_points`: the points loaded; loading that fails leaves none. -/
def fetchPoints {α : Type} : Except SqlError (List α) → List α
  | .ok points => points
  | .error _ => []

/-- `Store::container_name`: the name recorded for an id, by the first row found. -/
def Store.containerName (store : Store) (host id : String) : Option String :=
  (store.containerTrend.toList.find? (fun entry => entry.1.host = host ∧ entry.2.id = id)).map
    (fun entry => entry.1.name)

/-- The name of a container in the live snapshot. -/
def snapshotName (snapshot : Option Snapshot) (id : String) : Option String :=
  snapshot.bind (fun snap =>
    (snap.containers.find? (fun c => c.id = id)).map (fun c => c.name))

/-- The name that the trends of an id are looked up by: the live one, else a recorded one. -/
def Store.trendName (store : Store) (snapshot : Option Snapshot) (host id : String)
    : Option String :=
  match snapshotName snapshot id with
  | some name => some name
  | none => store.containerName host id

/-- `history_container`: the points of a container, or none for an invalid range. -/
def Store.containerResponse (store : Store) (snapshot : Option Snapshot) (host id : String)
    (q : HistoryQuery) (seedWindow : Duration) (now : ℕ)
    : Option (List HistoryPoint) :=
  (resolveHistory q seedWindow now).map (fun w =>
    if w.raw then
      let group := rawGroupForWindow (w.untilMs - w.sinceMs)
      fetchPoints (store.historyContainerRaw host id w.sinceMs w.untilMs group)
    else
      fetchPoints (match store.trendName snapshot host id with
        | none => .ok []
        | some name => store.historyContainer host name w.sinceMs w.untilMs w.groupMs))

/-- `history_stack`: stacks have no raw series. -/
def Store.stackResponse (store : Store) (host name : String) (q : HistoryQuery)
    (seedWindow : Duration) (now : ℕ)
    : Option (List HistoryPoint) :=
  (resolveHistory q seedWindow now).map (fun w =>
    fetchPoints (store.historyStack host name w.sinceMs w.untilMs w.groupMs))

end DockDoe
