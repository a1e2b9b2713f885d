import DockDoe.Foundations.KeyedFolds
import DockDoe.Model.Containers

/-! The notification state machine: it folds successive snapshots and decides which status
changes have settled long enough to be reported. A snapshot's containers are processed in
order, one map entry each; entries of containers that are gone are dropped afterwards.
-/

namespace DockDoe

/-- The coarse, notification-worthy status of a container. -/
inductive Status
  | up | unhealthy | down
  deriving DecidableEq

/-- Map a container's state and health onto its coarse status. -/
def statusOf (c : ContainerMetrics) : Status :=
  match c.state with
  | .running =>
      match c.health with
      | .unhealthy => .unhealthy
      | _ => .up
  | _ => .down

/-- A ready-to-send notification: Apprise message type and body. -/
structure Notification where
  kind : String
  body : String
  deriving DecidableEq

/-- The notification for a container that has settled into `target`. -/
def notificationFor (c : ContainerMetrics) (target : Status) (host : String) : Notification :=
  let who :=
    match c.stack with
    | some stack => "Container '" ++ c.name ++ "' (stack " ++ stack ++ ") on host '" ++ host ++ "'"
    | none => "Container '" ++ c.name ++ "' on host '" ++ host ++ "'"
  match target with
  | .down => { kind := "failure", body := who ++ " is down — " ++ c.status }
  | .unhealthy => { kind := "warning", body := who ++ " is unhealthy — " ++ c.status }
  | .up => { kind := "success", body := who ++ " recovered — " ++ c.status }

/-- What is known about one container between cycles: the status last reported, and a
different one waiting out the delay with the time it was first observed.
-/
structure Tracked where
  notified : Status
  pending : Option (Status × ℕ)
  deriving DecidableEq

/-- The tracker of one host. -/
structure Tracker where
  host : String
  delayMs : ℕ
  states : Std.ExtTreeMap String Tracked

/-- A container's entry after a cycle in which it has status `cur`, and whether the change
to `cur` is due for a notification.
-/
def Tracked.turn (delayMs tsMs : ℕ) (entry : Option Tracked) (cur : Status) : Tracked × Bool :=
  match entry with
  -- First sighting: the status is adopted silently.
  | none => ({ notified := cur, pending := none }, false)
  | some t =>
      if cur = t.notified then
        ({ t with pending := none }, false)
      else
        -- An unchanged target keeps its timer, a moved one restarts it.
        let since :=
          match t.pending with
          | some (target, since) => if target = cur then since else tsMs
          | none => tsMs
        if delayMs ≤ tsMs - since then
          ({ notified := cur, pending := none }, true)
        else
          ({ t with pending := some (cur, since) }, false)

/-- The loop body of `evaluate`: one container's entry, and its notification if due. -/
def Tracker.visit (tracker : Tracker) (tsMs : ℕ)
    (acc : Std.ExtTreeMap String Tracked × List (ContainerMetrics × Status))
    (c : ContainerMetrics)
    : Std.ExtTreeMap String Tracked × List (ContainerMetrics × Status) :=
  let (states, out) := acc
  let cur := statusOf c
  let (entry, due) := Tracked.turn tracker.delayMs tsMs states[c.id]? cur
  (states.insert c.id entry, if due then out ++ [(c, cur)] else out)

/-- The changes that become due with a snapshot, and the tracker afterwards. -/
def Tracker.settle (tracker : Tracker) (tsMs : ℕ) (containers : List ContainerMetrics)
    : Tracker × List (ContainerMetrics × Status) :=
  let (states, out) := containers.foldl (tracker.visit tsMs) (tracker.states, [])
  let seen := containers.map ContainerMetrics.id
  ({ tracker with states := states.filter (fun id _ => decide (id ∈ seen)) }, out)

/-- `Tracker::evaluate`: fold one snapshot in and return the notifications now due. -/
def Tracker.evaluate (tracker : Tracker) (tsMs : ℕ) (containers : List ContainerMetrics)
    : Tracker × List Notification :=
  let (next, out) := tracker.settle tsMs containers
  (next, out.map (fun (c, target) => notificationFor c target tracker.host))

/-- Visiting containers with distinct ids updates each one's entry from the entry it had
before the snapshot. Witness: induction on the containers; inserting another id's entry
leaves the entries still to be visited alone.
-/
theorem Tracker.foldl_visit (tracker : Tracker) (tsMs : ℕ) (containers : List ContainerMetrics)
    (distinct : (containers.map ContainerMetrics.id).Nodup)
    (states : Std.ExtTreeMap String Tracked) (out : List (ContainerMetrics × Status))
    : (∀ id : String,
        (containers.foldl (tracker.visit tsMs) (states, out)).1[id]?
        = match containers.find? (fun c => c.id = id) with
          | some c => some (Tracked.turn tracker.delayMs tsMs states[id]? (statusOf c)).1
          | none => states[id]?)
      ∧ (containers.foldl (tracker.visit tsMs) (states, out)).2
        = out
          ++ (containers.filter
                (fun c => (Tracked.turn tracker.delayMs tsMs states[c.id]? (statusOf c)).2)).map
              (fun c => (c, statusOf c)) := by
  induction containers generalizing states out with
  | nil => simp
  | cons head rest ih =>
      obtain ⟨fresh, distinctRest⟩ := List.nodup_cons.mp distinct
      obtain ⟨entries, emitted⟩ := ih distinctRest
        (states.insert head.id
          (Tracked.turn tracker.delayMs tsMs states[head.id]? (statusOf head)).1)
        (if (Tracked.turn tracker.delayMs tsMs states[head.id]? (statusOf head)).2 then
          out ++ [(head, statusOf head)]
        else
          out)
      have otherId {c} (member : c ∈ rest) : head.id ≠ c.id :=
        fun same => fresh (List.mem_map.mpr ⟨c, member, same.symm⟩)
      constructor
      · intro id
        refine (entries id).trans ?_
        by_cases same : head.id = id
        · have absent : rest.find? (fun c => c.id = id) = none := by
            refine List.find?_eq_none.mpr (fun c member => ?_)
            simpa [same] using (otherId member).symm
          simp [absent, same]
        · simp [same, Std.ExtTreeMap.getElem?_insert]
      · refine emitted.trans ?_
        have unchanged {c} (member : c ∈ rest)
            : (states.insert head.id
                (Tracked.turn tracker.delayMs tsMs states[head.id]? (statusOf head)).1)[c.id]?
              = states[c.id]? := by
          simp [Std.ExtTreeMap.getElem?_insert, otherId member]
        rw [List.filter_congr (fun c member => by rw [unchanged member])]
        split <;> rename_i due <;> simp [due]

/-- A container's entry after a snapshot depends on its own entry and its own status: it is
visited once, and entries without a container are dropped at the end.
-/
theorem Tracker.settle_states (tracker : Tracker) (tsMs : ℕ)
    (containers : List ContainerMetrics)
    (distinct : (containers.map ContainerMetrics.id).Nodup) (id : String)
    : (tracker.settle tsMs containers).1.states[id]?
      = (containers.find? (fun c => c.id = id)).map
          (fun c => (Tracked.turn tracker.delayMs tsMs tracker.states[id]? (statusOf c)).1) := by
  have entry := (tracker.foldl_visit tsMs containers distinct tracker.states []).1 id
  simp only [settle]
  rw [KeyedFolds.getElem?_filter_keys, entry]
  cases found : containers.find? (fun c => c.id = id) with
  | none =>
      have unseen : id ∉ containers.map ContainerMetrics.id := by
        intro member
        obtain ⟨c, inContainers, same⟩ := List.mem_map.mp member
        exact List.find?_eq_none.mp found c inContainers (by simpa using same)
      rw [if_neg (by simpa using unseen)]
      rfl
  | some c =>
      have seen : id ∈ containers.map ContainerMetrics.id :=
        List.mem_map.mpr ⟨c, List.mem_of_find?_eq_some found, by simpa using List.find?_some found⟩
      rw [if_pos (by simpa using seen)]
      rfl

/-- The changes due with a snapshot, container by container. -/
theorem Tracker.settle_due (tracker : Tracker) (tsMs : ℕ) (containers : List ContainerMetrics)
    (distinct : (containers.map ContainerMetrics.id).Nodup)
    : (tracker.settle tsMs containers).2
      = (containers.filter
            (fun c =>
              (Tracked.turn tracker.delayMs tsMs tracker.states[c.id]? (statusOf c)).2)).map
          (fun c => (c, statusOf c)) := by
  simpa [settle] using (tracker.foldl_visit tsMs containers distinct tracker.states []).2

/-- A snapshot changes neither the tracker's host nor its delay. -/
@[simp]
theorem Tracker.settle_delayMs (tracker : Tracker) (tsMs : ℕ)
    (containers : List ContainerMetrics)
    : (tracker.settle tsMs containers).1.delayMs = tracker.delayMs :=
  rfl

@[simp]
theorem Tracker.settle_host (tracker : Tracker) (tsMs : ℕ) (containers : List ContainerMetrics)
    : (tracker.settle tsMs containers).1.host = tracker.host :=
  rfl

end DockDoe
