import DockDoe.Foundations.Stretches
import DockDoe.Model.Tracker

/-! When a status change is reported, told from the run alone.
The tracker keeps a reported status and one pending change. Over a whole run these are the
baseline and the start of the current status run within the container's unbroken presence;
the invariant below says so, and a notification is due exactly when that run is long enough.
-/

namespace DockDoe

open Stretches

namespace Tracker

/-- A tracker that has seen nothing. -/
def fresh (host : String) (delayMs : ℕ) : Tracker :=
  { host, delayMs, states := ∅ }

/-- The tracker after a run of snapshots. -/
def after (tracker : Tracker) (history : List Snapshot) : Tracker :=
  history.foldl (fun state snap => (state.settle snap.tsMs snap.containers).1) tracker

/-- The changes that become due at step `k` of a run. -/
def dueAt (tracker : Tracker) (history : List Snapshot) (k : ℕ)
    : List (ContainerMetrics × Status) :=
  match history[k]? with
  | none => []
  | some snap => ((tracker.after (history.take k)).settle snap.tsMs snap.containers).2

/-- The notifications that `evaluate` returns at step `k` of a run. -/
def notificationsAt (tracker : Tracker) (history : List Snapshot) (k : ℕ) : List Notification :=
  match history[k]? with
  | none => []
  | some snap => ((tracker.after (history.take k)).evaluate snap.tsMs snap.containers).2

/-- A notification for container `id` with status `s` is emitted at step `k`. -/
def Emits (tracker : Tracker) (history : List Snapshot) (id : String) (k : ℕ) (s : Status)
    : Prop :=
  ∃ c, (c, s) ∈ tracker.dueAt history k ∧ c.id = id

end Tracker

/-- A container's record in the snapshot of step `k`, if it is present. -/
def containerAt (history : List Snapshot) (id : String) (k : ℕ) : Option ContainerMetrics :=
  history[k]?.bind (fun snap => snap.containers.find? (fun c => c.id = id))

/-- Among distinct ids, the container found for an id is the one that has it. What is found is in
the list with this id, and no other is.
-/
theorem find?_id_eq_some_iff {containers : List ContainerMetrics}
    (distinct : (containers.map ContainerMetrics.id).Nodup) {c : ContainerMetrics}
    : containers.find? (fun other => other.id = c.id) = some c ↔ c ∈ containers := by
  constructor
  · exact List.mem_of_find?_eq_some
  · intro member
    obtain ⟨other, found⟩
        : ∃ other, containers.find? (fun other => other.id = c.id) = some other :=
      Option.isSome_iff_exists.mp (List.find?_isSome.mpr ⟨c, member, by simp⟩)
    have sameId : other.id = c.id := by simpa using List.find?_some found
    rw [found, List.inj_on_of_nodup_map distinct (List.mem_of_find?_eq_some found) member sameId]

theorem id_of_containerAt {history : List Snapshot} {id : String} {k : ℕ} {c : ContainerMetrics}
    (present : containerAt history id k = some c)
    : c.id = id := by
  obtain ⟨snap, _, found⟩ := Option.bind_eq_some_iff.mp present
  simpa using List.find?_some found

/-- A container's status at step `k`, if it is present. -/
def statusAt (history : List Snapshot) (id : String) (k : ℕ) : Option Status :=
  (containerAt history id k).map statusOf

/-- The time of step `k`. -/
def timeAt (history : List Snapshot) (k : ℕ) : ℕ :=
  (history[k]?.map Snapshot.tsMs).getD 0

/-- The change to `s` has lasted for the delay at step `k`. -/
def ChangeSettled (status : ℕ → Option Status) (time : ℕ → ℕ) (emits : ℕ → Status → Prop)
    (delayMs k : ℕ) (s : Status)
    : Prop :=
  ∃ p base j,
    StretchStart status p k
    ∧ Baseline status emits p k base
    ∧ RunStart status j k s
    ∧ p < k
    ∧ s ≠ base
    ∧ delayMs ≤ time k - time j

/-- A container's entry before step `k`, from its own statuses and the times alone. -/
def Tracked.trace (delayMs : ℕ) (status : ℕ → Option Status) (time : ℕ → ℕ)
    : ℕ → Option Tracked
  | 0 => none
  | k + 1 =>
      (status k).map (fun s => (Tracked.turn delayMs (time k) (trace delayMs status time k) s).1)

/-- Step `k` reports status `s`. -/
def Tracked.Reports (delayMs : ℕ) (status : ℕ → Option Status) (time : ℕ → ℕ) (k : ℕ)
    (s : Status)
    : Prop :=
  status k = some s
  ∧ (Tracked.turn delayMs (time k) (Tracked.trace delayMs status time k) s).2 = true

/-- A changed status waits since its pending time, or since now when it is not pending. By cases
on what is pending.
-/
theorem Tracked.turn_changed (delayMs : ℕ) {tsMs since : ℕ} {t : Tracked} {cur : Status}
    (changed : cur ≠ t.notified)
    (waiting
      : t.pending = some (cur, since)
        ∨ (since = tsMs ∧ ∀ target start, t.pending = some (target, start) → target ≠ cur))
    : Tracked.turn delayMs tsMs (some t) cur
      = if delayMs ≤ tsMs - since then
          ({ notified := cur, pending := none }, true)
        else
          ({ t with pending := some (cur, since) }, false) := by
  simp only [turn, if_neg changed]
  rcases waiting with pending | ⟨rfl, other⟩
  · simp [pending]
  · cases pending : t.pending with
    | none => rfl
    | some entry =>
        obtain ⟨target, start⟩ := entry
        simp [other target start pending]

/-- What an entry says about the steps before it: nothing for a container absent at the
last one; else the baseline of its stretch, and the start of its run if that differs.
-/
def Tracked.Summary (delayMs : ℕ) (status : ℕ → Option Status) (time : ℕ → ℕ) (k : ℕ)
    (entry : Option Tracked)
    : Prop :=
  match k with
  | 0 => entry = none
  | n + 1 =>
      match status n with
      | none => entry = none
      | some prev =>
          ∃ p t,
            entry = some t
            ∧ StretchStart status p n
            ∧ Baseline status (Tracked.Reports delayMs status time) p (n + 1) t.notified
            ∧ if prev = t.notified then
                t.pending = none
              else
                ∃ j, RunStart status j n prev ∧ t.pending = some (prev, time j)

section Trace

variable {delayMs : ℕ} {status : ℕ → Option Status} {time : ℕ → ℕ}

/-- At most one status is reported per step: the container's own. -/
theorem Tracked.reports_functional (k : ℕ) (s t : Status)
    (left : Tracked.Reports delayMs status time k s)
    (right : Tracked.Reports delayMs status time k t)
    : s = t :=
  Option.some.inj (left.1.symm.trans right.1)

/-- A present container without an entry is adopted silently, as the start of a stretch. -/
theorem Tracked.step_adopted {k : ℕ} {s : Status} (now : status k = some s)
    (unseen : Tracked.trace delayMs status time k = none)
    (before : k = 0 ∨ status (k - 1) = none)
    : Tracked.Summary delayMs status time (k + 1) (Tracked.trace delayMs status time (k + 1))
      ∧ (Tracked.Reports delayMs status time k s
          ↔ ChangeSettled status time (Tracked.Reports delayMs status time) delayMs k s) := by
  have quiet : ∀ r, ¬ Tracked.Reports delayMs status time k r := by
    intro r h
    rcases h with ⟨_, due⟩
    rw [unseen] at due
    cases due
  have stretch : StretchStart status k k := by
    refine ⟨le_refl k, ?_, before⟩
    intro i above below
    obtain rfl : i = k := by omega
    simp [now]
  constructor
  · simp only [Summary, now]
    refine ⟨k, { notified := s, pending := none }, ?_, stretch, Or.inr ⟨?_, now⟩, by simp⟩
    · simp [trace, now, unseen, turn]
    · intro i above below r
      obtain rfl : i = k := by omega
      exact quiet r
  · refine ⟨fun due => absurd due (quiet s), ?_⟩
    intro h
    rcases h with ⟨p, _, _, other, _, _, less, _⟩
    exact absurd (other.unique stretch) (by omega)

/-- A tracked container's step: its own status silences it, a changed one is reported once its
run is old enough and pends from the start of that run until then. The three cases follow
`Tracked.turn`, and the run is extended or begun.
-/
theorem Tracked.step_tracked {n p : ℕ} {prev s : Status} {t : Tracked}
    (last : status n = some prev) (now : status (n + 1) = some s)
    (tracked : Tracked.trace delayMs status time (n + 1) = some t)
    (stretch : StretchStart status p n)
    (baseline : Baseline status (Tracked.Reports delayMs status time) p (n + 1) t.notified)
    (waiting
      : if prev = t.notified then
          t.pending = none
        else
          ∃ j, RunStart status j n prev ∧ t.pending = some (prev, time j))
    : Tracked.Summary delayMs status time (n + 2) (Tracked.trace delayMs status time (n + 2))
      ∧ (Tracked.Reports delayMs status time (n + 1) s
          ↔ ChangeSettled status time (Tracked.Reports delayMs status time) delayMs (n + 1) s) := by
  have stretchNow : StretchStart status p (n + 1) := stretch.extend (by simp [now])
  have less : p < n + 1 := Nat.lt_succ_of_le stretch.le
  have own {r : Status} (due : Tracked.Reports delayMs status time (n + 1) r) : r = s :=
    Option.some.inj (due.1.symm.trans now)
  simp only [Summary, now]
  rw [trace, now, Option.map_some, tracked]
  by_cases same : s = t.notified
  · -- Back to, or never left, the reported status.
    have turned
        : turn delayMs (time (n + 1)) (some t) s = ({ t with pending := none }, false) := by
      simp [turn, same]
    have quiet : ∀ r, ¬ Tracked.Reports delayMs status time (n + 1) r := by
      intro r due
      have ended := due.2
      rw [own due, tracked, turned] at ended
      cases ended
    rw [turned]
    refine ⟨⟨p, _, rfl, stretchNow, baseline.silent quiet, by simp [same]⟩, ?_⟩
    refine ⟨fun due => absurd due (quiet s), ?_⟩
    intro h
    rcases h with ⟨q, base, _, otherStretch, otherBase, _, _, differs, _⟩
    obtain rfl := stretchNow.unique otherStretch
    exact absurd (same.trans (baseline.unique reports_functional otherBase)) differs
  · -- A changed status: `j` is where its run and its timer started.
    obtain ⟨j, run, pends⟩
        : ∃ j,
            RunStart status j (n + 1) s
            ∧ (t.pending = some (s, time j)
              ∨ (time j = time (n + 1)
                  ∧ ∀ target start, t.pending = some (target, start) → target ≠ s)) := by
      by_cases kept : prev = s
      · subst prev
        rw [if_neg same] at waiting
        obtain ⟨j, run, pending⟩ := waiting
        exact ⟨j, run.extend now, Or.inl pending⟩
      · refine ⟨n + 1, .begin now (Or.inr (by simpa [last] using kept)), Or.inr ⟨rfl, ?_⟩⟩
        intro target start pending
        split at waiting
        · rw [waiting] at pending
          cases pending
        · obtain ⟨_, _, pendingPrev⟩ := waiting
          rw [pendingPrev] at pending
          cases pending
          exact kept
    have turned := turn_changed delayMs same pends
    have reports
        : Tracked.Reports delayMs status time (n + 1) s ↔ delayMs ≤ time (n + 1) - time j := by
      rw [Reports, tracked, turned]
      by_cases due : delayMs ≤ time (n + 1) - time j <;> simp [now, due]
    constructor
    · rw [turned]
      by_cases due : delayMs ≤ time (n + 1) - time j
      · rw [if_pos due]
        exact ⟨p, _, rfl, stretchNow, .emitted stretchNow.le (reports.mpr due), by simp⟩
      · have quiet : ∀ r, ¬ Tracked.Reports delayMs status time (n + 1) r :=
          fun r reported => due (reports.mp (own reported ▸ reported))
        rw [if_neg due]
        refine ⟨p, _, rfl, stretchNow, baseline.silent quiet, ?_⟩
        simp only [if_neg same]
        exact ⟨j, run, rfl⟩
    · rw [reports]
      constructor
      · intro due
        exact ⟨p, t.notified, j, stretchNow, baseline, run, less, same, due⟩
      · intro h
        rcases h with ⟨_, _, i, _, _, otherRun, _, _, due⟩
        rwa [run.unique otherRun]

/-- Along a run every entry summarises the steps before it, and a step reports exactly the
settled changes. Witness: induction on the steps, adopting or advancing the entry.
-/
theorem Tracked.summary_trace (k : ℕ)
    : Tracked.Summary delayMs status time k (Tracked.trace delayMs status time k)
      ∧ ∀ s, status k = some s
        → (Tracked.Reports delayMs status time k s
            ↔ ChangeSettled status time (Tracked.Reports delayMs status time) delayMs k s) := by
  have advance (k : ℕ)
      (summary : Tracked.Summary delayMs status time k (Tracked.trace delayMs status time k))
      {s : Status} (now : status k = some s)
      : Tracked.Summary delayMs status time (k + 1) (Tracked.trace delayMs status time (k + 1))
        ∧ (Tracked.Reports delayMs status time k s
            ↔ ChangeSettled status time (Tracked.Reports delayMs status time) delayMs k s) := by
    cases k with
    | zero => exact step_adopted now rfl (Or.inl rfl)
    | succ n =>
        cases last : status n with
        | none => exact step_adopted now (by simp [trace, last]) (Or.inr (by simpa using last))
        | some prev =>
            simp only [Summary, last] at summary
            obtain ⟨p, t, tracked, stretch, baseline, waiting⟩ := summary
            exact step_tracked last now tracked stretch baseline waiting
  induction k with
  | zero => exact ⟨rfl, fun s now => (advance 0 rfl now).2⟩
  | succ k ih =>
      have summary
          : Tracked.Summary delayMs status time (k + 1)
              (Tracked.trace delayMs status time (k + 1)) := by
        cases now : status k with
        | none => simp [Summary, trace, now]
        | some s => exact (advance k ih.1 now).1
      exact ⟨summary, fun s now => (advance (k + 1) summary now).2⟩

/-- A step reports a status exactly when the change to it has settled, by the summary of the
trace up to that step.
-/
theorem Tracked.reports_iff (k : ℕ) (s : Status)
    : Tracked.Reports delayMs status time k s
      ↔ ChangeSettled status time (Tracked.Reports delayMs status time) delayMs k s := by
  constructor
  · intro reported
    exact ((summary_trace k).2 s reported.1).mp reported
  · intro settled
    have now : status k = some s := by
      obtain ⟨_, _, _, _, _, run, _⟩ := settled
      exact run.same k run.le (le_refl k)
    exact ((summary_trace k).2 s now).mpr settled

end Trace

/-- A trace up to a step depends on the statuses and times up to it only, by induction on the
step.
-/
theorem Tracked.trace_congr {delayMs : ℕ} {status status' : ℕ → Option Status}
    {time time' : ℕ → ℕ} (k : ℕ) (sameStatus : ∀ i < k, status i = status' i)
    (sameTime : ∀ i < k, time i = time' i)
    : Tracked.trace delayMs status time k = Tracked.trace delayMs status' time' k := by
  induction k with
  | zero => rfl
  | succ k ih =>
      simp only [Tracked.trace, sameStatus k (Nat.lt_succ_self k),
        sameTime k (Nat.lt_succ_self k),
        ih (fun i below => sameStatus i (Nat.lt_succ_of_lt below))
          (fun i below => sameTime i (Nat.lt_succ_of_lt below))]

-----------------------------------------------------------------------------------------
-- The tracker runs one such trace per container
-----------------------------------------------------------------------------------------

namespace Tracker

/-- The run's snapshots list every container once. -/
def DistinctIds (history : List Snapshot) : Prop :=
  ∀ snap ∈ history, (snap.containers.map ContainerMetrics.id).Nodup

theorem after_take_succ (tracker : Tracker) {history : List Snapshot} {k : ℕ} {snap : Snapshot}
    (found : history[k]? = some snap)
    : tracker.after (history.take (k + 1))
      = ((tracker.after (history.take k)).settle snap.tsMs snap.containers).1 := by
  rw [List.take_add_one, found]
  simp [after, List.foldl_append]

@[simp]
theorem after_delayMs (tracker : Tracker) (history : List Snapshot)
    : (tracker.after history).delayMs = tracker.delayMs := by
  induction history generalizing tracker with
  | nil => rfl
  | cons snap rest ih => exact ih (tracker.settle snap.tsMs snap.containers).1

@[simp]
theorem after_host (tracker : Tracker) (history : List Snapshot)
    : (tracker.after history).host = tracker.host := by
  induction history generalizing tracker with
  | nil => rfl
  | cons snap rest ih => exact ih (tracker.settle snap.tsMs snap.containers).1

/-- The tracker's entry of a container is its trace, at every step of the run.
Witness: induction on the steps taken; a snapshot updates each entry from itself.
-/
theorem after_states (host : String) (delayMs : ℕ) {history : List Snapshot}
    (distinct : DistinctIds history) (id : String) {k : ℕ} (within : k ≤ history.length)
    : ((fresh host delayMs).after (history.take k)).states[id]?
      = Tracked.trace delayMs (statusAt history id) (timeAt history) k := by
  induction k with
  | zero => simp [after, fresh, Tracked.trace]
  | succ k ih =>
      obtain ⟨snap, found⟩ : ∃ snap, history[k]? = some snap :=
        ⟨history[k], List.getElem?_eq_getElem within⟩
      have listed := distinct snap (List.mem_of_getElem? found)
      rw [after_take_succ _ found, settle_states _ _ _ listed, ih (by omega), after_delayMs]
      simp only [Tracked.trace, statusAt, containerAt, timeAt, found, Option.bind_some,
        Option.map_map, Option.map_some, Option.getD_some]
      rfl

/-- The changes due at a step are those its containers' traces report: the tracker's map holds
each container's trace, as the ids are distinct.
-/
theorem mem_dueAt (host : String) (delayMs : ℕ) {history : List Snapshot}
    (distinct : DistinctIds history) (k : ℕ) (c : ContainerMetrics) (s : Status)
    : (c, s) ∈ (fresh host delayMs).dueAt history k
      ↔ containerAt history c.id k = some c
        ∧ Tracked.Reports delayMs (statusAt history c.id) (timeAt history) k s := by
  unfold dueAt
  cases found : history[k]? with
  | none => simp [containerAt, found]
  | some snap =>
      have listed := distinct snap (List.mem_of_getElem? found)
      have within : k ≤ history.length :=
        le_of_lt (List.getElem?_eq_some_iff.mp found).1
      have present
          : containerAt history c.id k = some c ↔ c ∈ snap.containers := by
        simp only [containerAt, found, Option.bind_some]
        exact find?_id_eq_some_iff listed
      simp only [settle_due _ _ _ listed, List.mem_map, List.mem_filter, after_delayMs, present]
      constructor
      · intro h
        rcases h with ⟨other, ⟨member, due⟩, same⟩
        cases same
        refine ⟨member, ?_, ?_⟩
        · simp [statusAt, present.mpr member]
        · rw [after_states host delayMs distinct c.id within] at due
          simpa [timeAt, found, fresh] using due
      · intro h
        rcases h with ⟨member, now, due⟩
        have own : s = statusOf c := by
          simpa [statusAt, present.mpr member, eq_comm] using now
        refine ⟨c, ⟨member, ?_⟩, by rw [own]⟩
        rw [after_states host delayMs distinct c.id within, ← own]
        simpa [timeAt, found, fresh] using due

/-- A container's emissions are the reports of its trace. -/
theorem emits_eq_reports (host : String) (delayMs : ℕ) {history : List Snapshot}
    (distinct : DistinctIds history) (id : String)
    : (fresh host delayMs).Emits history id
      = Tracked.Reports delayMs (statusAt history id) (timeAt history) := by
  funext k s
  refine propext ⟨?_, ?_⟩
  · intro h
    rcases h with ⟨c, due, rfl⟩
    exact ((mem_dueAt host delayMs distinct k c s).mp due).2
  · intro reported
    obtain ⟨c, present, _⟩ := Option.map_eq_some_iff.mp reported.1
    obtain rfl : c.id = id := id_of_containerAt present
    exact ⟨c, (mem_dueAt host delayMs distinct k c s).mpr ⟨present, reported⟩, rfl⟩

/-- The changes due at one step concern distinct containers. -/
theorem dueAt_ids_nodup (tracker : Tracker) {history : List Snapshot}
    (distinct : DistinctIds history) (k : ℕ)
    : ((tracker.dueAt history k).map (fun entry => entry.1.id)).Nodup := by
  unfold dueAt
  cases found : history[k]? with
  | none => exact List.nodup_nil
  | some snap =>
      have listed := distinct snap (List.mem_of_getElem? found)
      simp only [settle_due _ _ _ listed, List.map_map, Function.comp_def]
      exact (List.filter_sublist.map ContainerMetrics.id).nodup listed

/-- The notifications of a step are the messages of its due changes. -/
theorem notificationsAt_eq (tracker : Tracker) (history : List Snapshot) (k : ℕ)
    : tracker.notificationsAt history k
      = (tracker.dueAt history k).map (fun (c, target) => notificationFor c target tracker.host)
      := by
  unfold notificationsAt dueAt
  cases history[k]? with
  | none => rfl
  | some snap => simp [evaluate]

/-- Notifications are emitted exactly for settled changes, at most one per container and step,
and independently of the other containers of the run. Witness: the tracker's entry of a container
is determined by that container's own statuses, by induction on the steps.
-/
theorem emits_iff_changeSettled (host : String) (delayMs : ℕ) (history : List Snapshot)
    (distinct : DistinctIds history)
    : (∀ id k s,
        (fresh host delayMs).Emits history id k s
        ↔ ChangeSettled (statusAt history id) (timeAt history)
            ((fresh host delayMs).Emits history id) delayMs k s)
      ∧ (∀ k,
          (fresh host delayMs).notificationsAt history k
            = ((fresh host delayMs).dueAt history k).map
                (fun (c, target) => notificationFor c target host)
          ∧ (((fresh host delayMs).dueAt history k).map (fun entry => entry.1.id)).Nodup)
      ∧ ∀ other,
          DistinctIds other
          → ∀ id k,
            (∀ i ≤ k,
              containerAt history id i = containerAt other id i
              ∧ timeAt history i = timeAt other i)
            → ∀ c s,
              c.id = id
              → ((c, s) ∈ (fresh host delayMs).dueAt history k
                  ↔ (c, s) ∈ (fresh host delayMs).dueAt other k) := by
  refine ⟨?_, ?_, ?_⟩
  · intro id k s
    rw [emits_eq_reports host delayMs distinct id]
    exact Tracked.reports_iff k s
  · intro k
    exact ⟨notificationsAt_eq _ history k, dueAt_ids_nodup _ distinct k⟩
  · intro other otherDistinct id k agree c s same
    subst same
    have sameStatus (i : ℕ) (le : i ≤ k) : statusAt history c.id i = statusAt other c.id i := by
      simp only [statusAt, (agree i le).1]
    rw [mem_dueAt host delayMs distinct, mem_dueAt host delayMs otherDistinct,
      (agree k (le_refl k)).1, Tracked.Reports, Tracked.Reports, sameStatus k (le_refl k),
      (agree k (le_refl k)).2,
      Tracked.trace_congr k (fun i below => sameStatus i below.le)
        (fun i below => (agree i below.le).2)]

/-- A container that goes down after one second and stays so past a delay of thirty. -/
private def outageHistory : List Snapshot :=
  let container (state : ContainerState) : ContainerMetrics :=
    {
      id := "a", name := "a", image := "img", state, status := "status", health := .none
      stack := none, cpuPercent := none, memUsed := none, memLimit := none, netRxBps := none
      netTxBps := none, diskReadBps := none, diskWriteBps := none, ports := []
    }
  [⟨0, [container .running]⟩, ⟨1000, [container .exited]⟩, ⟨31000, [container .exited]⟩]

/-- The outage is reported once its run is thirty seconds old: in the settled form, nothing was
emitted before.
-/
theorem outage_emitted : (fresh "h1" 30000).Emits outageHistory "a" 2 .down := by
  have distinct : DistinctIds outageHistory := by
    intro snap member
    fin_cases member <;> exact List.nodup_singleton "a"
  have quiet (i : ℕ) (below : i < 2) (s : Status)
      : ¬ (fresh "h1" 30000).Emits outageHistory "a" i s := by
    intro given
    rcases given with ⟨c, due, _⟩
    have silent : ((fresh "h1" 30000).dueAt outageHistory i).length = 0 := by
      interval_cases i <;> decide +kernel
    rw [List.length_eq_zero_iff.mp silent] at due
    exact List.not_mem_nil due
  refine ((emits_iff_changeSettled "h1" 30000 outageHistory distinct).1 "a" 2 .down).mpr
    ⟨0, .up, 1, ⟨by omega, ?_, Or.inl rfl⟩, Or.inr ⟨fun i _ below => quiet i below, rfl⟩,
      ⟨by omega, ?_, Or.inr (by decide)⟩, by omega, by decide, by decide⟩
  · intro i _ below
    interval_cases i <;> rfl
  · intro i above below
    interval_cases i <;> rfl

end Tracker

end DockDoe
