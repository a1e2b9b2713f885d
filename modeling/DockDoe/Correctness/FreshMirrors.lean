import DockDoe.Correctness.MirroredHosts

/-! A hub that has nothing left to receive shows what the node shows, and it reports a host
as read-only only after the node has latched it or denied an action on it.
-/

namespace DockDoe

section Freshness

variable {floats : FloatFormat} {version : Text} {configured : Option Text}
variable {s t : Mirroring} {before events : List MirrorEvent}

/-- The dashboard that a session has taken last, wherever it is now. -/
def latestTaken (sent : List NodeSnapshot) (taken live : Option Dashboard) : Option Dashboard :=
  (taken.or (sent.getLast?.map NodeSnapshot.dashboard)).or live

/-- A session remembers the timestamp of the dashboard that it has taken last. -/
def SessionRemembers (floats : FloatFormat) (s : Mirroring) : Prop :=
  ∀ connection session,
    s.hub.activity = .stream connection
    → connection.session = some session
    → ∃ sent,
      Carries floats connection.buf connection.inFlight sent
      ∧ (∀ snapshot ∈ sent, snapshot.dashboard.InRange)
      ∧ (∀ dash ∈ session.taken, dash.InRange)
      ∧ (session.stream.last ≠ 0
        → (latestTaken sent session.taken s.hub.live.shared).map Dashboard.generatedAtUnixMs
          = some session.stream.last)

/-- A step that changes neither the connection nor the hub's dashboard keeps what a session
remembers.
-/
theorem SessionRemembers.of_same (remembers : SessionRemembers floats s)
    (activity : t.hub.activity = s.hub.activity) (live : t.hub.live.shared = s.hub.live.shared)
    : SessionRemembers floats t := by
  intro connection session streams alive
  rw [live]
  exact remembers connection session (activity ▸ streams) alive

/-- Without a live session there is nothing to remember. -/
theorem sessionRemembers_of_none
    (none : ∀ connection, s.hub.activity = .stream connection → connection.session = none)
    : SessionRemembers floats s := by
  intro connection session streams alive
  rw [none connection streams] at alive
  cases alive

/-- Delivering moves the dashboard taken last at most to the hub; its timestamp stays. By the
cases of what is still to be delivered.
-/
theorem latestTaken_deliver (delivered left : List NodeSnapshot) (taken live : Option Dashboard)
    (f : ℚ → ℚ)
    : (latestTaken left taken
          (((delivered.map (·.mapFloats f)).getLast?.map NodeSnapshot.dashboard).or live)).map
        Dashboard.generatedAtUnixMs
      = (latestTaken (delivered ++ left) taken live).map Dashboard.generatedAtUnixMs := by
  cases taken with
  | some dash => rfl
  | none =>
      cases left using List.reverseRecOn with
      | append_singleton earlier last => simp [latestTaken, ← List.append_assoc]
      | nil =>
          cases delivered using List.reverseRecOn with
          | nil => simp [latestTaken]
          | append_singleton earlier last =>
              simp [latestTaken, NodeSnapshot.mapFloats, Dashboard.mapFloats]

/-- What has been abandoned has no session, by the cases of the activity. -/
theorem abandoned_session {activity : Activity} {connection : Connection}
    (streams : activity.abandoned = .stream connection)
    : connection.session = none := by
  cases activity with
  | ticker => cases streams
  | stream other =>
      cases streams
      rfl
  | poll request => cases request <;> cases streams

/-- Every step keeps what a session remembers. Witness: the dashboard taken last goes from the
session to the connection and from there to the hub, and no other overtakes it.
-/
theorem SessionRemembers.step (remembers : SessionRemembers floats s)
    (invariant : MirrorInvariant floats before s)
    (step : Mirroring.Step floats version configured s events t)
    : SessionRemembers floats t := by
  have live := step.live_eq
  cases step with
  | publish host dash inRange => exact remembers.of_same rfl rfl
  | latch host => exact remembers.of_same rfl rfl
  | unsupported waits => exact remembers.of_same rfl rfl
  | denied own => exact remembers.of_same rfl rfl
  | resolve waits unresolved picked => exact remembers.of_same rfl rfl
  | restart hosts => exact sessionRemembers_of_none (fun _ streams => abandoned_session streams)
  | openStream waits own streaming =>
      intro connection session streams alive
      cases streams
      cases alive
      exact ⟨[], carries_nil, by simp, by simp, fun dated => absurd rfl dated⟩
  | @take own connection stream dash next resolvedOwn streams session yields =>
      obtain ⟨sent, carries, inRange, _, _⟩ := remembers connection _ streams session
      obtain ⟨shared, dated, _⟩ := DashboardStream.of_poll yields
      have published := invariant.current own dash shared
      have dashInRange : dash.InRange :=
        invariant.inRange own dash (List.mem_of_getLast? published)
      intro connection session streams alive
      cases streams
      cases alive
      refine ⟨sent, carries, inRange, by simpa using dashInRange, fun _ => ?_⟩
      exact congrArg some dated.symm
  | @send own connection stream dash resolvedOwn streams session =>
      obtain ⟨sent, carries, inRange, takenInRange, dated⟩ := remembers connection _ streams session
      intro connection session streams alive
      cases streams
      cases alive
      refine ⟨_, carries.send _, ?_, by simp, fun started => ?_⟩
      · intro snapshot member
        rcases List.mem_append.mp member with earlier | isLast
        · exact inRange snapshot earlier
        · rw [List.mem_singleton.mp isLast]
          exact takenInRange dash rfl
      · simpa [latestTaken] using dated started
  | @keepAlive connection session streams alive =>
      obtain ⟨sent, carries, inRange, takenInRange, dated⟩ := remembers connection _ streams alive
      intro other own same isSession
      cases same
      rw [alive] at isSession
      cases isSession
      exact ⟨sent, carries.keepAlive, inRange, takenInRange, dated⟩
  | @deliver connection piece rest buf snapshots streams cut consumed =>
      intro other session same alive
      cases same
      obtain ⟨sent, carries, inRange, takenInRange, dated⟩ := remembers connection _ streams alive
      rw [cut] at carries
      obtain ⟨delivered, left, rfl, arrived, remains⟩ := carries.deliver inRange
      rw [consumed] at arrived remains
      refine ⟨left, remains, ?_, takenInRange, fun started => ?_⟩
      · exact fun snapshot member => inRange snapshot (List.mem_append_right _ member)
      · simp only at arrived
        rw [live, mirrored_mirrored, arrived, latestTaken_deliver]
        exact dated started
  | disconnect streams => exact sessionRemembers_of_none nofun
  | ask waits own polling => exact sessionRemembers_of_none nofun
  | takeForPoll own polls current => exact sessionRemembers_of_none nofun
  | answer own polls => exact sessionRemembers_of_none nofun
  | receive polls decoded => exact sessionRemembers_of_none nofun
  | pollFails polls => exact sessionRemembers_of_none nofun

theorem sessionRemembers_run {hosts : List HostEntry}
    (run : Mirroring.Run floats version configured (.started hosts) events s)
    : SessionRemembers floats s := by
  induction run with
  | refl => exact sessionRemembers_of_none nofun
  | tail run step ih => exact ih.step (mirrorInvariant_run run) step

/-- Publications with different timestamps are told apart by them. -/
theorem eq_of_mem_published {target : Text}
    (distinct : ((published target events).map Dashboard.generatedAtUnixMs).Nodup)
    {left right : Dashboard} (inLeft : left ∈ published target events)
    (inRight : right ∈ published target events)
    (same : left.generatedAtUnixMs = right.generatedAtUnixMs)
    : left = right :=
  List.inj_on_of_nodup_map distinct inLeft inRight same

/-- When nothing is on its way to the hub any more, and the node's session finds nothing new to
send, the hub shows the dashboard that the node shows, provided that publications have
different timestamps, none of them zero. Witness: the session remembers the timestamp of what
it took last, which by now is at the hub.
-/
theorem Mirroring.caught_up {hosts : List HostEntry}
    (run : Mirroring.Run floats version configured (.started hosts) events s) {target : Text}
    (resolved : s.hub.nodeHost = some target) {connection : Connection} {stream : DashboardStream}
    (streams : s.hub.activity = .stream connection)
    (idle : connection.session = some { stream, taken := none })
    (arrived : connection.inFlight = []) {dash : Dashboard}
    (current : (s.node target).shared = some dash)
    (nothingNew : (stream.poll (some dash)).2 = none)
    (dated : dash.generatedAtUnixMs ≠ 0)
    (distinct : ((published target events).map Dashboard.generatedAtUnixMs).Nodup)
    : s.hub.live.shared = some (dash.mapFloats floats.reread) := by
  have invariant := mirrorInvariant_run run
  obtain ⟨sent, carries, _, _, remembers⟩ := sessionRemembers_run run connection _ streams idle
  have last : stream.last = dash.generatedAtUnixMs := by
    rw [DashboardStream.poll] at nothingNew
    split_ifs at nothingNew with fresh
    exact (not_not.mp fresh).symm
  have nothingSent : sent = [] := by
    have events := carries.events
    rw [arrived, List.append_nil, carries.unfinished] at events
    exact List.map_eq_nil_iff.mp events.symm
  have shownDate : s.hub.live.shared.map Dashboard.generatedAtUnixMs
      = some dash.generatedAtUnixMs := by
    have remembered := remembers (by rwa [last])
    rw [nothingSent, last] at remembered
    exact remembered
  obtain ⟨shown, isShown, sameDate⟩ := Option.map_eq_some_iff.mp shownDate
  -- What the hub shows is one of the publications, and its timestamp tells which.
  obtain ⟨_, _, _, positions, _, _, shows, _⟩ := invariant.inOrder target resolved
  have isMirrored
      : some shown ∈ (mirrored events).map (fun snapshot => some snapshot.dashboard) := by
    have live := invariant.live
    rw [isShown] at live
    obtain ⟨snapshot, isLast, rfl⟩ := Option.map_eq_some_iff.mp live.symm
    exact List.mem_map_of_mem (List.mem_of_getLast? isLast)
  rw [← shows] at isMirrored
  obtain ⟨i, _, found⟩ := List.mem_map.mp isMirrored
  obtain ⟨original, atPosition, rfl⟩ := Option.map_eq_some_iff.mp found
  have isOriginal : original = dash :=
    eq_of_mem_published distinct (List.mem_of_getElem? atPosition)
      (List.mem_of_getLast? (invariant.current target dash current)) sameDate
  rw [isShown, isOriginal]

/-- A stream that has delivered the only publication. -/
theorem Mirroring.caught_up_streamed
    : ∃ events s,
        Mirroring.Run sampleFloats sampleSnapshot.version none
          (.started [{ name := ['n', 'a', 's'], version := sampleSnapshot.version }]) events s
        ∧ published ['n', 'a', 's'] events = [sampleSnapshot.dashboard]
        ∧ s.hub.live.shared = some (sampleSnapshot.dashboard.mapFloats sampleFloats.reread) := by
  let hosts : List HostEntry := [{ name := ['n', 'a', 's'], version := sampleSnapshot.version }]
  have starts
      : Mirroring.Run sampleFloats sampleSnapshot.version none (.started hosts) []
          (.started hosts) :=
    .refl
  have publishes :=
    starts.tail (.publish ['n', 'a', 's'] sampleSnapshot.dashboard sampleSnapshot_inRange)
  have resolves := publishes.tail (.resolve rfl rfl rfl)
  have opens := resolves.tail (.openStream rfl rfl rfl)
  have takes := opens.tail (.take rfl rfl rfl rfl)
  have sends := takes.tail (.send rfl rfl rfl)
  have delivers := sends.tail (.deliver rfl (List.append_nil _).symm rfl)
  have only (snapshots : List NodeSnapshot)
      : published ['n', 'a', 's']
          ([.published ['n', 'a', 's'] sampleSnapshot.dashboard] ++ snapshots.map .mirrored)
        = [sampleSnapshot.dashboard] := by
    rw [published_append, published_mirrored]
    rfl
  refine ⟨_, _, delivers, only _, ?_⟩
  refine Mirroring.caught_up delivers rfl rfl rfl rfl rfl rfl Nat.one_ne_zero ?_
  exact (only _).symm ▸ List.nodup_singleton _

end Freshness

section Latches

variable {floats : FloatFormat} {version : Text} {configured : Option Text}
variable {s t : Mirroring} {before events : List MirrorEvent}

/-- The node has denied an action, and the hub has mirrored no snapshot since. -/
def DeniedSince (events : List MirrorEvent) : Prop :=
  ∃ earlier later, events = earlier ++ .denied :: later ∧ mirrored later = []

theorem DeniedSince.mem (denied : DeniedSince events) : .denied ∈ events := by
  obtain ⟨earlier, later, rfl, _⟩ := denied
  simp

/-- A denial counts until the next snapshot is mirrored, whatever else happens. By the place of
the denial, before or after the seam.
-/
theorem deniedSince_append_iff
    : DeniedSince (before ++ events)
      ↔ DeniedSince events ∨ DeniedSince before ∧ mirrored events = [] := by
  constructor
  · intro denied
    obtain ⟨earlier, later, split, none⟩ := denied
    rcases List.append_eq_append_iff.mp split with ⟨more, _, after⟩ | ⟨more, earlyPart, latePart⟩
    · exact .inl ⟨more, later, after, none⟩
    · cases more with
      | nil => exact .inl ⟨[], later, latePart.symm, none⟩
      | cons event more =>
          rw [List.cons_append, List.cons.injEq] at latePart
          obtain ⟨rfl, rfl⟩ := latePart
          rw [mirrored_append, List.append_eq_nil_iff] at none
          exact .inr ⟨⟨earlier, more, earlyPart, none.1⟩, none.2⟩
  · intro denied
    rcases denied with ⟨earlier, later, rfl, none⟩ | ⟨⟨earlier, later, rfl, none⟩, quiet⟩
    · exact ⟨before ++ earlier, later, (List.append_assoc ..).symm, none⟩
    · refine ⟨earlier, later ++ events, by rw [List.append_assoc, List.cons_append], ?_⟩
      rw [mirrored_append, none, quiet, List.append_nil]

/-- Whoever says that a host is read-only says so after the host has latched: the node and the
snapshots on their way. The hub says so after a latch or a denial too.
-/
structure FlagsLatched (floats : FloatFormat) (events : List MirrorEvent) (s : Mirroring)
    : Prop where
  node : ∀ host, (s.node host).readOnly = true → .latched host ∈ events
  live
    : s.hub.live.readOnly = true
      → ∃ target,
          s.hub.nodeHost = some target ∧ (.latched target ∈ events ∨ DeniedSince events)
  onItsWay
    : ∀ target ∈ s.hub.nodeHost,
      ∃ sent taken,
        Transit floats s.hub.activity sent taken
        ∧ Ordered floats target events sent taken
        ∧ ∀ snapshot ∈ sent, snapshot.readOnly = true → .latched target ∈ events

/-- The flags of the node are raised by its latches only. -/
theorem Mirroring.Step.node_latched (step : Mirroring.Step floats version configured s events t)
    {host : Text} (flagged : (t.node host).readOnly = true)
    : (s.node host).readOnly = true ∨ .latched host ∈ events := by
  cases step with
  | publish other dash inRange =>
      by_cases same : other = host
      · subst same
        exact .inl (by simpa [Mirroring.withNode] using flagged)
      · exact .inl (by
          simpa [Mirroring.withNode, Function.update_of_ne (Ne.symm same)] using flagged)
  | latch other =>
      by_cases same : other = host
      · exact .inr (by simp [same])
      · exact .inl (by
          simpa [Mirroring.withNode, Function.update_of_ne (Ne.symm same)] using flagged)
  | restart => cases flagged
  | _ => exact .inl flagged

/-- The hub's flag after a step is that of the last snapshot which it mirrors, or raised by a
denial, or as it was. By cases on the step; a chunk may complete no snapshot.
-/
theorem Mirroring.Step.live_flag (step : Mirroring.Step floats version configured s events t)
    : (∃ snapshot ∈ mirrored events, t.hub.live.readOnly = snapshot.readOnly)
        ∧ .denied ∉ events
      ∨ mirrored events = []
        ∧ (t.hub.live.readOnly = s.hub.live.readOnly ∧ .denied ∉ events
          ∨ t.hub.live.readOnly = true
            ∧ events = [.denied]
            ∧ ∃ target, s.hub.nodeHost = some target) := by
  have shown (snapshots : List NodeSnapshot)
      : (∃ snapshot ∈ snapshots,
          (snapshots.foldl LiveHost.mirror s.hub.live).readOnly = snapshot.readOnly)
        ∨ snapshots = [] := by
    cases snapshots using List.reverseRecOn with
    | nil => exact .inr rfl
    | append_singleton earlier last =>
        refine .inl ⟨last, by simp, ?_⟩
        rw [List.foldl_append]
        rfl
  cases step with
  | @deliver connection piece rest buf snapshots streams cut consumed =>
      rw [mirrored_mirrored]
      rcases shown snapshots with isLast | rfl
      · exact .inl ⟨isLast, by simp⟩
      · exact .inr ⟨rfl, .inl ⟨rfl, by simp⟩⟩
  | receive => exact .inl ⟨⟨_, List.mem_singleton_self _, rfl⟩, by simp⟩
  | denied resolved => exact .inr ⟨rfl, .inr ⟨rfl, rfl, _, resolved⟩⟩
  | _ => exact .inr ⟨rfl, .inl ⟨rfl, by simp⟩⟩

/-- Whatever a step does to what is on its way, raised flags there and at the hub have been
latched, as nothing on the way changes a flag.
-/
theorem FlagsLatched.advance (flags : FlagsLatched floats before s)
    (invariant : MirrorInvariant floats before s)
    (step : Mirroring.Step floats version configured s events t) {target : Text}
    (resolved : s.hub.nodeHost = some target)
    : (∃ sent taken,
        Transit floats t.hub.activity sent taken
        ∧ Ordered floats target (before ++ events) sent taken
        ∧ ∀ snapshot ∈ sent, snapshot.readOnly = true → .latched target ∈ before ++ events)
      ∧ ∀ snapshot ∈ mirrored events,
          snapshot.readOnly = true → .latched target ∈ before ++ events := by
  obtain ⟨sent, taken, transit, ordered, raised⟩ := flags.onItsWay target resolved
  have inRange : ∀ snapshot ∈ sent, snapshot.dashboard.InRange := by
    intro snapshot member
    have published := ordered.mem_published (List.mem_append_left _ (List.mem_map_of_mem member))
    exact invariant.inRange target _ published
  obtain ⟨sent', taken', transit', moved⟩ := step.moved resolved transit inRange
  have ordered' := ordered.moved (invariant.current target) moved
  have kept : ∀ snapshot ∈ sent, snapshot.readOnly = true → .latched target ∈ before ++ events :=
    fun snapshot member raises => List.mem_append_left _ (raised snapshot member raises)
  refine ⟨⟨sent', taken', transit', ordered', ?_⟩, ?_⟩
  · cases moved with
    | lose quiet subset => exact fun snapshot member => kept snapshot (subset member)
    | take => exact kept
    | send =>
        intro snapshot member raises
        rcases List.mem_append.mp member with earlier | isLast
        · exact kept snapshot earlier raises
        · rw [List.mem_singleton.mp isLast] at raises
          exact List.mem_append_left _ (flags.node target raises)
    | deliver split =>
        exact fun snapshot member => kept snapshot (split ▸ List.mem_append_right _ member)
  · intro snapshot member raises
    cases moved with
    | lose quiet =>
        rw [quiet] at member
        cases member
    | take => cases member
    | send => cases member
    | deliver split =>
        rw [mirrored_mirrored] at member
        obtain ⟨original, isDelivered, rfl⟩ := List.mem_map.mp member
        exact kept original (split ▸ List.mem_append_left _ isDelivered) raises

/-- A step keeps raised flags latched, by what it does to the node's flags, to what is on its
way, and to the hub's own flag.
-/
theorem FlagsLatched.step (flags : FlagsLatched floats before s)
    (invariant : MirrorInvariant floats before s)
    (step : Mirroring.Step floats version configured s events t)
    : FlagsLatched floats (before ++ events) t where
  node host flagged := by
    rcases step.node_latched flagged with earlier | now
    · exact List.mem_append_left _ (flags.node host earlier)
    · exact List.mem_append_right _ now
  live flagged := by
    have kept {target : Text} (own : s.hub.nodeHost = some target)
        : t.hub.nodeHost = some target := by
      rcases step.nodeHost_eq with same | ⟨unresolved, _⟩
      · exact same.trans own
      · cases unresolved.symm.trans own
    rcases step.live_flag
      with ⟨⟨snapshot, shown, same⟩, _⟩ | ⟨quiet, ⟨same, _⟩ | ⟨_, only, target, own⟩⟩
    · obtain ⟨target, own⟩ := step.resolved_of_mirrored
        (fun unresolved => (invariant.unresolved unresolved).1) shown
      have raised : snapshot.readOnly = true := same ▸ flagged
      exact ⟨target, kept own, .inl ((flags.advance invariant step own).2 snapshot shown raised)⟩
    · obtain ⟨target, own, latched | denied⟩ := flags.live (same ▸ flagged)
      · exact ⟨target, kept own, .inl (List.mem_append_left _ latched)⟩
      · exact ⟨target, kept own, .inr (deniedSince_append_iff.mpr (.inr ⟨denied, quiet⟩))⟩
    · refine ⟨target, kept own, .inr ⟨before, [], ?_, rfl⟩⟩
      rw [only]
  onItsWay target resolved := by
    rcases step.nodeHost_eq with same | ⟨unresolved, _, waits, quiet⟩
    · exact (flags.advance invariant step (same.symm.trans resolved)).1
    · obtain ⟨sent, taken, transit, ordered⟩ := (invariant.step step).inOrder target resolved
      rw [waits] at transit
      cases transit
      exact ⟨[], none, waits ▸ .ticker, ordered, by simp⟩

end Latches

end DockDoe
