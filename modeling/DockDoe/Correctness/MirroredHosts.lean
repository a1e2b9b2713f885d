import DockDoe.Correctness.EventRoundTrips
import DockDoe.Correctness.SnapshotRoundTrips
import DockDoe.Foundations.SampledRegisters
import DockDoe.Model.Mirroring

/-! A hub shows what the node has published for the mirrored host, in the order of the
publications, whatever the order in which the node, the hub and the network take their steps.
-/

namespace DockDoe

open SampledRegisters

-----------------------------------------------------------------------------------------
-- Events on the wire
-----------------------------------------------------------------------------------------

section Wire

variable {floats : FloatFormat}

/-- A snapshot's text is one line. -/
theorem NodeSnapshot.toJson_isLine (snapshot : NodeSnapshot)
    : IsLine (snapshot.toJson floats) := by
  have printable {control : Char} (small : control.toNat < 0x20) (other : Char)
      : control ∉ Json.standardEscape other :=
    fun inside => absurd (Json.standardEscape_printable inside) (by omega)
  exact ⟨Json.not_mem_text rfl (printable (by decide)) _,
    Json.not_mem_text rfl (printable (by decide)) _⟩

/-- What the parser makes of a snapshot's event. -/
def NodeSnapshot.event (floats : FloatFormat) (snapshot : NodeSnapshot) : Text × Text :=
  ("snapshot".toList, snapshot.toJson floats)

theorem NodeSnapshot.event_encodable (snapshot : NodeSnapshot)
    : Encodable (snapshot.event floats) where
  name := by
    show IsLine "snapshot".toList
    constructor <;> simp
  start := by
    show ∀ c ∈ "snapshot".toList.head?, isWhitespace c = false
    simp [isWhitespace]
  data := snapshot.toJson_isLine.1

theorem eventFields_line (name : Text) {data : Text} (line : '\n' ∉ data)
    : eventFields (name, data) = ["event: ".toList ++ name, "data: ".toList ++ data] := by
  rw [eventFields, List.splitOn_eq_singleton line, List.map_singleton]

/-- Fields on a line each and an empty line are the lines of a block. -/
theorem joined_pair (first second : Text)
    : Delimiters.joined '\n' [first, second] ++ ['\n']
      = first ++ ['\n'] ++ (second ++ ['\n']) ++ ['\n'] := by
  simp [Delimiters.joined]

/-- An event is one block of the stream, which the parser reads back: it is its two field lines
joined, and the cut is that of `Delimiters.blocks_joined`.
-/
theorem sseEvent_block {name data : Text} (encodable : Encodable (name, data))
    (line : '\n' ∉ data)
    : Delimiters.blocks (· == '\n') (sseEvent name data) = ([sseEvent name data], [])
      ∧ SseParser.parseBlock (sseEvent name data) = some (name, data) := by
  have text
      : sseEvent name data = Delimiters.joined '\n' (eventFields (name, data)) ++ ['\n'] := by
    rw [eventFields_line name line]
    exact (joined_pair _ _).symm
  have fields : Interspersed (eventFields (name, data)) (eventFields (name, data)) := by
    rw [eventFields_line name line]
    exact .field _ (.field _ .nil)
  have cut
      : Delimiters.blocks (· == '\n')
          (Delimiters.joined '\n' (eventFields (name, data)) ++ '\n' :: [])
        = ([Delimiters.joined '\n' (eventFields (name, data)) ++ ['\n']], []) :=
    Delimiters.blocks_joined rfl (List.cons_ne_nil _ _)
      (fun other member => SseParser.separated (encodable.blockLines other member)) []
  rw [text]
  exact ⟨cut, SseParser.parseBlock_fields encodable fields encodable.blockLines⟩

theorem not_mem_sseEvent {name data : Text} (noName : '\r' ∉ name) (noData : '\r' ∉ data)
    : '\r' ∉ sseEvent name data := by
  show '\r' ∉ "event: ".toList ++ name ++ ['\n'] ++ ("data: ".toList ++ data ++ ['\n']) ++ ['\n']
  simp [noName, noData]

theorem keepAlive_block
    : Delimiters.blocks (· == '\n') keepAlive = ([keepAlive], [])
      ∧ SseParser.parseBlock keepAlive = none :=
  ⟨rfl, rfl⟩

/-- The hub's buffer and what is in flight make up the events of some snapshots. -/
structure Carries (floats : FloatFormat) (buf inFlight : Text) (snapshots : List NodeSnapshot)
    : Prop where
  unfinished : (Delimiters.blocks (· == '\n') buf).1 = []
  plain : '\r' ∉ inFlight
  complete : (Delimiters.blocks (· == '\n') (buf ++ inFlight)).2 = []
  events
    : (Delimiters.blocks (· == '\n') (buf ++ inFlight)).1.filterMap SseParser.parseBlock
      = snapshots.map (·.event floats)

theorem carries_nil : Carries floats [] [] [] where
  unfinished := rfl
  plain := List.not_mem_nil
  complete := rfl
  events := rfl

variable {buf inFlight : Text} {snapshots : List NodeSnapshot}

/-- A block that is sent joins what is in flight, since what is buffered and in flight completes
no block before it.
-/
theorem Carries.append_block (carries : Carries floats buf inFlight snapshots) {block : Text}
    (more : List NodeSnapshot) (plain : '\r' ∉ block)
    (isBlock : Delimiters.blocks (· == '\n') block = ([block], []))
    (parsed : [block].filterMap SseParser.parseBlock = more.map (·.event floats))
    : Carries floats buf (inFlight ++ block) (snapshots ++ more) := by
  have whole := Delimiters.blocks_append (· == '\n') (buf ++ inFlight) block
  rw [carries.complete, List.nil_append, isBlock] at whole
  refine ⟨carries.unfinished, ?_, ?_, ?_⟩
  · rw [List.mem_append]
    exact fun inside => inside.elim carries.plain plain
  · rw [← List.append_assoc, whole]
  · rw [← List.append_assoc, whole, List.filterMap_append, carries.events, parsed, List.map_append]

theorem Carries.keepAlive (carries : Carries floats buf inFlight snapshots)
    : Carries floats buf (inFlight ++ DockDoe.keepAlive) snapshots := by
  have sent := carries.append_block [] (by decide) keepAlive_block.1 rfl
  rwa [List.append_nil] at sent

theorem Carries.send (carries : Carries floats buf inFlight snapshots) (snapshot : NodeSnapshot)
    : Carries floats buf (inFlight ++ snapshotEvent floats snapshot)
        (snapshots ++ [snapshot]) := by
  have encodable : Encodable (snapshot.event floats) := snapshot.event_encodable
  obtain ⟨isBlock, parsed⟩ := sseEvent_block encodable snapshot.toJson_isLine.2
  exact carries.append_block [snapshot] (not_mem_sseEvent encodable.name.1 encodable.data) isBlock
    (List.filterMap_cons_some parsed)

/-- A chunk completes the events of some of the snapshots, the first ones, and the hub decodes
them: the blocks of what has arrived are the first blocks of all that was sent.
-/
theorem Carries.deliver {piece rest : Text} (carries : Carries floats buf (piece ++ rest) snapshots)
    (inRange : ∀ snapshot ∈ snapshots, snapshot.dashboard.InRange)
    : ∃ delivered left,
        snapshots = delivered ++ left
        ∧ (consumeChunk floats buf (asBytes piece)).2 = delivered.map (·.mapFloats floats.reread)
        ∧ Carries floats (consumeChunk floats buf (asBytes piece)).1 rest left := by
  have text : (LossyUtf8.fromUtf8Lossy (asBytes piece)).filter (· ≠ '\r') = piece := by
    rw [asBytes, LossyUtf8.fromUtf8Lossy_text]
    refine List.filter_eq_self.mpr (fun c inside => ?_)
    have other : c ≠ '\r' := by
      rintro rfl
      exact carries.plain (List.mem_append_left _ inside)
    simpa using other
  have pushed := SseParser.push_eq buf (asBytes piece)
  rw [text] at pushed
  -- The blocks of the whole are those of the first part and those that it leaves unfinished.
  have whole := Delimiters.blocks_append (· == '\n') (buf ++ piece) rest
  have events := carries.events
  rw [← List.append_assoc, whole, List.filterMap_append] at events
  obtain ⟨delivered, left, split, first, later⟩ := List.map_eq_append_iff.mp events.symm
  refine ⟨delivered, left, split, ?_, ?_⟩
  · have decoded
        : ∀ snapshot ∈ delivered,
          eventSnapshot floats (snapshot.event floats)
            = some (snapshot.mapFloats floats.reread) := by
      intro snapshot member
      refine (if_pos rfl).trans ?_
      exact NodeSnapshot.fromJson_toJson floats
        (inRange snapshot (split ▸ List.mem_append_left _ member))
    have read : (consumeChunk floats buf (asBytes piece)).2
        = (delivered.map (·.event floats)).filterMap (eventSnapshot floats) := by
      rw [consumeChunk, pushed, first]
    rw [read, List.filterMap_map]
    exact (List.filterMap_congr decoded).trans (congrFun List.filterMap_eq_map delivered)
  · rw [consumeChunk, pushed]
    refine ⟨Delimiters.blocks_leftover _ _, ?_, ?_, later.symm⟩
    · exact fun inside => carries.plain (List.mem_append_right _ inside)
    · have complete := carries.complete
      rwa [← List.append_assoc, whole] at complete

end Wire

-----------------------------------------------------------------------------------------
-- What is on its way
-----------------------------------------------------------------------------------------

/-- The dashboards that the node published for a host. -/
def published (target : Text) (events : List MirrorEvent) : List Dashboard :=
  events.filterMap (fun event =>
    match event with
    | .published host dash => if host = target then some dash else none
    | _ => none)

/-- The snapshots that the hub has shown. -/
def mirrored (events : List MirrorEvent) : List NodeSnapshot :=
  events.filterMap (fun event =>
    match event with
    | .mirrored snapshot => some snapshot
    | _ => none)

theorem published_append (target : Text) (before events : List MirrorEvent)
    : published target (before ++ events)
      = published target before ++ published target events :=
  List.filterMap_append

theorem mirrored_append (before events : List MirrorEvent)
    : mirrored (before ++ events) = mirrored before ++ mirrored events :=
  List.filterMap_append

@[simp]
theorem mirrored_mirrored (snapshots : List NodeSnapshot)
    : mirrored (snapshots.map .mirrored) = snapshots := by
  rw [mirrored, List.filterMap_map]
  exact List.filterMap_some

@[simp]
theorem published_mirrored (target : Text) (snapshots : List NodeSnapshot)
    : published target (snapshots.map .mirrored) = [] := by
  rw [published, List.filterMap_map]
  exact List.filterMap_eq_nil_iff.mpr (fun _ _ => rfl)

section Transit

variable (floats : FloatFormat)

/-- The snapshots on their way to the hub, from the oldest, and the dashboard that the node
has taken for the next one.
-/
inductive Transit : Activity → List NodeSnapshot → Option Dashboard → Prop
  | ticker : Transit .ticker [] none
  | asked : Transit (.poll .asked) [] none
  | taken (dash : Dashboard) : Transit (.poll (.taken dash)) [] (some dash)
  | answered (snapshot : NodeSnapshot)
    : Transit (.poll (.answered (snapshot.toJson floats))) [snapshot] none
  | stream {connection : Connection} {sent : List NodeSnapshot}
      (carries : Carries floats connection.buf connection.inFlight sent)
    : Transit (.stream connection) sent (connection.session.bind Session.taken)

/-- The hub has shown the publications at some positions, and others are on their way, all in
the order of their publication.
-/
def Ordered (floats : FloatFormat) (target : Text) (events : List MirrorEvent)
    (sent : List NodeSnapshot) (taken : Option Dashboard)
    : Prop :=
  ∃ shown pending,
    InOrder (published target events).length (shown ++ pending)
    ∧ shown.map (fun i => (published target events)[i]?.map (·.mapFloats floats.reread))
      = (mirrored events).map (fun snapshot => some snapshot.dashboard)
    ∧ pending.map (fun i => (published target events)[i]?)
      = (sent.map NodeSnapshot.dashboard ++ taken.toList).map some

variable {floats} {target : Text} {events : List MirrorEvent} {sent : List NodeSnapshot}
variable {taken : Option Dashboard}

/-- Publications do not change positions, as they only add to the end. -/
theorem Ordered.publish (ordered : Ordered floats target events sent taken)
    {more : List MirrorEvent} (quiet : mirrored more = [])
    : Ordered floats target (events ++ more) sent taken := by
  obtain ⟨shown, pending, inOrder, shows, positions⟩ := ordered
  have kept {i : ℕ} (known : i ∈ shown ++ pending)
      : (published target (events ++ more))[i]? = (published target events)[i]? := by
    rw [published_append, List.getElem?_append_left (inOrder.bounded i known)]
  refine ⟨shown, pending, inOrder.publish ?_, ?_, ?_⟩
  · rw [published_append, List.length_append]
    omega
  · rw [mirrored_append, quiet, List.append_nil, ← shows]
    refine List.map_congr_left (fun i member => ?_)
    rw [kept (List.mem_append_left _ member)]
  · rw [← positions]
    exact List.map_congr_left (fun i member => kept (List.mem_append_right _ member))

/-- What is on its way may get lost, from the end: its positions are a prefix of those before. -/
theorem Ordered.lose (ordered : Ordered floats target events sent taken)
    {left : List NodeSnapshot} {kept : Option Dashboard}
    (isPrefix
      : left.map NodeSnapshot.dashboard ++ kept.toList
        <+: sent.map NodeSnapshot.dashboard ++ taken.toList)
    : Ordered floats target events left kept := by
  obtain ⟨shown, pending, inOrder, shows, positions⟩ := ordered
  obtain ⟨rest, split⟩ := isPrefix
  rw [← split, List.map_append] at positions
  obtain ⟨keptPositions, lostPositions, rfl, found, _⟩ := List.map_eq_append_iff.mp positions
  refine ⟨shown, keptPositions, inOrder.lose ?_, shows, found⟩
  exact (List.sublist_append_left keptPositions lostPositions).append_left shown

/-- A dashboard is taken when it is the latest publication, so its position is after all others. -/
theorem Ordered.take (ordered : Ordered floats target events sent none) {dash : Dashboard}
    (latest : (published target events).getLast? = some dash)
    : Ordered floats target events sent (some dash) := by
  obtain ⟨shown, pending, inOrder, shows, positions⟩ := ordered
  obtain ⟨earlier, same⟩ := List.getLast?_eq_some_iff.mp latest
  have count : (published target events).length = earlier.length + 1 := by
    rw [same, List.length_append, List.length_singleton]
  have found : (published target events)[earlier.length]? = some dash := by
    rw [same, List.getElem?_append_right le_rfl, Nat.sub_self]
    rfl
  rw [count] at inOrder
  refine ⟨shown, pending ++ [earlier.length], ?_, shows, ?_⟩
  · rw [count, ← List.append_assoc]
    exact inOrder.take
  · rw [Option.toList_none, List.append_nil] at positions
    rw [List.map_append, List.map_append, positions, List.map_singleton, found]
    rfl

/-- A dashboard that is sent stays on its way. -/
theorem Ordered.send {snapshot : NodeSnapshot}
    (ordered : Ordered floats target events sent (some snapshot.dashboard))
    : Ordered floats target events (sent ++ [snapshot]) none := by
  obtain ⟨shown, pending, inOrder, shows, positions⟩ := ordered
  refine ⟨shown, pending, inOrder, shows, ?_⟩
  rw [positions]
  simp

/-- What arrives at the hub is the oldest on its way; the hub shows it, and the positions are
divided accordingly.
-/
theorem Ordered.deliver {delivered left : List NodeSnapshot}
    (ordered : Ordered floats target events (delivered ++ left) taken)
    : Ordered floats target
        (events ++ (delivered.map (·.mapFloats floats.reread)).map .mirrored) left taken := by
  obtain ⟨shown, pending, inOrder, shows, positions⟩ := ordered
  have split
      : ((delivered ++ left).map NodeSnapshot.dashboard ++ taken.toList).map some
        = (delivered.map NodeSnapshot.dashboard).map some
          ++ (left.map NodeSnapshot.dashboard ++ taken.toList).map some := by
    simp
  rw [split] at positions
  obtain ⟨arrivedPositions, leftPositions, rfl, arrivedFound, leftFound⟩ :=
    List.map_eq_append_iff.mp positions
  refine ⟨shown ++ arrivedPositions, leftPositions, ?_, ?_, ?_⟩
  · rwa [published_append, published_mirrored, List.append_nil, List.append_assoc]
  · have arrivedShown
        : arrivedPositions.map
            (fun i => (published target events)[i]?.map (·.mapFloats floats.reread))
          = (delivered.map (·.mapFloats floats.reread)).map
            (fun snapshot => some snapshot.dashboard) := by
      have found := congrArg (List.map (Option.map (·.mapFloats floats.reread))) arrivedFound
      simpa [Function.comp_def, NodeSnapshot.mapFloats] using found
    rw [published_append, published_mirrored, List.append_nil, mirrored_append, mirrored_mirrored,
      List.map_append, List.map_append, shows, arrivedShown]
  · rwa [published_append, published_mirrored, List.append_nil]

/-- Everything on its way was published, at its position. -/
theorem Ordered.mem_published (ordered : Ordered floats target events sent taken)
    {dash : Dashboard} (onItsWay : dash ∈ sent.map NodeSnapshot.dashboard ++ taken.toList)
    : dash ∈ published target events := by
  obtain ⟨shown, pending, _, _, positions⟩ := ordered
  have found : some dash ∈ (sent.map NodeSnapshot.dashboard ++ taken.toList).map some :=
    List.mem_map_of_mem onItsWay
  rw [← positions] at found
  obtain ⟨i, _, found⟩ := List.mem_map.mp found
  exact List.mem_of_getElem? found

end Transit

-----------------------------------------------------------------------------------------
-- Steps
-----------------------------------------------------------------------------------------

section Steps

variable {floats : FloatFormat} {version : Text} {configured : Option Text}
variable {s t : Mirroring} {before events : List MirrorEvent}

/-- A step publishes a dashboard of a host, or what the host shares stays or is lost, by cases on
the step.
-/
theorem Mirroring.Step.published_cases (step : Mirroring.Step floats version configured s events t)
    (host : Text)
    : (∃ dash, published host events = [dash] ∧ dash.InRange ∧ (t.node host).shared = some dash)
      ∨ published host events = []
        ∧ ((t.node host).shared = (s.node host).shared ∨ (t.node host).shared = none) := by
  cases step with
  | publish other dash inRange =>
      by_cases same : other = host
      · subst same
        exact .inl ⟨dash, by simp [published], inRange, by simp [Mirroring.withNode]⟩
      · refine .inr ⟨by simp [published, same], .inl ?_⟩
        simp [Mirroring.withNode, Function.update_of_ne (Ne.symm same)]
  | latch other =>
      refine .inr ⟨rfl, .inl ?_⟩
      by_cases same : other = host
      · subst same
        simp [Mirroring.withNode]
      · simp [Mirroring.withNode, Function.update_of_ne (Ne.symm same)]
  | restart => exact .inr ⟨rfl, .inr rfl⟩
  | deliver => exact .inr ⟨published_mirrored host _, .inl rfl⟩
  | receive => exact .inr ⟨rfl, .inl rfl⟩
  | _ => exact .inr ⟨rfl, .inl rfl⟩

/-- The hub's dashboard is the last one that it was shown, by cases on the step and by induction
on the snapshots that a chunk completes.
-/
theorem Mirroring.Step.live_eq (step : Mirroring.Step floats version configured s events t)
    : t.hub.live.shared
      = ((mirrored events).getLast?.map NodeSnapshot.dashboard).or s.hub.live.shared := by
  have shown (snapshots : List NodeSnapshot)
      : (snapshots.foldl LiveHost.mirror s.hub.live).shared
        = (snapshots.getLast?.map NodeSnapshot.dashboard).or s.hub.live.shared := by
    induction snapshots using List.reverseRecOn with
    | nil => rfl
    | append_singleton earlier last ih =>
        rw [List.foldl_append, List.getLast?_concat]
        rfl
  cases step with
  | deliver =>
      rw [mirrored_mirrored]
      exact shown _
  | receive => exact shown [_]
  | _ => rfl

/-- A session only takes what the node shares, and nothing with the timestamp of what it took
before.
-/
theorem DashboardStream.of_poll {stream next : DashboardStream} {shared : Option Dashboard}
    {dash : Dashboard} (yields : stream.poll shared = (next, some dash))
    : shared = some dash ∧ next.last = dash.generatedAtUnixMs
      ∧ stream.last ≠ dash.generatedAtUnixMs := by
  cases shared with
  | none => cases yields
  | some current =>
      rw [DashboardStream.poll] at yields
      split_ifs at yields with fresh
      · cases yields
        exact ⟨rfl, rfl, Ne.symm fresh⟩
      · cases yields

/-- What is in flight stays in flight when the node goes away, but what it has taken is lost, by
the cases of the activity.
-/
theorem Transit.abandoned {activity : Activity} {sent : List NodeSnapshot}
    {taken : Option Dashboard} (transit : Transit floats activity sent taken)
    : Transit floats activity.abandoned sent none := by
  cases transit with
  | ticker => exact .ticker
  | asked => exact .asked
  | taken dash => exact .asked
  | answered snapshot => exact .answered snapshot
  | @stream connection _ carries =>
      show Transit floats (.stream { connection with session := none }) sent none
      exact .stream carries

/-- What a step does to what is on its way: it loses the end of it, takes a dashboard, sends
the one that is taken, or delivers the oldest snapshots.
-/
inductive Moved (floats : FloatFormat) (version : Text) (node : LiveHost) (sent : List NodeSnapshot)
    (taken : Option Dashboard)
    : List MirrorEvent → List NodeSnapshot → Option Dashboard → Prop
  | lose {events : List MirrorEvent} {left : List NodeSnapshot} {kept : Option Dashboard}
      (quiet : mirrored events = []) (subset : left ⊆ sent)
      (isPrefix
        : left.map NodeSnapshot.dashboard ++ kept.toList
          <+: sent.map NodeSnapshot.dashboard ++ taken.toList)
    : Moved floats version node sent taken events left kept
  | take {dash : Dashboard} (free : taken = none) (current : node.shared = some dash)
    : Moved floats version node sent taken [] sent (some dash)
  | send {dash : Dashboard} (isTaken : taken = some dash)
    : Moved floats version node sent taken []
        (sent ++ [{ version, readOnly := node.readOnly, dashboard := dash }]) none
  | deliver {delivered left : List NodeSnapshot} (split : sent = delivered ++ left)
    : Moved floats version node sent taken
        ((delivered.map (·.mapFloats floats.reread)).map .mirrored) left taken

/-- Every step does one of these things, by cases on the step. -/
theorem Mirroring.Step.moved (step : Mirroring.Step floats version configured s events t)
    {target : Text} (resolved : s.hub.nodeHost = some target) {sent : List NodeSnapshot}
    {taken : Option Dashboard} (transit : Transit floats s.hub.activity sent taken)
    (inRange : ∀ snapshot ∈ sent, snapshot.dashboard.InRange)
    : ∃ sent' taken',
        Transit floats t.hub.activity sent' taken'
        ∧ Moved floats version (s.node target) sent taken events sent' taken' := by
  have same {other : Text} (own : s.hub.nodeHost = some other) : other = target :=
    Option.some.inj (own.symm.trans resolved)
  have stays {more : List MirrorEvent} (quiet : mirrored more = [])
      : Moved floats version (s.node target) sent taken more sent taken :=
    .lose quiet (List.Subset.refl sent) List.prefix_rfl
  have clears : Moved floats version (s.node target) sent taken [] [] none :=
    .lose rfl (List.nil_subset sent) List.nil_prefix
  cases step with
  | publish | latch | unsupported | denied => exact ⟨sent, taken, transit, stays rfl⟩
  | restart hosts =>
      refine ⟨sent, none, transit.abandoned, .lose rfl (List.Subset.refl sent) ?_⟩
      simp
  | resolve waits unresolved picked =>
      rw [unresolved] at resolved
      cases resolved
  | openStream => exact ⟨[], none, .stream carries_nil, clears⟩
  | @take own connection stream dash next resolvedOwn streams session yields =>
      obtain rfl := same resolvedOwn
      rw [streams] at transit
      cases transit with
      | stream carries =>
          rw [session]
          exact ⟨sent, some dash, .stream carries, .take rfl (DashboardStream.of_poll yields).1⟩
  | @send own connection stream dash resolvedOwn streams session =>
      obtain rfl := same resolvedOwn
      rw [streams] at transit
      cases transit with
      | stream carries =>
          rw [session]
          exact ⟨_, none, .stream (carries.send _), .send rfl⟩
  | @keepAlive connection session streams alive =>
      rw [streams] at transit
      cases transit with
      | stream carries => exact ⟨sent, _, .stream carries.keepAlive, stays rfl⟩
  | @deliver connection piece rest buf snapshots streams cut consumed =>
      rw [streams] at transit
      cases transit with
      | stream carries =>
          rw [cut] at carries
          obtain ⟨delivered, left, split, arrived, remains⟩ := carries.deliver inRange
          rw [consumed] at arrived remains
          obtain rfl := arrived
          exact ⟨left, _, .stream remains, .deliver split⟩
  | disconnect | pollFails => exact ⟨[], none, .ticker, clears⟩
  | ask => exact ⟨[], none, .asked, clears⟩
  | @takeForPoll own dash resolvedOwn polls current =>
      obtain rfl := same resolvedOwn
      rw [polls] at transit
      cases transit with
      | asked => exact ⟨[], some dash, .taken dash, .take rfl current⟩
  | @answer own dash resolvedOwn polls =>
      obtain rfl := same resolvedOwn
      rw [polls] at transit
      cases transit with
      | taken => exact ⟨_, none, .answered _, .send rfl⟩
  | @receive body snapshot polls decoded =>
      rw [polls] at transit
      cases transit with
      | answered original =>
          have read := NodeSnapshot.fromJson_toJson floats (inRange original List.mem_cons_self)
          rw [read] at decoded
          obtain rfl := Option.some.inj decoded
          exact ⟨[], none, .ticker, .deliver (List.append_nil [original]).symm⟩

/-- What is on its way stays in order, by the ways in which a step can move it. -/
theorem Ordered.moved {target : Text} {sent left : List NodeSnapshot}
    {taken kept : Option Dashboard} (ordered : Ordered floats target before sent taken)
    {node : LiveHost}
    (current : ∀ dash ∈ node.shared, (published target before).getLast? = some dash)
    (moved : Moved floats version node sent taken events left kept)
    : Ordered floats target (before ++ events) left kept := by
  cases moved with
  | lose quiet subset isPrefix => exact (ordered.lose isPrefix).publish quiet
  | take free shared =>
      subst free
      rw [List.append_nil]
      exact ordered.take (current _ shared)
  | send isTaken =>
      subst isTaken
      rw [List.append_nil]
      exact ordered.send
  | deliver split =>
      subst split
      exact ordered.deliver

/-- What the node shares for its hosts is what it published last, and the hub's dashboard is
the last one that it mirrored; before the node's host is resolved there is none.
-/
structure MirrorInvariant (floats : FloatFormat) (events : List MirrorEvent) (s : Mirroring)
    : Prop where
  current
    : ∀ host, ∀ dash ∈ (s.node host).shared, (published host events).getLast? = some dash
  inRange : ∀ host, ∀ dash ∈ published host events, dash.InRange
  live : s.hub.live.shared = (mirrored events).getLast?.map NodeSnapshot.dashboard
  unresolved : s.hub.nodeHost = none → s.hub.activity = .ticker ∧ mirrored events = []
  inOrder
    : ∀ target ∈ s.hub.nodeHost,
      ∃ sent taken,
        Transit floats s.hub.activity sent taken ∧ Ordered floats target events sent taken

theorem mirrorInvariant_started (hosts : List HostEntry)
    : MirrorInvariant floats [] (.started hosts) where
  current _ _ shared := by cases shared
  inRange _ _ member := by cases member
  live := rfl
  unresolved _ := ⟨rfl, rfl⟩
  inOrder _ resolved := by cases resolved

/-- While the host is not resolved, the hub waits and mirrors nothing, since all other activities
need the resolved host.
-/
theorem Mirroring.Step.unresolved (step : Mirroring.Step floats version configured s events t)
    (waiting : s.hub.nodeHost = none → s.hub.activity = .ticker)
    (unresolved : t.hub.nodeHost = none)
    : s.hub.nodeHost = none ∧ t.hub.activity = .ticker ∧ mirrored events = [] := by
  have elsewhere {activity : Activity} (own : s.hub.nodeHost = none)
      (busy : s.hub.activity = activity) : activity = .ticker :=
    busy.symm.trans (waiting own)
  cases step with
  | publish | latch | unsupported => exact ⟨unresolved, waiting unresolved, rfl⟩
  | restart hosts =>
      refine ⟨unresolved, ?_, rfl⟩
      show s.hub.activity.abandoned = .ticker
      rw [waiting unresolved]
      rfl
  | resolve => cases unresolved
  | openStream waits resolved | take resolved | send resolved | ask waits resolved
  | takeForPoll resolved | answer resolved | denied resolved =>
      cases unresolved.symm.trans resolved
  | keepAlive busy | deliver busy | disconnect busy | receive busy =>
      cases elsewhere unresolved busy
  | pollFails busy => cases elsewhere unresolved busy

/-- A host that was resolved stays. -/
theorem Mirroring.Step.nodeHost_eq (step : Mirroring.Step floats version configured s events t)
    : t.hub.nodeHost = s.hub.nodeHost
      ∨ s.hub.nodeHost = none ∧ s.hub.activity = .ticker ∧ t.hub.activity = .ticker
        ∧ events = [] := by
  cases step with
  | resolve waits unresolved => exact .inr ⟨unresolved, waits, waits, rfl⟩
  | _ => exact .inl rfl

/-- What is mirrored is of a host that was resolved, for until then nothing is mirrored. -/
theorem Mirroring.Step.resolved_of_mirrored
    (step : Mirroring.Step floats version configured s events t)
    (waiting : s.hub.nodeHost = none → s.hub.activity = .ticker) {snapshot : NodeSnapshot}
    (shown : snapshot ∈ mirrored events)
    : ∃ target, s.hub.nodeHost = some target := by
  cases own : s.hub.nodeHost with
  | some target => exact ⟨target, rfl⟩
  | none =>
      rcases step.nodeHost_eq with same | ⟨_, _, _, quiet⟩
      · rw [(step.unresolved waiting (same.trans own)).2.2] at shown
        cases shown
      · rw [quiet] at shown
        cases shown

/-- Every step keeps the invariant: what the node shares is its latest publication, and what is
on its way or shown keeps its order.
-/
theorem MirrorInvariant.step (invariant : MirrorInvariant floats before s)
    (step : Mirroring.Step floats version configured s events t)
    : MirrorInvariant floats (before ++ events) t where
  current host dash shared := by
    rw [published_append]
    rcases step.published_cases host with ⟨fresh, only, _, now⟩ | ⟨quiet, stays | lost⟩
    · rw [now] at shared
      cases shared
      rw [only, List.getLast?_concat]
    · rw [quiet, List.append_nil]
      exact invariant.current host dash (stays ▸ shared)
    · rw [lost] at shared
      cases shared
  inRange host dash member := by
    rw [published_append] at member
    rcases List.mem_append.mp member with earlier | now
    · exact invariant.inRange host dash earlier
    · rcases step.published_cases host with ⟨fresh, only, inRange, _⟩ | ⟨quiet, _⟩
      · rw [only] at now
        rwa [List.mem_singleton.mp now]
      · rw [quiet] at now
        cases now
  live := by
    rw [step.live_eq, invariant.live, mirrored_append, List.getLast?_append]
    cases (mirrored events).getLast? <;> rfl
  unresolved none := by
    obtain ⟨earlier, waits, quiet⟩ := step.unresolved (fun h => (invariant.unresolved h).1) none
    rw [mirrored_append, (invariant.unresolved earlier).2, quiet]
    exact ⟨waits, rfl⟩
  inOrder target resolved := by
    rcases step.nodeHost_eq with same | ⟨unresolved, _, waits, quiet⟩
    · have earlier := same.symm.trans resolved
      obtain ⟨sent, taken, transit, ordered⟩ := invariant.inOrder target earlier
      have inRange : ∀ snapshot ∈ sent, snapshot.dashboard.InRange := by
        intro snapshot member
        have published :=
          ordered.mem_published (List.mem_append_left _ (List.mem_map_of_mem member))
        exact invariant.inRange target _ published
      obtain ⟨sent', taken', transit', moved⟩ := step.moved earlier transit inRange
      exact ⟨sent', taken', transit', ordered.moved (invariant.current target) moved⟩
    · -- Nothing has been mirrored before the host is resolved.
      have nothing := (invariant.unresolved unresolved).2
      rw [quiet, List.append_nil, waits]
      refine ⟨[], none, .ticker, [], [], inOrder_nil _, ?_, rfl⟩
      rw [nothing]
      rfl

theorem mirrorInvariant_run {hosts : List HostEntry}
    (run : Mirroring.Run floats version configured (.started hosts) events s)
    : MirrorInvariant floats events s := by
  induction run with
  | refl => exact mirrorInvariant_started hosts
  | tail run step ih => exact ih.step step

/-- A hub mirrors one host of the node. Whatever the node, the hub and the network do in which
order, what the hub has shown are dashboards that the node published for that host, in the order
of their publication, though some may be missing and others repeated; it shows the last of them.
Witness: what is on its way stays in order, by induction over the run.
-/
theorem Mirroring.mirrored_in_order {hosts : List HostEntry}
    (run : Mirroring.Run floats version configured (.started hosts) events s) {target : Text}
    (resolved : s.hub.nodeHost = some target)
    : (∃ positions : List ℕ,
        positions.Pairwise (· ≤ ·)
        ∧ (mirrored events).map (fun snapshot => some snapshot.dashboard)
          = positions.map (fun i =>
              (published target events)[i]?.map (·.mapFloats floats.reread)))
      ∧ s.hub.live.shared = (mirrored events).getLast?.map NodeSnapshot.dashboard := by
  have invariant := mirrorInvariant_run run
  obtain ⟨_, _, _, shown, pending, inOrder, shows, _⟩ := invariant.inOrder target resolved
  refine ⟨⟨shown, ?_, shows.symm⟩, invariant.live⟩
  exact inOrder.sorted.sublist (List.sublist_append_left shown pending)

/-- A node that is polled for its only host, after it published the sample, step by step. -/
theorem Mirroring.mirrored_in_order_polled
    : ∃ s,
        Mirroring.Run sampleFloats sampleSnapshot.version none
          (.started [{ name := ['n', 'a', 's'], version := sampleSnapshot.version }])
          [.published ['n', 'a', 's'] sampleSnapshot.dashboard,
            .mirrored (sampleSnapshot.mapFloats sampleFloats.reread)] s
        ∧ s.hub.live.shared = some (sampleSnapshot.dashboard.mapFloats sampleFloats.reread)
        ∧ ∃ positions : List ℕ,
          positions.Pairwise (· ≤ ·)
          ∧ [some (sampleSnapshot.dashboard.mapFloats sampleFloats.reread)]
            = positions.map (fun i =>
                [sampleSnapshot.dashboard][i]?.map (·.mapFloats sampleFloats.reread)) := by
  let hosts : List HostEntry := [{ name := ['n', 'a', 's'], version := sampleSnapshot.version }]
  have starts
      : Mirroring.Run sampleFloats sampleSnapshot.version none (.started hosts) []
          (.started hosts) :=
    .refl
  have publishes :=
    starts.tail (.publish ['n', 'a', 's'] sampleSnapshot.dashboard sampleSnapshot_inRange)
  have resolves := publishes.tail (.resolve rfl rfl rfl)
  have falls := resolves.tail (.unsupported rfl)
  have asks := falls.tail (.ask rfl rfl rfl)
  have takes := asks.tail (.takeForPoll rfl rfl rfl)
  have answers := takes.tail (.answer rfl rfl)
  have read := NodeSnapshot.fromJson_toJson sampleFloats sampleSnapshot_inRange
  have receives := answers.tail (.receive rfl read)
  obtain ⟨⟨positions, sorted, shown⟩, live⟩ := Mirroring.mirrored_in_order receives rfl
  refine ⟨_, receives, live, positions, sorted, ?_⟩
  exact shown

end Steps

end DockDoe
