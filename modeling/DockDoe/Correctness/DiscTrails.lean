import DockDoe.Model.OverviewDiscs

/-! The discs of a dashboard over the whole life of a page: a trail is the end of its container's
latest stretch of payloads, and a click opens what the readout names, the container at the index
that the pointer's last move found. Every sector can be pointed at as long as the sectors have a
width.
-/

namespace DockDoe

-----------------------------------------------------------------------------------------
-- Trails
-----------------------------------------------------------------------------------------

/-- The payloads that are applied: not the one before again. -/
def takenFrom : ℕ → List DiscEvent → List OverviewPayload
  | lastTs, .overview (some payload) :: rest =>
      if payload.tsMs = lastTs then takenFrom lastTs rest
      else payload :: takenFrom payload.tsMs rest
  | lastTs, _ :: rest => takenFrom lastTs rest
  | _, [] => []

/-- A container's samples in a payload. -/
def OverviewPayload.samplesOf (id : String) (payload : OverviewPayload) : List TrailSample :=
  (payload.containers.filter (fun c => c.id = id)).map OverviewEntry.sample

namespace Discs

variable (discs : Discs)

/-- The rounds of the loop feed a container's buffer, by induction on the containers. -/
theorem foldl_record (list : List OverviewEntry) (hist : String → List TrailSample) (id : String)
    : list.foldl record hist id
      = ((list.filter (fun c => c.id = id)).map OverviewEntry.sample).foldl
          (RingBuffers.push trailLength) (hist id) := by
  induction list generalizing hist with
  | nil => rfl
  | cons c rest ih =>
      rw [List.foldl_cons, ih]
      by_cases own : c.id = id
      · subst own
        simp [record]
      · simp [record, own, Function.update_of_ne (Ne.symm own)]

@[simp]
theorem hist_updateReadout (metric : DiscMetric)
    : (discs.updateReadout metric).hist = discs.hist :=
  rfl

@[simp]
theorem lastTs_updateReadout (metric : DiscMetric)
    : (discs.updateReadout metric).lastTs = discs.lastTs :=
  rfl

/-- A payload feeds the buffers with its samples, and forgets those of containers that it does
not list.
-/
theorem hist_apply (payload : OverviewPayload) (fresh : payload.tsMs ≠ discs.lastTs) (id : String)
    : (discs.apply (some payload)).hist id
      = RingBuffers.feed trailLength (discs.hist id) (payload.samplesOf id) := by
  have seen
      : (payload.containers.any (fun c => c.id = id)) = !(payload.samplesOf id).isEmpty := by
    rw [OverviewPayload.samplesOf, List.isEmpty_map, Bool.eq_iff_iff]
    simp
  simp only [apply, fresh, if_false, hist_updateReadout, foldl_record, RingBuffers.feed, seen]
  cases (payload.samplesOf id).isEmpty <;> rfl

theorem lastTs_apply (payload : OverviewPayload) (fresh : payload.tsMs ≠ discs.lastTs)
    : (discs.apply (some payload)).lastTs = payload.tsMs := by
  simp only [apply, fresh, if_false, lastTs_updateReadout]

/-- The pointer changes no payload data. -/
theorem hover_kept (metric : DiscMetric) (idx : Option ℕ)
    : (discs.hover metric idx).hist = discs.hist
      ∧ (discs.hover metric idx).lastTs = discs.lastTs
      ∧ (discs.hover metric idx).list = discs.list := by
  unfold hover
  split <;> exact ⟨rfl, rfl, rfl⟩

/-- A buffer is fed by the payloads that are applied, by induction on the events. -/
theorem hist_foldl (events : List DiscEvent) (id : String)
    : (events.foldl handle discs).hist id
      = ((takenFrom discs.lastTs events).map (OverviewPayload.samplesOf id)).foldl
          (RingBuffers.feed trailLength) (discs.hist id) := by
  induction events generalizing discs with
  | nil => rfl
  | cons event rest ih =>
      rw [List.foldl_cons, ih]
      cases event with
      | overview payload =>
          cases payload with
          | none => rfl
          | some payload =>
              by_cases again : payload.tsMs = discs.lastTs
              · simp only [handle, apply, again, if_true, takenFrom]
              · simp only [handle, takenFrom, again, if_false, List.map_cons, List.foldl_cons,
                  discs.hist_apply payload again, discs.lastTs_apply payload again]
      | mousemove metric inside angle =>
          obtain ⟨hist, lastTs, -⟩ :=
            discs.hover_kept metric (if inside then hitSector discs.layout angle else none)
          simp only [handle, mousemove, takenFrom, hist, lastTs]
      | mouseleave metric =>
          obtain ⟨hist, lastTs, -⟩ := discs.hover_kept metric none
          simp only [handle, mouseleave, takenFrom, hist, lastTs]

-----------------------------------------------------------------------------------------
-- Readouts
-----------------------------------------------------------------------------------------

/-- What a page shows is up to date with what it knows. -/
structure Current : Prop where
  layout : discs.layout = computeLayout discs.list
  readout : ∀ metric, (discs.disc metric).readout = discs.readout metric

variable {discs}

/-- Updating a readout leaves the hovered sectors alone. -/
theorem hover_updateReadout (metric other : DiscMetric)
    : ((discs.updateReadout metric).disc other).hover = (discs.disc other).hover := by
  simp only [updateReadout]
  by_cases same : other = metric
  · subst same
    rw [Function.update_self]
  · rw [Function.update_of_ne same]

/-- A readout depends on the hovered sector, not on the readouts. -/
theorem readout_updateReadout (metric other : DiscMetric)
    : (discs.updateReadout metric).readout other = discs.readout other := by
  simp only [readout, hovered, hover_updateReadout]
  rfl

/-- Updating a readout leaves the other one alone. -/
theorem disc_updateReadout (metric other : DiscMetric)
    : ((discs.updateReadout metric).disc other).readout
      = if other = metric then discs.readout metric else (discs.disc other).readout := by
  simp only [updateReadout]
  by_cases same : other = metric
  · subst same
    rw [Function.update_self, if_pos rfl]
  · rw [Function.update_of_ne same, if_neg same]

/-- A payload leaves layout and readouts current: the sectors are laid out anew and both readouts
updated, unless it is the last one again.
-/
theorem Current.apply (current : discs.Current) (payload : Option OverviewPayload)
    : (discs.apply payload).Current := by
  cases payload with
  | none => exact current
  | some payload =>
      by_cases again : payload.tsMs = discs.lastTs
      · rw [Discs.apply, if_pos again]
        exact current
      · rw [Discs.apply, if_neg again]
        refine ⟨rfl, fun metric => ?_⟩
        rw [disc_updateReadout, disc_updateReadout, readout_updateReadout, readout_updateReadout,
          readout_updateReadout]
        cases metric <;> rfl

/-- A move of the pointer leaves layout and readouts current: the other disc's readout does not
depend on it.
-/
theorem Current.hover (current : discs.Current) (metric : DiscMetric) (idx : Option ℕ)
    : (discs.hover metric idx).Current := by
  unfold Discs.hover
  split
  · exact current
  · refine ⟨current.layout, fun other => ?_⟩
    rw [disc_updateReadout, readout_updateReadout]
    by_cases same : other = metric
    · rw [if_pos same, same]
    · have kept := current.readout other
      simpa [same, Discs.readout, Discs.hovered, Discs.latest, Function.update_of_ne same]
        using kept

/-- Every event leaves layout and readouts current, by induction on the events. -/
theorem Current.foldl (current : discs.Current) (events : List DiscEvent)
    : (events.foldl handle discs).Current := by
  induction events generalizing discs with
  | nil => exact current
  | cons event rest ih =>
      cases event with
      | overview payload => exact ih (current.apply payload)
      | mousemove metric inside angle => exact ih (current.hover metric _)
      | mouseleave metric => exact ih (current.hover metric none)

/-- The list is that of the payload that was applied last, by induction on the events. -/
theorem list_foldl (discs : Discs) (events : List DiscEvent)
    : (events.foldl handle discs).list
      = ((takenFrom discs.lastTs events).getLast?.map OverviewPayload.containers).getD
          discs.list := by
  induction events generalizing discs with
  | nil => rfl
  | cons event rest ih =>
      rw [List.foldl_cons, ih]
      cases event with
      | overview payload =>
          cases payload with
          | none => rfl
          | some payload =>
              by_cases again : payload.tsMs = discs.lastTs
              · simp only [handle, apply, again, if_true, takenFrom]
              · have list : (discs.apply (some payload)).list = payload.containers := by
                  rw [apply, if_neg again]
                  rfl
                simp only [handle, takenFrom, again, if_false, List.getLast?_cons,
                  discs.lastTs_apply payload again, list]
                cases (takenFrom payload.tsMs rest).getLast? <;> rfl
      | mousemove metric inside angle =>
          obtain ⟨-, lastTs, list⟩ :=
            discs.hover_kept metric (if inside then hitSector discs.layout angle else none)
          simp only [handle, mousemove, takenFrom, lastTs, list]
      | mouseleave metric =>
          obtain ⟨-, lastTs, list⟩ := discs.hover_kept metric none
          simp only [handle, mouseleave, takenFrom, lastTs, list]

end Discs

-----------------------------------------------------------------------------------------
-- What is shown
-----------------------------------------------------------------------------------------

/-- What a readout says of a container: its name and the value that it has now. -/
def OverviewEntry.shown (c : OverviewEntry) (metric : DiscMetric) : String × ReadoutText :=
  (c.fullName, readoutText c.down (c.sample.value metric))

/-- Where an event puts the pointer on a disc: at an angle inside the rim, or outside of it. -/
def DiscEvent.points (metric : DiscMetric) : DiscEvent → Option (Option ℚ)
  | .overview _ => none
  | .mousemove other inside angle =>
      if other = metric then some (if inside then some angle else none) else none
  | .mouseleave other => if other = metric then some none else none

/-- A container that a payload lists once has its sample there, and no other one is filtered out
with it.
-/
theorem OverviewPayload.samplesOf_of_mem {payload : OverviewPayload} {c : OverviewEntry}
    (distinct : (payload.containers.map OverviewEntry.id).Nodup) (member : c ∈ payload.containers)
    : payload.samplesOf c.id = [c.sample] := by
  have once : payload.containers.filter (fun other => other.id = c.id) = [c] := by
    have nodup := distinct.of_map.filter (fun other : OverviewEntry => decide (other.id = c.id))
    have all : ∀ other ∈ payload.containers.filter (fun other => other.id = c.id), other = c := by
      intro other isOther
      obtain ⟨inPayload, same⟩ := List.mem_filter.mp isOther
      exact List.inj_on_of_nodup_map distinct inPayload member (of_decide_eq_true same)
    have own : c ∈ payload.containers.filter (fun other => other.id = c.id) :=
      List.mem_filter.mpr ⟨member, decide_eq_true rfl⟩
    have present := List.length_pos_of_mem own
    have copies := List.eq_replicate_of_mem all
    rw [copies, List.nodup_replicate] at nodup
    rw [copies, Nat.le_antisymm nodup present, List.replicate_one]
  rw [samplesOf, once]
  rfl

namespace Discs

/-- Every buffer is the end of its container's latest stretch, by feeding the payloads to an
empty one.
-/
theorem hist_after (events : List DiscEvent) (id : String)
    : (after events).hist id
      = RingBuffers.trail trailLength
          ((takenFrom 0 events).map (OverviewPayload.samplesOf id)) :=
  (hist_foldl initial events id).trans (RingBuffers.foldl_feed trailLength _)

theorem current_after (events : List DiscEvent) : (after events).Current :=
  Current.foldl ⟨rfl, fun _ => rfl⟩ events

/-- The containers that a page lists: those of the payload that was applied last. -/
def listed (events : List DiscEvent) : List OverviewEntry :=
  ((takenFrom 0 events).getLast?.map OverviewPayload.containers).getD []

theorem list_after (events : List DiscEvent) : (after events).list = listed events :=
  list_foldl initial events

/-- What a click on a disc does and what its readout says, for a list and a hovered sector. -/
def told (metric : DiscMetric) (list : List OverviewEntry)
    : Option ℕ → ClickOutcome × Option (String × ReadoutText)
  | none => (.ignored, none)
  | some i => (list[i]?).elim (.fails, none) (fun c => (.opens c.id, some (c.shown metric)))

/-- The latest value of a listed container is that of the payload that was applied last: its
trail ends with this payload's only sample of it.
-/
theorem latest_after {events : List DiscEvent} {c : OverviewEntry}
    (distinct
      : ∀ payload ∈ takenFrom 0 events, (payload.containers.map OverviewEntry.id).Nodup)
    (member : c ∈ listed events) (metric : DiscMetric)
    : (after events).latest c.id metric = c.sample.value metric := by
  unfold listed at member
  cases last : (takenFrom 0 events).getLast? with
  | none =>
      rw [last] at member
      cases member
  | some payload =>
      rw [last] at member
      obtain ⟨before, split⟩ : ∃ before, takenFrom 0 events = before ++ [payload] :=
        List.getLast?_eq_some_iff.mp last
      have alone :=
        OverviewPayload.samplesOf_of_mem (distinct payload (List.mem_of_getLast? last)) member
      rw [latest, hist_after, split, List.map_append, List.map_singleton, alone,
        RingBuffers.getLast?_trail (by decide) _ (List.cons_ne_nil _ _)]
      rfl

/-- Readout and click speak of the container that the current list has at the hovered index,
with its present value. Witness: the readout is current, and so is the trail that it reads.
-/
theorem told_after {events : List DiscEvent}
    (distinct
      : ∀ payload ∈ takenFrom 0 events, (payload.containers.map OverviewEntry.id).Nodup)
    (metric : DiscMetric)
    : ((after events).click metric, ((after events).disc metric).readout)
      = told metric (listed events) ((after events).disc metric).hover := by
  rw [(current_after events).readout metric, click, readout, hovered, list_after]
  cases ((after events).disc metric).hover with
  | none => rfl
  | some i =>
      cases isContainer : (listed events)[i]? with
      | none => simp [told, isContainer]
      | some c =>
          have latest := latest_after distinct (List.mem_of_getElem? isContainer) metric
          simp [told, isContainer, latest, OverviewEntry.shown]

-----------------------------------------------------------------------------------------
-- The pointer
-----------------------------------------------------------------------------------------

/-- The pointer's last event on a disc, what came before it, and where it put the pointer. -/
def PointedLast (metric : DiscMetric) (events before : List DiscEvent) (place : Option ℚ)
    : Prop :=
  ∃ event later,
    events = before ++ event :: later
    ∧ event.points metric = some place
    ∧ ∀ other ∈ later, other.points metric = none

/-- A payload leaves the hovered sectors alone, by the cases of an applied and a repeated one. -/
theorem hover_apply (discs : Discs) (payload : Option OverviewPayload) (metric : DiscMetric)
    : ((discs.apply payload).disc metric).hover = (discs.disc metric).hover := by
  cases payload with
  | none => rfl
  | some payload =>
      by_cases again : payload.tsMs = discs.lastTs
      · rw [apply, if_pos again]
      · rw [apply, if_neg again]
        simp only [hover_updateReadout]

/-- The pointer sets the hovered sector of its own disc, and of no other, whether it has moved or
not.
-/
theorem hover_hover (discs : Discs) (metric other : DiscMetric) (idx : Option ℕ)
    : ((discs.hover other idx).disc metric).hover
      = if other = metric then idx else (discs.disc metric).hover := by
  unfold hover
  by_cases same : other = metric
  · subst same
    split
    · rename_i unmoved
      rw [if_pos rfl, unmoved]
    · simp only [hover_updateReadout, Function.update_self, if_true]
  · rw [if_neg same]
    split
    · rfl
    · simp only [hover_updateReadout, Function.update_of_ne (Ne.symm same)]

/-- An event that moves the pointer on a disc looks its place up in the present layout, and any
other one leaves the hovered sector alone, by the cases of the event.
-/
theorem hover_handle (discs : Discs) (event : DiscEvent) (metric : DiscMetric)
    : ((discs.handle event).disc metric).hover
      = ((event.points metric).map (fun place => place.bind (hitSector discs.layout))).getD
          (discs.disc metric).hover := by
  cases event with
  | overview payload => exact discs.hover_apply payload metric
  | mousemove other inside angle =>
      rw [handle, mousemove, hover_hover, DiscEvent.points]
      cases inside <;> split <;> rfl
  | mouseleave other =>
      rw [handle, mouseleave, hover_hover, DiscEvent.points]
      split <;> rfl

/-- While the pointer rests the hovered sector stays, by induction on the events. -/
theorem hover_foldl (discs : Discs) (metric : DiscMetric) {events : List DiscEvent}
    (rests : ∀ event ∈ events, event.points metric = none)
    : ((events.foldl handle discs).disc metric).hover = (discs.disc metric).hover := by
  induction events generalizing discs with
  | nil => rfl
  | cons event rest ih =>
      obtain ⟨rested, rests⟩ := List.forall_mem_cons.mp rests
      rw [List.foldl_cons, ih _ rests, hover_handle, rested]
      rfl

/-- The hovered sector is the one that the pointer's last event found among the sectors of its
time. Witness: from that event on the pointer rests.
-/
theorem PointedLast.hover {metric : DiscMetric} {events before : List DiscEvent}
    {place : Option ℚ} (pointed : PointedLast metric events before place)
    : ((after events).disc metric).hover
      = place.bind (hitSector (computeLayout (listed before))) := by
  obtain ⟨event, later, rfl, points, rests⟩ := pointed
  rw [after, List.foldl_append, List.foldl_cons, hover_foldl _ _ rests, hover_handle, points]
  change place.bind (hitSector (after before).layout) = _
  rw [(current_after before).layout, list_after]

end Discs

/-- The sectors from an angle on depend on the containers' stacks alone, by induction on the
containers.
-/
theorem sectorsFrom_congr (width a : ℚ) {c d : OverviewEntry} {rest others : List OverviewEntry}
    (same : c.stack = d.stack)
    (sames : rest.map OverviewEntry.stack = others.map OverviewEntry.stack)
    : sectorsFrom width a c rest = sectorsFrom width a d others := by
  induction rest generalizing a c d others with
  | nil =>
      obtain rfl := List.map_eq_nil_iff.mp sames.symm
      rfl
  | cons next rest ih =>
      obtain ⟨other, others, rfl, nextSame, restSames⟩ := List.map_eq_cons_iff.mp sames.symm
      rw [sectorsFrom, sectorsFrom, ih _ nextSame.symm restSames.symm, gapBetween, gapBetween,
        same, nextSame]

/-- So do the stacks' borders, by the same induction. -/
theorem boundaries_congr {c d : OverviewEntry} {rest others : List OverviewEntry}
    (same : c.stack = d.stack)
    (sames : rest.map OverviewEntry.stack = others.map OverviewEntry.stack)
    : boundaries c rest = boundaries d others := by
  induction rest generalizing c d others with
  | nil =>
      obtain rfl := List.map_eq_nil_iff.mp sames.symm
      rfl
  | cons next rest ih =>
      obtain ⟨other, others, rfl, nextSame, restSames⟩ := List.map_eq_cons_iff.mp sames.symm
      rw [boundaries, boundaries, ih nextSame.symm restSames.symm, same, nextSame]

/-- Two lists of the same stacks have the same sectors: as many containers, with as many borders,
at the same places.
-/
theorem computeLayout_congr {list other : List OverviewEntry}
    (sames : list.map OverviewEntry.stack = other.map OverviewEntry.stack)
    : computeLayout list = computeLayout other := by
  cases list with
  | nil =>
      obtain rfl := List.map_eq_nil_iff.mp sames.symm
      rfl
  | cons c rest =>
      obtain ⟨d, others, rfl, same, restSames⟩ := List.map_eq_cons_iff.mp sames.symm
      have length : others.length = rest.length := by
        simpa using congrArg List.length restSames
      rw [computeLayout, computeLayout, sectorWidth, sectorWidth,
        boundaries_congr same.symm restSames.symm, length]
      exact sectorsFrom_congr _ _ same.symm restSames.symm

namespace Discs

/-- Whatever a page is told and wherever the pointer goes: every trail is the end of its
container's latest stretch of payloads. The hovered sector is the one that the pointer's last
move found at its time, and still the one under the pointer as long as the list has the same
stacks; readout and click speak of the container that the last payload has at its index. Witness:
layout and readouts are current after every event, and while the pointer rests nothing moves the
index.
-/
theorem after_shows (events : List DiscEvent)
    (distinct
      : ∀ payload ∈ takenFrom 0 events, (payload.containers.map OverviewEntry.id).Nodup)
    : (∀ id,
          (after events).hist id
            = RingBuffers.trail trailLength
                ((takenFrom 0 events).map (OverviewPayload.samplesOf id)))
      ∧ (after events).list = listed events
      ∧ (after events).layout = computeLayout (listed events)
      ∧ ∀ metric,
          ((after events).click metric, ((after events).disc metric).readout)
              = told metric (listed events) ((after events).disc metric).hover
          ∧ ((∀ event ∈ events, event.points metric = none)
              → ((after events).disc metric).hover = none)
          ∧ ∀ before place,
              PointedLast metric events before place
              → ((after events).disc metric).hover
                  = place.bind (hitSector (computeLayout (listed before)))
                ∧ ((listed before).map OverviewEntry.stack
                      = (listed events).map OverviewEntry.stack
                    → ((after events).disc metric).hover
                        = place.bind (hitSector (after events).layout)) := by
  have layout : (after events).layout = computeLayout (listed events) := by
    rw [(current_after events).layout, list_after]
  refine ⟨hist_after events, list_after events, layout, fun metric =>
    ⟨told_after distinct metric, fun rests => hover_foldl initial metric rests,
      fun before place pointed => ⟨pointed.hover, fun sames => ?_⟩⟩⟩
  rw [pointed.hover, layout, computeLayout_congr sames]

/-- A page that is told of a container twice, once more of the same, and last of another one
before it, while the pointer rests in what is now the second sector.
-/
def toldTwice : List DiscEvent :=
  let entry (id name : String) (cpu : ℚ) : OverviewEntry :=
    { id, name, stack := none, cpu := some cpu, mem := none, down := false }
  [
    .overview (some { tsMs := 1000, containers := [entry "a" "web" 5] }),
    .overview (some { tsMs := 1000, containers := [entry "a" "web" 5] }),
    .overview (some { tsMs := 2000, containers := [entry "a" "web" 7] }),
    .mousemove .cpu true 2,
    .overview (some { tsMs := 3000, containers := [entry "b" "db" 1, entry "a" "web" 9] })
  ]

/-- The readout names the container that took the first place, and a click opens its page,
though the pointer is in the other one's sector.
-/
theorem after_shows_toldTwice
    : (after toldTwice).hist "a"
          = [
              { cpu := some 5, mem := none },
              { cpu := some 7, mem := none },
              { cpu := some 9, mem := none }
            ]
      ∧ ((after toldTwice).disc .cpu).hover = some 0
      ∧ hitSector (after toldTwice).layout 2 = some 1
      ∧ (after toldTwice).click .cpu = .opens "b"
      ∧ ((after toldTwice).disc .cpu).readout = some ("db", .value 1) := by
  have distinct : ∀ payload ∈ takenFrom 0 toldTwice,
      (payload.containers.map OverviewEntry.id).Nodup := by
    simp [toldTwice, takenFrom]
  obtain ⟨hist, -, layout, shows⟩ := after_shows toldTwice distinct
  obtain ⟨told, -, pointed⟩ := shows .cpu
  have found : ((after toldTwice).disc .cpu).hover = some 0 := by
    refine (pointed (toldTwice.take 3) (some 2) ⟨.mousemove .cpu true 2, _, rfl, rfl, ?_⟩).1.trans
      (by decide +kernel)
    simp [DiscEvent.points]
  rw [found] at told
  obtain ⟨opens, names⟩ := Prod.mk.inj told
  exact ⟨(hist "a").trans (by decide +kernel), found, by rw [layout]; decide +kernel, opens, names⟩

end Discs

-----------------------------------------------------------------------------------------
-- Sectors
-----------------------------------------------------------------------------------------

section Sectors

variable {width a : ℚ} {c : OverviewEntry} {rest : List OverviewEntry}

theorem gap_le_gapBetween (c next : OverviewEntry) : gap ≤ gapBetween c next := by
  unfold gapBetween
  split <;> norm_num [gap, groupGap]

theorem length_sectorsFrom (width a : ℚ) (c : OverviewEntry) (rest : List OverviewEntry)
    : (sectorsFrom width a c rest).length = rest.length + 1 := by
  induction rest generalizing a c with
  | nil => rfl
  | cons next rest ih => rw [sectorsFrom, List.length_cons, ih, List.length_cons]

/-- A stack changes at most after each container, by induction on them. -/
theorem boundaries_le (c : OverviewEntry) (rest : List OverviewEntry)
    : boundaries c rest ≤ rest.length := by
  induction rest generalizing c with
  | nil => exact le_rfl
  | cons next rest ih =>
      have := ih next
      rw [boundaries, List.length_cons]
      split <;> omega

/-- Every sector has the width that is laid out, by induction on the containers. -/
theorem width_sectorsFrom : ∀ s ∈ sectorsFrom width a c rest, s.a1 = s.a0 + width := by
  induction rest generalizing a c with
  | nil =>
      intro s member
      obtain rfl := List.mem_singleton.mp member
      rfl
  | cons next rest ih => exact List.forall_mem_cons.mpr ⟨rfl, ih⟩

/-- What sectors and the gaps between them take up. -/
def spanOf (width : ℚ) (c : OverviewEntry) (rest : List OverviewEntry) : ℚ :=
  (rest.length + 1) * width + boundaries c rest * groupGap
    + (rest.length - boundaries c rest) * gap

theorem spanOf_cons (width : ℚ) (c next : OverviewEntry) (rest : List OverviewEntry)
    : spanOf width c (next :: rest) = width + gapBetween c next + spanOf width next rest := by
  simp only [spanOf, gapBetween, boundaries, List.length_cons]
  split <;> push_cast <;> ring

/-- The first sector is part of what is taken up, as there are no more borders than containers
after it.
-/
theorem width_le_spanOf (nonneg : 0 ≤ width) (c : OverviewEntry) (rest : List OverviewEntry)
    : width ≤ spanOf width c rest := by
  have few : (boundaries c rest : ℚ) ≤ rest.length := by
    exact_mod_cast boundaries_le c rest
  have sectors : 0 ≤ (rest.length : ℚ) * width := by positivity
  have groups : 0 ≤ (boundaries c rest : ℚ) * groupGap := by
    have : 0 ≤ groupGap := by norm_num [groupGap]
    positivity
  have gaps : 0 ≤ (rest.length - boundaries c rest : ℚ) * gap :=
    mul_nonneg (sub_nonneg.mpr few) (by norm_num [gap])
  unfold spanOf
  linarith

/-- Sectors of a width lie in what they take up, by induction on the containers. -/
theorem within_sectorsFrom (nonneg : 0 ≤ width)
    : ∀ s ∈ sectorsFrom width a c rest, a ≤ s.a0 ∧ s.a1 ≤ a + spanOf width c rest := by
  induction rest generalizing a c with
  | nil =>
      intro s member
      obtain rfl := List.mem_singleton.mp member
      exact ⟨le_rfl, add_le_add_right (width_le_spanOf nonneg c []) a⟩
  | cons next rest ih =>
      have further := gap_le_gapBetween c next
      have positive : 0 ≤ gap := by norm_num [gap]
      have whole := width_le_spanOf nonneg next rest
      rw [spanOf_cons]
      refine List.forall_mem_cons.mpr ⟨⟨le_rfl, ?_⟩, fun s member => ?_⟩
      · simp only
        linarith
      · obtain ⟨after, before⟩ := ih s member
        constructor <;> linarith

/-- Sectors of a width are apart by the smaller gap at least, by induction on the containers. -/
theorem apart_sectorsFrom (nonneg : 0 ≤ width)
    : (sectorsFrom width a c rest).Pairwise (fun s t => s.a1 + gap ≤ t.a0) := by
  induction rest generalizing a c with
  | nil => exact List.pairwise_singleton _ _
  | cons next rest ih =>
      refine List.pairwise_cons.mpr ⟨fun s member => ?_, ih⟩
      have after := (within_sectorsFrom nonneg s member).1
      have further := gap_le_gapBetween c next
      simp only
      linarith

/-- Sectors and gaps close the circle, which starts at twelve o'clock. -/
theorem spanOf_sectorWidth (c : OverviewEntry) (rest : List OverviewEntry)
    : spanOf (sectorWidth c rest) c rest + gap = 2 * mathPi := by
  have positive : (rest.length + 1 : ℚ) ≠ 0 := by positivity
  unfold spanOf sectorWidth
  push_cast
  field_simp
  ring

/-- The pointer finds the sector that it is in: sectors are apart, so no earlier one has it. -/
theorem hitSector_eq_some_iff (c : OverviewEntry) (rest : List OverviewEntry) (angle : ℚ) (i : ℕ)
    : hitSector (computeLayout (c :: rest)) angle = some i
      ↔ ∃ s, (computeLayout (c :: rest))[i]? = some s
          ∧ s.a0 ≤ clockwise angle ∧ clockwise angle ≤ s.a1 := by
  unfold hitSector
  generalize clockwise angle = at_
  rw [List.findIdx?_eq_some_iff_getElem]
  constructor
  · intro found
    obtain ⟨inside, contains, -⟩ := found
    exact ⟨_, List.getElem?_eq_getElem inside, of_decide_eq_true contains⟩
  · intro found
    obtain ⟨s, isSector, after, before⟩ := found
    obtain ⟨inside, rfl⟩ := List.getElem?_eq_some_iff.mp isSector
    have wide := width_sectorsFrom _ (List.getElem_mem inside)
    have nonneg : 0 ≤ sectorWidth c rest := by linarith
    refine ⟨inside, decide_eq_true ⟨after, before⟩, fun j earlier contains => ?_⟩
    have apart : (computeLayout (c :: rest))[j].a1 + gap ≤ (computeLayout (c :: rest))[i].a0 :=
      List.pairwise_iff_getElem.mp (apart_sectorsFrom nonneg) j i (earlier.trans inside) inside
        earlier
    have positive : 0 < gap := by norm_num [gap]
    obtain ⟨-, ends⟩ := of_decide_eq_true contains
    exact absurd (ends.trans_lt (by linarith)) (not_lt.mpr after)

/-- As long as the sectors have a width they fill the circle clockwise from twelve o'clock on,
apart from each other, and every one of them can be pointed at; the pointer always finds the
sector that it is in. Witness: sectors and gaps together take up the circle.
-/
theorem sectors_pointed (c : OverviewEntry) (rest : List OverviewEntry)
    : (computeLayout (c :: rest)).length = rest.length + 1
      ∧ (∀ angle i,
          hitSector (computeLayout (c :: rest)) angle = some i
          ↔ ∃ s, (computeLayout (c :: rest))[i]? = some s
              ∧ s.a0 ≤ clockwise angle ∧ clockwise angle ≤ s.a1)
      ∧ (0 ≤ sectorWidth c rest
          → (computeLayout (c :: rest)).Pairwise (fun s t => s.a1 + gap ≤ t.a0)
            ∧ ∀ s ∈ computeLayout (c :: rest),
                s.a1 = s.a0 + sectorWidth c rest
                ∧ -mathPi / 2 ≤ s.a0
                ∧ s.a1 + gap ≤ -mathPi / 2 + 2 * mathPi)
      ∧ ∀ i, i < (c :: rest).length
          → ((∃ angle, -mathPi < angle ∧ angle ≤ mathPi
                ∧ hitSector (computeLayout (c :: rest)) angle = some i)
              ↔ 0 ≤ sectorWidth c rest) := by
  have length := length_sectorsFrom (sectorWidth c rest) (-mathPi / 2) c rest
  have within (nonneg : 0 ≤ sectorWidth c rest)
      : ∀ s ∈ computeLayout (c :: rest),
          s.a1 = s.a0 + sectorWidth c rest
          ∧ -mathPi / 2 ≤ s.a0
          ∧ s.a1 + gap ≤ -mathPi / 2 + 2 * mathPi := by
    intro s member
    obtain ⟨after, before⟩ := within_sectorsFrom nonneg s member
    have circle := spanOf_sectorWidth c rest
    exact ⟨width_sectorsFrom s member, after, by linarith⟩
  refine ⟨length, hitSector_eq_some_iff c rest,
    fun nonneg => ⟨apart_sectorsFrom nonneg, within nonneg⟩, fun i inside => ⟨?_, ?_⟩⟩
  · intro pointed
    obtain ⟨angle, -, -, hit⟩ := pointed
    obtain ⟨s, isSector, after, before⟩ := (hitSector_eq_some_iff c rest angle i).mp hit
    have wide := width_sectorsFrom s (List.mem_of_getElem? isSector)
    linarith
  · intro nonneg
    have isIndex : i < (computeLayout (c :: rest)).length := inside.trans_eq length.symm
    have isSector := List.getElem?_eq_getElem isIndex
    obtain ⟨wide, after, before⟩ := within nonneg _ (List.mem_of_getElem? isSector)
    generalize (computeLayout (c :: rest))[i] = s at isSector wide after before
    have positive : 0 < mathPi := by norm_num [mathPi]
    have gapPositive : 0 < gap := by norm_num [gap]
    have inSector : s.a0 ≤ s.a0 ∧ s.a0 ≤ s.a1 := ⟨le_rfl, by linarith⟩
    by_cases right : s.a0 ≤ mathPi
    · refine ⟨s.a0, by linarith, right, (hitSector_eq_some_iff c rest _ i).mpr ⟨s, isSector, ?_⟩⟩
      rwa [clockwise, if_neg (not_lt.mpr after)]
    · have upperLeft : s.a0 - 2 * mathPi < -mathPi / 2 := by linarith
      refine ⟨s.a0 - 2 * mathPi, by linarith, by linarith,
        (hitSector_eq_some_iff c rest _ i).mpr ⟨s, isSector, ?_⟩⟩
      rwa [clockwise, if_pos upperLeft, sub_add_cancel]

end Sectors

end DockDoe
