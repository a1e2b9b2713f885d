import DockDoe.Model.HistoryDialog

/-! The history overlay shows the view that was asked for last, whatever order the responses
arrive in; it asks for nothing that the server refuses, and what is drilled into is left by as
many double-clicks.
-/

namespace DockDoe

namespace HistoryDialog

variable {dialog : HistoryDialog} {events : List DialogEvent} {event : DialogEvent}

-----------------------------------------------------------------------------------------
-- The latest view
-----------------------------------------------------------------------------------------

/-- The chart shows what has come of the current view. -/
def ShowsView (events : List DialogEvent) (dialog : HistoryDialog) : Prop :=
  ∃ request outcome,
    DialogEvent.settle request outcome ∈ events
    ∧ request.seq = dialog.loadSeq
    ∧ request.view = dialog.view
    ∧ dialog.area = HistoryOutcome.area dialog.metric outcome

/-- The requests of an overlay: numbered, all but the latest aborted, and the latest one for the
current view.
-/
structure Loads (events : List DialogEvent) (dialog : HistoryDialog) : Prop where
  bounded : ∀ request ∈ dialog.requests, request.seq ≤ dialog.loadSeq
  latest : ∀ request ∈ dialog.requests, request.seq = dialog.loadSeq
    → request.view = dialog.view ∧ dialog.isOpen = true
  running : ∀ request ∈ dialog.requests, request.aborted = false → request.seq = dialog.loadSeq
  aborts : dialog.isOpen = true → dialog.loadAbort = some dialog.loadSeq
  shown : dialog.isOpen = true
    → (∃ request ∈ dialog.requests, request.seq = dialog.loadSeq ∧ request.aborted = false)
      ∨ ShowsView events dialog

theorem initial_loads : Loads [] initial :=
  ⟨nofun, nofun, nofun, nofun, nofun⟩

/-- An abort reaches every request that is still running, for only the latest one is, and that is
the one the dialog would abort.
-/
theorem Loads.abort (loads : Loads events dialog)
    : ∀ request ∈ dialog.abort.requests,
        request.aborted = true ∧ request.seq ≤ dialog.loadSeq := by
  have reached : ∀ request ∈ dialog.requests,
      dialog.loadAbort ≠ some request.seq → request.aborted = true := by
    intro request member other
    by_contra running
    have seq := loads.running request member (Bool.not_eq_true _ ▸ running)
    have isOpen := (loads.latest request member seq).2
    exact other (seq ▸ loads.aborts isOpen)
  intro request member
  unfold HistoryDialog.abort at member
  split at member
  · rename_i none
    exact ⟨reached request member (by simp [none]), loads.bounded request member⟩
  · rename_i seq isSome
    obtain ⟨before, old, rfl⟩ := List.mem_map.mp member
    have bounded := loads.bounded before old
    split
    · exact ⟨rfl, bounded⟩
    · rename_i different
      refine ⟨reached before old ?_, bounded⟩
      rw [isSome]
      exact fun same => different (Option.some.inj same).symm

/-- A view that is shown in an open dialog has the only request that is not aborted: the new one,
with the next number.
-/
theorem show_loads {view : HistoryView} (isOpen : dialog.isOpen = true)
    (aborted
      : ∀ request ∈ dialog.abort.requests,
          request.aborted = true ∧ request.seq ≤ dialog.loadSeq)
    : Loads events (dialog.show view) := by
  have stays : (dialog.show view).isOpen = true := by
    simp only [HistoryDialog.show, HistoryDialog.abort]
    split <;> exact isOpen
  have cases_requests : ∀ request ∈ (dialog.show view).requests,
      (request.aborted = true ∧ request.seq ≤ dialog.loadSeq)
      ∨ request = { seq := dialog.loadSeq + 1, view, aborted := false } := by
    intro request member
    rcases List.mem_append.mp member with old | new
    · exact .inl (aborted request old)
    · exact .inr (List.mem_singleton.mp new)
  refine ⟨?_, ?_, ?_, fun _ => rfl, fun _ => .inl ⟨_, List.mem_concat_self, rfl, rfl⟩⟩
  · intro request member
    rcases cases_requests request member with ⟨-, bounded⟩ | rfl
    · exact bounded.trans (Nat.le_succ _)
    · exact le_rfl
  · intro request member seq
    rcases cases_requests request member with ⟨-, bounded⟩ | rfl
    · exact absurd (seq ▸ bounded) (Nat.not_succ_le_self _)
    · exact ⟨rfl, stays⟩
  · intro request member running
    rcases cases_requests request member with ⟨old, -⟩ | rfl
    · rw [old] at running
      cases running
    · rfl

/-- So has one that is shown after other variables have been set, as long as these leave the
requests alone.
-/
theorem Loads.show (loads : Loads events dialog) (next : HistoryDialog)
    (isOpen : next.isOpen = true) (requests : next.requests = dialog.requests)
    (loadAbort : next.loadAbort = dialog.loadAbort) (loadSeq : next.loadSeq = dialog.loadSeq)
    (view : HistoryView)
    : Loads events (next.show view) := by
  apply show_loads isOpen
  have same : next.abort.requests = dialog.abort.requests := by
    unfold HistoryDialog.abort
    rw [loadAbort]
    cases dialog.loadAbort <;> simp [requests]
  rw [same, loadSeq]
  exact loads.abort

/-- Further events change nothing about what has been shown. -/
theorem Loads.mono (loads : Loads events dialog) (event : DialogEvent)
    : Loads (events ++ [event]) dialog := by
  refine { loads with shown := ?_ }
  intro isOpen
  refine (loads.shown isOpen).imp_right ?_
  intro shows
  obtain ⟨request, outcome, settled, rest⟩ := shows
  exact ⟨request, outcome, List.mem_append_left _ settled, rest⟩

/-- Closing aborts what is running and counts on, so that no request is the latest one. -/
theorem Loads.close (loads : Loads events dialog) : Loads events dialog.close := by
  have aborted := loads.abort
  refine ⟨?_, ?_, ?_, nofun, nofun⟩
  · intro request member
    exact (aborted request member).2.trans (Nat.le_succ _)
  · intro request member seq
    exact absurd (seq ▸ (aborted request member).2) (Nat.not_succ_le_self _)
  · intro request member running
    rw [(aborted request member).1] at running
    cases running

/-- A request that comes back is shown if it is the latest, and changes nothing otherwise, for
then it was aborted.
-/
theorem Loads.settle (loads : Loads events dialog) {request : HistoryRequest}
    (member : request ∈ dialog.requests) (outcome : HistoryOutcome)
    : Loads (events ++ [.settle request outcome]) (dialog.settle request outcome) := by
  have kept {other : HistoryRequest}
      (left : other ∈ dialog.requests.filter (fun other => other.seq ≠ request.seq))
      : other ∈ dialog.requests :=
    (List.mem_filter.mp left).1
  unfold HistoryDialog.settle
  by_cases current : request.seq = dialog.loadSeq
  · rw [if_pos current]
    refine ⟨?_, ?_, ?_, loads.aborts, ?_⟩
    · exact fun other left => loads.bounded other (kept left)
    · exact fun other left => loads.latest other (kept left)
    · exact fun other left => loads.running other (kept left)
    · intro isOpen
      have view := (loads.latest request member current).1
      exact .inr ⟨request, outcome, List.mem_concat_self, current, view, rfl⟩
  · rw [if_neg current]
    have before := loads.mono (.settle request outcome)
    refine ⟨?_, ?_, ?_, loads.aborts, ?_⟩
    · exact fun other left => loads.bounded other (kept left)
    · exact fun other left => loads.latest other (kept left)
    · exact fun other left => loads.running other (kept left)
    · intro isOpen
      refine (before.shown isOpen).imp_left ?_
      intro fetching
      obtain ⟨other, isRequest, seq, running⟩ := fetching
      refine ⟨other, List.mem_filter.mpr ⟨isRequest, ?_⟩, seq, running⟩
      simpa [seq] using Ne.symm current

/-- Every event keeps the loads in order, by its cases: most show a view, one closes, and one
settles a request.
-/
theorem Loads.handle (loads : Loads events dialog) (admits : dialog.Admits event)
    : Loads (events ++ [event]) (dialog.handle event) := by
  have later := loads.mono event
  cases event with
  | deepLink metric range =>
      exact later.show (dialog.openFor metric) rfl rfl rfl rfl
        (.range ((range.filter (· ∈ rangeButtons)).getD dialog.lastRange))
  | zoom metric =>
      exact later.show (dialog.openFor metric) rfl rfl rfl rfl (.range dialog.lastRange)
  | drillLive metric sinceMs untilMs =>
      simp only [HistoryDialog.handle, HistoryDialog.drillLive]
      split
      · exact later
      · exact later.show (dialog.openFor metric) rfl rfl rfl rfl _
  | pickRange name =>
      exact later.show { dialog with backStack := [] } admits.1 rfl rfl rfl (.range name)
  | drill sinceMs untilMs =>
      simp only [HistoryDialog.handle, HistoryDialog.drill]
      split
      · exact later
      · exact later.show { dialog with backStack := dialog.backStack ++ [dialog.view] } admits
          rfl rfl rfl _
  | goBack =>
      simp only [HistoryDialog.handle, HistoryDialog.goBack]
      split
      · exact later.show { dialog with backStack := dialog.backStack.dropLast } admits
          rfl rfl rfl _
      · split
        · exact later
        · exact later.show dialog admits rfl rfl rfl _
  | close => exact later.close
  | settle request outcome => exact loads.settle admits outcome

theorem Run.loads (run : Run initial events dialog) : Loads events dialog := by
  induction run with
  | refl => exact initial_loads
  | tail _ admits ih => exact ih.handle admits

/-- Whatever is clicked and in whatever order responses arrive: an open overlay either waits for
the response to the view that was asked for last, or shows it, and every other request has been
aborted. Witness: every step keeps the numbers of requests in order and the latest one for the
current view.
-/
theorem shows_latest (run : Run initial events dialog)
    : (dialog.isOpen = true
        → (∃ request ∈ dialog.requests, request.view = dialog.view ∧ request.aborted = false)
          ∨ ShowsView events dialog)
      ∧ ∀ request ∈ dialog.requests, request.aborted = false
        → request.seq = dialog.loadSeq ∧ request.view = dialog.view ∧ dialog.isOpen = true := by
  have loads := run.loads
  constructor
  · intro isOpen
    refine (loads.shown isOpen).imp_left ?_
    intro fetching
    obtain ⟨request, member, seq, running⟩ := fetching
    exact ⟨request, member, (loads.latest request member seq).1, running⟩
  · intro request member running
    have seq := loads.running request member running
    exact ⟨seq, loads.latest request member seq⟩

/-- The overlay of a chart that has been opened, before anything has come back. -/
def zoomed : HistoryDialog :=
  initial.zoom .cpu

/-- Its request, which whatever is shown next aborts. -/
def zoomedRequest : HistoryRequest :=
  { seq := 1, view := .range "24h".toList, aborted := true }

theorem run_zoomed : Run initial [.zoom .cpu] zoomed :=
  Run.refl.tail rfl

/-- A chart is opened, a stretch of it selected, and then the first response arrives, which is
not shown.
-/
theorem shows_latest_late
    : ∃ dialog : HistoryDialog,
        dialog.isOpen = true
        ∧ dialog.requests = [{ seq := 2, view := .window 0 20000, aborted := false }]
        ∧ ((∃ request ∈ dialog.requests,
              request.view = dialog.view ∧ request.aborted = false)
            ∨ ShowsView [.zoom .cpu, .drill 0 20000, .settle zoomedRequest none] dialog) := by
  have drilled : Run initial [.zoom .cpu, .drill 0 20000] (zoomed.drill 0 20000) :=
    run_zoomed.tail rfl
  have late : Run initial [.zoom .cpu, .drill 0 20000, .settle zoomedRequest none]
      ((zoomed.drill 0 20000).settle zoomedRequest none) :=
    drilled.tail List.mem_cons_self
  exact ⟨_, rfl, rfl, (shows_latest late).1 rfl⟩

-----------------------------------------------------------------------------------------
-- Requests that the server resolves
-----------------------------------------------------------------------------------------

/-- A range that has a button, or a window that is not empty. -/
def Offered : HistoryView → Prop
  | .range name => name ∈ rangeButtons
  | .window sinceMs untilMs => sinceMs < untilMs

/-- The server resolves what is offered: a range by its name, and a window as its ends are in
order.
-/
theorem resolves_of_offered {view : HistoryView} (offered : Offered view) (seedWindow : Duration)
    (now : ℕ)
    : (resolveHistory view.query seedWindow now).isSome = true := by
  unfold resolveHistory
  rw [Option.isSome_map]
  cases view with
  | range name =>
      obtain ⟨entry, member, rfl⟩ := List.mem_map.mp offered
      have found : (historyRanges.find? (fun r => r.1 == entry.1)).isSome = true :=
        List.find?_isSome.mpr ⟨entry, member, beq_self_eq_true _⟩
      simpa [HistoryView.query, HistoryQuery.bounds] using found
  | window sinceMs untilMs =>
      have nonempty : sinceMs < untilMs := offered
      simp [HistoryView.query, HistoryQuery.bounds, nonempty]

/-- Everything that an overlay can still show is offered, and what it shows is the range that it
remembers, if it is one.
-/
structure Offers (dialog : HistoryDialog) : Prop where
  lastRange : dialog.lastRange ∈ rangeButtons
  view : Offered dialog.view
  trail : ∀ view ∈ dialog.backStack, Offered view
  requests : ∀ request ∈ dialog.requests, Offered request.view
  remembers : ∀ name, dialog.view = .range name → dialog.lastRange = name

theorem initial_offers : initial.Offers where
  lastRange := by simp [initial, rangeButtons, historyRanges]
  view := by simp [initial, Offered, rangeButtons, historyRanges]
  trail := nofun
  requests := nofun
  remembers name shown := HistoryView.range.inj shown

/-- An abort changes no request's view. -/
theorem abort_views (dialog : HistoryDialog)
    : dialog.abort.requests.map HistoryRequest.view
      = dialog.requests.map HistoryRequest.view := by
  unfold HistoryDialog.abort
  split
  · rfl
  · rw [List.map_map]
    apply List.map_congr_left
    intro request _
    dsimp only [Function.comp_apply]
    split <;> rfl

/-- What was offered is so after an abort, which changes no view. -/
theorem abort_offered (requests : ∀ request ∈ dialog.requests, Offered request.view)
    : ∀ request ∈ dialog.abort.requests, Offered request.view := by
  intro request member
  have isView : request.view ∈ dialog.abort.requests.map HistoryRequest.view :=
    List.mem_map_of_mem member
  rw [abort_views] at isView
  obtain ⟨before, old, same⟩ := List.mem_map.mp isView
  exact same ▸ requests before old

theorem show_backStack (dialog : HistoryDialog) (view : HistoryView)
    : (dialog.show view).backStack = dialog.backStack := by
  simp only [HistoryDialog.show, HistoryDialog.abort]
  split <;> rfl

/-- Showing an offered view requests it, and remembers it if it is a range. -/
theorem show_offers (dialog : HistoryDialog) (view : HistoryView)
    (lastRange : dialog.lastRange ∈ rangeButtons)
    (trail : ∀ view ∈ dialog.backStack, Offered view)
    (requests : ∀ request ∈ dialog.requests, Offered request.view) (offered : Offered view)
    : (dialog.show view).Offers where
  lastRange := by
    cases view with
    | range name => exact offered
    | window => exact lastRange
  view := offered
  trail := show_backStack dialog view ▸ trail
  requests request member := by
    rcases List.mem_append.mp member with old | new
    · exact abort_offered requests request old
    · obtain rfl := List.mem_singleton.mp new
      exact offered
  remembers name shown := by
    obtain rfl : view = .range name := shown
    rfl

/-- Every event offers what the server knows only, by its cases: buttons and links name ranges, a
drill is refused unless it is wide, and going back takes what was offered before.
-/
theorem Offers.handle (offers : dialog.Offers) (admits : dialog.Admits event)
    : (dialog.handle event).Offers := by
  obtain ⟨lastRange, view, trail, requests, remembers⟩ := offers
  have wide {sinceMs untilMs : ℕ} (far : ¬ untilMs - sinceMs < 10000)
      : Offered (.window sinceMs untilMs) := by
    show sinceMs < untilMs
    omega
  cases event with
  | deepLink metric range =>
      let known := (range.filter (· ∈ rangeButtons)).getD dialog.lastRange
      have offered : known ∈ rangeButtons := by
        cases found : range.filter (· ∈ rangeButtons) with
        | none => simpa [known, found] using lastRange
        | some name => simpa [known, found] using (Option.filter_eq_some_iff.mp found).2
      exact show_offers (dialog.openFor metric) (.range known) lastRange (by
        simp [openFor]) requests offered
  | zoom metric =>
      exact show_offers (dialog.openFor metric) (.range dialog.lastRange) lastRange (by
        simp [openFor]) requests lastRange
  | drillLive metric sinceMs untilMs =>
      simp only [HistoryDialog.handle, HistoryDialog.drillLive]
      split
      · exact ⟨lastRange, view, trail, requests, remembers⟩
      · rename_i far
        exact show_offers (dialog.openFor metric) _ lastRange (by
          simp [openFor]) requests (wide far)
  | pickRange name =>
      exact show_offers { dialog with backStack := [] } (.range name) lastRange (by
        simp) requests admits.2
  | drill sinceMs untilMs =>
      simp only [HistoryDialog.handle, HistoryDialog.drill]
      split
      · exact ⟨lastRange, view, trail, requests, remembers⟩
      · rename_i far
        refine show_offers _ _ lastRange ?_ requests (wide far)
        intro other member
        rcases List.mem_append.mp member with old | current
        · exact trail other old
        · exact List.mem_singleton.mp current ▸ view
  | goBack =>
      simp only [HistoryDialog.handle, HistoryDialog.goBack]
      split
      · rename_i last isLast
        refine show_offers _ _ lastRange ?_ requests (trail last (List.mem_of_getLast? isLast))
        exact fun other member => trail other (List.dropLast_subset _ member)
      · split
        · exact ⟨lastRange, view, trail, requests, remembers⟩
        · exact show_offers _ _ lastRange trail requests lastRange
  | close =>
      have same : dialog.close.lastRange = dialog.lastRange ∧ dialog.close.view = dialog.view
          ∧ dialog.close.backStack = dialog.backStack := by
        simp only [HistoryDialog.close, HistoryDialog.abort]
        split <;> exact ⟨rfl, rfl, rfl⟩
      show dialog.close.Offers
      refine ⟨?_, ?_, ?_, abort_offered requests, ?_⟩
      · rwa [same.1]
      · rwa [same.2.1]
      · rwa [same.2.2]
      · rwa [same.1, same.2.1]
  | settle request outcome =>
      simp only [HistoryDialog.handle, HistoryDialog.settle]
      split <;>
        exact ⟨lastRange, view, trail,
          fun other left => requests other (List.mem_filter.mp left).1, remembers⟩

theorem Run.offers (run : Run initial events dialog) : dialog.Offers := by
  induction run with
  | refl => exact initial_offers
  | tail _ admits ih => exact ih.handle admits

/-- The server resolves every request of the overlay, at any time: its views are only ever ranges
that the server knows and windows of a positive width, by induction on the run.
-/
theorem requests_resolve (run : Run initial events dialog) (seedWindow : Duration) (now : ℕ)
    : ∀ request ∈ dialog.requests,
        (resolveHistory request.view.query seedWindow now).isSome = true := by
  intro request member
  exact resolves_of_offered (run.offers.requests request member) seedWindow now

/-- The request of a chart that has just been opened. -/
theorem requests_resolve_zoomed
    : zoomed.requests.map HistoryRequest.view = [.range "24h".toList]
      ∧ (resolveHistory (HistoryView.range "24h".toList).query (.fromSecs 900) 1000000).isSome
        = true :=
  ⟨rfl, requests_resolve run_zoomed (.fromSecs 900) 1000000
    { seq := 1, view := .range "24h".toList, aborted := false } List.mem_cons_self⟩

-----------------------------------------------------------------------------------------
-- Trails
-----------------------------------------------------------------------------------------

/-- Drilling down and leaving again, any number of times and levels, while responses arrive. -/
inductive Excursion : List DialogEvent → Prop
  | stay : Excursion []
  | settle (request : HistoryRequest) (outcome : HistoryOutcome)
    : Excursion [.settle request outcome]
  | nudge {sinceMs untilMs : ℕ} (near : untilMs - sinceMs < 10000)
    : Excursion [.drill sinceMs untilMs]
  | inside {sinceMs untilMs : ℕ} {events : List DialogEvent}
      (wide : ¬ untilMs - sinceMs < 10000) (excursion : Excursion events)
    : Excursion (.drill sinceMs untilMs :: events ++ [.goBack])
  | append {events more : List DialogEvent} (first : Excursion events) (second : Excursion more)
    : Excursion (events ++ more)

/-- Two overlays are at the same place: they show the same view of the same metric, with the
same way back.
-/
structure SamePlace (dialog other : HistoryDialog) : Prop where
  isOpen : dialog.isOpen = other.isOpen
  metric : dialog.metric = other.metric
  view : dialog.view = other.view
  backStack : dialog.backStack = other.backStack
  lastRange : dialog.lastRange = other.lastRange

theorem SamePlace.refl (dialog : HistoryDialog) : dialog.SamePlace dialog :=
  ⟨rfl, rfl, rfl, rfl, rfl⟩

theorem SamePlace.trans {other third : HistoryDialog} (first : dialog.SamePlace other)
    (second : other.SamePlace third)
    : dialog.SamePlace third where
  isOpen := first.isOpen.trans second.isOpen
  metric := first.metric.trans second.metric
  view := first.view.trans second.view
  backStack := first.backStack.trans second.backStack
  lastRange := first.lastRange.trans second.lastRange

theorem show_isOpen (dialog : HistoryDialog) (view : HistoryView)
    : (dialog.show view).isOpen = dialog.isOpen := by
  simp only [HistoryDialog.show, HistoryDialog.abort]
  split <;> rfl

theorem show_metric (dialog : HistoryDialog) (view : HistoryView)
    : (dialog.show view).metric = dialog.metric := by
  simp only [HistoryDialog.show, HistoryDialog.abort]
  split <;> rfl

theorem samePlace_settle (dialog : HistoryDialog) (request : HistoryRequest)
    (outcome : HistoryOutcome)
    : (dialog.settle request outcome).SamePlace dialog := by
  unfold HistoryDialog.settle
  split <;> exact ⟨rfl, rfl, rfl, rfl, rfl⟩

/-- A double-click after a drill, and after whatever has come back from deeper, returns: the last
view on the way back is the one that was drilled into.
-/
theorem samePlace_goBack {deeper : HistoryDialog} {sinceMs untilMs : ℕ}
    (wide : ¬ untilMs - sinceMs < 10000)
    (remembers : ∀ name, dialog.view = .range name → dialog.lastRange = name)
    (same : deeper.SamePlace (dialog.drill sinceMs untilMs))
    : deeper.goBack.SamePlace dialog := by
  obtain ⟨isOpen, metric, view, backStack, lastRange⟩ := same
  rw [drill, if_neg wide] at isOpen metric backStack lastRange
  rw [show_isOpen] at isOpen
  rw [show_metric] at metric
  rw [show_backStack] at backStack
  have kept : deeper.lastRange = dialog.lastRange := lastRange
  have last : deeper.backStack.getLast? = some dialog.view := by
    rw [backStack]
    exact List.getLast?_concat
  have back
      : deeper.goBack
        = HistoryDialog.show { deeper with backStack := deeper.backStack.dropLast }
            dialog.view := by
    rw [goBack, last]
  rw [back]
  refine ⟨?_, ?_, rfl, ?_, ?_⟩
  · rwa [show_isOpen]
  · rwa [show_metric]
  · rw [show_backStack, backStack]
    exact List.dropLast_concat
  · cases shown : dialog.view with
    | range name => exact (remembers name shown).symm
    | window => exact kept

/-- An excursion comes back, by induction on its levels. -/
theorem Excursion.samePlace (excursion : Excursion events)
    (remembers : ∀ name, dialog.view = .range name → dialog.lastRange = name)
    : (events.foldl handle dialog).SamePlace dialog := by
  induction excursion generalizing dialog with
  | stay => exact .refl dialog
  | settle request outcome => exact samePlace_settle dialog request outcome
  | @nudge sinceMs untilMs near =>
      have ignored : dialog.drill sinceMs untilMs = dialog := if_pos near
      rw [List.foldl_cons, List.foldl_nil, handle, ignored]
      exact .refl dialog
  | @inside sinceMs untilMs events wide excursion ih =>
      rw [List.cons_append, List.foldl_cons, List.foldl_append]
      apply samePlace_goBack wide remembers
      apply ih
      intro name shown
      rw [handle, drill, if_neg wide] at shown
      cases shown
  | append _ _ first second =>
      rw [List.foldl_append]
      have there := first remembers
      refine (second ?_).trans there
      intro name shown
      rw [there.lastRange]
      exact remembers name (there.view ▸ shown)

theorem Run.foldl_eq {start : HistoryDialog} (run : Run start events dialog)
    : events.foldl handle start = dialog := by
  induction run with
  | refl => rfl
  | tail _ _ ih => rw [List.foldl_append, ih]; rfl

/-- What is drilled into is left by as many double-clicks, on any number of levels and whatever
is drilled into on the way: the overlay is where it was, with the same way back, by induction on
the excursion.
-/
theorem excursion_returns {before : List DialogEvent} {start : HistoryDialog}
    (reached : Run initial before start) (run : Run start events dialog)
    (excursion : Excursion events)
    : dialog.SamePlace start :=
  run.foldl_eq ▸ excursion.samePlace reached.offers.remembers

/-- Two levels down and back up, with a response on the way, is an excursion. -/
theorem excursion_returns_twice
    : ∃ dialog : HistoryDialog,
        dialog.loadSeq = 5 ∧ dialog.SamePlace zoomed := by
  have drilled : Run zoomed [.drill 0 60000] (zoomed.drill 0 60000) :=
    Run.refl.tail rfl
  have deeper : Run zoomed [.drill 0 60000, .drill 20000 40000]
      ((zoomed.drill 0 60000).drill 20000 40000) :=
    drilled.tail rfl
  have late : Run zoomed [.drill 0 60000, .drill 20000 40000, .settle zoomedRequest none]
      (((zoomed.drill 0 60000).drill 20000 40000).settle zoomedRequest none) :=
    deeper.tail List.mem_cons_self
  have back : Run zoomed
      [.drill 0 60000, .drill 20000 40000, .settle zoomedRequest none, .goBack, .goBack]
      (((zoomed.drill 0 60000).drill 20000 40000).settle zoomedRequest none).goBack.goBack :=
    (late.tail (show Admits _ .goBack from rfl)).tail rfl
  have excursion : Excursion
      [.drill 0 60000, .drill 20000 40000, .settle zoomedRequest none, .goBack, .goBack] :=
    .inside (by decide) (.inside (by decide) (.settle _ _))
  exact ⟨_, rfl, excursion_returns run_zoomed back excursion⟩

end HistoryDialog

end DockDoe
