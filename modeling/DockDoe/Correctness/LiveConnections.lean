import DockDoe.Model.LivePages

/-! A page keeps one live connection: never a second one, none while it is hidden or fetches what
it has missed, and a visible page is connected or about to be.
-/

namespace DockDoe

namespace LivePage

variable {page : LivePage}

/-- A page with charts that can ask for the points it has missed. -/
def Fetches (page : LivePage) : Prop :=
  page.charts.isSome = true ∧ page.hasBackfillUrl = true

/-- The connections of a page are managed: the script knows every one that is open, opens none
during a backfill, and a page with charts has none while it is hidden.
-/
structure Managed (page : LivePage) : Prop where
  single : page.sources.map EventSource.id = page.es.toList
  exclusive : page.es.isSome = true → page.backfilling = none
  visible : page.Fetches → page.es.isSome = true → page.hidden = false

/-- A page is connected, or about to be. -/
def Connecting (page : LivePage) : Prop :=
  page.es.isSome = true ∨ page.backfilling.isSome = true ∨ page.reconnectTimer = true

/-- A page that is visible is connected or about to be, unless it has been left. -/
def Live (page : LivePage) : Prop :=
  page.hidden = false → page.away = false → page.Connecting

-----------------------------------------------------------------------------------------
-- Opening and closing
-----------------------------------------------------------------------------------------

theorem openStream_connecting (page : LivePage) : page.openStream.Connecting := by
  left
  unfold openStream
  split
  · simp [*]
  · rfl

/-- Opening a stream keeps the page managed: it is only opened if there is none. -/
theorem Managed.openStream (managed : page.Managed) (idle : page.backfilling = none)
    (shown : page.Fetches → page.hidden = false)
    : page.openStream.Managed := by
  unfold LivePage.openStream
  cases known : page.es with
  | some id => exact managed
  | none =>
      have none : page.sources = [] := by
        simpa [known] using managed.single
      exact ⟨by simp [none], fun _ => idle, fun fetches _ => shown fetches⟩

/-- Connecting keeps the page managed: it does nothing while there is a stream or a backfill,
fetches if there are charts, and opens a stream otherwise.
-/
theorem Managed.connect (managed : page.Managed) : page.connect.Managed := by
  unfold LivePage.connect
  by_cases busy : (page.es.isSome || page.backfilling.isSome) = true
  · rw [if_pos busy]
    exact managed
  · rw [if_neg busy]
    simp only [Bool.or_eq_true, not_or, Option.not_isSome_iff_eq_none] at busy
    obtain ⟨unknown, idle⟩ := busy
    split
    · exact ⟨by simpa [unknown] using managed.single, by simp [unknown], by simp [unknown]⟩
    · rename_i plain
      apply managed.openStream idle
      intro fetches
      obtain ⟨charts, has⟩ := Option.isSome_iff_exists.mp fetches.1
      exact absurd fetches.2 (plain charts has)

/-- Whatever branch it takes, a page that connects has a stream, or fetches, or is about to open
one.
-/
theorem connect_connecting (page : LivePage) : page.connect.Connecting := by
  unfold connect
  split
  · rename_i busy
    rcases Bool.or_eq_true_iff.mp busy with known | fetching
    · exact .inl known
    · exact .inr (.inl fetching)
  · split
    · exact .inr (.inl rfl)
    · exact openStream_connecting page

theorem disconnect_es (page : LivePage) : page.disconnect.es = none := by
  unfold disconnect
  split <;> simp [*]

/-- Whatever the page was doing, closing its connection leaves none: the one that it knows is the
only one.
-/
theorem disconnect_managed (single : page.sources.map EventSource.id = page.es.toList)
    : page.disconnect.Managed := by
  have unknown := disconnect_es page
  refine ⟨?_, by simp [unknown], by simp [unknown]⟩
  rw [unknown]
  unfold disconnect
  cases known : page.es with
  | none => simpa [known] using single
  | some id =>
      have closed : page.sources.filter (fun source => source.id ≠ id) = [] := by
        apply List.filter_eq_nil_iff.mpr
        intro source member
        have own : source.id ∈ page.sources.map EventSource.id := List.mem_map_of_mem member
        rw [single, known] at own
        simpa using own
      exact congrArg (List.map EventSource.id) closed

theorem disconnect_hidden (page : LivePage) : page.disconnect.hidden = page.hidden := by
  unfold disconnect
  split <;> rfl

-----------------------------------------------------------------------------------------
-- The page's events
-----------------------------------------------------------------------------------------

/-- A managed page that connects unless it is hidden is live. -/
theorem Managed.connectUnlessHidden (managed : page.Managed)
    : (if page.hidden then page else page.connect).Managed
      ∧ (if page.hidden then page else page.connect).Live := by
  cases hidden : page.hidden with
  | true => exact ⟨managed, by simp [Live, hidden]⟩
  | false => exact ⟨managed.connect, fun _ _ => connect_connecting page⟩

theorem loaded_managed (charts : Option LiveCharts) (hasBackfillUrl hidden : Bool)
    : (loaded charts hasBackfillUrl hidden).Managed
      ∧ (loaded charts hasBackfillUrl hidden).Live := by
  have still : (fresh charts hasBackfillUrl hidden).Managed := ⟨rfl, nofun, nofun⟩
  exact still.connectUnlessHidden

theorem Managed.reconnect (managed : page.Managed)
    : page.reconnect.Managed ∧ page.reconnect.Live := by
  have still : ({ page with reconnectTimer := false } : LivePage).Managed :=
    ⟨managed.single, managed.exclusive, managed.visible⟩
  exact still.connectUnlessHidden

theorem Managed.onError (managed : page.Managed) : page.onError.Managed ∧ page.onError.Live := by
  obtain ⟨single, exclusive, visible⟩ := disconnect_managed managed.single
  exact ⟨⟨single, exclusive, visible⟩, fun _ _ => .inr (.inr rfl)⟩

/-- A stream is opened only once the backfill is in, and only if the page is visible. -/
theorem Managed.backfilled (managed : page.Managed) (points : List MetricPoint)
    (pending : page.backfilling.isSome = true)
    : (page.backfilled points).Managed ∧ (page.backfilled points).Live := by
  have unknown : page.es = none := by
    by_contra known
    rw [managed.exclusive (Option.isSome_iff_ne_none.mpr known)] at pending
    cases pending
  let filled : LivePage := {
    page with
    charts := page.charts.map (fun charts => charts.backfill points)
    backfilling := none
  }
  have still : filled.Managed := by
    refine ⟨managed.single, fun _ => rfl, ?_⟩
    intro _ known
    rw [show filled.es = none from unknown] at known
    cases known
  show (if filled.hidden then filled else filled.openStream).Managed
    ∧ (if filled.hidden then filled else filled.openStream).Live
  cases hidden : filled.hidden with
  | true => exact ⟨still, by simp [Live, hidden]⟩
  | false =>
      exact ⟨still.openStream rfl (fun _ => hidden), fun _ _ => openStream_connecting filled⟩

/-- A page that is hidden is left without a connection, and one that comes back connects. -/
theorem Managed.visibilityChange (managed : page.Managed) (hidden : Bool)
    : (page.visibilityChange hidden).Managed ∧ (page.visibilityChange hidden).Live := by
  cases hidden with
  | true =>
      refine ⟨disconnect_managed managed.single, ?_⟩
      intro shown
      rw [LivePage.visibilityChange, if_pos rfl, disconnect_hidden] at shown
      cases shown
  | false =>
      have still : ({ page with hidden := false } : LivePage).Managed :=
        ⟨managed.single, managed.exclusive, fun _ _ => rfl⟩
      exact ⟨still.connect, fun _ _ => connect_connecting _⟩

theorem Managed.pageHide (managed : page.Managed)
    : page.pageHide.Managed ∧ page.pageHide.Live := by
  obtain ⟨single, exclusive, visible⟩ := disconnect_managed managed.single
  exact ⟨⟨single, exclusive, visible⟩, nofun⟩

theorem Managed.pageShow (managed : page.Managed)
    : page.pageShow.Managed ∧ page.pageShow.Live := by
  have still : ({ page with away := false } : LivePage).Managed :=
    ⟨managed.single, managed.exclusive, managed.visible⟩
  exact ⟨still.connect, fun _ _ => connect_connecting _⟩

end LivePage

-----------------------------------------------------------------------------------------
-- Runs
-----------------------------------------------------------------------------------------

namespace LiveSystem

variable {host id : String} {window : Duration} {s t : LiveSystem}
variable {arrivals : List LiveCharts.Arrival}

/-- What happens on a connection that is open leaves the page managed. -/
theorem managed_update {page : LivePage} (managed : page.Managed ∧ page.Live)
    {sources : List EventSource} {charts : Option LiveCharts}
    (ids : sources.map EventSource.id = page.sources.map EventSource.id)
    (same : charts.isSome = page.charts.isSome)
    : ({ page with sources, charts } : LivePage).Managed
      ∧ ({ page with sources, charts } : LivePage).Live := by
  obtain ⟨⟨single, exclusive, visible⟩, live⟩ := managed
  refine ⟨⟨ids.trans single, exclusive, ?_⟩, live⟩
  intro fetches
  exact visible ⟨same ▸ fetches.1, fetches.2⟩

/-- Every step keeps the page managed and live, by its cases: the server and the network do not
change which connections there are.
-/
theorem Step.managed (managed : s.page.Managed ∧ s.page.Live)
    (step : Step host id window s arrivals t)
    : t.page.Managed ∧ t.page.Live := by
  cases step with
  | host step => exact managed
  | accept before after sources => exact managed_update managed (by simp [sources]) rfl
  | yield before after sources session yields =>
      exact managed_update managed (by simp [sources]) rfl
  | metrics before after sources arrives =>
      exact managed_update managed (by simp [sources]) (by simp)
  | error member => exact managed.1.onError
  | reconnect set => exact managed.1.reconnect
  | answer now asked =>
      obtain ⟨⟨single, exclusive, visible⟩, live⟩ := managed
      have unknown : s.page.es.isSome = true → False := by
        intro known
        rw [exclusive known] at asked
        cases asked
      exact ⟨⟨single, fun known => (unknown known).elim, visible⟩, fun _ _ => .inr (.inl rfl)⟩
  | @backfilled points answered =>
      exact managed.1.backfilled points (by rw [answered]; rfl)
  | backfillFails pending => exact managed.1.backfilled [] pending
  | visibilityChange hidden => exact managed.1.visibilityChange hidden
  | pageHide => exact managed.1.pageHide
  | pageShow => exact managed.1.pageShow

theorem Run.managed (managed : s.page.Managed ∧ s.page.Live)
    (run : Run host id window s arrivals t)
    : t.page.Managed ∧ t.page.Live := by
  induction run with
  | refl => exact managed
  | tail _ step ih => exact step.managed ih

/-- Over the whole life of a page, at most one connection is open, and it is the one that the
script knows; a page with charts has none while it is hidden or fetches what it has missed, and a
visible page is connected, fetching, or going to reconnect. Witness: every event of the page
keeps it managed, by induction on the run.
-/
theorem one_connection {charts : Option LiveCharts} {hasBackfillUrl hidden : Bool}
    (loaded : s.page = .loaded charts hasBackfillUrl hidden)
    (run : Run host id window s arrivals t)
    : t.page.sources.map EventSource.id = t.page.es.toList
      ∧ (t.page.es.isSome = true → t.page.backfilling = none)
      ∧ (t.page.Fetches → t.page.es.isSome = true → t.page.hidden = false)
      ∧ (t.page.hidden = false → t.page.away = false → t.page.Connecting) := by
  have start := LivePage.loaded_managed charts hasBackfillUrl hidden
  rw [← loaded] at start
  obtain ⟨⟨single, exclusive, visible⟩, live⟩ := run.managed start
  exact ⟨single, exclusive, visible, live⟩

/-- A page without charts whose connection fails, and that is hidden and left meanwhile,
reconnects once.
-/
theorem one_connection_failed
    : ∃ s t,
        s.page = .loaded none false false
        ∧ Run "local" "deadbeef" 1000 s [] t
        ∧ t.page.sources.map EventSource.id = t.page.es.toList
        ∧ (t.page.hidden = false → t.page.away = false → t.page.Connecting) := by
  let s : LiveSystem := { host := .started, page := .loaded none false false }
  have start : Run "local" "deadbeef" 1000 s [] s := .refl
  have run := start
    |>.tail (.error (List.mem_cons_self ..))
    |>.tail (.visibilityChange _ true)
    |>.tail (.pageHide _)
    |>.tail (.pageShow _)
    |>.tail (.reconnect rfl)
    |>.tail (.visibilityChange _ false)
  have loaded : s.page = .loaded none false false := rfl
  obtain ⟨single, -, -, live⟩ := one_connection loaded run
  exact ⟨s, _, loaded, run, single, live⟩

end LiveSystem

end DockDoe
