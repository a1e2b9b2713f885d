import DockDoe.Model.SampleQueries

/-! The chart seed read from stored samples against the points of the live stream.
The writer keeps an absent CPU value as NULL while the reader takes the column as a plain
float, so a single stopped or just started container decides over its whole window.
-/

namespace DockDoe

/-- One `insert_samples` call. -/
structure SampleCall where
  host : String
  tsMs : ℕ
  containers : List ContainerMetrics

/-- Every counter of the call fits SQLite's signed integers. -/
def SampleCall.InRange (call : SampleCall) : Prop :=
  call.tsMs < 2 ^ 63
  ∧ ∀ c ∈ call.containers,
      (∀ bytes ∈ c.memUsed, bytes < 2 ^ 63) ∧ ∀ bytes ∈ c.memLimit, bytes < 2 ^ 63

/-- Make the calls one after another. -/
def Store.insertAll (store : Store) (calls : List SampleCall) : Except SqlError Store :=
  calls.foldlM (fun state call => state.insertSamples call.host call.tsMs call.containers) store

/-- The live points of the call's samples of one container from `since` on. -/
def SampleCall.livePoints (host id : String) (since : ℕ) (call : SampleCall) : List MetricPoint :=
  if call.host = host ∧ since ≤ call.tsMs then
    (call.containers.filter (fun c => c.id = id)).map (livePoint call.tsMs)
  else
    []

/-- The seed query over the stored calls succeeds with the live points in time order. -/
def SeedsLiveChart (calls : List SampleCall) (host id : String) (since : ℕ) : Prop :=
  ∃ store points,
    Store.empty.insertAll calls = .ok store
    ∧ store.recentContainerSamples host id since = .ok points
    ∧ points.Pairwise (fun left right => left.tsMs ≤ right.tsMs)
    ∧ points.Perm (calls.flatMap (SampleCall.livePoints host id since))

/-- Every sample of the container that the stored bound `min since i64::MAX` selects has a
CPU value, and is not older than `since` itself.
-/
def SampleCall.Readable (host id : String) (since : ℕ) (call : SampleCall) : Prop :=
  call.host = host
  → min since i64Max ≤ call.tsMs
  → ∀ c ∈ call.containers, c.id = id → c.cpuPercent.isSome ∧ since ≤ call.tsMs

/-- The rows a call stores. -/
def SampleCall.rows (call : SampleCall) : List SampleRow :=
  call.containers.map (SampleRow.ofContainer call.host call.tsMs)

theorem Store.insertAll_eq (store : Store) (calls : List SampleCall)
    : store.insertAll calls
      = .ok {
          store with
          containerSample := store.containerSample ++ calls.flatMap SampleCall.rows
        } := by
  rw [insertAll, FallibleLists.foldlM_ok store calls
    (fun state call _ => state.insertSamples_eq call.host call.tsMs call.containers)]
  congr 1
  induction calls generalizing store with
  | nil => simp
  | cons call rest ih => simp [ih, SampleCall.rows]

/-- The rows a seed query selects, before they are ordered. -/
def seedRows (calls : List SampleCall) (host id : String) (since : ℕ) : List SampleRow :=
  (calls.flatMap SampleCall.rows).filter
    (fun row => row.host = host ∧ row.id = id ∧ toDb since ≤ row.tsMs)

/-- The rows of a seed are those stored for the containers of the calls that the query selects. -/
theorem mem_seedRows {calls : List SampleCall} {host id : String} {since : ℕ} {row : SampleRow}
    : row ∈ seedRows calls host id since
      ↔ ∃ call ∈ calls, ∃ c ∈ call.containers,
          row = .ofContainer call.host call.tsMs c
          ∧ call.host = host
          ∧ c.id = id
          ∧ toDb since ≤ toDb call.tsMs := by
  simp only [seedRows, List.mem_filter, List.mem_flatMap, SampleCall.rows, List.mem_map,
    decide_eq_true_eq]
  constructor
  · intro h
    rcases h with ⟨⟨call, inCalls, c, inCall, rfl⟩, selected⟩
    exact ⟨call, inCalls, c, inCall, rfl, selected⟩
  · intro h
    rcases h with ⟨call, inCalls, c, inCall, rfl, selected⟩
    exact ⟨⟨call, inCalls, c, inCall, rfl⟩, selected⟩

/-- The point a readable row converts to. -/
def SampleRow.point (row : SampleRow) : MetricPoint :=
  {
    tsMs := fromDb row.tsMs
    cpuPercent := row.cpuPercent.getD 0
    memUsed := row.memUsed.map fromDb
    netRx := row.netRx
    netTx := row.netTx
    diskRead := row.diskRead
    diskWrite := row.diskWrite
  }

/-- Storing a container of an in-range call and converting its row gives the live point, since
values below 2^63 survive the way through SQLite's integers.
-/
theorem point_ofContainer {call : SampleCall} (inRange : call.InRange) {c : ContainerMetrics}
    (member : c ∈ call.containers)
    : (SampleRow.ofContainer call.host call.tsMs c).point = livePoint call.tsMs c := by
  have tsInRange : call.tsMs ≤ i64Max := by
    have := inRange.1
    simp only [i64Max]
    omega
  have memSame : (c.memUsed.map toDb).map fromDb = c.memUsed := by
    cases used : c.memUsed with
    | none => rfl
    | some bytes =>
        have below := (inRange.2 c member).1 bytes used
        have bytesInRange : bytes ≤ i64Max := by
          simp only [i64Max]
          omega
        simp [fromDb_toDb bytesInRange]
  simp only [SampleRow.point, SampleRow.ofContainer, livePoint, fromDb_toDb tsInRange, memSame]

/-- The stored bound selects a call from the largest integer on, whatever `since` is. -/
theorem SampleCall.selected_iff {call : SampleCall} (inRange : call.InRange) {since : ℕ}
    : toDb since ≤ toDb call.tsMs ↔ min since i64Max ≤ call.tsMs := by
  have below := inRange.1
  simp only [toDb_eq_min, i64Max, Int.ofNat_le]
  omega

/-- The seed query orders the selected rows by time and converts each of them. -/
theorem seed_query_eq (calls : List SampleCall) (host id : String) (since : ℕ)
    : ∃ store,
        Store.empty.insertAll calls = .ok store
        ∧ store.recentContainerSamples host id since
          = ((seedRows calls host id since).insertionSort
              (fun left right => left.tsMs ≤ right.tsMs)).mapM
                (fun row => rowToPoint row.selectPoint) := by
  exact ⟨_, Store.insertAll_eq .empty calls, rfl⟩

/-- Converting in time order keeps the points in time order. -/
theorem points_sorted (rows : List SampleRow)
    : ((rows.insertionSort (fun left right => left.tsMs ≤ right.tsMs)).map
        SampleRow.point).Pairwise (fun left right => left.tsMs ≤ right.tsMs) := by
  rw [List.pairwise_map]
  have sorted :=
    List.pairwise_insertionSort (fun left right : SampleRow => left.tsMs ≤ right.tsMs) rows
  exact sorted.imp (fun le => Int.toNat_le_toNat le)

/-- A readable call's selected rows convert to exactly its live points.
Witness: when the stored bound selects the call but `since` itself does not, readability
leaves no container of that id in it.
-/
theorem SampleCall.selected_points {call : SampleCall} {host id : String} {since : ℕ}
    (inRange : call.InRange) (readable : call.Readable host id since)
    : (call.rows.filter
        (fun row => row.host = host ∧ row.id = id ∧ toDb since ≤ row.tsMs)).map SampleRow.point
      = call.livePoints host id since := by
  have points (kept : List ContainerMetrics) (sub : kept ⊆ call.containers)
      : (kept.map (SampleRow.ofContainer call.host call.tsMs)).map SampleRow.point
        = kept.map (livePoint call.tsMs) := by
    rw [List.map_map]
    exact List.map_congr_left (fun c member => point_ofContainer inRange (sub member))
  simp only [rows, List.filter_map, livePoints]
  rw [points _ (List.filter_sublist.subset)]
  split
  · rename_i wanted
    congr 1
    refine List.filter_congr (fun c _ => ?_)
    have bound : toDb since ≤ toDb call.tsMs := toDb_mono wanted.2
    exact decide_eq_decide.mpr
      ⟨fun selected => selected.2.1, fun sameId => ⟨wanted.1, sameId, bound⟩⟩
  · rename_i unwanted
    rw [List.map_eq_nil_iff, List.filter_eq_nil_iff]
    intro c member selected
    obtain ⟨sameHost, sameId, bound⟩
        : call.host = host ∧ c.id = id ∧ toDb since ≤ toDb call.tsMs :=
      of_decide_eq_true selected
    have chartable := readable sameHost ((selected_iff inRange).mp bound) c member sameId
    exact unwanted ⟨sameHost, chartable.2⟩

/-- Rows that all have a CPU value convert to their points. -/
theorem mapM_rowToPoint {rows : List SampleRow}
    (readable : ∀ row ∈ rows, row.cpuPercent.isSome)
    : rows.mapM (fun row => rowToPoint row.selectPoint) = .ok (rows.map SampleRow.point) := by
  refine FallibleLists.mapM_ok (fun row member => ?_)
  obtain ⟨cpu, present⟩ := Option.isSome_iff_exists.mp (readable row member)
  rw [rowToPoint_of_cpu_some present]
  simp [SampleRow.point, present]

/-- One row without a CPU value fails the conversion of all. -/
theorem mapM_rowToPoint_error {rows : List SampleRow} {row : SampleRow} (member : row ∈ rows)
    (absent : row.cpuPercent = none)
    : ∃ error, rows.mapM (fun row => rowToPoint row.selectPoint) = .error error :=
  FallibleLists.mapM_error member (rowToPoint_of_cpu_none absent)

/-- A live point of the window is not older than its start. -/
theorem tsMs_of_mem_livePoints {call : SampleCall} {host id : String} {since : ℕ}
    {point : MetricPoint} (member : point ∈ call.livePoints host id since)
    : since ≤ point.tsMs := by
  unfold SampleCall.livePoints at member
  split at member
  · rename_i wanted
    obtain ⟨c, _, rfl⟩ := List.mem_map.mp member
    exact wanted.2
  · exact absurd member List.not_mem_nil

/-- The seed agrees with the live chart exactly when the window it selects is readable.
Witness: one unreadable row fails the query or adds a point from before `since`; without
one every row converts to the live point of its sample.
-/
theorem seedsLiveChart_iff (calls : List SampleCall) (inRange : ∀ call ∈ calls, call.InRange)
    (host id : String) (since : ℕ)
    : SeedsLiveChart calls host id since ↔ ∀ call ∈ calls, call.Readable host id since := by
  obtain ⟨store, inserted, query⟩ := seed_query_eq calls host id since
  have sorting := List.perm_insertionSort
    (fun left right : SampleRow => left.tsMs ≤ right.tsMs) (seedRows calls host id since)
  constructor
  · intro h call member sameHost bound c inCall sameId
    rcases h with ⟨store', points, inserted', read, _, perm⟩
    obtain rfl : store = store' := Except.ok.inj (inserted.symm.trans inserted')
    rw [query] at read
    have selected := (SampleCall.selected_iff (inRange call member)).mpr bound
    have stored : SampleRow.ofContainer call.host call.tsMs c ∈ seedRows calls host id since :=
      mem_seedRows.mpr ⟨call, member, c, inCall, rfl, sameHost, sameId, selected⟩
    have readable : ∀ row ∈ seedRows calls host id since, row.cpuPercent.isSome := by
      intro row inRows
      rw [← Option.ne_none_iff_isSome]
      intro absent
      obtain ⟨error, failed⟩ := mapM_rowToPoint_error (sorting.mem_iff.mpr inRows) absent
      rw [failed] at read
      cases read
    refine ⟨readable _ stored, ?_⟩
    -- The row's point is one of the live points, all of which are recent enough.
    rw [mapM_rowToPoint (fun row inOrder => readable row (sorting.mem_iff.mp inOrder))] at read
    obtain rfl := Except.ok.inj read
    have among := perm.mem_iff.mp (List.mem_map.mpr
      ⟨_, sorting.mem_iff.mpr stored, point_ofContainer (inRange call member) inCall⟩)
    obtain ⟨other, _, live⟩ := List.mem_flatMap.mp among
    have recent := tsMs_of_mem_livePoints live
    exact recent
  · intro readable
    have present : ∀ row ∈ seedRows calls host id since, row.cpuPercent.isSome := by
      intro row inRows
      obtain ⟨call, member, c, inCall, rfl, sameHost, sameId, selected⟩ := mem_seedRows.mp inRows
      have bound := (SampleCall.selected_iff (inRange call member)).mp selected
      exact (readable call member sameHost bound c inCall sameId).1
    refine ⟨store, _, inserted, ?_, points_sorted (seedRows calls host id since), ?_⟩
    · rw [query, mapM_rowToPoint (fun row inOrder => present row (sorting.mem_iff.mp inOrder))]
    · refine (sorting.map SampleRow.point).trans (List.Perm.of_eq ?_)
      rw [seedRows, List.filter_flatMap, List.map_flatMap]
      exact List.flatMap_congr (fun call member =>
        SampleCall.selected_points (inRange call member) (readable call member))

/-- A container that reports memory but, right after its start, no CPU value yet. -/
private def startingContainer : ContainerMetrics :=
  {
    id := "b"
    name := "web"
    image := "img"
    state := .running
    status := "Up"
    health := .none
    stack := none
    cpuPercent := none
    memUsed := some 123
    memLimit := some 456
    netRxBps := none
    netTxBps := none
    diskReadBps := none
    diskWriteBps := none
    ports := []
  }

/-- The same container one cycle later. -/
private def startedContainer : ContainerMetrics :=
  { startingContainer with cpuPercent := some 2 }

private theorem inRange_started (cpu : Option ℚ)
    : (SampleCall.mk "local" 1000 [{ startingContainer with cpuPercent := cpu }]).InRange := by
  refine ⟨by norm_num, fun c member => ?_⟩
  obtain rfl := List.mem_singleton.mp member
  simp [startingContainer]

theorem seedsLiveChart_started
    : SeedsLiveChart [⟨"local", 1000, [startedContainer]⟩] "local" "b" 0 := by
  refine (seedsLiveChart_iff _ ?_ "local" "b" 0).mpr ?_
  · intro call member
    obtain rfl := List.mem_singleton.mp member
    exact inRange_started (some 2)
  · intro call member _ _ c inCall _
    obtain rfl := List.mem_singleton.mp member
    obtain rfl := List.mem_singleton.mp inCall
    exact ⟨rfl, Nat.zero_le _⟩

/-- One container without a CPU value fails the seed query of its window. -/
theorem starting_container_fails_seed
    : (∀ call ∈ [SampleCall.mk "local" 1000 [startingContainer]], call.InRange)
      ∧ ¬ SeedsLiveChart [⟨"local", 1000, [startingContainer]⟩] "local" "b" 0 := by
  constructor
  · intro call member
    obtain rfl := List.mem_singleton.mp member
    exact inRange_started none
  · intro h
    rcases h with ⟨store, points, inserted, read, _⟩
    rw [Store.insertAll_eq] at inserted
    obtain rfl := Except.ok.inj inserted
    have failed
        : Store.recentContainerSamples
            { Store.empty with
              containerSample := [SampleRow.ofContainer "local" 1000 startingContainer] }
            "local" "b" 0
          = .error (.invalidColumnType 1) := by
      decide
    exact absurd (failed.symm.trans read) (by simp)

end DockDoe
