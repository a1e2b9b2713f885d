import DockDoe.Correctness.LegacyPivots
import DockDoe.Foundations.Tilings

/-! The chunks in which the long trend table is read. They lie end to end, so a loop that
returns has read every row once; it returns unless a bucket starts at the largest integer.
-/

namespace DockDoe

open Nullable Tilings

/-- The chunks that the loop executes in at most `fuel` rounds, the one that fails included. -/
def executedChunks (legacy : List LegacyTrend) (last : ℤ)
    : ℕ → ℤ → TrendTable → List (ℤ × ℤ)
  | 0, _, _ => []
  | fuel + 1, lower, table =>
      if lower ≤ last then
        let upper := saturatingAdd lower migrationChunkMs
        match pivotChunk legacy lower upper table with
        | .error _ => [(lower, upper)]
        | .ok table => (lower, upper) :: executedChunks legacy last fuel upper table
      else
        []

/-- The chunks that the migration of a long table executes in at most `fuel` rounds. -/
def migrationChunks (fuel : ℕ) (legacy : List LegacyTrend) : List (ℤ × ℤ) :=
  let first := minAgg (legacy.map (fun row => some row.bucketStartMs))
  let last := maxAgg (legacy.map (fun row => some row.bucketStartMs))
  match first, last with
  | some first, some last => executedChunks legacy last fuel first ∅
  | _, _ => []

/-- The chunk loop terminates, and every legacy row lies in exactly one executed chunk. -/
def ReadsAllOnce (legacy : List LegacyTrend) : Prop :=
  ∃ fuel,
    (migrateTrendLayout fuel (.long legacy)).isSome = true
    ∧ ∀ row ∈ legacy,
      (migrationChunks fuel legacy).countP
          (fun chunk => chunk.1 ≤ row.bucketStartMs ∧ row.bucketStartMs < chunk.2)
        = 1

variable {legacy : List LegacyTrend} {last lower : ℤ} {table : TrendTable} {fuel : ℕ}

/-- No chunk is executed beyond the last start. -/
theorem executedChunks_done (beyond : last < lower)
    : executedChunks legacy last fuel lower table = [] := by
  cases fuel with
  | zero => rfl
  | succ fuel => rw [executedChunks, if_neg (by omega)]

/-- The executed chunks lie end to end, from the first start to beyond the last one, by induction
on the rounds.
-/
theorem tiles_executedChunks {result : Except SqlError TrendTable}
    (below : PivotedBelow legacy lower table)
    (ran : pivotChunks legacy last fuel lower table = some result)
    : ∃ bound, last < bound ∧ Tiles lower (executedChunks legacy last fuel lower table) bound := by
  induction fuel generalizing lower table with
  | zero =>
      rcases pivotChunks_cases below ran with ⟨beyond, _⟩ | ⟨_, _, more, _⟩
      · exact ⟨lower, beyond, .nil lower⟩
      · cases more
  | succ fuel ih =>
      rcases pivotChunks_cases below ran with
        ⟨beyond, _⟩ | ⟨fewer, next, more, reached, advances, chunk, later, ranRest⟩
      · rw [executedChunks_done beyond]
        exact ⟨lower, beyond, .nil lower⟩
      · cases more
        obtain ⟨bound, beyond, tiles⟩ := ih later ranRest
        refine ⟨bound, beyond, ?_⟩
        rw [executedChunks, if_pos reached]
        simp only [chunk]
        exact .cons advances tiles

/-- With a last start at the top of the range the loop never returns, by induction on the rounds:
the saturated cursor does not pass it.
-/
theorem pivotChunks_hangs (below : PivotedBelow legacy lower table) (top : i64Max ≤ last)
    (reached : lower ≤ last) (fuel : ℕ)
    : pivotChunks legacy last fuel lower table = none := by
  induction fuel generalizing lower table with
  | zero => rw [pivotChunks, if_pos reached]
  | succ fuel ih =>
      by_cases inRange : lower < i64Max
      · obtain ⟨next, chunk, later⟩ := pivotChunk_spec below (le_saturatingAdd inRange).1.le
        have saturated : saturatingAdd lower migrationChunkMs ≤ last := by
          unfold saturatingAdd i64Max at *
          omega
        rw [pivotChunks_step reached chunk]
        exact ih later saturated
      · exact pivotChunks_stuck table (by omega) reached (fuel + 1)

/-- The chunks of a nonempty table are those of the loop from its first to its last start. -/
theorem migrationChunks_eq {first : ℤ}
    (least : minAgg (legacy.map (fun row => some row.bucketStartMs)) = some first)
    (greatest : maxAgg (legacy.map (fun row => some row.bucketStartMs)) = some last) (fuel : ℕ)
    : migrationChunks fuel legacy = executedChunks legacy last fuel first ∅ := by
  unfold migrationChunks
  simp only [least, greatest]

/-- A migration that returns has read every row in exactly one chunk, for its chunks tile the
span of the starts.
-/
theorem countP_migrationChunks
    (returned : (migrateTrendLayout fuel (.long legacy)).isSome = true)
    {row : LegacyTrend} (member : row ∈ legacy)
    : (migrationChunks fuel legacy).countP
          (fun chunk => chunk.1 ≤ row.bucketStartMs ∧ row.bucketStartMs < chunk.2)
        = 1 := by
  cases legacy with
  | nil => cases member
  | cons head rest =>
      obtain ⟨first, last, least, greatest, loop⟩ := migrateTrendLayout_cons head rest
      rw [loop] at returned
      obtain ⟨result, ran⟩ := Option.isSome_iff_exists.mp returned
      obtain ⟨bound, beyond, tiles⟩ := tiles_executedChunks (pivotedBelow_first least) ran
      have started := first_le_start least member
      have ended := start_le_last greatest member
      rw [migrationChunks_eq least greatest]
      exact (tiles.countP_within row.bucketStartMs).trans (if_pos ⟨started, by omega⟩)

/-- A migration with a bucket start at the top of the range never returns, as the last start is
there too.
-/
theorem migrateTrendLayout_hangs {row : LegacyTrend} (member : row ∈ legacy)
    (top : i64Max ≤ row.bucketStartMs) (fuel : ℕ)
    : migrateTrendLayout fuel (.long legacy) = none := by
  cases legacy with
  | nil => cases member
  | cons head rest =>
      obtain ⟨first, last, least, greatest, loop⟩ := migrateTrendLayout_cons head rest
      have started := first_le_start least member
      have ended := start_le_last greatest member
      rw [loop]
      exact pivotChunks_hangs (pivotedBelow_first least) (top.trans ended)
        (started.trans ended) fuel

/-- No chunk ends beyond the top of the range, so none holds a start there, by induction on the
rounds.
-/
theorem le_of_mem_executedChunks {chunk : ℤ × ℤ}
    (member : chunk ∈ executedChunks legacy last fuel lower table)
    : chunk.2 ≤ i64Max := by
  induction fuel generalizing lower table with
  | zero => cases member
  | succ fuel ih =>
      have saturated : saturatingAdd lower migrationChunkMs ≤ i64Max := by
        unfold saturatingAdd i64Max
        omega
      by_cases reached : lower ≤ last
      · rw [executedChunks, if_pos reached] at member
        cases ran : pivotChunk legacy lower (saturatingAdd lower migrationChunkMs) table with
        | error error =>
            simp only [ran, List.mem_singleton] at member
            rw [member]
            exact saturated
        | ok next =>
            simp only [ran, List.mem_cons] at member
            rcases member with rfl | later
            · exact saturated
            · exact ih later
      · rw [executedChunks, if_neg reached] at member
        cases member

/-- The migration ends and reads every row in one chunk exactly when no bucket starts at the
largest integer. Witness: below it, the cursor moves on by an hour a round or passes the last
start; at it, the saturated cursor stands still.
-/
theorem readsAllOnce_iff (legacy : List LegacyTrend)
    : ReadsAllOnce legacy ↔ ∀ row ∈ legacy, row.bucketStartMs < i64Max := by
  constructor
  · intro reads row member
    obtain ⟨fuel, returned, _⟩ := reads
    by_contra top
    rw [migrateTrendLayout_hangs member (by omega)] at returned
    cases returned
  · intro inRange
    obtain ⟨rounds, returns⟩ := migrateTrendLayout_returns inRange
    have returned := returns rounds le_rfl
    exact ⟨rounds, returned, fun row member => countP_migrationChunks returned member⟩

/-- A legacy row whose bucket start did not fit into the column. -/
def saturatedTrend : LegacyTrend :=
  {
    bucketStartMs := toDb (2 ^ 63)
    bucketSecs := 60
    host := "local"
    id := "c1"
    name := "web"
    stack := none
    metric := "cpu_percent"
    min := 0
    max := 0
    median := 0
    samples := 1
  }

/-- The migration of the row takes more rounds than any number, and no chunk holds it, as no
chunk ends beyond its start.
-/
theorem saturatedTrend_hangs
    : ¬ ReadsAllOnce [saturatedTrend]
      ∧ ∀ fuel,
        migrateTrendLayout fuel (.long [saturatedTrend]) = none
        ∧ ∀ chunk ∈ migrationChunks fuel [saturatedTrend],
          ¬ (chunk.1 ≤ saturatedTrend.bucketStartMs
            ∧ saturatedTrend.bucketStartMs < chunk.2) := by
  have top : i64Max ≤ saturatedTrend.bucketStartMs := by decide
  have hangs := migrateTrendLayout_hangs (List.mem_singleton_self saturatedTrend) top
  refine ⟨?_, fun fuel => ⟨hangs fuel, fun chunk member within => ?_⟩⟩
  · intro reads
    obtain ⟨fuel, returned, _⟩ := reads
    rw [hangs fuel] at returned
    cases returned
  · have := le_of_mem_executedChunks ((migrationChunks_eq rfl rfl fuel).subst member)
    omega

end DockDoe
