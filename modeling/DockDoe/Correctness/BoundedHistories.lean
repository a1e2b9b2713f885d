import DockDoe.Correctness.CollectedHistories
import DockDoe.Correctness.RawWindows
import DockDoe.Model.HistoryResponses

/-! History responses are bounded, whatever the tables hold and whatever window is asked for.
A window of so many groups straddles at most one group more, and a group that has rows makes
exactly one point.
-/

namespace DockDoe

/-- The rows of a window as points: no more than a limit, on group borders, in strictly
ascending order, and each row is aggregated into exactly one point.
-/
structure Downsamples {ρ : Type} (start : ρ → ℤ) (summary : List ρ → Metric → EnvelopeColumns)
    (rows : List ρ) (groupMs limit : ℕ) (points : List HistoryPoint)
    : Prop where
  bounded : points.length ≤ limit
  aligned : ∀ point ∈ points, groupMs ∣ point.tsMs
  ascending : points.Pairwise (fun earlier later => earlier.tsMs < later.tsMs)
  aggregated
    : ∃ parts : List (List ρ),
        parts.flatten.Perm rows
        ∧ List.Forall₂ (fun part point =>
            part ≠ []
            ∧ (∀ row ∈ part, point.tsMs ≤ start row ∧ start row < point.tsMs + groupMs)
            ∧ point.columns = summary part) parts points

/-- The group borders of stored times, by division without remainder. -/
theorem historyBucket_natCast {groupMs : ℕ} (positive : 0 < groupMs) (fits : groupMs ≤ i64Max)
    (position : ℕ)
    : historyBucket (historyWidth groupMs) position = (position / groupMs * groupMs : ℕ) := by
  rw [historyBucket, historyWidth, max_eq_left positive, toDb_of_le fits, Nat.cast_mul,
    Int.ofNat_tdiv]

section Windows

variable {ρ : Type} {start : ρ → ℤ} {rows : List ρ} {sinceMs untilMs groupMs widths : ℕ}

/-- Grouping the rows of a window by its group borders downsamples them.
Witness: the borders are natural multiples of the group, so reading them keeps their order.
-/
theorem downsamples_groups (positive : 0 < groupMs) (fits : groupMs ≤ i64Max)
    (short : untilMs - sinceMs ≤ widths * groupMs)
    (inWindow : ∀ row ∈ rows, toDb sinceMs ≤ start row ∧ start row ≤ toDb untilMs)
    (summary : List ρ → Metric → EnvelopeColumns)
    : Downsamples start summary rows groupMs (widths + 1)
        ((KeyedFolds.keysOf (fun row => historyBucket (historyWidth groupMs) (start row)) rows).map
          (fun border => {
            tsMs := fromDb border
            columns := summary (KeyedFolds.under
              (fun row => historyBucket (historyWidth groupMs) (start row)) border rows)
          })) := by
  let key (row : ρ) : ℤ := historyBucket (historyWidth groupMs) (start row)
  have border {row : ρ} (member : row ∈ rows)
      : ∃ position : ℕ, start row = position
        ∧ key row = (position / groupMs * groupMs : ℕ) := by
    obtain ⟨position, same⟩ :=
      Int.eq_ofNat_of_zero_le ((toDb_nonneg sinceMs).trans (inWindow row member).1)
    refine ⟨position, same, ?_⟩
    change historyBucket _ (start row) = _
    rw [same]
    exact historyBucket_natCast positive fits position
  have multiple {k : ℤ} (occurs : k ∈ KeyedFolds.keysOf key rows)
      : ∃ quotient : ℕ, k = (quotient * groupMs : ℕ) := by
    obtain ⟨row, member, rfl⟩ := KeyedFolds.mem_keysOf_iff.mp occurs
    obtain ⟨position, _, same⟩ := border member
    exact ⟨position / groupMs, same⟩
  have ascending := KeyedFolds.keysOf_ascending key rows
  refine ⟨?_, ?_, ?_, (KeyedFolds.keysOf key rows).map (fun k => KeyedFolds.under key k rows),
    ?_, ?_⟩
  · have shorter : toDb untilMs ≤ toDb sinceMs + (untilMs - sinceMs : ℕ) := by
      simp only [toDb_eq_min]
      omega
    have within : toDb untilMs ≤ toDb sinceMs + widths * groupMs :=
      shorter.trans (by exact_mod_cast Int.add_le_add_left (by exact_mod_cast short) _)
    rw [List.length_map]
    refine Downsampling.length_borders_le (by exact_mod_cast positive) within ascending
      (fun k occurs => ?_)
    obtain ⟨row, member, rfl⟩ := KeyedFolds.mem_keysOf_iff.mp occurs
    obtain ⟨position, same, ofKey⟩ := border member
    refine ⟨position, same ▸ inWindow row member, Eq.trans ?_ ofKey.symm⟩
    push_cast
    rfl
  · intro point member
    obtain ⟨k, occurs, rfl⟩ := List.mem_map.mp member
    obtain ⟨quotient, rfl⟩ := multiple occurs
    exact Dvd.intro_left quotient rfl
  · refine List.pairwise_map.mpr (ascending.imp_of_mem (fun {k k'} occurs occurs' less => ?_))
    obtain ⟨quotient, rfl⟩ := multiple occurs
    obtain ⟨quotient', rfl⟩ := multiple occurs'
    exact_mod_cast less
  · have distinct : (KeyedFolds.keysOf key rows).Nodup :=
      ascending.imp (fun less => ne_of_lt less)
    rw [← List.flatMap_def]
    refine (KeyedFolds.flatMap_under_perm key rows distinct).trans
      (.of_eq (List.filter_eq_self.mpr (fun row member => ?_)))
    exact decide_eq_true (KeyedFolds.mem_keysOf_iff.mpr ⟨row, member, rfl⟩)
  · rw [List.forall₂_map_left_iff, List.forall₂_map_right_iff, List.forall₂_same]
    intro k occurs
    obtain ⟨row, member, own⟩ := KeyedFolds.mem_keysOf_iff.mp occurs
    refine ⟨List.ne_nil_of_mem (KeyedFolds.mem_under_iff.mpr ⟨member, own⟩), ?_, rfl⟩
    intro row inPart
    obtain ⟨inRows, rfl⟩ := KeyedFolds.mem_under_iff.mp inPart
    obtain ⟨position, same, ofKey⟩ := border inRows
    have quotient := Nat.div_add_mod' position groupMs
    have remainder := Nat.mod_lt position positive
    change (fromDb (key row) : ℤ) ≤ start row ∧ start row < fromDb (key row) + groupMs
    rw [same, ofKey]
    change ((position / groupMs * groupMs : ℕ) : ℤ) ≤ position
      ∧ (position : ℤ) < (position / groupMs * groupMs : ℕ) + groupMs
    omega

end Windows

-----------------------------------------------------------------------------------------
-- The groups of a window
-----------------------------------------------------------------------------------------

/-- A window is at most 1441 of its groups long. -/
theorem groupForWindow_spec (windowMs : ℕ)
    : 0 < groupForWindow windowMs ∧ windowMs ≤ 1441 * groupForWindow windowMs := by
  unfold groupForWindow targetPoints
  omega

theorem groupForWindow_fits {windowMs : ℕ} (inRange : windowMs < 2 ^ 64)
    : groupForWindow windowMs ≤ i64Max := by
  unfold groupForWindow targetPoints i64Max
  omega

/-- A window is at most 2879 of its raw groups long; it comes close to that where a group is
still a millisecond.
-/
theorem rawGroupForWindow_spec (windowMs : ℕ)
    : 0 < rawGroupForWindow windowMs ∧ windowMs ≤ 2879 * rawGroupForWindow windowMs := by
  unfold rawGroupForWindow targetPoints
  omega

theorem rawGroupForWindow_fits {windowMs : ℕ} (inRange : windowMs < 2 ^ 64)
    : rawGroupForWindow windowMs ≤ i64Max := by
  unfold rawGroupForWindow targetPoints i64Max
  omega

-----------------------------------------------------------------------------------------
-- The responses
-----------------------------------------------------------------------------------------

/-- The trend rows of a stack in a window. -/
def stackWindow (host stack : String) (sinceMs untilMs : ℕ) (table : TrendTable)
    : List (StoredKey × TrendRow) :=
  table.toList.filter (fun entry =>
    entry.1.host = host
    ∧ entry.2.stack = some stack
    ∧ entry.1.bucketStartMs ≥ toDb sinceMs
    ∧ entry.1.bucketStartMs ≤ toDb untilMs)

/-- What a point says about its samples. -/
def summarySamples (part : List SampleRow) (metric : Metric) : EnvelopeColumns :=
  .ofValues (part.map (fun row => row.metric? metric))

/-- What a point says about its trend rows. -/
def summaryTrends (part : List (StoredKey × TrendRow)) (metric : Metric) : EnvelopeColumns :=
  .aggregate (part.map (fun entry => entry.2.columns metric))

/-- What a point says about the trend rows of a stack: its members are summed per bucket
before the buckets are aggregated.
-/
def summaryMembers (part : List (StoredKey × TrendRow)) (metric : Metric) : EnvelopeColumns :=
  .aggregate ((KeyedFolds.groups (fun entry => entry.1.bucketStartMs) part).map (fun bucket =>
    .sum (bucket.2.map (fun entry => entry.2.columns metric))))

/-- A stack's history groups its rows directly, each group summed per bucket first: grouping by
group and then by bucket is grouping by both.
-/
theorem historyStack_eq (store : Store) (host stack : String) (sinceMs untilMs groupMs : ℕ)
    : store.historyStack host stack sinceMs untilMs groupMs
      = .ok ((KeyedFolds.keysOf
            (fun entry : StoredKey × TrendRow =>
              historyBucket (historyWidth groupMs) entry.1.bucketStartMs)
            (stackWindow host stack sinceMs untilMs store.containerTrend)).map
          (fun border => {
            tsMs := fromDb border
            columns := summaryMembers (KeyedFolds.under
              (fun entry => historyBucket (historyWidth groupMs) entry.1.bucketStartMs) border
              (stackWindow host stack sinceMs untilMs store.containerTrend))
          })) := by
  refine (FallibleLists.mapM_ok
    (fun group _ => historyRowToPoint_selectHistory group.1 _)).trans ?_
  have nested := KeyedFolds.groups_groups
    (fun entry : StoredKey × TrendRow => entry.1.bucketStartMs)
    (historyBucket (historyWidth groupMs))
    (fun bucket metric => EnvelopeColumns.sum (bucket.map (fun entry => entry.2.columns metric)))
    (stackWindow host stack sinceMs untilMs store.containerTrend)
  change Except.ok (List.map _ (KeyedFolds.groups _ (List.map _ (KeyedFolds.groups _
    (stackWindow host stack sinceMs untilMs store.containerTrend))))) = _
  rw [nested, KeyedFolds.groups_eq_map, List.map_map, List.map_map]
  refine congrArg Except.ok (List.map_congr_left (fun border _ => ?_))
  simp only [Function.comp_apply, List.map_map]
  rfl

/-- A window over 64-bit times is shorter than their range, by the cases of what the query names. -/
theorem window_inRange {q : HistoryQuery} {seedWindow : Duration} {now : ℕ} {w : HistoryWindow}
    (clock : now < 2 ^ 64) (inRange : ∀ untilMs ∈ q.untilMs, untilMs < 2 ^ 64)
    (resolved : resolveHistory q seedWindow now = some w)
    : w.untilMs - w.sinceMs < 2 ^ 64 ∧ w.groupMs = groupForWindow (w.untilMs - w.sinceMs) := by
  obtain ⟨⟨sinceMs, untilMs⟩, bounds, rfl⟩ := Option.map_eq_some_iff.mp resolved
  refine ⟨?_, rfl⟩
  change untilMs - sinceMs < 2 ^ 64
  have ends : untilMs < 2 ^ 64 := by
    unfold HistoryQuery.bounds at bounds
    split at bounds
    · obtain ⟨_, _, same⟩ := Option.map_eq_some_iff.mp bounds
      cases same
      exact clock
    · rename_i custom
      split at bounds
      · cases bounds
        exact inRange untilMs custom
      · cases bounds
    · cases bounds
  omega

/-- A history response has at most 1442 points from trends and at most 2880 from raw samples,
and downsamples the rows of its window.
Witness: a window is at most 1441 trend groups or 2879 raw groups long.
-/
theorem responses_bounded (store : Store) (snapshot : Option Snapshot) (host : String)
    {q : HistoryQuery} {seedWindow : Duration} {now : ℕ} {w : HistoryWindow}
    (clock : now < 2 ^ 64) (inRange : ∀ untilMs ∈ q.untilMs, untilMs < 2 ^ 64)
    (resolved : resolveHistory q seedWindow now = some w)
    : (w.raw = true →
          ∀ id, ∃ points,
            store.containerResponse snapshot host id q seedWindow now = some points
            ∧ Downsamples SampleRow.tsMs summarySamples
                (sampleWindow host id w.sinceMs w.untilMs store.containerSample)
                (rawGroupForWindow (w.untilMs - w.sinceMs)) 2880 points)
      ∧ (w.raw = false →
          ∀ id name, store.trendName snapshot host id = some name →
            ∃ points,
              store.containerResponse snapshot host id q seedWindow now = some points
              ∧ Downsamples (fun entry => entry.1.bucketStartMs) summaryTrends
                  (trendWindow host name w.sinceMs w.untilMs store.containerTrend)
                  w.groupMs 1442 points)
      ∧ (w.raw = false →
          ∀ id, store.trendName snapshot host id = none →
            store.containerResponse snapshot host id q seedWindow now = some [])
      ∧ ∀ stack, ∃ points,
          store.stackResponse host stack q seedWindow now = some points
          ∧ Downsamples (fun entry => entry.1.bucketStartMs) summaryMembers
              (stackWindow host stack w.sinceMs w.untilMs store.containerTrend)
              w.groupMs 1442 points := by
  obtain ⟨short, group⟩ := window_inRange clock inRange resolved
  obtain ⟨rawPositive, rawWidths⟩ := rawGroupForWindow_spec (w.untilMs - w.sinceMs)
  obtain ⟨positive, widths⟩ := groupForWindow_spec (w.untilMs - w.sinceMs)
  have fits := groupForWindow_fits short
  rw [← group] at positive widths fits
  refine ⟨?_, ?_, ?_, ?_⟩
  · intro raw id
    refine ⟨_, ?_, downsamples_groups rawPositive (rawGroupForWindow_fits short) rawWidths
      (fun row member => ?_) summarySamples⟩
    · rw [Store.containerResponse, resolved, Option.map_some, if_pos raw]
      exact congrArg (fun loaded => some (fetchPoints loaded))
        (historyContainerRaw_eq store host id w.sinceMs w.untilMs _)
    · exact (of_decide_eq_true (List.mem_filter.mp member).2).2.2
  · intro trends id name named
    refine ⟨_, ?_, downsamples_groups positive fits widths (fun row member => ?_) summaryTrends⟩
    · rw [Store.containerResponse, resolved, Option.map_some, if_neg (by simp [trends]), named]
      exact congrArg (fun loaded => some (fetchPoints loaded))
        (historyContainer_eq store host name w.sinceMs w.untilMs w.groupMs)
    · exact (of_decide_eq_true (List.mem_filter.mp member).2).2.2
  · intro trends id unnamed
    rw [Store.containerResponse, resolved, Option.map_some, if_neg (by simp [trends]), unnamed]
    rfl
  · intro stack
    refine ⟨_, ?_, downsamples_groups positive fits widths (fun row member => ?_) summaryMembers⟩
    · rw [Store.stackResponse, resolved, Option.map_some, historyStack_eq]
      rfl
    · exact (of_decide_eq_true (List.mem_filter.mp member).2).2.2

/-- The last sixteen minutes come from the samples, the day from the trends, by what the two
queries resolve to.
-/
theorem responses_bounded_day
    : (∃ points,
          hourlyStart.store.containerResponse none "local" "a"
              { range := none, sinceMs := some 9000000, untilMs := some 10000000 }
              (.fromSecs 3600) 10000000
            = some points
          ∧ Downsamples SampleRow.tsMs summarySamples
              (sampleWindow "local" "a" 9000000 10000000 hourlyStart.store.containerSample)
              694 2880 points)
      ∧ ∃ points,
          hourlyStart.store.stackResponse "local" "shop"
              { range := some "24h".toList, sinceMs := none, untilMs := none }
              (.fromSecs 3600) 86400000
            = some points
          ∧ Downsamples (fun entry => entry.1.bucketStartMs) summaryMembers
              (stackWindow "local" "shop" 0 86400000 hourlyStart.store.containerTrend)
              60000 1442 points := by
  constructor
  · have resolved
        : resolveHistory { range := none, sinceMs := some 9000000, untilMs := some 10000000 }
            (.fromSecs 3600) 10000000
          = some { sinceMs := 9000000, untilMs := 10000000, groupMs := 60000, raw := true } :=
      rfl
    exact (responses_bounded hourlyStart.store none "local" (by decide) (by decide) resolved).1
      rfl "a"
  · have resolved
        : resolveHistory { range := some "24h".toList, sinceMs := none, untilMs := none }
            (.fromSecs 3600) 86400000
          = some { sinceMs := 0, untilMs := 86400000, groupMs := 60000, raw := false } :=
      rfl
    exact (responses_bounded hourlyStart.store none "local" (by decide) (by decide)
      resolved).2.2.2 "shop"

end DockDoe
