import DockDoe.Correctness.PivotedEnvelopes
import DockDoe.Model.Migration

/-! What pivoting the long trend table leaves: one row per key, made of all legacy rows of
that key, whatever chunk they were read in.
-/

namespace DockDoe

open Nullable

/-- The rollup that a legacy row stores. -/
def LegacyTrend.rollup (row : LegacyTrend) : ContainerTrend :=
  {
    bucketStartMs := fromDb row.bucketStartMs
    bucketSecs := fromDb row.bucketSecs
    host := row.host
    id := row.id
    name := row.name
    stack := row.stack
    metric := row.metric
    min := row.min
    max := row.max
    median := row.median
    samples := fromDb row.samples
  }

/-- The rollups of one metric in a group of legacy rows. -/
def legacyOfMetric (metric : Metric) (group : List LegacyTrend) : List ContainerTrend :=
  (group.filter (fun row => row.metric = metric.asStr)).map LegacyTrend.rollup

/-- The values of a `CASE` over a metric are those of the metric's rows, by induction on the
group.
-/
theorem reduceOption_caseMetric (metric : Metric) (value : LegacyTrend → ℚ)
    (group : List LegacyTrend)
    : (caseMetric metric value group).reduceOption
      = (group.filter (fun row => row.metric = metric.asStr)).map value := by
  induction group with
  | nil => rfl
  | cons row rest ih =>
      rw [caseMetric, List.map_cons]
      by_cases own : row.metric = metric.asStr
      · rw [if_pos own, List.reduceOption_cons_of_some,
          List.filter_cons_of_pos (by simpa using own), List.map_cons, ← ih]
        rfl
      · rw [if_neg own, List.reduceOption_cons_of_none,
          List.filter_cons_of_neg (by simpa using own), ← ih]
        rfl

/-- A sum of a metric's values is NULL without rows of the metric. -/
theorem sumAgg_caseMetric (metric : Metric) (value : LegacyTrend → ℚ) (group : List LegacyTrend)
    : sumAgg (caseMetric metric value group)
      = if legacyOfMetric metric group = [] then none
        else some ((group.filter (fun row => row.metric = metric.asStr)).map value).sum := by
  rw [sumAgg, reduceOption_caseMetric]
  simp [legacyOfMetric]

theorem cast_samples_rollup {row : LegacyTrend} (positive : 1 ≤ row.samples)
    : ((row.rollup.samples : ℕ) : ℚ) = row.samples := by
  have same : ((row.samples.toNat : ℕ) : ℤ) = row.samples := Int.toNat_of_nonneg (by omega)
  exact_mod_cast congrArg (fun samples : ℤ => (samples : ℚ)) same

theorem positive_legacyOfMetric {group : List LegacyTrend} {metric : Metric}
    (positive : ∀ row ∈ group, 1 ≤ row.samples)
    : ∀ t ∈ legacyOfMetric metric group, 1 ≤ t.samples := by
  intro t member
  obtain ⟨row, own, rfl⟩ := List.mem_map.mp member
  have := positive row (List.mem_of_mem_filter own)
  change 1 ≤ row.samples.toNat
  omega

/-- The quotient of the sums is the merged envelope's median: the sum over nothing is NULL, and
any other is a positive count of samples.
-/
theorem median_ofLegacy {group : List LegacyTrend} {metric : Metric}
    (positive : ∀ row ∈ group, 1 ≤ row.samples)
    (small : totalSamples (legacyOfMetric metric group) < 2 ^ 32)
    : quotient (sumAgg (caseMetric metric (fun row => row.median * row.samples) group))
          (sumAgg (caseMetric metric (fun row => row.samples) group))
        = (Envelope.ofRollups (legacyOfMetric metric group)).map Envelope.median := by
  rw [sumAgg_caseMetric, sumAgg_caseMetric]
  by_cases absent : legacyOfMetric metric group = []
  · rw [if_pos absent, if_pos absent, absent]
    rfl
  have rollupPositive : ∀ t ∈ legacyOfMetric metric group, 1 ≤ t.samples :=
    positive_legacyOfMetric positive
  have total := totalSamples_pos absent rollupPositive
  obtain ⟨envelope, merged⟩ :=
    Option.ne_none_iff_exists'.mp (absent ∘ Envelope.ofRollups_eq_none_iff.mp)
  have median := Envelope.median_ofRollups rollupPositive small merged
  have cast (row : LegacyTrend)
      (member : row ∈ group.filter (fun row => row.metric = metric.asStr))
      : (row.samples : ℚ) = row.rollup.samples :=
    (cast_samples_rollup (positive row (List.mem_of_mem_filter member))).symm
  have weights
      : (group.filter (fun row => row.metric = metric.asStr)).map (fun row => (row.samples : ℚ))
        = (legacyOfMetric metric group).map (fun t => (t.samples : ℚ)) := by
    rw [legacyOfMetric, List.map_map]
    exact List.map_congr_left cast
  have products
      : (group.filter (fun row => row.metric = metric.asStr)).map
          (fun row => row.median * (row.samples : ℚ))
        = (legacyOfMetric metric group).map (fun t => t.median * (t.samples : ℚ)) := by
    rw [legacyOfMetric, List.map_map]
    exact List.map_congr_left (fun row member => congrArg (row.median * ·) (cast row member))
  have nonzero : ((legacyOfMetric metric group).map (fun t => (t.samples : ℚ))).sum ≠ 0 := by
    rw [sum_samples_cast]
    exact_mod_cast total.ne'
  rw [if_neg absent, if_neg absent, weights, products, merged, Option.map_some, median]
  simp [quotient, nonzero, weightedMedian, WeightedMeans.mean]

/-- The selected columns are those of the envelope that the group's rollups merge into.
Witness: the quotient of the sums is the weighted mean of the medians.
-/
theorem EnvelopeColumns.ofLegacy_eq {group : List LegacyTrend} (metric : Metric)
    (positive : ∀ row ∈ group, 1 ≤ row.samples)
    (small : totalSamples (legacyOfMetric metric group) < 2 ^ 32)
    : ofLegacy metric group = .ofEnvelope (Envelope.ofRollups (legacyOfMetric metric group)) := by
  obtain ⟨least, greatest⟩ := Envelope.extremes_ofRollups (legacyOfMetric metric group)
  have column (value : ContainerTrend → ℚ)
      : (caseMetric metric (fun row => value row.rollup) group).reduceOption
        = ((legacyOfMetric metric group).map (fun t => some (value t))).reduceOption := by
    have apart
        : (legacyOfMetric metric group).map (fun t => some (value t))
          = ((legacyOfMetric metric group).map value).map some := by
      rw [List.map_map]
      rfl
    rw [apart, reduceOption_map_some, reduceOption_caseMetric, legacyOfMetric, List.map_map]
    rfl
  have sameMin
      : minAgg (caseMetric metric (fun row => row.min) group)
        = minAgg ((legacyOfMetric metric group).map (fun t => some t.min)) :=
    congrArg List.min? (column ContainerTrend.min)
  have sameMax
      : maxAgg (caseMetric metric (fun row => row.max) group)
        = maxAgg ((legacyOfMetric metric group).map (fun t => some t.max)) :=
    congrArg List.max? (column ContainerTrend.max)
  rw [ofLegacy, ofEnvelope, least, greatest, sameMin, sameMax, median_ofLegacy positive small]

/-- The row of a group, spelled out: a group has one as soon as it is not empty. -/
structure PivotRow (group : List LegacyTrend) (row : TrendRow) : Prop where
  bucketSecs : maxAgg (group.map (fun row => some row.bucketSecs)) = some row.bucketSecs
  id : maxAgg (group.map (fun row => some row.id)) = some row.id
  stack : row.stack = maxAgg (group.map (fun row => row.stack))
  samples : maxAgg (group.map (fun row => some row.samples)) = some row.samples
  columns : ∀ metric, row.columns metric = .ofLegacy metric group

theorem notNull_eq_ok_iff {α : Type} {value : Option α} {found : α}
    : notNull value = .ok found ↔ value = some found := by
  cases value <;> simp [notNull]

/-- A group becomes the row of its aggregates, if the columns that must not be NULL are not. -/
theorem ofLegacy_eq_ok_iff {group : List LegacyTrend} {row : TrendRow}
    : TrendRow.ofLegacy group = .ok row ↔ PivotRow group row := by
  unfold TrendRow.ofLegacy
  simp only [FallibleLists.bind_eq_ok_iff, notNull_eq_ok_iff]
  constructor
  · intro h
    rcases h with ⟨bucketSecs, ownSecs, id, ownId, samples, ownSamples, built⟩
    obtain rfl := Except.ok.inj built
    exact ⟨ownSecs, ownId, rfl, ownSamples, fun _ => rfl⟩
  · intro pivot
    refine ⟨row.bucketSecs, pivot.bucketSecs, row.id, pivot.id, row.samples, pivot.samples, ?_⟩
    rw [← pivot.stack, ← funext pivot.columns]
    rfl

/-- Every nonempty group has a row: no column that must not be NULL is, for an aggregate over a
row is not.
-/
theorem exists_pivotRow {group : List LegacyTrend} (nonempty : group ≠ [])
    : ∃ row, PivotRow group row := by
  obtain ⟨head, member⟩ := List.exists_mem_of_ne_nil group nonempty
  obtain ⟨bucketSecs, ownSecs⟩ := exists_maxAgg_of_mem
    (List.mem_map_of_mem (f := fun row : LegacyTrend => some row.bucketSecs) member)
  obtain ⟨id, ownId⟩ := exists_maxAgg_of_mem
    (List.mem_map_of_mem (f := fun row : LegacyTrend => some row.id) member)
  obtain ⟨samples, ownSamples⟩ := exists_maxAgg_of_mem
    (List.mem_map_of_mem (f := fun row : LegacyTrend => some row.samples) member)
  let row : TrendRow :=
    {
      bucketSecs
      id
      stack := maxAgg (group.map (fun row => row.stack))
      samples
      columns := fun metric => .ofLegacy metric group
    }
  exact ⟨row, ownSecs, ownId, rfl, ownSamples, fun _ => rfl⟩

theorem PivotRow.nonempty {group : List LegacyTrend} {row : TrendRow} (pivot : PivotRow group row)
    : group ≠ [] := by
  intro same
  subst same
  cases pivot.samples

theorem PivotRow.unique {group : List LegacyTrend} {left right : TrendRow}
    (pivot : PivotRow group left) (other : PivotRow group right)
    : left = right :=
  Except.ok.inj ((ofLegacy_eq_ok_iff.mpr pivot).symm.trans (ofLegacy_eq_ok_iff.mpr other))

-----------------------------------------------------------------------------------------
-- One chunk
-----------------------------------------------------------------------------------------

/-- The legacy rows of a key. -/
def legacyUnder (key : StoredKey) (legacy : List LegacyTrend) : List LegacyTrend :=
  KeyedFolds.under LegacyTrend.key key legacy

/-- Groups under fresh, distinct keys are inserted without a conflict, by induction on the
groups.
-/
theorem insertGroups (table : TrendTable) {groups : List (StoredKey × List LegacyTrend)}
    (distinct : groups.Pairwise (fun left right => left.1 ≠ right.1))
    (nonempty : ∀ group ∈ groups, group.2 ≠ [])
    (fresh : ∀ group ∈ groups, table[group.1]? = none)
    : ∃ inserted,
        groups.foldlM (m := Except SqlError)
          (fun table group => do
            let row ← TrendRow.ofLegacy group.2
            TrendTable.insertNew table group.1 row)
          table
          = .ok inserted
        ∧ ∀ key row,
          inserted[key]? = some row
          ↔ table[key]? = some row ∨ ∃ group, (key, group) ∈ groups ∧ PivotRow group row := by
  induction groups generalizing table with
  | nil => exact ⟨table, rfl, by simp⟩
  | cons head rest ih =>
      obtain ⟨k, first⟩ := head
      obtain ⟨apart, distinctRest⟩ := List.pairwise_cons.mp distinct
      obtain ⟨row, pivot⟩ := exists_pivotRow (nonempty (k, first) List.mem_cons_self)
      have free : table[k]? = none := fresh (k, first) List.mem_cons_self
      have absent : k ∉ table := by
        rw [Std.ExtTreeMap.mem_iff_isSome_getElem?, free]
        exact Bool.false_ne_true
      have freshRest : ∀ group ∈ rest, (table.insert k row)[group.1]? = none := by
        intro group member
        rw [KeyedFolds.getElem?_insert, if_neg (apart group member)]
        exact fresh group (List.mem_cons_of_mem _ member)
      obtain ⟨inserted, ran, contents⟩ :=
        ih (table.insert k row) distinctRest
          (fun group member => nonempty group (List.mem_cons_of_mem _ member)) freshRest
      refine ⟨inserted, ?_, fun key found => ?_⟩
      · rw [List.foldlM_cons, ofLegacy_eq_ok_iff.mpr pivot]
        change (TrendTable.insertNew table k row >>= fun table => rest.foldlM _ table) = _
        rw [TrendTable.insertNew, if_neg absent]
        exact ran
      rw [contents, KeyedFolds.getElem?_insert]
      by_cases own : k = key
      · subst own
        rw [if_pos rfl, free]
        constructor
        · intro h
          rcases h with same | ⟨group, member, _⟩
          · exact .inr ⟨first, List.mem_cons_self, Option.some.inj same ▸ pivot⟩
          · exact absurd rfl (apart (k, group) member)
        · intro h
          rcases h with impossible | ⟨group, member, other⟩
          · cases impossible
          · rcases List.mem_cons.mp member with same | later
            · obtain ⟨_, rfl⟩ := Prod.mk.inj same
              exact .inl (congrArg some (pivot.unique other))
            · exact absurd rfl (apart (k, group) later)
      · rw [if_neg own]
        refine or_congr_right (exists_congr (fun group => and_congr_left (fun _ => ?_)))
        rw [List.mem_cons]
        refine ⟨.inr, fun member => member.resolve_left (fun same => ?_)⟩
        exact own (Prod.mk.inj same).1.symm

/-- A table holds the row of every key's legacy rows, as far as the keys start before a
bound.
-/
def PivotedBelow (legacy : List LegacyTrend) (bound : ℤ) (table : TrendTable) : Prop :=
  ∀ key row,
    table[key]? = some row ↔ key.bucketStartMs < bound ∧ PivotRow (legacyUnder key legacy) row

/-- A chunk extends the pivoted keys up to its end. Witness: the groups of the chunk are those of
the whole table whose keys lie in it, and none of them has a row yet.
-/
theorem pivotChunk_spec {legacy : List LegacyTrend} {lower upper : ℤ} {table : TrendTable}
    (below : PivotedBelow legacy lower table) (le : lower ≤ upper)
    : ∃ next, pivotChunk legacy lower upper table = .ok next ∧ PivotedBelow legacy upper next := by
  let keep (key : StoredKey) : Bool :=
    decide (lower ≤ key.bucketStartMs ∧ key.bucketStartMs < upper)
  have contents (key : StoredKey) (group : List LegacyTrend)
      : (key, group) ∈ KeyedFolds.groups LegacyTrend.key
            (legacy.filter (fun row => keep row.key))
        ↔ group ≠ [] ∧ group = if keep key then legacyUnder key legacy else [] := by
    rw [KeyedFolds.mem_groups_iff, KeyedFolds.under_filter_keys]
    rfl
  have kept {key : StoredKey} {group : List LegacyTrend}
      (member : (key, group) ∈ KeyedFolds.groups LegacyTrend.key
        (legacy.filter (fun row => keep row.key)))
      : (lower ≤ key.bucketStartMs ∧ key.bucketStartMs < upper)
        ∧ group = legacyUnder key legacy := by
    obtain ⟨nonempty, own⟩ := (contents key group).mp member
    by_cases within : keep key
    · exact ⟨of_decide_eq_true within, own.trans (if_pos within)⟩
    · exact absurd (own.trans (if_neg within)) nonempty
  have distinct :=
    (KeyedFolds.groups_ascending LegacyTrend.key (legacy.filter (fun row => keep row.key))).imp
      (fun less => ne_of_lt less)
  obtain ⟨next, ran, inserted⟩ := insertGroups table distinct
    (fun group member => ((contents group.1 group.2).mp member).1) (by
      intro group member
      refine Option.eq_none_iff_forall_ne_some.mpr (fun row found => ?_)
      have started := (kept member).1.1
      have ended := ((below group.1 row).mp found).1
      omega)
  refine ⟨next, ran, fun key row => ?_⟩
  rw [inserted, below]
  constructor
  · intro h
    rcases h with ⟨earlier, pivot⟩ | ⟨group, member, pivot⟩
    · exact ⟨by omega, pivot⟩
    · obtain ⟨⟨_, before⟩, rfl⟩ := kept member
      exact ⟨before, pivot⟩
  · intro h
    rcases h with ⟨before, pivot⟩
    by_cases earlier : key.bucketStartMs < lower
    · exact .inl ⟨earlier, pivot⟩
    · have within : keep key := decide_eq_true ⟨by omega, before⟩
      exact .inr ⟨_, (contents key _).mpr ⟨pivot.nonempty, (if_pos within).symm⟩, pivot⟩

-----------------------------------------------------------------------------------------
-- All chunks
-----------------------------------------------------------------------------------------

theorem pivotChunks_done {legacy : List LegacyTrend} {last lower : ℤ} {table : TrendTable}
    (done : last < lower) (fuel : ℕ)
    : pivotChunks legacy last fuel lower table = some (.ok table) := by
  cases fuel <;> rw [pivotChunks, if_neg (by omega)]

theorem pivotChunks_step {legacy : List LegacyTrend} {last lower : ℤ} {table next : TrendTable}
    (reached : lower ≤ last)
    (ran : pivotChunk legacy lower (saturatingAdd lower migrationChunkMs) table = .ok next)
    (fuel : ℕ)
    : pivotChunks legacy last (fuel + 1) lower table
      = pivotChunks legacy last fuel (saturatingAdd lower migrationChunkMs) next := by
  rw [pivotChunks, if_pos reached]
  simp only [ran]

theorem le_saturatingAdd {lower : ℤ} (inRange : lower < i64Max)
    : lower < saturatingAdd lower migrationChunkMs
      ∧ (saturatingAdd lower migrationChunkMs = i64Max
        ∨ lower + migrationChunkMs ≤ saturatingAdd lower migrationChunkMs) := by
  unfold saturatingAdd migrationChunkMs i64Max at *
  omega

/-- At the largest integer the loop stands still: it never returns, by induction on the rounds,
each of which pivots nothing.
-/
theorem pivotChunks_stuck {legacy : List LegacyTrend} {last lower : ℤ} (table : TrendTable)
    (beyond : i64Max ≤ lower) (reached : lower ≤ last) (fuel : ℕ)
    : pivotChunks legacy last fuel lower table = none := by
  induction fuel generalizing lower with
  | zero => rw [pivotChunks, if_pos reached]
  | succ fuel ih =>
      have same : saturatingAdd lower migrationChunkMs = i64Max := by
        unfold saturatingAdd migrationChunkMs i64Max at *
        omega
      have empty
          : legacy.filter (fun row =>
              lower ≤ row.bucketStartMs
              ∧ row.bucketStartMs < saturatingAdd lower migrationChunkMs)
            = [] := by
        refine List.filter_eq_nil_iff.mpr (fun row _ within => ?_)
        have := of_decide_eq_true within
        omega
      have nothing
          : pivotChunk legacy lower (saturatingAdd lower migrationChunkMs) table = .ok table := by
        rw [pivotChunk, empty]
        rfl
      rw [pivotChunks_step reached nothing, same]
      exact ih le_rfl (beyond.trans reached)

/-- A loop that returns has passed the last start, or goes on behind a chunk that succeeds, since
no chunk fails and a stuck one never returns.
-/
theorem pivotChunks_cases {legacy : List LegacyTrend} {last lower : ℤ} {table : TrendTable}
    {fuel : ℕ} {result : Except SqlError TrendTable}
    (below : PivotedBelow legacy lower table)
    (ran : pivotChunks legacy last fuel lower table = some result)
    : (last < lower ∧ result = .ok table)
      ∨ ∃ fewer next,
          let upper := saturatingAdd lower migrationChunkMs
          fuel = fewer + 1
          ∧ lower ≤ last
          ∧ lower ≤ upper
          ∧ pivotChunk legacy lower upper table = .ok next
          ∧ PivotedBelow legacy upper next
          ∧ pivotChunks legacy last fewer upper next = some result := by
  by_cases reached : lower ≤ last
  · by_cases inRange : lower < i64Max
    · cases fuel with
      | zero =>
          rw [pivotChunks, if_pos reached] at ran
          cases ran
      | succ fewer =>
          have advances := (le_saturatingAdd inRange).1.le
          obtain ⟨next, chunk, later⟩ := pivotChunk_spec below advances
          rw [pivotChunks_step reached chunk] at ran
          exact .inr ⟨fewer, next, rfl, reached, advances, chunk, later, ran⟩
    · rw [pivotChunks_stuck table (by omega) reached] at ran
      cases ran
  · rw [pivotChunks_done (by omega)] at ran
    exact .inl ⟨by omega, (Option.some.inj ran).symm⟩

/-- Whatever the loop returns holds every legacy key, by induction on the rounds. -/
theorem pivotChunks_spec {legacy : List LegacyTrend} {last lower : ℤ} {table : TrendTable}
    {fuel : ℕ} {result : Except SqlError TrendTable}
    (below : PivotedBelow legacy lower table)
    (ran : pivotChunks legacy last fuel lower table = some result)
    : ∃ final bound, result = .ok final ∧ last < bound ∧ PivotedBelow legacy bound final := by
  induction fuel generalizing lower table with
  | zero =>
      rcases pivotChunks_cases below ran with ⟨beyond, same⟩ | ⟨_, _, more, _⟩
      · exact ⟨table, lower, same, beyond, below⟩
      · cases more
  | succ fuel ih =>
      rcases pivotChunks_cases below ran with
        ⟨beyond, same⟩ | ⟨fewer, next, more, _, _, _, later, ranRest⟩
      · exact ⟨table, lower, same, beyond, below⟩
      · cases more
        exact ih later ranRest

/-- The loop returns after one round per hour of the legacy rows' span, by induction on the
rounds.
-/
theorem pivotChunks_isSome {legacy : List LegacyTrend} {last lower : ℤ} {table : TrendTable}
    {fuel : ℕ} (inRange : last < i64Max) (enough : last - lower < fuel * migrationChunkMs)
    : (pivotChunks legacy last fuel lower table).isSome := by
  induction fuel generalizing lower table with
  | zero =>
      rw [pivotChunks_done (by push_cast at enough; omega)]
      rfl
  | succ fuel ih =>
      by_cases reached : lower ≤ last
      · cases chunk : pivotChunk legacy lower (saturatingAdd lower migrationChunkMs) table with
        | error error =>
            rw [pivotChunks, if_pos reached]
            simp only [chunk, Option.isSome_some]
        | ok next =>
            rw [pivotChunks_step reached chunk]
            rcases (le_saturatingAdd (reached.trans_lt inRange)).2 with saturated | moved
            · rw [saturated, pivotChunks_done inRange]
              rfl
            · refine ih ?_
              rw [Nat.cast_succ, add_one_mul] at enough
              omega
      · rw [pivotChunks_done (by omega)]
        rfl

/-- A table holds the row of every key's legacy rows. -/
def Pivoted (legacy : List LegacyTrend) (table : TrendTable) : Prop :=
  ∀ key row, table[key]? = some row ↔ PivotRow (legacyUnder key legacy) row

theorem exists_mem_of_pivotRow {legacy : List LegacyTrend} {key : StoredKey} {row : TrendRow}
    (pivot : PivotRow (legacyUnder key legacy) row)
    : ∃ entry ∈ legacy, entry.key = key := by
  obtain ⟨entry, member⟩ := List.exists_mem_of_ne_nil _ pivot.nonempty
  obtain ⟨inLegacy, own⟩ := KeyedFolds.mem_under_iff.mp member
  exact ⟨entry, inLegacy, own⟩

/-- No legacy bucket starts before the first start. -/
theorem first_le_start {legacy : List LegacyTrend} {first : ℤ} {entry : LegacyTrend}
    (least : minAgg (legacy.map (fun row => some row.bucketStartMs)) = some first)
    (member : entry ∈ legacy)
    : first ≤ entry.bucketStartMs :=
  (minAgg_eq_some_iff.mp least).2 entry.bucketStartMs (List.mem_map_of_mem member)

theorem start_le_last {legacy : List LegacyTrend} {last : ℤ} {entry : LegacyTrend}
    (greatest : maxAgg (legacy.map (fun row => some row.bucketStartMs)) = some last)
    (member : entry ∈ legacy)
    : entry.bucketStartMs ≤ last :=
  (maxAgg_eq_some_iff.mp greatest).2 entry.bucketStartMs (List.mem_map_of_mem member)

/-- Below the first legacy bucket start there is nothing to pivot, as every row starts there or
later.
-/
theorem pivotedBelow_first {legacy : List LegacyTrend} {first : ℤ}
    (least : minAgg (legacy.map (fun row => some row.bucketStartMs)) = some first)
    : PivotedBelow legacy first ∅ := by
  intro key row
  rw [Std.ExtTreeMap.getElem?_empty]
  refine iff_of_false (by simp) ?_
  intro h
  rcases h with ⟨before, pivot⟩
  obtain ⟨entry, member, rfl⟩ := exists_mem_of_pivotRow pivot
  have := first_le_start least member
  change entry.bucketStartMs < first at before
  omega

/-- A table with the keys up to beyond the last bucket start is complete, as every row starts
before.
-/
theorem PivotedBelow.pivoted {legacy : List LegacyTrend} {last bound : ℤ} {table : TrendTable}
    (greatest : maxAgg (legacy.map (fun row => some row.bucketStartMs)) = some last)
    (beyond : last < bound) (below : PivotedBelow legacy bound table)
    : Pivoted legacy table := by
  intro key row
  rw [below, and_iff_right_iff_imp]
  intro pivot
  obtain ⟨entry, member, rfl⟩ := exists_mem_of_pivotRow pivot
  have := start_le_last greatest member
  change entry.bucketStartMs < bound
  omega

/-- The migration of a nonempty long table is the loop from its first to its last start, which
both exist.
-/
theorem migrateTrendLayout_cons (head : LegacyTrend) (rest : List LegacyTrend)
    : ∃ first last,
        minAgg ((head :: rest).map (fun row => some row.bucketStartMs)) = some first
        ∧ maxAgg ((head :: rest).map (fun row => some row.bucketStartMs)) = some last
        ∧ ∀ fuel,
          migrateTrendLayout fuel (.long (head :: rest))
            = pivotChunks (head :: rest) last fuel first ∅ := by
  have member : some head.bucketStartMs ∈ (head :: rest).map (fun row => some row.bucketStartMs) :=
    List.mem_cons_self
  obtain ⟨first, least⟩ := exists_minAgg_of_mem member
  obtain ⟨last, greatest⟩ := exists_maxAgg_of_mem member
  refine ⟨first, last, least, greatest, fun fuel => ?_⟩
  rw [migrateTrendLayout]
  simp only [least, greatest]

/-- Migrating the long layout, if it returns, succeeds and loses no row, by the cases of an empty
table and the loop.
-/
theorem migrateTrendLayout_long {legacy : List LegacyTrend} {fuel : ℕ}
    {result : Except SqlError TrendTable}
    (ran : migrateTrendLayout fuel (.long legacy) = some result)
    : ∃ table, result = .ok table ∧ Pivoted legacy table := by
  cases legacy with
  | nil =>
      obtain rfl := Option.some.inj ran
      refine ⟨∅, rfl, fun key row => ?_⟩
      rw [Std.ExtTreeMap.getElem?_empty]
      exact iff_of_false (by simp) (fun pivot => pivot.nonempty rfl)
  | cons head rest =>
      obtain ⟨first, last, least, greatest, loop⟩ := migrateTrendLayout_cons head rest
      rw [loop] at ran
      obtain ⟨table, bound, ok, beyond, below⟩ := pivotChunks_spec (pivotedBelow_first least) ran
      exact ⟨table, ok, below.pivoted greatest beyond⟩

/-- Migrating the long layout returns, unless a bucket starts at the largest integer: an empty
table at once, and any other after a round per hour of its span.
-/
theorem migrateTrendLayout_returns {legacy : List LegacyTrend}
    (inRange : ∀ row ∈ legacy, row.bucketStartMs < i64Max)
    : ∃ rounds, ∀ fuel ≥ rounds, (migrateTrendLayout fuel (.long legacy)).isSome := by
  cases legacy with
  | nil => exact ⟨0, fun _ _ => rfl⟩
  | cons head rest =>
      obtain ⟨first, last, least, greatest, loop⟩ := migrateTrendLayout_cons head rest
      obtain ⟨entry, member, same⟩ := List.mem_map.mp (maxAgg_eq_some_iff.mp greatest).1
      obtain rfl := Option.some.inj same
      refine ⟨(entry.bucketStartMs - first).toNat + 1, fun fuel enough => ?_⟩
      rw [loop]
      refine pivotChunks_isSome (inRange entry member) ?_
      unfold migrationChunkMs
      omega

end DockDoe
