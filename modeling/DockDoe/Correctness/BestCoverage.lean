import DockDoe.Correctness.SampleWeights
import DockDoe.Correctness.Upgrades
import DockDoe.Foundations.OrderStatistics

/-! The `samples` column as a count of the best-covered metric. The upsert adds up the counts
of the best-covered metrics of its inserts, and the migration takes the largest count of a
single legacy row: the column is right as long as one metric is the best-covered throughout.
-/

namespace DockDoe

open Nullable

/-- The samples of a row, if there is one, are those of the metric with the most samples. -/
def CountsBestCovered (row : Option TrendRow) (rollups : Metric → List ContainerTrend) : Prop :=
  ∀ found,
    row = some found →
    found.samples = Finset.univ.sup (fun metric => totalSamples (rollups metric))

/-- In a group of legacy rows a single row counts all samples of a metric, and neither a row
nor a metric counts more.
-/
structure LegacyCovered (metric : Metric) (group : List LegacyTrend) : Prop where
  single
    : group ≠ [] →
      ∃ row ∈ group, row.rollup.samples = totalSamples (legacyOfMetric metric group)
  largest : ∀ row ∈ group, row.rollup.samples ≤ totalSamples (legacyOfMetric metric group)
  best
    : ∀ other,
      totalSamples (legacyOfMetric other group) ≤ totalSamples (legacyOfMetric metric group)

instance : Nonempty Metric :=
  ⟨.cpu⟩

/-- A metric is the best-covered one of a write. -/
def Write.Covered (metric : Metric) (write : Write) : Prop :=
  totalSamples (ofMetric metric write.rollups) = write.bestCovered

/-- The migrated count is that of the metric exactly when a single row counts it. Witness: the
row counts the largest of the legacy rows, and a sum of positive counts is its largest one only
if it is the only one.
-/
theorem legacyCovered_iff {legacy : List LegacyTrend} {table : TrendTable} (key : StoredKey)
    (metric : Metric) (pivoted : Pivoted legacy table) (positive : ∀ row ∈ legacy, 1 ≤ row.samples)
    : LegacyCovered metric (legacyUnder key legacy)
      ↔ samplesOf table[key]? = totalSamples (legacyOfMetric metric (legacyUnder key legacy))
        ∧ ∀ other,
          totalSamples (legacyOfMetric other (legacyUnder key legacy))
          ≤ totalSamples (legacyOfMetric metric (legacyUnder key legacy)) := by
  have ownPositive : ∀ row ∈ legacyUnder key legacy, 1 ≤ row.samples :=
    fun row member => positive row (KeyedFolds.mem_under_iff.mp member).1
  cases stored : table[key]? with
  | none =>
      have empty : legacyUnder key legacy = [] := by
        by_contra nonempty
        obtain ⟨row, pivot⟩ := exists_pivotRow nonempty
        cases stored.symm.trans ((pivoted key row).mpr pivot)
      rw [empty]
      refine iff_of_true ⟨fun nonempty => absurd rfl nonempty, ?_, fun _ => le_rfl⟩
        ⟨rfl, fun _ => le_rfl⟩
      exact fun row member => absurd member List.not_mem_nil
  | some found =>
      have pivot := (pivoted key found).mp stored
      obtain ⟨attained, bound⟩ := maxAgg_eq_some_iff.mp pivot.samples
      obtain ⟨row, member, same⟩ := List.mem_map.mp attained
      have rowSamples : row.samples = found.samples := Option.some.inj same
      have count (row : LegacyTrend) : (row.rollup.samples : ℕ) = row.samples.toNat := rfl
      have below (other : LegacyTrend) (inGroup : other ∈ legacyUnder key legacy)
          : other.samples ≤ found.samples :=
        bound other.samples (List.mem_map_of_mem inGroup)
      have atLeast := ownPositive row member
      change _ ↔ found.samples = _ ∧ _
      constructor
      · intro covered
        obtain ⟨largest, inGroup, counted⟩ := covered.single pivot.nonempty
        have own := below largest inGroup
        have rowLe := covered.largest row member
        rw [count] at counted rowLe
        exact ⟨by omega, covered.best⟩
      · intro h
        rcases h with ⟨counted, best⟩
        refine ⟨fun _ => ⟨row, member, ?_⟩, fun other inGroup => ?_, best⟩
        · rw [count]
          omega
        · have := below other inGroup
          rw [count]
          omega

/-- A store is opened with the pivot of its long rows, by the cases of an empty layout and a long
one.
-/
theorem opened_pivoted {db : Database} {fuel : ℕ} {opened : Store}
    (layout : db.containerTrend = none ∨ ∃ legacy, db.longRows = some legacy)
    (opening : Store.fromConnection fuel db = some (.ok opened))
    : Pivoted (db.longRows.getD []) opened.containerTrend := by
  rcases layout with empty | ⟨legacy, long⟩
  · rw [opened_empty empty] at opening
    obtain rfl := Except.ok.inj (Option.some.inj opening)
    have none : db.longRows = none := by
      unfold Database.longRows
      rw [empty]
    intro key row
    rw [none, Std.ExtTreeMap.getElem?_empty]
    exact iff_of_false (by simp) (fun pivot => pivot.nonempty rfl)
  · obtain ⟨table, same, pivoted⟩ := opened_long long opening
    obtain rfl := Except.ok.inj same
    rw [long]
    exact pivoted

theorem totalSamples_metricRollups (metric : Metric) (writes : List Write)
    : totalSamples (metricRollups metric writes)
      = (writes.map (fun write => totalSamples (ofMetric metric write.rollups))).sum := by
  induction writes with
  | nil => rfl
  | cons write rest ih =>
      rw [metricRollups_cons, totalSamples_append, ih, List.map_cons, List.sum_cons]

/-- A row counts its best-covered metric when the best-covered counts add up to the most samples
of a metric; where there is no row, both are zero. Witness: a row's count is what was migrated
and the best-covered count of every write since.
-/
theorem countsBestCovered_rowAfter_iff {legacy : List LegacyTrend} {table : TrendTable}
    {key : StoredKey} {writes : List Write} {rollups : Metric → List ContainerTrend}
    (pivoted : Pivoted legacy table) (small : ∀ write ∈ writes, write.Small)
    (total
      : ∀ metric,
        totalSamples (rollups metric)
        = totalSamples (legacyOfMetric metric (legacyUnder key legacy))
          + totalSamples (metricRollups metric writes))
    : CountsBestCovered (rowAfter table[key]? writes) rollups
      ↔ samplesOf table[key]? + (writes.map Write.bestCovered).sum
        = Finset.univ.sup (fun metric => totalSamples (rollups metric)) := by
  rw [← samplesOf_rowAfter table[key]? small]
  cases found : rowAfter table[key]? writes with
  | some row =>
      unfold CountsBestCovered
      simp only [Option.some.injEq, forall_eq']
      rfl
  | none =>
      have noRow : ¬ (rowAfter table[key]? writes).isSome := by simp [found]
      obtain ⟨noStart, noWrites⟩ := not_or.mp ((isSome_rowAfter _ _).not.mp noRow)
      rw [pivoted.isSome_iff] at noStart
      have empty : legacyUnder key legacy = [] := by
        refine List.eq_nil_iff_forall_not_mem.mpr (fun row member => noStart ?_)
        obtain ⟨inLegacy, own⟩ := KeyedFolds.mem_under_iff.mp member
        exact ⟨row, inLegacy, own⟩
      have nothing : Finset.univ.sup (fun metric => totalSamples (rollups metric)) = 0 := by
        refine (Finset.sup_eq_bot_iff _ _).mpr (fun metric _ => ?_)
        rw [total, empty, not_not.mp noWrites]
        rfl
      rw [nothing]
      exact iff_of_true (fun row impossible => by cases impossible) rfl

/-- The samples of every metric, in the legacy rows of a key and in each write to it. -/
def coverage (legacy : List LegacyTrend) (key : StoredKey) (writes : List Write)
    : List (Metric → ℕ) :=
  (fun metric => totalSamples (legacyOfMetric metric (legacyUnder key legacy)))
  :: writes.map (fun write metric => totalSamples (ofMetric metric write.rollups))

theorem sum_coverage (legacy : List LegacyTrend) (key : StoredKey) (writes : List Write)
    (metric : Metric)
    : ((coverage legacy key writes).map (fun column => column metric)).sum
      = totalSamples (legacyOfMetric metric (legacyUnder key legacy))
        + totalSamples (metricRollups metric writes) := by
  rw [coverage, List.map_cons, List.sum_cons, List.map_map, totalSamples_metricRollups]
  rfl

theorem sum_sup_coverage (legacy : List LegacyTrend) (key : StoredKey) (writes : List Write)
    : ((coverage legacy key writes).map (fun column => Finset.univ.sup column)).sum
      = Finset.univ.sup (fun metric =>
          totalSamples (legacyOfMetric metric (legacyUnder key legacy)))
        + (writes.map Write.bestCovered).sum := by
  rw [coverage, List.map_cons, List.sum_cons, List.map_map]
  rfl

/-- After a batch the samples column is right when the maxima behind it add up to the maximum of
the sums, as for any writes to the key.
-/
theorem countsBestCovered_insertBatches_iff {opened : Store} {legacy : List LegacyTrend}
    {key : StoredKey} {batches : List (List ContainerTrend)}
    (pivoted : Pivoted legacy opened.containerTrend)
    (small : ∀ write ∈ writesTo key (batches.flatMap writesOf), write.Small)
    : (∃ store,
          opened.insertBatches batches = .ok store
          ∧ CountsBestCovered (store.containerTrend[key]?) (fun metric =>
              legacyOfMetric metric (legacyUnder key legacy) ++ rollupsOf batches key metric))
        ↔ samplesOf (opened.containerTrend[key]?)
            + ((writesTo key (batches.flatMap writesOf)).map Write.bestCovered).sum
          = Finset.univ.sup (fun metric =>
              ((coverage legacy key (writesTo key (batches.flatMap writesOf))).map
                (fun column => column metric)).sum) := by
  have total (metric : Metric)
      : totalSamples
            (legacyOfMetric metric (legacyUnder key legacy) ++ rollupsOf batches key metric)
          = totalSamples (legacyOfMetric metric (legacyUnder key legacy))
            + totalSamples (metricRollups metric (writesTo key (batches.flatMap writesOf))) := by
    have inserted := (metricRollups_perm batches key metric).map ContainerTrend.samples
    rw [totalSamples_append]
    exact congrArg (_ + ·) inserted.sum_eq.symm
  rw [Store.insertBatches_eq]
  simp only [Except.ok.injEq, exists_eq_left', TrendTable.getElem?_written, sum_coverage,
    ← total]
  exact countsBestCovered_rowAfter_iff pivoted small total

/-- The samples column counts the best-covered metric in every state of a run exactly when
one metric is the best-covered one of the legacy rows and of every insert.
Witness: maxima add up to the maximum of the sums only at a common index.
-/
theorem countsBestCovered_iff (db : Database) (fuel : ℕ) (opened : Store)
    (batches : List (List ContainerTrend)) (key : StoredKey)
    (layout : db.containerTrend = none ∨ ∃ legacy, db.longRows = some legacy)
    (opening : Store.fromConnection fuel db = some (.ok opened))
    (positive : ∀ row ∈ db.longRows.getD [], 1 ≤ row.samples)
    (small : ∀ metric, totalSamples (rollupsOf batches key metric) < 2 ^ 32)
    : (∀ n, ∃ store,
          opened.insertBatches (batches.take n) = .ok store
          ∧ CountsBestCovered (store.containerTrend[key]?) (fun metric =>
              legacyOfMetric metric (legacyUnder key (db.longRows.getD []))
              ++ rollupsOf (batches.take n) key metric))
        ↔ ∃ metric,
          LegacyCovered metric (legacyUnder key (db.longRows.getD []))
          ∧ ∀ write ∈ writesTo key (batches.flatMap writesOf), write.Covered metric := by
  have pivoted := opened_pivoted layout opening
  generalize db.longRows.getD [] = legacy at *
  let before (metric : Metric) : ℕ :=
    totalSamples (legacyOfMetric metric (legacyUnder key legacy))
  have writesAt (n : ℕ)
      : writesTo key ((batches.take n).flatMap writesOf)
        ⊆ writesTo key (batches.flatMap writesOf) := by
    refine (writesTo_initial key ⟨(batches.drop n).flatMap writesOf, ?_⟩).subset
    rw [← List.flatMap_append, List.take_append_drop]
  have state (n : ℕ) :=
    countsBestCovered_insertBatches_iff pivoted
      (fun write member => small_of_mem_writesTo small (writesAt n member))
  constructor
  · intro every
    -- The state before any insert fixes the opened row, the last one every insert.
    have start := (state 0).mp (every 0)
    have initial : samplesOf (opened.containerTrend[key]?) = (Finset.univ.sup before : ℕ) := by
      simpa [coverage, writesTo, KeyedFolds.under] using start
    have final := (state batches.length).mp (every batches.length)
    rw [initial, List.take_length] at final
    have same
        : ((coverage legacy key (writesTo key (batches.flatMap writesOf))).map
              (fun column => Finset.univ.sup column)).sum
          = Finset.univ.sup (fun metric =>
              ((coverage legacy key (writesTo key (batches.flatMap writesOf))).map
                (fun column => column metric)).sum) := by
      rw [sum_sup_coverage]
      exact_mod_cast final
    obtain ⟨metric, attains⟩ := (OrderStatistics.sum_sup_eq_sup_sum_iff _).mp same
    have beforeAttained := attains before List.mem_cons_self
    refine ⟨metric, (legacyCovered_iff key metric pivoted positive).mpr ⟨?_, fun other => ?_⟩, ?_⟩
    · exact initial.trans (congrArg Nat.cast beforeAttained.symm)
    · exact (Finset.le_sup (f := before) (Finset.mem_univ other)).trans beforeAttained.ge
    · intro write member
      exact attains _ (List.mem_cons_of_mem _ (List.mem_map_of_mem member))
  · intro h n
    rcases h with ⟨metric, legacyCovered, covered⟩
    obtain ⟨counted, best⟩ := (legacyCovered_iff key metric pivoted positive).mp legacyCovered
    have beforeAttained : before metric = Finset.univ.sup before :=
      le_antisymm (Finset.le_sup (f := before) (Finset.mem_univ metric))
        (Finset.sup_le (fun other _ => best other))
    have attains
        : ∀ column ∈ coverage legacy key (writesTo key ((batches.take n).flatMap writesOf)),
          column metric = Finset.univ.sup column := by
      intro column member
      rcases List.mem_cons.mp member with rfl | ofWrite
      · exact beforeAttained
      · obtain ⟨write, inWrites, rfl⟩ := List.mem_map.mp ofWrite
        exact covered write (writesAt n inWrites)
    have same := (OrderStatistics.sum_sup_eq_sup_sum_iff _).mpr ⟨metric, attains⟩
    apply (state n).mpr
    rw [sum_sup_coverage] at same
    rw [counted, ← same]
    push_cast
    exact congrArg (· + _) (congrArg Nat.cast beforeAttained)

/-- A database without tables. -/
def Database.fresh : Database :=
  { containerSample := none, containerTrend := none }

/-- Two metrics that arrive in separate batches are counted twice, as running the two inserts
shows.
-/
theorem separate_metrics_counted_twice
    : Store.fromConnection 0 .fresh = some (.ok .empty)
      ∧ ∃ store row,
        Store.empty.insertBatches [[.level 0 .cpu 2 10], [.level 0 .mem 100 10]] = .ok store
        ∧ store.containerTrend[firstKey]? = some row
        ∧ row.samples = 20
        ∧ Finset.univ.sup (fun metric =>
            totalSamples (rollupsOf [[.level 0 .cpu 2 10], [.level 0 .mem 100 10]] firstKey metric))
          = 10 := by
  refine ⟨rfl, ?_⟩
  have counted
      : ((TrendTable.written ∅ (List.flatMap writesOf
            [[.level 0 .cpu 2 10], [.level 0 .mem 100 10]]))[firstKey]?).map TrendRow.samples
        = some 20 := by
    decide +kernel
  obtain ⟨row, found, samples⟩ := Option.map_eq_some_iff.mp counted
  exact ⟨_, row, Store.insertBatches_eq _ _, found, samples, by decide +kernel⟩

/-- The CPU leads in both batches, so their counts add up to its own. -/
theorem leading_metric_counted
    : ∃ store,
        Store.empty.insertBatches [[.level 0 .cpu 2 10, .level 0 .mem 100 9], [.level 0 .cpu 4 5]]
          = .ok store
        ∧ CountsBestCovered (store.containerTrend[firstKey]?)
            (rollupsOf [[.level 0 .cpu 2 10, .level 0 .mem 100 9], [.level 0 .cpu 4 5]]
              firstKey) := by
  let batches : List (List ContainerTrend) :=
    [[.level 0 .cpu 2 10, .level 0 .mem 100 9], [.level 0 .cpu 4 5]]
  have covered
      : ∀ write ∈ writesTo firstKey (batches.flatMap writesOf),
        totalSamples (ofMetric .cpu write.rollups) = write.bestCovered := by
    decide +kernel
  have noLegacy : LegacyCovered .cpu (legacyUnder firstKey []) :=
    ⟨fun nonempty => absurd rfl nonempty, by decide +kernel, by decide +kernel⟩
  exact (countsBestCovered_iff .fresh 0 .empty batches firstKey (.inl rfl) rfl (by decide)
    (by decide +kernel)).mpr ⟨.cpu, noLegacy, covered⟩ 2

end DockDoe
