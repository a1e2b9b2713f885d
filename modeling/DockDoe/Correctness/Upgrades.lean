import DockDoe.Correctness.LegacyPivots
import DockDoe.Correctness.StoredExtremes

/-! Opening a database in the long trend layout keeps all its data: every legacy rollup is
merged into the one row of its key, every sample is kept, and opening again changes nothing.
-/

namespace DockDoe

open Nullable

/-- The rows of a database in the long layout; those without a host are of the local one. -/
def Database.longRows (db : Database) : Option (List LegacyTrend) :=
  match db.containerTrend with
  | some (.hostless rows) => some (rows.map (fun row => { row with host := "local" }))
  | some (.long rows) => some rows
  | some (.wide _) | none => none

/-- A sample with the columns its table has, and defaults for the others. -/
def SampleRow.kept (columns : List String) (row : SampleRow) : SampleRow :=
  {
    row with
    host := if "host" ∈ columns then row.host else "local"
    netRx := if "net_rx" ∈ columns then row.netRx else none
    netTx := if "net_tx" ∈ columns then row.netTx else none
    diskRead := if "disk_read" ∈ columns then row.diskRead else none
    diskWrite := if "disk_write" ∈ columns then row.diskWrite else none
  }

/-- The samples of a database. -/
def Database.keptSamples (db : Database) : List SampleRow :=
  match db.containerSample with
  | none => []
  | some table => table.rows.map (SampleRow.kept table.columns)

/-- The columns of a metric are those of its rollups' envelope: NULL without rollups, and
otherwise their least minimum, weighted median and greatest maximum.
-/
structure MergedColumns (columns : EnvelopeColumns) (rollups : List ContainerTrend) : Prop where
  folded : columns = .ofEnvelope (Envelope.ofRollups rollups)
  extremes : ExtremesOf columns rollups
  median : columns.med = if rollups = [] then none else some (weightedMedian rollups)

theorem mem_columns_addColumnIfMissing {table : SampleTable} {added column : String}
    : column ∈ (table.addColumnIfMissing added).columns
      ↔ column ∈ table.columns ∨ column = added := by
  unfold SampleTable.addColumnIfMissing
  by_cases present : added ∈ table.columns
  · rw [if_pos present]
    exact ⟨.inl, fun member => member.elim id (fun same => same ▸ present)⟩
  · rw [if_neg present]
    simp

theorem mem_columns_foldl {later : List String} {table : SampleTable} {column : String}
    : column ∈ (later.foldl SampleTable.addColumnIfMissing table).columns
      ↔ column ∈ table.columns ∨ column ∈ later := by
  induction later generalizing table with
  | nil => simp
  | cons added rest ih =>
      rw [List.foldl_cons, ih, mem_columns_addColumnIfMissing, List.mem_cons, or_assoc]

/-- Adding columns fills those that are missing. By induction on the columns, which are different
and do not touch each other's values.
-/
theorem rows_foldl {later : List String} (distinct : later.Nodup) (table : SampleTable)
    : (later.foldl SampleTable.addColumnIfMissing table).rows
      = table.rows.map (fun row =>
          later.foldl
            (fun row column => if column ∈ table.columns then row else row.withDefault column)
            row) := by
  induction later generalizing table with
  | nil => exact (List.map_id _).symm
  | cons added rest ih =>
      obtain ⟨fresh, distinctRest⟩ := List.nodup_cons.mp distinct
      have unaffected (row : SampleRow)
          : rest.foldl
              (fun row column =>
                if column ∈ (table.addColumnIfMissing added).columns then row
                else row.withDefault column)
              row
            = rest.foldl
                (fun row column => if column ∈ table.columns then row else row.withDefault column)
                row := by
        refine List.foldl_ext _ _ _ (fun row column member => ?_)
        have other : column ≠ added := fun same => fresh (same ▸ member)
        simp only [mem_columns_addColumnIfMissing, other, or_false]
      rw [List.foldl_cons, ih distinctRest]
      simp only [unaffected, List.foldl_cons]
      unfold SampleTable.addColumnIfMissing
      by_cases present : added ∈ table.columns
      · simp only [if_pos present]
      · simp only [if_neg present, List.map_map]
        rfl

theorem foldl_withDefault (columns : List String) (row : SampleRow)
    : laterSampleColumns.foldl
          (fun row column => if column ∈ columns then row else row.withDefault column) row
        = row.kept columns := by
  simp only [laterSampleColumns, List.foldl_cons, List.foldl_nil, SampleRow.withDefault,
    SampleRow.kept]
  split_ifs <;> rfl

/-- The samples of an opened database are those it held. -/
theorem rows_keptSamples (db : Database)
    : (laterSampleColumns.foldl SampleTable.addColumnIfMissing
          (db.containerSample.getD .empty)).rows
        = db.keptSamples := by
  rw [rows_foldl (by decide)]
  simp only [foldl_withDefault]
  unfold Database.keptSamples
  cases db.containerSample <;> rfl

/-- The indexed columns exist by the time the indexes are created, being among the first or the
later ones.
-/
theorem createIndexes_ok (table : SampleTable)
    : createIndexes (laterSampleColumns.foldl SampleTable.addColumnIfMissing table) = .ok () := by
  have present (column : String) (known : column ∈ firstSampleColumns ++ laterSampleColumns)
      : column ∈ (laterSampleColumns.foldl SampleTable.addColumnIfMissing table).columns := by
    rw [mem_columns_foldl]
    exact (List.mem_append.mp known).imp_left (fun first => table.complete first)
  refine FallibleLists.forM_ok (fun column member => if_pos (present column ?_))
  exact (by decide : ["host", "id", "ts_ms"] ⊆ firstSampleColumns ++ laterSampleColumns) member

/-- Opening keeps the samples and migrates the trend table. -/
theorem fromConnection_eq (fuel : ℕ) (db : Database)
    : Store.fromConnection fuel db
      = (migrateTrendLayout fuel (db.containerTrend.getD (.wide ∅)).addHostIfMissing).map
          (fun migrated => migrated.map (fun table =>
            { containerSample := db.keptSamples, containerTrend := table })) := by
  rw [Store.fromConnection]
  refine Option.map_congr (fun migrated _ => ?_)
  rw [createIndexes_ok, rows_keptSamples]
  cases migrated <;> rfl

/-- A long table gains the host column if it lacks it. By cases on the layout that was found. -/
theorem Database.addHostIfMissing_long {db : Database} {legacy : List LegacyTrend}
    (long : db.longRows = some legacy)
    : (db.containerTrend.getD (.wide ∅)).addHostIfMissing = .long legacy := by
  unfold longRows at long
  cases found : db.containerTrend with
  | none => simp [found] at long
  | some layout =>
      cases layout with
      | hostless rows =>
          simp only [found, Option.some.injEq] at long
          subst long
          rfl
      | long rows =>
          simp only [found, Option.some.injEq] at long
          subst long
          rfl
      | wide table => simp [found] at long

/-- Opening a database in the long layout, if it returns, succeeds and pivots all rows. -/
theorem opened_long {db : Database} {legacy : List LegacyTrend} {fuel : ℕ}
    {result : Except SqlError Store} (long : db.longRows = some legacy)
    (opened : Store.fromConnection fuel db = some result)
    : ∃ table,
        result = .ok { containerSample := db.keptSamples, containerTrend := table }
        ∧ Pivoted legacy table := by
  rw [fromConnection_eq, Database.addHostIfMissing_long long] at opened
  obtain ⟨migrated, ran, rfl⟩ := Option.map_eq_some_iff.mp opened
  obtain ⟨table, rfl, pivoted⟩ := migrateTrendLayout_long ran
  exact ⟨table, rfl, pivoted⟩

/-- A database without a trend table is opened with an empty one. -/
theorem opened_empty {db : Database} (empty : db.containerTrend = none) (fuel : ℕ)
    : Store.fromConnection fuel db
      = some (.ok { containerSample := db.keptSamples, containerTrend := ∅ }) := by
  rw [fromConnection_eq, empty]
  rfl

/-- Opening a store's own database gives the store back. -/
theorem reopened (store : Store) (fuel : ℕ)
    : Store.fromConnection fuel store.toDatabase = some (.ok store) := by
  have kept : store.toDatabase.keptSamples = store.containerSample := by
    refine (List.map_congr_left (fun row _ => ?_)).trans (List.map_id _)
    simp [SampleRow.kept, firstSampleColumns, laterSampleColumns]
  rw [fromConnection_eq, kept]
  rfl

/-- The merged columns of a group have its extremes and its weighted median, those of the
envelope of its rows.
-/
theorem mergedColumns_ofLegacy {group : List LegacyTrend} (metric : Metric)
    (positive : ∀ row ∈ group, 1 ≤ row.samples)
    (small : totalSamples (legacyOfMetric metric group) < 2 ^ 32)
    : MergedColumns (.ofLegacy metric group) (legacyOfMetric metric group) := by
  obtain ⟨least, greatest⟩ := Envelope.extremes_ofRollups (legacyOfMetric metric group)
  have folded := EnvelopeColumns.ofLegacy_eq metric positive small
  refine ⟨folded, ?_, ?_⟩
  · rw [folded]
    exact extremesOf_aggregates least greatest
  · rw [folded]
    change (Envelope.ofRollups (legacyOfMetric metric group)).map Envelope.median = _
    by_cases absent : legacyOfMetric metric group = []
    · rw [if_pos absent, absent]
      rfl
    · obtain ⟨envelope, merged⟩ :=
        Option.ne_none_iff_exists'.mp (absent ∘ Envelope.ofRollups_eq_none_iff.mp)
      rw [if_neg absent, merged]
      exact congrArg some
        (Envelope.median_ofRollups (positive_legacyOfMetric positive) small merged)

/-- A pivoted table has the keys of the legacy rows, and no others. -/
theorem Pivoted.isSome_iff {legacy : List LegacyTrend} {table : TrendTable}
    (pivoted : Pivoted legacy table) (key : StoredKey)
    : (table[key]?).isSome ↔ ∃ row ∈ legacy, row.key = key := by
  rw [Option.isSome_iff_exists]
  constructor
  · intro h
    rcases h with ⟨row, found⟩
    exact exists_mem_of_pivotRow ((pivoted key row).mp found)
  · intro h
    rcases h with ⟨entry, member, own⟩
    have nonempty : legacyUnder key legacy ≠ [] :=
      List.ne_nil_of_mem (KeyedFolds.mem_under_iff.mpr ⟨member, own⟩)
    obtain ⟨row, pivot⟩ := exists_pivotRow nonempty
    exact ⟨row, (pivoted key row).mpr pivot⟩

/-- Opening a database in the long layout succeeds and preserves all its data. Witness: below the
largest integer the chunk loop ends, and what it has pivoted so far holds exactly the rows below
its cursor.
-/
theorem upgrade_preserves (db : Database) (legacy : List LegacyTrend)
    (long : db.longRows = some legacy)
    (positive : ∀ row ∈ legacy, 1 ≤ row.samples)
    (small
      : ∀ key metric,
        totalSamples (legacyOfMetric metric (legacyUnder key legacy)) < 2 ^ 32)
    (inRange : ∀ row ∈ legacy, row.bucketStartMs < i64Max)
    : ∃ rounds, ∀ fuel ≥ rounds, ∃ store,
        Store.fromConnection fuel db = some (.ok store)
        ∧ (∀ key, (store.containerTrend[key]?).isSome ↔ ∃ row ∈ legacy, row.key = key)
        ∧ (∀ key row, store.containerTrend[key]? = some row →
            ∀ metric,
              MergedColumns (row.columns metric)
                (legacyOfMetric metric (legacyUnder key legacy)))
        ∧ store.containerSample = db.keptSamples
        ∧ ∀ again, Store.fromConnection again store.toDatabase = some (.ok store) := by
  obtain ⟨rounds, returns⟩ := migrateTrendLayout_returns inRange
  refine ⟨rounds, fun fuel enough => ?_⟩
  obtain ⟨migrated, ran⟩ := Option.isSome_iff_exists.mp (returns fuel enough)
  have opened : (Store.fromConnection fuel db).isSome := by
    rw [fromConnection_eq, Database.addHostIfMissing_long long, ran]
    rfl
  obtain ⟨result, found⟩ := Option.isSome_iff_exists.mp opened
  obtain ⟨table, rfl, pivoted⟩ := opened_long long found
  refine ⟨_, found, pivoted.isSome_iff, fun key row stored metric => ?_, rfl, reopened _⟩
  have ownPositive : ∀ row ∈ legacyUnder key legacy, 1 ≤ row.samples :=
    fun row member => positive row (KeyedFolds.mem_under_iff.mp member).1
  rw [((pivoted key row).mp stored).columns metric]
  exact mergedColumns_ofLegacy metric ownPositive (small key metric)

theorem totalSamples_legacyUnder_le (legacy : List LegacyTrend) (key : StoredKey) (metric : Metric)
    : totalSamples (legacyOfMetric metric (legacyUnder key legacy))
      ≤ totalSamples (legacy.map LegacyTrend.rollup) := by
  refine totalSamples_le_of_sublist (List.Sublist.map LegacyTrend.rollup ?_)
  exact List.filter_sublist.trans List.filter_sublist

/-- A database from before the host column: two incarnations in one bucket, and a later one. -/
def hostlessDatabase : Database :=
  let row (bucketStartMs : ℤ) (id metric : String) (min median max : ℚ) (samples : ℤ)
      : HostlessTrend :=
    {
      bucketStartMs
      bucketSecs := 60
      id
      name := "web"
      stack := some "shop"
      metric
      min
      max
      median
      samples
    }
  {
    containerSample := none
    containerTrend :=
      some (.hostless [
        row 0 "old" "cpu" 1 2 3 10,
        row 0 "new" "cpu" (1 / 2) 4 5 30,
        row 0 "new" "mem" 100 100 100 30,
        row 7200000 "new" "cpu" 2 2 2 20
      ])
  }

theorem upgrade_preserves_hostless
    : ∃ rounds, ∀ fuel ≥ rounds, ∃ store,
        Store.fromConnection fuel hostlessDatabase = some (.ok store)
        ∧ (store.containerTrend[firstKey]?).isSome
        ∧ ∀ row, store.containerTrend[firstKey]? = some row →
            (row.columns .cpu).med = some (7 / 2)
            ∧ (row.columns .netRx).med = none := by
  let legacy := hostlessDatabase.longRows.getD []
  have long : hostlessDatabase.longRows = some legacy := rfl
  have small (key : StoredKey) (metric : Metric)
      : totalSamples (legacyOfMetric metric (legacyUnder key legacy)) < 2 ^ 32 :=
    (totalSamples_legacyUnder_le legacy key metric).trans_lt (by decide +kernel)
  obtain ⟨rounds, opens⟩ :=
    upgrade_preserves hostlessDatabase legacy long (by decide +kernel) small (by decide +kernel)
  refine ⟨rounds, fun fuel enough => ?_⟩
  obtain ⟨store, opened, rows, merged, _⟩ := opens fuel enough
  refine ⟨store, opened, (rows firstKey).mpr (by decide +kernel), fun row found => ⟨?_, ?_⟩⟩
  · rw [(merged firstKey row found .cpu).median]
    decide +kernel
  · rw [(merged firstKey row found .netRx).median]
    decide +kernel

end DockDoe
