import DockDoe.Foundations.FallibleLists
import DockDoe.Foundations.WeightedMeans
import DockDoe.Model.TrendInserts

/-! What storing batches amounts to: a sequence of writes, one per pivoted row, each carrying
the rollups that were merged into it. A stored row is the upsert of the writes to its key.
-/

namespace DockDoe

open Nullable

/-- A rollup of a known metric. -/
abbrev KnownTrend := ContainerTrend × Metric

/-- One pivoted row of a batch: its key and the rollups it is made of, in order. -/
structure Write where
  key : PivotKey
  rollups : List KnownTrend

/-- The rollups of one metric. -/
def ofMetric (metric : Metric) (rollups : List KnownTrend) : List ContainerTrend :=
  (rollups.filter (fun entry => entry.2 = metric)).map Prod.fst

/-- The row that rollups of one key are pivoted into. -/
def WideTrend.ofRollups (rollups : List KnownTrend) : WideTrend :=
  rollups.foldl (fun row entry => row.absorb entry.1 entry.2) .default

namespace Write

/-- The key a write goes to, as the table stores it. -/
def stored (write : Write) : StoredKey :=
  write.key.toStored

/-- The row a write stores, or merges into the one already there. -/
def row (write : Write) : TrendRow :=
  .ofWide (.ofRollups write.rollups)

end Write

/-- The writes of a batch, in primary-key order. -/
def writesOf (trends : List ContainerTrend) : List Write :=
  (KeyedFolds.groups (fun entry : KnownTrend => entry.1.key)
      (trends.filterMap ContainerTrend.known?)).map
    (fun group => { key := group.1, rollups := group.2 })

theorem pivotTrends_toList (trends : List ContainerTrend)
    : (pivotTrends trends).toList
      = (writesOf trends).map (fun write => (write.key, .ofRollups write.rollups)) := by
  refine (KeyedFolds.toList_foldAll (fun entry : KnownTrend => entry.1.key) WideTrend.default
    (fun row entry => row.absorb entry.1 entry.2) (trends.filterMap ContainerTrend.known?)).trans ?_
  rw [writesOf, List.map_map]
  rfl

/-- A table after a sequence of writes. -/
def TrendTable.written (table : TrendTable) (writes : List Write) : TrendTable :=
  KeyedFolds.foldAll Write.stored (fun old write => TrendRow.upsert old write.row) table writes

/-- Storing a batch never fails; it performs the batch's writes. Binding the parameters loses
nothing, so each statement is an upsert.
-/
theorem Store.insertContainerTrends_eq (store : Store) (trends : List ContainerTrend)
    : store.insertContainerTrends trends
      = .ok {
          store with
          containerTrend := store.containerTrend.written (writesOf trends)
        } := by
  have each (table : TrendTable) (entry : PivotKey × WideTrend)
      : table.insertTrend (entry.2.intoValues entry.1)
        = .ok (table.alter entry.1.toStored
            (fun stored => some (TrendRow.upsert stored (.ofWide entry.2)))) := by
    rw [TrendTable.insertTrend, bindTrendParams_intoValues]
    rfl
  cases trends with
  | nil => rfl
  | cons head rest =>
      have ran := FallibleLists.foldlM_ok store.containerTrend (pivotTrends (head :: rest)).toList
        (fun table entry _ => each table entry)
      rw [pivotTrends_toList, List.foldl_map] at ran
      rw [insertContainerTrends, if_neg (by simp), pivotTrends_toList, ran]
      rfl

theorem TrendTable.written_append (table : TrendTable) (left right : List Write)
    : table.written (left ++ right) = (table.written left).written right :=
  KeyedFolds.foldAll_append _ _ table left right

/-- Storing batches performs their writes, one batch after another, by induction on the batches. -/
theorem Store.insertBatches_eq (store : Store) (batches : List (List ContainerTrend))
    : store.insertBatches batches
      = .ok {
          store with
          containerTrend := store.containerTrend.written (batches.flatMap writesOf)
        } := by
  rw [insertBatches, FallibleLists.foldlM_ok store batches
    (fun state trends _ => state.insertContainerTrends_eq trends)]
  congr 1
  induction batches generalizing store with
  | nil => rfl
  | cons trends rest ih =>
      rw [List.foldl_cons, ih, List.flatMap_cons, TrendTable.written_append]

/-- The writes that go to a key. -/
def writesTo (key : StoredKey) (writes : List Write) : List Write :=
  KeyedFolds.under Write.stored key writes

/-- A row after a sequence of writes to its key. -/
def rowAfter (start : Option TrendRow) (writes : List Write) : Option TrendRow :=
  writes.foldl (fun old write => some (TrendRow.upsert old write.row)) start

/-- A stored row is made of the writes to its key. -/
theorem TrendTable.getElem?_written (table : TrendTable) (writes : List Write) (key : StoredKey)
    : (table.written writes)[key]? = rowAfter table[key]? (writesTo key writes) :=
  KeyedFolds.getElem?_foldAll _ _ table writes key

theorem rowAfter_append (start : Option TrendRow) (left right : List Write)
    : rowAfter start (left ++ right) = rowAfter (rowAfter start left) right :=
  List.foldl_append

/-- A key has a row after writes if it had one or there were any, by induction on the writes. -/
theorem isSome_rowAfter (start : Option TrendRow) (writes : List Write)
    : (rowAfter start writes).isSome ↔ start.isSome ∨ writes ≠ [] := by
  induction writes generalizing start with
  | nil => simp [rowAfter]
  | cons write rest ih =>
      rw [rowAfter, List.foldl_cons]
      change (rowAfter _ rest).isSome ↔ _
      rw [ih]
      simp

/-- The known rollups of a batch that go to a key. -/
def knownTo (key : StoredKey) (trends : List ContainerTrend) : List KnownTrend :=
  (trends.filterMap ContainerTrend.known?).filter (fun entry => entry.1.key.toStored = key)

/-- A write's rollups are the batch's known rollups of its key; it has at least one. A write is a
group of the batch.
-/
theorem mem_writesOf {trends : List ContainerTrend} {write : Write}
    : write ∈ writesOf trends
      ↔ write.rollups ≠ []
        ∧ write.rollups
          = KeyedFolds.under (fun entry : KnownTrend => entry.1.key) write.key
              (trends.filterMap ContainerTrend.known?) := by
  rcases write with ⟨key, rollups⟩
  rw [writesOf, List.mem_map]
  constructor
  · intro h
    rcases h with ⟨⟨k, group⟩, member, same⟩
    obtain ⟨rfl, rfl⟩ := Write.mk.inj same
    exact (KeyedFolds.mem_groups_iff _ _ _ _).mp member
  · intro own
    exact ⟨(key, rollups), (KeyedFolds.mem_groups_iff _ _ _ _).mpr own, rfl⟩

/-- The writes to a key carry exactly the batch's rollups of that key: the groups partition the
known rollups, and a stored key takes whole groups.
-/
theorem rollups_writesTo_perm (key : StoredKey) (trends : List ContainerTrend)
    : ((writesTo key (writesOf trends)).flatMap Write.rollups).Perm (knownTo key trends) := by
  have perm := KeyedFolds.groups_flatMap_perm (fun entry : KnownTrend => entry.1.key)
    (trends.filterMap ContainerTrend.known?) (fun k => decide (k.toStored = key))
  have same
      : (writesTo key (writesOf trends)).flatMap Write.rollups
        = ((KeyedFolds.groups (fun entry : KnownTrend => entry.1.key)
              (trends.filterMap ContainerTrend.known?)).filter
            (fun group => decide (group.1.toStored = key))).flatMap Prod.snd := by
    rw [writesTo, KeyedFolds.under, writesOf, List.filter_map, List.flatMap_map]
    congr 1
    exact List.filter_congr (fun group _ => decide_eq_decide.mpr Iff.rfl)
  rw [same]
  exact perm

/-- A metric's rollups among the known ones that satisfy a predicate are those of its name. By
induction on the rollups, since a name belongs to one metric.
-/
theorem ofMetric_filter_known (metric : Metric) (trends : List ContainerTrend)
    (keep : ContainerTrend → Bool)
    : ofMetric metric ((trends.filterMap ContainerTrend.known?).filter (fun entry => keep entry.1))
      = trends.filter (fun t => keep t ∧ t.metric = metric.asStr) := by
  induction trends with
  | nil => rfl
  | cons t rest ih =>
      have named : Metric.ofStr? t.metric = some metric ↔ t.metric = metric.asStr := by
        constructor
        · intro found
          exact (Metric.asStr_of_ofStr? found).symm
        · intro same
          rw [same, Metric.ofStr?_asStr]
      unfold ofMetric at *
      cases found : Metric.ofStr? t.metric with
      | none =>
          have other : t.metric ≠ metric.asStr := fun same => by simp [named.mpr same] at found
          simpa [ContainerTrend.known?, found, other] using ih
      | some slot =>
          have same : slot = metric ↔ t.metric = metric.asStr := by
            rw [← named, found, Option.some.injEq]
          by_cases kept : keep t
          · by_cases own : slot = metric
            · simpa [ContainerTrend.known?, found, kept, own, same.mp own] using ih
            · have other : t.metric ≠ metric.asStr := fun equal => own (same.mpr equal)
              simpa [ContainerTrend.known?, found, kept, own, other] using ih
          · simpa [ContainerTrend.known?, found, kept] using ih

/-- A metric's rollups under a key. -/
theorem ofMetric_under (key : PivotKey) (metric : Metric) (trends : List ContainerTrend)
    : ofMetric metric
          (KeyedFolds.under (fun entry : KnownTrend => entry.1.key) key
            (trends.filterMap ContainerTrend.known?))
        = trends.filter (fun t => t.key = key ∧ t.metric = metric.asStr) := by
  have own := ofMetric_filter_known metric trends (fun t => decide (t.key = key))
  simp only [decide_eq_true_eq] at own
  rw [← own]
  exact congrArg (ofMetric metric) (List.filter_congr (fun _ _ => decide_eq_decide.mpr Iff.rfl))

/-- A key that shares its stored form with no other of a batch receives one write at most: that
of its own group.
-/
theorem writesTo_toStored {trends : List ContainerTrend} {key : PivotKey}
    (alone : ∀ t ∈ trends, t.key.toStored = key.toStored → t.key = key)
    : writesTo key.toStored (writesOf trends)
      = if KeyedFolds.under (fun entry : KnownTrend => entry.1.key) key
            (trends.filterMap ContainerTrend.known?) = [] then
          []
        else
          [{
            key
            rollups := KeyedFolds.under (fun entry : KnownTrend => entry.1.key) key
              (trends.filterMap ContainerTrend.known?)
          }] := by
  have same (group : PivotKey × List KnownTrend)
      (occurs : group ∈ KeyedFolds.groups (fun entry : KnownTrend => entry.1.key)
        (trends.filterMap ContainerTrend.known?))
      : group.1.toStored = key.toStored ↔ group.1 = key := by
    refine ⟨fun stored => ?_, fun equal => congrArg TrendKey.toStored equal⟩
    obtain ⟨nonempty, _⟩ := (KeyedFolds.mem_groups_iff _ _ group.1 group.2).mp occurs
    obtain ⟨entry, inGroup⟩ := List.exists_mem_of_ne_nil _ nonempty
    obtain ⟨known, own⟩ := KeyedFolds.mem_of_mem_groups occurs inGroup
    obtain ⟨t, member, found⟩ := List.mem_filterMap.mp known
    obtain ⟨slot, _, rfl⟩ := Option.map_eq_some_iff.mp found
    rw [← own] at stored ⊢
    exact alone t member stored
  rw [writesTo, KeyedFolds.under, writesOf, List.filter_map]
  have picked := KeyedFolds.filter_groups (fun entry : KnownTrend => entry.1.key)
    (trends.filterMap ContainerTrend.known?) key
  refine (congrArg (List.map _)
    ((List.filter_congr (fun group occurs => ?_)).trans picked)).trans ?_
  · exact decide_eq_decide.mpr (same group occurs)
  · split <;> rfl

end DockDoe
