import DockDoe.Correctness.PivotedRows

/-! Whom a stored row is attributed to, and when that depends on how its rollups are batched.
Id and bucket width are the last ones that come. Of several stacks a batch keeps the first,
while a later batch replaces the stack of an earlier one.
-/

namespace DockDoe

open Nullable

/-- Whom a row is attributed to. -/
structure Attribution where
  id : String
  bucketSecs : ℤ
  stack : Option String
  deriving DecidableEq

def TrendRow.attribution (row : TrendRow) : Attribution :=
  { id := row.id, bucketSecs := row.bucketSecs, stack := row.stack }

/-- Storing the batches one after another leaves every row attributed as storing all of their
rollups at once.
-/
def AttributedAlike (batches : List (List ContainerTrend)) : Prop :=
  ∃ split whole,
    Store.empty.insertBatches batches = .ok split
    ∧ Store.empty.insertContainerTrends batches.flatten = .ok whole
    ∧ ∀ key : StoredKey,
      (split.containerTrend[key]?).map TrendRow.attribution
      = (whole.containerTrend[key]?).map TrendRow.attribution

/-- The first stack of each write whose rollups carry one. -/
def firstStacks (writes : List Write) : List String :=
  writes.filterMap (fun write => write.rollups.findSome? (fun entry => entry.1.stack))

/-- The id and the stored bucket width of the last rollup. -/
def lastOwner (writes : List Write) : Option (String × ℤ) :=
  (writes.flatMap Write.rollups).getLast?.map (fun entry =>
    (entry.1.id, toDb entry.1.bucketSecs))

/-- For every row, the first and the last batch that carry a stack for it carry the same one
first. Bucket starts too great to be stored share a row: its rollups are written in the order
of their starts, and for these the last ones must have the same owner and stack either way.
-/
def StacksAgree (batches : List (List ContainerTrend)) : Prop :=
  ∀ key : StoredKey,
    let split := writesTo key (batches.flatMap writesOf)
    if key.bucketStartMs < i64Max then
      (firstStacks split).head? = (firstStacks split).getLast?
    else
      let whole := writesTo key (writesOf batches.flatten)
      (firstStacks split).getLast? = (firstStacks whole).getLast?
      ∧ lastOwner split = lastOwner whole

-----------------------------------------------------------------------------------------
-- What writes leave in a row
-----------------------------------------------------------------------------------------

/-- The attribution of the row that writes leave. -/
def attributionOf (writes : List Write) : Option Attribution :=
  (lastOwner writes).map (fun (id, bucketSecs) =>
    { id, bucketSecs, stack := (firstStacks writes).getLast? })

theorem firstStacks_concat (writes : List Write) (write : Write)
    : firstStacks (writes ++ [write]) = firstStacks writes ++ write.row.stack.toList := by
  have own : write.row.stack = write.rollups.findSome? (fun entry => entry.1.stack) :=
    WideTrend.stack_ofRollups write.rollups
  rw [firstStacks, List.filterMap_append, ← firstStacks, own]
  cases found : write.rollups.findSome? (fun entry => entry.1.stack) <;> simp [found]

/-- The last write of a key owns its row, with the id and the width of its last rollup. -/
theorem lastOwner_concat (writes : List Write) {write : Write} (nonempty : write.rollups ≠ [])
    : lastOwner (writes ++ [write]) = some (write.row.id, write.row.bucketSecs) := by
  obtain ⟨rollups, entry, same⟩ := (List.eq_nil_or_concat' write.rollups).resolve_left nonempty
  obtain ⟨id, bucketSecs⟩ := WideTrend.owner_ofRollups_concat rollups entry
  rw [← same] at id bucketSecs
  rw [lastOwner, List.flatMap_append, List.flatMap_singleton, same, ← List.append_assoc,
    List.getLast?_concat, Option.map_some]
  refine congrArg some (Prod.ext id.symm ?_)
  exact congrArg toDb bucketSecs.symm

/-- A row has the owner of the last write and the last stack that a write brought.
Witness: induction on the writes, the last one first.
-/
theorem attribution_rowAfter {writes : List Write} (nonempty : ∀ write ∈ writes, write.rollups ≠ [])
    : (rowAfter none writes).map TrendRow.attribution = attributionOf writes := by
  induction writes using List.reverseRecOn with
  | nil => rfl
  | append_singleton writes write ih =>
      have before := ih (fun other member => nonempty other (List.mem_append_left _ member))
      have own := nonempty write (List.mem_append_right _ (List.mem_singleton_self write))
      rw [rowAfter_append, attributionOf, lastOwner_concat writes own, firstStacks_concat,
        Option.map_some]
      change some (TrendRow.upsert (rowAfter none writes) write.row).attribution = _
      refine congrArg some ?_
      cases stored : rowAfter none writes with
      | none =>
          have empty : writes = [] := by
            by_contra some
            have := (isSome_rowAfter none writes).mpr (.inr some)
            rw [stored] at this
            cases this
          subst empty
          cases stack : write.row.stack <;> simp [TrendRow.upsert, TrendRow.attribution, stack,
            firstStacks]
      | some row =>
          rw [stored, Option.map_some] at before
          have stack : row.stack = (firstStacks writes).getLast? := by
            obtain ⟨owner, _, same⟩ := Option.map_eq_some_iff.mp before.symm
            exact (congrArg Attribution.stack same).symm
          cases new : write.row.stack <;>
            simp [TrendRow.upsert, TrendRow.attribution, coalesce, new, stack]

-----------------------------------------------------------------------------------------
-- Batches of one row
-----------------------------------------------------------------------------------------

/-- Every write to a key has rollups. -/
theorem nonempty_of_mem_writesTo {batches : List (List ContainerTrend)} {key : StoredKey}
    {write : Write} (member : write ∈ writesTo key (batches.flatMap writesOf))
    : write.rollups ≠ [] := by
  obtain ⟨trends, _, ofTrends⟩ :=
    List.mem_flatMap.mp (KeyedFolds.mem_under_iff.mp member).1
  exact (mem_writesOf.mp ofTrends).1

theorem writesTo_flatMap (key : StoredKey) (batches : List (List ContainerTrend))
    : writesTo key (batches.flatMap writesOf)
      = batches.flatMap (fun trends => writesTo key (writesOf trends)) :=
  List.filter_flatMap

/-- Both ways of storing write the same rollups to a key, up to their order, by induction on the
batches.
-/
theorem rollups_split_perm (batches : List (List ContainerTrend)) (key : StoredKey)
    : ((writesTo key (batches.flatMap writesOf)).flatMap Write.rollups).Perm
        ((writesTo key (writesOf batches.flatten)).flatMap Write.rollups) := by
  refine List.Perm.trans ?_ (rollups_writesTo_perm key batches.flatten).symm
  rw [writesTo_flatMap, List.flatMap_assoc]
  induction batches with
  | nil => exact .refl []
  | cons trends rest ih =>
      rw [List.flatMap_cons, List.flatten_cons, knownTo, List.filterMap_append,
        List.filter_append]
      exact (rollups_writesTo_perm key trends).append ih

/-- The first stack of a write is that of its rollups. -/
theorem head?_firstStacks (writes : List Write)
    : (firstStacks writes).head?
      = (writes.flatMap Write.rollups).findSome? (fun entry => entry.1.stack) := by
  induction writes with
  | nil => rfl
  | cons write rest ih =>
      rw [firstStacks, List.filterMap_cons, List.flatMap_cons, List.findSome?_append, ← ih]
      cases write.rollups.findSome? (fun entry => entry.1.stack) <;> rfl

/-- Two ways to write the same rollups attribute a row alike when the last stack and the last
owner are the same. Witness: either both write nothing, or both attributions are made of these
two.
-/
theorem attributionOf_eq_iff {left right : List Write}
    (nonempty : ∀ write ∈ left, write.rollups ≠ [])
    (nonempty' : ∀ write ∈ right, write.rollups ≠ [])
    (perm : (left.flatMap Write.rollups).Perm (right.flatMap Write.rollups))
    : attributionOf left = attributionOf right
      ↔ (firstStacks left).getLast? = (firstStacks right).getLast?
        ∧ lastOwner left = lastOwner right := by
  have none_of_nil {writes : List Write} (own : ∀ write ∈ writes, write.rollups ≠ [])
      (empty : lastOwner writes = none)
      : writes = [] := by
    rw [lastOwner, Option.map_eq_none_iff, List.getLast?_eq_none_iff, List.flatMap_eq_nil_iff]
      at empty
    exact List.eq_nil_iff_forall_not_mem.mpr (fun write member =>
      own write member (empty write member))
  have sameNone : lastOwner left = none ↔ lastOwner right = none := by
    rw [lastOwner, lastOwner, Option.map_eq_none_iff, Option.map_eq_none_iff,
      List.getLast?_eq_none_iff, List.getLast?_eq_none_iff, ← List.length_eq_zero_iff,
      perm.length_eq, List.length_eq_zero_iff]
  cases l : lastOwner left with
  | none =>
      have r := sameNone.mp l
      rw [none_of_nil nonempty l, none_of_nil nonempty' r]
      simp [lastOwner]
  | some owner =>
      obtain ⟨owner', r⟩ := Option.ne_none_iff_exists'.mp (fun none => by
        rw [sameNone.mpr none] at l
        cases l)
      rcases owner with ⟨id, bucketSecs⟩
      rcases owner' with ⟨id', bucketSecs'⟩
      simp only [attributionOf, l, r, Option.map_some, Option.some.injEq, Attribution.mk.injEq,
        Prod.mk.injEq]
      tauto

section Storable

variable {key : StoredKey} (storable : key.bucketStartMs < i64Max)

include storable

/-- A start that is stored as it is shares its row with no other, for only the largest integer is
what others are cut down to.
-/
theorem key_eq_of_toStored {left right : PivotKey} (own : left.toStored = key)
    (otherOwn : right.toStored = key)
    : left = right := by
  rcases left with ⟨host, name, start⟩
  rcases right with ⟨host', name', start'⟩
  subst own
  obtain ⟨rfl, rfl, sameStart⟩ := TrendKey.mk.inj otherOwn
  change toDb start < i64Max at storable
  simp only [toDb_eq_min] at storable sameStart
  have : start = start' := by omega
  rw [this]

/-- A batch writes its rollups of such a row in their order, and at once: no other key of the
batch is stored as the row's.
-/
theorem writesTo_of_storable (trends : List ContainerTrend)
    : (writesTo key (writesOf trends)).flatMap Write.rollups = knownTo key trends
      ∧ (writesTo key (writesOf trends)).length ≤ 1 := by
  by_cases occurs : ∃ pivot : PivotKey, pivot.toStored = key
  · obtain ⟨pivot, rfl⟩ := occurs
    have alone : ∀ t ∈ trends, t.key.toStored = pivot.toStored → t.key = pivot :=
      fun t _ stored => key_eq_of_toStored storable stored rfl
    have same
        : KeyedFolds.under (fun entry : KnownTrend => entry.1.key) pivot
            (trends.filterMap ContainerTrend.known?)
          = knownTo pivot.toStored trends := by
      refine List.filter_congr (fun entry _ => decide_eq_decide.mpr ⟨?_, ?_⟩)
      · exact fun equal => congrArg TrendKey.toStored equal
      · exact fun stored => key_eq_of_toStored storable stored rfl
    rw [writesTo_toStored alone, same]
    by_cases empty : knownTo pivot.toStored trends = []
    · simp [empty]
    · simp [empty]
  · have absent : writesTo key (writesOf trends) = [] := by
      refine List.eq_nil_iff_forall_not_mem.mpr (fun write member => occurs ?_)
      exact ⟨write.key, (KeyedFolds.mem_under_iff.mp member).2⟩
    have none : knownTo key trends = [] := by
      refine List.eq_nil_iff_forall_not_mem.mpr (fun entry member => occurs ?_)
      exact ⟨entry.1.key, of_decide_eq_true (List.mem_filter.mp member).2⟩
    rw [absent, none]
    exact ⟨rfl, Nat.zero_le 1⟩

/-- Both ways of storing write the same rollups to such a row, in the same order, by induction on
the batches.
-/
theorem rollups_split_eq (batches : List (List ContainerTrend))
    : (writesTo key (batches.flatMap writesOf)).flatMap Write.rollups
      = (writesTo key (writesOf batches.flatten)).flatMap Write.rollups := by
  rw [(writesTo_of_storable storable batches.flatten).1, writesTo_flatMap, List.flatMap_assoc]
  induction batches with
  | nil => rfl
  | cons trends rest ih =>
      rw [List.flatMap_cons, ih, (writesTo_of_storable storable trends).1, List.flatten_cons,
        knownTo, knownTo, knownTo, List.filterMap_append, List.filter_append]

end Storable

/-- One row is attributed alike exactly when its stacks agree.
Witness: a storable row keeps its owner, and at once it gets the first stack of all.
-/
theorem attributionOf_split_iff (batches : List (List ContainerTrend)) (key : StoredKey)
    : attributionOf (writesTo key (batches.flatMap writesOf))
          = attributionOf (writesTo key (writesOf batches.flatten))
        ↔ if key.bucketStartMs < i64Max then
            (firstStacks (writesTo key (batches.flatMap writesOf))).head?
            = (firstStacks (writesTo key (batches.flatMap writesOf))).getLast?
          else
            (firstStacks (writesTo key (batches.flatMap writesOf))).getLast?
              = (firstStacks (writesTo key (writesOf batches.flatten))).getLast?
            ∧ lastOwner (writesTo key (batches.flatMap writesOf))
              = lastOwner (writesTo key (writesOf batches.flatten)) := by
  have wholeNonempty
      : ∀ write ∈ writesTo key (writesOf batches.flatten), write.rollups ≠ [] :=
    fun write member => (mem_writesOf.mp (KeyedFolds.mem_under_iff.mp member).1).1
  rw [attributionOf_eq_iff (fun _ => nonempty_of_mem_writesTo) wholeNonempty
    (rollups_split_perm batches key)]
  by_cases storable : key.bucketStartMs < i64Max
  · rw [if_pos storable]
    have sameRollups := rollups_split_eq storable batches
    have sameOwner
        : lastOwner (writesTo key (batches.flatMap writesOf))
          = lastOwner (writesTo key (writesOf batches.flatten)) := by
      rw [lastOwner, lastOwner, sameRollups]
    have atOnce
        : (firstStacks (writesTo key (writesOf batches.flatten))).getLast?
          = (firstStacks (writesTo key (batches.flatMap writesOf))).head? := by
      rw [head?_firstStacks, sameRollups, ← head?_firstStacks]
      have single : (firstStacks (writesTo key (writesOf batches.flatten))).length ≤ 1 :=
        (List.length_filterMap_le _ _).trans (writesTo_of_storable storable batches.flatten).2
      match firstStacks (writesTo key (writesOf batches.flatten)), single with
      | [], _ => rfl
      | [only], _ => rfl
    rw [atOnce, eq_comm]
    exact and_iff_left sameOwner
  · rw [if_neg storable]

theorem attribution_written (writes : List Write) (key : StoredKey)
    (nonempty : ∀ write ∈ writesTo key writes, write.rollups ≠ [])
    : ((TrendTable.written ∅ writes)[key]?).map TrendRow.attribution
      = attributionOf (writesTo key writes) := by
  rw [TrendTable.getElem?_written, Std.ExtTreeMap.getElem?_empty, attribution_rowAfter nonempty]

/-- All batches can be stored, and what they write is attributed alike: storing never fails, so
only the written tables are to be compared.
-/
theorem attributedAlike_iff_written (batches : List (List ContainerTrend))
    : AttributedAlike batches
      ↔ ∀ key : StoredKey,
          ((TrendTable.written ∅ (batches.flatMap writesOf))[key]?).map TrendRow.attribution
          = ((TrendTable.written ∅ (writesOf batches.flatten))[key]?).map
              TrendRow.attribution := by
  constructor
  · intro h
    obtain ⟨split, whole, ranSplit, ranWhole, alike⟩ := h
    rw [Store.insertBatches_eq] at ranSplit
    rw [Store.insertContainerTrends_eq] at ranWhole
    obtain rfl := Except.ok.inj ranSplit
    obtain rfl := Except.ok.inj ranWhole
    exact alike
  · intro alike
    exact ⟨_, _, Store.insertBatches_eq _ _, Store.insertContainerTrends_eq _ _, alike⟩

/-- Batching leaves the attribution of all rows alone exactly when their stacks agree. Witness:
per key both ways write the same rollups up to their order, and a row's attribution is that of
its last stack and its last owner.
-/
theorem attributedAlike_iff (batches : List (List ContainerTrend))
    : AttributedAlike batches ↔ StacksAgree batches := by
  have wholeNonempty (key : StoredKey)
      : ∀ write ∈ writesTo key (writesOf batches.flatten), write.rollups ≠ [] :=
    fun write member => (mem_writesOf.mp (KeyedFolds.mem_under_iff.mp member).1).1
  rw [attributedAlike_iff_written]
  refine forall_congr' ?_
  intro key
  rw [attribution_written _ key (fun _ => nonempty_of_mem_writesTo),
    attribution_written _ key (wholeNonempty key)]
  exact attributionOf_split_iff batches key

/-- A container that is recreated under another project within one bucket. -/
def movedBatches : List (List ContainerTrend) :=
  let rollup (id stack : String) : ContainerTrend :=
    {
      bucketStartMs := 60000, bucketSecs := 60, host := "local", id, name := "web"
      stack := some stack, metric := "cpu", min := 1, max := 1, median := 1, samples := 1
    }
  [[rollup "a" "old"], [rollup "b" "new"]]

/-- Stored one after the other the batches leave the new stack, at once the old one. -/
theorem moved_attributedDifferently : ¬ AttributedAlike movedBatches := by
  rw [attributedAlike_iff_written]
  intro alike
  have same := alike { host := "local", name := "web", bucketStartMs := 60000 }
  revert same
  decide +kernel

end DockDoe
