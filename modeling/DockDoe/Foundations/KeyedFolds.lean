import Mathlib

/-! Folding records into an ordered map touches every key on its own.
A map entry is the fold of the records carrying its key, whatever else was folded in,
so statements about a keyed accumulation reduce to statements about one key's records.
-/

namespace KeyedFolds

variable {κ : Type u} {ρ : Type v} {β : Type w} [LinearOrder κ]

/-- Fold one record into the entry stored under its key. -/
def fold (key : ρ → κ) (update : Option β → ρ → β) (entries : Std.ExtTreeMap κ β)
    (record : ρ)
    : Std.ExtTreeMap κ β :=
  entries.alter (key record) (fun old => some (update old record))

/-- The records that carry a key, in their original order. -/
def under (key : ρ → κ) (k : κ) (records : List ρ) : List ρ :=
  records.filter (fun record => key record = k)

/-- Fold a list of records into a map, one at a time. -/
def foldAll (key : ρ → κ) (update : Option β → ρ → β) (entries : Std.ExtTreeMap κ β)
    (records : List ρ)
    : Std.ExtTreeMap κ β :=
  records.foldl (fold key update) entries

@[simp]
theorem mem_under_iff {key : ρ → κ} {k : κ} {records : List ρ} {record : ρ}
    : record ∈ under key k records ↔ record ∈ records ∧ key record = k := by
  simp [under]

@[simp]
theorem under_append (key : ρ → κ) (k : κ) (left right : List ρ)
    : under key k (left ++ right) = under key k left ++ under key k right :=
  List.filter_append left right

theorem under_singleton (key : ρ → κ) (k : κ) (record : ρ)
    : under key k [record] = if key record = k then [record] else [] := by
  by_cases own : key record = k <;> simp [under, own]

/-- Keeping the records of some keys keeps all records of such a key, and none of another. -/
theorem under_filter_keys (key : ρ → κ) (keep : κ → Bool) (k : κ) (records : List ρ)
    : under key k (records.filter (fun record => keep (key record)))
      = if keep k then under key k records else [] := by
  rw [under, List.filter_filter]
  by_cases kept : keep k
  · rw [if_pos kept]
    refine List.filter_congr (fun record _ => ?_)
    by_cases own : key record = k <;> simp [own, kept]
  · rw [if_neg kept, List.filter_eq_nil_iff]
    intro record _
    by_cases own : key record = k <;> simp [own, kept]

/-- One record changes the entry of its own key only. -/
theorem getElem?_fold (key : ρ → κ) (update : Option β → ρ → β)
    (entries : Std.ExtTreeMap κ β) (record : ρ) (k : κ)
    : (fold key update entries record)[k]?
      = if key record = k then some (update entries[k]? record) else entries[k]? := by
  simp only [fold, Std.ExtTreeMap.getElem?_alter, compare_eq_iff_eq]
  by_cases same : key record = k
  · simp [same]
  · simp [same]

/-- An inserted entry replaces the one under its own key only. -/
theorem getElem?_insert (entries : Std.ExtTreeMap κ β) (k : κ) (entry : β) (k' : κ)
    : (entries.insert k entry)[k']? = if k = k' then some entry else entries[k']? := by
  simp only [Std.ExtTreeMap.getElem?_insert, compare_eq_iff_eq]

/-- An entry is the fold of the records that carry its key.
Witness: induction on the records; a record under another key leaves the entry alone.
-/
theorem getElem?_foldAll (key : ρ → κ) (update : Option β → ρ → β)
    (entries : Std.ExtTreeMap κ β) (records : List ρ) (k : κ)
    : (foldAll key update entries records)[k]?
      = (under key k records).foldl (fun old record => some (update old record)) entries[k]? := by
  unfold under
  induction records generalizing entries with
  | nil => rfl
  | cons head rest ih =>
      have step := ih (fold key update entries head)
      rw [getElem?_fold] at step
      by_cases same : key head = k
      · simpa [foldAll, same] using step
      · simpa [foldAll, same] using step

/-- Keeping the entries of some keys leaves those entries as they are. -/
theorem getElem?_filter_keys (entries : Std.ExtTreeMap κ β) (keep : κ → Bool) (k : κ)
    : (entries.filter (fun key _ => keep key))[k]? = if keep k then entries[k]? else none := by
  simp only [Std.ExtTreeMap.getElem?_filter, Std.ExtTreeMap.getKey_eq]
  cases entries[k]? with
  | none => simp
  | some entry => by_cases kept : keep k <;> simp [kept]

/-- Folding a concatenation folds the first part and then the second. -/
theorem foldAll_append (key : ρ → κ) (update : Option β → ρ → β)
    (entries : Std.ExtTreeMap κ β) (left right : List ρ)
    : foldAll key update entries (left ++ right)
      = foldAll key update (foldAll key update entries left) right :=
  List.foldl_append

/-- A fold that starts from an entry and always stores one ends with an entry. -/
theorem foldl_some (update : Option β → ρ → β) (start : β) (records : List ρ)
    : records.foldl (fun old record => some (update old record)) (some start)
      = some (records.foldl (fun old record => update (some old) record) start) := by
  induction records generalizing start with
  | nil => rfl
  | cons head rest ih => exact ih (update (some start) head)

-----------------------------------------------------------------------------------------
-- Entries and groups of records in ascending key order
-----------------------------------------------------------------------------------------

/-- The entries of a map are listed in strictly ascending order of their keys. -/
theorem toList_ascending (entries : Std.ExtTreeMap κ β)
    : entries.toList.Pairwise (fun left right => left.1 < right.1) := by
  have ordered := Std.ExtTreeMap.ordered_keys_toList (t := entries)
  exact ordered.imp (fun less => compare_lt_iff_lt.mp less)

/-- The entries listed are those found under their keys. -/
theorem mem_toList_iff {entries : Std.ExtTreeMap κ β} {k : κ} {entry : β}
    : (k, entry) ∈ entries.toList ↔ entries[k]? = some entry :=
  Std.ExtTreeMap.mem_toList_iff_getElem?_eq_some

/-- The records of each occurring key in their original order, keys ascending. -/
def groups (key : ρ → κ) (records : List ρ) : List (κ × List ρ) :=
  (foldAll key (fun old record => old.getD [] ++ [record]) ∅ records).toList

private theorem foldl_snoc (start : List ρ) (records : List ρ)
    : records.foldl (fun old record => some (old.getD [] ++ [record])) (some start)
      = some (start ++ records) := by
  induction records generalizing start with
  | nil => simp
  | cons head rest ih => simpa using ih (start ++ [head])

/-- A group is the nonempty list of all records with its key: the fold under a key appends the
records one by one.
-/
theorem mem_groups_iff (key : ρ → κ) (records : List ρ) (k : κ) (group : List ρ)
    : (k, group) ∈ groups key records
      ↔ group ≠ [] ∧ group = under key k records := by
  rw [groups, mem_toList_iff, getElem?_foldAll,
    Std.ExtTreeMap.getElem?_empty]
  cases members : under key k records with
  | nil =>
      constructor
      · intro impossible
        cases impossible
      · intro h
        rcases h with ⟨nonempty, empty⟩
        exact absurd empty nonempty
  | cons head rest =>
      have folded := foldl_snoc [head] rest
      simp only [List.foldl_cons, Option.getD_none, List.nil_append, folded,
        List.singleton_append, Option.some.injEq]
      constructor
      · intro same
        subst same
        exact ⟨List.cons_ne_nil _ _, rfl⟩
      · intro h
        rcases h with ⟨_, rfl⟩
        rfl

/-- The groups stand in strictly ascending order of their keys. -/
theorem groups_ascending (key : ρ → κ) (records : List ρ)
    : (groups key records).Pairwise (fun left right => left.1 < right.1) :=
  toList_ascending _

/-- Every record belongs to the group of its key. -/
theorem group_of_mem (key : ρ → κ) {records : List ρ} {record : ρ}
    (member : record ∈ records)
    : (key record, under key (key record) records) ∈ groups key records := by
  refine (mem_groups_iff key records _ _).mpr ⟨?_, rfl⟩
  exact List.ne_nil_of_mem (mem_under_iff.mpr ⟨member, rfl⟩)

/-- A group holds records of its own key only. -/
theorem mem_of_mem_groups {key : ρ → κ} {records : List ρ} {group : κ × List ρ} {record : ρ}
    (occurs : group ∈ groups key records) (member : record ∈ group.2)
    : record ∈ records ∧ key record = group.1 := by
  rw [((mem_groups_iff key records group.1 group.2).mp occurs).2] at member
  exact mem_under_iff.mp member

/-- The occurring keys, ascending. -/
def keysOf (key : ρ → κ) (records : List ρ) : List κ :=
  (groups key records).map Prod.fst

theorem keysOf_ascending (key : ρ → κ) (records : List ρ)
    : (keysOf key records).Pairwise (fun left right => left < right) :=
  List.pairwise_map.mpr (groups_ascending key records)

/-- The keys are those of the records, since no group is empty. -/
theorem mem_keysOf_iff {key : ρ → κ} {records : List ρ} {k : κ}
    : k ∈ keysOf key records ↔ ∃ record ∈ records, key record = k := by
  constructor
  · intro member
    obtain ⟨group, occurs, rfl⟩ := List.mem_map.mp member
    obtain ⟨nonempty, _⟩ := (mem_groups_iff key records group.1 group.2).mp occurs
    obtain ⟨record, inGroup⟩ := List.exists_mem_of_ne_nil _ nonempty
    exact ⟨record, mem_of_mem_groups occurs inGroup⟩
  · intro h
    rcases h with ⟨record, member, rfl⟩
    exact List.mem_map.mpr ⟨_, group_of_mem key member, rfl⟩

/-- The groups are those of the occurring keys. -/
theorem groups_eq_map (key : ρ → κ) (records : List ρ)
    : groups key records = (keysOf key records).map (fun k => (k, under key k records)) := by
  rw [keysOf, List.map_map]
  refine ((List.map_congr_left (fun group occurs => ?_)).trans (List.map_id _)).symm
  exact congrArg (Prod.mk group.1) ((mem_groups_iff key records group.1 group.2).mp occurs).2.symm

/-- The group of one key, picked out of all groups, whose keys are distinct. -/
theorem filter_groups (key : ρ → κ) (records : List ρ) (k : κ)
    : (groups key records).filter (fun group => group.1 = k)
      = if under key k records = [] then [] else [(k, under key k records)] := by
  have distinct : (keysOf key records).Nodup :=
    (keysOf_ascending key records).imp (fun less => ne_of_lt less)
  have occurs : k ∈ keysOf key records ↔ under key k records ≠ [] := by
    rw [mem_keysOf_iff, Ne, List.eq_nil_iff_forall_not_mem]
    simp
  have own : (keysOf key records).filter (fun k' => k' = k)
      = if k ∈ keysOf key records then [k] else [] := by
    rw [List.filter_eq, List.Nodup.count distinct]
    split <;> rfl
  rw [groups_eq_map, List.filter_map]
  change List.map _ ((keysOf key records).filter (fun k' => k' = k)) = _
  rw [own]
  by_cases absent : under key k records = []
  · rw [if_neg (by rw [occurs]; exact not_not.mpr absent), if_pos absent, List.map_nil]
  · rw [if_pos (occurs.mpr absent), if_neg absent, List.map_singleton]

/-- Folding from nothing with a default start is folding each group from that start. Both lists
ascend by key, so equal members are enough.
-/
theorem toList_foldAll (key : ρ → κ) (start : β) (step : β → ρ → β) (records : List ρ)
    : (foldAll key (fun old record => step (old.getD start) record) ∅ records).toList
      = (groups key records).map (fun group => (group.1, group.2.foldl step start)) := by
  have ascending
      : ((groups key records).map (fun group => (group.1, group.2.foldl step start))).Pairwise
          (fun left right => left.1 < right.1) :=
    List.pairwise_map.mpr (groups_ascending key records)
  have irrefl : Std.Irrefl (fun left right : κ × β => left.1 < right.1) :=
    ⟨fun entry => lt_irrefl entry.1⟩
  have asymm : Std.Asymm (fun left right : κ × β => left.1 < right.1) :=
    ⟨fun _ _ less => not_lt_of_gt less⟩
  refine (toList_ascending _).eq_of_mem_iff ascending ?_
  intro h
  rcases h with ⟨k, entry⟩
  have folded
      : (foldAll key (fun old record => step (old.getD start) record) ∅ records)[k]? = some entry
        ↔ under key k records ≠ [] ∧ entry = (under key k records).foldl step start := by
    rw [getElem?_foldAll, Std.ExtTreeMap.getElem?_empty]
    cases under key k records with
    | nil => simp
    | cons head rest =>
        rw [List.foldl_cons, foldl_some, Option.some.injEq]
        simp [eq_comm]
  rw [mem_toList_iff, folded, List.mem_map]
  constructor
  · intro h
    rcases h with ⟨nonempty, rfl⟩
    exact ⟨_, (mem_groups_iff key records k _).mpr ⟨nonempty, rfl⟩, rfl⟩
  · intro h
    rcases h with ⟨⟨k', group⟩, member, same⟩
    obtain ⟨rfl, rfl⟩ := Prod.mk.inj same
    obtain ⟨nonempty, rfl⟩ := (mem_groups_iff key records k' group).mp member
    exact ⟨nonempty, rfl⟩

/-- Taking the records of distinct keys one key after another rearranges the records that carry
one of them. By induction on the keys, each of which takes its own records away.
-/
theorem flatMap_under_perm (key : ρ → κ) (records : List ρ) {keys : List κ}
    (distinct : keys.Nodup)
    : (keys.flatMap (fun k => under key k records)).Perm
        (records.filter (fun record => key record ∈ keys)) := by
  induction keys with
  | nil => simp
  | cons k rest ih =>
      obtain ⟨fresh, distinctRest⟩ := List.nodup_cons.mp distinct
      rw [List.flatMap_cons]
      refine ((ih distinctRest).append_left _).trans ?_
      have split := List.filter_append_perm (fun record => decide (key record = k))
        (records.filter (fun record => key record ∈ k :: rest))
      rw [List.filter_filter, List.filter_filter] at split
      have own
          : records.filter (fun record =>
              decide (key record = k) && decide (key record ∈ k :: rest))
            = under key k records := by
        refine List.filter_congr (fun record _ => ?_)
        by_cases same : key record = k <;> simp [same]
      have others
          : records.filter (fun record =>
              !decide (key record = k) && decide (key record ∈ k :: rest))
            = records.filter (fun record => key record ∈ rest) := by
        refine List.filter_congr (fun record _ => ?_)
        by_cases same : key record = k
        · simp [same, fresh]
        · simp [same]
      rwa [own, others] at split

/-- The groups of the keys that satisfy a predicate hold the records whose keys do: their keys
are distinct, and each holds all records of its key.
-/
theorem groups_flatMap_perm (key : ρ → κ) (records : List ρ) (wanted : κ → Bool)
    : (((groups key records).filter (fun group => wanted group.1)).flatMap Prod.snd).Perm
        (records.filter (fun record => wanted (key record))) := by
  have distinct
      : (((groups key records).filter (fun group => wanted group.1)).map Prod.fst).Nodup := by
    refine List.Pairwise.imp (fun less => ne_of_lt less) (List.pairwise_map.mpr ?_)
    exact (groups_ascending key records).sublist List.filter_sublist
  have contents
      : ((groups key records).filter (fun group => wanted group.1)).flatMap Prod.snd
        = (((groups key records).filter (fun group => wanted group.1)).map Prod.fst).flatMap
            (fun k => under key k records) := by
    rw [List.flatMap_map]
    refine List.flatMap_congr (fun group member => ?_)
    exact ((mem_groups_iff key records _ _).mp (List.mem_of_mem_filter member)).2
  rw [contents]
  refine (flatMap_under_perm key records distinct).trans (List.Perm.of_eq ?_)
  refine List.filter_congr (fun record member => ?_)
  have occurs := group_of_mem key member
  rw [Bool.eq_iff_iff, decide_eq_true_iff]
  constructor
  · intro inKeys
    obtain ⟨group, kept, same⟩ := List.mem_map.mp inKeys
    exact same ▸ (List.mem_filter.mp kept).2
  · intro isWanted
    exact List.mem_map.mpr ⟨_, List.mem_filter.mpr ⟨occurs, isWanted⟩, rfl⟩

/-- Grouping the records of some keys gives the groups of those keys. The keys ascend in both,
and a group is determined by its key.
-/
theorem groups_filter_keys (key : ρ → κ) (keep : κ → Bool) (records : List ρ)
    : groups key (records.filter (fun record => keep (key record)))
      = (groups key records).filter (fun group => keep group.1) := by
  have keys
      : keysOf key (records.filter (fun record => keep (key record)))
        = (keysOf key records).filter keep := by
    refine (keysOf_ascending key _).eq_of_mem_iff ((keysOf_ascending key records).filter keep)
      (fun k => ?_)
    rw [List.mem_filter, mem_keysOf_iff, mem_keysOf_iff]
    constructor
    · intro h
      obtain ⟨record, member, own⟩ := h
      obtain ⟨inRecords, kept⟩ := List.mem_filter.mp member
      exact ⟨⟨record, inRecords, own⟩, own ▸ kept⟩
    · intro h
      obtain ⟨⟨record, inRecords, own⟩, kept⟩ := h
      exact ⟨record, List.mem_filter.mpr ⟨inRecords, own ▸ kept⟩, own⟩
  rw [groups_eq_map, groups_eq_map, keys, List.filter_map]
  refine List.map_congr_left (fun k member => ?_)
  rw [under_filter_keys, if_pos (List.mem_filter.mp member).2]

/-- Groups of a coarser key are made of groups of the finer one.
Witness: both sides list the coarse keys of the records, each with its groups.
-/
theorem groups_groups {μ : Type*} {σ : Type*} [LinearOrder μ] (key : ρ → κ) (coarse : κ → μ)
    (summary : List ρ → σ) (records : List ρ)
    : groups (fun group : κ × σ => coarse group.1)
          ((groups key records).map (fun group => (group.1, summary group.2)))
      = (groups (fun record => coarse (key record)) records).map (fun group =>
          (group.1, (groups key group.2).map (fun fine => (fine.1, summary fine.2)))) := by
  have keys
      : keysOf (fun group : κ × σ => coarse group.1)
            ((groups key records).map (fun group => (group.1, summary group.2)))
        = keysOf (fun record => coarse (key record)) records := by
    refine (keysOf_ascending _ _).eq_of_mem_iff (keysOf_ascending _ _) (fun k => ?_)
    rw [mem_keysOf_iff, mem_keysOf_iff]
    constructor
    · intro h
      obtain ⟨_, member, same⟩ := h
      obtain ⟨group, occurs, rfl⟩ := List.mem_map.mp member
      obtain ⟨nonempty, _⟩ := (mem_groups_iff key records group.1 group.2).mp occurs
      obtain ⟨record, inGroup⟩ := List.exists_mem_of_ne_nil _ nonempty
      obtain ⟨inRecords, own⟩ := mem_of_mem_groups occurs inGroup
      exact ⟨record, inRecords, own ▸ same⟩
    · intro h
      obtain ⟨record, inRecords, same⟩ := h
      exact ⟨_, List.mem_map_of_mem (group_of_mem key inRecords), same⟩
  rw [groups_eq_map, groups_eq_map (fun record => coarse (key record)), keys, List.map_map]
  refine List.map_congr_left (fun k _ => congrArg (Prod.mk k) ?_)
  have own := groups_filter_keys key (fun fine => decide (coarse fine = k)) records
  change groups key (under (fun record => coarse (key record)) k records) = _ at own
  rw [under, List.filter_map]
  exact congrArg (List.map _) own.symm

end KeyedFolds
