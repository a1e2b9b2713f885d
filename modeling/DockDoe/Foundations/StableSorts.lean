import DockDoe.Foundations.KeyedFolds

/-! Stable sorts by a preorder. Of a list whose repetitions are dropped first, the result does
not depend on the order of the list exactly when no two of its elements tie. A sorted list that
keeps the ties of another in their order is its stable sort, so sorting by two keys is grouping
by the first and sorting each group by the second.
-/

namespace StableSorts

variable {α : Type u} {β : Type v}

/-- A comparison that orders everything, up to ties. -/
structure IsPreorder (le : α → α → Bool) : Prop where
  trans : ∀ a b c, le a b = true → le b c = true → le a c = true
  total : ∀ a b, (le a b || le b a) = true

/-- Elements of a list that compare both ways are equal. -/
def NoTies (le : α → α → Bool) (items : List α) : Prop :=
  ∀ a ∈ items, ∀ b ∈ items, le a b = true → le b a = true → a = b

section Repetitions

variable [BEq α] [LawfulBEq α]

theorem nodup_eraseDups (items : List α) : items.eraseDups.Nodup := by
  cases items with
  | nil => exact List.nodup_nil
  | cons a rest =>
      rw [List.eraseDups_cons, List.nodup_cons]
      constructor
      · simp [List.mem_eraseDups]
      · exact nodup_eraseDups (rest.filter (fun b => !b == a))
termination_by items.length
decreasing_by
  have shorter := List.length_filter_le (fun b => !b == a) rest
  rw [List.length_cons]
  omega

/-- Lists with the same elements have the same ones once. -/
theorem eraseDups_perm {items others : List α} (same : ∀ a, a ∈ items ↔ a ∈ others)
    : items.eraseDups.Perm others.eraseDups := by
  refine (List.perm_ext_iff_of_nodup (nodup_eraseDups _) (nodup_eraseDups _)).mpr ?_
  intro a
  rw [List.mem_eraseDups, List.mem_eraseDups, same]

/-- Two different elements at the start of a list are the first of those left once. -/
theorem pair_sublist_eraseDups {a b : α} (different : a ≠ b) (rest : List α)
    : [a, b].Sublist (a :: b :: rest).eraseDups := by
  have kept : (b :: rest).filter (fun c => !c == a) = b :: rest.filter (fun c => !c == a) := by
    simp [Ne.symm different]
  rw [List.eraseDups_cons, kept, List.eraseDups_cons]
  simp

end Repetitions

/-- Without repetitions, two elements stand in one order only. By induction on the list, by cases
on which of them comes first.
-/
theorem not_pair_sublist_swap {a b : α} {items : List α} (nodup : items.Nodup)
    (forth : [a, b].Sublist items)
    : ¬ [b, a].Sublist items := by
  intro back
  induction items with
  | nil => cases forth
  | cons first rest ih =>
      obtain ⟨fresh, nodup⟩ := List.nodup_cons.mp nodup
      cases forth with
      | cons _ forth =>
          cases back with
          | cons _ back => exact ih nodup forth back
          | cons_cons _ _ => exact fresh (forth.subset (by simp))
      | cons_cons _ forth =>
          cases back with
          | cons _ back => exact fresh (back.subset (by simp))
          | cons_cons _ _ => exact fresh (List.singleton_sublist.mp forth)

/-- A list where those of a kind come first is cut behind them, by induction on the list. -/
theorem filter_append_filter {p : α → Bool} {items : List α}
    (first : items.Pairwise (fun a b => p b = true → p a = true))
    : items = items.filter p ++ items.filter (!p ·) := by
  induction items with
  | nil => rfl
  | cons a rest ih =>
      obtain ⟨later, rest'⟩ := List.pairwise_cons.mp first
      cases kind : p a with
      | true =>
          rw [List.filter_cons_of_pos kind, List.filter_cons_of_neg (by simp [kind]),
            List.cons_append, ← ih rest']
      | false =>
          have others : ∀ b ∈ rest, p b = false := by
            intro b member
            by_contra here
            rw [later b member (by simpa using here)] at kind
            cases kind
          rw [List.filter_cons_of_neg (by simp [kind]), List.filter_cons_of_pos (by simp [kind]),
            List.filter_eq_nil_iff.mpr (fun b member => by simp [others b member]),
            List.nil_append, List.filter_eq_self.mpr (fun b member => by simp [others b member])]

section Sorts

variable [DecidableEq α] {le : α → α → Bool} (preorder : IsPreorder le)

include preorder

/-- A sort of the elements of a list, each once, holds them in order. -/
theorem sortedOnce_spec (items : List α)
    : (items.eraseDups.mergeSort le).Nodup
      ∧ (∀ a, a ∈ items.eraseDups.mergeSort le ↔ a ∈ items)
      ∧ (items.eraseDups.mergeSort le).Pairwise (le · · = true) := by
  refine ⟨?_, ?_, List.pairwise_mergeSort preorder.trans preorder.total _⟩
  · exact (List.mergeSort_perm _ le).nodup_iff.mpr (nodup_eraseDups items)
  · intro a
    rw [List.mem_mergeSort, List.mem_eraseDups]

/-- Without ties, lists with the same elements are sorted in the same way: both results are
sorted, without duplicates and have the same members.
-/
theorem sortedOnce_eq {items others : List α} (noTies : NoTies le items)
    (same : ∀ a, a ∈ items ↔ a ∈ others)
    : items.eraseDups.mergeSort le = others.eraseDups.mergeSort le := by
  have perm : (items.eraseDups.mergeSort le).Perm (others.eraseDups.mergeSort le) :=
    (List.mergeSort_perm _ le).trans
      ((eraseDups_perm same).trans (List.mergeSort_perm _ le).symm)
  obtain ⟨_, members, sorted⟩ := sortedOnce_spec preorder items
  obtain ⟨_, otherMembers, otherSorted⟩ := sortedOnce_spec preorder others
  refine List.Perm.eq_of_pairwise ?_ sorted otherSorted perm
  intro a b inItems inOthers forth back
  exact noTies a ((members a).mp inItems) b ((same b).mpr ((otherMembers b).mp inOthers))
    forth back

/-- Two tied elements at the start of a list keep their order. -/
theorem pair_sublist_sortedOnce {a b : α} (different : a ≠ b) (tied : le a b = true)
    (rest : List α)
    : [a, b].Sublist ((a :: b :: rest).eraseDups.mergeSort le) :=
  List.pair_sublist_mergeSort preorder.trans preorder.total tied
    (pair_sublist_eraseDups different rest)

/-- Sorting what a list is read as depends on its order exactly when two readings tie: of two
that tie, either may be listed first, and the sort keeps them so.
-/
theorem sortedOnce_stable_iff (f : β → α) (items : List β)
    : (∀ others : List β, others.Perm items
        → (others.map f).eraseDups.mergeSort le = (items.map f).eraseDups.mergeSort le)
      ↔ NoTies le (items.map f) := by
  constructor
  · intro stable a inItems b inOthers forth back
    obtain ⟨x, xMember, rfl⟩ := List.mem_map.mp inItems
    obtain ⟨y, yMember, rfl⟩ := List.mem_map.mp inOthers
    by_contra different
    classical
    obtain ⟨rest, perm⟩ : ∃ rest, items.Perm (x :: y :: rest) := by
      have other : y ≠ x := fun same => different (congrArg f same.symm)
      have yLeft : y ∈ items.erase x := (List.mem_erase_of_ne other).mpr yMember
      exact ⟨(items.erase x).erase y,
        (List.perm_cons_erase xMember).trans ((List.perm_cons_erase yLeft).cons x)⟩
    have first := stable (x :: y :: rest) perm.symm
    have second := stable (y :: x :: rest) ((List.Perm.swap x y rest).trans perm.symm)
    have xFirst := pair_sublist_sortedOnce preorder different forth (rest.map f)
    have yFirst := pair_sublist_sortedOnce preorder (Ne.symm different) back (rest.map f)
    rw [List.map_cons, List.map_cons] at first second
    rw [first] at xFirst
    rw [second] at yFirst
    exact not_pair_sublist_swap (sortedOnce_spec preorder _).1 xFirst yFirst
  · intro noTies others perm
    refine (sortedOnce_eq preorder noTies ?_).symm
    intro a
    exact (perm.symm.map f).mem_iff

end Sorts

-----------------------------------------------------------------------------------------
-- The stable sort of a list
-----------------------------------------------------------------------------------------

/-- Elements that compare both ways. -/
def tied (le : α → α → Bool) (a b : α) : Bool :=
  le a b && le b a

section Stability

variable {le : α → α → Bool} (preorder : IsPreorder le)

include preorder

/-- Sorting keeps the ties of an element in their order: they are sorted already, so they stay a
sublist.
-/
theorem filter_mergeSort (items : List α) (a : α)
    : (items.mergeSort le).filter (tied le a) = items.filter (tied le a) := by
  have ordered : (items.filter (tied le a)).Pairwise (le · · = true) := by
    refine List.pairwise_of_forall_mem_list ?_
    intro b inTies c alsoInTies
    have forth := Bool.and_eq_true_iff.mp (List.mem_filter.mp inTies).2
    have back := Bool.and_eq_true_iff.mp (List.mem_filter.mp alsoInTies).2
    exact preorder.trans b a c forth.2 back.1
  have kept : (items.filter (tied le a)).Sublist (items.mergeSort le) :=
    List.sublist_mergeSort preorder.trans preorder.total ordered List.filter_sublist
  have inside := kept.filter (tied le a)
  rw [List.filter_filter] at inside
  simp only [Bool.and_self] at inside
  exact (inside.eq_of_length ((List.mergeSort_perm items le).filter _).length_eq.symm).symm

/-- Sorted lists of the same elements that order their ties alike are the same. By induction on
the lists, whose heads are least and so tie.
-/
theorem eq_of_ties {items others : List α} (perm : items.Perm others)
    (ordered : items.Pairwise (le · · = true)) (othersOrdered : others.Pairwise (le · · = true))
    (ties : ∀ a, items.filter (tied le a) = others.filter (tied le a))
    : items = others := by
  induction items generalizing others with
  | nil => exact perm.nil_eq
  | cons a rest ih =>
      cases others with
      | nil => exact absurd perm.symm.nil_eq (List.cons_ne_nil a rest).symm
      | cons b tail =>
          have reflexive (c : α) : le c c = true := by simpa using preorder.total c c
          have first {c d : α} {l : List α} (sorted : (c :: l).Pairwise (le · · = true))
              (member : d ∈ c :: l)
              : le c d = true := by
            rcases List.mem_cons.mp member with rfl | later
            · exact reflexive _
            · exact (List.pairwise_cons.mp sorted).1 d later
          have same : a = b := by
            have forth : le a b = true := first ordered (perm.mem_iff.mpr List.mem_cons_self)
            have back : le b a = true :=
              first othersOrdered (perm.mem_iff.mp List.mem_cons_self)
            have heads := ties a
            rw [List.filter_cons_of_pos (by simp [tied, reflexive]),
              List.filter_cons_of_pos (by simp [tied, forth, back])] at heads
            exact (List.cons.inj heads).1
          subst same
          refine congrArg (List.cons a) (ih perm.cons_inv (List.pairwise_cons.mp ordered).2
            (List.pairwise_cons.mp othersOrdered).2 ?_)
          intro c
          have cut := ties c
          cases tie : tied le c a with
          | true =>
              rw [List.filter_cons_of_pos tie, List.filter_cons_of_pos tie] at cut
              exact (List.cons.inj cut).2
          | false =>
              rwa [List.filter_cons_of_neg (by simp [tie]),
                List.filter_cons_of_neg (by simp [tie])] at cut

/-- A sorted arrangement of a list that keeps its ties in their order is its stable sort. -/
theorem eq_mergeSort {items sorted : List α} (perm : sorted.Perm items)
    (ordered : sorted.Pairwise (le · · = true))
    (ties : ∀ a, sorted.filter (tied le a) = items.filter (tied le a))
    : sorted = items.mergeSort le := by
  refine eq_of_ties preorder (perm.trans (List.mergeSort_perm items le).symm) ordered
    (List.pairwise_mergeSort preorder.trans preorder.total items) ?_
  intro a
  rw [ties, filter_mergeSort preorder]

end Stability

-----------------------------------------------------------------------------------------
-- Sorting by two keys
-----------------------------------------------------------------------------------------

section Grouped

open KeyedFolds

variable {κ : Type u} {ν : Type v} {ρ : Type w} [LinearOrder κ] [LinearOrder ν]
  (key : ρ → κ) (name : ρ → ν)

/-- The comparison of names. -/
def byName (a b : ρ) : Bool :=
  (compare (name a) (name b)).isLE

/-- The comparison of keys, and of names where the keys are the same. -/
def byKeyThenName (a b : ρ) : Bool :=
  ((compare (key a) (key b)).then (compare (name a) (name b))).isLE

variable {key name}

theorem compare_isLE {α : Type u} [LinearOrder α] {x y : α}
    : (compare x y).isLE = true ↔ x ≤ y := by
  rw [← Ordering.ne_gt_iff_isLE]
  exact compare_le_iff_le

theorem byName_iff {a b : ρ} : byName name a b = true ↔ name a ≤ name b :=
  compare_isLE

theorem byKeyThenName_iff {a b : ρ}
    : byKeyThenName key name a b = true
      ↔ key a < key b ∨ key a = key b ∧ name a ≤ name b := by
  rw [byKeyThenName, Ordering.isLE_then_iff_or, compare_lt_iff_lt, compare_eq_iff_eq,
    compare_isLE]

theorem byName_preorder : IsPreorder (byName (ρ := ρ) name) := by
  constructor
  · intro a b c forth further
    rw [byName_iff] at *
    exact forth.trans further
  · intro a b
    rw [Bool.or_eq_true_iff, byName_iff, byName_iff]
    exact le_total _ _

/-- Sorting by name sorts the names. -/
theorem mergeSort_byName (records : List ρ)
    : (records.mergeSort (byName name)).Pairwise (fun a b => name a ≤ name b) := by
  have preorder : IsPreorder (byName name) := byName_preorder
  exact (List.pairwise_mergeSort preorder.trans preorder.total records).imp byName_iff.mp

/-- The order by key and then by name is total and transitive, by cases on whether the keys
differ.
-/
theorem byKeyThenName_preorder : IsPreorder (byKeyThenName (ρ := ρ) key name) := by
  constructor
  · intro a b c forth further
    rw [byKeyThenName_iff] at *
    rcases forth with less | ⟨same, names⟩
    · rcases further with alsoLess | ⟨alsoSame, _⟩
      · exact .inl (less.trans alsoLess)
      · exact .inl (alsoSame ▸ less)
    · rcases further with less | ⟨alsoSame, alsoNames⟩
      · exact .inl (same ▸ less)
      · exact .inr ⟨same.trans alsoSame, names.trans alsoNames⟩
  · intro a b
    rw [Bool.or_eq_true_iff, byKeyThenName_iff, byKeyThenName_iff]
    rcases lt_trichotomy (key a) (key b) with less | same | greater
    · exact .inl (.inl less)
    · rcases le_total (name a) (name b) with names | names
      · exact .inl (.inr ⟨same, names⟩)
      · exact .inr (.inr ⟨same.symm, names⟩)
    · exact .inr (.inl greater)

/-- A tie is one of the keys and of the names, since neither key can be less. -/
theorem tied_byKeyThenName (a b : ρ)
    : tied (byKeyThenName key name) a b
      = (decide (key b = key a) && tied (byName name) a b) := by
  rw [Bool.eq_iff_iff]
  simp only [tied, Bool.and_eq_true, byKeyThenName_iff, byName_iff, decide_eq_true_eq]
  constructor
  · intro both
    obtain ⟨forth, back⟩ := both
    rcases forth with less | ⟨same, names⟩
    · rcases back with alsoLess | ⟨same, _⟩
      · exact absurd alsoLess less.asymm
      · exact absurd same less.ne'
    · rcases back with less | ⟨_, alsoNames⟩
      · exact absurd same less.ne'
      · exact ⟨same.symm, names, alsoNames⟩
  · intro both
    obtain ⟨same, names, alsoNames⟩ := both
    exact ⟨.inr ⟨same.symm, names⟩, .inr ⟨same, alsoNames⟩⟩

variable (key name)

/-- The groups of a list by key, each sorted by name, one behind the other. -/
def sortedGroups (records : List ρ) : List ρ :=
  (groups key records).flatMap (fun group => group.2.mergeSort (byName name))

variable {key name}

/-- The groups hold the records. -/
theorem sortedGroups_perm (records : List ρ) : (sortedGroups key name records).Perm records := by
  have whole := groups_flatMap_perm key records (fun _ => true)
  simp only [List.filter_true] at whole
  refine List.Perm.trans ?_ whole
  exact List.Perm.flatMap_left _ (fun group _ => List.mergeSort_perm group.2 _)

/-- One behind the other, the groups are sorted by key, and by name in each, as the keys of the
groups ascend.
-/
theorem sortedGroups_ordered (records : List ρ)
    : (sortedGroups key name records).Pairwise (byKeyThenName key name · · = true) := by
  refine List.pairwise_flatMap.mpr ⟨?_, ?_⟩
  · intro group occurs
    refine (mergeSort_byName group.2).imp_of_mem ?_
    intro a b inGroup alsoInGroup names
    have own := (mem_of_mem_groups occurs (List.mem_mergeSort.mp inGroup)).2
    have alsoOwn := (mem_of_mem_groups occurs (List.mem_mergeSort.mp alsoInGroup)).2
    exact byKeyThenName_iff.mpr (.inr ⟨own.trans alsoOwn.symm, names⟩)
  · refine (groups_ascending key records).imp_of_mem ?_
    intro first second occurs alsoOccurs less a inFirst b inSecond
    have own := (mem_of_mem_groups occurs (List.mem_mergeSort.mp inFirst)).2
    have alsoOwn := (mem_of_mem_groups alsoOccurs (List.mem_mergeSort.mp inSecond)).2
    exact byKeyThenName_iff.mpr (.inl (by rwa [own, alsoOwn]))

/-- The ties of a record within a group stand in the order of the list: all of them in its own
group, none in the others.
-/
theorem filter_tied_group {records : List ρ} {group : κ × List ρ}
    (occurs : group ∈ groups key records) (a : ρ)
    : (group.2.mergeSort (byName name)).filter (tied (byKeyThenName key name) a)
      = if group.1 = key a then group.2.filter (tied (byKeyThenName key name) a) else [] := by
  have inside {members : List ρ} (own : ∀ b ∈ members, key b = group.1)
      : members.filter (tied (byKeyThenName key name) a)
        = members.filter (fun b => decide (group.1 = key a) && tied (byName name) a b) := by
    refine List.filter_congr (fun b member => ?_)
    rw [tied_byKeyThenName, own b member]
  have own (b : ρ) (member : b ∈ group.2) := (mem_of_mem_groups occurs member).2
  rw [inside own, inside (fun b member => own b (List.mem_mergeSort.mp member))]
  split
  next same =>
    simp only [same, decide_true, Bool.true_and]
    exact filter_mergeSort byName_preorder group.2 a
  next other =>
    simp [other]

/-- The groups keep the ties of a record in the order of the list. Only its own group has any,
and that one is sorted by a stable sort.
-/
theorem sortedGroups_ties (records : List ρ) (a : ρ)
    : (sortedGroups key name records).filter (tied (byKeyThenName key name) a)
      = records.filter (tied (byKeyThenName key name) a) := by
  have inKey
      : (under key (key a) records).filter (tied (byKeyThenName key name) a)
        = records.filter (tied (byKeyThenName key name) a) := by
    rw [under, List.filter_filter]
    refine List.filter_congr (fun b _ => ?_)
    rw [tied_byKeyThenName, Bool.and_comm, ← Bool.and_assoc, Bool.and_self]
  calc (sortedGroups key name records).filter (tied (byKeyThenName key name) a)
      = (groups key records).flatMap (fun group =>
          if group.1 = key a then group.2.filter (tied (byKeyThenName key name) a)
          else []) := by
        rw [sortedGroups, List.filter_flatMap]
        exact List.flatMap_congr (fun group occurs => filter_tied_group occurs a)
    _ = ((groups key records).filter (fun group => group.1 = key a)).flatMap
          (fun group => group.2.filter (tied (byKeyThenName key name) a)) := by
        induction groups key records with
        | nil => rfl
        | cons group rest ih =>
            rw [List.flatMap_cons, ih]
            by_cases same : group.1 = key a
            · rw [if_pos same, List.filter_cons_of_pos (by simpa using same), List.flatMap_cons]
            · rw [if_neg same, List.filter_cons_of_neg (by simpa using same), List.nil_append]
    _ = (under key (key a) records).filter (tied (byKeyThenName key name) a) := by
        rw [filter_groups]
        split
        next none => rw [none]; rfl
        next => simp
    _ = records.filter (tied (byKeyThenName key name) a) := inKey

/-- Sorting by key and name is sorting each group of a key by name. -/
theorem mergeSort_byKeyThenName (records : List ρ)
    : records.mergeSort (byKeyThenName key name) = sortedGroups key name records :=
  (eq_mergeSort byKeyThenName_preorder (sortedGroups_perm records)
    (sortedGroups_ordered records) (sortedGroups_ties records)).symm

end Grouped

end StableSorts
