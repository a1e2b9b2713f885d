import Mathlib

/-! Cutting a list at delimiters, one element at a time.
A line ends with one delimiter, a block with the first two in a row. Both cuts are found
again after the other elements are replaced, which is what a lossy encoding does to a text.
-/

namespace Delimiters

variable {α : Type u} {β : Type v}

/-- The delimited lines of a list, without their delimiters, and the rest. -/
def splitLines (isEnd : α → Bool) : List α → List (List α) × List α
  | [] => ([], [])
  | a :: rest =>
      if isEnd a then
        ([] :: (splitLines isEnd rest).1, (splitLines isEnd rest).2)
      else
        match (splitLines isEnd rest).1 with
        | [] => ([], a :: (splitLines isEnd rest).2)
        | first :: more => ((a :: first) :: more, (splitLines isEnd rest).2)

/-- All lines of a list; the last one may lack its delimiter. -/
def lines (isEnd : α → Bool) (items : List α) : List (List α) :=
  let (done, rest) := splitLines isEnd items
  if rest.isEmpty then done else done ++ [rest]

/-- The list up to and including its first two delimiters in a row, and the rest. -/
def takeBlock (isEnd : α → Bool) : List α → Option (List α × List α)
  | [] => none
  | [_] => none
  | a :: b :: rest =>
      if isEnd a && isEnd b then
        some ([a, b], rest)
      else
        (takeBlock isEnd (b :: rest)).map (fun (block, rest) => (a :: block, rest))

/-- All blocks of a list, and the rest that does not complete one. -/
def blocks (isEnd : α → Bool) : List α → List (List α) × List α
  | [] => ([], [])
  | [a] => ([], [a])
  | a :: b :: rest =>
      if isEnd a && isEnd b then
        ([a, b] :: (blocks isEnd rest).1, (blocks isEnd rest).2)
      else
        match (blocks isEnd (b :: rest)).1 with
        | [] => ([], a :: (blocks isEnd (b :: rest)).2)
        | first :: more => ((a :: first) :: more, (blocks isEnd (b :: rest)).2)

section Blocks

variable {isEnd : α → Bool} {items block rest : List α}

/-- What is left behind a block is shorter, by cases of the search. -/
theorem takeBlock_length (found : takeBlock isEnd items = some (block, rest))
    : rest.length < items.length := by
  fun_induction takeBlock isEnd items generalizing block rest with
  | case1 => cases found
  | case2 => cases found
  | case3 a b tail both =>
      obtain ⟨rfl, rfl⟩ := Prod.mk.inj (Option.some.inj found)
      simp only [List.length_cons]
      omega
  | case4 a b tail both ih =>
      obtain ⟨⟨inner, after⟩, foundInner, same⟩ := Option.map_eq_some_iff.mp found
      obtain ⟨rfl, rfl⟩ := Prod.mk.inj same
      exact (ih foundInner).trans (Nat.lt_succ_self _)

/-- Taking a block takes the first of all blocks. Both functions walk the list alike, so the
proof is by induction on the search.
-/
theorem blocks_of_takeBlock
    : blocks isEnd items
      = match takeBlock isEnd items with
        | none => ([], items)
        | some (block, rest) => (block :: (blocks isEnd rest).1, (blocks isEnd rest).2) := by
  fun_induction takeBlock isEnd items with
  | case1 => rfl
  | case2 a => rfl
  | case3 a b tail both => simp only [blocks, both, if_true]
  | case4 a b tail both ih =>
      rw [blocks, if_neg both]
      cases found : takeBlock isEnd (b :: tail) with
      | none =>
          rw [found] at ih
          simp only [ih, Option.map_none]
      | some split =>
          rw [found] at ih
          simp only [ih, Option.map_some]

/-- The blocks and the unfinished rest make up the list, by induction on the search for blocks. -/
theorem blocks_flatten (isEnd : α → Bool) (items : List α)
    : (blocks isEnd items).1.flatten ++ (blocks isEnd items).2 = items := by
  fun_induction blocks isEnd items with
  | case1 => rfl
  | case2 a => rfl
  | case3 a b tail both ih => simpa using ih
  | case4 a b tail both none ih =>
      rw [none] at ih
      simpa using ih
  | case5 a b tail both first more some ih =>
      rw [some] at ih
      simpa using ih

/-- Blocks can be cut as the list arrives: what is left over joins the next part.
Witness: a block of the first part is the first block of the whole.
-/
theorem blocks_append (isEnd : α → Bool) (left right : List α)
    : blocks isEnd (left ++ right)
      = ((blocks isEnd left).1 ++ (blocks isEnd ((blocks isEnd left).2 ++ right)).1,
          (blocks isEnd ((blocks isEnd left).2 ++ right)).2) := by
  fun_induction blocks isEnd left with
  | case1 => rfl
  | case2 a => rfl
  | case3 a b tail both ih =>
      simp only [List.cons_append, blocks, both, if_true, ih]
  | case4 a b tail both none ih =>
      have whole := blocks_flatten isEnd (b :: tail)
      rw [none, List.flatten_nil, List.nil_append] at whole
      simp only [whole, List.nil_append, List.cons_append]
  | case5 a b tail both first more some ih =>
      rw [List.cons_append] at ih
      simp only [List.cons_append, blocks, if_neg both, ih, some]

/-- What is left over completes no block. -/
theorem blocks_leftover (isEnd : α → Bool) (items : List α)
    : (blocks isEnd (blocks isEnd items).2).1 = [] := by
  have again := congrArg (fun cut => cut.1.length) (blocks_append isEnd items [])
  simp only [List.append_nil, List.length_append] at again
  exact List.length_eq_zero_iff.mp (by omega)

end Blocks

theorem splitLines_subset_lines (isEnd : α → Bool) (items : List α)
    : (splitLines isEnd items).1 ⊆ lines isEnd items := by
  simp only [lines]
  split
  · exact List.Subset.refl _
  · exact List.subset_append_left _ _

/-- The elements of a line are elements of the list, by induction on the splitting. -/
theorem mem_of_mem_lines {isEnd : α → Bool} {items line : List α}
    (inLines : line ∈ lines isEnd items) {a : α} (member : a ∈ line)
    : a ∈ items := by
  have parts (items : List α)
      : (∀ line ∈ (splitLines isEnd items).1, ∀ a ∈ line, a ∈ items)
        ∧ ∀ a ∈ (splitLines isEnd items).2, a ∈ items := by
    fun_induction splitLines isEnd items with
    | case1 => simp
    | case2 a rest delimiter ih => grind
    | case3 a rest other none ih => grind
    | case4 a rest other first more some ih => grind
  obtain ⟨done, rest⟩ := parts items
  simp only [lines] at inLines
  split at inLines
  · exact done line inLines a member
  · rcases List.mem_append.mp inLines with inDone | inRest
    · exact done line inDone a member
    · exact rest a ((List.mem_singleton.mp inRest) ▸ member)

/-- The length of joined parts, by induction on the parts. -/
theorem length_intercalate (separator : List α) (parts : List (List α))
    : (separator.intercalate parts).length
      = (parts.map List.length).sum + separator.length * (parts.length - 1) := by
  induction parts with
  | nil => simp [List.intercalate_nil]
  | cons first rest ih =>
      cases rest with
      | nil => simp [List.intercalate_singleton]
      | cons second more =>
          rw [List.intercalate_cons_cons, List.length_append, List.length_append, ih]
          simp only [List.map_cons, List.sum_cons, List.length_cons]
          rw [Nat.add_sub_cancel, Nat.add_sub_cancel, Nat.mul_succ]
          omega

/-- Every delimiter becomes one delimiter, every other element some other elements. -/
structure Keeps (isEnd : α → Bool) (isEnd' : β → Bool) (f : α → List β) : Prop where
  ends : ∀ a, isEnd a = true → ∃ b, f a = [b] ∧ isEnd' b = true
  others : ∀ a, isEnd a = false → f a ≠ [] ∧ ∀ b ∈ f a, isEnd' b = false

section Keeps

variable {isEnd : α → Bool} {isEnd' : β → Bool} {f : α → List β}

/-- Other elements in front of a list join its first line, by induction on them. -/
theorem splitLines_others {others : List β} (none : ∀ b ∈ others, isEnd' b = false)
    (rest : List β)
    : splitLines isEnd' (others ++ rest)
      = match (splitLines isEnd' rest).1 with
        | [] => ([], others ++ (splitLines isEnd' rest).2)
        | first :: more => ((others ++ first) :: more, (splitLines isEnd' rest).2) := by
  induction others with
  | nil =>
      cases found : (splitLines isEnd' rest).1 with
      | nil => exact Prod.ext found rfl
      | cons first more => exact Prod.ext found rfl
  | cons head tail ih =>
      have headOther := none head List.mem_cons_self
      have later := ih (fun b member => none b (List.mem_cons_of_mem _ member))
      rw [List.cons_append, splitLines, if_neg (by simp [headOther]), later]
      cases (splitLines isEnd' rest).1 <;> rfl

/-- Lines are split alike after other elements are replaced. By induction on the list: a
delimiter stays one, and what replaces another element joins the first line.
-/
theorem splitLines_flatMap (keeps : Keeps isEnd isEnd' f) (items : List α)
    : splitLines isEnd' (items.flatMap f)
      = ((splitLines isEnd items).1.map (fun line => line.flatMap f),
          (splitLines isEnd items).2.flatMap f) := by
  induction items with
  | nil => rfl
  | cons a rest ih =>
      rw [List.flatMap_cons]
      cases delimiter : isEnd a with
      | true =>
          obtain ⟨b, single, ends⟩ := keeps.ends a delimiter
          rw [single, List.singleton_append, splitLines, if_pos ends, splitLines, if_pos delimiter,
            ih]
          rfl
      | false =>
          rw [splitLines_others (keeps.others a delimiter).2, ih, splitLines,
            if_neg (by simp [delimiter])]
          cases (splitLines isEnd rest).1 <;> simp

/-- The lines of a text are found again after its other elements are replaced, none of which
disappears.
-/
theorem lines_flatMap (keeps : Keeps isEnd isEnd' f) (items : List α)
    : lines isEnd' (items.flatMap f) = (lines isEnd items).map (fun line => line.flatMap f) := by
  have nonempty (a : α) : f a ≠ [] := by
    cases delimiter : isEnd a with
    | true =>
        obtain ⟨b, single, _⟩ := keeps.ends a delimiter
        simp [single]
    | false => exact (keeps.others a delimiter).1
  simp only [lines, splitLines_flatMap keeps]
  cases (splitLines isEnd items).2 with
  | nil => simp
  | cons a rest =>
      have present : ((a :: rest).flatMap f).isEmpty = false := by
        rw [List.flatMap_cons, List.isEmpty_eq_false_iff, Ne, List.append_eq_nil_iff]
        exact fun both => nonempty a both.1
      simp only [present, List.isEmpty_cons]
      simp

/-- An other element in front of a list joins its first block. -/
theorem blocks_other {b : β} (other : isEnd' b = false) (rest : List β)
    : blocks isEnd' (b :: rest)
      = match (blocks isEnd' rest).1 with
        | [] => ([], b :: (blocks isEnd' rest).2)
        | first :: more => ((b :: first) :: more, (blocks isEnd' rest).2) := by
  cases rest with
  | nil => rfl
  | cons next tail => rw [blocks, if_neg (by simp [other])]

/-- Other elements in front of a list join its first block, by induction on them. -/
theorem blocks_others {others : List β} (none : ∀ b ∈ others, isEnd' b = false)
    (rest : List β)
    : blocks isEnd' (others ++ rest)
      = match (blocks isEnd' rest).1 with
        | [] => ([], others ++ (blocks isEnd' rest).2)
        | first :: more => ((others ++ first) :: more, (blocks isEnd' rest).2) := by
  induction others with
  | nil =>
      cases found : (blocks isEnd' rest).1 with
      | nil => exact Prod.ext found rfl
      | cons first more => exact Prod.ext found rfl
  | cons head tail ih =>
      have later := ih (fun b member => none b (List.mem_cons_of_mem _ member))
      rw [List.cons_append, blocks_other (none head List.mem_cons_self), later]
      cases (blocks isEnd' rest).1 <;> rfl

/-- The blocks of a text are found again after its other elements are replaced. By induction on
the search: two delimiters stay two, and where one element is not a delimiter its replacement is
joined to what follows.
-/
theorem blocks_flatMap (keeps : Keeps isEnd isEnd' f) (items : List α)
    : blocks isEnd' (items.flatMap f)
      = ((blocks isEnd items).1.map (fun block => block.flatMap f),
          (blocks isEnd items).2.flatMap f) := by
  have join {a b : α} {tail : List α} (notBoth : ¬ (isEnd a && isEnd b) = true)
      : blocks isEnd' (f a ++ (b :: tail).flatMap f)
        = match (blocks isEnd' ((b :: tail).flatMap f)).1 with
          | [] => ([], f a ++ (blocks isEnd' ((b :: tail).flatMap f)).2)
          | first :: more =>
              ((f a ++ first) :: more, (blocks isEnd' ((b :: tail).flatMap f)).2) := by
    cases delimiter : isEnd a with
    | false => exact blocks_others (keeps.others a delimiter).2 _
    | true =>
        obtain ⟨x, single, _⟩ := keeps.ends a delimiter
        have otherB : isEnd b = false := by simpa [delimiter] using notBoth
        obtain ⟨nonempty, none⟩ := keeps.others b otherB
        obtain ⟨y, ys, cons⟩ := List.exists_cons_of_ne_nil nonempty
        have otherY : isEnd' y = false := none y (by simp [cons])
        rw [single, List.flatMap_cons, cons]
        simp only [List.cons_append, List.nil_append]
        rw [blocks, if_neg (by simp [otherY])]
  fun_induction blocks isEnd items with
  | case1 => rfl
  | case2 a =>
      rw [List.flatMap_singleton]
      cases delimiter : isEnd a with
      | true =>
          obtain ⟨b, single, _⟩ := keeps.ends a delimiter
          simp [single, blocks]
      | false =>
          have alone := blocks_others (keeps.others a delimiter).2 ([] : List β)
          simpa [blocks] using alone
  | case3 a b tail both ih =>
      simp only [Bool.and_eq_true] at both
      obtain ⟨x, singleX, endX⟩ := keeps.ends a both.1
      obtain ⟨y, singleY, endY⟩ := keeps.ends b both.2
      simp [singleX, singleY, blocks, endX, endY, ih]
  | case4 a b tail notBoth none ih =>
      rw [List.flatMap_cons, join notBoth, ih, none]
      rfl
  | case5 a b tail notBoth first more some ih =>
      rw [List.flatMap_cons, join notBoth, ih, some]
      rfl

end Keeps

section Map

variable {isEnd : α → Bool} {isEnd' : β → Bool} {g : α → β}

theorem keeps_map (same : ∀ a, isEnd' (g a) = isEnd a) : Keeps isEnd isEnd' (fun a => [g a]) :=
  ⟨fun a delimiter => ⟨g a, rfl, (same a).trans delimiter⟩,
    fun a other => ⟨List.cons_ne_nil _ _, by simpa [same] using other⟩⟩

theorem lines_map (same : ∀ a, isEnd' (g a) = isEnd a) (items : List α)
    : lines isEnd' (items.map g) = (lines isEnd items).map (fun line => line.map g) := by
  simpa only [← List.map_eq_flatMap] using lines_flatMap (keeps_map same) items

theorem blocks_map (same : ∀ a, isEnd' (g a) = isEnd a) (items : List α)
    : blocks isEnd' (items.map g)
      = ((blocks isEnd items).1.map (fun block => block.map g), (blocks isEnd items).2.map g) := by
  simpa only [← List.map_eq_flatMap] using blocks_flatMap (keeps_map same) items

end Map

section Joined

/-- Lines in a row, each with a delimiter behind it. -/
def joined (delimiter : α) (parts : List (List α)) : List α :=
  parts.flatMap (fun line => line ++ [delimiter])

variable {isEnd : α → Bool} {delimiter : α} {parts : List (List α)}

@[simp]
theorem joined_cons (line : List α) (rest : List (List α))
    : joined delimiter (line :: rest) = line ++ delimiter :: joined delimiter rest := by
  simp [joined]

theorem joined_append (left right : List (List α))
    : joined delimiter (left ++ right) = joined delimiter left ++ joined delimiter right :=
  List.flatMap_append

/-- Joined lines are found again, by induction on the lines. -/
theorem lines_joined (ends : isEnd delimiter = true)
    (others : ∀ line ∈ parts, ∀ a ∈ line, isEnd a = false)
    : lines isEnd (joined delimiter parts) = parts := by
  have split : splitLines isEnd (joined delimiter parts) = (parts, []) := by
    induction parts with
    | nil => rfl
    | cons line rest ih =>
        have later := ih (fun other member => others other (List.mem_cons_of_mem _ member))
        rw [joined_cons, splitLines_others (others line List.mem_cons_self), splitLines,
          if_pos ends, later]
        simp
  rw [lines, split]
  rfl

/-- Nonempty lines and one more delimiter make up a block. By induction on the lines: behind the
last one two delimiters meet, behind the others a line starts.
-/
theorem blocks_joined (ends : isEnd delimiter = true) (nonempty : parts ≠ [])
    (others : ∀ line ∈ parts, line ≠ [] ∧ ∀ a ∈ line, isEnd a = false) (rest : List α)
    : blocks isEnd (joined delimiter parts ++ delimiter :: rest)
      = ((joined delimiter parts ++ [delimiter]) :: (blocks isEnd rest).1, (blocks isEnd rest).2)
      := by
  induction parts with
  | nil => exact absurd rfl nonempty
  | cons line more ih =>
      have own := (others line List.mem_cons_self).2
      rw [joined_cons, List.append_assoc, blocks_others own, List.cons_append]
      cases more with
      | nil =>
          rw [joined, List.flatMap_nil, List.nil_append, blocks, if_pos (by simp [ends])]
          simp
      | cons next more =>
          have later := ih (List.cons_ne_nil _ _)
            (fun other member => others other (List.mem_cons_of_mem _ member))
          obtain ⟨nextNonempty, nextOthers⟩ :=
            others next (List.mem_cons_of_mem _ List.mem_cons_self)
          obtain ⟨b, tail, rfl⟩ := List.exists_cons_of_ne_nil nextNonempty
          have other : isEnd b = false := nextOthers b List.mem_cons_self
          -- The next line starts with no delimiter, so the block goes on.
          simp only [joined_cons, List.cons_append] at later ⊢
          rw [blocks, if_neg (by simp [other]), later]
          simp

/-- Nonempty lines alone complete no block. By induction on the lines, behind none of which two
delimiters meet.
-/
theorem blocks_joined_unfinished
    (others : ∀ line ∈ parts, line ≠ [] ∧ ∀ a ∈ line, isEnd a = false)
    : (blocks isEnd (joined delimiter parts)).1 = [] := by
  induction parts with
  | nil => rfl
  | cons line more ih =>
      have later := ih (fun other member => others other (List.mem_cons_of_mem _ member))
      suffices unfinished : (blocks isEnd (delimiter :: joined delimiter more)).1 = [] by
        rw [joined_cons, blocks_others (others line List.mem_cons_self).2, unfinished]
      cases more with
      | nil => rfl
      | cons next more =>
          obtain ⟨nextNonempty, nextOthers⟩ :=
            others next (List.mem_cons_of_mem _ List.mem_cons_self)
          obtain ⟨b, tail, rfl⟩ := List.exists_cons_of_ne_nil nextNonempty
          have other : isEnd b = false := nextOthers b List.mem_cons_self
          rw [joined_cons, List.cons_append] at later ⊢
          rw [blocks, if_neg (by simp [other]), later]

/-- What a list is split into at a delimiter lacks it, and has the list's elements only. By
induction on the list.
-/
theorem mem_of_mem_splitOn [DecidableEq α] {items piece : List α}
    (inPieces : piece ∈ items.splitOn delimiter) {a : α} (member : a ∈ piece)
    : a ∈ items ∧ a ≠ delimiter := by
  induction items generalizing piece with
  | nil =>
      rw [List.splitOn_nil, List.mem_singleton] at inPieces
      subst inPieces
      cases member
  | cons first rest ih =>
      rw [List.splitOn_cons_eq_if_modifyHead] at inPieces
      split at inPieces
      · rcases List.mem_cons.mp inPieces with rfl | later
        · cases member
        · exact (ih later member).imp_left (List.mem_cons_of_mem _)
      · rename_i other
        cases pieces : rest.splitOn delimiter with
        | nil => exact absurd pieces (List.splitOn_ne_nil delimiter rest)
        | cons head more =>
            rw [pieces] at ih inPieces
            rcases List.mem_cons.mp inPieces with rfl | later
            · rcases List.mem_cons.mp member with rfl | inHead
              · exact ⟨List.mem_cons_self, by simpa using other⟩
              · exact (ih List.mem_cons_self inHead).imp_left (List.mem_cons_of_mem _)
            · exact (ih (List.mem_cons_of_mem _ later) member).imp_left (List.mem_cons_of_mem _)

end Joined

end Delimiters
