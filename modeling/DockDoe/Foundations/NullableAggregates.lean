import Mathlib

/-! SQL aggregation over nullable columns, in its own terms.
An aggregate skips NULL and is NULL when nothing is left; a scalar function of two
columns is NULL as soon as one of them is. NULL is `none` throughout.
-/

namespace Nullable

variable {α : Type u} {ρ : Type v}

/-- `MIN(column)`. -/
def minAgg [LinearOrder α] (column : List (Option α)) : Option α :=
  column.reduceOption.min?

/-- `MAX(column)`. -/
def maxAgg [LinearOrder α] (column : List (Option α)) : Option α :=
  column.reduceOption.max?

/-- `SUM(column)`: NULL, not zero, when no value is left. -/
def sumAgg [Add α] [Zero α] (column : List (Option α)) : Option α :=
  if column.reduceOption.isEmpty then none else some column.reduceOption.sum

/-- `AVG(column)`: the sum over the number of values. -/
def avgAgg [DivisionRing α] (column : List (Option α)) : Option α :=
  (sumAgg column).map (fun total => total / column.reduceOption.length)

/-- The scalar `min(left, right)`: NULL if either argument is. -/
def scalarMin [Min α] (left right : Option α) : Option α :=
  left.bind (fun l => right.map (fun r => min l r))

/-- The scalar `max(left, right)`: NULL if either argument is. -/
def scalarMax [Max α] (left right : Option α) : Option α :=
  left.bind (fun l => right.map (fun r => max l r))

/-- `coalesce(left, right)`: the first argument that is not NULL. -/
def coalesce (left right : Option α) : Option α :=
  left.or right

/-- `numerator / denominator`: NULL if either is, and for a zero denominator. -/
def quotient [DivisionRing α] [DecidableEq α] (numerator denominator : Option α) : Option α :=
  numerator.bind (fun n =>
    denominator.bind (fun d => if d = 0 then none else some (n / d)))

theorem reduceOption_map_some (values : List α) : (values.map some).reduceOption = values := by
  induction values with
  | nil => rfl
  | cons value rest ih => rw [List.map_cons, List.reduceOption_cons_of_some, ih]

-----------------------------------------------------------------------------------------
-- Extremes
-----------------------------------------------------------------------------------------

/-- An extreme of two columns is the same as soon as each value of either is matched by
a value of the other that is at least as extreme. Witness: each extreme beats the other.
-/
private theorem extreme_eq_of_matched {column : Type v} (beats : α → α → Prop)
    (trans : ∀ {a b c}, beats a b → beats b c → beats a c)
    (antisymm : ∀ {a b}, beats a b → beats b a → a = b)
    (has : column → α → Prop) (extreme : column → Option α)
    (noneIff : ∀ c, extreme c = none ↔ ∀ value, ¬ has c value)
    (someIff
      : ∀ c best, extreme c = some best ↔ has c best ∧ ∀ value, has c value → beats best value)
    {left right : column}
    (toRight : ∀ value, has left value → ∃ other, has right other ∧ beats other value)
    (toLeft : ∀ value, has right value → ∃ other, has left other ∧ beats other value)
    : extreme left = extreme right := by
  cases found : extreme left with
  | none =>
      refine ((noneIff right).mpr ?_).symm
      intro value member
      obtain ⟨other, inLeft, _⟩ := toLeft value member
      exact (noneIff left).mp found other inLeft
  | some best =>
      obtain ⟨member, below⟩ := (someIff left best).mp found
      obtain ⟨other, inRight, otherBeats⟩ := toRight best member
      have bound : ∀ value, has right value → beats best value := by
        intro value inRight
        obtain ⟨matched, inLeft, matchedBeats⟩ := toLeft value inRight
        exact trans (below matched inLeft) matchedBeats
      have same : other = best := antisymm otherBeats (bound other inRight)
      exact ((someIff right best).mpr ⟨same ▸ inRight, bound⟩).symm

section Extremes

variable [LinearOrder α]

/-- `MIN` is NULL exactly on columns without a value. -/
theorem minAgg_eq_none_iff {column : List (Option α)}
    : minAgg column = none ↔ ∀ value, some value ∉ column := by
  simp only [minAgg, List.min?_eq_none_iff, List.eq_nil_iff_forall_not_mem,
    List.reduceOption_mem_iff]

/-- `MAX` is NULL exactly on columns without a value. -/
theorem maxAgg_eq_none_iff {column : List (Option α)}
    : maxAgg column = none ↔ ∀ value, some value ∉ column := by
  simp only [maxAgg, List.max?_eq_none_iff, List.eq_nil_iff_forall_not_mem,
    List.reduceOption_mem_iff]

/-- `MIN` is the value of the column that no value undercuts. -/
theorem minAgg_eq_some_iff {column : List (Option α)} {least : α}
    : minAgg column = some least
      ↔ some least ∈ column ∧ ∀ value, some value ∈ column → least ≤ value := by
  simp only [minAgg, List.min?_eq_some_iff, List.reduceOption_mem_iff]

/-- `MAX` is the value of the column that no value exceeds. -/
theorem maxAgg_eq_some_iff {column : List (Option α)} {greatest : α}
    : maxAgg column = some greatest
      ↔ some greatest ∈ column ∧ ∀ value, some value ∈ column → value ≤ greatest := by
  simp only [maxAgg, List.max?_eq_some_iff, List.reduceOption_mem_iff]

/-- A value of the column keeps `MIN` from being NULL. -/
theorem exists_minAgg_of_mem {column : List (Option α)} {value : α} (member : some value ∈ column)
    : ∃ least, minAgg column = some least :=
  Option.ne_none_iff_exists'.mp (fun empty => minAgg_eq_none_iff.mp empty value member)

/-- A value of the column keeps `MAX` from being NULL. -/
theorem exists_maxAgg_of_mem {column : List (Option α)} {value : α} (member : some value ∈ column)
    : ∃ greatest, maxAgg column = some greatest :=
  Option.ne_none_iff_exists'.mp (fun empty => maxAgg_eq_none_iff.mp empty value member)

/-- Two columns have one minimum as soon as each value of either is matched by a value
of the other that is no greater.
-/
theorem minAgg_eq_of_matched {left right : List (Option α)}
    (toRight : ∀ value, some value ∈ left → ∃ other, some other ∈ right ∧ other ≤ value)
    (toLeft : ∀ value, some value ∈ right → ∃ other, some other ∈ left ∧ other ≤ value)
    : minAgg left = minAgg right :=
  extreme_eq_of_matched (fun a b => a ≤ b) le_trans le_antisymm
    (fun column value => some value ∈ column) minAgg
    (fun _ => minAgg_eq_none_iff) (fun _ _ => minAgg_eq_some_iff) toRight toLeft

/-- Two columns have one maximum as soon as each value of either is matched by a value
of the other that is no smaller.
-/
theorem maxAgg_eq_of_matched {left right : List (Option α)}
    (toRight : ∀ value, some value ∈ left → ∃ other, some other ∈ right ∧ value ≤ other)
    (toLeft : ∀ value, some value ∈ right → ∃ other, some other ∈ left ∧ value ≤ other)
    : maxAgg left = maxAgg right :=
  extreme_eq_of_matched (fun a b => b ≤ a) (fun hab hbc => hbc.trans hab)
    (fun hab hba => le_antisymm hba hab) (fun column value => some value ∈ column) maxAgg
    (fun _ => maxAgg_eq_none_iff) (fun _ _ => maxAgg_eq_some_iff) toRight toLeft

/-- `MIN` commutes with a conversion that keeps the order: the converted minimum is attained and
a bound.
-/
theorem minAgg_map {β : Type w} [LinearOrder β] {f : α → β} (mono : Monotone f)
    (column : List (Option α))
    : minAgg (column.map (Option.map f)) = (minAgg column).map f := by
  cases found : minAgg column with
  | none =>
      refine minAgg_eq_none_iff.mpr (fun value member => ?_)
      obtain ⟨entry, inColumn, same⟩ := List.mem_map.mp member
      obtain ⟨own, rfl, _⟩ := Option.map_eq_some_iff.mp same
      exact minAgg_eq_none_iff.mp found own inColumn
  | some least =>
      obtain ⟨member, bound⟩ := minAgg_eq_some_iff.mp found
      refine minAgg_eq_some_iff.mpr ⟨List.mem_map.mpr ⟨_, member, rfl⟩, fun value inMapped => ?_⟩
      obtain ⟨entry, inColumn, same⟩ := List.mem_map.mp inMapped
      obtain ⟨own, rfl, rfl⟩ := Option.map_eq_some_iff.mp same
      exact mono (bound own inColumn)

/-- `MAX` commutes with a conversion that keeps the order: the minimum in the opposite one. -/
theorem maxAgg_map {β : Type w} [LinearOrder β] {f : α → β} (mono : Monotone f)
    (column : List (Option α))
    : maxAgg (column.map (Option.map f)) = (maxAgg column).map f :=
  minAgg_map (α := αᵒᵈ) (β := βᵒᵈ) mono.dual column

/-- The smaller of two columns' minima, skipping NULL: how two `coalesce` arguments of the
scalar `min` are merged.
-/
def leastOf (left right : Option α) : Option α :=
  scalarMin (coalesce left right) (coalesce right left)

/-- The greater of two columns' maxima, skipping NULL. -/
def greatestOf (left right : Option α) : Option α :=
  scalarMax (coalesce left right) (coalesce right left)

@[simp]
theorem leastOf_none_left (right : Option α) : leastOf none right = right := by
  cases right <;> simp [leastOf, coalesce, scalarMin]

@[simp]
theorem leastOf_none_right (left : Option α) : leastOf left none = left := by
  cases left <;> simp [leastOf, coalesce, scalarMin]

@[simp]
theorem greatestOf_none_left (right : Option α) : greatestOf none right = right := by
  cases right <;> simp [greatestOf, coalesce, scalarMax]

@[simp]
theorem greatestOf_none_right (left : Option α) : greatestOf left none = left := by
  cases left <;> simp [greatestOf, coalesce, scalarMax]

@[simp]
theorem leastOf_some (left right : α) : leastOf (some left) (some right) = some (min left right) :=
  rfl

@[simp]
theorem greatestOf_some (left right : α)
    : greatestOf (some left) (some right) = some (max left right) :=
  rfl

/-- Neither value is below the lesser of two. -/
theorem exists_leastOf {left right : Option α} {a : α} (own : left = some a ∨ right = some a)
    : ∃ least, leastOf left right = some least ∧ least ≤ a := by
  rcases own with rfl | rfl
  · cases right with
    | none => exact ⟨a, leastOf_none_right _, le_rfl⟩
    | some b => exact ⟨min a b, leastOf_some a b, min_le_left a b⟩
  · cases left with
    | none => exact ⟨a, leastOf_none_left _, le_rfl⟩
    | some b => exact ⟨min b a, leastOf_some b a, min_le_right b a⟩

/-- Neither value is above the greater of two. -/
theorem exists_greatestOf {left right : Option α} {a : α} (own : left = some a ∨ right = some a)
    : ∃ greatest, greatestOf left right = some greatest ∧ a ≤ greatest := by
  rcases own with rfl | rfl
  · cases right with
    | none => exact ⟨a, greatestOf_none_right _, le_rfl⟩
    | some b => exact ⟨max a b, greatestOf_some a b, le_max_left a b⟩
  · cases left with
    | none => exact ⟨a, greatestOf_none_left _, le_rfl⟩
    | some b => exact ⟨max b a, greatestOf_some b a, le_max_right b a⟩

theorem leastOf_assoc (first second third : Option α)
    : leastOf (leastOf first second) third = leastOf first (leastOf second third) := by
  cases first <;> cases second <;> cases third <;> simp [min_assoc]

theorem greatestOf_assoc (first second third : Option α)
    : greatestOf (greatestOf first second) third = greatestOf first (greatestOf second third) := by
  cases first <;> cases second <;> cases third <;> simp [max_assoc]

/-- The minimum of a column in two parts, by cases on which of them has values. -/
theorem minAgg_append (left right : List (Option α))
    : minAgg (left ++ right) = leastOf (minAgg left) (minAgg right) := by
  have none {column : List (Option α)} (empty : minAgg column = none) (value : α)
      : some value ∉ column :=
    minAgg_eq_none_iff.mp empty value
  cases l : minAgg left with
  | none =>
      rw [leastOf_none_left]
      refine minAgg_eq_of_matched ?_ ?_
      · intro value member
        exact ⟨value, (List.mem_append.mp member).resolve_left (none l value), le_rfl⟩
      · exact fun value member => ⟨value, List.mem_append_right _ member, le_rfl⟩
  | some least =>
      obtain ⟨inLeft, leftBound⟩ := minAgg_eq_some_iff.mp l
      cases r : minAgg right with
      | none =>
          rw [leastOf_none_right, minAgg_eq_some_iff]
          refine ⟨List.mem_append_left _ inLeft, fun value member => ?_⟩
          exact leftBound value ((List.mem_append.mp member).resolve_right (none r value))
      | some least' =>
          obtain ⟨inRight, rightBound⟩ := minAgg_eq_some_iff.mp r
          rw [leastOf_some, minAgg_eq_some_iff]
          constructor
          · rcases min_choice least least' with same | same <;> rw [same]
            · exact List.mem_append_left _ inLeft
            · exact List.mem_append_right _ inRight
          · intro value member
            rcases List.mem_append.mp member with inLeft | inRight
            · exact (min_le_left _ _).trans (leftBound value inLeft)
            · exact (min_le_right _ _).trans (rightBound value inRight)

/-- The maximum of a column in two parts: the minimum in the opposite order. -/
theorem maxAgg_append (left right : List (Option α))
    : maxAgg (left ++ right) = greatestOf (maxAgg left) (maxAgg right) :=
  minAgg_append (α := αᵒᵈ) left right

end Extremes

/-- `SUM` is NULL exactly on columns without a value. -/
theorem sumAgg_eq_none_iff [Add α] [Zero α] {column : List (Option α)}
    : sumAgg column = none ↔ ∀ value, some value ∉ column := by
  simp only [sumAgg, ite_eq_left_iff, List.isEmpty_iff, reduceCtorEq, imp_false, not_not,
    List.eq_nil_iff_forall_not_mem, List.reduceOption_mem_iff]

/-- On a column with a value `SUM` adds up all of them. -/
theorem sumAgg_of_mem [Add α] [Zero α] {column : List (Option α)} {value : α}
    (member : some value ∈ column)
    : sumAgg column = some column.reduceOption.sum := by
  have nonempty := List.ne_nil_of_mem (List.reduceOption_mem_iff.mpr member)
  simp [sumAgg, List.isEmpty_iff, nonempty]

/-- `AVG` is NULL exactly on columns without a value. -/
theorem avgAgg_eq_none_iff [DivisionRing α] {column : List (Option α)}
    : avgAgg column = none ↔ ∀ value, some value ∉ column := by
  rw [avgAgg, Option.map_eq_none_iff, sumAgg_eq_none_iff]

section Sums

variable [AddCommMonoid α]

/-- `SUM` only depends on which values a column has, as addition commutes. -/
theorem sumAgg_eq_of_perm {left right : List (Option α)}
    (perm : left.reduceOption.Perm right.reduceOption)
    : sumAgg left = sumAgg right := by
  have empty : left.reduceOption.isEmpty = right.reduceOption.isEmpty := by
    rw [Bool.eq_iff_iff, List.isEmpty_iff, List.isEmpty_iff]
    constructor
    · intro same
      exact List.nil_perm.mp (same ▸ perm)
    · intro same
      exact List.perm_nil.mp (same ▸ perm)
  rw [sumAgg, sumAgg, empty, perm.sum_eq]

/-- Counting NULL as zero does not change a sum. -/
theorem getD_sumAgg (column : List (Option α))
    : (sumAgg column).getD 0 = (column.map (fun value => value.getD 0)).sum := by
  have kept : column.reduceOption.sum = (column.map (fun value => value.getD 0)).sum := by
    induction column with
    | nil => rfl
    | cons value rest ih => cases value <;> simp [ih]
  rw [← kept, sumAgg]
  cases column.reduceOption <;> rfl

/-- A further value is added to the sum so far, which counts as zero while it is NULL. -/
theorem sumAgg_append_some (column : List (Option α)) (value : α)
    : sumAgg (column ++ [some value]) = some ((sumAgg column).getD 0 + value) := by
  have present : sumAgg (column ++ [some value]) ≠ none := by
    intro empty
    exact sumAgg_eq_none_iff.mp empty value (List.mem_append_right _ (List.mem_singleton_self _))
  obtain ⟨total, found⟩ := Option.ne_none_iff_exists'.mp present
  have whole := getD_sumAgg (column ++ [some value])
  rw [found, List.map_append, List.sum_append, ← getD_sumAgg column] at whole
  rw [found]
  simpa using whole

theorem sumAgg_append_none (column : List (Option α))
    : sumAgg (column ++ [none]) = sumAgg column :=
  sumAgg_eq_of_perm (List.Perm.of_eq (by simp [List.reduceOption]))

/-- Leaving out items without a value does not change a sum. By induction on the items the values
are the same.
-/
theorem sumAgg_map_filter {items : List ρ} {value : ρ → Option α} {keep : ρ → Bool}
    (dropped : ∀ item ∈ items, keep item = false → value item = none)
    : sumAgg ((items.filter keep).map value) = sumAgg (items.map value) := by
  refine sumAgg_eq_of_perm (List.Perm.of_eq ?_)
  induction items with
  | nil => rfl
  | cons item rest ih =>
      have restDropped := ih (fun other member => dropped other (List.mem_cons_of_mem _ member))
      cases kept : keep item with
      | true =>
          rw [List.filter_cons_of_pos kept, List.map_cons, List.map_cons]
          cases value item with
          | none => exact restDropped
          | some own => exact congrArg (own :: ·) restDropped
      | false =>
          rw [List.filter_cons_of_neg (by simp [kept]), List.map_cons,
            dropped item List.mem_cons_self kept]
          exact restDropped

end Sums

end Nullable
