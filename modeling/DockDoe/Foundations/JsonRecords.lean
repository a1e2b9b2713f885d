import DockDoe.Foundations.JsonTexts
import DockDoe.Foundations.FallibleLists

/-! Typed data in JSON values, as deserializers of records read it: a field by the one member
under its key, with members under other keys ignored. Values that only grow, by further
members, are read as before.
-/

namespace Json

open Numerals

/-- A way to read typed data from a value. -/
abbrev Reader (α : Type u) :=
  Value → Option α

namespace Reader

variable {α : Type u}

def string : Reader (List Char)
  | .string s => some s
  | _ => none

def bool : Reader Bool
  | .bool b => some b
  | _ => none

/-- A natural number below a bound, written without a sign, a fraction or an exponent. -/
def nat (bound : ℕ) : Reader ℕ
  | .number literal =>
      if isDigits literal.text then (Numerals.number 10 literal.text).filter (· < bound) else none
  | _ => none

/-- A number, by its text. -/
def number (read : Literal → Option α) : Reader α
  | .number literal => read literal
  | _ => none

def option (read : Reader α) : Reader (Option α)
  | .null => some none
  | value => (read value).map some

def list (read : Reader α) : Reader (List α)
  | .array items => items.mapM read
  | _ => none

/-- The name of a variant that carries nothing: a string, or the only key of an object. -/
def variantName : Reader (List Char)
  | .string s => some s
  | .object [(key, .null)] => some key
  | _ => none

/-- The members of a record: those of an object, or what an array lists for the fields in
their order.
-/
def members (fields : List (List Char)) : Reader (List (List Char × Value))
  | .object members => some members
  | .array items => if items.length = fields.length then some (fields.zip items) else none
  | _ => none

/-- A field, by the one member under its key, or what its absence means. -/
def field (read : Reader α) (absent : Option α) (key : List Char)
    (members : List (List Char × Value))
    : Option α :=
  match members.filter (fun member => member.1 == key) with
  | [] => absent
  | [member] => read member.2
  | _ => none

end Reader

-----------------------------------------------------------------------------------------
-- Growing values
-----------------------------------------------------------------------------------------

section Growing

variable (revises : List Char → Value → Value → Prop) (omits : List Char → Value → Prop)

mutual

/-- The later value has grown out of the earlier one: objects have further members in any
places, and may order their members differently.
-/
inductive Additive : Value → Value → Prop
  | same (value : Value) : Additive value value
  | array {earlier later : List Value} (items : List.Forall₂ Additive earlier later)
    : Additive (.array earlier) (.array later)
  | object {earlier later : List (List Char × Value)}
      (grown : ∀ member ∈ earlier, Grown member.1 member.2 later)
    : Additive (.object earlier) (.object later)

/-- The member under a key has grown in a later object. Some are revised or omitted. -/
inductive Grown : List Char → Value → List (List Char × Value) → Prop
  | kept {key : List Char} {value other : Value} {later : List (List Char × Value)}
      (only : later.filter (fun member => member.1 == key) = [(key, other)])
      (additive : Additive value other)
    : Grown key value later
  | revised {key : List Char} {value other : Value} {later : List (List Char × Value)}
      (only : later.filter (fun member => member.1 == key) = [(key, other)])
      (revision : revises key value other)
    : Grown key value later
  | omitted {key : List Char} {value : Value} {later : List (List Char × Value)}
      (lacks : later.filter (fun member => member.1 == key) = [])
      (omission : omits key value)
    : Grown key value later

end

/-- Everything that grows out of the value is read as the datum. -/
def Keeps {α : Type u} (read : Reader α) (value : Value) (a : α) : Prop :=
  ∀ later, Additive revises omits value later → read later = some a

variable {revises omits}

/-- Among members under different keys, each is the only one under its own. By induction on the
members.
-/
theorem filter_key_of_mem {members : List (List Char × Value)}
    (distinct : (members.map Prod.fst).Nodup) {member : List Char × Value}
    (isMember : member ∈ members)
    : members.filter (fun other => other.1 == member.1) = [member] := by
  induction members with
  | nil => cases isMember
  | cons first rest ih =>
      obtain ⟨fresh, distinct⟩ := List.nodup_cons.mp distinct
      rcases List.mem_cons.mp isMember with rfl | later
      · have others : rest.filter (fun other => other.1 == member.1) = [] := by
          apply List.filter_eq_nil_iff.mpr
          intro other inRest same
          exact fresh (eq_of_beq same ▸ List.mem_map_of_mem inRest)
        rw [List.filter_cons_of_pos (by simp), others]
      · have different : (first.1 == member.1) = false := by
          apply beq_false_of_ne
          intro same
          exact fresh (same ▸ List.mem_map_of_mem later)
        rw [List.filter_cons_of_neg (by simp [different]), ih distinct later]

/-- What grows out of an object is an object, whose members have grown. -/
theorem Additive.grown {earlier : List (List Char × Value)}
    (distinct : (earlier.map Prod.fst).Nodup) {later : Value}
    (additive : Additive revises omits (.object earlier) later)
    : ∃ members,
        later = .object members
        ∧ ∀ member ∈ earlier, Grown revises omits member.1 member.2 members := by
  cases additive with
  | same =>
      refine ⟨earlier, rfl, ?_⟩
      intro member isMember
      exact .kept (filter_key_of_mem distinct isMember) (.same member.2)
  | object grown => exact ⟨_, rfl, grown⟩

/-- A grown field is read like the value that it was written as. -/
theorem Grown.field_eq {α : Type u} {key : List Char} {value : Value}
    {later : List (List Char × Value)} (grown : Grown revises omits key value later)
    {read : Reader α} {absent : Option α} {a : α} (keeps : Keeps revises omits read value a)
    (reads : ∀ other, revises key value other → read other = some a)
    (lacking : omits key value → absent = some a)
    : Reader.field read absent key later = some a := by
  unfold Reader.field
  cases grown with
  | kept only additive =>
      rw [only]
      exact keeps _ additive
  | revised only revision =>
      rw [only]
      exact reads _ revision
  | omitted lacks omission =>
      rw [lacks]
      exact lacking omission

theorem keeps_string (s : List Char) : Keeps revises omits Reader.string (.string s) s := by
  intro later additive
  cases additive
  rfl

theorem keeps_bool (b : Bool) : Keeps revises omits Reader.bool (.bool b) b := by
  intro later additive
  cases additive
  rfl

/-- A natural number is read back within the bound, and refused beyond: its literal is one of
digits only.
-/
theorem Reader.nat_ofNat (bound n : ℕ)
    : Reader.nat bound (.number (.ofNat n)) = if n < bound then some n else none := by
  have digits : isDigits (Literal.ofNat n).text = true := by
    have nonempty : Nat.toDigits 10 n ≠ [] := Nat.toDigits_ne_nil
    have all : ∀ c ∈ Nat.toDigits 10 n, c.isDigit = true :=
      (number_ten_iff.mp (number_toDigits (by omega) (by omega) n)).1
    simp [isDigits, Literal.ofNat, nonempty, List.all_eq_true.mpr all]
  have value : Numerals.number 10 (Literal.ofNat n).text = some n :=
    number_toDigits (by omega) (by omega) n
  rw [Reader.nat, if_pos digits, value]
  split <;> simp_all

theorem keeps_nat {bound n : ℕ} (small : n < bound)
    : Keeps revises omits (Reader.nat bound) (.number (.ofNat n)) n := by
  intro later additive
  cases additive
  rw [Reader.nat_ofNat, if_pos small]

theorem keeps_number {α : Type u} {read : Literal → Option α} {literal : Literal} {a : α}
    (reads : read literal = some a)
    : Keeps revises omits (Reader.number read) (.number literal) a := by
  intro later additive
  cases additive
  exact reads

theorem keeps_null {α : Type u} {read : Reader α}
    : Keeps revises omits (Reader.option read) .null none := by
  intro later additive
  cases additive
  rfl

/-- A value that is not null is read as present, and what grows out of it is not null either. -/
theorem keeps_some {α : Type u} {read : Reader α} {value : Value} {a : α}
    (keeps : Keeps revises omits read value a) (present : read .null = none)
    : Keeps revises omits (Reader.option read) value (some a) := by
  intro later additive
  have reads := keeps later additive
  have notNull : later ≠ .null := by
    rintro rfl
    rw [present] at reads
    cases reads
  rw [Reader.option.eq_2 _ _ notNull, reads]
  rfl

/-- A list is read item by item, by induction on the items. -/
theorem keeps_list {α : Type u} {β : Type v} {read : Reader α} {write : β → Value} {result : β → α}
    {items : List β}
    (keeps : ∀ item ∈ items, Keeps revises omits read (write item) (result item))
    : Keeps revises omits (Reader.list read) (.array (items.map write)) (items.map result) := by
  have reads {later : List Value}
      (grown : List.Forall₂ (Additive revises omits) (items.map write) later)
      : later.mapM read = some (items.map result) := by
    induction items generalizing later with
    | nil =>
        cases grown
        rfl
    | cons item rest ih =>
        cases grown with
        | cons first others =>
            have head := keeps item List.mem_cons_self _ first
            have tail := ih (fun other member => keeps other (List.mem_cons_of_mem _ member)) others
            simp [List.mapM_cons, head, tail]
  intro later additive
  cases additive with
  | same => exact reads (List.forall₂_same.mpr (fun value _ => .same value))
  | array grown => exact reads grown

end Growing

end Json
