import Mathlib

/-! The boundary between the program and SQLite: dynamically typed values, typed reads of
a result row by position, and the saturating conversion of unsigned counters.
-/

namespace DockDoe

/-- A dynamically typed SQLite value (`rusqlite::types::Value`, without blobs). -/
inductive Value
  | null
  | integer (value : ℤ)
  | real (value : ℚ)
  | text (value : String)
  deriving DecidableEq

/-- Why a statement or a read of its result fails. -/
inductive SqlError
  /-- The statement has no column at this position. -/
  | invalidColumnIndex (index : ℕ)
  /-- The value at this position does not convert to the requested type. -/
  | invalidColumnType (index : ℕ)
  /-- A primary key is already taken. -/
  | constraintPrimaryKey
  /-- A column that must not be NULL is. -/
  | constraintNotNull
  /-- A statement names a column the table does not have. -/
  | noSuchColumn (column : String)
  deriving DecidableEq

/-- An optional integer as a bound parameter: an absent one is NULL. -/
def Value.ofInteger? : Option ℤ → Value
  | none => .null
  | some value => .integer value

/-- An optional real as a bound parameter: an absent one is NULL. -/
def Value.ofReal? : Option ℚ → Value
  | none => .null
  | some value => .real value

/-- An optional text as a bound parameter: an absent one is NULL. -/
def Value.ofText? : Option String → Value
  | none => .null
  | some value => .text value

@[simp]
theorem Value.ofReal?_none : Value.ofReal? none = .null :=
  rfl

@[simp]
theorem Value.ofReal?_some (value : ℚ) : Value.ofReal? (some value) = .real value :=
  rfl

/-- Types a column value converts to (`rusqlite::types::FromSql`). -/
class FromSql (α : Type) where
  /-- The converted value, if the storage class fits. -/
  columnResult : Value → Option α

instance : FromSql ℤ where
  columnResult
    | .integer value => some value
    | _ => none

/-- A non-optional float takes integers and reals; NULL is not one of them. -/
instance : FromSql ℚ where
  columnResult
    | .integer value => some value
    | .real value => some value
    | _ => none

instance : FromSql String where
  columnResult
    | .text value => some value
    | _ => none

instance {α : Type} [FromSql α] : FromSql (Option α) where
  columnResult
    | .null => some none
    | value => (FromSql.columnResult value).map some

/-- `row.get(index)`: the column at a position, as the requested type. -/
def getColumn (α : Type) [FromSql α] (row : List Value) (index : ℕ) : Except SqlError α :=
  match row[index]? with
  | none => .error (.invalidColumnIndex index)
  | some value =>
      match FromSql.columnResult value with
      | none => .error (.invalidColumnType index)
      | some result => .ok result

/-- An optional integer reads back as it was bound. -/
@[simp]
theorem columnResult_ofInteger? (value : Option ℤ)
    : (FromSql.columnResult (Value.ofInteger? value) : Option (Option ℤ)) = some value := by
  cases value <;> rfl

@[simp]
theorem columnResult_ofReal? (value : Option ℚ)
    : (FromSql.columnResult (Value.ofReal? value) : Option (Option ℚ)) = some value := by
  cases value <;> rfl

/-- An optional integer also reads back as an optional float. -/
@[simp]
theorem columnResult_ofInteger?_real (value : Option ℤ)
    : (FromSql.columnResult (Value.ofInteger? value) : Option (Option ℚ))
      = some (value.map (fun v : ℤ => (v : ℚ))) := by
  cases value <;> rfl

@[simp]
theorem columnResult_ofText? (value : Option String)
    : (FromSql.columnResult (Value.ofText? value) : Option (Option String)) = some value := by
  cases value <;> rfl

@[simp]
theorem columnResult_integer (value : ℤ)
    : FromSql.columnResult (Value.integer value) = some value :=
  rfl

@[simp]
theorem columnResult_real (value : ℚ)
    : FromSql.columnResult (Value.real value) = some value :=
  rfl

@[simp]
theorem columnResult_text (value : String)
    : FromSql.columnResult (Value.text value) = some value :=
  rfl

/-- A NULL is no float: reading it as a non-optional one fails. -/
@[simp]
theorem columnResult_null_real : (FromSql.columnResult Value.null : Option ℚ) = none :=
  rfl

/-- `i64::MAX`. -/
def i64Max : ℕ := 2 ^ 63 - 1

/-- SQLite stores signed 64-bit integers: a counter beyond them saturates. -/
def toDb (v : ℕ) : ℤ :=
  if v ≤ i64Max then v else i64Max

/-- A stored integer as an unsigned counter; a negative one reads as zero. -/
def fromDb (v : ℤ) : ℕ :=
  v.toNat

/-- Counters in range are stored as they are. -/
theorem toDb_of_le {v : ℕ} (inRange : v ≤ i64Max) : toDb v = v := by
  simp [toDb, inRange]

/-- Storing a counter takes the smaller of it and the largest storable value. -/
theorem toDb_eq_min (v : ℕ) : toDb v = (min v i64Max : ℕ) := by
  unfold toDb
  split <;> omega

/-- Storing keeps the order of counters. -/
theorem toDb_mono {v w : ℕ} (le : v ≤ w) : toDb v ≤ toDb w := by
  simp only [toDb_eq_min]
  omega

theorem toDb_nonneg (v : ℕ) : 0 ≤ toDb v := by
  rw [toDb_eq_min]
  exact Int.natCast_nonneg _

/-- Counters in range survive the round trip. -/
@[simp]
theorem fromDb_toDb {v : ℕ} (inRange : v ≤ i64Max) : fromDb (toDb v) = v := by
  simp [fromDb, toDb_of_le inRange]

end DockDoe
