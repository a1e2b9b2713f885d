import DockDoe.Model.Containers
import DockDoe.Model.SqlValues

/-! The tables of an opened store: raw container samples in insertion order and wide trend
rows under their primary key. Column types are those of the table definitions: a column
declared `NOT NULL` has a plain type, every other one is optional.
-/

namespace DockDoe

/-- A row of `container_sample`. -/
structure SampleRow where
  tsMs : ℤ
  host : String
  id : String
  name : String
  cpuPercent : Option ℚ
  memUsed : Option ℤ
  memLimit : Option ℤ
  netRx : Option ℚ
  netTx : Option ℚ
  diskRead : Option ℚ
  diskWrite : Option ℚ
  deriving DecidableEq

/-- A metric's value in a raw sample row; memory is stored in whole bytes. -/
def SampleRow.metric? (row : SampleRow) : Metric → Option ℚ
  | .cpu => row.cpuPercent
  | .mem => row.memUsed.map (fun bytes : ℤ => (bytes : ℚ))
  | .netRx => row.netRx
  | .netTx => row.netTx
  | .diskRead => row.diskRead
  | .diskWrite => row.diskWrite

/-- The key `(host, name, bucket_start_ms)` of a trend row, over the type of its start. -/
structure TrendKey (τ : Type) where
  host : String
  name : String
  bucketStartMs : τ
  deriving DecidableEq

namespace TrendKey

variable {τ : Type}

/-- The lexicographic order of the primary key. -/
def toLexTuple (key : TrendKey τ) : String ×ₗ String ×ₗ τ :=
  toLex (key.host, toLex (key.name, key.bucketStartMs))

theorem toLexTuple_injective : Function.Injective (toLexTuple (τ := τ)) := by
  intro h given same
  rcases h with ⟨host, name, start⟩
  rcases given with ⟨host', name', start'⟩
  simpa [toLexTuple] using same

instance [LinearOrder τ] : LinearOrder (TrendKey τ) :=
  LinearOrder.lift' toLexTuple toLexTuple_injective

end TrendKey

/-- A trend key as the program holds it, with an unsigned start. -/
abbrev PivotKey := TrendKey ℕ

/-- A trend key as the table stores it. -/
abbrev StoredKey := TrendKey ℤ

/-- The stored form of a key: the start saturates like every counter. -/
def TrendKey.toStored (key : PivotKey) : StoredKey :=
  { host := key.host, name := key.name, bucketStartMs := toDb key.bucketStartMs }

/-- One metric's columns `{m}_min, {m}_med, {m}_max`. -/
structure EnvelopeColumns where
  min : Option ℚ
  med : Option ℚ
  max : Option ℚ
  deriving DecidableEq

/-- One proof that the key order is transitive, for all maps over stored keys. -/
instance : Std.TransCmp (compare : StoredKey → StoredKey → Ordering) :=
  inferInstance

/-- A row of the wide `container_trend` table minus its primary key. -/
structure TrendRow where
  bucketSecs : ℤ
  id : String
  stack : Option String
  samples : ℤ
  columns : Metric → EnvelopeColumns
  deriving DecidableEq

/-- The wide trend table: at most one row per primary key, in key order. -/
abbrev TrendTable := Std.ExtTreeMap StoredKey TrendRow

/-- An opened store. Its tables have the current layout; older ones become a `Store` only
by the migrations that run when a database is opened.
-/
structure Store where
  containerSample : List SampleRow
  containerTrend : TrendTable

/-- A fresh database, opened. -/
def Store.empty : Store :=
  { containerSample := [], containerTrend := ∅ }

end DockDoe
