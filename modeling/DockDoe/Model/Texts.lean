import DockDoe.Foundations.Delimiters
import DockDoe.Foundations.Cuts
import DockDoe.Foundations.Numerals

/-! Strings and the standard library's operations on them. A string is the list of its
characters.
-/

namespace DockDoe

abbrev Text := List Char

/-- Unicode's `White_Space` (`char::is_whitespace`). -/
def isWhitespace (c : Char) : Bool :=
  let v := c.toNat
  (0x09 ≤ v && v ≤ 0x0D)
  || v == 0x20
  || v == 0x85
  || v == 0xA0
  || v == 0x1680
  || (0x2000 ≤ v && v ≤ 0x200A)
  || v == 0x2028
  || v == 0x2029
  || v == 0x202F
  || v == 0x205F
  || v == 0x3000

/-- `str::trim_start`. -/
def trimStart (s : Text) : Text :=
  s.dropWhile isWhitespace

/-- `str::trim_end`. -/
def trimEnd (s : Text) : Text :=
  s.rdropWhile isWhitespace

/-- `str::trim`. -/
def trim (s : Text) : Text :=
  trimEnd (trimStart s)

/-- `str::strip_prefix`. -/
def stripPrefix (pattern s : Text) : Option Text :=
  pattern.isPrefixOf? s

/-- A line without the carriage return that may belong to its end. -/
def stripCarriageReturn (line : Text) : Text :=
  if line.getLast? = some '\r' then line.dropLast else line

/-- `str::lines`. A last line without a line feed keeps a carriage return. -/
def linesOf (s : Text) : List Text :=
  let (ended, rest) := Delimiters.splitLines (· == '\n') s
  ended.map stripCarriageReturn ++ if rest.isEmpty then [] else [rest]

/-- `str::to_ascii_lowercase`. -/
def toAsciiLowercase (s : Text) : Text :=
  s.map Char.toLower

/-- `str::eq_ignore_ascii_case`. -/
def eqIgnoreAsciiCase (s other : Text) : Bool :=
  toAsciiLowercase s == toAsciiLowercase other

/-- `str::as_bytes`. -/
def asBytes (s : Text) : List UInt8 :=
  s.flatMap String.utf8EncodeChar

/-- `u64::to_string`. -/
def decimal (n : ℕ) : Text :=
  Nat.toDigits 10 n

/-- The digits of a number that may have a sign. -/
def withoutSign : Text → Text
  | '+' :: digit :: rest => digit :: rest
  | s => s

/-- A text that does not start with a sign has none. -/
theorem withoutSign_of_unsigned {s : Text} (unsigned : s.head? ≠ some '+')
    : withoutSign s = s := by
  unfold withoutSign
  split
  next => exact absurd rfl unsigned
  next => rfl

/-- `from_str_radix` of the unsigned type whose values are below `bound`. -/
def fromStrRadix (bound radix : ℕ) (s : Text) : Option ℕ :=
  if s.isEmpty then none else (Numerals.number radix (withoutSign s)).filter (· < bound)

/-- `str::parse::<u64>`. -/
def parseU64 (s : Text) : Option ℕ :=
  fromStrRadix (2 ^ 64) 10 s

end DockDoe
