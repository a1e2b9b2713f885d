import DockDoe.Correctness.HeaderTexts
import DockDoe.Model.Config

/-! Which texts are byte sizes: a decimal number, white space, and a suffix that stands for a
power of 1024, whose product fits into 64 bits.
-/

namespace DockDoe

open Cuts

section Numbers

/-- A number as it is parsed: digits, with or without a plus in front of them. -/
def IsNumeral (s : Text) (n : ℕ) : Prop :=
  ∃ sign digits,
    s = sign ++ digits
    ∧ (sign = [] ∨ sign = ['+'])
    ∧ digits ≠ []
    ∧ (∀ c ∈ digits, c.isDigit = true)
    ∧ Numerals.decimalValue digits = n

/-- What is left without a sign, and the sign. -/
theorem withoutSign_cases (s : Text)
    : withoutSign s = s ∨ (s = '+' :: withoutSign s ∧ withoutSign s ≠ []) := by
  unfold withoutSign
  split
  · exact .inr ⟨rfl, List.cons_ne_nil _ _⟩
  · exact .inl rfl

theorem withoutSign_digits {digits : Text} (isDigit : ∀ c ∈ digits, c.isDigit = true)
    : withoutSign digits = digits := by
  refine withoutSign_of_unsigned (fun signed => ?_)
  cases isDigit '+' (List.mem_of_head? signed)

/-- The numbers below 2^64 are parsed, and nothing else is, by the sign that is taken off and the
digits behind it.
-/
theorem parseU64_iff {s : Text} {n : ℕ}
    : parseU64 s = some n ↔ IsNumeral s n ∧ n < 2 ^ 64 := by
  unfold parseU64 fromStrRadix
  constructor
  · intro parsed
    split at parsed
    · cases parsed
    next nonempty =>
      obtain ⟨read, small⟩ := Option.filter_eq_some_iff.mp parsed
      obtain ⟨isDigit, value⟩ := Numerals.number_ten_iff.mp read
      refine ⟨?_, by simpa using small⟩
      rcases withoutSign_cases s with same | ⟨signed, left⟩
      · rw [same] at isDigit value
        exact ⟨[], s, rfl, .inl rfl, by simpa using nonempty, isDigit, value⟩
      · exact ⟨['+'], withoutSign s, signed, .inr rfl, left, isDigit, value⟩
  · intro numeral
    obtain ⟨⟨sign, digits, rfl, signs, nonempty, isDigit, value⟩, small⟩ := numeral
    have left : withoutSign (sign ++ digits) = digits := by
      rcases signs with rfl | rfl
      · exact withoutSign_digits isDigit
      · obtain ⟨c, rest, rfl⟩ := List.exists_cons_of_ne_nil nonempty
        rfl
    rw [if_neg (by simp [nonempty]), left, Numerals.number_ten_iff.mpr ⟨isDigit, value⟩]
    simpa using small

end Numbers

section Suffixes

/-- The suffixes of sizes and the powers of two that they stand for. -/
def sizeSuffixes : List (Text × ℕ) :=
  [("".toList, 0), ("B".toList, 0),
    ("K".toList, 10), ("KB".toList, 10), ("KiB".toList, 10),
    ("M".toList, 20), ("MB".toList, 20), ("MiB".toList, 20),
    ("G".toList, 30), ("GB".toList, 30), ("GiB".toList, 30),
    ("T".toList, 40), ("TB".toList, 40), ("TiB".toList, 40)]

/-- A suffix in any letter case. -/
def IsSuffix (suffix : Text) (shift : ℕ) : Prop :=
  ∃ entry ∈ sizeSuffixes, suffix.map Char.toUpper = entry.1.map Char.toUpper ∧ shift = entry.2

/-- What the suffixes are in capital letters. -/
theorem isSuffix_iff {suffix : Text} {shift : ℕ}
    : IsSuffix suffix shift
      ↔ (suffix.map Char.toUpper, shift) ∈ sizeSuffixes.map (fun entry =>
          (entry.1.map Char.toUpper, entry.2)) := by
  simp [IsSuffix, eq_comm]

/-- The suffixes are the units that sizes are read with, by comparing their capitals with each of
the table.
-/
theorem sizeShift_iff {suffix : Text} {shift : ℕ}
    : sizeShift suffix = some shift ↔ IsSuffix suffix shift := by
  have upper (t : String)
      : String.ofList (suffix.map Char.toUpper) = t ↔ suffix.map Char.toUpper = t.toList := by
    rw [← String.ofList_inj, String.ofList_toList]
  have capitals
      : sizeSuffixes.map (fun entry => (entry.1.map Char.toUpper, entry.2))
        = [("".toList, 0), ("B".toList, 0),
            ("K".toList, 10), ("KB".toList, 10), ("KIB".toList, 10),
            ("M".toList, 20), ("MB".toList, 20), ("MIB".toList, 20),
            ("G".toList, 30), ("GB".toList, 30), ("GIB".toList, 30),
            ("T".toList, 40), ("TB".toList, 40), ("TIB".toList, 40)] := rfl
  rw [isSuffix_iff, capitals]
  unfold sizeShift
  simp only [upper, List.mem_cons, List.not_mem_nil, or_false, Prod.mk.injEq]
  generalize suffix.map Char.toUpper = u
  constructor
  · intro found
    split_ifs at found <;> cases found <;> simp_all
  · intro entry
    rcases entry with ⟨rfl, rfl⟩ | ⟨rfl, rfl⟩ | ⟨rfl, rfl⟩ | ⟨rfl, rfl⟩ | ⟨rfl, rfl⟩ | ⟨rfl, rfl⟩
      | ⟨rfl, rfl⟩ | ⟨rfl, rfl⟩ | ⟨rfl, rfl⟩ | ⟨rfl, rfl⟩ | ⟨rfl, rfl⟩ | ⟨rfl, rfl⟩ | ⟨rfl, rfl⟩
      | ⟨rfl, rfl⟩
    all_goals rfl

/-- A suffix is written with letters, by going through the table. -/
theorem isSuffix_chars {suffix : Text} {shift : ℕ} (isSuffix : IsSuffix suffix shift)
    : shift ≤ 40 ∧ ∀ c ∈ suffix, c.isAlpha = true := by
  obtain ⟨entry, member, same, rfl⟩ := isSuffix
  have letters : sizeSuffixes.all (fun entry =>
      decide (entry.2 ≤ 40) && (entry.1.map Char.toUpper).all Char.isAlpha) = true := rfl
  obtain ⟨small, all⟩ := Bool.and_eq_true_iff.mp (List.all_eq_true.mp letters entry member)
  refine ⟨of_decide_eq_true small, ?_⟩
  rw [← same, List.all_map, List.all_eq_true] at all
  intro c inSuffix
  simpa using all c inSuffix

end Suffixes

/-- A byte size: a number, white space and a suffix, whose product fits into 64 bits. -/
def IsSize (s : Text) (v : ℕ) : Prop :=
  ∃ number n space suffix shift,
    trim s = number ++ space ++ suffix
    ∧ IsNumeral number n
    ∧ n < 2 ^ 64
    ∧ (∀ c ∈ space, isWhitespace c = true)
    ∧ IsSuffix suffix shift
    ∧ n * 2 ^ shift < 2 ^ 64
    ∧ v = n * 2 ^ shift

section Parsing

/-- What a size is read as: the number in front of the last digit, and the unit behind it, by the
cases of either and of an overflow.
-/
theorem parseSize_ok_iff {s : Text} {v : ℕ}
    : parseSize s = .ok v
      ↔ ∃ n shift,
          parseU64 ((trim s).rdropWhile (fun c => !c.isDigit)) = some n
          ∧ sizeShift (trim ((trim s).drop ((trim s).rdropWhile (fun c => !c.isDigit)).length))
            = some shift
          ∧ n < 2 ^ (64 - shift)
          ∧ v = n * 2 ^ shift := by
  unfold parseSize
  cases number : parseU64 ((trim s).rdropWhile (fun c => !c.isDigit)) with
  | none => simp [number]
  | some n =>
      cases unit
          : sizeShift (trim ((trim s).drop ((trim s).rdropWhile (fun c => !c.isDigit)).length)) with
      | none => simp [number, unit]
      | some shift =>
          by_cases overflows : 2 ^ (64 - shift) ≤ n
          · simp [number, unit, overflows]
          · simp [number, unit, overflows, Nat.lt_of_not_le overflows, eq_comm]

/-- White space and letters are no digits. -/
theorem isDigit_of_space {c : Char} (space : isWhitespace c = true) : c.isDigit = false := by
  by_contra digit
  have alphanum : c.isAlphanum = true := by
    simp [Char.isAlphanum, Bool.eq_true_of_not_eq_false digit]
  rw [isWhitespace_of_isGraphic (isGraphic_of_isAlphanum alphanum)] at space
  cases space

/-- No letter is a digit, by their code points. -/
theorem isDigit_of_isAlpha {c : Char} (letter : c.isAlpha = true) : c.isDigit = false := by
  simp only [Char.isAlpha, Char.isUpper, Char.isLower, UInt32.le_iff_toNat_le, ge_iff_le,
    Bool.or_eq_true, Bool.and_eq_true, decide_eq_true_eq] at letter
  change (65 ≤ c.toNat ∧ c.toNat ≤ 90) ∨ (97 ≤ c.toNat ∧ c.toNat ≤ 122) at letter
  simp only [Char.isDigit, UInt32.le_iff_toNat_le, ge_iff_le, Bool.and_eq_false_iff,
    decide_eq_false_iff_not]
  change ¬ 48 ≤ c.toNat ∨ ¬ c.toNat ≤ 57
  omega

theorem isWhitespace_of_isAlpha {c : Char} (letter : c.isAlpha = true)
    : isWhitespace c = false :=
  isWhitespace_of_isGraphic (isGraphic_of_isAlphanum (by simp [Char.isAlphanum, letter]))

/-- A number ends with the last digit in front of white space and letters, for neither of these
has digits.
-/
theorem rdropWhile_number {number space suffix : Text} {n : ℕ} (numeral : IsNumeral number n)
    (spaces : ∀ c ∈ space, isWhitespace c = true) (letters : ∀ c ∈ suffix, c.isAlpha = true)
    : (number ++ (space ++ suffix)).rdropWhile (fun c => !c.isDigit) = number := by
  obtain ⟨sign, digits, rfl, _, nonempty, isDigit, _⟩ := numeral
  obtain ⟨front, last, rfl⟩ := List.eq_nil_or_concat digits |>.resolve_left nonempty
  have kept : (!last.isDigit) = false := by simp [isDigit last (by simp)]
  have dropped : (space ++ suffix).rdropWhile (fun c => !c.isDigit) = [] := by
    refine List.rdropWhile_eq_nil_iff.mpr (fun c member => ?_)
    rcases List.mem_append.mp member with inSpace | inSuffix
    · simp [isDigit_of_space (spaces c inSpace)]
    · simp [isDigit_of_isAlpha (letters c inSuffix)]
  have cut := rdropWhile_append_of_last (p := fun c : Char => !c.isDigit) kept
    (sign ++ front) (space ++ suffix)
  rw [dropped] at cut
  simpa using cut

/-- The unit of a size is its suffix, without the space in front of it. -/
theorem trim_unit {space suffix : Text} (spaces : ∀ c ∈ space, isWhitespace c = true)
    (letters : ∀ c ∈ suffix, c.isAlpha = true)
    : trim (space ++ suffix) = suffix := by
  have starts : trimStart (space ++ suffix) = trimStart suffix :=
    List.dropWhile_append_of_pos spaces
  have clean := trim_of_clean (fun c member => isWhitespace_of_isAlpha (letters c member))
  rw [trim, starts]
  exact clean

/-- What follows a number in a trimmed text is space and what trimming leaves of it: the text
already ends without white space.
-/
theorem trim_rest {s number rest : Text} (parts : trim s = number ++ rest)
    : rest = rest.takeWhile isWhitespace ++ trim rest := by
  have ends : trimEnd (trimStart rest) = trimStart rest := by
    refine List.rdropWhile_eq_self_iff.mpr (fun nonempty => ?_)
    have whole : trim s = (number ++ rest.takeWhile isWhitespace) ++ trimStart rest := by
      rw [parts, List.append_assoc, trimStart, List.takeWhile_append_dropWhile]
    have some' : trim s ≠ [] := by
      rw [whole]
      exact List.append_ne_nil_of_right_ne_nil _ nonempty
    have last := List.rdropWhile_last_not isWhitespace (trimStart s) some'
    have same : (trim s).getLast some' = (trimStart rest).getLast nonempty := by
      simp only [whole, List.getLast_append_of_ne_nil _ nonempty]
    exact same ▸ last
  rw [trim, ends]
  exact (List.takeWhile_append_dropWhile ..).symm

/-- A product fits exactly when no bit of the number is shifted out. -/
theorem mul_two_pow_lt_iff {n shift : ℕ} (small : shift ≤ 40)
    : n * 2 ^ shift < 2 ^ 64 ↔ n < 2 ^ (64 - shift) := by
  have parts : 2 ^ 64 = 2 ^ (64 - shift) * 2 ^ shift := by
    rw [← pow_add]
    congr 1
    omega
  rw [parts, Nat.mul_lt_mul_right (Nat.two_pow_pos shift)]

/-- Exactly the byte sizes are parsed, each as its product. Witness: the number ends at the last
digit, so number and unit are divided in one way.
-/
theorem parseSize_iff (s : Text) (v : ℕ) : parseSize s = .ok v ↔ IsSize s v := by
  rw [parseSize_ok_iff]
  constructor
  · intro parsed
    obtain ⟨n, shift, number, unit, fits, product⟩ := parsed
    obtain ⟨numeral, small⟩ := parseU64_iff.mp number
    have suffix := sizeShift_iff.mp unit
    obtain ⟨rest, parts⟩ := List.rdropWhile_prefix (fun c => !c.isDigit) (trim s)
    generalize (trim s).rdropWhile (fun c => !c.isDigit) = written at numeral suffix parts
    rw [← parts, List.drop_left] at suffix
    refine ⟨_, n, rest.takeWhile isWhitespace, trim rest, shift, ?_, numeral, small, ?_, ?_, ?_,
      product⟩
    · rw [List.append_assoc, ← trim_rest parts.symm, parts]
    · exact fun c member => List.mem_takeWhile_imp member
    · exact suffix
    · exact (mul_two_pow_lt_iff (isSuffix_chars suffix).1).mpr fits
  · intro size
    obtain ⟨number, n, space, suffix, shift, parts, numeral, small, spaces, isSuffix, fits,
      product⟩ := size
    obtain ⟨bound, letters⟩ := isSuffix_chars isSuffix
    rw [List.append_assoc] at parts
    refine ⟨n, shift, ?_, ?_, (mul_two_pow_lt_iff bound).mp fits, product⟩
    · rw [parts, rdropWhile_number numeral spaces letters]
      exact parseU64_iff.mpr ⟨numeral, small⟩
    · rw [parts, rdropWhile_number numeral spaces letters, List.drop_left,
        trim_unit spaces letters]
      exact sizeShift_iff.mpr isSuffix

end Parsing

end DockDoe
