import DockDoe.Foundations.Cuts
import DockDoe.Foundations.Json

/-! Reading back JSON that was written. Whatever characters are escaped, as long as each is read
back, so is every value.
-/

namespace Json

section Numbers

theorem digits_numberChars {s : List Char} (digits : isDigits s = true)
    : ∀ c ∈ s, isNumberChar c = true := by
  intro c member
  have digit := List.all_eq_true.mp (Bool.and_eq_true_iff.mp digits).2 c member
  simp [isNumberChar, digit]

theorem exponent_numberChars {s : List Char} (exponent : isExponent s = true)
    : ∀ c ∈ s, isNumberChar c = true := by
  unfold isExponent at exponent
  split at exponent
  · simp
  · cases exponent
  next e sign rest =>
    obtain ⟨letter, digits⟩ := Bool.and_eq_true_iff.mp exponent
    have first : isNumberChar e = true := by
      rcases Bool.or_eq_true_iff.mp letter with same | same
      · rw [beq_iff_eq.mp same]
        rfl
      · rw [beq_iff_eq.mp same]
        rfl
    refine List.forall_mem_cons.mpr ⟨first, ?_⟩
    split at digits
    next signed =>
      have second : isNumberChar sign = true := by
        rcases Bool.or_eq_true_iff.mp signed with same | same
        · rw [beq_iff_eq.mp same]
          rfl
        · rw [beq_iff_eq.mp same]
          rfl
      exact List.forall_mem_cons.mpr ⟨second, digits_numberChars digits⟩
    next => exact digits_numberChars digits

/-- Digits may come before what is written with the characters of numbers. -/
theorem numberChars_of_dropWhile {s : List Char}
    (later : ∀ c ∈ s.dropWhile Char.isDigit, isNumberChar c = true)
    : ∀ c ∈ s, isNumberChar c = true := by
  have digits : ∀ c ∈ s.takeWhile Char.isDigit, isNumberChar c = true := by
    intro c member
    simp [isNumberChar, List.mem_takeWhile_imp member]
  have parts := List.forall_mem_append.mpr ⟨digits, later⟩
  rwa [List.takeWhile_append_dropWhile] at parts

theorem fraction_numberChars {s : List Char} (fraction : isFraction s = true)
    : ∀ c ∈ s, isNumberChar c = true := by
  unfold isFraction at fraction
  split at fraction
  next point =>
    cases s with
    | nil => cases point
    | cons first rest =>
        cases point
        obtain ⟨_, exponent⟩ := Bool.and_eq_true_iff.mp fraction
        exact List.forall_mem_cons.mpr
          ⟨rfl, numberChars_of_dropWhile (exponent_numberChars exponent)⟩
  next => exact exponent_numberChars fraction

theorem unsigned_numberChars {s : List Char} (unsigned : isUnsigned s = true)
    : ∀ c ∈ s, isNumberChar c = true := by
  cases s with
  | nil => cases unsigned
  | cons first rest =>
      rw [isUnsigned] at unsigned
      split at unsigned
      next zero =>
        rw [zero]
        exact List.forall_mem_cons.mpr ⟨rfl, fraction_numberChars unsigned⟩
      next =>
        obtain ⟨digit, fraction⟩ := Bool.and_eq_true_iff.mp unsigned
        have isNumber : isNumberChar first = true := by
          simp [isNumberChar, digit]
        exact List.forall_mem_cons.mpr
          ⟨isNumber, numberChars_of_dropWhile (fraction_numberChars fraction)⟩

theorem unsigned_head {s : List Char} (unsigned : isUnsigned s = true)
    : ∃ c rest, s = c :: rest ∧ c.isDigit = true := by
  cases s with
  | nil => cases unsigned
  | cons first rest =>
      rw [isUnsigned] at unsigned
      split at unsigned
      next zero => exact ⟨first, rest, rfl, by rw [zero]; rfl⟩
      next => exact ⟨first, rest, rfl, (Bool.and_eq_true_iff.mp unsigned).1⟩

/-- A number starts with a digit or a minus and is written with the characters of numbers. By
cases on the sign.
-/
theorem isNumber_spec {s : List Char} (valid : isNumber s = true)
    : (∃ c rest, s = c :: rest ∧ (c = '-' ∨ c.isDigit = true))
      ∧ ∀ c ∈ s, isNumberChar c = true := by
  unfold isNumber at valid
  split at valid
  next minus =>
    cases s with
    | nil => cases minus
    | cons first rest =>
        cases minus
        exact ⟨⟨'-', rest, rfl, .inl rfl⟩,
          List.forall_mem_cons.mpr ⟨rfl, unsigned_numberChars valid⟩⟩
  next =>
    obtain ⟨c, rest, parts, digit⟩ := unsigned_head valid
    exact ⟨⟨c, rest, parts, .inr digit⟩, unsigned_numberChars valid⟩

/-- A positive number in decimal starts with a digit other than zero. By strong induction: all
but the last digit are those of a smaller number.
-/
theorem toDigits_parts {n : ℕ} (positive : 0 < n)
    : ∃ c rest,
        Nat.toDigits 10 n = c :: rest
        ∧ c ≠ '0'
        ∧ c.isDigit = true
        ∧ rest.all Char.isDigit = true := by
  induction n using Nat.strong_induction_on with
  | h n ih =>
      have digits : ∀ d < 10, d.digitChar.isDigit = true ∧ (d = 0 ∨ d.digitChar ≠ '0') := by
        decide
      rw [Nat.toDigits_eq_if (by decide)]
      split
      next digit =>
        obtain ⟨isDigit, notZero⟩ := digits n digit
        exact ⟨_, [], rfl, notZero.resolve_left positive.ne', isDigit, rfl⟩
      next long =>
        obtain ⟨c, rest, parts, notZero, isDigit, others⟩ := ih (n / 10) (by omega) (by omega)
        have last := (digits (n % 10) (Nat.mod_lt n (by decide))).1
        refine ⟨c, rest ++ [(n % 10).digitChar], ?_, notZero, isDigit, ?_⟩
        · rw [parts, List.cons_append]
        · simp [others, last]

/-- A number in decimal is one: zero has its own form, and others start with a digit that is not
zero.
-/
theorem isNumber_toDigits (n : ℕ) : isNumber (Nat.toDigits 10 n) = true := by
  rcases Nat.eq_zero_or_pos n with rfl | positive
  · rfl
  · obtain ⟨c, rest, parts, notZero, isDigit, others⟩ := toDigits_parts positive
    have notMinus : c ≠ '-' := by
      rintro rfl
      cases isDigit
    have all : rest.dropWhile Char.isDigit = [] :=
      List.dropWhile_eq_nil_iff.mpr (List.all_eq_true.mp others)
    rw [parts, isNumber, if_neg (by simpa using notMinus), isUnsigned, if_neg notZero, isDigit,
      all]
    rfl

/-- The literal of a natural number. -/
def Literal.ofNat (n : ℕ) : Literal where
  text := Nat.toDigits 10 n
  valid := isNumber_toDigits n

/-- A number is read up to the first character that numbers are not written with, since all of
its own are such.
-/
theorem readNumber_append (literal : Literal) {rest : List Char}
    (ends : ∀ c ∈ rest.head?, isNumberChar c = false)
    : readNumber (literal.text ++ rest) = some (literal, rest) := by
  have inside := (isNumber_spec literal.valid).2
  have taken : (literal.text ++ rest).takeWhile isNumberChar = literal.text :=
    (Cuts.eq_takeWhile_iff.mpr ⟨rest, rfl, inside, ends⟩).symm
  have left : (literal.text ++ rest).dropWhile isNumberChar = rest := by
    have whole := List.takeWhile_append_dropWhile (p := isNumberChar) (l := literal.text ++ rest)
    rw [taken] at whole
    exact List.append_cancel_left whole
  unfold readNumber
  simp only [taken, left, literal.valid, dif_pos]

end Numbers

section Strings

variable {escape : Char → List Char}

/-- Every character is read back from its escape. -/
def Escapes (escape : Char → List Char) : Prop :=
  ∀ c rest, readChar (escape c ++ rest) = some (c, rest)

/-- An escape is not empty and does not start like the end of a string, or it could not be read
back.
-/
theorem Escapes.head (escapes : Escapes escape) (c : Char)
    : ∃ first rest, escape c = first :: rest ∧ first ≠ '"' := by
  have read := escapes c []
  rw [List.append_nil] at read
  cases written : escape c with
  | nil =>
      rw [written] at read
      cases read
  | cons first rest =>
      refine ⟨first, rest, rfl, ?_⟩
      rintro rfl
      rw [written] at read
      cases read

/-- The characters of a string are read back one by one. By induction on the string; no escape is
taken for its end.
-/
theorem readChars_flatMap (escapes : Escapes escape) {s : List Char} {fuel : ℕ}
    (enough : s.length < fuel) (rest : List Char)
    : readChars fuel (s.flatMap escape ++ '"' :: rest) = some (s, rest) := by
  induction s generalizing fuel with
  | nil =>
      cases fuel with
      | zero => cases enough
      | succ fuel => rfl
  | cons c s ih =>
      cases fuel with
      | zero => cases enough
      | succ fuel =>
          obtain ⟨first, others, written, notQuote⟩ := escapes.head c
          have open' : (escape c ++ (s.flatMap escape ++ '"' :: rest)).head? ≠ some '"' := by
            simpa [written] using notQuote
          rw [List.flatMap_cons, List.append_assoc, readChars, if_neg open', escapes,
            Option.bind_some, ih (Nat.lt_of_succ_lt_succ enough), Option.map_some]

/-- An escaped string is no shorter, by induction on the string. -/
theorem Escapes.length_le (escapes : Escapes escape) (s : List Char)
    : s.length ≤ (s.flatMap escape).length := by
  induction s with
  | nil => exact Nat.le_refl 0
  | cons c s ih =>
      obtain ⟨first, others, written, _⟩ := escapes.head c
      rw [List.flatMap_cons, List.length_append, written, List.length_cons, List.length_cons]
      omega

/-- A string is read back behind its opening quote. -/
theorem readString_append (escapes : Escapes escape) (s rest : List Char)
    : readString (s.flatMap escape ++ '"' :: rest) = some (s, rest) := by
  refine readChars_flatMap escapes ?_ rest
  have := escapes.length_le s
  rw [List.length_append, List.length_cons]
  omega

/-- A key is read back with its colon, with no space to skip. -/
theorem readKey_append (escapes : Escapes escape) (key rest : List Char)
    : readKey (quoted escape key ++ ':' :: rest) = some (key, rest) := by
  have written
      : quoted escape key ++ ':' :: rest = '"' :: (key.flatMap escape ++ '"' :: ':' :: rest) := by
    simp [quoted]
  have atQuote (s : List Char) : skipSpace ('"' :: s) = '"' :: s := rfl
  have atColon (s : List Char) : skipSpace (':' :: s) = ':' :: s := rfl
  rw [written, readKey]
  simp only [atQuote, List.head?_cons, if_true, List.tail_cons, readString_append escapes,
    Option.bind_some, atColon]

/-- A letter of an escape means the character it is written for. -/
theorem letterMeaning_escapeLetter {c letter : Char} (written : escapeLetter c = some letter)
    : letterMeaning letter = some c ∧ letter ≠ 'u' := by
  unfold escapeLetter at written
  split_ifs at written <;> cases written <;> subst_vars <;> decide

/-- Four digits, of which the first two are zeros, are read back as the value of the last two. -/
theorem readUnit_pair {n : ℕ} (small : n < 0x100) (rest : List Char)
    : readUnit ('0' :: '0' :: (n / 16).digitChar :: (n % 16).digitChar :: rest)
      = some (n, rest) := by
  have zero : Numerals.digitValue 16 '0' = some 0 := rfl
  have high : n / 16 < 16 := by omega
  have low : n % 16 < 16 := by omega
  have value
      : Numerals.number 16 ['0', '0', (n / 16).digitChar, (n % 16).digitChar] = some n := by
    simp [Numerals.number, Numerals.push, zero, Numerals.digitValue_digitChar le_rfl high,
      Numerals.digitValue_digitChar le_rfl low, Nat.div_add_mod']
  simp [readUnit, value]

/-- The least escaping can be read back: a letter stands for its character, four digits for a
control character, and others for themselves.
-/
theorem standardEscape_escapes : Escapes standardEscape := by
  intro c rest
  cases letter : escapeLetter c with
  | some written =>
      obtain ⟨meaning, notUnicode⟩ := letterMeaning_escapeLetter letter
      simp [standardEscape, letter, readChar, meaning, notUnicode]
  | none =>
      by_cases control : c.toNat < 0x20
      · have unit := readUnit_pair (n := c.toNat) (by omega) rest
        have notSurrogate : c.toNat < 0xD800 := by omega
        simp [standardEscape, letter, control, readChar, readUnicode, unit, notSurrogate]
      · have plain : c ≠ '\\' ∧ c ≠ '"' := by
          constructor <;> (rintro rfl; cases letter)
        simp [standardEscape, letter, control, readChar, plain]

theorem letter_printable {c letter : Char} (written : escapeLetter c = some letter)
    : 0x20 ≤ letter.toNat := by
  unfold escapeLetter at written
  split_ifs at written <;> cases written <;> decide

/-- The standard escapes have no control characters, by cases on how the character is written. -/
theorem standardEscape_printable {c other : Char} (inside : c ∈ standardEscape other)
    : 0x20 ≤ c.toNat := by
  have digits : ∀ d < 16, 0x20 ≤ d.digitChar.toNat := by decide
  unfold standardEscape at inside
  split at inside
  next letter written =>
    have printable := letter_printable written
    simp only [List.mem_cons, List.not_mem_nil, or_false] at inside
    rcases inside with rfl | rfl
    · decide
    · exact printable
  next plain =>
    split at inside
    next control =>
      have high := digits (other.toNat / 16) (by omega)
      have low := digits (other.toNat % 16) (by omega)
      simp only [List.mem_cons, List.not_mem_nil, or_false] at inside
      rcases inside with rfl | rfl | rfl | rfl | rfl | rfl
      · decide
      · decide
      · decide
      · decide
      · exact high
      · exact low
    next printable =>
      rw [List.mem_singleton.mp inside]
      omega

end Strings

section Values

variable {escape : Char → List Char}

/-- What stands behind a value does not continue a number. -/
def EndsNumber (rest : List Char) : Prop :=
  ∀ c ∈ rest.head?, isNumberChar c = false

theorem skipSpace_of_head {c : Char} (notSpace : isSpace c = false) (s : List Char)
    : skipSpace (c :: s) = c :: s := by
  rw [skipSpace, List.dropWhile_cons_of_neg (by simp [notSpace])]

/-- A value starts with no space and with no closing bracket, by cases on its kind. -/
theorem text_head (escape : Char → List Char) (value : Value)
    : ∃ c s, value.text escape = c :: s ∧ isSpace c = false ∧ c ≠ ']' ∧ c ≠ '}' := by
  cases value with
  | null => exact ⟨'n', _, rfl, rfl, by decide, by decide⟩
  | bool b => cases b <;> exact ⟨_, _, rfl, rfl, by decide, by decide⟩
  | number literal =>
      obtain ⟨c, rest, parts, first⟩ := (isNumber_spec literal.valid).1
      refine ⟨c, rest, parts, ?_⟩
      rcases first with rfl | digit
      · exact ⟨rfl, by decide, by decide⟩
      · refine ⟨?_, ?_, ?_⟩
        · by_contra space
          simp only [isSpace, Bool.not_eq_false, Bool.or_eq_true, beq_iff_eq] at space
          rcases space with ((rfl | rfl) | rfl) | rfl <;> cases digit
        · rintro rfl
          cases digit
        · rintro rfl
          cases digit
  | string s => exact ⟨'"', _, rfl, rfl, by decide, by decide⟩
  | array items => cases items <;> exact ⟨'[', _, rfl, rfl, by decide, by decide⟩
  | object members =>
      cases members with
      | nil => exact ⟨'\x7b', _, rfl, rfl, by decide, by decide⟩
      | cons first rest => exact ⟨'\x7b', _, rfl, rfl, by decide, by decide⟩

/-- A number is not taken for anything else, by what it starts with. -/
theorem readValue_number (literal : Literal) {rest : List Char} (ends : EndsNumber rest)
    (fuel : ℕ)
    : readValue (fuel + 1) (literal.text ++ rest) = some (.number literal, rest) := by
  obtain ⟨c, s, parts, notSpace, _, _⟩ := text_head standardEscape (.number literal)
  change literal.text = c :: s at parts
  have digitOrMinus : c = '-' ∨ c.isDigit = true := by
    obtain ⟨first, others, same, first'⟩ := (isNumber_spec literal.valid).1
    rw [parts] at same
    cases same
    exact first'
  have other (d : Char) (notMinus : d ≠ '-') (notDigit : d.isDigit = false) : c ≠ d := by
    rintro rfl
    rcases digitOrMinus with minus | digit
    · exact notMinus minus
    · rw [digit] at notDigit
      cases notDigit
  have read := readNumber_append literal ends
  rw [parts, List.cons_append] at read ⊢
  rw [readValue, skipSpace_of_head notSpace]
  simp [other, read]

theorem itemsText_ends (items : List Value) (rest : List Char)
    : EndsNumber (itemsText escape items ++ rest) := by
  intro c first
  cases items <;> (cases first; rfl)

theorem membersText_ends (members : List (List Char × Value)) (rest : List Char)
    : EndsNumber (membersText escape members ++ rest) := by
  intro c first
  cases members with
  | nil => cases first; rfl
  | cons member members => cases first; rfl

/-- Behind an opening bracket, the text of a value is not taken for the closing one. -/
theorem head_skipSpace_text (escape : Char → List Char) (value : Value) (rest : List Char)
    : skipSpace (value.text escape ++ rest) = value.text escape ++ rest
      ∧ (value.text escape ++ rest).head? ≠ some ']' := by
  obtain ⟨c, s, parts, notSpace, notBracket, _⟩ := text_head escape value
  rw [parts, List.cons_append]
  refine ⟨skipSpace_of_head notSpace _, ?_⟩
  simpa using notBracket

theorem exists_fuel {value : Value} {fuel : ℕ} (enough : (value.text escape).length ≤ fuel)
    : ∃ n, fuel = n + 1 := by
  obtain ⟨c, s, parts, _⟩ := text_head escape value
  rw [parts, List.length_cons] at enough
  exact ⟨fuel - 1, by omega⟩

mutual

/-- A value is read back with fuel for each of its characters, by recursion on the value. -/
theorem readValue_text (escapes : Escapes escape)
    : ∀ (value : Value) (fuel : ℕ) (rest : List Char),
        (value.text escape).length ≤ fuel → EndsNumber rest
        → readValue fuel (value.text escape ++ rest) = some (value, rest)
  | .null, fuel, rest, enough, _ => by
      obtain ⟨n, rfl⟩ := exists_fuel enough
      rfl
  | .bool true, fuel, rest, enough, _ => by
      obtain ⟨n, rfl⟩ := exists_fuel enough
      rfl
  | .bool false, fuel, rest, enough, _ => by
      obtain ⟨n, rfl⟩ := exists_fuel enough
      rfl
  | .number literal, fuel, rest, enough, ends => by
      obtain ⟨n, rfl⟩ := exists_fuel enough
      exact readValue_number literal ends n
  | .string s, fuel, rest, enough, _ => by
      obtain ⟨n, rfl⟩ := exists_fuel enough
      have read := readString_append escapes s rest
      simp only [Value.text, quoted, List.cons_append, List.append_assoc, List.nil_append,
        readValue, skipSpace_of_head (show isSpace '"' = false from rfl), if_true, read,
        Option.map_some]
  | .array [], fuel, rest, enough, _ => by
      obtain ⟨n, rfl⟩ := exists_fuel enough
      rfl
  | .array (first :: items), fuel, rest, enough, _ => by
      obtain ⟨n, rfl⟩ := exists_fuel enough
      simp only [Value.text, List.length_cons, List.length_append] at enough
      have head := readValue_text escapes first n (itemsText escape items ++ rest) (by omega)
        (itemsText_ends items rest)
      have tail := readItems_text escapes items n rest (by omega)
      have opened := head_skipSpace_text escape first (itemsText escape items ++ rest)
      simp only [Value.text, List.cons_append, List.append_assoc, readValue,
        skipSpace_of_head (show isSpace '[' = false from rfl), opened.1, opened.2, head, tail,
        Char.reduceEq, if_true, if_false, Option.bind_some, Option.map_some]
  | .object [], fuel, rest, enough, _ => by
      obtain ⟨n, rfl⟩ := exists_fuel enough
      rfl
  | .object ((key, first) :: members), fuel, rest, enough, _ => by
      obtain ⟨n, rfl⟩ := exists_fuel enough
      simp only [Value.text, List.length_cons, List.length_append] at enough
      have head := readValue_text escapes first n (membersText escape members ++ rest) (by omega)
        (membersText_ends members rest)
      have tail := readMembers_text escapes members n rest (by omega)
      have named := readKey_append escapes key
        (first.text escape ++ (membersText escape members ++ rest))
      have opened (s : List Char)
          : (skipSpace (quoted escape key ++ ':' :: s)).head? ≠ some '\x7d' :=
        fun closed => absurd (Option.some.inj closed) (by decide)
      simp only [Value.text, List.cons_append, List.append_assoc, readValue,
        skipSpace_of_head (show isSpace '\x7b' = false from rfl), opened, named, head, tail,
        Char.reduceEq, if_true, if_false, Option.bind_some, Option.map_some]

theorem readItems_text (escapes : Escapes escape)
    : ∀ (items : List Value) (fuel : ℕ) (rest : List Char),
        (itemsText escape items).length ≤ fuel
        → readItems fuel (itemsText escape items ++ rest) = some (items, rest)
  | [], fuel, rest, enough => by
      obtain ⟨n, rfl⟩ : ∃ n, fuel = n + 1 := ⟨fuel - 1, by simp [itemsText] at enough; omega⟩
      rfl
  | item :: items, fuel, rest, enough => by
      simp only [itemsText, List.length_cons, List.length_append] at enough
      obtain ⟨n, rfl⟩ : ∃ n, fuel = n + 1 := ⟨fuel - 1, by omega⟩
      have head := readValue_text escapes item n (itemsText escape items ++ rest) (by omega)
        (itemsText_ends items rest)
      have tail := readItems_text escapes items n rest (by omega)
      simp only [itemsText, List.cons_append, List.append_assoc, readItems,
        skipSpace_of_head (show isSpace ',' = false from rfl), head, tail, Char.reduceEq,
        if_true, if_false, Option.bind_some, Option.map_some]

theorem readMembers_text (escapes : Escapes escape)
    : ∀ (members : List (List Char × Value)) (fuel : ℕ) (rest : List Char),
        (membersText escape members).length ≤ fuel
        → readMembers fuel (membersText escape members ++ rest) = some (members, rest)
  | [], fuel, rest, enough => by
      obtain ⟨n, rfl⟩ : ∃ n, fuel = n + 1 := ⟨fuel - 1, by simp [membersText] at enough; omega⟩
      rfl
  | (key, value) :: members, fuel, rest, enough => by
      simp only [membersText, List.length_cons, List.length_append] at enough
      obtain ⟨n, rfl⟩ : ∃ n, fuel = n + 1 := ⟨fuel - 1, by omega⟩
      have head := readValue_text escapes value n (membersText escape members ++ rest)
        (by omega) (membersText_ends members rest)
      have tail := readMembers_text escapes members n rest (by omega)
      have named := readKey_append escapes key
        (value.text escape ++ (membersText escape members ++ rest))
      simp only [membersText, List.cons_append, List.append_assoc, readMembers,
        skipSpace_of_head (show isSpace ',' = false from rfl), named, head, tail, Char.reduceEq,
        if_true, if_false, Option.bind_some, Option.map_some]

end

/-- The text of a value is valid JSON and is read as that value. -/
theorem parse_text (escapes : Escapes escape) (value : Value)
    : parse (value.text escape) = some value := by
  have read := readValue_text escapes value _ [] le_rfl (by intro c first; cases first)
  rw [List.append_nil] at read
  rw [parse, read]
  rfl

end Values

-----------------------------------------------------------------------------------------
-- Replacing a character in a text
-----------------------------------------------------------------------------------------

section Replacing

/-- A character that stands outside of strings. -/
def isStructural (c : Char) : Bool :=
  isNumberChar c || "nulltruefalse\"[]\x7b\x7d,:".toList.contains c

variable {old : Char} {new : List Char} {escape : Char → List Char}

theorem replaceAll_append (s other : List Char)
    : replaceAll old new (s ++ other) = replaceAll old new s ++ replaceAll old new other :=
  List.flatMap_append

theorem replaceAll_of_not_mem {s : List Char} (absent : old ∉ s) : replaceAll old new s = s := by
  have kept : ∀ c ∈ s, (if c = old then new else [c]) = [c] := by
    intro c member
    exact if_neg (fun same : c = old => absent (same ▸ member))
  rw [replaceAll, List.flatMap_congr kept, List.flatMap_singleton']

/-- No occurrence is left where the replacement has none. -/
theorem not_mem_replaceAll (absent : old ∉ new) (s : List Char)
    : old ∉ replaceAll old new s := by
  intro member
  obtain ⟨c, _, inside⟩ := List.mem_flatMap.mp member
  split at inside
  · exact absent inside
  next other => exact other (List.mem_singleton.mp inside).symm

/-- A character that is not structural is no bracket, comma, colon or quote. -/
theorem replaceAll_cons_structural {c : Char} (outside : isStructural old = false)
    (structural : isStructural c = true) (s : List Char)
    : replaceAll old new (c :: s) = c :: replaceAll old new s := by
  have other : c ≠ old := by
    rintro rfl
    rw [structural] at outside
    cases outside
  rw [replaceAll, List.flatMap_cons, if_neg other]
  rfl

theorem replaceAll_structural {s : List Char} (outside : isStructural old = false)
    (structural : s.all isStructural = true)
    : replaceAll old new s = s := by
  refine replaceAll_of_not_mem (fun member => ?_)
  rw [List.all_eq_true.mp structural old member] at outside
  cases outside

/-- Replacing a character in a string is replacing it in the escapes. -/
theorem replaceAll_quoted (outside : isStructural old = false) (s : List Char)
    : replaceAll old new (quoted escape s)
      = quoted (fun c => replaceAll old new (escape c)) s := by
  rw [quoted, replaceAll_cons_structural outside rfl, replaceAll_append,
    replaceAll_structural (s := ['"']) outside rfl, quoted, replaceAll,
    List.flatMap_assoc]
  rfl

mutual

/-- Replacing a character that is not structural in the text of a value is replacing it in the
escapes of the strings, by recursion on the value.
-/
theorem replaceAll_text (outside : isStructural old = false)
    : ∀ value : Value,
        replaceAll old new (value.text escape)
        = value.text (fun c => replaceAll old new (escape c))
  | .null => replaceAll_structural outside rfl
  | .bool true => replaceAll_structural outside rfl
  | .bool false => replaceAll_structural outside rfl
  | .number literal => by
      refine replaceAll_structural outside (List.all_eq_true.mpr (fun c member => ?_))
      exact Bool.or_eq_true_iff.mpr (.inl ((isNumber_spec literal.valid).2 c member))
  | .string s => replaceAll_quoted outside s
  | .array [] => replaceAll_structural outside rfl
  | .array (first :: items) => by
      rw [Value.text, replaceAll_cons_structural outside rfl, replaceAll_append,
        replaceAll_text outside first, replaceAll_itemsText outside items, Value.text]
  | .object [] => replaceAll_structural outside rfl
  | .object ((key, first) :: members) => by
      rw [Value.text, replaceAll_cons_structural outside rfl, replaceAll_append,
        replaceAll_quoted outside, replaceAll_cons_structural outside rfl, replaceAll_append,
        replaceAll_text outside first, replaceAll_membersText outside members, Value.text]

theorem replaceAll_itemsText (outside : isStructural old = false)
    : ∀ items : List Value,
        replaceAll old new (itemsText escape items)
        = itemsText (fun c => replaceAll old new (escape c)) items
  | [] => replaceAll_structural outside rfl
  | item :: items => by
      rw [itemsText, replaceAll_cons_structural outside rfl, replaceAll_append,
        replaceAll_text outside item, replaceAll_itemsText outside items, itemsText]

theorem replaceAll_membersText (outside : isStructural old = false)
    : ∀ members : List (List Char × Value),
        replaceAll old new (membersText escape members)
        = membersText (fun c => replaceAll old new (escape c)) members
  | [] => replaceAll_structural outside rfl
  | (key, value) :: members => by
      rw [membersText, replaceAll_cons_structural outside rfl, replaceAll_append,
        replaceAll_quoted outside, replaceAll_cons_structural outside rfl, replaceAll_append,
        replaceAll_text outside value, replaceAll_membersText outside members, membersText]

end

/-- A character that is neither structural nor in an escape is not in a text. -/
theorem not_mem_text (outside : isStructural old = false) (absent : ∀ c, old ∉ escape c)
    (value : Value)
    : old ∉ value.text escape := by
  have kept : (fun c => replaceAll old [] (escape c)) = escape := by
    funext c
    exact replaceAll_of_not_mem (absent c)
  have same
      : replaceAll old [] (value.text escape)
        = value.text (fun c => replaceAll old [] (escape c)) :=
    replaceAll_text outside value
  rw [kept] at same
  rw [← same]
  exact not_mem_replaceAll List.not_mem_nil _

end Replacing

end Json
