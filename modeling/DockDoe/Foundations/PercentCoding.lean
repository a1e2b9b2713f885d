import DockDoe.Foundations.Numerals

/-! Percent-encoded texts and the bytes they stand for.
Decoding replaces escapes by single bytes, so the length of what is decoded tells whether a
text has any.
-/

namespace PercentCoding

open Numerals

/-- The bytes of a text. -/
def utf8 (s : List Char) : List UInt8 :=
  s.flatMap String.utf8EncodeChar

/-- The byte of two hexadecimal digits. -/
def escaped (high low : Char) : Option UInt8 :=
  match digitValue 16 high, digitValue 16 low with
  | some high, some low => some (UInt8.ofNat (high * 16 + low))
  | _, _ => none

/-- The bytes of a text after its escapes are decoded. -/
def decode : List Char → List UInt8
  | [] => []
  | '%' :: high :: low :: rest =>
      match escaped high low with
      | some byte => byte :: decode rest
      | none => String.utf8EncodeChar '%' ++ decode (high :: low :: rest)
  | c :: rest => String.utf8EncodeChar c ++ decode rest

def startsEscape : List Char → Bool
  | '%' :: high :: low :: _ => (escaped high low).isSome
  | _ => false

def hasEscape (s : List Char) : Bool :=
  s.tails.any startsEscape

/-- An escape of a byte. -/
def escape (byte : UInt8) : List Char :=
  ['%', (Nat.digitChar (byte.toNat / 16)).toUpper, (Nat.digitChar (byte.toNat % 16)).toUpper]

/-- A text with some of its characters escaped. -/
def encode (encodes : Char → Bool) (s : List Char) : List Char :=
  s.flatMap (fun c => if encodes c then (String.utf8EncodeChar c).flatMap escape else [c])

section Decode

theorem decode_escaped {high low : Char} {byte : UInt8} (hex : escaped high low = some byte)
    (rest : List Char)
    : decode ('%' :: high :: low :: rest) = byte :: decode rest := by
  rw [decode, hex]

/-- What starts no escape stands for its own bytes, by cases of the decoder. -/
theorem decode_plain {c : Char} {rest : List Char} (plain : startsEscape (c :: rest) = false)
    : decode (c :: rest) = String.utf8EncodeChar c ++ decode rest := by
  rw [decode.eq_def]
  split
  next same => cases same
  next high low after same =>
    cases same
    rw [startsEscape, Option.isSome_eq_false_iff, Option.isNone_iff_eq_none] at plain
    rw [plain]
  next other after _ same =>
    cases same
    rfl

/-- A text is read escape by escape, and otherwise character by character: the decoder's own
induction with its two plain cases joined.
-/
theorem decode_induction {motive : List Char → Prop} (nil : motive [])
    (escape
      : ∀ high low byte rest,
          escaped high low = some byte → motive rest → motive ('%' :: high :: low :: rest))
    (plain : ∀ c rest, startsEscape (c :: rest) = false → motive rest → motive (c :: rest))
    (s : List Char)
    : motive s := by
  fun_induction decode s with
  | case1 => exact nil
  | case2 high low rest byte hex ih => exact escape high low byte rest hex ih
  | case3 high low rest notHex ih => exact plain '%' _ (by simp [startsEscape, notHex]) ih
  | case4 c rest short ih =>
      apply plain c rest _ ih
      unfold startsEscape
      split
      next high low after same =>
        cases same
        exact absurd rfl (short high low after rfl)
      next => rfl

/-- The digits of an escape are plain letters and digits. -/
theorem digitValue_isAlphanum {radix value : ℕ} {c : Char}
    (digit : digitValue radix c = some value)
    : c.isAlphanum = true := by
  unfold digitValue at digit
  by_contra other
  simp only [Char.isAlphanum, Char.isAlpha, Bool.or_eq_true, not_or] at other
  simp [other.1.1, other.1.2, other.2] at digit

theorem escaped_isAlphanum {high low : Char} {byte : UInt8}
    (hex : escaped high low = some byte)
    : high.isAlphanum = true ∧ low.isAlphanum = true := by
  unfold escaped at hex
  split at hex
  next first second => exact ⟨digitValue_isAlphanum first, digitValue_isAlphanum second⟩
  next => cases hex

end Decode

section Encode

/-- Characters to escape that leave existing escapes as they are. -/
structure LeavesEscapes (encodes : Char → Bool) : Prop where
  percent : encodes '%' = false
  alphanum : ∀ c, c.isAlphanum = true → encodes c = false

variable {encodes : Char → Bool}

theorem decode_escape (byte : UInt8) (rest : List Char)
    : decode (escape byte ++ rest) = byte :: decode rest := by
  have upper : ∀ d < 16, digitValue 16 (Nat.digitChar d).toUpper = some d := by decide
  have small : byte.toNat < 256 := byte.toNat_lt
  apply decode_escaped
  rw [escaped, upper _ (by omega), upper _ (by omega)]
  simp [Nat.div_add_mod']

theorem decode_escapes (bytes : List UInt8) (rest : List Char)
    : decode (bytes.flatMap escape ++ rest) = bytes ++ decode rest := by
  induction bytes with
  | nil => rfl
  | cons byte more ih =>
      rw [List.flatMap_cons, List.append_assoc, decode_escape, ih, List.cons_append]

theorem encode_cons (c : Char) (rest : List Char)
    : encode encodes (c :: rest)
      = if encodes c then
          (String.utf8EncodeChar c).flatMap escape ++ encode encodes rest
        else
          c :: encode encodes rest := by
  rw [encode, List.flatMap_cons]
  split <;> rfl

/-- An escaped text begins with a letter or digit only if the text does, since an escape begins
with a percent sign.
-/
theorem encode_eq_cons {s rest : List Char} {c : Char} (isAlphanum : c.isAlphanum = true)
    (encoded : encode encodes s = c :: rest)
    : ∃ after, s = c :: after ∧ encode encodes after = rest := by
  cases s with
  | nil => cases encoded
  | cons first after =>
      rw [encode_cons] at encoded
      split at encoded
      next =>
        cases bytes : String.utf8EncodeChar first with
        | nil => exact absurd bytes String.utf8EncodeChar_ne_nil
        | cons byte more =>
            rw [bytes] at encoded
            cases encoded
            cases isAlphanum
      next =>
        cases encoded
        exact ⟨after, rfl, rfl⟩

/-- Escaping what follows a percent sign makes no escape of it: its two digits would be letters
or digits, and so stand there already.
-/
theorem startsEscape_encode {c : Char} {rest : List Char}
    (plain : startsEscape (c :: rest) = false)
    : startsEscape (c :: encode encodes rest) = false := by
  by_contra starts
  unfold startsEscape at starts
  split at starts
  next high low after same =>
    obtain ⟨rfl, encoded⟩ := List.cons.inj same
    obtain ⟨byte, hex⟩ := Option.isSome_iff_exists.mp (eq_true_of_ne_false starts)
    obtain ⟨highAlphanum, lowAlphanum⟩ := escaped_isAlphanum hex
    obtain ⟨tail, rfl, encodedTail⟩ := encode_eq_cons highAlphanum encoded
    obtain ⟨last, rfl, _⟩ := encode_eq_cons lowAlphanum encodedTail
    simp [startsEscape, hex] at plain
  next => exact starts rfl

/-- Escaping more of a text does not change what it stands for. By induction on how the text is
read; escapes are left alone, and other characters are escaped or not.
-/
theorem decode_encode (leaves : LeavesEscapes encodes) (s : List Char)
    : decode (encode encodes s) = decode s := by
  induction s using decode_induction with
  | nil => rfl
  | escape high low byte rest hex ih =>
      obtain ⟨highAlphanum, lowAlphanum⟩ := escaped_isAlphanum hex
      simp only [encode_cons, leaves.percent, leaves.alphanum _ highAlphanum,
        leaves.alphanum _ lowAlphanum, Bool.false_eq_true, if_false]
      rw [decode_escaped hex, decode_escaped hex, ih]
  | plain c rest plain ih =>
      rw [encode_cons, decode_plain plain]
      split
      · rw [decode_escapes, ih]
      · rw [decode_plain (startsEscape_encode plain), ih]

end Encode

section Length

theorem hasEscape_cons (c : Char) (rest : List Char)
    : hasEscape (c :: rest) = (startsEscape (c :: rest) || hasEscape rest) := by
  simp [hasEscape, List.tails]

/-- A text without escapes stands for its own bytes. -/
theorem decode_of_noEscape {s : List Char} (none : hasEscape s = false) : decode s = utf8 s := by
  induction s with
  | nil => rfl
  | cons c rest ih =>
      rw [hasEscape_cons, Bool.or_eq_false_iff] at none
      rw [decode_plain none.1, ih none.2]
      rfl

/-- A text stands for no more bytes than it has, and for fewer if it has escapes. By induction on
how the text is read.
-/
theorem decode_length (s : List Char)
    : (decode s).length ≤ (utf8 s).length
      ∧ (hasEscape s = true → (decode s).length < (utf8 s).length) := by
  induction s using decode_induction with
  | nil => simp [hasEscape, startsEscape, decode]
  | escape high low byte rest hex ih =>
      have longer : (utf8 rest).length + 3 ≤ (utf8 ('%' :: high :: low :: rest)).length := by
        have positive (c : Char) : 0 < (String.utf8EncodeChar c).length :=
          List.length_pos_of_ne_nil String.utf8EncodeChar_ne_nil
        have first := positive '%'
        have second := positive high
        have third := positive low
        simp only [utf8, List.flatMap_cons, List.length_append]
        omega
      rw [decode_escaped hex, List.length_cons]
      omega
  | plain c rest plain ih =>
      rw [decode_plain plain, hasEscape_cons, plain, Bool.false_or]
      simp only [utf8, List.flatMap_cons, List.length_append] at ih ⊢
      refine ⟨Nat.add_le_add_left ih.1 _, ?_⟩
      intro has
      exact Nat.add_lt_add_left (ih.2 has) _

end Length

theorem utf8_injective {s other : List Char} (same : utf8 s = utf8 other) : s = other := by
  have strings : String.ofList s = String.ofList other := by
    apply String.toByteArray_inj.mp
    rw [String.toByteArray_ofList, String.toByteArray_ofList, List.utf8Encode, List.utf8Encode]
    exact congrArg List.toByteArray same
  exact String.ofList_injective strings

/-- Part of a text has fewer bytes, unless it is all of the text. By induction on the part, since
every character has a byte.
-/
theorem utf8_sublist {part s : List Char} (sublist : part.Sublist s)
    : (utf8 part).length ≤ (utf8 s).length
      ∧ ((utf8 part).length = (utf8 s).length → part = s) := by
  have positive (c : Char) : 0 < (String.utf8EncodeChar c).length :=
    List.length_pos_of_ne_nil String.utf8EncodeChar_ne_nil
  induction sublist with
  | slnil => simp
  | cons c _ ih =>
      have shorter := positive c
      simp only [utf8, List.flatMap_cons, List.length_append] at ih ⊢
      refine ⟨by omega, ?_⟩
      intro same
      omega
  | cons_cons c _ ih =>
      simp only [utf8, List.flatMap_cons, List.length_append] at ih ⊢
      refine ⟨by omega, ?_⟩
      intro same
      rw [ih.2 (by omega)]

end PercentCoding
