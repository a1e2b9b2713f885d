import Mathlib

/-! Lossy UTF-8 decoding: every maximal part of an ill-formed sequence that could start a
character becomes one replacement character. The decoder reads byte by byte and keeps the
character it is in.
-/

namespace LossyUtf8

/-- U+FFFD. -/
def replacement : Char := '\uFFFD'

/-- A character some bytes of which are missing: how many, the range the next one has to
lie in, and the bits read so far.
-/
structure Partial where
  missing : ℕ
  low : ℕ
  high : ℕ
  code : ℕ

/-- The character that a lead byte starts. -/
def lead (byte : ℕ) : Option Partial :=
  if 0xC2 ≤ byte ∧ byte ≤ 0xDF then
    some { missing := 1, low := 0x80, high := 0xBF, code := byte - 0xC0 }
  else if 0xE0 ≤ byte ∧ byte ≤ 0xEF then
    -- No overlong forms and no surrogates.
    some {
      missing := 2
      low := if byte = 0xE0 then 0xA0 else 0x80
      high := if byte = 0xED then 0x9F else 0xBF
      code := byte - 0xE0
    }
  else if 0xF0 ≤ byte ∧ byte ≤ 0xF4 then
    -- No overlong forms and nothing beyond U+10FFFF.
    some {
      missing := 3
      low := if byte = 0xF0 then 0x90 else 0x80
      high := if byte = 0xF4 then 0x8F else 0xBF
      code := byte - 0xF0
    }
  else
    none

/-- What a byte between characters yields, and the character it starts. -/
def first (byte : ℕ) : List Char × Option Partial :=
  if byte < 0x80 then
    ([Char.ofNat byte], none)
  else
    match lead byte with
    | some started => ([], some started)
    | none => ([replacement], none)

/-- What the next byte yields. One that does not continue the current character ends it
early and is read again as the first byte of another.
-/
def next (current : Option Partial) (byte : ℕ) : List Char × Option Partial :=
  match current with
  | none => first byte
  | some p =>
      if p.low ≤ byte ∧ byte ≤ p.high then
        if p.missing = 1 then
          ([Char.ofNat (p.code * 64 + byte % 64)], none)
        else
          ([], some {
            missing := p.missing - 1
            low := 0x80
            high := 0xBF
            code := p.code * 64 + byte % 64
          })
      else
        (replacement :: (first byte).1, (first byte).2)

/-- Decode the remaining bytes; a character left incomplete at the end is replaced. -/
def decodeFrom : Option Partial → List UInt8 → List Char
  | none, [] => []
  | some _, [] => [replacement]
  | current, byte :: rest =>
      (next current byte.toNat).1 ++ decodeFrom (next current byte.toNat).2 rest

/-- `String::from_utf8_lossy`. -/
def fromUtf8Lossy (bytes : List UInt8) : List Char :=
  decodeFrom none bytes

/-- A continuation byte. -/
def Continuation (byte : UInt8) : Prop :=
  0x80 ≤ byte.toNat ∧ byte.toNat ≤ 0xBF

/-- A continuation byte between characters is replaced on its own. -/
theorem fromUtf8Lossy_continuation {byte : UInt8} (continuation : Continuation byte)
    (rest : List UInt8)
    : fromUtf8Lossy (byte :: rest) = replacement :: fromUtf8Lossy rest := by
  obtain ⟨low, high⟩ := continuation
  have started : first byte.toNat = ([replacement], none) := by
    simp only [first, lead]
    split_ifs <;> first | omega | rfl
  simp [fromUtf8Lossy, decodeFrom, next, started]

/-- A byte in range continues the current character. -/
theorem next_of_mem {p : Partial} {byte : ℕ} (low : p.low ≤ byte) (high : byte ≤ p.high)
    : next (some p) byte
      = if p.missing = 1 then
          ([Char.ofNat (p.code * 64 + byte % 64)], none)
        else
          ([], some {
            missing := p.missing - 1
            low := 0x80
            high := 0xBF
            code := p.code * 64 + byte % 64
          }) := by
  simp only [next, low, high, and_self, if_true]

/-- The bytes after a lead byte: as many as are missing, the first in the lead byte's range,
all of them continuation bytes.
-/
structure Tail (started : Partial) (tail : List UInt8) : Prop where
  length : tail.length = started.missing
  first : ∀ byte ∈ tail.head?, started.low ≤ byte.toNat ∧ byte.toNat ≤ started.high
  continuation : ∀ byte ∈ tail, Continuation byte

/-- The code point that a lead byte and its tail spell. -/
def codePoint (started : Partial) (tail : List UInt8) : ℕ :=
  tail.foldl (fun code byte => code * 64 + byte.toNat % 64) started.code

/-- Six bits behind the mark of continuation bytes are one. -/
theorem continuation_group (n : ℕ) : Continuation (UInt8.ofNat (n % 64 + 0x80)) := by
  have small : n % 64 + 0x80 < 256 := by omega
  rw [Continuation, UInt8.toNat_ofNat_of_lt' small]
  omega

/-- A character is encoded as one ASCII byte, or as a lead byte with its tail. By cases on the
four ranges of the encoding, with the bytes' values computed.
-/
theorem encode_cases (c : Char)
    : (c.toNat < 0x80 ∧ ∃ byte, String.utf8EncodeChar c = [byte] ∧ byte.toNat = c.toNat)
      ∨ (0x80 ≤ c.toNat
          ∧ ∃ byte tail started,
            String.utf8EncodeChar c = byte :: tail
            ∧ 0x80 ≤ byte.toNat
            ∧ tail ≠ []
            ∧ lead byte.toNat = some started
            ∧ Tail started tail
            ∧ codePoint started tail = c.toNat) := by
  have valid : c.toNat < 0xD800 ∨ (0xDFFF < c.toNat ∧ c.toNat < 0x110000) := c.valid
  have value : c.val.toNat = c.toNat := rfl
  have byteValue {n : ℕ} (small : n < 256) : (UInt8.ofNat n).toNat = n :=
    UInt8.toNat_ofNat_of_lt' small
  unfold String.utf8EncodeChar
  rw [value]
  generalize c.toNat = v at *
  dsimp only
  have group (n : ℕ) : n % 64 + 0x80 < 256 := by omega
  split_ifs with one two three
  · exact Or.inl ⟨by omega, _, rfl, byteValue (by omega)⟩
  · have leadByte : v / 64 % 0x20 + 0xC0 < 256 := by omega
    refine Or.inr ⟨by omega, _, _, { missing := 1, low := 0x80, high := 0xBF, code := v / 64 }, rfl,
      ?_, List.cons_ne_nil _ _, ?_, ⟨rfl, ?_, ?_⟩, ?_⟩
    · rw [byteValue leadByte]
      omega
    · rw [byteValue leadByte, lead, if_pos (by omega)]
      simp only [Option.some.injEq, Partial.mk.injEq, true_and]
      omega
    · simp only [List.head?_cons, Option.mem_some_iff, forall_eq', byteValue (group _)]
      omega
    · exact List.forall_mem_singleton.mpr (continuation_group _)
    · simp only [codePoint, List.foldl_cons, List.foldl_nil, byteValue (group _)]
      omega
  · have leadByte : v / 4096 % 0x10 + 0xE0 < 256 := by omega
    refine Or.inr ⟨by omega, _, _, {
        missing := 2
        low := if v / 4096 % 0x10 + 0xE0 = 0xE0 then 0xA0 else 0x80
        high := if v / 4096 % 0x10 + 0xE0 = 0xED then 0x9F else 0xBF
        code := v / 4096
      }, rfl, ?_, List.cons_ne_nil _ _, ?_, ⟨rfl, ?_, ?_⟩, ?_⟩
    · rw [byteValue leadByte]
      omega
    · rw [byteValue leadByte, lead, if_neg (by omega), if_pos (by omega)]
      simp only [Option.some.injEq, Partial.mk.injEq, true_and]
      omega
    · simp only [List.head?_cons, Option.mem_some_iff, forall_eq', byteValue (group _)]
      split_ifs <;> omega
    · exact List.forall_mem_cons.mpr
        ⟨continuation_group _, List.forall_mem_singleton.mpr (continuation_group _)⟩
    · simp only [codePoint, List.foldl_cons, List.foldl_nil, byteValue (group _)]
      omega
  · have leadByte : v / 262144 % 0x08 + 0xF0 < 256 := by omega
    refine Or.inr ⟨by omega, _, _, {
        missing := 3
        low := if v / 262144 % 0x08 + 0xF0 = 0xF0 then 0x90 else 0x80
        high := if v / 262144 % 0x08 + 0xF0 = 0xF4 then 0x8F else 0xBF
        code := v / 262144
      }, rfl, ?_, List.cons_ne_nil _ _, ?_, ⟨rfl, ?_, ?_⟩, ?_⟩
    · rw [byteValue leadByte]
      omega
    · rw [byteValue leadByte, lead, if_neg (by omega), if_neg (by omega), if_pos (by omega)]
      simp only [Option.some.injEq, Partial.mk.injEq, true_and]
      omega
    · simp only [List.head?_cons, Option.mem_some_iff, forall_eq', byteValue (group _)]
      split_ifs <;> omega
    · exact List.forall_mem_cons.mpr ⟨continuation_group _, List.forall_mem_cons.mpr
        ⟨continuation_group _, List.forall_mem_singleton.mpr (continuation_group _)⟩⟩
    · simp only [codePoint, List.foldl_cons, List.foldl_nil, byteValue (group _)]
      omega

/-- A complete tail yields its character, and decoding goes on between characters.
Witness: induction on the tail; after its first byte any continuation byte is in range.
-/
theorem decodeFrom_tail {started : Partial} {tail : List UInt8} (nonempty : tail ≠ [])
    (complete : Tail started tail) (rest : List UInt8)
    : decodeFrom (some started) (tail ++ rest)
      = Char.ofNat (codePoint started tail) :: decodeFrom none rest := by
  induction tail generalizing started with
  | nil => exact absurd rfl nonempty
  | cons byte tail ih =>
      obtain ⟨low, high⟩ := complete.first byte rfl
      have length := complete.length
      rw [List.cons_append, decodeFrom, next_of_mem low high]
      cases tail with
      | nil =>
          rw [if_pos (by simpa using length.symm)]
          rfl
      | cons second tail =>
          rw [List.length_cons, List.length_cons] at length
          rw [if_neg (by omega)]
          refine ih (List.cons_ne_nil _ _) ⟨?_, ?_, ?_⟩
          · simp only [List.length_cons]
            omega
          · intro _ h
            rcases h with ⟨⟩
            exact complete.continuation second (by simp)
          · exact fun b member => complete.continuation b (List.mem_cons_of_mem _ member)

/-- A tail cut short yields one replacement character. By induction on the bytes that are there,
each of which continues the tail.
-/
theorem decodeFrom_cut {started : Partial} {cut missed : List UInt8} (nonempty : missed ≠ [])
    (complete : Tail started (cut ++ missed))
    : decodeFrom (some started) cut = [replacement] := by
  induction cut generalizing started with
  | nil => rfl
  | cons byte cut ih =>
      obtain ⟨low, high⟩ := complete.first byte rfl
      have length := complete.length
      have positive := List.length_pos_of_ne_nil nonempty
      simp only [List.cons_append, List.length_cons, List.length_append] at length
      rw [decodeFrom, next_of_mem low high, if_neg (by omega), List.nil_append]
      refine ih ⟨?_, ?_, ?_⟩
      · simp only [List.length_append]
        omega
      · intro second isFirst
        exact complete.continuation second
          (List.mem_cons_of_mem _ (List.mem_of_mem_head? isFirst))
      · exact fun b member => complete.continuation b (List.mem_cons_of_mem _ member)

theorem first_lead {byte : ℕ} {started : Partial} (high : 0x80 ≤ byte)
    (leads : lead byte = some started)
    : first byte = ([], some started) := by
  rw [first, if_neg (by omega), leads]

/-- An encoded character at the front decodes to itself, by cases on how it is encoded. -/
theorem fromUtf8Lossy_encode (c : Char) (rest : List UInt8)
    : fromUtf8Lossy (String.utf8EncodeChar c ++ rest) = c :: fromUtf8Lossy rest := by
  rcases encode_cases c with ⟨ascii, byte, encoded, value⟩ |
    ⟨_, byte, tail, started, encoded, high, nonempty, leads, complete, spelled⟩
  · rw [encoded, List.singleton_append, fromUtf8Lossy, decodeFrom, next, first, value,
      if_pos ascii, Char.ofNat_toNat]
    rfl
  · rw [encoded, List.cons_append, fromUtf8Lossy, decodeFrom, next, first_lead high leads,
      List.nil_append, decodeFrom_tail nonempty complete, spelled, Char.ofNat_toNat]
    rfl

/-- The bytes of a text are read as it is. -/
theorem fromUtf8Lossy_text (text : List Char)
    : fromUtf8Lossy (text.flatMap String.utf8EncodeChar) = text := by
  induction text with
  | nil => rfl
  | cons c rest ih => rw [List.flatMap_cons, fromUtf8Lossy_encode, ih]

/-- A cut through an encoded character leaves one replacement character before it and only
continuation bytes after it; ASCII characters cannot be cut. The lead byte is in front of the
cut, as that is not empty.
-/
theorem fromUtf8Lossy_cut {c : Char} {before after : List UInt8}
    (encoded : String.utf8EncodeChar c = before ++ after) (beforeNonempty : before ≠ [])
    (afterNonempty : after ≠ [])
    : fromUtf8Lossy before = [replacement]
      ∧ (∀ byte ∈ after, Continuation byte)
      ∧ 0x80 ≤ c.toNat := by
  obtain ⟨head, cut, rfl⟩ := List.exists_cons_of_ne_nil beforeNonempty
  rcases encode_cases c with ⟨_, byte, single, _⟩ |
    ⟨long, byte, tail, started, spelled, high, _, leads, complete, _⟩
  · have lengths := congrArg List.length (single.symm.trans encoded)
    have positive := List.length_pos_of_ne_nil afterNonempty
    simp only [List.length_append, List.length_cons, List.length_nil] at lengths
    omega
  · obtain ⟨rfl, rfl⟩ := List.cons.inj (spelled.symm.trans encoded)
    refine ⟨?_, ?_, long⟩
    · rw [fromUtf8Lossy, decodeFrom, next, first_lead high leads, List.nil_append]
      exact decodeFrom_cut afterNonempty complete
    · exact fun b member => complete.continuation b (List.mem_append_right _ member)

end LossyUtf8
