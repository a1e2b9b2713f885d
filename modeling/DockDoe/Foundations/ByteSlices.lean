import DockDoe.Foundations.LossyUtf8
import DockDoe.Foundations.PercentCoding

/-! Slices of texts and of their bytes up to a byte offset. A text can be sliced between two of
its characters only.
-/

namespace ByteSlices

open PercentCoding (utf8)

/-- Why there is no slice up to an offset. -/
inductive SliceError
  | beyondEnd | insideCharacter
  deriving DecidableEq

/-- `&bytes[..n]` -/
def bytesTo (n : ℕ) (bytes : List UInt8) : Except SliceError (List UInt8) :=
  if n ≤ bytes.length then .ok (bytes.take n) else .error .beyondEnd

/-- `&s[..n]` of a string. -/
def textTo : ℕ → List Char → Except SliceError (List Char)
  | 0, _ => .ok []
  | _ + 1, [] => .error .beyondEnd
  | n + 1, c :: rest =>
      if (String.utf8EncodeChar c).length ≤ n + 1 then
        (textTo (n + 1 - (String.utf8EncodeChar c).length) rest).map (c :: ·)
      else
        .error .insideCharacter

theorem utf8_cons (c : Char) (rest : List Char)
    : utf8 (c :: rest) = String.utf8EncodeChar c ++ utf8 rest :=
  rfl

/-- A slice that takes all bytes of the first character goes on behind it. -/
theorem textTo_cons (n : ℕ) (c : Char) (rest : List Char)
    : textTo ((String.utf8EncodeChar c).length + n) (c :: rest)
      = (textTo n rest).map (c :: ·) := by
  have positive : 0 < (String.utf8EncodeChar c).length :=
    List.length_pos_of_ne_nil String.utf8EncodeChar_ne_nil
  obtain ⟨m, next⟩ := Nat.exists_eq_add_one_of_ne_zero (Nat.add_pos_left positive n).ne'
  rw [next, textTo, ← next]
  simp only [Nat.le_add_right, if_true, Nat.add_sub_cancel_left]

/-- A slice consists of the first characters of its text, by recursion on the text. -/
theorem eq_append_of_textTo {n : ℕ} {s head : List Char} (sliced : textTo n s = .ok head)
    : ∃ tail, s = head ++ tail ∧ (utf8 head).length = n := by
  fun_induction textTo n s generalizing head with
  | case1 s =>
      cases sliced
      exact ⟨s, rfl, rfl⟩
  | case2 => cases sliced
  | case3 n c rest fits ih =>
      cases slicedRest : textTo (n + 1 - (String.utf8EncodeChar c).length) rest with
      | error reason =>
          rw [slicedRest] at sliced
          cases sliced
      | ok inner =>
          rw [slicedRest] at sliced
          cases sliced
          obtain ⟨tail, rfl, length⟩ := ih slicedRest
          refine ⟨tail, rfl, ?_⟩
          rw [utf8_cons, List.length_append, length]
          exact Nat.add_sub_cancel' fits
  | case4 => cases sliced

/-- There is a slice behind any of the first characters. -/
theorem textTo_append (head tail : List Char)
    : textTo (utf8 head).length (head ++ tail) = .ok head := by
  induction head with
  | nil => exact textTo.eq_1 tail
  | cons c rest ih =>
      rw [utf8_cons, List.length_append, List.cons_append, textTo_cons, ih]
      rfl

theorem textTo_eq_ok_iff {n : ℕ} {s head : List Char}
    : textTo n s = .ok head ↔ ∃ tail, s = head ++ tail ∧ (utf8 head).length = n := by
  refine ⟨eq_append_of_textTo, ?_⟩
  intro division
  obtain ⟨tail, rfl, rfl⟩ := division
  exact textTo_append head tail

/-- Bytes below 0x80 in front of a text are whole characters of it, by induction on them.
Witness: any longer character starts with a byte that is not below 0x80.
-/
theorem exists_characters_of_ascii {s : List Char} {front back : List UInt8}
    (ascii : ∀ byte ∈ front, byte.toNat < 0x80) (whole : utf8 s = front ++ back)
    : ∃ head tail, s = head ++ tail ∧ utf8 head = front := by
  induction front generalizing s with
  | nil => exact ⟨[], s, rfl, rfl⟩
  | cons byte front ih =>
      have low := ascii byte List.mem_cons_self
      cases s with
      | nil => cases whole
      | cons c rest =>
          rw [utf8_cons, List.cons_append] at whole
          rcases LossyUtf8.encode_cases c with ⟨_, single, encoded, _⟩ |
            ⟨_, lead, tail, _, encoded, high, _⟩
          · rw [encoded, List.singleton_append] at whole
            obtain ⟨rfl, wholeRest⟩ := List.cons.inj whole
            obtain ⟨head, tail, rfl, same⟩ :=
              ih (fun b member => ascii b (List.mem_cons_of_mem _ member)) wholeRest
            exact ⟨c :: head, tail, rfl, by rw [utf8_cons, encoded, same]; rfl⟩
          · rw [encoded, List.cons_append] at whole
            obtain ⟨rfl, _⟩ := List.cons.inj whole
            omega

/-- A text is sliced behind bytes below 0x80. -/
theorem textTo_of_ascii {n : ℕ} {s : List Char} (inside : n ≤ (utf8 s).length)
    (ascii : ∀ byte ∈ (utf8 s).take n, byte.toNat < 0x80)
    : ∃ head tail, s = head ++ tail ∧ utf8 head = (utf8 s).take n ∧ textTo n s = .ok head := by
  obtain ⟨head, tail, whole, front⟩ :=
    exists_characters_of_ascii ascii (List.take_append_drop n (utf8 s)).symm
  have size : (utf8 head).length = n := by
    rw [front, List.length_take, Nat.min_eq_left inside]
  exact ⟨head, tail, whole, front, textTo_eq_ok_iff.mpr ⟨tail, whole, size⟩⟩

end ByteSlices
