import DockDoe.Model.Requests

/-! Texts that a header carries unchanged, and texts that trimming leaves alone. -/

namespace DockDoe

/-- Visible ASCII, or a space. -/
def isPrintable (c : Char) : Bool :=
  32 ≤ c.toNat && c.toNat < 127

theorem isPrintable_iff {c : Char} : isPrintable c = true ↔ 32 ≤ c.toNat ∧ c.toNat < 127 := by
  simp [isPrintable]

theorem asBytes_ascii {s : Text} (ascii : ∀ c ∈ s, c.toNat < 128)
    : asBytes s = s.map (fun c => UInt8.ofNat c.toNat) := by
  rw [asBytes, List.map_eq_flatMap]
  apply List.flatMap_congr
  intro c member
  simp [String.utf8EncodeChar, show c.toNat ≤ 127 from Nat.le_of_lt_succ (ascii c member)]

/-- A printable character is a byte of the same value. -/
theorem toNat_byte {c : Char} (printable : isPrintable c = true)
    : (UInt8.ofNat c.toNat).toNat = c.toNat := by
  have bounds := isPrintable_iff.mp printable
  exact UInt8.toNat_ofNat_of_lt' (bounds.2.trans (by decide))

/-- Visible ASCII and spaces arrive as they were sent, each as a byte of the same value. -/
theorem toStr_asBytes {s : Text} (printable : ∀ c ∈ s, isPrintable c = true)
    : toStr (asBytes s) = some s := by
  have bounds (c : Char) (member : c ∈ s) := isPrintable_iff.mp (printable c member)
  have bytes : asBytes s = s.map (fun c => UInt8.ofNat c.toNat) :=
    asBytes_ascii (fun c member => (bounds c member).2.trans (by decide))
  have visible : (asBytes s).all (fun b => (32 ≤ b && b < 127) || b == 9) = true := by
    rw [bytes, List.all_map, List.all_eq_true]
    intro c member
    simp [UInt8.le_iff_toNat_le, UInt8.lt_iff_toNat_lt, toNat_byte (printable c member),
      bounds c member]
  have characters : (asBytes s).map (fun b => Char.ofNat b.toNat) = s := by
    rw [bytes, List.map_map]
    apply (List.map_congr_left _).trans (List.map_id s)
    intro c member
    rw [Function.comp_apply, toNat_byte (printable c member), Char.ofNat_toNat, id]
  rw [toStr, if_pos visible, characters]

theorem trim_space (s : Text) : trim (' ' :: s) = trim s := rfl

/-- A text that neither starts nor ends with white space is trimmed already, on either side. -/
theorem trim_of_ends {s : Text} (starts : ∀ c ∈ s.head?, isWhitespace c = false)
    (ends : ∀ c ∈ s.getLast?, isWhitespace c = false)
    : trim s = s := by
  have fromStart : trimStart s = s := by
    cases s with
    | nil => rfl
    | cons c rest => exact List.dropWhile_cons_of_neg (by simp [starts c rfl])
  rw [trim, fromStart, trimEnd, List.rdropWhile_eq_self_iff]
  intro nonempty
  simp [ends _ (List.getLast?_eq_some_getLast nonempty)]

/-- A text without white space is trimmed already. -/
theorem trim_of_clean {s : Text} (clean : ∀ c ∈ s, isWhitespace c = false) : trim s = s :=
  trim_of_ends (fun c first => clean c (List.mem_of_mem_head? first))
    (fun c last => clean c (List.mem_of_getLast? last))

/-- Visible ASCII, no space. -/
def isGraphic (c : Char) : Bool :=
  33 ≤ c.toNat && c.toNat < 127

theorem isGraphic_iff {c : Char} : isGraphic c = true ↔ 33 ≤ c.toNat ∧ c.toNat < 127 := by
  simp [isGraphic]

theorem isPrintable_of_isGraphic {c : Char} (graphic : isGraphic c = true)
    : isPrintable c = true := by
  have bounds := isGraphic_iff.mp graphic
  exact isPrintable_iff.mpr ⟨by omega, bounds.2⟩

theorem isWhitespace_of_isGraphic {c : Char} (graphic : isGraphic c = true)
    : isWhitespace c = false := by
  have bounds := isGraphic_iff.mp graphic
  simp only [isWhitespace, Bool.or_eq_false_iff, Bool.and_eq_false_iff, decide_eq_false_iff_not,
    beq_eq_false_iff_ne, ne_eq]
  omega

/-- Letters and digits are visible, by their code points. -/
theorem isGraphic_of_isAlphanum {c : Char} (alphanum : c.isAlphanum = true)
    : isGraphic c = true := by
  simp only [Char.isAlphanum, Char.isAlpha, Char.isUpper, Char.isLower, Char.isDigit,
    UInt32.le_iff_toNat_le, ge_iff_le, Bool.or_eq_true, Bool.and_eq_true, decide_eq_true_eq]
    at alphanum
  change ((65 ≤ c.toNat ∧ c.toNat ≤ 90) ∨ (97 ≤ c.toNat ∧ c.toNat ≤ 122))
    ∨ (48 ≤ c.toNat ∧ c.toNat ≤ 57) at alphanum
  exact isGraphic_iff.mpr (by omega)

end DockDoe
