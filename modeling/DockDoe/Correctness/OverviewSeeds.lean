import DockDoe.Model.Overview

/-! The seed of the overview discs cannot end the script element it stands in, and is read as the
payload that was written.
-/

namespace DockDoe

open Json

/-- The escapes of the seed: those of the standard, and one for the less-than sign. -/
def seedEscape (c : Char) : Text :=
  replaceAll '<' "\\u003c".toList (standardEscape c)

/-- No escape of the standard contains a less-than sign, but it stands for itself, by the cases
of the letters and the code points.
-/
theorem seedEscape_eq (c : Char)
    : seedEscape c = if c = '<' then "\\u003c".toList else standardEscape c := by
  split
  next same =>
    rw [same]
    rfl
  next other =>
    refine replaceAll_of_not_mem (fun member => ?_)
    cases letter : escapeLetter c with
    | some written =>
        rw [standardEscape, letter] at member
        have meaning := (letterMeaning_escapeLetter letter).1
        rcases List.mem_pair.mp member with backslash | same
        · cases backslash
        · rw [← same] at meaning
          cases meaning
    | none =>
        have digits : ∀ d < 16, d.digitChar ≠ '<' := by decide
        by_cases control : c.toNat < 0x20
        · have high : c.toNat / 16 < 16 := by omega
          have low : c.toNat % 16 < 16 := by omega
          simp [standardEscape, letter, control, (digits _ high).symm, (digits _ low).symm]
            at member
        · simp [standardEscape, letter, control, Ne.symm other] at member

/-- The replaced text still escapes every character, the less-than sign by its code point. -/
theorem seedEscape_escapes : Escapes seedEscape := by
  intro c rest
  rw [seedEscape_eq]
  split
  next same =>
    rw [same]
    rfl
  next => exact standardEscape_escapes c rest

/-- The seed is the payload in other escapes. -/
theorem overviewJson_eq (floatText : ℚ → Literal) (dash : Dashboard)
    : overviewJson floatText dash = (overviewPayload floatText dash).text seedEscape :=
  replaceAll_text (by decide) _

/-- The seed contains no less-than sign, and is JSON that is read as the payload, just like the
text before the replacement: in JSON such a sign stands in strings only, where its escape means
the same.
-/
theorem overviewJson_inert_lossless (floatText : ℚ → Literal) (dash : Dashboard)
    : '<' ∉ overviewJson floatText dash
      ∧ parse (overviewJson floatText dash) = some (overviewPayload floatText dash)
      ∧ parse ((overviewPayload floatText dash).text standardEscape)
        = some (overviewPayload floatText dash) := by
  refine ⟨not_mem_replaceAll (by decide) _, ?_, parse_text standardEscape_escapes _⟩
  rw [overviewJson_eq]
  exact parse_text seedEscape_escapes _

end DockDoe
