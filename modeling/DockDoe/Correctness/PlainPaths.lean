import DockDoe.Foundations.UrlPaths
import DockDoe.Model.Router

/-! How the router reads a path of plain segments: it gets back what they were written as. -/

namespace DockDoe

open UrlPaths PercentCoding

/-- A segment as it stands in a path. -/
def pathSegment (segment : Text) : Text :=
  encode pathEncodes segment

theorem pathSegment_ne_nil {segment : Text} (nonempty : segment ≠ [])
    : pathSegment segment ≠ [] := by
  obtain ⟨c, rest, rfl⟩ := List.exists_cons_of_ne_nil nonempty
  rw [pathSegment, encode_cons]
  split
  next =>
    have given : String.utf8EncodeChar c ≠ [] := String.utf8EncodeChar_ne_nil
    obtain ⟨byte, bytes, encoded⟩ := List.exists_cons_of_ne_nil given
    simp [encoded, escape]
  next => simp

/-- A plain segment has no slash in a path: a character that is kept is none, and an escape is a
percent sign with two digits.
-/
theorem pathSegment_slash {segment : Text} (plain : isPlain segment = true)
    : '/' ∉ pathSegment segment := by
  intro member
  obtain ⟨c, inside, written⟩ := List.mem_flatMap.mp member
  split at written
  next =>
    obtain ⟨byte, _, escaped⟩ := List.mem_flatMap.mp written
    have digits : ∀ d < 16, (Nat.digitChar d).toUpper ≠ '/' := by decide
    have small : byte.toNat < 256 := byte.toNat_lt
    simp only [escape, List.mem_cons, List.not_mem_nil, or_false] at escaped
    rcases escaped with percent | high | low
    · exact absurd percent (by decide)
    · exact digits (byte.toNat / 16) (by omega) high.symm
    · exact digits (byte.toNat % 16) (by omega) low.symm
  next =>
    obtain ⟨notSeparator, _⟩ := (isPlain_iff.mp plain).1 c inside
    rw [← List.mem_singleton.mp written] at notSeparator
    cases notSeparator

/-- A plain segment is a parameter that decodes to itself, since it holds no escape that would be
left alone.
-/
theorem decodeParam_pathSegment {segment : Text} (plain : isPlain segment = true)
    : decodeParam (pathSegment segment) = some segment := by
  have noEscape : hasEscape segment = false := by
    have kept := (isPlain_iff.mp plain).2
    simp only [isKept, Bool.and_eq_true, Bool.not_eq_true'] at kept
    exact kept.2
  have bytes : decode (pathSegment segment) = asBytes segment := by
    rw [pathSegment, decode_encoded, decode_of_noEscape noEscape]
    rfl
  rw [decodeParam, bytes]
  simp only [asBytes, LossyUtf8.fromUtf8Lossy_text, if_true]

/-- The segments of a path that joins plain ones, found by splitting at slashes that none of them
has.
-/
theorem pathSegments_joined {segments : List Text} (nonempty : segments ≠ [])
    (plain : ∀ segment ∈ segments, isPlain segment = true)
    : pathSegments ('/' :: ['/'].intercalate (segments.map pathSegment))
      = segments.map pathSegment := by
  have whole : ∀ written ∈ segments.map pathSegment, '/' ∉ written := by
    intro written member
    obtain ⟨segment, inside, rfl⟩ := List.mem_map.mp member
    exact pathSegment_slash (plain segment inside)
  have joined := List.splitOn_intercalate '/' whole (by simpa using nonempty)
  rw [pathSegments, ← List.nil_append ('/' :: _),
    List.splitOn_append_cons_self_of_not_mem List.not_mem_nil, joined]

end DockDoe
