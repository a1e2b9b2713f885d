import DockDoe.Model.SseParser

/-! Where the chunks of an event stream are cut, and what a cut does to the decoded text.
Every chunk is decoded on its own, so a character whose encoding a cut divides is received
as two or more replacement characters.
-/

namespace DockDoe

open LossyUtf8

/-- The offsets at which consecutive chunks end. -/
def cutOffsets : ℕ → List (List UInt8) → List ℕ
  | _, [] => []
  | offset, chunk :: rest =>
      (offset + chunk.length) :: cutOffsets (offset + chunk.length) rest

/-- The characters of a text, each with whether some cut lies inside its encoding. -/
def splitMarks (cuts : List ℕ) : ℕ → Text → List (Char × Bool)
  | _, [] => []
  | offset, c :: rest =>
      (c, cuts.any (fun cut => offset < cut && cut < offset + c.utf8Size))
      :: splitMarks cuts (offset + c.utf8Size) rest

/-- A character as it is received: whole, or, if a cut divides its encoding, as some copies
of the replacement character.
-/
structure Mark where
  char : Char
  copies : ℕ
  valid : copies = 0 ∨ (2 ≤ copies ∧ 0x80 ≤ char.toNat)

namespace Mark

def received (mark : Mark) : Text :=
  if mark.copies = 0 then [mark.char] else List.replicate mark.copies replacement

def pair (mark : Mark) : Char × Bool :=
  (mark.char, mark.copies != 0)

end Mark

/-- The cuts lie behind the first offset, by induction on the chunks. -/
theorem le_of_mem_cutOffsets {offset cut : ℕ} {chunks : List (List UInt8)}
    (member : cut ∈ cutOffsets offset chunks)
    : offset ≤ cut := by
  induction chunks generalizing offset with
  | nil => exact absurd member List.not_mem_nil
  | cons chunk rest ih =>
      rcases List.mem_cons.mp member with rfl | later
      · exact Nat.le_add_right _ _
      · exact (Nat.le_add_right _ _).trans (ih later)

/-- Only cuts beyond the start of a text matter to it, by induction on the text. -/
theorem splitMarks_congr {cuts cuts' : List ℕ} {offset : ℕ} (text : Text)
    (same : ∀ cut, offset < cut → (cut ∈ cuts ↔ cut ∈ cuts'))
    : splitMarks cuts offset text = splitMarks cuts' offset text := by
  induction text generalizing offset with
  | nil => rfl
  | cons c rest ih =>
      have own
          : cuts.any (fun cut => offset < cut && cut < offset + c.utf8Size)
            = cuts'.any (fun cut => offset < cut && cut < offset + c.utf8Size) := by
        rw [Bool.eq_iff_iff]
        simp only [List.any_eq_true, Bool.and_eq_true, decide_eq_true_eq]
        constructor
        · intro h
          rcases h with ⟨cut, member, above, below⟩
          exact ⟨cut, (same cut above).mp member, above, below⟩
        · intro h
          rcases h with ⟨cut, member, above, below⟩
          exact ⟨cut, (same cut above).mpr member, above, below⟩
      rw [splitMarks, splitMarks, own,
        ih (fun cut above => same cut (lt_of_le_of_lt (Nat.le_add_right _ _) above))]

theorem fromUtf8Lossy_nil : fromUtf8Lossy [] = [] :=
  rfl

/-- Bytes that continue a character without its start are replaced one by one, by induction on
them.
-/
theorem fromUtf8Lossy_continuations {tail : List UInt8}
    (continuation : ∀ byte ∈ tail, Continuation byte) (rest : List UInt8)
    : fromUtf8Lossy (tail ++ rest)
      = List.replicate tail.length replacement ++ fromUtf8Lossy rest := by
  induction tail with
  | nil => rfl
  | cons byte tail ih =>
      have later := ih (fun b member => continuation b (List.mem_cons_of_mem _ member))
      rw [List.cons_append, fromUtf8Lossy_continuation (continuation byte List.mem_cons_self),
        later]
      rfl

/-- What the rest of a divided character contributes: one replacement for every byte.
Witness: induction on the chunks that the bytes are spread over.
-/
theorem peel_tail {tail rest : List UInt8} {chunks : List (List UInt8)} (offset : ℕ)
    (whole : chunks.flatten = tail ++ rest) (continuation : ∀ byte ∈ tail, Continuation byte)
    : ∃ chunks' : List (List UInt8),
        chunks'.flatten = rest
        ∧ chunks.flatMap fromUtf8Lossy
          = List.replicate tail.length replacement ++ chunks'.flatMap fromUtf8Lossy
        ∧ ∀ cut, offset + tail.length < cut
          → (cut ∈ cutOffsets offset chunks
              ↔ cut ∈ cutOffsets (offset + tail.length) chunks') := by
  induction chunks generalizing tail offset with
  | nil =>
      obtain ⟨rfl, rfl⟩ := List.append_eq_nil_iff.mp whole.symm
      exact ⟨[], rfl, rfl, fun cut _ => Iff.rfl⟩
  | cons chunk more ih =>
      rw [List.flatten_cons] at whole
      rcases List.append_eq_append_iff.mp whole with ⟨e, rfl, moreEq⟩ | ⟨d, rfl, restEq⟩
      · -- The chunk holds bytes of this character only.
        obtain ⟨chunks', flat, decoded, cuts⟩ := ih (offset + chunk.length) moreEq
          (fun b member => continuation b (List.mem_append_right _ member))
        refine ⟨chunks', flat, ?_, ?_⟩
        · have own := fromUtf8Lossy_continuations
            (fun b member => continuation b (List.mem_append_left _ member)) []
          simp only [List.append_nil, fromUtf8Lossy_nil] at own
          rw [List.flatMap_cons, decoded, own, List.length_append, List.replicate_add,
            List.append_assoc]
        · intro cut above
          rw [List.length_append] at above ⊢
          have notFirst : cut ≠ offset + chunk.length := by omega
          rw [cutOffsets, List.mem_cons, or_iff_right notFirst, cuts cut (by omega),
            Nat.add_assoc]
      · refine ⟨d :: more, restEq.symm, ?_, ?_⟩
        · rw [List.flatMap_cons, List.flatMap_cons, fromUtf8Lossy_continuations continuation,
            List.append_assoc]
        · intro cut _
          rw [cutOffsets, cutOffsets, List.length_append, Nat.add_assoc]

/-- What `peel_char` says about one character of an encoded text. -/
def Peels (c : Char) (rest : List UInt8) (chunks : List (List UInt8)) (offset : ℕ) : Prop :=
  ∃ (mark : Mark) (chunks' : List (List UInt8)),
    chunks'.flatten = rest
    ∧ mark.pair
      = (c, (cutOffsets offset chunks).any (fun cut =>
          offset < cut && cut < offset + c.utf8Size))
    ∧ chunks.flatMap fromUtf8Lossy = mark.received ++ chunks'.flatMap fromUtf8Lossy
    ∧ ∀ cut, offset + c.utf8Size < cut
      → (cut ∈ cutOffsets offset chunks ↔ cut ∈ cutOffsets (offset + c.utf8Size) chunks')

/-- A character whose bytes all stand in one chunk is received as it is: no cut lies inside it,
and the rest of the chunk is decoded on its own.
-/
theorem peels_whole (c : Char) (d : List UInt8) (more : List (List UInt8)) (offset : ℕ)
    : Peels c (d ++ more.flatten) ((String.utf8EncodeChar c ++ d) :: more) offset := by
  have size := String.length_utf8EncodeChar c
  refine ⟨⟨c, 0, Or.inl rfl⟩, d :: more, rfl, ?_, ?_, ?_⟩
  · have none
        : (cutOffsets offset ((String.utf8EncodeChar c ++ d) :: more)).any
            (fun cut => offset < cut && cut < offset + c.utf8Size)
          = false := by
      refine List.any_eq_false.mpr (fun cut member inside => ?_)
      simp only [Bool.and_eq_true, decide_eq_true_eq] at inside
      rw [cutOffsets, List.length_append, size] at member
      rcases List.mem_cons.mp member with rfl | later
      · omega
      · have beyond := le_of_mem_cutOffsets later
        omega
    rw [none]
    rfl
  · rw [List.flatMap_cons, List.flatMap_cons, fromUtf8Lossy_encode]
    rfl
  · intro cut _
    rw [cutOffsets, cutOffsets, List.length_append, size, Nat.add_assoc]

/-- A character divided by a chunk's end is received as replacement characters: one for its
start, and one for each byte that continues it in a later chunk.
-/
theorem peels_cut {c : Char} {chunk e rest : List UInt8} {more : List (List UInt8)}
    (offset : ℕ) (encoded : String.utf8EncodeChar c = chunk ++ e) (chunkNonempty : chunk ≠ [])
    (eNonempty : e ≠ []) (moreEq : more.flatten = e ++ rest)
    : Peels c rest (chunk :: more) offset := by
  obtain ⟨cutShort, continuation, long⟩ := fromUtf8Lossy_cut encoded chunkNonempty eNonempty
  obtain ⟨chunks', flat, decoded, cuts⟩ :=
    peel_tail (offset + chunk.length) moreEq continuation
  have chunkPos := List.length_pos_of_ne_nil chunkNonempty
  have ePos := List.length_pos_of_ne_nil eNonempty
  have total : c.utf8Size = chunk.length + e.length := by
    rw [← String.length_utf8EncodeChar, encoded, List.length_append]
  refine ⟨⟨c, e.length + 1, Or.inr ⟨by omega, long⟩⟩, chunks', flat, ?_, ?_, ?_⟩
  · have above : decide (offset < offset + chunk.length) = true := by
      simp only [decide_eq_true_eq]
      omega
    have below : decide (offset + chunk.length < offset + c.utf8Size) = true := by
      simp only [decide_eq_true_eq]
      omega
    rw [cutOffsets, List.any_cons, above, below]
    rfl
  · rw [List.flatMap_cons, cutShort, decoded, Mark.received, if_neg (by simp),
      List.replicate_succ]
    rfl
  · intro cut beyond
    have notFirst : cut ≠ offset + chunk.length := by omega
    rw [cutOffsets, List.mem_cons, or_iff_right notFirst, cuts cut (by omega), total,
      Nat.add_assoc]

/-- The first character of an encoded text in chunks, and the chunks without it.
Witness: induction over empty chunks at the front; the first other one holds the whole
character or a part of it.
-/
theorem peel_char {c : Char} {rest : List UInt8} {chunks : List (List UInt8)} (offset : ℕ)
    (whole : chunks.flatten = String.utf8EncodeChar c ++ rest)
    : Peels c rest chunks offset := by
  induction chunks generalizing offset with
  | nil =>
      have empty := (List.append_eq_nil_iff.mp whole.symm).1
      exact absurd empty String.utf8EncodeChar_ne_nil
  | cons chunk more ih =>
      rw [List.flatten_cons] at whole
      rcases List.append_eq_append_iff.mp whole with ⟨e, encoded, moreEq⟩ | ⟨d, rfl, restEq⟩
      · by_cases chunkEmpty : chunk = []
        · subst chunkEmpty
          obtain ⟨mark, chunks', flat, pair, decoded, cuts⟩ := ih offset whole
          refine ⟨mark, chunks', flat, ?_, decoded, ?_⟩
          · simpa [cutOffsets] using pair
          · intro cut beyond
            have notFirst : cut ≠ offset := by omega
            simpa [cutOffsets, notFirst] using cuts cut beyond
        · by_cases eEmpty : e = []
          · subst eEmpty
            rw [List.append_nil] at encoded
            rw [List.nil_append] at moreEq
            rw [← encoded, ← moreEq]
            simpa using peels_whole c [] more offset
          · exact peels_cut offset encoded chunkEmpty eEmpty moreEq
      · rw [restEq]
        exact peels_whole c d more offset

/-- A text in chunks is received as its characters' marks say.
Witness: induction on the text, one character of the chunks at a time.
-/
theorem exists_marks (text : Text) (chunks : List (List UInt8)) (offset : ℕ)
    (whole : chunks.flatten = text.flatMap String.utf8EncodeChar)
    : ∃ marks : List Mark,
        marks.map Mark.pair = splitMarks (cutOffsets offset chunks) offset text
        ∧ chunks.flatMap fromUtf8Lossy = marks.flatMap Mark.received := by
  induction text generalizing chunks offset with
  | nil =>
      refine ⟨[], rfl, ?_⟩
      rw [List.flatMap_nil, List.flatten_eq_nil_iff] at whole
      rw [List.flatMap_nil, List.flatMap_eq_nil_iff]
      intro chunk member
      rw [whole chunk member]
      rfl
  | cons c rest ih =>
      rw [List.flatMap_cons] at whole
      obtain ⟨mark, chunks', flat, pair, decoded, cuts⟩ := peel_char offset whole
      obtain ⟨marks, pairs, decodedRest⟩ := ih chunks' (offset + c.utf8Size) flat
      refine ⟨mark :: marks, ?_, ?_⟩
      · rw [List.map_cons, pair, pairs, splitMarks]
        exact congrArg _ (splitMarks_congr rest (fun cut beyond => (cuts cut beyond).symm))
      · rw [List.flatMap_cons, decoded, decodedRest]

end DockDoe
