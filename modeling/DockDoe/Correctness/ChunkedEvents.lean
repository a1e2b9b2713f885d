import DockDoe.Correctness.ChunkedStreams

/-! Which cuts of an event stream change the parsed events. Line ends and field names are
ASCII and survive every cut, so only the lines an event is made of and the unfinished rest
can come out differently; they do as soon as one of their characters is divided.
-/

namespace DockDoe

open LossyUtf8

/-- The line starts with the field's name. -/
def isField (field : String) (line : List (Char × Bool)) : Bool :=
  (stripPrefix field.toList (line.map Prod.fst)).isSome

/-- The lines of a block that its event is made of: the data lines and the last event line,
and none of them when there are no data lines.
-/
def usedLines (lines : List (List (Char × Bool))) : List (List (Char × Bool)) :=
  let data := lines.filter (isField "data:")
  if data.isEmpty then [] else data ++ (lines.filter (isField "event:")).getLast?.toList

/-- Apart from carriage returns, every character that a cut divides lies in a complete block
on a line that the block's event is not made of.
-/
def HarmlessCuts (text : Text) (chunks : List (List UInt8)) : Prop :=
  let marked := (splitMarks (cutOffsets 0 chunks) 0 text).filter (fun mark => mark.1 ≠ '\r')
  let (done, leftover) := Delimiters.blocks (fun mark => mark.1 == '\n') marked
  (∀ mark ∈ leftover, mark.2 = false)
  ∧ ∀ block ∈ done, ∀ line ∈ usedLines (Delimiters.lines (fun mark => mark.1 == '\n') block),
    ∀ mark ∈ line, mark.2 = false

/-- Feeding the chunks one by one yields the events and the buffer of feeding them at once. -/
def ChunkingInvisible (chunks : List (List UInt8)) : Prop :=
  (Transducer.outputs SseParser.push [] chunks).flatten = (SseParser.push [] chunks.flatten).2
  ∧ Transducer.after SseParser.push [] chunks = (SseParser.push [] chunks.flatten).1

namespace SseParser

/-- The loop takes all blocks off the buffer, by induction on the fuel: every block that is taken
makes the buffer shorter.
-/
theorem drain_eq (fuel : ℕ) (buf : Text) (enough : buf.length ≤ fuel)
    : drain fuel buf
      = ((Delimiters.blocks (· == '\n') buf).2,
          (Delimiters.blocks (· == '\n') buf).1.filterMap parseBlock) := by
  induction fuel generalizing buf with
  | zero =>
      obtain rfl := List.length_eq_zero_iff.mp (Nat.le_zero.mp enough)
      rfl
  | succ fuel ih =>
      rw [drain, Delimiters.blocks_of_takeBlock]
      cases found : Delimiters.takeBlock (· == '\n') buf with
      | none => rfl
      | some split =>
          obtain ⟨block, rest⟩ := split
          have shorter := Delimiters.takeBlock_length found
          simp only [ih rest (by omega)]
          cases parsed : parseBlock block <;> simp [parsed]

theorem push_eq (buf : Text) (chunk : List UInt8)
    : push buf chunk
      = ((Delimiters.blocks (· == '\n')
            (buf ++ (fromUtf8Lossy chunk).filter (· ≠ '\r'))).2,
          (Delimiters.blocks (· == '\n')
            (buf ++ (fromUtf8Lossy chunk).filter (· ≠ '\r'))).1.filterMap parseBlock) :=
  drain_eq _ _ le_rfl

/-- Feeding chunks amounts to parsing the text they are decoded to, one after another.
Witness: induction on the chunks; what a push leaves over completes no block by itself.
-/
theorem run_eq (buf : Text) (unfinished : (Delimiters.blocks (· == '\n') buf).1 = [])
    (chunks : List (List UInt8))
    : (Transducer.after push buf chunks, (Transducer.outputs push buf chunks).flatten)
      = ((Delimiters.blocks (· == '\n')
            (buf ++ (chunks.flatMap fromUtf8Lossy).filter (· ≠ '\r'))).2,
          (Delimiters.blocks (· == '\n')
            (buf ++ (chunks.flatMap fromUtf8Lossy).filter (· ≠ '\r'))).1.filterMap parseBlock)
      := by
  induction chunks generalizing buf with
  | nil =>
      have whole := Delimiters.blocks_flatten (· == '\n') buf
      rw [unfinished, List.flatten_nil, List.nil_append] at whole
      simp [Transducer.after, Transducer.outputs, unfinished, whole]
  | cons chunk rest ih =>
      have later := ih (push buf chunk).1 (by
        rw [push_eq]
        exact Delimiters.blocks_leftover _ _)
      obtain ⟨buffer, events⟩ := Prod.mk.inj later
      rw [Transducer.after_cons, Transducer.outputs, List.flatten_cons, buffer, events,
        push_eq, List.flatMap_cons, List.filter_append, ← List.append_assoc,
        Delimiters.blocks_append _ (buf ++ _), List.filterMap_append]

end SseParser

-----------------------------------------------------------------------------------------
-- Lines of a received text
-----------------------------------------------------------------------------------------

namespace Mark

/-- The sent and the received form of a piece of marked text. -/
def sent (marks : List Mark) : Text :=
  marks.map Mark.char

def receivedText (marks : List Mark) : Text :=
  marks.flatMap Mark.received

/-- Some character of the piece is divided. -/
def Divided (marks : List Mark) : Prop :=
  ∃ mark ∈ marks, mark.copies ≠ 0

theorem received_of_whole {mark : Mark} (whole : mark.copies = 0)
    : mark.received = [mark.char] := by
  rw [received, if_pos whole]

/-- A divided character is received as a replacement character and some more, for it has at least
two parts.
-/
theorem received_of_divided {mark : Mark} (divided : mark.copies ≠ 0)
    : ∃ more, mark.received = replacement :: more ∧ more ≠ [] ∧ ∀ c ∈ more, c = replacement := by
  obtain ⟨copies, _⟩ := mark.valid.resolve_left divided
  refine ⟨List.replicate (mark.copies - 1) replacement, ?_, ?_, fun c => List.eq_of_mem_replicate⟩
  · rw [received, if_neg divided, ← List.replicate_succ]
    congr 1
    omega
  · rw [Ne, List.replicate_eq_nil_iff]
    omega

/-- Marks of which none is divided are received as they were sent, character by character. -/
theorem receivedText_eq_sent {marks : List Mark} (whole : ¬ Divided marks)
    : receivedText marks = sent marks := by
  have each {mark : Mark} (member : mark ∈ marks) : mark.received = [mark.char] := by
    refine received_of_whole ?_
    by_contra divided
    exact whole ⟨mark, member, divided⟩
  rw [receivedText, sent, List.flatMap_congr (fun mark member => each member)]
  exact List.flatMap_pure_eq_map Mark.char marks

theorem divided_cons {mark : Mark} {marks : List Mark}
    : Divided (mark :: marks) ↔ mark.copies ≠ 0 ∨ Divided marks := by
  simp [Divided]

/-- A received text is at least as long as the sent one, and longer if it is divided, by
induction on the marks.
-/
theorem length_receivedText (marks : List Mark)
    : (sent marks).length ≤ (receivedText marks).length
      ∧ (Divided marks → (sent marks).length < (receivedText marks).length) := by
  induction marks with
  | nil => exact ⟨le_rfl, fun ⟨_, member, _⟩ => absurd member List.not_mem_nil⟩
  | cons mark marks ih =>
      obtain ⟨le, lt⟩ := ih
      simp only [sent, receivedText, List.map_cons, List.flatMap_cons, List.length_cons,
        List.length_append, divided_cons] at *
      by_cases whole : mark.copies = 0
      · rw [received_of_whole whole, List.length_singleton]
        refine ⟨by omega, ?_⟩
        intro h
        rcases h with divided | divided
        · exact absurd whole divided
        · have := lt divided
          omega
      · obtain ⟨more, received, nonempty, _⟩ := received_of_divided whole
        have positive := List.length_pos_of_ne_nil nonempty
        rw [received, List.length_cons]
        exact ⟨by omega, fun _ => by omega⟩

/-- Receiving keeps the ends of lines: a line feed is one byte, which no cut divides, and no
replacement character is one.
-/
theorem keeps_received
    : Delimiters.Keeps (fun mark : Mark => mark.char == '\n') (· == '\n') Mark.received := by
  constructor
  · intro mark delimiter
    have newline : mark.char = '\n' := by simpa using delimiter
    have whole : mark.copies = 0 := by
      rcases mark.valid with whole | ⟨_, long⟩
      · exact whole
      · rw [newline] at long
        exact absurd long (by decide)
    exact ⟨mark.char, received_of_whole whole, delimiter⟩
  · intro mark other
    by_cases whole : mark.copies = 0
    · simpa [received_of_whole whole] using other
    · obtain ⟨more, received, _, all⟩ := received_of_divided whole
      refine ⟨by simp [received], ?_⟩
      intro c member
      rw [received] at member
      have same : c = replacement := by
        rcases List.mem_cons.mp member with same | later
        · exact same
        · exact all c later
      rw [same]
      decide

/-- Stripping an ASCII prefix off a line gives the same rest, sent or received, by induction on
the prefix: its characters are never divided.
-/
theorem stripPrefix_marks {pattern : Text} (ascii : ∀ c ∈ pattern, c.toNat < 0x80)
    (marks : List Mark)
    : (stripPrefix pattern (sent marks) = none ∧ stripPrefix pattern (receivedText marks) = none)
      ∨ ∃ rest,
        stripPrefix pattern (sent marks) = some (sent rest)
        ∧ stripPrefix pattern (receivedText marks) = some (receivedText rest)
        ∧ (Divided rest ↔ Divided marks) := by
  induction pattern generalizing marks with
  | nil => exact Or.inr ⟨marks, rfl, rfl, Iff.rfl⟩
  | cons c pattern ih =>
      have asciiRest := fun d member => ascii d (List.mem_cons_of_mem _ member)
      cases marks with
      | nil => exact Or.inl ⟨rfl, rfl⟩
      | cons mark marks =>
          by_cases whole : mark.copies = 0
          · by_cases same : c = mark.char
            · have head
                  : stripPrefix (c :: pattern) (sent (mark :: marks))
                      = stripPrefix pattern (sent marks)
                    ∧ stripPrefix (c :: pattern) (receivedText (mark :: marks))
                      = stripPrefix pattern (receivedText marks) := by
                simp [stripPrefix, sent, receivedText, received_of_whole whole, same,
                  List.isPrefixOf?]
              rw [head.1, head.2]
              simpa [divided_cons, whole] using ih asciiRest marks
            · refine Or.inl ⟨?_, ?_⟩ <;>
                simp [stripPrefix, sent, receivedText, received_of_whole whole, same,
                  List.isPrefixOf?]
          · obtain ⟨more, received, _⟩ := received_of_divided whole
            have small := ascii c List.mem_cons_self
            obtain ⟨_, long⟩ := mark.valid.resolve_left whole
            have notSent : c ≠ mark.char := by
              intro equal
              subst equal
              omega
            have notReceived : c ≠ replacement := by
              intro equal
              subst equal
              exact absurd small (by decide)
            refine Or.inl ⟨?_, ?_⟩
            · simp [stripPrefix, sent, notSent, List.isPrefixOf?]
            · simp [stripPrefix, receivedText, received, notReceived, List.isPrefixOf?]

/-- Trimming does not make up for a divided character: a replacement is no whitespace, so
trimming stops there at the latest.
-/
theorem length_trimStart {marks : List Mark} (divided : Divided marks)
    : (trimStart (sent marks)).length < (trimStart (receivedText marks)).length := by
  induction marks with
  | nil =>
      obtain ⟨_, member, _⟩ := divided
      exact absurd member List.not_mem_nil
  | cons mark marks ih =>
      have lengths := length_receivedText marks
      by_cases whole : mark.copies = 0
      · have later : Divided marks := (divided_cons.mp divided).resolve_left (by simp [whole])
        have longer := lengths.2 later
        simp only [sent, receivedText, trimStart] at *
        rw [List.map_cons, List.flatMap_cons, received_of_whole whole, List.singleton_append,
          List.dropWhile_cons, List.dropWhile_cons]
        split
        · exact ih later
        · simpa using longer
      · obtain ⟨more, received, nonempty, _⟩ := received_of_divided whole
        have positive := List.length_pos_of_ne_nil nonempty
        have visible : isWhitespace replacement = false := by decide
        have kept
            : trimStart (receivedText (mark :: marks)) = receivedText (mark :: marks) := by
          rw [trimStart, receivedText, List.flatMap_cons, received, List.cons_append,
            List.dropWhile_cons, if_neg (by simp [visible])]
        have trimmed : (trimStart (sent (mark :: marks))).length ≤ (sent marks).length + 1 :=
          (List.dropWhile_sublist isWhitespace).length_le
        rw [kept, receivedText, List.flatMap_cons, received, List.length_append, List.length_cons]
        have := lengths.1
        rw [receivedText] at this
        omega

end Mark

/-- The value of an event line. -/
def eventOf (line : Text) : Option Text :=
  (stripPrefix "event:".toList line).map trimStart

/-- The value of a data line. -/
def dataOf (line : Text) : Option Text :=
  (stripPrefix "data:".toList line).map (fun v => (stripPrefix [' '] v).getD v)

/-- A field value is read off a received line as off the sent one, except that it comes
out longer when the line is divided.
-/
structure ReadsField (field : String) (value : Text → Option Text) : Prop where
  present : ∀ line, (value line).isSome = (stripPrefix field.toList line).isSome
  received : ∀ marks, (value (Mark.receivedText marks)).isSome = (value (Mark.sent marks)).isSome
  longer
    : ∀ marks, Mark.Divided marks → ∀ v ∈ value (Mark.sent marks),
      ∀ w ∈ value (Mark.receivedText marks), v.length < w.length

/-- A field whose value is what follows its name, read in some way that keeps divided characters
in: the name is ASCII, so it is found on both sides or on neither.
-/
theorem readsField {field : String} (ascii : ∀ c ∈ field.toList, c.toNat < 0x80)
    {read : Text → Text}
    (longer
      : ∀ marks, Mark.Divided marks
        → (read (Mark.sent marks)).length < (read (Mark.receivedText marks)).length)
    : ReadsField field (fun line => (stripPrefix field.toList line).map read) := by
  refine ⟨fun line => Option.isSome_map, ?_, ?_⟩
  · intro marks
    rcases Mark.stripPrefix_marks ascii marks with ⟨sent, received⟩ | ⟨rest, sent, received, _⟩
    · simp [sent, received]
    · simp [sent, received]
  · intro marks divided v readSent w readReceived
    rcases Mark.stripPrefix_marks ascii marks with ⟨sent, _⟩ | ⟨rest, sent, received, same⟩
    · simp [sent] at readSent
    · simp only [sent, received, Option.map_some, Option.mem_some_iff] at readSent readReceived
      subst readSent
      subst readReceived
      exact longer rest (same.mpr divided)

theorem readsField_event : ReadsField "event:" eventOf :=
  readsField (by simp) (fun _ divided => Mark.length_trimStart divided)

/-- The data of a line are read like any field's value: one blank behind the name may be taken
off, and it is never part of a divided character.
-/
theorem readsField_data : ReadsField "data:" dataOf := by
  refine readsField (by simp) (fun marks divided => ?_)
  have ascii : ∀ c ∈ [' '], c.toNat < 0x80 := by simp
  rcases Mark.stripPrefix_marks ascii marks with ⟨sent, received⟩ | ⟨rest, sent, received, same⟩
  · rw [sent, received]
    exact (Mark.length_receivedText marks).2 divided
  · rw [sent, received]
    exact (Mark.length_receivedText rest).2 (same.mpr divided)

namespace SseParser

/-- An event line is no data line: their names start differently. -/
theorem dataOf_of_event {line v : Text} (isEvent : stripPrefix "event:".toList line = some v)
    : stripPrefix "data:".toList line = none := by
  cases line with
  | nil => rfl
  | cons c tail =>
      have first : c = 'e' := by
        by_contra other
        simp [stripPrefix, List.isPrefixOf?, Ne.symm other] at isEvent
      simp [stripPrefix, List.isPrefixOf?, first]

/-- A line sets the event's name or adds to its data, by the cases of the two field names. -/
theorem readLine_eq (event : Text) (data : List Text) (line : Text)
    : readLine (event, data) line
      = ((eventOf line).getD event, data ++ (dataOf line).toList) := by
  unfold readLine eventOf dataOf
  cases isEvent : stripPrefix "event:".toList line with
  | some v =>
      rw [dataOf_of_event isEvent, Option.map_none, Option.toList_none, List.append_nil]
      rfl
  | none =>
      cases stripPrefix "data:".toList line with
      | some v => rfl
      | none => simp

theorem foldl_readLine (lines : List Text) (event : Text) (data : List Text)
    : lines.foldl readLine (event, data)
      = (((lines.filterMap eventOf).getLast?).getD event, data ++ lines.filterMap dataOf) := by
  induction lines generalizing event data with
  | nil => simp
  | cons line rest ih =>
      rw [List.foldl_cons, readLine_eq, ih, List.filterMap_cons, List.filterMap_cons]
      cases eventOf line <;> cases dataOf line <;> simp [List.getLast?_cons]

/-- Without carriage returns the lines are what stands between the line feeds, as there is none
to strip.
-/
theorem linesOf_of_noReturn {s : Text} (noReturn : '\r' ∉ s)
    : linesOf s = Delimiters.lines (· == '\n') s := by
  have kept
      : (Delimiters.splitLines (· == '\n') s).1.map stripCarriageReturn
        = (Delimiters.splitLines (· == '\n') s).1 := by
    refine (List.map_congr_left (fun line ended => ?_)).trans (List.map_id _)
    have other : line.getLast? ≠ some '\r' := fun last =>
      noReturn (Delimiters.mem_of_mem_lines (Delimiters.splitLines_subset_lines _ _ ended)
        (List.mem_of_getLast? last))
    rw [stripCarriageReturn, if_neg other]
    rfl
  simp only [linesOf, Delimiters.lines, kept]
  split
  · exact List.append_nil _
  · rfl

/-- A block's event is its last event line and its joined data lines. -/
theorem parseBlock_eq {block : Text} (normalised : '\r' ∉ block)
    : parseBlock block
      = let lines := Delimiters.lines (· == '\n') block
        if (lines.filterMap dataOf).isEmpty then
          none
        else
          some (((lines.filterMap eventOf).getLast?).getD "message".toList,
            ['\n'].intercalate (lines.filterMap dataOf)) := by
  simp only [parseBlock, linesOf_of_noReturn normalised, foldl_readLine, List.nil_append]

-----------------------------------------------------------------------------------------
-- Comparing a received block with the sent one
-----------------------------------------------------------------------------------------

/-- The lines of marked text that carry a field. -/
def fieldLines (field : String) (lines : List (List Mark)) : List (List Mark) :=
  lines.filter (fun line => (stripPrefix field.toList (Mark.sent line)).isSome)

/-- The values of a field are read off its lines, whichever form they have, by induction on the
lines.
-/
theorem filterMap_field {field : String} {value : Text → Option Text}
    (reads : ReadsField field value) (lines : List (List Mark))
    : (lines.map Mark.sent).filterMap value
        = (fieldLines field lines).map (fun line => (value (Mark.sent line)).getD [])
      ∧ (lines.map Mark.receivedText).filterMap value
        = (fieldLines field lines).map (fun line => (value (Mark.receivedText line)).getD []) := by
  induction lines with
  | nil => exact ⟨rfl, rfl⟩
  | cons line rest ih =>
      have present := reads.present (Mark.sent line)
      have received := reads.received line
      have own
          : fieldLines field (line :: rest)
            = if (value (Mark.sent line)).isSome then line :: fieldLines field rest
              else fieldLines field rest := by
        rw [fieldLines, List.filter_cons, ← present]
        rfl
      rw [List.map_cons, List.map_cons, List.filterMap_cons, List.filterMap_cons, ih.1, ih.2, own]
      cases sentValue : value (Mark.sent line) with
      | none =>
          have receivedNone : value (Mark.receivedText line) = none := by
            simpa [sentValue] using received
          simp [receivedNone]
      | some v =>
          obtain ⟨w, receivedValue⟩ : ∃ w, value (Mark.receivedText line) = some w := by
            rw [← Option.isSome_iff_exists, received, sentValue]
            rfl
          simp [receivedValue, sentValue]

/-- A field line's value is the sent one exactly when the line is not divided: whole it is the
same line, and divided it is longer.
-/
theorem value_eq_iff {field : String} {value : Text → Option Text}
    (reads : ReadsField field value) {lines : List (List Mark)} {line : List Mark}
    (member : line ∈ fieldLines field lines)
    : ((value (Mark.sent line)).getD []).length ≤ ((value (Mark.receivedText line)).getD []).length
      ∧ (Mark.Divided line
        → ((value (Mark.sent line)).getD []).length
          < ((value (Mark.receivedText line)).getD []).length)
      ∧ (¬ Mark.Divided line
        → (value (Mark.receivedText line)).getD [] = (value (Mark.sent line)).getD []) := by
  have present : (value (Mark.sent line)).isSome := by
    rw [reads.present]
    exact (List.mem_filter.mp member).2
  obtain ⟨v, sentValue⟩ := Option.isSome_iff_exists.mp present
  obtain ⟨w, receivedValue⟩ := Option.isSome_iff_exists.mp ((reads.received line).trans present)
  have longer (divided : Mark.Divided line) := reads.longer line divided v sentValue w receivedValue
  rw [sentValue, receivedValue, Option.getD_some, Option.getD_some]
  by_cases divided : Mark.Divided line
  · exact ⟨(longer divided).le, longer, fun whole => absurd divided whole⟩
  · have same : v = w := by
      rw [Mark.receivedText_eq_sent divided, sentValue] at receivedValue
      exact Option.some.inj receivedValue
    exact ⟨(congrArg List.length same).le, longer, fun _ => same.symm⟩

/-- The joined data agree exactly when no data line is divided. Witness: no received line is
shorter than the sent one, so the joined lengths tell of a divided one.
-/
theorem data_eq_iff (lines : List (List Mark))
    : ['\n'].intercalate ((lines.map Mark.receivedText).filterMap dataOf)
        = ['\n'].intercalate ((lines.map Mark.sent).filterMap dataOf)
      ↔ ∀ line ∈ fieldLines "data:" lines, ¬ Mark.Divided line := by
  obtain ⟨sent, received⟩ := filterMap_field readsField_data lines
  rw [sent, received]
  constructor
  · intro same line member divided
    have lengths := congrArg List.length same
    simp only [Delimiters.length_intercalate, List.length_map, List.map_map] at lengths
    have less := List.sum_lt_sum
      (fun line => ((dataOf (Mark.sent line)).getD []).length)
      (fun line => ((dataOf (Mark.receivedText line)).getD []).length)
      (fun line member => (value_eq_iff readsField_data member).1)
      ⟨line, member, (value_eq_iff readsField_data member).2.1 divided⟩
    simp only [Function.comp_def] at lengths
    omega
  · intro whole
    congr 1
    exact List.map_congr_left (fun line member =>
      (value_eq_iff readsField_data member).2.2 (whole line member))

/-- The event names agree exactly when the last event line is not divided, by the cases of a last
one and none.
-/
theorem event_eq_iff (lines : List (List Mark)) (event : Text)
    : (((lines.map Mark.receivedText).filterMap eventOf).getLast?).getD event
        = (((lines.map Mark.sent).filterMap eventOf).getLast?).getD event
      ↔ ∀ line ∈ (fieldLines "event:" lines).getLast?, ¬ Mark.Divided line := by
  obtain ⟨sent, received⟩ := filterMap_field readsField_event lines
  rw [sent, received, List.getLast?_map, List.getLast?_map]
  cases last : (fieldLines "event:" lines).getLast? with
  | none => simp
  | some line =>
      obtain ⟨_, longer, same⟩ := value_eq_iff readsField_event (List.mem_of_getLast? last)
      simp only [Option.map_some, Option.getD_some, Option.mem_some_iff, forall_eq']
      refine ⟨fun equal divided => ?_, same⟩
      have lengths := congrArg List.length equal
      have less := longer divided
      omega

/-- The lines of a marked block that its event is made of. -/
def usedMarks (lines : List (List Mark)) : List (List Mark) :=
  if (fieldLines "data:" lines).isEmpty then
    []
  else
    fieldLines "data:" lines ++ (fieldLines "event:" lines).getLast?.toList

/-- A received block has an event when the sent one has, and the same one exactly when no line it
is made of is divided. Witness: a block has an event as soon as it has data, which divided
characters do not take away; name and data are compared line by line.
-/
theorem parseBlock_received {block : List Mark} (normalised : ∀ mark ∈ block, mark.char ≠ '\r')
    : ((parseBlock (Mark.receivedText block)).isSome = (parseBlock (Mark.sent block)).isSome)
      ∧ (parseBlock (Mark.receivedText block) = parseBlock (Mark.sent block)
        ↔ ∀ line ∈ usedMarks (Delimiters.lines (fun mark : Mark => mark.char == '\n') block),
          ¬ Mark.Divided line) := by
  have sentNormalised : '\r' ∉ Mark.sent block := by
    intro member
    obtain ⟨mark, inBlock, same⟩ := List.mem_map.mp member
    exact normalised mark inBlock same
  have receivedNormalised : '\r' ∉ Mark.receivedText block := by
    intro member
    obtain ⟨mark, inBlock, inReceived⟩ := List.mem_flatMap.mp member
    by_cases whole : mark.copies = 0
    · rw [Mark.received_of_whole whole, List.mem_singleton] at inReceived
      exact normalised mark inBlock inReceived.symm
    · rw [Mark.received, if_neg whole] at inReceived
      exact absurd (List.eq_of_mem_replicate inReceived) (by decide)
  have sentLines
      : Delimiters.lines (· == '\n') (Mark.sent block)
        = (Delimiters.lines (fun mark : Mark => mark.char == '\n') block).map Mark.sent :=
    Delimiters.lines_map (fun _ => rfl) block
  have receivedLines
      : Delimiters.lines (· == '\n') (Mark.receivedText block)
        = (Delimiters.lines (fun mark : Mark => mark.char == '\n') block).map Mark.receivedText :=
    Delimiters.lines_flatMap Mark.keeps_received block
  rw [parseBlock_eq sentNormalised, parseBlock_eq receivedNormalised, sentLines, receivedLines]
  generalize Delimiters.lines (fun mark : Mark => mark.char == '\n') block = lines
  obtain ⟨sentData, receivedData⟩ := filterMap_field readsField_data lines
  have sentEmpty
      : ((lines.map Mark.sent).filterMap dataOf).isEmpty = (fieldLines "data:" lines).isEmpty := by
    rw [sentData, List.isEmpty_map]
  have receivedEmpty
      : ((lines.map Mark.receivedText).filterMap dataOf).isEmpty
        = (fieldLines "data:" lines).isEmpty := by
    rw [receivedData, List.isEmpty_map]
  dsimp only
  rw [sentEmpty, receivedEmpty, usedMarks]
  cases empty : (fieldLines "data:" lines).isEmpty with
  | true => simp
  | false =>
      simp only [Bool.false_eq_true, if_false, Option.some.injEq, Prod.mk.injEq, event_eq_iff,
        data_eq_iff, List.mem_append, Option.mem_toList, Option.isSome_some, true_and]
      constructor
      · intro h line given
        rcases h with ⟨event, data⟩
        rcases given with inData | isLast
        · exact data line inData
        · exact event line isLast
      · intro whole
        exact ⟨fun line isLast => whole line (Or.inr isLast),
          fun line inData => whole line (Or.inl inData)⟩

end SseParser

-----------------------------------------------------------------------------------------
-- Cuts of a whole stream
-----------------------------------------------------------------------------------------

theorem splitMarks_text (cuts : List ℕ) (offset : ℕ) (text : Text)
    : (splitMarks cuts offset text).map Prod.fst = text := by
  induction text generalizing offset with
  | nil => rfl
  | cons c rest ih => rw [splitMarks, List.map_cons, ih]

/-- Dropping carriage returns commutes with receiving: none of them is ever divided, by induction
on the marks.
-/
theorem filter_receivedText (marks : List Mark)
    : (Mark.receivedText marks).filter (· ≠ '\r')
      = Mark.receivedText (marks.filter (fun mark => mark.char ≠ '\r')) := by
  induction marks with
  | nil => rfl
  | cons mark rest ih =>
      rw [Mark.receivedText, List.flatMap_cons, List.filter_append, List.filter_cons]
      change _ ++ (Mark.receivedText rest).filter _ = _
      rw [ih]
      by_cases whole : mark.copies = 0
      · rw [Mark.received_of_whole whole]
        by_cases isReturn : mark.char = '\r'
        · simp [isReturn]
        · simp [isReturn, Mark.receivedText, Mark.received_of_whole whole]
      · have notReturn : mark.char ≠ '\r' := by
          intro isReturn
          have long := (mark.valid.resolve_left whole).2
          rw [isReturn] at long
          exact absurd long (by decide)
        have kept : mark.received.filter (· ≠ '\r') = mark.received := by
          refine List.filter_eq_self.mpr (fun c member => ?_)
          rw [Mark.received, if_neg whole] at member
          rw [List.eq_of_mem_replicate member]
          decide
        rw [kept, if_pos (by simpa using notReturn)]
        rfl

theorem divided_iff_pair (marks : List Mark)
    : (∀ mark ∈ marks, mark.pair.2 = false) ↔ ¬ Mark.Divided marks := by
  simp [Mark.Divided, Mark.pair]

theorem sent_eq (marks : List Mark) : (marks.map Mark.pair).map Prod.fst = Mark.sent marks := by
  rw [List.map_map]
  rfl

/-- The lines that an event is made of are the same for marks and for what they are sent as,
field by field.
-/
theorem usedLines_pair (lines : List (List Mark))
    : usedLines (lines.map (fun line => line.map Mark.pair))
      = (SseParser.usedMarks lines).map (fun line => line.map Mark.pair) := by
  have fields (field : String)
      : (lines.map (fun line => line.map Mark.pair)).filter (isField field)
        = (SseParser.fieldLines field lines).map (fun line => line.map Mark.pair) := by
    rw [List.filter_map, SseParser.fieldLines]
    congr 1
    refine List.filter_congr (fun line _ => ?_)
    rw [Function.comp_apply, isField, sent_eq]
  simp only [usedLines, SseParser.usedMarks, fields, List.isEmpty_map, List.getLast?_map]
  split
  · rfl
  · rw [List.map_append]
    cases (SseParser.fieldLines "event:" lines).getLast? <;> rfl

/-- Two ways to keep elements that keep at the same places agree when they agree on each, by
induction on the elements.
-/
theorem filterMap_eq_iff {α β : Type} {f g : α → Option β} {items : List α}
    (same : ∀ item ∈ items, (f item).isSome = (g item).isSome)
    : items.filterMap f = items.filterMap g ↔ ∀ item ∈ items, f item = g item := by
  refine ⟨?_, List.filterMap_congr⟩
  induction items with
  | nil => simp
  | cons head rest ih =>
      have own := same head List.mem_cons_self
      have later := ih (fun item member => same item (List.mem_cons_of_mem _ member))
      intro equal
      cases first : f head with
      | none =>
          have firstG : g head = none := by simpa [first] using own.symm
          simp only [List.filterMap_cons, first, firstG] at equal
          simpa [first, firstG] using later equal
      | some v =>
          obtain ⟨w, firstG⟩ : ∃ w, g head = some w := by
            rw [← Option.isSome_iff_exists, ← own, first]
            rfl
          simp only [List.filterMap_cons, first, firstG, List.cons.injEq] at equal
          simpa [first, firstG, equal.1] using later equal.2

/-- Harmless cuts, told of the marks: a mark carries the character and the cuts inside it. -/
theorem harmlessCuts_iff {text : Text} {chunks : List (List UInt8)} {marks : List Mark}
    (pairs : marks.map Mark.pair = splitMarks (cutOffsets 0 chunks) 0 text)
    {done : List (List Mark)} {leftover : List Mark}
    (cut
      : Delimiters.blocks (fun mark : Mark => mark.char == '\n')
          (marks.filter (fun mark => mark.char ≠ '\r'))
        = (done, leftover))
    : HarmlessCuts text chunks
      ↔ ¬ Mark.Divided leftover
        ∧ ∀ block ∈ done,
          ∀ line ∈ SseParser.usedMarks
              (Delimiters.lines (fun mark : Mark => mark.char == '\n') block),
            ¬ Mark.Divided line := by
  have kept
      : (splitMarks (cutOffsets 0 chunks) 0 text).filter (fun mark => mark.1 ≠ '\r')
        = (marks.filter (fun mark => mark.char ≠ '\r')).map Mark.pair := by
    rw [← pairs, List.filter_map]
    rfl
  have blocks
      : Delimiters.blocks (fun mark : Char × Bool => mark.1 == '\n')
          ((marks.filter (fun mark => mark.char ≠ '\r')).map Mark.pair)
        = (done.map (fun block => block.map Mark.pair), leftover.map Mark.pair) := by
    have mapped (items : List Mark)
        : Delimiters.blocks (fun mark : Char × Bool => mark.1 == '\n') (items.map Mark.pair)
          = ((Delimiters.blocks (fun mark : Mark => mark.char == '\n') items).1.map
              (fun block => block.map Mark.pair),
            (Delimiters.blocks (fun mark : Mark => mark.char == '\n') items).2.map Mark.pair) :=
      Delimiters.blocks_map (fun _ => rfl) items
    rw [mapped, cut]
  have lines (block : List Mark)
      : Delimiters.lines (fun mark : Char × Bool => mark.1 == '\n') (block.map Mark.pair)
        = (Delimiters.lines (fun mark : Mark => mark.char == '\n') block).map
            (fun line => line.map Mark.pair) :=
    Delimiters.lines_map (fun _ => rfl) block
  simp only [HarmlessCuts, kept, blocks, List.forall_mem_map, lines, usedLines_pair,
    divided_iff_pair]

section Cut

variable {marks : List Mark} {done : List (List Mark)} {leftover : List Mark}
  (cut
    : Delimiters.blocks (fun mark : Mark => mark.char == '\n')
        (marks.filter (fun mark => mark.char ≠ '\r'))
      = (done, leftover))

include cut

/-- A text is received in the blocks it is sent in. -/
theorem blocks_receivedText
    : Delimiters.blocks (· == '\n') ((Mark.receivedText marks).filter (· ≠ '\r'))
      = (done.map Mark.receivedText, Mark.receivedText leftover) := by
  rw [filter_receivedText, Mark.receivedText, Delimiters.blocks_flatMap Mark.keeps_received, cut]
  rfl

/-- The blocks of what is sent are those of the marks, for a mark ends a line when its character
does.
-/
theorem blocks_sent
    : Delimiters.blocks (· == '\n') ((Mark.sent marks).filter (· ≠ '\r'))
      = (done.map Mark.sent, Mark.sent leftover) := by
  have mapped (items : List Mark)
      : Delimiters.blocks (· == '\n') (items.map Mark.char)
        = ((Delimiters.blocks (fun mark : Mark => mark.char == '\n') items).1.map
            (fun block => block.map Mark.char),
          (Delimiters.blocks (fun mark : Mark => mark.char == '\n') items).2.map Mark.char) :=
    Delimiters.blocks_map (fun _ => rfl) items
  rw [Mark.sent, List.filter_map, mapped]
  change ((Delimiters.blocks _ (marks.filter (fun mark => mark.char ≠ '\r'))).1.map _,
    List.map _ (Delimiters.blocks _ (marks.filter (fun mark => mark.char ≠ '\r'))).2) = _
  rw [cut]
  rfl

/-- The received blocks have the events of the sent ones exactly when no line that an event is
made of is divided, block by block.
-/
theorem events_received_iff
    : (done.map Mark.receivedText).filterMap SseParser.parseBlock
          = (done.map Mark.sent).filterMap SseParser.parseBlock
        ↔ ∀ block ∈ done,
          ∀ line ∈ SseParser.usedMarks
              (Delimiters.lines (fun mark : Mark => mark.char == '\n') block),
            ¬ Mark.Divided line := by
  have normalised {block : List Mark} (member : block ∈ done)
      : ∀ mark ∈ block, mark.char ≠ '\r' := by
    intro mark inBlock
    have flat := Delimiters.blocks_flatten (fun mark : Mark => mark.char == '\n')
      (marks.filter (fun mark => mark.char ≠ '\r'))
    rw [cut] at flat
    have inKept : mark ∈ marks.filter (fun mark => mark.char ≠ '\r') := by
      rw [← flat]
      exact List.mem_append_left _ (List.mem_flatten.mpr ⟨block, member, inBlock⟩)
    simpa using (List.mem_filter.mp inKept).2
  rw [List.filterMap_map, List.filterMap_map]
  refine (filterMap_eq_iff (f := SseParser.parseBlock ∘ Mark.receivedText)
    (g := SseParser.parseBlock ∘ Mark.sent)
    (fun block member => (SseParser.parseBlock_received (normalised member)).1)).trans ?_
  exact forall₂_congr (fun block member =>
    (SseParser.parseBlock_received (normalised member)).2)

end Cut

/-- Receiving leaves a text as it was sent exactly when it is not divided. -/
theorem receivedText_eq_sent_iff {marks : List Mark}
    : Mark.receivedText marks = Mark.sent marks ↔ ¬ Mark.Divided marks := by
  refine ⟨fun same divided => ?_, Mark.receivedText_eq_sent⟩
  have longer := (Mark.length_receivedText marks).2 divided
  rw [same] at longer
  exact lt_irrefl _ longer

/-- Chunking a stream changes neither events nor buffer exactly when its cuts are harmless.
Witness: receiving keeps lines and blocks, and a divided character makes whatever is read
from its line longer.
-/
theorem chunkingInvisible_iff (text : Text) (chunks : List (List UInt8))
    (whole : chunks.flatten = text.flatMap String.utf8EncodeChar)
    : ChunkingInvisible chunks ↔ HarmlessCuts text chunks := by
  obtain ⟨marks, pairs, decoded⟩ := exists_marks text chunks 0 whole
  have textEq : text = Mark.sent marks := by
    rw [← sent_eq, pairs, splitMarks_text]
  obtain ⟨⟨done, leftover⟩, cut⟩
      : ∃ split, Delimiters.blocks (fun mark : Mark => mark.char == '\n')
          (marks.filter (fun mark => mark.char ≠ '\r')) = split :=
    ⟨_, rfl⟩
  have run := SseParser.run_eq [] rfl chunks
  rw [List.nil_append, decoded] at run
  change _ = ((Delimiters.blocks _ ((Mark.receivedText marks).filter _)).2,
    (Delimiters.blocks _ ((Mark.receivedText marks).filter _)).1.filterMap _) at run
  rw [blocks_receivedText cut] at run
  obtain ⟨buffer, events⟩ := Prod.mk.inj run
  have once := SseParser.push_eq [] chunks.flatten
  rw [List.nil_append, whole, fromUtf8Lossy_text, textEq, blocks_sent cut] at once
  rw [ChunkingInvisible, buffer, events, whole, textEq, once, harmlessCuts_iff (textEq ▸ pairs) cut,
    events_received_iff cut, receivedText_eq_sent_iff, and_comm]

/-- The bytes of a data line with an umlaut. -/
private def umlautText : Text :=
  "data: é\n\n".toList

theorem umlaut_whole_chunks
    : ChunkingInvisible [[100, 97, 116, 97], [58, 32, 0xC3, 0xA9, 10], [10]] := by
  refine (chunkingInvisible_iff umlautText _ (by decide +kernel)).mpr ⟨?_, ?_⟩
  · decide +kernel
  · decide +kernel

/-- Cutting inside the umlaut delivers two replacement characters instead of it. -/
theorem umlaut_cut
    : [[100, 97, 116, 97, 58, 32, 0xC3], [0xA9, 10, 10]].flatten
        = umlautText.flatMap String.utf8EncodeChar
      ∧ ¬ ChunkingInvisible [[100, 97, 116, 97, 58, 32, 0xC3], [0xA9, 10, 10]] := by
  refine ⟨by decide +kernel, ?_⟩
  intro h
  rcases h with ⟨events, _⟩
  revert events
  decide +kernel

end DockDoe
