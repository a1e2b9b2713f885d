import DockDoe.Correctness.ChunkedEvents

/-! The event stream parser undoes the encoding of a stream. Events are written as fields on
lines of their own, between them lines and blocks that carry nothing; however the text is cut
between characters, the parser returns the events that were written.
-/

namespace DockDoe

open LossyUtf8

-----------------------------------------------------------------------------------------
-- The wire format
-----------------------------------------------------------------------------------------

/-- How a line of an event stream ends. -/
inductive LineEnd
  | lf | crlf

def LineEnd.text : LineEnd → Text
  | .lf => ['\n']
  | .crlf => ['\r', '\n']

/-- A line of an event stream and how it ends. -/
structure WireLine where
  content : Text
  lineEnd : LineEnd

def WireLine.text (line : WireLine) : Text :=
  line.content ++ line.lineEnd.text

/-- Comments start with a colon; servers send them to keep a connection alive. -/
def IsComment (line : Text) : Prop :=
  ∃ comment, line = ':' :: comment

/-- Lines that carry nothing for a parser which neither resumes nor retries. -/
def IsIgnored (line : Text) : Prop :=
  IsComment line ∨ ∃ value, line = "id:".toList ++ value ∨ line = "retry:".toList ++ value

/-- The line does not contain a line end. -/
def IsLine (line : Text) : Prop :=
  '\r' ∉ line ∧ '\n' ∉ line

/-- The fields of an event, each on its own line: its name and every line of its data. -/
def eventFields (event : Text × Text) : List Text :=
  ("event: ".toList ++ event.1)
  :: (event.2.splitOn '\n').map (fun piece => "data: ".toList ++ piece)

/-- The fields stand on lines, in order, with any number of ignored lines among them. -/
inductive Interspersed : List Text → List Text → Prop
  | nil : Interspersed [] []
  | field {fields lines : List Text} (line : Text) (rest : Interspersed fields lines)
    : Interspersed (line :: fields) (line :: lines)
  | ignored {fields lines : List Text} {line : Text} (carriesNothing : IsIgnored line)
      (whole : IsLine line) (rest : Interspersed fields lines)
    : Interspersed fields (line :: lines)

/-- An event that the wire format can carry: its name is a line that does not start with
whitespace, and its data has no carriage return.
-/
structure Encodable (event : Text × Text) : Prop where
  name : IsLine event.1
  start : ∀ c ∈ event.1.head?, isWhitespace c = false
  data : '\r' ∉ event.2

/-- The text renders the events one after another. Among them stand any number of blocks of
ignored lines, such as the comments that keep a connection alive, and after them possibly
the beginning of another one. A block ends with an empty line.
-/
inductive Renders : List (Text × Text) → Text → Prop
  | nil {lines : List WireLine}
      (ignored : ∀ line ∈ lines, IsIgnored line.content ∧ IsLine line.content)
    : Renders [] (lines.flatMap WireLine.text)
  | event {events : List (Text × Text)} {rest : Text} {event : Text × Text}
      (encodable : Encodable event) {lines : List WireLine}
      (fields : Interspersed (eventFields event) (lines.map WireLine.content)) (blank : LineEnd)
      (later : Renders events rest)
    : Renders (event :: events) (lines.flatMap WireLine.text ++ blank.text ++ rest)
  | keepAlive {events : List (Text × Text)} {rest : Text} {lines : List WireLine}
      (nonempty : lines ≠ [])
      (ignored : ∀ line ∈ lines, IsIgnored line.content ∧ IsLine line.content)
      (blank : LineEnd) (later : Renders events rest)
    : Renders events (lines.flatMap WireLine.text ++ blank.text ++ rest)

-----------------------------------------------------------------------------------------
-- Reading lines
-----------------------------------------------------------------------------------------

theorem IsIgnored.eventOf_eq_none {line : Text} (ignored : IsIgnored line)
    : eventOf line = none := by
  rcases ignored with ⟨comment, rfl⟩ | ⟨value, rfl | rfl⟩ <;> rfl

theorem IsIgnored.dataOf_eq_none {line : Text} (ignored : IsIgnored line)
    : dataOf line = none := by
  rcases ignored with ⟨comment, rfl⟩ | ⟨value, rfl | rfl⟩ <;> rfl

/-- An event line yields the event's name, of which trimming takes nothing away. -/
theorem Encodable.eventOf_eq {event : Text × Text} (encodable : Encodable event)
    : eventOf ("event: ".toList ++ event.1) = some event.1 := by
  have trimmed : trimStart (' ' :: event.1) = event.1 := by
    rw [trimStart, List.dropWhile_cons_of_pos (by decide)]
    cases own : event.1 with
    | nil => rfl
    | cons c rest =>
        have visible := encodable.start c (by simp [own])
        rw [List.dropWhile_cons_of_neg (by simp [visible])]
  exact congrArg some trimmed

theorem dataOf_eventLine (name : Text) : dataOf ("event: ".toList ++ name) = none :=
  rfl

theorem eventOf_dataLine (piece : Text) : eventOf ("data: ".toList ++ piece) = none :=
  rfl

theorem dataOf_dataLine (piece : Text) : dataOf ("data: ".toList ++ piece) = some piece :=
  rfl

/-- Ignored lines do not count for what only fields yield. -/
theorem Interspersed.filterMap_eq {fields lines : List Text} (written : Interspersed fields lines)
    {read : Text → Option Text} (skips : ∀ line, IsIgnored line → read line = none)
    : lines.filterMap read = fields.filterMap read := by
  induction written with
  | nil => rfl
  | field line rest ih => rw [List.filterMap_cons, List.filterMap_cons, ih]
  | ignored carriesNothing whole rest ih =>
      rw [List.filterMap_cons, skips _ carriesNothing, ih]

/-- The lines are the fields' and ignored ones, by induction on how they are mixed. -/
theorem Interspersed.forall_mem {fields lines : List Text} (written : Interspersed fields lines)
    {holds : Text → Prop} (fieldsHold : ∀ line ∈ fields, holds line)
    (ignoredHold : ∀ line, IsIgnored line → IsLine line → holds line)
    : ∀ line ∈ lines, holds line := by
  induction written with
  | nil => exact fun line member => absurd member List.not_mem_nil
  | field line rest ih =>
      have later := ih (fun other member => fieldsHold other (List.mem_cons_of_mem _ member))
      exact List.forall_mem_cons.mpr ⟨fieldsHold line List.mem_cons_self, later⟩
  | ignored carriesNothing whole rest ih =>
      exact List.forall_mem_cons.mpr ⟨ignoredHold _ carriesNothing whole, ih fieldsHold⟩

/-- A line of a block: not empty, and without a line end. -/
def IsBlockLine (line : Text) : Prop :=
  line ≠ [] ∧ IsLine line

theorem IsIgnored.nonempty {line : Text} (ignored : IsIgnored line) : line ≠ [] := by
  rcases ignored with ⟨comment, rfl⟩ | ⟨value, rfl | rfl⟩ <;> exact List.cons_ne_nil _ _

/-- The fields of an encodable event are lines of a block: a name has no line ends, and data are
divided at theirs.
-/
theorem Encodable.blockLines {event : Text × Text} (encodable : Encodable event)
    : ∀ line ∈ eventFields event, IsBlockLine line := by
  intro line member
  rcases List.mem_cons.mp member with rfl | isData
  · obtain ⟨noReturn, noNewline⟩ := encodable.name
    exact ⟨List.cons_ne_nil _ _, by simpa using noReturn, by simpa using noNewline⟩
  · obtain ⟨piece, inPieces, rfl⟩ := List.mem_map.mp isData
    refine ⟨List.cons_ne_nil _ _, ?_, ?_⟩
    · suffices '\r' ∉ piece by simpa using this
      exact fun inPiece => encodable.data (Delimiters.mem_of_mem_splitOn inPieces inPiece).1
    · suffices '\n' ∉ piece by simpa using this
      exact fun inPiece => (Delimiters.mem_of_mem_splitOn inPieces inPiece).2 rfl

-----------------------------------------------------------------------------------------
-- Reading blocks
-----------------------------------------------------------------------------------------

/-- Without carriage returns every line ends alike. -/
theorem filter_lineEnd (lineEnd : LineEnd) : lineEnd.text.filter (· ≠ '\r') = ['\n'] := by
  cases lineEnd <;> rfl

/-- Without carriage returns, lines on the wire end in line feeds alone, by induction on the
lines.
-/
theorem filter_wireLines {lines : List WireLine} (whole : ∀ line ∈ lines, IsLine line.content)
    : (lines.flatMap WireLine.text).filter (· ≠ '\r')
      = Delimiters.joined '\n' (lines.map WireLine.content) := by
  induction lines with
  | nil => rfl
  | cons line rest ih =>
      have own : line.content.filter (· ≠ '\r') = line.content := by
        refine List.filter_eq_self.mpr (fun c member => ?_)
        have other : c ≠ '\r' := by
          rintro rfl
          exact (whole line List.mem_cons_self).1 member
        simpa using other
      have later := ih (fun other member => whole other (List.mem_cons_of_mem _ member))
      rw [List.flatMap_cons, WireLine.text, List.filter_append, List.filter_append, own,
        filter_lineEnd, later, List.map_cons, Delimiters.joined_cons]
      simp

namespace SseParser

/-- A block whose lines yield one name and some data is that event, by what the loop reads of
each line.
-/
theorem parseBlock_joined {lines : List Text} (blockLines : ∀ line ∈ lines, IsBlockLine line)
    : parseBlock (Delimiters.joined '\n' lines ++ ['\n'])
      = if (lines.filterMap dataOf).isEmpty then
          none
        else
          some (((lines.filterMap eventOf).getLast?).getD "message".toList,
            ['\n'].intercalate (lines.filterMap dataOf)) := by
  have closed
      : Delimiters.joined '\n' lines ++ ['\n'] = Delimiters.joined '\n' (lines ++ [[]]) := by
    rw [Delimiters.joined_append]
    rfl
  have normalised : '\r' ∉ Delimiters.joined '\n' lines ++ ['\n'] := by
    intro member
    rcases List.mem_append.mp member with inLines | atEnd
    · obtain ⟨line, inLines, inLine⟩ := List.mem_flatMap.mp inLines
      rcases List.mem_append.mp inLine with inContent | atEnd
      · exact (blockLines line inLines).2.1 inContent
      · simp at atEnd
    · simp at atEnd
  have found : Delimiters.lines (· == '\n') (Delimiters.joined '\n' (lines ++ [[]]))
      = lines ++ [[]] := by
    refine Delimiters.lines_joined rfl (fun line member c inLine => ?_)
    rcases List.mem_append.mp member with inLines | isEmpty
    · have other : c ≠ '\n' := by
        rintro rfl
        exact (blockLines line inLines).2.2 inLine
      simpa using other
    · rw [List.mem_singleton.mp isEmpty] at inLine
      cases inLine
  have silent (read : Text → Option Text) (skips : read [] = none)
      : (lines ++ [[]]).filterMap read = lines.filterMap read := by
    rw [List.filterMap_append, List.filterMap_cons, skips]
    exact List.append_nil _
  rw [parseBlock_eq normalised, closed, found]
  dsimp only
  rw [silent dataOf rfl, silent eventOf rfl]

/-- A block of fields among ignored lines is the fields' event, for the ignored lines yield
neither name nor data.
-/
theorem parseBlock_fields {event : Text × Text} (encodable : Encodable event)
    {lines : List Text} (fields : Interspersed (eventFields event) lines)
    (blockLines : ∀ line ∈ lines, IsBlockLine line)
    : parseBlock (Delimiters.joined '\n' lines ++ ['\n']) = some event := by
  have names : lines.filterMap eventOf = [event.1] := by
    rw [fields.filterMap_eq (fun _ ignored => ignored.eventOf_eq_none), eventFields,
      List.filterMap_cons, encodable.eventOf_eq, List.filterMap_map]
    exact congrArg (event.1 :: ·)
      (List.filterMap_eq_nil_iff.mpr (fun piece _ => eventOf_dataLine piece))
  have data : lines.filterMap dataOf = event.2.splitOn '\n' := by
    rw [fields.filterMap_eq (fun _ ignored => ignored.dataOf_eq_none), eventFields,
      List.filterMap_cons, dataOf_eventLine, List.filterMap_map]
    exact (List.filterMap_congr (fun piece _ => dataOf_dataLine piece)).trans List.filterMap_some
  rw [parseBlock_joined blockLines, names, data,
    if_neg (by simp [List.splitOn_ne_nil]), List.intercalate_splitOn]
  rfl

/-- A block of ignored lines is no event. -/
theorem parseBlock_ignored {lines : List Text} (blockLines : ∀ line ∈ lines, IsBlockLine line)
    (ignored : ∀ line ∈ lines, IsIgnored line)
    : parseBlock (Delimiters.joined '\n' lines ++ ['\n']) = none := by
  have data : lines.filterMap dataOf = [] :=
    List.filterMap_eq_nil_iff.mpr (fun line member => (ignored line member).dataOf_eq_none)
  rw [parseBlock_joined blockLines, data]
  rfl

/-- No character of a block's line ends a line. -/
theorem separated {line : Text} (blockLine : IsBlockLine line)
    : line ≠ [] ∧ ∀ c ∈ line, (c == '\n') = false := by
  refine ⟨blockLine.1, fun c inLine => ?_⟩
  have other : c ≠ '\n' := by
    rintro rfl
    exact blockLine.2.2 inLine
  simpa using other

/-- Lines and an empty line come out as one block, once carriage returns are dropped. -/
theorem blocks_wireLines {lines : List WireLine} (nonempty : lines ≠ [])
    (blockLines : ∀ line ∈ lines.map WireLine.content, IsBlockLine line) (blank : LineEnd)
    (rest : Text)
    : (Delimiters.blocks (· == '\n')
          ((lines.flatMap WireLine.text ++ blank.text ++ rest).filter (· ≠ '\r'))).1
        = (Delimiters.joined '\n' (lines.map WireLine.content) ++ ['\n'])
          :: (Delimiters.blocks (· == '\n') (rest.filter (· ≠ '\r'))).1 := by
  have whole : ∀ line ∈ lines, IsLine line.content :=
    fun line member => (blockLines _ (List.mem_map_of_mem member)).2
  rw [List.filter_append, List.filter_append, filter_wireLines whole, filter_lineEnd,
    List.append_assoc, List.singleton_append]
  exact congrArg Prod.fst (Delimiters.blocks_joined rfl (by simpa using nonempty)
    (fun line member => separated (blockLines line member)) _)

/-- Ignored lines are lines of a block. -/
theorem blockLines_of_ignored {lines : List WireLine}
    (ignored : ∀ line ∈ lines, IsIgnored line.content ∧ IsLine line.content)
    : ∀ line ∈ lines.map WireLine.content, IsBlockLine line := by
  rw [List.forall_mem_map]
  intro line member
  obtain ⟨carriesNothing, whole⟩ := ignored line member
  exact ⟨carriesNothing.nonempty, whole⟩

/-- A rendered text splits into blocks whose events are the rendered ones.
Witness: induction on the rendering; each block is found as it was written.
-/
theorem blocks_renders {events : List (Text × Text)} {text : Text} (renders : Renders events text)
    : (Delimiters.blocks (· == '\n') (text.filter (· ≠ '\r'))).1.filterMap parseBlock
      = events := by
  induction renders with
  | @nil lines ignored =>
      have blockLines := blockLines_of_ignored ignored
      have unfinished
          : (Delimiters.blocks (· == '\n')
              (Delimiters.joined '\n' (lines.map WireLine.content))).1 = [] :=
        Delimiters.blocks_joined_unfinished (fun line member => separated (blockLines line member))
      rw [filter_wireLines (fun line member => (ignored line member).2), unfinished]
      rfl
  | @event events rest event encodable lines fields blank later ih =>
      have blockLines := fields.forall_mem encodable.blockLines
        (fun line ignored whole => ⟨ignored.nonempty, whole⟩)
      have nonempty : lines ≠ [] := by
        rintro rfl
        cases fields
      rw [blocks_wireLines nonempty blockLines blank rest, List.filterMap_cons,
        parseBlock_fields encodable fields blockLines, ih]
  | @keepAlive events rest lines nonempty ignored blank later ih =>
      have blockLines := blockLines_of_ignored ignored
      have carryNothing : ∀ line ∈ lines.map WireLine.content, IsIgnored line := by
        rw [List.forall_mem_map]
        exact fun line member => (ignored line member).1
      rw [blocks_wireLines nonempty blockLines blank rest, List.filterMap_cons,
        parseBlock_ignored blockLines carryNothing, ih]

/-- Chunks of whole characters are received as the text they are cut from. -/
theorem flatMap_fromUtf8Lossy_asBytes (chunks : List Text)
    : (chunks.map asBytes).flatMap fromUtf8Lossy = chunks.flatten := by
  induction chunks with
  | nil => rfl
  | cons chunk rest ih =>
      rw [List.map_cons, List.flatMap_cons, ih, asBytes, fromUtf8Lossy_text, List.flatten_cons]

/-- The parser returns the rendered events, however the text is cut between characters: what is
buffered and what has been parsed always make up the text so far, and blocks end where the
renderer ended them.
-/
theorem recovers {events : List (Text × Text)} {text : Text} (renders : Renders events text)
    {chunks : List Text} (cut : chunks.flatten = text)
    : (Transducer.outputs push [] (chunks.map asBytes)).flatten = events := by
  have run := run_eq [] rfl (chunks.map asBytes)
  rw [List.nil_append, flatMap_fromUtf8Lossy_asBytes, cut] at run
  exact (congrArg Prod.snd run).trans (blocks_renders renders)

/-- A keep-alive, and an event whose data has an empty line and one that looks like a field. -/
private def trickyChunks : List Text :=
  [": hi\r\n\nev".toList, "ent: up\nid: 7\r".toList, "\ndata: é\ndata: \r\nda".toList,
    "ta:  event: x\n\r\n".toList]

private def trickyEvent : Text × Text :=
  ("up".toList, "é\n\n event: x".toList)

private def trickyLines : List WireLine :=
  [⟨"event: up".toList, .lf⟩, ⟨"id: 7".toList, .crlf⟩, ⟨"data: é".toList, .lf⟩,
    ⟨"data: ".toList, .crlf⟩, ⟨"data:  event: x".toList, .lf⟩]

/-- An event between comments is recovered from chunks that divide its lines and ends of lines. -/
theorem recovers_tricky
    : (Transducer.outputs push [] (trickyChunks.map asBytes)).flatten = [trickyEvent] := by
  have encodable : Encodable trickyEvent :=
    ⟨⟨by decide, by decide⟩, fun c first => by cases first; rfl, by decide⟩
  have fields : Interspersed (eventFields trickyEvent) (trickyLines.map WireLine.content) :=
    .field _ (.ignored (.inr ⟨" 7".toList, .inl rfl⟩) ⟨by decide, by decide⟩
      (.field _ (.field _ (.field _ .nil))))
  have nothing : Renders [] ([].flatMap WireLine.text) := .nil (by simp)
  refine recovers (.keepAlive (List.cons_ne_nil ⟨": hi".toList, .crlf⟩ []) ?_ .lf
    (.event encodable fields .crlf nothing)) ?_
  · rw [List.forall_mem_singleton]
    exact ⟨.inl ⟨" hi".toList, rfl⟩, by decide, by decide⟩
  · rfl

end SseParser

end DockDoe
