import DockDoe.Foundations.ByteSlices
import DockDoe.Model.Texts

/-! Log lines as the logs panel shows them. -/

namespace DockDoe

open ByteSlices (SliceError bytesTo textTo)

/-- What follows the final byte of a sequence. -/
def skipSequence : Text → Text
  | [] => []
  | seq :: chars => if '@' ≤ seq ∧ seq ≤ '~' then chars else skipSequence chars

/-- Skipping a sequence leaves no more characters, by induction on them. -/
theorem skipSequence_length (chars : Text) : (skipSequence chars).length ≤ chars.length := by
  induction chars with
  | nil => rfl
  | cons seq chars ih =>
      rw [skipSequence]
      split
      · exact Nat.le_succ _
      · exact ih.trans (Nat.le_succ _)

/-- A text without the escape sequences of terminals. -/
def stripAnsi : Text → Text
  | [] => []
  | c :: chars =>
      if c = '\x1b' then
        match chars with
        | [] => []
        -- The introducer, and everything up to the final byte.
        | next :: chars => if next = '[' then stripAnsi (skipSequence chars) else stripAnsi chars
      else
        c :: stripAnsi chars
termination_by s => s.length
decreasing_by
  · have := skipSequence_length chars
    simp only [List.length_cons]
    omega
  · simp only [List.length_cons]
    omega
  · simp only [List.length_cons]
    omega

/-- What `html!` renders: texts, which it escapes, and elements. -/
inductive Markup
  | text (content : Text)
  | span (className : Text) (attributes : List (Text × Text)) (content : Text)
  deriving DecidableEq

/-- `str::replacen` of a character. -/
def replacen (pattern : Char) (replacement : Text) : ℕ → Text → Text
  | 0, s => s
  | _ + 1, [] => []
  | count + 1, c :: rest =>
      if c = pattern then
        replacement ++ replacen pattern replacement count rest
      else
        c :: replacen pattern replacement (count + 1) rest

/-- The check of a byte of `YYYY-MM-DDTHH:MM:SS`. -/
def patternOkAt (i : ℕ) (c : UInt8) : Bool :=
  match i with
  | 4 | 7 => c == '-'.toUInt8
  | 10 => c == 'T'.toUInt8
  | 13 | 16 => c == ':'.toUInt8
  | _ => '0'.toUInt8 ≤ c && c ≤ '9'.toUInt8

/-- The timestamp and the message of a log line. -/
def splitLogTimestamp (line : Text) : Except SliceError (Option (Text × Text)) :=
  match Cuts.cut [' '] line with
  | none => .ok none
  | some (ts, msg) => do
      let b := asBytes ts
      if b.length < 20 ∨ ts.getLast? ≠ some 'Z' then
        return none
      let stamp ← bytesTo 19 b
      let patternOk := stamp.zipIdx.all (fun entry => patternOkAt entry.2 entry.1)
      return if patternOk then some (ts, msg) else none

/-- One line of the logs panel. -/
def renderLogLine (line : Text) : Except SliceError (List Markup) := do
  match ← splitLogTimestamp line with
  | some (ts, msg) =>
      let dataTs := (← textTo 19 ts) ++ ['Z']
      let shown := replacen 'T' [' '] 1 (← textTo 19 ts)
      return [
        .span "log-ts".toList [("data-ts".toList, dataTs)] shown,
        .text [' '],
        .text msg,
        .text ['\n']
      ]
  | none => return [.text line, .text ['\n']]

def renderLogLines (text : Text) : Except SliceError (List Markup) := do
  let lines ← (linesOf text).mapM renderLogLine
  return lines.flatten

/-- What `container_logs` answers with the log that was fetched of a container. -/
def containerLogs (fetched : Except Text Text) : Except SliceError (List Markup) :=
  match fetched with
  | .ok text =>
      if (trim text).isEmpty then
        .ok [.span "muted".toList [] "(no logs)".toList]
      else
        renderLogLines (stripAnsi text)
  -- The two texts of the message are adjacent in the element.
  | .error err => .ok [.span "muted".toList [] ("Could not read logs: ".toList ++ err)]

end DockDoe
