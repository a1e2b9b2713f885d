import DockDoe.Foundations.LossyUtf8
import DockDoe.Foundations.Transducers
import DockDoe.Model.Texts

/-! The incremental parser of a federation node's event stream: chunks of bytes go in,
completed `(event, data)` pairs come out.
-/

namespace DockDoe

namespace SseParser

/-- The event name and the data lines of a block so far, after one more line. -/
def readLine (fields : Text × List Text) (line : Text) : Text × List Text :=
  match stripPrefix "event:".toList line with
  | some v => (trimStart v, fields.2)
  | none =>
      match stripPrefix "data:".toList line with
      | some v => (fields.1, fields.2 ++ [(stripPrefix [' '] v).getD v])
      -- Comments, ids and unknown fields are irrelevant.
      | none => fields

/-- The event of one block, if it has data. -/
def parseBlock (block : Text) : Option (Text × Text) :=
  let (event, data) := (linesOf block).foldl readLine ("message".toList, [])
  if data.isEmpty then none else some (event, ['\n'].intercalate data)

/-- The loop of `push`: take blocks off the buffer while it has a blank line. Each block
shortens the buffer, so its length is fuel enough.
-/
def drain : ℕ → Text → Text × List (Text × Text)
  | 0, buf => (buf, [])
  | fuel + 1, buf =>
      match Delimiters.takeBlock (· == '\n') buf with
      | none => (buf, [])
      | some (block, rest) =>
          let (buf, later) := drain fuel rest
          (buf, (parseBlock block).toList ++ later)

/-- `SseParser::push`: the buffer afterwards and the events completed by a chunk. -/
def push (buf : Text) (chunk : List UInt8) : Text × List (Text × Text) :=
  let buf := buf ++ (LossyUtf8.fromUtf8Lossy chunk).filter (· ≠ '\r')
  drain buf.length buf

end SseParser

end DockDoe
