import DockDoe.Model.Texts

/-! HTTP requests and responses, as far as the web layer reads and writes them. -/

namespace DockDoe

abbrev HeaderValue := List UInt8

/-- Header fields in the order received, names in lower case. -/
abbrev HeaderMap := List (Text × HeaderValue)

/-- The first value of a header (`HeaderMap::get`). -/
def HeaderMap.get (headers : HeaderMap) (name : Text) : Option HeaderValue :=
  headers.lookup name

/-- A header value as text, if all of it is visible ASCII or a tab (`HeaderValue::to_str`). -/
def toStr (value : HeaderValue) : Option Text :=
  if value.all (fun b => (32 ≤ b && b < 127) || b == 9) then
    some (value.map (fun b => Char.ofNat b.toNat))
  else
    none

/-- A text as a header value, if no control character but a tab is in it
(`HeaderValue::from_str`).
-/
def toHeaderValue (s : Text) : Option HeaderValue :=
  let value := asBytes s
  if value.all (fun b => (32 ≤ b && b != 127) || b == 9) then some value else none

inductive Method
  | get | head | post
  | other (name : Text)
  deriving DecidableEq

/-- A request: its raw path and query, its headers, and the extension that marks a verified
token.
-/
structure Request where
  method : Method
  path : Text
  query : Option Text
  headers : HeaderMap
  bearerAuthed : Bool

/-- A request as it arrives, without extensions. -/
def Request.incoming (method : Method) (path : Text) (query : Option Text) (headers : HeaderMap)
    : Request :=
  { method, path, query, headers, bearerAuthed := false }

/-- What a response shows. -/
inductive Body
  | empty
  | text (text : Text)
  | actionButtons (host id : Text) (readOnly : Bool)
  | stackActionButtons (host name : Text) (readOnly : Bool)
  | loginShell (failed : Bool)
  | hostIndexPage (hosts : List Text)
  | dashboard (host : Text)
  deriving DecidableEq

/-- A response, with the place it redirects to: by status or, for htmx, by header. -/
structure Response where
  status : ℕ
  body : Body
  location : Option Text
  hxRedirect : Option Text
  deriving DecidableEq

namespace Response

def ok (body : Body) : Response :=
  { status := 200, body, location := none, hxRedirect := none }

/-- A status with a plain text. -/
def plain (status : ℕ) (text : String) : Response :=
  { status, body := .text text.toList, location := none, hxRedirect := none }

/-- `Redirect::to`: 303 See Other. -/
def redirect (location : Text) : Response :=
  { status := 303, body := .empty, location := some location, hxRedirect := none }

end Response

end DockDoe
