import DockDoe.Foundations.Numerals

/-! JSON: values, their compact texts for a way of escaping characters, and how texts are
read.
-/

namespace Json

open Numerals

-----------------------------------------------------------------------------------------
-- Numbers
-----------------------------------------------------------------------------------------

def isDigits (s : List Char) : Bool :=
  !s.isEmpty && s.all Char.isDigit

/-- The exponent of a number, or nothing. -/
def isExponent : List Char → Bool
  | [] => true
  | [_] => false
  | e :: sign :: rest =>
      (e == 'e' || e == 'E')
      && if sign == '+' || sign == '-' then isDigits rest else isDigits (sign :: rest)

/-- The fraction of a number and its exponent, or nothing. -/
def isFraction (s : List Char) : Bool :=
  if s.head? = some '.' then
    isDigits (s.tail.takeWhile Char.isDigit) && isExponent (s.tail.dropWhile Char.isDigit)
  else
    isExponent s

/-- A number without a sign; only a lone zero may lead. -/
def isUnsigned : List Char → Bool
  | [] => false
  | c :: rest =>
      if c = '0' then isFraction rest
      else c.isDigit && isFraction (rest.dropWhile Char.isDigit)

def isNumber (s : List Char) : Bool :=
  if s.head? = some '-' then isUnsigned s.tail else isUnsigned s

/-- A number as it is written. -/
structure Literal where
  text : List Char
  valid : isNumber text = true

/-- A character that numbers are written with. -/
def isNumberChar (c : Char) : Bool :=
  c.isDigit || c == '-' || c == '+' || c == '.' || c == 'e' || c == 'E'

-----------------------------------------------------------------------------------------
-- Values and their texts
-----------------------------------------------------------------------------------------

inductive Value
  | null
  | bool (b : Bool)
  | number (literal : Literal)
  | string (s : List Char)
  | array (items : List Value)
  | object (members : List (List Char × Value))

/-- A string in quotes. -/
def quoted (escape : Char → List Char) (s : List Char) : List Char :=
  '"' :: (s.flatMap escape ++ ['"'])

mutual

/-- The compact text of a value. -/
def Value.text (escape : Char → List Char) : Value → List Char
  | .null => "null".toList
  | .bool true => "true".toList
  | .bool false => "false".toList
  | .number literal => literal.text
  | .string s => quoted escape s
  | .array [] => "[]".toList
  | .array (first :: rest) => '[' :: (first.text escape ++ itemsText escape rest)
  | .object [] => "{}".toList
  | .object ((key, first) :: rest) =>
      '{' :: (quoted escape key ++ ':' :: (first.text escape ++ membersText escape rest))

/-- The items of an array behind the first, and its end. -/
def itemsText (escape : Char → List Char) : List Value → List Char
  | [] => [']']
  | item :: rest => ',' :: (item.text escape ++ itemsText escape rest)

/-- The members of an object behind the first, and its end. -/
def membersText (escape : Char → List Char) : List (List Char × Value) → List Char
  | [] => ['}']
  | (key, value) :: rest =>
      ',' :: (quoted escape key ++ ':' :: (value.text escape ++ membersText escape rest))

end

/-- The escapes of the standard that have a letter. -/
def escapeLetter (c : Char) : Option Char :=
  if c = '"' then some '"'
  else if c = '\\' then some '\\'
  else if c = '\x08' then some 'b'
  else if c = '\x0c' then some 'f'
  else if c = '\n' then some 'n'
  else if c = '\r' then some 'r'
  else if c = '\t' then some 't'
  else none

/-- The least escaping: quotes, backslashes and control characters only. -/
def standardEscape (c : Char) : List Char :=
  match escapeLetter c with
  | some letter => ['\\', letter]
  | none =>
      if c.toNat < 0x20 then
        ['\\', 'u', '0', '0', (c.toNat / 16).digitChar, (c.toNat % 16).digitChar]
      else
        [c]

/-- A text with another in place of each occurrence of a character. -/
def replaceAll (old : Char) (new : List Char) (s : List Char) : List Char :=
  s.flatMap (fun c => if c = old then new else [c])

-----------------------------------------------------------------------------------------
-- Reading
-----------------------------------------------------------------------------------------

def isSpace (c : Char) : Bool :=
  c == ' ' || c == '\n' || c == '\r' || c == '\t'

def skipSpace (s : List Char) : List Char :=
  s.dropWhile isSpace

/-- The character that an escape with a letter stands for. -/
def letterMeaning (letter : Char) : Option Char :=
  if letter = '"' then some '"'
  else if letter = '\\' then some '\\'
  else if letter = '/' then some '/'
  else if letter = 'b' then some '\x08'
  else if letter = 'f' then some '\x0c'
  else if letter = 'n' then some '\n'
  else if letter = 'r' then some '\r'
  else if letter = 't' then some '\t'
  else none

/-- Four hexadecimal digits: a unit of UTF-16. -/
def readUnit (s : List Char) : Option (ℕ × List Char) :=
  if s.length < 4 then none else (number 16 (s.take 4)).map (·, s.drop 4)

/-- The second half of a pair of units that stand for one character. -/
def readLowUnit (high : ℕ) (s : List Char) : Option (Char × List Char) :=
  if s.take 2 = ['\\', 'u'] then
    (readUnit (s.drop 2)).bind (fun low =>
      if 0xDC00 ≤ low.1 ∧ low.1 ≤ 0xDFFF then
        some (Char.ofNat (0x10000 + (high - 0xD800) * 0x400 + (low.1 - 0xDC00)), low.2)
      else
        none)
  else
    none

/-- The character of one unit or of a pair of them. -/
def readUnicode (s : List Char) : Option (Char × List Char) :=
  (readUnit s).bind (fun unit =>
    if unit.1 < 0xD800 ∨ 0xDFFF < unit.1 then some (Char.ofNat unit.1, unit.2)
    else if 0xDC00 ≤ unit.1 then none
    else readLowUnit unit.1 unit.2)

/-- One character of a string. -/
def readChar : List Char → Option (Char × List Char)
  | [] => none
  | c :: rest =>
      if c = '\\' then
        match rest with
        | [] => none
        | letter :: after =>
            if letter = 'u' then readUnicode after else (letterMeaning letter).map (·, after)
      else if c = '"' ∨ c.toNat < 0x20 then
        none
      else
        some (c, rest)

/-- The characters of a string up to its closing quote. -/
def readChars : ℕ → List Char → Option (List Char × List Char)
  | 0, _ => none
  | fuel + 1, s =>
      if s.head? = some '"' then
        some ([], s.tail)
      else
        (readChar s).bind (fun c => (readChars fuel c.2).map (fun cs => (c.1 :: cs.1, cs.2)))

/-- What follows the opening quote of a string. -/
def readString (s : List Char) : Option (List Char × List Char) :=
  readChars s.length s

def readNumber (s : List Char) : Option (Literal × List Char) :=
  if valid : isNumber (s.takeWhile isNumberChar) = true then
    some ({ text := s.takeWhile isNumberChar, valid }, s.dropWhile isNumberChar)
  else
    none

/-- A key and its colon, in front of a value. -/
def readKey (s : List Char) : Option (List Char × List Char) :=
  let s := skipSpace s
  if s.head? = some '"' then
    (readString s.tail).bind (fun key =>
      let after := skipSpace key.2
      if after.head? = some ':' then some (key.1, after.tail) else none)
  else
    none

mutual

/-- A value, by its first character. -/
def readValue : ℕ → List Char → Option (Value × List Char)
  | 0, _ => none
  | fuel + 1, s =>
      match skipSpace s with
      | [] => none
      | c :: rest =>
          if c = '"' then
            (readString rest).map (fun s => (.string s.1, s.2))
          else if c = '[' then
            if (skipSpace rest).head? = some ']' then
              some (.array [], (skipSpace rest).tail)
            else
              (readValue fuel rest).bind (fun first =>
                (readItems fuel first.2).map (fun items =>
                  (.array (first.1 :: items.1), items.2)))
          else if c = '{' then
            if (skipSpace rest).head? = some '}' then
              some (.object [], (skipSpace rest).tail)
            else
              (readKey rest).bind (fun key =>
                (readValue fuel key.2).bind (fun first =>
                  (readMembers fuel first.2).map (fun members =>
                    (.object ((key.1, first.1) :: members.1), members.2))))
          else if c = 'n' then
            ("ull".toList.isPrefixOf? rest).map (fun after => (.null, after))
          else if c = 't' then
            ("rue".toList.isPrefixOf? rest).map (fun after => (.bool true, after))
          else if c = 'f' then
            ("alse".toList.isPrefixOf? rest).map (fun after => (.bool false, after))
          else
            (readNumber (c :: rest)).map (fun literal => (.number literal.1, literal.2))

/-- The items of an array behind the first. -/
def readItems : ℕ → List Char → Option (List Value × List Char)
  | 0, _ => none
  | fuel + 1, s =>
      match skipSpace s with
      | [] => none
      | c :: rest =>
          if c = ']' then
            some ([], rest)
          else if c = ',' then
            (readValue fuel rest).bind (fun item =>
              (readItems fuel item.2).map (fun items => (item.1 :: items.1, items.2)))
          else
            none

/-- The members of an object behind the first. -/
def readMembers : ℕ → List Char → Option (List (List Char × Value) × List Char)
  | 0, _ => none
  | fuel + 1, s =>
      match skipSpace s with
      | [] => none
      | c :: rest =>
          if c = '}' then
            some ([], rest)
          else if c = ',' then
            (readKey rest).bind (fun key =>
              (readValue fuel key.2).bind (fun value =>
                (readMembers fuel value.2).map (fun members =>
                  ((key.1, value.1) :: members.1, members.2))))
          else
            none

end

/-- The value of a text that is valid JSON. -/
def parse (s : List Char) : Option Value :=
  (readValue s.length s).bind (fun value =>
    if (skipSpace value.2).isEmpty then some value.1 else none)

end Json
