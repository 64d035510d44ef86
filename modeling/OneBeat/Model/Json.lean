import Mathlib.Data.String.Basic
import OneBeat.Lib.Decimal
import OneBeat.Lib.OrderedMap

/-!
# JSON values and the parser

`model/json.h` and the parser of `model/json.cpp`.  A text is a list of characters, one for each
byte of the file.  An object is the list of its members; the parser puts every member in its
sorted place, as the `std::map` of the source does.

The parser carries fuel for its two loops (values nest, members and elements follow each other).
`parse` starts it with twice the length of the text, which is always enough
(`progress_parseValue`).  A failure has the line and the column the parser had reached; the first
one is the one that is reported.
-/

namespace OneBeat.Json

/-- A JSON value.  Integers and reals are told apart by how the number was written. -/
inductive Value
  | null
  | bool (value : Bool)
  | int (value : ℤ)
  | real (value : Double)
  | string (value : String)
  | array (items : List Value)
  | object (members : List (String × Value))
  deriving Inhabited

/-- The members of an object, in ascending order of their keys. -/
abbrev Object := List (String × Value)

namespace Value

def isNumber : Value → Bool
  | .int _ | .real _ => true
  | _ => false

def isBool : Value → Bool
  | .bool _ => true
  | _ => false

def asBool : Value → Bool
  | .bool b => b
  | _ => false

/-- The integer of a number; a real counts when it is one and fits. -/
def asInt (value : Value) (fallback : ℤ := 0) : ℤ :=
  match value with
  | .int n => n
  | .real (.finite q) =>
    if q.den = 1 ∧ -9200000000000000000 ≤ q.num ∧ q.num ≤ 9200000000000000000 then q.num
    else fallback
  | _ => fallback

def asDouble (value : Value) (fallback : Double := 0) : Double :=
  match value with
  | .real d => d
  | .int n => Double.ofInt n
  | _ => fallback

def asString : Value → Option String
  | .string s => some s
  | _ => none

def asArray : Value → Option (List Value)
  | .array items => some items
  | _ => none

def asObject : Value → Option Object
  | .object members => some members
  | _ => none

/-- The member of an object. -/
def find (value : Value) (key : String) : Option Value :=
  value.asObject.bind fun members => Entries.get? members key

end Value

/-- Where a text stops being JSON, and why. -/
structure ParseError where
  line : ℕ := 0
  column : ℕ := 0
  message : String := ""
  deriving DecidableEq

def ParseError.describe (error : ParseError) : String :=
  "line " ++ toString error.line ++ ", column " ++ toString error.column ++ ": " ++ error.message

/-- How deep a value may nest. -/
def maxDepth : ℕ := 64

/-- What is left of the text, and the position an editor would show. -/
structure Cursor where
  rest : List Char
  line : ℕ := 1
  column : ℕ := 1

namespace Cursor

/-- Go past `count` characters. -/
def advance : ℕ → Cursor → Cursor
  | 0, cursor => cursor
  | count + 1, ⟨[], line, column⟩ => advance count ⟨[], line, column⟩
  | count + 1, ⟨c :: rest, line, column⟩ =>
    if c = '\n' then advance count ⟨rest, line + 1, 1⟩ else advance count ⟨rest, line, column + 1⟩

def isWhitespace (c : Char) : Bool := c = ' ' || c = '\t' || c = '\n' || c = '\r'

/-- Go past spaces, tabs and line ends. -/
def skipWhitespace (cursor : Cursor) : Cursor :=
  cursor.advance (cursor.rest.takeWhile isWhitespace).length

/-- Give up here. -/
def fail {α : Type} (cursor : Cursor) (message : String) : Except ParseError α :=
  .error ⟨cursor.line, cursor.column, message⟩

@[simp] theorem rest_advance (count : ℕ) (cursor : Cursor) :
    (cursor.advance count).rest = cursor.rest.drop count := by
  induction count generalizing cursor with
  | zero => rfl
  | succ count ih =>
    obtain ⟨rest, line, column⟩ := cursor
    cases rest with
    | nil => simp [advance, ih]
    | cons c rest =>
      unfold advance
      split_ifs <;> simp [ih]

@[simp] theorem rest_skipWhitespace (cursor : Cursor) :
    cursor.skipWhitespace.rest = cursor.rest.dropWhile isWhitespace := by
  rw [skipWhitespace, rest_advance]
  generalize cursor.rest = text
  induction text with
  | nil => rfl
  | cons c text ih =>
    cases hc : isWhitespace c
    · simp [hc]
    · simp [hc, ih]

end Cursor

/-- A step that succeeded goes on with its result. -/
@[simp] theorem ok_bind {α β : Type} (a : α) (f : α → Except ParseError β) :
    (Except.ok a >>= f) = f a := rfl

/-! ### Strings -/

/-- The value of a hexadecimal digit. -/
def hexDigit (c : Char) : Option ℕ :=
  if isDigit c then some (c.toNat - '0'.toNat)
  else if 'a' ≤ c ∧ c ≤ 'f' then some (c.toNat - 'a'.toNat + 10)
  else if 'A' ≤ c ∧ c ≤ 'F' then some (c.toNat - 'A'.toNat + 10)
  else none

/-- The four digits after `\u`. -/
def parseHex4 (cursor : Cursor) : Except ParseError (ℕ × Cursor) :=
  if cursor.rest.length < 4 then cursor.fail "truncated \\u escape"
  else
    match (cursor.rest.take 4).mapM hexDigit with
    | none => cursor.fail "bad hex digit in \\u escape"
    | some digits => .ok (digits.foldl (fun code digit => code * 16 + digit) 0, cursor.advance 4)

/-- A code point in UTF-8, byte by byte. -/
def appendUtf8 (code : ℕ) : List Char :=
  if code < 0x80 then [Char.ofNat code]
  else if code < 0x800 then
    [Char.ofNat (0xC0 + code / 2 ^ 6), Char.ofNat (0x80 + code % 2 ^ 6)]
  else if code < 0x10000 then
    [Char.ofNat (0xE0 + code / 2 ^ 12), Char.ofNat (0x80 + code / 2 ^ 6 % 2 ^ 6),
      Char.ofNat (0x80 + code % 2 ^ 6)]
  else
    [Char.ofNat (0xF0 + code / 2 ^ 18), Char.ofNat (0x80 + code / 2 ^ 12 % 2 ^ 6),
      Char.ofNat (0x80 + code / 2 ^ 6 % 2 ^ 6), Char.ofNat (0x80 + code % 2 ^ 6)]

/-- What `\u` stands for: the escape is UTF-16, and a high surrogate that is not followed by a low
one is left alone.  Going back to it does not take the column back. -/
def parseUnicode (cursor : Cursor) : Except ParseError (List Char × Cursor) := do
  let (code, cursor) ← parseHex4 cursor
  if 0xD800 ≤ code ∧ code ≤ 0xDBFF ∧ cursor.rest.take 2 = ['\\', 'u'] then
    let (low, ahead) ← parseHex4 (cursor.advance 2)
    if 0xDC00 ≤ low ∧ low ≤ 0xDFFF then
      pure (appendUtf8 (0x10000 + (code - 0xD800) * 2 ^ 10 + (low - 0xDC00)), ahead)
    else pure (appendUtf8 code, { ahead with rest := cursor.rest })
  else pure (appendUtf8 code, cursor)

/-- What a backslash and `escape` stand for; the cursor is after both. -/
def parseEscape (escape : Char) (cursor : Cursor) : Except ParseError (List Char × Cursor) :=
  match escape with
  | '"' => .ok (['"'], cursor)
  | '\\' => .ok (['\\'], cursor)
  | '/' => .ok (['/'], cursor)
  | 'b' => .ok (['\x08'], cursor)
  | 'f' => .ok (['\x0c'], cursor)
  | 'n' => .ok (['\n'], cursor)
  | 'r' => .ok (['\r'], cursor)
  | 't' => .ok (['\t'], cursor)
  | 'u' => parseUnicode cursor
  | _ => cursor.fail "unrecognised escape"

/-- The characters of a string up to the closing quote, which is consumed. -/
def parseCharacters : ℕ → Cursor → Except ParseError (List Char × Cursor)
  | 0, cursor => cursor.fail ""
  | fuel + 1, cursor =>
    match cursor.rest with
    | [] => cursor.fail "unterminated string"
    | c :: rest =>
      if c = '"' then .ok ([], cursor.advance 1)
      else if c = '\\' then
        match rest with
        | [] => (cursor.advance 1).fail "unterminated escape"
        | escape :: _ => do
          let (characters, cursor) ← parseEscape escape (cursor.advance 2)
          let (tail, cursor) ← parseCharacters fuel cursor
          pure (characters ++ tail, cursor)
      else if c.toNat < 0x20 then cursor.fail "control character in string"
      else do
        let (tail, cursor) ← parseCharacters fuel (cursor.advance 1)
        pure (c :: tail, cursor)

/-- A string; the cursor is at the opening quote. -/
def parseString (cursor : Cursor) : Except ParseError (String × Cursor) := do
  let (characters, cursor) ← parseCharacters cursor.rest.length (cursor.advance 1)
  pure (String.ofList characters, cursor)

/-! ### Numbers -/

/-- The range of `int64_t`. -/
def isInt64 (n : ℤ) : Bool := -2 ^ 63 ≤ n && n < 2 ^ 63

/-- A number is an integer when it is written as one and fits, otherwise the nearest double. -/
def parseNumber (cursor : Cursor) : Except ParseError (Value × Cursor) :=
  let (numeral, rest) := scanNumeral cursor.rest
  let cursor := cursor.advance (cursor.rest.length - rest.length)
  if numeral.blank then cursor.fail "expected a value"
  else if numeral.integral && isInt64 numeral.toInt then .ok (.int numeral.toInt, cursor)
  else if numeral.wellFormed then .ok (.real (BinaryFormat.double.ofRat numeral.value), cursor)
  else cursor.fail "malformed number"

/-! ### Values -/

/-- One of the three words. -/
def parseLiteral (word : String) (value : Value) (cursor : Cursor) :
    Except ParseError (Value × Cursor) :=
  if cursor.rest.take word.toList.length ≠ word.toList then cursor.fail "unrecognised token"
  else .ok (value, cursor.advance word.toList.length)

mutual

/-- A value at `depth`. -/
def parseValue : ℕ → ℕ → Cursor → Except ParseError (Value × Cursor)
  | 0, _, cursor => cursor.fail ""
  | fuel + 1, depth, cursor =>
    if maxDepth < depth then cursor.fail "nesting too deep"
    else
      match cursor.rest with
      | [] => cursor.fail "unexpected end of input"
      | '{' :: _ =>
        let cursor := (cursor.advance 1).skipWhitespace
        match cursor.rest with
        | '}' :: _ => .ok (.object [], cursor.advance 1)
        | _ => do
          let (members, cursor) ← parseMembers fuel depth cursor []
          pure (.object members, cursor)
      | '[' :: _ =>
        let cursor := (cursor.advance 1).skipWhitespace
        match cursor.rest with
        | ']' :: _ => .ok (.array [], cursor.advance 1)
        | _ => do
          let (items, cursor) ← parseElements fuel depth cursor
          pure (.array items, cursor)
      | '"' :: _ => do
        let (text, cursor) ← parseString cursor
        pure (.string text, cursor)
      | 't' :: _ => parseLiteral "true" (.bool true) cursor
      | 'f' :: _ => parseLiteral "false" (.bool false) cursor
      | 'n' :: _ => parseLiteral "null" .null cursor
      | _ => parseNumber cursor

/-- The members of an object up to the closing brace; the last of two equal keys wins. -/
def parseMembers : ℕ → ℕ → Cursor → Object → Except ParseError (Object × Cursor)
  | 0, _, cursor, _ => cursor.fail ""
  | fuel + 1, depth, cursor, object =>
    let cursor := cursor.skipWhitespace
    match cursor.rest with
    | '"' :: _ => do
      let (key, cursor) ← parseString cursor
      let cursor := cursor.skipWhitespace
      match cursor.rest with
      | ':' :: _ => do
        let (value, cursor) ← parseValue fuel (depth + 1) (cursor.advance 1).skipWhitespace
        let object := Entries.assign object key value
        let cursor := cursor.skipWhitespace
        match cursor.rest with
        | [] => cursor.fail "unterminated object"
        | ',' :: _ => parseMembers fuel depth (cursor.advance 1) object
        | '}' :: _ => .ok (object, cursor.advance 1)
        | _ => cursor.fail "expected ',' or '\x7d'"
      | _ => cursor.fail "expected ':' after key"
    | _ => cursor.fail "expected a key"

/-- The elements of an array up to the closing bracket. -/
def parseElements : ℕ → ℕ → Cursor → Except ParseError (List Value × Cursor)
  | 0, _, cursor => cursor.fail ""
  | fuel + 1, depth, cursor => do
    let (value, cursor) ← parseValue fuel (depth + 1) cursor.skipWhitespace
    let cursor := cursor.skipWhitespace
    match cursor.rest with
    | [] => cursor.fail "unterminated array"
    | ',' :: _ => do
      let (items, cursor) ← parseElements fuel depth (cursor.advance 1)
      pure (value :: items, cursor)
    | ']' :: _ => .ok ([value], cursor.advance 1)
    | _ => cursor.fail "expected ',' or ']'"

end

/-- Drop the byte order mark. -/
def dropByteOrderMark (text : List Char) : List Char :=
  if text.take 3 = ['\u00ef', '\u00bb', '\u00bf'] then text.drop 3 else text

/-- Fuel for a text: a step of a loop and a value in it, for each character. -/
def fuelFor (text : List Char) : ℕ := 2 * text.length + 2

/-- The parser proper: one value, and nothing after it. -/
def runParser (text : List Char) : Except ParseError Value := do
  let (value, cursor) ← parseValue (fuelFor text) 0 (Cursor.skipWhitespace ⟨text, 1, 1⟩)
  let cursor := cursor.skipWhitespace
  match cursor.rest with
  | [] => pure value
  | _ => cursor.fail "unexpected trailing content"

/-- Parse a document. -/
def parse (text : List Char) : Except ParseError Value :=
  match runParser (dropByteOrderMark text) with
  | .error error =>
    .error (if error.message.isEmpty then { error with message := "malformed JSON" } else error)
  | .ok value => .ok value

end OneBeat.Json
