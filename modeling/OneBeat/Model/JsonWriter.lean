import OneBeat.Model.Json

/-!
# The canonical writer

The writer of `model/json.cpp`: one byte sequence for each value.  Keys ascend (`rootKeyOrder` is
hoisted to the front of the root), reals have six decimals, an array of numbers stays on one line,
and the text ends in one newline.
-/

namespace OneBeat.Json

/-- What `formatReal` prints into; a longer text would be read past the end of the array. -/
def formatBufferSize : ℕ := 64

/-- `snprintf`'s `%.6f`. -/
def printReal : Double → List Char
  | .finite q => fixedPoint 6 q
  | .infinite negative => (if negative then ['-'] else []) ++ "inf".toList
  | .nan => "nan".toList

/-- A real with six decimals.  `snprintf` keeps what fits into the buffer and its terminator; a
longer text is copied out with its full length all the same, and what lies behind the buffer has
no definite value, so here the text ends with the terminator. -/
def formatReal (value : Double) : List Char :=
  let text := printReal value
  let text := if text.length < formatBufferSize then text
    else text.take (formatBufferSize - 1) ++ ['\x00']
  if text = "-0.000000".toList then "0.000000".toList else text

/-- A hexadecimal digit in lower case. -/
def hexDigitChar (n : ℕ) : Char := Nat.digitChar n

/-- A character of a string: only what JSON requires is escaped. -/
def escapeChar (c : Char) : List Char :=
  if c = '"' then ['\\', '"']
  else if c = '\\' then ['\\', '\\']
  else if c.toNat < 0x20 then
    ['\\', 'u', '0', '0', hexDigitChar (c.toNat / 16), hexDigitChar (c.toNat % 16)]
  else [c]

/-- A string in quotes. -/
def escapeString (text : String) : List Char :=
  '"' :: (text.toList.flatMap escapeChar ++ ['"'])

/-- Numbers, and at most one object, at the end and not alone. -/
def isOneLineArray (items : List Value) : Bool :=
  (items.head?.any Value.isNumber) &&
    (items.dropLast.all Value.isNumber) &&
    (items.getLast?.any fun last => last.isNumber || last.asObject.isSome)

def indent (depth : ℕ) : List Char := List.replicate (2 * depth) ' '

/-- The members of the root: those named first, then the others. -/
def hoist (order : List String) (members : Object) : Object :=
  order.filterMap (fun key => (Entries.get? members key).map fun value => (key, value)) ++
    members.filter fun entry => entry.1 ∉ order

/-- A value without children; a real that is not finite is spelled `null`. -/
def writeScalar : Value → List Char
  | .bool b => if b then "true".toList else "false".toList
  | .int n => decimalInt n
  | .real d => if d.isFinite then formatReal d else "null".toList
  | .string text => escapeString text
  | _ => "null".toList

/-- Glue spelled elements together. -/
def separated (separator : List Char) : List (List Char) → List Char
  | [] => []
  | [text] => text
  | text :: texts => text ++ separator ++ separated separator texts

mutual

/-- Everything on one line, keys sorted. -/
def writeInline : Value → List Char
  | .object members => '{' :: (separated ", ".toList (writeInlineMembers members) ++ ['}'])
  | .array items => '[' :: (separated ", ".toList (writeInlineItems items) ++ [']'])
  | value => writeScalar value

def writeInlineMembers : Object → List (List Char)
  | [] => []
  | (key, value) :: members =>
    (escapeString key ++ ": ".toList ++ writeInline value) :: writeInlineMembers members

def writeInlineItems : List Value → List (List Char)
  | [] => []
  | item :: items => writeInline item :: writeInlineItems items

end

/-- The spelled elements of a bracket, one on a line. -/
def block (depth : ℕ) (lines : List (List Char)) : List Char :=
  '\n' :: (separated ",\n".toList (lines.map (indent (depth + 1) ++ ·)) ++ '\n' :: indent depth)

mutual

def writeValue (depth : ℕ) : Value → List Char
  | .array [] => "[]".toList
  | .array items =>
    if isOneLineArray items then '[' :: (separated ", ".toList (writeInlineItems items) ++ [']'])
    else '[' :: (block depth (writeItems (depth + 1) items) ++ [']'])
  | .object [] => "{}".toList
  | .object members => '{' :: (block depth (writeMembers (depth + 1) members) ++ ['}'])
  | value => writeScalar value

def writeMembers (depth : ℕ) : Object → List (List Char)
  | [] => []
  | (key, value) :: members =>
    (escapeString key ++ ": ".toList ++ writeValue depth value) :: writeMembers depth members

def writeItems (depth : ℕ) : List Value → List (List Char)
  | [] => []
  | item :: items => writeValue depth item :: writeItems depth items

end

mutual

/-- Every real is finite: what the writer finds out on its way. -/
def Value.isFinite : Value → Bool
  | .real d => d.isFinite
  | .array items => Value.areFinite items
  | .object members => Value.membersFinite members
  | _ => true

def Value.areFinite : List Value → Bool
  | [] => true
  | item :: items => item.isFinite && Value.areFinite items

def Value.membersFinite : Object → Bool
  | [] => true
  | (_, value) :: members => value.isFinite && Value.membersFinite members

end

/-- The root as it is written. -/
def hoistRoot (order : List String) : Value → Value
  | .object members => .object (hoist order members)
  | value => value

/-- The text of a document; nothing when a number is not finite. -/
def writeCanonical (root : Value) (rootKeyOrder : List String := []) : Option (List Char) :=
  if root.isFinite then some (writeValue 0 (hoistRoot rootKeyOrder root) ++ ['\n']) else none

end OneBeat.Json
