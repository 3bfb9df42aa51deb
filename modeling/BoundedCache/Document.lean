/-!
# Documents

A document is a JSON value: the form in which configurations and statistics are
kept outside of the program.  This module has the value, its text and the reader
of that text.

Numbers need care.  A number written as digits alone, perhaps with a minus sign,
is an integer and is kept exactly, however long.  Every other number, and the
negative zero, is kept as it is written: nothing that is decoded here accepts one.

The fields of an object are kept as they stand in the text, with every field that is
written twice.  What such an object means is for the reader of records to say.
-/

namespace BoundedCache

/-- A JSON value.  The fields of an object are kept in the order in which they are
written. -/
inductive Document where
  | null
  | bool (value : Bool)
  | integer (value : Int)
  /-- A number with a fraction, an exponent or a signed zero, as written. -/
  | decimal (written : String)
  | string (value : String)
  | array (items : List Document)
  | object (fields : List (String × Document))
  deriving Inhabited

namespace Document

/-- The natural number `n` as a document. -/
def natural (n : Nat) : Document := .integer n

/-- `null`, or the document of a value that is there. -/
def ofOption {α : Type} (f : α → Document) : Option α → Document
  | none => .null
  | some a => f a

/-- The value of a field of an object; `null` counts as absent. -/
def field? (d : Document) (name : String) : Option Document :=
  match d with
  | .object fields =>
      match fields.lookup name with
      | some .null => none
      | value => value
  | _ => none

/-- A field that may be absent, but must decode if it is there. -/
def optional? {α : Type} (d : Document) (name : String) (decode : Document → Option α) :
    Option (Option α) :=
  match d.field? name with
  | none => some none
  | some value => (decode value).map some

/-! ## Writing -/

/-- A character within a string.  The control characters that have a short escape are
written with it. -/
def escapeChar (c : Char) : List Char :=
  match c with
  | '"' => ['\\', '"']
  | '\\' => ['\\', '\\']
  | '\x08' => ['\\', 'b']
  | '\x0c' => ['\\', 'f']
  | '\n' => ['\\', 'n']
  | '\r' => ['\\', 'r']
  | '\t' => ['\\', 't']
  | c =>
      if c.toNat < 0x20 then
        ['\\', 'u', '0', '0', Nat.digitChar (c.toNat / 16), Nat.digitChar (c.toNat % 16)]
      else [c]

/-- A string between its quotes. -/
def writeString (s : String) : List Char := '"' :: s.toList.flatMap escapeChar ++ ['"']

mutual

/-- The text of a document, without any blank. -/
def write : Document → List Char
  | .null => "null".toList
  | .bool true => "true".toList
  | .bool false => "false".toList
  | .integer n => (toString n).toList
  | .decimal written => written.toList
  | .string s => writeString s
  | .array items => '[' :: writeItems items
  | .object fields => '\x7b' :: writeFields fields

/-- The items of an array with the closing bracket. -/
def writeItems : List Document → List Char
  | [] => [']']
  | [d] => write d ++ [']']
  | d :: ds => write d ++ ',' :: writeItems ds

/-- The fields of an object with the closing brace. -/
def writeFields : List (String × Document) → List Char
  | [] => ['\x7d']
  | [(name, d)] => writeString name ++ ':' :: write d ++ ['\x7d']
  | (name, d) :: fields => writeString name ++ ':' :: write d ++ ',' :: writeFields fields

end

/-- The text of a document. -/
def render (d : Document) : String := String.ofList d.write

/-! ## Reading -/

/-- The characters that may stand between the parts of a document. -/
def isBlank (c : Char) : Bool := c = ' ' || c = '\t' || c = '\n' || c = '\r'

/-- The text from its first character that is not blank. -/
def skip (cs : List Char) : List Char := cs.dropWhile isBlank

/-- The value of a hexadecimal digit. -/
def hexDigit? (c : Char) : Option Nat :=
  if '0' ≤ c ∧ c ≤ '9' then some (c.toNat - '0'.toNat)
  else if 'a' ≤ c ∧ c ≤ 'f' then some (c.toNat - 'a'.toNat + 10)
  else if 'A' ≤ c ∧ c ≤ 'F' then some (c.toNat - 'A'.toNat + 10)
  else none

/-- Four hexadecimal digits. -/
def hexUnit? : List Char → Option (Nat × List Char)
  | a :: b :: c :: d :: rest => do
      let a ← hexDigit? a
      let b ← hexDigit? b
      let c ← hexDigit? c
      let d ← hexDigit? d
      return (((a * 16 + b) * 16 + c) * 16 + d, rest)
  | _ => none

/-- The character after an escaping backslash and `u`: one unit, or two that form a
pair. -/
def escaped? (cs : List Char) : Option (Char × List Char) := do
  let (unit, rest) ← hexUnit? cs
  if 0xd800 ≤ unit ∧ unit < 0xdc00 then
    match rest with
    | '\\' :: 'u' :: rest =>
        let (low, rest) ← hexUnit? rest
        if 0xdc00 ≤ low ∧ low < 0xe000 then
          return (Char.ofNat (0x10000 + (unit - 0xd800) * 0x400 + (low - 0xdc00)), rest)
        else none
    | _ => none
  else if 0xdc00 ≤ unit ∧ unit < 0xe000 then none
  else return (Char.ofNat unit, rest)

/-- The characters of a string up to its closing quote. -/
def readChars : Nat → List Char → Option (List Char × List Char)
  | 0, _ => none
  | fuel + 1, cs =>
      match cs with
      | [] => none
      | '"' :: rest => some ([], rest)
      | '\\' :: 'u' :: rest => do
          let (c, rest) ← escaped? rest
          let (tail, rest) ← readChars fuel rest
          return (c :: tail, rest)
      | '\\' :: e :: rest => do
          let c ← match e with
            | '"' => some '"'
            | '\\' => some '\\'
            | '/' => some '/'
            | 'b' => some '\x08'
            | 'f' => some '\x0c'
            | 'n' => some '\n'
            | 'r' => some '\r'
            | 't' => some '\t'
            | _ => none
          let (tail, rest) ← readChars fuel rest
          return (c :: tail, rest)
      | c :: rest =>
          if c.toNat < 0x20 ∨ c = '\\' then none
          else do
            let (tail, rest) ← readChars fuel rest
            return (c :: tail, rest)

/-- A string after its opening quote. -/
def readString (cs : List Char) : Option (String × List Char) := do
  let (body, rest) ← readChars (cs.length + 1) cs
  return (String.ofList body, rest)

/-- The characters that numbers are made of. -/
def isNumeric (c : Char) : Bool :=
  c.isDigit || c = '-' || c = '+' || c = '.' || c = 'e' || c = 'E'

/-- The number that decimal digits stand for. -/
def ofDigits (digits : List Char) : Nat :=
  digits.foldl (fun n c => n * 10 + (c.toNat - '0'.toNat)) 0

/-- At least one digit, and nothing else. -/
def isDigits (cs : List Char) : Bool := !cs.isEmpty && cs.all Char.isDigit

/-- Digits without a zero in front of others. -/
def isWhole (digits : List Char) : Bool :=
  isDigits digits && (digits == ['0'] || digits.head? != some '0')

/-- An exponent, with or without a sign. -/
def isExponent : List Char → Bool
  | 'e' :: cs | 'E' :: cs =>
      match cs with
      | '+' :: digits | '-' :: digits => isDigits digits
      | digits => isDigits digits
  | _ => false

/-- What may follow the whole part of a number: a fraction, an exponent, both or nothing. -/
def isRemainder : List Char → Bool
  | [] => true
  | '.' :: cs =>
      let rest := cs.dropWhile Char.isDigit
      !(cs.takeWhile Char.isDigit).isEmpty && (rest.isEmpty || isExponent rest)
  | cs => isExponent cs

/-- A number without its sign. -/
def unsigned : List Char → List Char
  | '-' :: cs => cs
  | cs => cs

/-- The number that a text stands for: an integer if it is written as one. -/
def readNumber (written : List Char) : Option Document :=
  let whole := (unsigned written).takeWhile Char.isDigit
  if isWhole whole && isRemainder ((unsigned written).dropWhile Char.isDigit) then
    if written = whole then some (.integer (ofDigits whole))
    else if unsigned written = whole ∧ whole ≠ ['0'] then some (.integer (-(ofDigits whole : Int)))
    else some (.decimal (String.ofList written))
  else none

/-- How deep arrays and objects may stand within each other in a text. -/
def depthLimit : Nat := 127

mutual

/-- A document at the start of the text, and what follows it; `depth` levels of arrays and
objects are left. -/
def readValue : Nat → Nat → List Char → Option (Document × List Char)
  | 0, _, _ => none
  | fuel + 1, depth, cs =>
      match skip cs with
      | 'n' :: 'u' :: 'l' :: 'l' :: rest => some (.null, rest)
      | 't' :: 'r' :: 'u' :: 'e' :: rest => some (.bool true, rest)
      | 'f' :: 'a' :: 'l' :: 's' :: 'e' :: rest => some (.bool false, rest)
      | '"' :: rest => do
          let (s, rest) ← readString rest
          return (.string s, rest)
      | '[' :: rest =>
          match depth, skip rest with
          | 0, _ => none
          | _ + 1, ']' :: rest => some (.array [], rest)
          | depth + 1, rest => do
              let (items, rest) ← readItems fuel depth rest
              return (.array items, rest)
      | '\x7b' :: rest =>
          match depth, skip rest with
          | 0, _ => none
          | _ + 1, '\x7d' :: rest => some (.object [], rest)
          | depth + 1, rest => do
              let (fields, rest) ← readFields fuel depth rest
              return (.object fields, rest)
      | rest => do
          let d ← readNumber (rest.takeWhile isNumeric)
          return (d, rest.dropWhile isNumeric)

/-- The items of an array from the first one on. -/
def readItems : Nat → Nat → List Char → Option (List Document × List Char)
  | 0, _, _ => none
  | fuel + 1, depth, cs => do
      let (d, rest) ← readValue fuel depth cs
      match skip rest with
      | ',' :: rest =>
          let (ds, rest) ← readItems fuel depth rest
          return (d :: ds, rest)
      | ']' :: rest => return ([d], rest)
      | _ => none

/-- The fields of an object from the first one on. -/
def readFields : Nat → Nat → List Char → Option (List (String × Document) × List Char)
  | 0, _, _ => none
  | fuel + 1, depth, cs =>
      match skip cs with
      | '"' :: rest => do
          let (name, rest) ← readString rest
          match skip rest with
          | ':' :: rest =>
              let (d, rest) ← readValue fuel depth rest
              match skip rest with
              | ',' :: rest =>
                  let (fields, rest) ← readFields fuel depth rest
                  return ((name, d) :: fields, rest)
              | '\x7d' :: rest => return ([(name, d)], rest)
              | _ => none
          | _ => none
      | _ => none

end

/-- The document that a text holds, if it holds one and nothing else. -/
def parse? (s : String) : Option Document :=
  match readValue (s.length + 1) depthLimit s.toList with
  | some (d, rest) => if (skip rest).isEmpty then some d else none
  | none => none

/-! ## Decoding -/

/-- An integer of 64 bits without sign. -/
def toWord? : Document → Option UInt64
  | .integer n => if 0 ≤ n ∧ n < UInt64.size then some n.toNat.toUInt64 else none
  | _ => none

/-- The same, or `null` for none. -/
def toOptionalWord? : Document → Option (Option UInt64)
  | .null => some none
  | d => d.toWord?.map some

/-- A string. -/
def toText? : Document → Option String
  | .string s => some s
  | _ => none

/-- A natural number. -/
def toNat? : Document → Option Nat
  | .integer n => if 0 ≤ n then some n.toNat else none
  | _ => none

/-- A truth value. -/
def toBool? : Document → Option Bool
  | .bool b => some b
  | _ => none

/-- The items of an array. -/
def toList? : Document → Option (List Document)
  | .array items => some items
  | _ => none

/-- Strings in an array. -/
def toTexts? (d : Document) : Option (List String) := do (← d.toList?).mapM toText?

/-- Any value, or `null` for none. -/
def orNull? {α : Type} (decode : Document → Option α) : Document → Option (Option α)
  | .null => some none
  | d => (decode d).map some

/-- A natural number that may be missing, as a document. -/
def ofOptionalNat : Option Nat → Document := ofOption natural

/-- A string that may be missing, as a document. -/
def ofOptionalText : Option String → Document := ofOption .string

/-- Strings as a document. -/
def ofTexts (items : List String) : Document := .array (items.map .string)

/-- A word as a document. -/
def ofWord (n : UInt64) : Document := .natural n.toNat

/-- A word that may be missing as a document. -/
def ofOptionalWord : Option UInt64 → Document := ofOption ofWord

end Document

end BoundedCache
