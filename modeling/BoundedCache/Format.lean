import BoundedCache.Document

/-!
# Formats

How a text becomes a document, and what a document gives for the fields of a record, for one of
several named choices, or for a word, is not decided here: a serializer has rules for that, the same
for every record.  A `Format` is such a serializer.  What a program says is which fields a record
has, in which order and with which defaults, and what its choices are called; its decoders are
written over a format.

`Format.standard` is the one that runs.  A record is an object, in which unknown fields are ignored
and no field of the record may be written twice, or an array of its values in their order.  A choice
is an object with one field, named for what is chosen.
-/

namespace BoundedCache

/-- A serializer: its texts, and its rules for the parts that documents are decoded to. -/
structure Format where
  /-- The document that a text holds. -/
  read : String → Option Document
  /-- The text of a document. -/
  write : Document → String
  /-- What a document gives for each field of a record.  The flag says whether an array may stop
  early, which it may if the record has defaults. -/
  record? : Bool → List String → Document → Option (List (Option Document))
  /-- Which one of several named choices a document makes, and what it holds for it. -/
  choice? : List String → Document → Option (String × Document)
  /-- An integer of 64 bits without sign. -/
  word? : Document → Option UInt64
  /-- The same, or nothing. -/
  optionalWord? : Document → Option (Option UInt64)
  /-- A string. -/
  text? : Document → Option String

namespace Format

/-- What a text holds, decoded. -/
def decode? {α : Type} (F : Format) (ofDocument? : Document → Option α) (text : String) :
    Option α :=
  (F.read text).bind ofDocument?

/-- A field that is given must decode; one that is missing takes its default. -/
def fieldOr {α : Type} (decode : Document → Option α) (default : α) : Option Document → Option α
  | none => some default
  | some d => decode d

/-! ## The format that runs -/

/-- The fields of an object; none of those asked for may be written twice. -/
def recordOfFields? (names : List String) (fields : List (String × Document)) :
    Option (List (Option Document)) :=
  if ((fields.map Prod.fst).filter (· ∈ names)).Nodup then
    some (names.map fun name => fields.lookup name)
  else none

/-- The values of an array, in the order of the fields. -/
def recordOfItems? (short : Bool) (names : List String) (items : List Document) :
    Option (List (Option Document)) :=
  if items.length = names.length ∨ short = true ∧ items.length ≤ names.length then
    some (items.map some ++ List.replicate (names.length - items.length) none)
  else none

/-- A record is an object or an array. -/
def standardRecord? (short : Bool) (names : List String) :
    Document → Option (List (Option Document))
  | .object fields => recordOfFields? names fields
  | .array items => recordOfItems? short names items
  | _ => none

/-- A choice is an object with one field. -/
def standardChoice? (names : List String) : Document → Option (String × Document)
  | .object [(name, d)] => if name ∈ names then some (name, d) else none
  | _ => none

/-- The texts of documents, and the rules for records and choices in them. -/
def standard : Format where
  read := Document.parse?
  write := Document.render
  record? := standardRecord?
  choice? := standardChoice?
  word? := Document.toWord?
  optionalWord? := Document.toOptionalWord?
  text? := Document.toText?

end Format

end BoundedCache
