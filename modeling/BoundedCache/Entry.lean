import BoundedCache.Time
import BoundedCache.Decimal.Shortest
import BoundedCache.Text.Quoted

/-!
# Entries

An entry is a key with its value and what the cache knows about it: when it was
created, last read and last written, when it expires, how often it was read, what
it cost, how large it is, and how many writes it has seen.  Entries are values:
what the cache hands out describes the moment at which it was taken.
-/

namespace BoundedCache

/-- A load cost, by the bits of its double. -/
structure Cost where
  bits : UInt64 := 0
  deriving DecidableEq, Repr, Inhabited

/-- What a writer says about a value. -/
structure Attributes where
  timeout : Option Duration := none
  cost : Cost := {}
  size : Nat := 1
  deriving DecidableEq, Repr, Inhabited

/-- One key with its value. -/
structure Entry (K V : Type) where
  key : K
  value : V
  created : Nat
  accessed : Nat
  updated : Nat
  expires : Option Nat
  /-- How often the entry was read.  This and `version` stand for words of 64 bits and agree with
  them up to `2 ^ 64 - 1`; they grow by one at a time. -/
  hits : Nat
  cost : Cost
  size : Nat
  /-- How many writes the key has seen since it came in. -/
  version : Nat
  deriving DecidableEq, Repr

namespace Entry

variable {K V : Type}

/-- The first entry of a key, written at `now`. -/
def new (key : K) (value : V) (attributes : Attributes) (expires : Option Nat) (now : Nat) :
    Entry K V where
  key := key
  value := value
  created := now
  accessed := now
  updated := now
  expires := expires
  hits := 0
  cost := attributes.cost
  size := attributes.size
  version := 1

/-- The entry after another write at `now`.  Its creation time stays, and no write
is earlier than that. -/
def update (e : Entry K V) (value : V) (attributes : Attributes) (expires : Option Nat)
    (now : Nat) : Entry K V :=
  { e with
    value := value
    updated := max now e.created
    expires := expires
    cost := attributes.cost
    size := attributes.size
    version := e.version + 1 }

/-- The entry with its last access no earlier than `now`. -/
def stamp (e : Entry K V) (now : Nat) : Entry K V := { e with accessed := max now e.accessed }

/-- The entry after a read at `now`. -/
def access (e : Entry K V) (now : Nat) : Entry K V :=
  { e with accessed := max now e.accessed, hits := e.hits + 1 }

end Entry

/-- How a key is shown in messages. -/
class KeyText (K : Type) where
  text : K → String

instance : KeyText String := ⟨Text.quote⟩

/-- A cost is shown by its shortest digits: with a point from a ten-thousandth up
to below `10 ^ 16`, with a power of ten outside of that. -/
def Cost.text (cost : Cost) : String :=
  let sign (negative : Bool) := if negative then "-" else ""
  let digits (ds : List Nat) := String.ofList (ds.map Nat.digitChar)
  match Decimal.Parts.ofBits cost.bits with
  | .nan => "NaN"
  | .infinite negative => sign negative ++ "inf"
  | .zero negative => sign negative ++ "0.0"
  | .finite negative value =>
      let d := Decimal.shortest value
      if d.point < -3 ∨ 16 < d.point then
        let mantissa := match d.digits with
          | [] => "0"
          | [lead] => digits [lead]
          | lead :: rest => digits [lead] ++ "." ++ digits rest
        sign negative ++ mantissa ++ "e" ++ toString (d.point - 1)
      else if d.point ≤ 0 then
        sign negative ++ "0." ++ digits (List.replicate (-d.point).toNat 0 ++ d.digits)
      else
        let whole := d.point.toNat
        let before := d.digits.take whole ++ List.replicate (whole - d.digits.length) 0
        let after := match d.digits.drop whole with
          | [] => [0]
          | rest => rest
        sign negative ++ digits before ++ "." ++ digits after

/-- The summary of an entry for debugging, which leaves the value out. -/
def Entry.summary {K V : Type} [KeyText K] (e : Entry K V) : String :=
  let expires := match e.expires with
    | none => "None"
    | some time => "Some(" ++ toString time ++ ")"
  "CacheEntry \x7b key: " ++ KeyText.text e.key ++ ", created: " ++ toString e.created ++
    ", accessed: " ++ toString e.accessed ++ ", updated: " ++ toString e.updated ++
    ", expires: " ++ expires ++ ", hits: " ++ toString e.hits ++ ", cost: " ++ e.cost.text ++
    ", size: " ++ toString e.size ++ ", version: " ++ toString e.version ++ " \x7d"

end BoundedCache
