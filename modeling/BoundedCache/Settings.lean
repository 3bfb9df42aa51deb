import BoundedCache.Document
import BoundedCache.Expiration
import BoundedCache.Hook
import BoundedCache.Lifecycle
import BoundedCache.Load.Program

/-!
# Settings as documents

What users say to a cache, read from documents: durations, costs, attributes,
conditions, and the names of states, stages, operations and kinds.

A duration is a number of milliseconds, or an object of whole seconds and the
nanoseconds beyond them.  A cost is written by the bits of its double, as sixteen
hexadecimal digits.
-/

namespace BoundedCache

/-- The duration of a document. -/
def Duration.ofDocument? : Document → Option Duration
  | .integer n => if 0 ≤ n then some (.ofMillis n.toNat) else none
  | d => do
      let secs ← (← d.field? "secs").toNat?
      let nanos ← (← d.field? "nanos").toNat?
      return .ofParts secs nanos

/-- The number that hexadecimal digits stand for. -/
def Cost.ofHex? (digits : List Char) : Option Cost := do
  let digits ← digits.mapM Document.hexDigit?
  return ⟨(digits.foldl (fun n digit => 16 * n + digit) 0).toUInt64⟩

/-- The cost of a document. -/
def Cost.ofDocument? (d : Document) : Option Cost := do Cost.ofHex? (← d.toText?).toList

/-- The attributes of an object; a missing one is that of `base`. -/
def Attributes.updated? (base : Attributes) (d : Document) : Option Attributes := do
  let timeout ← d.optional? "timeout" Duration.ofDocument?
  let cost ← d.optional? "cost" Cost.ofDocument?
  let size ← d.optional? "size" Document.toNat?
  return ⟨timeout.or base.timeout, cost.getD base.cost, size.getD base.size⟩

/-- The attributes of an object; a missing one takes its default. -/
def Attributes.ofDocument? (d : Document) : Option Attributes := Attributes.updated? {} d

/-- The condition of an array that holds its name and, for most, what it compares
with. -/
def StaleWhen.ofDocument? : Document → Option (StaleWhen String)
  | .array (.string name :: rest) =>
      let bound := rest.headD .null
      match name with
      | "always" => some .always
      | "never" => some .never
      | "expired" => some .expired
      | "idle_over" => bound.toNat?.map .idleOver
      | "hits_at_least" => bound.toNat?.map .hitsAtLeast
      | "version_at_least" => bound.toNat?.map .versionAtLeast
      | "size_at_least" => bound.toNat?.map .sizeAtLeast
      | "value_is" => bound.toText?.map .valueIs
      | "key_prefix" => bound.toText?.map .keyStartsWith
      | _ => none
  | _ => none

/-- The state of a name. -/
def Lifecycle.ofName? (name : String) : Option Lifecycle :=
  [Lifecycle.ready, .starting, .running, .shutdown, .stopping, .terminated].find?
    fun s => s.name = name

/-- The operation of a name. -/
def Operation.ofName? (name : String) : Option Operation :=
  [Operation.clear, .put, .putAll, .remove, .removeAll, .replace, .trim, .purge, .expire,
    .get].find? fun operation => operation.name = name

/-- The kind of error of a name. -/
def ErrorKind.ofName? (name : String) : Option ErrorKind :=
  [ErrorKind.loader, .hookFailed, .unavailable, .cancelled, .rejected, .config, .join].find?
    fun kind => kind.name = name

/-- The stage of a name. -/
def Stage.ofName? (name : String) : Option Stage :=
  [Stage.statistics, .event].find? fun stage => stage.name = name

/-- The origin of a name. -/
def Origin.ofName? (name : String) : Option Origin :=
  [Origin.user, .loader].find? fun origin => origin.name = name

end BoundedCache
