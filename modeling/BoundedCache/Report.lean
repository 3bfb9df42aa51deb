import BoundedCache.Document
import BoundedCache.Hook

/-!
# Reports

What a cache has done, as documents: its entries, errors, metrics, and the trace of
calls that its ledger keeps.

Entries that expire together leave in no particular order.  A report sorts them by
key, so that two caches that do the same report the same.
-/

namespace BoundedCache

/-- The bits of a double as sixteen hexadecimal digits. -/
def Document.ofBits (w : UInt64) : Document :=
  let digits := Nat.toDigits 16 w.toNat
  .string (String.ofList (List.replicate (16 - digits.length) '0' ++ digits))

/-- An index as a pair of slot and generation. -/
def Index.toDocument (i : Index) : Document :=
  .array [.natural i.slot, .natural i.generation.toNat]

namespace Entry

/-- An entry as an object of all its fields. -/
def toDocument (e : Entry String String) : Document :=
  .object [
    ("key", .string e.key), ("value", .string e.value), ("created", .natural e.created),
    ("accessed", .natural e.accessed), ("updated", .natural e.updated),
    ("expires", .ofOptionalNat e.expires), ("hits", .natural e.hits),
    ("cost", .ofBits e.cost.bits), ("size", .natural e.size), ("version", .natural e.version)]

/-- An entry in short: key, value and version. -/
def toShort (e : Entry String String) : Document :=
  .array [.string e.key, .string e.value, .natural e.version]

/-- Entries in short. -/
def toShorts (entries : List (Entry String String)) : Document :=
  .array (entries.map toShort)

/-- Entries sorted by key. -/
def byKey (entries : List (Entry String String)) : List (Entry String String) :=
  entries.mergeSort fun a b => !decide (b.key < a.key)

end Entry

/-- An error by its kind and text. -/
def CacheError.toDocument (e : CacheError) : Document :=
  .object [("error", .string e.kind.name), ("message", .string e.text)]

/-- A result, or the error in its place. -/
def Document.ofResult {α : Type} (encode : α → Document) : Except CacheError α → Document
  | .ok a => encode a
  | .error e => e.toDocument

/-- A write: what it replaced, what it wrote, and its victims. -/
def Written.toDocuments (w : Written String String) : List Document :=
  [.ofOption Entry.toShort w.old, w.new.toShort, Entry.toShorts w.evicted]

/-- An outcome as an array that begins with its name. -/
def Outcome.toDocument : Outcome String String → Document
  | .clear removed => .array [.string "Clear", Entry.toShorts removed]
  | .put origin w => .array (.string "Put" :: .string origin.name :: w.toDocuments)
  | .putAll origin puts =>
      .array [.string "PutAll", .string origin.name,
        .array (puts.map fun w => .array w.toDocuments)]
  | .remove key removed =>
      .array [.string "Remove", .string key, .ofOption Entry.toShort removed]
  | .removeAll removed => .array [.string "RemoveAll", Entry.toShorts removed]
  | .replace old new evicted =>
      .array [.string "Replace", old.toShort, new.toShort, Entry.toShorts evicted]
  | .trim evicted => .array [.string "Trim", Entry.toShorts evicted]
  | .purge expired evicted =>
      .array [.string "Purge", Entry.toShorts (Entry.byKey expired), Entry.toShorts evicted]
  | .expire expired => .array [.string "Expire", Entry.toShorts (Entry.byKey expired)]
  | .getHit entry => .array [.string "GetHit", entry.toShort]
  | .getMiss key expired => .array [.string "GetMiss", .string key, .bool expired]

/-- Metrics by their keys. -/
def Metrics.toFields (m : Metrics) (cache : String) : List (String × Document) :=
  [("counters", .object ((m.counters cache).map fun (key, n) => (key, .ofWord n))),
    ("gauges", .object ((m.gauges cache).map fun (key, bits) => (key, .ofBits bits))),
    ("histogram_counts", .object ((m.durations cache).map fun (key, n) => (key, .natural n)))]

/-! ## The trace -/

/-- A line of a report.  One that tells a listener of an expired entry has a rank
among its like: the key, and the number of the listener. -/
structure ReportLine where
  shown : Document
  rank : Option (String × Nat) := none

namespace ReportLine

/-- What a listener has written down of a call. -/
def ofListenerCall (call : ListenerCall String String) : List ReportLine :=
  match call.hearing, call.event with
  | .recorded, .enter key value origin =>
      [{ shown := .array [.string "enter", .natural call.listener, .string key, .string value,
          .string origin.name] }]
  | .recorded, .leave reason key value =>
      [{ shown := .array [.string "leave", .natural call.listener, .string key, .string value,
          .string reason.name]
         rank := if reason = .expire then some (key, call.listener) else none }]
  | _, _ => []

/-- What a hook has written down of a call. -/
def ofHookNote (hook : String) (call : HookCall String String) (note : HookNote) : ReportLine :=
  let about : List Document := [.string hook, .string call.token.operation.name]
  let time : Document := .natural call.token.timestamp
  match note, call.outcome with
  | .call, none => { shown := .array (.string "before" :: about ++ [time]) }
  | .call, some outcome =>
      { shown := .array (.string "after" :: about ++ [time, outcome.toDocument]) }
  | .sight, _ =>
      { shown := .array (.string "witness" :: about ++
          [call.statistics.toDocument, .ofTexts call.keys]) }

/-- The lines of a note; failures are told if `failures` holds. -/
def ofNote (failures : Bool) : Note String String → List ReportLine
  | .hookCalled hook call notes => notes.map (ofHookNote hook call)
  | .listenerCalled call => ofListenerCall call
  | .failureReported error =>
      if failures then [{ shown := .array [.string "hook_error", .string error.text] }] else []
  | .loaderCalled key forced a =>
      [{ shown := .array [.string "load", .string key, .ofOption .bool forced,
          .ofOptionalNat (a.timeout.map Duration.millis), .ofBits a.cost.bits,
          .natural a.size] }]
  | .loadResumed key => [{ shown := .array [.string "resume", .string key] }]

/-- Ranked lines in the order of their ranks. -/
def sorted (lines : List ((String × Nat) × Document)) : List Document :=
  (lines.mergeSort fun a b =>
    decide (a.1.1 < b.1.1) || (a.1.1 == b.1.1 && decide (a.1.2 ≤ b.1.2))).map (·.2)

/-- The lines as they are reported: neighbours that have a rank are sorted by it.
`waiting` holds those that may have more neighbours to come. -/
def arrange (waiting : List ((String × Nat) × Document)) : List ReportLine → List Document
  | [] => sorted waiting
  | line :: lines =>
      match line.rank with
      | some rank => arrange (waiting ++ [(rank, line.shown)]) lines
      | none => sorted waiting ++ line.shown :: arrange [] lines

end ReportLine

/-- The lines of what has been noted since the first `count` notes. -/
def Ledger.linesSince (l : Ledger String String) (count : Nat) (failures : Bool) :
    List ReportLine :=
  (l.trace.drop count).flatMap (ReportLine.ofNote failures)

end BoundedCache
