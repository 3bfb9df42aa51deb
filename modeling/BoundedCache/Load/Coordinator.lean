import BoundedCache.Entry
import BoundedCache.Lifecycle

/-!
# One load per key

The coordinator keeps the loads that are pending, at most one for each key.  Who
asks for a key that is being loaded joins that load and gets the same answer.  A
load ends by an answer, or it is cancelled: when its last waiter goes, or when all
loads are cancelled together.  It is no longer pending when its answer can be seen.

Loads are numbered.  Whatever is late, an answer or a waiter that goes, names its
load by number and changes nothing if the key has a newer load by then.

Every place where the last pending load can go lets a cache that is shut down
terminate.
-/

namespace BoundedCache

/-- What a reader gets in the end: an entry, nothing, or an error. -/
abbrev Answer (K V : Type) := Except CacheError (Option (Entry K V))

/-- A load that has no answer yet, with the number of those who wait for it. -/
structure PendingLoad where
  id : Nat
  waiters : Nat
  deriving DecidableEq, Repr

/-- The pending loads, what has become of the others, and the state of the cache. -/
structure Coordinator (K ρ : Type) where
  lifecycle : Lifecycle := .ready
  pending : List (K × PendingLoad) := []
  answers : List (Nat × ρ) := []
  cancelled : List Nat := []
  nextId : Nat := 0

/-- A waiter's hold on a load. -/
structure LoadHandle (K : Type) where
  key : K
  id : Nat
  deriving DecidableEq, Repr

/-- How a request for a load is taken. -/
inductive Attachment (K : Type) where
  | joined (handle : LoadHandle K)
  | started (handle : LoadHandle K)
  | refused (error : CacheError)

namespace Coordinator

variable {K ρ : Type} [DecidableEq K]

/-- The pending load of a key. -/
def pending? (c : Coordinator K ρ) (key : K) : Option PendingLoad := c.pending.lookup key

/-- Whether a key is being loaded. -/
def isPending (c : Coordinator K ρ) (key : K) : Bool := (c.pending? key).isSome

/-- The number of pending loads. -/
def size (c : Coordinator K ρ) : Nat := c.pending.length

/-- Whether the pending load of a key has the given number. -/
def isCurrent (c : Coordinator K ρ) (key : K) (id : Nat) : Bool :=
  match c.pending? key with
  | none => false
  | some load => load.id == id

/-- The answer of a load, if it has one. -/
def answer? (c : Coordinator K ρ) (id : Nat) : Option ρ := c.answers.lookup id

/-- Whether a load has been cancelled. -/
def isCancelled (c : Coordinator K ρ) (id : Nat) : Bool := c.cancelled.contains id

/-- The pending loads without that of `key`. -/
def erase (pending : List (K × PendingLoad)) (key : K) : List (K × PendingLoad) :=
  pending.filter fun (other, _) => other ≠ key

/-- Terminate if the cache is shut down and nothing is pending. -/
def mayDrain (c : Coordinator K ρ) : Coordinator K ρ :=
  if c.lifecycle.isDown && c.pending.isEmpty then { c with lifecycle := c.lifecycle.drained }
  else c

/-- Join the pending load of a key, or start one. -/
def attach (c : Coordinator K ρ) (key : K) : Attachment K × Coordinator K ρ :=
  match c.pending? key with
  | some load =>
      (.joined ⟨key, load.id⟩,
        { c with
          pending := c.pending.map fun (other, l) =>
            if other = key then (other, { l with waiters := l.waiters + 1 }) else (other, l) })
  | none =>
      if c.lifecycle.isDown then (.refused (.unavailable c.lifecycle.name), c)
      else
        (.started ⟨key, c.nextId⟩,
          { c with pending := c.pending ++ [(key, ⟨c.nextId, 1⟩)], nextId := c.nextId + 1 })

/-- Give a load its answer, unless it is pending no more. -/
def complete (c : Coordinator K ρ) (key : K) (id : Nat) (answer : ρ) : Coordinator K ρ :=
  if c.isCurrent key id then
    { c with pending := erase c.pending key, answers := (id, answer) :: c.answers }.mayDrain
  else c

/-- Cancel a load that is no longer in the table. -/
def cancel (c : Coordinator K ρ) (cancelledAnswer : ρ) (id : Nat) : Coordinator K ρ :=
  { c with answers := (id, cancelledAnswer) :: c.answers, cancelled := id :: c.cancelled }

/-- One waiter goes; the last one cancels the load.  The answer lists the loads
cancelled. -/
def detach (c : Coordinator K ρ) (cancelledAnswer : ρ) (handle : LoadHandle K) :
    List Nat × Coordinator K ρ :=
  match c.pending? handle.key with
  | none => ([], c)
  | some load =>
      if load.id = handle.id then
        if 1 < load.waiters then
          ([],
            { c with
              pending := c.pending.map fun (other, l) =>
                if other = handle.key then (other, { l with waiters := l.waiters - 1 })
                else (other, l) })
        else
          ([load.id],
            ({ c with pending := erase c.pending handle.key }.cancel cancelledAnswer
              load.id).mayDrain)
      else ([], c)

/-- Cancel every pending load.  The answer lists the loads cancelled. -/
def cancelAll (c : Coordinator K ρ) (cancelledAnswer : ρ) : List Nat × Coordinator K ρ :=
  let ids := c.pending.map fun (_, load) => load.id
  (ids,
    (ids.foldl (fun (c : Coordinator K ρ) id => c.cancel cancelledAnswer id)
      { c with pending := [] }).mayDrain)

/-- Stop taking work. -/
def shutDown (c : Coordinator K ρ) : Bool × Coordinator K ρ :=
  let (done, lifecycle) := c.lifecycle.shutDown
  (done, { c with lifecycle := lifecycle })

end Coordinator

/-- The summary of a waiter's hold for debugging. -/
def LoadHandle.summary {K : Type} [KeyText K] (h : LoadHandle K) : String :=
  "Load \x7b key: " ++ KeyText.text h.key ++ ", id: " ++ toString h.id ++ " \x7d"

/-- The summary of a coordinator for debugging. -/
def Coordinator.summary {K ρ : Type} [DecidableEq K] (c : Coordinator K ρ) : String :=
  "LoaderCoordinator \x7b pending: " ++ toString c.size ++ ", executor: Exec(Manual) \x7d"

end BoundedCache
