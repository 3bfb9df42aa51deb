import BoundedCache.Outcome
import BoundedCache.Error

/-!
# Listeners

Listeners are told the events of every outcome, entry by entry and in the order
in which they were registered.  A listener that panics is reported and silences
nobody: each call is made on its own.

A listener is a rule for what it does on a call; the rule may depend on how many
calls have been made before, so that any pattern of panics can be described.
-/

namespace BoundedCache

/-- What a panic carries: a text, or something that is none. -/
inductive Payload where
  | text (shown : String)
  | other
  deriving DecidableEq, Repr

/-- The text by which a panic is reported. -/
def Payload.message : Payload → String
  | .text shown => shown
  | .other => "unknown panic"

/-- What a listener does when it is called. -/
inductive Hearing where
  /-- It writes the event down. -/
  | recorded
  /-- It does nothing. -/
  | ignored
  | panicked (payload : Payload)
  deriving DecidableEq, Repr

/-- A listener, by what it does on a call: the number of calls made before, and the
event. -/
structure Listener (K V : Type) where
  hear : Nat → Event K V → Hearing

namespace Listener

variable {K V : Type}

/-- The listener that writes every event down. -/
def recorder : Listener K V := ⟨fun _ _ => .recorded⟩

/-- The listener that does nothing. -/
def silent : Listener K V := ⟨fun _ _ => .ignored⟩

/-- The listener that writes events down, but panics instead on those that
`panicsOn` names, with a text that says what it cannot do. -/
def panicking (panicsOn : Event K V → Bool) (keyText : K → String) : Listener K V :=
  ⟨fun _ event =>
    if panicsOn event then
      match event with
      | .enter key _ _ => .panicked (.text ("cannot enter " ++ keyText key))
      | .leave _ key _ => .panicked (.text ("cannot leave " ++ keyText key))
    else .recorded⟩

end Listener

/-- One call of a listener, named by its position, and what it did. -/
structure ListenerCall (K V : Type) where
  listener : Nat
  event : Event K V
  hearing : Hearing
  deriving DecidableEq, Repr

namespace ListenerCall

variable {K V : Type}

/-- The fault of a call, if it panicked. -/
def fault? (call : ListenerCall K V) : Option Fault :=
  match call.hearing with
  | .panicked payload => some (.listenerPanic payload.message)
  | _ => none

/-- Tell one event to the listeners from position `first` on; `made` calls have
been made before. -/
def tell (event : Event K V) : List (Listener K V) → (first made : Nat) → List (ListenerCall K V)
  | [], _, _ => []
  | listener :: rest, first, made =>
      ⟨first, event, listener.hear made event⟩ :: tell event rest (first + 1) (made + 1)

/-- Tell events to all listeners, one event after the other. -/
def tellAll (listeners : List (Listener K V)) : List (Event K V) → (made : Nat) →
    List (ListenerCall K V)
  | [], _ => []
  | event :: events, made =>
      tell event listeners 0 made ++ tellAll listeners events (made + listeners.length)

end ListenerCall

/-- The result of telling an outcome to listeners: no fault, the only one, or all of
them together. -/
def combineFaults : List Fault → Option Fault
  | [] => none
  | [fault] => some fault
  | faults => some (.multiple faults)

end BoundedCache
