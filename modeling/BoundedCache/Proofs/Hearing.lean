import Mathlib.Data.List.ProdSigma
import BoundedCache.Proofs.Cache.Calming

/-!
# Every listener hears everything, and every panic is told

The hook that tells events calls its listeners event by event, and for each event in the order in
which they were registered.  Every call is guarded on its own: a panic silences nobody, so that a
listener is called just as if it were alone and nobody had ever panicked.  What the hook answers
is made of the panics and of nothing else, in the order in which they came.

`call_isolated` says so for every outcome, all listeners and every pattern of panics.
-/

namespace BoundedCache

variable {K V : Type}

namespace ListenerCall

variable {listeners : List (Listener K V)} {call : ListenerCall K V}

/-- What the call panicked with, if it did. -/
def panic? (call : ListenerCall K V) : Option Payload :=
  match call.hearing with
  | .panicked payload => some payload
  | _ => none

theorem fault?_eq (call : ListenerCall K V) :
    call.fault? = call.panic?.map fun payload => .listenerPanic payload.message := by
  obtain ⟨i, event, hearing⟩ := call
  cases hearing <;> rfl

theorem panic?_calm (call : ListenerCall K V) : call.calm.panic? = none := by
  obtain ⟨i, event, hearing⟩ := call
  cases hearing <;> rfl

/-! ## Who is called, and about what -/

theorem tell_order (event : Event K V) (listeners : List (Listener K V)) (first made : Nat) :
    (tell event listeners first made).map (fun call => (call.event, call.listener)) =
      (List.range' first listeners.length).map (event, ·) := by
  induction listeners generalizing first made with
  | nil => rfl
  | cons listener rest ih =>
      rw [tell, List.map_cons, ih, List.length_cons, List.range'_succ, List.map_cons]

/-- All listeners are called about one event before any is called about the next. -/
theorem tellAll_order (listeners : List (Listener K V)) (events : List (Event K V)) (made : Nat) :
    (tellAll listeners events made).map (fun call => (call.event, call.listener)) =
      events ×ˢ List.range listeners.length := by
  induction events generalizing made with
  | nil => rfl
  | cons event rest ih =>
      rw [tellAll, List.map_append, tell_order, ih, List.product_cons, List.range_eq_range']

theorem length_tell (event : Event K V) (listeners : List (Listener K V)) (first made : Nat) :
    (tell event listeners first made).length = listeners.length := by
  have horder := congrArg List.length (tell_order event listeners first made)
  rwa [List.length_map, List.length_map, List.length_range'] at horder

/-! ## What comes of a call -/

theorem tell_getElem? (event : Event K V) (listeners : List (Listener K V)) (first made k : Nat) :
    (tell event listeners first made)[k]? =
      listeners[k]?.map fun listener => ⟨first + k, event, listener.hear (made + k) event⟩ := by
  induction listeners generalizing first made k with
  | nil => rfl
  | cons listener rest ih =>
      cases k with
      | zero => rfl
      | succ k =>
          rw [tell, List.getElem?_cons_succ, ih, List.getElem?_cons_succ, Nat.add_right_comm first,
            Nat.add_right_comm made]
          rfl

/-- The listener at the position that the call names did what it does after so many calls. -/
theorem tellAll_hears {events : List (Event K V)} {made k : Nat}
    (h : (tellAll listeners events made)[k]? = some call) :
    ∃ listener, listeners[call.listener]? = some listener ∧
      call.hearing = listener.hear (made + k) call.event := by
  induction events generalizing made k with
  | nil => exact absurd h (Option.some_ne_none call).symm
  | cons event rest ih =>
      rw [tellAll] at h
      rcases Nat.lt_or_ge k listeners.length with hfirst | hlater
      · rw [List.getElem?_append_left (by rwa [length_tell]), tell_getElem?,
          Option.map_eq_some_iff] at h
        obtain ⟨listener, hlistener, rfl⟩ := h
        exact ⟨listener, (congrArg (listeners[·]?) (Nat.zero_add k)).trans hlistener, rfl⟩
      · -- the calls about the later events, in which those about the first are counted as made
        rw [List.getElem?_append_right (by rwa [length_tell]), length_tell] at h
        obtain ⟨listener, hlistener, hhearing⟩ := ih h
        rw [Nat.add_assoc, Nat.add_sub_cancel' hlater] at hhearing
        exact ⟨listener, hlistener, hhearing⟩

end ListenerCall

/-- What the hook answers to some panics: nothing to none, the fault of the only one, and
otherwise the faults of all together. -/
def dispatchFailure : List Payload → Option HookFailure
  | [] => none
  | [payload] => some (.error (.fault (.listenerPanic payload.message)))
  | payloads => some (.error (.fault (.multiple
      (payloads.map fun payload => .listenerPanic payload.message))))

theorem dispatchFailure_eq (calls : List (ListenerCall K V)) :
    (combineFaults (calls.filterMap ListenerCall.fault?)).map
        (fun fault => HookFailure.error (.fault fault)) =
      dispatchFailure (calls.filterMap ListenerCall.panic?) := by
  have hfaults : calls.filterMap ListenerCall.fault? =
      (calls.filterMap ListenerCall.panic?).map fun payload => .listenerPanic payload.message := by
    rw [List.map_filterMap]
    exact List.filterMap_congr fun call _ => call.fault?_eq
  rw [hfaults]
  rcases calls.filterMap ListenerCall.panic? with - | ⟨payload, - | ⟨payload', payloads⟩⟩ <;> rfl

namespace Ledger

variable [DecidableEq K] {l : Ledger K V} {stage : Stage} {token : Token} {keys : List K}

/-- Called about the outcome, the hook writes that it was called, and then these calls of
listeners. -/
def Makes (l : Ledger K V) (hook : Hook K V) (token : Token) (outcome : Outcome K V)
    (keys : List K) (calls : List (ListenerCall K V)) : Prop :=
  (l.call hook token (some outcome) keys).2.trace = l.trace ++
    .hookCalled hook.name (l.callOf token (some outcome) keys) [] :: calls.map .listenerCalled

theorem makes_tellAll (l : Ledger K V) (stage : Stage) (listeners : List (Listener K V))
    (token : Token) (outcome : Outcome K V) (keys : List K) :
    l.Makes (Hook.listeners stage listeners) token outcome keys
      (ListenerCall.tellAll listeners outcome.events l.listenerCalls) :=
  (l.call_eq_visit (Hook.listeners stage listeners) token (some outcome) keys).2

/-- Alone and without its panics a listener is called about every event. -/
theorem exists_alone (l : Ledger K V) (stage : Stage) (listener : Listener K V) (token : Token)
    (outcome : Outcome K V) (keys : List K) :
    ∃ alone, l.Makes (Hook.listeners stage [listener.calm]) token outcome keys alone ∧
      alone.filterMap ListenerCall.panic? = [] ∧ alone.map (·.event) = outcome.events := by
  refine ⟨_, l.makes_tellAll stage [listener.calm] token outcome keys, ?_, ?_⟩
  · rw [show [listener.calm] = [listener].map Listener.calm from rfl, ListenerCall.tellAll_calm,
      List.filterMap_map]
    exact List.filterMap_eq_nil_iff.mpr fun call _ => call.panic?_calm
  · have horder := congrArg (List.map Prod.fst)
      (ListenerCall.tellAll_order [listener.calm] outcome.events l.listenerCalls)
    rw [List.map_map] at horder
    refine horder.trans ?_
    rw [List.length_singleton, List.range_one]
    induction outcome.events with
    | nil => rfl
    | cons event rest ih => rw [List.product_cons, List.map_append, ih]; rfl

/-- The hook calls its listeners event by event and in the order in which they were registered,
and they do what they do.  Each is called about the very events about which it would be called if
it were the only one and never panicked; and the hook answers with the panics, if there are any. -/
theorem call_isolated (l : Ledger K V) (stage : Stage) (listeners : List (Listener K V))
    (token : Token) (outcome : Outcome K V) (keys : List K) :
    ∃ calls, l.Makes (Hook.listeners stage listeners) token outcome keys calls ∧
      calls.map (fun call => (call.event, call.listener)) =
        outcome.events ×ˢ List.range listeners.length ∧
      (∀ (k : Nat) (call : ListenerCall K V), calls[k]? = some call →
        ∃ listener, listeners[call.listener]? = some listener ∧
          call.hearing = listener.hear (l.listenerCalls + k) call.event) ∧
      (∀ (i : Nat) (listener : Listener K V), listeners[i]? = some listener →
        ∃ alone, l.Makes (Hook.listeners stage [listener.calm]) token outcome keys alone ∧
          alone.filterMap ListenerCall.panic? = [] ∧
          calls.filterMap (ListenerCall.heard? i) = alone.map (·.event)) ∧
      (l.call (Hook.listeners stage listeners) token (some outcome) keys).1 =
        ([], dispatchFailure (calls.filterMap ListenerCall.panic?)) := by
  refine ⟨_, l.makes_tellAll stage listeners token outcome keys,
    ListenerCall.tellAll_order listeners outcome.events l.listenerCalls,
    fun k call hcall => ListenerCall.tellAll_hears hcall, fun i listener hi => ?_, ?_⟩
  · obtain ⟨alone, hmakes, hcalm, hevents⟩ := l.exists_alone stage listener token outcome keys
    refine ⟨alone, hmakes, hcalm, ?_⟩
    rw [hevents]
    exact ListenerCall.tellAll_heard listeners _ outcome.events
      (List.getElem?_eq_some_iff.mp hi).1
  · exact congrArg (Prod.mk []) (dispatchFailure_eq _)

/-- Of two listeners the first panics on everything; the other hears of it all the same. -/
example : ((({} : Ledger Nat Nat).call
    (Hook.listeners .event [Listener.panicking (fun _ => true) toString, .recorder]) ⟨.clear, 0⟩
    (some (.clear [⟨1, 10, 0, 0, 0, none, 0, {}, 1, 1⟩, ⟨2, 20, 0, 0, 0, none, 0, {}, 1, 1⟩]))
    []).2.heardBy 1) = [.leave .clear 1 10, .leave .clear 2 20] := by
  decide

end Ledger

end BoundedCache
