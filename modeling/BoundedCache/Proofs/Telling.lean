import Mathlib.Data.List.Basic
import Mathlib.Data.List.ReduceOption
import Mathlib.Tactic.Common
import BoundedCache.Hook
import BoundedCache.Transaction

/-!
# What a chain of hooks leaves behind

A ledger shows three things that matter outside: the statistics, the events that each
listener heard, and the outcomes that hooks were told.  `Ledger.Tells` says how outcomes
told one after the other show in a ledger; they show fully, whatever the hooks do.

What is written around a change is its `bracket`: the hooks are called before, the gauges are
set, and the hooks are told each outcome.  `Ledger.Calls` counts the rounds of calls, for any
hooks at all.

The hooks of one's own are `Inert` if they ask for nothing.  They follow a rule, which may
be any; counting and telling listeners are for the hooks of the cache itself.
-/

namespace BoundedCache

variable {K V : Type}

/-! ## What a ledger shows -/

/-- The event of a call, if it was a call of listener `i`. -/
def ListenerCall.heard? (i : Nat) (call : ListenerCall K V) : Option (Event K V) :=
  if call.listener = i then some call.event else none

namespace Note

/-- The event of a note, if it is about a call of listener `i`. -/
def heard? (i : Nat) : Note K V → Option (Event K V)
  | .listenerCalled call => call.heard? i
  | _ => none

/-- The outcome of a note, if it is about a call of a hook after a change. -/
def told? : Note K V → Option (Outcome K V)
  | .hookCalled _ call _ => call.outcome
  | _ => none

end Note

namespace Ledger

/-- The events that listener `i` heard. -/
def heardBy (l : Ledger K V) (i : Nat) : List (Event K V) := l.trace.filterMap (Note.heard? i)

/-- The outcomes that hooks were told, once for each hook. -/
def told (l : Ledger K V) : List (Outcome K V) := l.trace.filterMap Note.told?

end Ledger

/-! ## Listeners -/

namespace ListenerCall

variable (event : Event K V) (listeners : List (Listener K V)) {i first : Nat} (made : Nat)

theorem tell_heard_of_lt (h : i < first) :
    (tell event listeners first made).filterMap (heard? i) = [] := by
  induction listeners generalizing first made with
  | nil => rfl
  | cons listener rest ih =>
      rw [tell, List.filterMap_cons_none]
      · exact ih (made + 1) (Nat.lt_succ_of_lt h)
      · exact if_neg (Nat.ne_of_gt h)

/-- Every listener hears an event once. -/
theorem tell_heard (hfirst : first ≤ i) (hlt : i < first + listeners.length) :
    (tell event listeners first made).filterMap (heard? i) = [event] := by
  induction listeners generalizing first made with
  | nil =>
      rw [List.length_nil] at hlt
      omega
  | cons listener rest ih =>
      rw [List.length_cons] at hlt
      by_cases heq : first = i
      · have hbefore : i < first + 1 := by omega
        have hheard : heard? i ⟨first, event, listener.hear made event⟩ = some event := if_pos heq
        rw [tell, List.filterMap_cons_some hheard,
          tell_heard_of_lt event rest (made + 1) hbefore]
      · have hheard : heard? i ⟨first, event, listener.hear made event⟩ = none := if_neg heq
        rw [tell, List.filterMap_cons_none hheard]
        exact ih (made + 1) (by omega) (by omega)

/-- Every listener hears all events in order. -/
theorem tellAll_heard (events : List (Event K V)) (h : i < listeners.length) :
    (tellAll listeners events made).filterMap (heard? i) = events := by
  induction events generalizing made with
  | nil => rfl
  | cons event events ih =>
      rw [tellAll, List.filterMap_append, ih,
        tell_heard event listeners made (Nat.zero_le i) (by rwa [Nat.zero_add])]
      rfl

end ListenerCall

namespace Ledger

variable (l : Ledger K V)

/-! ## Notes -/

theorem note_heardBy (n : Note K V) (i : Nat) :
    (l.note n).heardBy i = l.heardBy i ++ (Note.heard? i n).toList := by
  rw [heardBy, note, List.filterMap_append, heardBy]
  cases hn : Note.heard? i n <;> simp [hn]

theorem note_told (n : Note K V) : (l.note n).told = l.told ++ (Note.told? n).toList := by
  rw [told, note, List.filterMap_append, told]
  cases hn : Note.told? n <;> simp [hn]

theorem noteCalls_heardBy (calls : List (ListenerCall K V)) (i : Nat) :
    (l.noteCalls calls).heardBy i = l.heardBy i ++ calls.filterMap (ListenerCall.heard? i) := by
  rw [heardBy, noteCalls, List.filterMap_append, List.filterMap_map]
  rfl

theorem noteCalls_told (calls : List (ListenerCall K V)) : (l.noteCalls calls).told = l.told := by
  have hnone : calls.filterMap (Note.told? ∘ Note.listenerCalled) = [] :=
    List.filterMap_eq_nil_iff.mpr fun _ _ => rfl
  rw [told, noteCalls, List.filterMap_append, List.filterMap_map, hnone, List.append_nil]
  rfl

end Ledger

/-! ## One hook -/

/-- The hook is not one of the cache itself, and never calls back into it. -/
def Hook.Inert (h : Hook K V) : Prop :=
  match h.handler with
  | .rule reply => ∀ call, (reply call).commands = []
  | _ => False

theorem Hook.Inert.quiet {hook : Hook K V} (h : hook.Inert) : hook.Quiet := by
  obtain ⟨name, stage, handler⟩ := hook
  cases handler with
  | rule reply => exact h
  | _ => trivial

theorem Hook.Inert.ne_statistics {hook : Hook K V} (h : hook.Inert) :
    hook.handler ≠ .statistics := by
  intro heq
  unfold Hook.Inert at h
  rw [heq] at h
  exact h

theorem Hook.Inert.ne_listeners {hook : Hook K V} (h : hook.Inert) (ls : List (Listener K V)) :
    hook.handler ≠ .listeners ls := by
  intro heq
  unfold Hook.Inert at h
  rw [heq] at h
  exact h

namespace Ledger

section

variable (l : Ledger K V) (hook : Hook K V) (token : Token) (failure : Option HookFailure)

theorem report_statistics : (l.report hook token failure).statistics = l.statistics := by
  cases failure <;> rfl

theorem report_heardBy (i : Nat) : (l.report hook token failure).heardBy i = l.heardBy i := by
  cases failure with
  | none => rfl
  | some failure =>
      rw [report, note_heardBy]
      exact List.append_nil _

theorem report_told : (l.report hook token failure).told = l.told := by
  cases failure with
  | none => rfl
  | some failure =>
      rw [report, note_told]
      exact List.append_nil _

end

variable [DecidableEq K] (l : Ledger K V) {hook : Hook K V} (token : Token)
  {outcome : Option (Outcome K V)} (keys : List K)

/-- The ledger after the call of a hook, and after its failure is reported. -/
def callReported (hook : Hook K V) (token : Token) (outcome : Option (Outcome K V))
    (keys : List K) : Ledger K V :=
  ((l.call hook token outcome keys).2).report hook token (l.call hook token outcome keys).1.2

theorem call_commands (h : hook.Quiet) (outcome : Option (Outcome K V)) :
    (l.call hook token outcome keys).1.1 = [] := by
  obtain ⟨name, stage, handler⟩ := hook
  cases handler with
  | statistics => cases outcome <;> rfl
  | listeners listeners => cases outcome <;> rfl
  | rule reply => exact h _

theorem callReported_statistics (h : outcome = none ∨ hook.handler ≠ .statistics) :
    (l.callReported hook token outcome keys).statistics = l.statistics := by
  rw [callReported, report_statistics]
  obtain ⟨name, stage, handler⟩ := hook
  cases handler with
  | statistics =>
      rcases h with rfl | hne
      · rfl
      · exact absurd rfl hne
  | rule reply => rfl
  | listeners listeners => cases outcome <;> rfl

theorem callReported_heardBy (h : outcome = none ∨ ∀ ls, hook.handler ≠ .listeners ls) (i : Nat) :
    (l.callReported hook token outcome keys).heardBy i = l.heardBy i := by
  rw [callReported, report_heardBy]
  obtain ⟨name, stage, handler⟩ := hook
  cases handler with
  | statistics => cases outcome <;> exact (note_heardBy _ _ i).trans (List.append_nil _)
  | rule reply => exact (note_heardBy _ _ i).trans (List.append_nil _)
  | listeners listeners =>
      rcases h with rfl | hne
      · exact (note_heardBy _ _ i).trans (List.append_nil _)
      · exact absurd rfl (hne listeners)

/-- Every hook is told every outcome. -/
theorem callReported_told (hook : Hook K V) (outcome : Option (Outcome K V)) :
    (l.callReported hook token outcome keys).told = l.told ++ outcome.toList := by
  rw [callReported, report_told]
  obtain ⟨name, stage, handler⟩ := hook
  cases handler with
  | statistics => cases outcome <;> exact note_told _ _
  | rule reply => exact note_told _ _
  | listeners listeners =>
      cases outcome with
      | none => exact note_told _ _
      | some outcome => exact (noteCalls_told _ _).trans (note_told _ _)

theorem callReported_listeners (stage : Stage) {listeners : List (Listener K V)} {i : Nat}
    (h : i < listeners.length) (outcome : Outcome K V) :
    (l.callReported (.listeners stage listeners) token (some outcome) keys).heardBy i =
      l.heardBy i ++ outcome.events := by
  rw [callReported, report_heardBy]
  refine (noteCalls_heardBy _ _ i).trans ?_
  rw [ListenerCall.tellAll_heard listeners _ outcome.events h, note_heardBy]
  exact congrArg (· ++ outcome.events) (List.append_nil (l.heardBy i))

/-! ## The chain -/

/-- The ledger after the calls of several hooks. -/
def callAll (hooks : List (Hook K V)) (token : Token) (outcome : Option (Outcome K V))
    (keys : List K) : Ledger K V :=
  hooks.foldl (fun l hook => l.callReported hook token outcome keys) l

variable {l} {hooks : List (Hook K V)}

theorem callAll_statistics (h : ∀ hook ∈ hooks, outcome = none ∨ hook.handler ≠ .statistics) :
    (l.callAll hooks token outcome keys).statistics = l.statistics := by
  induction hooks generalizing l with
  | nil => rfl
  | cons hook rest ih =>
      obtain ⟨hhook, hrest⟩ := List.forall_mem_cons.mp h
      exact (ih hrest).trans (callReported_statistics l token keys hhook)

theorem callAll_heardBy
    (h : ∀ hook ∈ hooks, outcome = none ∨ ∀ ls, hook.handler ≠ .listeners ls) (i : Nat) :
    (l.callAll hooks token outcome keys).heardBy i = l.heardBy i := by
  induction hooks generalizing l with
  | nil => rfl
  | cons hook rest ih =>
      obtain ⟨hhook, hrest⟩ := List.forall_mem_cons.mp h
      exact (ih hrest).trans (callReported_heardBy l token keys hhook i)

theorem callAll_told (hooks : List (Hook K V)) :
    (l.callAll hooks token outcome keys).told =
      l.told ++ outcome.toList.flatMap (List.replicate hooks.length) := by
  induction hooks generalizing l with
  | nil => cases outcome <;> simp [callAll]
  | cons hook rest ih =>
      refine (ih (l := l.callReported hook token outcome keys)).trans ?_
      rw [callReported_told, List.append_assoc]
      cases outcome with
      | none => rfl
      | some outcome => simp [List.replicate_succ]

/-- The outcomes were told, one after the other, to so many listeners and hooks. -/
structure Tells (listeners hooks : Nat) (l : Ledger K V) (outcomes : List (Outcome K V))
    (l' : Ledger K V) : Prop where
  statistics_eq : l'.statistics = outcomes.foldl Statistics.record l.statistics
  heard_eq : ∀ i < listeners, l'.heardBy i = l.heardBy i ++ outcomes.flatMap Outcome.events
  told_eq : l'.told = l.told ++ outcomes.flatMap (List.replicate hooks)

variable {l' l'' : Ledger K V} {m n : Nat} {outcomes later : List (Outcome K V)}

/-- A ledger with the same statistics and the same trace was told nothing. -/
theorem Tells.of_eq (hstatistics : l'.statistics = l.statistics) (htrace : l'.trace = l.trace) :
    Tells m n l [] l' where
  statistics_eq := hstatistics
  heard_eq i _ := by
    unfold heardBy
    rw [htrace]
    simp
  told_eq := by
    unfold told
    rw [htrace]
    simp

theorem Tells.refl : Tells m n l [] l := .of_eq rfl rfl

theorem Tells.trans (h : Tells m n l outcomes l') (hlater : Tells m n l' later l'') :
    Tells m n l (outcomes ++ later) l'' where
  statistics_eq := by rw [hlater.statistics_eq, h.statistics_eq, List.foldl_append]
  heard_eq i hi := by
    rw [hlater.heard_eq i hi, h.heard_eq i hi, List.flatMap_append, List.append_assoc]
  told_eq := by rw [hlater.told_eq, h.told_eq, List.flatMap_append, List.append_assoc]

end Ledger

/-! ## Around a change -/

namespace Ledger

/-- The ledger after every outcome was told. -/
def tellAll [DecidableEq K] (l : Ledger K V) (hooks : List (Hook K V)) (token : Token)
    (outcomes : List (Outcome K V)) (keys : List K) : Ledger K V :=
  outcomes.foldl (fun l outcome => l.callAll hooks token (some outcome) keys) l

/-- The ledger after the gauges were set, if they are to be. -/
def gaugeIf [DecidableEq K] (l : Ledger K V) (gauged : Bool) (s : Store K V) : Ledger K V :=
  if gauged then { l with metrics := l.metrics.gauge s } else l

/-- The ledger after a change, if nothing comes of what hooks ask for: they are called before
it, with the keys that there were, and after it. -/
def bracket [DecidableEq K] {α : Type} (l : Ledger K V) (hooks : List (Hook K V)) (token : Token)
    (keys : List K) (t : Transaction K V α) : Ledger K V :=
  ((l.callAll hooks token none keys).gaugeIf t.gauged t.store).tellAll hooks token t.outcomes
    t.store.keys

/-- So many hooks were called in rounds, each with an outcome or before there was one, and apart
from that neither the statistics nor a listener had anything to do. -/
structure Calls (hooks : Nat) (l : Ledger K V) (rounds : List (Option (Outcome K V)))
    (l' : Ledger K V) : Prop where
  hookCalls_eq : l'.hookCalls = l.hookCalls + rounds.length * hooks
  told_eq : l'.told = l.told ++ rounds.reduceOption.flatMap (List.replicate hooks)
  statistics_eq : rounds = [] → l'.statistics = l.statistics
  listenerCalls_eq : rounds = [] → l'.listenerCalls = l.listenerCalls

variable {l l' l'' : Ledger K V} {n : Nat} {rounds later : List (Option (Outcome K V))}

theorem Calls.none (hcalls : l'.hookCalls = l.hookCalls) (htold : l'.told = l.told)
    (hstatistics : l'.statistics = l.statistics) (hlisteners : l'.listenerCalls = l.listenerCalls) :
    Calls n l [] l' where
  hookCalls_eq := by simp [hcalls]
  told_eq := by simp [htold]
  statistics_eq _ := hstatistics
  listenerCalls_eq _ := hlisteners

theorem Calls.refl (l : Ledger K V) : Calls n l [] l := .none rfl rfl rfl rfl

theorem Calls.trans (h : Calls n l rounds l') (h' : Calls n l' later l'') :
    Calls n l (rounds ++ later) l'' where
  hookCalls_eq := by
    rw [h'.hookCalls_eq, h.hookCalls_eq, List.length_append, Nat.add_mul, Nat.add_assoc]
  told_eq := by
    rw [h'.told_eq, h.told_eq, List.reduceOption_append, List.flatMap_append, List.append_assoc]
  statistics_eq hnone := by
    obtain ⟨hfirst, hsecond⟩ := List.append_eq_nil_iff.mp hnone
    rw [h'.statistics_eq hsecond, h.statistics_eq hfirst]
  listenerCalls_eq hnone := by
    obtain ⟨hfirst, hsecond⟩ := List.append_eq_nil_iff.mp hnone
    rw [h'.listenerCalls_eq hsecond, h.listenerCalls_eq hfirst]

theorem calls_note (l : Ledger K V) {n : Note K V} (hooks : Nat) (htold : Note.told? n = none) :
    Calls hooks l [] (l.note n) := by
  refine .none rfl ?_ rfl rfl
  rw [note_told, htold]
  exact List.append_nil _

theorem calls_gaugeIf [DecidableEq K] (l : Ledger K V) (gauged : Bool) (s : Store K V) :
    Calls n l [] (l.gaugeIf gauged s) := by
  cases gauged with
  | false => exact .refl l
  | true => exact .none rfl rfl rfl rfl

theorem tells_gaugeIf [DecidableEq K] {m n : Nat} (l : Ledger K V) (gauged : Bool)
    (s : Store K V) : Tells m n l [] (l.gaugeIf gauged s) := by
  cases gauged with
  | false => exact .refl
  | true => exact .of_eq rfl rfl

section

variable [DecidableEq K] (hooks : List (Hook K V)) (token : Token) (keys : List K)

theorem callReported_hookCalls (l : Ledger K V) (hook : Hook K V)
    (outcome : Option (Outcome K V)) :
    (l.callReported hook token outcome keys).hookCalls = l.hookCalls + 1 := by
  have hreport : ∀ (l : Ledger K V) failure,
      (l.report hook token failure).hookCalls = l.hookCalls := by
    intro l failure
    cases failure <;> rfl
  rw [callReported, hreport]
  obtain ⟨name, stage, handler⟩ := hook
  cases handler <;> cases outcome <;> rfl

theorem callAll_hookCalls (l : Ledger K V) (outcome : Option (Outcome K V)) :
    (l.callAll hooks token outcome keys).hookCalls = l.hookCalls + hooks.length := by
  induction hooks generalizing l with
  | nil => rfl
  | cons hook rest ih =>
      refine (ih (l.callReported hook token outcome keys)).trans ?_
      rw [callReported_hookCalls, List.length_cons, Nat.add_assoc, Nat.add_comm 1]

/-- Calling the chain is a round. -/
theorem calls_callAll (l : Ledger K V) (outcome : Option (Outcome K V)) :
    Calls hooks.length l [outcome] (l.callAll hooks token outcome keys) where
  hookCalls_eq := by simp [callAll_hookCalls]
  told_eq := by
    rw [callAll_told]
    cases outcome <;> rfl
  statistics_eq hnone := nomatch hnone
  listenerCalls_eq hnone := nomatch hnone

theorem calls_tellAll (l : Ledger K V) (outcomes : List (Outcome K V)) :
    Calls hooks.length l (outcomes.map some) (l.tellAll hooks token outcomes keys) := by
  induction outcomes generalizing l with
  | nil => exact .refl l
  | cons outcome rest ih => exact (calls_callAll hooks token keys l (some outcome)).trans (ih _)

/-- There is one round before a change, and one for each of its outcomes. -/
theorem calls_bracket {α : Type} (l : Ledger K V) (t : Transaction K V α) :
    Calls hooks.length l (none :: t.outcomes.map some) (l.bracket hooks token keys t) :=
  (calls_callAll hooks token keys l none).trans
    ((calls_gaugeIf _ t.gauged t.store).trans
      (calls_tellAll hooks token t.store.keys _ t.outcomes))

end

end Ledger

/-! ## The chain of a cache -/

/-- The chain of a cache with the given listeners: the statistics come first and the
listeners, if there are any, last; all hooks between are inert. -/
def HookChain.Wired (listeners : List (Listener K V)) (c : HookChain K V) : Prop :=
  ∃ own : List (Hook K V), (∀ hook ∈ own, hook.Inert) ∧
    c.hooks = Hook.statistics ::
      (own ++ if listeners.isEmpty then [] else [Hook.listeners .event listeners])

variable {listeners : List (Listener K V)} {chain : HookChain K V}

theorem HookChain.Wired.quiet (h : chain.Wired listeners) :
    ∀ hook ∈ chain.hooks, hook.Quiet := by
  intro hook hhook
  obtain ⟨own, hown, hhooks⟩ := h
  rw [hhooks, List.mem_cons, List.mem_append] at hhook
  rcases hhook with rfl | hhook | hhook
  · trivial
  · exact (hown hook hhook).quiet
  · split at hhook
    · exact absurd hhook List.not_mem_nil
    · rw [List.mem_singleton.mp hhook]
      trivial

/-- One round of calls tells the outcome, if there is one. -/
theorem HookChain.Wired.tells [DecidableEq K] (h : chain.Wired listeners) (l : Ledger K V)
    (token : Token) (outcome : Option (Outcome K V)) (keys : List K) :
    Ledger.Tells listeners.length chain.hooks.length l outcome.toList
      (l.callAll chain.hooks token outcome keys) := by
  cases outcome with
  | none =>
      refine ⟨?_, fun i _ => ?_, Ledger.callAll_told _ _ _⟩
      · exact Ledger.callAll_statistics token keys fun _ _ => .inl rfl
      · rw [Ledger.callAll_heardBy token keys (fun _ _ => .inl rfl) i]
        exact (List.append_nil _).symm
  | some outcome =>
      obtain ⟨own, hown, hhooks⟩ := h
      refine ⟨?_, fun i hi => ?_, Ledger.callAll_told _ _ _⟩
      · -- only the first hook counts
        rw [hhooks, Ledger.callAll, List.foldl_cons]
        have hfirst : (l.callReported Hook.statistics token (some outcome) keys).statistics =
            l.statistics.record outcome := rfl
        refine (Ledger.callAll_statistics token keys fun hook hhook => .inr ?_).trans hfirst
        rcases List.mem_append.mp hhook with hhook | hhook
        · exact (hown hook hhook).ne_statistics
        · split at hhook
          · exact absurd hhook List.not_mem_nil
          · rw [List.mem_singleton.mp hhook]
            exact nofun
      · -- only the last hook tells listeners
        have hsome : listeners.isEmpty = false := by
          cases listeners with
          | nil => exact absurd hi (Nat.not_lt_zero i)
          | cons _ _ => rfl
        rw [hhooks, hsome, if_neg Bool.false_ne_true, ← List.cons_append, Ledger.callAll,
          List.foldl_append]
        refine (Ledger.callReported_listeners _ token keys .event hi outcome).trans ?_
        rw [Option.toList_some, List.flatMap_singleton]
        congr 1
        refine Ledger.callAll_heardBy token keys (fun hook hhook => .inr fun ls => ?_) i
        rcases List.mem_cons.mp hhook with rfl | hhook
        · exact nofun
        · exact (hown hook hhook).ne_listeners ls

theorem HookChain.Wired.tells_tellAll [DecidableEq K] (h : chain.Wired listeners)
    (l : Ledger K V) (token : Token) (outcomes : List (Outcome K V)) (keys : List K) :
    Ledger.Tells listeners.length chain.hooks.length l outcomes
      (l.tellAll chain.hooks token outcomes keys) := by
  induction outcomes generalizing l with
  | nil => exact .refl
  | cons outcome rest ih => exact (h.tells l token (some outcome) keys).trans (ih _)

/-- What is written around a change tells its outcomes. -/
theorem HookChain.Wired.tells_bracket [DecidableEq K] {α : Type} (h : chain.Wired listeners)
    (l : Ledger K V) (token : Token) (keys : List K) (t : Transaction K V α) :
    Ledger.Tells listeners.length chain.hooks.length l t.outcomes
      (l.bracket chain.hooks token keys t) :=
  (h.tells l token none keys).trans
    ((Ledger.tells_gaugeIf _ t.gauged t.store).trans
      (h.tells_tellAll _ token t.outcomes t.store.keys))

end BoundedCache
