import BoundedCache.Proofs.Telling

/-!
# The calls of hooks, as the trace has them

Every call of a hook is a `Visit`, and says what is written of it: the call, what its listeners
did, and the error if it fails.  A `Round` visits all hooks once, in order.  Around a change
there is one round before it, and then one for each of its outcomes; in such a round the
statistics are the first to know, so that all others find the outcome counted (`Rounds`).

`History` is what a whole trace is then: rounds around one change after the other, and notes about
the loader between them.  It says of every visit what the statistics were that the hook could see.
-/

namespace BoundedCache

variable {K V : Type}

/-- The error of a note, if it was handed to the error handler. -/
def Note.reported? : Note K V → Option CacheError
  | .failureReported error => some error
  | _ => none

namespace Ledger

/-- The errors that were handed to the error handler, in order. -/
def reported (l : Ledger K V) : List CacheError := l.trace.filterMap Note.reported?

theorem reported_note (l : Ledger K V) (n : Note K V) :
    (l.note n).reported = l.reported ++ (Note.reported? n).toList := by
  rw [reported, note, List.filterMap_append, reported]
  cases hn : Note.reported? n <;> simp [hn]

theorem reported_noteCalls (l : Ledger K V) (calls : List (ListenerCall K V)) :
    (l.noteCalls calls).reported = l.reported := by
  have hnone : calls.filterMap (Note.reported? ∘ Note.listenerCalled) = [] :=
    List.filterMap_eq_nil_iff.mpr fun _ _ => rfl
  rw [reported, noteCalls, List.filterMap_append, List.filterMap_map, hnone, List.append_nil]
  rfl

end Ledger

/-- A note about the loader. -/
def Note.IsAside : Note K V → Prop
  | .loaderCalled _ _ _ | .loadResumed _ => True
  | _ => False

theorem Note.IsAside.reported? {note : Note K V} (h : note.IsAside) : note.reported? = none := by
  cases note with
  | failureReported error => exact h.elim
  | _ => rfl

variable [DecidableEq K]

/-! ## One visit -/

/-- One call of a hook; so many calls of listeners were made before. -/
structure Visit (K V : Type) where
  hook : Hook K V
  call : HookCall K V
  made : Nat

namespace Visit

/-- The calls of listeners that the hook makes. -/
def told (v : Visit K V) : List (ListenerCall K V) :=
  match v.hook.handler, v.call.outcome with
  | .listeners listeners, some outcome => ListenerCall.tellAll listeners outcome.events v.made
  | _, _ => []

/-- How the hook fails, if it does. -/
def failure? (v : Visit K V) : Option HookFailure :=
  match v.hook.handler with
  | .rule reply => (reply v.call).failure
  | .listeners _ =>
      (combineFaults (v.told.filterMap ListenerCall.fault?)).map fun fault => .error (.fault fault)
  | .statistics => none

/-- What the hook writes down. -/
def noted (v : Visit K V) : List HookNote :=
  match v.hook.handler with
  | .rule reply => (reply v.call).notes
  | _ => []

/-- The error that the error handler is given, if the hook fails. -/
def error? (v : Visit K V) : Option CacheError :=
  v.failure?.map (Ledger.failureError v.hook.name v.call.token.operation)

/-- All that is written of the visit. -/
def notes (v : Visit K V) : List (Note K V) :=
  .hookCalled v.hook.name v.call v.noted ::
    (v.told.map .listenerCalled ++ v.error?.toList.map .failureReported)

theorem reported_notes (v : Visit K V) : v.notes.filterMap Note.reported? = v.error?.toList := by
  have htold : (v.told.map Note.listenerCalled).filterMap Note.reported? = [] := by
    rw [List.filterMap_map]
    exact List.filterMap_eq_nil_iff.mpr fun _ _ => rfl
  rw [notes, List.filterMap_cons_none rfl, List.filterMap_append, htold]
  cases v.error? <;> rfl

/-- The error of a failure names the hook and the operation. -/
theorem error?_names {v : Visit K V} {error : CacheError} (h : v.error? = some error) :
    error.kind = .hookFailed ∧
      error.context = [("hook", v.hook.name), ("operation", v.call.token.operation.name)] := by
  obtain ⟨failure, -, rfl⟩ := Option.map_eq_some_iff.mp h
  cases failure <;> exact ⟨rfl, rfl⟩

end Visit

/-! ## Rounds -/

/-- Each of the hooks is called once, in order, about the same; all see the same statistics. -/
structure Round (token : Token) (outcome : Option (Outcome K V)) (s : Statistics)
    (hooks : List (Hook K V)) (visits : List (Visit K V)) : Prop where
  hooks_eq : visits.map (·.hook) = hooks
  token_eq : ∀ v ∈ visits, v.call.token = token
  outcome_eq : ∀ v ∈ visits, v.call.outcome = outcome
  sees : ∀ v ∈ visits, v.call.statistics = s

/-- A round for each outcome.  The statistics are called first and see what was counted before;
all others see the outcome counted as well. -/
inductive Rounds (others : List (Hook K V)) (token : Token) :
    Statistics → List (Outcome K V) → List (Visit K V) → Statistics → Prop where
  | done (s : Statistics) : Rounds others token s [] [] s
  | told {s s' : Statistics} {outcome : Outcome K V} {outcomes : List (Outcome K V)}
      {counting rest later : List (Visit K V)}
      (hcounting : Round token (some outcome) s [Hook.statistics] counting)
      (hrest : Round token (some outcome) (s.record outcome) others rest)
      (hlater : Rounds others token (s.record outcome) outcomes later s') :
      Rounds others token s (outcome :: outcomes) (counting ++ (rest ++ later)) s'

/-- Rounds around changes, and notes about the loader between them.  Every change has its own
token; the hooks are called before it, and then about its outcomes, which are those that it has on
the store as it is then. -/
inductive History (others : List (Hook K V)) : Statistics → Store K V → List (Visit K V) →
    List (Note K V) → Statistics → Store K V → Prop where
  | nothing (s : Statistics) (store : Store K V) : History others s store [] [] s store
  | operation {α : Type} {s s' s'' : Statistics} {store store' : Store K V}
      {before after visits : List (Visit K V)} {notes : List (Note K V)}
      (change : Change K V α) (now : Nat)
      (hbefore : Round ⟨change.operation, now⟩ none s (Hook.statistics :: others) before)
      (hafter : Rounds others ⟨change.operation, now⟩ s (change.apply store now).outcomes after s')
      (hlater : History others s' (change.apply store now).store visits notes s'' store') :
      History others s store (before ++ (after ++ visits))
        ((before ++ after).flatMap Visit.notes ++ notes) s'' store'
  | aside {s s' : Statistics} {store store' : Store K V} {visits : List (Visit K V)}
      {notes : List (Note K V)} {note : Note K V} (haside : note.IsAside)
      (hlater : History others s store visits notes s' store') :
      History others s store visits (note :: notes) s' store'

section

variable {others : List (Hook K V)} {s s' s'' : Statistics} {store store' store'' : Store K V}
  {visits later : List (Visit K V)} {notes more : List (Note K V)}

theorem History.append (h : History others s store visits notes s' store')
    (h' : History others s' store' later more s'' store'') :
    History others s store (visits ++ later) (notes ++ more) s'' store'' := by
  induction h with
  | nothing s store => exact h'
  | operation change now hbefore hafter hlater ih =>
      rw [List.append_assoc, List.append_assoc, List.append_assoc]
      exact .operation change now hbefore hafter (ih h')
  | aside haside hlater ih => exact .aside haside (ih h')

theorem reported_flatMap (visits : List (Visit K V)) :
    (visits.flatMap Visit.notes).filterMap Note.reported? = visits.filterMap Visit.error? := by
  induction visits with
  | nil => rfl
  | cons v rest ih =>
      rw [List.flatMap_cons, List.filterMap_append, Visit.reported_notes, ih]
      cases herror : v.error? <;> simp [herror]

/-- The error handler is given one error for each visit that fails, in order. -/
theorem History.reported (h : History others s store visits notes s' store') :
    notes.filterMap Note.reported? = visits.filterMap Visit.error? := by
  induction h with
  | nothing s store => rfl
  | operation change now hbefore hafter hlater ih =>
      rw [List.filterMap_append, reported_flatMap, ih, List.filterMap_append, List.filterMap_append,
        List.filterMap_append, List.append_assoc]
  | aside haside hlater ih => rw [List.filterMap_cons_none haside.reported?, ih]

end

/-! ## What a ledger has of it -/

namespace Ledger

variable {hooks others : List (Hook K V)} (l : Ledger K V) (hook : Hook K V) (token : Token)
  (outcome : Option (Outcome K V)) (keys : List K)

/-- The call of a hook, as a visit. -/
def visit : Visit K V := ⟨hook, l.callOf token outcome keys, l.listenerCalls⟩

theorem call_eq_visit : (l.call hook token outcome keys).1.2 =
      (l.visit hook token outcome keys).failure? ∧
    (l.call hook token outcome keys).2.trace = l.trace ++
      .hookCalled hook.name (l.callOf token outcome keys)
        (l.visit hook token outcome keys).noted ::
          (l.visit hook token outcome keys).told.map .listenerCalled := by
  obtain ⟨name, stage, handler⟩ := hook
  cases handler with
  | statistics => cases outcome <;> exact ⟨rfl, rfl⟩
  | rule reply => exact ⟨rfl, rfl⟩
  | listeners listeners =>
      cases outcome with
      | none => exact ⟨rfl, rfl⟩
      | some outcome => exact ⟨rfl, List.append_assoc _ _ _⟩

/-- A call of a hook leaves in the trace what is written of the visit. -/
theorem callReported_trace : (l.callReported hook token outcome keys).trace =
    l.trace ++ (l.visit hook token outcome keys).notes := by
  obtain ⟨hfailure, htrace⟩ := l.call_eq_visit hook token outcome keys
  have hreport : ∀ (later : Ledger K V) failure, (later.report hook token failure).trace =
      later.trace ++
        (failure.map (failureError hook.name token.operation)).toList.map .failureReported := by
    intro later failure
    cases failure with
    | none => exact (List.append_nil _).symm
    | some failure => rfl
  rw [callReported, hreport, hfailure, htrace, List.append_assoc]
  rfl

variable {l}

/-- Calling hooks that do not count is a round. -/
theorem round_callAll (h : ∀ hook ∈ hooks, outcome = none ∨ hook.handler ≠ .statistics) :
    ∃ visits, Round token outcome l.statistics hooks visits ∧
      (l.callAll hooks token outcome keys).trace = l.trace ++ visits.flatMap Visit.notes := by
  induction hooks generalizing l with
  | nil =>
      refine ⟨[], ⟨rfl, ?_, ?_, ?_⟩, (List.append_nil l.trace).symm⟩
      all_goals exact fun _ hmem => absurd hmem List.not_mem_nil
  | cons hook rest ih =>
      obtain ⟨hhook, hrest⟩ := List.forall_mem_cons.mp h
      obtain ⟨visits, hround, htrace⟩ := ih (l := l.callReported hook token outcome keys) hrest
      rw [callReported_statistics l token keys hhook] at hround
      refine ⟨l.visit hook token outcome keys :: visits, ?_, ?_⟩
      · exact ⟨congrArg (hook :: ·) hround.hooks_eq,
          List.forall_mem_cons.mpr ⟨rfl, hround.token_eq⟩,
          List.forall_mem_cons.mpr ⟨rfl, hround.outcome_eq⟩,
          List.forall_mem_cons.mpr ⟨rfl, hround.sees⟩⟩
      · refine htrace.trans ?_
        rw [callReported_trace, List.flatMap_cons, List.append_assoc]

/-- Telling outcomes to a chain that begins with the statistics makes a round for each. -/
theorem rounds_tellAll (h : ∀ hook ∈ others, hook.handler ≠ .statistics)
    (outcomes : List (Outcome K V)) :
    let later := l.tellAll (Hook.statistics :: others) token outcomes keys
    ∃ visits, Rounds others token l.statistics outcomes visits later.statistics ∧
      later.trace = l.trace ++ visits.flatMap Visit.notes := by
  induction outcomes generalizing l with
  | nil => exact ⟨[], .done l.statistics, (List.append_nil l.trace).symm⟩
  | cons outcome rest ih =>
      let counted := l.callReported Hook.statistics token (some outcome) keys
      have hcounting : Round token (some outcome) l.statistics [Hook.statistics]
          [l.visit Hook.statistics token (some outcome) keys] :=
        ⟨rfl, List.forall_mem_singleton.mpr rfl, List.forall_mem_singleton.mpr rfl,
          List.forall_mem_singleton.mpr rfl⟩
      obtain ⟨round, hround, hroundTrace⟩ := round_callAll (l := counted) token (some outcome) keys
        fun hook hmem => .inr (h hook hmem)
      have hsame : (counted.callAll others token (some outcome) keys).statistics =
          counted.statistics :=
        callAll_statistics _ keys fun hook hmem => .inr (h hook hmem)
      obtain ⟨visits, hrounds, htrace⟩ := ih (l := counted.callAll others token (some outcome) keys)
      rw [hsame] at hrounds
      refine ⟨_, .told hcounting hround hrounds, ?_⟩
      calc (l.tellAll (Hook.statistics :: others) token (outcome :: rest) keys).trace
          = (counted.callAll others token (some outcome) keys).trace ++
              visits.flatMap Visit.notes := htrace
        _ = l.trace ++ (l.visit Hook.statistics token (some outcome) keys).notes ++
              round.flatMap Visit.notes ++ visits.flatMap Visit.notes := by
            rw [hroundTrace, callReported_trace]
        _ = l.trace ++ ([l.visit Hook.statistics token (some outcome) keys] ++
              (round ++ visits)).flatMap Visit.notes := by
            simp only [List.flatMap_append, List.flatMap_singleton, List.append_assoc]

/-- What is written around a change is a part of a history. -/
theorem history_bracket {α : Type} (h : ∀ hook ∈ others, hook.handler ≠ .statistics)
    (l : Ledger K V) (keys : List K) (change : Change K V α) (store : Store K V) (now : Nat) :
    let later := l.bracket (Hook.statistics :: others) ⟨change.operation, now⟩ keys
      (change.apply store now)
    ∃ visits notes, later.trace = l.trace ++ notes ∧
      History others l.statistics store visits notes later.statistics
        (change.apply store now).store := by
  intro later
  have hsilent : ∀ hook ∈ Hook.statistics :: others,
      (none : Option (Outcome K V)) = none ∨ hook.handler ≠ .statistics := fun _ _ => .inl rfl
  obtain ⟨before, hbefore, hbeforeTrace⟩ :=
    round_callAll (l := l) ⟨change.operation, now⟩ none keys hsilent
  let announced := l.callAll (Hook.statistics :: others) ⟨change.operation, now⟩ none keys
  have hannounced : announced.statistics = l.statistics := callAll_statistics _ keys hsilent
  let gauged := announced.gaugeIf (change.apply store now).gauged (change.apply store now).store
  have hgauged : gauged.statistics = announced.statistics ∧ gauged.trace = announced.trace := by
    show (announced.gaugeIf _ _).statistics = _ ∧ (announced.gaugeIf _ _).trace = _
    cases (change.apply store now).gauged <;> exact ⟨rfl, rfl⟩
  obtain ⟨after, hafter, hafterTrace⟩ := rounds_tellAll (l := gauged) ⟨change.operation, now⟩
    (change.apply store now).store.keys h (change.apply store now).outcomes
  rw [hgauged.1, hannounced] at hafter
  refine ⟨_, _, ?_, .operation change now hbefore hafter (.nothing later.statistics _)⟩
  calc later.trace
      = gauged.trace ++ after.flatMap Visit.notes := hafterTrace
    _ = l.trace ++ before.flatMap Visit.notes ++ after.flatMap Visit.notes := by
        rw [hgauged.2, ← hbeforeTrace]
    _ = l.trace ++ ((before ++ after).flatMap Visit.notes ++ []) := by
        rw [List.flatMap_append, List.append_nil, List.append_assoc]

end Ledger

end BoundedCache
