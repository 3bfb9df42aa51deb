import BoundedCache.Proofs.Cache.Retelling
import BoundedCache.Proofs.Rounds

/-!
# Hooks that do not fail

Take from every hook its failures, and let every listener do nothing where it would panic: the
hook is `calm` then.  A failure is reported, and that is all that comes of it.  So calm hooks do
to a cache what the hooks do, and leave what they leave, apart from the reports (`Retelling.calm`).
-/

namespace BoundedCache

variable {K V : Type} [DecidableEq K]

/-! ## Listeners -/

/-- It does nothing where it panicked. -/
def Hearing.calm : Hearing → Hearing
  | .panicked _ => .ignored
  | hearing => hearing

/-- The listener that does nothing where the listener panics. -/
def Listener.calm (listener : Listener K V) : Listener K V :=
  ⟨fun made event => (listener.hear made event).calm⟩

namespace ListenerCall

/-- The call of a listener that did nothing where it panicked. -/
def calm (call : ListenerCall K V) : ListenerCall K V := { call with hearing := call.hearing.calm }

omit [DecidableEq K] in
theorem tell_calm (event : Event K V) (listeners : List (Listener K V)) (first made : Nat) :
    tell event (listeners.map Listener.calm) first made =
      (tell event listeners first made).map calm := by
  induction listeners generalizing first made with
  | nil => rfl
  | cons listener rest ih => exact congrArg (_ :: ·) (ih (first + 1) (made + 1))

omit [DecidableEq K] in
theorem tellAll_calm (listeners : List (Listener K V)) (events : List (Event K V)) (made : Nat) :
    tellAll (listeners.map Listener.calm) events made =
      (tellAll listeners events made).map calm := by
  induction events generalizing made with
  | nil => rfl
  | cons event rest ih =>
      rw [tellAll, tellAll, tell_calm, List.length_map, ih, List.map_append]

omit [DecidableEq K] in
theorem faults_calm (calls : List (ListenerCall K V)) :
    (calls.map calm).filterMap fault? = [] := by
  rw [List.filterMap_map]
  refine List.filterMap_eq_nil_iff.mpr fun call _ => ?_
  obtain ⟨listener, event, hearing⟩ := call
  cases hearing <;> rfl

end ListenerCall

/-! ## Hooks -/

/-- The hook without its failures. -/
def Hook.calm (hook : Hook K V) : Hook K V where
  name := hook.name
  stage := hook.stage
  handler :=
    match hook.handler with
    | .statistics => .statistics
    | .listeners listeners => .listeners (listeners.map Listener.calm)
    | .rule reply => .rule fun call => { reply call with failure := none }

/-- The note, unless it is a report. -/
def Note.calm? : Note K V → Option (Note K V)
  | .failureReported _ => none
  | .listenerCalled call => some (.listenerCalled call.calm)
  | note => some note

namespace Ledger

/-- The ledger without reports. -/
def calm (l : Ledger K V) : Ledger K V :=
  { l with
    metrics := l.metrics.failing l.metrics.loadFailure 0
    trace := l.trace.filterMap Note.calm? }

variable (l : Ledger K V) (hook : Hook K V) (token : Token)

omit [DecidableEq K] in
theorem reported_calm : l.calm.reported = [] := by
  rw [reported, calm, List.filterMap_filterMap]
  refine List.filterMap_eq_nil_iff.mpr fun note _ => ?_
  cases note <;> rfl

omit [DecidableEq K] in
theorem calm_note {n : Note K V} (h : n.calm? = some n) : l.calm.note n = (l.note n).calm := by
  have htrace : l.trace.filterMap Note.calm? ++ [n] = (l.trace ++ [n]).filterMap Note.calm? := by
    rw [List.filterMap_append, List.filterMap_cons_some h]
    rfl
  unfold note calm
  rw [← htrace]

omit [DecidableEq K] in
theorem calm_noteCalls (calls : List (ListenerCall K V)) :
    l.calm.noteCalls (calls.map ListenerCall.calm) = (l.noteCalls calls).calm := by
  have htrace : (l.trace ++ calls.map Note.listenerCalled).filterMap Note.calm? =
      l.trace.filterMap Note.calm? ++
        (calls.map ListenerCall.calm).map Note.listenerCalled := by
    rw [List.filterMap_append, List.filterMap_map, List.map_map, ← List.filterMap_eq_map]
    rfl
  unfold noteCalls calm
  rw [htrace, List.length_map]

omit [DecidableEq K] in
theorem calm_recorded (outcome : Outcome K V) :
    l.calm.recorded token outcome = (l.recorded token outcome).calm := by
  unfold recorded calm
  dsimp only
  rw [Metrics.record_failing, (l.metrics.record_keeps token outcome).1]

omit [DecidableEq K] in
/-- A report is all that a failure leaves behind. -/
theorem calm_report (failure : Option HookFailure) :
    (l.report hook token failure).calm = l.calm := by
  cases failure with
  | none => rfl
  | some failure =>
      have htrace : (l.trace ++ [Note.failureReported
          (failureError hook.name token.operation failure)]).filterMap Note.calm? =
            l.trace.filterMap Note.calm? := by
        rw [List.filterMap_append, List.filterMap_cons_none rfl]
        exact List.append_nil _
      unfold report note calm
      dsimp only
      rw [htrace]
      rfl

omit [DecidableEq K] in
theorem calm_called (name : String) (call : HookCall K V) (notes : List HookNote) :
    l.calm.called name call notes = (l.called name call notes).calm :=
  calm_note { l with hookCalls := l.hookCalls + 1 } rfl

/-- A calm hook asks for the same, and does not fail. -/
theorem calm_call (outcome : Option (Outcome K V)) (keys : List K) :
    l.calm.call hook.calm token outcome keys =
      (((l.call hook token outcome keys).1.1, none), (l.call hook token outcome keys).2.calm) := by
  obtain ⟨name, stage, handler⟩ := hook
  have hcalled := l.calm_called name (l.callOf token outcome keys)
  cases handler with
  | statistics =>
      cases outcome with
      | none => exact congrArg (Prod.mk _) (hcalled [])
      | some outcome =>
          have hcounted := (congrArg (recorded · token outcome) (hcalled [])).trans
            (calm_recorded _ token outcome)
          exact congrArg (Prod.mk _) hcounted
  | listeners listeners =>
      cases outcome with
      | none => exact congrArg (Prod.mk _) (hcalled [])
      | some outcome =>
          refine (l.calm.call_listeners name stage (listeners.map Listener.calm) token outcome
            keys).trans ?_
          rw [call_listeners, ListenerCall.tellAll_calm, ListenerCall.faults_calm, calm_called,
            calm_noteCalls]
          rfl
  | rule reply => exact congrArg (Prod.mk _) (hcalled _)

end Ledger

/-- Calm hooks, and a ledger without reports. -/
def Retelling.calm (K V : Type) [DecidableEq K] : Retelling K V where
  hook := Hook.calm
  ledger _ := Ledger.calm
  ledger_congr _ _ _ := rfl
  commands_eq _ l hook token outcome keys := by rw [Ledger.calm_call]
  call_eq _ l hook token outcome keys := by rw [Ledger.calm_call]
  report_eq _ l hook token outcome keys _ later := by
    rw [Ledger.calm_call, Ledger.calm_report]
    rfl
  gauge_eq _ _ _ := rfl
  loaderCalled_eq _ l _ _ _ := l.calm_note rfl
  loadResumed_eq _ l _ := l.calm_note rfl
  countLoad_eq _ _ := rfl
  countFailure_eq _ _ := rfl

/-! ## A cache of calm hooks -/

namespace Builder

variable {b : Builder K V} {c : Cache K V}

/-- The same parts, but for calm hooks and listeners. -/
def calm (b : Builder K V) : Builder K V :=
  { b with hooks := b.hooks.map Hook.calm, listeners := b.listeners.map Listener.calm }

omit [DecidableEq K] in
theorem allHooks_calm (b : Builder K V) : b.calm.allHooks = b.allHooks.map Hook.calm := by
  have hempty : b.calm.listeners.isEmpty = b.listeners.isEmpty := List.isEmpty_map
  unfold allHooks
  rw [hempty]
  by_cases hnone : b.listeners.isEmpty = true
  · rw [if_pos hnone, if_pos hnone, List.append_nil, List.append_nil]
    rfl
  · rw [if_neg hnone, if_neg hnone, List.map_append]
    rfl

/-- The parts with calm hooks go together if the parts do, and make the cache with calm hooks. -/
theorem build_calm (h : b.build = .ok c) : b.calm.build = .ok ((Retelling.calm K V).cache c) := by
  have hobjection : b.calm.objection? = b.objection? := rfl
  have hexecutor : b.calm.executor = b.executor := rfl
  have hpolicy : b.calm.policy = b.policy := rfl
  unfold build at h ⊢
  rw [hobjection, hexecutor, hpolicy, allHooks_calm, HookChain.ofHooks_map Hook.calm fun _ => rfl]
  cases hfault : b.objection? with
  | some fault =>
      rw [hfault] at h
      cases h
  | none =>
      rw [hfault] at h
      cases hplace : b.executor with
      | none =>
          rw [hplace] at h
          cases h
      | some executor =>
          rw [hplace] at h
          dsimp only at h ⊢
          by_cases hnew : b.policy.isEmpty = true
          · rw [if_pos hnew, Except.ok.injEq] at h
            rw [if_pos hnew, ← h]
            rfl
          · rw [if_neg hnew] at h
            cases h

end Builder

end BoundedCache
