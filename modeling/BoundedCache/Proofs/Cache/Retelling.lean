import BoundedCache.Cache.Operations
import BoundedCache.Proofs.Cache.Setting

/-!
# One history, told in two ways

A `Retelling` puts other hooks in the place of those of a cache, and writes its ledger anew.  The
hooks ask for the same, and what they write is what the ledger retold would have; so a cache
with the other hooks does whatever the cache does, gives the same answers, and comes to the same
store and the same loads.  Every operation commutes with the retelling.

What is written may show the store as far as the gauges do.  So a change that does not set the
gauges has to leave alone what they show (`Change.Shown`), as every operation does.
-/

namespace BoundedCache

variable {K V : Type} [DecidableEq K]

/-- What the gauges would show of a store that is the outcome of the change is set, or it is what
they show already. -/
def Change.Shown {α : Type} (change : Change K V α) : Prop :=
  ∀ s now, (change.apply s now).gauged = false →
    (change.apply s now).store.size = s.size ∧
      (change.apply s now).store.shownVolume = s.shownVolume

theorem Store.touch_shown (s : Store K V) (key : K) (now : Nat) :
    (s.touch key now).2.size = s.size ∧ (s.touch key now).2.shownVolume = s.shownVolume := by
  unfold touch
  split
  · exact ⟨rfl, rfl⟩
  · exact ⟨List.length_map _, rfl⟩

namespace Change

omit [DecidableEq K] in
/-- The gauges are always set. -/
theorem shown_of_gauged {α : Type} {change : Change K V α}
    (h : ∀ s now, (change.apply s now).gauged = true) : change.Shown := by
  intro s now hunset
  rw [h] at hunset
  exact nomatch hunset

variable (x : Expiration K V) (key : K) (value : V)

/-- A read that leaves its entry, or finds none, changes nothing that is shown. -/
theorem shown_lookup : (lookup x key).Shown := by
  intro s now
  unfold lookup
  dsimp only
  split
  · exact fun _ => ⟨rfl, rfl⟩
  · split
    · exact fun hunset => nomatch hunset
    · exact fun _ => s.touch_shown key now

theorem shown_putIfAbsent : (putIfAbsent x key value).Shown := by
  intro s now
  unfold putIfAbsent
  dsimp only
  split
  · exact fun hunset => nomatch hunset
  · split
    · exact fun hunset => nomatch hunset
    · exact fun _ => ⟨rfl, rfl⟩

theorem shown_replace : (replace x key value).Shown := by
  refine shown_of_gauged fun s now => ?_
  unfold replace
  dsimp only
  split
  · rfl
  · split <;> rfl

theorem shown_write (attributes : Attributes) (origin : Origin) :
    (write x key value attributes origin).Shown := shown_of_gauged fun _ _ => rfl

end Change

/-- Every operation leaves alone what the gauges show, or sets them. -/
theorem Errand.shown (errand : Errand K V) (x : Expiration K V) : (errand.change x).Shown := by
  cases errand with
  | lookup key => exact Change.shown_lookup x key
  | putIfAbsent key value => exact Change.shown_putIfAbsent x key value
  | replace key value => exact Change.shown_replace x key value
  | write key value attributes origin => exact Change.shown_write x key value attributes origin
  | writeAll | remove | removeAll | clear | expire | trim | purge | resize =>
      exact Change.shown_of_gauged fun _ _ => rfl

/-! ## Counts of failures -/

namespace Metrics

/-- The metrics with other counts of the loads and of the calls of hooks that failed. -/
def failing (m : Metrics) (loads hooks : UInt64) : Metrics :=
  { m with loadFailure := loads, hookFailure := hooks }

variable (m : Metrics) (loads hooks : UInt64)

omit [DecidableEq K] in
theorem countWritten_failing (origin : Origin) (w : Written K V) :
    (m.failing loads hooks).countWritten origin w =
      (m.countWritten origin w).failing loads hooks := by
  cases origin <;> rfl

omit [DecidableEq K] in
/-- No outcome counts as a failure. -/
theorem record_failing (token : Token) (outcome : Outcome K V) :
    (m.failing loads hooks).record token outcome =
      (m.record token outcome).failing loads hooks := by
  have hcount : (m.failing loads hooks).count outcome =
      (m.count outcome).failing loads hooks := by
    cases outcome with
    | put origin written => exact m.countWritten_failing loads hooks origin written
    | putAll origin puts =>
        unfold count
        dsimp only
        induction puts generalizing m with
        | nil => rfl
        | cons written rest ih => rw [List.foldl_cons, countWritten_failing, ih, List.foldl_cons]
    | _ => rfl
  unfold record
  rw [hcount]
  cases token.operation <;> rfl

omit [DecidableEq K] in
theorem record_keeps (token : Token) (outcome : Outcome K V) :
    (m.record token outcome).loadFailure = m.loadFailure ∧
      (m.record token outcome).hookFailure = m.hookFailure := by
  have hsame := m.record_failing m.loadFailure m.hookFailure token outcome
  exact ⟨(congrArg loadFailure hsame :), (congrArg hookFailure hsame :)⟩

end Metrics

/-! ## Rewritten ledgers -/

namespace Ledger

/-- The ledger after a call of a hook was written down. -/
def called (l : Ledger K V) (name : String) (call : HookCall K V) (notes : List HookNote) :
    Ledger K V :=
  { l with hookCalls := l.hookCalls + 1 }.note (.hookCalled name call notes)

/-- The ledger after an outcome was counted. -/
def recorded (l : Ledger K V) (token : Token) (outcome : Outcome K V) : Ledger K V :=
  { l with
    statistics := l.statistics.record outcome
    metrics := l.metrics.record token outcome }

/-- Hooks do not see whether a ledger is rewritten, and it may be rewritten before what they do to
it or after. -/
structure Rewrites (f : Ledger K V → Ledger K V) : Prop where
  callOf_eq : ∀ l token outcome keys, (f l).callOf token outcome keys = l.callOf token outcome keys
  made_eq : ∀ l, (f l).listenerCalls = l.listenerCalls
  called_eq : ∀ l name call notes, (f l).called name call notes = f (l.called name call notes)
  recorded_eq : ∀ l token outcome, (f l).recorded token outcome = f (l.recorded token outcome)
  noteCalls_eq : ∀ l calls, (f l).noteCalls calls = f (l.noteCalls calls)
  report_eq : ∀ l hook token failure,
    (f l).report hook token failure = f (l.report hook token failure)

theorem call_listeners (l : Ledger K V) (name : String) (stage : Stage)
    (listeners : List (Listener K V)) (token : Token) (outcome : Outcome K V) (keys : List K) :
    let calls := ListenerCall.tellAll listeners outcome.events l.listenerCalls
    let fault := combineFaults (calls.filterMap ListenerCall.fault?)
    l.call ⟨name, stage, .listeners listeners⟩ token (some outcome) keys =
      (([], fault.map fun fault => .error (.fault fault)),
        (l.called name (l.callOf token (some outcome) keys) []).noteCalls calls) := rfl

theorem Rewrites.call_eq {f : Ledger K V → Ledger K V} (h : Rewrites f) (l : Ledger K V)
    (hook : Hook K V) (token : Token) (outcome : Option (Outcome K V)) (keys : List K) :
    (f l).call hook token outcome keys = (l.call hook token outcome keys).map id f := by
  obtain ⟨name, stage, handler⟩ := hook
  -- a call is written down first, and told or counted then
  have hcalled : ∀ notes, (f l).called name ((f l).callOf token outcome keys) notes =
      f (l.called name (l.callOf token outcome keys) notes) := by
    intro notes
    rw [h.callOf_eq, h.called_eq]
  cases handler with
  | statistics =>
      cases outcome with
      | none => exact congrArg (Prod.mk _) (hcalled [])
      | some outcome =>
          have hcounted := (congrArg (recorded · token outcome) (hcalled [])).trans
            (h.recorded_eq _ token outcome)
          exact congrArg (Prod.mk _) hcounted
  | listeners listeners =>
      cases outcome with
      | none => exact congrArg (Prod.mk _) (hcalled [])
      | some outcome =>
          rw [call_listeners, call_listeners, h.made_eq, hcalled, h.noteCalls_eq]
          rfl
  | rule reply =>
      unfold call
      dsimp only
      rw [h.callOf_eq]
      exact congrArg (Prod.mk _) (h.called_eq l name _ _)

end Ledger

/-! ## Other hooks -/

/-- Other hooks, and another account of what they do.  A call of the other hook asks for what the
call asks for, and leaves the ledger that the call leaves, reworded. -/
structure Rewording (K V : Type) [DecidableEq K] where
  hook : Hook K V → Hook K V
  ledger : Store K V → Ledger K V → Ledger K V
  ledger_congr : ∀ {s s' : Store K V} (l : Ledger K V), s'.size = s.size →
    s'.shownVolume = s.shownVolume → ledger s' l = ledger s l
  commands_eq : ∀ s (l : Ledger K V) h token outcome keys,
    ((ledger s l).call (hook h) token outcome keys).1.1 = (l.call h token outcome keys).1.1
  call_eq : ∀ s (l : Ledger K V) h token outcome keys,
    ((ledger s l).call (hook h) token outcome keys).2 = ledger s (l.call h token outcome keys).2
  /-- The failure of a call is reported to a later ledger, since commands are obeyed first. -/
  report_eq : ∀ s (l : Ledger K V) h token outcome keys s' (later : Ledger K V),
    (ledger s' later).report (hook h) token ((ledger s l).call (hook h) token outcome keys).1.2 =
      ledger s' (later.report h token (l.call h token outcome keys).1.2)
  gauge_eq : ∀ s s' (l : Ledger K V),
    { ledger s l with metrics := (ledger s l).metrics.gauge s' } =
      ledger s' { l with metrics := l.metrics.gauge s' }

/-- The same hooks, and ledgers that are rewritten. -/
def Rewording.rewriting (f : Store K V → Ledger K V → Ledger K V) (h : ∀ s, Ledger.Rewrites (f s))
    (hcongr : ∀ {s s' : Store K V} (l : Ledger K V), s'.size = s.size →
      s'.shownVolume = s.shownVolume → f s' l = f s l)
    (hgauge : ∀ s s' (l : Ledger K V), { f s l with metrics := (f s l).metrics.gauge s' } =
      f s' { l with metrics := l.metrics.gauge s' }) : Rewording K V where
  hook := id
  ledger := f
  ledger_congr := hcongr
  commands_eq s l hook token outcome keys := by
    rw [id, (h s).call_eq]
    rfl
  call_eq s l hook token outcome keys := by
    rw [id, (h s).call_eq]
    rfl
  report_eq s l hook token outcome keys s' later := by
    rw [id, (h s).call_eq, (h s').report_eq]
    rfl
  gauge_eq := hgauge

/-- What is written of the loads is reworded in the same way. -/
structure Retelling (K V : Type) [DecidableEq K] extends Rewording K V where
  loaderCalled_eq : ∀ s (l : Ledger K V) key forced attributes,
    (ledger s l).note (.loaderCalled key forced attributes) =
      ledger s (l.note (.loaderCalled key forced attributes))
  loadResumed_eq : ∀ s (l : Ledger K V) key,
    (ledger s l).note (.loadResumed key) = ledger s (l.note (.loadResumed key))
  countLoad_eq : ∀ s (l : Ledger K V),
    { ledger s l with metrics := Cache.countLoad (ledger s l).metrics } =
      ledger s { l with metrics := Cache.countLoad l.metrics }
  countFailure_eq : ∀ s (l : Ledger K V),
    { ledger s l with metrics := Cache.countFailure (ledger s l).metrics } =
      ledger s { l with metrics := Cache.countFailure l.metrics }

namespace Rewording

/-- The cache with the other hooks, after the same history. -/
def cache (w : Rewording K V) (c : Cache K V) : Cache K V :=
  { c with hooks := ⟨c.hooks.hooks.map w.hook⟩, ledger := w.ledger c.store c.ledger }

/-- If a change does not set the gauges, there is nothing new for the account either. -/
def Respects {α : Type} (w : Rewording K V) (change : Change K V α) : Prop :=
  ∀ s now (l : Ledger K V), (change.apply s now).gauged = false →
    w.ledger (change.apply s now).store l = w.ledger s l

end Rewording

theorem Change.Shown.respects {α : Type} {change : Change K V α} (h : change.Shown)
    (w : Rewording K V) : w.Respects change :=
  fun s now l hunset => w.ledger_congr l (h s now hunset).1 (h s now hunset).2

namespace Cache

section

variable (w : Rewording K V) {α : Type} (c : Cache K V)

/-! ## Starting -/

theorem startSweeper_retold : (w.cache c).startSweeper = c.startSweeper.map id w.cache := by
  have hinterval : (w.cache c).sweepInterval = c.sweepInterval := rfl
  have hexecutor : (w.cache c).desk.executor = c.desk.executor := rfl
  unfold startSweeper
  rw [hinterval, hexecutor]
  cases c.sweepInterval with
  | none => rfl
  | some period =>
      dsimp only
      split <;> rfl

theorem lazyStart_retold (strict : Bool) :
    Lifecycle.lazyStart lifecycle setLifecycle strict startSweeper (w.cache c) =
      (Lifecycle.lazyStart lifecycle setLifecycle strict startSweeper c).map id w.cache := by
  have hlifecycle : (w.cache c).lifecycle = c.lifecycle := rfl
  have hstarting : (w.cache c).setLifecycle .starting = w.cache (c.setLifecycle .starting) := rfl
  unfold Lifecycle.lazyStart
  rw [hlifecycle, hstarting, startSweeper_retold]
  split
  · rcases (c.setLifecycle .starting).startSweeper with ⟨_ | _, next⟩ <;> rfl
  · rfl

theorem running_retold (strict : Bool) :
    (w.cache c).running strict = (c.running strict).map id w.cache := by
  unfold running
  rw [lazyStart_retold]
  rcases Lifecycle.lazyStart lifecycle setLifecycle strict startSweeper c with
    ⟨_ | _ | _, next⟩ <;> rfl

/-- The cache with another ledger. -/
def written (c : Cache K V) (l : Ledger K V) : Cache K V := { c with ledger := l }

theorem written_retold (l : Ledger K V) :
    (w.cache c).written (w.ledger c.store l) = w.cache (c.written l) := rfl

variable {w c}

/-- What commutes in a cache that runs commutes. -/
theorem whenRunning_retold {operation : Cache K V → α × Cache K V}
    (h : ∀ c, operation (w.cache c) = (operation c).map id w.cache) :
    (w.cache c).whenRunning operation = (c.whenRunning operation).map id w.cache := by
  unfold whenRunning
  rw [running_retold]
  rcases c.running true with ⟨_ | _, next⟩
  · rfl
  · show (operation (w.cache next)).map Except.ok id = _
    rw [h]
    rfl

theorem ifRunning_retold (idle : α) {operation : Cache K V → α × Cache K V}
    (h : ∀ c, operation (w.cache c) = (operation c).map id w.cache) :
    (w.cache c).ifRunning idle operation = (c.ifRunning idle operation).map id w.cache := by
  unfold ifRunning
  rw [running_retold]
  rcases c.running false with ⟨_ | _ | _, next⟩
  · rfl
  · rfl
  · exact h next

/-! ## Changes between hooks -/

section

variable {call : Dispatch K V} {obey : Cache K V → Command K V → Cache K V} {change : Change K V α}

theorem performWith_eq_stored (c : Cache K V) (change : Change K V α) :
    let before := call c ⟨change.operation, c.clock⟩ none
    let t := change.apply before.store before.clock
    c.performWith call change = (t.answer, t.outcomes.foldl
      (fun next outcome => call next ⟨change.operation, c.clock⟩ (some outcome))
      (before.stored t.store t.gauged)) := rfl

theorem stored_retold {s : Store K V} {gauged : Bool}
    (hsame : gauged = false → w.ledger s c.ledger = w.ledger c.store c.ledger) :
    (w.cache c).stored s gauged = w.cache (c.stored s gauged) := by
  unfold stored
  cases gauged with
  | true =>
      rw [if_pos rfl, if_pos rfl]
      unfold measure Rewording.cache
      congr 1
      exact w.gauge_eq _ _ _
  | false =>
      rw [if_neg Bool.false_ne_true, if_neg Bool.false_ne_true]
      unfold Rewording.cache
      congr 1
      exact (hsame rfl).symm

/-- Whoever calls the hooks, the change is the same, as long as the calls are. -/
theorem performWith_retold (hrespects : w.Respects change)
    (hcall : ∀ c token outcome, call (w.cache c) token outcome = w.cache (call c token outcome)) :
    (w.cache c).performWith call change = (c.performWith call change).map id w.cache := by
  have htold : ∀ (outcomes : List (Outcome K V)) token c,
      outcomes.foldl (fun c outcome => call c token (some outcome)) (w.cache c) =
        w.cache (outcomes.foldl (fun c outcome => call c token (some outcome)) c) := by
    intro outcomes token c
    induction outcomes generalizing c with
    | nil => rfl
    | cons outcome rest ih => rw [List.foldl_cons, hcall, ih, List.foldl_cons]
  have hbefore := hcall c ⟨change.operation, c.clock⟩ none
  rw [performWith_eq_stored, performWith_eq_stored]
  have hclock : (w.cache c).clock = c.clock := rfl
  rw [hclock, hbefore]
  generalize call c ⟨change.operation, c.clock⟩ none = before
  have hstored := stored_retold (w := w) (hrespects before.store before.clock before.ledger)
  have hthere : change.apply (w.cache before).store (w.cache before).clock =
      change.apply before.store before.clock := rfl
  rw [hthere, hstored, htold]
  rfl

theorem obeyWith_retold
    (hcall : ∀ c token outcome, call (w.cache c) token outcome = w.cache (call c token outcome))
    (command : Command K V) :
    obeyWith call (w.cache c) command = w.cache (obeyWith call c command) := by
  cases command with
  | shutDown => rfl
  | carryOut errand huser =>
      have hcarried : ∀ c, (w.cache c).performWith call (errand.change c.expiration) =
          (c.performWith call (errand.change c.expiration)).map id w.cache :=
        fun c => performWith_retold ((errand.shown c.expiration).respects w) hcall
      simp only [obeyWith]
      rw [running_retold]
      rcases c.running errand.strict with ⟨_ | _ | _, next⟩
      · rfl
      · rfl
      · exact congrArg Prod.snd (hcarried next)

theorem callHook_eq_written (token : Token) (outcome : Option (Outcome K V)) (c : Cache K V)
    (hook : Hook K V) :
    let called := c.ledger.call hook token outcome c.store.keys
    let later := called.1.1.foldl obey (c.written called.2)
    callHook obey token outcome c hook =
      later.written (later.ledger.report hook token called.1.2) := rfl

theorem callHook_retold
    (hobey : ∀ c command, obey (w.cache c) command = w.cache (obey c command))
    (token : Token) (outcome : Option (Outcome K V)) (hook : Hook K V) :
    callHook obey token outcome (w.cache c) (w.hook hook) =
      w.cache (callHook obey token outcome c hook) := by
  have hobeyed : ∀ (commands : List (Command K V)) c,
      commands.foldl obey (w.cache c) = w.cache (commands.foldl obey c) := by
    intro commands c
    induction commands generalizing c with
    | nil => rfl
    | cons command rest ih => rw [List.foldl_cons, hobey, ih, List.foldl_cons]
  have hledger : (w.cache c).ledger = w.ledger c.store c.ledger := rfl
  have hstore : (w.cache c).store = c.store := rfl
  rw [callHook_eq_written, callHook_eq_written, hledger, hstore, w.commands_eq, w.call_eq,
    written_retold, hobeyed]
  generalize List.foldl obey _ _ = later
  show (w.cache later).written ((w.ledger later.store later.ledger).report _ _ _) = _
  rw [w.report_eq, written_retold]

theorem dispatch_retold (depth : Nat) (c : Cache K V) (token : Token)
    (outcome : Option (Outcome K V)) :
    dispatch depth (w.cache c) token outcome = w.cache (dispatch depth c token outcome) := by
  have hchain : ∀ {obey : Cache K V → Command K V → Cache K V} (hooks : List (Hook K V)) token
      outcome c, (∀ c command, obey (w.cache c) command = w.cache (obey c command)) →
      (hooks.map w.hook).foldl (callHook obey token outcome) (w.cache c) =
        w.cache (hooks.foldl (callHook obey token outcome) c) := by
    intro obey hooks token outcome c hobey
    induction hooks generalizing c with
    | nil => rfl
    | cons hook rest ih =>
        rw [List.map_cons, List.foldl_cons, callHook_retold hobey, ih, List.foldl_cons]
  induction depth generalizing c token outcome with
  | zero => exact hchain c.hooks.hooks token outcome c fun _ _ => rfl
  | succ depth ih => exact hchain c.hooks.hooks token outcome c fun c => obeyWith_retold ih

/-- A change of the cache with the other hooks is the change of the cache. -/
theorem perform_retold (hrespects : w.Respects change) :
    (w.cache c).perform change = (c.perform change).map id w.cache :=
  performWith_retold hrespects (dispatch_retold nestingLimit)

end

end

variable (r : Retelling K V) (c : Cache K V)

/-! ## Errands -/

/-- An errand for the cache with the other hooks is the errand for the cache. -/
theorem errand_retold (errand : Errand K V) :
    (r.cache c).perform (errand.change c.expiration) =
      (c.perform (errand.change c.expiration)).map id r.cache :=
  perform_retold ((errand.shown c.expiration).respects r.toRewording)

theorem strict_retold (errand : Errand K V) (c : Cache K V) :
    (r.cache c).whenRunning (fun c => c.perform (errand.change c.expiration)) =
      (c.whenRunning fun c => c.perform (errand.change c.expiration)).map id r.cache :=
  whenRunning_retold fun c => c.errand_retold r errand

theorem lenient_retold (errand : Errand K V) (idle : errand.Answer) (c : Cache K V) :
    (r.cache c).ifRunning idle (fun c => c.perform (errand.change c.expiration)) =
      (c.ifRunning idle fun c => c.perform (errand.change c.expiration)).map id r.cache :=
  ifRunning_retold idle fun c => c.errand_retold r errand

/-! ## Loads -/

theorem release_retold (future : Future K V) :
    (r.cache c).release future = r.cache (c.release future) := by
  cases future <;> rfl

theorem releaseAll_retold (futures : List (Future K V)) :
    (r.cache c).releaseAll futures = r.cache (c.releaseAll futures) := by
  unfold releaseAll
  induction futures generalizing c with
  | nil => rfl
  | cons future rest ih => rw [List.foldl_cons, release_retold, ih, List.foldl_cons]

theorem countLoad_retold : (r.cache c).measure countLoad = r.cache (c.measure countLoad) := by
  unfold measure Rewording.cache
  congr 1
  exact r.countLoad_eq _ _

theorem countFailure_retold :
    (r.cache c).measure countFailure = r.cache (c.measure countFailure) := by
  unfold measure Rewording.cache
  congr 1
  exact r.countFailure_eq _ _

theorem loadResumed_retold (key : K) :
    (r.cache c).note (.loadResumed key) = r.cache (c.note (.loadResumed key)) := by
  unfold note Rewording.cache
  congr 1
  exact r.loadResumed_eq _ _ _

theorem callLoader_retold (loader : Loader K V) (task : LoadTask K V) :
    (r.cache c).callLoader loader task = (c.callLoader loader task).map id r.cache := by
  unfold callLoader note Rewording.cache
  dsimp only [Prod.map]
  congr 2
  exact r.loaderCalled_eq _ _ _ _ _

theorem doWork_retold (task : LoadTask K V) (work : Work V) :
    (r.cache c).doWork task work = (c.doWork task work).map id r.cache := by
  have hloader : (r.cache c).loader = c.loader := rfl
  cases work with
  | find outcome => rfl
  | callLoader =>
      unfold doWork
      rw [hloader]
      cases c.loader with
      | none => rfl
      | some loader =>
          dsimp only
          rw [callLoader_retold]
          rfl

theorem runJob_retold (id : Nat) : (r.cache c).runJob id = r.cache (c.runJob id) := by
  have hdesk : (r.cache c).desk = c.desk := rfl
  unfold runJob
  rw [hdesk]
  rcases c.desk.job? id with _ | ⟨task, work⟩
  · rfl
  · dsimp only
    rw [doWork_retold]
    rfl

section

variable [KeyText K]

theorem settle_retold (task : LoadTask K V) (outcome : LoadOutcome V) :
    (r.cache c).settle task outcome = r.cache (c.settle task outcome) := by
  cases outcome with
  | value value =>
      have hwrite := perform_retold (c := c.measure countLoad) ((Change.shown_write c.expiration
        task.handle.key value task.attributes .loader).respects r.toRewording)
      unfold settle
      dsimp only
      rw [countLoad_retold]
      have hexpiration : (r.cache c).expiration = c.expiration := rfl
      rw [hexpiration, hwrite]
      rfl
  | nothing =>
      unfold settle
      rw [countLoad_retold]
      rfl
  | error shown =>
      unfold settle
      rw [countFailure_retold]
      rfl
  | panic payload => rfl

theorem submit_retold (task : LoadTask K V) (work : Work V) :
    (r.cache c).submit task work = r.cache (c.submit task work) := by
  have hdesk : (r.cache c).desk = c.desk := rfl
  unfold submit
  rw [hdesk]
  rcases c.desk.submit task work with ⟨_ | _ | outcome, desk⟩
  · have hwork := doWork_retold r { c with desk := desk } task work
    show settle ((r.cache { c with desk := desk }).doWork task work).2
      ((r.cache { c with desk := desk }).doWork task work).1.1 (LoadDesk.jobOutcome
        ((r.cache { c with desk := desk }).doWork task work).1.2) = _
    rw [hwork]
    exact settle_retold r _ _ _
  · rfl
  · exact settle_retold r { c with desk := desk } task outcome

theorem proceed_retold (task : LoadTask K V) (program : LoadProgram V) :
    (r.cache c).proceed task program = r.cache (c.proceed task program) := by
  unfold proceed
  dsimp only
  split
  · exact settle_retold r c _ _
  · rfl
  · exact submit_retold r c _ _

theorem pollTask_retold (id : Nat) : (r.cache c).pollTask id = r.cache (c.pollTask id) := by
  have hdesk : (r.cache c).desk = c.desk := rfl
  have hloader : (r.cache c).loader = c.loader := rfl
  unfold pollTask
  rw [hdesk, hloader]
  rcases c.desk.poll? id with _ | ⟨task⟩ | ⟨task, _ | program⟩ | ⟨task, rest⟩ | ⟨task, outcome⟩
  · rfl
  · rfl
  · cases c.loader with
    | none => exact settle_retold r c task _
    | some loader =>
        dsimp only
        split
        · exact submit_retold r c task _
        · rw [callLoader_retold]
          exact proceed_retold r _ task _
  · exact proceed_retold r c task program
  · dsimp only
    rw [loadResumed_retold]
    exact proceed_retold r _ task rest
  · exact settle_retold r c task outcome

theorem runTicket_retold (ticket : Ticket) :
    (r.cache c).runTicket ticket = r.cache (c.runTicket ticket) := by
  cases ticket with
  | task id => exact pollTask_retold r c id
  | job id => exact runJob_retold r c id

theorem runQueue_retold (count : Nat) :
    (r.cache c).runQueue count = r.cache (c.runQueue count) := by
  induction count generalizing c with
  | zero => rfl
  | succ count ih =>
      have hdesk : (r.cache c).desk = c.desk := rfl
      unfold runQueue
      rw [hdesk]
      rcases c.desk.executor.next? with _ | ⟨ticket, executor⟩
      · rfl
      · dsimp only
        rw [← ih, ← runTicket_retold]
        rfl

theorem runIdle_retold : (r.cache c).runIdle = r.cache c.runIdle := runQueue_retold r c _

theorem requestLoad_retold (key : K) (attributes : Attributes) (forced : Bool) :
    (r.cache c).requestLoad key attributes forced =
      (c.requestLoad key attributes forced).map id r.cache := by
  have hdesk : (r.cache c).desk = c.desk := rfl
  have hloader : (r.cache c).loader = c.loader := rfl
  unfold requestLoad
  rw [hdesk, hloader]
  split
  · rfl
  · rcases c.desk.request key attributes forced none .error with
      ⟨⟨handle | handle | e, _ | _⟩, desk⟩
    · rfl
    · rfl
    · rfl
    · exact congrArg (Prod.mk _) (pollTask_retold r { c with desk := desk } handle.id)
    · rfl
    · rfl

end

end Cache

end BoundedCache
