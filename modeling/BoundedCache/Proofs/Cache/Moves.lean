import BoundedCache.Cache.Builder
import BoundedCache.Cache.Operations
import BoundedCache.Proofs.Cache.Running
import BoundedCache.Proofs.Load.Desk
import Mathlib.Logic.Relation

/-!
# What an operation is made of

A cache has no more than a dozen ways to move: it finds out whether it runs, it is shut
down, a change is performed between its hooks, something happens at the desk, or something
is written down of it.  Every turn of a task, and all else that happens to a cache, is a
sequence of such moves.  So what each move preserves is preserved by everything that a cache
can do, and by whatever hooks ask of it meanwhile, since that is a part of the change that
they bracket.
-/

namespace BoundedCache

/-! ## Commands -/

/-- On some call the hook asks for this. -/
def Hook.Commands {K V : Type} (hook : Hook K V) (command : Command K V) : Prop :=
  match hook.handler with
  | .rule reply => ∃ call, command ∈ (reply call).commands
  | _ => False

/-- On some call one of the hooks asks for this. -/
def HookChain.Commands {K V : Type} (chain : HookChain K V) (command : Command K V) : Prop :=
  ∃ hook ∈ chain.hooks, hook.Commands command

theorem Ledger.commands_of_mem {K V : Type} [DecidableEq K] {l : Ledger K V} {hook : Hook K V}
    {token : Token} {outcome : Option (Outcome K V)} {keys : List K} {command : Command K V}
    (h : command ∈ (l.call hook token outcome keys).1.1) : hook.Commands command := by
  obtain ⟨name, stage, handler⟩ := hook
  cases handler with
  | statistics => cases outcome <;> exact absurd h List.not_mem_nil
  | listeners listeners => cases outcome <;> exact absurd h List.not_mem_nil
  | rule reply => exact ⟨_, h⟩

namespace Cache

variable {K V : Type} {c c' c'' : Cache K V} {α : Type}

/-! ## Changes between hooks -/

/-- What hooks may ask of a cache, and what else happens between the calls, keeps to `R`: only
the store and the ledger change, or the cache is started or shut down. -/
structure Steady (R : Cache K V → Cache K V → Prop) : Prop where
  trans : ∀ {c c' c''}, R c c' → R c' c'' → R c c''
  inData : ∀ (c : Cache K V) store ledger, R c { c with store := store, ledger := ledger }
  running : ∀ (c : Cache K V) strict, R c (c.running strict).2
  shutDown : ∀ c : Cache K V, R c c.shutDown.2

variable [DecidableEq K]

/-- The same where it matters which change it is: those that are `Allowed` keep to `R`, and they
include what hooks ask for. -/
structure Governs (Allowed : {α : Type} → Cache K V → Change K V α → Prop)
    (R : Cache K V → Cache K V → Prop) : Prop where
  trans : ∀ {c c' c''}, R c c' → R c' c'' → R c c''
  hooks_eq : ∀ {c c'}, R c c' → c'.hooks = c.hooks
  inLedger : ∀ (c : Cache K V) ledger, R c { c with ledger := ledger }
  running : ∀ (c : Cache K V) strict, R c (c.running strict).2
  shutDown : ∀ c : Cache K V, R c c.shutDown.2
  apply : ∀ {α : Type} (c : Cache K V) (change : Change K V α), Allowed c change →
    R c { c with store := (change.apply c.store c.clock).store }
  asked : ∀ c errand huser, c.hooks.Commands (.carryOut errand huser) →
    Allowed c (errand.change c.expiration)
  lasting : ∀ {α : Type} {c c'} {change : Change K V α}, R c c' → Allowed c change →
    Allowed c' change

namespace Governs

variable {Allowed : {α : Type} → Cache K V → Change K V α → Prop}
variable {R : Cache K V → Cache K V → Prop}

/-- The hooks are the same all the way. -/
theorem foldl (h : Governs Allowed R) {β : Type} {f : Cache K V → β → Cache K V} {items : List β}
    (hf : ∀ c', c'.hooks = c.hooks → ∀ b ∈ items, R c' (f c' b)) : R c (items.foldl f c) := by
  induction items generalizing c with
  | nil => exact h.inLedger c c.ledger
  | cons item items ih =>
      rw [List.foldl_cons]
      have hfirst : R c (f c item) := hf c rfl item List.mem_cons_self
      have hhooks := h.hooks_eq hfirst
      refine h.trans hfirst (ih fun c' hc' b hb => ?_)
      exact hf c' (hc'.trans hhooks) b (List.mem_cons_of_mem _ hb)

theorem performWith (h : Governs Allowed R) {call : Dispatch K V}
    (hcall : ∀ c token outcome, R c (call c token outcome)) (c : Cache K V)
    {change : Change K V α} (hallowed : Allowed c change) :
    R c (c.performWith call change).2 := by
  have hannounced := hcall c ⟨change.operation, c.clock⟩ none
  unfold Cache.performWith
  refine h.trans hannounced ?_
  refine h.trans (h.apply _ change (h.lasting hannounced hallowed)) ?_
  refine h.trans ?_ (h.foldl fun c _ outcome _ => hcall c _ (some outcome))
  -- what is left between the calls is to set the gauges
  split <;> exact h.inLedger _ _

theorem obeyWith (h : Governs Allowed R) {call : Dispatch K V}
    (hcall : ∀ c token outcome, R c (call c token outcome)) {command : Command K V}
    (hcommand : c.hooks.Commands command) : R c (obeyWith call c command) := by
  cases command with
  | shutDown => exact h.shutDown c
  | carryOut errand huser =>
      have hrun := h.running c errand.strict
      simp only [Cache.obeyWith]
      split
      · rename_i next heq
        rw [heq] at hrun
        have hasked : next.hooks.Commands (.carryOut errand huser) := h.hooks_eq hrun ▸ hcommand
        exact h.trans hrun (h.performWith hcall next (h.asked next errand huser hasked))
      · rename_i heq
        rwa [heq] at hrun

theorem callHook (h : Governs Allowed R) {obey : Cache K V → Command K V → Cache K V}
    (hobey : ∀ c command, c.hooks.Commands command → R c (obey c command)) (token : Token)
    (outcome : Option (Outcome K V)) {hook : Hook K V} (hmem : hook ∈ c.hooks.hooks) :
    R c (callHook obey token outcome c hook) := by
  have hasked : ∀ command ∈ (c.ledger.call hook token outcome c.store.keys).1.1,
      c.hooks.Commands command := fun _ hcommand => ⟨hook, hmem, Ledger.commands_of_mem hcommand⟩
  unfold Cache.callHook
  generalize c.ledger.call hook token outcome c.store.keys = called at hasked
  obtain ⟨⟨commands, failure⟩, ledger⟩ := called
  have hcalled : R c { c with ledger := ledger } := h.inLedger c ledger
  have hobeyed : R { c with ledger := ledger } (commands.foldl obey { c with ledger := ledger }) :=
    h.foldl fun c' hc' command hcommand => hobey c' command (hc' ▸ hasked command hcommand)
  exact h.trans (h.trans hcalled hobeyed) (h.inLedger _ _)

/-- Calling the hooks keeps to the relation, whatever they ask for. -/
theorem dispatch (h : Governs Allowed R) (depth : Nat) (c : Cache K V) (token : Token)
    (outcome : Option (Outcome K V)) : R c (dispatch depth c token outcome) := by
  have hchain : ∀ {obey : Cache K V → Command K V → Cache K V} c token outcome,
      (∀ c command, c.hooks.Commands command → R c (obey c command)) →
        R c (c.hooks.hooks.foldl (Cache.callHook obey token outcome) c) :=
    fun c token outcome hobey => h.foldl fun c' hc' hook hmem =>
      h.callHook hobey token outcome (hc' ▸ hmem)
  induction depth generalizing c token outcome with
  | zero => exact hchain c token outcome fun c _ _ => h.inLedger c c.ledger
  | succ depth ih => exact hchain c token outcome fun c _ => h.obeyWith ih

theorem perform (h : Governs Allowed R) (c : Cache K V) {change : Change K V α}
    (hallowed : Allowed c change) : R c (c.perform change).2 :=
  h.performWith (h.dispatch nestingLimit) c hallowed

end Governs

namespace Steady

variable {R : Cache K V → Cache K V → Prop}

/-- Where only the store and the ledger matter, any change is allowed. -/
theorem governs (h : Steady R) :
    Governs (fun _ _ => True) (fun c c' => R c c' ∧ c'.hooks = c.hooks) where
  trans hfirst hlater := ⟨h.trans hfirst.1 hlater.1, hlater.2.trans hfirst.2⟩
  hooks_eq := And.right
  inLedger c ledger := ⟨h.inData c c.store ledger, rfl⟩
  running c strict := ⟨h.running c strict, (c.sameSetting_running strict).hooks_eq⟩
  shutDown c := ⟨h.shutDown c, rfl⟩
  apply c _ _ := ⟨h.inData c _ c.ledger, rfl⟩
  asked _ _ _ _ := trivial
  lasting _ := id

theorem dispatch (h : Steady R) (depth : Nat) (c : Cache K V) (token : Token)
    (outcome : Option (Outcome K V)) : R c (dispatch depth c token outcome) :=
  (h.governs.dispatch depth c token outcome).1

theorem perform (h : Steady R) (c : Cache K V) (change : Change K V α) :
    R c (c.perform change).2 :=
  (h.governs.perform c trivial).1

end Steady

/-! ## Moves -/

/-- The ways in which a cache moves. -/
inductive Move (c : Cache K V) : Cache K V → Prop where
  | run (strict : Bool) : Move c (c.running strict).2
  | shutDown : Move c c.shutDown.2
  | shutDownNow : Move c c.shutDownNow.2
  | perform {α : Type} (change : Change K V α) : Move c (c.perform change).2
  | request (key : K) (attributes : Attributes) (forced : Bool) :
      Move c { c with desk := (c.desk.request key attributes forced none .error).2 }
  /-- A task goes on, in another phase. -/
  | setTask (task : LoadTask K V) (hmem : task.handle ∈ c.desk.tasks.map (·.handle)) :
      Move c { c with desk := c.desk.setTask task }
  | finish (handle : LoadHandle K) (answer : Answer K V) :
      Move c { c with desk := c.desk.finish handle answer }
  | detach (handle : LoadHandle K) :
      Move c { c with desk := c.desk.detach (.error .cancelled) handle }
  | openGate (key : K) : Move c { c with desk := c.desk.openGate key }
  /-- A job that nobody waits for is left behind, or is done. -/
  | setOrphans (orphans : List (LoadTask K V)) :
      Move c { c with desk := { c.desk with orphans := orphans } }
  /-- The executor changes: a ticket is taken or given, or its rules are set. -/
  | schedule (executor : Executor) :
      Move c { c with desk := { c.desk with executor := executor } }
  /-- Something is written down, or time passes. -/
  | record {c' : Cache K V} (hstore : c'.store = c.store) (hhooks : c'.hooks = c.hooks)
      (hdesk : c'.desk = c.desk) : Move c c'

/-- A sequence of moves. -/
def Moves : Cache K V → Cache K V → Prop := Relation.ReflTransGen Move

theorem Moves.refl (c : Cache K V) : Moves c c := Relation.ReflTransGen.refl

theorem Move.moves (h : Move c c') : Moves c c' := Relation.ReflTransGen.single h

theorem Moves.trans (h : Moves c c') (h' : Moves c' c'') : Moves c c'' :=
  Relation.ReflTransGen.trans h h'

/-- Whatever holds of all moves and can be composed holds of all sequences. -/
theorem Moves.lift {R : Cache K V → Cache K V → Prop} (hrefl : ∀ c, R c c)
    (htrans : ∀ {c c' c''}, R c c' → R c' c'' → R c c'') (hmove : ∀ {c c'}, Move c c' → R c c')
    (h : Moves c c') : R c c' := by
  induction h with
  | refl => exact hrefl c
  | tail _ hlast ih => exact htrans ih (hmove hlast)

/-- The rest of the desk stays if a task is woken. -/
theorem moves_wake (c : Cache K V) (id : Nat) : Moves c { c with desk := c.desk.wake id } := by
  rw [LoadDesk.wake_eq]
  exact (Move.schedule _).moves

theorem moves_record (hstore : c'.store = c.store) (hhooks : c'.hooks = c.hooks)
    (hdesk : c'.desk = c.desk) : Moves c c' :=
  (Move.record hstore hhooks hdesk).moves

theorem moves_perform (c : Cache K V) (change : Change K V α) : Moves c (c.perform change).2 :=
  (Move.perform change).moves

/-! ## Loads -/

theorem moves_release (c : Cache K V) (future : Future K V) : Moves c (c.release future) := by
  cases future with
  | ready answer => exact .refl c
  | load handle => exact (Move.detach handle).moves

theorem moves_doWork (c : Cache K V) (task : LoadTask K V) (work : Work V) :
    Moves c (c.doWork task work).2 := by
  unfold doWork
  split
  · exact .refl c
  · split
    · exact .refl c
    · exact moves_record rfl rfl rfl

/-- A job does its work without the desk, and on the task that it belongs to. -/
theorem doWork_desk (c : Cache K V) (task : LoadTask K V) (work : Work V) :
    (c.doWork task work).2.desk = c.desk ∧ (c.doWork task work).1.1.handle = task.handle := by
  unfold doWork
  split
  · exact ⟨rfl, rfl⟩
  · split
    · exact ⟨rfl, rfl⟩
    · exact ⟨rfl, rfl⟩

theorem moves_answerJob (c : Cache K V) {task : LoadTask K V}
    (hplace : c.desk.task? task.handle.id = none ∨
      task.handle ∈ c.desk.tasks.map (·.handle)) (outcome : LoadOutcome V) :
    Moves c { c with desk := c.desk.answerJob task outcome } := by
  unfold LoadDesk.answerJob
  split
  · rename_i hthere
    have hmem := hplace.resolve_left (hthere ▸ nofun)
    refine (Move.setTask { task with phase := _ } ?_).moves.trans (moves_wake _ _)
    exact hmem
  · exact (Move.setOrphans _).moves

theorem moves_runJob (c : Cache K V) (id : Nat) : Moves c (c.runJob id) := by
  unfold runJob
  split
  · exact .refl c
  · rename_i task work hjob
    have hworked := c.moves_doWork task work
    obtain ⟨hdesk, hhandle⟩ := c.doWork_desk task work
    have hplace : c.desk.task? task.handle.id = none ∨
        task.handle ∈ c.desk.tasks.map (·.handle) := by
      obtain ⟨-, -, rfl, htask | ⟨hnone, -⟩⟩ := LoadDesk.job?_cases hjob
      · exact .inr (List.mem_map.mpr ⟨task, (LoadDesk.mem_of_task? htask).1, rfl⟩)
      · exact .inl hnone
    rw [← hhandle, ← hdesk] at hplace
    exact hworked.trans (moves_answerJob _ hplace _)

theorem moves_abandon (c : Cache K V) (id : Nat) : Moves c (c.abandon id) := by
  unfold abandon
  rcases c.desk.abandon_cases id .error with heq | ⟨task, error, orphans, -, -, heq⟩
  · rw [heq]
    exact .refl c
  · rw [heq]
    exact (Move.finish _ _).moves.trans (Move.setOrphans orphans).moves

section

variable [KeyText K]

theorem moves_settle (c : Cache K V) (task : LoadTask K V) (outcome : LoadOutcome V) :
    Moves c (c.settle task outcome) := by
  have hmeasure : ∀ change, Moves c (c.measure change) := fun _ => moves_record rfl rfl rfl
  cases outcome with
  | value value =>
      exact ((hmeasure _).trans (moves_perform _ _)).trans (Move.finish _ _).moves
  | nothing => exact (hmeasure _).trans (Move.finish _ _).moves
  | error shown => exact (hmeasure _).trans (Move.finish _ _).moves
  | panic payload => exact (Move.finish _ _).moves

theorem moves_submit (c : Cache K V) {task : LoadTask K V}
    (hmem : task.handle ∈ c.desk.tasks.map (·.handle)) (work : Work V) :
    Moves c (c.submit task work) := by
  unfold submit LoadDesk.submit
  cases c.desk.executor.blocking with
  | queue =>
      refine (Move.setTask _ ?_).moves.trans (Move.schedule _).moves
      exact hmem
  | inline => exact (c.moves_doWork task work).trans (moves_settle _ _ _)
  | reject => exact c.moves_settle task _
  | drop => exact c.moves_settle task _

theorem moves_proceed (c : Cache K V) {task : LoadTask K V}
    (hmem : task.handle ∈ c.desk.tasks.map (·.handle)) (program : LoadProgram V) :
    Moves c (c.proceed task program) := by
  unfold proceed
  dsimp only
  split
  · exact c.moves_settle _ _
  · refine (Move.setTask _ ?_).moves
    exact hmem
  · refine moves_submit c ?_ _
    exact hmem

theorem moves_pollTask (c : Cache K V) (id : Nat) : Moves c (c.pollTask id) := by
  unfold pollTask
  split
  · exact .refl c
  · exact (Move.finish _ _).moves
  · rename_i hpoll
    exact c.moves_proceed (LoadDesk.handle_mem_of_poll? hpoll) _
  · rename_i hpoll
    have hmem := LoadDesk.handle_mem_of_poll? hpoll
    split
    · exact c.moves_settle _ _
    · split
      · exact c.moves_submit hmem _
      · rename_i task _ loader _ _
        have hcalled : Moves c (c.callLoader loader task).2 := moves_record rfl rfl rfl
        refine hcalled.trans (moves_proceed _ ?_ _)
        exact hmem
  · rename_i task rest hpoll
    have hnoted : Moves c (c.note (.loadResumed task.handle.key)) := moves_record rfl rfl rfl
    refine hnoted.trans (moves_proceed _ ?_ _)
    exact LoadDesk.handle_mem_of_poll? hpoll
  · exact c.moves_settle _ _

theorem moves_runTicket (c : Cache K V) (ticket : Ticket) : Moves c (c.runTicket ticket) := by
  cases ticket with
  | task id => exact c.moves_pollTask id
  | job id => exact c.moves_runJob id

theorem moves_requestLoad (c : Cache K V) (key : K) (attributes : Attributes) (forced : Bool) :
    Moves c (c.requestLoad key attributes forced).2 := by
  have hrequest : Moves c { c with desk := (c.desk.request key attributes forced none .error).2 } :=
    (Move.request key attributes forced).moves
  rcases c.requestLoad_cases key attributes forced with heq | heq | ⟨id, heq⟩
  · rw [heq]
    exact .refl c
  · rw [heq]
    exact hrequest
  · rw [heq]
    exact hrequest.trans (moves_pollTask _ id)

end

end Cache

end BoundedCache

