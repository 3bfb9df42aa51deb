import BoundedCache.Proofs.Cache.Moves
import BoundedCache.Proofs.Cache.Perform

/-!
# What hooks cannot change

A hook can shut the cache down and write to its store, and a call of a hook can start the
cache.  None of this touches the setting in which the operation that is going on was begun:
the rule of expiration, the clock, the hooks themselves, the loader and its calls.  So an
operation that reads these after the hooks were called reads what it would have read before.

`perform` is taken apart here into what comes before the change (`announced`), the change, and
what comes after it (`told`).
-/

namespace BoundedCache

namespace Cache

variable {K V α : Type} {c c' c'' : Cache K V}

theorem steady_sameSetting : Steady (SameSetting : Cache K V → Cache K V → Prop) where
  trans := SameSetting.trans
  inData _ _ _ := ⟨rfl, rfl, rfl, rfl, rfl, rfl⟩
  running := sameSetting_running
  shutDown _ := ⟨rfl, rfl, rfl, rfl, rfl, rfl⟩

/-! ## Before and after a change -/

variable [DecidableEq K]

/-- The cache once its hooks have been told that an operation is about to happen. -/
def announced (c : Cache K V) (operation : Operation) : Cache K V :=
  dispatch nestingLimit c ⟨operation, c.clock⟩ none

/-- The cache once its hooks have been told of the outcomes, in order. -/
def told (c : Cache K V) (token : Token) (outcomes : List (Outcome K V)) : Cache K V :=
  outcomes.foldl (fun c outcome => dispatch nestingLimit c token (some outcome)) c

/-- The cache with another store, shown by the gauges if there is something new to show. -/
def stored (c : Cache K V) (store : Store K V) (gauged : Bool) : Cache K V :=
  if gauged then { c with store := store }.measure (·.gauge store) else { c with store := store }

theorem sameSetting_announced (c : Cache K V) (operation : Operation) :
    SameSetting c (c.announced operation) := steady_sameSetting.dispatch _ c _ _

theorem perform_eq_told (c : Cache K V) (change : Change K V α) :
    let t := change.apply (c.announced change.operation).store c.clock
    c.perform change = (t.answer,
      ((c.announced change.operation).stored t.store t.gauged).told ⟨change.operation, c.clock⟩
        t.outcomes) := by
  have hperform : c.perform change =
      let t := change.apply (c.announced change.operation).store
        (c.announced change.operation).clock
      (t.answer, ((c.announced change.operation).stored t.store t.gauged).told
        ⟨change.operation, c.clock⟩ t.outcomes) := rfl
  rwa [(c.sameSetting_announced change.operation).clock_eq] at hperform

/-- Whatever happens, the hooks stay what they are. -/
theorem Move.hooks_eq (h : Move c c') : c'.hooks = c.hooks := by
  cases h with
  | run strict => exact (c.sameSetting_running strict).hooks_eq
  | perform change => exact (steady_sameSetting.perform c change).hooks_eq
  | record _ hhooks _ => exact hhooks
  | shutDown | shutDownNow | request | setTask | finish | detach | openGate | setOrphans
  | schedule => rfl

theorem Moves.hooks_eq (h : Moves c c') : c'.hooks = c.hooks :=
  h.lift (R := fun c c' => c'.hooks = c.hooks) (fun _ => rfl) (fun h h' => h'.trans h)
    Move.hooks_eq

end Cache

/-! ## Hooks that wait -/

/-- The hook asks for nothing before a change; it may afterwards. -/
def Hook.Waits {K V : Type} (hook : Hook K V) : Prop :=
  match hook.handler with
  | .rule reply => ∀ call, call.outcome = none → (reply call).commands = []
  | _ => True

theorem Hook.Waits.commands_eq {K V : Type} [DecidableEq K] {hook : Hook K V} (h : hook.Waits)
    (l : Ledger K V) (token : Token) (keys : List K) : (l.call hook token none keys).1.1 = [] := by
  obtain ⟨name, stage, handler⟩ := hook
  cases handler with
  | statistics => rfl
  | listeners listeners => rfl
  | rule reply => exact h _ rfl

/-- If the hooks wait, announcing an operation is only written in the ledger. -/
theorem Cache.announced_eq {K V : Type} [DecidableEq K] {c : Cache K V}
    (h : ∀ hook ∈ c.hooks.hooks, hook.Waits) (operation : Operation) :
    c.announced operation =
      { c with
        ledger := c.ledger.callAll c.hooks.hooks ⟨operation, c.clock⟩ none c.store.keys } :=
  foldl_callHook_eq (.inl fun hook hmem l => (h hook hmem).commands_eq l _ _)

end BoundedCache
