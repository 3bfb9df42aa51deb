import BoundedCache.Proofs.Cache.Liveness

/-!
# A batch, and the same one by one

`putAll` and `removeAll` change the store once, and the hooks are told once, of everything.  What
they are told is what they would be told of the single operations, put together; so the data, the
counters and the listeners find no difference (`SameEffect`).

A hook that calls back into the cache does find one.  It is called between two single writes, and
what it asks for is done there and then, but of a batch it hears when everything is written.  So
the hooks must ask for nothing about these operations (`Hook.InertOn`); about any other they may.
-/

namespace BoundedCache

variable {K V : Type}

/-! ## Hooks that ask for nothing about an operation -/

/-- The hook is not one of the cache itself, and asks for nothing about this operation. -/
def Hook.InertOn (operation : Operation) (hook : Hook K V) : Prop :=
  match hook.handler with
  | .rule reply => ∀ call, call.token.operation = operation → (reply call).commands = []
  | _ => False

/-- The hook without anything that it asks for. -/
def Hook.silent (hook : Hook K V) : Hook K V where
  name := hook.name
  stage := hook.stage
  handler :=
    match hook.handler with
    | .rule reply => .rule fun call => { reply call with commands := [] }
    | handler => handler

theorem Hook.InertOn.inert_silent {operation : Operation} {hook : Hook K V}
    (h : hook.InertOn operation) : hook.silent.Inert := by
  obtain ⟨name, stage, handler⟩ := hook
  cases handler with
  | rule reply => exact fun _ => rfl
  | statistics => exact h.elim
  | listeners listeners => exact h.elim

theorem Hook.InertOn.commands_eq [DecidableEq K] {token : Token} {hook : Hook K V}
    (h : hook.InertOn token.operation) (l : Ledger K V) (outcome : Option (Outcome K V))
    (keys : List K) : (l.call hook token outcome keys).1.1 = [] := by
  obtain ⟨name, stage, handler⟩ := hook
  cases handler with
  | rule reply => exact h _ rfl
  | statistics => exact h.elim
  | listeners listeners => exact h.elim

namespace Ledger

variable [DecidableEq K] (l : Ledger K V) (hooks : List (Hook K V)) (token : Token)
  (outcome : Option (Outcome K V)) (keys : List K)

/-- What a hook asks for is not written in the ledger. -/
theorem callReported_silent (hook : Hook K V) :
    l.callReported hook.silent token outcome keys = l.callReported hook token outcome keys := by
  obtain ⟨name, stage, handler⟩ := hook
  cases handler with
  | rule reply => rfl
  | statistics => cases outcome <;> rfl
  | listeners listeners => cases outcome <;> rfl

theorem callAll_silent :
    l.callAll (hooks.map Hook.silent) token outcome keys = l.callAll hooks token outcome keys := by
  simp only [callAll, List.foldl_map, callReported_silent]

theorem bracket_silent {α : Type} (t : Transaction K V α) :
    l.bracket (hooks.map Hook.silent) token keys t = l.bracket hooks token keys t := by
  simp only [bracket, tellAll, callAll_silent]

end Ledger

namespace Builder

variable {b : Builder K V} {operation : Operation}

/-- Without what they ask for, the hooks make up the chain of a cache with inert hooks. -/
theorem silent_wired (h : ∀ hook ∈ b.hooks, hook.InertOn operation) :
    HookChain.Wired b.listeners ⟨(HookChain.ofHooks b.allHooks).hooks.map Hook.silent⟩ := by
  have hinert : ∀ hook ∈ b.hooks.map Hook.silent, hook.Inert := by
    intro hook hmem
    obtain ⟨own, hown, rfl⟩ := List.mem_map.mp hmem
    exact (h own hown).inert_silent
  have hall : allHooks { b with hooks := b.hooks.map Hook.silent } =
      b.allHooks.map Hook.silent := by
    unfold allHooks
    by_cases hnone : b.listeners.isEmpty = true
    · simp [hnone, Hook.silent, Hook.statistics]
    · simp [hnone, Hook.silent, Hook.statistics, Hook.listeners]
  have hwired := allHooks_wired (b := { b with hooks := b.hooks.map Hook.silent }) hinert
  rw [hall, HookChain.ofHooks_map Hook.silent fun _ => rfl] at hwired
  exact hwired

end Builder

variable [DecidableEq K]

/-! ## What single removals add up to -/

theorem Statistics.countRemoved_add (s : Statistics) (m n : Nat) :
    (s.countRemoved m).countRemoved n = s.countRemoved (m + n) := by
  simp only [countRemoved, Nat.toUInt64, UInt64.ofNat_add, UInt64.add_assoc]

section

variable {keys : List K} {found : List (Option (Entry K V))}

theorem events_removals (h : found.length = keys.length) :
    (List.zipWith Outcome.remove keys found).flatMap Outcome.events =
      (Outcome.removeAll found.reduceOption).events := by
  induction keys generalizing found with
  | nil => rw [List.length_eq_zero_iff.mp h]; rfl
  | cons key keys ih =>
      obtain ⟨removed, found, rfl⟩ := List.exists_cons_of_length_eq_add_one h
      rw [List.zipWith_cons_cons, List.flatMap_cons, ih (Nat.succ.inj h)]
      cases removed <;> rfl

omit [DecidableEq K] in
theorem record_removals (s : Statistics) (h : found.length = keys.length) :
    (List.zipWith Outcome.remove keys found).foldl Statistics.record s =
      s.record (Outcome.removeAll (K := K) (V := V) found.reduceOption) := by
  induction keys generalizing found s with
  | nil =>
      rw [List.length_eq_zero_iff.mp h]
      exact (congrArg (fun n => { s with removes := n }) (UInt64.add_zero s.removes)).symm
  | cons key keys ih =>
      obtain ⟨removed, found, rfl⟩ := List.exists_cons_of_length_eq_add_one h
      rw [List.zipWith_cons_cons, List.foldl_cons, ih _ (Nat.succ.inj h)]
      refine (s.countRemoved_add _ _).trans (congrArg s.countRemoved ?_)
      cases removed with
      | none => exact Nat.zero_add _
      | some entry => exact Nat.add_comm 1 _

end

namespace Cache

variable {b : Builder K V} {c : Cache K V}

/-- The cache runs with the hooks of these parts, and none of them asks for anything about the
operation. -/
structure Unasked (b : Builder K V) (operation : Operation) (c : Cache K V) : Prop where
  hooks_eq : c.hooks = .ofHooks b.allHooks
  running : c.lifecycle = .running
  inert : ∀ hook ∈ b.hooks, hook.InertOn operation

/-- A change is then that of the store, and its outcomes are told. -/
theorem Unasked.perform_eq {α : Type} (change : Change K V α)
    (h : c.Unasked b change.operation) :
    ∃ l, c.perform change = ((change.apply c.store c.clock).answer,
        { c with store := (change.apply c.store c.clock).store, ledger := l }) ∧
      Ledger.Tells b.listeners.length c.hooks.hooks.length c.ledger
        (change.apply c.store c.clock).outcomes l := by
  have hnothing : ∀ hook ∈ c.hooks.hooks, ∀ (l : Ledger K V) (outcome : Option (Outcome K V)) keys,
      (l.call hook ⟨change.operation, c.clock⟩ outcome keys).1.1 = [] := by
    have hcounting : (Hook.statistics : Hook K V).Quiet := trivial
    have htelling : (Hook.listeners .event b.listeners).Quiet := trivial
    rw [h.hooks_eq]
    refine Builder.forall_hooks_allHooks ?_ ?_ fun hook hmem => ?_
    · exact fun l outcome keys => l.call_commands _ keys hcounting outcome
    · exact fun l outcome keys => l.call_commands _ keys htelling outcome
    · exact (h.inert hook hmem).commands_eq
  refine ⟨_, performWith_eq change fun s l outcome => dispatch_of_nothing
    (c := { c with store := s, ledger := l })
    (fun hook hmem l => hnothing hook hmem l outcome s.keys) nestingLimit, ?_⟩
  rw [h.hooks_eq, ← Ledger.bracket_silent]
  have htells := (Builder.silent_wired h.inert).tells_bracket c.ledger
    ⟨change.operation, c.clock⟩ c.store.keys (change.apply c.store c.clock)
  rwa [List.length_map] at htells

/-! ## One by one -/

/-- Do the same with each item in turn; the answers are in order. -/
def inTurn {α β : Type} (operation : Cache K V → α → β × Cache K V) (c : Cache K V) :
    List α → List β × Cache K V
  | [] => ([], c)
  | item :: items =>
      let (answer, c) := operation c item
      let (answers, c) := inTurn operation c items
      (answer :: answers, c)

/-- Put the pairs one after the other. -/
def putEach (c : Cache K V) (pairs : List (K × V)) :
    List (Except CacheError (Entry K V)) × Cache K V :=
  c.inTurn (fun c pair => c.put pair.1 pair.2 {}) pairs

/-- Remove the keys one after the other. -/
def removeEach (c : Cache K V) (keys : List K) : List (Answer K V) × Cache K V :=
  c.inTurn remove keys

theorem putEach_eq (h : c.Unasked b .put) (pairs : List (K × V)) :
    let t := c.store.putAll {} (c.expiration.timeOf c.clock none) c.clock pairs
    ∃ l, c.putEach pairs =
        (t.1.map fun written => .ok written.new, { c with store := t.2, ledger := l }) ∧
      Ledger.Tells b.listeners.length c.hooks.hooks.length c.ledger (t.1.map (.put .user)) l := by
  induction pairs generalizing c with
  | nil => exact ⟨c.ledger, rfl, .refl⟩
  | cons pair pairs ih =>
      obtain ⟨l, hperform, htells⟩ := Unasked.perform_eq
        (.write c.expiration pair.1 pair.2 {} .user) h
      let written := c.store.put pair.1 pair.2 {} (c.expiration.timeOf c.clock none) c.clock true
      let after : Cache K V := { c with store := written.2, ledger := l }
      have hput : c.put pair.1 pair.2 {} = (.ok written.1.new, after) := by
        rw [put, whenRunning_of_running h.running, hperform]
        rfl
      obtain ⟨l', hrest, htells'⟩ := ih (c := after) ⟨h.hooks_eq, h.running, h.inert⟩
      refine ⟨l', ?_, htells.trans htells'⟩
      rw [putEach] at hrest ⊢
      simp only [inTurn, hput, hrest]
      rfl

theorem removeEach_eq (h : c.Unasked b .remove) (keys : List K) :
    ∃ (found : List (Option (Entry K V))) (l : Ledger K V),
      c.removeEach keys =
        (found.map .ok, { c with store := (c.store.removeKeys keys).2, ledger := l }) ∧
      found.length = keys.length ∧ (c.store.removeKeys keys).1 = found.reduceOption ∧
      Ledger.Tells b.listeners.length c.hooks.hooks.length c.ledger
        (List.zipWith .remove keys found) l := by
  induction keys generalizing c with
  | nil => exact ⟨[], c.ledger, rfl, rfl, rfl, .refl⟩
  | cons key keys ih =>
      obtain ⟨l, hperform, htells⟩ := Unasked.perform_eq (.remove key) h
      let removed := c.store.remove key
      let after : Cache K V := { c with store := removed.2, ledger := l }
      have hremove : c.remove key = (.ok removed.1, after) := by
        rw [remove, whenRunning_of_running h.running, hperform]
        rfl
      obtain ⟨found, l', hrest, hlength, hfound, htells'⟩ :=
        ih (c := after) ⟨h.hooks_eq, h.running, h.inert⟩
      refine ⟨removed.1 :: found, l', ?_, congrArg (· + 1) hlength, ?_, htells.trans htells'⟩
      · rw [removeEach] at hrest ⊢
        simp only [inTurn, hremove, hrest]
        rfl
      · have hkeys : (c.store.removeKeys (key :: keys)).1 =
            removed.1.toList ++ (after.store.removeKeys keys).1 := rfl
        rw [hkeys, hfound]
        cases removed.1 <;> rfl

/-! ## All at once -/

/-- The caches differ in nothing but the notes of their hooks, where they have the same
statistics and all listeners have heard the same events. -/
structure SameEffect (listeners : Nat) (c d : Cache K V) : Prop where
  eq : d = { c with ledger := d.ledger }
  statistics_eq : d.ledger.statistics = c.ledger.statistics
  heard_eq : ∀ i < listeners, d.ledger.heardBy i = c.ledger.heardBy i

/-- It makes no difference to the same store how it was told what adds up to the same. -/
theorem sameEffect_of_tells {n hooks : Nat} {s : Store K V} {l l' : Ledger K V}
    {outcomes outcomes' : List (Outcome K V)}
    (h : Ledger.Tells n hooks c.ledger outcomes l)
    (h' : Ledger.Tells n hooks c.ledger outcomes' l')
    (hrecord : outcomes'.foldl Statistics.record c.ledger.statistics =
      outcomes.foldl Statistics.record c.ledger.statistics)
    (hevents : outcomes'.flatMap Outcome.events = outcomes.flatMap Outcome.events) :
    SameEffect n { c with store := s, ledger := l } { c with store := s, ledger := l' } where
  eq := rfl
  statistics_eq := by rw [h'.statistics_eq, h.statistics_eq, hrecord]
  heard_eq i hi := by rw [h'.heard_eq i hi, h.heard_eq i hi, hevents]

theorem putAll_sameEffect (h : c.Unasked b .put) (hall : c.Unasked b .putAll)
    (pairs : List (K × V)) :
    (c.putAll pairs).1 = .ok () ∧ (∀ answer ∈ (c.putEach pairs).1, ∃ e, answer = .ok e) ∧
      SameEffect b.listeners.length (c.putAll pairs).2 (c.putEach pairs).2 := by
  obtain ⟨l, hperform, htells⟩ := Unasked.perform_eq (.writeAll c.expiration pairs) hall
  obtain ⟨l', heach, htells'⟩ := putEach_eq h pairs
  let t := c.store.putAll {} (c.expiration.timeOf c.clock none) c.clock pairs
  have hputAll : c.putAll pairs = (.ok (), { c with store := t.2, ledger := l }) := by
    rw [putAll, whenRunning_of_running h.running, hperform]
    rfl
  rw [hputAll, heach]
  refine ⟨rfl, fun answer hmem => ?_, sameEffect_of_tells htells htells' ?_ ?_⟩
  · obtain ⟨written, -, rfl⟩ := List.mem_map.mp hmem
    exact ⟨_, rfl⟩
  · rw [List.foldl_map]
    rfl
  · rw [List.flatMap_map]
    exact (List.flatMap_singleton _ _).symm

theorem removeAll_sameEffect (h : c.Unasked b .remove) (hall : c.Unasked b .removeAll)
    (keys : List K) :
    ∃ found : List (Option (Entry K V)), (c.removeEach keys).1 = found.map .ok ∧
      (c.removeAll keys).1 = .ok found.reduceOption ∧
      SameEffect b.listeners.length (c.removeAll keys).2 (c.removeEach keys).2 := by
  obtain ⟨l, hperform, htells⟩ := Unasked.perform_eq (.removeAll keys) hall
  obtain ⟨found, l', heach, hlength, hfound, htells'⟩ := removeEach_eq h keys
  have hremoveAll : c.removeAll keys = (.ok found.reduceOption,
      { c with store := (c.store.removeKeys keys).2, ledger := l }) := by
    rw [removeAll, whenRunning_of_running h.running, hperform, ← hfound]
    rfl
  rw [hremoveAll, heach]
  refine ⟨found, rfl, rfl, sameEffect_of_tells htells htells' ?_ ?_⟩
  · rw [record_removals c.ledger.statistics hlength, ← hfound]
    rfl
  · rw [events_removals hlength, ← hfound]
    exact (List.flatMap_singleton _ _).symm

end Cache

end BoundedCache
