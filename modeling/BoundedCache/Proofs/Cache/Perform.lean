import BoundedCache.Cache.Builder
import BoundedCache.Proofs.Changes
import BoundedCache.Proofs.Store.Consistency
import BoundedCache.Proofs.Telling

/-!
# A change between hooks

If nothing comes of what hooks ask for, a change does to a cache what it does to its store,
and its `bracket` is written in the ledger (`performWith_eq`).  So it is if no hook calls
back, and then the ledger is told the outcomes (`perform_eq`).  Where the change is faithful,
the cache afterwards `Accounts` for all that has happened: what was told of it leads from the
one store to the other.

Accounts add up along any sequence of steps, and a cache that was just built is sound,
so that an account can begin.
-/

namespace BoundedCache

namespace Cache

variable {K V : Type} [DecidableEq K] {listeners : List (Listener K V)} {c c' c'' : Cache K V}

/-- The chain is that of a cache, without hooks that call back, and the store is sound. -/
structure Sound (listeners : List (Listener K V)) (c : Cache K V) : Prop where
  wired : c.hooks.Wired listeners
  agrees : c.store.Agrees

/-- The outcomes were told and lead from one cache to the other. -/
structure Accounts (listeners : List (Listener K V)) (c : Cache K V)
    (outcomes : List (Outcome K V)) (c' : Cache K V) : Prop where
  hooks_eq : c'.hooks = c.hooks
  reports : Reports c.store outcomes c'.store
  tells : Ledger.Tells listeners.length c.hooks.hooks.length c.ledger outcomes c'.ledger

variable {outcomes later : List (Outcome K V)}

theorem Accounts.sound (h : c.Accounts listeners outcomes c') (hs : c.Sound listeners) :
    c'.Sound listeners where
  wired := h.hooks_eq ▸ hs.wired
  agrees := h.reports.agrees

theorem Accounts.trans (h : c.Accounts listeners outcomes c')
    (hlater : c'.Accounts listeners later c'') : c.Accounts listeners (outcomes ++ later) c'' where
  hooks_eq := hlater.hooks_eq.trans h.hooks_eq
  reports := h.reports.trans hlater.reports
  tells := by
    have htells := hlater.tells
    rw [h.hooks_eq] at htells
    exact h.tells.trans htells

/-! ## Calling hooks -/

section

variable {obey : Cache K V → Command K V → Cache K V} {call : Dispatch K V}

/-- The call of a hook only writes in the ledger if the hook asks for nothing, or if nothing
comes of what it asks for. -/
theorem callHook_eq {hook : Hook K V} {token : Token} {outcome : Option (Outcome K V)}
    (h : (c.ledger.call hook token outcome c.store.keys).1.1 = [] ∨
      ∀ l command, obey { c with ledger := l } command = { c with ledger := l }) :
    callHook obey token outcome c hook =
      { c with ledger := c.ledger.callReported hook token outcome c.store.keys } := by
  have hobeyed : ∀ l, (c.ledger.call hook token outcome c.store.keys).1.1.foldl obey
      { c with ledger := l } = { c with ledger := l } := by
    rcases h with hnothing | hidle
    · rw [hnothing]
      exact fun l => rfl
    · exact fun l => List.foldl_fixed' (hidle l) _
  simp only [callHook, hobeyed]
  rfl

theorem foldl_callHook_eq {hooks : List (Hook K V)} {token : Token}
    {outcome : Option (Outcome K V)}
    (h : (∀ hook ∈ hooks, ∀ l : Ledger K V, (l.call hook token outcome c.store.keys).1.1 = []) ∨
      ∀ l command, obey { c with ledger := l } command = { c with ledger := l }) :
    hooks.foldl (callHook obey token outcome) c =
      { c with ledger := c.ledger.callAll hooks token outcome c.store.keys } := by
  induction hooks generalizing c with
  | nil => rfl
  | cons hook rest ih =>
      rw [List.forall_mem_cons] at h
      have hhook := h.imp (fun hall => hall.1 c.ledger) id
      have hrest := h.imp (fun hall => hall.2) id
      rw [List.foldl_cons, callHook_eq hhook]
      exact ih hrest

/-- If no hook asks for anything on this call, calling them only writes in the ledger. -/
theorem dispatch_of_nothing {token : Token} {outcome : Option (Outcome K V)}
    (h : ∀ hook ∈ c.hooks.hooks, ∀ l : Ledger K V,
      (l.call hook token outcome c.store.keys).1.1 = []) (depth : Nat) :
    dispatch depth c token outcome =
      { c with ledger := c.ledger.callAll c.hooks.hooks token outcome c.store.keys } := by
  cases depth with
  | zero => exact foldl_callHook_eq (.inl h)
  | succ depth => exact foldl_callHook_eq (.inl h)

theorem foldl_call_eq {token : Token}
    (h : ∀ l outcome, call { c with ledger := l } token outcome =
      { c with ledger := l.callAll c.hooks.hooks token outcome c.store.keys })
    (outcomes : List (Outcome K V)) :
    outcomes.foldl (fun c outcome => call c token (some outcome)) c =
      { c with ledger := c.ledger.tellAll c.hooks.hooks token outcomes c.store.keys } := by
  induction outcomes generalizing c with
  | nil => rfl
  | cons outcome rest ih =>
      rw [List.foldl_cons, h c.ledger (some outcome)]
      exact ih h

end

/-! ## Changes -/

variable {α : Type} {change : Change K V α}

/-- If calling hooks about a change only writes in the ledger, the change does to a cache what it
does to its store. -/
theorem performWith_eq {call : Dispatch K V} (change : Change K V α)
    (h : ∀ s l outcome,
      call { c with store := s, ledger := l } ⟨change.operation, c.clock⟩ outcome =
        { c with
          store := s
          ledger := l.callAll c.hooks.hooks ⟨change.operation, c.clock⟩ outcome s.keys }) :
    c.performWith call change = ((change.apply c.store c.clock).answer,
      { c with
        store := (change.apply c.store c.clock).store
        ledger := c.ledger.bracket c.hooks.hooks ⟨change.operation, c.clock⟩ c.store.keys
          (change.apply c.store c.clock) }) := by
  have hbefore := h c.store c.ledger none
  simp only [performWith, hbefore]
  generalize change.apply c.store c.clock = t
  generalize (⟨change.operation, c.clock⟩ : Token) = token at h ⊢
  have hgauge : ∀ l : Ledger K V, (if t.gauged then
      measure { c with store := t.store, ledger := l } (·.gauge t.store)
      else { c with store := t.store, ledger := l }) =
        { c with store := t.store, ledger := l.gaugeIf t.gauged t.store } := by
    intro l
    cases t.gauged <;> rfl
  have hafter : ∀ l : Ledger K V, t.outcomes.foldl (fun c outcome => call c token (some outcome))
      { c with store := t.store, ledger := l } =
        { c with
          store := t.store
          ledger := l.tellAll c.hooks.hooks token t.outcomes t.store.keys } :=
    fun l => foldl_call_eq (c := { c with store := t.store, ledger := l })
      (fun l outcome => h t.store l outcome) t.outcomes
  rw [hgauge, hafter]
  rfl

/-- So it is if no hook calls back at all. -/
theorem perform_of_quiet (h : ∀ hook ∈ c.hooks.hooks, hook.Quiet) (change : Change K V α) :
    c.perform change = ((change.apply c.store c.clock).answer,
      { c with
        store := (change.apply c.store c.clock).store
        ledger := c.ledger.bracket c.hooks.hooks ⟨change.operation, c.clock⟩ c.store.keys
          (change.apply c.store c.clock) }) := by
  refine performWith_eq change fun s l outcome => ?_
  exact dispatch_of_nothing (c := { c with store := s, ledger := l })
    (fun hook hmem l => l.call_commands _ s.keys (h hook hmem) outcome) nestingLimit

/-- A change of a cache is the change of its store, and its outcomes are told. -/
theorem perform_eq (h : c.hooks.Wired listeners) (change : Change K V α) :
    ∃ l, c.perform change = ((change.apply c.store c.clock).answer,
        { c with store := (change.apply c.store c.clock).store, ledger := l }) ∧
      Ledger.Tells listeners.length c.hooks.hooks.length c.ledger
        (change.apply c.store c.clock).outcomes l :=
  ⟨_, perform_of_quiet h.quiet change, h.tells_bracket _ _ _ _⟩

/-- After a faithful change the cache accounts for its outcomes. -/
theorem perform_accounts (h : c.Sound listeners) {readCount : Nat} {replaced : α → Nat}
    (hfaithful : change.Faithful readCount replaced) :
    ∃ outcomes, c.Accounts listeners outcomes (c.perform change).2 ∧
      reads outcomes = readCount ∧ replacements outcomes = replaced (c.perform change).1 := by
  obtain ⟨l, heq, htells⟩ := perform_eq h.wired change
  rw [heq]
  refine ⟨_, ⟨rfl, hfaithful.reports c.store c.clock h.agrees, htells⟩, ?_, ?_⟩
  · exact hfaithful.reads_eq c.store c.clock
  · exact hfaithful.replacements_eq c.store c.clock

end Cache

/-! ## A new cache -/

/-- Hooks that are exchanged for others of their stages keep their places. -/
theorem HookChain.ofHooks_map {K V : Type} (exchange : Hook K V → Hook K V)
    (hstage : ∀ hook, (exchange hook).stage = hook.stage) (hooks : List (Hook K V)) :
    HookChain.ofHooks (hooks.map exchange) = ⟨(HookChain.ofHooks hooks).hooks.map exchange⟩ := by
  simp only [HookChain.ofHooks, List.filter_map, Function.comp_def, hstage, List.map_append]

namespace Builder

variable {K V : Type} {b : Builder K V}

/-- The chain that is built has the statistics first and the listeners last. -/
theorem allHooks_wired (h : ∀ hook ∈ b.hooks, hook.Inert) :
    (HookChain.ofHooks b.allHooks).Wired b.listeners := by
  refine ⟨b.hooks.filter (fun hook => hook.stage = .statistics) ++
    b.hooks.filter (fun hook => hook.stage = .event), ?_, ?_⟩
  · intro hook hhook
    rcases List.mem_append.mp hhook with hhook | hhook
    · exact h hook (List.mem_of_mem_filter hhook)
    · exact h hook (List.mem_of_mem_filter hhook)
  · unfold HookChain.ofHooks allHooks
    by_cases hnone : b.listeners.isEmpty = true
    · simp [hnone, Hook.statistics]
    · simp [hnone, Hook.statistics, Hook.listeners]

variable [DecidableEq K] {c : Cache K V}

/-- What a cache is when it is new. -/
theorem eq_of_build (h : b.build = .ok c) :
    let store : Store K V := .new b.policy b.maxEntries b.maxVolume b.walk
    ∃ executor, b.executor = some executor ∧ c =
      { name := b.name
        store := store
        expiration := b.expirationRule
        hooks := .ofHooks b.allHooks
        ledger := { metrics := Metrics.gauge {} store }
        clock := b.clock
        loader := b.loader
        desk := { executor := executor }
        sweepInterval := b.sweepInterval } := by
  unfold build at h
  split at h
  · cases h
  · cases h
  · rename_i executor _ hexecutor
    dsimp only at h
    split at h
    · rw [Except.ok.injEq] at h
      exact ⟨executor, hexecutor, h.symm⟩
    · cases h

theorem build_eq (h : b.build = .ok c) :
    c.store = .new b.policy b.maxEntries b.maxVolume b.walk ∧ c.hooks = .ofHooks b.allHooks ∧
      c.ledger.statistics = {} ∧ c.ledger.trace = [] := by
  obtain ⟨executor, -, rfl⟩ := eq_of_build h
  exact ⟨rfl, rfl, rfl, rfl⟩

omit [DecidableEq K] in
/-- The hooks of the chain are those that were registered and two of its own. -/
theorem forall_hooks_allHooks {P : Hook K V → Prop} (hstatistics : P Hook.statistics)
    (hlisteners : P (Hook.listeners .event b.listeners)) (hhooks : ∀ hook ∈ b.hooks, P hook) :
    ∀ hook ∈ (HookChain.ofHooks b.allHooks).hooks, P hook := by
  have hall : ∀ hook ∈ b.allHooks, P hook := by
    intro hook hmem
    rcases List.mem_cons.mp hmem with rfl | hmem
    · exact hstatistics
    · rcases List.mem_append.mp hmem with hmem | hmem
      · exact hhooks hook hmem
      · split at hmem
        · exact absurd hmem List.not_mem_nil
        · exact List.mem_singleton.mp hmem ▸ hlisteners
  intro hook hmem
  rcases List.mem_append.mp hmem with hmem | hmem
  · exact hall hook (List.mem_of_mem_filter hmem)
  · exact hall hook (List.mem_of_mem_filter hmem)

theorem forall_hooks_build (h : b.build = .ok c) {P : Hook K V → Prop}
    (hstatistics : P Hook.statistics) (hlisteners : P (Hook.listeners .event b.listeners))
    (hhooks : ∀ hook ∈ b.hooks, P hook) : ∀ hook ∈ c.hooks.hooks, P hook := by
  rw [(build_eq h).2.1]
  exact forall_hooks_allHooks hstatistics hlisteners hhooks

theorem build_sound (h : b.build = .ok c) (hstart : b.policy.Starts)
    (hhooks : ∀ hook ∈ b.hooks, hook.Inert) : c.Sound b.listeners := by
  obtain ⟨hstore, hchain, -, -⟩ := build_eq h
  constructor
  · rw [hchain]
    exact allHooks_wired hhooks
  · rw [hstore]
    exact Store.agrees_new hstart b.maxEntries b.maxVolume b.walk

end Builder

end BoundedCache
