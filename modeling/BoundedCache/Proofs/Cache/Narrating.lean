import BoundedCache.Proofs.Cache.Calling
import BoundedCache.Proofs.Cache.Deeds
import BoundedCache.Proofs.Cache.Steps
import BoundedCache.Proofs.Rounds

/-!
# The trace of a cache as a history

If no hook calls back, every change of a cache is written down as a history of one operation
(`perform_narrates`).  All that is written besides is about the loader, and the statistics change
with the rounds and with nothing else.  So whatever deeds lead from one cache to another, the
trace grows by a history that leads from the one statistics to the other (`Deeds.narrates`).
-/

namespace BoundedCache

namespace Cache

variable {K V : Type} [DecidableEq K] {listeners : List (Listener K V)}
  {others : List (Hook K V)} {c c' c'' : Cache K V}

/-- The chain is that of a cache without hooks that call back: the statistics come first, and
nobody else counts. -/
structure Orderly (listeners : List (Listener K V)) (others : List (Hook K V)) (c : Cache K V) :
    Prop where
  wired : c.hooks.Wired listeners
  hooks_eq : c.hooks.hooks = Hook.statistics :: others
  counts_once : ∀ hook ∈ others, hook.handler ≠ .statistics

/-- The trace of the one cache goes on to that of the other by a history. -/
structure Narrates (others : List (Hook K V)) (c c' : Cache K V) : Prop where
  hooks_eq : c'.hooks = c.hooks
  goes_on : ∃ visits notes, c'.ledger.trace = c.ledger.trace ++ notes ∧
    History others c.ledger.statistics c.store visits notes c'.ledger.statistics c'.store

theorem Narrates.trans (h : Narrates others c c') (h' : Narrates others c' c'') :
    Narrates others c c'' := by
  obtain ⟨visits, notes, htrace, hhistory⟩ := h.goes_on
  obtain ⟨later, more, htrace', hhistory'⟩ := h'.goes_on
  refine ⟨h'.hooks_eq.trans h.hooks_eq, visits ++ later, notes ++ more, ?_,
    hhistory.append hhistory'⟩
  rw [htrace', htrace, List.append_assoc]

/-- Nothing is written. -/
theorem narrates_of_eq (hhooks : c'.hooks = c.hooks) (hstore : c'.store = c.store)
    (htrace : c'.ledger.trace = c.ledger.trace)
    (hstatistics : c'.ledger.statistics = c.ledger.statistics) : Narrates others c c' := by
  refine ⟨hhooks, [], [], ?_, ?_⟩
  · rw [htrace, List.append_nil]
  · rw [hstatistics, hstore]
    exact .nothing _ _

/-- Something is written about the loader. -/
theorem narrates_aside {note : Note K V} (hhooks : c'.hooks = c.hooks) (hstore : c'.store = c.store)
    (hledger : c'.ledger = c.ledger.note note) (haside : note.IsAside) :
    Narrates others c c' := by
  refine ⟨hhooks, [], [note], ?_, ?_⟩
  · rw [hledger]
    rfl
  · rw [hledger, hstore]
    exact .aside haside (.nothing _ _)

omit [DecidableEq K] in
theorem Orderly.of_hooks (h : c.Orderly listeners others) (hhooks : c'.hooks = c.hooks) :
    c'.Orderly listeners others :=
  ⟨hhooks ▸ h.wired, hhooks ▸ h.hooks_eq, h.counts_once⟩

/-- A change is written down between its rounds. -/
theorem perform_narrates {α : Type} (h : c.Orderly listeners others) (change : Change K V α) :
    Narrates others c (c.perform change).2 := by
  rw [perform_of_quiet h.wired.quiet change, h.hooks_eq]
  refine ⟨rfl, ?_⟩
  exact Ledger.history_bracket h.counts_once c.ledger c.store.keys change c.store c.clock

variable [KeyText K]

theorem settle_narrates (h : c.Orderly listeners others) (task : LoadTask K V)
    (outcome : LoadOutcome V) : Narrates others c (c.settle task outcome) := by
  cases outcome with
  | nothing => exact narrates_of_eq rfl rfl rfl rfl
  | error shown => exact narrates_of_eq rfl rfl rfl rfl
  | panic shown => exact narrates_of_eq rfl rfl rfl rfl
  | value value =>
      rw [settle_value_eq]
      have hmeasured : Narrates others c (c.measure countLoad) := narrates_of_eq rfl rfl rfl rfl
      have hwritten := perform_narrates (h.of_hooks hmeasured.hooks_eq)
        (.write c.expiration task.handle.key value task.attributes .loader)
      exact (hmeasured.trans hwritten).trans (narrates_of_eq rfl rfl rfl rfl)

theorem Deed.narrates (h : Deed c c') (horderly : c.Orderly listeners others) :
    Narrates others c c' := by
  cases h with
  | run strict =>
      have hledger := c.running_ledger strict
      exact narrates_of_eq (c.running_alike strict).hooks_eq (c.running_alike strict).store_eq
        (congrArg Ledger.trace hledger) (congrArg Ledger.statistics hledger)
  | shutDown => exact narrates_of_eq rfl rfl rfl rfl
  | perform change => exact perform_narrates horderly change
  | callLoader loader task => exact narrates_aside rfl rfl rfl trivial
  | resume key => exact narrates_aside rfl rfl rfl trivial
  | settle task outcome hcurrent => exact settle_narrates horderly task outcome
  | tend hunled hstore hledger hhooks =>
      exact narrates_of_eq hhooks hstore (congrArg Ledger.trace hledger)
        (congrArg Ledger.statistics hledger)

/-- Whatever is done, the trace goes on by a history. -/
theorem Deeds.narrates (h : Deeds c c') (horderly : c.Orderly listeners others) :
    Narrates others c c' := by
  refine h.keeps (P := fun c' => Narrates others c c') (fun hdeed hbefore => ?_)
    (narrates_of_eq rfl rfl rfl rfl)
  exact hbefore.trans (hdeed.narrates (horderly.of_hooks hbefore.hooks_eq))

end Cache

end BoundedCache
