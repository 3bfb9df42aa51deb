import BoundedCache.Proofs.Store.Dating
import BoundedCache.Proofs.Store.Victims

/-!
# Clearing against giving up everything

There are two ways to empty a store: `clear`, and a trim to nothing.  Both hand out every
entry and leave the volume at zero, but in orders of their own: `clear` hands out the keys
as the policy clears them, the trim as the policy gives them up (`Agrees.clear_keys`,
`Agrees.trimTo_zero_keys`).

`ClearedAs` says for each choice of policy how the two orders compare.  They are the same
where the oldest, the least recently used or the least often used entry is given up first.
Where the newest or the most recently used entry is, one is the reverse of the other, for
a chain is cleared from its front (`clear_last_in_first_out`).  The clock is cleared by slots,
without regard to its hand and to the reference bits that decide who is given up.
-/

namespace BoundedCache

/-! ## Kinds of policies -/

/-- The choice that a discipline comes from. -/
def Discipline.choice : Discipline → PolicyChoice
  | .fifo => .fifo
  | .lifo => .lifo
  | .lru => .lru
  | .mru => .mru

namespace Policy

variable {α : Type}

/-- The policy is of the kind that the choice names. -/
def OfChoice (choice : PolicyChoice) : Policy α → Prop
  | ordered p => p.discipline.choice = choice
  | frequency _ => .lfu = choice
  | secondChance _ => .clock = choice
  | random _ => ∃ seed, .random seed = choice
  | forgetful _ | stubborn _ => False

theorem ofChoice_build (choice : PolicyChoice) : (choice.build : Policy α).OfChoice choice := by
  cases choice with
  | random seed => exact ⟨seed, rfl⟩
  | fifo | lifo | lru | mru | lfu | clock => rfl

theorem act_ordered (p : OrderedPolicy α) (action : Action α) :
    ∃ p', (ordered p).act action = ordered p' ∧ p'.discipline = p.discipline := by
  cases action with
  | add element => exact ⟨_, rfl, rfl⟩
  | touch i => exact ⟨_, rfl, p.discipline_touch i⟩
  | update i element => exact ⟨_, rfl, p.discipline_update i element⟩
  | remove i => exact ⟨_, rfl, rfl⟩
  | evict => exact ⟨_, rfl, rfl⟩
  | clear => exact ⟨_, rfl, rfl⟩

theorem OfChoice.builtIn {choice : PolicyChoice} {p : Policy α} (h : p.OfChoice choice) :
    p.BuiltIn := by
  cases p with
  | ordered p | frequency p | secondChance p | random p => trivial
  | forgetful p | stubborn p => exact h.elim

theorem OfChoice.act {choice : PolicyChoice} {p : Policy α} (h : p.OfChoice choice)
    (action : Action α) : (p.act action).OfChoice choice := by
  cases p with
  | ordered p =>
      obtain ⟨p', hp', hdiscipline⟩ := act_ordered p action
      rw [hp', OfChoice, hdiscipline]
      exact h
  | frequency p | secondChance p | random p => cases action <;> exact h
  | forgetful p | stubborn p => exact h.elim

end Policy

namespace Store

variable {K V : Type} [DecidableEq K] {s t : Store K V}

/-! ## The two orders -/

/-- Naming the keys of all slots leaves no slot, and names the entries in the order of the
keys. -/
theorem nameEntry_keys (named : List (Entry K V)) {keys : List K} {slots : List (Slot K V)}
    (h : Distinct slots) (hkeys : keys.Perm (slots.map (·.entry.key))) :
    (keys.foldl nameEntry (named, slots)).1.map (·.key) = named.map (·.key) ++ keys ∧
      (keys.foldl nameEntry (named, slots)).2 = [] := by
  induction keys generalizing named slots with
  | nil =>
      have hnone : slots.map (·.entry.key) = [] := List.nil_perm.mp hkeys
      exact ⟨(List.append_nil _).symm, List.map_eq_nil_iff.mp hnone⟩
  | cons key keys ih =>
      obtain ⟨slot, hmem, rfl⟩ := List.mem_map.mp (hkeys.subset List.mem_cons_self)
      have hfind := h.find?_eq_some.mpr ⟨hmem, rfl⟩
      have hperm := h.perm_without hmem
      have hrest := List.Perm.cons_inv (hkeys.trans (hperm.map (·.entry.key)))
      obtain ⟨hnames, hleft⟩ := ih (named ++ [slot.entry])
        (List.nodup_cons.mp (h.perm hperm)).2 hrest
      rw [List.foldl_cons, nameEntry, hfind]
      refine ⟨hnames.trans ?_, hleft⟩
      rw [List.map_append, List.map_singleton, List.append_assoc, List.singleton_append]

/-- Entries of a store are known by their keys. -/
theorem Agrees.eq_of_keys_eq (h : s.Agrees) {l l' : List (Entry K V)} (hl : l ⊆ s.entries)
    (hl' : l' ⊆ s.entries) (hkeys : l.map (·.key) = l'.map (·.key)) : l = l' := by
  have hfind : ∀ l : List (Entry K V), l ⊆ s.entries →
      (l.map (·.key)).map s.get? = l.map some := by
    intro l hl
    rw [List.map_map]
    exact List.map_congr_left fun e he => (h.mem_entries_iff e).mp (hl he)
  have hsome : l.map some = l'.map some := by
    rw [← hfind l hl, ← hfind l' hl', hkeys]
  exact List.map_injective_iff.mpr (fun _ _ => Option.some.inj) hsome

/-- Clearing hands out the keys as the policy clears them. -/
theorem Agrees.clear_keys (h : s.Agrees) : s.clear.1.map (·.key) = s.policy.clear.1 := by
  obtain ⟨hlists, -, -⟩ := h.sound.clear
  have hkeys : s.policy.clear.1.Perm (s.slots.map (·.entry.key)) := by
    have hperm := hlists.perm h.indexed.lists
    rw [byIndex, List.map_map] at hperm
    exact hperm
  obtain ⟨hnames, hleft⟩ := nameEntry_keys [] h.distinct hkeys
  have hclear : s.clear.1 = (s.policy.clear.1.foldl nameEntry ([], s.slots)).1 ++
      (s.walk.order s.walks
        (s.policy.clear.1.foldl nameEntry ([], s.slots)).2).map (·.entry) := rfl
  rw [hclear, hleft, Walk.order_nil, List.map_nil, List.append_nil]
  exact hnames

/-- A trim to nothing hands out the keys as the policy gives them up. -/
theorem Agrees.trimTo_zero_keys (h : s.Agrees) (hyield : s.policy.Yielding) :
    (s.trimTo 0 0).1.map (·.key) = s.policy.drain.1 := by
  have hcuts := h.trimTo_cuts hyield 0 0
  have hdrain := h.drain_perm hyield
  have hnodup : (s.entries.map (·.key)).Nodup := h.consistent.keys_nodup
  -- whatever is not evicted is a survivor, and there is no room for any
  have hall : s.entries.map (·.key) ⊆ (s.trimTo 0 0).1.map (·.key) := by
    intro key hkey
    obtain ⟨e, he, rfl⟩ := List.mem_map.mp hkey
    by_contra hnot
    have hnone := List.eq_nil_of_length_eq_zero (Nat.le_zero.mp hcuts.shortest.holds.1)
    have hmem : e ∈ survivors s.entries ((s.trimTo 0 0).1.map (·.key)) :=
      List.mem_filter.mpr ⟨he, decide_eq_true hnot⟩
    rw [hnone] at hmem
    exact absurd hmem List.not_mem_nil
  refine hcuts.shortest.begins.eq_of_length_le ?_
  rw [hdrain.length_eq]
  exact (hnodup.subperm hall).length_le

/-- What clearing hands out, against what a trim to nothing does, over a policy of the
choice. -/
def ClearedAs (choice : PolicyChoice) (policy : Policy K) (cleared trimmed : List (Entry K V)) :
    Prop :=
  match choice with
  | .fifo | .lru | .lfu => cleared = trimmed
  | .lifo | .mru => cleared = trimmed.reverse
  | .clock => ∃ clock, policy = .secondChance clock ∧
      cleared.map (·.key) = clock.nodes.toList.map (fun x => x.2.element) ∧
      trimmed.map (·.key) = ClockPolicy.turn clock.settle.round
  | .random _ => True

/-- The two orders of the entries compare as those of the keys do. -/
theorem Agrees.clear_eq_of_keys (h : s.Agrees) (hyield : s.policy.Yielding)
    (hkeys : s.policy.clear.1 = s.policy.drain.1) : s.clear.1 = (s.trimTo 0 0).1 := by
  rw [← h.clear_keys, ← h.trimTo_zero_keys hyield] at hkeys
  exact h.eq_of_keys_eq (draws_clear s).handed_subset (draws_trimTo s 0 0).handed_subset hkeys

theorem Agrees.clear_eq_of_keys_reverse (h : s.Agrees) (hyield : s.policy.Yielding)
    (hkeys : s.policy.clear.1 = s.policy.drain.1.reverse) :
    s.clear.1 = (s.trimTo 0 0).1.reverse := by
  rw [← h.clear_keys, ← h.trimTo_zero_keys hyield, ← List.map_reverse] at hkeys
  refine h.eq_of_keys_eq (draws_clear s).handed_subset ?_ hkeys
  exact List.Subset.trans (List.reverse_subset.mpr (List.Subset.refl _))
    (draws_trimTo s 0 0).handed_subset

theorem Agrees.clearedAs (h : s.Agrees) {choice : PolicyChoice}
    (hchoice : s.policy.OfChoice choice) :
    ClearedAs choice s.policy s.clear.1 (s.trimTo 0 0).1 := by
  have hsound := h.sound
  have hcleared := h.clear_keys
  have htrimmed := h.trimTo_zero_keys
  have hsame := h.clear_eq_of_keys
  have hreverse := h.clear_eq_of_keys_reverse
  cases hpolicy : s.policy with
  | ordered p =>
      rw [hpolicy] at hchoice hsound hsame hreverse
      obtain ⟨hdrain, hclear⟩ := Policy.drain_ordered hsound
      rw [hdrain, show (Policy.ordered p).clear.1 = p.clear.1 from rfl, hclear] at hsame hreverse
      obtain rfl : p.discipline.choice = choice := hchoice
      -- from which end victims are taken decides between the two
      cases hdiscipline : p.discipline <;> rw [hdiscipline] at hsame hreverse
      · exact hsame trivial rfl
      · exact hreverse trivial rfl
      · exact hsame trivial rfl
      · exact hreverse trivial rfl
  | frequency p =>
      rw [hpolicy] at hchoice hsound hsame
      obtain rfl : PolicyChoice.lfu = choice := hchoice
      refine hsame trivial ?_
      rw [FrequencyPolicy.Sound.drain_eq_peekAll hsound]
      exact FrequencyPolicy.Sound.clear_eq_peekAll hsound
  | secondChance p =>
      rw [hpolicy] at hchoice hsound hcleared htrimmed
      obtain rfl : PolicyChoice.clock = choice := hchoice
      refine ⟨p, rfl, hcleared.trans (ClockPolicy.Sound.clear_eq hsound), ?_⟩
      exact (htrimmed trivial).trans (ClockPolicy.Sound.drain_eq_turn hsound)
  | random p =>
      rw [hpolicy] at hchoice
      obtain ⟨seed, rfl⟩ := hchoice
      trivial
  | forgetful p | stubborn p =>
      rw [hpolicy] at hchoice
      exact hchoice.elim

/-- A trim to nothing empties the store. -/
theorem Agrees.trimTo_zero (h : s.Agrees) (hyield : s.policy.Yielding) :
    (s.trimTo 0 0).1.Perm s.entries ∧ (s.trimTo 0 0).2.entries = [] ∧
      (s.trimTo 0 0).2.volume = 0 := by
  obtain ⟨hsize, hvolume⟩ := h.trimTo_within hyield 0 0
  have hkeys := h.trimTo_zero_keys hyield
  have hdrain := h.drain_perm hyield
  rw [← hkeys] at hdrain
  have hnodup : (s.trimTo 0 0).1.Nodup :=
    List.Nodup.of_map _ (hdrain.symm.nodup h.consistent.keys_nodup)
  have hlength : s.entries.length ≤ (s.trimTo 0 0).1.length := by
    have hsame := hdrain.length_eq
    rw [List.length_map, List.length_map] at hsame
    exact hsame.ge
  refine ⟨(hnodup.subperm (draws_trimTo s 0 0).handed_subset).perm_of_length_le hlength, ?_,
    Nat.le_zero.mp hvolume⟩
  rw [entries, List.eq_nil_of_length_eq_zero (Nat.le_zero.mp hsize), List.map_nil]

/-- After every run both ways to empty the store hand out every entry and leave nothing, in
orders that compare as `ClearedAs` says. -/
theorem run_clearedAs (choice : PolicyChoice) (maxEntries maxVolume : Nat)
    (walk : Walk (Slot K V)) (actions : List (Action K V)) :
    let s := (new choice.build maxEntries maxVolume walk).run actions
    ClearedAs choice s.policy s.clear.1 (s.trimTo 0 0).1 ∧
      (s.clear.1.Perm s.entries ∧ s.clear.2.entries = [] ∧ s.clear.2.volume = 0) ∧
      (s.trimTo 0 0).1.Perm s.entries ∧ (s.trimTo 0 0).2.entries = [] ∧
        (s.trimTo 0 0).2.volume = 0 := by
  intro s
  have h : s.Agrees := ((agrees_new (.builtIn choice) maxEntries maxVolume walk).run actions).1
  have hchoice : s.policy.OfChoice choice :=
    (reaches_run (new choice.build maxEntries maxVolume walk) actions).keeps
      (fun _ action h => h.act action) (Policy.ofChoice_build choice)
  have hperm : s.clear.1.Perm s.entries := s.clear_perm h.distinct
  exact ⟨h.clearedAs hchoice, ⟨hperm, rfl, rfl⟩, h.trimTo_zero hchoice.builtIn.yielding⟩

-- The clock spares an entry that was read when it gives one up, not when it is cleared.
example :
    let s := (new (PolicyChoice.build .clock) 2 10 : Store Nat Nat).run
      [.put 1 10 { size := 1 } none 0 true, .put 2 20 { size := 1 } none 1 true, .touch 1 2]
    s.clear.1.map (·.key) = [1, 2] ∧ (s.trimTo 0 0).1.map (·.key) = [2, 1] := by
  decide +kernel

/-- Where the newest entry is given up first, it is cleared last. -/
theorem clear_last_in_first_out :
    let s := (new (PolicyChoice.build .lifo) 2 10 : Store Nat Nat).run
      [.put 1 10 { size := 1 } none 0 true, .put 2 20 { size := 1 } none 1 true]
    ¬ (s.clear.1 = (s.trimTo 0 0).1) := by
  decide +kernel

end Store

end BoundedCache
