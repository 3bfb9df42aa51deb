import BoundedCache.Proofs.Policy.Usage

/-!
# The hand takes its candidate

What one eviction does to the ring is the search without a bound (`Takes`): within two laps it takes
the first unreferenced element from the hand on, or the first of all if none is unreferenced.  So
the ring is given up unreferenced elements first.  `taken_by_hand` says this of every run, in which
the hand stands in the ring whenever there is one (`Seated`).
-/

namespace BoundedCache

namespace ClockPolicy

variable {α : Type} {p p' : ClockPolicy α} {i : Index} {node : Marked α}

/-- What one eviction does.  It takes the candidate; the elements passed over lose their reference
bits and all else stays; the hand ends behind the victim.  This is what the search without a bound
comes to, and it has inspected each slot twice at most. -/
structure Takes (p : ClockPolicy α) (i : Index) (node : Marked α) : Prop where
  candidate : p.candidate? = some (i, node)
  answer : p.evict.1 = some node.element
  ends : ∃ count ≤ 2 * p.nodes.slots, Sweeps p count p.evict.1 p.evict.2
  elements : p.evict.2.nodes.get? = Function.update (cleared p.passed p.nodes.get?) i none
  slots : p.evict.2.nodes.slots = p.nodes.slots
  hand : p.evict.2.hand = (i.slot + 1) % p.nodes.slots

theorem isEmpty_eq_false_iff (h : p.Sound) : p.nodes.isEmpty = false ↔ p.ring ≠ [] := by
  have hlength := p.enumerates_ring.perm p.nodes.enumerates_toList
  rw [Slab.isEmpty, beq_eq_false_iff_ne, Slab.WellFormed.size_eq h, ← hlength.length_eq, Ne,
    List.length_eq_zero_iff]

/-- The victim is the candidate, as long as there is an element. -/
theorem Sound.takes (h : p.Sound) (hhand : p.hand < p.nodes.slots) (hring : p.ring ≠ []) :
    ∃ i node, p.Takes i node := by
  obtain ⟨⟨i, node⟩, hcandidate⟩ := exists_candidate hring
  obtain ⟨count, p', hcount, hsweeps, hhand', hslots, hget⟩ := sweeps_candidate hhand hcandidate
  have hevict : p.evict = (some node.element, p') := by
    have hsettled : p.settle = p := if_pos hhand
    rw [evict_eq, (isEmpty_eq_false_iff h).mpr hring, if_neg Bool.false_ne_true, hsettled]
    exact hsweeps.sweep_eq hcount
  refine ⟨i, node, hcandidate, ?_, ⟨count, hcount, ?_⟩, ?_, ?_, ?_⟩
  all_goals rw [hevict]
  exacts [hsweeps, hget, hslots, hhand']

/-! ## Runs -/

/-- The hand stands in the ring, or at the start of it while there is none. -/
def Seated (p : ClockPolicy α) : Prop := p.hand = 0 ∨ p.hand < p.nodes.slots

/-- With an element in the ring there is a slot for the hand. -/
theorem Seated.hand_lt (h : p.Seated) (hring : p.ring ≠ []) : p.hand < p.nodes.slots := by
  have hslots : 0 < p.nodes.slots := by
    rw [← p.length_lap, List.length_pos_iff]
    intro hlap
    exact hring (by rw [ring, hlap]; rfl)
  rcases h with hzero | hless
  · omega
  · exact hless

theorem Seated.add (h : p.Seated) (element : α) : (p.add element).2.Seated := by
  have hslots : p.nodes.slots ≤ (p.add element).2.nodes.slots := p.nodes.slots_le_insert _
  rcases h with hzero | hless
  · exact .inl hzero
  · exact .inr (hless.trans_le hslots)

theorem Seated.of_slots_eq (h : p.Seated) (hhand : p'.hand = p.hand)
    (hslots : p'.nodes.slots = p.nodes.slots) : p'.Seated := by
  rw [Seated, hhand, hslots]
  exact h

theorem Seated.evict (h : p.Seated) (hsound : p.Sound) : p.evict.2.Seated := by
  by_cases hring : p.ring = []
  · have hempty : p.nodes.isEmpty = true := by
      rw [← Bool.not_eq_false, isEmpty_eq_false_iff hsound]
      exact not_not.mpr hring
    rw [evict_eq, if_pos hempty]
    exact h
  · obtain ⟨i, node, htakes⟩ := hsound.takes (h.hand_lt hring) hring
    refine .inr ?_
    rw [htakes.hand, htakes.slots]
    exact Nat.mod_lt _ (Nat.lt_of_le_of_lt (Nat.zero_le _) (h.hand_lt hring))

/-- The elements are given up as the ring has them: first those that are unreferenced, then the
others. -/
theorem Sound.drain_eq_ring (h : p.Sound) (hhand : p.hand < p.nodes.slots) :
    (Policy.secondChance p).drain.1 = ((p.ring.filter fun x => !x.2.referenced) ++
      p.ring.filter fun x => x.2.referenced).map fun x => x.2.element := by
  have hsettled : p.settle = p := if_pos hhand
  have hround : p.round.reduceOption = p.ring.map Prod.snd := by
    rw [round_eq, List.reduceOption_map]
    rfl
  rw [h.drain_eq_turn, hsettled, turn, hround, List.filter_map, List.filter_map, ← List.map_append,
    List.map_map]
  rfl

end ClockPolicy

namespace Policy

/-- A ring of elements with the hand in it. -/
def Turning (p : Policy α) : Prop :=
  ∃ q : ClockPolicy α, p = secondChance q ∧ q.Sound ∧ q.Seated

theorem Turning.act {p : Policy α} (h : p.Turning) (action : Action α) :
    (p.act action).Turning := by
  obtain ⟨q, rfl, hsound, hseated⟩ := h
  cases action with
  | add element => exact ⟨_, rfl, (hsound.add element).2, hseated.add element⟩
  | touch i =>
      exact ⟨_, rfl, (hsound.touch i).2, hseated.of_slots_eq rfl (q.nodes.slots_modify i _)⟩
  | update i element =>
      have hslots := q.nodes.slots_modify i fun _ => ⟨element, true⟩
      exact ⟨_, rfl, (hsound.update i element).2, hseated.of_slots_eq rfl hslots⟩
  | remove i =>
      exact ⟨_, rfl, (hsound.remove i).2, hseated.of_slots_eq rfl (q.nodes.slots_remove i)⟩
  | evict => exact ⟨_, rfl, hsound.evict.2, hseated.evict hsound⟩
  | clear => exact ⟨_, rfl, hsound.clear.2.2, .inl rfl⟩

theorem Turning.run {p : Policy α} (h : p.Turning) (actions : List (Action α)) :
    (p.run actions).Turning := by
  induction actions generalizing p with
  | nil => exact h
  | cons action actions ih => exact ih (h.act action)

/-- After every run with an element left, an eviction takes the first unreferenced element from the
hand on, or the first of all if there is none such; and evictions until nothing is left give up
the unreferenced elements first and then the others, both in the order in which all are listed. -/
theorem taken_by_hand (actions : List (Action α)) {p : ClockPolicy α}
    (hrun : (PolicyChoice.clock.build : Policy α).run actions = secondChance p)
    (hsize : 0 < p.size) :
    Enumerates p.ring p.nodes.get? ∧ (∃ i node, p.Takes i node) ∧
      p.peekAll = (p.ring.map fun x => x.2.element) ∧
      (secondChance p).drain.1 = (((p.ring.filter fun x => !x.2.referenced) ++
        p.ring.filter fun x => x.2.referenced).map fun x => x.2.element) ∧
      (secondChance p).drain.2.peek? = fun _ => none := by
  have hstart : (PolicyChoice.clock.build : Policy α).Turning :=
    ⟨{}, rfl, ClockPolicy.sound_start, .inl rfl⟩
  obtain ⟨q, hq, hsound, hseated⟩ := hstart.run actions
  obtain rfl : q = p := secondChance.inj (hq.symm.trans hrun)
  have hring : q.ring ≠ [] := by
    rw [← ClockPolicy.isEmpty_eq_false_iff hsound, Slab.isEmpty, beq_eq_false_iff_ne]
    exact Nat.ne_of_gt hsize
  have hhand := hseated.hand_lt hring
  have hdrained : (secondChance q).drain.2.peek? = fun _ => none :=
    Sound.drained (p := secondChance q) hsound trivial
  exact ⟨q.enumerates_ring, hsound.takes hhand hring, q.peekAll_eq_ring,
    hsound.drain_eq_ring hhand, hdrained⟩

/-- The theorem at a ring in which two of four elements are referenced. -/
theorem taken_by_hand_spared :
    ∃ p : ClockPolicy Nat, (PolicyChoice.clock.build : Policy Nat).run
        [.add 0, .add 1, .add 2, .add 3, .touch ⟨0, 0⟩, .touch ⟨1, 0⟩] = secondChance p ∧
      0 < p.size ∧ (∃ i node, p.Takes i node) ∧ (secondChance p).drain.1 = [2, 3, 0, 1] := by
  obtain ⟨-, htakes, -, hdrain, -⟩ := taken_by_hand (α := Nat)
    [.add 0, .add 1, .add 2, .add 3, .touch ⟨0, 0⟩, .touch ⟨1, 0⟩] rfl (by decide)
  exact ⟨_, rfl, by decide, htakes, hdrain⟩

end Policy

end BoundedCache
