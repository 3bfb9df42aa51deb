import BoundedCache.Proofs.Policy.Lap

/-!
# The hand finds a victim

What the hand does at one slot depends on the slot: it passes over a vacant one, spares
a referenced element, and takes an unreferenced one.  So a sweep keeps the elements but
for the one that it takes, whatever its fuel is.

Two rounds are enough, since the hand is at its candidate within two laps
(`sweeps_candidate`).
-/

namespace BoundedCache.ClockPolicy

variable {α : Type} {p : ClockPolicy α} {i : Index} {node : Marked α} {fuel : Nat}

/-- The slab is sound; the hand may stand anywhere. -/
def Sound (p : ClockPolicy α) : Prop := p.nodes.WellFormed

theorem peek?_eq (p : ClockPolicy α) : p.peek? = p.nodes.elements Marked.element := rfl

theorem sound_start : ({} : ClockPolicy α).Sound := Slab.wellFormed_empty

theorem Sound.add (h : p.Sound) (element : α) :
    Adds p.peek? element (p.add element).1 (p.add element).2.peek? ∧
      (p.add element).2.Sound :=
  ⟨h.adds Marked.element { element := element }, Slab.WellFormed.insert h _⟩

theorem Sound.touch (h : p.Sound) (i : Index) :
    (p.touch i).peek? = p.peek? ∧ (p.touch i).Sound :=
  ⟨p.nodes.elements_modify Marked.element i _ fun _ => rfl, Slab.WellFormed.modify h i _⟩

theorem Sound.update (h : p.Sound) (i : Index) (element : α) :
    Replaces p.peek? i element (p.update i element).1 (p.update i element).2.peek? ∧
      (p.update i element).2.Sound :=
  ⟨p.nodes.replaces Marked.element i element _ fun _ => rfl, Slab.WellFormed.modify h i _⟩

theorem Sound.remove (h : p.Sound) (i : Index) :
    Removes p.peek? i (p.remove i).1 (p.remove i).2.peek? ∧ (p.remove i).2.Sound :=
  ⟨p.nodes.removes Marked.element i, Slab.WellFormed.remove h i⟩

/-! ## One step of the hand -/

theorem sweep_of_vacant (hslot : p.nodes.entryAt? p.hand = none) :
    sweep (fuel + 1) p = sweep fuel p.advance := by
  rw [sweep, Slab.indexAt?_eq, hslot]
  rfl

theorem sweep_of_referenced (hslot : p.nodes.entryAt? p.hand = some (i, node))
    (hbit : node.referenced = true) : sweep (fuel + 1) p = sweep fuel (p.spare i) := by
  rw [sweep, Slab.indexAt?_eq, hslot]
  simp only [Option.map_some, (Slab.entryAt?_eq_some.mp hslot).2, hbit, if_true]
  rfl

theorem sweep_of_not_referenced (hslot : p.nodes.entryAt? p.hand = some (i, node))
    (hbit : ¬ node.referenced = true) : sweep (fuel + 1) p = p.advance.remove i := by
  rw [sweep, Slab.indexAt?_eq, hslot]
  simp only [Option.map_some, (Slab.entryAt?_eq_some.mp hslot).2, if_neg hbit]

theorem Sound.spare (h : p.Sound) (i : Index) :
    (p.spare i).peek? = p.peek? ∧ (p.spare i).Sound :=
  ⟨p.nodes.elements_modify Marked.element i _ fun _ => rfl, Slab.WellFormed.modify h i _⟩

/-- A sweep either takes one element, or leaves all of them. -/
theorem Sound.sweep (h : p.Sound) (fuel : Nat) :
    (sweep fuel p).2.Sound ∧
      (Evicts p.peek? (sweep fuel p).1 (sweep fuel p).2.peek? ∨ (sweep fuel p).1 = none) := by
  -- every step of the hand keeps the elements, until the one that takes one
  induction fuel generalizing p with
  | zero => exact ⟨h, .inr rfl⟩
  | succ fuel ih =>
      cases hslot : p.nodes.entryAt? p.hand with
      | none =>
          rw [sweep_of_vacant hslot]
          exact ih (p := p.advance) h
      | some entry =>
          obtain ⟨i, node⟩ := entry
          by_cases hbit : node.referenced = true
          · rw [sweep_of_referenced hslot hbit]
            obtain ⟨hpeek, hsound⟩ := h.spare i
            rw [← hpeek]
            exact ih hsound
          · rw [sweep_of_not_referenced hslot hbit]
            obtain ⟨hremoves, hsound⟩ := Sound.remove (p := p.advance) h i
            have hpeek : p.advance.peek? i = some node.element :=
              Slab.elements_of_get? Marked.element (Slab.entryAt?_eq_some.mp hslot).2
            exact ⟨hsound, .inl (hremoves.evicts hpeek)⟩

/-! ## Two rounds are enough -/

/-- A sweep of two rounds takes a victim if there is any element. -/
theorem sweep_two_rounds (hhand : p.hand < p.nodes.slots) (hget : p.nodes.get? i = some node) :
    (sweep (2 * p.nodes.slots) p).1.isSome = true := by
  have hmem : (i, node) ∈ p.ring := (p.enumerates_ring.mem_iff i node).mpr hget
  obtain ⟨⟨j, victim⟩, hcandidate⟩ := exists_candidate (List.ne_nil_of_mem hmem)
  obtain ⟨count, p', hcount, hsweeps, -⟩ := sweeps_candidate hhand hcandidate
  rw [hsweeps.sweep_eq hcount]
  rfl

/-! ## Eviction -/

/-- The hand put back into the ring. -/
def settle (p : ClockPolicy α) : ClockPolicy α :=
  if p.hand < p.nodes.slots then p else { p with hand := 0 }

theorem nodes_settle (p : ClockPolicy α) : p.settle.nodes = p.nodes := by
  rw [settle]
  split <;> rfl

theorem evict_eq (p : ClockPolicy α) :
    p.evict = if p.nodes.isEmpty then (none, p) else sweep (2 * p.settle.nodes.slots) p.settle :=
  rfl

theorem Sound.evict (h : p.Sound) :
    Evicts p.peek? p.evict.1 p.evict.2.peek? ∧ p.evict.2.Sound := by
  have hsize : p.nodes.isEmpty = true ↔ p.nodes.toList.length = 0 := by
    rw [Slab.isEmpty, Slab.WellFormed.size_eq h, beq_iff_eq]
  rw [evict_eq]
  by_cases hempty : p.nodes.isEmpty = true
  · rw [if_pos hempty]
    have henumerates := p.nodes.enumerates_toList
    rw [List.eq_nil_of_length_eq_zero (hsize.mp hempty)] at henumerates
    refine ⟨.exhausted fun i => ?_, h⟩
    rw [peek?, henumerates.eq_none_of_nil i]
    rfl
  · rw [if_neg hempty]
    have hsettled : p.settle.Sound := by rwa [Sound, nodes_settle]
    have hpeek : p.settle.peek? = p.peek? := by rw [peek?_eq, peek?_eq, nodes_settle]
    obtain ⟨x, hx⟩ := List.exists_mem_of_length_pos (Nat.pos_of_ne_zero (mt hsize.mpr hempty))
    have hget : p.settle.nodes.get? x.1 = some x.2 := by
      rw [nodes_settle]
      exact Slab.mem_toList.mp hx
    have hhand : p.settle.hand < p.settle.nodes.slots := by
      have hslots : p.settle.nodes.slots = p.nodes.slots := by rw [nodes_settle]
      rw [hslots, settle]
      split
      · assumption
      · exact Nat.lt_of_le_of_lt (Nat.zero_le _) (Slab.slot_lt_of_get? (Slab.mem_toList.mp hx))
    obtain ⟨hsound, hevicts | hnone⟩ := hsettled.sweep (2 * p.settle.nodes.slots)
    · exact ⟨hpeek ▸ hevicts, hsound⟩
    · have hsome := sweep_two_rounds hhand hget
      rw [hnone] at hsome
      exact absurd hsome (by simp)

/-! ## All elements -/

theorem Sound.clear (h : p.Sound) :
    Lists p.peek? p.clear.1 ∧ (p.clear.2.peek? = fun _ => none) ∧ p.clear.2.Sound := by
  obtain ⟨hlists, hnone⟩ := Slab.WellFormed.clear_elements Marked.element h
  exact ⟨hlists, hnone, (Slab.WellFormed.clear h).2.1⟩

theorem Sound.peekAll (h : p.Sound) : Lists p.peek? p.peekAll ∧ p.size = p.peekAll.length := by
  have hlists : Lists p.peek? p.peekAll := by
    have hring := (p.enumerates_ring.map Marked.element).lists
    rw [List.map_map] at hring
    rw [peekAll_eq_ring]
    exact hring
  exact ⟨hlists, Slab.WellFormed.size_eq_of_lists Marked.element h hlists⟩

end BoundedCache.ClockPolicy
