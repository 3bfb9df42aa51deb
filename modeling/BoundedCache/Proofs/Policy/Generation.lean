import BoundedCache.Proofs.Generation
import BoundedCache.Proofs.Policy.Contract

/-!
# How the slots of a policy age

Every policy keeps its elements in one slab, so every policy has stamps, and they are read
the same way whatever the policy does beside that: an index is live exactly if its slot is
stamped live under its generation (`isSome_peek?_iff`).

`Sound.stamp_add` says what an addition does to the stamps, and every other operation only
retires slots (`retires_touch` and those after it).  An index that is not live is refused by every
operation on it, and leaves the policy as it was to the last bit (`unchanged_of_stale`).
-/

namespace BoundedCache

theorem Slab.isSome_elements_iff {α β : Type} {s : Slab β} (field : β → α) {i : Index} :
    (s.elements field i).isSome = true ↔ s.stamp i.slot = (true, i.generation) := by
  rw [elements, Option.isSome_map]
  exact isSome_get?_iff

namespace OrderedPolicy

variable {α : Type}

theorem stamp_touch (p : OrderedPolicy α) (i : Index) :
    (p.touch i).chain.nodes.stamp = p.chain.nodes.stamp := by
  unfold touch
  split
  · exact p.chain.stamp_moveToBack i
  · rfl

theorem stamp_update (p : OrderedPolicy α) (i : Index) (element : α) :
    (p.update i element).2.chain.nodes.stamp = p.chain.nodes.stamp := by
  unfold update
  split
  · exact (stamp_touch _ i).trans (p.chain.stamp_set i element)
  · rfl

theorem retires_evict (p : OrderedPolicy α) :
    Retires p.chain.nodes.stamp p.evict.2.chain.nodes.stamp := by
  by_cases hend : p.discipline.takesNewest = true
  · simp only [evict, hend, if_true]
    exact p.chain.retires_popBack
  · simp only [evict, hend]
    exact p.chain.retires_popFront

theorem unchanged_of_stale {p : OrderedPolicy α} {i : Index} (hstale : p.peek? i = none) :
    p.touch i = p ∧ (∀ element, p.update i element = (false, p)) ∧ p.remove i = (none, p) := by
  have hcontains : p.chain.contains i = false := by
    rw [Chain.contains, Slab.contains_eq Node.value, Option.isSome_eq_false_iff,
      Option.isNone_iff_eq_none]
    exact hstale
  refine ⟨?_, fun element => ?_, ?_⟩
  · rw [touch, Chain.moveToBack_of_stale hstale]
    exact ite_self p
  · rw [update, hcontains]
    rfl
  · rw [remove, Chain.remove_of_stale hstale]

end OrderedPolicy

namespace FrequencyPolicy

variable {α : Type}

theorem stamp_touch (p : FrequencyPolicy α) (i : Index) :
    (p.touch i).nodes.stamp = p.nodes.stamp := by
  unfold touch
  split
  · rfl
  · exact p.nodes.stamp_modify i _

theorem stamp_update (p : FrequencyPolicy α) (i : Index) (element : α) :
    (p.update i element).2.nodes.stamp = p.nodes.stamp := by
  unfold update
  split
  · exact (stamp_touch _ i).trans (p.nodes.stamp_modify i _)
  · rfl

theorem retires_remove (p : FrequencyPolicy α) (i : Index) :
    Retires p.nodes.stamp (p.remove i).2.nodes.stamp := by
  rw [nodes_remove]
  exact p.nodes.retires_remove i

theorem retires_evict (p : FrequencyPolicy α) :
    Retires p.nodes.stamp p.evict.2.nodes.stamp := by
  unfold evict
  split
  · exact .refl _
  · exact p.nodes.retires_remove _

theorem unchanged_of_stale {p : FrequencyPolicy α} {i : Index} (hstale : p.peek? i = none) :
    p.touch i = p ∧ (∀ element, p.update i element = (false, p)) ∧ p.remove i = (none, p) := by
  have hget : p.nodes.get? i = none := Option.map_eq_none_iff.mp hstale
  refine ⟨?_, fun element => ?_, ?_⟩
  · rw [touch, hget]
  · rw [update, Slab.contains, hget]
    rfl
  · rw [remove, Slab.remove_of_stale hget]

end FrequencyPolicy

namespace ClockPolicy

variable {α : Type}

/-- The hand clears bits, which no stamp shows, until it takes one element out. -/
theorem retires_sweep (fuel : Nat) (p : ClockPolicy α) :
    Retires p.nodes.stamp (sweep fuel p).2.nodes.stamp := by
  induction fuel generalizing p with
  | zero => exact .refl _
  | succ fuel ih =>
      cases hslot : p.nodes.entryAt? p.hand with
      | none =>
          rw [sweep_of_vacant hslot]
          exact ih p.advance
      | some entry =>
          obtain ⟨i, node⟩ := entry
          by_cases hbit : node.referenced = true
          · rw [sweep_of_referenced hslot hbit]
            have hspared : (p.spare i).nodes.stamp = p.nodes.stamp := p.nodes.stamp_modify i _
            exact hspared ▸ ih (p.spare i)
          · rw [sweep_of_not_referenced hslot hbit]
            exact p.nodes.retires_remove i

theorem retires_evict (p : ClockPolicy α) : Retires p.nodes.stamp p.evict.2.nodes.stamp := by
  rw [evict_eq]
  split
  · exact .refl _
  · have hsweep := retires_sweep (2 * p.settle.nodes.slots) p.settle
    have hsettled : p.settle.nodes.stamp = p.nodes.stamp := by rw [nodes_settle]
    exact hsettled ▸ hsweep

theorem unchanged_of_stale {p : ClockPolicy α} {i : Index} (hstale : p.peek? i = none) :
    p.touch i = p ∧ (∀ element, p.update i element = (false, p)) ∧ p.remove i = (none, p) := by
  have hget : p.nodes.get? i = none := Option.map_eq_none_iff.mp hstale
  refine ⟨?_, fun element => ?_, ?_⟩
  · rw [touch, Slab.modify_of_stale hget]
  · rw [update, Slab.modify_of_stale hget, Slab.contains, hget]
    rfl
  · rw [remove, Slab.remove_of_stale hget]
    rfl

end ClockPolicy

namespace RandomPolicy

variable {α : Type}

theorem stamp_reposition (nodes : Slab (Placed α)) (moved? : Option Index) (position : Nat) :
    (reposition nodes moved? position).stamp = nodes.stamp := by
  cases moved? with
  | none => rfl
  | some moved => exact nodes.stamp_modify moved _

theorem retires_remove (p : RandomPolicy α) (i : Index) :
    Retires p.nodes.stamp (p.remove i).2.nodes.stamp := by
  cases hget : p.nodes.get? i with
  | none =>
      rw [remove, Slab.remove_of_stale hget]
      exact .refl _
  | some node =>
      rw [remove_of_get? hget]
      exact (p.nodes.retires_remove i).trans (.of_eq (stamp_reposition _ _ _))

theorem retires_evict (p : RandomPolicy α) : Retires p.nodes.stamp p.evict.2.nodes.stamp := by
  unfold evict evictAt
  split
  · exact .refl _
  · -- the draw moves the generator on and leaves the elements alone
    dsimp only
    split
    · exact .refl _
    · exact retires_remove { p with generator := _ } _

theorem unchanged_of_stale {p : RandomPolicy α} {i : Index} (hstale : p.peek? i = none) :
    (∀ element, p.update i element = (false, p)) ∧ p.remove i = (none, p) := by
  have hget : p.nodes.get? i = none := Option.map_eq_none_iff.mp hstale
  refine ⟨fun element => ?_, ?_⟩
  · rw [update, Slab.modify_of_stale hget, Slab.contains, hget]
    rfl
  · rw [remove, Slab.remove_of_stale hget]

end RandomPolicy

namespace Policy

variable {α : Type} {p : Policy α} {i : Index} {element : α}

/-- The stamp of a slot. -/
def stamp : Policy α → Nat → Bool × UInt32
  | ordered p | forgetful p | stubborn p => p.chain.nodes.stamp
  | frequency p => p.nodes.stamp
  | secondChance p => p.nodes.stamp
  | random p => p.nodes.stamp

theorem isSome_peek?_iff (p : Policy α) (i : Index) :
    (p.peek? i).isSome = true ↔ p.stamp i.slot = (true, i.generation) := by
  cases p with
  | ordered p | forgetful p | stubborn p => exact Slab.isSome_elements_iff Node.value
  | frequency p => exact Slab.isSome_elements_iff Counted.element
  | secondChance p => exact Slab.isSome_elements_iff Marked.element
  | random p => exact Slab.isSome_elements_iff Placed.element

theorem Sound.stamp_add (h : p.Sound) (element : α) :
    p.stamp (p.add element).1.slot = (false, (p.add element).1.generation) ∧
      (p.add element).2.stamp =
        Function.update p.stamp (p.add element).1.slot (true, (p.add element).1.generation) := by
  cases p with
  | ordered p | forgetful p | stubborn p =>
      obtain ⟨items, hitems⟩ := h
      exact Chain.stamp_pushBack hitems.wellFormed element
  | frequency p => exact Slab.WellFormed.stamp_insert h.wellFormed _
  | secondChance p => exact Slab.WellFormed.stamp_insert h _
  | random p => exact Slab.WellFormed.stamp_insert h.wellFormed _

theorem retires_touch (p : Policy α) (i : Index) : Retires p.stamp (p.touch i).stamp := by
  apply Retires.of_eq
  cases p with
  | ordered p | forgetful p | stubborn p => exact p.stamp_touch i
  | frequency p => exact p.stamp_touch i
  | secondChance p => exact p.nodes.stamp_modify i _
  | random p => rfl

theorem retires_update (p : Policy α) (i : Index) (element : α) :
    Retires p.stamp (p.update i element).2.stamp := by
  cases p with
  | ordered p | stubborn p => exact .of_eq (p.stamp_update i element)
  | frequency p => exact .of_eq (p.stamp_update i element)
  | secondChance p => exact .of_eq (p.nodes.stamp_modify i _)
  | random p => exact .of_eq (p.nodes.stamp_modify i _)
  | forgetful p => exact p.chain.retires_remove i

theorem retires_remove (p : Policy α) (i : Index) : Retires p.stamp (p.remove i).2.stamp := by
  cases p with
  | ordered p | forgetful p | stubborn p => exact p.chain.retires_remove i
  | frequency p => exact p.retires_remove i
  | secondChance p => exact p.nodes.retires_remove i
  | random p => exact p.retires_remove i

theorem retires_evict (p : Policy α) : Retires p.stamp p.evict.2.stamp := by
  cases p with
  | ordered p | forgetful p => exact p.retires_evict
  | frequency p => exact p.retires_evict
  | secondChance p => exact p.retires_evict
  | random p => exact p.retires_evict
  | stubborn p => exact .refl _

theorem retires_clear (p : Policy α) : Retires p.stamp p.clear.2.stamp := by
  cases p with
  | ordered p | forgetful p | stubborn p => exact p.chain.retires_clearLoop p.chain.size
  | frequency p => exact p.nodes.retires_clear
  | secondChance p => exact p.nodes.retires_clear
  | random p => exact p.nodes.retires_clear

/-- Operations on an index that is not live change nothing at all. -/
theorem unchanged_of_stale (hstale : p.peek? i = none) :
    p.touch i = p ∧ (∀ element, p.update i element = (false, p)) ∧ p.remove i = (none, p) := by
  have hordered : ∀ q : OrderedPolicy α, q.peek? i = none → q.touch i = q ∧
      (∀ element, q.update i element = (false, q)) ∧ q.remove i = (none, q) :=
    fun q => OrderedPolicy.unchanged_of_stale
  cases p with
  | ordered p | stubborn p =>
      obtain ⟨htouch, hupdate, hremove⟩ := hordered p hstale
      refine ⟨congrArg _ htouch, fun element => ?_, ?_⟩
      · rw [update, hupdate]
        rfl
      · rw [remove, hremove]
        rfl
  | forgetful p =>
      obtain ⟨htouch, -, hremove⟩ := hordered p hstale
      refine ⟨congrArg _ htouch, fun element => ?_, ?_⟩
      · rw [update, hremove]
      · rw [remove, hremove]
        rfl
  | frequency p =>
      obtain ⟨htouch, hupdate, hremove⟩ := FrequencyPolicy.unchanged_of_stale hstale
      refine ⟨congrArg _ htouch, fun element => ?_, ?_⟩
      · rw [update, hupdate]
        rfl
      · rw [remove, hremove]
        rfl
  | secondChance p =>
      obtain ⟨htouch, hupdate, hremove⟩ := ClockPolicy.unchanged_of_stale hstale
      refine ⟨congrArg _ htouch, fun element => ?_, ?_⟩
      · rw [update, hupdate]
        rfl
      · rw [remove, hremove]
        rfl
  | random p =>
      obtain ⟨hupdate, hremove⟩ := RandomPolicy.unchanged_of_stale hstale
      refine ⟨rfl, fun element => ?_, ?_⟩
      · rw [update, hupdate]
        rfl
      · rw [remove, hremove]
        rfl

end Policy

end BoundedCache
