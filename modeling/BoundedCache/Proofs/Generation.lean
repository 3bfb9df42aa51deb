import BoundedCache.Proofs.Chain

/-!
# How slots age

The stamp of a slot says whether an element lives there, and under which generation.  An
index reaches an element exactly if its generation is stamped on its slot as live
(`isSome_get?_iff`), so the stamps are all that is needed to tell live indices from stale
ones.

An insertion turns the stamp of one slot from vacant to live, at the same generation.
Whatever takes elements out `Retires` slots: a stamp stays, or it turns from live to vacant
and the generation goes up by one.  That relation composes, so an operation made of many
changes of the slab, such as closing the gap in a chain, is as easy as a single one.
-/

namespace BoundedCache

/-- Whether an element lives in the cell, and the generation of the cell. -/
def Cell.stamp {α : Type} : Cell α → Bool × UInt32
  | .vacant _ generation => (false, generation)
  | .occupied generation _ => (true, generation)

/-- Each stamp stays, or an element has left and the generation has gone up. -/
def Retires (before after : Nat → Bool × UInt32) : Prop :=
  ∀ slot, after slot = before slot ∨
    ∃ generation, before slot = (true, generation) ∧ after slot = (false, generation + 1)

theorem Retires.refl (stamps : Nat → Bool × UInt32) : Retires stamps stamps :=
  fun _ => .inl rfl

theorem Retires.of_eq {before after : Nat → Bool × UInt32} (h : after = before) :
    Retires before after :=
  h ▸ .refl before

theorem Retires.trans {before between after : Nat → Bool × UInt32} (h : Retires before between)
    (h' : Retires between after) : Retires before after := by
  intro slot
  rcases h slot with hsame | ⟨generation, hlive, hgone⟩
  · rw [← hsame]
    exact h' slot
  · -- the element is gone, so the slot can only stay as it is
    rcases h' slot with hsame | ⟨generation', hlive', -⟩
    · exact .inr ⟨generation, hlive, hsame.trans hgone⟩
    · rw [hgone] at hlive'
      simp at hlive'

/-! ## Ageing

The generation of a slot counts how often it has been vacated, up to the width of a
generation.  An index that has departed was issued before its slot was vacated for the last
time, so it is not issued again before the count comes round.
-/

/-- How often a slot is vacated between two states: once, or not at all. -/
def vacated (before after : Nat → Bool × UInt32) (slot : Nat) : Nat :=
  if (before slot).1 = true ∧ (after slot).1 = false then 1 else 0

/-- Every slot has been vacated as often as `aged` says, and what has departed from it did so
before the last time. -/
structure Aged (stamps : Nat → Bool × UInt32) (aged : Nat → Nat) (departed : Index → Prop) :
    Prop where
  generation_eq : ∀ slot, (stamps slot).2 = UInt32.ofNat (aged slot)
  generation_lt : ∀ i, departed i → i.generation.toNat < aged i.slot

section

variable {before after : Nat → Bool × UInt32} {aged : Nat → Nat} {departed departed' : Index → Prop}
  {i : Index}

theorem vacated_le_one (before after : Nat → Bool × UInt32) (slot : Nat) :
    vacated before after slot ≤ 1 := by
  unfold vacated
  split <;> omega

theorem Retires.vacated (h : Retires before after) (slot : Nat) :
    (after slot = before slot ∧ vacated before after slot = 0) ∨
      ∃ generation, before slot = (true, generation) ∧ after slot = (false, generation + 1) ∧
        vacated before after slot = 1 := by
  unfold BoundedCache.vacated
  rcases h slot with hsame | ⟨generation, hbefore, hafter⟩
  · exact .inl ⟨hsame, by simp [hsame]⟩
  · exact .inr ⟨generation, hbefore, hafter, by simp [hbefore, hafter]⟩

/-- The generation of a slot goes up by one when it is vacated. -/
theorem Retires.generation_eq (h : Retires before after) (slot : Nat) :
    (after slot).2 = (before slot).2 + UInt32.ofNat (BoundedCache.vacated before after slot) := by
  rcases h.vacated slot with ⟨hsame, hvacated⟩ | ⟨generation, hbefore, hafter, hvacated⟩
  · rw [hsame, hvacated]
    exact (UInt32.add_zero _).symm
  · rw [hbefore, hafter, hvacated]
    rfl

/-- A live index has the generation of its slot, which is at most its age. -/
theorem Aged.generation_le (h : Aged before aged departed)
    (hlive : before i.slot = (true, i.generation)) : i.generation.toNat ≤ aged i.slot := by
  have hgeneration := h.generation_eq i.slot
  rw [hlive] at hgeneration
  rw [show i.generation = _ from hgeneration, UInt32.toNat_ofNat']
  exact Nat.mod_le _ _

/-- Elements leave: what departs was live, and is so no more. -/
theorem Aged.retire (h : Aged before aged departed) (hretires : Retires before after)
    (hdeparted : ∀ i, departed' i → departed i ∨
      before i.slot = (true, i.generation) ∧ after i.slot ≠ (true, i.generation)) :
    Aged after (fun slot => aged slot + vacated before after slot) departed' where
  generation_eq slot := by
    rw [hretires.generation_eq, h.generation_eq, ← UInt32.ofNat_add]
  generation_lt i hi := by
    rcases hdeparted i hi with hold | ⟨hlive, hgone⟩
    · exact Nat.lt_of_lt_of_le (h.generation_lt i hold) (Nat.le_add_right _ _)
    · rcases hretires.vacated i.slot with ⟨hsame, -⟩ | ⟨generation, -, -, hvacated⟩
      · exact absurd (hsame.trans hlive) hgone
      · rw [hvacated]
        exact Nat.lt_succ_of_le (h.generation_le hlive)

/-- Where an element comes in no slot is vacated, and the generations stay. -/
theorem vacated_of_insert (hvacant : before i.slot = (false, i.generation))
    (hafter : after = Function.update before i.slot (true, i.generation)) (slot : Nat) :
    vacated before after slot = 0 ∧ (after slot).2 = (before slot).2 := by
  unfold vacated
  rw [hafter]
  by_cases hslot : slot = i.slot
  · simp [hslot, hvacant]
  · simp [Function.update_of_ne hslot]

/-- An element comes in at a vacant slot. -/
theorem Aged.insert (h : Aged before aged departed)
    (hvacant : before i.slot = (false, i.generation))
    (hafter : after = Function.update before i.slot (true, i.generation))
    (hdeparted : ∀ j, departed' j → departed j) :
    Aged after (fun slot => aged slot + vacated before after slot) departed' where
  generation_eq slot := by
    obtain ⟨hvacated, hsame⟩ := vacated_of_insert hvacant hafter slot
    rw [hvacated, hsame, Nat.add_zero, h.generation_eq]
  generation_lt j hj :=
    Nat.lt_of_lt_of_le (h.generation_lt j (hdeparted j hj)) (Nat.le_add_right _ _)

/-- What is issued at a vacant slot has not departed, unless the count has come round. -/
theorem Aged.fresh (h : Aged before aged departed)
    (hvacant : before i.slot = (false, i.generation)) (hfew : aged i.slot < UInt32.size) :
    ¬ departed i := by
  intro hdeparted
  have hless := h.generation_lt i hdeparted
  have hgeneration := h.generation_eq i.slot
  rw [hvacant] at hgeneration
  rw [show i.generation = _ from hgeneration, UInt32.toNat_ofNat', Nat.mod_eq_of_lt hfew] at hless
  exact Nat.lt_irrefl _ hless

end

section

variable {σ ι : Type} (stamps : σ → Nat → Bool × UInt32) (act : σ → ι → σ)

/-- How often a slot is vacated in a run. -/
def vacations : σ → List ι → Nat → Nat
  | _, [], _ => 0
  | s, action :: actions, slot =>
      vacated (stamps s) (stamps (act s action)) slot + vacations (act s action) actions slot

theorem vacations_le_length (s : σ) (actions : List ι) (slot : Nat) :
    vacations stamps act s actions slot ≤ actions.length := by
  induction actions generalizing s with
  | nil => exact Nat.le_refl 0
  | cons action actions ih =>
      have hfirst := vacated_le_one (stamps s) (stamps (act s action)) slot
      have hrest := ih (act s action)
      rw [vacations, List.length_cons]
      omega

end

namespace Slab

variable {α : Type} {s : Slab α} {i : Index} {value : α}

/-- The stamp of a slot.  One that is not there yet is vacant at generation zero. -/
def stamp (s : Slab α) (slot : Nat) : Bool × UInt32 :=
  match s.cells[slot]? with
  | none => (false, 0)
  | some cell => cell.stamp

theorem stamp_of_cell {slot : Nat} {cell : Cell α} (hcell : s.cells[slot]? = some cell) :
    s.stamp slot = cell.stamp := by
  rw [stamp, hcell]

theorem isSome_get?_iff : (s.get? i).isSome = true ↔ s.stamp i.slot = (true, i.generation) := by
  unfold get? stamp
  cases hcell : s.cells[i.slot]? with
  | none => simp
  | some cell =>
      cases cell with
      | vacant next generation => simp [Cell.stamp]
      | occupied generation value =>
          simp only [Cell.stamp, Prod.mk.injEq, true_and]
          split <;> simp_all

/-- Rewriting a cell sets the stamp of its slot. -/
theorem stamp_setIfInBounds {slot : Nat} (hslot : slot < s.cells.size) (cell : Cell α)
    (free : Option Nat) (size : Nat) :
    stamp { cells := s.cells.setIfInBounds slot cell, free := free, size := size } =
      Function.update s.stamp slot cell.stamp := by
  funext other
  by_cases hother : other = slot
  · subst hother
    rw [Function.update_self]
    exact stamp_of_cell (Array.getElem?_setIfInBounds_self_of_lt hslot)
  · rw [Function.update_of_ne hother, stamp, stamp,
      Array.getElem?_setIfInBounds_ne (Ne.symm hother)]

theorem stamp_modify (s : Slab α) (i : Index) (change : α → α) :
    (s.modify i change).stamp = s.stamp := by
  cases hget : s.get? i with
  | none => rw [modify_of_stale hget]
  | some value =>
      have hcell := get?_eq_some.mp hget
      rw [modify_of_get? hget, stamp_setIfInBounds (lt_size_of_cell hcell),
        Function.update_eq_self_iff]
      exact (stamp_of_cell hcell).symm

theorem retires_remove (s : Slab α) (i : Index) : Retires s.stamp (s.remove i).2.stamp := by
  cases hget : s.get? i with
  | none =>
      rw [remove_of_stale hget]
      exact .refl _
  | some value =>
      have hcell := get?_eq_some.mp hget
      rw [remove_of_get? hget, stamp_setIfInBounds (lt_size_of_cell hcell)]
      intro slot
      by_cases hslot : slot = i.slot
      · subst hslot
        rw [Function.update_self, stamp_of_cell hcell]
        exact .inr ⟨i.generation, rfl, rfl⟩
      · rw [Function.update_of_ne hslot]
        exact .inl rfl

theorem retires_clear (s : Slab α) : Retires s.stamp s.clear.2.stamp :=
  clear_induction (motive := fun t => Retires s.stamp t.stamp) (.refl _)
    fun t i ht => ht.trans (t.retires_remove i)

/-- An element comes in at a vacant slot, under the generation that the slot shows. -/
theorem WellFormed.stamp_insert (h : s.WellFormed) (value : α) :
    s.stamp (s.insert value).1.slot = (false, (s.insert value).1.generation) ∧
      (s.insert value).2.stamp =
        Function.update s.stamp (s.insert value).1.slot (true, (s.insert value).1.generation) := by
  obtain ⟨chain, hchain⟩ := h.freeList
  cases hfree : s.free with
  | none =>
      rw [insert_of_free_eq_none hfree]
      refine ⟨by simp [stamp, slots], ?_⟩
      funext slot
      by_cases hslot : slot = s.slots
      · subst hslot
        rw [Function.update_self]
        simp [stamp, slots, Cell.stamp]
      · rw [Function.update_of_ne hslot]
        simp only [slots] at hslot
        simp only [stamp, Array.getElem?_push, if_neg hslot]
  | some slot =>
      obtain ⟨next, generation, rest, -, hcell, -⟩ := hchain.vacant_of_free hfree
      rw [insert_of_vacant hfree hcell]
      exact ⟨stamp_of_cell hcell, stamp_setIfInBounds (lt_size_of_cell hcell) _ _ _⟩

end Slab

/-! ## Chains

New links are changes in place, so only the nodes that come and go are seen.
-/

namespace Chain

variable {α : Type} {c : Chain α}

theorem stamp_place (c : Chain α) (i : Index) (prev next : Option Index) :
    (c.place i prev next).nodes.stamp = c.nodes.stamp :=
  c.nodes.stamp_modify i _

theorem stamp_joinAfter (c : Chain α) (prev next : Option Index) :
    (c.joinAfter prev next).nodes.stamp = c.nodes.stamp := by
  unfold joinAfter
  split
  · exact c.nodes.stamp_modify _ _
  · rfl

theorem stamp_joinBefore (c : Chain α) (prev next : Option Index) :
    (c.joinBefore prev next).nodes.stamp = c.nodes.stamp := by
  unfold joinBefore
  split
  · exact c.nodes.stamp_modify _ _
  · rfl

theorem stamp_linkBack (c : Chain α) (i : Index) :
    (c.linkBack i).nodes.stamp = c.nodes.stamp := by
  rw [linkBack_eq, stamp_joinBefore, stamp_joinAfter, stamp_place]

theorem stamp_linkFront (c : Chain α) (i : Index) :
    (c.linkFront i).nodes.stamp = c.nodes.stamp := by
  rw [linkFront_eq, stamp_joinAfter, stamp_joinBefore, stamp_place]

theorem stamp_unlink? {c' : Chain α} {i : Index} (h : c.unlink? i = some c') :
    c'.nodes.stamp = c.nodes.stamp := by
  rw [unlink?_eq, Option.map_eq_some_iff] at h
  obtain ⟨node, -, rfl⟩ := h
  rw [stamp_joinBefore, stamp_joinAfter, stamp_place]

theorem stamp_moveToBack (c : Chain α) (i : Index) :
    (c.moveToBack i).2.nodes.stamp = c.nodes.stamp := by
  unfold moveToBack
  split
  · rfl
  · split
    · rfl
    · rename_i c' hunlink
      rw [stamp_linkBack, stamp_unlink? hunlink]

theorem stamp_set (c : Chain α) (i : Index) (value : α) :
    (c.set i value).nodes.stamp = c.nodes.stamp :=
  c.nodes.stamp_modify i _

theorem retires_remove (c : Chain α) (i : Index) :
    Retires c.nodes.stamp (c.remove i).2.nodes.stamp := by
  unfold remove
  split
  · exact .refl _
  · rename_i c' hunlink
    rw [← stamp_unlink? hunlink]
    exact c'.nodes.retires_remove i

theorem retires_popFront (c : Chain α) : Retires c.nodes.stamp c.popFront.2.nodes.stamp := by
  unfold popFront
  split
  · exact .refl _
  · exact c.retires_remove _

theorem retires_popBack (c : Chain α) : Retires c.nodes.stamp c.popBack.2.nodes.stamp := by
  unfold popBack
  split
  · exact .refl _
  · exact c.retires_remove _

theorem retires_clearLoop (fuel : Nat) (c : Chain α) :
    Retires c.nodes.stamp (clearLoop fuel c).2.nodes.stamp := by
  induction fuel generalizing c with
  | zero => exact .refl _
  | succ fuel ih =>
      have hpop := c.retires_popFront
      unfold clearLoop
      split
      · rename_i c' heq
        rwa [heq] at hpop
      · rename_i value c' heq
        rw [heq] at hpop
        exact hpop.trans (ih c')

theorem stamp_pushBack (hwf : c.nodes.WellFormed) (value : α) :
    c.nodes.stamp (c.pushBack value).1.slot = (false, (c.pushBack value).1.generation) ∧
      (c.pushBack value).2.nodes.stamp = Function.update c.nodes.stamp (c.pushBack value).1.slot
        (true, (c.pushBack value).1.generation) := by
  obtain ⟨hvacant, hlive⟩ := hwf.stamp_insert { value := value }
  refine ⟨hvacant, ?_⟩
  rw [show (c.pushBack value).2.nodes.stamp = _ from stamp_linkBack _ _]
  exact hlive

theorem stamp_pushFront (hwf : c.nodes.WellFormed) (value : α) :
    c.nodes.stamp (c.pushFront value).1.slot = (false, (c.pushFront value).1.generation) ∧
      (c.pushFront value).2.nodes.stamp = Function.update c.nodes.stamp
        (c.pushFront value).1.slot (true, (c.pushFront value).1.generation) := by
  obtain ⟨hvacant, hlive⟩ := hwf.stamp_insert { value := value }
  refine ⟨hvacant, ?_⟩
  rw [show (c.pushFront value).2.nodes.stamp = _ from stamp_linkFront _ _]
  exact hlive

end Chain

end BoundedCache
