import Mathlib.Data.List.ReduceOption
import Mathlib.Data.List.Rotate
import Mathlib.Data.List.TakeWhile
import BoundedCache.Policy.SecondChance
import BoundedCache.Proofs.Policy.Effect

/-!
# The way of the hand

What the search for a victim does to the ring, slot by slot.  `Sweeps` is that search without any
bound on its length, together with the number of slots that it inspects.

The hand passes over a stretch of slots in which nothing is unreferenced (`sweeps_past`): what is
referenced there loses its bit, and the stretch goes to the end of the lap.  So there are two
cases.  If some element is unreferenced, the hand passes over what comes before the first of them,
and takes it.  If none is, it passes over the whole lap, is back where it was with all bits
cleared, and takes the first element of all.  Either way it has inspected two laps at most
(`sweeps_candidate`), which is why the fuel of `sweep` never runs out.
-/

namespace BoundedCache

/-- The element without its reference bit. -/
def Marked.unmark {α : Type} (node : Marked α) : Marked α := { node with referenced := false }

namespace ClockPolicy

variable {α : Type} {p p' : ClockPolicy α} {i : Index} {node : Marked α} {count : Nat}
  {victim : Option α} {before after : List (Option (Index × Marked α))}

/-! ## One step of the hand -/

/-- Clear the reference bit of the element at `i` and move on. -/
def spare (p : ClockPolicy α) (i : Index) : ClockPolicy α :=
  { p with nodes := p.nodes.modify i fun node => { node with referenced := false } }.advance

theorem advance_hand (hhand : p.hand < p.nodes.slots) :
    p.advance.hand = (p.hand + 1) % p.nodes.slots := by
  rw [advance]
  by_cases hnext : p.hand + 1 < p.nodes.slots
  · rw [if_pos hnext, Nat.mod_eq_of_lt hnext]
  · have hround : p.hand + 1 = p.nodes.slots := by omega
    rw [if_neg hnext, hround, Nat.mod_self]

theorem slots_spare (p : ClockPolicy α) (i : Index) : (p.spare i).nodes.slots = p.nodes.slots :=
  p.nodes.slots_modify i _

theorem spare_hand (hhand : p.hand < p.nodes.slots) (i : Index) :
    (p.spare i).hand = (p.hand + 1) % p.nodes.slots := by
  have hslots := p.nodes.slots_modify i fun node => { node with referenced := false }
  rw [spare, advance_hand (by rwa [hslots]), hslots]

/-- Sparing an element concerns no other slot. -/
theorem entryAt?_spare_of_ne {slot : Nat} (hslot : slot ≠ i.slot) :
    (p.spare i).nodes.entryAt? slot = p.nodes.entryAt? slot := by
  refine Slab.entryAt?_congr fun j hj => ?_
  have hne : j ≠ i := by
    rintro rfl
    exact hslot hj.symm
  rw [show (p.spare i).nodes = p.nodes.modify i _ from rfl, Slab.get?_modify,
    Function.update_of_ne hne]

theorem entryAt?_spare {slot : Nat} (hslot : p.nodes.entryAt? slot = some (i, node)) :
    (p.spare i).nodes.entryAt? slot = some (i, { node with referenced := false }) := by
  obtain ⟨hi, hget⟩ := Slab.entryAt?_eq_some.mp hslot
  refine Slab.entryAt?_eq_some.mpr ⟨hi, ?_⟩
  rw [show (p.spare i).nodes = p.nodes.modify i _ from rfl, Slab.get?_modify,
    Function.update_self, hget]
  rfl

theorem hand_lt_of_step (hhand : p.hand < p.nodes.slots) :
    (p.hand + 1) % p.nodes.slots < p.nodes.slots :=
  Nat.mod_lt _ (Nat.lt_of_le_of_lt (Nat.zero_le _) hhand)

theorem fst_advance_remove (hget : p.nodes.get? i = some node) :
    (p.advance.remove i).1 = some node.element :=
  (p.nodes.removes Marked.element i).answer.trans (Slab.elements_of_get? Marked.element hget)

/-! ## The lap -/

/-- The slots from the hand on, each with the element in it. -/
def lap (p : ClockPolicy α) : List (Option (Index × Marked α)) :=
  (List.range p.nodes.slots).map fun offset =>
    p.nodes.entryAt? ((p.hand + offset) % p.nodes.slots)

theorem length_lap (p : ClockPolicy α) : p.lap.length = p.nodes.slots := by simp [lap]

/-- A step of the hand moves the first cell, with what has become of it, to the end. -/
theorem lap_step (p' : ClockPolicy α) (hhand : p.hand < p.nodes.slots)
    (hslots : p'.nodes.slots = p.nodes.slots) (hnext : p'.hand = (p.hand + 1) % p.nodes.slots)
    (hcells : ∀ slot, slot ≠ p.hand → p'.nodes.entryAt? slot = p.nodes.entryAt? slot) :
    ∃ ahead, p.lap = p.nodes.entryAt? p.hand :: ahead ∧
      p'.lap = ahead ++ [p'.nodes.entryAt? p.hand] := by
  obtain ⟨last, hlast⟩ := Nat.exists_eq_add_one_of_ne_zero (Nat.ne_zero_of_lt hhand)
  refine ⟨(List.range last).map fun offset =>
    p.nodes.entryAt? ((p.hand + (offset + 1)) % p.nodes.slots), ?_, ?_⟩
  · rw [lap, hlast, List.range_succ_eq_map, List.map_cons, List.map_map, ← hlast, Nat.add_zero,
      Nat.mod_eq_of_lt hhand]
    rfl
  · have hahead : ∀ offset, (p'.hand + offset) % p.nodes.slots =
        (p.hand + (offset + 1)) % p.nodes.slots := fun offset => by
      rw [hnext, Nat.mod_add_mod, Nat.add_assoc, Nat.add_comm 1 offset]
    rw [lap, hslots, hlast, List.range_succ, List.map_append, List.map_singleton, ← hlast,
      hahead, ← hlast, Nat.add_mod_right, Nat.mod_eq_of_lt hhand]
    refine congrArg (· ++ _) (List.map_congr_left fun offset hoffset => ?_)
    -- before the round is over the hand is not back at the slot where it started
    have hne : (p.hand + (offset + 1)) % p.nodes.slots ≠ p.hand := by
      have hless := List.mem_range.mp hoffset
      intro hback
      rcases Nat.lt_or_ge (p.hand + (offset + 1)) p.nodes.slots with hin | hover
      · rw [Nat.mod_eq_of_lt hin] at hback
        omega
      · rw [Nat.mod_eq_sub_mod hover, Nat.mod_eq_of_lt (by omega)] at hback
        omega
    rw [hahead, hcells _ hne]

/-- The first cell of the lap is the slot at which the hand stands. -/
theorem entryAt?_hand {cell : Option (Index × Marked α)} (hhand : p.hand < p.nodes.slots)
    (hlap : p.lap = cell :: after) : p.nodes.entryAt? p.hand = cell := by
  obtain ⟨ahead, hahead, -⟩ := lap_step p.advance hhand rfl (advance_hand hhand) fun _ _ => rfl
  exact (List.cons.inj (hahead.symm.trans hlap)).1

/-- The elements in the order in which the hand meets them, with their indices. -/
def ring (p : ClockPolicy α) : List (Index × Marked α) := p.lap.reduceOption

/-- The ring from the hand on holds the same slots as the ring from its start. -/
theorem ring_perm (p : ClockPolicy α) :
    ((List.range p.nodes.slots).map fun offset => (p.hand + offset) % p.nodes.slots).Perm
      (List.range p.nodes.slots) := by
  refine List.Perm.trans (List.Perm.of_eq ?_) (List.rotate_perm _ p.hand)
  refine List.ext_getElem (by simp) fun k _ _ => ?_
  simp [List.getElem_rotate, Nat.add_comm]

/-- Every element is met once in a lap. -/
theorem enumerates_ring (p : ClockPolicy α) : Enumerates p.ring p.nodes.get? := by
  have hring : p.ring = ((List.range p.nodes.slots).map fun offset =>
      (p.hand + offset) % p.nodes.slots).filterMap p.nodes.entryAt? := by
    rw [ring, lap, List.reduceOption, List.filterMap_map, List.filterMap_map]
    rfl
  refine p.nodes.enumerates_toList.of_perm ?_
  rw [hring, Slab.toList_eq]
  exact (p.ring_perm.filterMap _).symm

theorem peekAll_eq_ring (p : ClockPolicy α) : p.peekAll = p.ring.map fun x => x.2.element := by
  rw [peekAll, ring, lap, List.reduceOption, List.filterMap_map, List.map_filterMap]
  refine List.filterMap_congr fun offset _ => ?_
  simp only [Function.comp_apply, id_eq, Slab.indexAt?_eq]
  cases hslot : p.nodes.entryAt? ((p.hand + offset) % p.nodes.slots) with
  | none => rfl
  | some entry => simp [peek?, (Slab.entryAt?_eq_some.mp hslot).2]

/-! ## The search without a bound -/

/-- The hand goes on until it takes an element, or finds none where there should be one.  It
inspects `count` slots. -/
inductive Sweeps : ClockPolicy α → Nat → Option α → ClockPolicy α → Prop where
  | vacant {p p' : ClockPolicy α} {count : Nat} {victim : Option α}
      (hslot : p.nodes.indexAt? p.hand = none) (hrest : Sweeps p.advance count victim p') :
      Sweeps p (count + 1) victim p'
  | spared {p p' : ClockPolicy α} {count : Nat} {victim : Option α} {i : Index} {node : Marked α}
      (hslot : p.nodes.indexAt? p.hand = some i) (hget : p.nodes.get? i = some node)
      (hbit : node.referenced = true) (hrest : Sweeps (p.spare i) count victim p') :
      Sweeps p (count + 1) victim p'
  | taken {p : ClockPolicy α} {i : Index} {node : Marked α}
      (hslot : p.nodes.indexAt? p.hand = some i) (hget : p.nodes.get? i = some node)
      (hbit : node.referenced = false) :
      Sweeps p 1 (p.advance.remove i).1 (p.advance.remove i).2
  | lost {p : ClockPolicy α} {i : Index} (hslot : p.nodes.indexAt? p.hand = some i)
      (hget : p.nodes.get? i = none) : Sweeps p 1 none p

/-- Fuel for the slots that are inspected is enough, and more makes no difference. -/
theorem Sweeps.sweep_eq (h : Sweeps p count victim p') {fuel : Nat} (hfuel : count ≤ fuel) :
    sweep fuel p = (victim, p') := by
  induction h generalizing fuel with
  | vacant hslot hrest ih =>
      obtain ⟨fuel, rfl⟩ := Nat.exists_eq_add_one_of_ne_zero (show fuel ≠ 0 by omega)
      rw [sweep, hslot]
      exact ih (by omega)
  | spared hslot hget hbit hrest ih =>
      obtain ⟨fuel, rfl⟩ := Nat.exists_eq_add_one_of_ne_zero (show fuel ≠ 0 by omega)
      simp only [sweep, hslot, hget, hbit, if_true]
      exact ih (by omega)
  | taken hslot hget hbit =>
      obtain ⟨fuel, rfl⟩ := Nat.exists_eq_add_one_of_ne_zero (show fuel ≠ 0 by omega)
      simp [sweep, hslot, hget, hbit]
  | lost hslot hget =>
      obtain ⟨fuel, rfl⟩ := Nat.exists_eq_add_one_of_ne_zero (show fuel ≠ 0 by omega)
      simp [sweep, hslot, hget]

/-! ## Passing over -/

/-- The elements at the indices lose their reference bits, and nothing else changes. -/
def cleared (passed : List Index) (f : Index → Option (Marked α)) (j : Index) :
    Option (Marked α) :=
  (f j).map fun node => if j ∈ passed then node.unmark else node

/-- The indices in a stretch of the lap. -/
def indices (cells : List (Option (Index × Marked α))) : List Index :=
  cells.reduceOption.map Prod.fst

@[simp] theorem cleared_nil (f : Index → Option (Marked α)) : cleared [] f = f := by
  funext j
  simp [cleared]

theorem cleared_singleton (f : Index → Option (Marked α)) (i : Index) :
    cleared [i] f = Function.update f i ((f i).map Marked.unmark) := by
  funext j
  by_cases hj : j = i
  · subst hj
    simp [cleared]
  · simp [cleared, hj]

/-- Bits that are cleared in turn are all cleared. -/
theorem cleared_append (passed others : List Index) (f : Index → Option (Marked α)) :
    cleared (passed ++ others) f = cleared others (cleared passed f) := by
  funext j
  rw [cleared, cleared, cleared, Option.map_map]
  refine congrArg (Option.map · (f j)) (funext fun node => ?_)
  by_cases hpassed : j ∈ passed <;> by_cases hothers : j ∈ others <;>
    simp [hpassed, hothers, Marked.unmark]

theorem indices_append (cells others : List (Option (Index × Marked α))) :
    indices (cells ++ others) = indices cells ++ indices others := by
  rw [indices, List.reduceOption_append, List.map_append]
  rfl

/-- What the hand does at one slot where it takes nothing. -/
theorem sweeps_step {cell : Option (Index × Marked α)} (hhand : p.hand < p.nodes.slots)
    (hlap : p.lap = cell :: after) (hpassed : ∀ x, cell = some x → x.2.referenced = true) :
    ∃ p₁ : ClockPolicy α, p₁.hand = (p.hand + 1) % p.nodes.slots ∧
      p₁.nodes.slots = p.nodes.slots ∧
      p₁.lap = after ++ [cell.map (Prod.map id Marked.unmark)] ∧
      p₁.nodes.get? = cleared (indices [cell]) p.nodes.get? ∧
      ∀ {count victim p'}, Sweeps p₁ count victim p' → Sweeps p (count + 1) victim p' := by
  have hslot := entryAt?_hand hhand hlap
  cases cell with
  | none =>
      obtain ⟨ahead, hbefore, hafter⟩ :=
        lap_step p.advance hhand rfl (advance_hand hhand) fun _ _ => rfl
      have hahead : ahead = after := (List.cons.inj (hbefore.symm.trans hlap)).2
      have hvacant : p.nodes.indexAt? p.hand = none := by rw [Slab.indexAt?_eq, hslot]; rfl
      refine ⟨p.advance, advance_hand hhand, rfl, ?_, (cleared_nil _).symm, .vacant hvacant⟩
      rw [hafter, hahead, show p.advance.nodes = p.nodes from rfl, hslot]
      rfl
  | some entry =>
      obtain ⟨i, node⟩ := entry
      obtain ⟨hi, hget⟩ := Slab.entryAt?_eq_some.mp hslot
      obtain ⟨ahead, hbefore, hafter⟩ :=
        lap_step (p.spare i) hhand (slots_spare p i) (spare_hand hhand i)
          fun _ hother => entryAt?_spare_of_ne (hi.symm ▸ hother)
      have hahead : ahead = after := (List.cons.inj (hbefore.symm.trans hlap)).2
      have hindex : p.nodes.indexAt? p.hand = some i := by rw [Slab.indexAt?_eq, hslot]; rfl
      refine ⟨p.spare i, spare_hand hhand i, slots_spare p i, ?_, ?_,
        .spared hindex hget (hpassed _ rfl)⟩
      · rw [hafter, hahead, entryAt?_spare hslot]
        rfl
      · show (p.spare i).nodes.get? = cleared [i] p.nodes.get?
        rw [cleared_singleton]
        exact p.nodes.get?_modify i Marked.unmark

/-- The hand passes over slots in which nothing is unreferenced. -/
theorem sweeps_past (hhand : p.hand < p.nodes.slots) (hlap : p.lap = before ++ after)
    (hpassed : ∀ x, some x ∈ before → x.2.referenced = true) :
    ∃ p₁ : ClockPolicy α, p₁.hand < p.nodes.slots ∧ p₁.nodes.slots = p.nodes.slots ∧
      p₁.lap = after ++ before.map (Option.map (Prod.map id Marked.unmark)) ∧
      p₁.nodes.get? = cleared (indices before) p.nodes.get? ∧
      ∀ {count victim p'}, Sweeps p₁ count victim p' →
        Sweeps p (before.length + count) victim p' := by
  -- the stretch is passed slot by slot, and each slot goes to the end of the lap
  induction before generalizing p after with
  | nil =>
      refine ⟨p, hhand, rfl, ?_, (cleared_nil _).symm, fun h => ?_⟩
      · rw [hlap, List.nil_append, List.map_nil, List.append_nil]
      · rwa [List.length_nil, Nat.zero_add]
  | cons cell before ih =>
      obtain ⟨p₁, hhand₁, hslots₁, hlap₁, hget₁, hsweeps₁⟩ :=
        sweeps_step hhand hlap fun x hx => hpassed x (hx ▸ List.mem_cons_self)
      have hless : p₁.hand < p₁.nodes.slots := by
        rw [hhand₁, hslots₁]
        exact hand_lt_of_step hhand
      rw [List.cons_append] at hlap
      have hahead : p₁.lap = before ++ (after ++ [cell.map (Prod.map id Marked.unmark)]) := by
        rw [hlap₁]
        exact List.append_assoc _ _ _
      obtain ⟨p₂, hhand₂, hslots₂, hlap₂, hget₂, hsweeps₂⟩ :=
        ih hless hahead fun x hx => hpassed x (List.mem_cons_of_mem _ hx)
      refine ⟨p₂, hslots₁ ▸ hhand₂, hslots₂.trans hslots₁, ?_, ?_, fun h => ?_⟩
      · rw [hlap₂, List.append_assoc, List.map_cons]
        rfl
      · rw [hget₂, hget₁, ← cleared_append, ← indices_append]
        rfl
      · have hsweeps := hsweeps₁ (hsweeps₂ h)
        rwa [List.length_cons, Nat.add_right_comm]

/-! ## The victim -/

/-- The hand passes over a stretch and takes the unreferenced element behind it. -/
theorem sweeps_to (hhand : p.hand < p.nodes.slots)
    (hlap : p.lap = before ++ some (i, node) :: after)
    (hpassed : ∀ x, some x ∈ before → x.2.referenced = true) (hbit : node.referenced = false) :
    ∃ p' : ClockPolicy α, Sweeps p (before.length + 1) (some node.element) p' ∧
      p'.hand = (i.slot + 1) % p.nodes.slots ∧ p'.nodes.slots = p.nodes.slots ∧
      p'.nodes.get? = Function.update (cleared (indices before) p.nodes.get?) i none := by
  obtain ⟨p₁, hhand₁, hslots₁, hlap₁, hget₁, hsweeps⟩ := sweeps_past hhand hlap hpassed
  rw [← hslots₁] at hhand₁
  have hslot : p₁.nodes.entryAt? p₁.hand = some (i, node) := entryAt?_hand hhand₁ hlap₁
  obtain ⟨hi, hget⟩ := Slab.entryAt?_eq_some.mp hslot
  have hindex : p₁.nodes.indexAt? p₁.hand = some i := by rw [Slab.indexAt?_eq, hslot]; rfl
  have htaken := Sweeps.taken hindex hget hbit
  rw [fst_advance_remove hget] at htaken
  refine ⟨_, hsweeps htaken, ?_, (p₁.nodes.slots_remove i).trans hslots₁, ?_⟩
  · rw [hi, ← hslots₁]
    exact advance_hand hhand₁
  · rw [← hget₁]
    exact (p₁.nodes.get?_remove i).2

/-- The first unreferenced element from the hand on; if there is none, the first one. -/
def candidate? (p : ClockPolicy α) : Option (Index × Marked α) :=
  (p.ring.find? fun x => !x.2.referenced).or p.ring.head?

theorem exists_candidate (hring : p.ring ≠ []) : ∃ x, p.candidate? = some x := by
  refine Option.isSome_iff_exists.mp ?_
  simp [candidate?, List.isSome_head?, hring]

/-- The elements that the hand meets before the first unreferenced one. -/
def passed (p : ClockPolicy α) : List Index :=
  (p.ring.takeWhile fun x => x.2.referenced).map Prod.fst

/-- Some elements are unreferenced, and the candidate is the first of these; or none is, and it is
the first of all. -/
theorem split_ring (hcandidate : p.candidate? = some (i, node)) :
    (∃ first rest, p.ring = first ++ (i, node) :: rest ∧ (∀ x ∈ first, x.2.referenced = true) ∧
      node.referenced = false ∧ p.passed = first.map Prod.fst) ∨
    ∃ rest, p.ring = (i, node) :: rest ∧ (∀ x ∈ p.ring, x.2.referenced = true) ∧
      p.passed = p.ring.map Prod.fst := by
  rw [candidate?] at hcandidate
  cases hfind : p.ring.find? fun x => !x.2.referenced with
  | some x =>
      rw [hfind, Option.some_or, Option.some.injEq] at hcandidate
      subst hcandidate
      obtain ⟨hbit, first, rest, hring, hfirst⟩ := List.find?_eq_some_iff_append.mp hfind
      have hbit : node.referenced = false := by simpa using hbit
      have hfirst : ∀ x ∈ first, x.2.referenced = true := by simpa using hfirst
      refine .inl ⟨first, rest, hring, hfirst, hbit, ?_⟩
      rw [passed, hring, List.takeWhile_append_of_pos hfirst,
        List.takeWhile_cons_of_neg (by simp [hbit]), List.append_nil]
  | none =>
      rw [hfind, Option.none_or] at hcandidate
      obtain ⟨rest, hring⟩ := List.head?_eq_some_iff.mp hcandidate
      have hall : ∀ x ∈ p.ring, x.2.referenced = true := by
        intro x hx
        simpa using List.find?_eq_none.mp hfind x hx
      refine .inr ⟨rest, hring, hall, ?_⟩
      rw [passed, List.takeWhile_eq_self_iff.mpr hall]

/-- What stands where in the ring has its place in the lap. -/
theorem split_lap {first rest : List (Index × Marked α)}
    (hring : p.ring = first ++ (i, node) :: rest) :
    ∃ before after, p.lap = before ++ some (i, node) :: after ∧ before.reduceOption = first := by
  obtain ⟨before, others, hlap, hbefore, hothers⟩ := List.filterMap_eq_append_iff.mp hring
  obtain ⟨vacant, cell, after, hsplit, hvacant, hcell, -⟩ := List.filterMap_eq_cons_iff.mp hothers
  refine ⟨before ++ vacant, after, ?_, ?_⟩
  · rw [hlap, hsplit, List.append_assoc, show cell = some (i, node) from hcell]
  · have hnone : vacant.reduceOption = [] := List.filterMap_eq_nil_iff.mpr hvacant
    rw [List.reduceOption_append, hnone, List.append_nil]
    exact hbefore

/-- The hand takes the candidate, within two laps. -/
theorem sweeps_candidate (hhand : p.hand < p.nodes.slots)
    (hcandidate : p.candidate? = some (i, node)) :
    ∃ count p', count ≤ 2 * p.nodes.slots ∧ Sweeps p count (some node.element) p' ∧
      p'.hand = (i.slot + 1) % p.nodes.slots ∧ p'.nodes.slots = p.nodes.slots ∧
      p'.nodes.get? = Function.update (cleared p.passed p.nodes.get?) i none := by
  rcases split_ring hcandidate with
    ⟨first, rest, hring, hfirst, hbit, hpassed⟩ | ⟨rest, hring, hall, hpassed⟩
  · -- some element is unreferenced, and the hand goes as far as the first of these
    obtain ⟨before, after, hlap, hbefore⟩ := split_lap hring
    have hlength : before.length + (after.length + 1) = p.nodes.slots := by
      rw [← p.length_lap, hlap, List.length_append, List.length_cons]
    obtain ⟨p', hsweeps, hhand', hslots', hget'⟩ := sweeps_to hhand hlap
      (fun x hx => hfirst x (hbefore ▸ List.reduceOption_mem_iff.mpr hx)) hbit
    refine ⟨_, p', by omega, hsweeps, hhand', hslots', ?_⟩
    rw [hget', hpassed, ← hbefore]
    rfl
  · -- a whole lap goes by, and then the hand goes as far as the first element
    obtain ⟨before, after, hlap, hbefore⟩ :=
      split_lap (show p.ring = [] ++ (i, node) :: rest from hring)
    have hlength : before.length + (after.length + 1) = p.nodes.slots := by
      rw [← p.length_lap, hlap, List.length_append, List.length_cons]
    obtain ⟨p₁, hhand₁, hslots₁, hlap₁, hget₁, hsweeps₁⟩ :=
      sweeps_past hhand (List.append_nil p.lap).symm
        fun x hx => hall x (List.reduceOption_mem_iff.mpr hx)
    rw [← hslots₁] at hhand₁
    rw [List.nil_append, hlap, List.map_append, List.map_cons] at hlap₁
    have hvacant : (before.map (Option.map (Prod.map id Marked.unmark))).reduceOption = [] := by
      rw [List.reduceOption_map, hbefore, List.map_nil]
    obtain ⟨p', hsweeps, hhand', hslots', hget'⟩ := sweeps_to hhand₁ hlap₁
      (fun x hx => by
        rw [← List.reduceOption_mem_iff, hvacant] at hx
        exact absurd hx List.not_mem_nil) rfl
    refine ⟨_, p', ?_, hsweeps₁ hsweeps, hslots₁ ▸ hhand', hslots'.trans hslots₁, ?_⟩
    · rw [p.length_lap, List.length_map]
      omega
    · rw [hget', indices, hvacant, List.map_nil, cleared_nil, hget₁, hpassed]
      rfl

end ClockPolicy

end BoundedCache
