import Mathlib.Data.List.ReduceOption
import BoundedCache.Proofs.Policy.Register

/-!
# All victims, one after the other

`drain` asks a policy for victims until there is none.  The fuel in its definition is
enough for every sound policy, since each victim is one element less: `drain_of_none` and
`Sound.drain_of_some` are the equations of the same loop without a bound.  A policy that
yields gives up every element in this way (`Sound.lists_drain`).

Which order that is differs between the policies, and so does the order of `clear`.  A
chain gives its elements up from one end, but is always cleared from the front.  The
counts of uses are given up and cleared by rank.  The hand of the clock first takes what
is unreferenced and only a round later what it has spared (`turn`), but a ring is cleared
slot by slot.
-/

namespace BoundedCache

variable {α : Type}

theorem Lists.exists_perm_cons {f : Index → Option α} {elements : List α} (h : Lists f elements)
    {i : Index} {element : α} (hi : f i = some element) :
    ∃ rest, elements.Perm (element :: rest) ∧ Lists (Function.update f i none) rest := by
  obtain ⟨items, hitems, hperm⟩ := h
  obtain ⟨others, hothers⟩ := hitems.exists_perm_cons hi
  exact ⟨others.map Prod.snd, hperm.trans (hothers.map _), (hitems.of_perm hothers).erase.lists⟩

namespace Policy

variable {p : Policy α} {element : α}

/-- A victim is one element less. -/
theorem Sound.size_evict (h : p.Sound) (hvictim : p.evict.1 = some element) :
    p.evict.2.size + 1 = p.size := by
  obtain ⟨hyields, -, hfollows⟩ := h.evict
  rw [hvictim] at hyields
  obtain ⟨i, hi, hafter⟩ := hyields.of_some
  obtain ⟨hlists, hsize⟩ := h.peekAll
  obtain ⟨hlists', hsize'⟩ := hfollows.sound.peekAll
  obtain ⟨rest, hperm, hrest⟩ := hlists.exists_perm_cons hi
  rw [hafter] at hlists'
  rw [hsize', hsize, (hlists'.perm hrest).length_eq, hperm.length_eq, List.length_cons]

/-- What holds of a policy without a victim, and of any policy if it holds after the victim
has left, holds of every sound policy: the victims run out. -/
theorem Sound.evict_induction {motive : Policy α → Prop}
    (exhausted : ∀ p : Policy α, p.Sound → p.evict.1 = none → motive p)
    (victim : ∀ (p : Policy α) (element : α), p.Sound → p.evict.1 = some element →
      motive p.evict.2 → motive p)
    (h : p.Sound) : motive p := by
  induction hsize : p.size using Nat.strong_induction_on generalizing p with
  | _ size ih =>
      cases hvictim : p.evict.1 with
      | none => exact exhausted p h hvictim
      | some element =>
          have hless := h.size_evict hvictim
          exact victim p element h hvictim (ih _ (by omega) h.evict.2.2.sound rfl)

/-- Fuel beyond the number of elements makes no difference. -/
theorem Sound.victims_congr (h : p.Sound) {fuel fuel' : Nat} (hfuel : p.size < fuel)
    (hfuel' : p.size < fuel') : p.victims fuel = p.victims fuel' := by
  induction fuel generalizing p fuel' with
  | zero => exact absurd hfuel (Nat.not_lt_zero _)
  | succ fuel ih =>
      cases fuel' with
      | zero => exact absurd hfuel' (Nat.not_lt_zero _)
      | succ fuel' =>
          have hsound := h.evict.2.2.sound
          have hless : ∀ element, p.evict.1 = some element → p.evict.2.size + 1 = p.size :=
            fun _ => h.size_evict
          rw [victims, victims]
          rcases hanswer : p.evict with ⟨victim, after⟩
          rw [hanswer] at hsound hless
          cases victim with
          | none => rfl
          | some element =>
              have hsize : after.size + 1 = p.size := hless element rfl
              have hsame : after.victims fuel = after.victims fuel' :=
                ih hsound (show after.size < fuel by omega) (show after.size < fuel' by omega)
              simp only [hsame]

theorem drain_of_none (hvictim : p.evict.1 = none) : p.drain = ([], p.evict.2) := by
  rw [drain, victims]
  generalize p.evict = answer at hvictim ⊢
  rcases answer with ⟨victim, after⟩
  obtain rfl : victim = none := hvictim
  rfl

theorem Sound.drain_of_some (h : p.Sound) (hvictim : p.evict.1 = some element) :
    p.drain = (element :: p.evict.2.drain.1, p.evict.2.drain.2) := by
  have hsize := h.size_evict hvictim
  have hrest : p.evict.2.victims p.size = p.evict.2.drain :=
    h.evict.2.2.sound.victims_congr (by omega) (Nat.lt_succ_self _)
  rw [← hrest, drain, victims]
  generalize p.evict = answer at hvictim ⊢
  rcases answer with ⟨victim, after⟩
  obtain rfl : victim = some element := hvictim
  rfl

/-- A policy that yields gives up every element. -/
theorem Sound.lists_drain (h : p.Sound) (hyield : p.Yielding) : Lists p.peek? p.drain.1 := by
  revert hyield
  refine Sound.evict_induction (motive := fun p => p.Yielding → Lists p.peek? p.drain.1)
    (fun p h hvictim hyield => ?_) (fun p element h hvictim ih hyield => ?_) h
  · have hevicts := h.evict.2.1 hyield
    rw [hvictim] at hevicts
    rw [drain_of_none hvictim, funext hevicts.of_none.1]
    exact Enumerates.nil.lists
  · have hevicts := h.evict.2.1 hyield
    rw [hvictim] at hevicts
    obtain ⟨i, hi, hafter⟩ := hevicts.of_some
    have hrest := ih (h.evict.2.2.yielding hyield)
    obtain ⟨others, hothers, hlists⟩ := h.peekAll.1.exists_perm_cons hi
    rw [hafter] at hrest
    rw [h.drain_of_some hvictim]
    exact h.peekAll.1.of_perm (((hrest.perm hlists).cons element).trans hothers.symm)

/-! ## Chains -/

/-- The elements are given up as they queue. -/
theorem drain_of_represents {p : OrderedPolicy α} {items : List (Index × α)}
    (h : p.chain.Represents items) :
    (ordered p).drain.1 = (p.discipline.queue items).map Prod.snd := by
  induction hqueue : p.discipline.queue items generalizing p items with
  | nil =>
      obtain ⟨-, -, -, hanswer, -⟩ := OrderedPolicy.evict_of_represents h
      rw [hqueue] at hanswer
      rw [drain_of_none (p := ordered p) hanswer, List.map_nil]
  | cons first rest ih =>
      obtain ⟨kept, hkept, -, hanswer, htail⟩ := OrderedPolicy.evict_of_represents h
      rw [hqueue] at hanswer htail
      have hsound : (ordered p).Sound := ⟨items, h⟩
      rw [hsound.drain_of_some hanswer, List.map_cons]
      exact congrArg (first.2 :: ·) (ih hkept htail)

/-- The list of the elements is the order in which they are given up; they are cleared from
the front of the chain, whichever end that is. -/
theorem drain_ordered {p : OrderedPolicy α} (h : p.Sound) :
    (ordered p).drain.1 = p.peekAll ∧
      p.clear.1 = if p.discipline.takesNewest then p.peekAll.reverse else p.peekAll := by
  obtain ⟨items, hitems⟩ := h
  have hclear : p.clear.1 = items.map Prod.snd := hitems.clear.1
  rw [hclear, drain_of_represents hitems, OrderedPolicy.peekAll, hitems.toList_eq,
    hitems.toListRev_eq]
  refine ⟨rfl, ?_⟩
  cases p.discipline.takesNewest with
  | false => rfl
  | true => rw [if_pos rfl, if_pos rfl, List.map_reverse, List.reverse_reverse]

end Policy

/-! ## Counts of uses -/

namespace FrequencyPolicy

variable {p : FrequencyPolicy α}

/-- The nodes by rank. -/
def ranked (p : FrequencyPolicy α) : List (Counted α) :=
  p.order.filterMap fun item => p.nodes.get? item.2

theorem peekAll_eq (p : FrequencyPolicy α) : p.peekAll = p.ranked.map Counted.element := by
  rw [ranked, List.map_filterMap]
  rfl

/-- The victim is the first of the list, and leaves the others in their order. -/
theorem Sound.evict_of_order {rank : Rank} {i : Index} {rest : List (Rank × Index)} (h : p.Sound)
    (horder : p.order = (rank, i) :: rest) :
    ∃ node, p.ranked = node :: p.evict.2.ranked ∧ p.evict.1 = some node.element ∧
      p.evict.2.order = rest := by
  have hrank : p.rank? i = some rank := h.ranking.mem_order.mp (horder ▸ List.mem_cons_self)
  obtain ⟨node, hget, -⟩ := Option.map_eq_some_iff.mp hrank
  have henumerates := h.ranking.enumerates
  rw [horder, List.map_cons] at henumerates
  have hevict : p.evict =
      (some node.element, { p with nodes := (p.nodes.remove i).2, order := rest }) := by
    rw [FrequencyPolicy.evict, horder]
    simp only [(p.nodes.get?_remove i).1, hget, Option.map_some]
  refine ⟨node, ?_, by rw [hevict], by rw [hevict]⟩
  rw [hevict, ranked, horder, List.filterMap_cons_some (by exact hget)]
  refine congrArg (node :: ·) (List.filterMap_congr fun item hitem => ?_)
  -- the index of the victim has one place in the order only
  have hne : item.2 ≠ i := by
    rintro rfl
    exact henumerates.not_mem_of_cons item.1 (List.mem_map.mpr ⟨item, hitem, rfl⟩)
  rw [(p.nodes.get?_remove i).2, Function.update_of_ne hne]

theorem Sound.pairwise_ranked (h : p.Sound) :
    p.ranked.Pairwise fun a b => a.rank.before b.rank = true := by
  have hrank : ∀ item ∈ p.order, ∀ node, p.nodes.get? item.2 = some node → node.rank = item.1 := by
    intro item hitem node hget
    have hitem := h.ranking.mem_order.mp hitem
    rw [rank?_of_get? hget, Option.some.injEq] at hitem
    exact hitem
  rw [ranked, List.pairwise_filterMap]
  refine h.ranking.ascending.imp_of_mem fun hx hy hbefore a ha b hb => ?_
  rw [hrank _ hx a ha, hrank _ hy b hb]
  exact hbefore

/-- No rank is taken twice. -/
theorem Sound.eq_of_rank_eq (h : p.Sound) {a b : Counted α} (ha : a ∈ p.ranked)
    (hb : b ∈ p.ranked) (hrank : a.rank = b.rank) : a = b := by
  obtain ⟨⟨rank, i⟩, -, hi⟩ := List.mem_filterMap.mp ha
  obtain ⟨⟨rank', j⟩, -, hj⟩ := List.mem_filterMap.mp hb
  have hij : i = j := h.ranking.sequence_inj i j a.rank b.rank (rank?_of_get? hi)
    (rank?_of_get? hj) (congrArg Rank.sequence hrank)
  subst hij
  exact Option.some.inj (hi.symm.trans hj)

theorem Sound.perm_ranked (h : p.Sound) : p.ranked.Perm p.nodes.clear.1 := by
  have hlists := h.ranking.enumerates.lists_filterMap (f := p.nodes.get?) fun i => by
    simp [rank?, Slab.elements]
  have hclear := p.nodes.enumerates_toList.lists
  rw [← h.wellFormed.clear.1] at hclear
  refine List.Perm.trans (List.Perm.of_eq ?_) (hlists.perm hclear)
  rw [List.map_map, List.filterMap_map]
  rfl

/-- The elements are cleared in the order in which they are listed. -/
theorem Sound.clear_eq_peekAll (h : p.Sound) : p.clear.1 = p.peekAll := by
  have hsame : p.nodes.clear.1.mergeSort (fun a b => !b.rank.before a.rank) = p.ranked := by
    have hperm := (List.mergeSort_perm p.nodes.clear.1 fun a b => !b.rank.before a.rank).trans
      h.perm_ranked.symm
    have hsorted : (p.nodes.clear.1.mergeSort fun a b => !b.rank.before a.rank).Pairwise
        fun a b => (!b.rank.before a.rank) = true := by
      refine List.pairwise_mergeSort (fun a b c hab hbc => ?_) (fun a b => ?_) _
      · rw [Bool.not_eq_true', ← Bool.not_eq_true, Rank.before_iff] at *
        omega
      · rw [Bool.or_eq_true, Bool.not_eq_true', Bool.not_eq_true', ← Bool.not_eq_true,
          ← Bool.not_eq_true, Rank.before_iff, Rank.before_iff]
        omega
    have hranked : p.ranked.Pairwise fun a b => (!b.rank.before a.rank) = true := by
      refine h.pairwise_ranked.imp fun hbefore => ?_
      rw [Bool.not_eq_true', ← Bool.not_eq_true]
      exact fun hafter => Rank.not_before_self _ (Rank.before_trans hbefore hafter)
    -- both lists are sorted, and no two nodes are of the same rank
    refine hperm.eq_of_pairwise (fun a b ha hb hab hba => ?_) hsorted hranked
    rw [Bool.not_eq_true', ← Bool.not_eq_true] at hab hba
    refine h.eq_of_rank_eq (hperm.mem_iff.mp ha) hb ?_
    by_contra hne
    exact hab (Rank.before_of_not_before hne hba)
  rw [peekAll_eq, ← hsame]
  rfl

/-- The elements are given up in the order in which they are listed. -/
theorem Sound.drain_eq_peekAll (h : p.Sound) : (Policy.frequency p).drain.1 = p.peekAll := by
  induction horder : p.order generalizing p with
  | nil =>
      have hevict : p.evict = (none, p) := by rw [FrequencyPolicy.evict, horder]
      rw [Policy.drain_of_none (p := .frequency p) (congrArg Prod.fst hevict),
        FrequencyPolicy.peekAll, horder, List.filterMap_nil]
  | cons first rest ih =>
      obtain ⟨node, hranked, hvictim, hrest⟩ := h.evict_of_order horder
      have hsound : (Policy.frequency p).Sound := h
      rw [hsound.drain_of_some hvictim, peekAll_eq, hranked, List.map_cons, ← peekAll_eq,
        ← ih h.evict.2 hrest]
      rfl

end FrequencyPolicy

/-! ## The ring -/

namespace ClockPolicy

variable {p : ClockPolicy α} {node : Marked α} {cells : List (Option (Marked α))}

/-- What the hand meets in one round, slot by slot. -/
def round (p : ClockPolicy α) : List (Option (Marked α)) :=
  (List.range p.nodes.slots).map fun offset =>
    (p.nodes.entryAt? ((p.hand + offset) % p.nodes.slots)).map Prod.snd

theorem round_eq (p : ClockPolicy α) : p.round = p.lap.map (Option.map Prod.snd) := by
  rw [lap, List.map_map]
  rfl

/-- The elements that a round takes from the cells ahead, and then those that it spares,
which are taken in the round after it. -/
def turn (cells : List (Option (Marked α))) : List α :=
  ((cells.reduceOption.filter fun node => !node.referenced) ++
    cells.reduceOption.filter fun node => node.referenced).map Marked.element

theorem turn_vacant (cells : List (Option (Marked α))) :
    turn (none :: cells) = turn (cells ++ [none]) := by
  simp [turn, List.reduceOption_append]

/-- What is spared goes to the end of the next round. -/
theorem turn_spared (hbit : node.referenced = true) :
    turn (some node :: cells) = turn (cells ++ [some { node with referenced := false }]) := by
  simp [turn, List.reduceOption_append, hbit]

theorem turn_taken (hbit : node.referenced = false) :
    turn (some node :: cells) = node.element :: turn (cells ++ [none]) := by
  simp [turn, List.reduceOption_append, hbit]

theorem round_step (p' : ClockPolicy α) (hhand : p.hand < p.nodes.slots)
    (hslots : p'.nodes.slots = p.nodes.slots) (hnext : p'.hand = (p.hand + 1) % p.nodes.slots)
    (hcells : ∀ slot, slot ≠ p.hand → p'.nodes.entryAt? slot = p.nodes.entryAt? slot) :
    ∃ cells, p.round = (p.nodes.entryAt? p.hand).map Prod.snd :: cells ∧
      p'.round = cells ++ [(p'.nodes.entryAt? p.hand).map Prod.snd] := by
  obtain ⟨ahead, hbefore, hafter⟩ := lap_step p' hhand hslots hnext hcells
  refine ⟨ahead.map (Option.map Prod.snd), ?_, ?_⟩
  · rw [round_eq, hbefore, List.map_cons]
  · rw [round_eq, hafter, List.map_append, List.map_singleton]

/-- Removing an element vacates its slot and concerns no other. -/
theorem entryAt?_remove {i : Index} {slot : Nat} (hslot : p.nodes.entryAt? slot = some (i, node)) :
    (p.nodes.remove i).2.entryAt? slot = none ∧
      ∀ other, other ≠ slot → (p.nodes.remove i).2.entryAt? other = p.nodes.entryAt? other := by
  obtain ⟨rfl, hget⟩ := Slab.entryAt?_eq_some.mp hslot
  have hafter := (p.nodes.get?_remove i).2
  refine ⟨?_, fun other hother => Slab.entryAt?_congr fun j hj => ?_⟩
  · refine Option.eq_none_iff_forall_ne_some.mpr fun entry hentry => ?_
    obtain ⟨hj, hlive⟩ := Slab.entryAt?_eq_some.mp hentry
    rw [hafter] at hlive
    obtain ⟨hne, hlive⟩ := Enumerates.update_none_eq_some.mp hlive
    exact hne (Slab.index_eq_of_slot_eq hlive hget hj)
  · rw [hafter, Function.update_of_ne]
    rintro rfl
    exact hother hj.symm

section

variable (hhand : p.hand < p.nodes.slots)
include hhand

/-- Passing a vacant slot changes nobody's turn. -/
theorem turn_advance (hslot : p.nodes.entryAt? p.hand = none) :
    turn p.round = turn p.advance.round ∧ p.advance.hand < p.advance.nodes.slots := by
  have hadvance : p.advance.hand = (p.hand + 1) % p.nodes.slots := advance_hand hhand
  obtain ⟨cells, hround, hround'⟩ := round_step p.advance hhand rfl hadvance fun _ _ => rfl
  rw [show p.advance.nodes = p.nodes from rfl, hslot, Option.map_none] at hround'
  rw [hround, hslot, Option.map_none, turn_vacant, ← hround', hadvance]
  exact ⟨rfl, hand_lt_of_step hhand⟩

/-- Nor does sparing an element, whose turn is in the next round anyway. -/
theorem turn_spare {i : Index} (hslot : p.nodes.entryAt? p.hand = some (i, node))
    (hbit : node.referenced = true) :
    turn p.round = turn (p.spare i).round ∧ (p.spare i).hand < (p.spare i).nodes.slots := by
  have hi : i.slot = p.hand := (Slab.entryAt?_eq_some.mp hslot).1
  obtain ⟨cells, hround, hround'⟩ :=
    round_step (p.spare i) hhand (slots_spare p i) (spare_hand hhand i)
      fun _ hother => entryAt?_spare_of_ne (hi.symm ▸ hother)
  rw [entryAt?_spare hslot, Option.map_some] at hround'
  rw [hround, hslot, Option.map_some, turn_spared hbit, ← hround', spare_hand hhand, slots_spare]
  exact ⟨rfl, hand_lt_of_step hhand⟩

/-- An element that is not spared is the first in turn, and the others come after it. -/
theorem turn_remove {i : Index} (hslot : p.nodes.entryAt? p.hand = some (i, node))
    (hbit : node.referenced = false) :
    turn p.round = node.element :: turn (p.advance.remove i).2.round ∧
      (p.advance.remove i).1 = some node.element ∧
      (p.advance.remove i).2.hand < (p.advance.remove i).2.nodes.slots := by
  have hremoved : (p.advance.remove i).2.hand = (p.hand + 1) % p.nodes.slots := advance_hand hhand
  have hslots : (p.advance.remove i).2.nodes.slots = p.nodes.slots :=
    Slab.slots_remove p.nodes i
  obtain ⟨hvacated, hothers⟩ := entryAt?_remove hslot
  obtain ⟨cells, hround, hround'⟩ :=
    round_step (p.advance.remove i).2 hhand hslots hremoved hothers
  have hanswer : (p.advance.remove i).1 = some node.element :=
    fst_advance_remove (Slab.entryAt?_eq_some.mp hslot).2
  rw [show (p.advance.remove i).2.nodes = (p.nodes.remove i).2 from rfl, hvacated,
    Option.map_none] at hround'
  rw [hround, hslot, Option.map_some, turn_taken hbit, ← hround', hremoved, hslots]
  exact ⟨rfl, hanswer, hand_lt_of_step hhand⟩

end

/-- A sweep takes the element whose turn it is, and the others keep their turns. -/
theorem sweep_turn {fuel : Nat} {element : α} (hhand : p.hand < p.nodes.slots)
    (hvictim : (sweep fuel p).1 = some element) :
    turn p.round = element :: turn (sweep fuel p).2.round ∧
      (sweep fuel p).2.hand < (sweep fuel p).2.nodes.slots := by
  induction fuel generalizing p with
  | zero => exact absurd hvictim (Option.some_ne_none _).symm
  | succ fuel ih =>
      cases hslot : p.nodes.entryAt? p.hand with
      | none =>
          obtain ⟨hturn, hadvance⟩ := turn_advance hhand hslot
          rw [sweep_of_vacant hslot] at hvictim ⊢
          rw [hturn]
          exact ih hadvance hvictim
      | some entry =>
          obtain ⟨i, node⟩ := entry
          cases hbit : node.referenced with
          | true =>
              obtain ⟨hturn, hspared⟩ := turn_spare hhand hslot hbit
              rw [sweep_of_referenced hslot hbit] at hvictim ⊢
              rw [hturn]
              exact ih hspared hvictim
          | false =>
              obtain ⟨hturn, hanswer, hremoved⟩ := turn_remove hhand hslot hbit
              have hunreferenced : ¬ node.referenced = true := hbit ▸ Bool.false_ne_true
              rw [sweep_of_not_referenced hslot hunreferenced] at hvictim ⊢
              obtain rfl : node.element = element := Option.some.inj (hanswer.symm.trans hvictim)
              exact ⟨hturn, hremoved⟩

/-- A ring with an element in it has a slot for the hand. -/
theorem settle_hand {i : Index} (hget : p.nodes.get? i = some node) :
    p.settle.hand < p.settle.nodes.slots := by
  rw [nodes_settle, settle]
  split
  · assumption
  · exact Nat.lt_of_le_of_lt (Nat.zero_le _) (Slab.slot_lt_of_get? hget)

theorem evict_turn (h : p.Sound) {element : α} (hvictim : p.evict.1 = some element) :
    turn p.settle.round = element :: turn p.evict.2.settle.round := by
  obtain ⟨hevicts, -⟩ := h.evict
  rw [hvictim] at hevicts
  obtain ⟨i, hi, -⟩ := hevicts.of_some
  obtain ⟨node, hget, -⟩ := Option.map_eq_some_iff.mp hi
  have hevict : p.evict = sweep (2 * p.settle.nodes.slots) p.settle := by
    rw [evict_eq] at hvictim ⊢
    split
    · rename_i hempty
      rw [if_pos hempty] at hvictim
      exact absurd hvictim (Option.some_ne_none _).symm
    · rfl
  rw [hevict] at hvictim
  obtain ⟨hturn, hhand⟩ := sweep_turn (settle_hand hget) hvictim
  rw [← hevict] at hturn hhand
  have hsettled : p.evict.2.settle = p.evict.2 := if_pos hhand
  rw [hturn, hsettled]

theorem turn_of_none (hnone : ∀ i, p.peek? i = none) : turn p.round = [] := by
  have hcell : ∀ cell ∈ p.round, cell = none := by
    intro cell hcell
    obtain ⟨offset, -, rfl⟩ := List.mem_map.mp hcell
    refine Option.map_eq_none_iff.mpr (Option.eq_none_iff_forall_ne_some.mpr ?_)
    rintro ⟨i, node⟩ hentry
    have hpeek := hnone i
    rw [peek?, (Slab.entryAt?_eq_some.mp hentry).2] at hpeek
    exact Option.some_ne_none _ hpeek
  have hempty : p.round.reduceOption = [] := List.filterMap_eq_nil_iff.mpr hcell
  rw [turn, hempty]
  rfl

/-- The ring gives its elements up in turn. -/
theorem Sound.drain_eq_turn (h : p.Sound) :
    (Policy.secondChance p).drain.1 = turn p.settle.round := by
  have hall := Policy.Sound.evict_induction (p := .secondChance p)
    (motive := fun q => ∀ p, q = .secondChance p → q.drain.1 = turn p.settle.round)
  refine hall ?_ ?_ h p rfl
  · rintro _ h hvictim p rfl
    have hevicts := (ClockPolicy.Sound.evict h).1
    rw [show p.evict.1 = none from hvictim] at hevicts
    have hpeek : p.settle.peek? = p.peek? := by rw [peek?_eq, peek?_eq, nodes_settle]
    rw [Policy.drain_of_none hvictim, turn_of_none]
    rw [hpeek]
    exact hevicts.of_none.1
  · rintro _ element h hvictim ih p rfl
    rw [Policy.Sound.drain_of_some h hvictim, evict_turn h hvictim]
    exact congrArg (element :: ·) (ih _ rfl)

/-- The ring is cleared slot by slot, wherever the hand stands. -/
theorem Sound.clear_eq (h : p.Sound) :
    p.clear.1 = p.nodes.toList.map fun x => x.2.element := by
  have hclear : p.clear.1 = p.nodes.clear.1.map Marked.element := rfl
  rw [hclear, (Slab.WellFormed.clear h).1, List.map_map]
  rfl

end ClockPolicy

end BoundedCache
