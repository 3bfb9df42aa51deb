import BoundedCache.Policy.Frequency
import BoundedCache.Proofs.Policy.Effect

/-!
# The order by use count

`order` must list the live indices, each at the rank that its node has, in ascending
order of ranks.  Ranks are distinct because their sequence numbers are: a number is
taken once, is never above the count of insertions, and stays with its element through
all uses.  This is `Ranking`; the policy is sound when its slab is and its order ranks
the nodes.

Taking a victim from the front of the order is then the removal of a live index
(`Sound.evict_eq`).
-/

namespace BoundedCache

namespace Rank

variable {a b c : Rank}

theorem before_iff : a.before b = true ↔
    a.frequency < b.frequency ∨ a.frequency = b.frequency ∧ a.sequence < b.sequence := by
  simp [before]

theorem not_before_self (a : Rank) : ¬ a.before a = true := by
  rw [before_iff]
  omega

theorem before_trans (hab : a.before b = true) (hbc : b.before c = true) :
    a.before c = true := by
  rw [before_iff] at *
  omega

/-- Of two ranks one comes before the other, unless they are the same. -/
theorem before_of_not_before (hne : a ≠ b) (hnot : ¬ a.before b = true) :
    b.before a = true := by
  rw [before_iff] at *
  have hsequence : a.frequency = b.frequency → a.sequence ≠ b.sequence := by
    intro hfrequency hsequence
    exact hne (by cases a; cases b; simp_all)
  omega

end Rank

namespace FrequencyPolicy

variable {α : Type} {p : FrequencyPolicy α} {order : List (Rank × Index)}
variable {rank : Rank} {i : Index}

/-! ## Ranked lists -/

/-- Each rank comes before those that follow it. -/
def Ascending (order : List (Rank × Index)) : Prop :=
  order.Pairwise fun a b => a.1.before b.1 = true

theorem insertRanked_perm (hnew : rank ∉ order.map Prod.fst) :
    (insertRanked rank i order).Perm ((rank, i) :: order) := by
  induction order with
  | nil => exact List.Perm.refl _
  | cons x rest ih =>
      rw [List.map_cons, List.mem_cons, not_or] at hnew
      simp only [insertRanked, if_neg hnew.1]
      split
      · exact List.Perm.refl _
      · exact ((ih hnew.2).cons x).trans (List.Perm.swap _ _ _)

theorem mem_of_mem_insertRanked {x : Rank × Index} (hx : x ∈ insertRanked rank i order) :
    x = (rank, i) ∨ x ∈ order := by
  induction order with
  | nil => exact .inl (List.mem_singleton.mp hx)
  | cons y rest ih =>
      simp only [insertRanked] at hx
      split at hx
      · exact List.mem_cons.mp hx
      · split at hx
        · exact (List.mem_cons.mp hx).imp_right (List.mem_cons_of_mem y)
        · rcases List.mem_cons.mp hx with rfl | hx
          · exact .inr List.mem_cons_self
          · exact (ih hx).imp_right (List.mem_cons_of_mem y)

theorem insertRanked_ascending (h : Ascending order) (rank : Rank) (i : Index) :
    Ascending (insertRanked rank i order) := by
  induction order with
  | nil => exact List.pairwise_singleton _ _
  | cons x rest ih =>
      obtain ⟨hx, hrest⟩ := List.pairwise_cons.mp h
      -- three cases, as in the definition: before the first item, in its place, or after it
      simp only [insertRanked]
      split
      · rename_i hbefore
        refine List.pairwise_cons.mpr ⟨fun y hy => ?_, h⟩
        rcases List.mem_cons.mp hy with rfl | hy
        · exact hbefore
        · exact Rank.before_trans hbefore (hx y hy)
      · rename_i hnot
        split
        · rename_i hrank
          exact List.pairwise_cons.mpr ⟨fun y hy => hrank ▸ hx y hy, hrest⟩
        · rename_i hne
          refine List.pairwise_cons.mpr ⟨fun y hy => ?_, ih hrest⟩
          rcases mem_of_mem_insertRanked hy with rfl | hy
          · exact Rank.before_of_not_before hne hnot
          · exact hx y hy

theorem eraseRanked_ascending (h : Ascending order) (rank : Rank) :
    Ascending (eraseRanked rank order) :=
  h.sublist List.filter_sublist

/-- Nothing after the first item has its rank. -/
theorem eraseRanked_cons (h : Ascending ((rank, i) :: order)) :
    eraseRanked rank ((rank, i) :: order) = order := by
  obtain ⟨hfirst, -⟩ := List.pairwise_cons.mp h
  rw [eraseRanked, List.filter_cons_of_neg (by simp), List.filter_eq_self]
  intro y hy
  have hne : y.1 ≠ rank := by
    intro heq
    exact Rank.not_before_self rank (heq ▸ hfirst y hy)
  simpa using hne

/-- Only the item at the rank goes. -/
theorem eraseRanked_perm (h : Ascending order) (hmem : (rank, i) ∈ order) :
    order.Perm ((rank, i) :: eraseRanked rank order) := by
  induction order with
  | nil => exact absurd hmem List.not_mem_nil
  | cons x rest ih =>
      rcases List.mem_cons.mp hmem with rfl | hmem
      · rw [eraseRanked_cons h]
      · obtain ⟨hx, hrest⟩ := List.pairwise_cons.mp h
        have hne : x.1 ≠ rank := by
          intro heq
          exact Rank.not_before_self rank (heq ▸ hx (rank, i) hmem)
        rw [eraseRanked, List.filter_cons_of_pos (by simpa using hne)]
        exact ((ih hrest hmem).cons x).trans (List.Perm.swap _ _ _)

/-! ## Rankings -/

/-- The order lists every index at its rank, and all ranks have sequence numbers of
their own, up to the count of insertions. -/
structure Ranking (order : List (Rank × Index)) (rank? : Index → Option Rank)
    (insertions : Nat) : Prop where
  ascending : Ascending order
  enumerates : Enumerates (order.map Prod.swap) rank?
  sequence_le : ∀ i rank, rank? i = some rank → rank.sequence ≤ insertions
  sequence_inj : ∀ i j rank rank', rank? i = some rank → rank? j = some rank' →
    rank.sequence = rank'.sequence → i = j

namespace Ranking

variable {rank? : Index → Option Rank} {insertions : Nat}

theorem mem_order (h : Ranking order rank? insertions) :
    (rank, i) ∈ order ↔ rank? i = some rank := by
  rw [← h.enumerates.mem_iff, List.mem_map]
  constructor
  · exact fun hmem => ⟨_, hmem, rfl⟩
  · rintro ⟨⟨rank', j⟩, hmem, heq⟩
    rw [Prod.swap_prod_mk, Prod.mk.injEq] at heq
    exact heq.1 ▸ heq.2 ▸ hmem

theorem nil (insertions : Nat) : Ranking [] (fun _ => none) insertions where
  ascending := List.Pairwise.nil
  enumerates := .nil
  sequence_le _ _ hi := absurd hi (by simp)
  sequence_inj _ _ _ _ hi := absurd hi (by simp)

/-- An index comes in with a sequence number that no other has. -/
theorem insert (h : Ranking order rank? insertions) (hi : rank? i = none) (rank : Rank)
    {insertions' : Nat} (hle : insertions ≤ insertions') (hsequence : rank.sequence ≤ insertions')
    (hnew : ∀ j rank', rank? j = some rank' → rank'.sequence ≠ rank.sequence) :
    Ranking (insertRanked rank i order) (Function.update rank? i (some rank)) insertions' where
  ascending := insertRanked_ascending h.ascending rank i
  enumerates := by
    have hrank : rank ∉ order.map Prod.fst := by
      intro hmem
      obtain ⟨⟨rank', j⟩, hj, rfl⟩ := List.mem_map.mp hmem
      exact hnew j rank' (h.mem_order.mp hj) rfl
    refine (h.enumerates.insert hi rank).of_perm ?_
    exact ((insertRanked_perm hrank).map Prod.swap).symm
  sequence_le j rank' hj := by
    by_cases hji : j = i
    · rw [hji, Function.update_self, Option.some.injEq] at hj
      exact hj ▸ hsequence
    · rw [Function.update_of_ne hji] at hj
      exact Nat.le_trans (h.sequence_le j rank' hj) hle
  sequence_inj j k a b hj hk hab := by
    -- two indices with one sequence number: the new one has a number of its own
    by_cases hji : j = i <;> by_cases hki : k = i
    · rw [hji, hki]
    · rw [hji, Function.update_self, Option.some.injEq] at hj
      rw [Function.update_of_ne hki] at hk
      exact absurd (hj ▸ hab.symm) (hnew k b hk)
    · rw [hki, Function.update_self, Option.some.injEq] at hk
      rw [Function.update_of_ne hji] at hj
      exact absurd (hk ▸ hab) (hnew j a hj)
    · rw [Function.update_of_ne hji] at hj
      rw [Function.update_of_ne hki] at hk
      exact h.sequence_inj j k a b hj hk hab

theorem erase (h : Ranking order rank? insertions) (hi : rank? i = some rank) :
    Ranking (eraseRanked rank order) (Function.update rank? i none) insertions where
  ascending := eraseRanked_ascending h.ascending rank
  enumerates := by
    have hperm := (eraseRanked_perm h.ascending (h.mem_order.mpr hi)).map Prod.swap
    exact (h.enumerates.of_perm hperm).erase
  sequence_le j rank' hj := by
    obtain ⟨-, hj⟩ := Enumerates.update_none_eq_some.mp hj
    exact h.sequence_le j rank' hj
  sequence_inj j k a b hj hk hab := by
    obtain ⟨-, hj⟩ := Enumerates.update_none_eq_some.mp hj
    obtain ⟨-, hk⟩ := Enumerates.update_none_eq_some.mp hk
    exact h.sequence_inj j k a b hj hk hab

/-- A use moves the index to a later rank with the same sequence number. -/
theorem bump (h : Ranking order rank? insertions) (hi : rank? i = some rank) :
    Ranking (insertRanked rank.bump i (eraseRanked rank order))
      (Function.update rank? i (some rank.bump)) insertions := by
  -- without its old rank the index has none, and comes in anew
  have herased := h.erase hi
  have hbumped := herased.insert (i := i) (Function.update_self _ _ _) rank.bump
    (Nat.le_refl insertions) (h.sequence_le i rank hi) (fun j rank' hj hsequence => ?_)
  · rwa [Function.update_idem] at hbumped
  · obtain ⟨hji, hj⟩ := Enumerates.update_none_eq_some.mp hj
    exact hji (h.sequence_inj j i rank' rank hj hi hsequence)

end Ranking

/-! ## The policy -/

/-- The rank of the element at an index. -/
def rank? (p : FrequencyPolicy α) : Index → Option Rank := p.nodes.elements Counted.rank

/-- The slab is sound, and the order ranks its nodes. -/
structure Sound (p : FrequencyPolicy α) : Prop where
  wellFormed : p.nodes.WellFormed
  ranking : Ranking p.order p.rank? p.insertions

theorem peek?_eq (p : FrequencyPolicy α) : p.peek? = p.nodes.elements Counted.element := rfl

theorem sound_start : ({} : FrequencyPolicy α).Sound where
  wellFormed := Slab.wellFormed_empty
  ranking := .nil 0

theorem rank?_of_get? {node : Counted α} (hget : p.nodes.get? i = some node) :
    p.rank? i = some node.rank :=
  Slab.elements_of_get? Counted.rank hget

theorem Sound.add (h : p.Sound) (element : α) :
    Adds p.peek? element (p.add element).1 (p.add element).2.peek? ∧
      (p.add element).2.Sound := by
  have hnode := h.wellFormed.adds Counted.rank ⟨element, ⟨1, p.insertions + 1⟩⟩
  refine ⟨h.wellFormed.adds Counted.element ⟨element, ⟨1, p.insertions + 1⟩⟩,
    h.wellFormed.insert _, ?_⟩
  rw [show rank? (p.add element).2 = _ from hnode.after]
  refine h.ranking.insert hnode.fresh _ (Nat.le_succ _) (Nat.le_refl _) fun j rank hj => ?_
  exact Nat.ne_of_lt (Nat.lt_succ_of_le (h.ranking.sequence_le j rank hj))

theorem Sound.touch (h : p.Sound) (i : Index) :
    (p.touch i).peek? = p.peek? ∧ (p.touch i).Sound := by
  rw [FrequencyPolicy.touch]
  cases hget : p.nodes.get? i with
  | none => exact ⟨rfl, h⟩
  | some node =>
      have hrank : rank? { p with
          nodes := p.nodes.modify i fun node => { node with rank := node.rank.bump }
          order := insertRanked node.rank.bump i (eraseRanked node.rank p.order) } =
            Function.update p.rank? i (some node.rank.bump) := by
        rw [rank?, Slab.elements_eq, Slab.get?_modify, hget, Function.comp_update]
        rfl
      refine ⟨p.nodes.elements_modify Counted.element i _ fun _ => rfl, h.wellFormed.modify i _, ?_⟩
      rw [hrank]
      exact h.ranking.bump (rank?_of_get? hget)

/-- Another element at an index does not concern the order. -/
theorem Sound.set (h : p.Sound) (i : Index) (element : α) :
    Sound { p with nodes := p.nodes.modify i fun node => { node with element := element } } where
  wellFormed := h.wellFormed.modify i _
  ranking := by
    have hrank := p.nodes.elements_modify Counted.rank i
      (fun node => { node with element := element }) fun _ => rfl
    rw [rank?, hrank]
    exact h.ranking

theorem Sound.update (h : p.Sound) (i : Index) (element : α) :
    Replaces p.peek? i element (p.update i element).1 (p.update i element).2.peek? ∧
      (p.update i element).2.Sound := by
  have hset := p.nodes.replaces Counted.element i element
    (fun node => { node with element := element }) fun _ => rfl
  rw [FrequencyPolicy.update]
  by_cases hlive : p.nodes.contains i = true
  · obtain ⟨hpeek, hsound⟩ := (h.set i element).touch i
    rw [if_pos hlive]
    rw [hlive] at hset
    exact ⟨⟨hset.answer, hpeek.trans hset.after⟩, hsound⟩
  · rw [if_neg hlive]
    rw [Bool.not_eq_true] at hlive
    rw [hlive] at hset
    have hnone : p.peek? i = none := by
      have := hset.answer
      rwa [eq_comm, Option.isSome_eq_false_iff, Option.isNone_iff_eq_none] at this
    refine ⟨⟨hset.answer, ?_⟩, h⟩
    rw [hnone, Option.map_none]
    exact (Function.update_eq_self_iff.mpr hnone.symm).symm

theorem remove_of_get? {node : Counted α} (hget : p.nodes.get? i = some node) :
    p.remove i = (some node.element,
      { p with nodes := (p.nodes.remove i).2, order := eraseRanked node.rank p.order }) := by
  rw [remove, Slab.remove_of_get? hget]

theorem fst_remove (p : FrequencyPolicy α) (i : Index) :
    (p.remove i).1 = (p.nodes.remove i).1.map Counted.element := by
  cases hget : p.nodes.get? i with
  | none => rw [remove, Slab.remove_of_stale hget]; rfl
  | some node => rw [remove, Slab.remove_of_get? hget]; rfl

theorem nodes_remove (p : FrequencyPolicy α) (i : Index) :
    (p.remove i).2.nodes = (p.nodes.remove i).2 := by
  cases hget : p.nodes.get? i with
  | none => rw [remove, Slab.remove_of_stale hget]
  | some node => rw [remove, Slab.remove_of_get? hget]

theorem rank?_remove (p : FrequencyPolicy α) (i : Index) :
    (p.remove i).2.rank? = Function.update p.rank? i none := by
  rw [rank?, nodes_remove]
  exact (p.nodes.removes Counted.rank i).after

theorem Sound.remove (h : p.Sound) (i : Index) :
    Removes p.peek? i (p.remove i).1 (p.remove i).2.peek? ∧ (p.remove i).2.Sound := by
  refine ⟨?_, ?_, ?_⟩
  · rw [peek?_eq, peek?_eq, fst_remove, nodes_remove]
    exact p.nodes.removes Counted.element i
  · rw [nodes_remove]
    exact h.wellFormed.remove i
  · rw [rank?_remove]
    cases hget : p.nodes.get? i with
    | none =>
        have hrank : p.rank? i = none := Slab.elements_of_stale Counted.rank hget
        rw [FrequencyPolicy.remove, Slab.remove_of_stale hget,
          Function.update_eq_self_iff.mpr hrank.symm]
        exact h.ranking
    | some node =>
        rw [remove_of_get? hget]
        exact h.ranking.erase (rank?_of_get? hget)

/-- The victim is removed like any other element. -/
theorem Sound.evict_eq {rank : Rank} {rest : List (Rank × Index)} (h : p.Sound)
    (horder : p.order = (rank, i) :: rest) : p.evict = p.remove i := by
  have hrank : p.rank? i = some rank := h.ranking.mem_order.mp (horder ▸ List.mem_cons_self)
  obtain ⟨node, hget, hnode⟩ := Option.map_eq_some_iff.mp hrank
  have hrest : eraseRanked node.rank p.order = rest := by
    rw [hnode, horder]
    exact eraseRanked_cons (horder ▸ h.ranking.ascending)
  rw [remove_of_get? hget, hrest, evict, horder]
  simp [Slab.remove_of_get? hget]

theorem Sound.evict (h : p.Sound) :
    Evicts p.peek? p.evict.1 p.evict.2.peek? ∧ p.evict.2.Sound := by
  cases horder : p.order with
  | nil =>
      have hevict : p.evict = (none, p) := by rw [FrequencyPolicy.evict, horder]
      have henumerates := h.ranking.enumerates
      rw [horder] at henumerates
      rw [hevict]
      refine ⟨.exhausted fun i => ?_, h⟩
      have hrank := henumerates.eq_none_of_nil i
      rw [rank?, Slab.elements, Option.map_eq_none_iff] at hrank
      rw [peek?, hrank]
      rfl
  | cons first rest =>
      obtain ⟨rank, i⟩ := first
      have hrank : p.rank? i = some rank := h.ranking.mem_order.mp (horder ▸ List.mem_cons_self)
      obtain ⟨node, hget, -⟩ := Option.map_eq_some_iff.mp hrank
      have hpeek : p.peek? i = some node.element := Slab.elements_of_get? Counted.element hget
      obtain ⟨hremoves, hsound⟩ := h.remove i
      rw [h.evict_eq horder]
      exact ⟨hremoves.evicts hpeek, hsound⟩

theorem Sound.clear (h : p.Sound) :
    Lists p.peek? p.clear.1 ∧ (p.clear.2.peek? = fun _ => none) ∧ p.clear.2.Sound := by
  obtain ⟨hlists, hnone⟩ := h.wellFormed.clear_elements Counted.element
  obtain ⟨-, hwf, hget⟩ := h.wellFormed.clear
  refine ⟨hlists.of_perm ((List.mergeSort_perm _ _).map _), hnone, hwf, ?_⟩
  have hrank : p.clear.2.rank? = fun _ => none := by
    rw [rank?, Slab.elements_eq, show p.clear.2.nodes.get? = _ from hget]
    rfl
  rw [hrank]
  exact .nil _

theorem Sound.peekAll (h : p.Sound) : Lists p.peek? p.peekAll ∧ p.size = p.peekAll.length := by
  have hlists := h.ranking.enumerates.lists_filterMap (f := p.peek?) fun i => by
    simp [rank?, Slab.elements, peek?]
  have hall : p.peekAll = ((p.order.map Prod.swap).map Prod.fst).filterMap p.peek? := by
    rw [List.map_map, List.filterMap_map]
    rfl
  rw [← hall] at hlists
  exact ⟨hlists, h.wellFormed.size_eq_of_lists Counted.element hlists⟩

end FrequencyPolicy

end BoundedCache
