import BoundedCache.Policy.Ordered
import BoundedCache.Proofs.Chain
import BoundedCache.Proofs.Policy.Effect

/-!
# The ordered disciplines keep their elements

An ordered policy is sound when its chain represents some sequence.  The order of that
sequence, and the end from which victims are taken, differ between the disciplines.  Only
`evict_of_represents` depends on the end: the victim is the first of the `queue`, which is the
sequence from one end or the other.
-/

namespace BoundedCache

variable {α : Type}

/-- The items of a chain in the order in which they are given up. -/
def Discipline.queue (discipline : Discipline) (items : List (Index × α)) : List (Index × α) :=
  if discipline.takesNewest then items.reverse else items

theorem Discipline.queue_perm (discipline : Discipline) (items : List (Index × α)) :
    (discipline.queue items).Perm items := by
  rw [queue]
  split
  · exact List.reverse_perm items
  · exact List.Perm.refl items

namespace OrderedPolicy

variable {p : OrderedPolicy α} {items : List (Index × α)}

/-- The chain of the policy stands for a sequence. -/
def Sound (p : OrderedPolicy α) : Prop := ∃ items, p.chain.Represents items

theorem sound_start (discipline : Discipline) :
    ({ discipline := discipline } : OrderedPolicy α).Sound :=
  ⟨[], Chain.represents_empty⟩

theorem Sound.add (h : p.Sound) (element : α) :
    Adds p.peek? element (p.add element).1 (p.add element).2.peek? ∧
      (p.add element).2.Sound := by
  obtain ⟨items, hitems⟩ := h
  obtain ⟨hfresh, hafter⟩ := hitems.pushBack element
  refine ⟨⟨hfresh, ?_⟩, _, hafter⟩
  have henumerates := hitems.enumerates.insert hfresh element
  exact (hafter.enumerates.of_perm (List.perm_append_singleton _ _)).ext henumerates

theorem Sound.touch (h : p.Sound) (i : Index) :
    (p.touch i).peek? = p.peek? ∧ (p.touch i).Sound := by
  obtain ⟨items, hitems⟩ := h
  rw [OrderedPolicy.touch]
  by_cases hfollows : p.discipline.followsUse = true
  · rw [if_pos hfollows]
    cases hget : p.chain.get? i with
    | none =>
        rw [Chain.moveToBack_of_stale hget]
        exact ⟨rfl, items, hitems⟩
    | some element =>
        obtain ⟨left, right, rfl⟩ := hitems.exists_append hget
        obtain ⟨-, hafter⟩ := hitems.moveToBack
        refine ⟨?_, _, hafter⟩
        have hperm : (left ++ (i, element) :: right).Perm (left ++ right ++ [(i, element)]) :=
          List.perm_middle.trans (List.perm_append_singleton _ _).symm
        exact hafter.enumerates.ext (hitems.enumerates.of_perm hperm)
  · rw [if_neg hfollows]
    exact ⟨rfl, items, hitems⟩

theorem Sound.update (h : p.Sound) (i : Index) (element : α) :
    Replaces p.peek? i element (p.update i element).1 (p.update i element).2.peek? ∧
      (p.update i element).2.Sound := by
  obtain ⟨items, hitems⟩ := h
  have hcontains : p.chain.contains i = (p.peek? i).isSome := by
    rw [peek?, Chain.get?, Option.isSome_map]
    rfl
  cases hget : p.peek? i with
  | none =>
      rw [OrderedPolicy.update, hcontains, hget]
      refine ⟨⟨by rw [hget]; rfl, ?_⟩, items, hitems⟩
      rw [hget]
      exact (Function.update_eq_self_iff.mpr hget.symm).symm
  | some old =>
      rw [OrderedPolicy.update, hcontains, hget]
      obtain ⟨left, right, rfl⟩ := hitems.exists_append hget
      have hset : Sound { p with chain := p.chain.set i element } := ⟨_, hitems.set element⟩
      obtain ⟨hpeek, hsound⟩ := hset.touch i
      refine ⟨⟨by rw [hget]; rfl, hpeek.trans ?_⟩, hsound⟩
      rw [hget]
      exact Chain.get?_set hget element

theorem Sound.remove (h : p.Sound) (i : Index) :
    Removes p.peek? i (p.remove i).1 (p.remove i).2.peek? ∧ (p.remove i).2.Sound := by
  obtain ⟨items, hitems⟩ := h
  cases hget : p.chain.get? i with
  | none =>
      rw [OrderedPolicy.remove, Chain.remove_of_stale hget]
      exact ⟨⟨hget.symm, (Function.update_eq_self_iff.mpr hget.symm).symm⟩, items, hitems⟩
  | some element =>
      obtain ⟨left, right, rfl⟩ := hitems.exists_append hget
      obtain ⟨hanswer, hafter⟩ := hitems.remove
      refine ⟨⟨hanswer.trans hget.symm, ?_⟩, _, hafter⟩
      exact hafter.enumerates.ext (hitems.enumerates.of_perm List.perm_middle).erase

/-- The first in the queue is the victim, and the chain keeps the others. -/
theorem evict_of_represents (h : p.chain.Represents items) :
    ∃ kept, p.evict.2.chain.Represents kept ∧ kept.Sublist items ∧
      p.evict.1 = (p.discipline.queue items).head?.map Prod.snd ∧
      p.discipline.queue kept = (p.discipline.queue items).tail := by
  have hanswer : p.evict.1 =
      (if p.discipline.takesNewest then p.chain.popBack else p.chain.popFront).1 := rfl
  have hchain : p.evict.2.chain =
      (if p.discipline.takesNewest then p.chain.popBack else p.chain.popFront).2 := rfl
  rw [hanswer, hchain]
  simp only [Discipline.queue]
  cases hnewest : p.discipline.takesNewest with
  | false =>
      rw [if_neg Bool.false_ne_true]
      cases items with
      | nil => exact ⟨[], h.popFront_nil ▸ h, .slnil, congrArg Prod.fst h.popFront_nil, rfl⟩
      | cons first rest =>
          obtain ⟨hfirst, hrest⟩ := h.popFront_cons
          exact ⟨rest, hrest, List.sublist_cons_self _ _, hfirst, rfl⟩
  | true =>
      rw [if_pos rfl]
      rcases items.eq_nil_or_concat with rfl | ⟨front, last, rfl⟩
      · exact ⟨[], h.popBack_nil ▸ h, .slnil, congrArg Prod.fst h.popBack_nil, rfl⟩
      · rw [List.concat_eq_append] at h ⊢
        obtain ⟨hlast, hfront⟩ := h.popBack_concat
        refine ⟨front, hfront, List.sublist_append_left _ _, ?_, ?_⟩
        · rw [if_pos rfl, List.reverse_append, hlast]
          rfl
        · rw [if_pos rfl, if_pos rfl, List.reverse_append]
          rfl

theorem Sound.evict (h : p.Sound) :
    Evicts p.peek? p.evict.1 p.evict.2.peek? ∧ p.evict.2.Sound := by
  obtain ⟨items, hitems⟩ := h
  obtain ⟨kept, hkept, -, hanswer, htail⟩ := evict_of_represents hitems
  have hqueue := hitems.enumerates.of_perm (p.discipline.queue_perm items).symm
  have hrest := hkept.enumerates.of_perm (p.discipline.queue_perm kept).symm
  refine ⟨?_, kept, hkept⟩
  rw [htail] at hrest
  rw [hanswer]
  generalize p.discipline.queue items = queue at hqueue hrest
  cases queue with
  | nil =>
      rw [show p.evict.2.peek? = p.peek? from hrest.ext hqueue]
      exact .exhausted hqueue.eq_none_of_nil
  | cons first rest =>
      rw [show p.evict.2.peek? = Function.update p.peek? first.1 none from hrest.ext hqueue.erase]
      exact .victim ((hqueue.mem_iff _ _).mp List.mem_cons_self)

theorem Sound.clear (h : p.Sound) :
    Lists p.peek? p.clear.1 ∧ (p.clear.2.peek? = fun _ => none) ∧ p.clear.2.Sound := by
  obtain ⟨items, hitems⟩ := h
  obtain ⟨hanswer, hafter⟩ := hitems.clear
  refine ⟨?_, funext hafter.enumerates.eq_none_of_nil, [], hafter⟩
  rw [show p.clear.1 = items.map Prod.snd from hanswer]
  exact hitems.enumerates.lists

theorem Sound.peekAll (h : p.Sound) : Lists p.peek? p.peekAll ∧ p.size = p.peekAll.length := by
  obtain ⟨items, hitems⟩ := h
  have hperm : p.peekAll.Perm (items.map Prod.snd) := by
    rw [OrderedPolicy.peekAll, hitems.toList_eq, hitems.toListRev_eq]
    split
    · exact (List.reverse_perm items).map _
    · exact List.Perm.refl _
  refine ⟨hitems.enumerates.lists.of_perm hperm, ?_⟩
  rw [hperm.length_eq, List.length_map]
  exact hitems.size_eq

/-! ## The discipline stays -/

theorem discipline_touch (p : OrderedPolicy α) (i : Index) :
    (p.touch i).discipline = p.discipline := by
  rw [touch]
  split <;> rfl

theorem discipline_update (p : OrderedPolicy α) (i : Index) (element : α) :
    (p.update i element).2.discipline = p.discipline := by
  rw [update]
  split
  · exact discipline_touch _ i
  · rfl

end OrderedPolicy

end BoundedCache
