import BoundedCache.Proofs.Policy.Contract

/-!
# Recency of use

The policy of least recent use lists its elements in the order in which they were last
used.  With elements that are all different this order alone says what an operation does:
a use takes the element out and puts it at the end, and a victim is taken from the front.
Where an element was in the chain, and at which index, plays no part.
-/

namespace BoundedCache.Policy

variable {α : Type} {p : Policy α} {i : Index} {element : α}

/-- The policy gives up the least recently used element first. -/
def ByRecency (p : Policy α) : Prop :=
  ∃ chain items, p = ordered { discipline := .lru, chain := chain } ∧
    chain.Represents items

theorem byRecency_start : (PolicyChoice.build .lru : Policy α).ByRecency :=
  ⟨_, [], rfl, Chain.represents_empty⟩

/-- The order is that of the chain. -/
theorem peekAll_of_represents {chain : Chain α} {items : List (Index × α)}
    (h : chain.Represents items) :
    (ordered { discipline := .lru, chain := chain }).peekAll = items.map Prod.snd :=
  congrArg (List.map Prod.snd) h.toList_eq

theorem ByRecency.add (h : p.ByRecency) (element : α) :
    (p.add element).2.ByRecency ∧ (p.add element).2.peekAll = p.peekAll ++ [element] := by
  obtain ⟨chain, items, rfl, hitems⟩ := h
  obtain ⟨-, hafter⟩ := hitems.pushBack element
  refine ⟨⟨_, _, rfl, hafter⟩, ?_⟩
  rw [peekAll_of_represents hitems]
  exact (peekAll_of_represents hafter).trans List.map_append

theorem ByRecency.evict (h : p.ByRecency) :
    p.evict.1 = p.peekAll.head? ∧ p.evict.2.ByRecency ∧ p.evict.2.peekAll = p.peekAll.tail := by
  obtain ⟨chain, items, rfl, hitems⟩ := h
  rw [peekAll_of_represents hitems]
  cases items with
  | nil =>
      have hevict : (ordered { discipline := .lru, chain := chain }).evict =
          (none, ordered { discipline := .lru, chain := chain }) :=
        congrArg (fun popped : Option α × Chain α =>
          (popped.1, ordered { discipline := .lru, chain := popped.2 })) hitems.popFront_nil
      rw [hevict]
      exact ⟨rfl, ⟨_, _, rfl, hitems⟩, peekAll_of_represents hitems⟩
  | cons first rest =>
      obtain ⟨hanswer, hafter⟩ := hitems.popFront_cons
      exact ⟨hanswer, ⟨_, _, rfl, hafter⟩, peekAll_of_represents hafter⟩

variable [DecidableEq α]

/-- Where all elements are different, the one at an index is the one that `erase` finds. -/
theorem erase_middle {left right : List (Index × α)}
    (hnodup : ((left ++ (i, element) :: right).map Prod.snd).Nodup) :
    ((left ++ (i, element) :: right).map Prod.snd).erase element =
      (left ++ right).map Prod.snd := by
  rw [List.map_append, List.map_cons] at hnodup ⊢
  have hleft : element ∉ left.map Prod.snd := fun hmem =>
    (List.disjoint_of_nodup_append hnodup) hmem List.mem_cons_self
  rw [List.erase_append_right _ hleft, List.erase_cons_head, List.map_append]

theorem ByRecency.touch (h : p.ByRecency) (hnodup : p.peekAll.Nodup)
    (hi : p.peek? i = some element) :
    (p.touch i).ByRecency ∧ (p.touch i).peekAll = p.peekAll.erase element ++ [element] := by
  obtain ⟨chain, items, rfl, hitems⟩ := h
  obtain ⟨left, right, rfl⟩ := hitems.exists_append hi
  obtain ⟨-, hafter⟩ := hitems.moveToBack
  rw [peekAll_of_represents hitems] at hnodup ⊢
  rw [erase_middle hnodup]
  exact ⟨⟨_, _, rfl, hafter⟩, (peekAll_of_represents hafter).trans List.map_append⟩

/-- An update that leaves the element what it was is a use. -/
theorem ByRecency.update (h : p.ByRecency) (hnodup : p.peekAll.Nodup)
    (hi : p.peek? i = some element) :
    (p.update i element).1 = true ∧ (p.update i element).2.ByRecency ∧
      (p.update i element).2.peekAll = p.peekAll.erase element ++ [element] := by
  obtain ⟨chain, items, rfl, hitems⟩ := h
  obtain ⟨left, right, rfl⟩ := hitems.exists_append hi
  have hset := hitems.set element
  have hlive : chain.contains i = true := by
    have hget : chain.get? i = some element := hi
    rw [Chain.contains, Slab.contains]
    exact Option.isSome_map.symm.trans (congrArg Option.isSome hget)
  have hupdate : (ordered { discipline := .lru, chain := chain }).update i element =
      (true, (ordered { discipline := .lru, chain := chain.set i element }).touch i) := by
    simp only [Policy.update, OrderedPolicy.update, hlive, if_true]
    rfl
  have hset? : (ordered { discipline := .lru, chain := chain.set i element }).peek? i =
      some element := (hset.enumerates.mem_iff i element).mp (by simp)
  have hsame : (ordered { discipline := .lru, chain := chain.set i element }).peekAll =
      (ordered { discipline := .lru, chain := chain }).peekAll :=
    (peekAll_of_represents hset).trans (peekAll_of_represents hitems).symm
  have htouch := ByRecency.touch ⟨_, _, rfl, hset⟩ (hsame ▸ hnodup) hset?
  rw [hupdate, ← hsame]
  exact ⟨rfl, htouch⟩

theorem ByRecency.remove (h : p.ByRecency) (hnodup : p.peekAll.Nodup)
    (hi : p.peek? i = some element) :
    (p.remove i).2.ByRecency ∧ (p.remove i).2.peekAll = p.peekAll.erase element := by
  obtain ⟨chain, items, rfl, hitems⟩ := h
  obtain ⟨left, right, rfl⟩ := hitems.exists_append hi
  obtain ⟨-, hafter⟩ := hitems.remove
  rw [peekAll_of_represents hitems] at hnodup ⊢
  rw [erase_middle hnodup]
  exact ⟨⟨_, _, rfl, hafter⟩, peekAll_of_represents hafter⟩

end BoundedCache.Policy
