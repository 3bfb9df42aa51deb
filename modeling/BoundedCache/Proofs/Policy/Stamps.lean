import BoundedCache.Proofs.Policy.Usage

/-!
# The ordered disciplines and the times of their elements

Every discipline looks at one time of each element: `fifo` and `lifo` at that of its `add`, `lru`
and `mru` at that of its last use.  The chain holds the elements with the latest time last, since
whatever gets a new time is at the back of the chain afterwards, and nothing else moves
(`Stamped`).  Links, slots and stale indices play no part in this: the chain stands for a sequence,
and what an operation does to the sequence is known.

`ordered_by_stamp` is the result, for every run from the empty policy.
-/

namespace BoundedCache

variable {α : Type}

/-- The time that the discipline looks at. -/
def Discipline.stamp : Discipline → Usage → Nat
  | .fifo, u | .lifo, u => u.added
  | .lru, u | .mru, u => u.used

/-- An element of usage `a` comes before one of usage `b`. -/
def Discipline.Before : Discipline → Usage → Usage → Prop
  | .fifo, a, b => a.added < b.added
  | .lifo, a, b => b.added < a.added
  | .lru, a, b => a.used < b.used
  | .mru, a, b => b.used < a.used

/-- The indices are in the order of their stamps, no two of which are the same or still to come. -/
structure Stamped (stamp : Index → Nat) (now : Nat) (indices : List Index) : Prop where
  ascending : indices.Pairwise fun i j => stamp i < stamp j
  le_now : ∀ i ∈ indices, stamp i ≤ now

namespace Stamped

variable {stamp stamp' : Index → Nat} {now now' : Nat} {indices rest : List Index} {i : Index}

theorem sublist (h : Stamped stamp now indices) (hsub : rest.Sublist indices) :
    Stamped stamp now rest where
  ascending := h.ascending.sublist hsub
  le_now j hj := h.le_now j (hsub.mem hj)

theorem later (h : Stamped stamp now indices) (hle : now ≤ now') : Stamped stamp now' indices where
  ascending := h.ascending
  le_now j hj := (h.le_now j hj).trans hle

/-- Only the stamps of the listed indices matter. -/
theorem congr (h : Stamped stamp now indices) (hsame : ∀ j ∈ indices, stamp' j = stamp j) :
    Stamped stamp' now indices where
  ascending := h.ascending.imp_of_mem fun hi hj hlt => by rwa [hsame _ hi, hsame _ hj]
  le_now j hj := (hsame j hj).symm ▸ h.le_now j hj

/-- What is stamped now comes after the others, which keep their stamps. -/
theorem push (h : Stamped stamp now indices) (hnew : i ∉ indices) (hi : stamp' i = now + 1)
    (hothers : ∀ j, j ≠ i → stamp' j = stamp j) : Stamped stamp' (now + 1) (indices ++ [i]) := by
  have hkept : Stamped stamp' now indices := by
    refine h.congr fun j hj => hothers j ?_
    rintro rfl
    exact hnew hj
  constructor
  · refine List.pairwise_append.mpr ⟨hkept.ascending, List.pairwise_singleton _ _, ?_⟩
    intro j hj k hk
    rw [List.mem_singleton.mp hk, hi]
    exact Nat.lt_succ_of_le (hkept.le_now j hj)
  · intro j hj
    rcases List.mem_append.mp hj with hj | hj
    · exact (hkept.later (Nat.le_succ now)).le_now j hj
    · rw [List.mem_singleton.mp hj, hi]

end Stamped

/-- The stamps in the books. -/
def Timeline.stamp (t : Timeline) (discipline : Discipline) (i : Index) : Nat :=
  discipline.stamp (t.usage i)

namespace Timeline

variable {t : Timeline} {discipline : Discipline} {i j : Index}

theorem stamp_add_self (t : Timeline) (discipline : Discipline) (i : Index) :
    (t.add i).stamp discipline i = t.now + 1 := by
  rw [stamp, usage_add_self]
  cases discipline <;> rfl

theorem stamp_add_of_ne (hne : j ≠ i) : (t.add i).stamp discipline j = t.stamp discipline j :=
  congrArg discipline.stamp (usage_add_of_ne hne)

theorem stamp_use_self (hfollows : discipline.followsUse = true) :
    (t.use i).stamp discipline i = t.now + 1 := by
  rw [stamp, usage_use_self]
  cases discipline with
  | fifo | lifo => exact absurd hfollows Bool.false_ne_true
  | lru | mru => rfl

theorem stamp_use_of_ne (hne : j ≠ i) : (t.use i).stamp discipline j = t.stamp discipline j :=
  congrArg discipline.stamp (usage_use_of_ne hne)

/-- A use changes no time of an addition. -/
theorem stamp_use_of_not_follows (hfollows : discipline.followsUse = false) (i j : Index) :
    (t.use i).stamp discipline j = t.stamp discipline j := by
  by_cases hj : j = i
  · subst hj
    rw [stamp, usage_use_self, stamp]
    cases discipline with
    | fifo | lifo => rfl
    | lru | mru => exact absurd hfollows.symm Bool.false_ne_true
  · exact stamp_use_of_ne hj

end Timeline

namespace OrderedPolicy

variable {p : OrderedPolicy α} {t : Timeline} {items : List (Index × α)} {i : Index}

/-- The chain holds its elements in the order of their stamps. -/
def InOrder (p : OrderedPolicy α) (t : Timeline) : Prop :=
  ∃ items, p.chain.Represents items ∧
    Stamped (t.stamp p.discipline) t.now (items.map Prod.fst)

/-- Some elements leave, and none gets a new stamp. -/
theorem inOrder_of_sublist {kept : List (Index × α)}
    (h : Stamped (t.stamp p.discipline) t.now (items.map Prod.fst))
    (hafter : p.chain.Represents kept) (hsub : kept.Sublist items) : p.InOrder t.pass :=
  ⟨kept, hafter, (h.sublist (hsub.map _)).later (Nat.le_succ t.now)⟩

theorem InOrder.add (h : p.InOrder t) (element : α) :
    (p.add element).2.InOrder (t.add (p.add element).1) := by
  obtain ⟨items, hitems, hstamped⟩ := h
  obtain ⟨hfresh, hafter⟩ := hitems.pushBack element
  refine ⟨_, hafter, ?_⟩
  rw [List.map_append]
  exact hstamped.push (hitems.enumerates.not_mem_of_none hfresh)
    (t.stamp_add_self p.discipline _) fun j => Timeline.stamp_add_of_ne

theorem InOrder.touch (h : p.InOrder t) (i : Index) : (p.touch i).InOrder (t.use i) := by
  obtain ⟨items, hitems, hstamped⟩ := h
  have hpassed := hstamped.later (Nat.le_succ t.now)
  rw [OrderedPolicy.touch]
  cases hfollows : p.discipline.followsUse with
  | false =>
      refine ⟨items, hitems, hpassed.congr fun j _ => ?_⟩
      exact Timeline.stamp_use_of_not_follows hfollows i j
  | true =>
      rw [if_pos rfl]
      cases hget : p.chain.get? i with
      | none =>
          rw [Chain.moveToBack_of_stale hget]
          refine ⟨items, hitems, hpassed.congr fun j hj => Timeline.stamp_use_of_ne ?_⟩
          rintro rfl
          exact hitems.enumerates.not_mem_of_none hget hj
      | some element =>
          obtain ⟨left, right, rfl⟩ := hitems.exists_append hget
          obtain ⟨-, hafter⟩ := hitems.moveToBack
          have hnodup := hitems.enumerates.nodup
          refine ⟨_, hafter, ?_⟩
          rw [List.map_append, List.map_cons] at hnodup hstamped
          rw [List.map_append, List.map_append]
          have hothers := hstamped.sublist
            ((List.Sublist.refl (left.map Prod.fst)).append (List.sublist_cons_self i _))
          exact hothers.push (List.nodup_middle.mp hnodup).notMem
            (Timeline.stamp_use_self hfollows) fun j => Timeline.stamp_use_of_ne

theorem InOrder.update (h : p.InOrder t) (i : Index) (element : α) :
    (p.update i element).2.InOrder
      (t.next (.update i element) (.updated (p.update i element).1)) := by
  have hlive : p.chain.contains i = (p.chain.get? i).isSome := Option.isSome_map.symm
  rw [OrderedPolicy.update, hlive]
  cases hget : p.chain.get? i with
  | none =>
      obtain ⟨items, hitems, hstamped⟩ := h
      exact inOrder_of_sublist hstamped hitems (List.Sublist.refl items)
  | some old =>
      obtain ⟨items, hitems, hstamped⟩ := h
      obtain ⟨left, right, rfl⟩ := hitems.exists_append hget
      have hset : InOrder { p with chain := p.chain.set i element } t := by
        refine ⟨_, hitems.set element, ?_⟩
        rw [List.map_append] at hstamped ⊢
        exact hstamped
      exact hset.touch i

theorem InOrder.remove (h : p.InOrder t) (i : Index) : (p.remove i).2.InOrder t.pass := by
  obtain ⟨items, hitems, hstamped⟩ := h
  cases hget : p.chain.get? i with
  | none =>
      rw [OrderedPolicy.remove, Chain.remove_of_stale hget]
      exact inOrder_of_sublist hstamped hitems (List.Sublist.refl items)
  | some element =>
      obtain ⟨left, right, rfl⟩ := hitems.exists_append hget
      exact inOrder_of_sublist hstamped hitems.remove.2
        ((List.Sublist.refl left).append ((List.Sublist.refl right).cons _))

theorem InOrder.evict (h : p.InOrder t) : p.evict.2.InOrder t.pass := by
  obtain ⟨items, hitems, hstamped⟩ := h
  obtain ⟨kept, hkept, hsub, -⟩ := evict_of_represents hitems
  exact inOrder_of_sublist (p := p.evict.2) hstamped hkept hsub

theorem InOrder.clear (h : p.InOrder t) : p.clear.2.InOrder t.pass := by
  obtain ⟨items, hitems, hstamped⟩ := h
  exact inOrder_of_sublist (p := p.clear.2) hstamped hitems.clear.2 (List.nil_sublist items)

/-- The elements queue at the end from which victims are taken. -/
theorem queues_of_represents (h : p.chain.Represents items) :
    (Policy.ordered p).Queues (p.discipline.queue items) := by
  have hsound : p.Sound := ⟨items, h⟩
  obtain ⟨kept, hkept, -, -, htail⟩ := evict_of_represents h
  refine Policy.Sound.queues (p := .ordered p) hsound trivial
    (h.enumerates.of_perm (p.discipline.queue_perm items).symm) ?_
    (Policy.drain_ordered hsound).1 ?_
  · rw [Policy.peekAll, peekAll, h.toList_eq, h.toListRev_eq]
    rfl
  · rw [← htail]
    exact hkept.enumerates.of_perm (p.discipline.queue_perm kept).symm

end OrderedPolicy

namespace Policy

/-- The elements are in the order of their stamps. -/
def InOrder (discipline : Discipline) (p : Policy α) (t : Timeline) : Prop :=
  ∃ q : OrderedPolicy α, p = ordered q ∧ q.discipline = discipline ∧ q.InOrder t

theorem inOrder_step {discipline : Discipline} (p : Policy α) (t : Timeline) (action : Action α)
    (h : InOrder discipline p t) :
    InOrder discipline (p.act action) (t.next action (p.answer action)) := by
  obtain ⟨q, rfl, hsame, hq⟩ := h
  cases action with
  | add element => exact ⟨_, rfl, hsame, hq.add element⟩
  | touch i => exact ⟨_, rfl, (q.discipline_touch i).trans hsame, hq.touch i⟩
  | update i element =>
      exact ⟨_, rfl, (q.discipline_update i element).trans hsame, hq.update i element⟩
  | remove i => exact ⟨_, rfl, hsame, hq.remove i⟩
  | evict => exact ⟨_, rfl, hsame, hq.evict⟩
  | clear => exact ⟨_, rfl, hsame, hq.clear⟩

theorem starts_ordered (discipline : Discipline) :
    Starts (ordered { discipline := discipline } : Policy α) := by
  cases discipline with
  | fifo => exact .builtIn .fifo
  | lifo => exact .builtIn .lifo
  | lru => exact .builtIn .lru
  | mru => exact .builtIn .mru

/-- After every run the elements are listed and given up in the order of their stamps: those that
were added, or used, first or last come first.  They are the elements that were added in the run, as
they were last updated, without those that were handed back. -/
theorem ordered_by_stamp (discipline : Discipline) (actions : List (Action α)) :
    let start : Policy α := ordered { discipline := discipline }
    let usage := (start.timeline {} actions).usage
    ∃ items, (start.run actions).Queues items ∧
      (items.Pairwise fun a b => discipline.Before (usage a.1) (usage b.1)) ∧
      ∃ live, start.Holds [] actions live ∧ items.Perm live := by
  intro start usage
  have hstart : InOrder discipline start {} :=
    ⟨_, rfl, rfl, [], Chain.represents_empty, List.Pairwise.nil, by simp⟩
  obtain ⟨q, hrun, hsame, items, hitems, hstamped⟩ := timeline_keeps inOrder_step hstart actions
  have hqueues : (start.run actions).Queues (q.discipline.queue items) :=
    hrun ▸ OrderedPolicy.queues_of_represents hitems
  refine ⟨_, hqueues, ?_, hqueues.exists_holds (starts_ordered discipline) trivial⟩
  have hascending := List.pairwise_map.mp hstamped.ascending
  rw [hsame] at hascending ⊢
  cases discipline with
  | fifo | lru => exact hascending
  | lifo | mru => exact List.pairwise_reverse.mpr hascending

/-- The theorem for the order of uses, where one of three elements is used and another removed: the
use moves the element behind the others, and a use through the stale index moves none. -/
theorem ordered_by_stamp_used :
    let start : Policy Nat := ordered { discipline := .lru }
    let actions : List (Action Nat) :=
      [.add 1, .add 2, .add 3, .touch ⟨0, 0⟩, .remove ⟨1, 0⟩, .touch ⟨1, 0⟩]
    let usage := (start.timeline {} actions).usage
    ∃ items, (start.run actions).Queues items ∧ items.map Prod.snd = [3, 1] ∧
      (items.Pairwise fun a b => (usage a.1).used < (usage b.1).used) ∧
      ∃ live, start.Holds [] actions live ∧ items.Perm live := by
  intro start actions usage
  have hlisted : (start.run actions).peekAll = [3, 1] := by decide
  obtain ⟨items, hqueues, hordered, hheld⟩ := ordered_by_stamp .lru actions
  exact ⟨items, hqueues, hqueues.peekAll_eq.symm.trans hlisted, hordered, hheld⟩

end Policy

end BoundedCache
