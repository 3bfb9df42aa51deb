import BoundedCache.Proofs.Policy.Usage

/-!
# The counts of uses and the books of a run

An element's rank is what the books say of it: its uses since it came in, with the coming in
itself as the first of them, as far as they are counted, and the place of its `add` among all
additions.  Nodes, order and the count of insertions agree with the books after every operation
(`Counts`), also where the count stands at its maximum and a use changes no rank any more.

`ranked_by_use` is the result, for every run from the empty policy.  What it says of `clear` is a
fact of its own, since there the nodes are sorted once more, without a look at the order.
-/

namespace BoundedCache

variable {α : Type}

/-- The rank that an element of this usage has. -/
def Usage.rank (u : Usage) : Rank := ⟨min (u.uses + 1) maxFrequency, u.ordinal⟩

/-- Counting one more use is a use in the books; at the maximum neither goes further. -/
theorem Usage.rank_use (u : Usage) (now : Nat) : (u.use now).rank = u.rank.bump := by
  simp only [rank, use, Rank.bump, Rank.mk.injEq, and_true]
  omega

namespace FrequencyPolicy

variable {p : FrequencyPolicy α} {t : Timeline} {i : Index}

/-- The policy is sound, has counted all additions, and has its elements at the ranks that follow
from the books. -/
structure Counts (p : FrequencyPolicy α) (t : Timeline) : Prop where
  sound : p.Sound
  insertions_eq : p.insertions = t.adds
  rank_eq : ∀ i rank, p.rank? i = some rank → rank = (t.usage i).rank

/-! ## One operation -/

theorem rank?_touch (p : FrequencyPolicy α) (i : Index) :
    (p.touch i).rank? = Function.update p.rank? i ((p.rank? i).map Rank.bump) := by
  rw [FrequencyPolicy.touch]
  cases hget : p.nodes.get? i with
  | none =>
      have hrank : p.rank? i = none := Slab.elements_of_stale Counted.rank hget
      rw [hrank]
      exact (Function.update_eq_self_iff.mpr hrank.symm).symm
  | some node =>
      rw [rank?_of_get? hget, rank?, Slab.elements_eq, Slab.get?_modify, hget,
        Function.comp_update]
      rfl

theorem insertions_touch (p : FrequencyPolicy α) (i : Index) :
    (p.touch i).insertions = p.insertions := by
  rw [FrequencyPolicy.touch]
  split <;> rfl

theorem insertions_remove (p : FrequencyPolicy α) (i : Index) :
    (p.remove i).2.insertions = p.insertions := by
  rw [FrequencyPolicy.remove]
  split <;> rfl

namespace Counts

theorem add (h : p.Counts t) (element : α) :
    (p.add element).2.Counts (t.add (p.add element).1) where
  sound := (h.sound.add element).2
  insertions_eq := congrArg (· + 1) h.insertions_eq
  rank_eq j rank hj := by
    have hrank : (p.add element).2.rank? =
        Function.update p.rank? (p.add element).1 (some ⟨1, p.insertions + 1⟩) :=
      (h.sound.wellFormed.adds Counted.rank ⟨element, ⟨1, p.insertions + 1⟩⟩).after
    rw [hrank] at hj
    by_cases hne : j = (p.add element).1
    · rw [hne, Function.update_self, Option.some.injEq] at hj
      rw [hne, Timeline.usage_add_self, ← hj, h.insertions_eq]
      rfl
    · rw [Function.update_of_ne hne] at hj
      rw [Timeline.usage_add_of_ne hne]
      exact h.rank_eq j rank hj

theorem touch (h : p.Counts t) (i : Index) : (p.touch i).Counts (t.use i) where
  sound := (h.sound.touch i).2
  insertions_eq := (p.insertions_touch i).trans h.insertions_eq
  rank_eq j rank hj := by
    rw [rank?_touch] at hj
    by_cases hne : j = i
    · subst hne
      rw [Function.update_self] at hj
      obtain ⟨old, hold, rfl⟩ := Option.map_eq_some_iff.mp hj
      rw [h.rank_eq j old hold, Timeline.usage_use_self, Usage.rank_use]
    · rw [Function.update_of_ne hne] at hj
      rw [Timeline.usage_use_of_ne hne]
      exact h.rank_eq j rank hj

theorem update (h : p.Counts t) (i : Index) (element : α) :
    (p.update i element).2.Counts
      (t.next (.update i element) (.updated (p.update i element).1)) := by
  rw [FrequencyPolicy.update]
  cases p.nodes.contains i with
  | false => exact ⟨h.sound, h.insertions_eq, h.rank_eq⟩
  | true =>
      have hrank : rank? { p with
          nodes := p.nodes.modify i fun node => { node with element := element } } = p.rank? :=
        p.nodes.elements_modify Counted.rank i _ fun _ => rfl
      have hset : Counts { p with
          nodes := p.nodes.modify i fun node => { node with element := element } } t :=
        ⟨h.sound.set i element, h.insertions_eq, hrank ▸ h.rank_eq⟩
      exact hset.touch i

theorem remove (h : p.Counts t) (i : Index) : (p.remove i).2.Counts t.pass where
  sound := (h.sound.remove i).2
  insertions_eq := (p.insertions_remove i).trans h.insertions_eq
  rank_eq j rank hj := by
    rw [rank?_remove] at hj
    exact h.rank_eq j rank (Enumerates.update_none_eq_some.mp hj).2

theorem evict (h : p.Counts t) : p.evict.2.Counts t.pass := by
  cases horder : p.order with
  | nil =>
      rw [FrequencyPolicy.evict, horder]
      exact ⟨h.sound, h.insertions_eq, h.rank_eq⟩
  | cons first rest =>
      rw [h.sound.evict_eq horder]
      exact h.remove first.2

theorem clear (h : p.Counts t) : p.clear.2.Counts t.pass where
  sound := h.sound.clear.2.2
  insertions_eq := h.insertions_eq
  rank_eq j rank hj := by
    have hnone : p.clear.2.nodes.get? = fun _ => none := h.sound.wellFormed.clear.2.2
    rw [rank?, Slab.elements, hnone] at hj
    exact absurd hj (Option.some_ne_none rank).symm

/-! ## What follows from the ranks -/

/-- The order has every live index once, at the rank of its usage. -/
theorem order_eq (h : p.Counts t) :
    p.order = (p.order.map Prod.snd).map fun i => ((t.usage i).rank, i) := by
  rw [List.map_map]
  refine (List.map_id p.order).symm.trans (List.map_congr_left ?_)
  rintro ⟨rank, i⟩ hmem
  rw [Function.comp_apply, ← h.rank_eq i rank (h.sound.ranking.mem_order.mp hmem)]
  rfl

theorem frequency?_eq (h : p.Counts t) (i : Index) :
    p.frequency? i = (p.peek? i).map fun _ => (t.usage i).rank.frequency := by
  rw [frequency?, peek?]
  cases hget : p.nodes.get? i with
  | none => rfl
  | some node =>
      rw [← h.rank_eq i node.rank (rank?_of_get? hget)]
      rfl

end Counts

/-- The elements queue in the order of the policy. -/
theorem Sound.exists_queues (h : p.Sound) :
    ∃ items, (Policy.frequency p).Queues items ∧ items.map Prod.fst = p.order.map Prod.snd := by
  obtain ⟨items, hitems, hsame⟩ := h.ranking.enumerates.reread (f := p.peek?) fun i => by
    simp [rank?, Slab.elements, peek?]
  have hindices : items.map Prod.fst = p.order.map Prod.snd := by
    rw [hsame, List.map_map]
    rfl
  have hall : p.peekAll = items.map Prod.snd := by
    rw [← hitems.filterMap_eq, hindices, List.filterMap_map]
    rfl
  refine ⟨items, Policy.Sound.queues (p := .frequency p) h trivial hitems hall
    h.drain_eq_peekAll ?_, hindices⟩
  cases items with
  | nil =>
      have horder : p.order = [] := List.map_eq_nil_iff.mp hindices.symm
      have hevict : p.evict = (none, p) := by rw [FrequencyPolicy.evict, horder]
      show Enumerates [] p.evict.2.peek?
      rw [hevict]
      exact hitems
  | cons first rest =>
      obtain ⟨⟨rank, i⟩, others, horder, hi, -⟩ := List.map_eq_cons_iff.mp hindices.symm
      show Enumerates rest p.evict.2.peek?
      rw [h.evict_eq horder, (h.remove i).1.after, show i = first.1 from hi]
      exact hitems.erase

end FrequencyPolicy

namespace Policy

/-- The counts of uses agree with the books. -/
def Counts (p : Policy α) (t : Timeline) : Prop :=
  ∃ q : FrequencyPolicy α, p = frequency q ∧ q.Counts t

theorem counts_step (p : Policy α) (t : Timeline) (action : Action α) (h : p.Counts t) :
    (p.act action).Counts (t.next action (p.answer action)) := by
  obtain ⟨q, rfl, hq⟩ := h
  cases action with
  | add element => exact ⟨_, rfl, hq.add element⟩
  | touch i => exact ⟨_, rfl, hq.touch i⟩
  | update i element => exact ⟨_, rfl, hq.update i element⟩
  | remove i => exact ⟨_, rfl, hq.remove i⟩
  | evict => exact ⟨_, rfl, hq.evict⟩
  | clear => exact ⟨_, rfl, hq.clear⟩

/-- After every run the elements are listed, given up and cleared by the number of their uses, and
among equally used ones by the time at which they came in.  The order has one item for each of
them, and the count is exact up to its maximum.  They are the elements that were added in the run,
as they were last updated, without those that were handed back. -/
theorem ranked_by_use (actions : List (Action α)) :
    let start : Policy α := frequency {}
    let usage := (start.timeline {} actions).usage
    ∃ (q : FrequencyPolicy α) (items : List (Index × α)),
      start.run actions = frequency q ∧ (frequency q).Queues items ∧
      q.clear.1 = items.map Prod.snd ∧
      (items.Pairwise fun a b => (usage a.1).rank.before (usage b.1).rank = true) ∧
      (q.order = items.map fun item => ((usage item.1).rank, item.1)) ∧
      (∀ i, q.frequency? i =
        (q.peek? i).map fun _ => min ((usage i).uses + 1) (UInt64.size - 1)) ∧
      ∃ live, start.Holds [] actions live ∧ items.Perm live := by
  intro start usage
  have hstart : start.Counts {} :=
    ⟨_, rfl, FrequencyPolicy.sound_start, rfl,
      fun _ rank hi => absurd hi (Option.some_ne_none rank).symm⟩
  obtain ⟨q, hrun, hcounts⟩ := timeline_keeps counts_step hstart actions
  obtain ⟨items, hqueues, hindices⟩ := hcounts.sound.exists_queues
  have horder := hcounts.order_eq
  rw [← hindices, List.map_map] at horder
  have hheld : ∃ live, start.Holds [] actions live ∧ items.Perm live :=
    Queues.exists_holds (hrun ▸ hqueues) (.builtIn .lfu) trivial
  refine ⟨q, items, hrun, hqueues, ?_, ?_, horder, hcounts.frequency?_eq, hheld⟩
  · rw [hcounts.sound.clear_eq_peekAll]
    exact hqueues.peekAll_eq
  · have hascending := hcounts.sound.ranking.ascending
    rw [horder] at hascending
    exact List.pairwise_map.mp hascending

/-- The theorem at three elements, of which the first is used twice, the second once, by an update,
and the third not at all: this is also the order in which they are cleared. -/
theorem ranked_by_use_updated :
    let start : Policy Nat := frequency {}
    let actions : List (Action Nat) :=
      [.add 1, .touch ⟨0, 0⟩, .touch ⟨0, 0⟩, .add 2, .update ⟨1, 0⟩ 5, .add 3]
    ∃ (q : FrequencyPolicy Nat) (items : List (Index × Nat)),
      start.run actions = frequency q ∧ (frequency q).Queues items ∧
      q.clear.1 = items.map Prod.snd ∧ items.map Prod.snd = [3, 5, 1] ∧
      q.frequency? ⟨0, 0⟩ = some 3 ∧ ∃ live, start.Holds [] actions live ∧ items.Perm live := by
  intro start actions
  obtain ⟨q, items, hrun, hqueues, hclear, -, -, -, hheld⟩ := ranked_by_use actions
  have hlisted : (start.run actions).peekAll = [3, 5, 1] := by decide
  have hfrequency : (start.run actions).frequency? ⟨0, 0⟩ = some 3 := by decide
  rw [hrun] at hlisted hfrequency
  exact ⟨q, items, hrun, hqueues, hclear, hqueues.peekAll_eq.symm.trans hlisted, hfrequency, hheld⟩

end Policy

end BoundedCache
