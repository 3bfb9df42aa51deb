import BoundedCache.Proofs.Generation

/-!
# How long an index is good

An index is issued for one element.  What has become of that element is known to whoever has seen
the operations since (`Action.followed`): it is gone once it has been removed through its index or
the slab has been cleared, and until then it is what it was last changed to.  The slab knows
nothing but the generation of the slot.

`Tenure` ties the two together.  Since the index was issued, the generation has gone up once each
time that the slot was vacated; the element was there before the first time, and is gone after it.
So while the slot has been vacated fewer than 2^32 times a generation that agrees is that of the
element itself, and nothing else can be reached through the index (`Lasts.reaches`).  After exactly
2^32 times the generation has come round, and an insertion into the slot issues the index a second
time (`Lasts.returns`).  Every index can be worn out in this way (`Lasts.returnable`), by
removing what is in the slot and putting something back: the slot vacated last is used first.
-/

namespace BoundedCache

/-- A count below the number of generations leads to another one. -/
theorem add_ofNat_ne {count : Nat} (hpos : 0 < count) (hfew : count < UInt32.size)
    (generation : UInt32) : generation + UInt32.ofNat count ≠ generation := by
  rw [ne_eq, UInt32.add_eq_left]
  intro hzero
  have hcount := UInt32.toNat_ofNat_of_lt' hfew
  rw [hzero, UInt32.toNat_zero] at hcount
  omega

namespace Slab

variable {α : Type} {s : Slab α} {i : Index} {value : α} {element : Option α} {count : Nat}

/-- What an operation makes of the element at `i`, if one is there. -/
def Action.follow (i : Index) (element : Option α) : Action α → Option α
  | .insert _ => element
  | .remove j => if j = i then none else element
  | .set j value => if j = i then element.map fun _ => value else element
  | .clear => none

/-- What a run makes of it. -/
def Action.followed (i : Index) (element : Option α) (actions : List (Action α)) : Option α :=
  actions.foldl (Action.follow i) element

theorem Action.isSome_follow (action : Action α) :
    (action.follow i element).isSome = true ↔
      element.isSome = true ∧ action ≠ .remove i ∧ action ≠ .clear := by
  cases action with
  | insert value => simp [follow]
  | remove j => by_cases hj : j = i <;> simp [follow, hj]
  | set j value => by_cases hj : j = i <;> simp [follow, hj]
  | clear => simp [follow]

/-- The element is there until it is removed through its index, or cleared. -/
theorem Action.isSome_followed (actions : List (Action α)) :
    (followed i element actions).isSome = true ↔
      element.isSome = true ∧ .remove i ∉ actions ∧ .clear ∉ actions := by
  induction actions generalizing element with
  | nil => simp [followed]
  | cons action actions ih =>
      rw [followed, List.foldl_cons, ← followed, ih, isSome_follow, List.mem_cons, List.mem_cons]
      tauto

/-- How often the slot is vacated in a run. -/
def removals (s : Slab α) (actions : List (Action α)) (slot : Nat) : Nat :=
  vacations stamp act s actions slot

/-! ## One operation -/

/-- The generation of a slot goes up by one when it is vacated, and at no other time. -/
theorem WellFormed.generation_act (h : s.WellFormed) (action : Action α) (slot : Nat) :
    ((s.act action).stamp slot).2 =
      (s.stamp slot).2 + UInt32.ofNat (vacated s.stamp (s.act action).stamp slot) := by
  cases action with
  | insert value =>
      obtain ⟨hvacant, hafter⟩ := h.stamp_insert value
      obtain ⟨hvacated, hsame⟩ := vacated_of_insert hvacant hafter slot
      rw [Slab.act, hvacated, hsame]
      exact (UInt32.add_zero _).symm
  | remove i => exact (s.retires_remove i).generation_eq slot
  | set i value => exact (Retires.of_eq (s.stamp_modify i _)).generation_eq slot
  | clear => exact s.retires_clear.generation_eq slot

/-- An element that is there goes the way that the operation says, since an insertion puts nothing
in its place. -/
theorem WellFormed.get?_act (h : s.WellFormed) (hget : s.get? i = some value)
    (action : Action α) : (s.act action).get? i = action.follow i (some value) := by
  cases action with
  | insert new =>
      obtain ⟨hfresh, hafter⟩ := h.get?_insert new
      have hne : i ≠ (s.insert new).1 := by
        rintro rfl
        rw [hfresh] at hget
        exact absurd hget (by simp)
      rw [Slab.act, hafter, Function.update_of_ne hne, hget, Action.follow]
  | remove j =>
      rw [Slab.act, (s.get?_remove j).2, Action.follow]
      by_cases hj : j = i
      · rw [if_pos hj, hj, Function.update_self]
      · rw [if_neg hj, Function.update_of_ne (Ne.symm hj), hget]
  | set j new =>
      rw [Slab.act, get?_modify, Action.follow]
      by_cases hj : j = i
      · rw [if_pos hj, hj, Function.update_self, hget]
      · rw [if_neg hj, Function.update_of_ne (Ne.symm hj), hget]
  | clear => exact congrFun h.clear.2.2 i

/-- The slot of an element is vacated exactly if the element goes. -/
theorem WellFormed.vacated_act_eq_zero (h : s.WellFormed) (hget : s.get? i = some value)
    (action : Action α) :
    vacated s.stamp (s.act action).stamp i.slot = 0 ↔ ((s.act action).get? i).isSome = true := by
  have hbefore : s.stamp i.slot = (true, i.generation) := isSome_get?_iff.mp (by rw [hget]; rfl)
  have hgeneration := h.generation_act action i.slot
  rw [isSome_get?_iff]
  constructor
  · intro hzero
    rw [hzero, hbefore] at hgeneration
    have hstays : ((s.act action).stamp i.slot).1 = true := by
      simpa [vacated, hbefore] using hzero
    exact Prod.ext hstays (hgeneration.trans (UInt32.add_zero _))
  · intro hafter
    rw [vacated, hafter]
    exact if_neg (by simp)

/-! ## Since an index was issued -/

/-- The slot of `i` has been vacated `count` times since `i` was issued for an element, and
`element` is what has become of that.  It was there until the first time. -/
structure Tenure (i : Index) (s : Slab α) (element : Option α) (count : Nat) : Prop where
  wellFormed : s.WellFormed
  generation_eq : (s.stamp i.slot).2 = i.generation + UInt32.ofNat count
  live : count = 0 → s.get? i = element ∧ element.isSome = true
  left : 0 < count → element = none

theorem WellFormed.tenure_insert (h : s.WellFormed) (value : α) :
    Tenure (s.insert value).1 (s.insert value).2 (some value) 0 where
  wellFormed := h.insert value
  generation_eq := by
    rw [(h.stamp_insert value).2, Function.update_self]
    exact (UInt32.add_zero _).symm
  live _ := by
    rw [(h.get?_insert value).2, Function.update_self]
    exact ⟨rfl, rfl⟩
  left hpos := absurd hpos (Nat.lt_irrefl 0)

namespace Tenure

theorem act (h : Tenure i s element count) (action : Action α) :
    Tenure i (s.act action) (action.follow i element)
      (count + vacated s.stamp (s.act action).stamp i.slot) where
  wellFormed := h.wellFormed.act action
  generation_eq := by
    rw [h.wellFormed.generation_act, h.generation_eq, UInt32.ofNat_add, UInt32.add_assoc]
  live hnever := by
    obtain ⟨hcount, hvacated⟩ := Nat.add_eq_zero_iff.mp hnever
    obtain ⟨hget, hthere⟩ := h.live hcount
    obtain ⟨value, rfl⟩ := Option.isSome_iff_exists.mp hthere
    rw [← h.wellFormed.get?_act hget action]
    exact ⟨rfl, (h.wellFormed.vacated_act_eq_zero hget action).mp hvacated⟩
  left hpos := by
    rcases Nat.eq_zero_or_pos count with hcount | hcount
    · -- the slot is vacated for the first time, by what takes the element
      obtain ⟨hget, hthere⟩ := h.live hcount
      obtain ⟨value, rfl⟩ := Option.isSome_iff_exists.mp hthere
      have hvacated := (h.wellFormed.vacated_act_eq_zero hget action).not.mp (by omega)
      rw [h.wellFormed.get?_act hget action] at hvacated
      simpa using hvacated
    · have hgone : (action.follow i element).isSome ≠ true := by
        rw [ne_eq, Action.isSome_follow, h.left hcount]
        simp
      simpa using hgone

theorem run (h : Tenure i s element count) (actions : List (Action α)) :
    Tenure i (s.run actions) (Action.followed i element actions)
      (count + s.removals actions i.slot) := by
  induction actions generalizing s element count with
  | nil => exact h
  | cons action actions ih =>
      rw [removals, vacations, ← Nat.add_assoc]
      exact ih (h.act action)

/-- While the generation has not come round, the index reaches its element or nothing. -/
theorem get?_eq (h : Tenure i s element count) (hfew : count < UInt32.size) :
    s.get? i = element := by
  rcases Nat.eq_zero_or_pos count with hcount | hcount
  · exact (h.live hcount).1
  · rw [h.left hcount, ← Option.not_isSome_iff_eq_none, isSome_get?_iff]
    intro hlive
    have hgeneration := h.generation_eq
    rw [hlive] at hgeneration
    exact add_ofNat_ne hcount hfew i.generation hgeneration.symm

/-- Nor is it issued for another element: its slot is taken, or shows another generation. -/
theorem not_issued (h : Tenure i s element count) (hfew : count < UInt32.size) (value : α) :
    (s.insert value).1 ≠ i := by
  rintro rfl
  rcases Nat.eq_zero_or_pos count with hcount | hcount
  · obtain ⟨hget, hthere⟩ := h.live hcount
    rw [← hget, (h.wellFormed.get?_insert value).1] at hthere
    exact absurd hthere (by simp)
  · have hgeneration := h.generation_eq
    rw [(h.wellFormed.stamp_insert value).1] at hgeneration
    exact add_ofNat_ne hcount hfew _ hgeneration.symm

/-- Once the generation has come round, an insertion into the slot issues the index again. -/
theorem issued_again (h : Tenure i s element UInt32.size) {value : α}
    (hslot : (s.insert value).1.slot = i.slot) : (s.insert value).1 = i := by
  have hgeneration : (s.insert value).1.generation = i.generation := by
    have hshown := h.generation_eq
    rwa [← hslot, (h.wellFormed.stamp_insert value).1, UInt32.ofNat_size, UInt32.add_zero] at hshown
  calc (s.insert value).1
      = ⟨(s.insert value).1.slot, (s.insert value).1.generation⟩ := rfl
    _ = i := by rw [hslot, hgeneration]

end Tenure

/-! ## Wearing a slot out -/

/-- A slot that is vacated takes the next element, at the next generation. -/
theorem fst_insert_remove (hget : s.get? i = some value) (new : α) :
    ((s.remove i).2.insert new).1 = ⟨i.slot, i.generation + 1⟩ := by
  have hbound := lt_size_of_cell (get?_eq_some.mp hget)
  rw [remove_of_get? hget]
  exact congrArg Prod.fst
    (insert_of_vacant rfl (Array.getElem?_setIfInBounds_self_of_lt hbound) new)

theorem WellFormed.vacated_remove (h : s.WellFormed) (hget : s.get? i = some value) :
    vacated s.stamp (s.act (.remove i)).stamp i.slot = 1 := by
  have hgone := (h.vacated_act_eq_zero hget (.remove i)).not.mpr
    (by rw [h.get?_act hget, Action.follow, if_pos rfl]; simp)
  have hle := vacated_le_one s.stamp (s.act (.remove i)).stamp i.slot
  omega

/-- The slot of an element can be vacated any number of times, and is then the next to be used. -/
theorem WellFormed.exists_removals (h : s.WellFormed) (hget : s.get? i = some value) (n : Nat) :
    ∃ actions, s.removals actions i.slot = n + 1 ∧
      ∀ new, ((s.run actions).insert new).1.slot = i.slot := by
  induction n generalizing s i with
  | zero =>
      refine ⟨[.remove i], ?_, fun new => ?_⟩
      · rw [removals, vacations, vacations, h.vacated_remove hget]
      · have hindex : ((s.run [.remove i]).insert new).1 = ⟨i.slot, i.generation + 1⟩ :=
          fst_insert_remove hget new
        rw [hindex]
  | succ n ih =>
      -- the element is put back, under the next index of the slot
      obtain ⟨hvacant, hafter⟩ := (h.remove i).stamp_insert value
      have hback := ((h.remove i).get?_insert value).2
      have hindex := fst_insert_remove hget value
      rw [hindex] at hback
      obtain ⟨actions, hremovals, hnext⟩ :=
        ih ((h.remove i).insert value) (hback ▸ Function.update_self ..)
      refine ⟨.remove i :: .insert value :: actions, ?_, hnext⟩
      have hnone := (vacated_of_insert hvacant hafter i.slot).1
      rw [removals] at hremovals
      rw [removals, vacations, vacations, h.vacated_remove hget, Slab.act, Slab.act, hnone,
        hremovals]
      omega

/-! ## Runs -/

/-- `element` is what is reached through `i`, by all ways to reach it, and nothing else is.  If it
is none, each of them is refused and the slab stays as it is.  No insertion issues `i`. -/
structure Reaches (s : Slab α) (i : Index) (element : Option α) : Prop where
  get?_eq : s.get? i = element
  contains_eq : s.contains i = element.isSome
  remove_eq : (s.remove i).1 = element ∧ (s.remove i).2.get? = Function.update s.get? i none
  modify_eq : ∀ change,
    (s.modify i change).get? = Function.update s.get? i (element.map change)
  refused : element = none → (s.remove i).2 = s ∧ ∀ change, s.modify i change = s
  not_issued : ∀ value, (s.insert value).1 ≠ i

theorem Tenure.reaches (h : Tenure i s element count) (hfew : count < UInt32.size) :
    s.Reaches i element := by
  have hget := h.get?_eq hfew
  obtain ⟨hanswer, hafter⟩ := s.get?_remove i
  refine ⟨hget, ?_, ⟨hanswer.trans hget, hafter⟩, fun change => ?_, ?_, h.not_issued hfew⟩
  · rw [contains, hget]
  · rw [get?_modify, hget]
  · rintro rfl
    exact ⟨congrArg Prod.snd (remove_of_stale hget), modify_of_stale hget⟩

/-- `i`, issued for `value`, is good for that element alone, as long as its slot is vacated fewer
times than there are generations: it is accepted until the element is removed or cleared, and
reaches the element as it was last changed.  After that many times it is issued again by an
insertion into the slot, and there are runs that come so far. -/
structure Lasts (s : Slab α) (i : Index) (value : α) : Prop where
  accepted_iff : ∀ actions, s.removals actions i.slot < UInt32.size →
    ((s.run actions).contains i = true ↔ .remove i ∉ actions ∧ .clear ∉ actions)
  reaches : ∀ actions, s.removals actions i.slot < UInt32.size →
    (s.run actions).Reaches i (Action.followed i (some value) actions)
  returns : ∀ actions, s.removals actions i.slot = UInt32.size →
    ∀ new, ((s.run actions).insert new).1.slot = i.slot → ((s.run actions).insert new).1 = i
  returnable : ∃ actions, s.removals actions i.slot = UInt32.size ∧
    ∀ new, ((s.run actions).insert new).1 = i

theorem Tenure.lasts (h : Tenure i s (some value) 0) : s.Lasts i value := by
  have hrun : ∀ actions, Tenure i (s.run actions) (Action.followed i (some value) actions)
      (s.removals actions i.slot) := by
    intro actions
    have hafter := h.run actions
    rwa [Nat.zero_add] at hafter
  have hreturns : ∀ actions, s.removals actions i.slot = UInt32.size → ∀ new,
      ((s.run actions).insert new).1.slot = i.slot → ((s.run actions).insert new).1 = i :=
    fun actions hround new hslot => (hround ▸ hrun actions).issued_again hslot
  refine ⟨fun actions hfew => ?_, fun actions hfew => (hrun actions).reaches hfew, hreturns, ?_⟩
  · rw [((hrun actions).reaches hfew).contains_eq, Action.isSome_followed]
    simp
  · obtain ⟨actions, hround, hnext⟩ :=
      h.wellFormed.exists_removals (h.live rfl).1 (UInt32.size - 1)
    exact ⟨actions, hround, fun new => hreturns actions hround new (hnext new)⟩

/-- Every index issued in a run, whatever the run was until then, is good for its element until
the generation of the slot comes round, and no longer. -/
theorem issued_lasts (before : List (Action α)) (value : α) :
    (((empty : Slab α).run before).insert value).2.Lasts
      (((empty : Slab α).run before).insert value).1 value :=
  ((wellFormed_empty.run before).tenure_insert value).lasts

/-- The theorem at an index of a slot that had another element before and gets one afterwards: the
index is stale, and the element that is in its slot now is not reached through it. -/
theorem issued_lasts_reused :
    (((empty : Slab Nat).run [.insert 1, .remove ⟨0, 0⟩]).insert 2).2.removals
        [.set ⟨0, 1⟩ 7, .remove ⟨0, 1⟩, .insert 3] 0 < UInt32.size ∧
      ((((empty : Slab Nat).run [.insert 1, .remove ⟨0, 0⟩]).insert 2).2.run
        [.set ⟨0, 1⟩ 7, .remove ⟨0, 1⟩, .insert 3]).Reaches ⟨0, 1⟩ none :=
  ⟨by decide, (issued_lasts [.insert 1, .remove ⟨0, 0⟩] 2).reaches _ (by decide)⟩

end Slab

end BoundedCache
