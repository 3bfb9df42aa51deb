import BoundedCache.Proofs.Generation

/-!
# A chain is a sequence with lasting indices

Seen from outside a chain is a sequence of elements, each under an index that no element has had
before.  `Sequence.Step` says what an operation does to the sequence and what it answers;
`Sequence.Describes` is what can be seen of the chain at any time, along its links in both
directions; and `Sequence.Traces` runs the two side by side.

That the links follow the sequence is known from `Chain.Represents`, one operation at a time.
What a run adds is that an index stays stale once its element has left, for which the slots must
not be vacated so often that a generation comes round (`Tracks`).
-/

namespace BoundedCache

variable {α : Type}

namespace Chain

/-- What an operation hands back. -/
inductive Answer (α : Type) where
  | index (i : Index)
  | element (element? : Option α)
  | moved (done : Bool)
  | elements (elements : List α)

/-- The answer of the chain to an operation.  A change in place reaches the old element. -/
def answer (c : Chain α) : Action α → Answer α
  | .pushBack value => .index (c.pushBack value).1
  | .pushFront value => .index (c.pushFront value).1
  | .popFront => .element c.popFront.1
  | .popBack => .element c.popBack.1
  | .remove i => .element (c.remove i).1
  | .moveToBack i => .moved (c.moveToBack i).1
  | .set i _ => .element (c.get? i)
  | .clear => .elements c.clear.1

/-- How often each slot has been vacated, counting the operation. -/
def ageing (c : Chain α) (action : Action α) (aged : Nat → Nat) (slot : Nat) : Nat :=
  aged slot + vacated c.nodes.stamp (c.act action).nodes.stamp slot

/-- How often the slot is vacated in a run. -/
def removals (c : Chain α) (actions : List (Action α)) (slot : Nat) : Nat :=
  vacations (fun c => c.nodes.stamp) act c actions slot

/-- Elements are taken out until there is none, and fuel beyond their number makes no
difference. -/
theorem Represents.clearLoop_eq {c : Chain α} {items : List (Index × α)} (h : c.Represents items)
    {fuel : Nat} (hfuel : items.length ≤ fuel) :
    Chain.clearLoop fuel c = Chain.clearLoop items.length c := by
  induction items generalizing c fuel with
  | nil =>
      cases fuel with
      | zero => rfl
      | succ fuel => simp only [Chain.clearLoop, h.popFront_nil, List.length_nil]
  | cons x rest ih =>
      cases fuel with
      | zero => exact absurd hfuel (by simp)
      | succ fuel =>
          obtain ⟨hvalue, hrest⟩ := h.popFront_cons
          have hpop : c.popFront = (some x.2, c.popFront.2) := Prod.ext hvalue rfl
          rw [List.length_cons, Chain.clearLoop, Chain.clearLoop, hpop]
          simp only [ih hrest (Nat.le_of_succ_le_succ hfuel)]

theorem set_of_stale {c : Chain α} {i : Index} (hget : c.get? i = none) (value : α) :
    c.set i value = c := by
  rw [set, Slab.modify_of_stale (Option.map_eq_none_iff.mp hget)]

/-- The indices in the sequence are the live ones. -/
theorem Represents.mem_iff_stamp {c : Chain α} {items : List (Index × α)} (h : c.Represents items)
    (i : Index) :
    i ∈ items.map Prod.fst ↔ c.nodes.stamp i.slot = (true, i.generation) := by
  rw [← Slab.isSome_get?_iff, ← Option.isSome_map (f := Node.value), Option.isSome_iff_exists,
    List.mem_map]
  constructor
  · rintro ⟨⟨j, value⟩, hitem, rfl⟩
    exact ⟨value, (h.enumerates.mem_iff j value).mp hitem⟩
  · rintro ⟨value, hget⟩
    exact ⟨(i, value), (h.enumerates.mem_iff i value).mpr hget, rfl⟩

end Chain

/-- The elements in order, with their indices, and the indices issued so far. -/
structure Sequence (α : Type) where
  items : List (Index × α) := []
  issued : List Index := []

namespace Sequence

/-- The indices of the elements. -/
def live (s : Sequence α) : List Index := s.items.map Prod.fst

/-- What an operation does to the sequence, and what it answers. -/
inductive Step (s : Sequence α) : Chain.Action α → Chain.Answer α → Sequence α → Prop where
  | pushedBack {i : Index} (value : α) (hfresh : i ∉ s.issued) :
      Step s (.pushBack value) (.index i) ⟨s.items ++ [(i, value)], s.issued ++ [i]⟩
  | pushedFront {i : Index} (value : α) (hfresh : i ∉ s.issued) :
      Step s (.pushFront value) (.index i) ⟨(i, value) :: s.items, s.issued ++ [i]⟩
  | poppedFront {i : Index} {value : α} {rest : List (Index × α)}
      (hitems : s.items = (i, value) :: rest) :
      Step s .popFront (.element (some value)) ⟨rest, s.issued⟩
  | notPoppedFront (hnone : s.items = []) : Step s .popFront (.element none) s
  | poppedBack {i : Index} {value : α} {front : List (Index × α)}
      (hitems : s.items = front ++ [(i, value)]) :
      Step s .popBack (.element (some value)) ⟨front, s.issued⟩
  | notPoppedBack (hnone : s.items = []) : Step s .popBack (.element none) s
  | removed {i : Index} {value : α} {left right : List (Index × α)}
      (hitems : s.items = left ++ (i, value) :: right) :
      Step s (.remove i) (.element (some value)) ⟨left ++ right, s.issued⟩
  | notRemoved {i : Index} (hstale : i ∉ s.live) : Step s (.remove i) (.element none) s
  | moved {i : Index} {value : α} {left right : List (Index × α)}
      (hitems : s.items = left ++ (i, value) :: right) :
      Step s (.moveToBack i) (.moved true) ⟨left ++ right ++ [(i, value)], s.issued⟩
  | notMoved {i : Index} (hstale : i ∉ s.live) : Step s (.moveToBack i) (.moved false) s
  | changed {i : Index} {value : α} {left right : List (Index × α)} (new : α)
      (hitems : s.items = left ++ (i, value) :: right) :
      Step s (.set i new) (.element (some value)) ⟨left ++ (i, new) :: right, s.issued⟩
  | notChanged {i : Index} (new : α) (hstale : i ∉ s.live) : Step s (.set i new) (.element none) s
  | cleared : Step s .clear (.elements (s.items.map Prod.snd)) ⟨[], s.issued⟩

/-- What can be seen of the chain.  Its ends are those of the sequence; a walk along its links, in
either direction, meets the elements in order and ends with the last of them; and nothing can be
done through an index that is not live. -/
structure Describes (s : Sequence α) (c : Chain α) : Prop where
  live_nodup : s.live.Nodup
  live_issued : ∀ i ∈ s.live, i ∈ s.issued
  get?_iff : ∀ i value, c.get? i = some value ↔ (i, value) ∈ s.items
  contains_iff : ∀ i, c.contains i = true ↔ i ∈ s.live
  size_eq : c.size = s.items.length
  head_eq : c.head = s.live.head?
  tail_eq : c.tail = s.live.getLast?
  forward : ∀ steps, c.walkForward steps c.head = s.items.take steps
  backward : ∀ steps, c.walkBackward steps c.tail = s.items.reverse.take steps
  clearing : ∀ steps, c.size ≤ steps → Chain.clearLoop steps c = c.clear
  unchanged : ∀ i ∉ s.live,
    c.remove i = (none, c) ∧ c.moveToBack i = (false, c) ∧ ∀ value, c.set i value = c

/-- A run of the chain is one of the sequence, with the same answers, and the sequence describes
the chain all along. -/
inductive Traces : Sequence α → Chain α → List (Chain.Action α) → Prop where
  | done {s : Sequence α} {c : Chain α} (hstate : s.Describes c) : Traces s c []
  | step {s s' : Sequence α} {c : Chain α} {action : Chain.Action α}
      {actions : List (Chain.Action α)} (hstate : s.Describes c)
      (hstep : s.Step action (c.answer action) s') (hrest : Traces s' (c.act action) actions) :
      Traces s c (action :: actions)

/-- The invariant of a run in which every slot has been vacated `aged slot` times: whatever has
been issued is live, or has departed before its slot was vacated for the last time. -/
structure Tracks (s : Sequence α) (c : Chain α) (aged : Nat → Nat) : Prop where
  represents : c.Represents s.items
  live_issued : ∀ i ∈ s.live, i ∈ s.issued
  ages : Aged c.nodes.stamp aged fun i => i ∈ s.issued ∧ i ∉ s.live

/-- A live index has a place in the sequence. -/
theorem exists_split {s : Sequence α} {i : Index} (hlive : i ∈ s.live) :
    ∃ value left right, s.items = left ++ (i, value) :: right := by
  obtain ⟨⟨j, value⟩, hitem, rfl⟩ := List.mem_map.mp hlive
  exact ⟨value, List.append_of_mem hitem⟩

namespace Tracks

variable {s : Sequence α} {c : Chain α} {aged : Nat → Nat} {i : Index} {value : α}

/-! ## What the invariant says of one state -/

theorem get?_eq_none (h : Tracks s c aged) (hstale : i ∉ s.live) : c.get? i = none := by
  refine Option.eq_none_iff_forall_ne_some.mpr fun value hget => hstale ?_
  exact List.mem_map.mpr ⟨_, (h.represents.enumerates.mem_iff i value).mpr hget, rfl⟩

theorem describes (h : Tracks s c aged) : s.Describes c where
  live_nodup := h.represents.enumerates.nodup
  live_issued := h.live_issued
  get?_iff i value := (h.represents.enumerates.mem_iff i value).symm
  contains_iff i := by
    rw [live, h.represents.mem_iff_stamp, ← Slab.isSome_get?_iff]
    rfl
  size_eq := h.represents.size_eq
  head_eq := by
    rw [h.represents.linked.head_eq, live, List.head?_map]
    rfl
  tail_eq := by
    rw [h.represents.linked.tail_eq, live, List.getLast?_map]
    rfl
  forward := h.represents.walkForward_eq
  backward := h.represents.walkBackward_eq
  clearing steps hsteps := by
    rw [h.represents.size_eq] at hsteps
    rw [h.represents.clearLoop_eq hsteps, Chain.clear, h.represents.size_eq]
  unchanged i hstale := by
    have hget := h.get?_eq_none hstale
    exact ⟨Chain.remove_of_stale hget, Chain.moveToBack_of_stale hget, Chain.set_of_stale hget⟩

/-! ## What an operation preserves -/

/-- Elements leave, move or change, and nothing comes in. -/
theorem retire (h : Tracks s c aged) {c' : Chain α} {items : List (Index × α)}
    (hafter : c'.Represents items) (hkept : ∀ i ∈ items.map Prod.fst, i ∈ s.live)
    (hretires : Retires c.nodes.stamp c'.nodes.stamp) :
    Tracks ⟨items, s.issued⟩ c'
      fun slot => aged slot + vacated c.nodes.stamp c'.nodes.stamp slot := by
  refine ⟨hafter, fun i hi => h.live_issued i (hkept i hi), h.ages.retire hretires ?_⟩
  rintro i ⟨hissued, hgone⟩
  by_cases hlive : i ∈ s.live
  · refine .inr ⟨(h.represents.mem_iff_stamp i).mp hlive, fun hstays => hgone ?_⟩
    exact (hafter.mem_iff_stamp i).mpr hstays
  · exact .inl ⟨hissued, hlive⟩

/-- An element comes in, at an index that has not been issued. -/
theorem issue (h : Tracks s c aged) (hfew : ∀ slot, aged slot < UInt32.size) {c' : Chain α}
    {items : List (Index × α)} (hafter : c'.Represents items)
    (hitems : items.Perm ((i, value) :: s.items))
    (hstamp : c.nodes.stamp i.slot = (false, i.generation) ∧
      c'.nodes.stamp = Function.update c.nodes.stamp i.slot (true, i.generation)) :
    i ∉ s.issued ∧ Tracks ⟨items, s.issued ++ [i]⟩ c'
      fun slot => aged slot + vacated c.nodes.stamp c'.nodes.stamp slot := by
  obtain ⟨hvacant, hstamp⟩ := hstamp
  have hnotLive : i ∉ s.live := by
    rw [live, h.represents.mem_iff_stamp, hvacant]
    simp
  have hnotIssued : i ∉ s.issued := fun hissued =>
    h.ages.fresh hvacant (hfew i.slot) ⟨hissued, hnotLive⟩
  have hlive : ∀ j, j ∈ items.map Prod.fst ↔ j = i ∨ j ∈ s.live := by
    intro j
    rw [(hitems.map Prod.fst).mem_iff, List.map_cons, List.mem_cons, live]
  refine ⟨hnotIssued, hafter, fun j hj => ?_, h.ages.insert hvacant hstamp ?_⟩
  · rcases (hlive j).mp hj with rfl | hold
    · exact List.mem_append_right _ (List.mem_singleton_self j)
    · exact List.mem_append_left _ (h.live_issued j hold)
  · rintro j ⟨hissued, hgone⟩
    have hgone : ¬(j = i ∨ j ∈ s.live) := fun hj => hgone ((hlive j).mpr hj)
    rw [List.mem_append, List.mem_singleton] at hissued
    exact ⟨hissued.resolve_right fun hj => hgone (.inl hj), fun hj => hgone (.inr hj)⟩

/-- Nothing happens. -/
theorem stay (h : Tracks s c aged) {action : Chain.Action α} (hact : c.act action = c) :
    Tracks s (c.act action) (c.ageing action aged) := by
  unfold Chain.ageing
  rw [hact]
  exact h.retire h.represents (fun _ => id) (.refl _)

theorem remove (h : Tracks s c aged) (i : Index) :
    ∃ s', s.Step (.remove i) (c.answer (.remove i)) s' ∧
      Tracks s' (c.act (.remove i)) (c.ageing (.remove i) aged) := by
  by_cases hlive : i ∈ s.live
  · obtain ⟨value, left, right, hitems⟩ := exists_split hlive
    obtain ⟨hanswer, hafter⟩ := (hitems ▸ h.represents).remove
    refine ⟨_, ?_, h.retire hafter (fun j hj => ?_) (c.retires_remove i)⟩
    · rw [Chain.answer, hanswer]
      exact .removed hitems
    · rw [live, hitems]
      simp only [List.map_append, List.mem_append, List.map_cons, List.mem_cons] at hj ⊢
      tauto
  · have hstale := Chain.remove_of_stale (h.get?_eq_none hlive)
    refine ⟨s, ?_, h.stay (congrArg Prod.snd hstale)⟩
    rw [Chain.answer, hstale]
    exact .notRemoved hlive

theorem moveToBack (h : Tracks s c aged) (i : Index) :
    ∃ s', s.Step (.moveToBack i) (c.answer (.moveToBack i)) s' ∧
      Tracks s' (c.act (.moveToBack i)) (c.ageing (.moveToBack i) aged) := by
  by_cases hlive : i ∈ s.live
  · obtain ⟨value, left, right, hitems⟩ := exists_split hlive
    obtain ⟨hanswer, hafter⟩ := (hitems ▸ h.represents).moveToBack
    refine ⟨_, ?_, h.retire hafter (fun j hj => ?_) (.of_eq (c.stamp_moveToBack i))⟩
    · rw [Chain.answer, hanswer]
      exact .moved hitems
    · rw [live, hitems]
      simp only [List.map_append, List.mem_append, List.map_cons, List.mem_cons] at hj ⊢
      tauto
  · have hstale := Chain.moveToBack_of_stale (h.get?_eq_none hlive)
    refine ⟨s, ?_, h.stay (congrArg Prod.snd hstale)⟩
    rw [Chain.answer, hstale]
    exact .notMoved hlive

theorem set (h : Tracks s c aged) (i : Index) (new : α) :
    ∃ s', s.Step (.set i new) (c.answer (.set i new)) s' ∧
      Tracks s' (c.act (.set i new)) (c.ageing (.set i new) aged) := by
  by_cases hlive : i ∈ s.live
  · obtain ⟨value, left, right, hitems⟩ := exists_split hlive
    have hget : c.get? i = some value :=
      (h.represents.enumerates.mem_iff i value).mp (by simp [hitems])
    have hafter := (hitems ▸ h.represents).set new
    refine ⟨_, ?_, h.retire hafter (fun j hj => ?_) (.of_eq (c.stamp_set i new))⟩
    · rw [Chain.answer, hget]
      exact .changed new hitems
    · rw [live, hitems]
      simpa using hj
  · have hget := h.get?_eq_none hlive
    refine ⟨s, ?_, h.stay (Chain.set_of_stale hget new)⟩
    rw [Chain.answer, hget]
    exact .notChanged new hlive

theorem popFront (h : Tracks s c aged) :
    ∃ s', s.Step .popFront (c.answer .popFront) s' ∧
      Tracks s' (c.act .popFront) (c.ageing .popFront aged) := by
  cases hitems : s.items with
  | nil =>
      have hnone := (hitems ▸ h.represents).popFront_nil
      refine ⟨s, ?_, h.stay (congrArg Prod.snd hnone)⟩
      rw [Chain.answer, hnone]
      exact .notPoppedFront hitems
  | cons x rest =>
      obtain ⟨hanswer, hafter⟩ := (hitems ▸ h.represents).popFront_cons
      refine ⟨_, ?_, h.retire hafter (fun j hj => ?_) c.retires_popFront⟩
      · rw [Chain.answer, hanswer]
        exact .poppedFront hitems
      · rw [live, hitems]
        exact List.mem_cons_of_mem _ hj

theorem popBack (h : Tracks s c aged) :
    ∃ s', s.Step .popBack (c.answer .popBack) s' ∧
      Tracks s' (c.act .popBack) (c.ageing .popBack aged) := by
  rcases s.items.eq_nil_or_concat with hitems | ⟨front, x, hitems⟩
  · have hnone := (hitems ▸ h.represents).popBack_nil
    refine ⟨s, ?_, h.stay (congrArg Prod.snd hnone)⟩
    rw [Chain.answer, hnone]
    exact .notPoppedBack hitems
  · rw [List.concat_eq_append] at hitems
    obtain ⟨hanswer, hafter⟩ := (hitems ▸ h.represents).popBack_concat
    refine ⟨_, ?_, h.retire hafter (fun j hj => ?_) c.retires_popBack⟩
    · rw [Chain.answer, hanswer]
      exact .poppedBack hitems
    · rw [live, hitems, List.map_append]
      exact List.mem_append_left _ hj

theorem step (h : Tracks s c aged) (hfew : ∀ slot, aged slot < UInt32.size)
    (action : Chain.Action α) :
    ∃ s', s.Step action (c.answer action) s' ∧
      Tracks s' (c.act action) (c.ageing action aged) := by
  cases action with
  | pushBack value =>
      obtain ⟨-, hafter⟩ := h.represents.pushBack value
      obtain ⟨hfresh, htracks⟩ := h.issue hfew hafter (List.perm_append_singleton _ _)
        (Chain.stamp_pushBack h.represents.wellFormed value)
      exact ⟨_, .pushedBack value hfresh, htracks⟩
  | pushFront value =>
      obtain ⟨-, hafter⟩ := h.represents.pushFront value
      obtain ⟨hfresh, htracks⟩ := h.issue hfew hafter (.refl _)
        (Chain.stamp_pushFront h.represents.wellFormed value)
      exact ⟨_, .pushedFront value hfresh, htracks⟩
  | popFront => exact h.popFront
  | popBack => exact h.popBack
  | remove i => exact h.remove i
  | moveToBack i => exact h.moveToBack i
  | set i new => exact h.set i new
  | clear =>
      obtain ⟨hanswer, hafter⟩ := h.represents.clear
      refine ⟨⟨[], s.issued⟩, ?_, h.retire hafter (by simp) (c.retires_clearLoop _)⟩
      rw [Chain.answer, hanswer]
      exact .cleared

/-! ## Runs -/

theorem traces (h : Tracks s c aged) (actions : List (Chain.Action α))
    (hfew : ∀ slot, aged slot + c.removals actions slot < UInt32.size) : Traces s c actions := by
  induction actions generalizing s c aged with
  | nil => exact .done h.describes
  | cons action actions ih =>
      have hnow : ∀ slot, aged slot < UInt32.size :=
        fun slot => Nat.lt_of_le_of_lt (Nat.le_add_right _ _) (hfew slot)
      obtain ⟨s', hstep, htracks⟩ := h.step hnow action
      refine .step h.describes hstep (ih htracks fun slot => ?_)
      rw [Chain.ageing, Nat.add_assoc]
      exact hfew slot

end Tracks

theorem tracks_empty : Tracks ({} : Sequence α) Chain.empty fun _ => 0 where
  represents := Chain.represents_empty
  live_issued _ hi := absurd hi List.not_mem_nil
  ages := ⟨fun _ => rfl, fun _ hi => absurd hi.1 List.not_mem_nil⟩

/-- Every run of a chain from empty is one of a sequence whose indices last, as long as no slot
is vacated so often that its generation comes round. -/
theorem traces_of_empty (actions : List (Chain.Action α))
    (hfew : ∀ slot, (Chain.empty : Chain α).removals actions slot < UInt32.size) :
    Traces {} Chain.empty actions := by
  refine tracks_empty.traces actions fun slot => ?_
  rw [Nat.zero_add]
  exact hfew slot

/-- The theorem at a run in which a slot is used again and its first index is stale. -/
theorem traces_reused_slot :
    Traces {} (Chain.empty : Chain Nat)
      [.pushBack 1, .pushBack 2, .moveToBack ⟨0, 0⟩, .remove ⟨1, 0⟩, .pushFront 3,
        .set ⟨1, 0⟩ 9, .moveToBack ⟨1, 1⟩, .popBack, .clear] := by
  refine traces_of_empty _ fun slot => ?_
  exact Nat.lt_of_le_of_lt (vacations_le_length _ _ _ _ slot) (by decide)

end Sequence

end BoundedCache
