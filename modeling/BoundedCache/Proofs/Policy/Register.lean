import BoundedCache.Proofs.Policy.Generation

/-!
# A policy keeps to its register

The contract of a policy over a whole run is told against a register: every index issued
so far, the indices whose element has left since, and the element last stored under each
index.  `Register.Step` says which answers an operation may give and what goes on record;
it is the contract as a caller sees it, free of slots and generations.

`Register.Traces` runs policy and register side by side, and asks after every operation
that the policy shows exactly what the register describes.  `traces_of_builtIn` is the
result: the built-in policies do, as long as no slot is vacated 2^32 times, so that no
generation comes up a second time.

What carries the induction is `Tracks`: the generation of a slot is the number of times
it has been vacated, and an index that has departed has a generation below that number.
-/

namespace BoundedCache

variable {α : Type}

namespace Policy

/-- One of the policies that keep the contract in full. -/
def BuiltIn : Policy α → Prop
  | forgetful _ | stubborn _ => False
  | _ => True

theorem BuiltIn.act {p : Policy α} (h : p.BuiltIn) (action : Action α) :
    (p.act action).BuiltIn := by
  cases p with
  | forgetful p | stubborn p => exact h.elim
  | ordered p | frequency p | secondChance p | random p => cases action <;> trivial

theorem BuiltIn.yielding {p : Policy α} (h : p.BuiltIn) : p.Yielding := by
  cases p with
  | forgetful p | stubborn p => exact h.elim
  | ordered p | frequency p | secondChance p | random p => trivial

theorem Sound.act {p : Policy α} (h : p.Sound) (action : Action α) : (p.act action).Sound := by
  cases action with
  | add element => exact (h.add element).2.sound
  | touch i => exact (h.touch i).2.sound
  | update i element => exact (h.update i element).2.sound
  | remove i => exact (h.remove i).2.sound
  | evict => exact h.evict.2.2.sound
  | clear => exact h.clear.2.2.sound

/-- A built-in policy replaces the element that it is told to update. -/
theorem Sound.replaces {p : Policy α} (h : p.Sound) (hbuiltIn : p.BuiltIn) (i : Index)
    (element : α) :
    Replaces p.peek? i element (p.update i element).1 (p.update i element).2.peek? := by
  cases p with
  | ordered p => exact (OrderedPolicy.Sound.update h i element).1
  | frequency p => exact (FrequencyPolicy.Sound.update h i element).1
  | secondChance p => exact (ClockPolicy.Sound.update h i element).1
  | random p => exact (RandomPolicy.Sound.update h i element).1
  | forgetful p | stubborn p => exact hbuiltIn.elim

/-- What an operation hands back. -/
inductive Answer (α : Type) where
  | index (i : Index)
  | done
  | updated (done : Bool)
  | element (element? : Option α)
  | elements (elements : List α)

/-- The answer of the policy to an operation. -/
def answer (p : Policy α) : Action α → Answer α
  | .add element => .index (p.add element).1
  | .touch _ => .done
  | .update i element => .updated (p.update i element).1
  | .remove i => .element (p.remove i).1
  | .evict => .element p.evict.1
  | .clear => .elements p.clear.1

/-- How often the operation vacates the slot: once, or not at all. -/
def vacates (p : Policy α) (action : Action α) (slot : Nat) : Nat :=
  if (p.stamp slot).1 = true ∧ ((p.act action).stamp slot).1 = false then 1 else 0

/-- How often the slot is vacated in a run. -/
def removals (p : Policy α) : List (Action α) → Nat → Nat
  | [], _ => 0
  | action :: actions, slot => p.vacates action slot + (p.act action).removals actions slot

theorem removals_le_length (p : Policy α) (actions : List (Action α)) (slot : Nat) :
    p.removals actions slot ≤ actions.length := by
  induction actions generalizing p with
  | nil => exact Nat.le_refl 0
  | cons action actions ih =>
      have hrest := ih (p.act action)
      have hfirst : p.vacates action slot ≤ 1 := vacated_le_one _ _ slot
      rw [removals, List.length_cons]
      omega

end Policy

/-- What has gone on in a run: the indices issued, those whose element has left, and the
element last stored under each. -/
structure Register (α : Type) where
  issued : List Index := []
  departed : List Index := []
  stored : Index → Option α := fun _ => none

namespace Register

/-- The indices whose element is still there. -/
def live (r : Register α) : List Index := r.issued.filter fun i => i ∉ r.departed

/-- The elements under the live indices. -/
def elements (r : Register α) : List α := r.live.filterMap r.stored

/-- The elements at these indices leave. -/
def depart (r : Register α) (gone : List Index) : Register α :=
  { r with departed := gone ++ r.departed }

/-- The element is the one stored last. -/
def store (r : Register α) (i : Index) (element : α) : Register α :=
  { r with stored := Function.update r.stored i (some element) }

/-- The index is issued. -/
def issue (r : Register α) (i : Index) : Register α := { r with issued := r.issued ++ [i] }

/-- The answers that an operation may give, and the register after it. -/
inductive Step (r : Register α) : Policy.Action α → Policy.Answer α → Register α → Prop where
  | added {i : Index} (element : α) (hfresh : i ∉ r.issued) :
      Step r (.add element) (.index i) ((r.issue i).store i element)
  | touched (i : Index) : Step r (.touch i) .done r
  | updated {i : Index} (element : α) (hlive : i ∈ r.live) :
      Step r (.update i element) (.updated true) (r.store i element)
  | notUpdated {i : Index} (element : α) (hstale : i ∉ r.live) :
      Step r (.update i element) (.updated false) r
  | removed {i : Index} {element : α} (hlive : i ∈ r.live) (hstored : r.stored i = some element) :
      Step r (.remove i) (.element (some element)) (r.depart [i])
  | notRemoved {i : Index} (hstale : i ∉ r.live) : Step r (.remove i) (.element none) r
  | evicted {i : Index} {element : α} (hlive : i ∈ r.live) (hstored : r.stored i = some element) :
      Step r .evict (.element (some element)) (r.depart [i])
  | exhausted (hnone : r.live = []) : Step r .evict (.element none) r
  | cleared {elements : List α} (hall : elements.Perm r.elements) :
      Step r .clear (.elements elements) (r.depart r.live)

/-- The policy shows what the register describes, and nothing can be done through an
index that is not live. -/
structure Describes (r : Register α) (p : Policy α) : Prop where
  peek?_iff : ∀ i element,
    p.peek? i = some element ↔ i ∈ r.issued ∧ i ∉ r.departed ∧ r.stored i = some element
  size_eq : p.size = r.live.length
  peekAll_perm : p.peekAll.Perm r.elements
  unchanged : ∀ i ∉ r.live,
    p.touch i = p ∧ (∀ element, p.update i element = (false, p)) ∧ p.remove i = (none, p)

/-- A run of the policy is one of the register, with the same answers, and the register
describes the policy all along. -/
inductive Traces : Register α → Policy α → List (Policy.Action α) → Prop where
  | done {r : Register α} {p : Policy α} (hstate : r.Describes p) : Traces r p []
  | step {r r' : Register α} {p : Policy α} {action : Policy.Action α}
      {actions : List (Policy.Action α)} (hstate : r.Describes p)
      (hstep : r.Step action (p.answer action) r') (hrest : Traces r' (p.act action) actions) :
      Traces r p (action :: actions)

/-- The invariant of a run in which every slot has been vacated `aged slot` times. -/
structure Tracks (r : Register α) (p : Policy α) (aged : Nat → Nat) : Prop where
  sound : p.Sound
  builtIn : p.BuiltIn
  issued_nodup : r.issued.Nodup
  live_iff : ∀ i, i ∈ r.live ↔ (p.peek? i).isSome = true
  stored_eq : ∀ i ∈ r.live, r.stored i = p.peek? i
  generation_eq : ∀ slot, (p.stamp slot).2 = UInt32.ofNat (aged slot)
  generation_lt : ∀ i ∈ r.departed, i.generation.toNat < aged i.slot

variable {r : Register α} {p : Policy α} {aged : Nat → Nat} {i : Index} {element : α}

theorem mem_live : i ∈ r.live ↔ i ∈ r.issued ∧ i ∉ r.departed := by
  simp [live, List.mem_filter]

namespace Tracks

/-! ## What the invariant says of one state -/

theorem peek?_eq_none (h : Tracks r p aged) (hstale : i ∉ r.live) : p.peek? i = none := by
  rw [h.live_iff] at hstale
  simpa using hstale

theorem exists_stored (h : Tracks r p aged) (hlive : i ∈ r.live) :
    ∃ element, r.stored i = some element ∧ p.peek? i = some element := by
  obtain ⟨element, hpeek⟩ := Option.isSome_iff_exists.mp ((h.live_iff i).mp hlive)
  exact ⟨element, (h.stored_eq i hlive).trans hpeek, hpeek⟩

theorem live_of_peek? (h : Tracks r p aged) (hpeek : p.peek? i = some element) :
    i ∈ r.live ∧ r.stored i = some element := by
  have hlive : i ∈ r.live := (h.live_iff i).mpr (by rw [hpeek]; rfl)
  exact ⟨hlive, (h.stored_eq i hlive).trans hpeek⟩

theorem stamp_of_live (h : Tracks r p aged) (hlive : i ∈ r.live) :
    p.stamp i.slot = (true, i.generation) :=
  (p.isSome_peek?_iff i).mp ((h.live_iff i).mp hlive)

theorem ages (h : Tracks r p aged) : Aged p.stamp aged (· ∈ r.departed) :=
  ⟨h.generation_eq, h.generation_lt⟩

/-- The elements on record are those of the policy. -/
theorem lists_elements (h : Tracks r p aged) : Lists p.peek? r.elements := by
  have hlisted : Enumerates (r.live.map fun i => (i, ())) fun i => (p.peek? i).map fun _ => () := by
    refine ⟨?_, fun i u => ?_⟩
    · rw [List.map_map]
      simpa [Function.comp_def, live] using h.issued_nodup.filter fun i => i ∉ r.departed
    · have hlive := h.live_iff i
      rw [Option.isSome_iff_exists] at hlive
      simp [hlive]
  have hlists := hlisted.lists_filterMap (f := p.peek?) fun i => by rw [Option.isSome_map]
  rw [List.map_map] at hlists
  have helements : r.elements = r.live.filterMap p.peek? :=
    List.filterMap_congr fun i hi => h.stored_eq i hi
  rw [helements]
  simpa [Function.comp_def] using hlists

theorem length_elements (h : Tracks r p aged) : r.elements.length = r.live.length := by
  rw [elements, List.length_filterMap_eq_countP, List.countP_eq_length]
  intro i hi
  obtain ⟨element, hstored, -⟩ := h.exists_stored hi
  rw [hstored]
  rfl

theorem describes (h : Tracks r p aged) : r.Describes p := by
  obtain ⟨hlists, hsize⟩ := h.sound.peekAll
  have hperm := hlists.perm h.lists_elements
  refine ⟨fun i element => ?_, ?_, hperm, ?_⟩
  · rw [← and_assoc, ← mem_live]
    constructor
    · exact h.live_of_peek?
    · rintro ⟨hlive, hstored⟩
      rw [← h.stored_eq i hlive]
      exact hstored
  · rw [hsize, hperm.length_eq, h.length_elements]
  · intro i hstale
    exact Policy.unchanged_of_stale (h.peek?_eq_none hstale)

/-! ## What an operation preserves -/

/-- Elements leave, and nothing comes in: the slots of those that left are vacated. -/
theorem retire (h : Tracks r p aged) {r' : Register α} {action : Policy.Action α}
    (gone : List Index) (hissued : r'.issued = r.issued)
    (hdeparted : r'.departed = gone ++ r.departed) (hgone : ∀ i ∈ gone, i ∈ r.live)
    (hretires : Retires p.stamp (p.act action).stamp)
    (hlive : ∀ i, ((p.act action).peek? i).isSome = true ↔ i ∈ r.live ∧ i ∉ gone)
    (hstored : ∀ i ∈ r.live, i ∉ gone → r'.stored i = (p.act action).peek? i) :
    Tracks r' (p.act action) fun slot => aged slot + p.vacates action slot := by
  have hlive' : ∀ i, i ∈ r'.live ↔ i ∈ r.live ∧ i ∉ gone := by
    intro i
    simp only [mem_live, hissued, hdeparted, List.mem_append]
    tauto
  have haged : Aged (p.act action).stamp (fun slot => aged slot + p.vacates action slot)
      (· ∈ r'.departed) := by
    refine h.ages.retire hretires fun i hi => ?_
    rw [hdeparted, List.mem_append] at hi
    rcases hi with hnew | hold
    · refine .inr ⟨h.stamp_of_live (hgone i hnew), fun hstays => ?_⟩
      exact ((hlive i).mp ((Policy.isSome_peek?_iff _ i).mpr hstays)).2 hnew
    · exact .inl hold
  refine ⟨h.sound.act action, h.builtIn.act action, hissued ▸ h.issued_nodup, fun i => ?_,
    fun i hi => ?_, haged.generation_eq, haged.generation_lt⟩
  · rw [hlive', hlive]
  · obtain ⟨hwas, hstays⟩ := (hlive' i).mp hi
    exact hstored i hwas hstays

theorem add (h : Tracks r p aged) (hfew : ∀ slot, aged slot < UInt32.size) (element : α) :
    (p.add element).1 ∉ r.issued ∧
      Tracks ((r.issue (p.add element).1).store (p.add element).1 element) (p.act (.add element))
        fun slot => aged slot + p.vacates (.add element) slot := by
  obtain ⟨hadds, hfollows⟩ := h.sound.add element
  obtain ⟨hvacant, hstamp⟩ := h.sound.stamp_add element
  generalize hi : (p.add element).1 = i at *
  have hpeek : (p.act (.add element)).peek? = Function.update p.peek? i (some element) :=
    hadds.after
  have hstamp' : (p.act (.add element)).stamp =
      Function.update p.stamp i.slot (true, i.generation) := hstamp
  have hnotDeparted : i ∉ r.departed := h.ages.fresh hvacant (hfew i.slot)
  have hnotLive : i ∉ r.live := by
    rw [h.live_iff, hadds.fresh]
    exact Bool.false_ne_true
  have hfresh : i ∉ r.issued := fun hissued => hnotLive (mem_live.mpr ⟨hissued, hnotDeparted⟩)
  have hlive : ∀ j, j ∈ ((r.issue i).store i element).live ↔ j ∈ r.live ∨ j = i := by
    intro j
    simp only [mem_live, issue, store, List.mem_append, List.mem_singleton]
    constructor
    · tauto
    · rintro (hj | rfl)
      · exact ⟨.inl hj.1, hj.2⟩
      · exact ⟨.inr rfl, hnotDeparted⟩
  have haged : Aged (p.act (.add element)).stamp
      (fun slot => aged slot + p.vacates (.add element) slot) (· ∈ r.departed) :=
    h.ages.insert hvacant hstamp' fun _ => id
  refine ⟨hfresh, hfollows.sound, h.builtIn.act _, ?_, fun j => ?_, fun j hj => ?_,
    haged.generation_eq, haged.generation_lt⟩
  · exact List.Nodup.append h.issued_nodup (List.nodup_singleton i) (by simpa using hfresh)
  · rw [hlive, hpeek, h.live_iff]
    by_cases hj : j = i <;> simp [hj]
  · rw [hpeek]
    by_cases hji : j = i
    · simp [hji, store]
    · have hstored := h.stored_eq j (((hlive j).mp hj).resolve_right hji)
      simpa [hji, store, issue] using hstored

/-- Nothing happens to any element. -/
theorem stay (h : Tracks r p aged) {action : Policy.Action α}
    (hretires : Retires p.stamp (p.act action).stamp) (hpeek : (p.act action).peek? = p.peek?) :
    Tracks r (p.act action) fun slot => aged slot + p.vacates action slot := by
  refine h.retire [] rfl rfl (by simp) hretires ?_ ?_
  · intro i
    rw [hpeek, h.live_iff]
    simp
  · intro i hi _
    rw [hpeek]
    exact h.stored_eq i hi

/-- One element leaves. -/
theorem leave (h : Tracks r p aged) {action : Policy.Action α}
    (hretires : Retires p.stamp (p.act action).stamp) (hlive : i ∈ r.live)
    (hpeek : (p.act action).peek? = Function.update p.peek? i none) :
    Tracks (r.depart [i]) (p.act action) fun slot => aged slot + p.vacates action slot := by
  refine h.retire [i] rfl rfl (by simpa using hlive) hretires ?_ ?_
  · intro j
    rw [hpeek, h.live_iff]
    by_cases hj : j = i <;> simp [hj]
  · intro j hj hstays
    rw [hpeek, Function.update_of_ne (by simpa using hstays)]
    exact h.stored_eq j hj

theorem update (h : Tracks r p aged) (i : Index) (element : α) :
    ∃ r', r.Step (.update i element) (.updated (p.update i element).1) r' ∧
      Tracks r' (p.act (.update i element))
        fun slot => aged slot + p.vacates (.update i element) slot := by
  have hretires : Retires p.stamp (p.act (.update i element)).stamp := p.retires_update i element
  by_cases hlive : i ∈ r.live
  · obtain ⟨hanswer, hafter⟩ := h.sound.replaces h.builtIn i element
    obtain ⟨old, -, hold⟩ := h.exists_stored hlive
    rw [hold] at hanswer hafter
    have hpeek : (p.act (.update i element)).peek? =
        Function.update p.peek? i (some element) := hafter
    rw [hanswer]
    refine ⟨_, .updated element hlive, h.retire [] rfl rfl (by simp) hretires ?_ ?_⟩
    · intro j
      rw [hpeek, h.live_iff]
      by_cases hj : j = i <;> simp [hj, hold]
    · intro j hj _
      rw [hpeek, store]
      by_cases hji : j = i
      · simp [hji]
      · simpa [hji] using h.stored_eq j hj
  · have hunchanged := (Policy.unchanged_of_stale (h.peek?_eq_none hlive)).2.1 element
    rw [hunchanged]
    refine ⟨r, .notUpdated element hlive, h.stay hretires ?_⟩
    rw [Policy.act, hunchanged]

theorem remove (h : Tracks r p aged) (i : Index) :
    ∃ r', r.Step (.remove i) (.element (p.remove i).1) r' ∧
      Tracks r' (p.act (.remove i)) fun slot => aged slot + p.vacates (.remove i) slot := by
  have hretires : Retires p.stamp (p.act (.remove i)).stamp := p.retires_remove i
  obtain ⟨⟨hanswer, hafter⟩, -⟩ := h.sound.remove i
  rw [hanswer]
  by_cases hlive : i ∈ r.live
  · obtain ⟨element, hstored, hpeek⟩ := h.exists_stored hlive
    rw [hpeek]
    exact ⟨_, .removed hlive hstored, h.leave hretires hlive hafter⟩
  · have hnone := h.peek?_eq_none hlive
    rw [hnone]
    refine ⟨r, .notRemoved hlive, h.stay hretires ?_⟩
    exact hafter.trans (Function.update_eq_self_iff.mpr hnone.symm)

theorem evict (h : Tracks r p aged) :
    ∃ r', r.Step .evict (.element p.evict.1) r' ∧
      Tracks r' (p.act .evict) fun slot => aged slot + p.vacates .evict slot := by
  have hretires : Retires p.stamp (p.act .evict).stamp := p.retires_evict
  have hevicts := h.sound.evict.2.1 h.builtIn.yielding
  cases hvictim : p.evict.1 with
  | none =>
      rw [hvictim] at hevicts
      obtain ⟨hnone, hafter⟩ := hevicts.of_none
      refine ⟨r, .exhausted ?_, h.stay hretires hafter⟩
      refine List.eq_nil_iff_forall_not_mem.mpr fun i hlive => ?_
      rw [h.live_iff, hnone] at hlive
      exact Bool.false_ne_true hlive
  | some element =>
      rw [hvictim] at hevicts
      obtain ⟨i, hi, hafter⟩ := hevicts.of_some
      obtain ⟨hlive, hstored⟩ := h.live_of_peek? hi
      exact ⟨_, .evicted hlive hstored, h.leave hretires hlive hafter⟩

theorem clear (h : Tracks r p aged) :
    ∃ r', r.Step .clear (.elements p.clear.1) r' ∧
      Tracks r' (p.act .clear) fun slot => aged slot + p.vacates .clear slot := by
  obtain ⟨hlists, hafter, -⟩ := h.sound.clear
  have hpeek : (p.act .clear).peek? = fun _ => none := hafter
  refine ⟨_, .cleared (hlists.perm h.lists_elements), ?_⟩
  refine h.retire r.live rfl rfl (fun _ => id) p.retires_clear ?_ ?_
  · intro i
    rw [hpeek]
    simp
  · intro i hlive hstays
    exact absurd hlive hstays

theorem step (h : Tracks r p aged) (hfew : ∀ slot, aged slot < UInt32.size)
    (action : Policy.Action α) :
    ∃ r', r.Step action (p.answer action) r' ∧
      Tracks r' (p.act action) fun slot => aged slot + p.vacates action slot := by
  cases action with
  | add element =>
      obtain ⟨hfresh, htracks⟩ := h.add hfew element
      exact ⟨_, .added element hfresh, htracks⟩
  | touch i => exact ⟨r, .touched i, h.stay (p.retires_touch i) (h.sound.touch i).1⟩
  | update i element => exact h.update i element
  | remove i => exact h.remove i
  | evict => exact h.evict
  | clear => exact h.clear

/-! ## Runs -/

theorem traces (h : Tracks r p aged) (actions : List (Policy.Action α))
    (hfew : ∀ slot, aged slot + p.removals actions slot < UInt32.size) : Traces r p actions := by
  induction actions generalizing r p aged with
  | nil => exact .done h.describes
  | cons action actions ih =>
      have hnow : ∀ slot, aged slot < UInt32.size :=
        fun slot => (Nat.le_add_right _ _).trans_lt (hfew slot)
      obtain ⟨r', hstep, htracks⟩ := h.step hnow action
      refine .step h.describes hstep (ih htracks fun slot => ?_)
      rw [Nat.add_assoc]
      exact hfew slot

end Tracks

theorem tracks_start (hstart : p.Starts) (hbuiltIn : p.BuiltIn) :
    Tracks ({} : Register α) p fun _ => 0 where
  sound := hstart.sound
  builtIn := hbuiltIn
  issued_nodup := List.nodup_nil
  live_iff i := by
    rw [hstart.peek?]
    simp [live]
  stored_eq i hi := absurd hi (by simp [live])
  generation_eq slot := by
    cases hstart with
    | builtIn choice => cases choice <;> rfl
    | random generator => rfl
    | forgetful discipline => exact hbuiltIn.elim
    | stubborn discipline => exact hbuiltIn.elim
  generation_lt i hi := absurd hi (by simp)

/-- Every run of a built-in policy from empty keeps to the register, as long as no slot
is vacated so often that its generation comes round. -/
theorem traces_of_builtIn (hstart : p.Starts) (hbuiltIn : p.BuiltIn)
    (actions : List (Policy.Action α))
    (hfew : ∀ slot, p.removals actions slot < UInt32.size) : Traces {} p actions := by
  refine (tracks_start hstart hbuiltIn).traces actions fun slot => ?_
  rw [Nat.zero_add]
  exact hfew slot

/-- The theorem at a ring in which a slot is vacated and used again. -/
theorem traces_clock :
    Traces {} (PolicyChoice.clock.build : Policy Nat)
      [.add 1, .add 2, .touch ⟨0, 0⟩, .remove ⟨1, 0⟩, .add 3, .update ⟨1, 0⟩ 9, .evict,
        .clear] := by
  refine traces_of_builtIn (.builtIn .clock) trivial _ fun slot => ?_
  exact (Policy.removals_le_length _ _ slot).trans_lt (by decide)

end Register

end BoundedCache
