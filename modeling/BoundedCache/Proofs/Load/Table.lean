import BoundedCache.Load.Coordinator
import BoundedCache.Proofs.Enumeration

/-!
# What happens to the table of loads

Of the things that happen to a coordinator only four change its table: a load begins
(`begin`), its waiters are counted anew (`recount`), it gets its answer (`resolve`), or it
gets the answer that it was cancelled, and that goes on record.  The first part of the
module brings the operations down to these, and says what the table shows afterwards.

The second part says what an operation leaves alone.  Apart from a new load beginning, it
`Proceeds`: loads go out of the table and answers are added.  And it `Spares` every load
that it does not name by number, whichever key it names.
-/

namespace BoundedCache.Coordinator

variable {K ρ : Type} {c c' : Coordinator K ρ} {key other : K} {id : Nat} {load : PendingLoad}
  {answer cancelledAnswer : ρ}

/-! ## Draining, and cancelling everything -/

theorem mayDrain_eq (c : Coordinator K ρ) :
    c.mayDrain = { c with lifecycle := c.mayDrain.lifecycle } := by
  unfold mayDrain
  split <;> rfl

@[simp] theorem answers_mayDrain (c : Coordinator K ρ) : c.mayDrain.answers = c.answers := by
  rw [mayDrain_eq]

@[simp] theorem cancelled_mayDrain (c : Coordinator K ρ) :
    c.mayDrain.cancelled = c.cancelled := by
  rw [mayDrain_eq]

theorem foldl_cancel (c : Coordinator K ρ) (cancelledAnswer : ρ) (ids : List Nat) :
    ids.foldl (fun (c : Coordinator K ρ) id => c.cancel cancelledAnswer id) c =
      { c with
        answers := (ids.map fun id => (id, cancelledAnswer)).reverse ++ c.answers
        cancelled := ids.reverse ++ c.cancelled } := by
  induction ids generalizing c with
  | nil => rfl
  | cons id ids ih =>
      rw [List.foldl_cons, ih]
      simp [Coordinator.cancel]

theorem cancelAll_eq (c : Coordinator K ρ) (cancelledAnswer : ρ) :
    let ids := c.pending.map fun (_, load) => load.id
    c.cancelAll cancelledAnswer = (ids,
      { c with
        pending := []
        answers := (ids.map fun id => (id, cancelledAnswer)).reverse ++ c.answers
        cancelled := ids.reverse ++ c.cancelled }.mayDrain) := by
  rw [Coordinator.cancelAll, foldl_cancel]

theorem cancelled_cancelAll (c : Coordinator K ρ) (cancelledAnswer : ρ) :
    (c.cancelAll cancelledAnswer).2.cancelled =
      (c.cancelAll cancelledAnswer).1.reverse ++ c.cancelled := by
  rw [cancelAll_eq, cancelled_mayDrain]

variable [DecidableEq K]

/-! ## The table -/

theorem lookup_erase (pending : List (K × PendingLoad)) (key other : K) :
    (erase pending key).lookup other = if other = key then none else pending.lookup other := by
  induction pending with
  | nil => simp [erase]
  | cons entry rest ih =>
      obtain ⟨k, load⟩ := entry
      unfold erase at ih ⊢
      by_cases hk : k = key
      · rw [List.filter_cons_of_neg (by simpa using hk), ih]
        by_cases hother : other = key
        · rw [if_pos hother, if_pos hother]
        · rw [if_neg hother, if_neg hother, List.lookup_cons,
            beq_false_of_ne fun h => hother (h.trans hk)]
      · rw [List.filter_cons_of_pos (by simpa using hk), List.lookup_cons, List.lookup_cons]
        by_cases hother : other = k
        · subst hother
          simp [hk]
        · rw [beq_false_of_ne hother]
          exact ih

/-- Changing the load of one key leaves the loads of all others alone. -/
theorem lookup_change (pending : List (K × PendingLoad)) (key other : K)
    (change : PendingLoad → PendingLoad) :
    (pending.map fun (k, l) => if k = key then (k, change l) else (k, l)).lookup other =
      if other = key then (pending.lookup key).map change else pending.lookup other := by
  induction pending with
  | nil => simp
  | cons entry rest ih =>
      obtain ⟨k, load⟩ := entry
      by_cases hk : k = key
      · subst hk
        by_cases hother : other = k
        · simp [hother]
        · simp_all [List.lookup_cons, beq_false_of_ne hother]
      · have hkey : ¬ key = k := fun h => hk h.symm
        by_cases hother : other = k
        · subst hother
          simp [hk]
        · simp_all [List.lookup_cons, beq_false_of_ne hother, beq_false_of_ne hkey]

theorem isCurrent_iff :
    c.isCurrent key id = true ↔ ∃ load, c.pending? key = some load ∧ load.id = id := by
  unfold isCurrent
  cases c.pending? key with
  | none => simp
  | some load => simp

theorem isCurrent_of_pending? (hload : c.pending? key = some load) :
    c.isCurrent key id = decide (load.id = id) := by
  unfold isCurrent
  rw [hload]
  rfl

/-! ## What the operations come down to -/

/-- The waiters of the load of `key` are counted anew. -/
def recount (c : Coordinator K ρ) (key : K) (count : Nat → Nat) : Coordinator K ρ :=
  { c with
    pending := c.pending.map fun (other, l) =>
      if other = key then (other, { l with waiters := count l.waiters }) else (other, l) }

/-- The load of `key` is pending no more and has an answer. -/
def resolve (c : Coordinator K ρ) (key : K) (id : Nat) (answer : ρ) : Coordinator K ρ :=
  { c with pending := erase c.pending key, answers := (id, answer) :: c.answers }

/-- A load of `key` begins, with one waiter. -/
def begin (c : Coordinator K ρ) (key : K) : Coordinator K ρ :=
  { c with pending := c.pending ++ [(key, ⟨c.nextId, 1⟩)], nextId := c.nextId + 1 }

@[simp] theorem pending?_mayDrain (c : Coordinator K ρ) (key : K) :
    c.mayDrain.pending? key = c.pending? key := by
  rw [mayDrain_eq]
  rfl

theorem attach_of_free (hfree : c.pending? key = none) (hup : c.lifecycle.isDown = false) :
    c.attach key = (.started ⟨key, c.nextId⟩, c.begin key) := by
  rw [attach, hfree]
  dsimp only
  rw [hup, if_neg Bool.false_ne_true]
  rfl

theorem attach_cases (c : Coordinator K ρ) (key : K) :
    (∃ load, c.pending? key = some load ∧
      c.attach key = (.joined ⟨key, load.id⟩, c.recount key (· + 1))) ∨
    (c.pending? key = none ∧ c.lifecycle.isDown = true ∧
      c.attach key = (.refused (.unavailable c.lifecycle.name), c)) ∨
    (c.pending? key = none ∧ c.lifecycle.isDown = false ∧
      c.attach key = (.started ⟨key, c.nextId⟩, c.begin key)) := by
  unfold attach
  cases hload : c.pending? key with
  | some load => exact .inl ⟨load, rfl, rfl⟩
  | none =>
      cases hdown : c.lifecycle.isDown with
      | true => exact .inr (.inl ⟨rfl, rfl, rfl⟩)
      | false => exact .inr (.inr ⟨rfl, rfl, rfl⟩)

theorem complete_of_current (hcurrent : c.isCurrent key id = true) (answer : ρ) :
    c.complete key id answer = (c.resolve key id answer).mayDrain := by
  rw [complete, if_pos hcurrent]
  rfl

theorem complete_of_late (hlate : c.isCurrent key id = false) (answer : ρ) :
    c.complete key id answer = c := by
  rw [complete, hlate]
  rfl

/-- Either the answer is late, or the load goes and has it. -/
theorem complete_cases (c : Coordinator K ρ) (key : K) (id : Nat) (answer : ρ) :
    (c.isCurrent key id = false ∧ c.complete key id answer = c) ∨
    ∃ load, c.pending? key = some load ∧ load.id = id ∧
      c.complete key id answer = (c.resolve key load.id answer).mayDrain := by
  cases hcurrent : c.isCurrent key id with
  | false => exact .inl ⟨rfl, complete_of_late hcurrent answer⟩
  | true =>
      obtain ⟨load, hload, rfl⟩ := isCurrent_iff.mp hcurrent
      exact .inr ⟨load, hload, rfl, complete_of_current hcurrent answer⟩

theorem detach_of_late {handle : LoadHandle K} (hlate : c.isCurrent handle.key handle.id = false)
    (cancelledAnswer : ρ) : c.detach cancelledAnswer handle = ([], c) := by
  unfold detach
  cases hload : c.pending? handle.key with
  | none => rfl
  | some load =>
      rw [isCurrent_of_pending? hload, decide_eq_false_iff_not] at hlate
      simp [hlate]

theorem detach_of_many {handle : LoadHandle K} (hload : c.pending? handle.key = some load)
    (hid : load.id = handle.id) (hmany : 1 < load.waiters) (cancelledAnswer : ρ) :
    c.detach cancelledAnswer handle = ([], c.recount handle.key (· - 1)) := by
  unfold detach
  rw [hload]
  simp only [hid, hmany, if_true]
  rfl

theorem detach_of_last {handle : LoadHandle K} (hload : c.pending? handle.key = some load)
    (hid : load.id = handle.id) (hlast : ¬ 1 < load.waiters) (cancelledAnswer : ρ) :
    c.detach cancelledAnswer handle = ([load.id],
      { c.resolve handle.key load.id cancelledAnswer with
        cancelled := load.id :: c.cancelled }.mayDrain) := by
  unfold detach
  rw [hload]
  simp only [hid, hlast, if_true, if_false]
  rfl

/-- A waiter that goes is late, or one of several, or the last one. -/
theorem detach_cases (c : Coordinator K ρ) (cancelledAnswer : ρ) (handle : LoadHandle K) :
    (c.isCurrent handle.key handle.id = false ∧ c.detach cancelledAnswer handle = ([], c)) ∨
    (∃ load, c.pending? handle.key = some load ∧ load.id = handle.id ∧ 1 < load.waiters ∧
      c.detach cancelledAnswer handle = ([], c.recount handle.key (· - 1))) ∨
    ∃ load, c.pending? handle.key = some load ∧ load.id = handle.id ∧ ¬ 1 < load.waiters ∧
      c.detach cancelledAnswer handle = ([load.id],
        { c.resolve handle.key load.id cancelledAnswer with
          cancelled := load.id :: c.cancelled }.mayDrain) := by
  cases hcurrent : c.isCurrent handle.key handle.id with
  | false => exact .inl ⟨rfl, detach_of_late hcurrent cancelledAnswer⟩
  | true =>
      obtain ⟨load, hload, hid⟩ := isCurrent_iff.mp hcurrent
      by_cases hmany : 1 < load.waiters
      · exact .inr (.inl ⟨load, hload, hid, hmany, detach_of_many hload hid hmany _⟩)
      · exact .inr (.inr ⟨load, hload, hid, hmany, detach_of_last hload hid hmany _⟩)

theorem pending?_recount (c : Coordinator K ρ) (key other : K) (count : Nat → Nat) :
    (c.recount key count).pending? other =
      if other = key then (c.pending? key).map fun l => { l with waiters := count l.waiters }
      else c.pending? other :=
  lookup_change c.pending key other fun l => { l with waiters := count l.waiters }

/-- Counting waiters ends no load and begins none. -/
theorem isCurrent_recount (c : Coordinator K ρ) (key other : K) (count : Nat → Nat) (id : Nat) :
    (c.recount key count).isCurrent other id = c.isCurrent other id := by
  unfold isCurrent
  rw [pending?_recount]
  by_cases hother : other = key
  · rw [if_pos hother, hother]
    cases c.pending? key <;> rfl
  · rw [if_neg hother]

theorem pending?_resolve (c : Coordinator K ρ) (key other : K) (id : Nat) (answer : ρ) :
    (c.resolve key id answer).pending? other = if other = key then none else c.pending? other :=
  lookup_erase _ _ _

theorem pending?_begin (hfree : c.pending? key = none) (other : K) :
    (c.begin key).pending? other =
      if other = key then some ⟨c.nextId, 1⟩ else c.pending? other := by
  unfold begin pending?
  rw [List.lookup_append]
  by_cases hother : other = key
  · have hnone : c.pending.lookup key = none := hfree
    simp [hother, hnone]
  · simp [hother, List.lookup_cons, beq_false_of_ne hother]

theorem answer?_resolve (c : Coordinator K ρ) (key : K) (id other : Nat) (answer : ρ) :
    (c.resolve key id answer).answer? other =
      if other = id then some answer else c.answer? other := by
  unfold answer? resolve
  rw [List.lookup_cons]
  by_cases hother : other = id
  · simp [hother]
  · simp [hother, beq_false_of_ne hother]

/-- A load that is pending gets the answer that it is given. -/
theorem answer?_complete (hcurrent : c.isCurrent key id = true) (answer : ρ) :
    (c.complete key id answer).answer? id = some answer := by
  rw [complete_of_current hcurrent, answer?, answers_mayDrain]
  exact (answer?_resolve c key id id answer).trans (if_pos rfl)

/-- A load that is given an answer is not pending afterwards. -/
theorem isCurrent_complete_self (c : Coordinator K ρ) (key : K) (id : Nat) (answer : ρ) :
    (c.complete key id answer).isCurrent key id = false := by
  rcases c.complete_cases key id answer with ⟨hlate, heq⟩ | ⟨load, -, -, heq⟩
  · rw [heq]
    exact hlate
  · rw [heq, isCurrent, pending?_mayDrain, pending?_resolve, if_pos rfl]

/-! ## What an operation leaves alone -/

/-- Loads may have ended meanwhile, and have answers then; none has begun. -/
structure Proceeds (c c' : Coordinator K ρ) : Prop where
  current : ∀ key id, c'.isCurrent key id = true → c.isCurrent key id = true
  answers : c.answers <:+ c'.answers

/-- The operation has nothing to do with the load of the handle. -/
structure Spares (handle : LoadHandle K) (c c' : Coordinator K ρ) : Prop where
  pending?_eq : c'.pending? handle.key = c.pending? handle.key
  answer?_eq : c'.answer? handle.id = c.answer? handle.id
  isCancelled_eq : c'.isCancelled handle.id = c.isCancelled handle.id

theorem Proceeds.refl (c : Coordinator K ρ) : Proceeds c c := ⟨fun _ _ => id, List.suffix_rfl⟩

theorem Proceeds.trans {c'' : Coordinator K ρ} (h : Proceeds c c') (h' : Proceeds c' c'') :
    Proceeds c c'' :=
  ⟨fun key id hcurrent => h.current key id (h'.current key id hcurrent),
    h.answers.trans h'.answers⟩

theorem Spares.refl (handle : LoadHandle K) (c : Coordinator K ρ) : Spares handle c c :=
  ⟨rfl, rfl, rfl⟩

theorem isCurrent_congr {key : K} (h : c'.pending? key = c.pending? key) (id : Nat) :
    c'.isCurrent key id = c.isCurrent key id := by
  rw [isCurrent, isCurrent, h]

theorem proceeds_mayDrain (c : Coordinator K ρ) : Proceeds c c.mayDrain where
  current key id hcurrent := by rwa [isCurrent_congr (pending?_mayDrain c key)] at hcurrent
  answers := by simp

theorem proceeds_resolve (c : Coordinator K ρ) (key : K) (id : Nat) (answer : ρ)
    (cancelled : List Nat) :
    Proceeds c { c.resolve key id answer with cancelled := cancelled } where
  current other id' hcurrent := by
    obtain ⟨load, hload, hid⟩ := isCurrent_iff.mp hcurrent
    have hpending := (pending?_resolve c key other id answer).symm.trans hload
    split at hpending
    · exact nomatch hpending
    · exact isCurrent_iff.mpr ⟨load, hpending, hid⟩
  answers := List.suffix_cons _ _

theorem proceeds_complete (c : Coordinator K ρ) (key : K) (id : Nat) (answer : ρ) :
    Proceeds c (c.complete key id answer) := by
  rcases c.complete_cases key id answer with ⟨-, heq⟩ | ⟨load, -, -, heq⟩
  · rw [heq]
    exact .refl c
  · rw [heq]
    exact (proceeds_resolve c key load.id answer c.cancelled).trans (proceeds_mayDrain _)

theorem proceeds_detach (c : Coordinator K ρ) (cancelledAnswer : ρ) (handle : LoadHandle K) :
    Proceeds c (c.detach cancelledAnswer handle).2 := by
  rcases c.detach_cases cancelledAnswer handle with
    ⟨-, heq⟩ | ⟨load, -, -, -, heq⟩ | ⟨load, -, -, -, heq⟩
  · rw [heq]
    exact .refl c
  · rw [heq]
    refine ⟨fun key id hcurrent => ?_, List.suffix_rfl⟩
    rwa [isCurrent_recount] at hcurrent
  · rw [heq]
    exact (proceeds_resolve c handle.key load.id cancelledAnswer _).trans (proceeds_mayDrain _)

theorem proceeds_cancelAll (c : Coordinator K ρ) (cancelledAnswer : ρ) :
    Proceeds c (c.cancelAll cancelledAnswer).2 := by
  rw [cancelAll_eq]
  refine Proceeds.trans ⟨fun key id hcurrent => ?_, List.suffix_append _ _⟩ (proceeds_mayDrain _)
  simp [isCurrent, pending?] at hcurrent

/-! ### Cancellations on record -/

theorem cancelled_complete (c : Coordinator K ρ) (key : K) (id : Nat) (answer : ρ) :
    (c.complete key id answer).cancelled = c.cancelled := by
  rcases c.complete_cases key id answer with ⟨-, heq⟩ | ⟨load, -, -, heq⟩
  · rw [heq]
  · rw [heq, cancelled_mayDrain]
    rfl

theorem cancelled_detach (c : Coordinator K ρ) (cancelledAnswer : ρ) (handle : LoadHandle K) :
    (c.detach cancelledAnswer handle).2.cancelled =
      (c.detach cancelledAnswer handle).1 ++ c.cancelled := by
  rcases c.detach_cases cancelledAnswer handle with
    ⟨-, heq⟩ | ⟨load, -, -, -, heq⟩ | ⟨load, -, -, -, heq⟩
  · rw [heq]
    rfl
  · rw [heq]
    rfl
  · rw [heq, cancelled_mayDrain]
    rfl

/-! ### Other loads -/

theorem spares_mayDrain (handle : LoadHandle K) (c : Coordinator K ρ) :
    Spares handle c c.mayDrain where
  pending?_eq := pending?_mayDrain c handle.key
  answer?_eq := by rw [answer?, answers_mayDrain]; rfl
  isCancelled_eq := by rw [isCancelled, cancelled_mayDrain]; rfl

theorem Spares.trans {handle : LoadHandle K} {c'' : Coordinator K ρ} (h : Spares handle c c')
    (h' : Spares handle c' c'') : Spares handle c c'' :=
  ⟨h'.pending?_eq.trans h.pending?_eq, h'.answer?_eq.trans h.answer?_eq,
    h'.isCancelled_eq.trans h.isCancelled_eq⟩

theorem spares_resolve (hload : c.pending? key = some load) {load' : PendingLoad}
    (hload' : c.pending? other = some load') (hid : load'.id ≠ load.id) (answer : ρ)
    {cancelled : List Nat} (hcancelled : load'.id ∈ cancelled ↔ load'.id ∈ c.cancelled) :
    Spares ⟨other, load'.id⟩ c { c.resolve key load.id answer with cancelled := cancelled } where
  pending?_eq := by
    refine (pending?_resolve c key other load.id answer).trans (if_neg ?_)
    rintro rfl
    rw [hload, Option.some_inj] at hload'
    exact hid (by rw [hload'])
  answer?_eq := (answer?_resolve c key load.id load'.id answer).trans (if_neg hid)
  isCancelled_eq := by simp [isCancelled, hcancelled]

theorem spares_complete (hload : c.pending? key = some load) (hid : id ≠ load.id) (other : K)
    (answer : ρ) : Spares ⟨key, load.id⟩ c (c.complete other id answer) := by
  rcases c.complete_cases other id answer with ⟨-, heq⟩ | ⟨load', hload', rfl, heq⟩
  · rw [heq]
    exact .refl _ c
  · rw [heq]
    exact (spares_resolve hload' hload hid.symm answer Iff.rfl).trans (spares_mayDrain _ _)

theorem spares_detach (hload : c.pending? key = some load) {handle : LoadHandle K}
    (hid : handle.id ≠ load.id) (cancelledAnswer : ρ) :
    Spares ⟨key, load.id⟩ c (c.detach cancelledAnswer handle).2 := by
  rcases c.detach_cases cancelledAnswer handle with
    ⟨-, heq⟩ | ⟨load', hload', hid', -, heq⟩ | ⟨load', hload', hid', -, heq⟩
  · rw [heq]
    exact .refl _ c
  · rw [heq]
    refine ⟨(pending?_recount _ _ _ _).trans (if_neg ?_), rfl, rfl⟩
    rintro rfl
    rw [hload, Option.some_inj] at hload'
    exact hid (by rw [← hid', hload'])
  · rw [heq]
    have hne : load.id ≠ load'.id := by rw [hid']; exact hid.symm
    refine (spares_resolve hload' hload hne cancelledAnswer ?_).trans (spares_mayDrain _ _)
    simp [hne]

end BoundedCache.Coordinator
