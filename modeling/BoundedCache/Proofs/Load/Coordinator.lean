import BoundedCache.Proofs.Load.Table

/-!
# Who waits for which load

`Serves` is what a coordinator keeps true of the handles that are still held, and of the
loads that have been started.  A load that is pending has no answer yet and counts its
handles, and every handle finds its load either pending, under its own key and number, or
answered.

There is one lemma for each change of the table, and the operations are made of these; to
cancel all loads is to cancel one after the other (`Serves.cancelLoads`).
-/

namespace BoundedCache.Coordinator

variable {K ρ : Type} [DecidableEq K] {c : Coordinator K ρ} {key other : K} {id : Nat}
  {load : PendingLoad} {answer cancelledAnswer : ρ}

/-! ## The invariant -/

/-- What holds of a pending load: it has begun once, it has no answer, and its waiters
are the handles that are held. -/
structure Waited (c : Coordinator K ρ) (handles started : List (LoadHandle K)) (key : K)
    (load : PendingLoad) : Prop where
  begun : ⟨key, load.id⟩ ∈ started
  unanswered : c.answer? load.id = none
  waiters_eq : load.waiters = handles.count ⟨key, load.id⟩
  waiters_pos : 0 < load.waiters

/-- What a coordinator keeps true of the handles held and of the loads started, if
cancelled loads get the answer `cancelledAnswer`. -/
structure Serves (c : Coordinator K ρ) (cancelledAnswer : ρ)
    (handles started : List (LoadHandle K)) : Prop where
  keys_nodup : (c.pending.map Prod.fst).Nodup
  ids_nodup : (started.map (·.id)).Nodup
  id_lt : ∀ handle ∈ started, handle.id < c.nextId
  waited : ∀ key load, c.pending? key = some load → c.Waited handles started key load
  answers_nodup : (c.answers.map Prod.fst).Nodup
  answered_lt : ∀ id, (c.answer? id).isSome = true → id < c.nextId
  cancelled_answer : ∀ id ∈ c.cancelled, c.answer? id = some cancelledAnswer
  held : ∀ handle ∈ handles,
    c.isCurrent handle.key handle.id = true ∨ (c.answer? handle.id).isSome = true

namespace Serves

variable {handles handles' started : List (LoadHandle K)} {handle : LoadHandle K}

theorem new (cancelledAnswer : ρ) : Serves ({} : Coordinator K ρ) cancelledAnswer [] [] where
  keys_nodup := List.nodup_nil
  ids_nodup := List.nodup_nil
  id_lt _ hmem := absurd hmem List.not_mem_nil
  waited _ _ hload := absurd hload (by simp [pending?])
  answers_nodup := List.nodup_nil
  answered_lt _ hanswer := absurd hanswer (by simp [answer?])
  cancelled_answer _ hmem := absurd hmem List.not_mem_nil
  held _ hmem := absurd hmem List.not_mem_nil

/-- The state of the cache is not a matter of the loads. -/
theorem inState (h : c.Serves cancelledAnswer handles started) (state : Lifecycle) :
    { c with lifecycle := state }.Serves cancelledAnswer handles started where
  keys_nodup := h.keys_nodup
  ids_nodup := h.ids_nodup
  id_lt := h.id_lt
  waited key load hload :=
    let hwaited := h.waited key load hload
    ⟨hwaited.begun, hwaited.unanswered, hwaited.waiters_eq, hwaited.waiters_pos⟩
  answers_nodup := h.answers_nodup
  answered_lt := h.answered_lt
  cancelled_answer := h.cancelled_answer
  held := h.held

theorem mayDrain (h : c.Serves cancelledAnswer handles started) :
    c.mayDrain.Serves cancelledAnswer handles started := by
  rw [mayDrain_eq]
  exact h.inState _

theorem perm (h : c.Serves cancelledAnswer handles started) (hperm : handles.Perm handles') :
    c.Serves cancelledAnswer handles' started where
  keys_nodup := h.keys_nodup
  ids_nodup := h.ids_nodup
  id_lt := h.id_lt
  waited key load hload := by
    obtain ⟨hbegun, hunanswered, hwaiters, hpos⟩ := h.waited key load hload
    exact ⟨hbegun, hunanswered, hwaiters.trans (hperm.count_eq _), hpos⟩
  answers_nodup := h.answers_nodup
  answered_lt := h.answered_lt
  cancelled_answer := h.cancelled_answer
  held handle hmem := h.held handle (hperm.mem_iff.mpr hmem)

/-! ## What one load has to do with another -/

/-- Two keys are never served by one load. -/
theorem key_eq_of_id_eq (h : c.Serves cancelledAnswer handles started) {load' : PendingLoad}
    (hload : c.pending? key = some load) (hload' : c.pending? other = some load')
    (hid : load.id = load'.id) : key = other := by
  have hhandle := List.inj_on_of_nodup_map h.ids_nodup (h.waited key load hload).begun
    (h.waited other load' hload').begun hid
  exact congrArg LoadHandle.key hhandle

theorem pending_lt (h : c.Serves cancelledAnswer handles started)
    (hload : c.pending? key = some load) : load.id < c.nextId :=
  h.id_lt _ (h.waited key load hload).begun

theorem not_isCancelled (h : c.Serves cancelledAnswer handles started)
    (hload : c.pending? key = some load) : c.isCancelled load.id = false := by
  rw [isCancelled, List.contains_eq_mem, decide_eq_false_iff_not]
  intro hcancelled
  have hanswer := h.cancelled_answer _ hcancelled
  rw [(h.waited key load hload).unanswered] at hanswer
  exact Option.some_ne_none _ hanswer.symm

/-- A load with an answer is pending no more. -/
theorem isCurrent_of_answered (h : c.Serves cancelledAnswer handles started)
    (hanswer : (c.answer? id).isSome = true) (key : K) : c.isCurrent key id = false := by
  rw [Bool.eq_false_iff]
  intro hcurrent
  obtain ⟨load, hload, rfl⟩ := isCurrent_iff.mp hcurrent
  rw [(h.waited key load hload).unanswered] at hanswer
  exact Bool.false_ne_true hanswer

/-! ## The changes of the table -/

theorem begin (h : c.Serves cancelledAnswer handles started) (hfree : c.pending? key = none) :
    (c.begin key).Serves cancelledAnswer (⟨key, c.nextId⟩ :: handles)
      (⟨key, c.nextId⟩ :: started) := by
  -- nothing has the new number yet: neither a load, nor an answer, nor a handle
  have hunheard : c.answer? c.nextId = none := by
    rw [← Option.isNone_iff_eq_none, ← Option.isSome_eq_false_iff, Bool.eq_false_iff]
    exact fun hanswer => Nat.lt_irrefl _ (h.answered_lt _ hanswer)
  have hunheld : (⟨key, c.nextId⟩ : LoadHandle K) ∉ handles := by
    intro hmem
    rcases h.held _ hmem with hcurrent | hanswer
    · obtain ⟨load, hload, -⟩ := isCurrent_iff.mp hcurrent
      rw [hfree] at hload
      exact nomatch hload
    · rw [hunheard] at hanswer
      exact Bool.false_ne_true hanswer
  refine ⟨?_, ?_, ?_, ?_, h.answers_nodup, ?_, h.cancelled_answer, ?_⟩
  · show ((c.pending ++ [(key, _)]).map Prod.fst).Nodup
    rw [List.map_append]
    refine List.Nodup.append h.keys_nodup (List.nodup_singleton key) ?_
    refine List.disjoint_singleton.mpr ?_
    intro hmem
    obtain ⟨⟨k, load⟩, hentry, rfl⟩ := List.mem_map.mp hmem
    have hload : c.pending? k = some load :=
      ((Enumerates.lookup h.keys_nodup).mem_iff k load).mp hentry
    rw [hfree] at hload
    exact nomatch hload
  · rw [List.map_cons, List.nodup_cons]
    refine ⟨?_, h.ids_nodup⟩
    intro hmem
    obtain ⟨handle, hhandle, hid⟩ := List.mem_map.mp hmem
    exact absurd (h.id_lt handle hhandle) (by simp [hid])
  · intro handle hmem
    show handle.id < c.nextId + 1
    rcases List.mem_cons.mp hmem with rfl | hmem
    · exact Nat.lt_succ_self _
    · exact Nat.lt_succ_of_lt (h.id_lt handle hmem)
  · intro k load hload
    rw [pending?_begin hfree] at hload
    by_cases hk : k = key
    · subst hk
      rw [if_pos rfl, Option.some_inj] at hload
      subst hload
      refine ⟨List.mem_cons_self, hunheard, ?_, Nat.one_pos⟩
      rw [List.count_cons_self, List.count_eq_zero.mpr hunheld]
    · rw [if_neg hk] at hload
      obtain ⟨hbegun, hunanswered, hwaiters, hpos⟩ := h.waited k load hload
      refine ⟨List.mem_cons_of_mem _ hbegun, hunanswered, ?_, hpos⟩
      rw [List.count_cons_of_ne (by simp [Ne.symm hk]), hwaiters]
  · intro id hanswer
    exact Nat.lt_succ_of_lt (h.answered_lt id hanswer)
  · intro handle hmem
    rw [isCurrent_iff, pending?_begin hfree]
    rcases List.mem_cons.mp hmem with rfl | hmem
    · exact .inl ⟨_, if_pos rfl, rfl⟩
    · refine (h.held handle hmem).imp_left fun hcurrent => ?_
      obtain ⟨load, hload, hid⟩ := isCurrent_iff.mp hcurrent
      refine ⟨load, ?_, hid⟩
      rw [if_neg, hload]
      rintro rfl
      rw [hfree] at hload
      exact nomatch hload

/-- The waiters of a pending load change in number, and so do its handles. -/
theorem recount (h : c.Serves cancelledAnswer handles started)
    (hload : c.pending? key = some load)
    (count : Nat → Nat) (hcount : count load.waiters = handles'.count ⟨key, load.id⟩)
    (hpos : 0 < count load.waiters)
    (hsame : ∀ handle, handle ≠ ⟨key, load.id⟩ → handles'.count handle = handles.count handle) :
    (c.recount key count).Serves cancelledAnswer handles' started := by
  refine ⟨?_, h.ids_nodup, h.id_lt, ?_, h.answers_nodup, h.answered_lt, h.cancelled_answer, ?_⟩
  · have hkeys : (c.recount key count).pending.map Prod.fst = c.pending.map Prod.fst := by
      unfold Coordinator.recount
      rw [List.map_map]
      refine List.map_congr_left fun entry _ => ?_
      simp only [Function.comp_apply]
      split <;> rfl
    rw [hkeys]
    exact h.keys_nodup
  · intro k load' hload'
    rw [pending?_recount] at hload'
    by_cases hk : k = key
    · subst hk
      rw [if_pos rfl, hload, Option.map_some, Option.some_inj] at hload'
      subst hload'
      have hwaited := h.waited k load hload
      exact ⟨hwaited.begun, hwaited.unanswered, hcount, hpos⟩
    · rw [if_neg hk] at hload'
      obtain ⟨hbegun, hunanswered, hwaiters, hpos⟩ := h.waited k load' hload'
      refine ⟨hbegun, hunanswered, ?_, hpos⟩
      rw [hwaiters, hsame _ (by simp [hk])]
  · intro handle hmem
    rw [isCurrent_recount]
    by_cases hhandle : handle = ⟨key, load.id⟩
    · subst hhandle
      exact .inl (isCurrent_iff.mpr ⟨load, hload, rfl⟩)
    · refine h.held handle (List.count_pos_iff.mp ?_)
      rw [← hsame handle hhandle]
      exact List.count_pos_iff.mpr hmem

/-- A pending load gets an answer; it may be that it was cancelled. -/
theorem resolve (h : c.Serves cancelledAnswer handles started)
    (hload : c.pending? key = some load)
    {answer : ρ} {cancelled : List Nat}
    (hcancelled : ∀ id ∈ cancelled, id ∈ c.cancelled ∨ id = load.id ∧ answer = cancelledAnswer) :
    { c.resolve key load.id answer with cancelled := cancelled }.Serves cancelledAnswer handles
      started := by
  have hunanswered := (h.waited key load hload).unanswered
  have hanswer : ∀ id, (c.resolve key load.id answer).answer? id =
      if id = load.id then some answer else c.answer? id :=
    fun id => answer?_resolve c key load.id id answer
  -- answers that there were stay
  have hstays : ∀ id, (c.answer? id).isSome = true →
      (c.resolve key load.id answer).answer? id = c.answer? id := by
    intro id hsome
    rw [hanswer, if_neg]
    rintro rfl
    rw [hunanswered] at hsome
    exact Bool.false_ne_true hsome
  refine ⟨?_, h.ids_nodup, h.id_lt, ?_, ?_, ?_, ?_, ?_⟩
  · exact (List.filter_sublist.map Prod.fst).nodup h.keys_nodup
  · intro k load' hload'
    have hpending : (if k = key then none else c.pending? k) = some load' :=
      (pending?_resolve c key k load.id answer).symm.trans hload'
    by_cases hk : k = key
    · rw [if_pos hk] at hpending
      exact nomatch hpending
    · rw [if_neg hk] at hpending
      obtain ⟨hbegun, hunanswered', hwaiters, hpos⟩ := h.waited k load' hpending
      refine ⟨hbegun, (hanswer load'.id).trans ?_, hwaiters, hpos⟩
      rw [if_neg fun hid => hk (h.key_eq_of_id_eq hpending hload hid), hunanswered']
  · show (((load.id, answer) :: c.answers).map Prod.fst).Nodup
    rw [List.map_cons, List.nodup_cons]
    refine ⟨?_, h.answers_nodup⟩
    intro hmem
    obtain ⟨entry, hentry, hid⟩ := List.mem_map.mp hmem
    have hnone := List.lookup_eq_none_iff.mp hunanswered entry hentry
    rw [hid] at hnone
    simp at hnone
  · intro id hsome
    have hsome' : ((c.resolve key load.id answer).answer? id).isSome = true := hsome
    rw [hanswer] at hsome'
    by_cases hid : id = load.id
    · rw [hid]
      exact h.pending_lt hload
    · rw [if_neg hid] at hsome'
      exact h.answered_lt id hsome'
  · intro id hmem
    refine Eq.trans (hanswer id) ?_
    rcases hcancelled id hmem with hold | ⟨rfl, rfl⟩
    · have hthere := h.cancelled_answer id hold
      rw [← hanswer, hstays id (by rw [hthere]; rfl), hthere]
    · rw [if_pos rfl]
  · intro handle hmem
    by_cases hid : handle.id = load.id
    · refine .inr ?_
      show ((c.resolve key load.id answer).answer? handle.id).isSome = true
      rw [hanswer, if_pos hid]
      rfl
    · rcases h.held handle hmem with hcurrent | hsome
      · refine .inl ?_
        obtain ⟨load', hload', hid'⟩ := isCurrent_iff.mp hcurrent
        refine isCurrent_iff.mpr ⟨load',
          (pending?_resolve c key handle.key load.id answer).trans ?_, hid'⟩
        rw [if_neg, hload']
        intro hkey
        rw [hkey, hload, Option.some_inj] at hload'
        exact hid (by rw [← hid', hload'])
      · refine .inr ?_
        show ((c.resolve key load.id answer).answer? handle.id).isSome = true
        rw [hstays _ hsome]
        exact hsome

theorem cancel (h : c.Serves cancelledAnswer handles started)
    (hload : c.pending? key = some load) :
    { c.resolve key load.id cancelledAnswer with
      cancelled := load.id :: c.cancelled }.Serves cancelledAnswer handles started := by
  refine h.resolve hload fun id hmem => ?_
  exact (List.mem_cons.mp hmem).symm.imp_right fun heq => ⟨heq, rfl⟩

/-- A handle of a load that is pending no more goes unnoticed. -/
theorem release (h : c.Serves cancelledAnswer (handle :: handles) started)
    (hlate : c.isCurrent handle.key handle.id = false) :
    c.Serves cancelledAnswer handles started where
  keys_nodup := h.keys_nodup
  ids_nodup := h.ids_nodup
  id_lt := h.id_lt
  waited key load hload := by
    obtain ⟨hbegun, hunanswered, hwaiters, hpos⟩ := h.waited key load hload
    refine ⟨hbegun, hunanswered, ?_, hpos⟩
    rw [hwaiters, List.count_cons_of_ne]
    rintro rfl
    rw [isCurrent_of_pending? hload] at hlate
    simp at hlate
  answers_nodup := h.answers_nodup
  answered_lt := h.answered_lt
  cancelled_answer := h.cancelled_answer
  held other hmem := h.held other (List.mem_cons_of_mem _ hmem)

/-! ## The operations -/

theorem join (h : c.Serves cancelledAnswer handles started) (hload : c.pending? key = some load) :
    (c.recount key (· + 1)).Serves cancelledAnswer (⟨key, load.id⟩ :: handles) started := by
  refine h.recount hload (· + 1) ?_ (Nat.succ_pos _) fun handle hne => ?_
  · rw [List.count_cons_self, (h.waited key load hload).waiters_eq]
  · exact List.count_cons_of_ne (Ne.symm hne)

theorem complete (h : c.Serves cancelledAnswer handles started) (key : K) (id : Nat)
    (answer : ρ) : (c.complete key id answer).Serves cancelledAnswer handles started := by
  rcases c.complete_cases key id answer with ⟨-, heq⟩ | ⟨load, hload, -, heq⟩
  · rw [heq]
    exact h
  · rw [heq]
    exact (h.resolve hload fun id hid => .inl hid).mayDrain

theorem detach (h : c.Serves cancelledAnswer (handle :: handles) started) :
    (c.detach cancelledAnswer handle).2.Serves cancelledAnswer handles started := by
  rcases c.detach_cases cancelledAnswer handle with
    ⟨hlate, heq⟩ | ⟨load, hload, hid, hmany, heq⟩ | ⟨load, hload, hid, -, heq⟩
  · rw [heq]
    exact h.release hlate
  · have hwaiters := (h.waited _ load hload).waiters_eq
    have hhandle : (⟨handle.key, load.id⟩ : LoadHandle K) = handle := by rw [hid]
    rw [hhandle, List.count_cons_self] at hwaiters
    have hpos : 0 < load.waiters - 1 := by omega
    rw [heq]
    refine h.recount hload (· - 1) ?_ hpos fun other hother => ?_
    · rw [hhandle, hwaiters, Nat.add_sub_cancel]
    · rw [hhandle] at hother
      exact (List.count_cons_of_ne (Ne.symm hother)).symm
  · have hcancel := (h.cancel hload).mayDrain
    rw [heq]
    refine hcancel.release (hcancel.isCurrent_of_answered ?_ _)
    simp [answer?, Coordinator.resolve, hid]

/-- Cancelling all loads is to cancel one after the other. -/
theorem cancelLoads {entries : List (K × PendingLoad)}
    (h : c.Serves cancelledAnswer handles started) (hentries : c.pending = entries) :
    ((entries.map fun (_, load) => load.id).foldl
      (fun (c : Coordinator K ρ) id => c.cancel cancelledAnswer id)
      { c with pending := [] }).Serves cancelledAnswer handles started := by
  induction entries generalizing c with
  | nil =>
      rw [show ({ c with pending := [] } : Coordinator K ρ) = c by rw [← hentries]]
      exact h
  | cons entry rest ih =>
      obtain ⟨key, load⟩ := entry
      have hkeys := h.keys_nodup
      rw [hentries, List.map_cons, List.nodup_cons] at hkeys
      have hload : c.pending? key = some load := by simp [pending?, hentries]
      refine ih (h.cancel hload) ?_
      show erase c.pending key = rest
      rw [hentries, erase, List.filter_cons_of_neg (by simp), List.filter_eq_self]
      intro entry hentry
      have hne : entry.1 ≠ key := fun heq => hkeys.1 (List.mem_map.mpr ⟨entry, hentry, heq⟩)
      simpa using hne

theorem cancelAll (h : c.Serves cancelledAnswer handles started) :
    (c.cancelAll cancelledAnswer).2.Serves cancelledAnswer handles started :=
  (h.cancelLoads rfl).mayDrain

end Serves

end BoundedCache.Coordinator
