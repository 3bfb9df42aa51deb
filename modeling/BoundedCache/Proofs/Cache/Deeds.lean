import BoundedCache.Proofs.Cache.Acts
import BoundedCache.Proofs.Cache.Closed
import BoundedCache.Proofs.Load.Heading

/-!
# What is written down of an act

What happens to a cache is made of deeds (`Deed`), of which few leave a trace in the ledger: a
change is performed between its hooks, the loader is called, a load passes its gate, or a load
ends by what its loader has come to.  All else, at the desk and on the executor, is just tended
to; a load may end there too, but with an answer that no loader has given.
-/

namespace BoundedCache

namespace Cache

variable {K V : Type} [DecidableEq K] {c c' c'' : Cache K V} {task : LoadTask K V}

/-- The answers of the one desk are those of the other, and of loads that were cancelled, or whose
task was dropped before it had begun. -/
def Unled (c c' : Cache K V) : Prop :=
  ∃ given, c'.desk.coordinator.answers = given ++ c.desk.coordinator.answers ∧
    ∀ id answer, (id, answer) ∈ given →
      answer = .error .cancelled ∨ answer = .error .dropped

omit [DecidableEq K] in
theorem unled_of_eq (h : c'.desk.coordinator.answers = c.desk.coordinator.answers) :
    Unled c c' :=
  ⟨[], h, fun _ _ hmem => absurd hmem List.not_mem_nil⟩

theorem unled_complete (c : Cache K V) (d : LoadDesk K V (Answer K V)) (key : K) (id : Nat)
    {answer : Answer K V} (hanswer : answer = .error .cancelled ∨ answer = .error .dropped)
    (hd : d.coordinator.answers = c.desk.coordinator.answers) {desk : LoadDesk K V (Answer K V)}
    (hdesk : desk.coordinator = d.coordinator.complete key id answer) :
    Unled c { c with desk := desk } := by
  rcases d.coordinator.complete_cases key id answer with ⟨-, heq⟩ | ⟨load, -, -, heq⟩
  · refine unled_of_eq ?_
    show desk.coordinator.answers = _
    rw [hdesk, heq, hd]
  · refine ⟨[(load.id, answer)], ?_, fun _ _ hmem => ?_⟩
    · show desk.coordinator.answers = _
      rw [hdesk, heq, Coordinator.answers_mayDrain, ← hd]
      rfl
    · cases List.mem_singleton.mp hmem
      exact hanswer

omit [DecidableEq K] in
/-- Nothing is written down of a start. -/
theorem running_ledger (c : Cache K V) (strict : Bool) :
    (c.running strict).2.ledger = c.ledger := by
  have hsweeper : ∀ d : Cache K V, d.startSweeper.2.ledger = d.ledger := by
    intro d
    unfold startSweeper
    split
    · rfl
    · split <;> rfl
  have hstart : (Lifecycle.lazyStart lifecycle setLifecycle strict startSweeper c).2.ledger =
      c.ledger := by
    have hledger := hsweeper (c.setLifecycle .starting)
    unfold Lifecycle.lazyStart
    split
    · rcases heq : (c.setLifecycle .starting).startSweeper with ⟨⟨e⟩ | ⟨⟨⟩⟩, world⟩
      all_goals
        rw [heq] at hledger
        exact hledger
    · rfl
  unfold running
  split
  · rename_i heq
    rwa [heq] at hstart
  · rename_i heq
    rwa [heq] at hstart

variable [KeyText K]

/-- What can be done at a time, as far as something is written of it. -/
inductive Deed (c : Cache K V) : Cache K V → Prop where
  | run (strict : Bool) : Deed c (c.running strict).2
  | shutDown : Deed c c.shutDown.2
  | perform {α : Type} (change : Change K V α) : Deed c (c.perform change).2
  | callLoader (loader : Loader K V) (task : LoadTask K V) : Deed c (c.callLoader loader task).2
  | resume (key : K) : Deed c (c.note (.loadResumed key))
  /-- A pending load ends by the outcome of its loader. -/
  | settle (task : LoadTask K V) (outcome : LoadOutcome V)
      (hcurrent : c.desk.coordinator.isCurrent task.handle.key task.handle.id = true) :
      Deed c (c.settle task outcome)
  | tend {c' : Cache K V} (hunled : Unled c c') (hstore : c'.store = c.store)
      (hledger : c'.ledger = c.ledger) (hhooks : c'.hooks = c.hooks) : Deed c c'

/-- A sequence of deeds. -/
def Deeds : Cache K V → Cache K V → Prop := Relation.ReflTransGen Deed

theorem Deeds.refl (c : Cache K V) : Deeds c c := Relation.ReflTransGen.refl

theorem Deed.deeds (h : Deed c c') : Deeds c c' := Relation.ReflTransGen.single h

theorem Deeds.trans (h : Deeds c c') (h' : Deeds c' c'') : Deeds c c'' :=
  Relation.ReflTransGen.trans h h'

theorem Deeds.keeps {P : Cache K V → Prop} (hdeed : ∀ {c c'}, Deed c c' → P c → P c')
    (h : Deeds c c') (hc : P c) : P c' := by
  induction h with
  | refl => exact hc
  | tail _ hlast ih => exact hdeed hlast ih

/-- Only the desk is tended to, and no load ends. -/
theorem deeds_inDesk {desk : LoadDesk K V (Answer K V)}
    (h : desk.coordinator.answers = c.desk.coordinator.answers) :
    Deeds c { c with desk := desk } := by
  have hunled : Unled c { c with desk := desk } := unled_of_eq h
  exact (Deed.tend hunled rfl rfl rfl).deeds

/-! ## Turns -/

theorem deeds_doWork (c : Cache K V) (task : LoadTask K V) (work : Work V) :
    Deeds c (c.doWork task work).2 := by
  unfold doWork
  split
  · exact .refl c
  · split
    · exact .refl c
    · exact (Deed.callLoader _ _).deeds

theorem deeds_submit (hcurrent : c.desk.coordinator.isCurrent task.handle.key task.handle.id = true)
    (work : Work V) : Deeds c (c.submit task work) := by
  unfold submit LoadDesk.submit
  cases c.desk.executor.blocking with
  | queue => exact deeds_inDesk rfl
  | inline =>
      obtain ⟨hdesk, hhandle⟩ := c.doWork_desk task work
      have hthere : (c.doWork task work).2.desk.coordinator.isCurrent
          (c.doWork task work).1.1.handle.key (c.doWork task work).1.1.handle.id = true := by
        rw [hdesk, hhandle]
        exact hcurrent
      exact (c.deeds_doWork task work).trans (Deed.settle _ _ hthere).deeds
  | reject => exact (Deed.settle task _ hcurrent).deeds
  | drop => exact (Deed.settle task _ hcurrent).deeds

theorem deeds_proceed
    (hcurrent : c.desk.coordinator.isCurrent task.handle.key task.handle.id = true)
    (program : LoadProgram V) : Deeds c (c.proceed task program) := by
  unfold proceed
  dsimp only
  split
  · refine (Deed.settle _ _ ?_).deeds
    exact hcurrent
  · exact deeds_inDesk rfl
  · refine deeds_submit ?_ _
    exact hcurrent

theorem deeds_pollTask (h : c.desk.Engaged) (id : Nat) : Deeds c (c.pollTask id) := by
  unfold pollTask
  split
  · exact .refl c
  · rename_i task _
    have hunled : Unled c (c.finish task (.error .cancelled)) :=
      unled_complete c (c.desk.dropTask task.handle.id) task.handle.key task.handle.id
        (.inl rfl) rfl rfl
    exact (Deed.tend hunled rfl rfl rfl).deeds
  · rename_i hpoll
    exact deeds_proceed (h.current_of_poll? hpoll nofun) _
  · rename_i task hpoll
    have hcurrent := h.current_of_poll? hpoll nofun
    split
    · exact (Deed.settle task _ hcurrent).deeds
    · split
      · exact deeds_submit hcurrent _
      · refine (Deed.callLoader _ task).deeds.trans (deeds_proceed ?_ _)
        exact hcurrent
  · rename_i task rest hpoll
    have hcurrent := h.current_of_poll? hpoll nofun
    refine (Deed.resume task.handle.key).deeds.trans (deeds_proceed ?_ _)
    exact hcurrent
  · rename_i task outcome hpoll
    exact (Deed.settle task outcome (h.current_of_poll? hpoll nofun)).deeds

theorem deeds_runJob (c : Cache K V) (id : Nat) : Deeds c (c.runJob id) := by
  unfold runJob
  split
  · exact .refl c
  · rename_i task work _
    refine (c.deeds_doWork task work).trans (deeds_inDesk ?_)
    exact congrArg Coordinator.answers (LoadDesk.coordinator_answerJob _ _ _)

theorem deeds_runTicket (h : c.desk.Engaged) (ticket : Ticket) : Deeds c (c.runTicket ticket) := by
  cases ticket with
  | task id => exact deeds_pollTask h id
  | job id => exact c.deeds_runJob id

/-! ## Acts -/

omit [KeyText K] in
theorem unled_request (c : Cache K V) (key : K) (attributes : Attributes) (forced : Bool) :
    Unled c { c with desk := (c.desk.request key attributes forced none .error).2 } := by
  rcases c.desk.request_cases key attributes forced none .error with
    ⟨load, -, heq⟩ | ⟨-, -, heq⟩ | ⟨-, -, launch, desk, hbegins, heq⟩
  · exact unled_of_eq (by rw [heq]; rfl)
  · exact unled_of_eq (by rw [heq])
  · rw [heq]
    cases hbegins with
    | hired launch executor => exact unled_of_eq rfl
    | turnedAway executor =>
        exact unled_complete c
          { c.desk with coordinator := c.desk.coordinator.begin key } key _ (.inr rfl) rfl rfl

theorem deeds_requestLoad (h : c.desk.Engaged) (key : K) (attributes : Attributes)
    (forced : Bool) : Deeds c (c.requestLoad key attributes forced).2 := by
  have hrequest : Deeds c
      { c with desk := (c.desk.request key attributes forced none .error).2 } :=
    (Deed.tend (c.unled_request key attributes forced) rfl rfl rfl).deeds
  have hengaged := h.request key attributes forced none Except.error
  rcases c.requestLoad_cases key attributes forced with heq | heq | ⟨id, heq⟩
  · rw [heq]
    exact .refl c
  · rw [heq]
    exact hrequest
  · rw [heq]
    exact hrequest.trans (deeds_pollTask (c := { c with desk := _ }) hengaged id)

omit [KeyText K] in
/-- Who lets go of a load gives it no answer but that it is cancelled. -/
theorem unled_release (c : Cache K V) (handle : LoadHandle K) :
    Unled c (c.release (.load handle)) := by
  rw [release, LoadDesk.detach_eq]
  rcases c.desk.coordinator.detach_cases (.error .cancelled) handle with
    ⟨-, heq⟩ | ⟨load, -, -, -, heq⟩ | ⟨load, -, -, -, heq⟩
  · exact unled_of_eq (by rw [heq])
  · exact unled_of_eq (by rw [heq]; rfl)
  · refine ⟨[(load.id, .error .cancelled)], ?_, fun _ _ hmem => ?_⟩
    · rw [heq, Coordinator.answers_mayDrain]
      rfl
    · cases List.mem_singleton.mp hmem
      exact .inl rfl

omit [DecidableEq K] [KeyText K] in
theorem unled_shutDownNow (c : Cache K V) : Unled c c.shutDownNow.2 := by
  unfold shutDownNow
  dsimp only
  rw [LoadDesk.cancelAll_eq, Coordinator.cancelAll_eq]
  refine ⟨_, Coordinator.answers_mayDrain _, fun id answer hmem => ?_⟩
  obtain ⟨_, -, heq⟩ := List.mem_map.mp (List.mem_reverse.mp hmem)
  exact .inl (Prod.mk.inj heq).2.symm

omit [KeyText K] in
/-- A task that is dropped leaves an answer that no loader has given. -/
theorem unled_abandon (c : Cache K V) (id : Nat) : Unled c (c.abandon id) := by
  unfold abandon LoadDesk.abandon
  split
  · exact unled_of_eq rfl
  · rename_i task _
    have hends : ∀ {answer : Answer K V} {desk : LoadDesk K V (Answer K V)},
        answer = .error .cancelled ∨ answer = .error .dropped →
        desk.coordinator = (c.desk.finish task.handle answer).coordinator →
        Unled c { c with desk := desk } := fun hanswer hdesk =>
      unled_complete c (c.desk.dropTask task.handle.id) task.handle.key task.handle.id hanswer
        rfl hdesk
    split
    · exact hends (.inr rfl) rfl
    · exact hends (.inl rfl) rfl
    · exact hends (.inl rfl) rfl

theorem Act.deeds (h : Act c c') (hengaged : c.desk.Engaged) : Deeds c c' := by
  cases h with
  | run strict => exact (Deed.run strict).deeds
  | shutDown => exact Deed.shutDown.deeds
  | shutDownNow => exact (Deed.tend c.unled_shutDownNow rfl rfl rfl).deeds
  | perform change => exact (Deed.perform change).deeds
  | request key attributes forced => exact deeds_requestLoad hengaged key attributes forced
  | turn ticket => exact deeds_runTicket hengaged ticket
  | release future =>
      cases future with
      | ready answer => exact .refl c
      | load handle => exact (Deed.tend (c.unled_release handle) rfl rfl rfl).deeds
  | openGate key =>
      refine deeds_inDesk ?_
      rw [LoadDesk.coordinator_openGate]
  | abandon id => exact (Deed.tend (c.unled_abandon id) rfl rfl rfl).deeds
  | schedule executor => exact deeds_inDesk rfl
  | passTime clock elapsed sweeper =>
      have hunled : Unled c { c with clock := clock, elapsed := elapsed, sweeper := sweeper } :=
        unled_of_eq rfl
      exact (Deed.tend hunled rfl rfl rfl).deeds

/-- Whatever happens to a cache whose tasks have loads is made of deeds. -/
theorem Acts.deeds (h : Acts c c') (hengaged : c.desk.Engaged) : Deeds c c' := by
  induction h with
  | refl => exact .refl c
  | tail hacts hlast ih => exact ih.trans (hlast.deeds (Moves.engaged (Acts.moves hacts) hengaged))

end Cache

end BoundedCache
