import BoundedCache.Proofs.Cache.Landing

/-!
# Which entry a load is answered with

An answer that is an entry is given by the task of a load, when that has written a value, and the
entry is one of its key.  All other answers are errors, or say that there is nothing
(`Supplies`).  So from the moment on when a load is pending, whatever happens, an entry that it
is answered with is an entry of its key (`Acts.key_of_answered`).
-/

namespace BoundedCache

/-! ## Answers that are added -/

namespace Coordinator

variable {K ρ : Type} [DecidableEq K] {c : Coordinator K ρ} {key : K} {id other : Nat}
  {answer given cancelledAnswer : ρ}

theorem answer?_of_complete (h : (c.complete key id given).answer? other = some answer) :
    c.answer? other = some answer ∨ other = id ∧ answer = given := by
  rcases c.complete_cases key id given with ⟨-, heq⟩ | ⟨load, -, rfl, heq⟩
  · rw [heq] at h
    exact .inl h
  · rw [heq, answer?, answers_mayDrain] at h
    have hresolved := (answer?_resolve c key load.id other given).symm.trans h
    split at hresolved
    · exact .inr ⟨‹_›, (Option.some.inj hresolved).symm⟩
    · exact .inl hresolved

theorem answer?_of_detach {handle : LoadHandle K}
    (h : (c.detach cancelledAnswer handle).2.answer? other = some answer) :
    c.answer? other = some answer ∨ answer = cancelledAnswer := by
  rcases c.detach_cases cancelledAnswer handle with
    ⟨-, heq⟩ | ⟨load, -, -, -, heq⟩ | ⟨load, -, -, -, heq⟩
  · rw [heq] at h
    exact .inl h
  · rw [heq] at h
    exact .inl h
  · rw [heq, answer?, answers_mayDrain] at h
    have hresolved :=
      (answer?_resolve c handle.key load.id other cancelledAnswer).symm.trans h
    split at hresolved
    · exact .inr (Option.some.inj hresolved).symm
    · exact .inl hresolved

omit [DecidableEq K] in
theorem answer?_of_cancelAll
    (h : (c.cancelAll cancelledAnswer).2.answer? other = some answer) :
    c.answer? other = some answer ∨ answer = cancelledAnswer := by
  rw [cancelAll_eq, answer?, answers_mayDrain] at h
  dsimp only at h
  rw [List.lookup_append, Option.or_eq_some_iff] at h
  rcases h with hadded | ⟨-, hold⟩
  · obtain ⟨before, after, hsplit, -⟩ := List.lookup_eq_some_iff.mp hadded
    have hmem : (other, answer) ∈ before ++ (other, answer) :: after :=
      List.mem_append_right _ List.mem_cons_self
    rw [← hsplit, List.mem_reverse, List.mem_map] at hmem
    obtain ⟨id, -, heq⟩ := hmem
    exact .inr (Prod.mk.inj heq).2.symm
  · exact .inl hold

end Coordinator

namespace Cache

variable {K V : Type} [DecidableEq K] {c c' d : Cache K V} {id : Nat} {entry : Entry K V}

/-- An entry that a load is answered with is new if its task has come to an end, and then it is
one of its key, or if the load is new. -/
def Supplies (c c' : Cache K V) : Prop :=
  ∀ id entry, c'.desk.coordinator.answer? id = some (.ok (some entry)) →
    c.desk.coordinator.answer? id = some (.ok (some entry)) ∨
    (∃ task ∈ c.desk.tasks, task.handle.id = id ∧ entry.key = task.handle.key) ∨
    c.desk.coordinator.nextId ≤ id

omit [DecidableEq K] in
theorem supplies_of_answers
    (h : c'.desk.coordinator.answers = c.desk.coordinator.answers) : Supplies c c' := by
  intro id entry hanswer
  rw [Coordinator.answer?, h] at hanswer
  exact .inl hanswer

omit [DecidableEq K] in
theorem SameLoads.supplies (h : SameLoads c c') : Supplies c c' := by
  obtain ⟨state, hdesk⟩ := h
  exact supplies_of_answers (by rw [hdesk])

/-- A load that ends without an entry supplies none. -/
theorem supplies_of_finish {desk : LoadDesk K V (Answer K V)} {handle : LoadHandle K}
    {answer : Answer K V} (hnone : ∀ entry, answer ≠ .ok (some entry))
    (hanswers : desk.coordinator.answers = c.desk.coordinator.answers)
    (hdesk : c'.desk.coordinator = (desk.finish handle answer).coordinator) : Supplies c c' := by
  intro id entry hanswer
  rw [hdesk] at hanswer
  rcases Coordinator.answer?_of_complete hanswer with hold | ⟨-, heq⟩
  · rw [Coordinator.answer?] at hold ⊢
    exact .inl (hanswers ▸ hold)
  · exact absurd heq.symm (hnone entry)

theorem supplies_release (c : Cache K V) (future : Future K V) :
    Supplies c (c.release future) := by
  cases future with
  | ready answer => exact supplies_of_answers rfl
  | load handle =>
      intro id entry hanswer
      rw [release, LoadDesk.detach_eq] at hanswer
      rcases Coordinator.answer?_of_detach hanswer with hold | heq
      · exact .inl hold
      · exact nomatch heq

omit [DecidableEq K] in
theorem supplies_shutDownNow (c : Cache K V) : Supplies c c.shutDownNow.2 := by
  intro id entry hanswer
  rw [shutDownNow] at hanswer
  dsimp only at hanswer
  rw [LoadDesk.cancelAll_eq] at hanswer
  rcases Coordinator.answer?_of_cancelAll hanswer with hold | heq
  · exact .inl hold
  · exact nomatch heq

theorem supplies_abandon (c : Cache K V) (id : Nat) : Supplies c (c.abandon id) := by
  rw [abandon]
  rcases c.desk.abandon_cases id .error with heq | ⟨task, error, orphans, -, -, heq⟩
  · rw [heq]
    exact supplies_of_answers rfl
  · refine supplies_of_finish (fun entry hanswer => ?_) rfl (congrArg (·.coordinator) heq)
    exact nomatch hanswer

variable [KeyText K]

/-! ## Turns -/

/-- The entry that a load is answered with when it ends is one of its key. -/
theorem answer?_of_settle {task : LoadTask K V} {outcome : LoadOutcome V}
    (h : (c.settle task outcome).desk.coordinator.answer? id = some (.ok (some entry))) :
    c.desk.coordinator.answer? id = some (.ok (some entry)) ∨
      id = task.handle.id ∧ entry.key = task.handle.key := by
  cases outcome with
  | nothing | error shown | panic shown =>
      rcases Coordinator.answer?_of_complete h with hold | ⟨-, heq⟩
      · exact .inl hold
      · exact nomatch heq
  | value value =>
      rw [settle_value_eq] at h
      have hwrite := (c.measure countLoad).perform_write task.handle.key value task.attributes
        .loader
      obtain ⟨state, hdesk⟩ := steady_sameLoads.perform (c.measure countLoad)
        (.write c.expiration task.handle.key value task.attributes .loader)
      have hcarries := Store.carries_put ((c.measure countLoad).announced .put).store
        task.handle.key value task.attributes
        (c.expiration.timeOf c.clock task.attributes.timeout) c.clock
      have hwritten := congrArg Prod.fst hwrite
      rcases Coordinator.answer?_of_complete h with hold | ⟨hid, heq⟩
      · rw [Coordinator.answer?] at hold ⊢
        rw [show (c.measure countLoad).perform _ = _ from rfl, hdesk] at hold
        exact .inl hold
      · cases heq
        refine .inr ⟨hid, ?_⟩
        exact (congrArg (fun written : Written K V => written.new.key) hwritten).trans hcarries.1

theorem Goes.supplies_settle {old task : LoadTask K V} {phase : Phase V}
    (h : Goes c old d { task with phase := phase }) (outcome : LoadOutcome V) :
    Supplies c (d.settle task outcome) := by
  intro id entry hanswer
  have hhandle : task.handle = old.handle := h.follows.handle_eq
  rcases answer?_of_settle hanswer with hold | ⟨rfl, hkey⟩
  · rw [h.desk_eq] at hold
    exact .inl hold
  · rw [hhandle] at hkey ⊢
    exact .inr (.inl ⟨old, h.mem, rfl, hkey⟩)

theorem Turn.supplies {ticket : Ticket} (h : Turn c ticket c') : Supplies c c' := by
  cases h with
  | idle hidle => exact supplies_of_answers rfl
  | aborted hmem hid hcancelled =>
      refine supplies_of_finish (fun entry hanswer => ?_) rfl rfl
      exact nomatch hanswer
  | waits h hid executor =>
      refine supplies_of_answers ?_
      rw [h.desk_eq]
      rfl
  | ends h hid => exact h.supplies_settle _
  | refused h hid hblocking => exact h.supplies_settle _
  | late h hid hlive =>
      refine supplies_of_answers ?_
      rw [h.desk_eq]
      rfl

/-! ## Requests and acts -/

omit [KeyText K] in
/-- What a request finds, but for the turn that the new task may have at once. -/
theorem supplies_of_begins {key : K} {attributes : Attributes} {forced : Bool}
    {launch : LoadDesk.Launch} {desk : LoadDesk K V (Answer K V)}
    (hbegins : c.desk.Begins (c.desk.newTask key attributes forced none) .error launch desk) :
    Supplies c { c with desk := desk } := by
  cases hbegins with
  | hired launch executor => exact supplies_of_answers rfl
  | turnedAway executor =>
      intro id entry hanswer
      rcases Coordinator.answer?_of_complete hanswer with hold | ⟨-, heq⟩
      · exact .inl hold
      · exact nomatch heq

theorem Called.supplies_requestLoad (h : c.Called) (key : K) (attributes : Attributes)
    (forced : Bool) : Supplies c (c.requestLoad key attributes forced).2 := by
  have hasked := asked_requestLoad h.loader key attributes forced
  generalize c.requestLoad key attributes forced = asked at hasked
  cases hasked with
  | joined hload => exact supplies_of_answers rfl
  | unavailable hfree hdown => exact supplies_of_answers rfl
  | @started launch desk hfree hup hbegins =>
      cases launch with
      | later => exact supplies_of_begins hbegins
      | now =>
          have hengaged := hbegins.engaged hfree rfl h.desk.engaged
          have hturn := turn_runTicket (c := { c with desk := desk }) hengaged
            (.task c.desk.coordinator.nextId)
          intro id entry hanswer
          rcases hturn.supplies id entry hanswer with hold | ⟨task, hmem, hid, hkey⟩ | hle
          · exact supplies_of_begins hbegins id entry hold
          · cases hbegins with
            | hired launch executor =>
                rcases List.mem_append.mp hmem with hmem | hnew
                · exact .inr (.inl ⟨task, hmem, hid, hkey⟩)
                · rw [List.mem_singleton.mp hnew] at hid
                  exact .inr (.inr (Nat.le_of_eq hid))
          · cases hbegins with
            | hired launch executor => exact .inr (.inr (Nat.le_of_succ_le hle))

theorem Act.supplies (h : Act c c') (hcalled : c.Called) : Supplies c c' := by
  cases h with
  | run strict => exact (c.sameLoads_running strict).supplies
  | shutDown => exact (steady_sameLoads.shutDown c).supplies
  | shutDownNow => exact c.supplies_shutDownNow
  | perform change => exact (steady_sameLoads.perform c change).supplies
  | request key attributes forced => exact hcalled.supplies_requestLoad key attributes forced
  | turn ticket => exact (turn_runTicket hcalled.desk.engaged ticket).supplies
  | release future => exact c.supplies_release future
  | openGate key =>
      refine supplies_of_answers ?_
      rw [Cache.openGate, LoadDesk.coordinator_openGate]
  | abandon id => exact c.supplies_abandon id
  | schedule executor => exact supplies_of_answers rfl
  | passTime clock elapsed sweeper => exact supplies_of_answers rfl

/-- From when a load is pending, an entry that it is answered with is one of its key. -/
theorem Acts.key_of_answered (h : Acts c d) (hcalled : c.Called) (handle : LoadHandle K)
    (hcurrent : c.desk.coordinator.isCurrent handle.key handle.id = true)
    (hanswer : d.answer? (.load handle) = some (.ok (some entry))) : entry.key = handle.key := by
  obtain ⟨task, hmem, hhandle⟩ := hcalled.desk.exists_task hcurrent
  obtain ⟨handles, started, hworks, -⟩ := hcalled.desk.works
  have hlt : handle.id < c.desk.coordinator.nextId := hhandle ▸ hcalled.desk.id_lt hmem
  induction h generalizing entry with
  | refl =>
      obtain ⟨load, hload, hid⟩ := Coordinator.isCurrent_iff.mp hcurrent
      have hnone := (hworks.serves.waited _ load hload).unanswered
      rw [hid] at hnone
      exact nomatch hnone.symm.trans hanswer
  | tail hacts hlast ih =>
      obtain ⟨hlater, hcontinues⟩ := Acts.keeps_called hacts hcalled
      rcases hlast.supplies hlater _ entry hanswer with hold | ⟨later, hthere, hid, hkey⟩ | hle
      · exact ih hold
      · -- the task with this number is the one that the load had at first
        obtain ⟨first, hfirst, hfollows⟩ := hcontinues.desk.pursued later hthere (hid ▸ hlt)
        have hsame : first.handle.id = task.handle.id := by
          rw [← hfollows.handle_eq, hid, hhandle]
        rw [hkey, hfollows.handle_eq, List.inj_on_of_nodup_map hworks.tasks_nodup hfirst hmem hsame,
          hhandle]
      · exact absurd (Nat.lt_of_lt_of_le hlt hcontinues.desk.nextId_le) (Nat.not_lt_of_le hle)

end Cache

end BoundedCache
