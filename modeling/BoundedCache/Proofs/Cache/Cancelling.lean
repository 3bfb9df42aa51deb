import BoundedCache.Proofs.Cache.Landing

/-!
# Nothing comes of a load that was cancelled

A pending load is cancelled when its last waiter goes, or with all others when the cache is shut
down at once (`Withdraws`).  Its task stays where it is, perhaps with a ticket in the queue or a
job that has yet to run, and the key may have a newer load by the time it has its turn.

Whoever goes on with the load then looks at its flag first, so it is `Withdrawn`: its turns leave
all but the desk as it was, and nobody is ever handed a value.  The flag stays up, since nothing
takes one down.  It goes up by a withdrawal and by nothing else (`Act.flags`); so a load that has
ended otherwise never has it.
-/

namespace BoundedCache

namespace Cache

variable {K V : Type} [DecidableEq K] {c c' d : Cache K V} {handle : LoadHandle K} {id : Nat}

/-- The flag of a load is up. -/
def Flagged (c : Cache K V) (id : Nat) : Prop := c.desk.coordinator.isCancelled id = true

/-- The load of the handle is pending, and is cancelled by what happens: its last waiter lets go
of it, or all loads are cancelled. -/
inductive Withdraws (c : Cache K V) (handle : LoadHandle K) : Cache K V → Prop where
  | release {load : PendingLoad} (hload : c.desk.coordinator.pending? handle.key = some load)
      (hid : load.id = handle.id) (hlast : load.waiters = 1) :
      Withdraws c handle (c.release (.load handle))
  | shutDownNow (hcurrent : c.desk.coordinator.isCurrent handle.key handle.id = true) :
      Withdraws c handle c.shutDownNow.2

omit [DecidableEq K] in
theorem flagged_iff : c.Flagged id ↔ id ∈ c.desk.coordinator.cancelled := by
  rw [Flagged, Coordinator.isCancelled, List.contains_iff_mem]

theorem cancelled_release (c : Cache K V) (handle : LoadHandle K) :
    (c.release (.load handle)).desk.coordinator.cancelled =
      (c.desk.coordinator.detach (.error .cancelled) handle).1 ++
        c.desk.coordinator.cancelled := by
  rw [release, LoadDesk.detach_eq]
  exact Coordinator.cancelled_detach _ _ _

omit [DecidableEq K] in
theorem cancelled_shutDownNow (c : Cache K V) :
    c.shutDownNow.2.desk.coordinator.cancelled =
      (c.desk.coordinator.pending.map fun (_, load) => load.id).reverse ++
        c.desk.coordinator.cancelled := by
  rw [shutDownNow]
  dsimp only
  rw [LoadDesk.cancelAll_eq]
  exact Coordinator.cancelled_cancelAll _ _

theorem Withdraws.isCurrent (h : c.Withdraws handle d) :
    c.desk.coordinator.isCurrent handle.key handle.id = true := by
  cases h with
  | release hload hid hlast => exact Coordinator.isCurrent_iff.mpr ⟨_, hload, hid⟩
  | shutDownNow hcurrent => exact hcurrent

theorem Withdraws.flagged (h : c.Withdraws handle d) : d.Flagged handle.id := by
  rw [flagged_iff]
  cases h with
  | @release load hload hid hlast =>
      have hone : ¬ 1 < load.waiters := by omega
      rw [cancelled_release, Coordinator.detach_of_last hload hid hone, ← hid]
      exact List.mem_append_left _ List.mem_cons_self
  | shutDownNow hcurrent =>
      obtain ⟨load, hload, hid⟩ := Coordinator.isCurrent_iff.mp hcurrent
      have hmem : (handle.key, load) ∈ c.desk.coordinator.pending := by
        obtain ⟨before, after, hsplit, -⟩ := List.lookup_eq_some_iff.mp hload
        rw [hsplit]
        exact List.mem_append_right _ List.mem_cons_self
      rw [cancelled_shutDownNow]
      exact List.mem_append_left _ (List.mem_reverse.mpr (List.mem_map.mpr ⟨_, hmem, hid⟩))

/-! ## Who raises a flag -/

/-- The flags that are up are those of before, and of the loads that were withdrawn. -/
def Flags (c c' : Cache K V) : Prop :=
  ∃ ids, c'.desk.coordinator.cancelled = ids ++ c.desk.coordinator.cancelled ∧
    ∀ id ∈ ids, ∃ key, c.Withdraws ⟨key, id⟩ c'

theorem flags_of_eq (h : c'.desk.coordinator.cancelled = c.desk.coordinator.cancelled) :
    Flags c c' :=
  ⟨[], h, fun _ hmem => absurd hmem List.not_mem_nil⟩

theorem SameLoads.flags (h : SameLoads c c') : Flags c c' := by
  obtain ⟨state, hdesk⟩ := h
  exact flags_of_eq (by rw [hdesk])

variable (hcalled : c.Called)
include hcalled

theorem flags_shutDownNow : Flags c c.shutDownNow.2 := by
  refine ⟨_, c.cancelled_shutDownNow, fun id hmem => ?_⟩
  obtain ⟨⟨key, load⟩, hpending, rfl⟩ := List.mem_map.mp (List.mem_reverse.mp hmem)
  obtain ⟨handles, started, hworks, -⟩ := hcalled.desk.works
  have hload := ((Enumerates.lookup hworks.serves.keys_nodup).mem_iff key load).mp hpending
  exact ⟨key, .shutDownNow (Coordinator.isCurrent_iff.mpr ⟨load, hload, rfl⟩)⟩

theorem flags_release (future : Future K V) : Flags c (c.release future) := by
  cases future with
  | ready answer => exact flags_of_eq rfl
  | load handle =>
      have hcancelled := c.cancelled_release handle
      rcases c.desk.coordinator.detach_cases (.error .cancelled) handle with
        ⟨-, heq⟩ | ⟨load, -, -, -, heq⟩ | ⟨load, hload, hid, hlast, heq⟩
      · rw [heq] at hcancelled
        exact flags_of_eq hcancelled
      · rw [heq] at hcancelled
        exact flags_of_eq hcancelled
      · -- a pending load has a waiter, and there are no two
        obtain ⟨handles, started, hworks, -⟩ := hcalled.desk.works
        have hpos := (hworks.serves.waited _ load hload).waiters_pos
        have hone : load.waiters = 1 := by omega
        rw [heq] at hcancelled
        refine ⟨_, hcancelled, fun id hmem => ⟨handle.key, ?_⟩⟩
        rw [List.mem_singleton.mp hmem, hid]
        exact .release hload hid hone

variable [KeyText K]

omit hcalled in
theorem Turn.cancelled_eq {ticket : Ticket} (h : Turn c ticket c') :
    c'.desk.coordinator.cancelled = c.desk.coordinator.cancelled := by
  have hsettled : ∀ {old task : LoadTask K V} {phase : Phase V} {d : Cache K V}
      (outcome : LoadOutcome V), Goes c old d { task with phase := phase } →
      (d.settle task outcome).desk.coordinator.cancelled = c.desk.coordinator.cancelled := by
    intro old task phase d outcome hgoes
    obtain ⟨-, state, answer, hdesk⟩ := d.settle_desk task outcome
    rw [hdesk, hgoes.desk_eq]
    exact Coordinator.cancelled_complete _ _ _ _
  cases h with
  | idle hidle => rfl
  | aborted hmem hid hcancelled => exact Coordinator.cancelled_complete _ _ _ _
  | @waits old task d h hid executor =>
      show d.desk.coordinator.cancelled = _
      rw [h.desk_eq]
  | ends h hid => exact hsettled _ h
  | refused h hid hblocking => exact hsettled _ h
  | @late orphan d h hid hlive =>
      show d.desk.coordinator.cancelled = _
      rw [h.desk_eq]

theorem cancelled_requestLoad (key : K) (attributes : Attributes) (forced : Bool) :
    (c.requestLoad key attributes forced).2.desk.coordinator.cancelled =
      c.desk.coordinator.cancelled := by
  have hengaged := hcalled.desk.engaged.request key attributes forced none Except.error
  have hasked := asked_requestLoad hcalled.loader key attributes forced
  rcases hrequest : c.requestLoad key attributes forced with ⟨future, c'⟩
  rw [hrequest] at hasked
  cases hasked with
  | joined hload => rfl
  | unavailable hfree hdown => rfl
  | @started launch desk hfree hup hbegins =>
      cases launch with
      | later => exact hbegins.cancelled
      | now =>
          have hdesk := hbegins.engaged hfree rfl hcalled.desk.engaged
          have hturn := turn_runTicket (c := { c with desk := desk }) hdesk
            (.task c.desk.coordinator.nextId)
          exact hturn.cancelled_eq.trans hbegins.cancelled

/-- Whatever happens, only what withdraws a load raises a flag. -/
theorem Act.flags (h : Act c c') : Flags c c' := by
  cases h with
  | run strict => exact (c.sameLoads_running strict).flags
  | shutDown => exact (steady_sameLoads.shutDown c).flags
  | shutDownNow => exact flags_shutDownNow hcalled
  | perform change => exact (steady_sameLoads.perform c change).flags
  | request key attributes forced =>
      exact flags_of_eq (cancelled_requestLoad hcalled key attributes forced)
  | turn ticket => exact flags_of_eq (turn_runTicket hcalled.desk.engaged ticket).cancelled_eq
  | release future => exact flags_release hcalled future
  | openGate key =>
      refine flags_of_eq ?_
      rw [Cache.openGate, LoadDesk.coordinator_openGate]
  | abandon id =>
      refine flags_of_eq ?_
      rw [Cache.abandon]
      rcases c.desk.abandon_cases id .error with heq | ⟨task, error, orphans, -, -, heq⟩
      · rw [heq]
      · rw [heq]
        exact Coordinator.cancelled_complete _ _ _ _
  | schedule executor => exact flags_of_eq rfl
  | passTime clock elapsed sweeper => exact flags_of_eq rfl

theorem Act.flagged (h : Act c c') (hflag : c.Flagged id) : c'.Flagged id := by
  obtain ⟨ids, heq, -⟩ := h.flags hcalled
  rw [flagged_iff] at hflag ⊢
  rw [heq]
  exact List.mem_append_right _ hflag

/-- A flag that has gone up is that of a load that was pending up to then. -/
theorem Act.withdraws (h : Act c c') (hcurrent : c.desk.coordinator.isCurrent handle.key handle.id)
    (hflag : c'.Flagged handle.id) : c.Withdraws handle c' := by
  obtain ⟨handles, started, hworks, -⟩ := hcalled.desk.works
  obtain ⟨load, hload, hid⟩ := Coordinator.isCurrent_iff.mp hcurrent
  have hbefore : ¬ c.Flagged handle.id := by
    rw [Flagged, ← hid, hworks.serves.not_isCancelled hload]
    exact Bool.false_ne_true
  obtain ⟨ids, heq, hids⟩ := h.flags hcalled
  rw [flagged_iff] at hflag hbefore
  rw [heq] at hflag
  obtain ⟨key, hwithdraws⟩ := hids _ ((List.mem_append.mp hflag).resolve_right hbefore)
  -- the load that was withdrawn has the number of this one, so it is of the same key
  obtain ⟨other, hother, hsame⟩ := Coordinator.isCurrent_iff.mp hwithdraws.isCurrent
  have hkey := hworks.serves.key_eq_of_id_eq hload hother (hid.trans hsame.symm)
  dsimp only at hkey
  rwa [← hkey] at hwithdraws

/-- A load that has ended without its flag never has it. -/
theorem Act.unflagged (h : Act c c') (hended : ∀ key, c.desk.coordinator.isCurrent key id = false)
    (hflag : ¬ c.Flagged id) : ¬ c'.Flagged id := by
  obtain ⟨ids, heq, hids⟩ := h.flags hcalled
  rw [flagged_iff] at hflag ⊢
  rw [heq, List.mem_append]
  rintro (hnew | hold)
  · obtain ⟨key, hwithdraws⟩ := hids id hnew
    have hlate := hended key
    rw [hwithdraws.isCurrent] at hlate
    exact Bool.false_ne_true hlate.symm
  · exact hflag hold

theorem Acts.unflagged (h : Acts c d) (hlt : id < c.desk.coordinator.nextId)
    (hended : ∀ key, c.desk.coordinator.isCurrent key id = false) (hflag : ¬ c.Flagged id) :
    ¬ d.Flagged id := by
  induction h with
  | refl => exact hflag
  | tail hacts hlast ih =>
      obtain ⟨hlater, hcontinues⟩ := Acts.keeps_called hacts hcalled
      refine hlast.unflagged hlater (fun key => ?_) ih
      -- a number that was given belongs to no new load
      rw [Bool.eq_false_iff]
      intro hcurrent
      have hbefore := hcontinues.desk.current key id hlt hcurrent
      rw [hended key] at hbefore
      exact Bool.false_ne_true hbefore

/-! ## What a load that was cancelled comes to -/

/-- Nothing comes of the load any more. -/
structure Withdrawn (c : Cache K V) (id : Nat) : Prop where
  flagged : c.Flagged id
  ended : ∀ key, c.desk.coordinator.isCurrent key id = false
  /-- Whoever holds the load is told that it was cancelled. -/
  answered : ∀ key, c.answer? (.load ⟨key, id⟩) = some (.error .cancelled)
  /-- Its task is not there any more, or goes no further. -/
  unpolled : ∀ poll, c.desk.poll? id = some poll → ∃ task, poll = .aborted task
  /-- Its job does not begin. -/
  uncalled : c.desk.job? id = none
  /-- Its turns leave the store, the ledger with the statistics, and the calls of the loader as
  they were. -/
  frozen : ∀ ticket : Ticket, ticket.load = id → Frozen c (c.runTicket ticket)
  unwritten : ∀ d (m : Merge K V) c', Lands c d m c' → m.handle.id ≠ id

omit hcalled in
/-- A turn of a load that was cancelled changes nothing but the desk. -/
theorem Turn.frozen {ticket : Ticket} (h : Turn c ticket c') (hflag : c.Flagged ticket.load)
    (hended : ∀ key, c.desk.coordinator.isCurrent key ticket.load = false) : Frozen c c' := by
  have hlate : ∀ {old task : LoadTask K V} {d : Cache K V}, Goes c old d task →
      old.handle.id ≠ ticket.load := by
    intro old task d hgoes hsame
    have hcurrent := hgoes.current
    rw [hsame, hended] at hcurrent
    exact Bool.false_ne_true hcurrent
  cases h with
  | idle hidle => exact .refl c
  | aborted hmem hid hcancelled => exact c.frozen_finish _ _
  | waits h hid executor => exact absurd hid (hlate h)
  | ends h hid => exact absurd hid (hlate h)
  | refused h hid hblocking => exact absurd hid (hlate h)
  | late h hid hlive => exact absurd (hflag.symm.trans hlive) nofun

theorem Called.withdrawn (hflag : c.Flagged id) : c.Withdrawn id := by
  obtain ⟨handles, started, hworks, -⟩ := hcalled.desk.works
  have hanswer := hworks.serves.cancelled_answer id (flagged_iff.mp hflag)
  have hended := hworks.serves.isCurrent_of_answered (by rw [hanswer]; rfl)
  have hcancelled : c.desk.coordinator.isCancelled id = true := hflag
  refine ⟨hflag, hended, fun _ => hanswer, fun poll hpoll => ?_, ?_, fun ticket hid => ?_,
    fun d m c' hlands hid => ?_⟩
  · cases htask : c.desk.task? id with
    | none =>
        rw [LoadDesk.poll?, htask] at hpoll
        cases hpoll
    | some task =>
        rw [LoadDesk.poll?, htask] at hpoll
        have haborted := (if_pos hcancelled).symm.trans hpoll
        exact ⟨task, (Option.some.inj haborted).symm⟩
  · exact if_pos hcancelled
  · subst hid
    exact (turn_runTicket hcalled.desk.engaged ticket).frozen hflag hended
  · have hpending := hlands.pending
    rw [hid, hended] at hpending
    exact Bool.false_ne_true hpending

/-! ## Calls of the loader -/

/-- The load may come to call the loader: it is pending, or its task was dropped while a job was
waiting, and it was not cancelled. -/
def MayCall (c : Cache K V) (handle : LoadHandle K) : Prop :=
  c.desk.coordinator.isCurrent handle.key handle.id = true ∨
    (∃ orphan ∈ c.desk.orphans, orphan.handle = handle) ∧ ¬ c.Flagged handle.id

/-- A call of the loader is that of a load that may call it, or only begins. -/
def CallsPending (c c' : Cache K V) : Prop :=
  ∃ calls, c'.loaderCalls = calls ++ c.loaderCalls ∧
    ∀ handle ∈ calls, c.MayCall handle ∨ c.desk.coordinator.nextId ≤ handle.id

omit hcalled [KeyText K] in
theorem callsPending_of_eq (h : c'.loaderCalls = c.loaderCalls) : CallsPending c c' :=
  ⟨[], h, fun _ hmem => absurd hmem List.not_mem_nil⟩

omit hcalled in
theorem Turn.calls {ticket : Ticket} (h : Turn c ticket c') :
    c'.loaderCalls = c.loaderCalls ∨ ∃ handle : LoadHandle K, handle.id = ticket.load ∧
      c.MayCall handle ∧ c'.loaderCalls = handle :: c.loaderCalls := by
  have hgone : ∀ {old task : LoadTask K V} {d : Cache K V}, Goes c old d task →
      old.handle.id = ticket.load → c'.loaderCalls = d.loaderCalls →
      c'.loaderCalls = c.loaderCalls ∨ ∃ handle : LoadHandle K, handle.id = ticket.load ∧
        c.MayCall handle ∧ c'.loaderCalls = handle :: c.loaderCalls := by
    intro old task d hgoes hid heq
    cases hgoes.tries with
    | quiet hcalls hsame => exact .inl (heq.trans hcalls)
    | called hcalls hbefore hafter =>
        exact .inr ⟨old.handle, hid, .inl hgoes.current, heq.trans hcalls⟩
    | spared hcalls hnone => exact .inl (heq.trans hcalls)
  cases h with
  | idle hidle => exact .inl rfl
  | aborted hmem hid hcancelled => exact .inl rfl
  | waits h hid executor => exact hgone h hid rfl
  | ends h hid => exact hgone h hid (loaderCalls_settle _ _ _)
  | refused h hid hblocking => exact hgone h hid (loaderCalls_settle _ _ _)
  | @late orphan d h hid hlive =>
      rcases h.calls with hsame | ⟨hcalls, -⟩
      · exact .inl hsame
      · refine .inr ⟨orphan.handle, hid, .inr ⟨⟨orphan, h.mem, rfl⟩, ?_⟩, hcalls⟩
        rw [Flagged, hid, hlive]
        exact Bool.false_ne_true

theorem callsPending_requestLoad (key : K) (attributes : Attributes) (forced : Bool) :
    CallsPending c (c.requestLoad key attributes forced).2 := by
  have hasked := asked_requestLoad hcalled.loader key attributes forced
  rcases hrequest : c.requestLoad key attributes forced with ⟨future, c'⟩
  rw [hrequest] at hasked
  cases hasked with
  | joined hload => exact callsPending_of_eq rfl
  | unavailable hfree hdown => exact callsPending_of_eq rfl
  | @started launch desk hfree hup hbegins =>
      cases launch with
      | later => exact callsPending_of_eq rfl
      | now =>
          have hdesk := hbegins.engaged hfree rfl hcalled.desk.engaged
          have hturn := turn_runTicket (c := { c with desk := desk }) hdesk
            (.task c.desk.coordinator.nextId)
          rcases hturn.calls with heq | ⟨handle, hid, -, heq⟩
          · exact callsPending_of_eq heq
          · refine ⟨[handle], heq, fun other hmem => .inr ?_⟩
            rw [List.mem_singleton.mp hmem]
            exact Nat.le_of_eq hid.symm

theorem Act.callsPending (h : Act c c') : CallsPending c c' := by
  cases h with
  | run strict => exact callsPending_of_eq (c.sameSetting_running strict).loaderCalls_eq
  | shutDown => exact callsPending_of_eq rfl
  | shutDownNow => exact callsPending_of_eq rfl
  | perform change => exact callsPending_of_eq (steady_sameSetting.perform c change).loaderCalls_eq
  | request key attributes forced => exact callsPending_requestLoad hcalled key attributes forced
  | turn ticket =>
      rcases (turn_runTicket hcalled.desk.engaged ticket).calls with
        heq | ⟨handle, -, hcurrent, heq⟩
      · exact callsPending_of_eq heq
      · refine ⟨[handle], heq, fun other hmem => .inl ?_⟩
        rwa [List.mem_singleton.mp hmem]
  | release future =>
      cases future with
      | ready answer => exact callsPending_of_eq rfl
      | load handle => exact callsPending_of_eq rfl
  | openGate key => exact callsPending_of_eq rfl
  | abandon id => exact callsPending_of_eq rfl
  | schedule executor => exact callsPending_of_eq rfl
  | passTime clock elapsed sweeper => exact callsPending_of_eq rfl

/-- From when a load is flagged, nothing comes of it, and whoever calls the loader is another. -/
theorem Acts.withdrawn (h : Acts c d) (hflag : c.Flagged id) :
    d.Withdrawn id ∧ ∀ handle ∈ d.loaderCalls, handle ∉ c.loaderCalls → handle.id ≠ id := by
  have hflagged : d.Flagged id ∧
      ∀ handle ∈ d.loaderCalls, handle ∉ c.loaderCalls → handle.id ≠ id := by
    induction h with
    | refl => exact ⟨hflag, fun handle hmem hnew => absurd hmem hnew⟩
    | tail hacts hlast ih =>
        obtain ⟨hthere, hothers⟩ := ih
        have hlater := (Acts.keeps_called hacts hcalled).1
        refine ⟨hlast.flagged hlater hthere, fun handle hmem hnew hid => ?_⟩
        obtain ⟨calls, heq, hcalls⟩ := hlast.callsPending hlater
        rw [heq, List.mem_append] at hmem
        have hmade := hmem.resolve_right fun hold => hothers handle hold hnew hid
        have hwithdrawn := hlater.withdrawn hthere
        rcases hcalls handle hmade with (hcurrent | ⟨-, hunflagged⟩) | hle
        · rw [hid, hwithdrawn.ended] at hcurrent
          exact Bool.false_ne_true hcurrent
        · exact hunflagged (hid ▸ hthere)
        · obtain ⟨handles, started, hworks, -⟩ := hlater.desk.works
          have hanswer := hworks.serves.cancelled_answer id (flagged_iff.mp hthere)
          have hlt := hworks.serves.answered_lt id (by rw [hanswer]; rfl)
          rw [hid] at hle
          exact absurd hlt (Nat.not_lt_of_le hle)
  exact ⟨(h.keeps_called hcalled).1.withdrawn hflagged.1, hflagged.2⟩

/-- A load that had begun by then could call the loader then, if it still can. -/
theorem Acts.mayCall (h : Acts c d) (hlt : handle.id < c.desk.coordinator.nextId)
    (hmay : d.MayCall handle) : c.MayCall handle := by
  obtain ⟨-, hcontinues⟩ := h.keeps_called hcalled
  rcases hmay with hcurrent | ⟨⟨orphan, horphan, rfl⟩, hunflagged⟩
  · exact .inl (hcontinues.desk.current _ _ hlt hcurrent)
  · -- a flag that was up then would be up now
    have hbefore : ¬ c.Flagged orphan.handle.id := fun hflag =>
      hunflagged (h.withdrawn hcalled hflag).1.flagged
    obtain ⟨old, hold, hhandle⟩ := hcontinues.desk.orphaned orphan horphan hlt
    rw [← hhandle] at hbefore ⊢
    rcases List.mem_append.mp hold with htask | hthere
    · exact .inl ((hcalled.desk.engaged old htask).resolve_right hbefore)
    · exact .inr ⟨⟨old, hthere, rfl⟩, hbefore⟩

end Cache

end BoundedCache
