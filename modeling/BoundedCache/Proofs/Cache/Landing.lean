import BoundedCache.Proofs.Cache.Calling
import BoundedCache.Proofs.Cache.Liveness
import BoundedCache.Proofs.Store.Dating

/-!
# What becomes of a load

A load is asked for, has turns, and ends.  `Asked` says what a request comes to: it joins the
load of its key, begins one, or is refused by a cache that has been shut down.  `Fares` says
what a turn comes to.  If a value was found while the load was pending, it `Lands`: it is
written once, as a value of the loader, under the attributes that the loader has left and with
a deadline from that moment, and the entry that was written is the answer of the load.  If there
is no value, the load ends and nothing else happens.

A write of the loader is no read: the entry keeps its hits and its last access if there was one
before.  There is an exception to this, a value that can never fit.  The entry that it makes is
handed out but not kept, and it counts as never read.
-/

namespace BoundedCache

variable {K V : Type} [DecidableEq K]

/-! ## The entry that is written -/

/-- The entry that a write reports as new carries what it was given. -/
theorem Store.carries_put (s : Store K V) (key : K) (value : V) (attributes : Attributes)
    (expires : Option Nat) (now : Nat) :
    let new := (s.put key value attributes expires now false).1.new
    new.key = key ∧ new.value = value ∧ new.size = attributes.size ∧
      new.cost = attributes.cost ∧ new.expires = expires := by
  intro new
  have hnew : new = _ := s.new_put key value attributes expires now false
  rw [hnew]
  cases hget : s.get? key with
  | none => exact ⟨rfl, rfl, rfl, rfl, rfl⟩
  | some old =>
      dsimp only
      split
      · exact ⟨(key_rewritten old value attributes expires now false).trans (key_of_get? hget),
          rfl, rfl, rfl, rfl⟩
      · exact ⟨rfl, rfl, rfl, rfl, rfl⟩

/-- A write that is no read leaves the reads of an entry as they were, if the value fits. -/
theorem Store.keeps_put {s : Store K V} {key : K} {old : Entry K V} (hget : s.get? key = some old)
    {attributes : Attributes} (hadmits : s.admits attributes.size = true) (value : V)
    (expires : Option Nat) (now : Nat) :
    let new := (s.put key value attributes expires now false).1.new
    new.hits = old.hits ∧ new.accessed = old.accessed := by
  intro new
  have hnew : new = old.update value attributes expires now := by
    refine (s.new_put key value attributes expires now false).trans ?_
    rw [hget]
    dsimp only
    rw [if_pos hadmits]
    rfl
  rw [hnew]
  exact ⟨rfl, rfl⟩

theorem Store.resets_put {s : Store K V} {attributes : Attributes}
    (hrefused : s.admits attributes.size = false) (key : K) (value : V) (expires : Option Nat)
    (now : Nat) (recordAccess : Bool) :
    let new := (s.put key value attributes expires now recordAccess).1.new
    new.hits = 0 ∧ new.accessed = now := by
  intro new
  have hnew : new = _ := s.new_put key value attributes expires now recordAccess
  rw [hnew, hrefused]
  cases s.get? key <;> exact ⟨rfl, rfl⟩

/-! ## The end of a load -/

namespace Cache

variable {c c' d : Cache K V} {old task : LoadTask K V} {m : Merge K V}

/-- A write between its hooks. -/
theorem perform_write (c : Cache K V) (key : K) (value : V) (attributes : Attributes)
    (origin : Origin) :
    let before := c.announced .put
    let put := before.store.put key value attributes
      (c.expiration.timeOf c.clock attributes.timeout) c.clock (origin = .user)
    c.perform (.write c.expiration key value attributes origin) =
      (put.1, (before.stored put.2 true).told ⟨.put, c.clock⟩ [.put origin put.1]) :=
  c.perform_eq_told _

/-- The value of a load is written while hooks are called, and then the load has its answer.
The write begins at `d`, which is `c` but for what was noted of the load. -/
structure Lands (c d : Cache K V) (m : Merge K V) (c' : Cache K V) : Prop where
  pending : c.desk.coordinator.isCurrent m.handle.key m.handle.id = true
  quiet : Settles c [] d
  begins : d = { c with ledger := d.ledger, loaderCalls := d.loaderCalls }
  time_eq : m.time = c.clock
  /-- There is one write, and it is the loader's. -/
  performed :
    let before := d.announced .put
    let put := before.store.put m.handle.key m.value m.attributes
      (c.expiration.timeOf c.clock m.attributes.timeout) c.clock false
    let after := (before.stored put.2 true).told ⟨.put, c.clock⟩ [.put .loader put.1]
    m.written = put.1 ∧
      c' = { after with desk := after.desk.finish m.handle (.ok (some put.1.new)) }
  carries : m.written.new.key = m.handle.key ∧ m.written.new.value = m.value ∧
    m.written.new.size = m.attributes.size ∧ m.written.new.cost = m.attributes.cost ∧
    m.written.new.expires = c.expiration.timeOf c.clock m.attributes.timeout
  old_eq : m.written.old = (d.announced .put).store.get? m.handle.key
  /-- Of an entry that is replaced by a value that fits, the reads stay. -/
  keeps : ∀ old, m.written.old = some old →
    (d.announced .put).store.admits m.attributes.size = true →
    m.written.new.hits = old.hits ∧ m.written.new.accessed = old.accessed
  /-- A value that can never fit counts as never read. -/
  resets : (d.announced .put).store.admits m.attributes.size = false →
    m.written.new.hits = 0 ∧ m.written.new.accessed = c.clock
  /-- Whoever waits for the load is handed the entry that was written. -/
  answered : c'.answer? (.load m.handle) = some (.ok (some m.written.new))
  ended : c'.desk.coordinator.isCurrent m.handle.key m.handle.id = false

/-- Written where nothing has happened so far, the value of a pending load lands. -/
theorem lands_of_quiet {handle : LoadHandle K} (value : V) (attributes : Attributes)
    (hcurrent : c.desk.coordinator.isCurrent handle.key handle.id = true)
    (hquiet : Settles c [] d)
    (hbegins : d = { c with ledger := d.ledger, loaderCalls := d.loaderCalls }) :
    let write := d.perform (.write c.expiration handle.key value attributes .loader)
    Lands c d ⟨handle, value, attributes, c.clock, write.1⟩
      { write.2 with desk := write.2.desk.finish handle (.ok (some write.1.new)) } := by
  let before := d.announced .put
  let expires := c.expiration.timeOf c.clock attributes.timeout
  let put := before.store.put handle.key value attributes expires c.clock false
  let after := (before.stored put.2 true).told ⟨.put, c.clock⟩ [.put .loader put.1]
  have hwrite : d.perform (.write c.expiration handle.key value attributes .loader) =
      (put.1, after) := by
    have hperform := d.perform_write handle.key value attributes .loader
    dsimp only at hperform
    have hclock : d.clock = c.clock := by rw [hbegins]
    rw [hquiet.expiration_eq, hclock] at hperform
    exact hperform
  have hloads := steady_sameLoads.perform d
    (.write c.expiration handle.key value attributes .loader)
  dsimp only
  rw [hwrite] at hloads ⊢
  obtain ⟨state, hafter⟩ := hloads
  have hdesk : d.desk = c.desk := by rw [hbegins]
  rw [hdesk] at hafter
  have hpending : ({ c.desk.coordinator with lifecycle := state } : Coordinator K _).isCurrent
      handle.key handle.id = true := hcurrent
  refine ⟨hcurrent, hquiet, hbegins, rfl, ⟨rfl, rfl⟩, Store.carries_put _ _ _ _ _ _,
    Store.old_put _ _ _ _ _ _ _, fun old hold hadmits => ?_,
    fun hrefused => Store.resets_put hrefused _ _ _ _ _, ?_, ?_⟩
  · have hget := (Store.old_put before.store handle.key value attributes expires c.clock false).symm
    exact Store.keeps_put (hget.trans hold) hadmits value expires c.clock
  · show (after.desk.finish handle _).coordinator.answer? handle.id = _
    rw [hafter]
    exact Coordinator.answer?_complete hpending _
  · show (after.desk.finish handle _).coordinator.isCurrent handle.key handle.id = false
    rw [hafter]
    exact Coordinator.isCurrent_complete_self _ _ _ _

section

variable [KeyText K] {ticket : Ticket} {value : V}

/-- A value that was found in a turn lands. -/
theorem Goes.lands (h : Goes c old d { task with phase := .answered (.value value) }) :
    ∃ m : Merge K V, m.handle = old.handle ∧ m.attributes = task.attributes ∧ m.value = value ∧
      Lands c (d.measure countLoad) m (d.settle task (.value value)) := by
  have hcounted : Settles d [] (d.measure countLoad) :=
    Lingers.settles ⟨.refl _, .refl _ _, rfl, rfl, rfl⟩ rfl (.none rfl rfl rfl rfl)
  have hexpiration : d.expiration = c.expiration := by rw [h.eq]
  have hhandle : task.handle = old.handle := h.follows.handle_eq
  have hcurrent : c.desk.coordinator.isCurrent task.handle.key task.handle.id = true := by
    rw [hhandle]
    exact h.current
  have hbegins : d.measure countLoad =
      { c with ledger := (d.measure countLoad).ledger, loaderCalls := d.loaderCalls } := by
    rw [h.eq]
    rfl
  have hlands := lands_of_quiet value task.attributes hcurrent (h.settles.trans hcounted) hbegins
  rw [settle_value_eq, hexpiration]
  exact ⟨_, hhandle, rfl, rfl, hlands⟩

/-- Without a value a load ends with nothing or with an error. -/
theorem answer_of_none {outcome : LoadOutcome V}
    (hcurrent : c.desk.coordinator.isCurrent task.handle.key task.handle.id = true)
    (hnone : outcome.found? task.attributes = none) :
    ∃ answer, (c.settle task outcome).answer? (.load task.handle) = some answer ∧
      ∀ e, answer ≠ .ok (some e) := by
  cases outcome with
  | value value => exact nomatch hnone
  | nothing => exact ⟨_, Coordinator.answer?_complete hcurrent _, nofun⟩
  | error shown => exact ⟨_, Coordinator.answer?_complete hcurrent _, nofun⟩
  | panic shown => exact ⟨_, Coordinator.answer?_complete hcurrent _, nofun⟩

/-! ## Turns -/

/-- How the load of a ticket fares in a turn. -/
inductive Fares (c : Cache K V) (ticket : Ticket) (c' : Cache K V) : Prop where
  | idle (hidle : c.desk.Idles ticket) (hsame : c' = c)
  | aborted {task : LoadTask K V} (hmem : task ∈ c.desk.tasks)
      (hid : task.handle.id = ticket.load)
      (hcancelled : c.desk.coordinator.isCancelled ticket.load = true) (hfrozen : Frozen c c')
  /-- The load goes on to be pending. -/
  | waits {task later : LoadTask K V} (hmem : task ∈ c.desk.tasks)
      (hid : task.handle.id = ticket.load)
      (hcurrent : c.desk.coordinator.isCurrent task.handle.key task.handle.id = true)
      (hlater : later ∈ c'.desk.tasks) (hfollows : later.Follows c.loader task)
      (hfate : later.fate c.loader (c.callCount task.handle.key) =
        task.fate c.loader (c.callCount task.handle.key))
      (hquiet : Settles c [] c') (hsame : c'.desk.coordinator = c.desk.coordinator)
  /-- There is the value that the task was heading for, if it had yet to call the loader then
  after the calls that there were. -/
  | lands {task : LoadTask K V} {d : Cache K V} {m : Merge K V} (hmem : task ∈ c.desk.tasks)
      (hid : task.handle.id = ticket.load) (hhandle : m.handle = task.handle)
      (hfate : task.fate c.loader (c.callCount task.handle.key) = some (m.attributes, m.value))
      (hlands : Lands c d m c')
  /-- There is no value, or the executor refuses a job that the load needs. -/
  | fails {task : LoadTask K V} {answer : Answer K V} (hmem : task ∈ c.desk.tasks)
      (hid : task.handle.id = ticket.load)
      (hcurrent : c.desk.coordinator.isCurrent task.handle.key task.handle.id = true)
      (hcause : task.fate c.loader (c.callCount task.handle.key) = none ∨
        c.desk.executor.blocking = .reject ∨ c.desk.executor.blocking = .drop)
      (hquiet : Settles c [] c')
      (hanswered : c'.answer? (.load task.handle) = some answer)
      (hnone : ∀ e, answer ≠ .ok (some e))
  /-- The executor has dropped the task of the job, so the load is over.  The job is run all the
  same, and if the loader is called, nobody hears of what it finds. -/
  | late {task : LoadTask K V} (hmem : task ∈ c.desk.orphans)
      (hid : task.handle.id = ticket.load)
      (hlive : c.desk.coordinator.isCancelled ticket.load = false)
      (hcalls : c'.loaderCalls = c.loaderCalls ∨
        c'.loaderCalls = task.handle :: c.loaderCalls ∧ task.phase.awaitsCall = true)
      (hquiet : Settles c [] c') (hsame : c'.desk.coordinator = c.desk.coordinator)
      (htasks : c'.desk.tasks = c.desk.tasks)

theorem Goes.fails {phase : Phase V} {outcome : LoadOutcome V}
    (h : Goes c old d { task with phase := phase }) (hid : old.handle.id = ticket.load)
    (hnone : outcome.found? task.attributes = none)
    (hcause : old.fate c.loader (c.callCount old.handle.key) = none ∨
      c.desk.executor.blocking = .reject ∨ c.desk.executor.blocking = .drop) :
    Fares c ticket (d.settle task outcome) := by
  have hcurrent : d.desk.coordinator.isCurrent task.handle.key task.handle.id = true :=
    h.isCurrent
  obtain ⟨answer, hanswered, hvalue⟩ := answer_of_none hcurrent hnone
  have hhandle : task.handle = old.handle := h.follows.handle_eq
  rw [hhandle] at hanswered
  exact .fails h.mem hid h.current hcause (h.settles.trans (settles_settle_of_none hnone))
    hanswered hvalue

theorem Turn.fares (h : Turn c ticket c') : Fares c ticket c' := by
  cases h with
  | idle hidle => exact .idle hidle rfl
  | aborted hmem hid hcancelled => exact .aborted hmem hid hcancelled (c.frozen_finish _ _)
  | @waits old task d h hid executor =>
      have hset := (frozen_setTask h.foresees).trans (frozen_inExecutor _ executor)
      have hthere : task ∈ (d.desk.setTask task).tasks := by
        rw [h.desk_eq]
        refine List.mem_map.mpr ⟨old, h.mem, if_pos ?_⟩
        rw [h.follows.handle_eq]
      have hsame : d.desk.coordinator = c.desk.coordinator := by rw [h.desk_eq]
      exact .waits h.mem hid h.current hthere h.follows h.fate_eq (h.settles.trans hset.settles)
        hsame
  | @ends old task d outcome h hid =>
      cases outcome with
      | value value =>
          obtain ⟨m, hhandle, hattributes, hvalue, hlands⟩ := h.lands
          refine .lands h.mem hid hhandle (h.fate_eq.symm.trans ?_) hlands
          rw [hattributes, hvalue]
          rfl
      | nothing => exact h.fails hid rfl (.inl h.fate_eq.symm)
      | error shown => exact h.fails hid rfl (.inl h.fate_eq.symm)
      | panic shown => exact h.fails hid rfl (.inl h.fate_eq.symm)
  | refused h hid hblocking => exact h.fails hid rfl (.inr hblocking)
  | late h hid hlive =>
      have hdesk := h.desk_eq
      exact .late h.mem hid hlive h.calls (h.settles _) (congrArg (·.coordinator) hdesk)
        (congrArg (·.tasks) hdesk)

/-! ## Requests -/

/-- What a request for a load comes to. -/
inductive Asked (c : Cache K V) (key : K) (attributes : Attributes) (forced : Bool) :
    Future K V × Cache K V → Prop where
  | joined {load : PendingLoad} (hload : c.desk.coordinator.pending? key = some load) :
      Asked c key attributes forced (.load ⟨key, load.id⟩,
        { c with desk := { c.desk with coordinator := c.desk.coordinator.recount key (· + 1) } })
  | unavailable (hfree : c.desk.coordinator.pending? key = none)
      (hdown : c.lifecycle.isDown = true) :
      Asked c key attributes forced (.ready (.error (.unavailable c.lifecycle.name)), c)
  | started {launch : LoadDesk.Launch} {desk : LoadDesk K V (Answer K V)}
      (hfree : c.desk.coordinator.pending? key = none) (hup : c.lifecycle.isDown = false)
      (hbegins : c.desk.Begins (c.desk.newTask key attributes forced none) .error launch desk) :
      Asked c key attributes forced (.load ⟨key, c.desk.coordinator.nextId⟩,
        match launch with
        | .later => { c with desk := desk }
        | .now => { c with desk := desk }.runTicket (.task c.desk.coordinator.nextId))

theorem asked_requestLoad (hloader : c.loader.isSome = true) (key : K) (attributes : Attributes)
    (forced : Bool) : Asked c key attributes forced (c.requestLoad key attributes forced) := by
  unfold requestLoad
  split
  · rename_i hnone
    rw [hnone] at hloader
    exact absurd hloader Bool.false_ne_true
  rcases c.desk.request_cases key attributes forced none .error with
    ⟨load, hload, heq⟩ | ⟨hfree, hdown, heq⟩ | ⟨hfree, hup, launch, desk, hbegins, heq⟩
  · rw [heq]
    exact .joined hload
  · rw [heq]
    exact .unavailable hfree hdown
  · rw [heq]
    have hstarted := Asked.started (c := c) hfree hup hbegins
    cases launch with
    | later => exact hstarted
    | now => exact hstarted

/-! ## Reads -/

/-- The loads of the two caches are the same, and so are the calls of the loader. -/
def Undisturbed (c c' : Cache K V) : Prop := SameLoads c c' ∧ c'.loaderCalls = c.loaderCalls

omit [KeyText K] in
theorem undisturbed_perform {α : Type} (c : Cache K V) (change : Change K V α) :
    Undisturbed c (c.perform change).2 :=
  ⟨steady_sameLoads.perform c change, (steady_sameSetting.perform c change).loaderCalls_eq⟩

/-- A read that finds a live entry asks for no load. -/
theorem get_of_found (h : c.lifecycle = .running) {key : K} {entry : Entry K V}
    (hfound : c.found .get key = some entry) (attributes : Attributes) :
    (c.get key attributes).1 = .ready (.ok (some (entry.access c.clock))) ∧
      Undisturbed c (c.get key attributes).2 := by
  have hread : (c.perform (.lookup c.expiration key)).1 = some (entry.access c.clock) := by
    rw [read_eq_found, hfound]
    rfl
  rw [get_of_running h, hread]
  exact ⟨rfl, c.undisturbed_perform _⟩

/-- Any other read asks for one, after it has looked. -/
theorem asked_get (h : c.lifecycle = .running) (hloader : c.loader.isSome = true) {key : K}
    (hmissed : c.found .get key = none) (attributes : Attributes) :
    ∃ read, Undisturbed c read ∧ Asked read key attributes false (c.get key attributes) := by
  have hread : (c.perform (.lookup c.expiration key)).1 = none := by
    rw [read_eq_found, hmissed]
    rfl
  have hsetting := steady_sameSetting.perform c (.lookup c.expiration key)
  have hthere : (c.perform (.lookup c.expiration key)).2.loader.isSome = true := by
    rw [hsetting.loader_eq]
    exact hloader
  refine ⟨_, c.undisturbed_perform (.lookup c.expiration key), ?_⟩
  rw [get_of_running h, hread]
  dsimp only
  rw [if_neg (by rw [Option.isNone_eq_false_iff.mpr hthere]; exact Bool.false_ne_true)]
  exact asked_requestLoad hthere key attributes false

theorem load_of_live (h : c.lifecycle = .running) {key : K} {entry : Entry K V}
    (hlive : c.live? key = some entry) (attributes : Attributes) :
    c.load key attributes = (.ready (.ok (some entry)), c) := by
  rw [load_of_running h, hlive]

theorem asked_load (h : c.lifecycle = .running) (hloader : c.loader.isSome = true) {key : K}
    (hnone : c.live? key = none) (attributes : Attributes) :
    Asked c key attributes false (c.load key attributes) := by
  rw [load_of_running h, hnone]
  exact asked_requestLoad hloader key attributes false

theorem asked_forceLoad (h : c.lifecycle = .running) (hloader : c.loader.isSome = true)
    (key : K) : Asked c key {} true (c.forceLoad key) := by
  rw [forceLoad, running_of_running h]
  exact asked_requestLoad hloader key {} true

/-- Reads and loads that find the cache ready start it, and go on as in a cache that runs. -/
theorem asks_of_started (h : c.running true = (.ok true, d)) (key : K) (attributes : Attributes) :
    c.get key attributes = d.get key attributes ∧ c.load key attributes = d.load key attributes ∧
      c.forceLoad key = d.forceLoad key := by
  have hagain := running_of_running (running_of_started h) true
  unfold get load forceLoad
  rw [h, hagain]
  exact ⟨rfl, rfl, rfl⟩

end

end Cache

end BoundedCache
