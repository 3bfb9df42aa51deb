import BoundedCache.Proofs.Cache.Calling
import BoundedCache.Proofs.Cache.Setting
import BoundedCache.Proofs.Cache.Steps

/-!
# The data of a cache are on a course

A cache does nothing to its data but run errands, under its rule of expiration and at the time
of its clock (`RunsErrands`).  These are the errands that it is asked for, in their order, and
amid them what nobody has asked for from outside: the commands of hooks, however deep they nest,
and the writes of loads that end (`Aside`).
-/

namespace BoundedCache

namespace Cache

variable {K V α : Type} [DecidableEq K] {c c' c'' d : Cache K V} {task : LoadTask K V}
  {own more : List (Errand K V)}

/-- The errand is asked for by a hook, or is the write of a load. -/
inductive Aside (chain : HookChain K V) : Errand K V → Prop where
  | command (errand : Errand K V) (huser : errand.ByUser)
      (hasked : chain.Commands (.carryOut errand huser)) : Aside chain errand
  | load (key : K) (value : V) (attributes : Attributes) :
      Aside chain (.write key value attributes .loader)

/-- The one cache has come from the other, and no more happened to its data than these errands,
which were run meanwhile, and amid them some asides. -/
structure RunsErrands (c : Cache K V) (own : List (Errand K V)) (c' : Cache K V) : Prop where
  expiration_eq : c'.expiration = c.expiration
  clock_eq : c'.clock = c.clock
  hooks_eq : c'.hooks = c.hooks
  course : ∃ log, Course c.expiration c.store log c'.store ∧
    (∀ stroke ∈ log, stroke.time = c.clock) ∧ Amid (Aside c.hooks) own log

theorem runsErrands_of_eq (hexpiration : c'.expiration = c.expiration)
    (hclock : c'.clock = c.clock) (hhooks : c'.hooks = c.hooks) (hstore : c'.store = c.store) :
    RunsErrands c [] c' where
  expiration_eq := hexpiration
  clock_eq := hclock
  hooks_eq := hhooks
  course := ⟨[], hstore.symm ▸ .stay c.store, fun _ hmem => absurd hmem List.not_mem_nil, .nil⟩

theorem RunsErrands.refl (c : Cache K V) : RunsErrands c [] c := runsErrands_of_eq rfl rfl rfl rfl

theorem RunsErrands.trans (h : RunsErrands c own c') (h' : RunsErrands c' more c'') :
    RunsErrands c (own ++ more) c'' where
  expiration_eq := h'.expiration_eq.trans h.expiration_eq
  clock_eq := h'.clock_eq.trans h.clock_eq
  hooks_eq := h'.hooks_eq.trans h.hooks_eq
  course := by
    obtain ⟨log, hcourse, htimes, hamid⟩ := h.course
    obtain ⟨later, hlater, htimes', hamid'⟩ := h'.course
    rw [h.expiration_eq] at hlater
    rw [h.clock_eq] at htimes'
    rw [h.hooks_eq] at hamid'
    refine ⟨log ++ later, hcourse.trans hlater, fun stroke hmem => ?_, hamid.append hamid'⟩
    exact (List.mem_append.mp hmem).elim (htimes stroke) (htimes' stroke)

/-- What is done next is only asides. -/
theorem RunsErrands.then (h : RunsErrands c own c') (h' : RunsErrands c' [] c'') :
    RunsErrands c own c'' := by
  have hall := h.trans h'
  rwa [List.append_nil] at hall

theorem runsErrands_running (c : Cache K V) (strict : Bool) :
    RunsErrands c [] (c.running strict).2 := by
  have hsetting := c.sameSetting_running strict
  exact runsErrands_of_eq hsetting.expiration_eq hsetting.clock_eq hsetting.hooks_eq
    (c.running_alike strict).store_eq

/-! ## Changes -/

/-- The change is an aside, as far as the store is concerned. -/
def IsAside (c : Cache K V) (change : Change K V α) : Prop :=
  ∃ errand : Errand K V, Aside c.hooks errand ∧
    ∀ s now, (change.apply s now).store = errand.storeAfter c.expiration s now

theorem isAside {errand : Errand K V} (h : Aside c.hooks errand) :
    c.IsAside (errand.change c.expiration) :=
  ⟨errand, h, fun _ _ => rfl⟩

/-- An aside, and all that hooks ask for on its occasion. -/
theorem governs_runsErrands :
    Governs IsAside (fun c c' : Cache K V => RunsErrands c [] c') where
  trans h h' := h.trans h'
  hooks_eq h := h.hooks_eq
  inLedger _ _ := runsErrands_of_eq rfl rfl rfl rfl
  running := runsErrands_running
  shutDown _ := runsErrands_of_eq rfl rfl rfl rfl
  apply c change haside := by
    obtain ⟨errand, haside, hstore⟩ := haside
    have hcourse := Course.single c.expiration errand c.store c.clock
    rw [← hstore c.store c.clock] at hcourse
    exact ⟨rfl, rfl, rfl, _, hcourse, by simp, .aside haside .nil⟩
  asked _ errand huser hasked := isAside (.command errand huser hasked)
  lasting h haside := by
    obtain ⟨errand, haside, hstore⟩ := haside
    exact ⟨errand, h.hooks_eq.symm ▸ haside, h.expiration_eq.symm ▸ hstore⟩

/-- Hooks that are called ask for asides only. -/
theorem runsErrands_dispatch (c : Cache K V) (token : Token) (outcome : Option (Outcome K V)) :
    RunsErrands c [] (dispatch nestingLimit c token outcome) :=
  governs_runsErrands.dispatch nestingLimit c token outcome

theorem runsErrands_announced (c : Cache K V) (operation : Operation) :
    RunsErrands c [] (c.announced operation) :=
  c.runsErrands_dispatch _ none

theorem runsErrands_told (c : Cache K V) (token : Token) (outcomes : List (Outcome K V)) :
    RunsErrands c [] (c.told token outcomes) :=
  governs_runsErrands.foldl fun c _ outcome _ => c.runsErrands_dispatch token (some outcome)

theorem runsErrands_stored {s : Store K V} (errand : Errand K V)
    (hstore : s = errand.storeAfter c.expiration c.store c.clock) (gauged : Bool) :
    RunsErrands c [errand] (c.stored s gauged) := by
  subst hstore
  have hcourse := Course.single c.expiration errand c.store c.clock
  unfold stored
  split <;> exact ⟨rfl, rfl, rfl, _, hcourse, by simp, .single errand _ _⟩

/-- A change runs the errand that is asked for; what hooks ask for on its occasion is aside. -/
theorem runsErrands_perform (c : Cache K V) (errand : Errand K V) :
    RunsErrands c [errand] (c.perform (errand.change c.expiration)).2 := by
  have hannounced := c.runsErrands_announced (errand.change c.expiration).operation
  have hsetting := c.sameSetting_announced (errand.change c.expiration).operation
  rw [perform_eq_told]
  generalize c.announced (errand.change c.expiration).operation = d at hannounced hsetting ⊢
  have hstored := runsErrands_stored (c := d) errand rfl
    ((errand.change c.expiration).apply d.store c.clock).gauged
  rw [Errand.storeAfter, hsetting.expiration_eq, hsetting.clock_eq] at hstored
  exact (hannounced.trans hstored).then (runsErrands_told _ _ _)

/-! ## Loads -/

theorem Goes.runsErrands {old : LoadTask K V} (h : Goes c old d task) : RunsErrands c [] d := by
  rw [h.eq]
  exact runsErrands_of_eq rfl rfl rfl rfl

variable [KeyText K]

/-- A load that ends writes its value, if it has one, and nothing else. -/
theorem runsErrands_settle (c : Cache K V) (task : LoadTask K V) (outcome : LoadOutcome V) :
    RunsErrands c [] (c.settle task outcome) := by
  cases outcome with
  | nothing => exact runsErrands_of_eq rfl rfl rfl rfl
  | error shown => exact runsErrands_of_eq rfl rfl rfl rfl
  | panic shown => exact runsErrands_of_eq rfl rfl rfl rfl
  | value value =>
      have hmeasured : RunsErrands c [] (c.measure countLoad) := runsErrands_of_eq rfl rfl rfl rfl
      have haside : (c.measure countLoad).IsAside
          (.write c.expiration task.handle.key value task.attributes .loader) :=
        isAside (.load task.handle.key value task.attributes)
      have hwritten := governs_runsErrands.perform (c.measure countLoad) haside
      rw [settle_value_eq]
      generalize (c.measure countLoad).perform _ = write at hwritten ⊢
      exact (hmeasured.trans hwritten).trans (runsErrands_of_eq rfl rfl rfl rfl)

theorem Turn.runsErrands {ticket : Ticket} (h : Turn c ticket c') : RunsErrands c [] c' := by
  cases h with
  | idle hidle => exact .refl c
  | aborted hmem hid hcancelled => exact runsErrands_of_eq rfl rfl rfl rfl
  | waits hgoes hid executor => exact hgoes.runsErrands.trans (runsErrands_of_eq rfl rfl rfl rfl)
  | ends hgoes hid => exact hgoes.runsErrands.trans (runsErrands_settle _ _ _)
  | refused hgoes hid hblocking => exact hgoes.runsErrands.trans (runsErrands_settle _ _ _)
  | late hstrays hid hlive =>
      rw [hstrays.eq]
      exact runsErrands_of_eq rfl rfl rfl rfl

theorem runsErrands_requestLoad (h : c.desk.Engaged) (key : K) (attributes : Attributes)
    (forced : Bool) : RunsErrands c [] (c.requestLoad key attributes forced).2 := by
  have hengaged := h.request key attributes forced none Except.error
  have hdesk : ∀ desk, RunsErrands c [] { c with desk := desk } :=
    fun _ => runsErrands_of_eq rfl rfl rfl rfl
  rcases c.requestLoad_cases key attributes forced with heq | heq | ⟨id, heq⟩
  · rw [heq]
    exact .refl c
  · rw [heq]
    exact hdesk _
  · have hturn := turn_pollTask (c := { c with desk := _ }) hengaged id
    rw [heq]
    exact (hdesk _).trans hturn.runsErrands

/-! ## Whatever happens -/

theorem Doing.runsErrands (h : Doing c own c') (hengaged : c.desk.Engaged) :
    RunsErrands c own c' := by
  cases h with
  | run strict => exact c.runsErrands_running strict
  | shutDown => exact runsErrands_of_eq rfl rfl rfl rfl
  | shutDownNow => exact runsErrands_of_eq rfl rfl rfl rfl
  | errand errand => exact c.runsErrands_perform errand
  | request key attributes forced => exact runsErrands_requestLoad hengaged key attributes forced
  | turn ticket => exact (turn_runTicket hengaged ticket).runsErrands
  | release future =>
      cases future with
      | ready answer => exact .refl c
      | load handle => exact runsErrands_of_eq rfl rfl rfl rfl
  | openGate key => exact runsErrands_of_eq rfl rfl rfl rfl
  | abandon id => exact runsErrands_of_eq rfl rfl rfl rfl
  | schedule executor => exact runsErrands_of_eq rfl rfl rfl rfl
  | passTime elapsed sweeper => exact runsErrands_of_eq rfl rfl rfl rfl

theorem Doings.runsErrands (h : Doings c own c') (hengaged : c.desk.Engaged) :
    RunsErrands c own c' := by
  induction h with
  | refl => exact .refl c
  | tail hdoings hlast ih =>
      exact ih.trans (hlast.runsErrands ((Doings.acts hdoings).moves.engaged hengaged))

end Cache

end BoundedCache
