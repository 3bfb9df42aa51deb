import BoundedCache.Proofs.Session.Loading

/-!
# Loads whose tasks are refused

An executor that refuses the task of a new load has dropped it by then, and the drop has
answered the load.  So the error that the executor gives is seen by nobody.  All that is left of
such a request is a number that is used up and has an answer (`Coordinator.spend`).  Nothing is
written, the key is as free as it was, and who asks for it again begins a load of its own
(`Cache.Refused`).
-/

namespace BoundedCache

variable {K V ρ : Type}

/-- A refusal leaves the executor what it was. -/
theorem Executor.admitTask_of_reject {e : Executor} (h : e.admitTask.1 = .reject) :
    e.admitTask = (.reject, e) := by
  unfold admitTask at h ⊢
  split
  · rfl
  · rename_i hallowance
    split
    · rfl
    · rename_i hspawning
      simp only at h
      exact absurd h hspawning

variable [DecidableEq K]

namespace Coordinator

variable {c : Coordinator K ρ} {key : K}

/-- The next number is used up, and has an answer from the start. -/
def spend (c : Coordinator K ρ) (answer : ρ) : Coordinator K ρ :=
  { c with answers := (c.nextId, answer) :: c.answers, nextId := c.nextId + 1 }

theorem erase_begin (hfree : c.pending? key = none) :
    erase (c.begin key).pending key = c.pending := by
  have hothers : erase c.pending key = c.pending := by
    refine List.filter_eq_self.mpr fun entry hentry => decide_eq_true fun hkey => ?_
    have hnone := List.lookup_eq_none_iff.mp hfree entry hentry
    simp [hkey] at hnone
  rw [erase] at hothers ⊢
  rw [begin, List.filter_append, hothers]
  simp

/-- A load that is answered as soon as it has begun leaves the table as it was. -/
theorem complete_begin (hfree : c.pending? key = none) (hup : c.lifecycle.isDown = false)
    (answer : ρ) : (c.begin key).complete key c.nextId answer = c.spend answer := by
  have hcurrent : (c.begin key).isCurrent key c.nextId = true :=
    isCurrent_iff.mpr ⟨_, (pending?_begin hfree key).trans (if_pos rfl), rfl⟩
  have hrunning : ((c.begin key).resolve key c.nextId answer).lifecycle.isDown = false := hup
  rw [complete_of_current hcurrent, mayDrain, hrunning, Bool.false_and,
    if_neg Bool.false_ne_true, resolve, erase_begin hfree]
  rfl

end Coordinator

namespace LoadDesk

variable {d : LoadDesk K V ρ} {key : K}

/-- The answer of a load whose task is refused is that of a task that was dropped, whatever
error the executor gives. -/
theorem request_of_refused (hreject : d.executor.admitTask.1 = .reject)
    (hfree : d.coordinator.pending? key = none) (hup : d.coordinator.lifecycle.isDown = false)
    (attributes : Attributes) (forced : Bool) (program : Option (LoadProgram V))
    (ofError : CacheError → ρ) :
    d.request key attributes forced program ofError =
      ((.started ⟨key, d.coordinator.nextId⟩, .later),
        { d with coordinator := d.coordinator.spend (ofError .dropped) }) := by
  have hlate := (d.coordinator.begin key).isCurrent_complete_self key d.coordinator.nextId
    (ofError .dropped)
  have hdropped := Coordinator.complete_begin hfree hup (ofError .dropped)
  rw [request, Coordinator.attach_of_free hfree hup]
  dsimp only
  rw [launch, Executor.admitTask_of_reject hreject]
  dsimp only
  rw [complete, complete, Coordinator.complete_of_late hlate, hdropped]

/-- A load whose task is taken into the queue is pending. -/
theorem isCurrent_of_queued (hqueue : d.executor.admitTask.1 = .queue)
    (hfree : d.coordinator.pending? key = none) (hup : d.coordinator.lifecycle.isDown = false)
    (attributes : Attributes) (forced : Bool) (program : Option (LoadProgram V))
    (ofError : CacheError → ρ) :
    ∃ d', d.request key attributes forced program ofError =
        ((.started ⟨key, d.coordinator.nextId⟩, .later), d') ∧
      d.newTask key attributes forced program ∈ d'.tasks ∧
      d'.coordinator.isCurrent key d.coordinator.nextId = true := by
  rcases hadmission : d.executor.admitTask with ⟨admission, executor⟩
  obtain rfl : admission = .queue := by rwa [hadmission] at hqueue
  rw [request, Coordinator.attach_of_free hfree hup]
  dsimp only
  rw [launch, hadmission]
  dsimp only
  rw [wake_eq]
  refine ⟨_, rfl, List.mem_append_right _ (List.mem_singleton.mpr rfl), ?_⟩
  exact Coordinator.isCurrent_iff.mpr
    ⟨_, (Coordinator.pending?_begin hfree key).trans (if_pos rfl), rfl⟩

end LoadDesk

namespace Cache

variable [KeyText K] {c d : Cache K V} {key : K}

/-- The cache after a request whose task was refused: a load has been begun, and its task was
dropped. -/
def spent (c : Cache K V) : Cache K V :=
  { c with desk := { c.desk with
      coordinator := c.desk.coordinator.spend (.error .dropped) } }

omit [DecidableEq K] [KeyText K] in
theorem answer?_spent (c : Cache K V) (key : K) :
    c.spent.answer? (.load ⟨key, c.desk.coordinator.nextId⟩) = some (.error .dropped) := by
  show List.lookup c.desk.coordinator.nextId ((c.desk.coordinator.nextId, _) :: _) = _
  rw [List.lookup_cons_self]

/-- What becomes of a request for a load of `key` whose task is refused. -/
structure Refused (c : Cache K V) (key : K) (asked : Future K V × Cache K V) : Prop where
  asked_eq : asked = (.load ⟨key, c.desk.coordinator.nextId⟩, c.spent)
  not_pending : asked.2.desk.coordinator.isPending key = false
  /-- Whoever waits for the load is told that its task was dropped, and nothing else. -/
  answered : ∀ e, Acts asked.2 e → e.answer? asked.1 = some (.error .dropped)
  /-- The next request for the key begins a load of its own. -/
  afresh : ∀ e, Acts asked.2 e → e.desk.coordinator.pending? key = none →
    e.lifecycle.isDown = false → ∀ attributes forced,
      let again := e.requestLoad key attributes forced
      c.desk.coordinator.nextId < e.desk.coordinator.nextId ∧
        again.1 = .load ⟨key, e.desk.coordinator.nextId⟩ ∧
        (e.desk.executor.admitTask.1 = .queue →
          e.desk.newTask key attributes forced none ∈ again.2.desk.tasks ∧
            again.2.desk.coordinator.isCurrent key e.desk.coordinator.nextId = true)

/-- A load whose task is not run at once begins, and that is all. -/
theorem requestLoad_of_later (hloader : c.loader.isSome = true) {attributes : Attributes}
    {forced : Bool} {handle : LoadHandle K} {desk : LoadDesk K V (Answer K V)}
    (hrequest : c.desk.request key attributes forced none .error =
      ((.started handle, .later), desk)) :
    c.requestLoad key attributes forced = (.load handle, { c with desk := desk }) := by
  unfold requestLoad
  split
  · rename_i hnone
    rw [hnone] at hloader
    exact absurd hloader Bool.false_ne_true
  · rw [hrequest]

/-- Where nobody is loading the key, a request begins a load with the next number. -/
theorem requestLoad_of_free (hloader : c.loader.isSome = true)
    (hfree : c.desk.coordinator.pending? key = none) (hup : c.lifecycle.isDown = false)
    (attributes : Attributes) (forced : Bool) :
    let asked := c.requestLoad key attributes forced
    asked.1 = .load ⟨key, c.desk.coordinator.nextId⟩ ∧
      (c.desk.executor.admitTask.1 = .queue →
        c.desk.newTask key attributes forced none ∈ asked.2.desk.tasks ∧
          asked.2.desk.coordinator.isCurrent key c.desk.coordinator.nextId = true) := by
  intro asked
  constructor
  · have hasked := asked_requestLoad hloader key attributes forced
    generalize hasked' : c.requestLoad key attributes forced = request at hasked
    cases hasked with
    | joined hload =>
        rw [hfree] at hload
        exact nomatch hload
    | unavailable _ hdown =>
        rw [hup] at hdown
        exact absurd hdown Bool.false_ne_true
    | started => exact congrArg Prod.fst hasked'
  · intro hqueue
    obtain ⟨desk, hrequest, htask, hcurrent⟩ :=
      LoadDesk.isCurrent_of_queued hqueue hfree hup attributes forced none .error
    have hasked : asked = (.load ⟨key, c.desk.coordinator.nextId⟩, { c with desk := desk }) :=
      requestLoad_of_later hloader hrequest
    rw [hasked]
    exact ⟨htask, hcurrent⟩

/-- A refused request is undone but for its number, and its answer is there for good. -/
theorem Called.refused (h : c.Called) (hreject : c.desk.executor.admitTask.1 = .reject)
    (hfree : c.desk.coordinator.pending? key = none) (hup : c.lifecycle.isDown = false)
    (attributes : Attributes) (forced : Bool) :
    c.Refused key (c.requestLoad key attributes forced) := by
  have hasked : c.requestLoad key attributes forced =
      (.load ⟨key, c.desk.coordinator.nextId⟩, c.spent) :=
    requestLoad_of_later h.loader (LoadDesk.request_of_refused hreject hfree hup _ _ _ _)
  obtain ⟨hspent, -⟩ := c.keeps_requestLoad key attributes forced h
  rw [hasked] at hspent ⊢
  refine ⟨rfl, ?_, fun e hacts => ?_, fun e hacts hfree' hup' attributes' forced' => ?_⟩
  · show Option.isSome (c.desk.coordinator.pending? key) = false
    rw [hfree]
    rfl
  · exact ((hacts.outlasts hspent).answered _ _ (c.answer?_spent key)).1
  · obtain ⟨hlater, hcontinues⟩ := hacts.keeps_called hspent
    exact ⟨hcontinues.desk.nextId_le, requestLoad_of_free hlater.loader hfree' hup' _ _⟩

end Cache

namespace Session

variable [KeyText K] {b : Builder K V} {c : Cache K V} {loader : Loader K V}

/-- Whenever the executor refuses the task of a new load, nobody but the drop of the task has a
say in the answer.  The cache is what it was otherwise, and the key can be loaded again. -/
theorem live_refused (hbuild : b.build = .ok c) (hloader : b.loader = some loader) {d : Cache K V}
    (hacts : Cache.Acts c d) (hreject : d.desk.executor.admitTask.1 = .reject) (key : K)
    (hfree : d.desk.coordinator.pending? key = none) (hup : d.lifecycle.isDown = false) :
    (∀ attributes forced, d.Refused key (d.requestLoad key attributes forced)) ∧
      (d.lifecycle = .running →
        d.Refused key (d.forceLoad key) ∧
        ∀ attributes,
          (d.live? key = none → d.Refused key (d.load key attributes)) ∧
          -- a read calls hooks before, and these may shut the cache down
          let read := d.perform (.lookup d.expiration key)
          read.1 = none → read.2.lifecycle.isDown = false →
            read.2.Refused key (d.get key attributes)) := by
  obtain ⟨hcalled, hsame⟩ := Builder.called_build hbuild (by rw [hloader]; rfl)
  obtain ⟨hthere, -⟩ := hacts.keeps_called hcalled
  refine ⟨hthere.refused hreject hfree hup, fun hrunning => ⟨?_, fun attributes => ⟨?_, ?_⟩⟩⟩
  · rw [Cache.forceLoad, Cache.running_of_running hrunning]
    exact hthere.refused hreject hfree hup {} true
  · intro hnone
    rw [Cache.load_of_running hrunning, hnone]
    exact hthere.refused hreject hfree hup attributes false
  · intro read hmissed hstill
    obtain ⟨hread, -⟩ := (d.acts_perform (.lookup d.expiration key)).keeps_called hthere
    obtain ⟨state, hdesk⟩ := Cache.steady_sameLoads.perform d (.lookup d.expiration key)
    rw [Cache.get_of_running hrunning]
    rw [show (d.perform (.lookup d.expiration key)).1 = none from hmissed]
    dsimp only
    rw [if_neg (by rw [Option.isNone_eq_false_iff.mpr hread.loader]; exact Bool.false_ne_true)]
    refine hread.refused ?_ ?_ hstill attributes false
    · rw [hdesk]
      exact hreject
    · rw [hdesk]
      exact hfree

/-- The theorem for an executor with an error of its own, in a cache that holds another key.  When
the executor takes tasks again, the load of the key begins anew. -/
theorem live_refused_reopened :
    let loader : Loader String Nat := ⟨false, fun _ _ _ => .finish (.value 7)⟩
    let b : Builder String Nat :=
      { executor := some
          { spawning := .reject
            refusal := { kind := .rejected, message := "full", context := [("pool", "p")] } }
        loader := some loader }
    ∃ c, b.build = .ok c ∧
      let d := (live ⟨c, []⟩ [.request (.put "b" 1 {})]).cache
      let asked := d.load "a" {}
      let opened := asked.2.treat .queue .queue
      d.Refused "a" asked ∧ (opened.answer? asked.1).bind Except.toOption = none ∧
        ((opened.load "a" {}).2.runIdle.answer? (.load ⟨"a", 1⟩)).bind Except.toOption =
          some (some (.new "a" 7 {} none 0)) := by
  intro loader b
  obtain ⟨hlives, -⟩ := live_loads (b := b) rfl rfl
  obtain ⟨-, hrunning⟩ := live_refused (b := b) rfl rfl
    (hlives [.request (.put "b" 1 {})]) (by decide +kernel) "a" (by decide +kernel)
    (by decide +kernel)
  obtain ⟨-, hloads⟩ := hrunning (by decide +kernel)
  exact ⟨_, rfl, (hloads {}).1 (by decide +kernel), by decide +kernel, by decide +kernel⟩

/-- Whoever waits for a load whose task was refused is not told the error of the executor. -/
theorem refusal_unseen :
    let b : Builder String Nat :=
      { executor := some { spawning := .reject, refusal := .exhausted }
        loader := some ⟨false, fun _ _ _ => .finish .nothing⟩ }
    ∃ c, b.build = .ok c ∧
      let asked := c.load "a" {}
      asked.2.answer? asked.1 ≠ some (.error c.desk.executor.refusal) := by
  refine ⟨_, rfl, fun hanswer => ?_⟩
  have hmessage := congrArg (Option.map fun
    | .ok _ => ""
    | .error (e : CacheError) => e.message) hanswer
  exact absurd hmessage (by decide +kernel)

end Session

end BoundedCache
