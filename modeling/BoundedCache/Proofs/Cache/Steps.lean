import BoundedCache.Cache.Operations
import BoundedCache.Proofs.Cache.Perform
import BoundedCache.Proofs.Cache.Running

/-!
# What an operation passes on

Every operation on a cache is a sequence of changes between steps that are not seen at
all: those that concern loads, the lifecycle and time (`Alike`).  So it passes on what its
changes account for, whatever loads do meanwhile.  `Passes` keeps of the outcomes only how
many are reads and how many are replacements: reading has one of the former, `replace` one
of the latter if it answers an entry, and no other operation has any.
-/

namespace BoundedCache

namespace Cache

variable {K V α : Type} {c c' c'' : Cache K V}

/-! ## Unseen steps -/

variable [DecidableEq K] {operation : Cache K V → α × Cache K V}

/-- The two caches have the same store and hooks, and nothing was told in between. -/
structure Alike (c c' : Cache K V) : Prop where
  store_eq : c'.store = c.store
  hooks_eq : c'.hooks = c.hooks
  tells : ∀ m n, Ledger.Tells m n c.ledger [] c'.ledger

theorem alike_of_eq (hstore : c'.store = c.store) (hhooks : c'.hooks = c.hooks)
    (hledger : c'.ledger = c.ledger) : Alike c c' :=
  ⟨hstore, hhooks, fun _ _ => hledger ▸ .refl⟩

theorem Alike.refl : Alike c c := alike_of_eq rfl rfl rfl

theorem Alike.trans (h : Alike c c') (hlater : Alike c' c'') : Alike c c'' where
  store_eq := hlater.store_eq.trans h.store_eq
  hooks_eq := hlater.hooks_eq.trans h.hooks_eq
  tells m n := (h.tells m n).trans (hlater.tells m n)

/-- The desk is not seen. -/
theorem alike_desk (c : Cache K V) (desk : LoadDesk K V (Answer K V)) :
    Alike c { c with desk := desk } :=
  alike_of_eq rfl rfl rfl

/-- A note about the loader is not seen. -/
theorem alike_note (c : Cache K V) {n : Note K V} (hheard : ∀ i, n.heard? i = none)
    (htold : n.told? = none) : Alike c (c.note n) where
  store_eq := rfl
  hooks_eq := rfl
  tells _ _ := by
    refine ⟨rfl, fun i _ => ?_, ?_⟩
    · refine (Ledger.note_heardBy c.ledger n i).trans ?_
      rw [hheard]
      rfl
    · refine (Ledger.note_told c.ledger n).trans ?_
      rw [htold]
      rfl

theorem alike_measure (c : Cache K V) (change : Metrics → Metrics) : Alike c (c.measure change) :=
  ⟨rfl, rfl, fun _ _ => .of_eq rfl rfl⟩

theorem startSweeper_alike (c : Cache K V) : Alike c c.startSweeper.2 := by
  unfold startSweeper
  split
  · exact .refl
  · split
    · exact alike_of_eq rfl rfl rfl
    · exact .refl

theorem lazyStart_alike (c : Cache K V) (strict : Bool) :
    Alike c (Lifecycle.lazyStart lifecycle setLifecycle strict startSweeper c).2 := by
  have hstart := startSweeper_alike (c.setLifecycle .starting)
  -- a start that succeeds or fails is followed by one more change of the lifecycle
  unfold Lifecycle.lazyStart
  split
  · split
    · rename_i hok
      rw [hok] at hstart
      exact (alike_desk c _).trans (hstart.trans (alike_desk _ _))
    · rename_i herror
      rw [herror] at hstart
      exact (alike_desk c _).trans (hstart.trans (alike_desk _ _))
  · exact .refl

/-- Starting the cache is not seen. -/
theorem running_alike (c : Cache K V) (strict : Bool) : Alike c (c.running strict).2 := by
  have hstart := lazyStart_alike c strict
  unfold running
  split
  · rename_i hok
    rw [hok] at hstart
    exact hstart
  · rename_i hother
    rw [hother] at hstart
    exact hstart.trans (alike_desk _ _)

theorem shutDown_alike (c : Cache K V) : Alike c c.shutDown.2 := alike_of_eq rfl rfl rfl

theorem shutDownNow_alike (c : Cache K V) : Alike c c.shutDownNow.2 := alike_of_eq rfl rfl rfl

theorem release_alike (c : Cache K V) (future : Future K V) : Alike c (c.release future) := by
  cases future with
  | ready answer => exact .refl
  | load handle => exact alike_desk c _

theorem releaseAll_alike (c : Cache K V) (futures : List (Future K V)) :
    Alike c (c.releaseAll futures) := by
  induction futures generalizing c with
  | nil => exact .refl
  | cons future rest ih => exact (release_alike c future).trans (ih _)

theorem callLoader_alike (c : Cache K V) (loader : Loader K V) (task : LoadTask K V) :
    Alike c (c.callLoader loader task).2 := by
  have hcalled : Alike c { c with loaderCalls := task.handle :: c.loaderCalls } :=
    alike_of_eq rfl rfl rfl
  exact hcalled.trans (alike_note _ (fun _ => rfl) rfl)

theorem doWork_alike (c : Cache K V) (task : LoadTask K V) (work : Work V) :
    Alike c (c.doWork task work).2 := by
  unfold doWork
  split
  · exact .refl
  · split
    · exact .refl
    · exact callLoader_alike c _ task

theorem runJob_alike (c : Cache K V) (id : Nat) : Alike c (c.runJob id) := by
  unfold runJob
  split
  · exact .refl
  · exact (doWork_alike c _ _).trans (alike_desk _ _)

/-! ## Passing on -/

variable {listeners : List (Listener K V)} {r r' p p' : Nat}

/-- The second cache follows from the first by outcomes that were told, with so many reads
and replacements among them. -/
def Passes (listeners : List (Listener K V)) (c : Cache K V) (r p : Nat) (c' : Cache K V) :
    Prop :=
  ∃ outcomes, c.Accounts listeners outcomes c' ∧ reads outcomes = r ∧ replacements outcomes = p

theorem Passes.sound (h : Passes listeners c r p c') (hs : c.Sound listeners) :
    c'.Sound listeners := by
  obtain ⟨outcomes, haccounts, -, -⟩ := h
  exact haccounts.sound hs

theorem Passes.trans (h : Passes listeners c r p c') (hlater : Passes listeners c' r' p' c'') :
    Passes listeners c (r + r') (p + p') c'' := by
  obtain ⟨first, hfirst, hreads, hreplaced⟩ := h
  obtain ⟨later, hafter, hreads', hreplaced'⟩ := hlater
  refine ⟨first ++ later, hfirst.trans hafter, ?_, ?_⟩
  · rw [reads_append, hreads, hreads']
  · rw [replacements_append, hreplaced, hreplaced']

theorem Alike.passes (h : Alike c c') (hs : c.Sound listeners) : Passes listeners c 0 0 c' := by
  refine ⟨[], ⟨h.hooks_eq, ?_, h.tells _ _⟩, rfl, rfl⟩
  rw [h.store_eq]
  exact hs.agrees.reports

theorem Alike.sound (h : Alike c c') (hs : c.Sound listeners) : c'.Sound listeners :=
  (h.passes hs).sound hs

/-- Unseen steps may come first. -/
theorem Alike.then (h : Alike c c') (hs : c.Sound listeners)
    (hlater : Passes listeners c' r p c'') : Passes listeners c r p c'' := by
  have hall := (h.passes hs).trans hlater
  rwa [Nat.zero_add, Nat.zero_add] at hall

/-- Unseen steps may come last. -/
theorem Passes.unseen (h : Passes listeners c r p c') (hs : c.Sound listeners)
    (hlater : Alike c' c'') : Passes listeners c r p c'' :=
  h.trans (hlater.passes (h.sound hs))

theorem perform_passes (hs : c.Sound listeners) {change : Change K V α}
    {replaced : α → Nat} (hfaithful : change.Faithful r replaced) :
    Passes listeners c r (replaced (c.perform change).1) (c.perform change).2 :=
  perform_accounts hs hfaithful

theorem ifRunning_passes (hs : c.Sound listeners) (idle : α)
    (hoperation : ∀ c : Cache K V, c.Sound listeners → Passes listeners c 0 0 (operation c).2) :
    Passes listeners c 0 0 (c.ifRunning idle operation).2 := by
  have hrunning := running_alike c false
  unfold ifRunning
  split
  · rename_i hok
    rw [hok] at hrunning
    exact hrunning.then hs (hoperation _ (hrunning.sound hs))
  · rename_i hother
    rw [hother] at hrunning
    exact hrunning.passes hs

/-- What a strict operation counts for its answer it counts only if the cache runs. -/
theorem whenRunning_counts (hs : c.Sound listeners) (replaced : Except CacheError α → Nat)
    (herror : ∀ e, replaced (.error e) = 0)
    (hoperation : ∀ c : Cache K V, c.Sound listeners →
      Passes listeners c r (replaced (.ok (operation c).1)) (operation c).2) :
    Passes listeners c (if c.available then r else 0) (replaced (c.whenRunning operation).1)
      (c.whenRunning operation).2 := by
  have hrunning := running_alike c true
  cases havailable : c.available with
  | true =>
      rw [whenRunning_of_available havailable]
      exact hrunning.then hs (hoperation _ (hrunning.sound hs))
  | false =>
      obtain ⟨e, heq⟩ := c.whenRunning_of_unavailable _ havailable
      rw [heq, herror]
      exact hrunning.passes hs

theorem whenRunning_passes (hs : c.Sound listeners)
    (hoperation : ∀ c : Cache K V, c.Sound listeners → Passes listeners c 0 0 (operation c).2) :
    Passes listeners c 0 0 (c.whenRunning operation).2 := by
  have hcounts := whenRunning_counts hs (fun _ => 0) (fun _ => rfl) hoperation
  rwa [ite_self] at hcounts

/-! ## Reading and replacing -/

/-- A read counts if the cache runs. -/
theorem getIfPresent_passes (hs : c.Sound listeners) (key : K) :
    Passes listeners c (if c.available then 1 else 0) 0 (c.getIfPresent key).2 :=
  whenRunning_counts hs (fun _ => 0) (fun _ => rfl) fun _ hs =>
    perform_passes hs (Change.lookup_faithful _ key)

/-- The number of entries that an answer gives. -/
def given : Answer K V → Nat
  | .ok entry => entry.toList.length
  | .error _ => 0

/-- A replacement counts if it answers an entry. -/
theorem replace_passes (hs : c.Sound listeners) (key : K) (value : V) :
    Passes listeners c 0 (given (c.replace key value).1) (c.replace key value).2 := by
  have hcounts := whenRunning_counts hs given (fun _ => rfl) fun c hs =>
    perform_passes hs (Change.replace_faithful c.expiration key value)
  rwa [ite_self] at hcounts

/-! ## Writing and maintenance -/

/-- Most errands count neither as reads nor as replacements. -/
theorem errand_passes (hs : c.Sound listeners) (errand : Errand K V)
    (hreads : errand.readCount = 0) (hreplaced : errand.replacedCount = fun _ => 0) :
    Passes listeners c 0 0 (c.perform (errand.change c.expiration)).2 := by
  have hpasses := perform_passes hs (errand.faithful c.expiration)
  rwa [hreads, hreplaced] at hpasses

theorem strict_passes (hs : c.Sound listeners) (errand : Errand K V)
    (hreads : errand.readCount = 0) (hreplaced : errand.replacedCount = fun _ => 0) :
    Passes listeners c 0 0
      (c.whenRunning fun c => c.perform (errand.change c.expiration)).2 :=
  whenRunning_passes hs fun _ hs => errand_passes hs errand hreads hreplaced

theorem lenient_passes (hs : c.Sound listeners) (errand : Errand K V) (idle : errand.Answer)
    (hreads : errand.readCount = 0) (hreplaced : errand.replacedCount = fun _ => 0) :
    Passes listeners c 0 0
      (c.ifRunning idle fun c => c.perform (errand.change c.expiration)).2 :=
  ifRunning_passes hs idle fun _ hs => errand_passes hs errand hreads hreplaced

section

variable (hs : c.Sound listeners) (key : K)

include hs

theorem put_passes (value : V) (attributes : Attributes) :
    Passes listeners c 0 0 (c.put key value attributes).2 :=
  whenRunning_passes hs fun _ hs => errand_passes hs (.write key value attributes .user) rfl rfl

theorem peek_passes : Passes listeners c 0 0 (c.peek key).2 :=
  ifRunning_passes hs none fun _ hs => Alike.refl.passes hs

theorem contains_passes : Passes listeners c 0 0 (c.contains key).2 :=
  ifRunning_passes hs false fun _ hs => Alike.refl.passes hs

theorem start_passes : Passes listeners c 0 0 c.start.2 :=
  whenRunning_passes hs fun _ hs => Alike.refl.passes hs

end

/-! ## Loads

A load that finds a value writes it, wherever its task or its job is run; all else is
unseen. -/

section

variable [KeyText K]

theorem settle_passes (hs : c.Sound listeners) (task : LoadTask K V) (outcome : LoadOutcome V) :
    Passes listeners c 0 0 (c.settle task outcome) := by
  cases outcome with
  | value value =>
      have hmeasured := alike_measure c countLoad
      -- the value is written before the load is answered
      have hwritten := errand_passes (hmeasured.sound hs)
        (.write task.handle.key value task.attributes .loader) rfl rfl
      exact (hmeasured.then hs hwritten).unseen hs (alike_desk _ _)
  | nothing => exact ((alike_measure c _).trans (alike_desk _ _)).passes hs
  | error shown => exact ((alike_measure c _).trans (alike_desk _ _)).passes hs
  | panic payload => exact (alike_desk c _).passes hs

theorem submit_passes (hs : c.Sound listeners) (task : LoadTask K V) (work : Work V) :
    Passes listeners c 0 0 (c.submit task work) := by
  unfold submit
  split
  · exact (alike_desk c _).passes hs
  · have hdesk := alike_desk c (c.desk.submit task work).2
    rename_i heq
    rw [heq] at hdesk
    exact hdesk.then hs (settle_passes (hdesk.sound hs) task _)
  · rename_i desk heq
    have hworked := (alike_desk c desk).trans (doWork_alike { c with desk := desk } task work)
    exact hworked.then hs (settle_passes (hworked.sound hs) _ _)

theorem proceed_passes (hs : c.Sound listeners) (task : LoadTask K V) (program : LoadProgram V) :
    Passes listeners c 0 0 (c.proceed task program) := by
  unfold proceed
  dsimp only
  split
  · exact settle_passes hs _ _
  · exact (alike_desk c _).passes hs
  · exact submit_passes hs _ _

theorem pollTask_passes (hs : c.Sound listeners) (id : Nat) :
    Passes listeners c 0 0 (c.pollTask id) := by
  unfold pollTask
  split
  · exact Alike.refl.passes hs
  · exact (alike_desk c _).passes hs
  · exact proceed_passes hs _ _
  · split
    · exact settle_passes hs _ _
    · split
      · exact submit_passes hs _ _
      · rename_i task _ _ loader _ _
        have hcalled := callLoader_alike c loader task
        exact hcalled.then hs (proceed_passes (hcalled.sound hs) _ _)
  · rename_i task rest _
    have hnoted := alike_note c (n := .loadResumed task.handle.key) (fun _ => rfl) rfl
    exact hnoted.then hs (proceed_passes (hnoted.sound hs) _ _)
  · exact settle_passes hs _ _

theorem runTicket_passes (hs : c.Sound listeners) (ticket : Ticket) :
    Passes listeners c 0 0 (c.runTicket ticket) := by
  cases ticket with
  | task id => exact pollTask_passes hs id
  | job id => exact (runJob_alike c id).passes hs

theorem runQueue_passes (hs : c.Sound listeners) (count : Nat) :
    Passes listeners c 0 0 (c.runQueue count) := by
  induction count generalizing c with
  | zero => exact Alike.refl.passes hs
  | succ count ih =>
      unfold runQueue
      split
      · exact Alike.refl.passes hs
      · rename_i ticket executor heq
        have hdesk := alike_desk c { c.desk with executor := executor }
        have hticket := runTicket_passes (hdesk.sound hs) ticket
        have hfirst := hdesk.then hs hticket
        exact hfirst.trans (ih (hfirst.sound hs))

theorem runIdle_passes (hs : c.Sound listeners) : Passes listeners c 0 0 c.runIdle :=
  runQueue_passes hs _

theorem requestLoad_passes (hs : c.Sound listeners) (key : K) (attributes : Attributes)
    (forced : Bool) : Passes listeners c 0 0 (c.requestLoad key attributes forced).2 := by
  have hdesk := alike_desk c (c.desk.request key attributes forced none .error).2
  rcases c.requestLoad_cases key attributes forced with heq | heq | ⟨id, heq⟩
  · rw [heq]
    exact Alike.refl.passes hs
  · rw [heq]
    exact hdesk.passes hs
  · rw [heq]
    exact hdesk.then hs (pollTask_passes (hdesk.sound hs) id)

/-- A read counts if the cache runs, and a load that it asks for does not. -/
theorem get_passes (hs : c.Sound listeners) (key : K) (attributes : Attributes) :
    Passes listeners c (if c.available then 1 else 0) 0 (c.get key attributes).2 := by
  have hrunning := running_alike c true
  unfold get available
  cases hrun : c.running true with
  | mk answer next =>
      rw [hrun] at hrunning
      have hs' := hrunning.sound hs
      cases answer with
      | error e => exact hrunning.passes hs
      | ok running =>
          have hread := perform_passes hs' (Change.lookup_faithful next.expiration key)
          -- the read is the one that counts; what follows it only asks for a load
          show Passes listeners c 1 0 _
          apply hrunning.then hs
          dsimp only
          split
          · rename_i hfound
            rw [hfound] at hread
            exact hread
          · rename_i hmissed
            rw [hmissed] at hread
            split
            · exact hread
            · exact hread.trans (requestLoad_passes (hread.sound hs') key attributes false)

theorem load_passes (hs : c.Sound listeners) (key : K) (attributes : Attributes) :
    Passes listeners c 0 0 (c.load key attributes).2 := by
  have hrunning := running_alike c true
  unfold load
  split
  · rename_i heq
    rw [heq] at hrunning
    exact hrunning.passes hs
  · rename_i heq
    rw [heq] at hrunning
    split
    · exact hrunning.passes hs
    · exact hrunning.then hs (requestLoad_passes (hrunning.sound hs) key attributes false)

theorem forceLoad_passes (hs : c.Sound listeners) (key : K) :
    Passes listeners c 0 0 (c.forceLoad key).2 := by
  have hrunning := running_alike c true
  unfold forceLoad
  split
  · rename_i heq
    rw [heq] at hrunning
    exact hrunning.passes hs
  · rename_i heq
    rw [heq] at hrunning
    exact hrunning.then hs (requestLoad_passes (hrunning.sound hs) key {} true)

theorem getAndWait_passes (hs : c.Sound listeners) (key : K) :
    Passes listeners c (if c.available then 1 else 0) 0 (c.getAndWait key).2 := by
  have hread := get_passes hs key {}
  have hs' := hread.sound hs
  generalize (if c.available then 1 else 0) = r at hread ⊢
  unfold getAndWait
  dsimp only
  split
  · exact hread.unseen hs (release_alike _ _)
  · exact (hread.trans (runIdle_passes hs')).unseen hs (release_alike _ _)

theorem loadEach_passes (hs : c.Sound listeners) (keys : List K) :
    Passes listeners c 0 0 (c.loadEach keys).2 := by
  induction keys generalizing c with
  | nil => exact Alike.refl.passes hs
  | cons key keys ih =>
      have hfirst := load_passes hs key {}
      exact hfirst.trans (ih (hfirst.sound hs))

theorem loadAll_passes (hs : c.Sound listeners) (keys : List K) :
    Passes listeners c 0 0 (c.loadAll keys).2 := by
  have heach := loadEach_passes hs keys.eraseDups
  have hs' := heach.sound hs
  unfold loadAll
  dsimp only
  split
  · exact (heach.trans (runIdle_passes hs')).unseen hs (releaseAll_alike _ _)
  · exact heach.unseen hs (releaseAll_alike _ _)

end

/-! ## Time -/

theorem sweep_passes (hs : c.Sound listeners) : Passes listeners c 0 0 c.sweep := by
  unfold sweep
  split
  · exact Alike.refl.passes hs
  · split
    · have hended : Alike c { c with sweeper := none } := alike_of_eq rfl rfl rfl
      exact hended.passes hs
    · exact errand_passes hs .expire rfl rfl

theorem sweepUntil_passes (hs : c.Sound listeners) (time fuel : Nat) :
    Passes listeners c 0 0 (c.sweepUntil time fuel) := by
  induction fuel generalizing c with
  | zero => exact Alike.refl.passes hs
  | succ fuel ih =>
      unfold sweepUntil
      split
      · exact Alike.refl.passes hs
      · split
        · rename_i sweeper _ _
          have hdue : Alike c { c with
              elapsed := sweeper.due
              sweeper := some { sweeper with due := sweeper.due + sweeper.period.nanos } } :=
            alike_of_eq rfl rfl rfl
          have hswept := hdue.then hs (sweep_passes (hdue.sound hs))
          exact hswept.trans (ih (hswept.sound hs))
        · exact Alike.refl.passes hs

variable [KeyText K]

theorem sleep_passes (hs : c.Sound listeners) (d : Duration) :
    Passes listeners c 0 0 (c.sleep d) := by
  have hidle := runIdle_passes hs
  have hs' := hidle.sound hs
  have hswept := hidle.trans (sweepUntil_passes hs' (c.runIdle.elapsed + d.nanos) (d.nanos + 1))
  exact hswept.unseen hs (alike_of_eq rfl rfl rfl)

theorem terminatesWithin_passes (hs : c.Sound listeners) (d : Duration) :
    Passes listeners c 0 0 (c.terminatesWithin d).2 := by
  have hidle := runIdle_passes hs
  unfold terminatesWithin
  dsimp only
  split
  · split
    · exact hidle
    · exact hidle.trans (sleep_passes (hidle.sound hs) d)
  · exact Alike.refl.passes hs

end Cache

end BoundedCache
