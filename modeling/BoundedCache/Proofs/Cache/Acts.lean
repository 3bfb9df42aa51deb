import BoundedCache.Proofs.Cache.Moves
import BoundedCache.Proofs.Errands

/-!
# What happens to a cache

Seen from its loads, one of eleven things happens to a cache at a time: a change is performed,
a load is asked for, a task or a job has its turn, somebody lets go of a future, and so on
(`Act`).  Every operation is a sequence of these, also where it runs the queue or asks for many
loads.  So what holds of a new cache and is kept by every act holds whenever the cache is not
in the midst of one.

More than that, only errands change the data, and the clock of the cache stays where it is, as
long as nobody sets it.  Acts of this kind are `Doing`s, each with the errands that users or the
sweeper ask for, and all operations are made of them but those on the clock itself.
-/

namespace BoundedCache

namespace Cache

variable {K V : Type} [DecidableEq K] [KeyText K] {c c' c'' : Cache K V} {α : Type}

/-- What can happen to a cache. -/
inductive Act (c : Cache K V) : Cache K V → Prop where
  | run (strict : Bool) : Act c (c.running strict).2
  | shutDown : Act c c.shutDown.2
  | shutDownNow : Act c c.shutDownNow.2
  | perform {α : Type} (change : Change K V α) : Act c (c.perform change).2
  | request (key : K) (attributes : Attributes) (forced : Bool) :
      Act c (c.requestLoad key attributes forced).2
  | turn (ticket : Ticket) : Act c (c.runTicket ticket)
  | release (future : Future K V) : Act c (c.release future)
  | openGate (key : K) : Act c (c.openGate key)
  | abandon (id : Nat) : Act c (c.abandon id)
  /-- The executor changes: a ticket is taken, or its rules are set. -/
  | schedule (executor : Executor) :
      Act c { c with desk := { c.desk with executor := executor } }
  | passTime (clock elapsed : Nat) (sweeper : Option Sweeper) :
      Act c { c with clock := clock, elapsed := elapsed, sweeper := sweeper }

theorem Act.moves (h : Act c c') : Moves c c' := by
  cases h with
  | run strict => exact (Move.run strict).moves
  | shutDown => exact Move.shutDown.moves
  | shutDownNow => exact Move.shutDownNow.moves
  | perform change => exact (Move.perform change).moves
  | request key attributes forced => exact c.moves_requestLoad key attributes forced
  | turn ticket => exact c.moves_runTicket ticket
  | release future => exact c.moves_release future
  | openGate key => exact (Move.openGate key).moves
  | abandon id => exact c.moves_abandon id
  | schedule executor => exact (Move.schedule executor).moves
  | passTime clock elapsed sweeper => exact moves_record rfl rfl rfl

/-- A sequence of acts. -/
def Acts : Cache K V → Cache K V → Prop := Relation.ReflTransGen Act

theorem Acts.refl (c : Cache K V) : Acts c c := Relation.ReflTransGen.refl

theorem Act.acts (h : Act c c') : Acts c c' := Relation.ReflTransGen.single h

theorem Acts.trans (h : Acts c c') (h' : Acts c' c'') : Acts c c'' :=
  Relation.ReflTransGen.trans h h'

/-- What every act preserves, every sequence does. -/
theorem Acts.keeps {P : Cache K V → Prop} (hact : ∀ {c c'}, Act c c' → P c → P c')
    (h : Acts c c') (hc : P c) : P c' := by
  induction h with
  | refl => exact hc
  | tail _ hlast ih => exact hact hlast ih

theorem Acts.moves (h : Acts c c') : Moves c c' :=
  h.keeps (P := Moves c) (fun hact hmoves => hmoves.trans hact.moves) (.refl c)

theorem acts_perform (c : Cache K V) (change : Change K V α) : Acts c (c.perform change).2 :=
  (Act.perform change).acts

/-! ## Doings -/

/-- What can happen to a cache while its clock stands still, with the errands that it is asked
for. -/
inductive Doing (c : Cache K V) : List (Errand K V) → Cache K V → Prop where
  | run (strict : Bool) : Doing c [] (c.running strict).2
  | shutDown : Doing c [] c.shutDown.2
  | shutDownNow : Doing c [] c.shutDownNow.2
  | errand (errand : Errand K V) : Doing c [errand] (c.perform (errand.change c.expiration)).2
  | request (key : K) (attributes : Attributes) (forced : Bool) :
      Doing c [] (c.requestLoad key attributes forced).2
  | turn (ticket : Ticket) : Doing c [] (c.runTicket ticket)
  | release (future : Future K V) : Doing c [] (c.release future)
  | openGate (key : K) : Doing c [] (c.openGate key)
  | abandon (id : Nat) : Doing c [] (c.abandon id)
  | schedule (executor : Executor) :
      Doing c [] { c with desk := { c.desk with executor := executor } }
  | passTime (elapsed : Nat) (sweeper : Option Sweeper) :
      Doing c [] { c with elapsed := elapsed, sweeper := sweeper }

variable {own more : List (Errand K V)}

theorem Doing.act (h : Doing c own c') : Act c c' := by
  cases h with
  | run strict => exact .run strict
  | shutDown => exact .shutDown
  | shutDownNow => exact .shutDownNow
  | errand errand => exact .perform _
  | request key attributes forced => exact .request key attributes forced
  | turn ticket => exact .turn ticket
  | release future => exact .release future
  | openGate key => exact .openGate key
  | abandon id => exact .abandon id
  | schedule executor => exact .schedule executor
  | passTime elapsed sweeper => exact .passTime c.clock elapsed sweeper

/-- A sequence of doings, with all errands that are asked for on the way. -/
inductive Doings (c : Cache K V) : List (Errand K V) → Cache K V → Prop where
  | refl : Doings c [] c
  | tail {own more : List (Errand K V)} {c' c'' : Cache K V} (hdoings : Doings c own c')
      (hlast : Doing c' more c'') : Doings c (own ++ more) c''

theorem Doing.doings (h : Doing c own c') : Doings c own c' := .tail .refl h

theorem Doings.trans (h : Doings c own c') (h' : Doings c' more c'') :
    Doings c (own ++ more) c'' := by
  induction h' with
  | refl => rwa [List.append_nil]
  | tail _ hlast ih =>
      rw [← List.append_assoc]
      exact ih.tail hlast

/-- What is done first asks for nothing. -/
theorem Doings.after (h : Doings c' own c'') (hfirst : Doings c [] c') : Doings c own c'' :=
  hfirst.trans h

/-- What is done next asks for nothing. -/
theorem Doings.then (h : Doings c own c') (hnext : Doings c' [] c'') : Doings c own c'' := by
  have hall := h.trans hnext
  rwa [List.append_nil] at hall

theorem Doings.acts (h : Doings c own c') : Acts c c' := by
  induction h with
  | refl => exact .refl c
  | tail _ hlast ih => exact ih.trans hlast.act.acts

theorem doings_errand (c : Cache K V) (errand : Errand K V) :
    Doings c [errand] (c.perform (errand.change c.expiration)).2 :=
  (Doing.errand errand).doings

/-- An operation asks for its errands if it finds the cache running. -/
theorem doings_whenRunning (c : Cache K V) {operation : Cache K V → α × Cache K V}
    (hoperation : ∀ c, Doings c own (operation c).2) :
    Doings c (if c.available then own else []) (c.whenRunning operation).2 := by
  have hrun : Doings c [] (c.running true).2 := (Doing.run true).doings
  cases havailable : c.available with
  | true =>
      rw [whenRunning_of_available havailable]
      exact (hoperation _).after hrun
  | false =>
      obtain ⟨e, heq⟩ := c.whenRunning_of_unavailable operation havailable
      rw [heq]
      exact hrun

theorem doings_ifRunning (c : Cache K V) (idle : α) {operation : Cache K V → α × Cache K V}
    (hoperation : ∀ c, Doings c own (operation c).2) :
    Doings c (if c.available then own else []) (c.ifRunning idle operation).2 := by
  have hrun : Doings c [] (c.running true).2 := (Doing.run true).doings
  rw [ifRunning_eq_ite]
  cases c.available with
  | true => exact (hoperation _).after hrun
  | false => exact hrun

/-- An operation that asks for nothing does so anyway. -/
theorem Doings.of_ite (h : Doings c (if c.available then [] else []) c') : Doings c [] c' := by
  rwa [ite_self] at h

/-! ## Turns -/

theorem doings_runQueue (count : Nat) (c : Cache K V) : Doings c [] (c.runQueue count) := by
  induction count generalizing c with
  | zero => exact .refl
  | succ count ih =>
      unfold runQueue
      split
      · exact .refl
      · rename_i ticket executor _
        have htaken : Doings c [] { c with desk := { c.desk with executor := executor } } :=
          (Doing.schedule executor).doings
        exact htaken.trans ((Doing.turn ticket).doings.trans (ih _))

theorem doings_runIdle (c : Cache K V) : Doings c [] c.runIdle := doings_runQueue _ c

/-! ## Loads -/

theorem doings_releaseAll (c : Cache K V) (futures : List (Future K V)) :
    Doings c [] (c.releaseAll futures) := by
  induction futures generalizing c with
  | nil => exact .refl
  | cons future rest ih => exact (Doing.release future).doings.trans (ih _)

theorem doings_requestLoad (c : Cache K V) (key : K) (attributes : Attributes) (forced : Bool) :
    Doings c [] (c.requestLoad key attributes forced).2 :=
  (Doing.request key attributes forced).doings

theorem doings_get (c : Cache K V) (key : K) (attributes : Attributes) :
    Doings c (if c.available then [.lookup key] else []) (c.get key attributes).2 := by
  have hrun : Doings c [] (c.running true).2 := (Doing.run true).doings
  unfold get available
  cases hanswer : c.running true with
  | mk answer next =>
      rw [hanswer] at hrun
      cases answer with
      | error e => exact hrun
      | ok running =>
          have hread : Doings next [.lookup key] (next.perform (.lookup next.expiration key)).2 :=
            next.doings_errand (.lookup key)
          show Doings c [.lookup key] _
          refine Doings.after ?_ hrun
          dsimp only
          split
          · rename_i hfound
            rwa [hfound] at hread
          · rename_i hmissed
            rw [hmissed] at hread
            split
            · exact hread
            · exact hread.then (doings_requestLoad _ _ _ _)

theorem doings_load (c : Cache K V) (key : K) (attributes : Attributes) :
    Doings c [] (c.load key attributes).2 := by
  have hrun : Doings c [] (c.running true).2 := (Doing.run true).doings
  unfold load
  split
  · rename_i heq
    rwa [heq] at hrun
  · rename_i heq
    rw [heq] at hrun
    split
    · exact hrun
    · exact hrun.trans (doings_requestLoad _ _ _ _)

theorem doings_forceLoad (c : Cache K V) (key : K) : Doings c [] (c.forceLoad key).2 := by
  have hrun : Doings c [] (c.running true).2 := (Doing.run true).doings
  unfold forceLoad
  split
  · rename_i heq
    rwa [heq] at hrun
  · rename_i heq
    rw [heq] at hrun
    exact hrun.trans (doings_requestLoad _ _ _ _)

theorem doings_getAndWait (c : Cache K V) (key : K) :
    Doings c (if c.available then [.lookup key] else []) (c.getAndWait key).2 := by
  have hread := c.doings_get key {}
  generalize (if c.available then [Errand.lookup key] else []) = own at hread ⊢
  unfold getAndWait
  dsimp only
  split
  · exact hread.then (Doing.release _).doings
  · exact (hread.then (doings_runIdle _)).then (Doing.release _).doings

theorem doings_loadEach (c : Cache K V) (keys : List K) : Doings c [] (c.loadEach keys).2 := by
  induction keys generalizing c with
  | nil => exact .refl
  | cons key keys ih => exact (c.doings_load key {}).trans (ih _)

theorem doings_loadAll (c : Cache K V) (keys : List K) : Doings c [] (c.loadAll keys).2 := by
  have heach := c.doings_loadEach keys.eraseDups
  unfold loadAll
  dsimp only
  split
  · exact (heach.trans (doings_runIdle _)).trans (doings_releaseAll _ _)
  · exact heach.trans (doings_releaseAll _ _)

/-! ## Time -/

/-- Besides doings that ask for nothing there are only sweeps. -/
def Sweepings (c c' : Cache K V) : Prop := ∃ count, Doings c (List.replicate count .expire) c'

theorem Doings.sweepings (h : Doings c [] c') : Sweepings c c' := ⟨0, h⟩

theorem Sweepings.trans (h : Sweepings c c') (h' : Sweepings c' c'') : Sweepings c c'' := by
  obtain ⟨count, hfirst⟩ := h
  obtain ⟨more, hlater⟩ := h'
  have hall := hfirst.trans hlater
  rw [List.replicate_append_replicate] at hall
  exact ⟨_, hall⟩

theorem sweepings_sweep (c : Cache K V) : Sweepings c c.sweep := by
  unfold sweep
  split
  · exact Doings.refl.sweepings
  · split
    · exact (Doing.passTime c.elapsed none).doings.sweepings
    · exact ⟨1, c.doings_errand .expire⟩

theorem sweepings_sweepUntil (time fuel : Nat) (c : Cache K V) :
    Sweepings c (c.sweepUntil time fuel) := by
  induction fuel generalizing c with
  | zero => exact Doings.refl.sweepings
  | succ fuel ih =>
      unfold sweepUntil
      split
      · exact Doings.refl.sweepings
      · split
        · rename_i sweeper _ _
          have hdue := Doing.passTime (c := c) sweeper.due
            (some { sweeper with due := sweeper.due + sweeper.period.nanos })
          exact (hdue.doings.sweepings.trans (sweepings_sweep _)).trans (ih _)
        · exact Doings.refl.sweepings

theorem sweepings_sleep (c : Cache K V) (d : Duration) : Sweepings c (c.sleep d) := by
  have hswept := c.doings_runIdle.sweepings.trans
    (sweepings_sweepUntil (c.runIdle.elapsed + d.nanos) (d.nanos + 1) c.runIdle)
  exact hswept.trans (Doing.passTime _ _).doings.sweepings

theorem sweepings_terminatesWithin (c : Cache K V) (d : Duration) :
    Sweepings c (c.terminatesWithin d).2 := by
  unfold terminatesWithin
  dsimp only
  split
  · split
    · exact c.doings_runIdle.sweepings
    · exact c.doings_runIdle.sweepings.trans (sweepings_sleep _ d)
  · exact Doings.refl.sweepings

/-! ## As acts -/

theorem acts_runIdle (c : Cache K V) : Acts c c.runIdle := c.doings_runIdle.acts

theorem acts_get (c : Cache K V) (key : K) (attributes : Attributes) :
    Acts c (c.get key attributes).2 :=
  (c.doings_get key attributes).acts

theorem acts_load (c : Cache K V) (key : K) (attributes : Attributes) :
    Acts c (c.load key attributes).2 :=
  (c.doings_load key attributes).acts

theorem acts_loadEach (c : Cache K V) (keys : List K) : Acts c (c.loadEach keys).2 :=
  (c.doings_loadEach keys).acts

end Cache

end BoundedCache
