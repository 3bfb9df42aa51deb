import BoundedCache.Proofs.Cache.Holding
import BoundedCache.Proofs.Session.Loading

/-!
# The loads that the users of a session hold

Users hold loads by the futures that they have been handed and that are not gone (`handles`).
Whatever happens to a session, these are the handles that its cache counts, and if somebody else
holds loads of the cache as well, they go on to do so (`live_holds`).
-/

namespace BoundedCache

namespace Cache

variable {K V α : Type} [DecidableEq K] {c : Cache K V}

/-! ## Operations that have nothing to do with loads -/

theorem holdsOn_perform (c : Cache K V) (change : Change K V α) :
    HoldsOn c (c.perform change).2 :=
  (steady_sameLoads.perform c change).holdsOn

theorem holdsOn_whenRunning (c : Cache K V) {operation : Cache K V → α × Cache K V}
    (hoperation : ∀ c, HoldsOn c (operation c).2) : HoldsOn c (c.whenRunning operation).2 :=
  whenRunning_lift (R := HoldsOn) HoldsOn.trans (c.sameLoads_running true).holdsOn hoperation

theorem holdsOn_ifRunning (c : Cache K V) (idle : α) {operation : Cache K V → α × Cache K V}
    (hoperation : ∀ c, HoldsOn c (operation c).2) : HoldsOn c (c.ifRunning idle operation).2 :=
  ifRunning_lift (R := HoldsOn) HoldsOn.trans (c.sameLoads_running false).holdsOn idle hoperation

theorem holdsOn_sweep (c : Cache K V) : HoldsOn c c.sweep := by
  unfold sweep
  split
  · exact holdsOn_of_desk rfl
  · split
    · exact holdsOn_of_desk rfl
    · exact c.holdsOn_perform _

theorem holdsOn_sweepUntil (time fuel : Nat) (c : Cache K V) :
    HoldsOn c (c.sweepUntil time fuel) := by
  induction fuel generalizing c with
  | zero => exact holdsOn_of_desk rfl
  | succ fuel ih =>
      unfold sweepUntil
      split
      · exact holdsOn_of_desk rfl
      · split
        · rename_i sweeper _ _
          have hdue : HoldsOn c
              { c with
                elapsed := sweeper.due
                sweeper := some { sweeper with due := sweeper.due + sweeper.period.nanos } } :=
            holdsOn_of_desk rfl
          exact (hdue.trans (holdsOn_sweep _)).trans (ih _)
        · exact holdsOn_of_desk rfl

variable [KeyText K]

theorem Called.holdsOn_sleep (h : c.Called) (d : Duration) : HoldsOn c (c.sleep d) := by
  have hswept := h.holdsOn_runIdle.trans
    (holdsOn_sweepUntil (c.runIdle.elapsed + d.nanos) (d.nanos + 1) c.runIdle)
  exact hswept.trans (holdsOn_of_desk rfl)

theorem Called.holdsOn_terminatesWithin (h : c.Called) (d : Duration) :
    HoldsOn c (c.terminatesWithin d).2 := by
  unfold terminatesWithin
  dsimp only
  split
  · split
    · exact h.holdsOn_runIdle
    · have hidle := (c.acts_runIdle.keeps_called h).1
      exact h.holdsOn_runIdle.trans (hidle.holdsOn_sleep d)
  · exact holdsOn_of_desk rfl

/-! ## Reads -/

variable {handles : List (LoadHandle K)}

theorem Called.holds_get (h : c.Called) (hholds : c.Holds handles) (key : K)
    (attributes : Attributes) :
    let asked := c.get key attributes
    asked.2.Holds (asked.1.handle?.toList ++ handles) := by
  have hstart : (c.running true).2.Holds handles := (c.sameLoads_running true).holdsOn _ hholds
  have hcalled := ((Act.run true).acts.keeps_called h).1
  unfold get
  split
  · rename_i heq
    rwa [heq] at hstart
  · rename_i next heq
    rw [heq] at hstart hcalled
    have hread := next.holdsOn_perform (.lookup next.expiration key) _ hstart
    have hthere := ((next.acts_perform (.lookup next.expiration key)).keeps_called hcalled).1
    split
    · rename_i hfound
      rwa [hfound] at hread
    · rename_i hmissed
      rw [hmissed] at hread hthere
      split
      · exact hread
      · exact hthere.holds_requestLoad hread key attributes false

theorem Called.holds_forceLoad (h : c.Called) (hholds : c.Holds handles) (key : K) :
    let asked := c.forceLoad key
    asked.2.Holds (asked.1.handle?.toList ++ handles) := by
  have hstart : (c.running true).2.Holds handles := (c.sameLoads_running true).holdsOn _ hholds
  have hcalled := ((Act.run true).acts.keeps_called h).1
  unfold forceLoad
  split
  · rename_i heq
    rwa [heq] at hstart
  · rename_i heq
    rw [heq] at hstart hcalled
    exact hcalled.holds_requestLoad hstart key {} true

/-- A read that waits lets go at the end. -/
theorem Called.holdsOn_getAndWait (h : c.Called) (key : K) :
    HoldsOn c (c.getAndWait key).2 := by
  intro handles hholds
  have hread := h.holds_get hholds key {}
  have hcalled := ((c.acts_get key {}).keeps_called h).1
  unfold getAndWait
  dsimp only at hread ⊢
  split
  · exact .release _ hread
  · exact .release _ (hcalled.holdsOn_runIdle _ hread)

end Cache

namespace Session

variable {K V : Type} {s : Session K V} {others : List (LoadHandle K)}

/-- The loads that the users hold, each as often as there are futures that wait for it. -/
def handles (s : Session K V) : List (LoadHandle K) :=
  s.futures.filterMap fun held => held.future.bind Future.handle?

variable [DecidableEq K]

/-- A future that leaves takes its hold along. -/
theorem holds_depart (hholds : s.cache.Holds (others ++ s.handles)) {handle : Nat}
    {held : Held K V} {future : Future K V} (hheld : s.held? handle = some (held, future))
    (answer : Option (Answer K V)) :
    let left := s.depart handle future answer
    left.cache.Holds (others ++ left.handles) := by
  obtain ⟨other, hother, hfuture⟩ := Option.bind_eq_some_iff.mp hheld
  obtain ⟨kept, hkept, heq⟩ := Option.bind_eq_some_iff.mp hfuture
  cases heq
  have hperm := perm_filterMap_set (f := fun held : Held K V => held.future.bind Future.handle?)
    (y := ({ future := none, answer := answer } : Held K V)) hother rfl
  rw [hkept] at hperm
  refine Cache.Holds.release future (hholds.perm ?_)
  exact (hperm.append_left others).trans (List.perm_append_comm_assoc _ _ _)

theorem holds_poll (hholds : s.cache.Holds (others ++ s.handles)) (handle : Nat) :
    (s.poll handle).2.cache.Holds (others ++ (s.poll handle).2.handles) := by
  unfold poll pollWith
  split
  · exact hholds
  · rename_i held future hheld
    split
    · exact hholds
    · split
      · exact hholds
      · exact holds_depart hholds hheld _

/-- A future that is kept holds what it held. -/
theorem holds_pollAndKeep (hholds : s.cache.Holds (others ++ s.handles)) (handle : Nat) :
    (s.pollAndKeep handle).2.cache.Holds (others ++ (s.pollAndKeep handle).2.handles) := by
  unfold pollAndKeep pollWith
  split
  · exact hholds
  · rename_i held future hheld
    obtain ⟨other, hother, hfuture⟩ := Option.bind_eq_some_iff.mp hheld
    obtain ⟨kept, hkept, heq⟩ := Option.bind_eq_some_iff.mp hfuture
    cases heq
    split
    · exact hholds
    · split
      · exact hholds
      · refine hholds.perm (.append_left others (.of_eq ?_))
        obtain ⟨hlt, hget⟩ := List.getElem?_eq_some_iff.mp hother
        have hsplit := List.take_append_drop handle s.futures
        rw [List.drop_eq_getElem_cons hlt, hget] at hsplit
        unfold handles
        dsimp only
        rw [List.set_eq_take_append_cons_drop, if_pos hlt]
        conv_lhs => rw [← hsplit]
        rw [List.filterMap_append, List.filterMap_append, List.filterMap_cons,
          List.filterMap_cons, hkept]

theorem holds_drop (hholds : s.cache.Holds (others ++ s.handles)) (handle : Nat) :
    (s.drop handle).cache.Holds (others ++ (s.drop handle).handles) := by
  unfold drop
  split
  · exact hholds
  · rename_i hheld
    exact holds_depart hholds hheld _

theorem holds_take (hholds : s.cache.Holds (others ++ s.handles)) (handle : Nat) :
    (s.take handle).2.cache.Holds (others ++ (s.take handle).2.handles) := by
  unfold take
  split
  · exact holds_poll hholds handle
  · exact hholds
  · exact hholds

/-- A future that is handed out is one more hold. -/
theorem holds_issue {ask : Cache K V → Future K V × Cache K V}
    (hasked : (ask s.cache).2.Holds ((ask s.cache).1.handle?.toList ++ (others ++ s.handles))) :
    (s.issue ask).2.cache.Holds (others ++ (s.issue ask).2.handles) := by
  refine hasked.perm ?_
  have hhandles : (s.issue ask).2.handles = s.handles ++ (ask s.cache).1.handle?.toList := by
    unfold issue handles
    rw [List.filterMap_append]
    show _ ++ List.filterMap _ [_] = _
    cases hhandle : (ask s.cache).1.handle? <;> simp [hhandle]
  rw [hhandles, ← List.append_assoc others]
  exact List.perm_append_comm

variable [KeyText K]

theorem holds_await (hcalled : s.cache.Called) (hholds : s.cache.Holds (others ++ s.handles))
    (handle : Nat) : (s.await handle).2.cache.Holds (others ++ (s.await handle).2.handles) := by
  have hpolled := holds_poll hholds handle
  have hpoll := ((s.poll_acts handle).keeps_called hcalled).1
  unfold await
  split
  · rename_i s' heq
    rw [heq] at hpolled hpoll
    exact holds_poll (s := { s' with cache := s'.cache.runIdle })
      (hpoll.holdsOn_runIdle _ hpolled) handle
  · exact hpolled

theorem holds_step (hcalled : s.cache.Called) (hholds : s.cache.Holds (others ++ s.handles))
    (request : Request K V) :
    (s.step request).2.cache.Holds (others ++ (s.step request).2.handles) := by
  -- where no future is handed out or leaves, it is enough that all hold on
  have hsame : ∀ {c : Cache K V}, Cache.HoldsOn s.cache c → c.Holds (others ++ s.handles) :=
    fun hkeeps => hkeeps _ hholds
  cases request with
  | start => exact hsame (Cache.holdsOn_whenRunning _ fun _ => Cache.holdsOn_of_desk rfl)
  | getIfPresent key | put key value attributes | putIfAbsent key value | putAll pairs
  | replace key value | remove key | removeAll keys =>
      exact hsame (Cache.holdsOn_whenRunning _ fun c => c.holdsOn_perform _)
  | peek key | contains key =>
      exact hsame (Cache.holdsOn_ifRunning _ _ fun _ => Cache.holdsOn_of_desk rfl)
  | clear | evict | trim maxEntries | purge | resize maxEntries maxVolume =>
      exact hsame (Cache.holdsOn_ifRunning _ _ fun c => c.holdsOn_perform _)
  | shutDown => exact hsame (Cache.steady_sameLoads.shutDown s.cache).holdsOn
  | shutDownNow => exact hsame s.cache.holdsOn_shutDownNow
  | get key attributes => exact holds_issue (hcalled.holds_get hholds key attributes)
  | load key attributes => exact holds_issue (hcalled.holds_load hholds key attributes)
  | forceLoad key => exact holds_issue (hcalled.holds_forceLoad hholds key)
  | loadAll keys => exact hsame (hcalled.holdsOn_loadAll keys)
  | getAndWait key => exact hsame (hcalled.holdsOn_getAndWait key)
  | take handle => exact holds_take hholds handle
  | poll handle => exact holds_poll hholds handle
  | pollAndKeep handle => exact holds_pollAndKeep hholds handle
  | await handle => exact holds_await hcalled hholds handle
  | drop handle => exact holds_drop hholds handle
  | run count =>
      cases count with
      | none => exact hsame hcalled.holdsOn_runIdle
      | some count => exact hsame (hcalled.holdsOn_runQueue count)
  | openGate key => exact hsame (s.cache.holdsOn_openGate key)
  | abandon load => exact hsame (s.cache.holdsOn_abandon load)
  | treat spawning blocking =>
      exact hsame (Cache.holdsOn_of_progresses (s.cache.desk.progresses_inExecutor _))
  | sweep => exact hsame s.cache.holdsOn_sweep
  | sleep d => exact hsame (hcalled.holdsOn_sleep d)
  | terminatesWithin d => exact hsame (hcalled.holdsOn_terminatesWithin d)
  | advance d | setClock now => exact hsame (Cache.holdsOn_of_desk rfl)

/-- Whatever happens to a session, its users hold what they hold, and so do others. -/
theorem live_holds (hcalled : s.cache.Called) (hholds : s.cache.Holds (others ++ s.handles))
    (happenings : List (Happening K V)) :
    (s.live happenings).cache.Holds (others ++ (s.live happenings).handles) := by
  induction happenings generalizing s with
  | nil => exact hholds
  | cons happening rest ih =>
      refine ih ((s.happen_acts happening).keeps_called hcalled).1 ?_
      cases happening with
      | request request => exact holds_step hcalled hholds request
      | turn ticket => exact hcalled.holdsOn_runTicket ticket _ hholds

end Session

end BoundedCache
