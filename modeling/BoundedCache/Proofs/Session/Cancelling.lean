import BoundedCache.Proofs.Cache.Cancelling
import BoundedCache.Proofs.Session.Loading

/-!
# A load that was cancelled stays so

A session may cancel a load at any moment: a future is dropped, a read that waited lets go, or
the cache is shut down at once.  By then the task of the load may be in the queue, at a gate, or
waiting for a job, and the executor may give it and the job as many turns as it likes, also while
a newer load of the same key is pending.  `live_withdrawn` says that nothing comes of them.
-/

namespace BoundedCache

namespace Cache

variable {K V : Type} [DecidableEq K] {c d : Cache K V} {handle : LoadHandle K}

/-- What becomes of a load that is pending in the one cache, when that comes to the other. -/
structure Cancellation [KeyText K] (c d : Cache K V) (handle : LoadHandle K) : Prop where
  unflagged : ¬ c.Flagged handle.id
  unanswered : c.answer? (.load handle) = none
  /-- Withdrawn, it comes to nothing, and it does not call the loader any more. -/
  withdrawn : c.Withdraws handle d → ∀ e, Acts d e →
    e.Withdrawn handle.id ∧
      ∀ later ∈ e.loaderCalls, later ∉ d.loaderCalls → later.id ≠ handle.id
  /-- Its flag goes up with that, and not otherwise. -/
  flagged_iff : d.Flagged handle.id ↔ c.Withdraws handle d
  /-- If it ends in another way, its flag stays down. -/
  completed : ¬ c.Withdraws handle d →
    d.desk.coordinator.isCurrent handle.key handle.id = false →
    ∀ e, Acts d e → ¬ e.Flagged handle.id

theorem Act.cancellation [KeyText K] (h : Act c d) (hcalled : c.Called)
    (hcurrent : c.desk.coordinator.isCurrent handle.key handle.id = true) :
    Cancellation c d handle := by
  obtain ⟨hlater, hcontinues⟩ := h.keeps hcalled
  obtain ⟨handles, started, hworks, -⟩ := hcalled.desk.works
  obtain ⟨load, hload, hid⟩ := Coordinator.isCurrent_iff.mp hcurrent
  have hanswer := (hworks.serves.waited _ load hload).unanswered
  have hlt : handle.id < c.desk.coordinator.nextId := hid ▸ hworks.serves.pending_lt hload
  have hflag : ¬ c.Flagged handle.id := by
    rw [Flagged, ← hid, hworks.serves.not_isCancelled hload]
    exact Bool.false_ne_true
  rw [hid] at hanswer
  refine ⟨hflag, hanswer, fun hwithdraws e hrest => ?_,
    ⟨h.withdraws hcalled hcurrent, fun hwithdraws => hwithdraws.flagged⟩,
    fun hspared hended e hrest => ?_⟩
  · exact hrest.withdrawn hlater hwithdraws.flagged
  · have hdown : ¬ d.Flagged handle.id := fun hup => hspared (h.withdraws hcalled hcurrent hup)
    refine hrest.unflagged hlater (Nat.lt_of_lt_of_le hlt hcontinues.desk.nextId_le) ?_ hdown
    -- under another key the number was not pending before
    intro key
    rw [Bool.eq_false_iff]
    intro hpending
    obtain ⟨other, hother, hsame⟩ :=
      Coordinator.isCurrent_iff.mp (hcontinues.desk.current key _ hlt hpending)
    rw [← hworks.serves.key_eq_of_id_eq hload hother (hid.trans hsame.symm), hended] at hpending
    exact Bool.false_ne_true hpending

end Cache

namespace Session

variable {K V : Type} [DecidableEq K] [KeyText K] {b : Builder K V} {c : Cache K V}
  {loader : Loader K V}

/-- Whatever happens to a cache with a loader, a load that is cancelled while it is pending comes
to nothing, whoever has a turn from then on; and the flag of a load that ends otherwise is never
raised. -/
theorem live_withdrawn (hbuild : b.build = .ok c) (hloader : b.loader = some loader) :
    (∀ happenings, Cache.Acts c (live ⟨c, []⟩ happenings).cache) ∧
      ∀ d, Cache.Acts c d → ∀ handle : LoadHandle K,
        d.desk.coordinator.isCurrent handle.key handle.id = true →
          ∀ d', Cache.Act d d' → Cache.Cancellation d d' handle := by
  obtain ⟨hcalled, -⟩ := Builder.called_build hbuild (by rw [hloader]; rfl)
  refine ⟨live_acts ⟨c, []⟩, fun d hacts handle hcurrent d' hact => ?_⟩
  exact hact.cancellation (hacts.keeps_called hcalled).1 hcurrent

/-- The theorem for a blocking loader whose job waits in the queue when the only waiter goes.  A
newer load of the key is pending when the job has its turn. -/
theorem live_withdrawn_blocking :
    let b : Builder String Nat :=
      { executor := some {}, loader := some ⟨true, fun _ _ _ => .finish (.value 7)⟩ }
    ∃ c, b.build = .ok c ∧
      let s := live ⟨c, []⟩ [.request (.forceLoad "a"), .turn (.task 0)]
      let dropped := s.happen (.request (.drop 0))
      let later := dropped.live [.request (.forceLoad "a"), .turn (.job 0), .turn (.task 0)]
      s.cache.desk.executor.queue = [.task 0, .job 0] ∧ later.cache.Withdrawn 0 ∧
        later.cache.desk.coordinator.isCurrent "a" 1 = true ∧ later.cache.loaderCalls = [] := by
  intro b
  obtain ⟨hlives, hcancellations⟩ := live_withdrawn (b := b) rfl rfl
  refine ⟨_, rfl, ?_⟩
  intro s dropped later
  have hreached := hlives [.request (.forceLoad "a"), .turn (.task 0)]
  have hcurrent : s.cache.desk.coordinator.isCurrent "a" 0 = true := by decide +kernel
  have hcancellation := hcancellations s.cache hreached ⟨"a", 0⟩ hcurrent dropped.cache
    (Cache.Act.release (.load ⟨"a", 0⟩))
  have hlast : s.cache.desk.coordinator.pending? "a" = some ⟨0, 1⟩ := by decide +kernel
  have hwithdrawn := hcancellation.withdrawn (.release hlast rfl rfl) later.cache (live_acts _ _)
  exact ⟨by decide +kernel, hwithdrawn.1, by decide +kernel, by decide +kernel⟩

end Session

end BoundedCache
