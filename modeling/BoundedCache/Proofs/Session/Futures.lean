import BoundedCache.Session

/-!
# What becomes of a cache when a future is polled or dropped

A future that gives its answer, or is dropped, lets go of its load; that is all the cache
notices.  A poll that comes to nothing is no different from letting go of an answer.
-/

namespace BoundedCache.Session

variable {K V : Type}

theorem pollAndKeep_cache (s : Session K V) (handle : Nat) :
    (s.pollAndKeep handle).2.cache = s.cache := by
  unfold pollAndKeep pollWith
  split
  · rfl
  · split
    · rfl
    · split <;> rfl

variable [DecidableEq K]

theorem release_nothing (c : Cache K V) : ∃ future, c = c.release future := ⟨.ready (.ok none), rfl⟩

theorem poll_cache (s : Session K V) (handle : Nat) :
    ∃ future, (s.poll handle).2.cache = s.cache.release future := by
  unfold poll pollWith
  split
  · exact release_nothing s.cache
  · split
    · exact release_nothing s.cache
    · split
      · exact release_nothing s.cache
      · exact ⟨_, rfl⟩

theorem drop_cache (s : Session K V) (handle : Nat) :
    ∃ future, (s.drop handle).cache = s.cache.release future := by
  unfold drop
  split
  · exact release_nothing s.cache
  · exact ⟨_, rfl⟩

theorem take_cache (s : Session K V) (handle : Nat) :
    ∃ future, (s.take handle).2.cache = s.cache.release future := by
  unfold take
  split
  · exact s.poll_cache handle
  · exact release_nothing s.cache
  · exact release_nothing s.cache

end BoundedCache.Session
