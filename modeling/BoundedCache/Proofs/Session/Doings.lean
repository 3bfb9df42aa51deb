import BoundedCache.Proofs.Cache.Acts
import BoundedCache.Proofs.Session.Futures

/-!
# What a session does to its cache

Every request is made of doings of the cache, or sets its clock and nothing else
(`happen_doings`), and a turn of the executor is one of them.  What users ask of the data is at
most one errand for each request (`Request.errand?`); the sweeper expires them as often as it is
due while time passes.
-/

namespace BoundedCache

variable {K V : Type}

/-- The errand that a request is, if it is one. -/
def Request.errand? : Request K V → Option (Errand K V)
  | .getIfPresent key | .get key _ | .getAndWait key => some (.lookup key)
  | .put key value attributes => some (.write key value attributes .user)
  | .putIfAbsent key value => some (.putIfAbsent key value)
  | .putAll pairs => some (.writeAll pairs)
  | .replace key value => some (.replace key value)
  | .remove key => some (.remove key)
  | .removeAll keys => some (.removeAll keys)
  | .clear => some .clear
  | .evict => some .expire
  | .trim maxEntries => some (.trim maxEntries)
  | .purge => some .purge
  | .resize maxEntries maxVolume => some (.resize maxEntries maxVolume)
  | _ => none

/-- Whether the sweeper may be at work meanwhile. -/
def Request.MaySweep : Request K V → Prop
  | .sweep | .sleep _ | .terminatesWithin _ => True
  | _ => False

namespace Session

/-- What an event asks of the data, of a cache that is available or not: the errand that it is,
or nothing, or as many sweeps as are due. -/
inductive Happening.Brings (available : Bool) : Happening K V → List (Errand K V) → Prop where
  | errand {request : Request K V} {errand : Errand K V} (herrand : request.errand? = some errand) :
      Brings available (.request request) (if available then [errand] else [])
  | nothing {request : Request K V} (herrand : request.errand? = none) :
      Brings available (.request request) []
  | sweeps {request : Request K V} (hsweep : request.MaySweep) (count : Nat) :
      Brings available (.request request) (List.replicate count .expire)
  | turn (ticket : Ticket) : Brings available (.turn ticket) []

variable [DecidableEq K] [KeyText K]

/-! ## Futures -/

theorem poll_doings (s : Session K V) (handle : Nat) :
    Cache.Doings s.cache [] (s.poll handle).2.cache := by
  obtain ⟨future, heq⟩ := s.poll_cache handle
  rw [heq]
  exact (Cache.Doing.release future).doings

theorem poll_acts (s : Session K V) (handle : Nat) :
    Cache.Acts s.cache (s.poll handle).2.cache :=
  (s.poll_doings handle).acts

theorem drop_doings (s : Session K V) (handle : Nat) :
    Cache.Doings s.cache [] (s.drop handle).cache := by
  obtain ⟨future, heq⟩ := s.drop_cache handle
  rw [heq]
  exact (Cache.Doing.release future).doings

theorem take_doings (s : Session K V) (handle : Nat) :
    Cache.Doings s.cache [] (s.take handle).2.cache := by
  obtain ⟨future, heq⟩ := s.take_cache handle
  rw [heq]
  exact (Cache.Doing.release future).doings

theorem await_doings (s : Session K V) (handle : Nat) :
    Cache.Doings s.cache [] (s.await handle).2.cache := by
  have hpoll := s.poll_doings handle
  unfold await
  split
  · rename_i s' heq
    rw [heq] at hpoll
    have hagain := poll_doings { s' with cache := s'.cache.runIdle } handle
    exact (hpoll.trans (Cache.doings_runIdle _)).trans hagain
  · exact hpoll

/-! ## Requests -/

/-- A request that is an errand is made of doings that ask for it if the cache is available. -/
theorem step_doings_of_errand (s : Session K V) {request : Request K V} {errand : Errand K V}
    (h : request.errand? = some errand) :
    Cache.Doings s.cache (if s.cache.available then [errand] else [])
      (s.step request).2.cache := by
  cases request with
  | getIfPresent key =>
      cases h
      exact Cache.doings_whenRunning _ fun c => c.doings_errand (.lookup key)
  | get key attributes =>
      cases h
      exact s.cache.doings_get key attributes
  | getAndWait key =>
      cases h
      exact s.cache.doings_getAndWait key
  | put key value attributes =>
      cases h
      exact Cache.doings_whenRunning _ fun c => c.doings_errand (.write key value attributes .user)
  | putIfAbsent key value =>
      cases h
      exact Cache.doings_whenRunning _ fun c => c.doings_errand (.putIfAbsent key value)
  | putAll pairs =>
      cases h
      exact Cache.doings_whenRunning _ fun c => c.doings_errand (.writeAll pairs)
  | replace key value =>
      cases h
      exact Cache.doings_whenRunning _ fun c => c.doings_errand (.replace key value)
  | remove key =>
      cases h
      exact Cache.doings_whenRunning _ fun c => c.doings_errand (.remove key)
  | removeAll keys =>
      cases h
      exact Cache.doings_whenRunning _ fun c => c.doings_errand (.removeAll keys)
  | clear =>
      cases h
      exact Cache.doings_ifRunning _ _ fun c => c.doings_errand .clear
  | evict =>
      cases h
      exact Cache.doings_ifRunning _ _ fun c => c.doings_errand .expire
  | trim maxEntries =>
      cases h
      exact Cache.doings_ifRunning _ _ fun c => c.doings_errand (.trim maxEntries)
  | purge =>
      cases h
      exact Cache.doings_ifRunning _ _ fun c => c.doings_errand .purge
  | resize maxEntries maxVolume =>
      cases h
      exact Cache.doings_ifRunning _ _ fun c => c.doings_errand (.resize maxEntries maxVolume)
  | start | peek | contains | shutDown | shutDownNow | load | forceLoad | loadAll | take | poll
  | pollAndKeep | await | drop | run | openGate | abandon | treat | sweep | sleep
  | terminatesWithin | advance | setClock => cases h

/-- Of the other requests, only those on which the sweeper may work ask for anything, or else
they set the clock and nothing else. -/
theorem step_doings_of_none (s : Session K V) {request : Request K V}
    (h : request.errand? = none) :
    Cache.Doings s.cache [] (s.step request).2.cache ∨
      request.MaySweep ∧ Cache.Sweepings s.cache (s.step request).2.cache ∨
      ∃ now, (s.step request).2.cache = { s.cache with clock := now } := by
  cases request with
  | advance d => exact .inr (.inr ⟨_, rfl⟩)
  | setClock now => exact .inr (.inr ⟨now, rfl⟩)
  | sweep => exact .inr (.inl ⟨trivial, Cache.sweepings_sweep _⟩)
  | sleep d => exact .inr (.inl ⟨trivial, Cache.sweepings_sleep _ d⟩)
  | terminatesWithin d => exact .inr (.inl ⟨trivial, Cache.sweepings_terminatesWithin _ d⟩)
  | start => exact .inl (Cache.doings_whenRunning _ fun _ => .refl).of_ite
  | peek key => exact .inl (Cache.doings_ifRunning _ _ fun _ => .refl).of_ite
  | contains key => exact .inl (Cache.doings_ifRunning _ _ fun _ => .refl).of_ite
  | shutDown => exact .inl Cache.Doing.shutDown.doings
  | shutDownNow => exact .inl Cache.Doing.shutDownNow.doings
  | load key attributes => exact .inl (Cache.doings_load _ key attributes)
  | forceLoad key => exact .inl (Cache.doings_forceLoad _ key)
  | loadAll keys => exact .inl (Cache.doings_loadAll _ keys)
  | take handle => exact .inl (s.take_doings handle)
  | poll handle => exact .inl (s.poll_doings handle)
  | pollAndKeep handle =>
      rw [step, pollAndKeep_cache]
      exact .inl .refl
  | await handle => exact .inl (s.await_doings handle)
  | drop handle => exact .inl (s.drop_doings handle)
  | run count =>
      cases count with
      | none => exact .inl (Cache.doings_runIdle _)
      | some count => exact .inl (Cache.doings_runQueue count _)
  | openGate key => exact .inl (Cache.Doing.openGate key).doings
  | abandon load => exact .inl (Cache.Doing.abandon load).doings
  | treat spawning blocking => exact .inl (Cache.Doing.schedule _).doings
  | getIfPresent | get | getAndWait | put | putIfAbsent | putAll | replace | remove | removeAll
  | clear | evict | trim | purge | resize => cases h

/-- An event is made of doings that ask for what it brings, or it sets the clock and nothing
else. -/
theorem happen_doings (s : Session K V) (happening : Happening K V) :
    (∃ own, happening.Brings s.cache.available own ∧
      Cache.Doings s.cache own (s.happen happening).cache) ∨
    happening.Brings s.cache.available [] ∧
      ∃ now, (s.happen happening).cache = { s.cache with clock := now } := by
  cases happening with
  | turn ticket => exact .inl ⟨[], .turn ticket, (Cache.Doing.turn ticket).doings⟩
  | request request =>
      cases herrand : request.errand? with
      | some errand => exact .inl ⟨_, .errand herrand, s.step_doings_of_errand herrand⟩
      | none =>
          rcases s.step_doings_of_none herrand with hdoings | ⟨hsweep, count, hdoings⟩ | hclock
          · exact .inl ⟨[], .nothing herrand, hdoings⟩
          · exact .inl ⟨_, .sweeps hsweep count, hdoings⟩
          · exact .inr ⟨.nothing herrand, hclock⟩

/-! ## As acts -/

theorem happen_acts (s : Session K V) (happening : Happening K V) :
    Cache.Acts s.cache (s.happen happening).cache := by
  rcases s.happen_doings happening with ⟨own, -, hdoings⟩ | ⟨-, now, heq⟩
  · exact hdoings.acts
  · rw [heq]
    exact (Cache.Act.passTime now s.cache.elapsed s.cache.sweeper).acts

theorem live_acts (s : Session K V) (happenings : List (Happening K V)) :
    Cache.Acts s.cache (s.live happenings).cache := by
  induction happenings generalizing s with
  | nil => exact .refl _
  | cons happening rest ih => exact (s.happen_acts happening).trans (ih _)

theorem live_moves (s : Session K V) (happenings : List (Happening K V)) :
    Cache.Moves s.cache (s.live happenings).cache :=
  (s.live_acts happenings).moves

end Session

end BoundedCache
