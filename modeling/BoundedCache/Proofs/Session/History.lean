import BoundedCache.Proofs.Cache.Steps
import BoundedCache.Proofs.Session.Futures

/-!
# The history of a session

Every request passes on what its operation on the cache does (`step_passes`), and so does every
sequence of requests and of turns of the executor (`live_passes`).  The reads and replacements are
counted along the way by what the requests and their replies say, not by what hooks are told.
-/

namespace BoundedCache.Session

variable {K V : Type} [DecidableEq K]

/-! ## Futures -/

theorem poll_alike (s : Session K V) (handle : Nat) :
    Cache.Alike s.cache (s.poll handle).2.cache := by
  obtain ⟨future, heq⟩ := s.poll_cache handle
  rw [heq]
  exact Cache.release_alike s.cache future

theorem drop_alike (s : Session K V) (handle : Nat) :
    Cache.Alike s.cache (s.drop handle).cache := by
  obtain ⟨future, heq⟩ := s.drop_cache handle
  rw [heq]
  exact Cache.release_alike s.cache future

theorem take_alike (s : Session K V) (handle : Nat) :
    Cache.Alike s.cache (s.take handle).2.cache := by
  obtain ⟨future, heq⟩ := s.take_cache handle
  rw [heq]
  exact Cache.release_alike s.cache future

/-! ## Counts over a history -/

variable [KeyText K]

/-- The sum of a count over the requests among the events, each taken where it is made. -/
def countOver (count : Session K V → Request K V → Nat) : Session K V → List (Happening K V) → Nat
  | _, [] => 0
  | s, .request request :: rest =>
      count s request + countOver count (s.happen (.request request)) rest
  | s, .turn ticket :: rest => countOver count (s.happen (.turn ticket)) rest

/-- A read counts if it finds the cache running. -/
def readCount (s : Session K V) : Request K V → Nat
  | .getIfPresent _ | .get _ _ | .getAndWait _ => if s.cache.available then 1 else 0
  | _ => 0

/-- A request to replace counts if its reply is the entry that there was. -/
def replacedCount (s : Session K V) (request : Request K V) : Nat :=
  match request, (s.step request).1 with
  | .replace _ _, .found (some _) => 1
  | _, _ => 0

/-! ## One request -/

variable {s : Session K V} {listeners : List (Listener K V)}

theorem await_passes (hs : s.cache.Sound listeners) (handle : Nat) :
    Cache.Passes listeners s.cache 0 0 (s.await handle).2.cache := by
  have hpolled := poll_alike s handle
  unfold await
  split
  · rename_i s' heq
    rw [heq] at hpolled
    have hidle := hpolled.then hs (Cache.runIdle_passes (hpolled.sound hs))
    exact hidle.unseen hs (poll_alike { s' with cache := s'.cache.runIdle } handle)
  · exact hpolled.passes hs

theorem replacedCount_replace (s : Session K V) (key : K) (value : V) :
    s.replacedCount (.replace key value) = Cache.given (s.cache.replace key value).1 := by
  unfold replacedCount step ask
  dsimp only
  cases (s.cache.replace key value).1 with
  | error e => rfl
  | ok entry => cases entry <;> rfl

/-- A request passes on as many reads and replacements as are counted for it. -/
theorem step_passes (hs : s.cache.Sound listeners) (request : Request K V) :
    Cache.Passes listeners s.cache (s.readCount request) (s.replacedCount request)
      (s.step request).2.cache := by
  cases request with
  | start => exact Cache.start_passes hs
  | getIfPresent key => exact Cache.getIfPresent_passes hs key
  | peek key => exact Cache.peek_passes hs key
  | contains key => exact Cache.contains_passes hs key
  | put key value attributes => exact Cache.put_passes hs key value attributes
  | putIfAbsent key value => exact Cache.strict_passes hs (.putIfAbsent key value) rfl rfl
  | putAll pairs => exact Cache.strict_passes hs (.writeAll pairs) rfl rfl
  | replace key value =>
      -- the only request whose count depends on its reply
      rw [replacedCount_replace]
      exact Cache.replace_passes hs key value
  | remove key => exact Cache.strict_passes hs (.remove key) rfl rfl
  | removeAll keys => exact Cache.strict_passes hs (.removeAll keys) rfl rfl
  | clear => exact Cache.lenient_passes hs .clear () rfl rfl
  | evict => exact Cache.lenient_passes hs .expire (0 : Nat) rfl rfl
  | trim maxEntries => exact Cache.lenient_passes hs (.trim maxEntries) (0 : Nat) rfl rfl
  | purge => exact Cache.lenient_passes hs .purge (0 : Nat) rfl rfl
  | resize maxEntries maxVolume =>
      exact Cache.lenient_passes hs (.resize maxEntries maxVolume) () rfl rfl
  | shutDown => exact (Cache.shutDown_alike s.cache).passes hs
  | shutDownNow => exact (Cache.shutDownNow_alike s.cache).passes hs
  | get key attributes => exact Cache.get_passes hs key attributes
  | load key attributes => exact Cache.load_passes hs key attributes
  | forceLoad key => exact Cache.forceLoad_passes hs key
  | loadAll keys => exact Cache.loadAll_passes hs keys
  | getAndWait key => exact Cache.getAndWait_passes hs key
  | take handle => exact (take_alike s handle).passes hs
  | poll handle => exact (poll_alike s handle).passes hs
  | pollAndKeep handle =>
      have hsame := s.pollAndKeep_cache handle
      have halike := Cache.alike_of_eq (congrArg Cache.store hsame) (congrArg Cache.hooks hsame)
        (congrArg Cache.ledger hsame)
      exact halike.passes hs
  | await handle => exact await_passes hs handle
  | drop handle => exact (drop_alike s handle).passes hs
  | run count =>
      cases count with
      | none => exact Cache.runIdle_passes hs
      | some count => exact Cache.runQueue_passes hs count
  | openGate key => exact (Cache.alike_desk s.cache _).passes hs
  | abandon load => exact (Cache.alike_desk s.cache _).passes hs
  | treat spawning blocking => exact (Cache.alike_desk s.cache _).passes hs
  | sweep => exact Cache.sweep_passes hs
  | sleep d => exact Cache.sleep_passes hs d
  | terminatesWithin d => exact Cache.terminatesWithin_passes hs d
  | advance d =>
      have hlater : Cache.Alike s.cache (s.cache.advance d) := Cache.alike_of_eq rfl rfl rfl
      exact hlater.passes hs
  | setClock now =>
      have hlater : Cache.Alike s.cache (s.cache.setClock now) := Cache.alike_of_eq rfl rfl rfl
      exact hlater.passes hs

/-! ## A history -/

theorem live_passes (hs : s.cache.Sound listeners) (happenings : List (Happening K V)) :
    Cache.Passes listeners s.cache (countOver readCount s happenings)
      (countOver replacedCount s happenings) (s.live happenings).cache := by
  induction happenings generalizing s with
  | nil => exact Cache.Alike.refl.passes hs
  | cons happening rest ih =>
      cases happening with
      | request request =>
          have hstep := step_passes hs request
          exact hstep.trans (ih (hstep.sound hs))
      | turn ticket =>
          have hturn := Cache.runTicket_passes hs ticket
          have hrest := hturn.trans (ih (s := s.happen (.turn ticket)) (hturn.sound hs))
          rwa [Nat.zero_add, Nat.zero_add] at hrest

/-- A cache that was just built has accounted for nothing yet: what a history accounts for is
all that was told, and all that is in the store. -/
theorem live_accounts {b : Builder K V} {c : Cache K V} (hbuild : b.build = .ok c)
    (hstart : b.policy.Starts) (hhooks : ∀ hook ∈ b.hooks, hook.Inert)
    (happenings : List (Happening K V)) :
    ∃ outcomes, c.Accounts b.listeners outcomes (live ⟨c, []⟩ happenings).cache ∧
      reads outcomes = countOver readCount ⟨c, []⟩ happenings ∧
      replacements outcomes = countOver replacedCount ⟨c, []⟩ happenings :=
  live_passes (s := ⟨c, []⟩) (Builder.build_sound hbuild hstart hhooks) happenings

end BoundedCache.Session
