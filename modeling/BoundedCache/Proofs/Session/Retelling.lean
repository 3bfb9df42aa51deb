import BoundedCache.Proofs.Cache.Retelling
import BoundedCache.Proofs.Session.Termination

/-!
# A session, told in two ways

Every operation of a cache commutes with a retelling, and so does every request of a session.  Two
sessions of which one is the retelling of the other give the same replies (`live_retold`), so
users cannot tell which of them they have.
-/

namespace BoundedCache

namespace Cache

variable {K V : Type} [DecidableEq K] (r : Retelling K V) (c : Cache K V)

section

variable [KeyText K]

theorem get_retold (key : K) (attributes : Attributes) :
    (r.cache c).get key attributes = (c.get key attributes).map id r.cache := by
  unfold get
  rw [running_retold]
  rcases c.running true with ⟨e | _, next⟩
  · rfl
  · have hread := perform_retold (c := next)
      ((Change.shown_lookup next.expiration key).respects r.toRewording)
    have hexpiration : (r.cache next).expiration = next.expiration := rfl
    dsimp only [Prod.map, id]
    rw [hexpiration, hread]
    rcases next.perform (.lookup next.expiration key) with ⟨_ | entry, read⟩
    · have hloader : (r.cache read).loader = read.loader := rfl
      dsimp only [Prod.map, id]
      rw [hloader]
      split
      · rfl
      · exact requestLoad_retold r read key attributes false
    · rfl

theorem load_retold (key : K) (attributes : Attributes) :
    (r.cache c).load key attributes = (c.load key attributes).map id r.cache := by
  unfold load
  rw [running_retold]
  rcases c.running true with ⟨e | _, next⟩
  · rfl
  · have hlive : (r.cache next).store.live? (r.cache next).expiration key (r.cache next).clock =
        next.store.live? next.expiration key next.clock := rfl
    dsimp only [Prod.map, id]
    rw [hlive]
    cases next.store.live? next.expiration key next.clock with
    | none => exact requestLoad_retold r next key attributes false
    | some entry => rfl

theorem forceLoad_retold (key : K) :
    (r.cache c).forceLoad key = (c.forceLoad key).map id r.cache := by
  unfold forceLoad
  rw [running_retold]
  rcases c.running true with ⟨e | _, next⟩
  · rfl
  · exact requestLoad_retold r next key {} true

omit [KeyText K] in
theorem answer?_retold (future : Future K V) : (r.cache c).answer? future = c.answer? future := by
  cases future <;> rfl

theorem getAndWait_retold (key : K) :
    (r.cache c).getAndWait key = (c.getAndWait key).map id r.cache := by
  unfold getAndWait
  rw [get_retold]
  rcases c.get key {} with ⟨future, asked⟩
  dsimp only [Prod.map, id]
  rw [answer?_retold]
  cases asked.answer? future with
  | none =>
      dsimp only
      rw [runIdle_retold, answer?_retold, release_retold]
  | some answer =>
      dsimp only
      rw [answer?_retold, release_retold]

theorem loadEach_retold (keys : List K) :
    (r.cache c).loadEach keys = (c.loadEach keys).map id r.cache := by
  induction keys generalizing c with
  | nil => rfl
  | cons key rest ih =>
      unfold loadEach
      rw [load_retold]
      dsimp only [Prod.map, id]
      rw [ih]
      rfl

omit [KeyText K] in
theorem join_retold (futures : List (Future K V)) : (r.cache c).join futures = c.join futures := by
  have hanswer : (r.cache c).answer? = c.answer? := funext (answer?_retold r c)
  have htogether : (r.cache c).joinTogether futures = c.joinTogether futures := by
    induction futures with
    | nil => rfl
    | cons future rest ih =>
        unfold joinTogether
        rw [hanswer, ih]
  have hturn : (r.cache c).joinInTurn futures = c.joinInTurn futures := by
    clear htogether
    induction futures with
    | nil => rfl
    | cons future rest ih =>
        unfold joinInTurn
        rw [hanswer, ih]
  unfold join
  rw [htogether, hturn]

theorem loadAll_retold (keys : List K) :
    (r.cache c).loadAll keys = (c.loadAll keys).map id r.cache := by
  unfold loadAll
  rw [loadEach_retold]
  rcases c.loadEach keys.eraseDups with ⟨futures, asked⟩
  dsimp only [Prod.map, id]
  rw [join_retold]
  split
  · rw [runIdle_retold, join_retold, releaseAll_retold]
  · rw [join_retold, releaseAll_retold]

end

/-! ## Time -/

theorem sweep_retold : (r.cache c).sweep = r.cache c.sweep := by
  have hsweeper : (r.cache c).sweeper = c.sweeper := rfl
  have hlifecycle : (r.cache c).lifecycle = c.lifecycle := rfl
  unfold sweep
  rw [hsweeper, hlifecycle]
  split
  · rfl
  · split
    · rfl
    · exact congrArg Prod.snd (c.errand_retold r .expire)

theorem sweepUntil_retold (time fuel : Nat) :
    (r.cache c).sweepUntil time fuel = r.cache (c.sweepUntil time fuel) := by
  induction fuel generalizing c with
  | zero => rfl
  | succ fuel ih =>
      have hsweeper : (r.cache c).sweeper = c.sweeper := rfl
      unfold sweepUntil
      rw [hsweeper]
      split
      · rfl
      · split
        · rw [← ih, ← sweep_retold]
          rfl
        · rfl

variable [KeyText K]

theorem sleep_retold (d : Duration) : (r.cache c).sleep d = r.cache (c.sleep d) := by
  have helapsed : (r.cache c.runIdle).elapsed = c.runIdle.elapsed := rfl
  unfold sleep
  dsimp only
  rw [runIdle_retold, helapsed, sweepUntil_retold]
  rfl

theorem terminatesWithin_retold (d : Duration) :
    (r.cache c).terminatesWithin d = (c.terminatesWithin d).map id r.cache := by
  have hslept : ∀ c : Cache K V, (if decide ((r.cache c).lifecycle = .terminated) then r.cache c
      else (r.cache c).sleep d) =
        r.cache (if decide (c.lifecycle = .terminated) then c else c.sleep d) := by
    intro c
    rw [sleep_retold]
    by_cases hover : decide (c.lifecycle = .terminated) = true
    · rw [if_pos hover]
      exact if_pos hover
    · rw [if_neg hover]
      exact if_neg hover
  unfold terminatesWithin
  dsimp only
  rw [runIdle_retold, hslept]
  by_cases hwaits : (c.desk.executor.timed && !decide (c.lifecycle = .terminated)) = true
  · rw [if_pos hwaits]
    exact if_pos hwaits
  · rw [if_neg hwaits]
    exact if_neg hwaits

end Cache

/-- The session with the other hooks, after the same history. -/
def Retelling.session {K V : Type} [DecidableEq K] (r : Retelling K V) (s : Session K V) :
    Session K V := { s with cache := r.cache s.cache }

namespace Session

variable {K V : Type} [DecidableEq K] (r : Retelling K V) (s : Session K V)

theorem ask_retold {α : Type} (operation : Cache K V → α × Cache K V) (reply : α → Reply K V)
    (h : ∀ c, operation (r.cache c) = (operation c).map id r.cache) :
    (r.session s).ask operation reply = (s.ask operation reply).map id r.session := by
  have hsame := h s.cache
  unfold ask
  rw [show (r.session s).cache = r.cache s.cache from rfl, hsame]
  rfl

theorem issue_retold (ask : Cache K V → Future K V × Cache K V)
    (h : ∀ c, ask (r.cache c) = (ask c).map id r.cache) :
    (r.session s).issue ask = (s.issue ask).map id r.session := by
  have hsame := h s.cache
  unfold issue
  rw [show (r.session s).cache = r.cache s.cache from rfl, hsame]
  rfl

theorem change_retold (operation : Cache K V → Cache K V)
    (h : ∀ c, operation (r.cache c) = r.cache (operation c)) :
    (r.session s).change operation = (s.change operation).map id r.session := by
  have hsame := h s.cache
  unfold change
  rw [show (r.session s).cache = r.cache s.cache from rfl, hsame]
  rfl

/-! ## Futures -/

theorem held?_retold (handle : Nat) : (r.session s).held? handle = s.held? handle := rfl

theorem depart_retold (handle : Nat) (future : Future K V) (answer : Option (Answer K V)) :
    (r.session s).depart handle future answer = r.session (s.depart handle future answer) := by
  have hrelease := Cache.release_retold r s.cache future
  unfold depart
  rw [show (r.session s).cache = r.cache s.cache from rfl, hrelease]
  rfl

theorem pollWith_retold (handle : Nat)
    {atEnd : Session K V → Future K V → Answer K V → Session K V}
    (h : ∀ s future answer, atEnd (r.session s) future answer = r.session (atEnd s future answer)) :
    (r.session s).pollWith handle atEnd = (s.pollWith handle atEnd).map id r.session := by
  have hanswer := Cache.answer?_retold r s.cache
  unfold pollWith
  rw [held?_retold]
  rcases s.held? handle with _ | ⟨held, future⟩
  · rfl
  · dsimp only
    rw [show (r.session s).cache = r.cache s.cache from rfl, hanswer]
    split
    · rfl
    · split
      · rfl
      · rw [h]
        rfl

theorem poll_retold (handle : Nat) :
    (r.session s).poll handle = (s.poll handle).map id r.session :=
  pollWith_retold r s handle fun s future answer => s.depart_retold r handle future (some answer)

theorem pollAndKeep_retold (handle : Nat) :
    (r.session s).pollAndKeep handle = (s.pollAndKeep handle).map id r.session :=
  pollWith_retold r s handle fun _ _ _ => rfl

theorem take_retold (handle : Nat) :
    (r.session s).take handle = (s.take handle).map id r.session := by
  unfold take
  rw [held?_retold]
  split
  · exact poll_retold r s handle
  · rfl
  · rfl

theorem drop_retold (handle : Nat) : (r.session s).drop handle = r.session (s.drop handle) := by
  unfold drop
  rw [held?_retold]
  split
  · rfl
  · exact depart_retold r s handle _ none

variable [KeyText K]

theorem await_retold (handle : Nat) :
    (r.session s).await handle = (s.await handle).map id r.session := by
  unfold await
  rw [poll_retold]
  rcases s.poll handle with ⟨reply, polled⟩
  cases reply with
  | pending =>
      have hidle := Cache.runIdle_retold r polled.cache
      show poll { r.session polled with cache := (r.cache polled.cache).runIdle } handle = _
      rw [hidle]
      exact poll_retold r { polled with cache := polled.cache.runIdle } handle
  | _ => rfl

/-! ## Requests and turns -/

/-- A request to the session with the other hooks is the request to the session. -/
theorem step_retold (request : Request K V) :
    (r.session s).step request = (s.step request).map id r.session := by
  cases request with
  | start => exact ask_retold r s Cache.start _ fun c => Cache.whenRunning_retold fun _ => rfl
  | getIfPresent key =>
      exact ask_retold r s (·.getIfPresent key) _ (Cache.strict_retold r (.lookup key))
  | peek key =>
      exact ask_retold r s (·.peek key) _ fun c => Cache.ifRunning_retold _ fun _ => rfl
  | contains key =>
      exact ask_retold r s (·.contains key) _ fun c => Cache.ifRunning_retold _ fun _ => rfl
  | put key value attributes =>
      refine ask_retold r s (·.put key value attributes) _ fun c =>
        Cache.whenRunning_retold fun c => ?_
      exact congrArg (Prod.map (·.new) id) (c.errand_retold r (.write key value attributes .user))
  | putIfAbsent key value =>
      exact ask_retold r s (·.putIfAbsent key value) _
        (Cache.strict_retold r (.putIfAbsent key value))
  | putAll pairs =>
      exact ask_retold r s (·.putAll pairs) _ (Cache.strict_retold r (.writeAll pairs))
  | replace key value =>
      exact ask_retold r s (·.replace key value) _ (Cache.strict_retold r (.replace key value))
  | remove key => exact ask_retold r s (·.remove key) _ (Cache.strict_retold r (.remove key))
  | removeAll keys =>
      exact ask_retold r s (·.removeAll keys) _ (Cache.strict_retold r (.removeAll keys))
  | clear => exact ask_retold r s Cache.clear (fun _ => .done) (Cache.lenient_retold r .clear ())
  | evict => exact ask_retold r s Cache.evict _ (Cache.lenient_retold r .expire (0 : Nat))
  | trim maxEntries =>
      exact ask_retold r s (·.trim maxEntries) _
        (Cache.lenient_retold r (.trim maxEntries) (0 : Nat))
  | purge => exact ask_retold r s Cache.purge _ (Cache.lenient_retold r .purge (0 : Nat))
  | resize maxEntries maxVolume =>
      exact ask_retold r s (·.resize maxEntries maxVolume) (fun _ => .done)
        (Cache.lenient_retold r (.resize maxEntries maxVolume) ())
  | shutDown => exact ask_retold r s Cache.shutDown _ fun _ => rfl
  | shutDownNow => exact ask_retold r s Cache.shutDownNow _ fun _ => rfl
  | get key attributes =>
      exact issue_retold r s (·.get key attributes) fun c => c.get_retold r key attributes
  | load key attributes =>
      exact issue_retold r s (·.load key attributes) fun c => c.load_retold r key attributes
  | forceLoad key => exact issue_retold r s (·.forceLoad key) fun c => c.forceLoad_retold r key
  | loadAll keys => exact ask_retold r s (·.loadAll keys) _ fun c => c.loadAll_retold r keys
  | getAndWait key =>
      unfold step
      exact ask_retold r s (·.getAndWait key) _ fun c => c.getAndWait_retold r key
  | take handle => exact take_retold r s handle
  | poll handle => exact poll_retold r s handle
  | pollAndKeep handle => exact pollAndKeep_retold r s handle
  | await handle => exact await_retold r s handle
  | drop handle => exact congrArg (Prod.mk _) (drop_retold r s handle)
  | run count =>
      cases count with
      | none => exact change_retold r s Cache.runIdle fun c => c.runIdle_retold r
      | some count => exact change_retold r s (·.runQueue count) fun c => c.runQueue_retold r count
  | openGate key => exact change_retold r s (·.openGate key) fun _ => rfl
  | abandon load => exact change_retold r s (·.abandon load) fun _ => rfl
  | treat spawning blocking => exact change_retold r s (·.treat spawning blocking) fun _ => rfl
  | sweep => exact change_retold r s Cache.sweep fun c => c.sweep_retold r
  | sleep d => exact change_retold r s (·.sleep d) fun c => c.sleep_retold r d
  | terminatesWithin d =>
      exact ask_retold r s (·.terminatesWithin d) _ fun c => c.terminatesWithin_retold r d
  | advance d => exact change_retold r s (·.advance d) fun _ => rfl
  | setClock now => exact change_retold r s (·.setClock now) fun _ => rfl

theorem happen_retold (happening : Happening K V) :
    (r.session s).happen happening = r.session (s.happen happening) := by
  cases happening with
  | request request => exact congrArg Prod.snd (step_retold r s request)
  | turn ticket =>
      have hturn := Cache.runTicket_retold r s.cache ticket
      exact congrArg (fun cache => ({ s with cache := cache } : Session K V)) hturn

/-- The replies that a session gives while all this happens. -/
def replies (s : Session K V) : List (Happening K V) → List (Reply K V)
  | [] => []
  | .request request :: later => (s.step request).1 :: replies (s.step request).2 later
  | .turn ticket :: later => replies (s.happen (.turn ticket)) later

/-- Whatever happens, the two sessions go the same way, and give the same replies. -/
theorem live_retold (happenings : List (Happening K V)) :
    (r.session s).live happenings = r.session (s.live happenings) ∧
      (r.session s).replies happenings = s.replies happenings := by
  induction happenings generalizing s with
  | nil => exact ⟨rfl, rfl⟩
  | cons happening later ih =>
      have hnext := happen_retold r s happening
      obtain ⟨hlive, hreplies⟩ := ih (s.happen happening)
      refine ⟨?_, ?_⟩
      · show ((r.session s).happen happening).live later = _
        rw [hnext, hlive]
        rfl
      · cases happening with
        | request request =>
            have hstep := step_retold r s request
            unfold replies
            rw [hstep]
            exact congrArg (List.cons _) hreplies
        | turn ticket =>
            unfold replies
            rw [hnext, hreplies]

end Session

end BoundedCache
