import BoundedCache.Cache.Builder
import BoundedCache.Cache.Operations

/-!
# Sessions

A session is a cache with the futures that its users hold, and a `Request` is
anything that can be asked of the two or happen to them.  `step` answers one request.
The executor is free to run a task or a job whenever it likes, so beside the requests
there are turns of its own, in any order: a `Happening` is one or the other.  `live` is
the session after a sequence of them, so whatever holds of all sequences holds of every
history that a cache can have.

Futures are numbered in the order in which they were handed out.  A future that has
given its answer, or was dropped, is gone.
-/

namespace BoundedCache

/-- A future that was handed out. -/
structure Held (K V : Type) where
  /-- The future, until it is gone. -/
  future : Option (Future K V)
  /-- Whether it has been polled to its end and kept nevertheless. -/
  finished : Bool := false
  /-- The answer that it gave on leaving. -/
  answer : Option (Answer K V) := none

/-- A cache and the futures handed out. -/
structure Session (K V : Type) where
  cache : Cache K V
  futures : List (Held K V) := []

/-- What a session is asked. -/
inductive Request (K V : Type) where
  | start
  | getIfPresent (key : K)
  | peek (key : K)
  | contains (key : K)
  | put (key : K) (value : V) (attributes : Attributes)
  | putIfAbsent (key : K) (value : V)
  | putAll (pairs : List (K × V))
  | replace (key : K) (value : V)
  | remove (key : K)
  | removeAll (keys : List K)
  | clear
  | evict
  | trim (maxEntries : Nat)
  | purge
  | resize (maxEntries maxVolume : Nat)
  | shutDown
  | shutDownNow
  | get (key : K) (attributes : Attributes)
  | load (key : K) (attributes : Attributes)
  | forceLoad (key : K)
  | loadAll (keys : List K)
  | getAndWait (key : K)
  /-- Take the answer that a future had from the start. -/
  | take (handle : Nat)
  | poll (handle : Nat)
  /-- Poll a future and keep it even if it gives its answer. -/
  | pollAndKeep (handle : Nat)
  /-- Poll a future, running the queue if that is needed. -/
  | await (handle : Nat)
  | drop (handle : Nat)
  /-- Run tickets of the queue, all of them if no number is given. -/
  | run (count : Option Nat)
  | openGate (key : K)
  /-- The executor drops the task of a load. -/
  | abandon (load : Nat)
  /-- The executor treats what it is given another way from now on. -/
  | treat (spawning blocking : Admission)
  | sweep
  | sleep (d : Duration)
  | terminatesWithin (d : Duration)
  | advance (d : Duration)
  | setClock (now : Nat)

/-- What a session answers. -/
inductive Reply (K V : Type) where
  | done
  | flag (value : Bool)
  | count (value : Nat)
  | written (entry : Entry K V)
  | found (entry : Option (Entry K V))
  | listed (entries : List (Entry K V))
  | failed (error : CacheError)
  | issued (handle : Nat) (needsAwait : Bool)
  | ready (answer : Answer K V)
  | pending
  | gone
  /-- A future was polled after its end. -/
  | overpolled (message : String)

namespace Reply

variable {K V : Type}

/-- The reply for a result that may be an error. -/
def ofResult {α : Type} (reply : α → Reply K V) : Except CacheError α → Reply K V
  | .ok a => reply a
  | .error e => .failed e

/-- The reply for the common result of several loads. -/
def ofJoint : Cache.Joint K V → Reply K V
  | .failed e => .failed e
  | .waiting => .pending
  | .complete entries => .listed entries

end Reply

namespace Session

variable {K V : Type} [DecidableEq K] [KeyText K]

/-- The future of a handle, unless it is gone. -/
def held? (s : Session K V) (handle : Nat) : Option (Held K V × Future K V) := do
  let held ← s.futures[handle]?
  let future ← held.future
  return (held, future)

/-- The answer that the future of a handle gave on leaving. -/
def answer? (s : Session K V) (handle : Nat) : Option (Answer K V) := do
  (← s.futures[handle]?).answer

/-- Hand out a future. -/
def issue (s : Session K V) (ask : Cache K V → Future K V × Cache K V) :
    Reply K V × Session K V :=
  let (future, cache) := ask s.cache
  (.issued s.futures.length future.needsAwait,
    { cache := cache, futures := s.futures ++ [{ future := some future }] })

/-- A future leaves, perhaps with an answer. -/
def depart (s : Session K V) (handle : Nat) (future : Future K V) (answer : Option (Answer K V)) :
    Session K V where
  cache := s.cache.release future
  futures := s.futures.set handle { future := none, answer := answer }

/-- The message for a future that is polled after its end. -/
def overpollMessage : Future K V → String
  | .ready _ => "`Get` polled after completion"
  | .load _ => "Shared future polled again after completion"

/-- Poll a future; what happens if it has its answer is up to `atEnd`. -/
def pollWith (s : Session K V) (handle : Nat)
    (atEnd : Session K V → Future K V → Answer K V → Session K V) : Reply K V × Session K V :=
  match s.held? handle with
  | none => (.gone, s)
  | some (held, future) =>
      if held.finished then (.overpolled (overpollMessage future), s)
      else
        match s.cache.answer? future with
        | none => (.pending, s)
        | some answer => (.ready answer, atEnd s future answer)

/-- Poll a future. -/
def poll (s : Session K V) (handle : Nat) : Reply K V × Session K V :=
  s.pollWith handle fun s future answer => s.depart handle future (some answer)

/-- Poll a future and keep it. -/
def pollAndKeep (s : Session K V) (handle : Nat) : Reply K V × Session K V :=
  s.pollWith handle fun s future _ =>
    { s with futures := s.futures.set handle { future := some future, finished := true } }

/-- Poll a future, running the queue if that is needed. -/
def await (s : Session K V) (handle : Nat) : Reply K V × Session K V :=
  match s.poll handle with
  | (.pending, s) => { s with cache := s.cache.runIdle }.poll handle
  | answered => answered

/-- Take the answer that a future had from the start. -/
def take (s : Session K V) (handle : Nat) : Reply K V × Session K V :=
  match s.held? handle with
  | some (⟨_, false, _⟩, .ready _) => s.poll handle
  | some _ => (.pending, s)
  | none => (.gone, s)

/-- Drop a future. -/
def drop (s : Session K V) (handle : Nat) : Session K V :=
  match s.held? handle with
  | none => s
  | some (_, future) => s.depart handle future none

/-- Ask the cache something. -/
def ask {α : Type} (s : Session K V) (operation : Cache K V → α × Cache K V)
    (reply : α → Reply K V) : Reply K V × Session K V :=
  let (a, cache) := operation s.cache
  (reply a, { s with cache := cache })

/-- Let something happen to the cache. -/
def change (s : Session K V) (operation : Cache K V → Cache K V) : Reply K V × Session K V :=
  (.done, { s with cache := operation s.cache })

/-- Answer one request. -/
def step (s : Session K V) : Request K V → Reply K V × Session K V
  | .start => s.ask Cache.start (.ofResult fun _ => .done)
  | .getIfPresent key => s.ask (·.getIfPresent key) (.ofResult .found)
  | .peek key => s.ask (·.peek key) .found
  | .contains key => s.ask (·.contains key) .flag
  | .put key value attributes => s.ask (·.put key value attributes) (.ofResult .written)
  | .putIfAbsent key value => s.ask (·.putIfAbsent key value) (.ofResult .found)
  | .putAll pairs => s.ask (·.putAll pairs) (.ofResult fun _ => .done)
  | .replace key value => s.ask (·.replace key value) (.ofResult .found)
  | .remove key => s.ask (·.remove key) (.ofResult .found)
  | .removeAll keys => s.ask (·.removeAll keys) (.ofResult .listed)
  | .clear => s.ask Cache.clear fun _ => .done
  | .evict => s.ask Cache.evict .count
  | .trim maxEntries => s.ask (·.trim maxEntries) .count
  | .purge => s.ask Cache.purge .count
  | .resize maxEntries maxVolume => s.ask (·.resize maxEntries maxVolume) fun _ => .done
  | .shutDown => s.ask Cache.shutDown .flag
  | .shutDownNow => s.ask Cache.shutDownNow .flag
  | .get key attributes => s.issue (·.get key attributes)
  | .load key attributes => s.issue (·.load key attributes)
  | .forceLoad key => s.issue (·.forceLoad key)
  | .loadAll keys => s.ask (·.loadAll keys) .ofJoint
  | .getAndWait key => s.ask (·.getAndWait key) fun
      | none => .pending
      | some answer => Reply.ofResult .found answer
  | .take handle => s.take handle
  | .poll handle => s.poll handle
  | .pollAndKeep handle => s.pollAndKeep handle
  | .await handle => s.await handle
  | .drop handle => (.done, s.drop handle)
  | .run none => s.change Cache.runIdle
  | .run (some count) => s.change (·.runQueue count)
  | .openGate key => s.change (·.openGate key)
  | .abandon load => s.change (·.abandon load)
  | .treat spawning blocking => s.change (·.treat spawning blocking)
  | .sweep => s.change Cache.sweep
  | .sleep d => s.change (·.sleep d)
  | .terminatesWithin d => s.ask (·.terminatesWithin d) .flag
  | .advance d => s.change (·.advance d)
  | .setClock now => s.change (·.setClock now)

/-- What can happen to a session: a request, or a turn that the executor gives to whichever
task or job it likes. -/
inductive Happening (K V : Type) where
  | request (request : Request K V)
  | turn (ticket : Ticket)

/-- The session after an event. -/
def happen (s : Session K V) : Happening K V → Session K V
  | .request request => (s.step request).2
  | .turn ticket => { s with cache := s.cache.runTicket ticket }

/-- The session after a sequence of events. -/
def live (s : Session K V) (happenings : List (Happening K V)) : Session K V :=
  happenings.foldl happen s

/-- Whether two futures gave errors with one and the same cause; nothing if one of
them gave none. -/
def sameSource? (s : Session K V) (first second : Nat) : Option Bool :=
  match s.answer? first, s.answer? second with
  | some (.error a), some (.error b) => some (a.sameSource b)
  | _, _ => none

/-- The summary of a future for debugging; nothing if it is gone. -/
def summary? (s : Session K V) (handle : Nat) : Option String :=
  match s.held? handle with
  | none => none
  | some (_, .load handle) => some ("Load(" ++ handle.summary ++ ")")
  | some (held, .ready answer) =>
      if held.finished then some "Ready(None)"
      else
        match answer with
        | .ok none => some "Ready(Some(Ok(None)))"
        | .ok (some entry) => some ("Ready(Some(Ok(Some(" ++ entry.summary ++ "))))")
        | .error e => some ("Ready(Some(Err(" ++ e.summary ++ ")))")

end Session

/-- Whether the load that called the loader last for a key was cancelled.  A blocking
loader does not know the load that it is called for. -/
def Cache.lastCallCancelled? {K V : Type} [DecidableEq K] (c : Cache K V) (key : K) :
    Option Bool :=
  if c.loader.any (·.blocking) then none
  else (c.loaderCalls.find? fun handle => handle.key = key).map fun handle =>
    c.desk.coordinator.isCancelled handle.id

end BoundedCache
