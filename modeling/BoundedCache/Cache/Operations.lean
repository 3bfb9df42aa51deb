import BoundedCache.Cache.Loading

/-!
# Operations on a cache

Strict operations answer an error if the cache does not run; all others do nothing
then.  A read that misses asks for a load, if there is a loader; a read without
side effects never does.

The operations without a comment on that start the cache on its first use.
-/

namespace BoundedCache

namespace Cache

variable {K V : Type} [DecidableEq K]

/-! ## Reading -/

/-- Read `key`; a stale entry is removed. -/
def getIfPresent (c : Cache K V) (key : K) : Answer K V × Cache K V :=
  c.whenRunning fun c => c.perform (.lookup c.expiration key)

/-- The entry of `key`, without any effect on it. -/
def peek (c : Cache K V) (key : K) : Option (Entry K V) × Cache K V :=
  c.ifRunning none fun c => (c.store.live? c.expiration key c.clock, c)

/-- Whether `key` has an entry, without any effect on it. -/
def contains (c : Cache K V) (key : K) : Bool × Cache K V :=
  c.ifRunning false fun c => ((c.store.live? c.expiration key c.clock).isSome, c)

/-! ## Writing -/

/-- Write a value and answer its entry. -/
def put (c : Cache K V) (key : K) (value : V) (attributes : Attributes) :
    Except CacheError (Entry K V) × Cache K V :=
  c.whenRunning fun c =>
    (c.perform (.write c.expiration key value attributes .user)).map (·.new) id

/-- Write a value unless the key has one, which is the answer then. -/
def putIfAbsent (c : Cache K V) (key : K) (value : V) : Answer K V × Cache K V :=
  c.whenRunning fun c => c.perform (.putIfAbsent c.expiration key value)

/-- Write several values. -/
def putAll (c : Cache K V) (pairs : List (K × V)) : Except CacheError Unit × Cache K V :=
  c.whenRunning fun c => c.perform (.writeAll c.expiration pairs)

/-- Write a value if the key has one, and answer the entry replaced. -/
def replace (c : Cache K V) (key : K) (value : V) : Answer K V × Cache K V :=
  c.whenRunning fun c => c.perform (.replace c.expiration key value)

/-- Remove the entry of a key, stale or not. -/
def remove (c : Cache K V) (key : K) : Answer K V × Cache K V :=
  c.whenRunning fun c => c.perform (.remove key)

/-- Remove the entries of several keys, and answer those that there were. -/
def removeAll (c : Cache K V) (keys : List K) :
    Except CacheError (List (Entry K V)) × Cache K V :=
  c.whenRunning fun c => c.perform (.removeAll keys)

/-! ## Maintenance -/

/-- Remove every entry. -/
def clear (c : Cache K V) : Unit × Cache K V := c.ifRunning () fun c => c.perform .clear

/-- Remove the stale entries and count them. -/
def evict (c : Cache K V) : Nat × Cache K V :=
  c.ifRunning 0 fun c => c.perform (.expire c.expiration)

/-- Remove victims until there are at most `maxEntries` entries, and count them. -/
def trim (c : Cache K V) (maxEntries : Nat) : Nat × Cache K V :=
  c.ifRunning 0 fun c => c.perform (.trim maxEntries)

/-- Remove the stale entries and what is beyond the limits, and count both. -/
def purge (c : Cache K V) : Nat × Cache K V :=
  c.ifRunning 0 fun c => c.perform (.purge c.expiration)

/-- Set the limits. -/
def resize (c : Cache K V) (maxEntries maxVolume : Nat) : Unit × Cache K V :=
  c.ifRunning () fun c => c.perform (.resize maxEntries maxVolume)

/-! ## Loading -/

section

variable [KeyText K]

/-- Read `key`, and ask for a load if it has no entry. -/
def get (c : Cache K V) (key : K) (attributes : Attributes) : Future K V × Cache K V :=
  match c.running true with
  | (.error e, c) => (.ready (.error e), c)
  | (.ok _, c) =>
      match c.perform (.lookup c.expiration key) with
      | (some entry, c) => (.ready (.ok (some entry)), c)
      | (none, c) =>
          if c.loader.isNone then (.ready (.ok none), c)
          else c.requestLoad key attributes false

/-- Ask for a load of `key` unless it has an entry; this is no read of the entry. -/
def load (c : Cache K V) (key : K) (attributes : Attributes) : Future K V × Cache K V :=
  match c.running true with
  | (.error e, c) => (.ready (.error e), c)
  | (.ok _, c) =>
      match c.store.live? c.expiration key c.clock with
      | some entry => (.ready (.ok (some entry)), c)
      | none => c.requestLoad key attributes false

/-- Ask for a load of `key` even if it has an entry. -/
def forceLoad (c : Cache K V) (key : K) : Future K V × Cache K V :=
  match c.running true with
  | (.error e, c) => (.ready (.error e), c)
  | (.ok _, c) => c.requestLoad key {} true

/-- Read `key` and wait for its load.  There is no answer if the load waits for
something that only the caller could do. -/
def getAndWait (c : Cache K V) (key : K) : Option (Answer K V) × Cache K V :=
  let (future, c) := c.get key {}
  let c := match c.answer? future with
    | some _ => c
    | none => c.runIdle
  (c.answer? future, c.release future)

/-- Ask for several loads. -/
def loadEach (c : Cache K V) : List K → List (Future K V) × Cache K V
  | [] => ([], c)
  | key :: keys =>
      let (future, c) := c.load key {}
      let (futures, c) := c.loadEach keys
      (future :: futures, c)

/-- How far several futures have come together: the first failure is the end of
all. -/
inductive Joint (K V : Type) where
  | failed (error : CacheError)
  | waiting
  | complete (entries : List (Entry K V))

/-- Up to this many futures are all looked at together, so that the first failure
among those that have an answer counts.  More are looked at one after the other, so
that a failure counts once all before it have their answers. -/
def jointLimit : Nat := 30

/-- How far futures have come, all looked at together. -/
def joinTogether (c : Cache K V) : List (Future K V) → Joint K V
  | [] => .complete []
  | future :: futures =>
      match c.answer? future, c.joinTogether futures with
      | some (.error e), _ => .failed e
      | some (.ok _), .failed e | none, .failed e => .failed e
      | some (.ok _), .waiting | none, _ => .waiting
      | some (.ok entry), .complete entries => .complete (entry.toList ++ entries)

/-- How far futures have come, looked at in turn. -/
def joinInTurn (c : Cache K V) : List (Future K V) → Joint K V
  | [] => .complete []
  | future :: futures =>
      match c.answer? future with
      | none => .waiting
      | some (.error e) => .failed e
      | some (.ok entry) =>
          match c.joinInTurn futures with
          | .complete entries => .complete (entry.toList ++ entries)
          | joint => joint

/-- How far futures have come together.  Joining is not the business of a cache, and this is one
way of doing it. -/
def join (c : Cache K V) (futures : List (Future K V)) : Joint K V :=
  if futures.length ≤ jointLimit then c.joinTogether futures else c.joinInTurn futures

/-- Load several keys, running the queue if that is needed, and let go of all loads
at the end. -/
def loadAll (c : Cache K V) (keys : List K) : Joint K V × Cache K V :=
  let (futures, c) := c.loadEach keys.eraseDups
  let c := match c.join futures with
    | .waiting => c.runIdle
    | _ => c
  (c.join futures, c.releaseAll futures)

end

/-! ## Time -/

/-- Let the clock of the cache advance; it starts nothing. -/
def advance (c : Cache K V) (d : Duration) : Cache K V :=
  { c with clock := advanceClock c.clock d }

/-- Set the clock of the cache; it starts nothing. -/
def setClock (c : Cache K V) (now : Nat) : Cache K V := { c with clock := now }

/-- Run the sweeper once, if there is one.  It ends when the cache is shut down. -/
def sweep (c : Cache K V) : Cache K V :=
  if c.sweeper.isNone then c
  else if c.lifecycle.isDown then { c with sweeper := none }
  else (c.perform (.expire c.expiration)).2

/-- Run the sweeper as often as it is due by `time`, at most `fuel` times. -/
def sweepUntil (time : Nat) : (fuel : Nat) → Cache K V → Cache K V
  | 0, c => c
  | fuel + 1, c =>
      match c.sweeper with
      | none => c
      | some sweeper =>
          if sweeper.due ≤ time then
            sweepUntil time fuel
              { c with
                elapsed := sweeper.due
                sweeper := some { sweeper with due := sweeper.due + sweeper.period.nanos } }.sweep
          else c

/-- Let time pass on the executor: the queue runs, then the sweeper whenever it is
due. -/
def sleep [KeyText K] (c : Cache K V) (d : Duration) : Cache K V :=
  let c := c.runIdle
  let time := c.elapsed + d.nanos
  { c.sweepUntil time (d.nanos + 1) with elapsed := time }

/-- Whether the cache terminates within `d`.  Only an executor with timers lets time
pass meanwhile. -/
def terminatesWithin [KeyText K] (c : Cache K V) (d : Duration) : Bool × Cache K V :=
  let finished (c : Cache K V) : Bool := decide (c.lifecycle = .terminated)
  if c.desk.executor.timed && !finished c then
    let c := c.runIdle
    let c := if finished c then c else c.sleep d
    (finished c, c)
  else (finished c, c)

end Cache

/-- The summary of a cache for debugging. -/
def Cache.summary {K V : Type} [DecidableEq K] (c : Cache K V) : String :=
  "CacheEngine \x7b name: " ++ Text.quote c.name ++ ", state: " ++ c.lifecycle.name ++
    ", store: " ++ c.store.summary ++ ", coordinator: " ++ c.desk.coordinator.summary ++
    ", hooks: " ++ c.hooks.summary ++ " \x7d"

end BoundedCache
