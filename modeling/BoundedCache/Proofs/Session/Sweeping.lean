import BoundedCache.Proofs.Cache.Liveness
import BoundedCache.Proofs.Session.Coursing
import BoundedCache.Proofs.Store.Sweeping

/-!
# Sweeping a cache

An expiration takes out the entries that are stale now, and nothing else: readers find what they
would have found before (`Cache.Sweeps`).  A purge does the same, for in no state that a session
can reach is there anything left for it to evict (`live_sweeps`).

What a hook asks for, before a sweep or after it, is no part of it.  So in general a sweep leads
from the cache that the hooks have left when they are told what is coming to the one that they
are told about afterwards; where hooks ask for nothing, these are the cache before and after the
operation.
-/

namespace BoundedCache

variable {K V : Type} [DecidableEq K]

namespace Cache

variable {c c' : Cache K V} {gone : List (Entry K V)}

/-- The stale entries are gone, nothing else is different about the data, and readers find what
they would have found before. -/
structure Sweeps (c : Cache K V) (gone : List (Entry K V)) (c' : Cache K V) : Prop where
  store : Store.Sweeps c.expiration c.clock c.store gone c'.store
  peek_eq : c.lifecycle = .running → ∀ key, (c'.peek key).1 = (c.peek key).1
  contains_eq : c.lifecycle = .running → ∀ key, (c'.contains key).1 = (c.contains key).1
  /-- A read goes by what the hooks have left when they are told of it. -/
  getIfPresent_eq : c.lifecycle = .running → (∀ hook ∈ c.hooks.hooks, hook.Waits) →
    ∀ key, (c'.getIfPresent key).1 = (c.getIfPresent key).1

/-- It is the data that readers go by. -/
theorem sweeps_of_store (h : Store.Sweeps c.expiration c.clock c.store gone c'.store)
    (hsetting : SameSetting c c') (hlifecycle : c'.lifecycle = c.lifecycle) :
    c.Sweeps gone c' := by
  have hlive : ∀ key, c'.live? key = c.live? key := by
    intro key
    rw [live?, hsetting.expiration_eq, hsetting.clock_eq]
    exact h.live?_eq key
  refine ⟨h, fun hrunning key => ?_, fun hrunning key => ?_, fun hrunning hwaits key => ?_⟩
  · rw [peek_of_running hrunning, peek_of_running (hlifecycle.trans hrunning), hlive]
  · rw [contains_of_running hrunning, contains_of_running (hlifecycle.trans hrunning), hlive]
  · have hwaits' : ∀ hook ∈ c'.hooks.hooks, hook.Waits := hsetting.hooks_eq ▸ hwaits
    rw [getIfPresent_of_running hrunning, getIfPresent_of_running (hlifecycle.trans hrunning),
      found_eq_live? hwaits, found_eq_live? hwaits', hlive, hsetting.clock_eq]

theorem sweeps_stored (h : c.store.Agrees) {now : Nat} (hclock : c.clock = now)
    {x : Expiration K V} (hexpiration : c.expiration = x) :
    let swept := c.store.removeIf fun e => x.isExpired e now
    c.Sweeps swept.1 (c.stored swept.2 true) := by
  subst hclock hexpiration
  exact sweeps_of_store (h.sweeps c.expiration c.clock) ⟨rfl, rfl, rfl, rfl, rfl, rfl⟩ rfl

/-- What an expiration and a purge of a sound cache come to. -/
theorem evict_eq (hrunning : c.lifecycle = .running) (h : c.store.Agrees) :
    ∃ gone after, (c.announced .expire).Sweeps gone after ∧
      c.evict = (gone.length, after.told ⟨.expire, c.clock⟩ [.expire gone]) := by
  have hsetting := c.sameSetting_announced .expire
  obtain ⟨log, hcourse, -⟩ := (c.runsErrands_announced .expire).course
  refine ⟨_, _, sweeps_stored (hcourse.agrees h) hsetting.clock_eq hsetting.expiration_eq, ?_⟩
  rw [evict, ifRunning_of_running hrunning]
  exact perform_of_apply rfl rfl

theorem purge_eq (hrunning : c.lifecycle = .running) (h : c.store.Agrees)
    (hbounded : c.store.Bounded) :
    ∃ gone after, (c.announced .purge).Sweeps gone after ∧
      c.purge = (gone.length, after.told ⟨.purge, c.clock⟩ [.purge gone []]) := by
  have hsetting := c.sameSetting_announced .purge
  obtain ⟨log, hcourse, -⟩ := (c.runsErrands_announced .purge).course
  have hagrees := hcourse.agrees h
  refine ⟨_, _, sweeps_stored hagrees hsetting.clock_eq hsetting.expiration_eq, ?_⟩
  rw [purge, ifRunning_of_running hrunning]
  exact perform_of_apply rfl
    ((hcourse.bounded h hbounded).purge_apply hagrees c.expiration c.clock)

/-- Where hooks ask for nothing, the two are the same change of the data. -/
theorem sweeps_of_quiet (hrunning : c.lifecycle = .running) (h : c.store.Agrees)
    (hbounded : c.store.Bounded) (hquiet : ∀ hook ∈ c.hooks.hooks, hook.Quiet) :
    ∃ gone, c.evict.1 = gone.length ∧ c.Sweeps gone c.evict.2 ∧
      c.purge.1 = gone.length ∧ c.Sweeps gone c.purge.2 ∧ c.purge.2.store = c.evict.2.store := by
  have hswept := h.sweeps c.expiration c.clock
  have hpurge := hbounded.purge_apply h c.expiration c.clock
  rw [evict, purge, ifRunning_of_running hrunning, ifRunning_of_running hrunning,
    perform_of_quiet hquiet, perform_of_quiet hquiet, hpurge]
  refine ⟨_, rfl, ?_, rfl, ?_, rfl⟩
  · exact sweeps_of_store hswept ⟨rfl, rfl, rfl, rfl, rfl, rfl⟩ rfl
  · exact sweeps_of_store hswept ⟨rfl, rfl, rfl, rfl, rfl, rfl⟩ rfl

end Cache

namespace Session

variable [KeyText K] {b : Builder K V} {c : Cache K V}

/-- Whatever has happened to a session, and whatever its rule of expiration: if its cache runs,
an expiration takes out the entries that are stale now and answers their number, and of all
others nothing changes, nor of what readers find.  A purge does the same and evicts nothing.
Unless the cache was built over a policy that draws, the keys keep their order.  Where the hooks
wait, being told of the operation has changed nothing before it, and where they are quiet,
nothing comes of the operation but this. -/
theorem live_sweeps (hbuild : b.build = .ok c) (hstart : b.policy.Starts)
    (happenings : List (Happening K V))
    (hrunning : (live ⟨c, []⟩ happenings).cache.lifecycle = .running) :
    let d := (live ⟨c, []⟩ happenings).cache
    (∃ gone after, (d.announced .expire).Sweeps gone after ∧
      d.evict = (gone.length, after.told ⟨.expire, d.clock⟩ [.expire gone])) ∧
    (∃ gone after, (d.announced .purge).Sweeps gone after ∧
      d.purge = (gone.length, after.told ⟨.purge, d.clock⟩ [.purge gone []])) ∧
    ((d.store.policy.Draws ↔ b.policy.Draws) ∧
      ∀ operation, (d.announced operation).store.policy.Draws ↔ b.policy.Draws) ∧
    ((∀ hook ∈ b.hooks, hook.Waits) → ∀ operation,
      ∃ ledger, d.announced operation = { d with ledger := ledger }) ∧
    ((∀ hook ∈ b.hooks, hook.Quiet) →
      ∃ gone, d.evict.1 = gone.length ∧ d.Sweeps gone d.evict.2 ∧
        d.purge.1 = gone.length ∧ d.Sweeps gone d.purge.2 ∧
        d.purge.2.store = d.evict.2.store) := by
  intro d
  obtain ⟨hexpiration, parts, -, hcourse, -⟩ := course_of_build hbuild happenings
  have hempty := Store.agrees_new hstart b.maxEntries b.maxVolume b.walk
  have h : d.store.Agrees := hcourse.agrees hempty
  have hbounded : d.store.Bounded := hcourse.bounded hempty (Store.bounded_new _ _ _ _)
  refine ⟨Cache.evict_eq hrunning h, Cache.purge_eq hrunning h hbounded,
    ⟨hcourse.draws_iff, fun operation => ?_⟩, fun hwaits operation => ?_, fun hquiet => ?_⟩
  · obtain ⟨later, hlater, -⟩ := (d.runsErrands_announced operation).course
    rw [hexpiration] at hlater
    exact (hcourse.trans hlater).draws_iff
  · have hall := forall_hooks_live hbuild (P := Hook.Waits) trivial trivial hwaits happenings
    exact ⟨_, Cache.announced_eq hall operation⟩
  · have hall := forall_hooks_live hbuild (P := Hook.Quiet) trivial trivial hquiet happenings
    exact Cache.sweeps_of_quiet hrunning h hbounded hall

/-- The theorem for a cache in which the entry that was read last has become stale, with another
one.  The map gives out last first. -/
theorem live_sweeps_recent :
    let b : Builder String Nat :=
      { maxEntries := 4, executor := some {}, defaultTimeout := some (.ofMillis 100)
        walk := ⟨fun _ => List.reverse, fun _ => List.reverse_perm⟩ }
    ∃ c, b.build = .ok c ∧
      let d := (live ⟨c, []⟩
        [.request (.put "a" 1 { timeout := some (.ofMillis 10) }), .request (.put "b" 2 {}),
          .request (.put "c" 3 { timeout := some (.ofMillis 10) }), .request (.put "d" 4 {}),
          .request (.getIfPresent "a"), .request (.setClock 50)]).cache
      d.store.keys = ["b", "c", "d", "a"] ∧ d.evict.1 = 2 ∧ d.evict.2.store.keys = ["b", "d"] ∧
        (d.store.removeIf fun e => d.expiration.isExpired e d.clock).1.map (·.key) = ["c", "a"] ∧
        ∃ gone, d.evict.1 = gone.length ∧ d.Sweeps gone d.evict.2 ∧
          d.purge.1 = gone.length ∧ d.Sweeps gone d.purge.2 ∧
          d.purge.2.store = d.evict.2.store := by
  intro b
  refine ⟨_, rfl, by decide +kernel, by decide +kernel, by decide +kernel, by decide +kernel, ?_⟩
  exact (live_sweeps (b := b) rfl (.builtIn .lru) _ (by decide +kernel)).2.2.2.2 nofun

end Session

end BoundedCache
