import BoundedCache.Proofs.Cache.Batches
import BoundedCache.Proofs.Session.Coursing

/-!
# Batches in a session

Whatever has happened to a session, a batch comes to the same as its parts one after the other, as
long as no hook calls back into the cache about them (`live_batches`).  `batch_seen_whole` is what
may happen otherwise: a hook that empties the cache after every single write leaves nothing of two
of them, but a batch of the two stays, since the hook is never called about a single write.
-/

namespace BoundedCache.Session

variable {K V : Type} [DecidableEq K] [KeyText K] {b : Builder K V} {c : Cache K V}

/-- While the cache runs, all pairs can be put at once or one after the other, and all keys removed:
the data are the same then, with all that is known of each entry and with the order of the policy,
and so are the statistics and what each listener has heard.  The removed entries are those that
the single removals hand out.  For this the hooks must not ask for anything about these
operations. -/
theorem live_batches (hbuild : b.build = .ok c) (happenings : List (Happening K V))
    (hrunning : (live ⟨c, []⟩ happenings).cache.lifecycle = .running)
    (hinert : ∀ operation ∈ [Operation.put, .putAll, .remove, .removeAll],
      ∀ hook ∈ b.hooks, hook.InertOn operation) :
    let d := (live ⟨c, []⟩ happenings).cache
    (∀ pairs, (d.putAll pairs).1 = .ok () ∧ (∀ answer ∈ (d.putEach pairs).1, ∃ e, answer = .ok e) ∧
      Cache.SameEffect b.listeners.length (d.putAll pairs).2 (d.putEach pairs).2) ∧
    ∀ keys, ∃ found : List (Option (Entry K V)), (d.removeEach keys).1 = found.map .ok ∧
      (d.removeAll keys).1 = .ok found.reduceOption ∧
      Cache.SameEffect b.listeners.length (d.removeAll keys).2 (d.removeEach keys).2 := by
  intro d
  have hhooks : d.hooks = .ofHooks b.allHooks :=
    ((live_moves ⟨c, []⟩ happenings).hooks_eq).trans (Builder.build_eq hbuild).2.1
  have hunasked : ∀ operation ∈ [Operation.put, .putAll, .remove, .removeAll],
      d.Unasked b operation := fun operation hmem => ⟨hhooks, hrunning, hinert operation hmem⟩
  refine ⟨fun pairs => ?_, fun keys => ?_⟩
  · exact Cache.putAll_sameEffect (hunasked .put (by decide))
      (hunasked .putAll (by decide)) pairs
  · exact Cache.removeAll_sameEffect (hunasked .remove (by decide))
      (hunasked .removeAll (by decide)) keys

/-- The theorem for a batch in which a key comes twice and an entry has to go for another, with a
hook that asks for something, but not about these operations. -/
theorem live_batches_repeated :
    let b : Builder String Nat :=
      { maxEntries := 2, executor := some {}, listeners := [.recorder]
        hooks := [Hook.commanding "flush" .event (some .trim) fun _ => .clear] }
    let pairs := [("a", 1), ("b", 2), ("a", 3), ("c", 4)]
    ∃ c, b.build = .ok c ∧
      let d := (live ⟨c, []⟩ [.request .start]).cache
      (d.putAll pairs).2.store.keys = ["a", "c"] ∧
        Cache.SameEffect 1 (d.putAll pairs).2 (d.putEach pairs).2 ∧
        ((d.putAll pairs).2.ledger.heardBy 0).length = 6 := by
  intro b pairs
  refine ⟨_, rfl, by decide +kernel, ?_, by decide +kernel⟩
  refine ((live_batches (b := b) rfl [.request .start] (by decide +kernel) ?_).1 pairs).2.2
  intro operation hoperation hook hmem
  obtain rfl := List.mem_singleton.mp hmem
  intro call hcall
  have hother : operation ≠ .trim := by
    rintro rfl
    exact absurd hoperation (by decide)
  refine if_neg fun hconcerns => hother ?_
  exact hcall.symm.trans (of_decide_eq_true hconcerns.2)

/-- A hook that empties the cache after every single write is not called about a batch, which is
told as a whole. -/
theorem batch_seen_whole :
    let b : Builder String Nat :=
      { executor := some {}, hooks := [Hook.commanding "flush" .event (some .put) fun _ => .clear] }
    ∃ c, b.build = .ok c ∧
      let d := (live ⟨c, []⟩ [.request .start]).cache
      d.lifecycle = .running ∧ (d.putAll [("a", 1), ("b", 2)]).2.store.keys = ["a", "b"] ∧
        (d.putEach [("a", 1), ("b", 2)]).2.store.keys = [] :=
  ⟨_, rfl, by decide +kernel, by decide +kernel, by decide +kernel⟩

end BoundedCache.Session
