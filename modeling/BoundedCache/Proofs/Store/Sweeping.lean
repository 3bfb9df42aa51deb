import BoundedCache.Proofs.Errands
import BoundedCache.Proofs.Policy.Remaining
import BoundedCache.Proofs.Store.Chronicle
import BoundedCache.Proofs.Store.Limits
import BoundedCache.Proofs.Store.Victims

/-!
# Sweeping a store

To remove all entries that satisfy a condition, their keys are collected first, and then taken
out one by one through the policy.  Of the other entries nothing changes, and over a policy that
does not draw they keep their order (`Agrees.keys_removeIf`).

A trim to the limits that are in force takes nothing, since they hold already: a policy either
yields, and then they have always held, or it never names a victim (`Bounded.trimTo_eq`).  So
an expiration and a purge come to the same (`Agrees.sweeps`, `Bounded.purge_apply`).
-/

namespace BoundedCache

namespace Store

variable {K V : Type} [DecidableEq K] {s t : Store K V} {key : K}

/-! ## The order of those that stay -/

omit [DecidableEq K] in
/-- The policy has a key at one index only. -/
theorem Agrees.index_unique (h : s.Agrees) {i j : Index} (hi : s.policy.peek? i = some key)
    (hj : s.policy.peek? j = some key) : j = i := by
  obtain ⟨slot, hslot, rfl, rfl⟩ := h.exists_slot hi
  obtain ⟨other, hother, rfl, hkey⟩ := h.exists_slot hj
  by_contra hne
  have hslots : other ≠ slot := fun heq => hne (congrArg Slot.index heq)
  exact hslots (List.inj_on_of_nodup_map h.distinct hother hslot hkey)

theorem Agrees.keys_remove (h : s.Agrees) (hdraws : ¬ s.policy.Draws) (key : K) :
    (s.remove key).2.keys = s.keys.filter fun other => other ≠ key := by
  cases hget : s.get? key with
  | none =>
      rw [remove_of_absent hget, eq_comm, List.filter_eq_self]
      intro other hother
      obtain ⟨e, he⟩ := (h.mem_keys_iff other).mp hother
      have hne : other ≠ key := by
        rintro rfl
        rw [he] at hget
        exact Option.some_ne_none e hget
      simpa using hne
  | some e =>
      obtain ⟨slot, hslot, rfl⟩ := Option.map_eq_some_iff.mp hget
      obtain ⟨hmem, rfl⟩ := (slot?_eq_some h).mp hslot
      have hindex := h.peek?_index hmem
      have hpolicy : (s.remove slot.entry.key).2.policy = (s.policy.remove slot.index).2 := by
        rw [Store.remove, hslot]
      rw [keys, hpolicy, h.sound.peekAll_remove hdraws hindex fun j hj => h.index_unique hindex hj]
      rfl

theorem Agrees.keys_removeKeys (h : s.Agrees) (hdraws : ¬ s.policy.Draws) (gone : List K) :
    (s.removeKeys gone).2.keys = s.keys.filter fun other => other ∉ gone := by
  induction gone generalizing s with
  | nil => simp [Store.removeKeys]
  | cons key rest ih =>
      have hdraws' : ¬ (s.remove key).2.policy.Draws :=
        (s.reaches_remove key).keeps (fun p action hp => (p.draws_act action).not.mpr hp) hdraws
      rw [Store.removeKeys]
      dsimp only
      rw [ih (h.remove key).2.1.agrees hdraws', h.keys_remove hdraws, List.filter_filter]
      refine List.filter_congr fun other _ => ?_
      simp [Bool.and_comm]

theorem Agrees.get?_removeIf (h : s.Agrees) (condition : Entry K V → Bool) (key : K) :
    (s.removeIf condition).2.get? key = (s.get? key).filter fun e => !condition e := by
  obtain ⟨hmem, hloses⟩ := h.exact.removeIf condition
  have hgone : key ∈ (s.removeIf condition).1.map (·.key) ↔
      ∃ e, s.get? key = some e ∧ condition e = true := by
    rw [List.mem_map]
    constructor
    · rintro ⟨e, he, rfl⟩
      exact ⟨e, (hmem e).mp he⟩
    · rintro ⟨e, hget, hcondition⟩
      obtain rfl := key_of_get? hget
      exact ⟨e, (hmem e).mpr ⟨hget, hcondition⟩, rfl⟩
  rw [hloses.after]
  cases hget : s.get? key with
  | none => simp
  | some e =>
      rw [hget] at hgone
      by_cases hcondition : condition e = true
      · rw [if_pos (hgone.mpr ⟨e, rfl, hcondition⟩)]
        simp [Option.filter, hcondition]
      · have hkept : key ∉ (s.removeIf condition).1.map (·.key) := by
          rw [hgone]
          rintro ⟨other, heq, hholds⟩
          obtain rfl := Option.some.inj heq
          exact hcondition hholds
        rw [if_neg hkept]
        simp [Option.filter, hcondition]

/-- The keys that are left stand as they stood. -/
theorem Agrees.keys_removeIf (h : s.Agrees) (hdraws : ¬ s.policy.Draws)
    (condition : Entry K V → Bool) :
    (s.removeIf condition).2.keys =
      s.keys.filter fun key => (s.removeIf condition).2.contains key := by
  obtain ⟨-, hloses⟩ := h.exact.removeIf condition
  have hkeys : (s.removeIf condition).2.keys =
      s.keys.filter fun key => key ∉ (s.walked.filter condition).map (·.key) :=
    (h.withWalks (s.walks + 1)).keys_removeKeys hdraws _
  rw [← h.removeIf_eq] at hkeys
  rw [hkeys]
  refine List.filter_congr fun key hkey => ?_
  obtain ⟨e, hget⟩ := (h.mem_keys_iff key).mp hkey
  rw [Bool.eq_iff_iff, contains_iff, hloses.after, hget, decide_eq_true_eq]
  by_cases hgone : key ∈ (s.removeIf condition).1.map (·.key)
  · simp [hgone]
  · simp [hgone]

/-! ## The limits in force -/

/-- The limits hold, unless the policy gives nothing up. -/
def Bounded (s : Store K V) : Prop := s.policy.Yielding → s.Within

theorem Bounded.run (h : s.Bounded) (hs : s.Agrees) (actions : List (Action K V)) :
    (s.run actions).Bounded := by
  intro hyield
  have hnot : ∀ (p : Policy K) action, ¬ p.Yielding → ¬ (p.act action).Yielding :=
    fun p action => (p.yielding_act action).not.mpr
  have hyield' : s.policy.Yielding := by
    by_contra hnever
    exact (s.reaches_run actions).keeps hnot hnever hyield
  exact hs.run_within hyield' (h hyield') actions

omit [DecidableEq K] in
theorem bounded_new (policy : Policy K) (maxEntries maxVolume : Nat) (walk : Walk (Slot K V)) :
    (new policy maxEntries maxVolume walk).Bounded :=
  fun _ => ⟨Nat.zero_le _, Nat.zero_le _⟩

/-- Nothing has to go for the limits in force. -/
theorem Bounded.trimTo_eq (h : s.Bounded) : s.trimTo s.maxEntries s.maxVolume = ([], s) := by
  by_cases hyield : s.policy.Yielding
  · have hwithin := h hyield
    exact trimTo_of_not_exceeds (exceeds_eq_false.mpr ⟨hwithin.size_le, hwithin.volume_le⟩)
  · -- the policy never names a victim
    have hevict : s.policy.evict = (none, s.policy) := by
      cases hpolicy : s.policy with
      | stubborn p => rfl
      | ordered | frequency | secondChance | random | forgetful =>
          rw [hpolicy] at hyield
          exact absurd trivial hyield
    have hone : s.evictOne = (none, s) := by
      rw [evictOne, evictLoop, hevict]
    rw [trimTo, trimLoop, hone]
    split <;> rfl

/-! ## Sweeps -/

/-- The stale entries are gone, and of the others nothing has changed. -/
structure Sweeps (x : Expiration K V) (now : Nat) (s : Store K V) (gone : List (Entry K V))
    (t : Store K V) : Prop where
  /-- They come in the order in which the map gives them out. -/
  gone_perm : gone.Perm (s.entries.filter fun e => x.isExpired e now)
  get?_eq : ∀ key, t.get? key = (s.get? key).filter fun e => !x.isExpired e now
  /-- Over a policy that does not draw, the keys that are left stand as they stood. -/
  keys_eq : ¬ s.policy.Draws → t.keys = s.keys.filter fun key => t.contains key
  fresh : ∀ e ∈ t.entries, x.isExpired e now = false
  live?_eq : ∀ key, t.live? x key now = s.live? x key now

theorem Agrees.sweeps (h : s.Agrees) (x : Expiration K V) (now : Nat) :
    let swept := s.removeIf fun e => x.isExpired e now
    Sweeps x now s swept.1 swept.2 where
  gone_perm := h.removeIf_perm _
  get?_eq := h.get?_removeIf _
  keys_eq hdraws := h.keys_removeIf hdraws _
  fresh e he := by
    have hget := ((h.removeIf fun e => x.isExpired e now).agrees.mem_entries_iff e).mp he
    rw [h.get?_removeIf, Option.filter_eq_some_iff] at hget
    simpa using hget.2
  live?_eq key := by
    rw [live?, live?, h.get?_removeIf, Option.filter_filter]
    simp

/-- A purge takes out the stale entries, and that is all it does. -/
theorem Bounded.purge_apply (h : s.Bounded) (hs : s.Agrees) (x : Expiration K V) (now : Nat) :
    let swept := s.removeIf fun e => x.isExpired e now
    (Change.purge x).apply s now =
      { answer := swept.1.length, outcomes := [.purge swept.1 []], store := swept.2 } := by
  intro swept
  have hbounded : swept.2.Bounded := h.run hs [.removeIf fun e => x.isExpired e now]
  simp only [Change.purge]
  rw [show s.removeIf (fun e => x.isExpired e now) = swept from rfl, hbounded.trimTo_eq]
  rfl

end Store

/-! ## Courses -/

namespace Course

variable {K V : Type} [DecidableEq K] {x : Expiration K V} {s t : Store K V}
variable {log : List (Stroke K V)}

theorem bounded (h : Course x s log t) (hs : s.Agrees) (hbounded : s.Bounded) : t.Bounded := by
  obtain ⟨actions, rfl⟩ := h.exists_run
  exact hbounded.run hs actions

/-- On no course does it change whether the policy draws. -/
theorem draws_iff (h : Course x s log t) : t.policy.Draws ↔ s.policy.Draws := by
  obtain ⟨actions, rfl⟩ := h.exists_run
  exact (s.reaches_run actions).keeps (fun p action hp => (p.draws_act action).trans hp) Iff.rfl

end Course

end BoundedCache
