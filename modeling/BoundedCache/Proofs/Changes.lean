import BoundedCache.Proofs.Tally

/-!
# Changes report what they do

A change is faithful if its outcomes, told in order, say exactly what became of the
store: their events can be replayed on the contents before and lead to the contents
after.  With that go three counts: how often it reads, how often it replaces on request,
and that no miss counts as expired without an expiration.

Every operation on the data is faithful, whatever the rule of expiration (`Errand.faithful`).
-/

namespace BoundedCache

variable {K V : Type} [DecidableEq K]

/-- The outcomes say what led from one store to the other. -/
structure Reports (s : Store K V) (outcomes : List (Outcome K V)) (t : Store K V) : Prop where
  agrees : t.Agrees
  replay : Replay s.contents (outcomes.flatMap Outcome.events) t.contents
  expired_le : (Tally.total outcomes).expiredMisses ≤ (Tally.total outcomes).expirations

variable {s t u : Store K V} {outcomes later : List (Outcome K V)}

theorem Store.Agrees.reports (h : s.Agrees) : Reports s [] s := ⟨h, .done _, Nat.le_refl 0⟩

theorem Reports.trans (h : Reports s outcomes t) (hlater : Reports t later u) :
    Reports s (outcomes ++ later) u where
  agrees := hlater.agrees
  replay := by
    rw [List.flatMap_append]
    exact h.replay.trans hlater.replay
  expired_le := by
    have hfirst := h.expired_le
    have hsecond := hlater.expired_le
    rw [Tally.total_append]
    simp only [Tally.add]
    omega

/-- An outcome that is no read reports a step if its events can be replayed. -/
theorem Reports.single {outcome : Outcome K V} (hagrees : t.Agrees)
    (hreplay : Replay s.contents outcome.events t.contents)
    (hread : outcome.isRead = false) : Reports s [outcome] t where
  agrees := hagrees
  replay := by
    rw [List.flatMap_singleton]
    exact hreplay
  expired_le := by
    have hexpired : (Tally.ofOutcome outcome).expiredMisses = 0 := by
      obtain ⟨hreads, hle⟩ := Tally.reads_ofOutcome outcome
      have hnone : reads [outcome] = 0 := by simp [reads, hread]
      omega
    rw [Tally.total, Tally.total, Tally.add_zero, hexpired]
    exact Nat.zero_le _

/-- Entries that leave are reported by an outcome with the same events. -/
theorem Store.Sheds.reports {went : List (Entry K V)} (h : Store.Sheds s went t)
    {outcome : Outcome K V} (reason : Reason)
    (hevents : outcome.events = Outcome.leaving reason went)
    (hread : outcome.isRead = false) : Reports s [outcome] t :=
  .single h.agrees (hevents ▸ h.replay reason) hread

theorem Store.Writes.reports {key : K} {w : Written K V} (h : Store.Writes s key w t)
    (origin : Origin) : Reports s [.put origin w] t :=
  .single h.moves.agrees (h.replay origin) rfl

theorem Store.WritesAll.agrees {puts : List (Written K V)} (h : Store.WritesAll s puts t)
    (hs : s.Agrees) : t.Agrees := by
  induction h with
  | nil => exact hs
  | cons hwrites _ ih => exact ih hwrites.moves.agrees

/-- The change reports what it does, with so many reads, and so many replacements for
its answer. -/
structure Change.Faithful {α : Type} (change : Change K V α) (readCount : Nat)
    (replaced : α → Nat) : Prop where
  reports : ∀ s now, s.Agrees →
    Reports s (change.apply s now).outcomes (change.apply s now).store
  reads_eq : ∀ s now, reads (change.apply s now).outcomes = readCount
  replacements_eq : ∀ s now,
    replacements (change.apply s now).outcomes = replaced (change.apply s now).answer

namespace Change

variable (x : Expiration K V) (key : K)

/-- Removing a stale entry is reported by its expiration. -/
theorem reports_expired {e : Entry K V} (h : s.Agrees) (hget : s.get? key = some e) :
    Reports s [.expire [e]] (s.remove key).2 := by
  obtain ⟨hremoved, hsheds, -⟩ := h.remove key
  rw [hremoved, hget] at hsheds
  exact hsheds.reports .expire rfl rfl

theorem lookup_faithful : (lookup x key).Faithful 1 fun _ => 0 where
  reports s now h := by
    simp only [lookup]
    cases hget : s.get? key with
    | none => exact ⟨h, .done _, Nat.le_refl 0⟩
    | some e =>
        by_cases hexpired : x.isExpired e now = true
        · simp only [if_pos hexpired]
          have hreports := reports_expired key h hget
          exact ⟨hreports.agrees, hreports.replay, Nat.le_refl 1⟩
        · simp only [if_neg hexpired]
          obtain ⟨-, hmoves, hafter⟩ := h.touch hget now
          refine ⟨hmoves.agrees, .of_eq ?_, Nat.le_refl 0⟩
          rw [contents_eq, contents_eq, hafter, values_update]
          refine Function.update_eq_self_iff.mpr ?_
          rw [values, hget]
          rfl
  reads_eq s now := by
    simp only [lookup]
    split
    · rfl
    · split <;> rfl
  replacements_eq s now := by
    simp only [lookup]
    split
    · rfl
    · split <;> rfl

theorem write_faithful (value : V) (attributes : Attributes) (origin : Origin) :
    (write x key value attributes origin).Faithful 0 fun _ => 0 where
  reports _ now h := (h.put key value attributes _ now _).reports origin
  reads_eq _ _ := rfl
  replacements_eq _ _ := rfl

theorem writeAll_faithful (pairs : List (K × V)) :
    (writeAll x pairs).Faithful 0 fun _ => 0 where
  reports s now h := by
    have hwrites := h.putAll {} (x.timeOf now none) now pairs
    exact .single (hwrites.agrees h) (hwrites.replay .user) rfl
  reads_eq _ _ := rfl
  replacements_eq _ _ := rfl

theorem putIfAbsent_faithful (value : V) : (putIfAbsent x key value).Faithful 0 fun _ => 0 where
  reports s now h := by
    simp only [putIfAbsent]
    cases hget : s.get? key with
    | none => exact (h.put key value {} _ now true).reports .user
    | some e =>
        by_cases hexpired : x.isExpired e now = true
        · simp only [if_pos hexpired]
          have hreports := reports_expired key h hget
          exact hreports.trans ((hreports.agrees.put key value {} _ now true).reports .user)
        · simp only [if_neg hexpired]
          exact h.reports
  reads_eq s now := by
    simp only [putIfAbsent]
    split
    · rfl
    · split <;> rfl
  replacements_eq s now := by
    simp only [putIfAbsent]
    split
    · rfl
    · split <;> rfl

/-- A replacement is told of exactly if it answers an entry. -/
theorem replace_faithful (value : V) :
    (replace x key value).Faithful 0 fun answer => answer.toList.length where
  reports s now h := by
    simp only [replace]
    cases hget : s.get? key with
    | none => exact h.reports
    | some e =>
        by_cases hexpired : x.isExpired e now = true
        · simp only [if_pos hexpired]
          exact reports_expired key h hget
        · simp only [if_neg hexpired]
          have hwrites := h.put key value {} (x.timeOf now none) now true
          have hold := hwrites.old_eq.trans hget
          have hreplay := hwrites.replay .user
          rw [hold] at hreplay ⊢
          exact .single hwrites.moves.agrees hreplay rfl
  reads_eq s now := by
    simp only [replace]
    split
    · rfl
    · split
      · rfl
      · cases (s.put key value {} (x.timeOf now none) now true).1.old <;> rfl
  replacements_eq s now := by
    simp only [replace]
    split
    · rfl
    · split
      · rfl
      · cases (s.put key value {} (x.timeOf now none) now true).1.old <;> rfl

theorem remove_faithful : (remove key : Change K V _).Faithful 0 fun _ => 0 where
  reports _ _ h := (h.remove key).2.1.reports .remove rfl rfl
  reads_eq _ _ := rfl
  replacements_eq _ _ := rfl

theorem removeAll_faithful (keys : List K) :
    (removeAll keys : Change K V _).Faithful 0 fun _ => 0 where
  reports _ _ h := (h.removeKeys keys).reports .remove rfl rfl
  reads_eq _ _ := rfl
  replacements_eq _ _ := rfl

theorem clear_faithful : (clear : Change K V _).Faithful 0 fun _ => 0 where
  reports _ _ h := h.clear.1.reports .clear rfl rfl
  reads_eq _ _ := rfl
  replacements_eq _ _ := rfl

theorem expire_faithful : (expire x).Faithful 0 fun _ => 0 where
  reports _ _ h := (h.removeIf _).reports .expire rfl rfl
  reads_eq _ _ := rfl
  replacements_eq _ _ := rfl

theorem trim_faithful (maxEntries : Nat) :
    (trim maxEntries : Change K V _).Faithful 0 fun _ => 0 where
  reports _ _ h := (h.trimTo maxEntries unbounded).reports .evict rfl rfl
  reads_eq _ _ := rfl
  replacements_eq _ _ := rfl

theorem purge_faithful : (purge x).Faithful 0 fun _ => 0 where
  reports s now h := by
    have hexpired := h.removeIf fun e => x.isExpired e now
    have hevicted := hexpired.agrees.trimTo
      (s.removeIf fun e => x.isExpired e now).2.maxEntries
      (s.removeIf fun e => x.isExpired e now).2.maxVolume
    exact .single hevicted.agrees ((hexpired.replay .expire).trans (hevicted.replay .evict)) rfl
  reads_eq _ _ := rfl
  replacements_eq _ _ := rfl

theorem resize_faithful (maxEntries maxVolume : Nat) :
    (resize maxEntries maxVolume : Change K V _).Faithful 0 fun _ => 0 where
  reports _ _ h := by
    -- the entries are shed by the store that has the new limits already
    have hsheds := h.setLimits maxEntries maxVolume
    exact .single hsheds.agrees (hsheds.replay .evict) rfl
  reads_eq _ _ := rfl
  replacements_eq _ _ := rfl

end Change

namespace Errand

/-- The number of reads that are told of an errand. -/
def readCount : Errand K V → Nat
  | lookup _ => 1
  | _ => 0

/-- The number of replacements that are told of an errand with this answer. -/
def replacedCount : (errand : Errand K V) → errand.Answer → Nat
  | replace _ _, (answer : Option (Entry K V)) => answer.toList.length
  | _, _ => 0

theorem faithful (errand : Errand K V) (x : Expiration K V) :
    (errand.change x).Faithful errand.readCount errand.replacedCount := by
  cases errand with
  | lookup key => exact Change.lookup_faithful x key
  | write key value attributes origin => exact Change.write_faithful x key value attributes origin
  | writeAll pairs => exact Change.writeAll_faithful x pairs
  | putIfAbsent key value => exact Change.putIfAbsent_faithful x key value
  | replace key value => exact Change.replace_faithful x key value
  | remove key => exact Change.remove_faithful key
  | removeAll keys => exact Change.removeAll_faithful keys
  | clear => exact Change.clear_faithful
  | expire => exact Change.expire_faithful x
  | trim maxEntries => exact Change.trim_faithful maxEntries
  | purge => exact Change.purge_faithful x
  | resize maxEntries maxVolume => exact Change.resize_faithful maxEntries maxVolume

end Errand

end BoundedCache
