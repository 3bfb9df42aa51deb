import BoundedCache.Proofs.Store.Consistency
import BoundedCache.Proofs.Replay

/-!
# Operations report exactly what they change

Statistics, hooks and listeners see a store only through the answers of its operations.
`Exact` says that these answers leave nothing out and add nothing: an entry that an
operation reports as gone was there as reported and is there no longer, no entry is
reported twice, and all other entries are what they were, in every field.

`Takes` says what leaves as a path, one entry after the other.  `Loses` is the same as a
difference of two maps, in which the order has no part (`Takes.loses`).

A write is the operation where this takes an argument.  It has two loops, one before the
new entry comes in and one after, and the second may take the new entry itself.  The
victims of the first loop are of other keys than the one written, so they may as well
leave after the new entry has come in (`Takes.update`): all victims together leave the
old map with the key set to the new entry (`Writes.loses`).
-/

namespace BoundedCache.Store

variable {K V : Type} [DecidableEq K] {f g : K → Option (Entry K V)} {went : List (Entry K V)}

/-! ## The difference of two maps -/

/-- The entries `went` are of different keys, `f` has each of them just so, and `g` is `f`
without them. -/
structure Loses (f : K → Option (Entry K V)) (went : List (Entry K V))
    (g : K → Option (Entry K V)) : Prop where
  keys_nodup : (went.map (·.key)).Nodup
  held : ∀ e ∈ went, f e.key = some e
  after : ∀ key, g key = if key ∈ went.map (·.key) then none else f key

/-- What can be taken out one after the other is the difference. -/
theorem Takes.loses (h : Takes f went g) : Loses f went g := by
  induction went generalizing f with
  | nil => exact ⟨List.nodup_nil, fun e he => absurd he List.not_mem_nil, congrFun h⟩
  | cons e rest ih =>
      obtain ⟨he, hrest⟩ := h
      obtain ⟨hnodup, hheld, hafter⟩ := ih hrest
      -- once `e` is out, nothing of its key is left to be taken
      have hne : ∀ other ∈ rest, other.key ≠ e.key := hrest.key_ne (Function.update_self _ _ _)
      refine ⟨?_, ?_, fun key => ?_⟩
      · refine List.nodup_cons.mpr ⟨fun hmem => ?_, hnodup⟩
        obtain ⟨other, hother, hkey⟩ := List.mem_map.mp hmem
        exact hne other hother hkey
      · intro other hmem
        rcases List.mem_cons.mp hmem with rfl | hother
        · exact he
        · rw [← hheld other hother, Function.update_of_ne (hne other hother)]
      · rw [hafter, List.map_cons]
        by_cases hkey : key = e.key
        · rw [hkey, Function.update_self, ite_self, if_pos List.mem_cons_self]
        · rw [Function.update_of_ne hkey]
          simp only [List.mem_cons, hkey, false_or]

/-- What is taken out does not depend on a key of which nothing is there. -/
theorem Takes.update {key : K} (h : Takes f went g) (hkey : f key = none)
    (e? : Option (Entry K V)) :
    Takes (Function.update f key e?) went (Function.update g key e?) := by
  induction went generalizing f with
  | nil => exact congrArg (Function.update · key e?) h
  | cons e rest ih =>
      have hne : e.key ≠ key := h.key_ne hkey e List.mem_cons_self
      obtain ⟨he, hrest⟩ := h
      refine ⟨by rwa [Function.update_of_ne hne], ?_⟩
      rw [Function.update_comm hne.symm]
      exact ih hrest (by rwa [Function.update_of_ne hne.symm])

variable {s t : Store K V}

/-- The victims of a write leave the map in which the key has its new entry. -/
theorem Writes.loses {key : K} {w : Written K V} (h : Writes s key w t) :
    Loses (Function.update s.get? key (some w.new)) w.evicted t.get? := by
  obtain ⟨first, later, room, hevicted, hfirst, hlater⟩ := h.takes
  have hmoved := hfirst.update (Function.update_self key none s.get?) (some w.new)
  rw [Function.update_idem] at hmoved
  rw [hevicted]
  exact (takes_append.mpr ⟨_, hmoved, hlater⟩).loses

/-! ## Removing by a condition -/

theorem Agrees.mem_entries_iff (h : s.Agrees) (e : Entry K V) :
    e ∈ s.entries ↔ s.get? e.key = some e := by
  rw [← (enumerates_get? h.distinct).mem_iff]
  constructor
  · intro hmem
    obtain ⟨slot, hslot, rfl⟩ := List.mem_map.mp hmem
    exact List.mem_map.mpr ⟨slot, hslot, rfl⟩
  · intro hmem
    obtain ⟨slot, hslot, heq⟩ := List.mem_map.mp hmem
    exact List.mem_map.mpr ⟨slot, hslot, (Prod.mk.inj heq).2⟩

/-- Entries of different keys that are there are what removing their keys answers. -/
theorem Agrees.removeKeys_eq (h : s.Agrees) (hnodup : (went.map (·.key)).Nodup)
    (hheld : ∀ e ∈ went, s.get? e.key = some e) :
    (s.removeKeys (went.map (·.key))).1 = went := by
  induction went generalizing s with
  | nil => rfl
  | cons e rest ih =>
      obtain ⟨hanswer, hsheds, hafter⟩ := h.remove e.key
      rw [List.map_cons, List.nodup_cons] at hnodup
      have hrest : ∀ other ∈ rest, (s.remove e.key).2.get? other.key = some other := by
        intro other hother
        have hne : other.key ≠ e.key := fun heq =>
          hnodup.1 (List.mem_map.mpr ⟨other, hother, heq⟩)
        rw [hafter, Function.update_of_ne hne]
        exact hheld other (List.mem_cons_of_mem _ hother)
      rw [List.map_cons, Store.removeKeys]
      dsimp only
      rw [ih hsheds.agrees hnodup.2 hrest, hanswer, hheld e List.mem_cons_self]
      rfl

omit [DecidableEq K] in
theorem walked_perm (s : Store K V) : s.walked.Perm s.entries :=
  (s.walk.perm s.walks s.slots).map _

/-- The answer are the entries that satisfy the condition, as the map gives them out. -/
theorem Agrees.removeIf_eq (h : s.Agrees) (condition : Entry K V → Bool) :
    (s.removeIf condition).1 = s.walked.filter condition := by
  have hnodup : (s.walked.map (·.key)).Nodup :=
    (s.walked_perm.map _).nodup_iff.mpr h.consistent.keys_nodup
  exact (h.withWalks _).removeKeys_eq (hnodup.sublist (List.filter_sublist.map _)) fun e he =>
    (h.mem_entries_iff e).mp (s.walked_perm.subset (List.mem_filter.mp he).1)

theorem Agrees.removeIf_perm (h : s.Agrees) (condition : Entry K V → Bool) :
    (s.removeIf condition).1.Perm (s.entries.filter condition) := by
  rw [h.removeIf_eq]
  exact s.walked_perm.filter condition

/-! ## All operations -/

/-- Each operation answers what it changes.  The entries are the map `get?`. -/
structure Exact (s : Store K V) : Prop where
  put : ∀ key value attributes expires now recordAccess,
    let r := s.put key value attributes expires now recordAccess
    r.1.old = s.get? key ∧ r.1.new.key = key ∧
      Loses (Function.update s.get? key (some r.1.new)) r.1.evicted r.2.get?
  touch : ∀ key now,
    let r := s.touch key now
    r.1 = (s.get? key).map (·.access now) ∧ r.2.get? = Function.update s.get? key r.1
  remove : ∀ key,
    let r := s.remove key
    r.1 = s.get? key ∧ Loses s.get? r.1.toList r.2.get?
  removeIf : ∀ condition,
    let r := s.removeIf condition
    (∀ e, e ∈ r.1 ↔ s.get? e.key = some e ∧ condition e = true) ∧ Loses s.get? r.1 r.2.get?
  clear : s.clear.2.get? = (fun _ => none) ∧ Loses s.get? s.clear.1 s.clear.2.get?
  trimTo : ∀ maxEntries maxVolume,
    let r := s.trimTo maxEntries maxVolume
    Loses s.get? r.1 r.2.get?
  setLimits : ∀ maxEntries maxVolume,
    let r := s.setLimits maxEntries maxVolume
    Loses s.get? r.1 r.2.get?

theorem Agrees.touch_get? (h : s.Agrees) (key : K) (now : Nat) :
    (s.touch key now).1 = (s.get? key).map (·.access now) ∧
      (s.touch key now).2.get? = Function.update s.get? key (s.touch key now).1 := by
  cases hget : s.get? key with
  | none =>
      rw [touch_of_absent hget]
      exact ⟨rfl, (Function.update_eq_self_iff.mpr hget.symm).symm⟩
  | some e =>
      obtain ⟨hanswer, -, hafter⟩ := h.touch hget now
      exact ⟨hanswer, by rw [hafter, hanswer]⟩

theorem Agrees.exact (h : s.Agrees) : s.Exact where
  put key value attributes expires now recordAccess := by
    have hwrites := h.put key value attributes expires now recordAccess
    exact ⟨hwrites.old_eq, hwrites.key_eq, hwrites.loses⟩
  touch := h.touch_get?
  remove key := by
    obtain ⟨hanswer, hsheds, -⟩ := h.remove key
    exact ⟨hanswer, hsheds.takes.loses⟩
  removeIf condition := by
    refine ⟨fun e => ?_, (h.removeIf condition).takes.loses⟩
    rw [(h.removeIf_perm condition).mem_iff, List.mem_filter, h.mem_entries_iff]
  clear := ⟨h.clear.2, h.clear.1.takes.loses⟩
  trimTo maxEntries maxVolume := (h.trimTo maxEntries maxVolume).takes.loses
  -- the limits have no part in the map
  setLimits maxEntries maxVolume := (h.setLimits maxEntries maxVolume).takes.loses

/-- After every run from an empty store, over whatever policy, each operation answers
exactly what it changes. -/
theorem run_exact {p : Policy K} (hstart : p.Starts) (maxEntries maxVolume : Nat)
    (walk : Walk (Slot K V)) (actions : List (Action K V)) :
    ((new p maxEntries maxVolume walk).run actions).Exact :=
  ((agrees_new hstart maxEntries maxVolume walk).run actions).1.exact

/-- The theorem at a store over the most recent entry as victim, where a write that grows
takes out the entry that it has just written. -/
theorem run_exact_mru :
    let s := (new (PolicyChoice.build .mru) 2 10 : Store Nat Nat).run
      [.put 1 10 { size := 3 } none 0 true, .put 2 20 { size := 4 } none 1 true]
    s.Exact ∧ ∃ new, (s.put 1 11 { size := 7 } none 2 true).1 = ⟨s.get? 1, new, [new]⟩ :=
  ⟨run_exact (.builtIn .mru) 2 10 .plain _, _, rfl⟩

end BoundedCache.Store
