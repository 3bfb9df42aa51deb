import BoundedCache.Proofs.Store.Agreement

/-!
# What the operations of a store change

The entries of a store are the partial function `get?`.  `Takes f went g` says that
taking the entries `went` out of `f`, one after the other, leads to `g`; each must be
there, exactly as it is reported.  `Sheds` says this of two stores, with the balance of
`Moves`, and it is what every operation does that only removes.  A write sheds the old
entry and some victims, takes in the new one, and may shed more victims after that
(`Writes`).

All of it rests on agreement: the victim that a policy names has an entry, so the loop
that looks for one stops at the first.
-/

namespace BoundedCache.Store

variable {K V : Type}

/-! ## Rewritten entries -/

/-- The entry that a write leaves where there was one. -/
def rewritten (e : Entry K V) (value : V) (attributes : Attributes) (expires : Option Nat)
    (now : Nat) (recordAccess : Bool) : Entry K V :=
  if recordAccess then (e.update value attributes expires now).stamp now
  else e.update value attributes expires now

theorem key_rewritten (e : Entry K V) (value : V) (attributes : Attributes)
    (expires : Option Nat) (now : Nat) (recordAccess : Bool) :
    (rewritten e value attributes expires now recordAccess).key = e.key := by
  cases recordAccess <;> rfl

theorem size_rewritten (e : Entry K V) (value : V) (attributes : Attributes)
    (expires : Option Nat) (now : Nat) (recordAccess : Bool) :
    (rewritten e value attributes expires now recordAccess).size = attributes.size := by
  cases recordAccess <;> rfl

variable [DecidableEq K]

/-! ## Taking entries out -/

/-- Taking the entries out one after the other leads from `f` to `g`. -/
def Takes (f : K → Option (Entry K V)) :
    List (Entry K V) → (K → Option (Entry K V)) → Prop
  | [], g => g = f
  | e :: rest, g => f e.key = some e ∧ Takes (Function.update f e.key none) rest g

theorem takes_append {f g : K → Option (Entry K V)} {first later : List (Entry K V)} :
    Takes f (first ++ later) g ↔ ∃ mid, Takes f first mid ∧ Takes mid later g := by
  induction first generalizing f with
  | nil => simp [Takes]
  | cons e rest ih =>
      simp only [List.cons_append, Takes, ih]
      constructor
      · rintro ⟨he, mid, hrest, hlater⟩
        exact ⟨mid, ⟨he, hrest⟩, hlater⟩
      · rintro ⟨mid, ⟨he, hrest⟩, hlater⟩
        exact ⟨he, mid, hrest, hlater⟩

/-- A list of all entries takes all of them out. -/
theorem takes_all {f : K → Option (Entry K V)} {all : List (Entry K V)}
    (h : Enumerates (all.map fun e => (e.key, e)) f) : Takes f all fun _ => none := by
  induction all generalizing f with
  | nil => exact (funext h.eq_none_of_nil).symm
  | cons e rest ih =>
      exact ⟨(h.mem_iff _ _).mp List.mem_cons_self, ih h.erase⟩

/-- What is absent stays absent. -/
theorem Takes.eq_none {f g : K → Option (Entry K V)} {went : List (Entry K V)} {key : K}
    (h : Takes f went g) (hkey : f key = none) : g key = none := by
  induction went generalizing f with
  | nil => exact (congrFun h key).trans hkey
  | cons e rest ih =>
      refine ih h.2 ?_
      by_cases heq : key = e.key
      · rw [heq, Function.update_self]
      · rwa [Function.update_of_ne heq]

variable {s t u : Store K V} {went went' : List (Entry K V)} {key : K} {slot : Slot K V}
variable {value : V} {attributes : Attributes} {expires : Option Nat} {now : Nat}
variable {recordAccess : Bool}

/-- The store gives these entries away and takes none in. -/
structure Sheds (s : Store K V) (went : List (Entry K V)) (t : Store K V) : Prop where
  moves : Moves s [] went t
  takes : Takes s.get? went t.get?

theorem Agrees.sheds (h : s.Agrees) : Sheds s [] s := ⟨h.moves, rfl⟩

theorem Sheds.agrees (h : Sheds s went t) : t.Agrees := h.moves.agrees

theorem Sheds.trans (h : Sheds s went t) (h' : Sheds t went' u) : Sheds s (went ++ went') u :=
  ⟨h.moves.trans h'.moves, takes_append.mpr ⟨_, h.takes, h'.takes⟩⟩

/-- A store that sheds has fewer entries. -/
theorem Sheds.size_eq (h : Sheds s went t) : t.size + went.length = s.size := h.moves.size_eq

theorem Sheds.volume_le (h : Sheds s went t) : t.volume ≤ s.volume := by
  have hvolume := h.moves.volume_eq
  rw [total_nil] at hvolume
  omega

/-! ## Reading, removing -/

theorem touch_of_absent (hget : s.get? key = none) (now : Nat) : s.touch key now = (none, s) := by
  rw [get?_eq_slot?, Option.map_eq_none_iff] at hget
  rw [touch, hget]

/-- A read replaces the entry by one that has recorded it. -/
theorem Agrees.touch (h : s.Agrees) {e : Entry K V} (hget : s.get? key = some e) (now : Nat) :
    (s.touch key now).1 = some (e.access now) ∧
      Moves s [e.access now] [e] (s.touch key now).2 ∧
      (s.touch key now).2.get? = Function.update s.get? key (some (e.access now)) := by
  obtain ⟨slot, hslot, rfl⟩ := Option.map_eq_some_iff.mp hget
  obtain ⟨hmem, rfl⟩ := (slot?_eq_some h).mp hslot
  obtain ⟨hpeek, hfollows⟩ := h.sound.touch slot.index
  have hadds : Adds (Function.update s.policy.peek? slot.index none) slot.entry.key slot.index
      (s.policy.touch slot.index).peek? := by
    refine ⟨Function.update_self _ _ _, ?_⟩
    rw [hpeek, Function.update_idem]
    exact (Function.update_eq_self_iff.mpr (h.peek?_index hmem).symm).symm
  rw [Store.touch, hslot]
  exact ⟨rfl, h.swap hmem { slot with entry := slot.entry.access now } rfl hfollows hadds rfl⟩

theorem remove_of_absent (hget : s.get? key = none) : s.remove key = (none, s) := by
  rw [get?_eq_slot?, Option.map_eq_none_iff] at hget
  rw [remove, hget]

/-- The entry of the key goes, if there is one. -/
theorem Agrees.remove (h : s.Agrees) (key : K) :
    (s.remove key).1 = s.get? key ∧ Sheds s (s.remove key).1.toList (s.remove key).2 ∧
      (s.remove key).2.get? = Function.update s.get? key none := by
  cases hget : s.get? key with
  | none =>
      rw [remove_of_absent hget]
      exact ⟨rfl, h.sheds, (Function.update_eq_self_iff.mpr hget.symm).symm⟩
  | some e =>
      obtain ⟨slot, hslot, rfl⟩ := Option.map_eq_some_iff.mp hget
      obtain ⟨hmem, rfl⟩ := (slot?_eq_some h).mp hslot
      obtain ⟨hremoves, hfollows⟩ := h.sound.remove slot.index
      obtain ⟨hmoves, hafter⟩ := h.drop hmem hfollows hremoves.after
      rw [Store.remove, hslot]
      exact ⟨rfl, ⟨hmoves, hget, hafter⟩, hafter⟩

theorem Agrees.removeKeys (h : s.Agrees) (keys : List K) :
    Sheds s (s.removeKeys keys).1 (s.removeKeys keys).2 := by
  induction keys generalizing s with
  | nil => exact h.sheds
  | cons key keys ih =>
      obtain ⟨-, hsheds, -⟩ := h.remove key
      exact hsheds.trans (ih hsheds.agrees)

theorem Agrees.removeIf (h : s.Agrees) (condition : Entry K V → Bool) :
    Sheds s (s.removeIf condition).1 (s.removeIf condition).2 := by
  have hstart : Sheds s [] { s with walks := s.walks + 1 } :=
    ⟨⟨h.withWalks _, rfl, rfl, rfl, rfl, id⟩, rfl⟩
  exact hstart.trans (hstart.agrees.removeKeys _)

/-! ## Evicting -/

/-- The policy may change as long as its elements stay. -/
theorem Agrees.withPolicy (h : s.Agrees) {policy : Policy K}
    (hfollows : Policy.Follows s.policy policy) (hpeek : policy.peek? = s.policy.peek?) :
    Sheds s [] { s with policy := policy } where
  moves :=
    ⟨⟨hfollows.sound, h.distinct, hpeek ▸ h.indexed, h.volume_eq⟩, rfl, rfl, rfl, rfl,
      hfollows.yielding⟩
  takes := rfl

/-- Looking for a victim finds it at once, or there is none. -/
theorem Agrees.evictLoop (h : s.Agrees) (fuel : Nat) :
    Sheds s (evictLoop (fuel + 1) s).1.toList (evictLoop (fuel + 1) s).2 ∧
      (s.policy.Yielding → s.size ≠ 0 → (evictLoop (fuel + 1) s).1.isSome = true) := by
  obtain ⟨hyields, hevicts, hfollows⟩ := h.sound.evict
  rcases hanswer : s.policy.evict with ⟨victim, policy⟩
  rw [hanswer] at hyields hevicts hfollows
  cases victim with
  | none =>
      rw [Store.evictLoop, hanswer]
      refine ⟨h.withPolicy hfollows hyields.of_none, fun hyielding hsize => absurd ?_ hsize⟩
      -- a policy that yields has no element left
      have hempty := h.indexed.eq_nil_of_none (hevicts hyielding).of_none.1
      rw [size, List.map_eq_nil_iff.mp hempty]
      rfl
  | some key =>
      obtain ⟨i, hi, hpeek⟩ := hyields.of_some
      obtain ⟨slot, hmem, rfl, rfl⟩ := h.exists_slot hi
      obtain ⟨hmoves, hafter⟩ := h.drop hmem hfollows hpeek
      have hslot : s.slot? slot.entry.key = some slot := (slot?_eq_some h).mpr ⟨hmem, rfl⟩
      have hget : s.get? slot.entry.key = some slot.entry := get?_of_slot? hslot
      have hloop : Store.evictLoop (fuel + 1) s = (some slot.entry,
          { s with
            slots := without s.slots slot.entry.key
            policy := policy
            volume := s.volume - slot.entry.size }) := by
        rw [Store.evictLoop, hanswer]
        simp only [hslot]
      rw [hloop]
      exact ⟨⟨hmoves, hget, hafter⟩, fun _ _ => rfl⟩

theorem Agrees.evictOne (h : s.Agrees) :
    Sheds s s.evictOne.1.toList s.evictOne.2 ∧
      (s.policy.Yielding → s.size ≠ 0 → s.evictOne.1.isSome = true) :=
  h.evictLoop _

theorem Agrees.trimLoop (h : s.Agrees) (maxEntries maxVolume fuel : Nat) :
    Sheds s (trimLoop maxEntries maxVolume fuel s).1 (trimLoop maxEntries maxVolume fuel s).2 := by
  induction fuel generalizing s with
  | zero => exact h.sheds
  | succ fuel ih =>
      obtain ⟨hsheds, -⟩ := h.evictOne
      -- what one turn sheds comes before what the rest of the loop sheds
      rw [Store.trimLoop]
      split
      · rcases hone : s.evictOne with ⟨victim, t⟩
        rw [hone] at hsheds
        cases victim with
        | none => exact hsheds
        | some e => exact hsheds.trans (ih hsheds.agrees)
      · exact h.sheds

theorem Agrees.trimTo (h : s.Agrees) (maxEntries maxVolume : Nat) :
    Sheds s (s.trimTo maxEntries maxVolume).1 (s.trimTo maxEntries maxVolume).2 :=
  h.trimLoop maxEntries maxVolume _

theorem Agrees.setLimits (h : s.Agrees) (maxEntries maxVolume : Nat) :
    Sheds { s with maxEntries := maxEntries, maxVolume := maxVolume }
      (s.setLimits maxEntries maxVolume).1 (s.setLimits maxEntries maxVolume).2 :=
  (h.withLimits maxEntries maxVolume).trimTo maxEntries maxVolume

/-! ## Clearing -/

/-- One step of `clear`: the entry of a key is named, if there is one. -/
def nameEntry (state : List (Entry K V) × List (Slot K V)) (key : K) :
    List (Entry K V) × List (Slot K V) :=
  match state.2.find? fun slot : Slot K V => slot.entry.key = key with
  | none => state
  | some slot => (state.1 ++ [slot.entry], without state.2 key)

/-- Whatever keys are given, the entries named and those left are all the entries. -/
theorem nameEntry_perm (keys : List K) (named : List (Entry K V)) {slots : List (Slot K V)}
    (h : Distinct slots) :
    ((keys.foldl nameEntry (named, slots)).1 ++
      (keys.foldl nameEntry (named, slots)).2.map (·.entry)).Perm
        (named ++ slots.map (·.entry)) := by
  induction keys generalizing named slots with
  | nil => exact List.Perm.refl _
  | cons key keys ih =>
      rw [List.foldl_cons]
      cases hfind : slots.find? (fun slot : Slot K V => slot.entry.key = key) with
      | none =>
          rw [nameEntry, hfind]
          exact ih named h
      | some slot =>
          obtain ⟨hmem, rfl⟩ := h.find?_eq_some.mp hfind
          have hperm := h.perm_without hmem
          -- the slot moves from the end of the list, where it was left, to the named entries
          rw [nameEntry, hfind]
          refine (ih _ (List.nodup_cons.mp (h.perm hperm)).2).trans ?_
          rw [List.append_assoc]
          exact ((hperm.map (·.entry)).append_left named).symm

/-- Whatever the policy names, clearing hands out all entries. -/
theorem clear_perm (s : Store K V) (h : Distinct s.slots) : s.clear.1.Perm s.entries := by
  have hwalked := s.walk.perm s.walks (s.policy.clear.1.foldl nameEntry ([], s.slots)).2
  exact ((hwalked.map (·.entry)).append_left _).trans (nameEntry_perm s.policy.clear.1 [] h)

theorem Agrees.clear (h : s.Agrees) :
    Sheds s s.clear.1 s.clear.2 ∧ s.clear.2.get? = fun _ => none := by
  obtain ⟨-, hnone, hfollows⟩ := h.sound.clear
  have hperm : s.clear.1.Perm s.entries := s.clear_perm h.distinct
  have hget : s.clear.2.get? = fun _ => none := rfl
  refine ⟨⟨⟨⟨hfollows.sound, List.nodup_nil, ?_, rfl⟩, ?_, ?_, rfl, rfl, hfollows.yielding⟩, ?_⟩,
    hget⟩
  · rw [show s.clear.2.policy.peek? = _ from hnone]
    exact .nil
  · rw [hperm.length_eq, entries, List.length_map]
    exact Nat.zero_add _
  · rw [total_perm hperm, h.volume_eq]
    exact Nat.zero_add _
  · rw [hget]
    refine takes_all ((enumerates_get? h.distinct).of_perm ?_)
    refine List.Perm.trans (List.Perm.of_eq ?_) ((hperm.map fun e => (e.key, e)).symm)
    rw [entries, List.map_map]
    rfl

/-! ## Writing -/

/-- A write of an entry for `key`: the old one leaves, then the victims that made room,
then the new one comes in, then later victims leave; the new one may be among those. -/
structure Writes (s : Store K V) (key : K) (w : Written K V) (t : Store K V) : Prop where
  key_eq : w.new.key = key
  old_eq : w.old = s.get? key
  moves : Moves s [w.new] (w.old.toList ++ w.evicted) t
  takes : ∃ first later room, w.evicted = first ++ later ∧
    Takes (Function.update s.get? key none) first room ∧
    Takes (Function.update room key (some w.new)) later t.get?

/-- An entry that is its own victim leaves no trace. -/
theorem Agrees.putRejected (h : s.Agrees) {new : Entry K V} (hkey : new.key = key) :
    Writes s key ⟨(s.remove key).1, new, [new]⟩ (s.remove key).2 := by
  obtain ⟨hold, ⟨hmoves, -⟩, hget⟩ := h.remove key
  refine ⟨hkey, hold, ?_, [], [new], Function.update s.get? key none, rfl, rfl, ?_, ?_⟩
  · have hsize := hmoves.size_eq
    have hvolume := hmoves.volume_eq
    refine ⟨hmoves.agrees, ?_, ?_, hmoves.maxEntries_eq, hmoves.maxVolume_eq, hmoves.yielding⟩
    · simp only [List.length_append, List.length_cons, List.length_nil] at hsize ⊢
      omega
    · simp only [total_append, total_cons, total_nil] at hvolume ⊢
      omega
  · rw [hkey, Function.update_self]
  · rw [hkey, Function.update_idem, Function.update_idem, hget]
    rfl

theorem Agrees.putOversized (h : s.Agrees) (key : K) (value : V) (attributes : Attributes)
    (expires : Option Nat) (now : Nat) :
    Writes s key (s.putOversized key value attributes expires now).1
      (s.putOversized key value attributes expires now).2 := by
  have hkey : (s.putOversized key value attributes expires now).1.new.key = key := by
    simp only [Store.putOversized]
    split <;> rfl
  exact h.putRejected hkey

theorem putPresent_eq (s : Store K V) (slot : Slot K V) (value : V) (attributes : Attributes)
    (expires : Option Nat) (now : Nat) (recordAccess : Bool) :
    s.putPresent slot value attributes expires now recordAccess =
      (rewritten slot.entry value attributes expires now recordAccess,
        { s with
          slots := replacing s.slots
            { entry := rewritten slot.entry value attributes expires now recordAccess
              index := if (s.policy.update slot.index slot.entry.key).1 = true then slot.index
                else ((s.policy.update slot.index slot.entry.key).2.add slot.entry.key).1 }
          policy := if (s.policy.update slot.index slot.entry.key).1 = true then
              (s.policy.update slot.index slot.entry.key).2
            else ((s.policy.update slot.index slot.entry.key).2.add slot.entry.key).2
          volume := s.volume - slot.entry.size + attributes.size }) := by
  simp only [putPresent, rewritten]
  rcases s.policy.update slot.index slot.entry.key with ⟨done, policy⟩
  cases done <;> rfl

theorem Agrees.putPresent (h : s.Agrees) (hslot : s.slot? key = some slot) (value : V)
    (attributes : Attributes) (expires : Option Nat) (now : Nat) (recordAccess : Bool) :
    let r := s.putPresent slot value attributes expires now recordAccess
    r.1.key = key ∧ Moves s [r.1] [slot.entry] r.2 ∧
      r.2.get? = Function.update s.get? key (some r.1) := by
  obtain ⟨hmem, rfl⟩ := (slot?_eq_some h).mp hslot
  obtain ⟨hupdates, hupdated⟩ := h.sound.update slot.index slot.entry.key
  obtain ⟨hadds, hadded⟩ := hupdated.sound.add slot.entry.key
  have hpeek := adds_of_updates hupdates (h.peek?_index hmem) hadds
  have hfollows : Policy.Follows s.policy
      (if (s.policy.update slot.index slot.entry.key).1 = true then
        (s.policy.update slot.index slot.entry.key).2
      else ((s.policy.update slot.index slot.entry.key).2.add slot.entry.key).2) := by
    split
    · exact hupdated
    · exact hupdated.trans hadded
  rw [putPresent_eq]
  refine ⟨key_rewritten _ _ _ _ _ _, h.swap hmem
    ⟨rewritten slot.entry value attributes expires now recordAccess, _⟩
    (key_rewritten _ _ _ _ _ _) hfollows ?_ ?_⟩
  · rw [← apply_ite Policy.peek?] at hpeek
    exact hpeek
  · have hsize := h.size_le hmem
    simp only [size_rewritten]
    omega

/-- The store with a new entry, for which there is room. -/
def appended (s : Store K V) (e : Entry K V) : Store K V :=
  { s with
    slots := s.slots ++ [{ entry := e, index := (s.policy.add e.key).1 }]
    policy := (s.policy.add e.key).2
    volume := s.volume + e.size }

theorem putAbsent_eq (s : Store K V) (key : K) (value : V) (attributes : Attributes)
    (expires : Option Nat) (now : Nat) :
    let room := s.trimTo (s.maxEntries - 1) (s.maxVolume - attributes.size)
    let new := Entry.new key value attributes expires now
    s.putAbsent key value attributes expires now = (⟨none, new, room.1⟩, room.2.appended new) :=
  rfl

theorem Agrees.appended (h : s.Agrees) (e : Entry K V) (hkey : s.get? e.key = none) :
    Moves s [e] [] (s.appended e) ∧
      (s.appended e).get? = Function.update s.get? e.key (some e) := by
  obtain ⟨hadds, hfollows⟩ := h.sound.add e.key
  exact h.append ⟨e, (s.policy.add e.key).1⟩ hkey hfollows hadds

/-- A key without an entry gets one where room has been made for it. -/
theorem Agrees.appendedInRoom (h : s.Agrees) (hslot : s.slot? key = none) (value : V)
    (attributes : Attributes) (expires : Option Nat) (now : Nat) :
    let room := s.trimTo (s.maxEntries - 1) (s.maxVolume - attributes.size)
    let new := Entry.new key value attributes expires now
    Sheds s room.1 room.2 ∧ Moves room.2 [new] [] (room.2.appended new) ∧
      (room.2.appended new).get? = Function.update room.2.get? key (some new) := by
  intro room new
  have hroom := h.trimTo (s.maxEntries - 1) (s.maxVolume - attributes.size)
  -- making room does not bring the key back
  have habsent : room.2.get? key = none := hroom.takes.eq_none (get?_of_slot? hslot)
  exact ⟨hroom, hroom.agrees.appended new habsent⟩

/-! The two ways of a write that fits, with the limits of the store itself. -/

theorem put_of_present (hadmits : s.admits attributes.size = true)
    (hslot : s.slot? key = some slot) :
    let r := s.putPresent slot value attributes expires now recordAccess
    let trimmed := r.2.trimTo s.maxEntries s.maxVolume
    s.put key value attributes expires now recordAccess =
      (⟨some slot.entry, r.1, trimmed.1⟩, trimmed.2) := by
  rw [put, if_pos hadmits, hslot]
  simp only [putPresent_eq]

theorem Agrees.put_of_absent (h : s.Agrees) (hadmits : s.admits attributes.size = true)
    (hslot : s.slot? key = none) :
    let room := s.trimTo (s.maxEntries - 1) (s.maxVolume - attributes.size)
    let new := Entry.new key value attributes expires now
    let trimmed := (room.2.appended new).trimTo s.maxEntries s.maxVolume
    s.put key value attributes expires now recordAccess =
      (⟨none, new, room.1 ++ trimmed.1⟩, trimmed.2) := by
  intro room new trimmed
  have hmoves := (h.trimTo (s.maxEntries - 1) (s.maxVolume - attributes.size)).moves
  have hentries : (room.2.appended new).maxEntries = s.maxEntries := hmoves.maxEntries_eq
  have hvolume : (room.2.appended new).maxVolume = s.maxVolume := hmoves.maxVolume_eq
  rw [Store.put, if_pos hadmits, hslot]
  simp only [putAbsent_eq]
  rw [hentries, hvolume]

/-- Every write is a write in the sense of `Writes`, whichever way it takes. -/
theorem Agrees.put (h : s.Agrees) (key : K) (value : V) (attributes : Attributes)
    (expires : Option Nat) (now : Nat) (recordAccess : Bool) :
    Writes s key (s.put key value attributes expires now recordAccess).1
      (s.put key value attributes expires now recordAccess).2 := by
  by_cases hadmits : s.admits attributes.size = true
  · cases hslot : s.slot? key with
    | some slot =>
        have hget : s.get? key = some slot.entry := get?_of_slot? hslot
        obtain ⟨hkey, hmoves, hafter⟩ :=
          h.putPresent hslot value attributes expires now recordAccess
        have hsheds := hmoves.agrees.trimTo s.maxEntries s.maxVolume
        rw [put_of_present hadmits hslot]
        refine ⟨hkey, hget.symm, hmoves.trans hsheds.moves, [], _, _, rfl, rfl, ?_⟩
        rw [Function.update_idem, ← hafter]
        exact hsheds.takes
    | none =>
        have hget : s.get? key = none := get?_of_slot? hslot
        obtain ⟨hroom, hmoves, hafter⟩ := h.appendedInRoom hslot value attributes expires now
        have hsheds := hmoves.agrees.trimTo s.maxEntries s.maxVolume
        have hsame : Function.update s.get? key none = s.get? :=
          Function.update_eq_self_iff.mpr hget.symm
        rw [h.put_of_absent hadmits hslot]
        refine ⟨rfl, hget.symm, ?_, _, _, _, rfl, hsame ▸ hroom.takes, ?_⟩
        · have hboth := (hroom.moves.trans hmoves).trans hsheds.moves
          simp only [List.append_nil, List.nil_append] at hboth
          exact hboth
        · rw [show Function.update _ key _ = _ from hafter.symm]
          exact hsheds.takes
  · rw [Store.put, if_neg hadmits]
    exact h.putOversized key value attributes expires now

/-- A sequence of writes. -/
inductive WritesAll : Store K V → List (Written K V) → Store K V → Prop where
  | nil {s : Store K V} : WritesAll s [] s
  | cons {s t u : Store K V} {key : K} {w : Written K V} {rest : List (Written K V)} :
      Writes s key w t → WritesAll t rest u → WritesAll s (w :: rest) u

theorem Agrees.putAll (h : s.Agrees) (attributes : Attributes) (expires : Option Nat) (now : Nat)
    (pairs : List (K × V)) :
    WritesAll s (s.putAll attributes expires now pairs).1
      (s.putAll attributes expires now pairs).2 := by
  induction pairs generalizing s with
  | nil => exact .nil
  | cons pair pairs ih =>
      have hwrites := h.put pair.1 pair.2 attributes expires now true
      exact .cons hwrites (ih hwrites.moves.agrees)

end BoundedCache.Store
