import BoundedCache.Proofs.Store.Operations

/-!
# Entries are not older than their creation

An entry is created once, and after that no time of a write or a read that it shows is
earlier, even where the clock has moved back in between.  The operations of a store keep
this of every entry they hold, and of every entry they hand out, with one exception: a write
that can never fit hands out an entry with the creation time of the one it drops and with
times of its own, which are not held against that creation time (`Backdates`).

Nothing is asked of the policy here.  Whatever victims it names, and whatever it has lost,
what leaves a store and what stays was in it before (`Draws`).
-/

namespace BoundedCache

variable {K V : Type}

/-- The entry is neither written nor read before it is created. -/
structure Entry.Dated (e : Entry K V) : Prop where
  created_le_updated : e.created ≤ e.updated
  created_le_accessed : e.created ≤ e.accessed

namespace Entry

variable {e : Entry K V}

theorem dated_new (key : K) (value : V) (attributes : Attributes) (expires : Option Nat)
    (now : Nat) : (Entry.new key value attributes expires now).Dated :=
  ⟨Nat.le_refl now, Nat.le_refl now⟩

theorem Dated.update (h : e.Dated) (value : V) (attributes : Attributes) (expires : Option Nat)
    (now : Nat) : (e.update value attributes expires now).Dated :=
  ⟨Nat.le_max_right now e.created, h.created_le_accessed⟩

theorem Dated.stamp (h : e.Dated) (now : Nat) : (e.stamp now).Dated :=
  ⟨h.created_le_updated, h.created_le_accessed.trans (Nat.le_max_right now e.accessed)⟩

theorem Dated.access (h : e.Dated) (now : Nat) : (e.access now).Dated :=
  ⟨h.created_le_updated, h.created_le_accessed.trans (Nat.le_max_right now e.accessed)⟩

theorem Dated.rewritten (h : e.Dated) (value : V) (attributes : Attributes)
    (expires : Option Nat) (now : Nat) (recordAccess : Bool) :
    (Store.rewritten e value attributes expires now recordAccess).Dated := by
  rw [Store.rewritten]
  split
  · exact (h.update value attributes expires now).stamp now
  · exact h.update value attributes expires now

end Entry

namespace Store

variable {s t u : Store K V} {handed handed' : List (Entry K V)}

/-! ## Giving entries away -/

/-- The entries handed out and the entries that stay were all held before. -/
structure Draws (s : Store K V) (handed : List (Entry K V)) (t : Store K V) : Prop where
  handed_subset : handed ⊆ s.entries
  entries_subset : t.entries ⊆ s.entries

theorem draws_nothing (s : Store K V) : Draws s [] s :=
  ⟨List.nil_subset _, List.Subset.refl _⟩

theorem Draws.trans (h : Draws s handed t) (h' : Draws t handed' u) :
    Draws s (handed ++ handed') u :=
  ⟨List.append_subset.2 ⟨h.handed_subset, List.Subset.trans h'.handed_subset h.entries_subset⟩,
    List.Subset.trans h'.entries_subset h.entries_subset⟩

variable [DecidableEq K]

theorem mem_entries_of_slot? {key : K} {slot : Slot K V} (hslot : s.slot? key = some slot) :
    slot.entry ∈ s.entries :=
  List.mem_map_of_mem (List.mem_of_find?_eq_some hslot)

theorem mem_entries_of_get? {key : K} {e : Entry K V} (hget : s.get? key = some e) :
    e ∈ s.entries := by
  obtain ⟨slot, hslot, rfl⟩ := Option.map_eq_some_iff.1 hget
  exact mem_entries_of_slot? hslot

theorem entries_replacing_subset (slots : List (Slot K V)) (slot : Slot K V) :
    (replacing slots slot).map (·.entry) ⊆ slot.entry :: slots.map (·.entry) := by
  intro e he
  obtain ⟨changed, hchanged, rfl⟩ := List.mem_map.1 he
  obtain ⟨old, hold, rfl⟩ := List.mem_map.1 hchanged
  split
  · exact List.mem_cons_self
  · exact List.mem_cons_of_mem _ (List.mem_map_of_mem hold)

/-- The entry of a slot goes with the slot. -/
theorem draws_slot {key : K} {slot : Slot K V} (hslot : s.slot? key = some slot)
    (policy : Policy K) (volume : Nat) :
    Draws s [slot.entry]
      { s with slots := without s.slots key, policy := policy, volume := volume } :=
  ⟨List.cons_subset.2 ⟨mem_entries_of_slot? hslot, List.nil_subset _⟩,
    List.map_subset _ List.filter_sublist.subset⟩

theorem draws_remove (s : Store K V) (key : K) :
    Draws s (s.remove key).1.toList (s.remove key).2 := by
  rw [remove]
  cases hslot : s.slot? key with
  | none => exact draws_nothing s
  | some slot => exact draws_slot hslot _ _

theorem draws_removeKeys (s : Store K V) (keys : List K) :
    Draws s (s.removeKeys keys).1 (s.removeKeys keys).2 := by
  induction keys generalizing s with
  | nil => exact draws_nothing s
  | cons key keys ih => exact (draws_remove s key).trans (ih _)

theorem draws_removeIf (s : Store K V) (condition : Entry K V → Bool) :
    Draws s (s.removeIf condition).1 (s.removeIf condition).2 := by
  obtain ⟨hhanded, hentries⟩ := draws_removeKeys { s with walks := s.walks + 1 }
    ((s.walked.filter condition).map (·.key))
  exact ⟨hhanded, hentries⟩

theorem draws_evictLoop (s : Store K V) (fuel : Nat) :
    Draws s (evictLoop fuel s).1.toList (evictLoop fuel s).2 := by
  induction fuel generalizing s with
  | zero => exact draws_nothing s
  | succ fuel ih =>
      rw [evictLoop]
      rcases s.policy.evict with ⟨victim, policy⟩
      cases victim with
      | none => exact ⟨List.nil_subset _, List.Subset.refl _⟩
      | some key =>
          dsimp only
          cases hslot : s.slot? key with
          | none =>
              have hrest := ih { s with policy := policy }
              exact ⟨hrest.handed_subset, hrest.entries_subset⟩
          | some slot => exact draws_slot hslot _ _

theorem draws_trimLoop (s : Store K V) (maxEntries maxVolume fuel : Nat) :
    Draws s (trimLoop maxEntries maxVolume fuel s).1 (trimLoop maxEntries maxVolume fuel s).2 := by
  induction fuel generalizing s with
  | zero => exact draws_nothing s
  | succ fuel ih =>
      have hone := draws_evictLoop s (s.policy.size + 1)
      rw [trimLoop]
      split
      · rw [evictOne]
        rcases hone' : evictLoop (s.policy.size + 1) s with ⟨victim, t⟩
        rw [hone'] at hone
        cases victim with
        | none => exact hone
        | some e => exact hone.trans (ih t)
      · exact draws_nothing s

theorem draws_trimTo (s : Store K V) (maxEntries maxVolume : Nat) :
    Draws s (s.trimTo maxEntries maxVolume).1 (s.trimTo maxEntries maxVolume).2 :=
  draws_trimLoop s maxEntries maxVolume _

theorem nameEntry_subset (keys : List K) (named : List (Entry K V)) (slots : List (Slot K V)) :
    (keys.foldl nameEntry (named, slots)).1 ⊆ named ++ slots.map (·.entry) ∧
      (keys.foldl nameEntry (named, slots)).2 ⊆ slots := by
  induction keys generalizing named slots with
  | nil => exact ⟨List.subset_append_left _ _, List.Subset.refl _⟩
  | cons key keys ih =>
      rw [List.foldl_cons, nameEntry]
      cases hfind : slots.find? (fun slot : Slot K V => slot.entry.key = key) with
      | none => exact ih named slots
      | some slot =>
          obtain ⟨hnamed, hleft⟩ := ih (named ++ [slot.entry]) (without slots key)
          have hslot : slot ∈ slots := List.mem_of_find?_eq_some hfind
          have hwithout : without slots key ⊆ slots := List.filter_sublist.subset
          refine ⟨List.Subset.trans hnamed ?_, List.Subset.trans hleft hwithout⟩
          rw [List.append_assoc]
          refine List.append_subset.2 ⟨List.subset_append_left _ _, ?_⟩
          refine List.Subset.trans ?_ (List.subset_append_right _ _)
          exact List.cons_subset.2 ⟨List.mem_map_of_mem hslot, List.map_subset _ hwithout⟩

theorem draws_clear (s : Store K V) : Draws s s.clear.1 s.clear.2 := by
  obtain ⟨hnamed, hleft⟩ := nameEntry_subset s.policy.clear.1 [] s.slots
  have hwalked := List.Subset.trans (s.walk.perm s.walks _).subset hleft
  exact ⟨List.append_subset.2 ⟨hnamed, List.map_subset _ hwalked⟩, List.nil_subset _⟩

/-! ## Writing -/

theorem putOversized_of_absent {key : K} (hget : s.get? key = none) (value : V)
    (attributes : Attributes) (expires : Option Nat) (now : Nat) :
    let new := Entry.new key value attributes expires now
    s.putOversized key value attributes expires now = (⟨none, new, [new]⟩, s) := by
  rw [putOversized, remove_of_absent hget]

/-- Of the entry that goes, the new one has the creation time and the count of writes. -/
theorem putOversized_of_present {key : K} {old : Entry K V} (hget : s.get? key = some old)
    (value : V) (attributes : Attributes) (expires : Option Nat) (now : Nat) :
    let new : Entry K V :=
      { Entry.new key value attributes expires now with
        created := old.created
        version := old.version + 1 }
    s.putOversized key value attributes expires now =
      (⟨some old, new, [new]⟩, (s.remove key).2) := by
  obtain ⟨slot, hslot, rfl⟩ := Option.map_eq_some_iff.1 hget
  rw [putOversized, remove, hslot]

/-- What a write that fits hands out and leaves behind was held before, or is the entry it
writes, which is new or made of one that was held. -/
theorem put_of_admits {attributes : Attributes} (hadmits : s.admits attributes.size = true)
    (key : K) (value : V) (expires : Option Nat) (now : Nat) (recordAccess : Bool) :
    ∃ new : Entry K V,
      let r := s.put key value attributes expires now recordAccess
      (new = Entry.new key value attributes expires now ∨
        ∃ e ∈ s.entries, new = rewritten e value attributes expires now recordAccess) ∧
      r.1.new = new ∧ r.1.old.toList ⊆ s.entries ∧ r.1.evicted ⊆ new :: s.entries ∧
      r.2.entries ⊆ new :: s.entries := by
  cases hslot : s.slot? key with
  | some slot =>
      have hmem := mem_entries_of_slot? hslot
      rw [put_of_present hadmits hslot]
      have htrim := draws_trimTo
        (s.putPresent slot value attributes expires now recordAccess).2 s.maxEntries s.maxVolume
      have hput : (s.putPresent slot value attributes expires now recordAccess).2.entries ⊆
          rewritten slot.entry value attributes expires now recordAccess :: s.entries := by
        rw [putPresent_eq]
        exact entries_replacing_subset s.slots ⟨_, _⟩
      exact ⟨rewritten slot.entry value attributes expires now recordAccess,
        .inr ⟨slot.entry, hmem, rfl⟩, by rw [putPresent_eq],
        List.cons_subset.2 ⟨hmem, List.nil_subset _⟩, List.Subset.trans htrim.handed_subset hput,
        List.Subset.trans htrim.entries_subset hput⟩
  | none =>
      rw [put, if_pos hadmits, hslot]
      simp only [putAbsent_eq]
      have hroom := draws_trimTo s (s.maxEntries - 1) (s.maxVolume - attributes.size)
      generalize s.trimTo (s.maxEntries - 1) (s.maxVolume - attributes.size) = room at hroom ⊢
      generalize hnew : Entry.new key value attributes expires now = new
      have htrim := draws_trimTo (room.2.appended new) (room.2.appended new).maxEntries
        (room.2.appended new).maxVolume
      have hput : (room.2.appended new).entries ⊆ new :: s.entries := by
        rw [entries, appended, List.map_append]
        exact List.append_subset.2 ⟨List.subset_cons_of_subset _ hroom.entries_subset,
          List.cons_subset.2 ⟨List.mem_cons_self, List.nil_subset _⟩⟩
      exact ⟨new, .inl rfl, rfl, List.nil_subset _,
        List.append_subset.2 ⟨List.subset_cons_of_subset _ hroom.handed_subset,
          List.Subset.trans htrim.handed_subset hput⟩, List.Subset.trans htrim.entries_subset hput⟩

/-- The entry that a write reports as replaced is the one that there was. -/
theorem old_put (s : Store K V) (key : K) (value : V) (attributes : Attributes)
    (expires : Option Nat) (now : Nat) (recordAccess : Bool) :
    (s.put key value attributes expires now recordAccess).1.old = s.get? key := by
  rw [put, get?]
  split
  · cases s.slot? key <;> rfl
  · rw [putOversized, remove]
    cases s.slot? key <;> rfl

/-- The entry that a write reports as new. -/
theorem new_put (s : Store K V) (key : K) (value : V) (attributes : Attributes)
    (expires : Option Nat) (now : Nat) (recordAccess : Bool) :
    (s.put key value attributes expires now recordAccess).1.new =
      match s.get? key with
      | none => Entry.new key value attributes expires now
      | some old =>
          if s.admits attributes.size then
            rewritten old value attributes expires now recordAccess
          else
            { Entry.new key value attributes expires now with
              created := old.created
              version := old.version + 1 } := by
  cases hadmits : s.admits attributes.size with
  | false =>
      have hput : s.put key value attributes expires now recordAccess =
          s.putOversized key value attributes expires now := by
        rw [put, hadmits]
        rfl
      rw [hput]
      cases hget : s.get? key with
      | none => rw [putOversized_of_absent hget]
      | some old =>
          rw [putOversized_of_present hget]
          rfl
  | true =>
      rw [put, hadmits, if_pos rfl, get?]
      cases s.slot? key <;> rfl

/-! ## All operations -/

/-- The entries that an operation hands out: those it answers, and those of the report of a
write. -/
def handedOut (s : Store K V) : Action K V → List (Entry K V)
  | .put key value attributes expires now recordAccess =>
      let written := (s.put key value attributes expires now recordAccess).1
      written.old.toList ++ written.new :: written.evicted
  | .touch key now => (s.touch key now).1.toList
  | .remove key => (s.remove key).1.toList
  | .removeIf condition => (s.removeIf condition).1
  | .clear => s.clear.1
  | .trimTo maxEntries maxVolume => (s.trimTo maxEntries maxVolume).1
  | .setLimits maxEntries maxVolume => (s.setLimits maxEntries maxVolume).1

/-- The operation is a write that can never fit, at a time before the creation of the entry
that it drops. -/
def Backdates (s : Store K V) : Action K V → Prop
  | .put key _ attributes _ now _ =>
      s.admits attributes.size = false ∧ ∃ e, s.get? key = some e ∧ now < e.created
  | _ => False

/-- Every entry of the store is dated. -/
def Dated (s : Store K V) : Prop := ∀ e ∈ s.entries, e.Dated

omit [DecidableEq K] in
theorem dated_new (policy : Policy K) (maxEntries maxVolume : Nat) (walk : Walk (Slot K V)) :
    (Store.new policy maxEntries maxVolume walk).Dated :=
  fun _ he => absurd he List.not_mem_nil

/-- What an operation does to dated entries. -/
structure KeepsDates (s : Store K V) (action : Action K V) : Prop where
  dated : (s.act action).Dated
  handed_iff : (∀ e ∈ s.handedOut action, e.Dated) ↔ ¬s.Backdates action

omit [DecidableEq K] in
theorem Dated.drawn (h : s.Dated) (hdraws : Draws s handed t) :
    t.Dated ∧ ∀ e ∈ handed, e.Dated :=
  ⟨fun e he => h e (hdraws.entries_subset he), fun e he => h e (hdraws.handed_subset he)⟩

theorem Dated.touch (h : s.Dated) (key : K) (now : Nat) : s.KeepsDates (.touch key now) := by
  have htouch : (s.touch key now).2.Dated ∧ ∀ e ∈ (s.touch key now).1.toList, e.Dated := by
    rw [Store.touch]
    cases hslot : s.slot? key with
    | none => exact ⟨h, fun e he => absurd he List.not_mem_nil⟩
    | some slot =>
        have hread : (slot.entry.access now).Dated := (h _ (mem_entries_of_slot? hslot)).access now
        refine ⟨fun e he => ?_, fun e he => by rwa [List.mem_singleton.1 he]⟩
        rcases List.mem_cons.1 (entries_replacing_subset s.slots ⟨_, _⟩ he) with rfl | he
        · exact hread
        · exact h e he
  exact ⟨htouch.1, iff_of_true htouch.2 id⟩

/-- A write that can never fit shows its own times with the creation time of the entry that
it drops. -/
theorem Dated.putOversized (h : s.Dated) (key : K) (value : V) (attributes : Attributes)
    (expires : Option Nat) (now : Nat) :
    let r := s.putOversized key value attributes expires now
    r.2.Dated ∧ ((∀ e ∈ r.1.old.toList ++ r.1.new :: r.1.evicted, e.Dated) ↔
      ∀ e, s.get? key = some e → e.created ≤ now) := by
  cases hget : s.get? key with
  | none =>
      rw [putOversized_of_absent hget]
      exact ⟨h, iff_of_true (by simp [Entry.dated_new]) nofun⟩
  | some old =>
      have hold := h old (mem_entries_of_get? hget)
      rw [putOversized_of_present hget]
      refine ⟨(h.drawn (draws_remove s key)).1, fun hdated e he => ?_, fun hle e he => ?_⟩
      · obtain rfl : old = e := Option.some.inj he
        exact (hdated _ (List.mem_append_right _ List.mem_cons_self)).created_le_updated
      · have hnow : old.created ≤ now := hle old rfl
        simp only [Option.toList_some, List.cons_append, List.nil_append, List.mem_cons,
          List.not_mem_nil, or_false, or_self] at he
        rcases he with rfl | rfl
        · exact hold
        · exact ⟨hnow, hnow⟩

theorem Dated.put (h : s.Dated) (key : K) (value : V) (attributes : Attributes)
    (expires : Option Nat) (now : Nat) (recordAccess : Bool) :
    s.KeepsDates (.put key value attributes expires now recordAccess) := by
  by_cases hadmits : s.admits attributes.size = true
  · obtain ⟨new, hmade, hnew, hold, hevicted, hentries⟩ :=
      put_of_admits hadmits key value expires now recordAccess
    have hdated : new.Dated := by
      rcases hmade with rfl | ⟨e, he, rfl⟩
      · exact Entry.dated_new key value attributes expires now
      · exact (h e he).rewritten value attributes expires now recordAccess
    have hall : ∀ e ∈ new :: s.entries, e.Dated := List.forall_mem_cons.2 ⟨hdated, h⟩
    refine ⟨fun e he => hall e (hentries he), iff_of_true (fun e he => ?_) ?_⟩
    · rcases List.mem_append.1 he with he | he
      · exact h e (hold he)
      · rcases List.mem_cons.1 he with rfl | he
        · exact hnew ▸ hdated
        · exact hall e (hevicted he)
    · rintro ⟨hrejects, -⟩
      rw [hadmits] at hrejects
      cases hrejects
  · obtain ⟨hdated, hiff⟩ := h.putOversized key value attributes expires now
    have hput : s.put key value attributes expires now recordAccess =
        s.putOversized key value attributes expires now := if_neg hadmits
    refine ⟨?_, ?_⟩
    · rwa [act, hput]
    · rw [handedOut, hput]
      refine hiff.trans ?_
      simp only [Backdates, hadmits, not_and, not_exists, true_implies, Nat.not_lt]

theorem Dated.keeps (h : s.Dated) (action : Action K V) : s.KeepsDates action := by
  have hdraws {action : Action K V} (hback : ¬s.Backdates action)
      (hdraws : Draws s (s.handedOut action) (s.act action)) : s.KeepsDates action :=
    ⟨(h.drawn hdraws).1, iff_of_true (h.drawn hdraws).2 hback⟩
  cases action with
  | put key value attributes expires now recordAccess =>
      exact h.put key value attributes expires now recordAccess
  | touch key now => exact h.touch key now
  | remove key => exact hdraws id (draws_remove s key)
  | removeIf condition => exact hdraws id (s.draws_removeIf condition)
  | clear => exact hdraws id (draws_clear s)
  | trimTo maxEntries maxVolume => exact hdraws id (draws_trimTo s maxEntries maxVolume)
  | setLimits maxEntries maxVolume =>
      have htrim := draws_trimTo { s with maxEntries := maxEntries, maxVolume := maxVolume }
        maxEntries maxVolume
      exact hdraws id ⟨htrim.handed_subset, htrim.entries_subset⟩

theorem Dated.run (h : s.Dated) (actions : List (Action K V)) : (s.run actions).Dated := by
  induction actions generalizing s with
  | nil => exact h
  | cons action actions ih => exact ih (h.keeps action).dated

/-- After any operations at any times, every entry of the store is dated, and so is every
entry that one more operation hands out, unless that is a write that can never fit at a time
before the creation of the entry it drops. -/
theorem run_dated (policy : Policy K) (maxEntries maxVolume : Nat) (walk : Walk (Slot K V))
    (actions : List (Action K V)) :
    let s := (Store.new policy maxEntries maxVolume walk).run actions
    s.Dated ∧ ∀ action, (∀ e ∈ s.handedOut action, e.Dated) ↔ ¬s.Backdates action := by
  have h := (dated_new policy maxEntries maxVolume walk).run actions
  exact ⟨h, fun action => (h.keeps action).handed_iff⟩

/-- A value that does not fit, written when the clock has moved back, is shown as written
before it was created. -/
theorem handedOut_backdated :
    let s := (new (PolicyChoice.build .lru) 9 5 : Store Nat Nat).run [.put 1 10 {} none 10 true]
    ∃ e ∈ s.handedOut (.put 1 11 { size := 9 } none 4 true),
      e.created = 10 ∧ e.updated = 4 ∧ ¬e.Dated := by
  refine ⟨_, List.mem_append_right _ List.mem_cons_self, rfl, rfl, fun hdated => ?_⟩
  exact absurd hdated.created_le_updated (by decide)

end Store

end BoundedCache
