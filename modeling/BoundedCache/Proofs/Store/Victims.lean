import BoundedCache.Proofs.Policy.Drain
import BoundedCache.Proofs.Store.Recency

/-!
# No more victims than needed

A policy by itself fixes the sequence of its victims, `drain`.  A store that is beyond some
limits cuts this sequence off where the others fit, and not later: what is evicted is the
shortest beginning of the sequence that is enough (`Shortest`, `Cuts`).

For a trim this is an induction along its loop (`Agrees.trimTo_cuts`).  A write to a key
that is there is a trim after the entry has been replaced.  A write to a new key trims
before the entry comes in, to limits lowered by that entry; since the entry fits by itself,
these are limits for the same thing, and the trim after the write finds nothing to do.
-/

namespace BoundedCache

/-! ## Shortest beginnings -/

section

variable {α : Type} {enough enough' : List α → Prop} {sequence lead : List α} {x : α}

/-- The shortest beginning of the sequence that is enough. -/
structure Shortest (enough : List α → Prop) (sequence lead : List α) : Prop where
  begins : lead <+: sequence
  holds : enough lead
  least : ∀ other, other <+: sequence → enough other → lead.length ≤ other.length

theorem Shortest.nil (h : enough []) : Shortest enough sequence [] :=
  ⟨⟨sequence, rfl⟩, h, fun _ _ _ => Nat.zero_le _⟩

theorem Shortest.eq_nil (h : Shortest enough sequence lead) (hnil : enough []) : lead = [] :=
  List.eq_nil_of_length_eq_zero (Nat.le_zero.mp (h.least [] ⟨sequence, rfl⟩ hnil))

theorem Shortest.cons (h : Shortest (fun gone => enough (x :: gone)) sequence lead)
    (hnil : ¬ enough []) : Shortest enough (x :: sequence) (x :: lead) where
  begins := List.cons_prefix_cons.mpr ⟨rfl, h.begins⟩
  holds := h.holds
  least other hother henough := by
    rcases List.prefix_cons_iff.mp hother with rfl | ⟨rest, rfl, hrest⟩
    · exact absurd henough hnil
    · exact Nat.succ_le_succ (h.least rest hrest henough)

/-- Only what is enough of the sequence itself matters. -/
theorem Shortest.congr (h : Shortest enough sequence lead)
    (hiff : ∀ gone, gone <+: sequence → (enough gone ↔ enough' gone)) :
    Shortest enough' sequence lead :=
  ⟨h.begins, (hiff lead h.begins).mp h.holds,
    fun other hother henough => h.least other hother ((hiff other hother).mpr henough)⟩

end

/-! ## The policy of a store -/

namespace Policy

variable {α : Type} {p p' p'' : Policy α}

/-- Operations lead from one policy to the other. -/
def Reaches (p p' : Policy α) : Prop := ∃ actions, p.run actions = p'

theorem Reaches.refl (p : Policy α) : p.Reaches p := ⟨[], rfl⟩

theorem reaches_act (p : Policy α) (action : Action α) : p.Reaches (p.act action) :=
  ⟨[action], rfl⟩

theorem Reaches.trans (h : p.Reaches p') (h' : p'.Reaches p'') : p.Reaches p'' := by
  obtain ⟨actions, rfl⟩ := h
  obtain ⟨actions', rfl⟩ := h'
  exact ⟨actions ++ actions', List.foldl_append⟩

/-- What every operation keeps is kept on the way. -/
theorem Reaches.keeps {Keeps : Policy α → Prop} (h : p.Reaches p')
    (hact : ∀ p action, Keeps p → Keeps (p.act action)) (hp : Keeps p) : Keeps p' := by
  obtain ⟨actions, rfl⟩ := h
  induction actions generalizing p with
  | nil => exact hp
  | cons action actions ih => exact ih (hact p action hp)

end Policy

namespace Store

variable {K V : Type} [DecidableEq K] {s t : Store K V} {key : K} {slot : Slot K V}

theorem reaches_remove (s : Store K V) (key : K) : s.policy.Reaches (s.remove key).2.policy := by
  rw [remove]
  cases s.slot? key with
  | none => exact .refl _
  | some slot => exact s.policy.reaches_act (.remove slot.index)

theorem reaches_removeKeys (s : Store K V) (keys : List K) :
    s.policy.Reaches (s.removeKeys keys).2.policy := by
  induction keys generalizing s with
  | nil => exact .refl _
  | cons key keys ih => exact (s.reaches_remove key).trans (ih _)

theorem reaches_evictLoop (s : Store K V) (fuel : Nat) :
    s.policy.Reaches (evictLoop fuel s).2.policy := by
  induction fuel generalizing s with
  | zero => exact .refl _
  | succ fuel ih =>
      have hevict := s.policy.reaches_act .evict
      rw [Policy.act] at hevict
      rw [evictLoop]
      rcases hanswer : s.policy.evict with ⟨victim, policy⟩
      rw [hanswer] at hevict
      cases victim with
      | none => exact hevict
      | some key =>
          dsimp only
          cases s.slot? key with
          | none => exact hevict.trans (ih { s with policy := policy })
          | some slot => exact hevict

theorem reaches_trimLoop (s : Store K V) (maxEntries maxVolume fuel : Nat) :
    s.policy.Reaches (trimLoop maxEntries maxVolume fuel s).2.policy := by
  induction fuel generalizing s with
  | zero => exact .refl _
  | succ fuel ih =>
      have hone := reaches_evictLoop s (s.policy.size + 1)
      rw [trimLoop]
      split
      · rw [evictOne]
        rcases hanswer : evictLoop (s.policy.size + 1) s with ⟨victim, t⟩
        rw [hanswer] at hone
        cases victim with
        | none => exact hone
        | some e => exact hone.trans (ih t)
      · exact .refl _

theorem reaches_trimTo (s : Store K V) (maxEntries maxVolume : Nat) :
    s.policy.Reaches (s.trimTo maxEntries maxVolume).2.policy :=
  s.reaches_trimLoop maxEntries maxVolume _

omit [DecidableEq K] in
theorem reaches_appended (s : Store K V) (e : Entry K V) :
    s.policy.Reaches (s.appended e).policy :=
  s.policy.reaches_act (.add e.key)

theorem reaches_putPresent (s : Store K V) (slot : Slot K V) (value : V) (attributes : Attributes)
    (expires : Option Nat) (now : Nat) (recordAccess : Bool) :
    s.policy.Reaches (s.putPresent slot value attributes expires now recordAccess).2.policy := by
  rw [putPresent_eq]
  have hupdate := s.policy.reaches_act (.update slot.index slot.entry.key)
  dsimp only
  split
  · exact hupdate
  · exact hupdate.trans (Policy.reaches_act _ (.add slot.entry.key))

/-- Whatever a store does, its policy has gone through operations of its own. -/
theorem reaches_act (s : Store K V) (action : Action K V) :
    s.policy.Reaches (s.act action).policy := by
  cases action with
  | put key value attributes expires now recordAccess =>
      rw [act, put]
      split
      · cases s.slot? key with
        | some slot =>
            exact (s.reaches_putPresent slot value attributes expires now recordAccess).trans
              (reaches_trimTo _ _ _)
        | none =>
            simp only [putAbsent_eq]
            exact ((s.reaches_trimTo _ _).trans (reaches_appended _ _)).trans (reaches_trimTo _ _ _)
      · exact s.reaches_remove key
  | touch key now =>
      rw [act, touch]
      cases s.slot? key with
      | none => exact .refl _
      | some slot => exact s.policy.reaches_act (.touch slot.index)
  | remove key => exact s.reaches_remove key
  | removeIf condition => exact reaches_removeKeys { s with walks := s.walks + 1 } _
  | clear => exact s.policy.reaches_act .clear
  | trimTo maxEntries maxVolume => exact s.reaches_trimTo _ _
  | setLimits maxEntries maxVolume =>
      exact reaches_trimTo { s with maxEntries := maxEntries, maxVolume := maxVolume } _ _

theorem reaches_run (s : Store K V) (actions : List (Action K V)) :
    s.policy.Reaches (s.run actions).policy := by
  induction actions generalizing s with
  | nil => exact .refl _
  | cons action actions ih => exact (s.reaches_act action).trans (ih _)

/-! ## Cutting the sequence of victims -/

/-- The entries whose keys are not gone. -/
def survivors (entries : List (Entry K V)) (gone : List K) : List (Entry K V) :=
  entries.filter fun e => e.key ∉ gone

/-- The entries whose keys are not gone are within the limits. -/
def Fits (entries : List (Entry K V)) (maxEntries maxVolume : Nat) (gone : List K) : Prop :=
  (survivors entries gone).length ≤ maxEntries ∧ total (survivors entries gone) ≤ maxVolume

/-- Of these entries, some were evicted to bring the others within the limits: those of the
shortest beginning of the sequence of victims that is enough. -/
structure Cuts (entries : List (Entry K V)) (victims : List K) (maxEntries maxVolume : Nat)
    (evicted : List (Entry K V)) (t : Store K V) : Prop where
  held : evicted ⊆ entries
  shortest : Shortest (Fits entries maxEntries maxVolume) victims (evicted.map (·.key))
  left : t.entries.Perm (survivors entries (evicted.map (·.key)))

variable {entries entries' evicted : List (Entry K V)} {victims gone : List K}
variable {maxEntries maxVolume : Nat}

@[simp] theorem survivors_nil (entries : List (Entry K V)) : survivors entries [] = entries := by
  simp [survivors]

theorem survivors_cons (entries : List (Entry K V)) (key : K) (gone : List K) :
    survivors entries (key :: gone) = survivors (entries.filter (·.key ≠ key)) gone := by
  rw [survivors, survivors, List.filter_filter]
  refine List.filter_congr fun e _ => ?_
  simp [not_or, Bool.and_comm]

theorem survivors_perm (hperm : entries.Perm entries') (gone : List K) :
    (survivors entries gone).Perm (survivors entries' gone) :=
  hperm.filter _

theorem fits_perm (hperm : entries.Perm entries') :
    Fits entries maxEntries maxVolume gone ↔ Fits entries' maxEntries maxVolume gone := by
  have hsurvivors := survivors_perm hperm gone
  rw [Fits, Fits, hsurvivors.length_eq, total_perm hsurvivors]

theorem Cuts.perm (h : Cuts entries victims maxEntries maxVolume evicted t)
    (hperm : entries.Perm entries') : Cuts entries' victims maxEntries maxVolume evicted t where
  held := List.Subset.trans h.held hperm.subset
  shortest := h.shortest.congr fun _ _ => fits_perm hperm
  left := h.left.trans (survivors_perm hperm _)

/-- The first victim is evicted, unless all entries fit, and the others are cut as before. -/
theorem Cuts.cons {e : Entry K V}
    (h : Cuts (entries.filter (·.key ≠ e.key)) victims maxEntries maxVolume evicted t)
    (hmem : e ∈ entries) (hfits : ¬ Fits entries maxEntries maxVolume []) :
    Cuts entries (e.key :: victims) maxEntries maxVolume (e :: evicted) t where
  held := List.cons_subset.mpr ⟨hmem, List.Subset.trans h.held List.filter_sublist.subset⟩
  shortest := by
    refine Shortest.cons (h.shortest.congr fun gone _ => ?_) hfits
    rw [Fits, Fits, survivors_cons]
  left := by
    rw [List.map_cons, survivors_cons]
    exact h.left

/-- Entries that fit all stay. -/
theorem Cuts.eq_nil (h : Cuts entries victims maxEntries maxVolume evicted t)
    (hfits : Fits entries maxEntries maxVolume []) : evicted = [] :=
  List.map_eq_nil_iff.mp (h.shortest.eq_nil hfits)

theorem Agrees.fits_nil (h : s.Agrees) :
    Fits s.entries maxEntries maxVolume [] ↔ s.exceeds maxEntries maxVolume = false := by
  rw [exceeds_eq_false, Fits, survivors_nil, h.volume_eq, entries, List.length_map]
  rfl

omit [DecidableEq K] in
/-- The policy gives up the keys of all entries. -/
theorem Agrees.drain_perm (h : s.Agrees) (hyield : s.policy.Yielding) :
    s.policy.drain.1.Perm (s.entries.map (·.key)) := by
  have hperm := (h.sound.lists_drain hyield).perm h.indexed.lists
  rw [byIndex, List.map_map] at hperm
  rw [Store.entries, List.map_map]
  exact hperm

/-- A key without an entry is never given up. -/
theorem Agrees.not_mem_drain (h : s.Agrees) (hyield : s.policy.Yielding)
    (hget : s.get? key = none) : key ∉ s.policy.drain.1 := by
  rw [(h.drain_perm hyield).mem_iff]
  intro hmem
  obtain ⟨e, he, hkey⟩ := List.mem_map.mp hmem
  have hfound := (h.mem_entries_iff e).mp he
  rw [hkey, hget] at hfound
  exact Option.some_ne_none e hfound.symm

theorem entries_without (slots : List (Slot K V)) (key : K) :
    (without slots key).map (·.entry) = (slots.map (·.entry)).filter (·.key ≠ key) := by
  rw [without, List.filter_map]
  rfl

/-- The victim is an entry, and the others are those of the other keys. -/
theorem Agrees.evictOne_entries (h : s.Agrees) {e : Entry K V} (hone : s.evictOne.1 = some e) :
    e ∈ s.entries ∧ s.evictOne.2.entries = s.entries.filter (·.key ≠ e.key) := by
  obtain ⟨hyields, -, -⟩ := h.sound.evict
  rcases hanswer : s.policy.evict with ⟨victim, policy⟩
  rw [hanswer] at hyields
  rw [Store.evictOne, Store.evictLoop, hanswer] at hone ⊢
  cases victim with
  | none => exact absurd hone (Option.some_ne_none e).symm
  | some key =>
      obtain ⟨i, hi, -⟩ := hyields.of_some
      obtain ⟨slot, hmem, -, rfl⟩ := h.exists_slot hi
      have hslot : s.slot? slot.entry.key = some slot := (slot?_eq_some h).mpr ⟨hmem, rfl⟩
      simp only [hslot, Option.some.injEq] at hone ⊢
      subst hone
      exact ⟨List.mem_map_of_mem hmem, entries_without s.slots slot.entry.key⟩

/-- A store beyond its limits has an entry to evict. -/
theorem Agrees.exists_evictOne (h : s.Agrees) (hyield : s.policy.Yielding)
    (hexceeds : s.exceeds maxEntries maxVolume = true) : ∃ e, s.evictOne.1 = some e := by
  refine Option.isSome_iff_exists.mp (h.evictOne.2 hyield fun hsize => ?_)
  have hslots : s.slots = [] := List.eq_nil_of_length_eq_zero hsize
  have hvolume : s.volume = 0 := by
    rw [h.volume_eq, entries, hslots]
    rfl
  have hfits : s.exceeds maxEntries maxVolume = false :=
    exceeds_eq_false.mpr ⟨hsize ▸ Nat.zero_le _, hvolume ▸ Nat.zero_le _⟩
  rw [hfits] at hexceeds
  exact Bool.false_ne_true hexceeds

theorem Agrees.trimLoop_cuts (h : s.Agrees) (hyield : s.policy.Yielding)
    (maxEntries maxVolume : Nat) {fuel : Nat} (hfuel : s.size < fuel) :
    Cuts s.entries s.policy.drain.1 maxEntries maxVolume
      (Store.trimLoop maxEntries maxVolume fuel s).1
      (Store.trimLoop maxEntries maxVolume fuel s).2 := by
  induction fuel generalizing s with
  | zero => exact absurd hfuel (Nat.not_lt_zero _)
  | succ fuel ih =>
      rw [Store.trimLoop]
      by_cases hexceeds : s.exceeds maxEntries maxVolume = true
      · rw [if_pos hexceeds]
        obtain ⟨e, hone⟩ := h.exists_evictOne hyield hexceeds
        obtain ⟨hmem, hothers⟩ := h.evictOne_entries hone
        obtain ⟨hvictim, hpolicy⟩ := h.evictOne_policy
        obtain ⟨hsheds, -⟩ := h.evictOne
        have hsize := hsheds.size_eq
        rw [hone] at hvictim hsize
        have hrest := ih hsheds.agrees (hsheds.moves.yielding hyield) (by
          simp only [Option.toList_some, List.length_cons, List.length_nil] at hsize
          omega)
        rw [hothers, hpolicy] at hrest
        rw [h.sound.drain_of_some hvictim.symm, show s.evictOne = (some e, s.evictOne.2) from
          Prod.ext hone rfl]
        refine hrest.cons hmem fun hfits => ?_
        rw [h.fits_nil.mp hfits] at hexceeds
        exact Bool.false_ne_true hexceeds
      · rw [if_neg hexceeds]
        have hfits := h.fits_nil.mpr (Bool.eq_false_iff.mpr hexceeds)
        exact ⟨List.nil_subset _, .nil hfits, by rw [List.map_nil, survivors_nil]⟩

theorem Agrees.trimTo_cuts (h : s.Agrees) (hyield : s.policy.Yielding)
    (maxEntries maxVolume : Nat) :
    Cuts s.entries s.policy.drain.1 maxEntries maxVolume (s.trimTo maxEntries maxVolume).1
      (s.trimTo maxEntries maxVolume).2 :=
  h.trimLoop_cuts hyield maxEntries maxVolume (Nat.lt_succ_self _)

theorem trimTo_of_not_exceeds (h : s.exceeds maxEntries maxVolume = false) :
    s.trimTo maxEntries maxVolume = ([], s) := by
  rw [trimTo, trimLoop, h]
  rfl

/-! ## Writes -/

/-- The sequence of victims for a write of `key`: that of the policy, which has updated the
key before if it is there. -/
def victimsOf (s : Store K V) (key : K) : List K :=
  match s.index? key with
  | none => s.policy.drain.1
  | some i => (s.policy.update i key).2.drain.1

theorem survivors_cons_of_not_mem (entries : List (Entry K V)) {new : Entry K V}
    (hnew : new.key ∉ gone) :
    survivors (new :: entries) gone = new :: survivors entries gone :=
  List.filter_cons_of_pos (by simpa using hnew)

/-- A new entry of some key that is not a victim comes in where there is room for it. -/
theorem Cuts.appended {new : Entry K V} {room : Store K V}
    (h : Cuts entries victims (maxEntries - 1) (maxVolume - new.size) evicted room)
    (hnew : new.key ∉ victims) (hentries : 0 < maxEntries) (hvolume : new.size ≤ maxVolume) :
    Cuts (new :: entries) victims maxEntries maxVolume evicted (room.appended new) where
  held := List.subset_cons_of_subset _ h.held
  shortest := h.shortest.congr fun gone hgone => by
    have hstays := survivors_cons_of_not_mem entries fun hmem => hnew (hgone.subset hmem)
    rw [Fits, Fits, hstays, List.length_cons, total_cons]
    omega
  left := by
    rw [survivors_cons_of_not_mem entries fun hmem => hnew (h.shortest.begins.subset hmem)]
    have happended : (room.appended new).entries = room.entries ++ [new] := List.map_append
    rw [happended]
    exact (List.perm_append_singleton new room.entries).trans (h.left.cons new)

variable {attributes : Attributes}

theorem Agrees.put_cuts_of_absent (h : s.Agrees) (hyield : s.policy.Yielding)
    (hadmits : s.admits attributes.size = true) (hslot : s.slot? key = none) (value : V)
    (expires : Option Nat) (now : Nat) (recordAccess : Bool) :
    let new := Entry.new key value attributes expires now
    let r := s.put key value attributes expires now recordAccess
    r.1.new = new ∧
      Cuts (new :: s.entries) s.policy.drain.1 s.maxEntries s.maxVolume r.1.evicted r.2 := by
  intro new
  have hmoves : Moves _ [new] [] (Store.appended _ new) :=
    (h.appendedInRoom hslot value attributes expires now).2.1
  obtain ⟨hentries, hvolume⟩ : 0 < s.maxEntries ∧ attributes.size ≤ s.maxVolume := by
    simpa [admits] using hadmits
  have hnew : new.key ∉ s.policy.drain.1 := h.not_mem_drain hyield (get?_of_slot? hslot)
  have hcuts := h.trimTo_cuts hyield (s.maxEntries - 1) (s.maxVolume - new.size)
  have hwritten := hcuts.appended hnew hentries hvolume
  -- the entry comes in where it leaves the store within the limits, so nothing follows it
  have hidle : ((s.trimTo (s.maxEntries - 1) (s.maxVolume - attributes.size)).2.appended
      new).exceeds s.maxEntries s.maxVolume = false := by
    obtain ⟨hsize, htotal⟩ :=
      h.trimTo_within hyield (s.maxEntries - 1) (s.maxVolume - attributes.size)
    have hsizes := hmoves.size_eq
    have hvolumes := hmoves.volume_eq
    simp only [List.length_nil, List.length_singleton, total_nil, total_cons] at hsizes hvolumes
    have hnewSize : new.size = attributes.size := rfl
    rw [exceeds_eq_false]
    omega
  rw [h.put_of_absent hadmits hslot, trimTo_of_not_exceeds hidle, List.append_nil]
  exact ⟨rfl, hwritten⟩

theorem Agrees.entries_putPresent (h : s.Agrees) (hslot : s.slot? key = some slot) (value : V)
    (attributes : Attributes) (expires : Option Nat) (now : Nat) (recordAccess : Bool) :
    (s.putPresent slot value attributes expires now recordAccess).2.entries.Perm
      (rewritten slot.entry value attributes expires now recordAccess ::
        s.entries.filter (·.key ≠ key)) := by
  obtain ⟨hmem, rfl⟩ := (slot?_eq_some h).mp hslot
  rw [putPresent_eq]
  refine ((h.distinct.perm_replacing hmem (key_rewritten _ _ _ _ _ _)).map _).trans ?_
  exact List.Perm.of_eq (congrArg (_ :: ·) (entries_without s.slots slot.entry.key))

/-- A write to a key that is there cuts the victims of the policy that has taken note of it. -/
theorem Agrees.putPresent_cuts (h : s.Agrees) (hyield : s.policy.Yielding)
    (hadmits : s.admits attributes.size = true) (hslot : s.slot? key = some slot) (value : V)
    (expires : Option Nat) (now : Nat) (recordAccess : Bool) :
    let new := rewritten slot.entry value attributes expires now recordAccess
    let noted := (s.putPresent slot value attributes expires now recordAccess).2.policy
    let r := s.put key value attributes expires now recordAccess
    r.1.new = new ∧
      Cuts (new :: s.entries.filter (·.key ≠ key)) noted.drain.1 s.maxEntries s.maxVolume
        r.1.evicted r.2 := by
  intro new noted r
  obtain ⟨-, hmoves, -⟩ := h.putPresent hslot value attributes expires now recordAccess
  have hcuts := hmoves.agrees.trimTo_cuts (hmoves.yielding hyield) s.maxEntries s.maxVolume
  have hentries := h.entries_putPresent hslot value attributes expires now recordAccess
  rw [show r = _ from put_of_present hadmits hslot]
  refine ⟨?_, hcuts.perm hentries⟩
  rw [putPresent_eq]

theorem Agrees.put_cuts_of_present (h : s.Agrees) (hbuiltIn : s.policy.BuiltIn)
    (hadmits : s.admits attributes.size = true) (hslot : s.slot? key = some slot) (value : V)
    (expires : Option Nat) (now : Nat) (recordAccess : Bool) :
    let new := rewritten slot.entry value attributes expires now recordAccess
    let r := s.put key value attributes expires now recordAccess
    r.1.new = new ∧
      Cuts (new :: s.entries.filter (·.key ≠ key)) (s.policy.update slot.index key).2.drain.1
        s.maxEntries s.maxVolume r.1.evicted r.2 := by
  obtain ⟨hmem, rfl⟩ := (slot?_eq_some h).mp hslot
  have hdone : (s.policy.update slot.index slot.entry.key).1 = true := by
    rw [(h.sound.replaces hbuiltIn slot.index slot.entry.key).answer, h.peek?_index hmem]
    rfl
  have hpolicy : (s.putPresent slot value attributes expires now recordAccess).2.policy =
      (s.policy.update slot.index slot.entry.key).2 := by
    rw [putPresent_eq]
    exact if_pos hdone
  have hcuts := h.putPresent_cuts hbuiltIn.yielding hadmits hslot value expires now recordAccess
  rw [hpolicy] at hcuts
  exact hcuts

theorem Agrees.put_cuts (h : s.Agrees) (hbuiltIn : s.policy.BuiltIn)
    (hadmits : s.admits attributes.size = true) (key : K) (value : V) (expires : Option Nat)
    (now : Nat) (recordAccess : Bool) :
    let r := s.put key value attributes expires now recordAccess
    r.1.new.key = key ∧ r.1.new.size = attributes.size ∧
      Cuts (r.1.new :: s.entries.filter (·.key ≠ key)) (s.victimsOf key) s.maxEntries s.maxVolume
        r.1.evicted r.2 := by
  intro r
  cases hslot : s.slot? key with
  | some slot =>
      obtain ⟨-, hkey⟩ := (slot?_eq_some h).mp hslot
      obtain ⟨hnew, hcuts⟩ :=
        h.put_cuts_of_present hbuiltIn hadmits hslot value expires now recordAccess
      have hvictims : s.victimsOf key = (s.policy.update slot.index key).2.drain.1 := by
        rw [victimsOf, index?, hslot]
        rfl
      rw [hvictims, show r.1.new = _ from hnew]
      exact ⟨(key_rewritten _ _ _ _ _ _).trans hkey, size_rewritten _ _ _ _ _ _, hcuts⟩
  | none =>
      obtain ⟨hnew, hcuts⟩ :=
        h.put_cuts_of_absent hbuiltIn.yielding hadmits hslot value expires now recordAccess
      have hvictims : s.victimsOf key = s.policy.drain.1 := by
        rw [victimsOf, index?, hslot]
        rfl
      have hothers : s.entries.filter (·.key ≠ key) = s.entries := by
        refine List.filter_eq_self.mpr fun e he => ?_
        rw [decide_eq_true_iff]
        rintro rfl
        have hfound := (h.mem_entries_iff e).mp he
        rw [get?_of_slot? hslot] at hfound
        exact absurd hfound (by simp)
      rw [hvictims, hothers, show r.1.new = _ from hnew]
      exact ⟨rfl, rfl, hcuts⟩

/-- After every run over a built-in policy, a write that can fit evicts the shortest
beginning of the sequence of victims that makes room for it, and nothing if there is room;
trimming, and a change of the limits, evict the shortest beginning that brings the store
within the limits asked for.  Only a change of the limits changes them. -/
theorem run_cuts {p : Policy K} (hstart : p.Starts) (hbuiltIn : p.BuiltIn)
    (maxEntries maxVolume : Nat) (walk : Walk (Slot K V)) (actions : List (Action K V)) :
    let s := (new p maxEntries maxVolume walk).run actions
    (∀ key value attributes expires now recordAccess,
      0 < s.maxEntries → attributes.size ≤ s.maxVolume →
      let r := s.put key value attributes expires now recordAccess
      let entries := r.1.new :: s.entries.filter (·.key ≠ key)
      r.1.new.key = key ∧ r.1.new.size = attributes.size ∧
        Cuts entries (s.victimsOf key) s.maxEntries s.maxVolume r.1.evicted r.2 ∧
        (Fits entries s.maxEntries s.maxVolume [] → r.1.evicted = [])) ∧
      (∀ entries volume,
        let r := s.trimTo entries volume
        Cuts s.entries s.policy.drain.1 entries volume r.1 r.2 ∧
          r.2.maxEntries = s.maxEntries ∧ r.2.maxVolume = s.maxVolume) ∧
      ∀ entries volume,
        let r := s.setLimits entries volume
        Cuts s.entries s.policy.drain.1 entries volume r.1 r.2 ∧
          r.2.maxEntries = entries ∧ r.2.maxVolume = volume := by
  intro s
  have h : s.Agrees := ((agrees_new hstart maxEntries maxVolume walk).run actions).1
  have hreached : s.policy.BuiltIn :=
    (reaches_run (new p maxEntries maxVolume walk) actions).keeps (fun _ action h => h.act action)
      hbuiltIn
  refine ⟨fun key value attributes expires now recordAccess hentries hvolume => ?_,
    fun entries volume => ?_, fun entries volume => ?_⟩
  · have hadmits : s.admits attributes.size = true := by
      rw [admits, decide_eq_true hentries, decide_eq_true hvolume]
      rfl
    obtain ⟨hkey, hsize, hcuts⟩ :=
      h.put_cuts hreached hadmits key value expires now recordAccess
    exact ⟨hkey, hsize, hcuts, hcuts.eq_nil⟩
  · have hmoves := (h.trimTo entries volume).moves
    exact ⟨h.trimTo_cuts hreached.yielding entries volume, hmoves.maxEntries_eq,
      hmoves.maxVolume_eq⟩
  · have hmoves := (h.setLimits entries volume).moves
    exact ⟨(h.withLimits entries volume).trimTo_cuts hreached.yielding entries volume,
      hmoves.maxEntries_eq, hmoves.maxVolume_eq⟩

/-- The theorem at a store over the least recently used policy, in which the first entry
grows by so much that the one next in turn must leave. -/
theorem run_cuts_growth :
    let s := (new (PolicyChoice.build .lru) 3 10 : Store Nat Nat).run
      [.put 1 10 { size := 3 } none 0 true, .put 2 20 { size := 4 } none 1 true,
        .put 3 30 { size := 2 } none 2 true]
    let r := s.put 1 11 { size := 8 } none 3 true
    s.victimsOf 1 = [2, 3, 1] ∧ r.1.evicted.map (·.key) = [2] ∧
      Cuts (r.1.new :: s.entries.filter (·.key ≠ 1)) (s.victimsOf 1) s.maxEntries s.maxVolume
        r.1.evicted r.2 :=
  ⟨by decide +kernel, by decide +kernel,
    ((run_cuts (.builtIn .lru) trivial 3 10 .plain _).1 1 11 { size := 8 } none 3 true
      (by decide +kernel) (by decide +kernel)).2.2.1⟩

end Store

end BoundedCache
