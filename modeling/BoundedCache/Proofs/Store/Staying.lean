import BoundedCache.Proofs.Store.Clearing

/-!
# A write that stays

A write whose entry can be held at all should be there afterwards.  What could take it away
is the trim that follows it, and this cuts the sequence of victims (`Cuts`) no later than
where the others fit.

A key that is new is not in that sequence, whatever the policy: room is made before the
policy hears of it.  A key that was there is in the sequence, and may be first; under the
most recently used discipline a growing entry is its own victim.  By recency of use it comes
last (`LeastRecent.drain_rewrite`), also where the policy loses it on update and is given it
again.  If all others go, the entry is alone, and alone it fits: so the sequence is cut
before it (`Cuts.spared_last`), however much the entry has grown.
-/

namespace BoundedCache

namespace Policy

variable {α : Type} {p : Policy α} {i : Index} {element : α}

/-- The policy gives up the least recently used element first, which it may forget on
update. -/
def LeastRecent : Policy α → Prop
  | ordered p | forgetful p => p.discipline = .lru
  | _ => False

theorem LeastRecent.act (h : p.LeastRecent) (action : Action α) : (p.act action).LeastRecent := by
  cases p with
  | ordered p =>
      obtain ⟨p', hp', hdiscipline⟩ := act_ordered p action
      rw [hp']
      exact hdiscipline.trans h
  | forgetful p =>
      cases action with
      | touch i => exact (p.discipline_touch i).trans h
      | add | update | remove | evict | clear => exact h
  | frequency p | secondChance p | random p | stubborn p => exact h.elim

/-- The policy after a write of the element at `i`: where an update loses the element, it is
added again. -/
def rewrite (p : Policy α) (i : Index) (element : α) : Policy α :=
  if (p.update i element).1 = true then (p.update i element).2
  else ((p.update i element).2.add element).2

/-- Forgetting plays no part in who is given up. -/
theorem drain_forgetful (p : OrderedPolicy α) :
    (forgetful p).drain.1 = (ordered p).drain.1 := by
  have hvictims : ∀ fuel, ((forgetful p).victims fuel).1 = ((ordered p).victims fuel).1 := by
    intro fuel
    induction fuel generalizing p with
    | zero => rfl
    | succ fuel ih =>
        rw [victims, victims]
        rcases hanswer : p.evict with ⟨victim, after⟩
        simp only [evict, hanswer, Prod.map]
        cases victim with
        | none => rfl
        | some element => exact congrArg (element :: ·) (ih after)
  exact hvictims _

theorem ByRecency.drain_eq (h : p.ByRecency) : p.drain.1 = p.peekAll := by
  obtain ⟨chain, items, rfl, hitems⟩ := h
  exact (drain_ordered (p := { discipline := .lru, chain := chain }) ⟨items, hitems⟩).1

variable [DecidableEq α]

/-- What was written last is given up last. -/
theorem LeastRecent.drain_rewrite (h : p.LeastRecent) (hsound : p.Sound)
    (hnodup : p.peekAll.Nodup) (hi : p.peek? i = some element) :
    (p.rewrite i element).drain.1 = p.peekAll.erase element ++ [element] := by
  cases p with
  | ordered p =>
      obtain ⟨discipline, chain⟩ := p
      obtain rfl : discipline = .lru := h
      obtain ⟨items, hitems⟩ := hsound
      have hrecency : (ordered { discipline := .lru, chain := chain }).ByRecency :=
        ⟨chain, items, rfl, hitems⟩
      obtain ⟨hdone, hupdated, hlast⟩ := hrecency.update hnodup hi
      rw [rewrite, if_pos hdone, hupdated.drain_eq, hlast]
  | forgetful p =>
      obtain ⟨discipline, chain⟩ := p
      obtain rfl : discipline = .lru := h
      obtain ⟨items, hitems⟩ := hsound
      have hrecency : (ordered { discipline := .lru, chain := chain }).ByRecency :=
        ⟨chain, items, rfl, hitems⟩
      obtain ⟨hremoved, hothers⟩ := hrecency.remove hnodup hi
      obtain ⟨hadded, hlast⟩ := hremoved.add element
      calc ((forgetful { discipline := .lru, chain := chain }).rewrite i element).drain.1
          = (((ordered { discipline := .lru, chain := chain }).remove i).2.add element).2.drain.1 :=
            drain_forgetful _
        _ = (ordered { discipline := .lru, chain := chain }).peekAll.erase element ++
            [element] := by
            rw [hadded.drain_eq, hlast, hothers]
  | frequency p | secondChance p | random p | stubborn p => exact h.elim

end Policy

namespace Store

variable {K V : Type} [DecidableEq K] {s t : Store K V} {key : K} {slot : Slot K V}
variable {entries evicted : List (Entry K V)} {maxEntries maxVolume : Nat}

theorem policy_putPresent (s : Store K V) (slot : Slot K V) (value : V) (attributes : Attributes)
    (expires : Option Nat) (now : Nat) (recordAccess : Bool) :
    (s.putPresent slot value attributes expires now recordAccess).2.policy =
      s.policy.rewrite slot.index slot.entry.key := by
  rw [putPresent_eq]
  rfl

/-- An entry whose turn comes last of all, and that fits by itself, stays. -/
theorem Cuts.spared_last {new : Entry K V} {before : List K}
    (h : Cuts (new :: entries) (before ++ [key]) maxEntries maxVolume evicted t)
    (hkey : new.key = key) (hnew : key ∉ before) (hothers : ∀ e ∈ entries, e.key ∈ before)
    (hentries : 0 < maxEntries) (hvolume : new.size ≤ maxVolume) :
    ∀ e ∈ evicted, e.key ≠ key := by
  subst hkey
  have halone : survivors (new :: entries) before = [new] := by
    have hnone : survivors entries before = [] :=
      List.filter_eq_nil_iff.mpr fun e he => by simpa using hothers e he
    rw [survivors_cons_of_not_mem entries hnew, hnone]
  have hfits : Fits (new :: entries) maxEntries maxVolume before := by
    rw [Fits, halone]
    exact ⟨hentries, hvolume⟩
  have hlength := h.shortest.least before (List.prefix_append _ _) hfits
  have hlead : evicted.map (·.key) <+: before :=
    List.prefix_of_prefix_length_le h.shortest.begins (List.prefix_append _ _) hlength
  intro e he heq
  have hmem : e.key ∈ before := hlead.subset (List.mem_map_of_mem he)
  exact hnew (heq ▸ hmem)

/-- The entry that an admitted write makes of what there was. -/
def written (old : Option (Entry K V)) (key : K) (value : V) (attributes : Attributes)
    (expires : Option Nat) (now : Nat) (recordAccess : Bool) : Entry K V :=
  match old with
  | none => .new key value attributes expires now
  | some e => rewritten e value attributes expires now recordAccess

/-- The write leaves its entry in the store, and evicts others only. -/
structure Stays (s : Store K V) (key : K) (value : V) (attributes : Attributes)
    (expires : Option Nat) (now : Nat) (recordAccess : Bool) : Prop where
  new_eq : (s.put key value attributes expires now recordAccess).1.new =
    written (s.get? key) key value attributes expires now recordAccess
  present : (s.put key value attributes expires now recordAccess).2.get? key =
    some (written (s.get? key) key value attributes expires now recordAccess)
  spared : ∀ e ∈ (s.put key value attributes expires now recordAccess).1.evicted, e.key ≠ key

variable {value : V} {attributes : Attributes} {expires : Option Nat} {now : Nat}
variable {recordAccess : Bool}

/-- A write that does not evict its key leaves its entry. -/
theorem Agrees.stays (h : s.Agrees) (hadmits : s.admits attributes.size = true)
    (hspared : ∀ e ∈ (s.put key value attributes expires now recordAccess).1.evicted,
      e.key ≠ key) : s.Stays key value attributes expires now recordAccess := by
  have hnew : (s.put key value attributes expires now recordAccess).1.new =
      written (s.get? key) key value attributes expires now recordAccess := by
    rw [s.new_put]
    cases s.get? key with
    | none => rfl
    | some old => exact if_pos hadmits
  obtain ⟨-, -, hloses⟩ := h.exact.put key value attributes expires now recordAccess
  refine ⟨hnew, ?_, hspared⟩
  rw [hloses.after, if_neg, Function.update_self, hnew]
  intro hmem
  obtain ⟨e, he, hkey⟩ := List.mem_map.mp hmem
  exact hspared e he hkey

theorem Agrees.stays_of_absent (h : s.Agrees) (hyield : s.policy.Yielding)
    (hadmits : s.admits attributes.size = true) (hget : s.get? key = none) :
    s.Stays key value attributes expires now recordAccess := by
  have hslot : s.slot? key = none := by rwa [get?_eq_slot?, Option.map_eq_none_iff] at hget
  obtain ⟨-, hcuts⟩ :=
    h.put_cuts_of_absent hyield hadmits hslot value expires now recordAccess
  refine h.stays hadmits fun e he hkey => ?_
  have hmem := hcuts.shortest.begins.subset (List.mem_map_of_mem he)
  exact h.not_mem_drain hyield hget (hkey ▸ hmem)

/-- By recency of use the entry has its turn after all others. -/
theorem Agrees.stays_of_leastRecent (h : s.Agrees) (hrecent : s.policy.LeastRecent)
    (hyield : s.policy.Yielding) (hadmits : s.admits attributes.size = true)
    (hslot : s.slot? key = some slot) :
    s.Stays key value attributes expires now recordAccess := by
  obtain ⟨hmem, rfl⟩ := (slot?_eq_some h).mp hslot
  have hdrain := hrecent.drain_rewrite h.sound h.keys_nodup (h.peek?_index hmem)
  obtain ⟨-, hcuts⟩ := h.putPresent_cuts hyield hadmits hslot value expires now recordAccess
  rw [policy_putPresent, hdrain] at hcuts
  have hothers : ∀ e ∈ s.entries.filter (·.key ≠ slot.entry.key),
      e.key ∈ s.policy.peekAll.erase slot.entry.key := by
    intro e he
    obtain ⟨hentry, hne⟩ := List.mem_filter.mp he
    have hkey : e.key ∈ s.keys :=
      (h.mem_keys_iff e.key).mpr ⟨e, (h.mem_entries_iff e).mp hentry⟩
    exact (List.mem_erase_of_ne (by simpa using hne)).mpr hkey
  have hsize := size_rewritten slot.entry value attributes expires now recordAccess
  obtain ⟨hentries, hvolume⟩ : 0 < s.maxEntries ∧ attributes.size ≤ s.maxVolume := by
    simpa [admits] using hadmits
  exact h.stays hadmits (hcuts.spared_last (key_rewritten _ _ _ _ _ _) h.keys_nodup.not_mem_erase
    hothers hentries (hsize.symm ▸ hvolume))

/-- After every run over a policy that yields, a write that can be held at all stays if its
key is new; by recency of use it stays in any case.  So under the default policy every write
stays that would be there after it if the store were empty. -/
theorem run_stays {p : Policy K} (hstart : p.Starts) (hyield : p.Yielding)
    (maxEntries maxVolume : Nat) (walk : Walk (Slot K V)) (actions : List (Action K V)) :
    let s := (new p maxEntries maxVolume walk).run actions
    (∀ key value attributes expires now recordAccess, s.admits attributes.size = true →
      s.get? key = none ∨ p.LeastRecent →
      s.Stays key value attributes expires now recordAccess) ∧
    (p = PolicyChoice.build default →
      ∀ key value attributes expires now recordAccess,
        let alone := new p s.maxEntries s.maxVolume walk
        (alone.put key value attributes expires now recordAccess).2.contains key = true →
        s.Stays key value attributes expires now recordAccess) := by
  intro s
  obtain ⟨h, hyields⟩ := (agrees_new hstart maxEntries maxVolume walk).run actions
  have hstays : ∀ key value attributes expires now recordAccess,
      s.admits attributes.size = true → s.get? key = none ∨ p.LeastRecent →
      s.Stays key value attributes expires now recordAccess := by
    intro key value attributes expires now recordAccess hadmits hcase
    cases hslot : s.slot? key with
    | none => exact h.stays_of_absent (hyields hyield) hadmits (get?_of_slot? hslot)
    | some slot =>
        have hget : s.get? key = some slot.entry := get?_of_slot? hslot
        have hrecent : s.policy.LeastRecent :=
          (reaches_run (new p maxEntries maxVolume walk) actions).keeps
            (fun _ action hp => hp.act action) (hcase.resolve_left (by simp [hget]))
        exact h.stays_of_leastRecent hrecent (hyields hyield) hadmits hslot
  refine ⟨hstays, ?_⟩
  rintro rfl key value attributes expires now recordAccess alone hcontains
  refine hstays key value attributes expires now recordAccess ?_ (.inr rfl)
  -- what cannot be held at all leaves an empty store empty
  by_contra hadmits
  have hrefused : ¬ alone.admits attributes.size = true := hadmits
  have hput : (alone.put key value attributes expires now recordAccess).2 = alone := by
    rw [put, if_neg hrefused]
    rfl
  rw [hput] at hcontains
  exact Bool.false_ne_true hcontains

/-- The theorem at a store over the default policy, in which the entry next in turn grows until
it takes all the room. -/
theorem run_stays_growth :
    let s := (new (PolicyChoice.build default) 3 10 : Store Nat Nat).run
      [.put 1 10 { size := 3 } none 0 true, .put 2 20 { size := 4 } none 1 true,
        .put 3 30 { size := 2 } none 2 true]
    s.policy.drain.1 = [1, 2, 3] ∧
      (s.put 1 11 { size := 10 } none 3 true).1.evicted.map (·.key) = [2, 3] ∧
      s.Stays 1 11 { size := 10 } none 3 true ∧ s.Stays 4 40 { size := 10 } none 3 true :=
  ⟨by decide +kernel, by decide +kernel,
    (run_stays (.builtIn default) trivial 3 10 .plain _).2 rfl 1 11 { size := 10 } none 3 true
      (by decide +kernel),
    (run_stays (.builtIn default) trivial 3 10 .plain _).1 4 40 { size := 10 } none 3 true
      (by decide +kernel) (.inl (by decide +kernel))⟩

/-- Under the most recently used discipline the entry that has grown is the first to go. -/
example :
    let s := (new (PolicyChoice.build .mru) 3 10 : Store Nat Nat).run
      [.put 1 10 { size := 3 } none 0 true, .put 2 20 { size := 4 } none 1 true]
    (s.put 1 11 { size := 10 } none 3 true).1.evicted.map (·.key) = [1] := by
  decide +kernel

end Store

end BoundedCache
