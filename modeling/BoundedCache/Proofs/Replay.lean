import BoundedCache.Transaction
import BoundedCache.Proofs.Store.Operations

/-!
# Replaying events

A listener that keeps a map of its own can follow the cache: `Replay f events g` says
that the events can be carried out on the map `f`, one after the other, and lead to `g`.
An entry comes in only where there was none, and leaves only as it was.

What a store reports can be replayed on its `contents`.  For entries that leave this is
`Takes`; for a write it has to be shown that the order of the events is a possible one,
with the new entry coming in after all victims but itself (`Writes.replay`).
-/

namespace BoundedCache

variable {K V : Type} {events later : List (Event K V)}

/-! ## Counting events -/

/-- Whether an entry comes in. -/
def Event.isEnter : Event K V → Bool
  | .enter .. => true
  | .leave .. => false

/-- Whether an entry leaves. -/
def Event.isLeave : Event K V → Bool
  | .enter .. => false
  | .leave .. => true

/-- The number of entries that come in. -/
def enters (events : List (Event K V)) : Nat := events.countP Event.isEnter

/-- The number of entries that leave. -/
def leaves (events : List (Event K V)) : Nat := events.countP Event.isLeave

@[simp] theorem enters_nil : enters ([] : List (Event K V)) = 0 := rfl

@[simp] theorem leaves_nil : leaves ([] : List (Event K V)) = 0 := rfl

@[simp] theorem enters_append : enters (events ++ later) = enters events + enters later :=
  List.countP_append

@[simp] theorem leaves_append : leaves (events ++ later) = leaves events + leaves later :=
  List.countP_append

@[simp] theorem enters_enter (key : K) (value : V) (origin : Origin) :
    enters (.enter key value origin :: events) = enters events + 1 :=
  List.countP_cons_of_pos rfl

@[simp] theorem enters_leave (reason : Reason) (key : K) (value : V) :
    enters (.leave reason key value :: events) = enters events :=
  List.countP_cons_of_neg Bool.false_ne_true

@[simp] theorem leaves_enter (key : K) (value : V) (origin : Origin) :
    leaves (.enter key value origin :: events) = leaves events :=
  List.countP_cons_of_neg Bool.false_ne_true

@[simp] theorem leaves_leave (reason : Reason) (key : K) (value : V) :
    leaves (.leave reason key value :: events) = leaves events + 1 :=
  List.countP_cons_of_pos rfl

/-! ## Replay -/

variable [DecidableEq K]

/-- Carrying out the events one after the other leads from one map to the other. -/
inductive Replay : (K → Option V) → List (Event K V) → (K → Option V) → Prop
  | done (f : K → Option V) : Replay f [] f
  | enter {f g : K → Option V} {events : List (Event K V)} {key : K} {value : V} {origin : Origin}
      (habsent : f key = none)
      (hlater : Replay (Function.update f key (some value)) events g) :
      Replay f (.enter key value origin :: events) g
  | leave {f g : K → Option V} {events : List (Event K V)} {key : K} {value : V} {reason : Reason}
      (hpresent : f key = some value)
      (hlater : Replay (Function.update f key none) events g) :
      Replay f (.leave reason key value :: events) g

/-- The contents of a store: what is there for each key. -/
def Store.contents (s : Store K V) (key : K) : Option V := (s.get? key).map (·.value)

variable {f g h : K → Option V}

theorem Replay.of_eq (h : g = f) : Replay f ([] : List (Event K V)) g := h ▸ .done f

theorem Replay.trans (hfirst : Replay f events g) (hlater : Replay g later h) :
    Replay f (events ++ later) h := by
  induction hfirst with
  | done f => exact hlater
  | enter habsent _ ih => exact .enter habsent (ih hlater)
  | leave hpresent _ ih => exact .leave hpresent (ih hlater)

/-! ## Sizes -/

/-- The entries that come in and those that leave make up the difference in size. -/
theorem Replay.length_eq {before after : List (K × V)} (h : Replay f events g)
    (hbefore : Enumerates before f) (hafter : Enumerates after g) :
    after.length + leaves events = before.length + enters events := by
  induction h generalizing before with
  | done f => exact (hafter.perm hbefore).length_eq
  | enter habsent _ ih =>
      have hlength := ih (hbefore.insert habsent _) hafter
      rw [List.length_cons] at hlength
      rw [enters_enter, leaves_enter]
      omega
  | leave hpresent _ ih =>
      obtain ⟨rest, hrest⟩ := hbefore.exists_perm_cons hpresent
      have hlength := ih (hbefore.of_perm hrest).erase hafter
      have hperm := hrest.length_eq
      rw [List.length_cons] at hperm
      rw [enters_leave, leaves_leave]
      omega

/-! ## Entries that leave -/

/-- The values of entries. -/
def values (found : K → Option (Entry K V)) (key : K) : Option V := (found key).map (·.value)

theorem contents_eq (s : Store K V) : s.contents = values s.get? := rfl

variable {found found' : K → Option (Entry K V)} {went : List (Entry K V)} {key : K}

theorem values_update (found : K → Option (Entry K V)) (key : K) (e? : Option (Entry K V)) :
    values (Function.update found key e?) =
      Function.update (values found) key (e?.map (·.value)) :=
  Function.comp_update (Option.map fun e : Entry K V => e.value) found key e?

theorem Store.Takes.replay (h : Store.Takes found went found') (reason : Reason) :
    Replay (values found) (Outcome.leaving reason went) (values found') := by
  induction went generalizing found with
  | nil => exact .of_eq (congrArg values h)
  | cons e rest ih =>
      refine .leave ?_ ?_
      · rw [values, h.1]
        rfl
      · have hrest := ih h.2
        rwa [values_update] at hrest

theorem Store.Sheds.replay {s t : Store K V} (h : Store.Sheds s went t) (reason : Reason) :
    Replay s.contents (Outcome.leaving reason went) t.contents :=
  h.takes.replay reason

/-! ## Writes -/

/-- Entries taken from where a key is absent are of other keys. -/
theorem Store.Takes.key_ne (h : Store.Takes found went found') (hkey : found key = none) :
    ∀ e ∈ went, e.key ≠ key := by
  induction went generalizing found with
  | nil => exact fun e he => absurd he List.not_mem_nil
  | cons e rest ih =>
      have hne : e.key ≠ key := by
        rintro rfl
        have hfound := h.1
        rw [hkey] at hfound
        exact Option.some_ne_none e hfound.symm
      intro other hother
      rcases List.mem_cons.mp hother with rfl | hother
      · exact hne
      · refine ih h.2 ?_ other hother
        rwa [Function.update_of_ne hne.symm]

/-- The victims after a write, in an order in which the new entry leaves last, if it is
among them. -/
theorem Store.Takes.split {new : Entry K V} (hkey : found key = none)
    (h : Store.Takes (Function.update found key (some new)) went found') :
    ∃ room, Store.Takes found (went.filter fun e => e.key ≠ key) room ∧
      ((went.filter (fun e => e.key = key) = [] ∧
          found' = Function.update room key (some new)) ∨
        (went.filter (fun e => e.key = key) = [new] ∧ found' = room)) := by
  induction went generalizing found with
  | nil => exact ⟨found, rfl, .inl ⟨rfl, h⟩⟩
  | cons e rest ih =>
      by_cases heq : e.key = key
      · -- the new entry leaves, and the rest was there before it
        have hsame : e = new := by
          have hfound := h.1
          rw [heq, Function.update_self, Option.some.injEq] at hfound
          exact hfound.symm
        have hrest : Store.Takes found rest found' := by
          have hafter := h.2
          rwa [heq, Function.update_idem, Function.update_eq_self_iff.mpr hkey.symm] at hafter
        have hothers := hrest.key_ne hkey
        have hkept : rest.filter (fun e => e.key ≠ key) = rest :=
          List.filter_eq_self.mpr fun other hother => by simpa using hothers other hother
        have hnone : rest.filter (fun e => e.key = key) = [] :=
          List.filter_eq_nil_iff.mpr fun other hother => by simpa using hothers other hother
        refine ⟨found', ?_, .inr ⟨?_, rfl⟩⟩
        · rw [List.filter_cons_of_neg (by simpa using heq), hkept]
          exact hrest
        · rw [List.filter_cons_of_pos (by simpa using heq), hnone, hsame]
      · obtain ⟨hfound, hafter⟩ := h
        rw [Function.update_of_ne heq] at hfound
        rw [Function.update_comm (Ne.symm heq)] at hafter
        obtain ⟨room, htakes, hcases⟩ :=
          ih (by rwa [Function.update_of_ne (Ne.symm heq)]) hafter
        refine ⟨room, ?_, ?_⟩
        · rw [List.filter_cons_of_pos (by simpa using heq)]
          exact ⟨hfound, htakes⟩
        · rw [List.filter_cons_of_neg (by simpa using heq)]
          exact hcases

/-- The events of a write can be replayed in their order. -/
theorem Store.Writes.replay {s t : Store K V} {w : Written K V} (h : Store.Writes s key w t)
    (origin : Origin) :
    Replay s.contents (Outcome.writing origin w.old w.new w.evicted) t.contents := by
  obtain ⟨first, later, room, hevicted, hfirst, hlater⟩ := h.takes
  have habsent : room key = none := hfirst.eq_none (Function.update_self _ _ _)
  have hothers := hfirst.key_ne (Function.update_self key none s.get?)
  obtain ⟨rest, hrest, hcases⟩ := hlater.split habsent
  have hnewKey := h.key_eq
  -- the old entry leaves
  have hold : Replay s.contents (Outcome.leaving .replace w.old.toList)
      (values (Function.update s.get? key none)) := by
    rw [h.old_eq, values_update]
    cases hget : s.get? key with
    | none =>
        refine .of_eq (Function.update_eq_self_iff.mpr ?_)
        rw [values, hget]
    | some e =>
        refine .leave ?_ (.of_eq ?_)
        · rw [Store.key_of_get? hget, contents, hget]
          rfl
        · rw [Store.key_of_get? hget]
          rfl
  -- all victims of other keys leave
  have hvictims : w.evicted.filter (fun e => e.key ≠ key) =
      first ++ later.filter fun e => e.key ≠ key := by
    rw [hevicted, List.filter_append]
    congr 1
    exact List.filter_eq_self.mpr fun e he => by simpa using hothers e he
  have htakes : Store.Takes (Function.update s.get? key none)
      (w.evicted.filter fun e => e.key ≠ key) rest := by
    rw [hvictims]
    exact Store.takes_append.mpr ⟨room, hfirst, hrest⟩
  have hself : w.evicted.filter (fun e => e.key = key) = later.filter fun e => e.key = key := by
    rw [hevicted, List.filter_append, List.filter_eq_nil_iff.mpr fun e he => by
      simpa using hothers e he]
    rfl
  have hfree : rest key = none := hrest.eq_none habsent
  -- the new entry comes in, and leaves again if it is a victim of its own
  have hlast : Replay (values rest) ([.enter w.new.key w.new.value origin] ++
      Outcome.leaving .evict (w.evicted.filter fun e => e.key = key)) t.contents := by
    rw [hself, hnewKey]
    refine .enter (by rw [values, hfree]; rfl) ?_
    rcases hcases with ⟨hnil, hafter⟩ | ⟨hone, hafter⟩
    · rw [hnil, contents_eq, hafter, values_update]
      exact .done _
    · rw [hone, contents_eq, hafter]
      refine .leave ?_ (.of_eq ?_)
      · rw [hnewKey, Function.update_self]
      · rw [hnewKey, Function.update_idem]
        refine (Function.update_eq_self_iff.mpr ?_).symm
        rw [values, hfree]
        rfl
  rw [Outcome.writing, hnewKey]
  rw [hnewKey] at hlast
  have hall := (hold.trans (htakes.replay .evict)).trans hlast
  rw [← List.append_assoc] at hall
  exact hall

theorem Store.WritesAll.replay {s t : Store K V} {puts : List (Written K V)}
    (h : Store.WritesAll s puts t) (origin : Origin) :
    Replay s.contents (Outcome.putAll origin puts).events t.contents := by
  induction h with
  | nil => exact .done _
  | cons hwrites _ ih => exact (hwrites.replay origin).trans ih

end BoundedCache
