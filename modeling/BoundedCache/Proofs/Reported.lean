import BoundedCache.Proofs.Cache.Liveness
import BoundedCache.Proofs.Changes
import BoundedCache.Proofs.Errands
import BoundedCache.Proofs.Store.Exactness

/-!
# What is reported of a key

All that is reported of an errand are events, and each of them is of one key.  What there is of a
key in the end is decided by the last event of that key (`Replay.eq_lastOf`).  An entry that is
reported as expired was there before the errand, and it was stale
(`Errand.stale_of_expired`).
-/

namespace BoundedCache

variable {K V : Type}

namespace Event

/-- The key whose entry comes in or leaves. -/
def key : Event K V → K
  | enter key .. => key
  | leave _ key _ => key

/-- What there is of the key after the event. -/
def value? : Event K V → Option V
  | enter _ value _ => some value
  | leave .. => none

/-- Whether an entry leaves because it is stale. -/
def isExpiry : Event K V → Bool
  | leave .expire .. => true
  | _ => false

end Event

/-- An entry of the key comes in. -/
def Enters (key : K) (events : List (Event K V)) : Prop :=
  ∃ event ∈ events, event.key = key ∧ event.isEnter = true

/-- No more happens to the key than that it expires. -/
def Spares (key : K) (events : List (Event K V)) : Prop :=
  ∀ event ∈ events, event.key = key → event.isExpiry = true

instance [DecidableEq K] (key : K) (events : List (Event K V)) : Decidable (Spares key events) :=
  inferInstanceAs (Decidable (∀ event ∈ events, event.key = key → event.isExpiry = true))

section

variable {key : K} {events later : List (Event K V)}

theorem enters_append_iff :
    Enters key (events ++ later) ↔ Enters key events ∨ Enters key later := by
  simp only [Enters, List.mem_append, or_and_right, exists_or]

theorem Spares.not_enters (h : Spares key events) : ¬ Enters key events := by
  rintro ⟨event, hmem, hkey, henter⟩
  have hexpiry := h event hmem hkey
  cases event with
  | enter key value origin => exact Bool.false_ne_true hexpiry
  | leave reason key value => exact Bool.false_ne_true henter

theorem not_enters_nil (key : K) : ¬ Enters key ([] : List (Event K V)) :=
  fun ⟨_, hmem, _⟩ => absurd hmem List.not_mem_nil

theorem not_enters_leaving (key : K) (reason : Reason) (went : List (Entry K V)) :
    ¬ Enters key (Outcome.leaving reason went) := by
  rintro ⟨event, hmem, -, henter⟩
  obtain ⟨e, -, rfl⟩ := List.mem_map.mp hmem
  exact Bool.false_ne_true henter

@[simp] theorem leave_mem_leaving_iff {reason other : Reason} {value : V}
    {went : List (Entry K V)} : .leave reason key value ∈ Outcome.leaving other went ↔
      ∃ e ∈ went, other = reason ∧ e.key = key ∧ e.value = value := by
  simp [Outcome.leaving]

variable [DecidableEq K]

theorem enters_writing_iff {origin : Origin} {old : Option (Entry K V)} {new : Entry K V}
    {evicted : List (Entry K V)} :
    Enters key (Outcome.writing origin old new evicted) ↔ new.key = key := by
  simp only [Outcome.writing, enters_append_iff, not_enters_leaving, false_or, or_false]
  simp [Enters, Event.key, Event.isEnter]

/-- No entry is stale because of a write. -/
@[simp] theorem expiry_not_mem_writing {origin : Origin} {old : Option (Entry K V)}
    {new : Entry K V} {evicted : List (Entry K V)} {value : V} :
    .leave .expire key value ∉ Outcome.writing origin old new evicted := by
  simp [Outcome.writing]

/-! ## The last event of a key -/

/-- The last event of the key, if there is one. -/
def lastOf (key : K) (events : List (Event K V)) : Option (Event K V) :=
  (events.filter fun event => event.key = key).getLast?

theorem mem_of_lastOf {event : Event K V} (h : lastOf key events = some event) :
    event ∈ events ∧ event.key = key := by
  have hmem := List.mem_filter.mp (List.mem_of_getLast? h)
  exact ⟨hmem.1, of_decide_eq_true hmem.2⟩

/-- The first event of the key decides as long as there is no later one. -/
theorem getD_lastOf_cons (f : K → Option V) (key : K) (event : Event K V)
    (events : List (Event K V)) :
    ((lastOf key (event :: events)).map Event.value?).getD (f key) =
      ((lastOf key events).map Event.value?).getD
        (Function.update f event.key event.value? key) := by
  rw [lastOf, lastOf]
  by_cases heq : event.key = key
  · rw [List.filter_cons_of_pos (by simpa using heq), List.getLast?_cons, heq,
      Function.update_self]
    cases (events.filter fun event => event.key = key).getLast? <;> rfl
  · rw [List.filter_cons_of_neg (by simpa using heq), Function.update_of_ne (Ne.symm heq)]

/-- After a replay, the last event of a key has decided what there is of it. -/
theorem Replay.eq_lastOf {f g : K → Option V} (h : Replay f events g) (key : K) :
    g key = ((lastOf key events).map Event.value?).getD (f key) := by
  induction h with
  | done f => rfl
  | enter habsent _ ih => exact ih.trans (getD_lastOf_cons _ key (.enter _ _ _) _).symm
  | leave hpresent _ ih => exact ih.trans (getD_lastOf_cons _ key (.leave _ _ _) _).symm

/-- Of a key that is spared nothing changes, unless it expires. -/
theorem Replay.of_spares {f g : K → Option V} (h : Replay f events g)
    (hspares : Spares key events) :
    g key = f key ∨ g key = none ∧ ∃ value, .leave .expire key value ∈ events := by
  rw [h.eq_lastOf key]
  cases hlast : lastOf key events with
  | none => exact .inl rfl
  | some event =>
      obtain ⟨hmem, rfl⟩ := mem_of_lastOf hlast
      have hexpiry := hspares event hmem rfl
      cases event with
      | enter => exact absurd hexpiry Bool.false_ne_true
      | leave reason other value =>
          cases reason with
          | expire => exact .inr ⟨rfl, value, hmem⟩
          | evict | replace | remove | clear => exact absurd hexpiry Bool.false_ne_true

end

/-! ## Errands -/

variable [DecidableEq K] {s : Store K V} {key : K} {value : V}

theorem stale_of_leaving {e : Entry K V} {other : K} {x : Expiration K V} {now : Nat}
    (hget : s.get? other = some e) (hstale : x.isExpired e now = true)
    (hmem : .leave .expire key value ∈ Outcome.leaving .expire [e]) :
    ∃ e, s.get? key = some e ∧ x.isExpired e now = true := by
  obtain rfl := Store.key_of_get? hget
  obtain ⟨e', he', -, rfl, -⟩ := leave_mem_leaving_iff.mp hmem
  obtain rfl := List.mem_singleton.mp he'
  exact ⟨e', hget, hstale⟩

theorem stale_of_mem_expired {other : K} {x : Expiration K V} {now : Nat}
    (hnone : s.live? x other now = none)
    (hmem : .leave .expire key value ∈ (Change.expired s other).flatMap Outcome.events) :
    ∃ e, s.get? key = some e ∧ x.isExpired e now = true := by
  rw [Change.expired] at hmem
  cases hget : s.get? other with
  | none => simp [hget] at hmem
  | some e =>
      rw [Store.live?_of_present hget] at hnone
      have hstale : x.isExpired e now = true := by simpa using hnone
      rw [hget] at hmem
      exact stale_of_leaving hget hstale hmem

namespace Errand

/-- The events that are reported of the errand. -/
def events (errand : Errand K V) (x : Expiration K V) (s : Store K V) (now : Nat) :
    List (Event K V) :=
  (errand.reported x s now).flatMap Outcome.events

variable (errand : Errand K V) (x : Expiration K V) (now : Nat)

/-- Every errand reports what it does. -/
theorem reports (h : s.Agrees) :
    Reports s (errand.reported x s now) (errand.storeAfter x s now) :=
  (errand.faithful x).reports s now h

/-- What is reported as expired was there, and stale. -/
theorem stale_of_expired (h : s.Agrees)
    (hmem : .leave .expire key value ∈ errand.events x s now) :
    ∃ e, s.get? key = some e ∧ x.isExpired e now = true := by
  cases errand with
  | lookup other =>
      simp only [events, reported, change, Change.lookup] at hmem
      cases hget : s.get? other with
      | none => simp [hget, Outcome.events] at hmem
      | some e =>
          by_cases hstale : x.isExpired e now = true
          · simp only [hget, if_pos hstale, List.flatMap_cons, Outcome.events] at hmem
            exact stale_of_leaving hget hstale (by simpa using hmem)
          · simp [hget, hstale, Outcome.events] at hmem
  | putIfAbsent other value' =>
      simp only [events, reported, change] at hmem
      cases hlive : s.live? x other now with
      | some e => simp [Change.putIfAbsent_of_live hlive] at hmem
      | none =>
          rw [Change.putIfAbsent_of_none hlive, List.flatMap_append] at hmem
          exact stale_of_mem_expired hlive (by simpa [Outcome.events] using hmem)
  | replace other value' =>
      simp only [events, reported, change] at hmem
      cases hlive : s.live? x other now with
      | some e => simp [Change.replace_of_live hlive, Outcome.events] at hmem
      | none =>
          rw [Change.replace_of_none hlive] at hmem
          exact stale_of_mem_expired hlive hmem
  | expire =>
      simp only [events, reported, change, Change.expire, List.flatMap_singleton, Outcome.events,
        leave_mem_leaving_iff] at hmem
      obtain ⟨e, he, -, rfl, -⟩ := hmem
      exact ⟨e, ((h.exact.removeIf _).1 e).mp he⟩
  | purge =>
      simp only [events, reported, change, Change.purge, List.flatMap_singleton, Outcome.events,
        List.mem_append, leave_mem_leaving_iff] at hmem
      rcases hmem with ⟨e, he, -, rfl, -⟩ | ⟨e, -, hreason, -⟩
      · exact ⟨e, ((h.exact.removeIf _).1 e).mp he⟩
      · cases hreason
  | write | writeAll | remove | removeAll | clear | trim | resize =>
      simp [events, reported, change, Change.write, Change.writeAll, Change.remove,
        Change.removeAll, Change.clear, Change.trim, Change.resize, Outcome.events] at hmem

end Errand

/-- The events that were reported of the errand. -/
def Stroke.events (stroke : Stroke K V) : List (Event K V) :=
  stroke.outcomes.flatMap Outcome.events

end BoundedCache
