import BoundedCache.Proofs.Reported
import BoundedCache.Proofs.Store.Chronicle

/-!
# How long a write lasts

A write stamps a deadline on its entry, and until the next write of that key nothing else does:
not a read, not a sweep, and no operation on other keys (`Stamps`).

So under the rule of timeouts it makes no difference which of the many operations that come upon
a stale entry takes it out, or whether one does: if nothing has been reported of a key since it
was written but that it expired, it is live up to the deadline of that write and no longer
(`Stands.live?_eq`).
-/

namespace BoundedCache

variable {K V : Type} [DecidableEq K] {s t u : Store K V} {key : K} {value : V}
variable {expires : Option Nat} {events later : List (Event K V)}

/-! ## Deadlines -/

/-- Entries that come in have this deadline, and the others keep theirs. -/
structure Stamps (expires : Option Nat) (s : Store K V) (events : List (Event K V))
    (t : Store K V) : Prop where
  written : ∀ key e, Enters key events → t.get? key = some e → e.expires = expires
  kept : ∀ key e, ¬ Enters key events → t.get? key = some e →
    ∃ old, s.get? key = some old ∧ e.expires = old.expires

theorem Stamps.trans (h : Stamps expires s events t) (hlater : Stamps expires t later u) :
    Stamps expires s (events ++ later) u where
  written key e henters hget := by
    by_cases hlast : Enters key later
    · exact hlater.written key e hlast hget
    · obtain ⟨old, hold, heq⟩ := hlater.kept key e hlast hget
      have hfirst := (enters_append_iff.mp henters).resolve_right hlast
      exact heq.trans (h.written key old hfirst hold)
  kept key e henters hget := by
    rw [enters_append_iff, not_or] at henters
    obtain ⟨middle, hmiddle, heq⟩ := hlater.kept key e henters.2 hget
    obtain ⟨old, hold, heq'⟩ := h.kept key middle henters.1 hmiddle
    exact ⟨old, hold, heq.trans heq'⟩

/-- Where nothing comes in, it is enough that the others keep theirs. -/
theorem stamps_of_kept (henters : ∀ key, ¬ Enters key events)
    (hkept : ∀ key e, t.get? key = some e →
      ∃ old, s.get? key = some old ∧ e.expires = old.expires) : Stamps expires s events t where
  written key _ hkey _ := absurd hkey (henters key)
  kept key e _ hget := hkept key e hget

theorem stamps_nothing (s : Store K V) : Stamps expires s [] s :=
  stamps_of_kept not_enters_nil fun _ e hget => ⟨e, hget, rfl⟩

theorem Store.Loses.stamps {went : List (Entry K V)} (h : Store.Loses s.get? went t.get?)
    (reason : Reason) : Stamps expires s (Outcome.leaving reason went) t :=
  stamps_of_kept (fun key => not_enters_leaving key reason went)
    fun _ e hget => ⟨e, h.eq_of_some hget, rfl⟩

namespace Store

theorem expires_put (s : Store K V) (key : K) (value : V) (attributes : Attributes)
    (expires : Option Nat) (now : Nat) (recordAccess : Bool) :
    (s.put key value attributes expires now recordAccess).1.new.expires = expires := by
  rw [new_put]
  cases s.get? key with
  | none => rfl
  | some old =>
      dsimp only
      split
      · rw [rewritten]
        split <;> rfl
      · rfl

/-- A stale entry that was come upon is taken out. -/
theorem Agrees.stamps_stale (h : s.Agrees) {e : Entry K V} (hget : s.get? key = some e) :
    Stamps expires s (Outcome.leaving .expire [e]) (s.remove key).2 := by
  obtain ⟨hanswer, hloses⟩ := h.exact.remove key
  rw [hanswer, hget] at hloses
  exact hloses.stamps .expire

theorem Agrees.stamps_expired (h : s.Agrees) (key : K) :
    Stamps expires s ((Change.expired s key).flatMap Outcome.events) (s.remove key).2 := by
  rw [Change.expired]
  cases hget : s.get? key with
  | none =>
      rw [remove_of_absent hget]
      exact stamps_nothing s
  | some e => exact h.stamps_stale hget

theorem Agrees.stamps_touch (h : s.Agrees) (key : K) (now : Nat) :
    Stamps expires s [] (s.touch key now).2 := by
  obtain ⟨hanswer, htouched⟩ := h.exact.touch key now
  refine stamps_of_kept not_enters_nil fun other e hget => ?_
  rw [htouched] at hget
  by_cases hkey : other = key
  · subst hkey
    rw [Function.update_self, hanswer] at hget
    obtain ⟨old, hold, rfl⟩ := Option.map_eq_some_iff.mp hget
    exact ⟨old, hold, rfl⟩
  · rw [Function.update_of_ne hkey] at hget
    exact ⟨e, hget, rfl⟩

theorem Agrees.stamps_put (h : s.Agrees) (origin : Origin) (key : K) (value : V)
    (attributes : Attributes) (expires : Option Nat) (now : Nat) (recordAccess : Bool) :
    let r := s.put key value attributes expires now recordAccess
    Stamps expires s (Outcome.writing origin r.1.old r.1.new r.1.evicted) r.2 := by
  intro r
  obtain ⟨-, hkey, hloses⟩ := h.exact.put key value attributes expires now recordAccess
  have hexpires : r.1.new.expires = expires :=
    s.expires_put key value attributes expires now recordAccess
  constructor
  · intro other e henters hget
    obtain rfl := (enters_writing_iff.mp henters).symm.trans hkey
    have hnew := hloses.eq_of_some hget
    rw [Function.update_self, Option.some.injEq] at hnew
    rw [← hnew, hexpires]
  · intro other e henters hget
    have hne : other ≠ key := fun heq => henters (enters_writing_iff.mpr (hkey.trans heq.symm))
    have hold := hloses.eq_of_some hget
    rw [Function.update_of_ne hne] at hold
    exact ⟨e, hold, rfl⟩

theorem Agrees.stamps_putAll (h : s.Agrees) (origin : Origin) (attributes : Attributes)
    (expires : Option Nat) (now : Nat) (pairs : List (K × V)) :
    let r := s.putAll attributes expires now pairs
    Stamps expires s (Outcome.putAll origin r.1).events r.2 := by
  induction pairs generalizing s with
  | nil => exact stamps_nothing s
  | cons pair rest ih =>
      have hfirst := h.stamps_put origin pair.1 pair.2 attributes expires now true
      have hagrees := (h.put pair.1 pair.2 attributes expires now true).moves.agrees
      exact hfirst.trans (ih hagrees)

end Store

namespace Errand

/-- The timeout that an errand asks for if it writes. -/
def timeout : Errand K V → Option Duration
  | write _ _ attributes _ => attributes.timeout
  | _ => none

/-- Whatever an errand writes has the deadline of its timeout. -/
theorem stamps (errand : Errand K V) (x : Expiration K V) (now : Nat) (h : s.Agrees) :
    Stamps (x.timeOf now errand.timeout) s (errand.events x s now)
      (errand.storeAfter x s now) := by
  cases errand with
  | lookup key =>
      simp only [events, reported, storeAfter, change, Change.lookup]
      split
      · exact stamps_nothing s
      · rename_i e hget
        split
        · exact h.stamps_stale hget
        · exact h.stamps_touch key now
  | write key value attributes origin =>
      simp only [events, reported, storeAfter, change, Change.write, List.flatMap_singleton]
      exact h.stamps_put origin key value attributes _ now _
  | writeAll pairs =>
      simp only [events, reported, storeAfter, change, Change.writeAll, List.flatMap_singleton]
      exact h.stamps_putAll .user {} _ now pairs
  | putIfAbsent key value =>
      simp only [events, reported, storeAfter, change]
      cases hlive : s.live? x key now with
      | some e =>
          rw [Change.putIfAbsent_of_live hlive]
          exact stamps_nothing s
      | none =>
          rw [Change.putIfAbsent_of_none hlive, List.flatMap_append, List.flatMap_singleton]
          have hremoved := (h.remove key).2.1.agrees
          exact (h.stamps_expired key).trans (hremoved.stamps_put .user key value {} _ now true)
  | replace key value =>
      simp only [events, reported, storeAfter, change]
      cases hlive : s.live? x key now with
      | some e =>
          have hold := s.old_put key value {} (x.timeOf now none) now true
          have hput := h.stamps_put .user key value {} (x.timeOf now none) now true
          have happly := Change.replace_of_live hlive value
          rw [(Store.live?_eq_some.mp hlive).1] at hold
          generalize s.put key value {} (x.timeOf now none) now true = r at hold hput happly
          rw [happly, List.flatMap_singleton, Outcome.events, ← hold]
          exact hput
      | none =>
          rw [Change.replace_of_none hlive]
          exact h.stamps_expired key
  | remove key =>
      simp only [events, reported, storeAfter, change, Change.remove, List.flatMap_singleton]
      exact (h.exact.remove key).2.stamps .remove
  | removeAll keys =>
      simp only [events, reported, storeAfter, change, Change.removeAll, List.flatMap_singleton]
      exact (h.removeKeys keys).takes.loses.stamps .remove
  | clear =>
      simp only [events, reported, storeAfter, change, Change.clear, List.flatMap_singleton]
      exact h.exact.clear.2.stamps .clear
  | expire =>
      simp only [events, reported, storeAfter, change, Change.expire, List.flatMap_singleton]
      exact (h.exact.removeIf _).2.stamps .expire
  | trim maxEntries =>
      simp only [events, reported, storeAfter, change, Change.trim, List.flatMap_singleton]
      exact (h.exact.trimTo maxEntries unbounded).stamps .evict
  | purge =>
      simp only [events, reported, storeAfter, change, Change.purge, List.flatMap_singleton]
      have hswept := h.removeIf fun e => x.isExpired e now
      exact (hswept.takes.loses.stamps .expire).trans
        ((hswept.agrees.exact.trimTo _ _).stamps .evict)
  | resize maxEntries maxVolume =>
      simp only [events, reported, storeAfter, change, Change.resize, List.flatMap_singleton]
      exact (h.exact.setLimits maxEntries maxVolume).stamps .evict

end Errand

/-! ## Writes that stand -/

/-- Whether a write at `time` with this timeout is found at `now`.  Without a timeout it always
is; with one, until it is over, or the last time there is has come. -/
def lasts (timeout : Option Duration) (time now : Nat) : Bool :=
  match timeout with
  | none => true
  | some d => decide (now < min (time + d.millis) unbounded)

theorem lasts_eq_false_iff {timeout : Option Duration} {time now : Nat} :
    lasts timeout time now = false ↔
      ∃ late, timeout.map (deadline time) = some late ∧ late ≤ now := by
  cases timeout with
  | none => simp [lasts]
  | some d =>
      rw [lasts, decide_eq_false_iff_not, Option.map_some, deadline]
      constructor
      · intro hover
        exact ⟨_, rfl, by omega⟩
      · rintro ⟨late, heq, hle⟩
        obtain rfl := Option.some.inj heq
        omega

omit [DecidableEq K] in
theorem pastDeadline_iff {e : Entry K V} {now : Nat} :
    Expiration.pastDeadline e now = true ↔ ∃ late, e.expires = some late ∧ late ≤ now := by
  unfold Expiration.pastDeadline
  cases e.expires <;> simp

/-- The errand has put in the key with this value, and done nothing to it after that. -/
def Stroke.Puts (stroke : Stroke K V) (key : K) (value : V) : Prop :=
  ∃ origin, lastOf key stroke.events = some (.enter key value origin)

/-- The last that happened to the key was this write, but that it may have expired since, up to
`now`. -/
def Stands (log : List (Stroke K V)) (write : Stroke K V) (key : K) (value : V) (now : Nat) :
    Prop :=
  ∃ before later, log = before ++ write :: later ∧ write.Puts key value ∧
    ∀ stroke ∈ later, stroke.time ≤ now ∧ Spares key stroke.events

/-- The key has this value and this deadline, unless the deadline has come by `now` and the key
is gone. -/
def Store.Holds (s : Store K V) (key : K) (value : V) (expires : Option Nat) (now : Nat) : Prop :=
  (∃ e, s.get? key = some e ∧ e.value = value ∧ e.expires = expires) ∨
    s.get? key = none ∧ ∃ late, expires = some late ∧ late ≤ now

variable {x : Expiration K V} {default : Option Duration} {errand : Errand K V}
variable {time now : Nat} {log : List (Stroke K V)} {write : Stroke K V}

/-- Of a key that is spared the entry stays, or it goes by its deadline. -/
theorem Store.Holds.after (hholds : s.Holds key value expires now) (h : s.Agrees)
    (hspares : Spares key (errand.events (.timeout default) s time)) (hle : time ≤ now) :
    (errand.storeAfter (.timeout default) s time).Holds key value expires now := by
  have hreplay := (errand.reports (.timeout default) time h).replay.of_spares hspares
  have hstamps := errand.stamps (.timeout default) time h
  rcases hholds with ⟨e, hget, hvalue, hexpires⟩ | ⟨hnone, hlate⟩
  · rcases hreplay with hsame | ⟨hgone, shown, hmem⟩
    · rw [Store.contents, Store.contents, hget] at hsame
      obtain ⟨e', hget', hvalue'⟩ := Option.map_eq_some_iff.mp hsame
      obtain ⟨old, hold, hkept⟩ := hstamps.kept key e' hspares.not_enters hget'
      obtain rfl := Option.some.inj (hget.symm.trans hold)
      exact .inl ⟨e', hget', hvalue'.trans hvalue, hkept.trans hexpires⟩
    · -- the entry that was taken out is the one that there was, and it was stale
      obtain ⟨old, hold, hstale⟩ := errand.stale_of_expired (.timeout default) time h hmem
      obtain rfl := Option.some.inj (hget.symm.trans hold)
      obtain ⟨late, hdeadline, hover⟩ := pastDeadline_iff.mp hstale
      exact .inr ⟨Option.map_eq_none_iff.mp hgone, late, hexpires.symm.trans hdeadline,
        hover.trans hle⟩
  · have habsent : s.contents key = none := Option.map_eq_none_iff.mpr hnone
    have hgone : (errand.storeAfter (.timeout default) s time).contents key = none :=
      hreplay.elim (fun hsame => hsame.trans habsent) And.left
    exact .inr ⟨Option.map_eq_none_iff.mp hgone, hlate⟩

theorem Course.holds (h : Course (.timeout default) s log t) (hs : s.Agrees)
    (hholds : s.Holds key value expires now)
    (hspares : ∀ stroke ∈ log, stroke.time ≤ now ∧ Spares key stroke.events) :
    t.Holds key value expires now := by
  induction h with
  | stay s => exact hholds
  | stroke errand time hrest ih =>
      obtain ⟨hle, hfirst⟩ := hspares _ List.mem_cons_self
      refine ih (errand.reports _ time hs).agrees (hholds.after hs hfirst hle) ?_
      exact fun stroke hmem => hspares stroke (List.mem_cons_of_mem _ hmem)

/-- What is live is known from the deadline alone. -/
theorem Store.Holds.live?_eq {timeout : Option Duration}
    (h : s.Holds key value (timeout.map (deadline time)) now) :
    (s.live? (.timeout default) key now).map (·.value) =
      if lasts timeout time now then some value else none := by
  rcases h with ⟨e, hget, rfl, hexpires⟩ | ⟨hnone, hlate⟩
  · have hstale : Expiration.pastDeadline e now = !lasts timeout time now := by
      rw [Bool.eq_iff_iff, pastDeadline_iff, hexpires, ← lasts_eq_false_iff, Bool.not_eq_true']
    rw [Store.live?_of_present hget, Expiration.isExpired, hstale]
    cases lasts timeout time now <;> rfl
  · rw [lasts_eq_false_iff.mpr hlate, Store.live?_of_absent hnone]
    rfl

/-- The store that a stroke of a course has met. -/
theorem Course.exists_of_append {before later : List (Stroke K V)}
    (h : Course x s (before ++ write :: later) t) :
    ∃ u, Course x s before u ∧
      write = ⟨write.errand, write.time, write.errand.reported x u write.time⟩ ∧
      Course x (write.errand.storeAfter x u write.time) later t := by
  induction before generalizing s with
  | nil =>
      cases h with
      | stroke errand now hrest => exact ⟨s, .stay s, rfl, hrest⟩
  | cons first rest ih =>
      cases h with
      | stroke errand now hrest =>
          obtain ⟨u, hbefore, heq, hlater⟩ := ih hrest
          exact ⟨u, .stroke errand now hbefore, heq, hlater⟩

/-- A write that stands is found until its timeout is over. -/
theorem Stands.live?_eq (h : Stands log write key value now)
    (hcourse : Course (.timeout default) s log t) (hs : s.Agrees) :
    (t.live? (.timeout default) key now).map (·.value) =
      if lasts (write.errand.timeout.or default) write.time now then some value else none := by
  obtain ⟨before, later, rfl, ⟨origin, hlast⟩, hspares⟩ := h
  obtain ⟨u, hbefore, heq, hlater⟩ := hcourse.exists_of_append
  have hu := hbefore.agrees hs
  have hevents : write.events = write.errand.events (.timeout default) u write.time :=
    congrArg Stroke.events heq
  have hreports := write.errand.reports (.timeout default) write.time hu
  rw [hevents] at hlast
  -- the entry after the write
  have hvalue := hreports.replay.eq_lastOf key
  rw [← Errand.events, hlast] at hvalue
  obtain ⟨e, hget, hvalue⟩ := Option.map_eq_some_iff.mp hvalue
  have henters : Enters key (write.errand.events (.timeout default) u write.time) :=
    ⟨_, (mem_of_lastOf hlast).1, rfl, rfl⟩
  have hexpires := (write.errand.stamps (.timeout default) write.time hu).written key e henters hget
  exact (hlater.holds hreports.agrees (.inl ⟨e, hget, hvalue, hexpires⟩) hspares).live?_eq

end BoundedCache
