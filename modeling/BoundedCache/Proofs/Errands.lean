import BoundedCache.Transaction
import BoundedCache.Proofs.Store.Consistency

/-!
# Errands

The errands are all the changes that a cache carries out, and whatever it is asked for, an
errand is a run of operations of the store (`Errand.exists_run`).

A `Course` is a sequence of errands, each carried out where the one before has left the store,
with a log of what was asked for, when, and what was reported of it.  Whatever it was asked for,
a store on its course goes through operations of its own (`Course.exists_run`), so that what
holds of every run of a store holds there as well.
-/

namespace BoundedCache

variable {K V : Type}

namespace Errand

variable [DecidableEq K]

/-- The store after the errand. -/
def storeAfter (errand : Errand K V) (x : Expiration K V) (s : Store K V) (now : Nat) :
    Store K V :=
  ((errand.change x).apply s now).store

/-- What is reported of the errand. -/
def reported (errand : Errand K V) (x : Expiration K V) (s : Store K V) (now : Nat) :
    List (Outcome K V) :=
  ((errand.change x).apply s now).outcomes

end Errand

namespace Store

variable [DecidableEq K]

theorem removeKeys_eq_run (s : Store K V) (keys : List K) :
    (s.removeKeys keys).2 = s.run (keys.map .remove) := by
  induction keys generalizing s with
  | nil => rfl
  | cons key keys ih => exact ih _

theorem putAll_eq_run (s : Store K V) (attributes : Attributes) (expires : Option Nat)
    (now : Nat) (pairs : List (K × V)) :
    (s.putAll attributes expires now pairs).2 =
      s.run (pairs.map fun pair => .put pair.1 pair.2 attributes expires now true) := by
  induction pairs generalizing s with
  | nil => rfl
  | cons pair pairs ih => exact ih _

end Store

namespace Errand

variable [DecidableEq K]

/-- An errand is a run of operations of the store. -/
theorem exists_run (errand : Errand K V) (x : Expiration K V) (s : Store K V) (now : Nat) :
    ∃ actions, errand.storeAfter x s now = s.run actions := by
  cases errand with
  | lookup key =>
      simp only [storeAfter, change, Change.lookup]
      split
      · exact ⟨[], rfl⟩
      · split
        · exact ⟨[.remove key], rfl⟩
        · exact ⟨[.touch key now], rfl⟩
  | write key value attributes origin => exact ⟨[.put key value attributes _ now _], rfl⟩
  | writeAll pairs => exact ⟨_, s.putAll_eq_run _ _ _ pairs⟩
  | putIfAbsent key value =>
      simp only [storeAfter, change, Change.putIfAbsent]
      split
      · exact ⟨[.put key value {} _ now true], rfl⟩
      · split
        · exact ⟨[.remove key, .put key value {} _ now true], rfl⟩
        · exact ⟨[], rfl⟩
  | replace key value =>
      simp only [storeAfter, change, Change.replace]
      split
      · exact ⟨[], rfl⟩
      · split
        · exact ⟨[.remove key], rfl⟩
        · exact ⟨[.put key value {} _ now true], rfl⟩
  | remove key => exact ⟨[.remove key], rfl⟩
  | removeAll keys => exact ⟨_, s.removeKeys_eq_run keys⟩
  | clear => exact ⟨[.clear], rfl⟩
  | expire => exact ⟨[.removeIf fun e => x.isExpired e now], rfl⟩
  | trim maxEntries => exact ⟨[.trimTo maxEntries unbounded], rfl⟩
  | purge => exact ⟨[.removeIf fun e => x.isExpired e now, .trimTo _ _], rfl⟩
  | resize maxEntries maxVolume => exact ⟨[.setLimits maxEntries maxVolume], rfl⟩

end Errand

/-! ## Courses -/

/-- An errand that was carried out, with its time and what was reported of it. -/
structure Stroke (K V : Type) where
  errand : Errand K V
  time : Nat
  outcomes : List (Outcome K V)

variable [DecidableEq K] {x : Expiration K V} {s t u : Store K V} {log later : List (Stroke K V)}

/-- The strokes lead, one after the other, from one store to the other. -/
inductive Course (x : Expiration K V) : Store K V → List (Stroke K V) → Store K V → Prop where
  | stay (s : Store K V) : Course x s [] s
  | stroke (errand : Errand K V) (now : Nat) {s t : Store K V} {log : List (Stroke K V)}
      (hrest : Course x (errand.storeAfter x s now) log t) :
      Course x s (⟨errand, now, errand.reported x s now⟩ :: log) t

namespace Course

theorem single (x : Expiration K V) (errand : Errand K V) (s : Store K V) (now : Nat) :
    Course x s [⟨errand, now, errand.reported x s now⟩] (errand.storeAfter x s now) :=
  .stroke errand now (.stay _)

theorem trans (h : Course x s log t) (hlater : Course x t later u) :
    Course x s (log ++ later) u := by
  induction h with
  | stay s => exact hlater
  | stroke errand now _ ih => exact .stroke errand now (ih hlater)

/-- What every errand keeps is kept on the way. -/
theorem keeps {P : Store K V → Prop} (h : Course x s log t)
    (herrand : ∀ (errand : Errand K V) s now, P s → P (errand.storeAfter x s now))
    (hs : P s) : P t := by
  induction h with
  | stay s => exact hs
  | stroke errand now _ ih => exact ih (herrand errand _ now hs)

/-- A course is a run of operations of the store. -/
theorem exists_run (h : Course x s log t) : ∃ actions, t = s.run actions := by
  refine h.keeps (P := fun t => ∃ actions, t = s.run actions) ?_ ⟨[], rfl⟩
  rintro errand t now ⟨actions, rfl⟩
  obtain ⟨later, heq⟩ := errand.exists_run x (s.run actions) now
  exact ⟨actions ++ later, heq.trans List.foldl_append.symm⟩

theorem agrees (h : Course x s log t) (hs : s.Agrees) : t.Agrees := by
  obtain ⟨actions, rfl⟩ := h.exists_run
  exact (hs.run actions).1

end Course

/-! ## Asides -/

section

variable {Aside : Errand K V → Prop} {own more : List (Errand K V)}

omit [DecidableEq K]

/-- These errands are in the log, in this order, and all others in it are asides. -/
inductive Amid (Aside : Errand K V → Prop) : List (Errand K V) → List (Stroke K V) → Prop where
  | nil : Amid Aside [] []
  | own (stroke : Stroke K V) {own : List (Errand K V)} {log : List (Stroke K V)}
      (hrest : Amid Aside own log) : Amid Aside (stroke.errand :: own) (stroke :: log)
  | aside {stroke : Stroke K V} (haside : Aside stroke.errand) {own : List (Errand K V)}
      {log : List (Stroke K V)} (hrest : Amid Aside own log) : Amid Aside own (stroke :: log)

theorem Amid.single (errand : Errand K V) (now : Nat) (outcomes : List (Outcome K V)) :
    Amid Aside [errand] [⟨errand, now, outcomes⟩] :=
  .own ⟨errand, now, outcomes⟩ .nil

theorem Amid.append (h : Amid Aside own log) (hlater : Amid Aside more later) :
    Amid Aside (own ++ more) (log ++ later) := by
  induction h with
  | nil => exact hlater
  | own stroke _ ih => exact .own stroke ih
  | aside haside _ ih => exact .aside haside ih

end

/-! ## Times -/

section

variable {α : Type} {start middle finish : Nat}

omit [DecidableEq K]

/-- The strokes are in the order of their times, and all of them in this span of time. -/
structure Ascends (start : Nat) (log : List (Stroke K V)) (finish : Nat) : Prop where
  le : start ≤ finish
  within : ∀ stroke ∈ log, start ≤ stroke.time ∧ stroke.time ≤ finish
  ordered : log.Pairwise fun earlier later => earlier.time ≤ later.time

theorem Ascends.nil (h : start ≤ finish) : Ascends start ([] : List (Stroke K V)) finish :=
  ⟨h, fun _ hmem => absurd hmem List.not_mem_nil, .nil⟩

theorem ascends_of_time_eq {now : Nat} (h : ∀ stroke ∈ log, stroke.time = now) :
    Ascends now log now where
  le := Nat.le_refl now
  within stroke hmem := ⟨(h stroke hmem).ge, (h stroke hmem).le⟩
  ordered := List.pairwise_of_forall_mem_list fun a ha b hb => ((h a ha).trans (h b hb).symm).le

theorem Ascends.trans (h : Ascends start log middle) (hlater : Ascends middle later finish) :
    Ascends start (log ++ later) finish where
  le := h.le.trans hlater.le
  within stroke hmem := by
    have hfirst := h.le
    have hsecond := hlater.le
    rcases List.mem_append.mp hmem with hmem | hmem
    · have hspan := h.within stroke hmem
      omega
    · have hspan := hlater.within stroke hmem
      omega
  ordered := by
    refine List.pairwise_append.mpr ⟨h.ordered, hlater.ordered, fun a ha b hb => ?_⟩
    exact (h.within a ha).2.trans (hlater.within b hb).1

end

end BoundedCache
