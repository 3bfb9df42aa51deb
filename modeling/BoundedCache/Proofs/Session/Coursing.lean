import BoundedCache.Proofs.Cache.Coursing
import BoundedCache.Proofs.Session.Frozen

/-!
# The data of a session are on a course

Whatever happens to a session, errands are run on the data of its cache, one after the other, or
its clock is set.  So the store of every session has come from an empty one on a course of
errands (`live_course`), and if the clock is never set back, the times on the way ascend.  The
log of the course has a part for each event (`Chronicle`): at the time of the event, with what
was asked for, and besides that only what hooks and loads did meanwhile.
-/

namespace BoundedCache

namespace Session

variable {K V : Type} [DecidableEq K] [KeyText K]

/-- The clock is never set back as these events follow. -/
def Forwards (s : Session K V) : List (Happening K V) → Prop
  | [] => True
  | happening :: rest =>
      s.cache.clock ≤ (s.happen happening).cache.clock ∧ (s.happen happening).Forwards rest

/-- What is written of an event: a course from the data before it to those after it, at the time
of the clock, with what the event brings and, amid that, asides. -/
structure Records (s : Session K V) (happening : Happening K V) (part : List (Stroke K V)) :
    Prop where
  course : Course s.cache.expiration s.cache.store part (s.happen happening).cache.store
  time_eq : ∀ stroke ∈ part, stroke.time = s.cache.clock
  brings : ∃ own, happening.Brings s.cache.available own ∧ Amid (Cache.Aside s.cache.hooks) own part

/-- There is one part of the log for each event. -/
inductive Chronicle : Session K V → List (Happening K V) → List (List (Stroke K V)) → Prop where
  | done (s : Session K V) : Chronicle s [] []
  | next {s : Session K V} {happening : Happening K V} {rest : List (Happening K V)}
      {part : List (Stroke K V)} {parts : List (List (Stroke K V))}
      (hrecords : s.Records happening part) (hrest : Chronicle (s.happen happening) rest parts) :
      Chronicle s (happening :: rest) (part :: parts)

/-- Whatever happens is written down. -/
theorem exists_records {s : Session K V} (hengaged : s.cache.desk.Engaged)
    (happening : Happening K V) :
    (s.happen happening).cache.expiration = s.cache.expiration ∧
      ∃ part, s.Records happening part ∧
        (part = [] ∨ (s.happen happening).cache.clock = s.cache.clock) := by
  rcases s.happen_doings happening with ⟨own, hbrings, hdoings⟩ | ⟨hbrings, now, heq⟩
  · have herrands := hdoings.runsErrands hengaged
    obtain ⟨part, hcourse, htimes, hamid⟩ := herrands.course
    exact ⟨herrands.expiration_eq, part, ⟨hcourse, htimes, own, hbrings, hamid⟩,
      .inr herrands.clock_eq⟩
  · -- the clock is set, and that is all
    have hcourse : Course s.cache.expiration s.cache.store [] (s.happen happening).cache.store := by
      rw [heq]
      exact .stay _
    refine ⟨by rw [heq], [], ⟨hcourse, nofun, [], hbrings, .nil⟩, .inl rfl⟩

/-- Between two states of a session there is a course of errands, written down event by event. -/
theorem live_course {s : Session K V} (hengaged : s.cache.desk.Engaged)
    (happenings : List (Happening K V)) :
    let s' := s.live happenings
    s'.cache.expiration = s.cache.expiration ∧
      ∃ parts, s.Chronicle happenings parts ∧
        Course s.cache.expiration s.cache.store parts.flatten s'.cache.store ∧
        (s.Forwards happenings → Ascends s.cache.clock parts.flatten s'.cache.clock) := by
  induction happenings generalizing s with
  | nil => exact ⟨rfl, [], .done s, .stay _, fun _ => .nil (Nat.le_refl _)⟩
  | cons happening rest ih =>
      have hengaged' := (s.happen_acts happening).moves.engaged hengaged
      obtain ⟨hexpiration, parts, hchronicle, hcourse, hascends⟩ := ih hengaged'
      obtain ⟨hsame, part, hrecords, hclock⟩ := exists_records hengaged happening
      rw [hsame] at hcourse hexpiration
      refine ⟨hexpiration, part :: parts, .next hrecords hchronicle,
        hrecords.course.trans hcourse, fun hforwards => ?_⟩
      have hfirst : Ascends s.cache.clock part (s.happen happening).cache.clock := by
        rcases hclock with rfl | hclock
        · exact .nil hforwards.1
        · rw [hclock]
          exact ascends_of_time_eq hrecords.time_eq
      exact hfirst.trans (hascends hforwards.2)

variable {b : Builder K V} {c : Cache K V}

/-- Every session is on a course that began with an empty store. -/
theorem course_of_build (hbuild : b.build = .ok c) (happenings : List (Happening K V)) :
    let s := live ⟨c, []⟩ happenings
    s.cache.expiration = b.expirationRule ∧
      ∃ parts, Chronicle ⟨c, []⟩ happenings parts ∧
        Course b.expirationRule (.new b.policy b.maxEntries b.maxVolume b.walk) parts.flatten
          s.cache.store ∧
        (Forwards ⟨c, []⟩ happenings → Ascends b.clock parts.flatten s.cache.clock) := by
  have hcourse := live_course (s := ⟨c, []⟩) (Builder.engaged_build hbuild) happenings
  obtain ⟨executor, -, rfl⟩ := Builder.eq_of_build hbuild
  exact hcourse

/-- The hooks of a session are those that were registered and two of the cache itself. -/
theorem forall_hooks_live (hbuild : b.build = .ok c) {P : Hook K V → Prop}
    (hstatistics : P Hook.statistics) (hlisteners : P (Hook.listeners .event b.listeners))
    (hhooks : ∀ hook ∈ b.hooks, P hook) (happenings : List (Happening K V)) :
    ∀ hook ∈ (live ⟨c, []⟩ happenings).cache.hooks.hooks, P hook := by
  rw [(live_moves ⟨c, []⟩ happenings).hooks_eq]
  exact Builder.forall_hooks_build hbuild hstatistics hlisteners hhooks

end Session

end BoundedCache
