import BoundedCache.Cache.Operations

/-!
# Several futures together

What several futures have come to depends on their answers alone.  It is complete if and only if
all of them have an answer that is no error, and then it consists of the entries that were
answered, in order (`Joins.complete_iff`).  A failure is one of theirs, and while there is
neither, somebody has no answer yet.

There are two ways of looking at the futures, and both are right in this sense (`joins_join`).
They differ in which failure counts, and in how long a failure may have to wait for the answers
of others (`join_of_error`).
-/

namespace BoundedCache.Cache

variable {K V : Type}

/-- The entry that a future was answered with. -/
def loaded? (c : Cache K V) (future : Future K V) : Option (Entry K V) :=
  match c.answer? future with
  | some (.ok found) => found
  | _ => none

theorem loaded?_eq_some {c : Cache K V} {future : Future K V} {entry : Entry K V} :
    c.loaded? future = some entry ↔ c.answer? future = some (.ok (some entry)) := by
  unfold loaded?
  split
  · rename_i found hanswer
    rw [hanswer]
    simp
  · rename_i hother
    exact ⟨nofun, fun hanswer => absurd hanswer (hother _)⟩

/-- What futures have come to. -/
inductive Joins (c : Cache K V) : List (Future K V) → Joint K V → Prop where
  | nil : Joins c [] (.complete [])
  | failed {future : Future K V} {futures : List (Future K V)} {error : CacheError}
      (hanswer : c.answer? future = some (.error error)) :
      Joins c (future :: futures) (.failed error)
  | waits {future : Future K V} {futures : List (Future K V)}
      (hnone : c.answer? future = none) : Joins c (future :: futures) .waiting
  /-- The failure of a later future does not wait for this one. -/
  | overtaken {future : Future K V} {futures : List (Future K V)} {error : CacheError}
      (hnone : c.answer? future = none) (hrest : Joins c futures (.failed error)) :
      Joins c (future :: futures) (.failed error)
  | found {future : Future K V} {futures : List (Future K V)} {found : Option (Entry K V)}
      {entries : List (Entry K V)} (hanswer : c.answer? future = some (.ok found))
      (hrest : Joins c futures (.complete entries)) :
      Joins c (future :: futures) (.complete (found.toList ++ entries))
  | passed {future : Future K V} {futures : List (Future K V)} {found : Option (Entry K V)}
      {joint : Joint K V} (hanswer : c.answer? future = some (.ok found))
      (hrest : Joins c futures joint) (hopen : ∀ entries, joint ≠ .complete entries) :
      Joins c (future :: futures) joint

variable {c : Cache K V} {future : Future K V} {futures before after : List (Future K V)}
  {entries : List (Entry K V)} {error : CacheError} {joint : Joint K V}

namespace Joins

theorem of_complete (h : Joins c futures (.complete entries)) :
    (∀ future ∈ futures, ∃ found, c.answer? future = some (.ok found)) ∧
      entries = futures.filterMap c.loaded? := by
  generalize hjoint : Joint.complete entries = joint at h
  induction h generalizing entries with
  | nil =>
      cases hjoint
      exact ⟨fun _ hmem => absurd hmem List.not_mem_nil, rfl⟩
  | failed | waits | overtaken => exact nomatch hjoint
  | @found future futures found rest hanswer hrest ih =>
      cases hjoint
      obtain ⟨hall, hentries⟩ := ih rfl
      refine ⟨List.forall_mem_cons.mpr ⟨⟨found, hanswer⟩, hall⟩, ?_⟩
      have hfound : c.loaded? future = found := by rw [loaded?, hanswer]
      rw [List.filterMap_cons, hfound, hentries]
      cases found <;> rfl
  | passed hanswer hrest hopen ih => exact absurd hjoint.symm (hopen _)

theorem of_failed (h : Joins c futures (.failed error)) :
    ∃ future ∈ futures, c.answer? future = some (.error error) := by
  generalize hjoint : Joint.failed error = joint at h
  induction h with
  | nil | waits | found => exact nomatch hjoint
  | failed hanswer =>
      cases hjoint
      exact ⟨_, List.mem_cons_self, hanswer⟩
  | overtaken hnone hrest ih | passed hanswer hrest hopen ih =>
      obtain ⟨future, hmem, hanswer⟩ := ih hjoint
      exact ⟨future, List.mem_cons_of_mem _ hmem, hanswer⟩

theorem of_waiting (h : Joins c futures .waiting) :
    ∃ future ∈ futures, c.answer? future = none := by
  generalize hjoint : Joint.waiting = joint at h
  induction h with
  | nil | failed | overtaken | found => exact nomatch hjoint
  | waits hnone => exact ⟨_, List.mem_cons_self, hnone⟩
  | passed hanswer hrest hopen ih =>
      obtain ⟨future, hmem, hnone⟩ := ih hjoint
      exact ⟨future, List.mem_cons_of_mem _ hmem, hnone⟩

theorem complete_iff (h : Joins c futures joint) :
    joint = .complete entries ↔
      (∀ future ∈ futures, ∃ found, c.answer? future = some (.ok found)) ∧
        entries = futures.filterMap c.loaded? := by
  refine ⟨fun heq => of_complete (heq ▸ h), fun ⟨hall, hentries⟩ => ?_⟩
  cases joint with
  | complete others => rw [hentries, (of_complete h).2]
  | failed error =>
      obtain ⟨future, hmem, herror⟩ := h.of_failed
      obtain ⟨found, hfound⟩ := hall future hmem
      rw [hfound] at herror
      exact nomatch herror
  | waiting =>
      obtain ⟨future, hmem, hnone⟩ := h.of_waiting
      obtain ⟨found, hfound⟩ := hall future hmem
      rw [hfound] at hnone
      exact nomatch hnone

/-- Once all have their answers, an error among them is a failure of all. -/
theorem failed_of_error (h : Joins c futures joint)
    (hanswered : ∀ future ∈ futures, (c.answer? future).isSome = true) (hmem : future ∈ futures)
    (herror : c.answer? future = some (.error error)) : ∃ error, joint = .failed error := by
  cases joint with
  | failed error => exact ⟨error, rfl⟩
  | complete entries =>
      obtain ⟨found, hfound⟩ := h.of_complete.1 future hmem
      rw [herror] at hfound
      exact nomatch hfound
  | waiting =>
      obtain ⟨other, hother, hnone⟩ := h.of_waiting
      have hsome := hanswered other hother
      rw [hnone] at hsome
      exact absurd hsome Bool.false_ne_true

end Joins

theorem joins_joinTogether (c : Cache K V) (futures : List (Future K V)) :
    Joins c futures (c.joinTogether futures) := by
  induction futures with
  | nil => exact .nil
  | cons future futures ih =>
      unfold joinTogether
      split
      · rename_i hanswer
        exact .failed hanswer
      · rename_i hanswer hrest
        exact .passed hanswer (hrest ▸ ih) nofun
      · rename_i hnone hrest
        exact .overtaken hnone (hrest ▸ ih)
      · rename_i hanswer hrest
        exact .passed hanswer (hrest ▸ ih) nofun
      · rename_i hnone _
        exact .waits hnone
      · rename_i hanswer hrest
        exact .found hanswer (hrest ▸ ih)

theorem joins_joinInTurn (c : Cache K V) (futures : List (Future K V)) :
    Joins c futures (c.joinInTurn futures) := by
  induction futures with
  | nil => exact .nil
  | cons future futures ih =>
      unfold joinInTurn
      split
      · rename_i hnone
        exact .waits hnone
      · rename_i hanswer
        exact .failed hanswer
      · rename_i hanswer
        split
        · rename_i hrest
          exact .found hanswer (hrest ▸ ih)
        · rename_i hopen
          exact .passed hanswer ih hopen

theorem joins_join (c : Cache K V) (futures : List (Future K V)) :
    Joins c futures (c.join futures) := by
  unfold join
  split
  · exact c.joins_joinTogether futures
  · exact c.joins_joinInTurn futures

/-- Looked at together, the futures have failed as soon as one of them has. -/
theorem joinTogether_of_error (hmem : future ∈ futures)
    (herror : c.answer? future = some (.error error)) :
    ∃ error, c.joinTogether futures = .failed error := by
  induction futures with
  | nil => exact absurd hmem List.not_mem_nil
  | cons first rest ih =>
      unfold joinTogether
      rcases List.mem_cons.mp hmem with rfl | hmem
      · rw [herror]
        exact ⟨error, rfl⟩
      · obtain ⟨failure, hfailure⟩ := ih hmem
        rw [hfailure]
        rcases c.answer? first with _ | ⟨error | found⟩
        · exact ⟨failure, rfl⟩
        · exact ⟨error, rfl⟩
        · exact ⟨failure, rfl⟩

/-- Looked at in turn, they have failed once those before it have their answers. -/
theorem joinInTurn_of_error (hbefore : ∀ future ∈ before, (c.answer? future).isSome = true)
    (herror : c.answer? future = some (.error error)) :
    ∃ error, c.joinInTurn (before ++ future :: after) = .failed error := by
  induction before with
  | nil =>
      rw [List.nil_append, joinInTurn, herror]
      exact ⟨error, rfl⟩
  | cons first rest ih =>
      obtain ⟨hfirst, hrest⟩ := List.forall_mem_cons.mp hbefore
      obtain ⟨failure, hfailure⟩ := ih hrest
      rw [List.cons_append, joinInTurn, hfailure]
      rcases hanswer : c.answer? first with _ | ⟨error | found⟩
      · rw [hanswer] at hfirst
        exact absurd hfirst Bool.false_ne_true
      · exact ⟨error, rfl⟩
      · exact ⟨failure, rfl⟩

/-- When a failure is the failure of all. -/
theorem join_of_error (herror : c.answer? future = some (.error error))
    (hbefore : (before ++ future :: after).length ≤ jointLimit ∨
      ∀ future ∈ before, (c.answer? future).isSome = true) :
    ∃ error, c.join (before ++ future :: after) = .failed error := by
  unfold join
  split
  · exact joinTogether_of_error (List.mem_append_right _ List.mem_cons_self) herror
  · rename_i hlong
    exact joinInTurn_of_error (hbefore.resolve_left hlong) herror

end BoundedCache.Cache
