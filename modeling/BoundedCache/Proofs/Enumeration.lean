import Mathlib.Data.List.Nodup
import Mathlib.Data.List.Perm.Subperm
import Mathlib.Logic.Function.Basic
import Mathlib.Tactic.Common

/-!
# Lists that enumerate a partial function

A slab, a policy and a store all come down to a finite partial function: from an
index to the element there.  `Enumerates l f` says that the list `l` of pairs holds
every argument of `f` once, with its value.

Two lists that enumerate the same function are permutations of each other
(`Enumerates.perm`), and a list follows its function through the three changes that
there are: an argument is added, loses its value, or gets another one.
-/

namespace BoundedCache

variable {ι α β : Type}

/-- The list holds every argument of the partial function once, with its value. -/
structure Enumerates (l : List (ι × α)) (f : ι → Option α) : Prop where
  nodup : (l.map Prod.fst).Nodup
  mem_iff : ∀ i a, (i, a) ∈ l ↔ f i = some a

namespace Enumerates

variable {l l' : List (ι × α)} {f : ι → Option α} {i : ι} {a : α}

theorem perm (h : Enumerates l f) (h' : Enumerates l' f) : l.Perm l' := by
  refine (List.perm_ext_iff_of_nodup (List.Nodup.of_map _ h.nodup)
    (List.Nodup.of_map _ h'.nodup)).mpr ?_
  rintro ⟨i, a⟩
  rw [h.mem_iff, h'.mem_iff]

theorem of_perm (h : Enumerates l f) (hperm : l.Perm l') : Enumerates l' f where
  nodup := (hperm.map _).nodup h.nodup
  mem_iff i a := by rw [← hperm.mem_iff, h.mem_iff]

/-- A list enumerates one function only. -/
theorem ext {g : ι → Option α} (h : Enumerates l f) (h' : Enumerates l g) : f = g := by
  refine funext fun i => Option.ext fun a => ?_
  rw [← h.mem_iff, h'.mem_iff]

/-- The function takes the arguments, in the order of the list, to their values. -/
theorem filterMap_eq (h : Enumerates l f) : (l.map Prod.fst).filterMap f = l.map Prod.snd := by
  rw [List.filterMap_map, ← List.filterMap_eq_map]
  refine List.filterMap_congr fun item hitem => ?_
  exact (h.mem_iff item.1 item.2).mp hitem

theorem nil : Enumerates ([] : List (ι × α)) fun _ => none where
  nodup := List.nodup_nil
  mem_iff i a := by simp

/-- Only the function without arguments is enumerated by the empty list. -/
theorem eq_none_of_nil (h : Enumerates [] f) (i : ι) : f i = none := by
  cases hi : f i with
  | none => rfl
  | some a => exact absurd ((h.mem_iff i a).mpr hi) List.not_mem_nil

theorem eq_nil_of_none (h : Enumerates l f) (hnone : ∀ i, f i = none) : l = [] := by
  refine List.eq_nil_iff_forall_not_mem.mpr ?_
  rintro ⟨i, a⟩ hmem
  have := (h.mem_iff i a).mp hmem
  rw [hnone] at this
  exact Option.some_ne_none a this.symm

theorem not_mem_of_none (h : Enumerates l f) (hi : f i = none) : i ∉ l.map Prod.fst := by
  intro hindex
  obtain ⟨⟨j, b⟩, hmem, rfl⟩ := List.mem_map.mp hindex
  exact Option.some_ne_none b (((h.mem_iff j b).mp hmem).symm.trans hi)

/-- An argument can be moved to the front of the list. -/
theorem exists_perm_cons (h : Enumerates l f) (hi : f i = some a) :
    ∃ rest, l.Perm ((i, a) :: rest) := by
  obtain ⟨before, after, rfl⟩ := List.append_of_mem ((h.mem_iff i a).mpr hi)
  exact ⟨before ++ after, List.perm_middle⟩

theorem map (h : Enumerates l f) (g : α → β) :
    Enumerates (l.map fun x => (x.1, g x.2)) fun i => (f i).map g where
  nodup := by
    rw [List.map_map]
    exact h.nodup
  mem_iff i b := by
    simp only [List.mem_map, Prod.mk.injEq, Option.map_eq_some_iff, Prod.exists]
    constructor
    · rintro ⟨i, a, hmem, rfl, rfl⟩
      exact ⟨a, (h.mem_iff i a).mp hmem, rfl⟩
    · rintro ⟨a, hi, rfl⟩
      exact ⟨i, a, (h.mem_iff i a).mpr hi, rfl, rfl⟩

/-- Every value is looked up once more, and the arguments for which that fails are gone. -/
theorem bind (h : Enumerates l f) (g : α → Option β) :
    Enumerates (l.filterMap fun x => (g x.2).map (x.1, ·)) fun i => (f i).bind g where
  nodup := by
    refine h.nodup.sublist ?_
    rw [List.map_filterMap, ← List.filterMap_eq_map]
    clear h
    induction l with
    | nil => exact .slnil
    | cons x rest ih =>
        rw [List.filterMap_cons, List.filterMap_cons]
        cases g x.2 with
        | none => exact ih.cons _
        | some b => exact ih.cons_cons _
  mem_iff i b := by
    simp only [List.mem_filterMap, Option.map_eq_some_iff, Option.bind_eq_some_iff, Prod.exists,
      Prod.mk.injEq]
    constructor
    · rintro ⟨i, a, hmem, b, hb, rfl, rfl⟩
      exact ⟨a, (h.mem_iff i a).mp hmem, hb⟩
    · rintro ⟨a, hi, hb⟩
      exact ⟨i, a, (h.mem_iff i a).mpr hi, b, hb, rfl, rfl⟩

/-- The first argument does not come again. -/
theorem not_mem_of_cons (h : Enumerates ((i, a) :: l) f) (b : α) : (i, b) ∉ l := by
  intro hmem
  have hnodup := h.nodup
  rw [List.map_cons, List.nodup_cons] at hnodup
  exact hnodup.1 (List.mem_map.mpr ⟨(i, b), hmem, rfl⟩)

/-- A table with distinct keys enumerates what it shows. -/
theorem lookup [BEq ι] [LawfulBEq ι] {table : List (ι × α)}
    (hkeys : (table.map Prod.fst).Nodup) : Enumerates table fun key => table.lookup key := by
  refine ⟨hkeys, fun key a => ?_⟩
  induction table with
  | nil => simp
  | cons entry rest ih =>
      obtain ⟨k, b⟩ := entry
      rw [List.map_cons, List.nodup_cons] at hkeys
      rw [List.mem_cons, ih hkeys.2, List.lookup_cons]
      by_cases hk : key = k
      · subst hk
        have hnone : rest.lookup key = none := by
          rw [List.lookup_eq_none_iff]
          intro entry hentry
          have hne : key ≠ entry.1 :=
            fun heq => hkeys.1 (List.mem_map.mpr ⟨entry, hentry, heq.symm⟩)
          simpa using hne
        simp [hnone, eq_comm]
      · simp [hk, beq_false_of_ne hk]

section

variable [DecidableEq ι]

/-- What is still there after one argument has lost its value was there before. -/
theorem update_none_eq_some {j : ι} :
    Function.update f i none j = some a ↔ j ≠ i ∧ f j = some a := by
  by_cases hj : j = i
  · simp [hj]
  · simp [hj]

theorem insert (h : Enumerates l f) (hi : f i = none) (a : α) :
    Enumerates ((i, a) :: l) (Function.update f i (some a)) where
  nodup := by
    rw [List.map_cons, List.nodup_cons]
    exact ⟨h.not_mem_of_none hi, h.nodup⟩
  mem_iff j b := by
    by_cases hj : j = i
    · subst hj
      have hnot : (j, b) ∉ l := by
        rw [h.mem_iff, hi]
        exact (Option.some_ne_none b).symm
      simp [hnot, eq_comm]
    · simp [hj, h.mem_iff]

theorem erase (h : Enumerates ((i, a) :: l) f) : Enumerates l (Function.update f i none) where
  nodup := by
    have hnodup := h.nodup
    rw [List.map_cons, List.nodup_cons] at hnodup
    exact hnodup.2
  mem_iff j b := by
    by_cases hj : j = i
    · subst hj
      simp [h.not_mem_of_cons b]
    · rw [Function.update_of_ne hj, ← h.mem_iff, List.mem_cons]
      simp [hj]

theorem set (h : Enumerates ((i, a) :: l) f) (b : α) :
    Enumerates ((i, b) :: l) (Function.update f i (some b)) := by
  have hset := h.erase.insert (i := i) (by rw [Function.update_self]) b
  rwa [Function.update_idem] at hset

end

end Enumerates

/-- Without its duplicates a list has every element once. -/
theorem nodup_eraseDups [BEq α] [LawfulBEq α] (l : List α) : l.eraseDups.Nodup := by
  induction hlength : l.length using Nat.strongRecOn generalizing l with
  | ind length ih =>
      cases l with
      | nil => exact List.nodup_nil
      | cons a rest =>
          have hshorter : (rest.filter fun b => !b == a).length < length := by
            rw [← hlength]
            exact Nat.lt_succ_of_le (List.length_filter_le _ _)
          rw [List.eraseDups_cons, List.nodup_cons]
          refine ⟨fun hmem => ?_, ih _ hshorter _ rfl⟩
          have hkept := (List.mem_filter.mp (List.mem_eraseDups.mp hmem)).2
          rw [beq_self_eq_true] at hkept
          exact absurd hkept Bool.false_ne_true

/-- Of elements that may each have a value one is replaced by an element that has none, and its
value is gone from the list of values. -/
theorem perm_filterMap_set {f : α → Option β} {l : List α} {i : Nat} {x y : α}
    (hx : l[i]? = some x) (hy : f y = none) :
    (l.filterMap f).Perm ((f x).toList ++ (l.set i y).filterMap f) := by
  obtain ⟨hi, hget⟩ := List.getElem?_eq_some_iff.mp hx
  have hsplit : l = l.take i ++ x :: l.drop (i + 1) := by
    rw [← hget, ← List.drop_eq_getElem_cons hi, List.take_append_drop]
  rw [List.set_eq_take_append_cons_drop, if_pos hi, List.filterMap_append,
    List.filterMap_cons_none hy]
  conv_lhs => rw [hsplit, List.filterMap_append, List.filterMap_cons]
  cases f x with
  | none => exact .refl _
  | some value => exact List.perm_middle

end BoundedCache
