import BoundedCache.Proofs.Policy.Drain

/-!
# What the answers of a run tell about each element

A caller sees the index that each `add` hands out, and whether an `update` found its element.
That is enough to know of every live element when it came in, as the how-manieth, when it was
last used, and how often: `Policy.timeline` keeps these books along a run.  They are kept by
index.  When an index is handed out again its books begin anew, so that a use through a stale
index goes into books that nobody reads.

Which elements are live follows from the answers too: `Policy.Holds` begins with none, takes in what
is added under the index that the answer names, and lets go what the answers hand back.

`Policy.Queues` says that some items are the elements of a policy in the order in which they are
listed and given up.  Which order that is, in terms of the books, is stated for the ordered
disciplines in `Policy/Stamps` and for the counts of uses in `Policy/Ranks`; there an invariant
between policy and books is shown for one operation, and `timeline_keeps` takes it along a run.
-/

namespace BoundedCache

variable {α : Type}

/-! ## Books -/

/-- What is known of an element: the time of its `add`, how many were added up to then, itself
included, the time of its last use, and the number of its uses since. -/
structure Usage where
  added : Nat := 0
  ordinal : Nat := 0
  used : Nat := 0
  uses : Nat := 0

/-- One more use. -/
def Usage.use (u : Usage) (now : Nat) : Usage := { u with used := now, uses := u.uses + 1 }

/-- The operations so far, how many of them were additions, and the usage of each index. -/
structure Timeline where
  now : Nat := 0
  adds : Nat := 0
  usage : Index → Usage := fun _ => {}

namespace Timeline

/-- An element comes in.  That counts as its first use, but not among the uses since. -/
def add (t : Timeline) (i : Index) : Timeline where
  now := t.now + 1
  adds := t.adds + 1
  usage := Function.update t.usage i ⟨t.now + 1, t.adds + 1, t.now + 1, 0⟩

/-- The element at `i` is used. -/
def use (t : Timeline) (i : Index) : Timeline :=
  { t with now := t.now + 1, usage := Function.update t.usage i ((t.usage i).use (t.now + 1)) }

/-- Nothing comes in, and nothing is used. -/
def pass (t : Timeline) : Timeline := { t with now := t.now + 1 }

/-- The books after an operation and its answer. -/
def next (t : Timeline) : Policy.Action α → Policy.Answer α → Timeline
  | .add _, .index i => t.add i
  | .touch i, _ => t.use i
  | .update i _, .updated true => t.use i
  | _, _ => t.pass

variable {t : Timeline} {i j : Index}

theorem usage_add_self (t : Timeline) (i : Index) :
    (t.add i).usage i = ⟨t.now + 1, t.adds + 1, t.now + 1, 0⟩ :=
  Function.update_self _ _ _

theorem usage_add_of_ne (hne : j ≠ i) : (t.add i).usage j = t.usage j :=
  Function.update_of_ne hne _ _

theorem usage_use_self (t : Timeline) (i : Index) :
    (t.use i).usage i = (t.usage i).use (t.now + 1) :=
  Function.update_self _ _ _

theorem usage_use_of_ne (hne : j ≠ i) : (t.use i).usage j = t.usage j :=
  Function.update_of_ne hne _ _

end Timeline

namespace Policy

variable {p : Policy α} {items : List (Index × α)}

/-- The books after a run that begins with the books `t`. -/
def timeline (p : Policy α) (t : Timeline) : List (Action α) → Timeline
  | [] => t
  | action :: actions => (p.act action).timeline (t.next action (p.answer action)) actions

/-- What each operation keeps between policy and books is kept by a run. -/
theorem timeline_keeps {inv : Policy α → Timeline → Prop}
    (hstep : ∀ p t action, inv p t → inv (p.act action) (t.next action (p.answer action)))
    {t : Timeline} (h : inv p t) (actions : List (Action α)) :
    inv (p.run actions) (p.timeline t actions) := by
  induction actions generalizing p t with
  | nil => exact h
  | cons action actions ih => exact ih (hstep p t action h)

/-! ## The elements of a run -/

/-- What an operation with this answer does to the elements that are there, each with its index.
They are in no particular order. -/
inductive Turnover : List (Index × α) → Action α → Answer α → List (Index × α) → Prop where
  | added {live : List (Index × α)} {i : Index} (element : α) (hfresh : i ∉ live.map Prod.fst) :
      Turnover live (.add element) (.index i) ((i, element) :: live)
  | touched {live : List (Index × α)} (i : Index) : Turnover live (.touch i) .done live
  | updated {live rest : List (Index × α)} {i : Index} {old : α} (element : α)
      (hlive : live.Perm ((i, old) :: rest)) :
      Turnover live (.update i element) (.updated true) ((i, element) :: rest)
  | notUpdated {live : List (Index × α)} {i : Index} (element : α)
      (hstale : i ∉ live.map Prod.fst) : Turnover live (.update i element) (.updated false) live
  | removed {live rest : List (Index × α)} {i : Index} {element : α}
      (hlive : live.Perm ((i, element) :: rest)) :
      Turnover live (.remove i) (.element (some element)) rest
  | notRemoved {live : List (Index × α)} {i : Index} (hstale : i ∉ live.map Prod.fst) :
      Turnover live (.remove i) (.element none) live
  | evicted {live rest : List (Index × α)} {i : Index} {element : α}
      (hlive : live.Perm ((i, element) :: rest)) :
      Turnover live .evict (.element (some element)) rest
  | exhausted : Turnover [] .evict (.element none) []
  | cleared {live : List (Index × α)} {elements : List α}
      (hall : elements.Perm (live.map Prod.snd)) :
      Turnover live .clear (.elements elements) []

/-- A policy with the elements `live` has the elements `live'` after a run. -/
inductive Holds : Policy α → List (Index × α) → List (Action α) → List (Index × α) → Prop where
  | done (p : Policy α) (live : List (Index × α)) : Holds p live [] live
  | step {p : Policy α} {live live' live'' : List (Index × α)} {action : Action α}
      {actions : List (Action α)} (hturnover : Turnover live action (p.answer action) live')
      (hrest : Holds (p.act action) live' actions live'') :
      Holds p live (action :: actions) live''

variable {live : List (Index × α)}

theorem Sound.turnover (h : p.Sound) (hbuiltIn : p.BuiltIn) (hlive : Enumerates live p.peek?)
    (action : Action α) :
    ∃ live', Turnover live action (p.answer action) live' ∧
      Enumerates live' (p.act action).peek? := by
  cases action with
  | add element =>
      obtain ⟨⟨hfresh, hafter⟩, -⟩ := h.add element
      refine ⟨_, .added element (hlive.not_mem_of_none hfresh), ?_⟩
      show Enumerates _ (p.add element).2.peek?
      rw [hafter]
      exact hlive.insert hfresh element
  | touch i =>
      obtain ⟨hpeek, -⟩ := h.touch i
      exact ⟨live, .touched i, hpeek ▸ hlive⟩
  | update i element =>
      obtain ⟨hanswer, hafter⟩ := h.replaces hbuiltIn i element
      show ∃ live', Turnover live _ (.updated (p.update i element).1) live' ∧
        Enumerates live' (p.update i element).2.peek?
      rw [hanswer, hafter]
      cases hi : p.peek? i with
      | none =>
          refine ⟨live, .notUpdated element (hlive.not_mem_of_none hi), ?_⟩
          rwa [Option.map_none, ← hi, Function.update_eq_self]
      | some old =>
          obtain ⟨rest, hperm⟩ := hlive.exists_perm_cons hi
          exact ⟨_, .updated element hperm, (hlive.of_perm hperm).set element⟩
  | remove i =>
      obtain ⟨⟨hanswer, hafter⟩, -⟩ := h.remove i
      show ∃ live', Turnover live _ (.element (p.remove i).1) live' ∧
        Enumerates live' (p.remove i).2.peek?
      rw [hanswer, hafter]
      cases hi : p.peek? i with
      | none =>
          refine ⟨live, .notRemoved (hlive.not_mem_of_none hi), ?_⟩
          rwa [← hi, Function.update_eq_self]
      | some element =>
          obtain ⟨rest, hperm⟩ := hlive.exists_perm_cons hi
          exact ⟨rest, .removed hperm, (hlive.of_perm hperm).erase⟩
  | evict =>
      have hevicts := h.evict.2.1 hbuiltIn.yielding
      show ∃ live', Turnover live .evict (.element p.evict.1) live' ∧
        Enumerates live' p.evict.2.peek?
      cases hvictim : p.evict.1 with
      | none =>
          rw [hvictim] at hevicts
          obtain ⟨hnone, hafter⟩ := hevicts.of_none
          obtain rfl := hlive.eq_nil_of_none hnone
          exact ⟨[], .exhausted, hafter ▸ hlive⟩
      | some element =>
          rw [hvictim] at hevicts
          obtain ⟨i, hi, hafter⟩ := hevicts.of_some
          obtain ⟨rest, hperm⟩ := hlive.exists_perm_cons hi
          exact ⟨rest, .evicted hperm, hafter ▸ (hlive.of_perm hperm).erase⟩
  | clear =>
      obtain ⟨hlists, hafter, -⟩ := h.clear
      refine ⟨[], .cleared (hlists.perm hlive.lists), ?_⟩
      show Enumerates [] p.clear.2.peek?
      rw [hafter]
      exact .nil

theorem Sound.holds (h : p.Sound) (hbuiltIn : p.BuiltIn) (hlive : Enumerates live p.peek?)
    (actions : List (Action α)) :
    ∃ live', p.Holds live actions live' ∧ Enumerates live' (p.run actions).peek? := by
  induction actions generalizing p live with
  | nil => exact ⟨live, .done p live, hlive⟩
  | cons action actions ih =>
      obtain ⟨next, hturnover, hnext⟩ := h.turnover hbuiltIn hlive action
      obtain ⟨live', hrest, hlive'⟩ := ih (h.act action) (hbuiltIn.act action) hnext
      exact ⟨live', .step hturnover hrest, hlive'⟩

/-! ## The order of the elements -/

/-- The items are the elements in the order in which the policy lists them and gives them up:
the first is the next victim, the others stay when it has left, and in the end there is nothing
left. -/
structure Queues (p : Policy α) (items : List (Index × α)) : Prop where
  enumerates : Enumerates items p.peek?
  peekAll_eq : p.peekAll = items.map Prod.snd
  evict_eq : p.evict.1 = items.head?.map Prod.snd
  rest : Enumerates items.tail p.evict.2.peek?
  drain_eq : p.drain.1 = items.map Prod.snd
  drained : p.drain.2.peek? = fun _ => none

/-- What queues after a run from empty is what the answers of the run leave. -/
theorem Queues.exists_holds {start : Policy α} {actions : List (Action α)}
    (h : (start.run actions).Queues items) (hstart : start.Starts) (hbuiltIn : start.BuiltIn) :
    ∃ live, start.Holds [] actions live ∧ items.Perm live := by
  have hempty : Enumerates [] start.peek? := by
    rw [hstart.peek?]
    exact .nil
  obtain ⟨live, hholds, hlive⟩ := hstart.sound.holds hbuiltIn hempty actions
  exact ⟨live, hholds, h.enumerates.perm hlive⟩

/-- The next victim is the first of them all. -/
theorem Sound.evict_eq_head (h : p.Sound) : p.evict.1 = p.drain.1.head? := by
  cases hvictim : p.evict.1 with
  | none => rw [drain_of_none hvictim, List.head?_nil]
  | some element => rw [h.drain_of_some hvictim, List.head?_cons]

/-- A policy that yields has nothing left when it names no victim. -/
theorem Sound.drained (h : p.Sound) (hyield : p.Yielding) : p.drain.2.peek? = fun _ => none := by
  revert hyield
  refine Sound.evict_induction (motive := fun p => p.Yielding → p.drain.2.peek? = fun _ => none)
    (fun p h hvictim hyield => ?_) (fun p element h hvictim ih hyield => ?_) h
  · have hevicts := h.evict.2.1 hyield
    rw [hvictim] at hevicts
    obtain ⟨hnone, hafter⟩ := hevicts.of_none
    rw [drain_of_none hvictim, hafter]
    exact funext hnone
  · rw [h.drain_of_some hvictim]
    exact ih (h.evict.2.2.yielding hyield)

/-- A policy that lists its elements in the order in which it gives them up. -/
theorem Sound.queues (h : p.Sound) (hyield : p.Yielding) (hitems : Enumerates items p.peek?)
    (hall : p.peekAll = items.map Prod.snd) (hdrain : p.drain.1 = p.peekAll)
    (hrest : Enumerates items.tail p.evict.2.peek?) : p.Queues items where
  enumerates := hitems
  peekAll_eq := hall
  evict_eq := by rw [h.evict_eq_head, hdrain, hall, List.head?_map]
  rest := hrest
  drain_eq := hdrain.trans hall
  drained := h.drained hyield

end Policy

end BoundedCache
