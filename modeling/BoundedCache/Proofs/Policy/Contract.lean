import BoundedCache.Policy
import BoundedCache.Proofs.Policy.Frequency
import BoundedCache.Proofs.Policy.Ordered
import BoundedCache.Proofs.Policy.Random
import BoundedCache.Proofs.Policy.SecondChance

/-!
# What a store may expect of its policy

Every policy meets the same contract, the two that break it included as far as they go:
an update may take the element out instead of replacing it, and a policy that does not
yield never names a victim.  The contract is stated about `peek?`; it is all that the
theory of the store knows of a policy.

A policy starts empty (`Starts`), and every operation leads from a sound policy to a
sound one (`Follows`).
-/

namespace BoundedCache

variable {α : Type}

/-- The elements after an update.  If it fails, the element is gone. -/
inductive Updates (f : Index → Option α) (i : Index) (element : α) (done : Bool)
    (g : Index → Option α) : Prop where
  | replaced (h : Replaces f i element done g)
  | lost (hdone : done = false) (hafter : g = Function.update f i none)

/-- The elements after an eviction, with a policy that may refuse. -/
inductive Yields (f : Index → Option α) (removed : Option α) (g : Index → Option α) : Prop where
  | evicted (h : Evicts f removed g)
  | refused (hremoved : removed = none) (hafter : g = f)

/-- After an update that lost the element, adding it again makes up for the loss. -/
theorem adds_of_updates {f g g' : Index → Option α} {i j : Index} {done : Bool}
    {element : α}
    (h : Updates f i element done g) (hi : f i = some element) (hadds : Adds g element j g') :
    Adds (Function.update f i none) element (if done = true then i else j)
      (if done = true then g else g') := by
  rcases h with ⟨hanswer, hafter⟩ | ⟨rfl, hafter⟩
  · rw [hi, Option.isSome_some] at hanswer
    rw [hi, Option.map_some] at hafter
    rw [if_pos hanswer, if_pos hanswer, hafter]
    exact ⟨Function.update_self _ _ _, (Function.update_idem _ _ _).symm⟩
  · rw [if_neg (by simp), if_neg (by simp), ← hafter]
    exact hadds

theorem Yields.of_none {f g : Index → Option α} (h : Yields f none g) : g = f := by
  cases h with
  | evicted hevicts => exact hevicts.of_none.2
  | refused _ hafter => exact hafter

theorem Yields.of_some {f g : Index → Option α} {element : α} (h : Yields f (some element) g) :
    ∃ i, f i = some element ∧ g = Function.update f i none := by
  cases h with
  | evicted hevicts => exact hevicts.of_some
  | refused hremoved _ => exact absurd hremoved (by simp)

namespace Policy

variable {p p' p'' : Policy α}

/-- The representation is sound. -/
def Sound : Policy α → Prop
  | ordered p | forgetful p | stubborn p => p.Sound
  | frequency p => p.Sound
  | secondChance p => p.Sound
  | random p => p.Sound

/-- The policy names a victim as long as it has an element. -/
def Yielding : Policy α → Prop
  | stubborn _ => False
  | _ => True

/-- The empty policies: the built-in ones, with any generator, and the two that break
the contract. -/
inductive Starts : Policy α → Prop where
  | builtIn (choice : PolicyChoice) : Starts choice.build
  | random (generator : Generator) : Starts (.random { generator := generator })
  | forgetful (discipline : Discipline) : Starts (.forgetful { discipline := discipline })
  | stubborn (discipline : Discipline) : Starts (.stubborn { discipline := discipline })

/-- A sound policy that yields if the one before did. -/
structure Follows (p p' : Policy α) : Prop where
  sound : p'.Sound
  yielding : p.Yielding → p'.Yielding

theorem Follows.trans (h : Follows p p') (h' : Follows p' p'') : Follows p p'' :=
  ⟨h'.sound, fun hyield => h'.yielding (h.yielding hyield)⟩

theorem Sound.follows (h : p.Sound) : Follows p p := ⟨h, id⟩

theorem Starts.sound (h : p.Starts) : p.Sound := by
  cases h with
  | builtIn choice =>
      cases choice with
      | fifo => exact OrderedPolicy.sound_start _
      | lifo => exact OrderedPolicy.sound_start _
      | lru => exact OrderedPolicy.sound_start _
      | mru => exact OrderedPolicy.sound_start _
      | lfu => exact FrequencyPolicy.sound_start
      | clock => exact ClockPolicy.sound_start
      | random seed => exact RandomPolicy.sound_start _
  | random generator => exact RandomPolicy.sound_start generator
  | forgetful discipline => exact OrderedPolicy.sound_start discipline
  | stubborn discipline => exact OrderedPolicy.sound_start discipline

theorem Starts.peek? (h : p.Starts) : p.peek? = fun _ => none := by
  cases h with
  | builtIn choice => cases choice <;> rfl
  | random generator => rfl
  | forgetful discipline => rfl
  | stubborn discipline => rfl

/-! ## The contract -/

theorem Sound.add (h : p.Sound) (element : α) :
    Adds p.peek? element (p.add element).1 (p.add element).2.peek? ∧
      Follows p (p.add element).2 := by
  cases p with
  | ordered p => exact (OrderedPolicy.Sound.add h element).imp_right fun hsound => ⟨hsound, id⟩
  | frequency p => exact (FrequencyPolicy.Sound.add h element).imp_right fun hsound => ⟨hsound, id⟩
  | secondChance p => exact (ClockPolicy.Sound.add h element).imp_right fun hsound => ⟨hsound, id⟩
  | random p => exact (RandomPolicy.Sound.add h element).imp_right fun hsound => ⟨hsound, id⟩
  | forgetful p => exact (OrderedPolicy.Sound.add h element).imp_right fun hsound => ⟨hsound, id⟩
  | stubborn p => exact (OrderedPolicy.Sound.add h element).imp_right fun hsound => ⟨hsound, id⟩

theorem Sound.touch (h : p.Sound) (i : Index) :
    (p.touch i).peek? = p.peek? ∧ Follows p (p.touch i) := by
  cases p with
  | ordered p => exact (OrderedPolicy.Sound.touch h i).imp_right fun hsound => ⟨hsound, id⟩
  | frequency p => exact (FrequencyPolicy.Sound.touch h i).imp_right fun hsound => ⟨hsound, id⟩
  | secondChance p => exact (ClockPolicy.Sound.touch h i).imp_right fun hsound => ⟨hsound, id⟩
  | random p => exact ⟨rfl, Sound.follows h⟩
  | forgetful p => exact (OrderedPolicy.Sound.touch h i).imp_right fun hsound => ⟨hsound, id⟩
  | stubborn p => exact (OrderedPolicy.Sound.touch h i).imp_right fun hsound => ⟨hsound, id⟩

theorem Sound.update (h : p.Sound) (i : Index) (element : α) :
    Updates p.peek? i element (p.update i element).1 (p.update i element).2.peek? ∧
      Follows p (p.update i element).2 := by
  cases p with
  | ordered p =>
      obtain ⟨hreplaces, hsound⟩ := OrderedPolicy.Sound.update h i element
      exact ⟨.replaced hreplaces, hsound, id⟩
  | frequency p =>
      obtain ⟨hreplaces, hsound⟩ := FrequencyPolicy.Sound.update h i element
      exact ⟨.replaced hreplaces, hsound, id⟩
  | secondChance p =>
      obtain ⟨hreplaces, hsound⟩ := ClockPolicy.Sound.update h i element
      exact ⟨.replaced hreplaces, hsound, id⟩
  | random p =>
      obtain ⟨hreplaces, hsound⟩ := RandomPolicy.Sound.update h i element
      exact ⟨.replaced hreplaces, hsound, id⟩
  | forgetful p =>
      obtain ⟨hremoves, hsound⟩ := OrderedPolicy.Sound.remove h i
      exact ⟨.lost rfl hremoves.after, hsound, id⟩
  | stubborn p =>
      obtain ⟨hreplaces, hsound⟩ := OrderedPolicy.Sound.update h i element
      exact ⟨.replaced hreplaces, hsound, id⟩

theorem Sound.remove (h : p.Sound) (i : Index) :
    Removes p.peek? i (p.remove i).1 (p.remove i).2.peek? ∧ Follows p (p.remove i).2 := by
  cases p with
  | ordered p => exact (OrderedPolicy.Sound.remove h i).imp_right fun hsound => ⟨hsound, id⟩
  | frequency p => exact (FrequencyPolicy.Sound.remove h i).imp_right fun hsound => ⟨hsound, id⟩
  | secondChance p => exact (ClockPolicy.Sound.remove h i).imp_right fun hsound => ⟨hsound, id⟩
  | random p => exact (RandomPolicy.Sound.remove h i).imp_right fun hsound => ⟨hsound, id⟩
  | forgetful p => exact (OrderedPolicy.Sound.remove h i).imp_right fun hsound => ⟨hsound, id⟩
  | stubborn p => exact (OrderedPolicy.Sound.remove h i).imp_right fun hsound => ⟨hsound, id⟩

theorem Sound.evict (h : p.Sound) :
    Yields p.peek? p.evict.1 p.evict.2.peek? ∧
      (p.Yielding → Evicts p.peek? p.evict.1 p.evict.2.peek?) ∧ Follows p p.evict.2 := by
  cases p with
  | ordered p =>
      obtain ⟨hevicts, hsound⟩ := OrderedPolicy.Sound.evict h
      exact ⟨.evicted hevicts, fun _ => hevicts, hsound, id⟩
  | frequency p =>
      obtain ⟨hevicts, hsound⟩ := FrequencyPolicy.Sound.evict h
      exact ⟨.evicted hevicts, fun _ => hevicts, hsound, id⟩
  | secondChance p =>
      obtain ⟨hevicts, hsound⟩ := ClockPolicy.Sound.evict h
      exact ⟨.evicted hevicts, fun _ => hevicts, hsound, id⟩
  | random p =>
      obtain ⟨hevicts, hsound⟩ := RandomPolicy.Sound.evict h
      exact ⟨.evicted hevicts, fun _ => hevicts, hsound, id⟩
  | forgetful p =>
      obtain ⟨hevicts, hsound⟩ := OrderedPolicy.Sound.evict h
      exact ⟨.evicted hevicts, fun _ => hevicts, hsound, id⟩
  | stubborn p => exact ⟨.refused rfl rfl, False.elim, h, id⟩

theorem Sound.clear (h : p.Sound) :
    Lists p.peek? p.clear.1 ∧ (p.clear.2.peek? = fun _ => none) ∧ Follows p p.clear.2 := by
  cases p with
  | ordered p =>
      obtain ⟨hlists, hnone, hsound⟩ := OrderedPolicy.Sound.clear h
      exact ⟨hlists, hnone, hsound, id⟩
  | frequency p =>
      obtain ⟨hlists, hnone, hsound⟩ := FrequencyPolicy.Sound.clear h
      exact ⟨hlists, hnone, hsound, id⟩
  | secondChance p =>
      obtain ⟨hlists, hnone, hsound⟩ := ClockPolicy.Sound.clear h
      exact ⟨hlists, hnone, hsound, id⟩
  | random p =>
      obtain ⟨hlists, hnone, hsound⟩ := RandomPolicy.Sound.clear h
      exact ⟨hlists, hnone, hsound, id⟩
  | forgetful p =>
      obtain ⟨hlists, hnone, hsound⟩ := OrderedPolicy.Sound.clear h
      exact ⟨hlists, hnone, hsound, id⟩
  | stubborn p =>
      obtain ⟨hlists, hnone, hsound⟩ := OrderedPolicy.Sound.clear h
      exact ⟨hlists, hnone, hsound, id⟩

theorem Sound.peekAll (h : p.Sound) :
    Lists p.peek? p.peekAll ∧ p.size = p.peekAll.length := by
  cases p with
  | ordered p => exact OrderedPolicy.Sound.peekAll h
  | frequency p => exact FrequencyPolicy.Sound.peekAll h
  | secondChance p => exact ClockPolicy.Sound.peekAll h
  | random p => exact RandomPolicy.Sound.peekAll h
  | forgetful p => exact OrderedPolicy.Sound.peekAll h
  | stubborn p => exact OrderedPolicy.Sound.peekAll h

end Policy

end BoundedCache
