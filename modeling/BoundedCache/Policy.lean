import BoundedCache.Policy.Ordered
import BoundedCache.Policy.Frequency
import BoundedCache.Policy.SecondChance
import BoundedCache.Policy.Random
import BoundedCache.Policy.Xoshiro

/-!
# Replacement policies

A policy holds elements it knows nothing about and names the next victim.  An
element is addressed by the index that `add` gave out, until it leaves by
`remove`, `evict` or `clear`; after that the index is stale and every operation
on it changes nothing.

`PolicyChoice` names the built-in policies, `Policy` holds one of them.  Two more
policies break the contract on purpose, each in one point: `forgetful` loses the
element that it should update, `stubborn` never names a victim.
-/

namespace BoundedCache

/-- The built-in policies by name.  A random policy may be given its seed. -/
inductive PolicyChoice where
  | fifo
  | lifo
  | lru
  | mru
  | lfu
  | clock
  | random (seed : Option UInt64)
  deriving DecidableEq, Repr

instance : Inhabited PolicyChoice := ⟨.lru⟩

/-- A policy with its elements. -/
inductive Policy (α : Type) where
  | ordered (policy : OrderedPolicy α)
  | frequency (policy : FrequencyPolicy α)
  | secondChance (policy : ClockPolicy α)
  | random (policy : RandomPolicy α)
  /-- Recency of use, but an update takes the element out and fails. -/
  | forgetful (policy : OrderedPolicy α)
  /-- Recency of use, but there is never a victim. -/
  | stubborn (policy : OrderedPolicy α)

/-- The empty policy of a choice.  Without a seed any generator will do. -/
def PolicyChoice.build {α : Type} : PolicyChoice → Policy α
  | .fifo => .ordered { discipline := .fifo }
  | .lifo => .ordered { discipline := .lifo }
  | .lru => .ordered { discipline := .lru }
  | .mru => .ordered { discipline := .mru }
  | .lfu => .frequency {}
  | .clock => .secondChance {}
  | .random seed => .random { generator := Generator.ofSeed (seed.getD 0) }

namespace Policy

variable {α : Type}

/-- The empty policy that forgets on update. -/
def emptyForgetful : Policy α := .forgetful { discipline := .lru }

/-- The empty policy that never names a victim. -/
def emptyStubborn : Policy α := .stubborn { discipline := .lru }

instance : Inhabited (Policy α) := ⟨PolicyChoice.build default⟩

/-- Take a new element. -/
def add (p : Policy α) (element : α) : Index × Policy α :=
  match p with
  | ordered p => (p.add element).map id ordered
  | frequency p => (p.add element).map id frequency
  | secondChance p => (p.add element).map id secondChance
  | random p => (p.add element).map id random
  | forgetful p => (p.add element).map id forgetful
  | stubborn p => (p.add element).map id stubborn

/-- Record a use of the element at `i`. -/
def touch (p : Policy α) (i : Index) : Policy α :=
  match p with
  | ordered p => ordered (p.touch i)
  | frequency p => frequency (p.touch i)
  | secondChance p => secondChance (p.touch i)
  | random p => random p
  | forgetful p => forgetful (p.touch i)
  | stubborn p => stubborn (p.touch i)

/-- Replace the element at `i`.  The answer is whether that was done. -/
def update (p : Policy α) (i : Index) (element : α) : Bool × Policy α :=
  match p with
  | ordered p => (p.update i element).map id ordered
  | frequency p => (p.update i element).map id frequency
  | secondChance p => (p.update i element).map id secondChance
  | random p => (p.update i element).map id random
  | forgetful p => (false, forgetful (p.remove i).2)
  | stubborn p => (p.update i element).map id stubborn

/-- Take out the element at `i`. -/
def remove (p : Policy α) (i : Index) : Option α × Policy α :=
  match p with
  | ordered p => (p.remove i).map id ordered
  | frequency p => (p.remove i).map id frequency
  | secondChance p => (p.remove i).map id secondChance
  | random p => (p.remove i).map id random
  | forgetful p => (p.remove i).map id forgetful
  | stubborn p => (p.remove i).map id stubborn

/-- Take out the victim. -/
def evict (p : Policy α) : Option α × Policy α :=
  match p with
  | ordered p => p.evict.map id ordered
  | frequency p => p.evict.map id frequency
  | secondChance p => p.evict.map id secondChance
  | random p => p.evict.map id random
  | forgetful p => p.evict.map id forgetful
  | stubborn p => (none, stubborn p)

/-- The element at `i`. -/
def peek? (p : Policy α) (i : Index) : Option α :=
  match p with
  | ordered p | forgetful p | stubborn p => p.peek? i
  | frequency p => p.peek? i
  | secondChance p => p.peek? i
  | random p => p.peek? i

/-- All elements, in the order of eviction where the policy has one. -/
def peekAll (p : Policy α) : List α :=
  match p with
  | ordered p | forgetful p | stubborn p => p.peekAll
  | frequency p => p.peekAll
  | secondChance p => p.peekAll
  | random p => p.peekAll

/-- Take out every element. -/
def clear (p : Policy α) : List α × Policy α :=
  match p with
  | ordered p => p.clear.map id ordered
  | frequency p => p.clear.map id frequency
  | secondChance p => p.clear.map id secondChance
  | random p => p.clear.map id random
  | forgetful p => p.clear.map id forgetful
  | stubborn p => p.clear.map id stubborn

/-- The number of elements. -/
def size (p : Policy α) : Nat :=
  match p with
  | ordered p | forgetful p | stubborn p => p.size
  | frequency p => p.size
  | secondChance p => p.size
  | random p => p.size

/-- Whether there is no element. -/
def isEmpty (p : Policy α) : Bool := p.size == 0

/-- The use count of the element at `i`, for the policy that counts uses. -/
def frequency? (p : Policy α) (i : Index) : Option Nat :=
  match p with
  | frequency p => p.frequency? i
  | _ => none

/-- Victims in turn, at most `fuel` of them. -/
def victims : Nat → Policy α → List α × Policy α
  | 0, p => ([], p)
  | fuel + 1, p =>
      match p.evict with
      | (none, p) => ([], p)
      | (some element, p) =>
          let (elements, p) := victims fuel p
          (element :: elements, p)

/-- Evict until no victim is left. -/
def drain (p : Policy α) : List α × Policy α := p.victims (p.size + 1)

/-- The operations on a policy, as data. -/
inductive Action (α : Type) where
  | add (element : α)
  | touch (index : Index)
  | update (index : Index) (element : α)
  | remove (index : Index)
  | evict
  | clear

/-- What one operation does. -/
def act (p : Policy α) : Action α → Policy α
  | .add element => (p.add element).2
  | .touch index => p.touch index
  | .update index element => (p.update index element).2
  | .remove index => (p.remove index).2
  | .evict => p.evict.2
  | .clear => p.clear.2

/-- The policy after a sequence of operations. -/
def run (p : Policy α) (actions : List (Action α)) : Policy α := actions.foldl act p

end Policy

end BoundedCache
