/-!
# Generators of positions

Where a victim is drawn, all that counts is that a draw is below its bound.  A generator
carries its rule with its state, and the rule carries this bound; nothing else is known of it.
-/

namespace BoundedCache

/-- A state of any number of words, and how a position is drawn from it. -/
structure Generator where
  words : List UInt64
  /-- A position below the bound, and the state after the draw. -/
  draw : List UInt64 → Nat → Nat × List UInt64
  draw_lt : ∀ words bound, 0 < bound → (draw words bound).1 < bound

namespace Generator

/-- A position below `n`, where there is one, and the generator after the draw. -/
def below (g : Generator) (n : Nat) : Nat × Generator :=
  ((g.draw g.words n).1, { g with words := (g.draw g.words n).2 })

theorem below_lt (g : Generator) {n : Nat} (hn : 0 < n) : (g.below n).1 < n :=
  g.draw_lt g.words n hn

end Generator

end BoundedCache
