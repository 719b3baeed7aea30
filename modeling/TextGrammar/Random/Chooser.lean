/-!
# Choosers

A chooser is a state from which choices among a number of items are drawn. There is always at least
one item to choose from, so the number given is that of the items besides the first.
-/
namespace TextGrammar

class Chooser (σ : Type) where
  choose : (others : Nat) → σ → Fin (others + 1) × σ

/-- A choice that was made: the number of items, and which one. -/
structure Draw where
  stop : Nat
  pick : Nat
  deriving DecidableEq, Repr

/-- Picks that were fixed beforehand, and the one to make when they are used up. A pick is taken
modulo the number of items. -/
structure Script where
  picks : List Int
  fallback : Int
  deriving DecidableEq, Repr

namespace Script

def reduce (others : Nat) (pick : Int) : Fin (others + 1) :=
  ⟨(pick % ((others : Int) + 1)).toNat, by
    have low := Int.emod_nonneg pick (show (others : Int) + 1 ≠ 0 by omega)
    have high := Int.emod_lt_of_pos pick (show (0 : Int) < (others : Int) + 1 by omega)
    omega⟩

instance : Chooser Script where
  choose others script :=
    match script.picks with
    | [] => (reduce others script.fallback, script)
    | pick :: picks => (reduce others pick, { script with picks := picks })

end Script
end TextGrammar
