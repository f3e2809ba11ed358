import StackMachine.Double.Basic

/-!
Rounding to the nearest double, ties to the even word. Every conversion into doubles (whole numbers,
decimal literals, roots) goes through `nearestWord`, which rounds a quotient of natural numbers.
-/

set_option autoImplicit false

namespace StackMachine

def roundHalfEven (num den : Nat) : Nat :=
  let quotient := num / den
  let twice := 2 * (num % den)
  if den < twice ∨ (twice = den ∧ quotient % 2 = 1) then quotient + 1 else quotient

namespace Double

/-- The word of the double nearest to `num / den` units. The quotient is rounded to 53 significant bits;
a carry out of them moves on to the next exponent by itself, and what passes the largest finite word
becomes infinity. -/
def nearestWord (num den : Nat) : Nat :=
  let shift := (num / den).log2 - 52
  min (shift * leadingBit + roundHalfEven num (den <<< shift)) infinityWord

def wordOfUnits (units : Nat) : Nat := nearestWord units 1

def ofNat (n : Nat) : Double := ofWord false (wordOfUnits (n * unitsPerOne))

def ofByte (b : UInt8) : Double := ofNat b.toNat

/-- The natural number that a double stands for, if there is one and it is at most `maxSafe`. Both zeros
stand for `0`. -/
def toNat? (x : Double) : Option Nat :=
  let n := x.units / unitsPerOne
  if x.isFinite ∧ x.units % unitsPerOne = 0 ∧ n ≤ maxSafe ∧ (x.isNegative → n = 0) then some n
  else none

end Double

end StackMachine
