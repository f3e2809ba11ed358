import StackMachine.Double.Nearest

/-!
Decimals and doubles. `Decimal.toWord` reads a decimal as the nearest double; `Decimal.ofWord` is the
shortest decimal that reads back as a given word.
-/

set_option autoImplicit false

namespace StackMachine

structure Decimal where
  digits : Nat
  exponent : Int
  deriving DecidableEq, Repr

namespace Decimal

def tenTo (n : Nat) : Nat := Nat.pow 10 n

def digitCount (n : Nat) : Nat := (Nat.toDigits 10 n).length

/-- The word of the nearest double. A decimal with its first digit far beyond the range of finite doubles
is decided by the place of that digit, whatever the size of its exponent. -/
def toWord (d : Decimal) : Nat :=
  let places := digitCount d.digits + d.exponent
  if d.digits = 0 ∨ places < -330 then 0
  else if 310 < places then Double.infinityWord
  else
    match d.exponent with
    | .ofNat e => Double.nearestWord (d.digits * tenTo e * Double.unitsPerOne) 1
    | .negSucc e => Double.nearestWord (d.digits * Double.unitsPerOne) (tenTo (e + 1))

def powerAbove (units : Nat) : Int :=
  if Double.unitsPerOne ≤ units then digitCount (units / Double.unitsPerOne)
  else 1 - digitCount ((Double.unitsPerOne - 1) / units)

/-- Of the two neighbours of a magnitude on the grid of decimals with the given exponent, the one that
reads back as `word`; of two such the nearer one, and of two equally near ones the larger. -/
def onGrid? (word units : Nat) (exponent : Int) : Option Decimal :=
  let num := units * tenTo (-exponent).toNat
  let den := Double.unitsPerOne * tenTo exponent.toNat
  let below : Decimal := ⟨num / den, exponent⟩
  let above : Decimal := ⟨num / den + 1, exponent⟩
  if below.toWord = word ∧ (above.toWord ≠ word ∨ 2 * (num % den) < den) then some below
  else if above.toWord = word then some above
  else none

def exact (units : Nat) : Decimal := ⟨units * Nat.pow 5 1074, -1074⟩

def shortestFrom (word units : Nat) : (left : Nat) → (exponent : Int) → Decimal
  | 0, _ => exact units
  | left + 1, exponent =>
    match onGrid? word units exponent with
    | some d => d
    | none => shortestFrom word units left (exponent - 1)

/-- The decimal with the fewest digits that reads back as a finite word other than zero. Seventeen digits
are enough for every double; the exact magnitude stands behind them, so reading back never depends on
that. -/
def ofWord (word : Nat) : Decimal :=
  let units := Double.unitsOfWord word
  shortestFrom word units 17 (powerAbove units - 1)

end Decimal

end StackMachine
