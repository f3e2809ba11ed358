import StackMachine.Double.Basic

/-!
Comparison of doubles. Numbers are ordered by their signed words, in which the two zeros are equal; a NaN
is neither below, above nor equal to anything. `min` and `max` refine that order by putting `-0.0` below
`+0.0`, and give the one NaN `Double.nan` as soon as an operand is a NaN.
-/

set_option autoImplicit false

namespace StackMachine.Double

/-- The word with its sign: the numeric order of doubles that are not NaN. -/
def key (x : Double) : Int := if x.isNegative then -(x.word : Int) else x.word

def isEq (x y : Double) : Bool := !x.isNaN && !y.isNaN && x.key == y.key
def isLt (x y : Double) : Bool := !x.isNaN && !y.isNaN && decide (x.key < y.key)
def isLe (x y : Double) : Bool := !x.isNaN && !y.isNaN && decide (x.key ≤ y.key)

def isPositive (x : Double) : Bool := isLt zero x

def min (x y : Double) : Double :=
  if x.isNaN || y.isNaN then nan
  else if x.key = y.key then (if x.isNegative then x else y)
  else if x.key < y.key then x else y

def max (x y : Double) : Double :=
  if x.isNaN || y.isNaN then nan
  else if x.key = y.key then (if x.isNegative then y else x)
  else if x.key < y.key then y else x

def sign (x : Double) : Double :=
  if x.isNaN || x.isZero then x else ofWord x.isNegative one.word

end StackMachine.Double
