import StackMachine.Double.Nearest

/-!
Arithmetic. The four operations and the square root are the IEEE operations of `Float`; the remainder, the
cube root and the roundings to whole numbers are exact computations on units, rounded once where the
result needs it.
-/

set_option autoImplicit false

namespace StackMachine.Double

def toFloat (x : Double) : Float := Float.ofBits x.bits
def ofFloat (f : Float) : Double := ⟨f.toBits⟩

def add (x y : Double) : Double := ofFloat (x.toFloat + y.toFloat)
def sub (x y : Double) : Double := ofFloat (x.toFloat - y.toFloat)
def mul (x y : Double) : Double := ofFloat (x.toFloat * y.toFloat)
def div (x y : Double) : Double := ofFloat (x.toFloat / y.toFloat)
def sqrt (x : Double) : Double := ofFloat x.toFloat.sqrt

def neg (x : Double) : Double := ofWord (!x.isNegative) x.word
def abs (x : Double) : Double := ofWord false x.word

/-- What is left of `x` after taking away `y` a whole number of times; it has the sign of `x` and is
always exact. Undefined for an infinite `x` or a zero `y`; an infinite `y` leaves `x` as it is. -/
def rem (x y : Double) : Double :=
  if x.isNaN || y.isNaN || !x.isFinite || y.isZero then nan
  else if !y.isFinite then x
  else ofWord x.isNegative (wordOfUnits (x.units % y.units))

/-- Applies a rounding of `units / unitsPerOne` to a whole number, keeping the sign. Infinities and NaNs
stay as they are. -/
def roundBy (whole : Nat → Nat) (x : Double) : Double :=
  if x.isFinite then ofWord x.isNegative (wordOfUnits (whole x.units * unitsPerOne)) else x

def wholeDown (units : Nat) : Nat := units / unitsPerOne
def wholeUp (units : Nat) : Nat := (units + (unitsPerOne - 1)) / unitsPerOne
def wholeNearest (units : Nat) : Nat := (2 * units + unitsPerOne) / (2 * unitsPerOne)

def trunc (x : Double) : Double := roundBy wholeDown x
def floor (x : Double) : Double := roundBy (if x.isNegative then wholeUp else wholeDown) x
def ceil (x : Double) : Double := roundBy (if x.isNegative then wholeDown else wholeUp) x

def round (x : Double) : Double := roundBy wholeNearest x

def isInteger (x : Double) : Bool := x.isFinite && x.units % unitsPerOne == 0

def cube (n : Nat) : Nat := n * n * n

def cubeRootFrom (n : Nat) : (bits : Nat) → (base : Nat) → Nat
  | 0, base => base
  | bits + 1, base =>
    let next := base + (1 <<< bits)
    cubeRootFrom n bits (if cube next ≤ n then next else base)

def cubeRoot (n : Nat) : Nat := cubeRootFrom n (n.log2 / 3 + 1) 0

/-- The cube root, correctly rounded. The root of the shifted magnitude has at least 57 bits, so a half in
place of its fractional part falls on the same side of every rounding boundary. -/
def cbrt (x : Double) : Double :=
  if x.isZero || !x.isFinite then x
  else
    let scaled := x.units <<< 168
    let root := cubeRoot scaled
    let twice := if cube root = scaled then 2 * root else 2 * root + 1
    ofWord x.isNegative (wordOfUnits (twice <<< 659))

end StackMachine.Double
