import StackMachine.Double.Decimal
import StackMachine.Text.Numeral

/-!
Doubles as text: the literals that are read, and the one form that is written.
-/

set_option autoImplicit false

namespace StackMachine.Double

open StackMachine.Text

def splitSign : List Char → Bool × List Char
  | '-' :: rest => (true, rest)
  | '+' :: rest => (false, rest)
  | chars => (false, chars)

def namedWord? (chars : List Char) : Option Nat :=
  match String.ofList (chars.map Char.toLower) with
  | "inf" => some infinityWord
  | "infinity" => some infinityWord
  | "nan" => some nan.word
  | _ => none

def exponent? : List Char → Option Int
  | [] => some 0
  | c :: rest =>
    let (negative, digits) := splitSign rest
    if (c = 'e' ∨ c = 'E') ∧ digits ≠ [] ∧ digits.all Char.isDigit then
      some (if negative then -(digitsValue digits : Int) else digitsValue digits)
    else none

def splitFraction : List Char → List Char × List Char
  | '.' :: rest => (rest.takeWhile Char.isDigit, rest.dropWhile Char.isDigit)
  | chars => ([], chars)

/-- A decimal without sign: digits with a point before, between, behind or nowhere, then an exponent. -/
def decimal? (chars : List Char) : Option Decimal :=
  let whole := chars.takeWhile Char.isDigit
  let (fraction, rest) := splitFraction (chars.dropWhile Char.isDigit)
  let digits := whole ++ fraction
  if digits = [] then none
  else (exponent? rest).map fun e => ⟨digitsValue digits, e - fraction.length⟩

def ofText? (text : String) : Option Double :=
  let (negative, chars) := splitSign text.toList
  match namedWord? chars with
  | some word => some (ofWord negative word)
  | none => (decimal? chars).map fun d => ofWord negative d.toWord

structure Layout where
  least : Int
  greatest : Int

def layout : Layout := ⟨-4, 15⟩

def plainText (digits : List Char) (point : Int) : List Char :=
  let whole := (digits.rightpad point.toNat '0').take point.toNat
  let fraction := List.replicate (-point).toNat '0' ++ digits.drop point.toNat
  (if whole = [] then ['0'] else whole) ++ '.' :: (if fraction = [] then ['0'] else fraction)

def scientificText (digits : List Char) (exponent : Int) : List Char :=
  digits.take 1 ++ (if digits.drop 1 = [] then [] else '.' :: digits.drop 1) ++
    'e' :: (if exponent < 0 then ['-'] else []) ++ Nat.toDigits 10 exponent.natAbs

def decimalText (d : Decimal) : List Char :=
  let all := Nat.toDigits 10 d.digits
  let digits := (all.reverse.dropWhile (· == '0')).reverse
  let point := all.length + d.exponent
  if layout.least ≤ point - 1 ∧ point - 1 ≤ layout.greatest then plainText digits point
  else scientificText digits (point - 1)

/-- A double in the fewest digits that read back; a NaN shows neither sign nor payload. -/
def toText (x : Double) : String :=
  if x.isNaN then "NaN"
  else
    let magnitude :=
      if x.isZero then ['0', '.', '0']
      else if x.isFinite then decimalText (Decimal.ofWord x.word)
      else ['i', 'n', 'f']
    String.ofList ((if x.isNegative then ['-'] else []) ++ magnitude)

end StackMachine.Double
