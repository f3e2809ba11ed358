/-!
Whole numbers written in decimal: an optional plus sign and one digit at least.
-/

set_option autoImplicit false

namespace StackMachine.Text

inductive NumeralFault where
  | empty
  | invalidDigit
  | overflow
  deriving DecidableEq, Repr

def digit? (c : Char) : Option Nat :=
  if c.isDigit then some (c.toNat - '0'.toNat) else none

def digitsValue (digits : List Char) : Nat :=
  digits.foldl (fun n c => 10 * n + (c.toNat - '0'.toNat)) 0

/-- Reads digits onto `value`. The first character that is no digit, or makes the number reach the bound,
decides the fault. -/
def readDigits (bound : Nat) (value : Nat) : List Char → Except NumeralFault Nat
  | [] => .ok value
  | c :: rest =>
    match digit? c with
    | none => .error .invalidDigit
    | some d =>
      if 10 * value + d < bound then readDigits bound (10 * value + d) rest else .error .overflow

def readNat (bound : Nat) (text : String) : Except NumeralFault Nat :=
  match text.toList with
  | [] => .error .empty
  | ['+'] => .error .invalidDigit
  | '+' :: rest => readDigits bound 0 rest
  | chars => readDigits bound 0 chars

def wordBound : Nat := 0x10000000000000000

def readWord (text : String) : Except NumeralFault Nat := readNat wordBound text

end StackMachine.Text
