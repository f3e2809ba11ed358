import StackMachine.LittleEndian

/-!
Doubles as 64-bit patterns. A pattern is a sign and a *word*, the 63 bits below it; words are ordered as
the magnitudes they stand for. The magnitude of a finite word is a whole number of *units*, a unit being
the least positive double `2 ^ (-1074)`, so exact statements about doubles are statements about `Nat`.
-/

set_option autoImplicit false

namespace StackMachine

/-- A double is its bit pattern: values that only move keep every bit, payloads of NaNs included. -/
structure Double where
  bits : UInt64
  deriving DecidableEq, Repr, Inhabited

namespace Double

def signWeight : Nat := 0x8000000000000000

/-- The weight of the lowest exponent bit, and of the leading bit of a significand. -/
def leadingBit : Nat := 0x10000000000000

def infinityWord : Nat := 2047 * leadingBit

def unitsPerOne : Nat := 1 <<< 1074

def maxSafe : Nat := 0x1fffffffffffff

def ofWord (negative : Bool) (word : Nat) : Double :=
  ⟨UInt64.ofNat (if negative then signWeight + word else word)⟩

def word (x : Double) : Nat := x.bits.toNat % signWeight

def isNegative (x : Double) : Bool := signWeight ≤ x.bits.toNat

def isNaN (x : Double) : Bool := infinityWord < x.word

def isFinite (x : Double) : Bool := x.word < infinityWord

def isZero (x : Double) : Bool := x.word == 0

def zero : Double := ⟨0⟩
def one : Double := ⟨0x3ff0000000000000⟩

def nan : Double := ⟨0x7ff8000000000000⟩

/-- The magnitude, in units, that a finite word stands for: without exponent bits the word itself, else a
significand of 53 bits shifted by the exponent. -/
def unitsOfWord (word : Nat) : Nat :=
  if word < leadingBit then word
  else (leadingBit + word % leadingBit) <<< (word / leadingBit - 1)

def units (x : Double) : Nat := unitsOfWord x.word

def ofBool (b : Bool) : Double := if b then one else zero

/-- Zeros and NaNs count as false. -/
def truthy (x : Double) : Bool := !x.isZero && !x.isNaN

def toBytes (x : Double) : List UInt8 := leBytes 8 x.bits.toNat

def ofBytes (bytes : List UInt8) : Double := ⟨UInt64.ofNat (leValue bytes)⟩

theorem ofBytes_toBytes (x : Double) : ofBytes x.toBytes = x := by
  have lt : x.bits.toNat < Nat.pow 256 8 := x.bits.toNat_lt
  simp [ofBytes, toBytes, leValue_leBytes, Nat.mod_eq_of_lt lt]

theorem toBytes_ofBytes {bytes : List UInt8} (h : bytes.length = 8) : (ofBytes bytes).toBytes = bytes := by
  have lt := leValue_lt bytes
  rw [h] at lt
  have value : (UInt64.ofNat (leValue bytes)).toNat = leValue bytes := Nat.mod_eq_of_lt lt
  rw [toBytes, ofBytes, value, ← h, leBytes_leValue]

@[simp] theorem length_toBytes (x : Double) : x.toBytes.length = 8 := length_leBytes 8 _

end Double

end StackMachine
