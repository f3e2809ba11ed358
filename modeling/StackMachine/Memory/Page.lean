import StackMachine.Fault
import StackMachine.LittleEndian
import StackMachine.Text.Numeral

/-!
Pages: 65536 bytes that start out as zero. Only the bytes up to the last one written are held; the
others are zero.
-/

set_option autoImplicit false

namespace StackMachine

structure Page where
  /-- The handle that the page was allocated under; faults name it. -/
  handle : Nat
  held : Array UInt8
  deriving DecidableEq, Repr

namespace Page

def size : Nat := 65536

def blank (handle : Nat) : Page := ⟨handle, #[]⟩

def byte (p : Page) (address : Nat) : UInt8 := p.held.getD address 0

def bytes (p : Page) : Array UInt8 := p.held.rightpad size 0

/-- Where a range of addresses ends, if that is a machine word. -/
def rangeEnd? (address length : Nat) : Option Nat :=
  if address + length < Text.wordBound then some (address + length) else none

def fits (address length : Nat) : Bool := (rangeEnd? address length).any (· ≤ size)

def requireRange (p : Page) (address length : Nat) : Except Fault Unit :=
  if fits address length then .ok () else .error (.pageOutOfBounds p.handle address length)

def read (p : Page) (address length : Nat) : List UInt8 :=
  (List.range' address length).map p.byte

/-- Sets bytes from an address on, which is at most the number of bytes held. -/
def overwrite (held : Array UInt8) (address : Nat) : List UInt8 → Array UInt8
  | [] => held
  | b :: rest =>
    overwrite (if h : address < held.size then held.set address b h else held.push b) (address + 1) rest

def write (p : Page) (address : Nat) (bytes : List UInt8) : Page :=
  match bytes with
  | [] => p
  | _ => { p with held := overwrite (p.held.rightpad address 0) address bytes }

def store (p : Page) (address : Nat) (bytes : List UInt8) : Except Fault Page := do
  p.requireRange address bytes.length
  return p.write address bytes

theorem fits_iff {address length : Nat} : fits address length ↔ address + length ≤ size := by
  rw [fits, rangeEnd?]
  split
  · simp
  · have : size < Text.wordBound := by decide
    simp
    omega

theorem getD_overwrite (held : Array UInt8) (address : Nat) (bytes : List UInt8) (i : Nat)
    (h : address ≤ held.size) :
    (overwrite held address bytes).getD i 0 =
      if address ≤ i ∧ i < address + bytes.length then bytes.getD (i - address) 0
      else held.getD i 0 := by
  induction bytes generalizing held address with
  | nil =>
    rw [overwrite, if_neg]
    simp only [List.length_nil]
    omega
  | cons b rest ih =>
    rw [overwrite, ih _ _ (by split <;> simp <;> omega)]
    rcases Nat.lt_trichotomy i address with lt | rfl | gt
    · rw [if_neg (by omega), if_neg (by omega)]
      split <;> simp [Array.getD_eq_getD_getElem?, Array.getElem?_set, Array.getElem?_push] <;> grind
    · rw [if_neg (by omega), if_pos (by simp)]
      split <;> simp [Array.getD_eq_getD_getElem?, Array.getElem?_push]
      grind
    · by_cases inside : i < address + (rest.length + 1)
      · have : i - address = (i - (address + 1)) + 1 := by omega
        rw [if_pos (by omega), if_pos (by simp; omega), this]
        simp
      · rw [if_neg (by omega), if_neg (by simp; omega)]
        split <;> simp [Array.getD_eq_getD_getElem?, Array.getElem?_set, Array.getElem?_push] <;> grind

/-- A write changes the bytes of its range and no others. -/
theorem byte_write (p : Page) (address : Nat) (bytes : List UInt8) (i : Nat) :
    (p.write address bytes).byte i =
      if address ≤ i ∧ i < address + bytes.length then bytes.getD (i - address) 0 else p.byte i := by
  cases bytes with
  | nil => rw [write, if_neg]; simp only [List.length_nil]; omega
  | cons b rest =>
    have pad : (p.held.rightpad address 0).getD i 0 = p.held.getD i 0 := by
      simp [Array.rightpad, Array.getD_eq_getD_getElem?, Array.getElem?_append, Array.getElem?_replicate]
      grind
    rw [write, byte, getD_overwrite _ _ _ _ (by simp [Array.rightpad]; omega), pad]
    · rfl
    · simp

end Page

end StackMachine
