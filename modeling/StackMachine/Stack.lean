import StackMachine.Double.Literal
import StackMachine.Fault

/-!
The operand stack: doubles, bottom to top, up to a capacity. An operation on several values is done as a
whole or not at all. Lists of values that go onto the stack or come off it name the top first.
-/

set_option autoImplicit false

namespace StackMachine

structure Stack where
  values : Array Double
  capacity : Nat
  deriving DecidableEq, Repr

namespace Stack

/-- Sums of depths stop at the largest machine word. -/
def maxWord : Nat := Text.wordBound - 1

def empty (capacity : Nat) : Stack := ⟨#[], capacity⟩

def depth (s : Stack) : Nat := s.values.size

def top? (s : Stack) : Option Double := s.values.back?

def text (s : Stack) : String := Text.bracketed (s.values.toList.map Double.toText)

def clear (s : Stack) : Stack := { s with values := #[] }

def hasRoom (s : Stack) (count : Nat) : Bool := min (s.depth + count) maxWord ≤ s.capacity

def requireRoom (s : Stack) (count : Nat) : Except Fault Unit :=
  if s.hasRoom count then .ok () else .error (.stackOverflow s.capacity)

def requireDepth (s : Stack) (count : Nat) : Except Fault Unit :=
  if count ≤ s.depth then .ok () else .error .stackUnderflow

def drop (s : Stack) (count : Nat) : Stack :=
  { s with values := s.values.shrink (s.values.size - count) }

/-- The stack with more values on it, the first of the list on top. -/
def add (s : Stack) (values : List Double) : Stack :=
  { s with values := s.values ++ values.reverse }

def topmost (s : Stack) (count : Nat) : List Double :=
  (s.values.extract (s.values.size - count) s.values.size).toList.reverse

def push (s : Stack) (x : Double) : Except Fault Stack := do
  s.requireRoom 1
  return { s with values := s.values.push x }

def pushAll (s : Stack) (values : List Double) : Except Fault Stack := do
  s.requireRoom values.length
  return s.add values

def pop (s : Stack) : Except Fault (Double × Stack) :=
  match s.values.back? with
  | some x => .ok (x, { s with values := s.values.pop })
  | none => .error .stackUnderflow

def popMany (s : Stack) (count : Nat) : Except Fault (List Double × Stack) := do
  s.requireDepth count
  return (s.topmost count, s.drop count)

/-- Indices from zero on count from the bottom; `-1` is the top, `-2` the value under it. -/
def slot? (s : Stack) (index : Int) : Option Nat :=
  if 0 ≤ index then some index.toNat
  else if index.natAbs ≤ s.depth then some (s.depth - index.natAbs)
  else none

def peek (s : Stack) (index : Int) : Except Fault Double :=
  match s.slot? index >>= (s.values[·]?) with
  | some x => .ok x
  | none => .error (.indexOutOfRange index)

theorem toList_add (s : Stack) (values : List Double) :
    (s.add values).values.toList = s.values.toList ++ values.reverse := by
  simp [add]

theorem toList_drop (s : Stack) (count : Nat) :
    (s.drop count).values.toList = s.values.toList.take (s.depth - count) := by
  simp [drop, depth]

theorem topmost_eq (s : Stack) (count : Nat) :
    s.topmost count = s.values.toList.reverse.take count := by
  rw [topmost, Array.toList_extract, List.take_reverse, List.extract_eq_take_drop, List.take_of_length_le]
  · simp
  · simp

theorem add_topmost_drop (s : Stack) (count : Nat) : (s.drop count).add (s.topmost count) = s := by
  have values : ((s.drop count).add (s.topmost count)).values = s.values := by
    apply Array.toList_inj.mp
    rw [toList_add, toList_drop, topmost_eq, List.take_reverse]
    simp [depth]
  cases s
  simp_all [add, drop]

end Stack

end StackMachine
