import StackMachine.Double.Nearest
import StackMachine.Fault

/-!
Reading a code image. A cursor is a place in an image, possibly beyond its end. A read that does not fit in
what is left fails and leaves the cursor where it was; an operand that was read and then rejected has
been consumed.
-/

set_option autoImplicit false

namespace StackMachine

abbrev Code := Array UInt8

structure Cursor where
  code : Code
  position : Nat
  deriving DecidableEq, Repr

/-- A computation that moves a cursor and may fail; after a failure the cursor is where the failing read
left it. -/
abbrev Read := ExceptT Fault (StateM Cursor)

def Double.toNatOf (x : Double) (what : String) : Except Fault Nat :=
  match x.toNat? with
  | some n => .ok n
  | none => .error (.invalidOperand what)

namespace Cursor

def start (code : Code) : Cursor := ⟨code, 0⟩

def atEnd (c : Cursor) : Bool := c.code.size ≤ c.position

end Cursor

namespace Read

/-- The next `count` bytes. Beyond the end of the image not even zero bytes can be read. -/
def bytes (count : Nat) : Read (List UInt8) := do
  let c ← get
  if c.position + count ≤ c.code.size then
    set { c with position := c.position + count }
    return (c.code.extract c.position (c.position + count)).toList
  else throw .unexpectedEnd

def byte? : Read (Option UInt8) := do
  let c ← get
  match c.code[c.position]? with
  | some b =>
    set { c with position := c.position + 1 }
    return some b
  | none => return none

def byte : Read UInt8 := do
  match ← byte? with
  | some b => return b
  | none => throw .unexpectedEnd

def double : Read Double := do
  return Double.ofBytes (← bytes 8)

def natural : Read Nat := do
  (← double).toNatOf "unsigned integer operand"

def bool : Read Bool := do
  return (← byte) != 0

def name : Read String := do
  let length ← natural
  match String.fromUTF8? ⟨(← bytes length).toArray⟩ with
  | some text => return text
  | none => throw (.invalidOperand "capability name")

end Read

end StackMachine
