import StackMachine.Code.Record

/-!
Building a code image piece by piece.
-/

set_option autoImplicit false

namespace StackMachine

/-- What can be appended: a whole record, or a part of one. -/
inductive Piece where
  | record (instr : Instr)
  | opcode (op : Opcode)
  | double (value : Double)
  | natural (value : Nat)
  | byte (value : UInt8)
  | bytes (values : List UInt8)
  | bool (value : Bool)
  deriving DecidableEq, Repr

def Piece.encode : Piece → List UInt8
  | .record instr => instr.encode
  | .opcode op => [op.toByte]
  | .double value => value.toBytes
  | .natural value => encodeNat value
  | .byte value => [value]
  | .bytes values => values
  | .bool value => encodeBool value

structure Builder where
  code : Code := #[]
  deriving DecidableEq, Repr

namespace Builder

def emit (b : Builder) (piece : Piece) : Builder := ⟨b.code ++ piece.encode⟩

def position (b : Builder) : Nat := b.code.size

end Builder

end StackMachine
