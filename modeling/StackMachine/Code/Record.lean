import StackMachine.Code.Cursor
import StackMachine.Instr

/-!
Records: how an instruction is laid out in a code image. `Instr.encode` writes one and `Read.instr?` reads
one. Reading accepts more than writing produces: any byte but zero for true, and a negative zero for a
length or target of zero.
-/

set_option autoImplicit false

namespace StackMachine

def encodeNat (n : Nat) : List UInt8 := (Double.ofNat n).toBytes

def encodeBool (b : Bool) : List UInt8 := [if b then 1 else 0]

def encodeBytes (bytes : List UInt8) : List UInt8 := encodeNat bytes.length ++ bytes

def encodeName (name : String) : List UInt8 := encodeBytes name.toUTF8.data.toList

namespace Instr

def operands : Instr → List UInt8
  | .capability name | .capabilityCheck name => encodeName name
  | .push value => value.toBytes
  | .pushBytes bytes => encodeBytes bytes
  | .jump conditional target => encodeBool conditional ++ encodeNat target
  | .memLoad mode | .memStore mode => encodeBool mode.isByte
  | _ => []

def encode (i : Instr) : List UInt8 := i.opcode.toByte :: i.operands

end Instr

namespace Read

def operands (op : Opcode) : Read Instr := do
  match op.shape with
  | .plain instr => return instr
  | .named instr => return instr (← name)
  | .number instr => return instr (← double)
  | .bytes instr => return instr (← bytes (← natural))
  | .branch instr =>
    let conditional ← bool
    return instr conditional (← natural)
  | .access instr => return instr (.ofIsByte (← bool))

def instr? : Read (Option Instr) := do
  match ← byte? with
  | none => return none
  | some b =>
    match Opcode.ofByte? b with
    | some op => return some (← operands op)
    | none => throw (.unknownOpcode b)

end Read

/-- The record at a position of a code image and the position behind it; none at the end. -/
def Code.instrAt? (code : Code) (position : Nat) : Except Fault (Option (Instr × Nat)) :=
  match Read.instr? ⟨code, position⟩ with
  | (.ok i, after) => .ok (i.map (·, after.position))
  | (.error fault, _) => .error fault

end StackMachine
