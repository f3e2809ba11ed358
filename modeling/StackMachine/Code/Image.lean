import StackMachine.Code.Record

/-!
A whole code image as the list of its records.
-/

set_option autoImplicit false

namespace StackMachine

structure ImageFault where
  offset : Nat
  cause : Fault
  deriving DecidableEq, Repr

namespace ImageFault

def message (e : ImageFault) : String := "offset " ++ e.offset.repr ++ ": " ++ e.cause.message

def detail (e : ImageFault) : String :=
  "DisasmError \x7b offset: " ++ e.offset.repr ++ ", error: " ++ e.cause.detail ++ " \x7d"

end ImageFault

namespace Code

/-- Reads records from a position on; `records` holds, backwards, those before it. A record has one byte at
least, so as many reads as there are bytes left reach the end. -/
def decodeFrom (code : Code) (records : List (Nat × Instr)) :
    (left : Nat) → (position : Nat) → Except ImageFault (List (Nat × Instr))
  | 0, _ => .ok records.reverse
  | left + 1, position =>
    match code.instrAt? position with
    | .ok none => .ok records.reverse
    | .ok (some (instr, next)) => decodeFrom code ((position, instr) :: records) left next
    | .error cause => .error ⟨position, cause⟩

def decodeAll (code : Code) : Except ImageFault (List (Nat × Instr)) :=
  decodeFrom code [] code.size 0

def ofInstrs (instrs : List Instr) : Code := (instrs.flatMap Instr.encode).toArray

end Code

end StackMachine
