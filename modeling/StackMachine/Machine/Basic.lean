import StackMachine.Capability
import StackMachine.Code.Record
import StackMachine.Machine.Event

/-!
The machine: a code image with a position in it, an operand stack, a memory and the capabilities of its
host.
-/

set_option autoImplicit false

namespace StackMachine

structure Limits where
  stackCapacity : Nat := 65536
  /-- The number of pages that may be live at a time; unlimited if there is none. -/
  maxPages : Option Nat := none
  deriving DecidableEq, Repr

structure Machine (σ : Type) where
  code : Code
  position : Nat
  stack : Stack
  memory : Memory
  capabilities : Option (CapabilityTable σ)
  halted : Bool
  /-- The number of instructions executed so far. -/
  steps : Nat

namespace Machine

variable {σ : Type}

def start (code : Code) (limits : Limits) : Machine σ where
  code := code
  position := 0
  stack := .empty limits.stackCapacity
  memory := .empty limits.maxPages
  capabilities := none
  halted := false
  steps := 0

/-- The instruction at the position of the machine; none at the end of the code. -/
def peekInstr (m : Machine σ) : Except Fault (Option Instr) :=
  (m.code.instrAt? m.position).map (·.map (·.1))

def report (m : Machine σ) (fault : Fault) : String :=
  let opcode :=
    match m.code[m.position]? >>= Opcode.ofByte? with
    | some op => " (" ++ op.mnemonic ++ ")"
    | none => ""
  "runtime error: " ++ fault.message ++ "\nat offset " ++ m.position.repr ++ opcode ++
    "\nstack depth " ++ m.stack.depth.repr ++ " of " ++ m.stack.capacity.repr ++ ", " ++
    m.memory.live.repr ++ " live page(s)"

end Machine

end StackMachine
