import StackMachine.Instr
import StackMachine.Memory.Basic

/-!
Events: what a machine tells its host while it works.
-/

set_option autoImplicit false

namespace StackMachine

inductive Level where
  | error
  | warn
  | info
  | debug
  | trace
  deriving DecidableEq, Repr

def Level.text : Level → String
  | .error => "ERROR"
  | .warn => "WARN"
  | .info => "INFO"
  | .debug => "DEBUG"
  | .trace => "TRACE"

def Level.rank : Level → Nat
  | .error => 1
  | .warn => 2
  | .info => 3
  | .debug => 4
  | .trace => 5

inductive Event where
  /-- An instruction was read and is about to be executed. -/
  | exec (position : Nat) (instr : Instr) (depth : Nat)
  | pageAllocated (handle live : Nat)
  | pageFreed (handle live : Nat)
  | endOfCode (position : Nat)
  /-- A halt instruction was executed, as the given number of steps. -/
  | halted (position steps : Nat)
  | stepFailed (position : Nat) (fault : Fault)
  deriving DecidableEq, Repr

namespace Event

def level : Event → Level
  | .exec .. => .trace
  | .stepFailed .. => .warn
  | _ => .debug

def message : Event → String
  | .exec .. => "exec"
  | .pageAllocated .. => "page allocated"
  | .pageFreed .. => "page freed"
  | .endOfCode _ => "end of bytecode, halting"
  | .halted .. => "halted"
  | .stepFailed _ fault => "step failed: " ++ fault.message

def fields : Event → List (String × String)
  | .exec position instr depth =>
    [("position", position.repr), ("op", instr.text), ("depth", depth.repr)]
  | .pageAllocated handle live | .pageFreed handle live =>
    [("handle", handle.repr), ("live", live.repr)]
  | .endOfCode position | .stepFailed position _ => [("position", position.repr)]
  | .halted position steps => [("position", position.repr), ("steps", steps.repr)]

def text (e : Event) : String :=
  " ".intercalate (e.level.text :: e.message :: e.fields.map fun (key, value) => key ++ "=" ++ value)

end Event

namespace Memory

def allocationEvents (m : Memory) : List Event := [.pageAllocated m.nextHandle (m.live + 1)]

def freeEvents (m : Memory) (handle : Nat) : List Event :=
  if m.exists? handle then [.pageFreed handle (m.live - 1)] else []

end Memory

end StackMachine
