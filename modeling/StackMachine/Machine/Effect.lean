import StackMachine.Machine.Basic

/-!
What an instruction does. `Machine.plan` makes every check of an instruction and says what it would do,
without touching the machine; `Machine.commit` does it and cannot fail. So an instruction that is refused
leaves no trace, and a successful one is done completely.

Calls of capabilities are not planned: what they do is up to their handlers.
-/

set_option autoImplicit false

namespace StackMachine

inductive MemoryChange where
  | allocate
  | free (handle : Nat)
  | write (handle address : Nat) (bytes : List UInt8)
  deriving DecidableEq, Repr

structure Effect where
  /-- The number of values taken off the stack. -/
  pops : Nat := 0
  /-- The values then put on it, the first one on top. -/
  pushes : List Double := []
  memory : Option MemoryChange := none
  /-- The position to go on from, if it is not the next record. -/
  target : Option Nat := none
  halts : Bool := false
  deriving DecidableEq, Repr

structure Access where
  handle : Nat
  address : Nat
  length : Nat
  page : Page
  deriving DecidableEq, Repr

namespace Access

def count (a : Access) (mode : Mode) : Nat := a.length / mode.width

end Access

def Mode.load (mode : Mode) (page : Page) (address : Nat) : Double :=
  match mode with
  | .byte => .ofByte (page.byte address)
  | .float => .ofBytes (page.read address 8)

def Mode.bytes (mode : Mode) (x : Double) : Except Fault (List UInt8) :=
  match mode with
  | .byte => do
    let n ← x.toNatOf "byte value"
    if n < 256 then return [UInt8.ofNat n] else throw (.invalidOperand "byte value")
  | .float => return x.toBytes

namespace Machine

variable {σ : Type}

/-- Reads the three operands of a load or a store: the handle on top, under it the address and the length in
bytes. -/
def access (m : Machine σ) (mode : Mode) : Except Fault Access := do
  m.stack.requireDepth 3
  let handle ← (← m.stack.peek (-1)).toNatOf "page handle"
  let address ← (← m.stack.peek (-2)).toNatOf "memory address"
  let length ← (← m.stack.peek (-3)).toNatOf "memory length"
  if length % mode.width ≠ 0 then throw (.invalidOperand "float access length")
  let page ← m.memory.requireRange handle address length
  return ⟨handle, address, length, page⟩

def planLoad (m : Machine σ) (mode : Mode) : Except Fault Effect := do
  let a ← m.access mode
  m.stack.requireRoom (a.count mode - 3)
  let values := (List.range (a.count mode)).map fun i => mode.load a.page (a.address + i * mode.width)
  return { pops := 3, pushes := values }

def planStore (m : Machine σ) (mode : Mode) : Except Fault Effect := do
  let a ← m.access mode
  m.stack.requireDepth (3 + a.count mode)
  let values := (m.stack.topmost (3 + a.count mode)).drop 3
  let bytes ← values.mapM mode.bytes
  return {
    pops := 3 + a.count mode
    memory := some (.write a.handle a.address bytes.flatten) }

/-- A jump beyond the end of the code is refused whether it would be taken or not. -/
def planJump (m : Machine σ) (conditional : Bool) (target : Nat) : Except Fault Effect := do
  if m.code.size < target then throw (.invalidOperand "jump target")
  if conditional then
    m.stack.requireDepth 1
    let condition ← m.stack.peek (-1)
    return { pops := 1, target := if condition.truthy then some target else none }
  else return { target := some target }

def planUnary (m : Machine σ) (op : Unary) : Except Fault Effect := do
  m.stack.requireDepth 1
  return { pops := 1, pushes := [op.eval (← m.stack.peek (-1))] }

def planBinary (m : Machine σ) (op : Binary) : Except Fault Effect := do
  m.stack.requireDepth 2
  return { pops := 2, pushes := [op.eval (← m.stack.peek (-2)) (← m.stack.peek (-1))] }

/-- What an instruction other than a call would do, or why it is refused. -/
def plan (m : Machine σ) : Instr → Except Fault Effect
  | .halt => return { halts := true }
  | .capability name => throw (.notImplemented name)
  | .capabilityCheck name =>
    match m.capabilities with
    | none => throw (.notImplemented name)
    | some table => do
      m.stack.requireRoom 1
      return { pushes := [.ofBool (table.contains name)] }
  | .push value => do
    m.stack.requireRoom 1
    return { pushes := [value] }
  | .pushBytes bytes => do
    m.stack.requireRoom bytes.length
    return { pushes := bytes.map Double.ofByte }
  | .pop => do
    m.stack.requireDepth 1
    return { pops := 1 }
  | .swap => do
    m.stack.requireDepth 2
    return { pops := 2, pushes := [← m.stack.peek (-2), ← m.stack.peek (-1)] }
  | .dup => do
    let top ← m.stack.peek (-1)
    m.stack.requireRoom 1
    return { pushes := [top] }
  | .dup2 => do
    let under ← m.stack.peek (-2)
    let top ← m.stack.peek (-1)
    m.stack.requireRoom 2
    return { pushes := [top, under] }
  | .over => do
    let under ← m.stack.peek (-2)
    m.stack.requireRoom 1
    return { pushes := [under] }
  | .select => do
    m.stack.requireDepth 3
    let condition ← m.stack.peek (-1)
    return { pops := 3, pushes := [← m.stack.peek (if condition.truthy then -2 else -3)] }
  | .jump conditional target => m.planJump conditional target
  | .memPlz => do
    m.stack.requireRoom 1
    m.memory.requireAllocatable
    return { pushes := [.ofNat m.memory.nextHandle], memory := some .allocate }
  | .memCya => do
    let handle ← (← m.stack.peek (-1)).toNatOf "page handle"
    return { pops := 1, memory := some (.free handle) }
  | .memCheck => do
    m.stack.requireDepth 1
    let live := (← m.stack.peek (-1)).toNat?.any m.memory.exists?
    return { pops := 1, pushes := [.ofBool live] }
  | .memLoad mode => m.planLoad mode
  | .memStore mode => m.planStore mode
  | .unary op => m.planUnary op
  | .binary op => m.planBinary op

end Machine

def MemoryChange.apply (change : MemoryChange) (memory : Memory) : Memory :=
  match change with
  | .allocate => memory.grow
  | .free handle => memory.free handle
  | .write handle address bytes => memory.overwrite handle address bytes

def MemoryChange.events (change : MemoryChange) (memory : Memory) : List Event :=
  match change with
  | .allocate => memory.allocationEvents
  | .free handle => memory.freeEvents handle
  | .write .. => []

namespace Effect

def events (e : Effect) (memory : Memory) : List Event :=
  match e.memory with
  | some change => change.events memory
  | none => []

def applyMemory (e : Effect) (memory : Memory) : Memory :=
  match e.memory with
  | some change => change.apply memory
  | none => memory

end Effect

/-- Does what was planned and goes on at `next` unless the effect says otherwise. -/
def Machine.commit {σ : Type} (m : Machine σ) (e : Effect) (next : Nat) : Machine σ :=
  { m with
    position := e.target.getD next
    stack := (m.stack.drop e.pops).add e.pushes
    memory := e.applyMemory m.memory
    halted := e.halts
    steps := m.steps + 1 }

end StackMachine
