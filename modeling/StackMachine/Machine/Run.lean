import StackMachine.Machine.Effect

/-!
Running a machine: one instruction at a time, up to a budget, or until it stops by itself.
-/

set_option autoImplicit false

namespace StackMachine

inductive Status where
  | running
  | halted
  deriving DecidableEq, Repr

def Status.text : Status → String
  | .running => "Running"
  | .halted => "Halted"

structure Turn (σ : Type) where
  result : Except Fault Status
  machine : Machine σ
  events : List Event := []

namespace Machine

variable {σ : Type}

def handler? (m : Machine σ) (name : String) : Option (Handler σ) :=
  m.capabilities >>= (·.find? name)

/-- Calls a capability. The private state that the handler leaves is kept in any case, its stack only if
the call succeeds. -/
def call (m : Machine σ) (name : String) (next : Nat) : Turn σ :=
  match m.handler? name with
  | none => ⟨.error (.notImplemented name), m, []⟩
  | some handler =>
    let (result, stack, state) := handler.act handler.state m.stack m.memory
    let capabilities := m.capabilities.map (·.setState name state)
    match result with
    | .ok () =>
      ⟨.ok .running, { m with capabilities, stack, position := next, steps := m.steps + 1 }, []⟩
    | .error fault => ⟨.error fault, { m with capabilities }, []⟩

def execute (m : Machine σ) (instr : Instr) (next : Nat) : Turn σ :=
  match instr with
  | .capability name => m.call name next
  | instr =>
    match m.plan instr with
    | .error fault => ⟨.error fault, m, []⟩
    | .ok effect =>
      let events := effect.events m.memory
      if effect.halts then
        let halting := .halted m.position (m.steps + 1)
        ⟨.ok .halted, m.commit effect next, events ++ [halting]⟩
      else ⟨.ok .running, m.commit effect next, events⟩

/-- Executes one instruction. At the end of the code the machine halts; a halted machine stays as it is. If
the instruction fails, the machine is left as it was. -/
def step (m : Machine σ) : Turn σ :=
  if m.halted then ⟨.ok .halted, m, []⟩
  else
    match m.code.instrAt? m.position with
    | .error fault => ⟨.error fault, m, []⟩
    | .ok none => ⟨.ok .halted, { m with halted := true }, [.endOfCode m.position]⟩
    | .ok (some (instr, next)) =>
      let exec := .exec m.position instr m.stack.depth
      let turn := m.execute instr next
      { turn with events := exec :: turn.events }

/-- Steps at most `budget` times; `told` holds, backwards, the events so far. -/
def runFrom (told : List Event) : (budget : Nat) → Machine σ → Turn σ
  | 0, m => ⟨.ok (if m.halted then .halted else .running), m, told.reverse⟩
  | budget + 1, m =>
    let position := m.position
    match m.step with
    | ⟨.ok .running, m, events⟩ => runFrom (events.reverse ++ told) budget m
    | ⟨.ok .halted, m, events⟩ => ⟨.ok .halted, m, told.reverse ++ events⟩
    | ⟨.error fault, m, events⟩ =>
      ⟨.error fault, m, told.reverse ++ events ++ [.stepFailed position fault]⟩

def runFor (m : Machine σ) (budget : Nat) : Turn σ := runFrom [] budget m

def boundless : Nat := Text.wordBound

/-- Runs with a budget of `2 ^ 64` steps: until the machine halts or an instruction fails, if that happens within
them. The run that no budget cuts off is `Machine.Loops`. -/
def run (m : Machine σ) : Turn σ := m.runFor boundless

end Machine

end StackMachine
