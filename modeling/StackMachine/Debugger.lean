import StackMachine.Machine.Run

/-!
The debugger: breakpoints at offsets of the code, and a command language for driving a machine by hand.
-/

set_option autoImplicit false

namespace StackMachine

inductive Command where
  | blank
  | quit
  | step (count : Nat)
  | resume
  | setBreak (offset : Nat)
  | clearBreak (offset : Nat)
  | listBreaks
  | showStack
  | showPages
  | showWhere
  | help
  /-- A command whose operand is missing or no number; it is answered by how to use it. -/
  | misused (usage : String)
  | unknown (word : String)
  deriving DecidableEq, Repr

namespace Command

def withOffset (usage : String) (command : Nat → Command) (operands : List String) : Command :=
  match operands.head?.map Text.readWord with
  | some (.ok offset) => command offset
  | _ => .misused usage

def ofLine (line : String) : Command :=
  match (Text.words line.toList).map String.ofList with
  | [] => .blank
  | word :: operands =>
    match word with
    | "q" | "quit" => .quit
    | "s" | "step" =>
      match operands.head?.map Text.readWord with
      | none => .step 1
      | some (.ok count) => .step count
      | some (.error _) => .misused "usage: step [count]"
    | "c" | "continue" => .resume
    | "b" | "break" => withOffset "usage: break <offset>" .setBreak operands
    | "clear" => withOffset "usage: clear <offset>" .clearBreak operands
    | "breaks" => .listBreaks
    | "stack" => .showStack
    | "pages" => .showPages
    | "where" => .showWhere
    | "help" => .help
    | _ => .unknown word

end Command

structure Debugger where
  breakpoints : List Nat := []
  deriving DecidableEq, Repr

structure Response (σ : Type) where
  machine : Machine σ
  output : String := ""
  events : List Event := []

namespace Debugger

variable {σ : Type}

def isBreakpoint (d : Debugger) (offset : Nat) : Bool := d.breakpoints.contains offset

def addBreakpoint (d : Debugger) (offset : Nat) : Debugger :=
  if d.isBreakpoint offset then d
  else ⟨d.breakpoints.filter (· < offset) ++ offset :: d.breakpoints.filter (offset < ·)⟩

def removeBreakpoint (d : Debugger) (offset : Nat) : Debugger :=
  ⟨d.breakpoints.filter (· ≠ offset)⟩

/-- Steps at most `budget` times, and stops early where `stops` says so, at a halt or at a failure; `told`
holds, backwards, the events so far. -/
def advance (stops : Nat → Bool) (told : List Event) : (budget : Nat) → Machine σ → Response σ
  | 0, m => ⟨m, "", told.reverse⟩
  | budget + 1, m =>
    match m.step with
    | ⟨.ok .running, m, events⟩ =>
      if stops m.position then
        ⟨m, "breakpoint at " ++ m.position.repr ++ "\n", told.reverse ++ events⟩
      else advance stops (events.reverse ++ told) budget m
    | ⟨.ok .halted, m, events⟩ =>
      ⟨m, "halted after " ++ m.steps.repr ++ " step(s)\n", told.reverse ++ events⟩
    | ⟨.error fault, m, events⟩ => ⟨m, m.report fault ++ "\n", told.reverse ++ events⟩

/-- Goes on to the next breakpoint. The instruction at hand is executed in any case, so a machine that
stands on a breakpoint leaves it. -/
def resume (d : Debugger) (m : Machine σ) : Response σ :=
  advance d.isBreakpoint [] Machine.boundless m

def whereText (m : Machine σ) : String :=
  if m.halted then ""
  else
    let instr :=
      match m.peekInstr with
      | .ok (some instr) => instr.text
      | .ok none => "<end of bytecode>"
      | .error fault => "<" ++ fault.message ++ ">"
    Text.padLeft 6 m.position.repr ++ ": " ++ instr ++ "\n"

def helpText : String :=
  "commands: step [n], continue, break <offset>, clear <offset>, breaks, stack, pages, where, help, quit"

def withWhere (r : Response σ) : Response σ := { r with output := r.output ++ whereText r.machine }

def perform (d : Debugger) (m : Machine σ) : Command → Debugger × Response σ
  | .blank | .quit => (d, ⟨m, "", []⟩)
  | .step count => (d, withWhere (advance (fun _ => false) [] count m))
  | .resume => (d, withWhere (d.resume m))
  | .setBreak offset =>
    (d.addBreakpoint offset, ⟨m, "breakpoint set at " ++ offset.repr ++ "\n", []⟩)
  | .clearBreak offset =>
    let answer := if d.isBreakpoint offset then "breakpoint cleared at " else "no breakpoint at "
    (d.removeBreakpoint offset, ⟨m, answer ++ offset.repr ++ "\n", []⟩)
  | .listBreaks =>
    (d, ⟨m, "breakpoints: " ++ Text.bracketed (d.breakpoints.map Nat.repr) ++ "\n", []⟩)
  | .showStack =>
    let text := m.stack.text
    (d, ⟨m, "stack: " ++ text ++ "\n", []⟩)
  | .showPages =>
    let handles := m.memory.handles.map Nat.repr
    (d, ⟨m, "pages: " ++ Text.bracketed handles ++ "\n", []⟩)
  | .showWhere =>
    let text := whereText m
    (d, ⟨m, text, []⟩)
  | .help => (d, ⟨m, helpText ++ "\n", []⟩)
  | .misused usage => (d, ⟨m, usage ++ "\n", []⟩)
  | .unknown word => (d, ⟨m, "unknown command '" ++ word ++ "'\n", []⟩)

end Debugger

end StackMachine
