import StackMachine.Assembly
import StackMachine.CommandLine.Colours
import StackMachine.CommandLine.Filter
import StackMachine.CommandLine.Log
import StackMachine.CommandLine.Options
import StackMachine.Debugger
import StackMachine.Listing
import StackMachine.Text.Typing

/-!
A session of the command line, from its arguments to its exit: loads a program, then emits, lists, debugs or
runs it. A session is a function of its surroundings; what it writes is part of its outcome.
-/

set_option autoImplicit false

namespace StackMachine.CommandLine

inductive ExitFault where
  | options (fault : OptionFault)
  | missingPath
  | file (fault : FileFault)
  | notText
  | source (fault : Assembly.SourceFault)
  | image (fault : ImageFault)
  | numeral (fault : Text.NumeralFault)
  | machine (fault : Fault)
  | budgetSpent

namespace ExitFault

def custom (message : String) : String :=
  "Custom \x7b kind: Other, error: " ++ Text.quoted message ++ " \x7d"

def numeralText : Text.NumeralFault → String
  | .empty => "Empty"
  | .invalidDigit => "InvalidDigit"
  | .overflow => "PosOverflow"

def detail : ExitFault → String
  | .options fault => custom fault.message
  | .missingPath => custom "missing program path (see --help)"
  | .file fault => fault.detail
  | .notText => "Error \x7b kind: InvalidData, message: \"stream did not contain valid UTF-8\" \x7d"
  | .source fault => fault.detail
  | .image fault => fault.detail
  | .numeral fault => "ParseIntError \x7b kind: " ++ numeralText fault ++ " \x7d"
  | .machine fault => fault.detail
  | .budgetSpent => custom "step budget exhausted"

end ExitFault

structure Outcome where
  exit : Nat := 0
  out : String := ""
  err : String := ""
  written : Option (String × Array UInt8) := none

abbrev Session := ExceptT ExitFault (StateM Outcome)

structure Logger where
  filter : LogFilter
  colours : Bool
  time : String

structure LineReader where
  prompt : String
  /-- What the log says of each line that is asked for. -/
  notice : String

/-- On a terminal that cannot edit lines in place there is a prompt even if the input comes from elsewhere. -/
def LineReader.ofTerminal (terminal : String) : LineReader :=
  if String.ofList (terminal.toList.map Char.toLower) ∈ ["dumb", "cons25", "emacs"] then
    ⟨"(phyto) ", "unsupported terminal"⟩
  else ⟨"", "stdin is not a tty"⟩

def usage : String :=
  "Usage:\n" ++
  "  phyto-vm-run <program.pasm|program.phyto>\n" ++
  "  phyto-vm-run [--trace] [--max-steps <n>] <program>\n" ++
  "  phyto-vm-run [--stack-capacity <n>] [--max-pages <n>] <program>\n" ++
  "  phyto-vm-run --emit <output.phyto> <program.pasm>\n" ++
  "  phyto-vm-run --disasm <program>\n" ++
  "  phyto-vm-run debug <program>\n" ++
  "\n" ++
  "Environment:\n" ++
  "  PHYTO_STACK_CAPACITY  operand stack capacity (default 65536)\n" ++
  "  PHYTO_MAX_PAGES       maximum live memory pages (default unbounded)\n" ++
  "  RUST_LOG             tracing filter (default info)\n"

/-- The file name of a path: its last part other than a dot, unless that leads upwards. -/
def fileName? (path : String) : Option (List Char) :=
  let parts := (Text.pieces (· == '/') path.toList).filter fun part => part ≠ [] ∧ part ≠ ['.']
  parts.getLast?.filter (· ≠ ['.', '.'])

def extension? (path : String) : Option (List Char) := do
  let name ← fileName? path
  match (Text.pieces (· == '.') name).reverse with
  | last :: before => if before = [] ∨ before = [[]] then none else some last
  | [] => none

def isSource (path : String) : Bool :=
  (extension? path).any fun ext => ext.map Char.toLower = ['p', 'a', 's', 'm']

def Logger.ofOptions (s : Surroundings) (o : Options) : Logger where
  filter := ((s.setting? "RUST_LOG") >>= LogFilter.ofText?).getD (.default o.trace)
  colours := wantsColours s
  time := s.time

namespace Session

def print (text : String) : Session Unit := modify fun o => { o with out := o.out ++ text }

def log (logger : Logger) (speaker : Speaker) (entry : LogEntry) : Session Unit :=
  if logger.filter.shows speaker entry.level (entry.fields.map (·.1)) then
    modify fun o => { o with err := o.err ++ logLine logger.colours logger.time entry }
  else pure ()

def logEvents (logger : Logger) (events : List Event) : Session Unit :=
  events.forM fun e => log logger (.ofEvent e) (.ofEvent e)

def load (s : Surroundings) (path : String) : Session Code := do
  match s.contents path with
  | .error fault => throw (.file fault)
  | .ok bytes =>
    if isSource path then
      match String.fromUTF8? ⟨bytes⟩ with
      | none => throw .notText
      | some source =>
        match Assembly.assemble source with
        | .error fault => throw (.source fault)
        | .ok code => return code
    else return bytes

def settingNumber (s : Surroundings) (key : String) : Session (Option Nat) := do
  match s.setting? key with
  | none => return none
  | some text =>
    match Text.readWord text with
    | .ok n => return some n
    | .error fault => throw (.numeral fault)

/-- Options go before the environment, and that before the defaults. -/
def limits (s : Surroundings) (o : Options) : Session Limits := do
  let capacity ←
    match o.stackCapacity with
    | some n => pure (some n)
    | none => settingNumber s "PHYTO_STACK_CAPACITY"
  let pages ←
    match o.maxPages with
    | some n => pure (some n)
    | none => settingNumber s "PHYTO_MAX_PAGES"
  let standard : Limits := {}
  return ⟨capacity.getD standard.stackCapacity, pages⟩

def awaitLine (logger : Logger) (reader : LineReader) : Session Unit := do
  log logger .lineReader ⟨.debug, reader.notice, []⟩
  print reader.prompt

def debugLines (logger : Logger) (reader : LineReader) (d : Debugger) (m : Machine Unit) :
    List (List Char) → Session (Machine Unit)
  | [] => do
    awaitLine logger reader
    return m
  | line :: rest => do
    awaitLine logger reader
    match Command.ofLine (String.ofList (Text.typed line)) with
    | .quit => return m
    | command =>
      let (d, response) := d.perform m command
      logEvents logger response.events
      print response.output
      debugLines logger reader d response.machine rest

def debug (s : Surroundings) (logger : Logger) (m : Machine Unit) : Session Unit := do
  print "phyto-vm debugger, type 'help' for commands\n"
  let m ← debugLines logger (.ofTerminal ((s.setting? "TERM").getD "")) {} m (Text.lines s.input.toList)
  print ("stack: " ++ m.stack.text ++ "\n")

def runProgram (logger : Logger) (budget : Option Nat) (m : Machine Unit) : Session Unit := do
  let turn :=
    match budget with
    | some n => m.runFor n
    | none => m.run
  logEvents logger turn.events
  let m := turn.machine
  match turn.result with
  | .ok .halted =>
    print ("vm halted after " ++ m.steps.repr ++ " step(s)\nstack: " ++ m.stack.text ++ "\n")
  | .ok .running =>
    let message := label logger.colours 95 "TRACE" ++ " step budget of " ++ m.steps.repr ++
      " exhausted at offset " ++ m.position.repr
    log logger .session ⟨.warn, message, []⟩
    print ("stack: " ++ m.stack.text ++ "\n")
    throw .budgetSpent
  | .error fault =>
    let message := label logger.colours 91 "ERROR" ++ " " ++ m.report fault
    log logger .session ⟨.error, message, []⟩
    throw (.machine fault)

def ofOptions (s : Surroundings) (o : Options) : Session Unit := do
  if o.help then print usage
  else
    let logger := Logger.ofOptions s o
    match o.source with
    | none => throw .missingPath
    | some path =>
      let code ← load s path
      let size := code.size.repr
      let message := label logger.colours 92 "PROGRAM" ++ " loaded " ++ path ++ " (" ++ size ++ " bytes)"
      log logger .session ⟨.info, message, []⟩
      match o.emitPath with
      | some target =>
        match s.writeFault? target with
        | some fault => throw (.file fault)
        | none =>
          modify fun outcome => { outcome with written := some (target, code) }
          print ("wrote " ++ size ++ " bytes to " ++ target ++ "\n")
      | none =>
        if o.disasm then
          match Listing.ofCode code with
          | .ok text => print text
          | .error fault => throw (.image fault)
        else
          let machine := Machine.start code (← limits s o)
          if o.debug then debug s logger machine else runProgram logger o.maxSteps machine

def ofArgs (s : Surroundings) (args : List String) : Session Unit := do
  match Options.ofArgs args with
  | .ok o => ofOptions s o
  | .error fault => throw (.options fault)

end Session

/-- The outcome of a session with the given arguments. A failure is the last line of the error stream. -/
def outcome (s : Surroundings) (args : List String) : Outcome :=
  match Session.ofArgs s args {} with
  | (.ok (), o) => o
  | (.error fault, o) => { o with exit := 1, err := o.err ++ "Error: " ++ fault.detail ++ "\n" }

end StackMachine.CommandLine
