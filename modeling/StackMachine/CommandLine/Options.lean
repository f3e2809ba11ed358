import StackMachine.Text.Numeral

/-!
The options of the command line.
-/

set_option autoImplicit false

namespace StackMachine.CommandLine

structure Options where
  source : Option String := none
  emitPath : Option String := none
  disasm : Bool := false
  trace : Bool := false
  debug : Bool := false
  maxSteps : Option Nat := none
  stackCapacity : Option Nat := none
  maxPages : Option Nat := none
  help : Bool := false
  deriving DecidableEq, Repr

inductive OptionFault where
  | missingValue (flag : String)
  | invalidValue (flag : String) (raw : String)
  | unknownFlag (word : String)
  | manyPaths
  | emitWithDisasm
  | outputWithRun
  | debugWithBudget
  deriving DecidableEq, Repr

def OptionFault.message : OptionFault → String
  | .missingValue flag => "missing value for " ++ flag
  | .invalidValue flag raw => "invalid " ++ flag ++ " value '" ++ raw ++ "'"
  | .unknownFlag word => "unknown flag '" ++ word ++ "'"
  | .manyPaths => "multiple program paths provided"
  | .emitWithDisasm => "--emit cannot be combined with --disasm"
  | .outputWithRun => "--emit/--disasm cannot be combined with debug or --max-steps"
  | .debugWithBudget => "debug mode does not take --max-steps"

inductive NumberFlag where
  | maxSteps
  | stackCapacity
  | maxPages
  deriving DecidableEq, Repr

namespace NumberFlag

def text : NumberFlag → String
  | .maxSteps => "--max-steps"
  | .stackCapacity => "--stack-capacity"
  | .maxPages => "--max-pages"

def set : NumberFlag → Nat → Options → Options
  | .maxSteps, n, o => { o with maxSteps := some n }
  | .stackCapacity, n, o => { o with stackCapacity := some n }
  | .maxPages, n, o => { o with maxPages := some n }

end NumberFlag

inductive Word where
  | help
  | debug
  | trace
  | disasm
  | emit
  | number (flag : NumberFlag)
  | unknown (flag : String)
  | path (text : String)
  deriving DecidableEq, Repr

def Word.ofText (text : String) : Word :=
  match text with
  | "-h" | "--help" => .help
  | "--debug" => .debug
  | "--trace" => .trace
  | "--disasm" => .disasm
  | "--emit" => .emit
  | "--max-steps" => .number .maxSteps
  | "--stack-capacity" => .number .stackCapacity
  | "--max-pages" => .number .maxPages
  | text => if text.toList.head? = some '-' then .unknown text else .path text

namespace Options

def readWords (o : Options) : List String → Except OptionFault Options
  | [] => .ok o
  | text :: rest =>
    match Word.ofText text with
    | .help => readWords { o with help := true } rest
    | .debug => readWords { o with debug := true } rest
    | .trace => readWords { o with trace := true } rest
    | .disasm => readWords { o with disasm := true } rest
    | .emit =>
      match rest with
      | [] => .error (.missingValue text)
      | path :: rest => readWords { o with emitPath := some path } rest
    | .number flag =>
      match rest with
      | [] => .error (.missingValue flag.text)
      | raw :: rest =>
        match Text.readWord raw with
        | .ok n => readWords (flag.set n o) rest
        | .error _ => .error (.invalidValue flag.text raw)
    | .unknown flag => .error (.unknownFlag flag)
    | .path path =>
      match o.source with
      | some _ => .error .manyPaths
      | none => readWords { o with source := some path } rest

/-- Options that exclude each other. Asking for help excludes nothing. -/
def conflict? (o : Options) : Option OptionFault :=
  let emits := o.emitPath.isSome
  let budget := o.maxSteps.isSome
  if o.help then none
  else if emits && o.disasm then some .emitWithDisasm
  else if (emits || o.disasm) && (o.debug || budget) then some .outputWithRun
  else if o.debug && budget then some .debugWithBudget
  else none

def ofArgs (args : List String) : Except OptionFault Options := do
  let o ←
    match args with
    | "debug" :: rest => readWords { debug := true } rest
    | args => readWords {} args
  match o.conflict? with
  | some fault => throw fault
  | none => return o

end Options

end StackMachine.CommandLine
