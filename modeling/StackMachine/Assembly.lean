import StackMachine.Code.Image
import StackMachine.Text.Lines

/-!
Assembly: a source has one instruction a line, written as its mnemonic and its operands. A comment starts at
a `#` or a `//` and ends with the line; lines with nothing else are skipped.
-/

set_option autoImplicit false

namespace StackMachine.Assembly

open StackMachine.Text

inductive Complaint where
  | unknownOpcode (word : String)
  | missing (what : String)
  | invalidDouble (what : String) (word : String)
  | invalidByte (word : String)
  | invalidBool (word : String)
  | invalidMode (word : String)
  | unsafeTarget (word : String)
  | extraWords
  deriving DecidableEq, Repr

def Complaint.message : Complaint → String
  | .unknownOpcode word => "unknown opcode '" ++ word ++ "'"
  | .missing what => "missing " ++ what
  | .invalidDouble what word => "invalid " ++ what ++ " '" ++ word ++ "'"
  | .invalidByte word => "invalid byte '" ++ word ++ "'"
  | .invalidBool word => "invalid boolean '" ++ word ++ "'"
  | .invalidMode word => "invalid access mode '" ++ word ++ "', expected 'byte' or 'float'"
  | .unsafeTarget word => "jump target '" ++ word ++ "' must be a non-negative byte offset"
  | .extraWords => "unexpected extra tokens"

structure SourceFault where
  line : Nat
  complaint : Complaint
  deriving DecidableEq, Repr

namespace SourceFault

def message (e : SourceFault) : String := "line " ++ e.line.repr ++ ": " ++ e.complaint.message

def detail (e : SourceFault) : String :=
  "AsmParseError \x7b line: " ++ e.line.repr ++ ", message: " ++ quoted e.complaint.message ++ " \x7d"

end SourceFault

/-- What precedes the comment of a line; `before` holds, backwards, what has been read. -/
def uncommentedFrom (before : List Char) : List Char → List Char
  | [] => before.reverse
  | '#' :: _ => before.reverse
  | '/' :: '/' :: _ => before.reverse
  | c :: rest => uncommentedFrom (c :: before) rest

def lineWords (line : List Char) : List String :=
  (words (uncommentedFrom [] line)).map String.ofList

def readDouble (what : String) (word : String) : Except Complaint Double :=
  match Double.ofText? word with
  | some x => .ok x
  | none => .error (.invalidDouble what word)

def readByte (word : String) : Except Complaint UInt8 :=
  match readNat 256 word with
  | .ok n => .ok (UInt8.ofNat n)
  | .error _ => .error (.invalidByte word)

def readBool (word : String) : Except Complaint Bool :=
  match word with
  | "true" | "1" => .ok true
  | "false" | "0" => .ok false
  | _ => .error (.invalidBool word)

def readMode (word : String) : Except Complaint Mode :=
  match word with
  | "byte" | "1" | "true" => .ok .byte
  | "float" | "0" | "false" => .ok .float
  | _ => .error (.invalidMode word)

/-- A jump target is written as a double and has to be a safe natural number. -/
def readTarget (word : String) : Except Complaint Nat := do
  match (← readDouble "jump target" word).toNat? with
  | some n => return n
  | none => throw (.unsafeTarget word)

def nextWord (what : String) : List String → Except Complaint (String × List String)
  | [] => .error (.missing what)
  | word :: rest => .ok (word, rest)

def readOperands (op : Opcode) (operands : List String) : Except Complaint (Instr × List String) := do
  match op.shape with
  | .plain instr => return (instr, operands)
  | .named instr =>
    let (name, rest) ← nextWord "capability name" operands
    return (instr name, rest)
  | .number instr =>
    let (word, rest) ← nextWord "push literal" operands
    return (instr (← readDouble "float literal" word), rest)
  | .bytes instr => return (instr (← operands.mapM readByte), [])
  | .branch instr =>
    let (word, rest) ← nextWord "jump condition flag" operands
    let conditional ← readBool word
    let (word, rest) ← nextWord "jump target" rest
    return (instr conditional (← readTarget word), rest)
  | .access instr =>
    let (word, rest) ← nextWord "access mode" operands
    return (instr (← readMode word), rest)

def readLine (line : List Char) : Except Complaint (Option Instr) := do
  match lineWords line with
  | [] => return none
  | word :: operands =>
    match Opcode.ofMnemonic? word with
    | none => throw (.unknownOpcode word)
    | some op =>
      let (instr, rest) ← readOperands op operands
      if rest = [] then return some instr else throw .extraWords

/-- Assembles lines behind `code`, the first of them being number `line`. -/
def assembleLines (code : Code) (line : Nat) : List (List Char) → Except SourceFault Code
  | [] => .ok code
  | text :: rest =>
    match readLine text with
    | .ok none => assembleLines code (line + 1) rest
    | .ok (some instr) => assembleLines (code ++ instr.encode) (line + 1) rest
    | .error complaint => .error ⟨line, complaint⟩

def assemble (source : String) : Except SourceFault Code :=
  assembleLines #[] 1 (lines source.toList)

end StackMachine.Assembly
