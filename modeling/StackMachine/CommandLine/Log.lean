import StackMachine.Machine.Event
import StackMachine.Text.Lines

/-!
Log lines: how events look in the log.
-/

set_option autoImplicit false

namespace StackMachine.CommandLine

open StackMachine.Text

structure LogEntry where
  level : Level
  message : String
  fields : List (String × String) := []
  deriving DecidableEq, Repr

def LogEntry.ofEvent (e : Event) : LogEntry := ⟨e.level, e.message, e.fields⟩

def paint (code : Nat) : String := "\x1b[" ++ code.repr ++ "m"

def painted (code : Nat) (text : String) : String := paint code ++ text ++ paint 0

def levelColour : Level → Nat
  | .error => 31
  | .warn => 33
  | .info => 32
  | .debug => 34
  | .trace => 35

def label (colours : Bool) (code : Nat) (text : String) : String :=
  if colours then paint 1 ++ paint code ++ text ++ paint 39 ++ paint 0 else text

/-- Controls that a terminal would act on are spelled out in messages. -/
def defused (c : Char) : List Char :=
  if c ∈ ['\x07', '\x08', '\x0c', '\x1b', '\x7f'] then
    ['\\', 'x'] ++ (Nat.toDigits 16 c.toNat).leftpad 2 '0'
  else if 0x80 ≤ c.toNat ∧ c.toNat ≤ 0x9f then
    ['\\', 'u', '\x7b'] ++ Nat.toDigits 16 c.toNat ++ ['\x7d']
  else [c]

def logLine (colours : Bool) (time : String) (entry : LogEntry) : String :=
  let level := padLeft 5 entry.level.text
  let message := String.ofList (entry.message.toList.flatMap defused)
  let field : String × String → String := fun (key, value) =>
    if colours then painted 3 key ++ painted 2 "=" ++ value else key ++ "=" ++ value
  let head :=
    if colours then [painted 2 time, painted (levelColour entry.level) level] else [time, level]
  " ".intercalate (head ++ message :: entry.fields.map field) ++ "\n"

end StackMachine.CommandLine
