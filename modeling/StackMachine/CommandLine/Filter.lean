import StackMachine.Double.Literal
import StackMachine.Machine.Event
import StackMachine.Text.Alphanumeric
import StackMachine.Text.Lines
import StackMachine.Text.Numeral
import StackMachine.Text.Pattern
import StackMachine.Text.Size

/-!
Log filters: which events are shown. A filter is a list of directives, and of those that concern an event the
most specific one decides.
-/

set_option autoImplicit false

namespace StackMachine.CommandLine

open StackMachine.Text

inductive Speaker where
  | machine
  | memory
  | session
  | lineReader
  deriving DecidableEq, Repr

namespace Speaker

def name : Speaker → String
  | .machine => "vm::vm"
  | .memory => "vm::vm::memory"
  | .session => "phyto_vm_run"
  | .lineReader => "rustyline"

def fields : Speaker → List String
  | .lineReader => ["message", "log.target", "log.module_path", "log.file", "log.line"]
  | _ => ["message"]

def ofEvent : Event → Speaker
  | .pageAllocated .. | .pageFreed .. => .memory
  | _ => .machine

end Speaker

inductive Scope where
  | all
  /-- Events that carry a field of the given name. -/
  | field (name : String)
  /-- Events inside a span, or with a field of a given value: no event of a session counts among them. -/
  | nothing
  deriving DecidableEq, Repr

namespace Scope

def isValue (text : List Char) : Bool := (Double.ofText? (String.ofList text)).isSome || isPattern text

def ofField? (inSpan : Bool) (field : List Char) : Option Scope :=
  match pieces (· == '=') field with
  | [] => none
  | [name] => some (if inSpan then .nothing else .field (String.ofList name))
  | _ :: value :: _ => if isValue value then some .nothing else none

end Scope

/-- One part of a filter: the highest rank that is shown of the events it concerns. -/
structure Directive where
  /-- How the names of the speakers start, if not all are meant. -/
  target : Option String := none
  scope : Scope := .all
  rank : Nat
  deriving DecidableEq, Repr

namespace Directive

def rank? (text : String) : Option Nat :=
  match readWord text with
  | .ok n => if n ≤ Level.trace.rank then some n else none
  | .error _ =>
    match String.ofList (text.toList.map Char.toLower) with
    | "off" => some 0
    | "error" => some Level.error.rank
    | "warn" => some Level.warn.rank
    | "info" => some Level.info.rank
    | "debug" => some Level.debug.rank
    | "trace" => some Level.trace.rank
    | _ => none

def levelAfter? (level : List Char) : Option Nat :=
  if level = [] then some Level.trace.rank else rank? (String.ofList level)

def levelAfterScope? (text : List Char) (offset : Nat) (rest : List Char) : Option Nat :=
  match rest with
  | [] => some Level.trace.rank
  | '=' :: _ => levelAfter? (dropBytes (offset + 1) text)
  | _ => none

def scoped? (text : List Char) (target : Option String) (offset : Nat) (rest : List Char) :
    Option Directive :=
  let span := rest.takeWhile fun c => c ≠ ']' ∧ c ≠ '\x7b'
  let offset := offset + byteSize span + 1
  match rest.drop span.length with
  | ']' :: rest => (levelAfterScope? text offset rest).map fun rank => ⟨target, .nothing, rank⟩
  | '\x7b' :: rest =>
    let field := rest.takeWhile (· ≠ '\x7d')
    let size := byteSize field
    match field, rest.drop field.length with
    | _ :: _, '\x7d' :: ']' :: rest => do
      let scope ← Scope.ofField? (span ≠ []) (takeBytes size (dropBytes offset text))
      let rank ← levelAfterScope? text (offset + size + 2) rest
      return ⟨target, scope, rank⟩
    | _, _ => none
  | _ => none

def startsName (c : Char) : Bool := isAlphanumeric c || c = '-' || c = ':' || c = '_'

/-- A directive: a level, a name that shows all of its speakers, a name with a level, or any of these with a
scope. Its parts are found without regard to the blanks around it, but cut out of the text with them: blanks in
front move every part, and those behind belong to the last one. -/
def ofText? (source : String) : Option Directive :=
  let text := source.toList
  let body := trim text
  let name := body.takeWhile fun c => c ≠ '=' ∧ c ≠ '['
  let size := byteSize name
  let target := String.ofList (takeBytes size text)
  match name, body.drop name.length with
  | [], '[' :: rest => scoped? text none 1 rest
  | [], _ => none
  | first :: _, rest =>
    if !startsName first then none
    else
      match rest with
      | '=' :: _ => (levelAfter? (dropBytes (size + 1) text)).map fun rank => ⟨some target, .all, rank⟩
      | _ :: rest => scoped? text (some target) (size + 1) rest
      | [] =>
        match rank? source with
        | some rank => some ⟨none, .all, rank⟩
        | none => some ⟨some source, .all, Level.trace.rank⟩

def concerns (d : Directive) (speaker : Speaker) (fields : List String) : Bool :=
  (d.target.all fun target => target.toList.isPrefixOf speaker.name.toList) &&
    match d.scope with
    | .all => true
    | .field name => fields.contains name
    | .nothing => false

/-- A longer target is more specific, then a field, then a later name of a field. -/
def moreSpecific (d e : Directive) : Bool :=
  let length := fun (d : Directive) => (d.target.map (·.length + 1)).getD 0
  if length d ≠ length e then length e < length d
  else
    match d.scope, e.scope with
    | .field a, .field b => b < a
    | .field _, _ => true
    | _, _ => false

end Directive

abbrev LogFilter := List Directive

namespace LogFilter

def ofText? (text : String) : Option LogFilter :=
  (((pieces (· == ',') text.toList).filter (· ≠ [])).map String.ofList).mapM Directive.ofText?

def default (trace : Bool) : LogFilter :=
  let everyone : Directive := ⟨none, .all, Level.info.rank⟩
  if trace then [⟨some "vm", .all, Level.trace.rank⟩, everyone] else [everyone]

/-- The directive that decides: the most specific one, and the last of several that are equally so. -/
def decider? (f : LogFilter) (speaker : Speaker) (fields : List String) : Option Directive :=
  (f.filter (·.concerns speaker fields)).foldl (fun best d =>
    match best with
    | some e => if e.moreSpecific d then some e else some d
    | none => some d) none

def shows (f : LogFilter) (speaker : Speaker) (level : Level) (fields : List String) : Bool :=
  (f.decider? speaker (speaker.fields ++ fields)).any fun d => level.rank ≤ d.rank

end LogFilter

end StackMachine.CommandLine
