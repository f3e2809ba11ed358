import StackMachine.Text.Alphanumeric

/-!
Patterns: regular expressions for the values of fields. No value is ever compared with one here; all that is
decided is whether a text is a pattern at all. A pattern stands between braces, so a brace that it opens stays
open, and neither counted repetitions nor code points in braces can be written. Classes of characters that
need tables beyond ASCII are not available.
-/

set_option autoImplicit false

namespace StackMachine.Text

namespace Pattern

structure Mode where
  /-- Blanks and comments are skipped. -/
  spaced : Bool := false
  /-- Letters stand for both of their cases. -/
  caseless : Bool := false
  /-- Matches code points, and not bytes. -/
  unicode : Bool := true

def skipFrom (comment : Bool) : List Char → List Char
  | [] => []
  | c :: rest =>
    if comment then skipFrom (c ≠ '\n') rest
    else if isBlank c then skipFrom false rest
    else if c = '#' then skipFrom true rest
    else c :: rest

def Mode.skip (m : Mode) (text : List Char) : List Char :=
  if m.spaced then skipFrom false text else text

inductive Atom where
  /-- A character; `byte` says that it was written as two hexadecimal digits. -/
  | literal (c : Char) (byte : Bool)
  /-- Digits, blanks or word characters, or all but these. -/
  | shorthand (negated : Bool)
  /-- A class by a Unicode property. -/
  | property
  | anyChar
  /-- The start or the end of a line or of the text. -/
  | anchor
  /-- The start or the end of a word, or neither. -/
  | wordBoundary

namespace Atom

def allowed (m : Mode) : Atom → Bool
  | .literal c byte => if m.unicode then !m.caseless else !(byte && 0x80 ≤ c.toNat)
  | .shorthand negated => !m.unicode && !negated
  | .property => false
  | .anyChar => m.unicode
  | .anchor => true
  | .wordBoundary => !m.unicode

def allowedInClass (m : Mode) : Atom → Bool
  | .literal c _ => if m.unicode then !m.caseless else c.toNat < 0x80
  | .shorthand negated => !m.unicode && !negated
  | _ => false

end Atom

def hexDigit? (c : Char) : Option Nat :=
  let n := c.toNat
  if '0' ≤ c ∧ c ≤ '9' then some (n - 48)
  else if 'a' ≤ c ∧ c ≤ 'f' then some (n - 87)
  else if 'A' ≤ c ∧ c ≤ 'F' then some (n - 55)
  else none

def hexDigits? (m : Mode) : Nat → Nat → List Char → Option (Nat × List Char)
  | 0, value, text => some (value, text)
  | _ + 1, _, [] => none
  | count + 1, value, c :: rest => do
    let digit ← hexDigit? c
    hexDigits? m count (16 * value + digit) (m.skip rest)

def hexLiteral? (m : Mode) (count : Nat) (text : List Char) : Option (Atom × List Char) := do
  let (value, rest) ← hexDigits? m count 0 (m.skip text)
  if h : value.isValidChar then some (.literal (Char.ofNatAux value h) (count = 2), rest) else none

def escape? (m : Mode) : List Char → Option (Atom × List Char)
  | [] => none
  | c :: rest =>
    match c with
    | 'x' => hexLiteral? m 2 rest
    | 'u' => hexLiteral? m 4 rest
    | 'U' => hexLiteral? m 8 rest
    | 'p' | 'P' =>
      match m.skip rest with
      | [] | '\\' :: _ | '\x7b' :: _ => none
      | _ :: rest => some (.property, m.skip rest)
    | 'd' | 's' | 'w' => some (.shorthand false, rest)
    | 'D' | 'S' | 'W' => some (.shorthand true, rest)
    | 'a' => some (.literal '\x07' false, rest)
    | 'f' => some (.literal '\x0c' false, rest)
    | 't' => some (.literal '\t' false, rest)
    | 'n' => some (.literal '\n' false, rest)
    | 'r' => some (.literal '\r' false, rest)
    | 'v' => some (.literal '\x0b' false, rest)
    | 'A' | 'z' => some (.anchor, rest)
    | 'b' | 'B' | '<' | '>' => some (.wordBoundary, rest)
    | c => if c.toNat < 0x80 ∧ !c.isAlphanum then some (.literal c false, rest) else none

/-! Classes. The depth of a part is the number of parts that it nests, itself included. -/

/-- A class that has been opened: the depth of what stands before the last operator, and of the members since
then. -/
structure OpenClass where
  before : Option Nat := none
  members : List Nat := []

namespace OpenClass

def add (k : OpenClass) (depth : Nat) : OpenClass := { k with members := depth :: k.members }

def unionDepth (members : List Nat) : Nat :=
  match members with
  | [] => 0
  | [depth] => depth
  | depths => depths.foldl max 0 + 1

def depth (k : OpenClass) : Nat :=
  match k.before with
  | none => unionDepth k.members
  | some before => max before (unionDepth k.members) + 1

def operate (k : OpenClass) : OpenClass := ⟨some k.depth, []⟩

end OpenClass

def asciiClasses : List String :=
  ["alnum", "alpha", "ascii", "blank", "cntrl", "digit", "graph", "lower", "print", "punct", "space",
    "upper", "word", "xdigit"]

def asciiClass? : List Char → Option (Bool × List Char)
  | ':' :: text =>
    let negated := text.head? = some '^'
    let text := if negated then text.drop 1 else text
    let name := text.takeWhile (· ≠ ':')
    match text.drop name.length with
    | ':' :: ']' :: rest =>
      if asciiClasses.contains (String.ofList name) then some (negated, rest) else none
    | _ => none
  | _ => none

def leadingHyphens (m : Mode) (comment : Bool) (k : OpenClass) : List Char → OpenClass × List Char
  | [] => (k, [])
  | c :: rest =>
    if comment then leadingHyphens m (c ≠ '\n') k rest
    else if c = '-' then leadingHyphens m false (k.add 0) rest
    else if m.spaced && isBlank c then leadingHyphens m false k rest
    else if m.spaced && c = '#' then leadingHyphens m true k rest
    else (k, c :: rest)

/-- The start of a class behind its opening bracket, up to the first member that is read as such. A closing
bracket there is a member. -/
def openClass? (m : Mode) (text : List Char) : Option (OpenClass × List Char) :=
  let text := m.skip text
  let negated := text.head? = some '^'
  let (k, text) := leadingHyphens m false {} (if negated then text.drop 1 else text)
  let closing := k.members = [] ∧ text.head? = some ']'
  let (k, text) := if closing then (k.add 0, m.skip (text.drop 1)) else (k, text)
  let literals := k.members ≠ []
  if (negated ∧ !m.unicode) ∨ (literals ∧ m.unicode ∧ m.caseless) then none else some (k, text)

def classAtom? (m : Mode) : List Char → Option (Atom × List Char)
  | [] => none
  | '\\' :: rest => escape? m rest
  | c :: rest => some (.literal c false, rest)

def peekFrom (comment : Bool) : List Char → Option Char
  | [] => none
  | c :: rest =>
    if isBlank c then peekFrom comment rest
    else if c = '#' ∧ !comment then peekFrom true rest
    else some c

def peek (m : Mode) (text : List Char) : Option Char :=
  if m.spaced then (peekFrom false text).or text.head? else text.head?

def member? (m : Mode) (text : List Char) : Option (List Char) := do
  let (first, rest) ← classAtom? m text
  if !first.allowedInClass m then none
  else
    match m.skip rest with
    | [] => none
    | c :: rest =>
      if c ≠ '-' ∨ peek m rest = some ']' ∨ peek m rest = some '-' then some (c :: rest)
      else
        let (last, rest) ← classAtom? m (m.skip rest)
        match first, last with
        | .literal a _, .literal b _ => if a ≤ b ∧ last.allowedInClass m then some rest else none
        | _, _ => none

/-- Reads to the end of the innermost of the opened classes, and so on to the end of the outermost one. Gives
its depth and what follows it. Every turn takes one character at least. -/
def classFrom? (m : Mode) : Nat → OpenClass → List OpenClass → List Char → Option (Nat × List Char)
  | 0, _, _, _ => none
  | fuel + 1, k, outer, text =>
    match m.skip text with
    | [] => none
    | '[' :: rest =>
      match asciiClass? rest with
      | some (negated, rest) =>
        if (if m.unicode then m.caseless else negated) then none
        else classFrom? m fuel (k.add 0) outer rest
      | none => do
        let (inner, rest) ← openClass? m rest
        classFrom? m fuel inner (k :: outer) rest
    | ']' :: rest =>
      match outer with
      | [] => some (k.depth + 1, rest)
      | parent :: outer => classFrom? m fuel (parent.add (k.depth + 1)) outer rest
    | '&' :: '&' :: rest | '-' :: '-' :: rest | '~' :: '~' :: rest =>
      classFrom? m fuel k.operate outer rest
    | text => do
      let rest ← member? m text
      classFrom? m fuel (k.add 0) outer rest

def class? (m : Mode) (text : List Char) : Option (Nat × List Char) := do
  let (k, rest) ← openClass? m text
  classFrom? m (text.length + 1) k [] rest

/-! Groups. -/

structure Part where
  depth : Nat
  repeatable : Bool := true

/-- A group that has been opened, or the pattern as a whole: the depths of its finished alternatives, the
parts of the last one, backwards, and how to read on behind it. -/
structure OpenGroup where
  alternatives : List Nat := []
  parts : List Part := []
  after : Mode

namespace OpenGroup

def add (g : OpenGroup) (depth : Nat) : OpenGroup := { g with parts := ⟨depth, true⟩ :: g.parts }

def addSettings (g : OpenGroup) : OpenGroup := { g with parts := ⟨0, false⟩ :: g.parts }

def sequenceDepth (parts : List Part) : Nat :=
  match parts with
  | [] => 0
  | [part] => part.depth
  | parts => (parts.map (·.depth)).foldl max 0 + 1

def alternate (g : OpenGroup) : OpenGroup :=
  { g with alternatives := sequenceDepth g.parts :: g.alternatives, parts := [] }

def depth (g : OpenGroup) : Nat :=
  let last := sequenceDepth g.parts
  if g.alternatives = [] then last else g.alternatives.foldl max last + 1

def repeat? (g : OpenGroup) : Option OpenGroup :=
  match g.parts with
  | ⟨depth, true⟩ :: parts => some { g with parts := ⟨depth + 1, true⟩ :: parts }
  | _ => none

end OpenGroup

def isGroupName : List Char → Bool
  | [] => false
  | c :: rest =>
    (c = '_' || isLetter c) && rest.all fun c => isAlphanumeric c || ['_', '.', '[', ']'].contains c

def settings? (m : Mode) (letters : List Char) : Option Mode :=
  let known := letters.all ['i', 's', 'm', 'U', 'u', 'R', 'x', '-'].contains
  let twice := letters.any fun c => letters.count c ≠ 1
  let value := fun (letter : Char) (old : Bool) =>
    if letters.contains letter then (letters.takeWhile (· ≠ '-')).contains letter else old
  if !known ∨ twice ∨ letters.getLast? = some '-' then none
  else some ⟨value 'x' m.spaced, value 'i' m.caseless, value 'u' m.unicode⟩

inductive Opening where
  | group (inside : Mode)
  | named (name : List Char)
  /-- Settings for the rest of the group around them. -/
  | settings (m : Mode)

def opening? (m : Mode) (text : List Char) : Option (Opening × List Char) :=
  let named := fun (text : List Char) =>
    let name := text.takeWhile (· ≠ '>')
    match text.drop name.length with
    | '>' :: rest => if isGroupName name then some (Opening.named name, rest) else none
    | _ => none
  match m.skip text with
  | '?' :: '=' :: _ | '?' :: '!' :: _ | '?' :: '<' :: '=' :: _ | '?' :: '<' :: '!' :: _ => none
  | '?' :: 'P' :: '<' :: rest => named rest
  | '?' :: '<' :: rest => named rest
  | '?' :: rest =>
    let letters := rest.takeWhile fun c => c ≠ ':' ∧ c ≠ ')'
    match settings? m letters, rest.drop letters.length with
    | some inside, ':' :: rest => some (.group inside, rest)
    | some inside, ')' :: rest => if letters = [] then none else some (.settings inside, rest)
    | _, _ => none
  | rest => some (.group m, rest)

/-- No pattern nests its parts deeper than this. -/
def depthLimit : Nat := 250

/-- Reads to the end of a pattern. `g` is the innermost of the opened groups, `names` are those of the groups
so far. Every turn takes one character at least. -/
def patternFrom (m : Mode) (names : List (List Char)) :
    Nat → OpenGroup → List OpenGroup → List Char → Bool
  | 0, _, _, _ => false
  | fuel + 1, g, outer, text =>
    let atom := fun (a : Atom) (rest : List Char) =>
      a.allowed m && patternFrom m names fuel (g.add 0) outer rest
    match m.skip text with
    | [] => outer.isEmpty && g.depth ≤ depthLimit
    | '(' :: rest =>
      match opening? m rest with
      | some (.group inside, rest) =>
        patternFrom inside names fuel { after := m } (g :: outer) rest
      | some (.named name, rest) =>
        !names.contains name && patternFrom m (name :: names) fuel { after := m } (g :: outer) rest
      | some (.settings m, rest) => patternFrom m names fuel g.addSettings outer rest
      | none => false
    | ')' :: rest =>
      match outer with
      | parent :: outer => patternFrom g.after names fuel (parent.add (g.depth + 1)) outer rest
      | [] => false
    | '|' :: rest => patternFrom m names fuel g.alternate outer rest
    | '[' :: rest =>
      match class? m rest with
      | some (depth, rest) => patternFrom m names fuel (g.add depth) outer rest
      | none => false
    | '\x7b' :: _ => false
    | '.' :: rest => atom .anyChar rest
    | '^' :: rest | '$' :: rest => atom .anchor rest
    | '\\' :: rest =>
      match escape? m rest with
      | some (a, rest) => atom a rest
      | none => false
    | c :: rest =>
      if c = '?' ∨ c = '*' ∨ c = '+' then
        match g.repeat? with
        | some g => patternFrom m names fuel g outer (if rest.head? = some '?' then rest.drop 1 else rest)
        | none => false
      else atom (.literal c false) rest

end Pattern

def isPattern (text : List Char) : Bool :=
  Pattern.patternFrom {} [] (text.length + 1) { after := {} } [] text

end StackMachine.Text
