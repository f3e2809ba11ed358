import StackMachine.Double.Arith
import StackMachine.Double.Literal
import StackMachine.Double.Order
import StackMachine.Opcode

/-!
Instructions: an opcode together with everything its record holds, and the text of one.
-/

set_option autoImplicit false

namespace StackMachine

inductive Unary where
  | nan | finite | positive | integer | not | truthy | falsy | abs | sign | neg | floor | ceil
  | trunc | round | sqrt | cbrt
  deriving DecidableEq, Repr

inductive Binary where
  | eq | lt | gt | lte | gte | min | max | add | sub | mul | div | rem
  deriving DecidableEq, Repr

inductive Mode where
  | byte
  | float
  deriving DecidableEq, Repr

inductive Instr where
  | halt
  | capability (name : String)
  | capabilityCheck (name : String)
  | push (value : Double)
  | pushBytes (bytes : List UInt8)
  | pop
  | swap
  | dup
  | dup2
  | over
  | select
  | jump (conditional : Bool) (target : Nat)
  | memPlz
  | memCya
  | memCheck
  | memLoad (mode : Mode)
  | memStore (mode : Mode)
  | unary (op : Unary)
  | binary (op : Binary)
  deriving DecidableEq, Repr

namespace Unary

def eval : Unary → Double → Double
  | .nan, x => .ofBool x.isNaN
  | .finite, x => .ofBool x.isFinite
  | .positive, x => .ofBool x.isPositive
  | .integer, x => .ofBool x.isInteger
  | .not, x => .ofBool (!x.truthy)
  | .truthy, x => .ofBool x.truthy
  | .falsy, x => .ofBool (!x.truthy)
  | .abs, x => x.abs
  | .sign, x => x.sign
  | .neg, x => x.neg
  | .floor, x => x.floor
  | .ceil, x => x.ceil
  | .trunc, x => x.trunc
  | .round, x => x.round
  | .sqrt, x => x.sqrt
  | .cbrt, x => x.cbrt

def opcode : Unary → Opcode
  | .nan => .nan
  | .finite => .finite
  | .positive => .positive
  | .integer => .integer
  | .not => .not
  | .truthy => .truthy
  | .falsy => .falsy
  | .abs => .abs
  | .sign => .sign
  | .neg => .neg
  | .floor => .floor
  | .ceil => .ceil
  | .trunc => .trunc
  | .round => .round
  | .sqrt => .sqrt
  | .cbrt => .cbrt

end Unary

namespace Binary

/-- The first operand is the one further from the top. -/
def eval : Binary → Double → Double → Double
  | .eq, x, y => .ofBool (x.isEq y)
  | .lt, x, y => .ofBool (x.isLt y)
  | .gt, x, y => .ofBool (y.isLt x)
  | .lte, x, y => .ofBool (x.isLe y)
  | .gte, x, y => .ofBool (y.isLe x)
  | .min, x, y => x.min y
  | .max, x, y => x.max y
  | .add, x, y => x.add y
  | .sub, x, y => x.sub y
  | .mul, x, y => x.mul y
  | .div, x, y => x.div y
  | .rem, x, y => x.rem y

def opcode : Binary → Opcode
  | .eq => .eq
  | .lt => .lt
  | .gt => .gt
  | .lte => .lte
  | .gte => .gte
  | .min => .min
  | .max => .max
  | .add => .add
  | .sub => .sub
  | .mul => .mul
  | .div => .div
  | .rem => .rem

end Binary

namespace Mode

def width : Mode → Nat
  | .byte => 1
  | .float => 8

def text : Mode → String
  | .byte => "byte"
  | .float => "float"

def isByte : Mode → Bool
  | .byte => true
  | .float => false

def ofIsByte (b : Bool) : Mode := if b then .byte else .float

theorem ofIsByte_isByte (mode : Mode) : ofIsByte mode.isByte = mode := by
  cases mode <;> rfl

end Mode

namespace Instr

def opcode : Instr → Opcode
  | .halt => .halt
  | .capability _ => .capability
  | .capabilityCheck _ => .capabilityCheck
  | .push _ => .push
  | .pushBytes _ => .pushBytes
  | .pop => .pop
  | .swap => .swap
  | .dup => .dup
  | .dup2 => .dup2
  | .over => .over
  | .select => .select
  | .jump .. => .jump
  | .memPlz => .memPlz
  | .memCya => .memCya
  | .memCheck => .memCheck
  | .memLoad _ => .memLoad
  | .memStore _ => .memStore
  | .unary op => op.opcode
  | .binary op => op.opcode

def text (i : Instr) : String :=
  let operands : List String :=
    match i with
    | .capability name | .capabilityCheck name => [name]
    | .push value => [value.toText]
    | .pushBytes bytes => bytes.map fun b => b.toNat.repr
    | .jump conditional target => [if conditional then "true" else "false", target.repr]
    | .memLoad mode | .memStore mode => [mode.text]
    | _ => []
  " ".intercalate (i.opcode.mnemonic :: operands)

end Instr

/-- What an opcode takes from its record or its line, and the instruction this makes. -/
inductive Shape where
  | plain (instr : Instr)
  | named (instr : String → Instr)
  | number (instr : Double → Instr)
  | bytes (instr : List UInt8 → Instr)
  | branch (instr : (conditional : Bool) → (target : Nat) → Instr)
  | access (instr : Mode → Instr)

def Opcode.shape : Opcode → Shape
  | .halt => .plain .halt
  | .capability => .named .capability
  | .capabilityCheck => .named .capabilityCheck
  | .push => .number .push
  | .pushBytes => .bytes .pushBytes
  | .jump => .branch .jump
  | .memLoad => .access .memLoad
  | .memStore => .access .memStore
  | .pop => .plain .pop
  | .swap => .plain .swap
  | .dup => .plain .dup
  | .dup2 => .plain .dup2
  | .over => .plain .over
  | .select => .plain .select
  | .memPlz => .plain .memPlz
  | .memCya => .plain .memCya
  | .memCheck => .plain .memCheck
  | .nan => .plain (.unary .nan)
  | .finite => .plain (.unary .finite)
  | .positive => .plain (.unary .positive)
  | .integer => .plain (.unary .integer)
  | .not => .plain (.unary .not)
  | .truthy => .plain (.unary .truthy)
  | .falsy => .plain (.unary .falsy)
  | .abs => .plain (.unary .abs)
  | .sign => .plain (.unary .sign)
  | .neg => .plain (.unary .neg)
  | .floor => .plain (.unary .floor)
  | .ceil => .plain (.unary .ceil)
  | .trunc => .plain (.unary .trunc)
  | .round => .plain (.unary .round)
  | .sqrt => .plain (.unary .sqrt)
  | .cbrt => .plain (.unary .cbrt)
  | .eq => .plain (.binary .eq)
  | .lt => .plain (.binary .lt)
  | .gt => .plain (.binary .gt)
  | .lte => .plain (.binary .lte)
  | .gte => .plain (.binary .gte)
  | .min => .plain (.binary .min)
  | .max => .plain (.binary .max)
  | .add => .plain (.binary .add)
  | .sub => .plain (.binary .sub)
  | .mul => .plain (.binary .mul)
  | .div => .plain (.binary .div)
  | .rem => .plain (.binary .rem)

end StackMachine
