/-!
Opcodes: the 45 operations of the machine, their bytes and their mnemonics.
-/

set_option autoImplicit false

namespace StackMachine

inductive Opcode where
  | halt | capability | capabilityCheck | push | pushBytes | pop | swap | dup | dup2 | over
  | select | jump | memPlz | memCya | memLoad | memStore | eq | lt | gt | lte | gte | nan | finite
  | positive | integer | not | truthy | falsy | abs | sign | min | max | add | sub | mul | div
  | rem | neg | floor | ceil | trunc | round | sqrt | cbrt | memCheck
  deriving DecidableEq, Repr

namespace Opcode

/-- Every opcode, at the index that is its byte. -/
def all : List Opcode :=
  [.halt, .capability, .capabilityCheck, .push, .pushBytes, .pop, .swap, .dup, .dup2, .over,
    .select, .jump, .memPlz, .memCya, .memLoad, .memStore, .eq, .lt, .gt, .lte, .gte, .nan,
    .finite, .positive, .integer, .not, .truthy, .falsy, .abs, .sign, .min, .max, .add, .sub, .mul,
    .div, .rem, .neg, .floor, .ceil, .trunc, .round, .sqrt, .cbrt, .memCheck]

def toByte (op : Opcode) : UInt8 := UInt8.ofNat op.ctorIdx

def ofByte? (byte : UInt8) : Option Opcode := all[byte.toNat]?

def mnemonic : Opcode → String
  | .halt => "halt"
  | .capability => "capability"
  | .capabilityCheck => "capabilitycheck"
  | .push => "push"
  | .pushBytes => "pushbytes"
  | .pop => "pop"
  | .swap => "swap"
  | .dup => "dup"
  | .dup2 => "dup2"
  | .over => "over"
  | .select => "select"
  | .jump => "jump"
  | .memPlz => "memplz"
  | .memCya => "memcya"
  | .memLoad => "memload"
  | .memStore => "memstore"
  | .eq => "eq"
  | .lt => "lt"
  | .gt => "gt"
  | .lte => "lte"
  | .gte => "gte"
  | .nan => "nan"
  | .finite => "finite"
  | .positive => "positive"
  | .integer => "integer"
  | .not => "not"
  | .truthy => "truthy"
  | .falsy => "falsy"
  | .abs => "abs"
  | .sign => "sign"
  | .min => "min"
  | .max => "max"
  | .add => "add"
  | .sub => "sub"
  | .mul => "mul"
  | .div => "div"
  | .rem => "rem"
  | .neg => "neg"
  | .floor => "floor"
  | .ceil => "ceil"
  | .trunc => "trunc"
  | .round => "round"
  | .sqrt => "sqrt"
  | .cbrt => "cbrt"
  | .memCheck => "memcheck"

def ofMnemonic? (text : String) : Option Opcode := all.find? (·.mnemonic == text)

theorem ofByte?_toByte (op : Opcode) : ofByte? op.toByte = some op := by
  cases op <;> rfl

theorem toByte_of_ofByte? {byte : UInt8} {op : Opcode} (h : ofByte? byte = some op) :
    op.toByte = byte := by
  have toByte_getElem : ∀ n < 45, (all[n]?).map toByte = some (UInt8.ofNat n) := by decide
  have lt : byte.toNat < 45 := by
    have := (List.getElem?_eq_some_iff.mp h).1
    simpa [all] using this
  have := toByte_getElem byte.toNat lt
  rw [show all[byte.toNat]? = some op from h] at this
  simpa using this

end Opcode

end StackMachine
