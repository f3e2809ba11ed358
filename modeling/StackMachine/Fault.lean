import StackMachine.Text.Lines
import StackMachine.Text.Quoted

/-!
Faults: why an operation of the machine, or a read of its code, was refused.
-/

set_option autoImplicit false

namespace StackMachine

inductive Fault where
  | stackOverflow (capacity : Nat)
  | stackUnderflow
  | indexOutOfRange (index : Int)
  | pageNotFound (handle : Nat)
  | pageOutOfBounds (handle address length : Nat)
  | pageLimit (limit : Nat)
  | unknownOpcode (byte : UInt8)
  | invalidOperand (what : String)
  | unexpectedEnd
  | notImplemented (name : String)
  deriving DecidableEq, Repr

namespace Fault

def message : Fault → String
  | .stackOverflow capacity => s!"stack overflow (max {capacity.repr})"
  | .stackUnderflow => "stack underflow"
  | .indexOutOfRange index => s!"stack index {index.repr} out of range"
  | .pageNotFound handle => s!"memory page not found: {handle.repr}"
  | .pageOutOfBounds handle address length =>
    s!"out of bounds access to page {handle.repr}: {length.repr} bytes at address {address.repr}"
  | .pageLimit limit => s!"page limit reached (max {limit.repr})"
  | .unknownOpcode byte =>
    "unknown opcode 0x" ++ String.ofList ((Nat.toDigits 16 byte.toNat).leftpad 2 '0')
  | .invalidOperand what => "invalid operand: " ++ what
  | .unexpectedEnd => "unexpected end of bytecode"
  | .notImplemented name => "capability not implemented: '" ++ name ++ "'"

def kind : Fault → String
  | .stackOverflow _ => "StackOverflow"
  | .stackUnderflow => "StackUnderflow"
  | .indexOutOfRange _ => "IndexOutOfRange"
  | .pageNotFound _ => "PageNotFound"
  | .pageOutOfBounds .. => "PageOutOfBounds"
  | .pageLimit _ => "PageLimit"
  | .unknownOpcode _ => "UnknownOpcode"
  | .invalidOperand _ => "InvalidOperand"
  | .unexpectedEnd => "UnexpectedEndOfStream"
  | .notImplemented _ => "NotImplemented"

def detail (fault : Fault) : String :=
  let data : String :=
    match fault with
    | .stackOverflow n | .pageNotFound n | .pageLimit n => "(" ++ n.repr ++ ")"
    | .indexOutOfRange i => "(" ++ i.repr ++ ")"
    | .unknownOpcode byte => "(" ++ byte.toNat.repr ++ ")"
    | .invalidOperand text | .notImplemented text => "(" ++ Text.quoted text ++ ")"
    | .pageOutOfBounds handle address length =>
      " \x7b handle: " ++ handle.repr ++ ", address: " ++ address.repr ++ ", len: " ++ length.repr ++ " \x7d"
    | .stackUnderflow | .unexpectedEnd => ""
  fault.kind ++ data

end Fault

end StackMachine
