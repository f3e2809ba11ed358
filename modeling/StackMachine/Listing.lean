import StackMachine.Code.Image

/-!
Listings: one line of assembly for each record of a code image, with its offset behind it as a comment.
-/

set_option autoImplicit false

namespace StackMachine.Listing

def textWidth : Nat := 24
def offsetWidth : Nat := 6

def line (offset : Nat) (instr : Instr) : String :=
  Text.padRight textWidth instr.text ++ " # " ++ Text.padLeft offsetWidth offset.repr

def ofCode (code : Code) : Except ImageFault String := do
  let records ← code.decodeAll
  return String.join (records.map fun (offset, instr) => line offset instr ++ "\n")

end StackMachine.Listing
