import StackMachine.Text.Cluster
import StackMachine.Text.Size

/-!
What a line holds once its backspaces have been carried out.
-/

set_option autoImplicit false

namespace StackMachine.Text

structure TypedLine where
  text : List Char := []
  sizes : List Nat := []

namespace TypedLine

/-- A size is kept in one byte, so that only a part is erased of a cluster of 256 bytes or more. -/
def append (line : TypedLine) (cluster : List Char) : TypedLine :=
  ⟨cluster.reverse ++ line.text, byteSize cluster % 256 :: line.sizes⟩

def erase (line : TypedLine) : TypedLine :=
  match line.sizes with
  | [] => line
  | size :: rest => ⟨dropBytes size line.text, rest⟩

def type (line : TypedLine) (cluster : List Char) : TypedLine :=
  if cluster = ['\x08'] then line.erase else line.append cluster

end TypedLine

def typed (keys : List Char) : List Char :=
  ((clusters keys).foldl TypedLine.type {}).text.reverse

end StackMachine.Text
