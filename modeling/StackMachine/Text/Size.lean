/-!
Texts measured in the bytes of their UTF-8 form.
-/

set_option autoImplicit false

namespace StackMachine.Text

def byteSize (text : List Char) : Nat := text.foldl (fun n c => n + c.utf8Size) 0

def dropBytes (count : Nat) : List Char → List Char
  | [] => []
  | c :: rest => if count = 0 then c :: rest else dropBytes (count - c.utf8Size) rest

def takeBytes (count : Nat) : List Char → List Char
  | [] => []
  | c :: rest => if count = 0 then [] else c :: takeBytes (count - c.utf8Size) rest

end StackMachine.Text
