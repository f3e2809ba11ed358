import StackMachine.Text.Blank

/-!
Cutting a text into lines, and a line into its words.
-/

set_option autoImplicit false

namespace StackMachine.Text

/-- `piece` and `done` hold, backwards, what has been read since the last separator and the pieces before
it. -/
def piecesFrom (separates : Char → Bool) (piece : List Char) (done : List (List Char)) :
    List Char → List (List Char)
  | [] => (piece.reverse :: done).reverse
  | c :: rest =>
    if separates c then piecesFrom separates [] (piece.reverse :: done) rest
    else piecesFrom separates (c :: piece) done rest

def pieces (separates : Char → Bool) (text : List Char) : List (List Char) :=
  piecesFrom separates [] [] text

def dropReturn (line : List Char) : List Char :=
  if line.getLast? = some '\r' then line.dropLast else line

/-- The lines of a text. A line ends at a newline, or at a carriage return and a newline; an unfinished last
line counts if there is anything on it. -/
def lines (text : List Char) : List (List Char) :=
  let parts := pieces (· == '\n') text
  parts.dropLast.map dropReturn ++ (parts.getLast?.filter (· ≠ [])).toList

def words (line : List Char) : List (List Char) :=
  (pieces isBlank line).filter (· ≠ [])

def trim (text : List Char) : List Char :=
  ((text.dropWhile isBlank).reverse.dropWhile isBlank).reverse

def padRight (width : Nat) (text : String) : String :=
  String.ofList (text.toList.rightpad width ' ')

def padLeft (width : Nat) (text : String) : String :=
  String.ofList (text.toList.leftpad width ' ')

end StackMachine.Text
