import StackMachine.Proofs.Assembly.Words
import StackMachine.Proofs.Failure
import Mathlib.Tactic

/-!
Sources that are joined. A source and another one behind a newline are assembled into the two images one behind
the other, and what is wrong with either of them stays wrong, on the line that it then has. At the seam this rests on
two facts: a carriage return that comes to stand before the newline was a blank all along, and a last line that was
not counted because nothing was on it is counted now, but has no instruction.
-/

set_option autoImplicit false

namespace StackMachine.Assembly

open StackMachine.Text

theorem startsComment_concat {c : Char} (hc : isBlank c) (d : Char) (rest : List Char) :
    StartsComment (d :: (rest ++ [c])) ↔ StartsComment (d :: rest) := by
  have hslash := ne_slash_of_isBlank hc
  rcases rest with _ | ⟨e, rest⟩
  · simp [StartsComment, Ne.symm hslash]
  · simp [StartsComment]

/-- A blank at the end of a line stands behind the text of the line or in its comment. -/
theorem uncommented_concat {c : Char} (hc : isBlank c) (line : List Char) :
    uncommentedFrom [] (line ++ [c]) = uncommentedFrom [] line ∨
      uncommentedFrom [] (line ++ [c]) = uncommentedFrom [] line ++ [c] := by
  induction line with
  | nil =>
    right
    rw [List.nil_append, uncommented_cons, if_neg (not_startsComment_of_isBlank hc [])]
    rfl
  | cons d rest ih =>
    rw [List.cons_append, uncommented_cons, uncommented_cons]
    by_cases hstarts : StartsComment (d :: rest)
    · left
      rw [if_pos hstarts, if_pos ((startsComment_concat hc d rest).mpr hstarts)]
    · rw [if_neg hstarts, if_neg (mt (startsComment_concat hc d rest).mp hstarts)]
      rcases ih with ih | ih
      · exact Or.inl (by rw [ih])
      · exact Or.inr (by rw [ih, List.cons_append])

theorem lineWords_dropReturn (line : List Char) : lineWords (dropReturn line) = lineWords line := by
  by_cases hlast : line.getLast? = some '\r'
  · obtain ⟨front, rfl⟩ := List.getLast?_eq_some_iff.mp hlast
    have hreturn : isBlank '\r' := by decide
    rw [dropReturn, if_pos hlast, List.dropLast_concat, lineWords, lineWords]
    rcases uncommented_concat hreturn front with h | h
    · rw [h]
    · rw [h, words_concat hreturn]
  · rw [dropReturn, if_neg hlast]

theorem readLine_dropReturn (line : List Char) : readLine (dropReturn line) = readLine line := by
  simp only [readLine, lineWords_dropReturn]

def SourceFault.behind (fault : SourceFault) (count : Nat) : SourceFault :=
  { fault with line := fault.line + count }

theorem assembleLines_append (code : Code) (number : Nat) (rows more : List (List Char)) :
    assembleLines code number (rows ++ more) =
      assembleLines code number rows >>= fun front => assembleLines front (number + rows.length) more := by
  induction rows generalizing code number with
  | nil => rfl
  | cons row rows ih =>
    have hnumber : number + 1 + rows.length = number + (row :: rows).length := by
      rw [List.length_cons]
      omega
    rw [List.cons_append, assembleLines, assembleLines]
    rcases readLine row with complaint | _ | i
    · rfl
    · exact hnumber ▸ ih code (number + 1)
    · exact hnumber ▸ ih (code ++ i.encode) (number + 1)

/-- Lines do not depend on the code and the lines in front of them. -/
theorem assembleLines_behind (front code : Code) (number count : Nat) (rows : List (List Char)) :
    assembleLines (front ++ code) (number + count) rows =
      match assembleLines code number rows with
      | .ok back => .ok (front ++ back)
      | .error fault => .error (fault.behind count) := by
  induction rows generalizing code number with
  | nil => rfl
  | cons row rows ih =>
    have hnumber : number + count + 1 = number + 1 + count := by omega
    rw [assembleLines, assembleLines, hnumber]
    rcases readLine row with complaint | _ | i
    · rfl
    · exact ih code (number + 1)
    · have hcode : front ++ code ++ i.encode = front ++ (code ++ i.encode) := by simp [← Array.toList_inj]
      simp only [hcode]
      exact ih (code ++ i.encode) (number + 1)

theorem assembleLines_map_dropReturn (code : Code) (number : Nat) (rows : List (List Char)) :
    assembleLines code number (rows.map dropReturn) = assembleLines code number rows := by
  induction rows generalizing code number with
  | nil => rfl
  | cons row rows ih =>
    rw [List.map_cons, assembleLines, assembleLines, readLine_dropReturn]
    rcases readLine row with complaint | _ | i
    · rfl
    · exact ih code (number + 1)
    · exact ih (code ++ i.encode) (number + 1)

/-- It makes no difference how lines end, or whether the last of them is counted when nothing is on it. -/
theorem assembleLines_pieces (code : Code) (number : Nat) (text : List Char) :
    assembleLines code number ((pieces (· == '\n') text).map dropReturn) =
      assembleLines code number (lines text) := by
  rw [assembleLines_map_dropReturn, lines]
  rcases List.eq_nil_or_concat' (pieces (· == '\n') text) with hnone | ⟨front, last, hparts⟩
  · exact absurd hnone (pieces_ne_nil text)
  · simp only [hparts, List.dropLast_concat, List.getLast?_concat, assembleLines_append, List.length_map,
      assembleLines_map_dropReturn]
    by_cases hlast : last = []
    · subst hlast
      rfl
    · rw [Option.filter_some, if_pos (by simpa using hlast), Option.toList_some]

/-- Sources joined by a newline are assembled one behind the other. What is wrong with the first of them is told
first, and what is wrong with the second is told with its line counted from the start of the first. -/
theorem assemble_append (first second : String) :
    assemble (first ++ "\n" ++ second) =
      match assemble first, assemble second with
      | .error fault, _ => .error fault
      | .ok front, .ok back => .ok (front ++ back)
      | .ok _, .error fault => .error { fault with line := fault.line + first.toList.count '\n' + 1 } := by
  have htext : (first ++ "\n" ++ second).toList = first.toList ++ '\n' :: second.toList := by simp
  have hrows : ((pieces (· == '\n') first.toList).map dropReturn).length = first.toList.count '\n' + 1 := by
    rw [List.length_map, length_pieces]
    rfl
  simp only [assemble, htext, lines_append, assembleLines_append, assembleLines_pieces, hrows]
  cases hfirst : assembleLines #[] 1 (lines first.toList) with
  | error fault => rfl
  | ok front =>
    have hsecond := assembleLines_behind front #[] 1 (first.toList.count '\n' + 1) (lines second.toList)
    rw [Array.append_empty] at hsecond
    rw [ok_bind, hsecond]
    cases assembleLines #[] 1 (lines second.toList) <;> rfl

/-- A comment that is not ended, a carriage return and an empty line lie between two lines that are wrong. -/
example : assemble ("halt // end\r" ++ "\n" ++ "\r\npush") = .error ⟨3, .missing "push literal"⟩ := by
  decide +kernel

end StackMachine.Assembly
