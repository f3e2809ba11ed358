import StackMachine.Text.Lines
import Mathlib.Tactic

/-!
What cutting a text into pieces does: the pieces are parts of the text in which nothing separates, and with the
separators put aside they hold all of it. Lines and words are cut that way.
-/

set_option autoImplicit false

namespace StackMachine.Text

variable {separates : Char → Bool} {text piece : List Char}

theorem piecesFrom_eq (piece : List Char) (done : List (List Char)) (text : List Char) :
    piecesFrom separates piece done text = done.reverse ++ text.splitOnPPrepend separates piece := by
  induction text generalizing piece done with
  | nil => simp [piecesFrom]
  | cons c rest ih =>
    rw [piecesFrom, List.splitOnPPrepend_cons_eq_if]
    split
    · rw [ih, List.reverse_cons, List.append_assoc]
      rfl
    · rw [ih]

theorem pieces_eq_splitOnP (text : List Char) : pieces separates text = text.splitOnP separates :=
  piecesFrom_eq [] [] text

theorem flatten_pieces (text : List Char) :
    (pieces separates text).flatten = text.filter fun c => !separates c := by
  rw [pieces_eq_splitOnP]
  induction text with
  | nil => rfl
  | cons c rest ih =>
    rw [List.splitOnP_cons_eq_if_modifyHead, List.filter_cons]
    obtain ⟨first, others, hsplit⟩ := List.exists_cons_of_ne_nil (List.splitOnP_ne_nil separates rest)
    rw [hsplit] at ih ⊢
    by_cases hc : separates c <;> simp_all

theorem infix_of_mem_splitOnPPrepend {before : List Char}
    (h : piece ∈ text.splitOnPPrepend separates before) : piece <:+: before.reverse ++ text := by
  induction text generalizing before with
  | nil =>
    rw [List.splitOnPPrepend_nil, List.mem_singleton] at h
    simp [h]
  | cons c rest ih =>
    rw [List.splitOnPPrepend_cons_eq_if] at h
    split at h
    · rcases List.mem_cons.mp h with rfl | h
      · exact (List.prefix_append _ _).isInfix
      · have hrest : piece <:+: rest := ih h
        exact hrest.trans ((List.suffix_cons c rest).trans (List.suffix_append _ _)).isInfix
    · simpa using ih h

theorem infix_of_mem_pieces (h : piece ∈ pieces separates text) : piece <:+: text := by
  rw [pieces_eq_splitOnP] at h
  exact infix_of_mem_splitOnPPrepend h

theorem not_separates_of_mem_pieces (h : piece ∈ pieces separates text) {c : Char} (hc : c ∈ piece) :
    separates c = false := by
  have hmem : c ∈ (pieces separates text).flatten := List.mem_flatten.mpr ⟨piece, h, hc⟩
  rw [flatten_pieces, List.mem_filter] at hmem
  simpa using hmem.2

theorem pieces_append_cons {c : Char} (hpiece : ∀ d ∈ piece, separates d = false) (hc : separates c)
    (rest : List Char) : pieces separates (piece ++ c :: rest) = piece :: pieces separates rest := by
  rw [pieces_eq_splitOnP, pieces_eq_splitOnP, List.splitOnP_append_cons_of_forall_mem hpiece c hc]

theorem pieces_append {c : Char} (hc : separates c) (text rest : List Char) :
    pieces separates (text ++ c :: rest) = pieces separates text ++ pieces separates rest := by
  simp only [pieces_eq_splitOnP, List.splitOnP_append_cons text rest hc]

theorem pieces_ne_nil (text : List Char) : pieces separates text ≠ [] := by
  rw [pieces_eq_splitOnP]
  exact List.splitOnP_ne_nil separates text

/-- There is one piece more than there are separators. -/
theorem length_pieces (text : List Char) : (pieces separates text).length = text.countP separates + 1 := by
  rw [pieces_eq_splitOnP]
  induction text with
  | nil => rfl
  | cons c rest ih =>
    rw [List.splitOnP_cons_eq_if_modifyHead, List.countP_cons]
    by_cases hc : separates c
    · simp [hc, ih]
    · simp [hc, ih]

theorem flatten_words (line : List Char) : (words line).flatten = line.filter fun c => !isBlank c := by
  rw [← flatten_pieces, words]
  exact List.flatten_filter_ne_nil

theorem words_append_cons {word : List Char} {c : Char} (hne : word ≠ [])
    (hword : ∀ d ∈ word, isBlank d = false) (hc : isBlank c) (rest : List Char) :
    words (word ++ c :: rest) = word :: words rest := by
  rw [words, pieces_append_cons hword hc, List.filter_cons_of_pos (by simpa using hne), words]

theorem words_cons_of_isBlank {c : Char} (hc : isBlank c) (rest : List Char) :
    words (c :: rest) = words rest := by
  have hcut : pieces isBlank ([] ++ c :: rest) = [] :: pieces isBlank rest :=
    pieces_append_cons (by simp) hc rest
  rw [List.nil_append] at hcut
  rw [words, hcut, List.filter_cons_of_neg (by simp), words]

theorem words_concat {c : Char} (hc : isBlank c) (line : List Char) : words (line ++ [c]) = words line := by
  have hend : words [] = [] := rfl
  simp only [words, List.filter_append, pieces_append hc] at hend ⊢
  rw [hend, List.append_nil]

theorem length_words_le (line : List Char) : (words line).length ≤ line.length := by
  have hflatten : (words line).flatten.length ≤ line.length := by
    rw [flatten_words]
    exact List.length_filter_le _ _
  have hpos : ∀ word ∈ words line, 1 ≤ word.length := by
    intro word hword
    have hne : word ≠ [] := by simpa using (List.mem_filter.mp hword).2
    exact List.length_pos_of_ne_nil hne
  have hcount := List.card_nsmul_le_sum ((words line).map List.length) 1 (by simpa using hpos)
  rw [List.length_map, smul_eq_mul, mul_one, ← List.length_flatten] at hcount
  exact hcount.trans hflatten

theorem utf8ByteSize_le_of_isInfix {part whole : String} (h : part.toList <:+: whole.toList) :
    part.utf8ByteSize ≤ whole.utf8ByteSize := by
  obtain ⟨front, back, hsplit⟩ := h
  have heq : whole = String.ofList front ++ part ++ String.ofList back := by
    rw [← String.toList_inj, ← hsplit]
    simp
  rw [heq, String.utf8ByteSize_append, String.utf8ByteSize_append]
  omega

theorem length_le_utf8ByteSize (text : List Char) : text.length ≤ (String.ofList text).utf8ByteSize := by
  induction text with
  | nil => exact Nat.zero_le _
  | cons c rest ih =>
    have hc : 0 < c.utf8Size := c.utf8Size_pos
    rw [String.ofList_cons, String.utf8ByteSize_append, String.utf8ByteSize_singleton, List.length_cons]
    omega

theorem dropReturn_prefix_self (line : List Char) : dropReturn line <+: line := by
  rw [dropReturn]
  split
  · exact List.dropLast_prefix line
  · exact List.prefix_rfl

theorem infix_of_mem_lines {line : List Char} (h : line ∈ lines text) : line <:+: text := by
  rw [lines, List.mem_append] at h
  rcases h with h | h
  · obtain ⟨piece, hpiece, rfl⟩ := List.mem_map.mp h
    exact (dropReturn_prefix_self piece).isInfix.trans (infix_of_mem_pieces (List.mem_of_mem_dropLast hpiece))
  · rw [Option.mem_toList, Option.filter_eq_some_iff] at h
    exact infix_of_mem_pieces (List.mem_of_getLast? h.1)

/-- Up to a newline every piece is a line, also an empty one. -/
theorem lines_append (text rest : List Char) :
    lines (text ++ '\n' :: rest) = (pieces (· == '\n') text).map dropReturn ++ lines rest := by
  have hrest : pieces (· == '\n') rest ≠ [] := pieces_ne_nil rest
  have hcut : pieces (· == '\n') (text ++ '\n' :: rest) = pieces (· == '\n') text ++ pieces (· == '\n') rest :=
    pieces_append (by simp) text rest
  rw [lines, lines, hcut, List.dropLast_append_of_ne_nil hrest, List.getLast?_append_of_ne_nil _ hrest,
    List.map_append, List.append_assoc]

theorem lines_append_cons {line : List Char} (hline : ∀ c ∈ line, c ≠ '\n') (rest : List Char) :
    lines (line ++ '\n' :: rest) = dropReturn line :: lines rest := by
  have hwhole : pieces (· == '\n') line = [line] := by
    rw [pieces_eq_splitOnP]
    exact List.splitOnP_eq_singleton (by simpa using hline)
  rw [lines_append, hwhole, List.map_singleton, List.singleton_append]

end StackMachine.Text
