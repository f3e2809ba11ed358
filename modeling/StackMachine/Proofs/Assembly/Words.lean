import StackMachine.Assembly
import StackMachine.Proofs.Text.Lines
import Mathlib

/-!
The words in front of a comment. They are what `PlainWord` describes, and any such words that are written with
blanks between them are found again.
-/

set_option autoImplicit false

namespace StackMachine.Assembly

open StackMachine.Text

/-- A word that can stand on a line: not empty, in one piece, and without a mark that starts a comment. -/
structure PlainWord (word : List Char) : Prop where
  ne_nil : word ≠ []
  no_blank : ∀ c ∈ word, isBlank c = false
  no_hash : '#' ∉ word
  no_slashes : ¬ ['/', '/'] <:+: word

def StartsComment (line : List Char) : Prop := ['#'] <+: line ∨ ['/', '/'] <+: line

instance (line : List Char) : Decidable (StartsComment line) :=
  inferInstanceAs (Decidable (_ ∨ _))

theorem uncommentedFrom_of_starts {line : List Char} (h : StartsComment line) (before : List Char) :
    uncommentedFrom before line = before.reverse := by
  rcases h with ⟨rest, rfl⟩ | ⟨rest, rfl⟩ <;> rfl

theorem uncommentedFrom_cons {c : Char} {rest : List Char} (h : ¬ StartsComment (c :: rest))
    (before : List Char) : uncommentedFrom before (c :: rest) = uncommentedFrom (c :: before) rest := by
  refine uncommentedFrom.eq_4 before c rest ?_ ?_
  · rintro rfl
    exact h (.inl ⟨rest, rfl⟩)
  · rintro tail rfl rfl
    exact h (.inr ⟨tail, rfl⟩)

theorem uncommentedFrom_eq (before line : List Char) :
    uncommentedFrom before line = before.reverse ++ uncommentedFrom [] line := by
  induction line generalizing before with
  | nil => simp [uncommentedFrom]
  | cons c rest ih =>
    by_cases h : StartsComment (c :: rest)
    · rw [uncommentedFrom_of_starts h, uncommentedFrom_of_starts h]
      simp
    · rw [uncommentedFrom_cons h, uncommentedFrom_cons h, ih (c :: before), ih [c]]
      simp

/-- The text in front of a comment is cut where a comment starts for the first time. -/
theorem uncommented_cons (c : Char) (rest : List Char) :
    uncommentedFrom [] (c :: rest) =
      if StartsComment (c :: rest) then [] else c :: uncommentedFrom [] rest := by
  split
  case isTrue h => exact uncommentedFrom_of_starts h []
  case isFalse h =>
    rw [uncommentedFrom_cons h, uncommentedFrom_eq, List.reverse_singleton, List.singleton_append]

/-- Text without a mark in it stays in front of what follows. -/
theorem uncommented_append {text : List Char} {c : Char} (hhash : '#' ∉ text)
    (hslashes : ¬ ['/', '/'] <:+: text) (hc : c ≠ '/') (rest : List Char) :
    uncommentedFrom [] (text ++ c :: rest) = text ++ uncommentedFrom [] (c :: rest) := by
  induction text with
  | nil => rfl
  | cons d text ih =>
    have hstarts : ¬ StartsComment (d :: text ++ c :: rest) := by
      rintro (h | h)
      · rw [List.cons_append, List.cons_prefix_cons] at h
        exact hhash (h.1 ▸ List.mem_cons_self)
      · cases text with
        | nil =>
          obtain ⟨-, h⟩ := List.cons_prefix_cons.mp h
          exact hc (List.cons_prefix_cons.mp h).1.symm
        | cons e text =>
          rw [List.cons_append, List.cons_append, List.cons_prefix_cons, List.cons_prefix_cons] at h
          obtain ⟨rfl, rfl, -⟩ := h
          exact hslashes (List.prefix_append ['/', '/'] text).isInfix
    have htail := ih (fun h => hhash (List.mem_cons_of_mem d h))
      (fun h => hslashes (h.trans (List.suffix_cons d text).isInfix))
    rw [List.cons_append, uncommented_cons, ← List.cons_append, if_neg hstarts, htail, List.cons_append]

theorem uncommented_prefix_self (line : List Char) : uncommentedFrom [] line <+: line := by
  induction line with
  | nil => exact List.prefix_rfl
  | cons c rest ih =>
    rw [uncommented_cons]
    split
    · exact List.nil_prefix
    · exact (List.prefix_cons_inj c).mpr ih

theorem hash_not_mem_uncommented (line : List Char) : '#' ∉ uncommentedFrom [] line := by
  induction line with
  | nil => exact List.not_mem_nil
  | cons c rest ih =>
    rw [uncommented_cons]
    split
    · exact List.not_mem_nil
    case isFalse h =>
      rw [List.mem_cons, not_or]
      refine ⟨?_, ih⟩
      rintro rfl
      exact h (.inl ⟨rest, rfl⟩)

theorem slashes_not_infix_uncommented (line : List Char) :
    ¬ ['/', '/'] <:+: uncommentedFrom [] line := by
  induction line with
  | nil => simp [uncommentedFrom]
  | cons c rest ih =>
    rw [uncommented_cons]
    split
    · simp
    case isFalse h =>
      rw [List.infix_cons_iff, not_or]
      refine ⟨fun hshorter => h (.inr ?_), ih⟩
      exact hshorter.trans ((List.prefix_cons_inj c).mpr (uncommented_prefix_self rest))

theorem not_isBlank_of_alphanum {c : Char} (h : c.isAlphanum ∨ c = '.' ∨ c = '-') : isBlank c = false := by
  have hrange : 0x20 < c.toNat ∧ c.toNat < 0x85 := by
    rcases h with h | rfl | rfl
    · simp only [Char.isAlphanum, Char.isAlpha, Char.isUpper, Char.isLower, Char.isDigit, Bool.or_eq_true,
        Bool.and_eq_true, decide_eq_true_eq, ge_iff_le, UInt32.le_iff_toNat_le] at h
      have hcodes : 'A'.val.toNat = 65 ∧ 'Z'.val.toNat = 90 ∧ 'a'.val.toNat = 97 ∧ 'z'.val.toNat = 122 ∧
          '0'.val.toNat = 48 ∧ '9'.val.toNat = 57 := by decide
      have hval : c.toNat = c.val.toNat := rfl
      omega
    · decide
    · decide
  rw [isBlank, inRanges, List.any_eq_false]
  simp only [blankRanges, List.forall_mem_cons, Bool.and_eq_true, decide_eq_true_eq, not_and, not_le]
  refine ⟨?_, ?_, ?_, ?_, ?_, ?_, ?_, ?_, ?_, ?_, List.forall_mem_nil _⟩ <;> intro <;> omega

theorem plainWord_of_chars {word : List Char} (hne : word ≠ [])
    (hchars : ∀ c ∈ word, c.isAlphanum ∨ c = '.' ∨ c = '-') : PlainWord word := by
  have hmark : ∀ c : Char, c = '#' ∨ c = '/' → ¬ (c.isAlphanum ∨ c = '.' ∨ c = '-') := by
    rintro c (rfl | rfl) <;> decide
  refine ⟨hne, fun c hc => not_isBlank_of_alphanum (hchars c hc), fun hc => ?_, fun hslashes => ?_⟩
  · exact hmark '#' (.inl rfl) (hchars _ hc)
  · exact hmark '/' (.inr rfl) (hchars _ (hslashes.subset List.mem_cons_self))

theorem plainWord_of_alphanum {word : List Char} (hne : word ≠ []) (hchars : word.all Char.isAlphanum) :
    PlainWord word :=
  plainWord_of_chars hne fun c hc => .inl (List.all_eq_true.mp hchars c hc)

theorem infix_of_mem_lineWords {line : List Char} {word : String} (h : word ∈ lineWords line) :
    word.toList <:+: line := by
  obtain ⟨chars, hchars, rfl⟩ := List.mem_map.mp h
  rw [String.toList_ofList]
  exact (infix_of_mem_pieces (List.mem_of_mem_filter hchars)).trans (uncommented_prefix_self line).isInfix

theorem length_lineWords_le (line : List Char) : (lineWords line).length ≤ line.length := by
  rw [lineWords, List.length_map]
  exact (length_words_le _).trans (uncommented_prefix_self line).length_le

theorem plainWord_of_mem_lineWords {line : List Char} {word : String} (h : word ∈ lineWords line) :
    PlainWord word.toList := by
  obtain ⟨chars, hchars, rfl⟩ := List.mem_map.mp h
  rw [String.toList_ofList]
  obtain ⟨hpiece, hne⟩ := List.mem_filter.mp hchars
  have hwithin : chars <:+: uncommentedFrom [] line := infix_of_mem_pieces hpiece
  exact {
    ne_nil := by simpa using hne
    no_blank := fun c hc => not_separates_of_mem_pieces hpiece hc
    no_hash := fun hc => hash_not_mem_uncommented line (hwithin.subset hc)
    no_slashes := fun hs => slashes_not_infix_uncommented line (hs.trans hwithin) }

theorem ne_slash_of_isBlank {c : Char} (hc : isBlank c) : c ≠ '/' := by
  rintro rfl
  exact absurd hc (by decide)

theorem not_startsComment_of_isBlank {c : Char} (hc : isBlank c) (rest : List Char) :
    ¬ StartsComment (c :: rest) := by
  rintro (h | h)
  · rw [List.cons_prefix_cons] at h
    exact absurd (h.1 ▸ hc) (by decide)
  · exact ne_slash_of_isBlank hc (List.cons_prefix_cons.mp h).1.symm

theorem lineWords_cons_of_isBlank {c : Char} (hc : isBlank c) (rest : List Char) :
    lineWords (c :: rest) = lineWords rest := by
  rw [lineWords, uncommented_cons, if_neg (not_startsComment_of_isBlank hc rest),
    words_cons_of_isBlank hc, lineWords]

theorem lineWords_hash (rest : List Char) : lineWords ('#' :: rest) = [] := rfl

theorem lineWords_append_cons {word : List Char} (hword : PlainWord word) {c : Char} (hc : isBlank c)
    (rest : List Char) : lineWords (word ++ c :: rest) = String.ofList word :: lineWords rest := by
  rw [lineWords, uncommented_append hword.no_hash hword.no_slashes (ne_slash_of_isBlank hc),
    uncommented_cons, if_neg (not_startsComment_of_isBlank hc rest),
    words_append_cons hword.ne_nil hword.no_blank hc, List.map_cons, lineWords]

/-- Words written with a space between them are found again. -/
theorem lineWords_intercalate {word : String} {others : List String} (hword : PlainWord word.toList)
    (hothers : ∀ other ∈ others, PlainWord other.toList) (rest : List Char) :
    lineWords ((" ".intercalate (word :: others)).toList ++ ' ' :: rest) =
      word :: others ++ lineWords rest := by
  have hspace : isBlank ' ' := by decide
  induction others generalizing word with
  | nil => rw [String.intercalate_singleton, lineWords_append_cons hword hspace, String.ofList_toList,
      List.singleton_append]
  | cons other others ih =>
    rw [List.forall_mem_cons] at hothers
    have hspell : (" ".intercalate (word :: other :: others)).toList ++ ' ' :: rest =
        word.toList ++ ' ' :: ((" ".intercalate (other :: others)).toList ++ ' ' :: rest) := by
      rw [String.intercalate_cons_cons, String.toList_append, String.toList_append, List.append_assoc,
        List.append_assoc]
      rfl
    rw [hspell, lineWords_append_cons hword hspace, String.ofList_toList, ih hothers.1 hothers.2]
    rfl

end StackMachine.Assembly
