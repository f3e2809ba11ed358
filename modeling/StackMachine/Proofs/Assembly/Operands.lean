import StackMachine.Listing
import StackMachine.Proofs.Assembly.Words
import StackMachine.Proofs.Code.Spelling
import StackMachine.Proofs.Double.Text
import Mathlib.Tactic

/-!
The words of an instruction. What is written of an instruction is read back as that instruction, but for a NaN,
which is written without its sign and payload. What is read has plain words for its names.
-/

set_option autoImplicit false

namespace StackMachine

open StackMachine.Text StackMachine.Assembly

namespace Text

theorem readDigits_of_lt {bound value : Nat} {digits : List Char} (hdigits : ∀ c ∈ digits, c.isDigit)
    (h : Nat.ofDigitChars 10 digits value < bound) :
    readDigits bound value digits = .ok (Nat.ofDigitChars 10 digits value) := by
  induction digits generalizing value with
  | nil => rfl
  | cons c rest ih =>
    rw [List.forall_mem_cons] at hdigits
    have hdigit : digit? c = some (c.toNat - '0'.toNat) := by rw [digit?, if_pos hdigits.1]
    have hlt : 10 * value + (c.toNat - '0'.toNat) < bound := by
      refine lt_of_le_of_lt ?_ h
      rw [Nat.ofDigitChars_cons, Nat.ofDigitChars_eq_ofDigitChars_zero]
      exact le_add_right (Nat.le_mul_of_pos_left _ (by positivity))
    simp only [readDigits, hdigit, if_pos hlt]
    exact ih hdigits.2 h

theorem readNat_repr {bound n : Nat} (h : n < bound) : readNat bound n.repr = .ok n := by
  have hdigits : ∀ c ∈ Nat.toDigits 10 n, c.isDigit := fun c hc => Double.isDigit_toDigits hc
  have hvalue : Nat.ofDigitChars 10 (Nat.toDigits 10 n) 0 = n := Nat.ofDigitChars_ten_toDigits
  have hread : readDigits bound 0 (Nat.toDigits 10 n) = .ok n := by
    rw [readDigits_of_lt hdigits (by rwa [hvalue]), hvalue]
  have hplus : ∀ rest, Nat.toDigits 10 n ≠ '+' :: rest := by
    intro rest hsign
    exact absurd (hdigits '+' (by rw [hsign]; exact List.mem_cons_self)) (by decide)
  rw [readNat, Nat.toList_repr]
  split
  case h_1 hempty => exact absurd hempty Nat.toDigits_ne_nil
  case h_2 hsign => exact absurd hsign (hplus [])
  case h_3 rest _ hsign => exact absurd hsign (hplus rest)
  case h_4 => exact hread

end Text

namespace Assembly

theorem readByte_repr (b : UInt8) : readByte b.toNat.repr = .ok b := by
  rw [readByte, readNat_repr b.toNat_lt]
  simp

theorem nextWord_eq_ok_iff {what word : String} {found rest : List String} :
    nextWord what found = .ok (word, rest) ↔ found = word :: rest := by
  cases found <;> simp [nextWord]

theorem readDouble_eq_ok_iff {what word : String} {x : Double} :
    readDouble what word = .ok x ↔ Double.ofText? word = some x := by
  rw [readDouble]
  cases Double.ofText? word <;> simp

theorem readTarget_of_double {word : String} {x : Double} {n : Nat} (hx : Double.ofText? word = some x)
    (hn : x.toNat? = some n) : readTarget word = .ok n := by
  simp only [readTarget, readDouble_eq_ok_iff.mpr hx, ok_bind, hn]
  rfl

theorem readTarget_repr {target : Nat} (h : target ≤ Double.maxSafe) :
    readTarget target.repr = .ok target :=
  readTarget_of_double (Double.ofText?_repr h) (Double.toNat?_ofNat_of_safe h)

theorem readMode_text (mode : Mode) : readMode mode.text = .ok mode := by
  cases mode <;> rfl

theorem mapM_readByte_repr (bytes : List UInt8) :
    (bytes.map fun b => b.toNat.repr).mapM readByte = .ok bytes := by
  induction bytes with
  | nil => rfl
  | cons b rest ih =>
    rw [List.map_cons, List.mapM_cons, readByte_repr, ih]
    rfl

end Assembly

namespace Instr

def operandWords : Instr → List String
  | .capability name | .capabilityCheck name => [name]
  | .push value => [value.toText]
  | .pushBytes bytes => bytes.map fun b => b.toNat.repr
  | .jump conditional target => [if conditional then "true" else "false", target.repr]
  | .memLoad mode | .memStore mode => [mode.text]
  | _ => []

theorem text_eq (i : Instr) : i.text = " ".intercalate (i.opcode.mnemonic :: i.operandWords) := by
  cases i <;> rfl

/-- What the line of an instruction is read as: a NaN has lost its sign and its payload. -/
def asListed : Instr → Instr
  | .push value => .push (if value.isNaN then Double.nan else value)
  | i => i

def Legible : Instr → Prop
  | .capability name | .capabilityCheck name => PlainWord name.toList
  | _ => True

def ReadFrom : Instr → List String → Prop
  | .capability name, found | .capabilityCheck name, found => found = [name]
  | .push value, found => ∃ word, found = [word] ∧ Double.ofText? word = some value
  | .pushBytes bytes, found => found.mapM readByte = .ok bytes
  | .jump conditional target, found =>
    ∃ flag word, found = [flag, word] ∧ readBool flag = .ok conditional ∧ readTarget word = .ok target
  | .memLoad mode, found | .memStore mode, found => ∃ word, found = [word] ∧ readMode word = .ok mode
  | _, found => found = []

theorem readOperands_eq_ok_iff {op : Opcode} {found : List String} {i : Instr} :
    readOperands op found = .ok (i, []) ↔ i.opcode = op ∧ i.ReadFrom found := by
  constructor
  · intro h
    cases op
    case capability | capabilityCheck =>
      cases found <;> cases h
      exact ⟨rfl, rfl⟩
    case push =>
      obtain ⟨⟨word, rest⟩, hword, h⟩ := bind_eq_ok_iff.mp h
      obtain ⟨x, hx, h⟩ := bind_eq_ok_iff.mp h
      cases h
      exact ⟨rfl, word, nextWord_eq_ok_iff.mp hword, readDouble_eq_ok_iff.mp hx⟩
    case pushBytes =>
      obtain ⟨bytes, hbytes, h⟩ := bind_eq_ok_iff.mp h
      cases h
      exact ⟨rfl, hbytes⟩
    case jump =>
      obtain ⟨⟨flag, rest⟩, hflag, h⟩ := bind_eq_ok_iff.mp h
      obtain ⟨c, hc, h⟩ := bind_eq_ok_iff.mp h
      obtain ⟨⟨word, rest⟩, hword, h⟩ := bind_eq_ok_iff.mp h
      obtain ⟨target, htarget, h⟩ := bind_eq_ok_iff.mp h
      cases h
      rw [nextWord_eq_ok_iff] at hflag hword
      exact ⟨rfl, flag, word, by rw [hflag, hword], hc, htarget⟩
    case memLoad | memStore =>
      obtain ⟨⟨word, rest⟩, hword, h⟩ := bind_eq_ok_iff.mp h
      obtain ⟨mode, hmode, h⟩ := bind_eq_ok_iff.mp h
      cases h
      exact ⟨rfl, word, nextWord_eq_ok_iff.mp hword, hmode⟩
    all_goals
      cases h
      exact ⟨rfl, rfl⟩
  · rintro ⟨rfl, h⟩
    cases i with
    | capability name | capabilityCheck name =>
      cases h
      rfl
    | push x =>
      obtain ⟨word, rfl, hx⟩ := h
      change (readDouble "float literal" word >>= fun x => pure (Instr.push x, [])) = _
      rw [readDouble_eq_ok_iff.mpr hx]
      rfl
    | pushBytes bytes =>
      change (found.mapM readByte >>= fun bytes => pure (Instr.pushBytes bytes, [])) = _
      rw [show found.mapM readByte = .ok bytes from h]
      rfl
    | jump c target =>
      obtain ⟨flag, word, rfl, hc, htarget⟩ := h
      change (readBool flag >>= fun c => readTarget word >>= fun target => pure (Instr.jump c target, [])) = _
      rw [hc, htarget]
      rfl
    | memLoad mode =>
      obtain ⟨word, rfl, hmode⟩ := h
      change (readMode word >>= fun mode => pure (Instr.memLoad mode, [])) = _
      rw [hmode]
      rfl
    | memStore mode =>
      obtain ⟨word, rfl, hmode⟩ := h
      change (readMode word >>= fun mode => pure (Instr.memStore mode, [])) = _
      rw [hmode]
      rfl
    | unary op => cases op <;> cases h <;> rfl
    | binary op => cases op <;> cases h <;> rfl
    | _ => cases h; rfl

theorem readFrom_operandWords {i : Instr} (h : i.Fits) : i.asListed.ReadFrom i.operandWords := by
  cases i with
  | push x =>
    refine ⟨x.toText, rfl, ?_⟩
    by_cases hnan : x.isNaN
    · rw [if_pos hnan, Double.ofText?_toText_nan hnan]
    · rw [if_neg hnan, Double.ofText?_toText (Bool.not_eq_true _ ▸ hnan)]
  | pushBytes bytes => exact mapM_readByte_repr bytes
  | jump c target =>
    refine ⟨_, _, rfl, ?_, readTarget_repr h⟩
    cases c <;> rfl
  | memLoad mode | memStore mode => exact ⟨_, rfl, readMode_text mode⟩
  | _ => rfl

theorem opcode_asListed (i : Instr) : i.asListed.opcode = i.opcode := by
  cases i <;> rfl

theorem plainWord_mnemonic (op : Opcode) : PlainWord op.mnemonic.toList := by
  have hall : ∀ op ∈ Opcode.all, op.mnemonic.toList ≠ [] ∧ op.mnemonic.toList.all Char.isAlphanum := by
    decide
  obtain ⟨hne, hchars⟩ := hall op (by cases op <;> decide)
  exact plainWord_of_alphanum hne hchars

theorem plainWord_toText (x : Double) : PlainWord x.toText.toList := by
  refine plainWord_of_chars (fun hempty => ?_) x.chars_toText
  have hread : (Double.ofText? x.toText).isSome := by
    by_cases hnan : x.isNaN
    · rw [Double.ofText?_toText_nan hnan]
      rfl
    · rw [Double.ofText?_toText (Bool.not_eq_true _ ▸ hnan)]
      rfl
  rw [String.toList_eq_nil_iff.mp hempty] at hread
  exact absurd hread (by decide +kernel)

theorem plainWord_repr (n : Nat) : PlainWord n.repr.toList := by
  rw [Nat.toList_repr]
  exact plainWord_of_chars Nat.toDigits_ne_nil fun c hc =>
    .inl (Double.isAlphanum_of_isDigit (Double.isDigit_toDigits hc))

theorem plainWord_operandWords {i : Instr} (h : i.Legible) :
    ∀ word ∈ i.operandWords, PlainWord word.toList := by
  cases i with
  | capability name | capabilityCheck name => exact List.forall_mem_singleton.mpr h
  | push x => exact List.forall_mem_singleton.mpr (plainWord_toText x)
  | pushBytes bytes =>
    intro word hword
    obtain ⟨b, -, rfl⟩ := List.mem_map.mp hword
    exact plainWord_repr b.toNat
  | jump c target =>
    refine List.forall_mem_cons.mpr ⟨?_, List.forall_mem_singleton.mpr (plainWord_repr target)⟩
    cases c <;> exact plainWord_of_alphanum (by decide) (by decide)
  | memLoad mode | memStore mode =>
    refine List.forall_mem_singleton.mpr ?_
    cases mode <;> exact plainWord_of_alphanum (by decide) (by decide)
  | _ => exact fun _ hword => nomatch hword

end Instr

namespace Assembly

theorem ofMnemonic?_eq_some_iff {word : String} {op : Opcode} :
    Opcode.ofMnemonic? word = some op ↔ word = op.mnemonic := by
  constructor
  · intro h
    have hfound := List.find?_some h
    exact (beq_iff_eq.mp hfound).symm
  · rintro rfl
    have hall : ∀ op ∈ Opcode.all, Opcode.ofMnemonic? op.mnemonic = some op := by decide
    exact hall op (by cases op <;> decide)

/-- A line holds an instruction exactly if its words are the mnemonic and words the operands are read from. -/
theorem readLine_eq_some_iff {line : List Char} {i : Instr} :
    readLine line = .ok (some i) ↔
      ∃ found, lineWords line = i.opcode.mnemonic :: found ∧ i.ReadFrom found := by
  rw [readLine]
  constructor
  · intro h
    split at h
    case h_1 => cases h
    case h_2 word found hwords =>
      cases hop : Opcode.ofMnemonic? word with
      | none =>
        rw [hop] at h
        cases h
      | some op =>
        rw [hop] at h
        obtain ⟨⟨read, rest⟩, hread, h⟩ := bind_eq_ok_iff.mp h
        simp only at h
        split at h
        case isTrue hrest =>
          cases h
          subst hrest
          obtain ⟨rfl, hfound⟩ := Instr.readOperands_eq_ok_iff.mp hread
          exact ⟨found, by rw [hwords, ofMnemonic?_eq_some_iff.mp hop], hfound⟩
        case isFalse => cases h
  · rintro ⟨found, hwords, hfound⟩
    have hop : Opcode.ofMnemonic? i.opcode.mnemonic = some i.opcode := ofMnemonic?_eq_some_iff.mpr rfl
    simp only [hwords, hop, Instr.readOperands_eq_ok_iff.mpr ⟨rfl, hfound⟩]
    rfl

theorem lineWords_spaces_hash (count : Nat) (rest : List Char) :
    lineWords (List.replicate count ' ' ++ '#' :: rest) = [] := by
  induction count with
  | zero => exact lineWords_hash rest
  | succ count ih => rw [List.replicate_succ, List.cons_append, lineWords_cons_of_isBlank (by decide), ih]

theorem lineWords_line {i : Instr} (h : i.Legible) (offset : Nat) :
    lineWords (Listing.line offset i).toList = i.opcode.mnemonic :: i.operandWords := by
  obtain ⟨count, rest, hline⟩ : ∃ count rest,
      (Listing.line offset i).toList = i.text.toList ++ ' ' :: (List.replicate count ' ' ++ '#' :: rest) := by
    refine ⟨Listing.textWidth - i.text.toList.length,
      ' ' :: (padLeft Listing.offsetWidth offset.repr).toList, ?_⟩
    rw [Listing.line, padRight, String.toList_append, String.toList_append, String.toList_ofList,
      List.rightpad, List.append_assoc, List.append_assoc]
    rw [← List.cons_append, ← List.replicate_succ, List.replicate_succ', List.append_assoc]
    rfl
  rw [hline, Instr.text_eq, lineWords_intercalate (Instr.plainWord_mnemonic _) (Instr.plainWord_operandWords h),
    lineWords_spaces_hash, List.append_nil]

theorem readLine_line {i : Instr} (hfits : i.Fits) (hlegible : i.Legible) (offset : Nat) :
    readLine (Listing.line offset i).toList = .ok (some i.asListed) := by
  rw [readLine_eq_some_iff, Instr.opcode_asListed]
  exact ⟨i.operandWords, lineWords_line hlegible offset, Instr.readFrom_operandWords hfits⟩

end Assembly

end StackMachine
