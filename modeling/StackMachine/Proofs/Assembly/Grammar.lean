import StackMachine.Proofs.Assembly.RoundTrip
import Mathlib.Tactic

/-!
The grammar of a source, told without the reader. A line is cut where its comment starts and is blank or a phrase:
a mnemonic with the operands it takes and nothing behind them. The sources that are assembled are those whose
lines follow the grammar, and the image decodes to the instructions of their phrases.
-/

set_option autoImplicit false

namespace StackMachine

open StackMachine.Text

namespace Assembly

/-- The earlier of the first `#` and the first `//` of a line; not inside the line if it has neither. -/
def commentStart (line : List Char) : Nat :=
  min (line.idxOf '#') (line.tails.findIdx fun rest => ['/', '/'].isPrefixOf rest)

def statement (line : List Char) : List String :=
  (words (line.take (commentStart line))).map String.ofList

theorem commentStart_cons (c : Char) (rest : List Char) :
    commentStart (c :: rest) = if StartsComment (c :: rest) then 0 else commentStart rest + 1 := by
  have hhash : ['#'] <+: c :: rest ↔ c = '#' := by
    rw [List.cons_prefix_cons]
    exact ⟨fun h => h.1.symm, fun h => ⟨h.symm, List.nil_prefix⟩⟩
  rw [commentStart, commentStart, List.tails_cons, List.idxOf_cons, List.findIdx_cons]
  by_cases hc : c = '#'
  · rw [if_pos (.inl (hhash.mpr hc))]
    simp [hc]
  · by_cases hslashes : ['/', '/'] <+: c :: rest
    · rw [if_pos (.inr hslashes), List.isPrefixOf_iff_prefix.mpr hslashes]
      simp
    · have hfalse : ['/', '/'].isPrefixOf (c :: rest) = false := by
        rw [Bool.eq_false_iff]
        exact fun h => hslashes (List.isPrefixOf_iff_prefix.mp h)
      have hneither : ¬ StartsComment (c :: rest) := by
        rintro (h | h)
        · exact hc (hhash.mp h)
        · exact hslashes h
      rw [if_neg hneither, hfalse, beq_eq_false_iff_ne.mpr hc]
      exact (Nat.succ_min_succ _ _)

theorem uncommented_eq_take (line : List Char) :
    uncommentedFrom [] line = line.take (commentStart line) := by
  induction line with
  | nil => rfl
  | cons c rest ih =>
    rw [uncommented_cons, commentStart_cons]
    by_cases h : StartsComment (c :: rest)
    · rw [if_pos h, if_pos h, List.take_zero]
    · rw [if_neg h, if_neg h, List.take_succ_cons, ih]

theorem lineWords_eq_statement (line : List Char) : lineWords line = statement line := by
  rw [lineWords, uncommented_eq_take, statement]

def boolWords : Bool → List String
  | true => ["true", "1"]
  | false => ["false", "0"]

def modeWords : Mode → List String
  | .byte => ["byte", "1", "true"]
  | .float => ["float", "0", "false"]

/-- The words of an instruction. Opcodes without operands stand alone. -/
inductive Phrase : List String → Instr → Prop where
  | plain (op : Opcode) {i : Instr} (hop : op.shape = .plain i) : Phrase [op.mnemonic] i
  | push {word : String} {x : Double} (hword : Double.ofText? word = some x) : Phrase ["push", word] (.push x)
  | pushBytes {literals : List String} {bytes : List UInt8}
      (hliterals : List.Forall₂ (fun word b => readNat 256 word = .ok b.toNat) literals bytes) :
      Phrase ("pushbytes" :: literals) (.pushBytes bytes)
  | jump {flag word : String} {conditional : Bool} {x : Double} {target : Nat} (hflag : flag ∈ boolWords conditional)
      (hword : Double.ofText? word = some x) (hx : x.Denotes target) (hsafe : target ≤ 2 ^ 53 - 1) :
      Phrase ["jump", flag, word] (.jump conditional target)
  | memLoad {word : String} {mode : Mode} (hword : word ∈ modeWords mode) :
      Phrase ["memload", word] (.memLoad mode)
  | memStore {word : String} {mode : Mode} (hword : word ∈ modeWords mode) :
      Phrase ["memstore", word] (.memStore mode)
  | capability (name : String) : Phrase ["capability", name] (.capability name)
  | capabilityCheck (name : String) : Phrase ["capabilitycheck", name] (.capabilityCheck name)

def Grammatical (line : List Char) : Prop := statement line = [] ∨ ∃ i, Phrase (statement line) i

theorem readBool_eq_ok_iff {word : String} {b : Bool} : readBool word = .ok b ↔ word ∈ boolWords b := by
  unfold readBool
  split <;> cases b <;> simp_all [boolWords]

theorem readMode_eq_ok_iff {word : String} {mode : Mode} : readMode word = .ok mode ↔ word ∈ modeWords mode := by
  unfold readMode
  split <;> cases mode <;> simp_all [modeWords]

theorem lt_of_readDigits {bound value n : Nat} {digits : List Char} (hvalue : value < bound)
    (h : readDigits bound value digits = .ok n) : n < bound := by
  induction digits generalizing value with
  | nil =>
    cases h
    exact hvalue
  | cons c rest ih =>
    rw [readDigits] at h
    split at h
    · cases h
    · split at h
      case isTrue hlt => exact ih hlt h
      case isFalse => cases h

theorem lt_of_readNat {bound n : Nat} {word : String} (hbound : 0 < bound) (h : readNat bound word = .ok n) :
    n < bound := by
  rw [readNat] at h
  split at h
  · cases h
  · cases h
  · exact lt_of_readDigits hbound h
  · exact lt_of_readDigits hbound h

theorem readByte_eq_ok_iff {word : String} {b : UInt8} :
    readByte word = .ok b ↔ readNat 256 word = .ok b.toNat := by
  rw [readByte]
  cases hread : readNat 256 word with
  | error fault => simp
  | ok n =>
    have hlt : n < 2 ^ 8 := lt_of_readNat (by decide) hread
    have hbyte : UInt8.ofNat n = b ↔ n = b.toNat := by
      rw [← UInt8.toNat_inj, UInt8.toNat_ofNat_of_lt' hlt]
    simpa using hbyte

theorem mapM_readByte_eq_ok_iff {found : List String} {bytes : List UInt8} :
    found.mapM readByte = .ok bytes ↔
      List.Forall₂ (fun word b => readNat 256 word = .ok b.toNat) found bytes := by
  induction found generalizing bytes with
  | nil =>
    rw [List.forall₂_nil_left_iff]
    exact ⟨fun h => (Except.ok.inj h).symm, fun h => h ▸ rfl⟩
  | cons word rest ih =>
    rw [List.mapM_cons, bind_eq_ok_iff, List.forall₂_cons_left_iff]
    constructor
    · rintro ⟨b, hb, h⟩
      obtain ⟨more, hmore, h⟩ := bind_eq_ok_iff.mp h
      cases h
      exact ⟨b, more, readByte_eq_ok_iff.mp hb, ih.mp hmore, rfl⟩
    · rintro ⟨b, more, hb, hmore, rfl⟩
      exact ⟨b, readByte_eq_ok_iff.mpr hb, bind_eq_ok_iff.mpr ⟨more, ih.mpr hmore, rfl⟩⟩

theorem readTarget_eq_ok_iff {word : String} {target : Nat} :
    readTarget word = .ok target ↔
      ∃ x, Double.ofText? word = some x ∧ x.Denotes target ∧ target ≤ Double.maxSafe := by
  simp only [← Double.toNat?_eq_some_iff]
  constructor
  · intro h
    obtain ⟨x, hx, h⟩ := bind_eq_ok_iff.mp h
    refine ⟨x, readDouble_eq_ok_iff.mp hx, ?_⟩
    split at h
    case h_1 n hn =>
      cases h
      exact hn
    case h_2 => cases h
  · rintro ⟨x, hx, hn⟩
    exact readTarget_of_double hx hn

theorem readFrom_of_shape {op : Opcode} {i : Instr} (h : op.shape = .plain i) : i.opcode = op ∧ i.ReadFrom [] := by
  cases op <;> cases h <;> exact ⟨rfl, rfl⟩

/-- The grammar and the reader of operands agree on every opcode. -/
theorem phrase_iff_readFrom {found : List String} {i : Instr} :
    Phrase found i ↔ ∃ operands, found = i.opcode.mnemonic :: operands ∧ i.ReadFrom operands := by
  constructor
  · intro h
    cases h with
    | plain op hop =>
      obtain ⟨rfl, hread⟩ := readFrom_of_shape hop
      exact ⟨[], rfl, hread⟩
    | push hword => exact ⟨_, rfl, _, rfl, hword⟩
    | pushBytes hliterals => exact ⟨_, rfl, mapM_readByte_eq_ok_iff.mpr hliterals⟩
    | jump hflag hword hx hsafe =>
      exact ⟨_, rfl, _, _, rfl, readBool_eq_ok_iff.mpr hflag, readTarget_eq_ok_iff.mpr ⟨_, hword, hx, hsafe⟩⟩
    | memLoad hword | memStore hword => exact ⟨_, rfl, _, rfl, readMode_eq_ok_iff.mpr hword⟩
    | capability name | capabilityCheck name => exact ⟨_, rfl, rfl⟩
  · rintro ⟨operands, rfl, hread⟩
    cases i with
    | push x =>
      obtain ⟨word, rfl, hword⟩ := hread
      exact .push hword
    | pushBytes bytes => exact .pushBytes (mapM_readByte_eq_ok_iff.mp hread)
    | jump c target =>
      obtain ⟨flag, word, rfl, hflag, htarget⟩ := hread
      obtain ⟨x, hword, hx, hsafe⟩ := readTarget_eq_ok_iff.mp htarget
      exact .jump (readBool_eq_ok_iff.mp hflag) hword hx hsafe
    | memLoad mode =>
      obtain ⟨word, rfl, hword⟩ := hread
      exact .memLoad (readMode_eq_ok_iff.mp hword)
    | memStore mode =>
      obtain ⟨word, rfl, hword⟩ := hread
      exact .memStore (readMode_eq_ok_iff.mp hword)
    | capability name =>
      obtain rfl : operands = [name] := hread
      exact .capability name
    | capabilityCheck name =>
      obtain rfl : operands = [name] := hread
      exact .capabilityCheck name
    | unary op =>
      obtain rfl : operands = [] := hread
      cases op <;> exact .plain _ rfl
    | binary op =>
      obtain rfl : operands = [] := hread
      cases op <;> exact .plain _ rfl
    | _ =>
      obtain rfl : operands = [] := hread
      exact .plain _ rfl

theorem readLine_eq_some_iff_phrase {line : List Char} {i : Instr} :
    readLine line = .ok (some i) ↔ Phrase (statement line) i := by
  rw [readLine_eq_some_iff, phrase_iff_readFrom, lineWords_eq_statement]

theorem readLine_eq_none_iff {line : List Char} : readLine line = .ok none ↔ statement line = [] := by
  rw [← lineWords_eq_statement]
  constructor
  · exact lineWords_of_readLine_none
  · intro h
    rw [readLine, h]
    rfl

theorem grammatical_iff_readLine {line : List Char} : Grammatical line ↔ ∃ read, readLine line = .ok read := by
  rw [Option.exists, readLine_eq_none_iff]
  simp only [readLine_eq_some_iff_phrase]
  rfl

theorem first_of_assembleLines_error {code : Code} {number : Nat} {rows : List (List Char)} {fault : SourceFault}
    (h : assembleLines code number rows = .error fault) :
    ∃ before line after, rows = before ++ line :: after ∧ fault.line = number + before.length ∧
      (∀ row ∈ before, ∃ read, readLine row = .ok read) ∧ readLine line = .error fault.complaint := by
  induction rows generalizing code number with
  | nil => cases h
  | cons row rows ih =>
    rw [assembleLines] at h
    -- A line that is read, blank or not, moves on to the next number.
    have hread : ∀ {code : Code} {read : Option Instr}, readLine row = .ok read →
        assembleLines code (number + 1) rows = .error fault →
        ∃ before line after, row :: rows = before ++ line :: after ∧ fault.line = number + before.length ∧
          (∀ row ∈ before, ∃ read, readLine row = .ok read) ∧ readLine line = .error fault.complaint := by
      intro code read hrow h
      obtain ⟨before, line, after, rfl, hnumber, hbefore, hline⟩ := ih h
      refine ⟨row :: before, line, after, rfl, ?_, List.forall_mem_cons.mpr ⟨⟨read, hrow⟩, hbefore⟩, hline⟩
      rw [hnumber, List.length_cons]
      omega
    split at h
    case h_1 hrow => exact hread hrow h
    case h_2 i hrow => exact hread hrow h
    case h_3 complaint hrow =>
      cases h
      exact ⟨[], row, rows, rfl, rfl, List.forall_mem_nil _, hrow⟩

theorem forall₂_phrase_of_readLine {rows : List (List Char)} {found : List (Option Instr)}
    (h : rows.map readLine = found.map .ok) :
    List.Forall₂ (fun line i => Phrase (statement line) i) (rows.filter fun line => statement line ≠ [])
      found.reduceOption := by
  induction rows generalizing found with
  | nil =>
    obtain rfl : found = [] := List.map_eq_nil_iff.mp h.symm
    exact .nil
  | cons row rows ih =>
    cases found with
    | nil => cases h
    | cons read found =>
      rw [List.map_cons, List.map_cons, List.cons.injEq] at h
      obtain ⟨hrow, hrows⟩ := h
      cases read with
      | none =>
        have hblank := readLine_eq_none_iff.mp hrow
        rw [List.filter_cons_of_neg (by simpa using hblank), List.reduceOption_cons_of_none]
        exact ih hrows
      | some i =>
        have hphrase := readLine_eq_some_iff_phrase.mp hrow
        have hwords : statement row ≠ [] := by
          intro hblank
          rw [hblank] at hphrase
          cases hphrase
        rw [List.filter_cons_of_pos (by simpa using hwords), List.reduceOption_cons_of_some]
        exact .cons hphrase (ih hrows)

/-- The sources that are assembled are those that follow the grammar. What is assembled decodes to one instruction
for each line that is not blank, in their order; what is not names the first line that breaks the grammar. -/
theorem assemble_grammar {source : String} (hsize : source.utf8ByteSize < 2 ^ 53) :
    ((∃ code, assemble source = .ok code) ↔ ∀ line ∈ lines source.toList, Grammatical line) ∧
    (∀ code, assemble source = .ok code →
      ∃ records, code.decodeAll = .ok records ∧
        List.Forall₂ (fun line r => Phrase (statement line) r.2)
          ((lines source.toList).filter fun line => statement line ≠ []) records) ∧
    (∀ fault, assemble source = .error fault →
      ∃ before line after, lines source.toList = before ++ line :: after ∧ fault.line = before.length + 1 ∧
        (∀ row ∈ before, Grammatical row) ∧ ¬ Grammatical line) := by
  have herror : ∀ fault, assemble source = .error fault →
      ∃ before line after, lines source.toList = before ++ line :: after ∧ fault.line = before.length + 1 ∧
        (∀ row ∈ before, Grammatical row) ∧ ¬ Grammatical line := by
    intro fault h
    obtain ⟨before, line, after, hlines, hnumber, hbefore, hline⟩ := first_of_assembleLines_error h
    refine ⟨before, line, after, hlines, hnumber.trans (Nat.add_comm _ _), ?_, ?_⟩
    · intro row hrow
      exact grammatical_iff_readLine.mpr (hbefore row hrow)
    · intro hgood
      obtain ⟨read, hread⟩ := grammatical_iff_readLine.mp hgood
      cases hline.symm.trans hread
  refine ⟨⟨?_, ?_⟩, ?_, herror⟩
  · rintro ⟨code, h⟩ line hline
    obtain ⟨found, hfound, -⟩ := assemble_eq_ok_iff.mp h
    have hmem : readLine line ∈ found.map Except.ok := hfound ▸ List.mem_map_of_mem hline
    obtain ⟨read, -, hread⟩ := List.mem_map.mp hmem
    exact grammatical_iff_readLine.mpr ⟨read, hread.symm⟩
  · intro hall
    cases h : assemble source with
    | ok code => exact ⟨code, rfl⟩
    | error fault =>
      obtain ⟨before, line, after, hlines, -, -, hbad⟩ := herror fault h
      exact absurd (hall line (hlines ▸ List.mem_append_right before List.mem_cons_self)) hbad
  · intro code h
    obtain ⟨found, hfound, rfl⟩ := assemble_eq_ok_iff.mp h
    have hfits : ∀ i ∈ found.reduceOption, i.Fits := by
      intro i hi
      obtain ⟨line, hline, hread⟩ := (mem_reduceOption_iff hfound).mp hi
      exact fits_of_mem_lines hsize hline hread
    refine ⟨Instr.placed 0 found.reduceOption, Code.decodeAll_ofInstrs hfits, ?_⟩
    have hphrases := forall₂_phrase_of_readLine hfound
    rwa [← Instr.map_snd_placed 0 found.reduceOption, List.forall₂_map_right_iff] at hphrases

/-- A target may be the zero with a sign, and a byte may have a plus. A word too many is at fault on its own line. -/
theorem assemble_grammar_extra_word :
    (∃ code records, assemble "jump 1 -0 // up\n\n pushbytes +7 255#9" = .ok code ∧
      code.decodeAll = .ok records ∧
      List.Forall₂ (fun line r => Phrase (statement line) r.2)
        ["jump 1 -0 // up".toList, " pushbytes +7 255#9".toList] records) ∧
    assemble "halt\nmemload byte 1\nPUSH 1" = .error ⟨2, .extraWords⟩ ∧
      ¬ Grammatical "memload byte 1".toList := by
  constructor
  · have hjump : Phrase (statement "jump 1 -0 // up".toList) (.jump true 0) := by
      rw [show statement "jump 1 -0 // up".toList = ["jump", "1", "-0"] by decide +kernel]
      have hzero : Double.ofText? "-0" = some Double.negativeZero := by decide +kernel
      exact .jump (by decide) hzero ⟨by decide, by decide, fun _ => rfl⟩ (by decide)
    have hbytes : Phrase (statement " pushbytes +7 255#9".toList) (.pushBytes [7, 255]) := by
      rw [show statement " pushbytes +7 255#9".toList = ["pushbytes", "+7", "255"] by decide +kernel]
      exact .pushBytes (.cons (by decide +kernel) (.cons (by decide +kernel) .nil))
    have hsize : "jump 1 -0 // up\n\n pushbytes +7 255#9".utf8ByteSize < 2 ^ 53 := by decide
    obtain ⟨haccepts, hrecords, -⟩ := assemble_grammar hsize
    have hlines : lines "jump 1 -0 // up\n\n pushbytes +7 255#9".toList =
        ["jump 1 -0 // up".toList, [], " pushbytes +7 255#9".toList] := by decide +kernel
    rw [hlines] at haccepts hrecords
    obtain ⟨code, hcode⟩ := haccepts.mpr (by
      simp only [List.forall_mem_cons]
      exact ⟨.inr ⟨_, hjump⟩, .inl rfl, .inr ⟨_, hbytes⟩, List.forall_mem_nil _⟩)
    obtain ⟨records, hdecode, hphrases⟩ := hrecords code hcode
    rw [show [_, _, _].filter _ = ["jump 1 -0 // up".toList, " pushbytes +7 255#9".toList] by decide +kernel]
      at hphrases
    exact ⟨code, records, hcode, hdecode, hphrases⟩
  · have hsize : "halt\nmemload byte 1\nPUSH 1".utf8ByteSize < 2 ^ 53 := by decide
    have hfault : assemble "halt\nmemload byte 1\nPUSH 1" = .error ⟨2, .extraWords⟩ := by decide +kernel
    obtain ⟨before, line, after, hlines, hnumber, -, hline⟩ := (assemble_grammar hsize).2.2 _ hfault
    have hsplit : lines "halt\nmemload byte 1\nPUSH 1".toList =
        ["halt".toList] ++ "memload byte 1".toList :: ["PUSH 1".toList] := by decide +kernel
    have hlength : ["halt".toList].length = before.length := Nat.succ.inj hnumber
    obtain ⟨-, htail⟩ := List.append_inj (hsplit.symm.trans hlines) hlength
    exact ⟨hfault, (List.cons.inj htail).1 ▸ hline⟩

end Assembly

end StackMachine
