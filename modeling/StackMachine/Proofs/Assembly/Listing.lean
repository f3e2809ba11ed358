import StackMachine.Proofs.Assembly.Operands
import StackMachine.Proofs.Code.Tiling
import Mathlib.Data.List.ReduceOption
import Mathlib.Tactic

/-!
Assembling a listing. A source is assembled into the instructions on its lines, one behind the other, and
the lines of a listing whose names are plain words hold the instructions that are listed.
-/

set_option autoImplicit false

namespace StackMachine

open StackMachine.Text

namespace Assembly

theorem toList_assembleLines {code out : Code} {number : Nat} {rows : List (List Char)} :
    assembleLines code number rows = .ok out ↔
      ∃ found : List (Option Instr), rows.map readLine = found.map .ok ∧
        out.toList = code.toList ++ found.reduceOption.flatMap Instr.encode := by
  induction rows generalizing code number with
  | nil =>
    rw [assembleLines]
    constructor
    · intro h
      cases h
      exact ⟨[], rfl, by simp⟩
    · rintro ⟨found, hfound, hout⟩
      cases found with
      | nil =>
        rw [List.reduceOption_nil, List.flatMap_nil, List.append_nil, Array.toList_inj] at hout
        rw [hout]
      | cons => cases hfound
  | cons row rows ih =>
    rw [assembleLines, List.map_cons]
    cases hrow : readLine row with
    | error complaint =>
      refine iff_of_false nofun ?_
      rintro ⟨_ | ⟨read, found⟩, hfound, -⟩ <;> cases hfound
    | ok read =>
      have hcons : ∀ {P : List (Option Instr) → Prop},
          (∃ found, Except.ok read :: rows.map readLine = found.map .ok ∧ P found) ↔
            ∃ found, rows.map readLine = found.map .ok ∧ P (read :: found) := by
        intro P
        constructor
        · rintro ⟨_ | ⟨first, found⟩, hfound, hP⟩
          · cases hfound
          · rw [List.map_cons, List.cons.injEq] at hfound
            obtain ⟨rfl⟩ := Except.ok.inj hfound.1
            exact ⟨found, hfound.2, hP⟩
        · rintro ⟨found, hfound, hP⟩
          exact ⟨read :: found, by rw [hfound, List.map_cons], hP⟩
      rw [hcons]
      cases read with
      | none => simp only [ih, List.reduceOption_cons_of_none]
      | some i =>
        simp only [ih, List.reduceOption_cons_of_some, List.flatMap_cons, ← List.append_assoc]
        simp

theorem assemble_eq_ok_iff {source : String} {code : Code} :
    assemble source = .ok code ↔
      ∃ found : List (Option Instr), (lines source.toList).map readLine = found.map .ok ∧
        code = Code.ofInstrs found.reduceOption := by
  rw [assemble, toList_assembleLines]
  simp only [List.nil_append, ← Array.toList_inj, Code.ofInstrs]

end Assembly

namespace Listing

open Assembly

def ofRecords (records : List (Nat × Instr)) : String :=
  String.join (records.map fun (offset, i) => line offset i ++ "\n")

theorem ofCode_eq_ok_iff {code : Code} {listing : String} :
    ofCode code = .ok listing ↔ ∃ records, code.decodeAll = .ok records ∧ listing = ofRecords records := by
  rw [ofCode, bind_eq_ok_iff]
  refine exists_congr fun records => and_congr_right fun _ => ?_
  exact ⟨fun h => (Except.ok.inj h).symm, fun h => h ▸ rfl⟩

theorem mem_intercalate {found : List String} {c : Char} (h : c ∈ (" ".intercalate found).toList) :
    c = ' ' ∨ ∃ word ∈ found, c ∈ word.toList := by
  induction found with
  | nil => cases h
  | cons word others ih =>
    cases others with
    | nil =>
      rw [String.intercalate_singleton] at h
      exact .inr ⟨word, List.mem_cons_self, h⟩
    | cons other others =>
      rw [String.intercalate_cons_cons, String.toList_append, String.toList_append, List.mem_append,
        List.mem_append] at h
      rcases h with (h | h) | h
      · exact .inr ⟨word, List.mem_cons_self, h⟩
      · exact .inl (List.mem_singleton.mp h)
      · rcases ih h with rfl | ⟨found, hmem, hc⟩
        · exact .inl rfl
        · exact .inr ⟨found, List.mem_cons_of_mem word hmem, hc⟩

/-- The only blanks on a line of a listing are spaces, if its name is a plain word. -/
theorem eq_space_of_mem_line {offset : Nat} {i : Instr} (h : i.Legible) {c : Char}
    (hc : c ∈ (line offset i).toList) (hblank : isBlank c) : c = ' ' := by
  have hplain : ∀ word ∈ i.opcode.mnemonic :: i.operandWords, Assembly.PlainWord word.toList :=
    List.forall_mem_cons.mpr ⟨Instr.plainWord_mnemonic _, Instr.plainWord_operandWords h⟩
  have hword : ∀ {word : String}, Assembly.PlainWord word.toList → c ∉ word.toList := by
    intro word hplain hmem
    rw [hplain.no_blank c hmem] at hblank
    cases hblank
  rw [line, String.toList_append, String.toList_append, List.mem_append, List.mem_append] at hc
  rcases hc with (hc | hc) | hc
  · rw [padRight, String.toList_ofList, List.rightpad, List.mem_append] at hc
    rcases hc with hc | hc
    · rw [Instr.text_eq] at hc
      rcases mem_intercalate hc with rfl | ⟨word, hmem, hc⟩
      · rfl
      · exact absurd hc (hword (hplain word hmem))
    · exact List.eq_of_mem_replicate hc
  · have hmark : c = ' ' ∨ c = '#' ∨ c = ' ' := by simpa using hc
    rcases hmark with rfl | rfl | rfl
    · rfl
    · exact absurd hblank (by decide)
    · rfl
  · rw [padLeft, String.toList_ofList, List.leftpad, List.mem_append] at hc
    rcases hc with hc | hc
    · exact List.eq_of_mem_replicate hc
    · exact absurd hc (hword (Instr.plainWord_repr offset))

theorem newline_not_mem_line {i : Instr} (h : i.Legible) (offset : Nat) : '\n' ∉ (line offset i).toList := by
  intro hmem
  exact absurd (eq_space_of_mem_line h hmem (by decide)) (by decide)

/-- A line of a listing ends with a digit of its offset, whatever stands in front. -/
theorem dropReturn_line (offset : Nat) (i : Instr) : dropReturn (line offset i).toList = (line offset i).toList := by
  have hdigits := Instr.plainWord_repr offset
  have hlast : (line offset i).toList.getLast? = offset.repr.toList.getLast? := by
    rw [line, padLeft, String.toList_append, String.toList_ofList, List.leftpad, ← List.append_assoc,
      List.getLast?_append_of_ne_nil _ hdigits.ne_nil]
  rw [dropReturn, if_neg]
  rw [hlast]
  intro hreturn
  exact absurd (hdigits.no_blank '\r' (List.mem_of_getLast? hreturn)) (by decide)

theorem toList_ofRecords_cons (r : Nat × Instr) (records : List (Nat × Instr)) :
    (ofRecords (r :: records)).toList = (line r.1 r.2).toList ++ '\n' :: (ofRecords records).toList := by
  simp [ofRecords]

theorem lines_ofRecords {records : List (Nat × Instr)} (h : ∀ r ∈ records, '\n' ∉ (line r.1 r.2).toList) :
    lines (ofRecords records).toList = records.map fun r => (line r.1 r.2).toList := by
  induction records with
  | nil => rfl
  | cons r rest ih =>
    rw [List.forall_mem_cons] at h
    have hbreak : ∀ c ∈ (line r.1 r.2).toList, c ≠ '\n' := by
      rintro c hc rfl
      exact h.1 hc
    rw [toList_ofRecords_cons, lines_append_cons hbreak, dropReturn_line, ih h.2, List.map_cons]

/-- The listing of legible records is assembled into what its lines are read as. -/
theorem assemble_ofRecords {records : List (Nat × Instr)} (hfits : ∀ r ∈ records, r.2.Fits)
    (hlegible : ∀ r ∈ records, r.2.Legible) :
    assemble (ofRecords records) = .ok (Code.ofInstrs (records.map fun r => r.2.asListed)) := by
  rw [assemble_eq_ok_iff]
  refine ⟨records.map fun r => some r.2.asListed, ?_, ?_⟩
  · rw [lines_ofRecords fun r hr => newline_not_mem_line (hlegible r hr) r.1, List.map_map, List.map_map]
    apply List.map_congr_left
    intro r hr
    rw [Function.comp_apply, Function.comp_apply, readLine_line (hfits r hr) (hlegible r hr) r.1]
  · rw [List.reduceOption, List.filterMap_map]
    simp

end Listing

end StackMachine
