import StackMachine.Proofs.Assembly.Listing
import Mathlib.Tactic

/-!
The lines of a listing. A listing is meant to have one line for each record: the text of the instruction in 24
columns at least, a mark, and the offset in 6. Names are taken from the image and shown as they are, so a newline in
a name ends the line in the middle of a record, and what follows it stands on a line of its own as if it were an
instruction. Nothing else in a record does: the listing has as many lines more than records as there are newlines in
the names.
-/

set_option autoImplicit false

namespace StackMachine

open StackMachine.Text

namespace Instr

def name? : Instr → Option String
  | .capability name | .capabilityCheck name => some name
  | _ => none

/-- The newlines in the name, none if there is no name. -/
def lineBreaks (i : Instr) : Nat := i.name?.elim 0 fun name => name.toList.count '\n'

theorem lineBreaks_eq_zero_iff {i : Instr} : i.lineBreaks = 0 ↔ ∀ name, i.name? = some name → '\n' ∉ name.toList := by
  rw [lineBreaks]
  cases i.name? with
  | none => simp
  | some name => simp [List.count_eq_zero]

end Instr

namespace Listing

variable {records : List (Nat × Instr)}

def row (offset : Nat) (i : Instr) : List Char :=
  i.text.toList ++ List.replicate (24 - i.text.length) ' ' ++ [' ', '#', ' '] ++
    List.replicate (6 - offset.repr.length) ' ' ++ offset.repr.toList

theorem toList_line (offset : Nat) (i : Instr) : (line offset i).toList = row offset i := by
  simp only [line, row, padRight, padLeft, List.rightpad, List.leftpad, textWidth, offsetWidth, String.toList_append,
    String.toList_ofList, String.length_toList, ← List.append_assoc]
  rfl

theorem count_newline_line (offset : Nat) (i : Instr) : (line offset i).toList.count '\n' = i.lineBreaks := by
  have hdigits : offset.repr.toList.count '\n' = 0 := by
    rw [List.count_eq_zero]
    intro hmem
    exact absurd ((Instr.plainWord_repr offset).no_blank '\n' hmem) (by decide)
  have htext : (line offset i).toList.count '\n' = i.text.toList.count '\n' := by
    simp only [toList_line, row, List.count_append, hdigits]
    simp [List.count_replicate]
  cases i with
  | capability name | capabilityCheck name =>
    rw [htext, Instr.text_eq]
    simp [Instr.operandWords, Instr.opcode, Opcode.mnemonic, Instr.lineBreaks, Instr.name?]
  | _ =>
    refine List.count_eq_zero.mpr (newline_not_mem_line ?_ offset)
    exact trivial

/-- A listing ends with a newline, so each newline in it ends a line. -/
theorem length_lines_ofRecords (records : List (Nat × Instr)) :
    (lines (ofRecords records).toList).length =
      records.length + (records.map fun r => r.2.lineBreaks).sum := by
  induction records with
  | nil => rfl
  | cons r rest ih =>
    have hpieces : (pieces (· == '\n') (line r.1 r.2).toList).length = r.2.lineBreaks + 1 := by
      rw [length_pieces, ← count_newline_line r.1]
      rfl
    rw [toList_ofRecords_cons, lines_append, List.length_append, List.length_map, hpieces, ih, List.length_cons,
      List.map_cons, List.sum_cons]
    omega

theorem lines_ofRecords_iff :
    lines (ofRecords records).toList = records.map (fun r => row r.1 r.2) ↔ ∀ r ∈ records, r.2.lineBreaks = 0 := by
  constructor
  · intro hlines r hr
    have hlength := length_lines_ofRecords records
    rw [hlines, List.length_map] at hlength
    have hsum : (records.map fun r => r.2.lineBreaks).sum = 0 := by omega
    exact List.sum_eq_zero_iff.mp hsum _ (List.mem_map_of_mem hr)
  · intro hnone
    have hunbroken : ∀ r ∈ records, '\n' ∉ (line r.1 r.2).toList := by
      intro r hr
      rw [← List.count_eq_zero, count_newline_line, hnone r hr]
    simp only [lines_ofRecords hunbroken, toList_line]

end Listing

/-- An image that can be read has a listing. It has as many lines more than there are records as there are newlines
in the names of the records, and so its lines are those of the records exactly if no name has a newline in it. -/
theorem lines_listing {code : Code} {records : List (Nat × Instr)} (hdecode : code.decodeAll = .ok records) :
    ∃ listing, Listing.ofCode code = .ok listing ∧
      (lines listing.toList).length = records.length + (records.map fun r => r.2.lineBreaks).sum ∧
      (lines listing.toList = records.map (fun r => Listing.row r.1 r.2) ↔
        ∀ r ∈ records, ∀ name, r.2.name? = some name → '\n' ∉ name.toList) := by
  refine ⟨Listing.ofRecords records, Listing.ofCode_eq_ok_iff.mpr ⟨records, hdecode, rfl⟩,
    Listing.length_lines_ofRecords records, ?_⟩
  simp only [Listing.lines_ofRecords_iff, Instr.lineBreaks_eq_zero_iff]

/-- A carriage return at the end of a name and a mark in it do not break the line; a newline does. -/
theorem lines_listing_broken :
    (∃ listing, Listing.ofCode (.ofInstrs [.capability "a # b\r", .halt]) = .ok listing ∧
      lines listing.toList = [Listing.row 0 (.capability "a # b\r"), Listing.row 15 .halt]) ∧
    (∃ listing, Listing.ofCode (.ofInstrs [.capabilityCheck "\n", .halt]) = .ok listing ∧
      (lines listing.toList).length = 3) := by
  have hwhole : (Code.ofInstrs [.capability "a # b\r", .halt]).decodeAll =
      .ok [(0, .capability "a # b\r"), (15, .halt)] := by decide +kernel
  have hbroken : (Code.ofInstrs [.capabilityCheck "\n", .halt]).decodeAll =
      .ok [(0, .capabilityCheck "\n"), (10, .halt)] := by decide +kernel
  obtain ⟨whole, hofWhole, -, hlines⟩ := lines_listing hwhole
  obtain ⟨broken, hofBroken, hlength, -⟩ := lines_listing hbroken
  refine ⟨⟨whole, hofWhole, hlines.mpr ?_⟩, broken, hofBroken, hlength⟩
  intro r hr name hname
  rcases List.mem_pair.mp hr with rfl | rfl
  · cases hname
    decide
  · cases hname

/-- The one record calls a capability, and a line of its listing is read as the instruction to halt. -/
theorem listing_shows_unlisted_halt :
    (Code.ofInstrs [.capability "a\nhalt"]).decodeAll = .ok [(0, .capability "a\nhalt")] ∧
      ∃ listing, Listing.ofCode (.ofInstrs [.capability "a\nhalt"]) = .ok listing ∧
        (lines listing.toList).length ≠ 1 ∧
        lines listing.toList ≠ [Listing.row 0 (.capability "a\nhalt")] ∧
        ∃ line ∈ lines listing.toList, Assembly.readLine line = .ok (some .halt) := by
  refine ⟨by decide +kernel, "capability a\nhalt        #      0\n", ?_⟩
  decide +kernel

end StackMachine
