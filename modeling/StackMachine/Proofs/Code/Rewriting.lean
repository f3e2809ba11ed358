import StackMachine.Proofs.Code.Building

/-!
Writing what was read. Records that are read may be spelled in more ways than they are written in, but every spelling
has the size of the written one. So an image can be written anew from its records, in place, and is read as before;
it stays the same exactly if its operands are spelled strictly, and what was written anew does.
-/

set_option autoImplicit false

namespace StackMachine

open Read (SpellsNat SpellsBytes)

variable {code : Code} {offset : Nat} {bytes : List UInt8} {records : List (Nat × Instr)}

namespace Read

theorem length_encodeNat (n : Nat) : (encodeNat n).length = 8 := Double.length_toBytes _

theorem SpellsBytes.length_eq {body : List UInt8} (h : SpellsBytes bytes body) :
    bytes.length = (encodeBytes body).length := by
  obtain ⟨size, hsize, rfl⟩ := h
  rw [encodeBytes, List.length_append, List.length_append, hsize.1, length_encodeNat]

end Read

namespace Instr

theorem Spells.length_eq {i : Instr} {record : List UInt8} (h : i.Spells record) :
    record.length = i.encode.length := by
  obtain ⟨op, operands, rfl, hop⟩ := h
  obtain rfl := opcode_of_spells hop
  rw [encode, List.length_cons, List.length_cons]
  congr 1
  cases i with
  | capability _ | capabilityCheck _ | pushBytes _ =>
    obtain ⟨_, hbody, heq⟩ := hop
    cases heq
    exact hbody.length_eq
  | push x =>
    obtain ⟨_, rfl, heq⟩ := hop
    cases heq
    rfl
  | jump c target =>
    obtain ⟨_, back, _, _, rfl, ⟨value, rfl, rfl⟩, htarget, heq⟩ := hop
    cases heq
    change back.length + 1 = (encodeNat target).length + 1
    rw [htarget.1, Read.length_encodeNat]
  | memLoad mode | memStore mode =>
    obtain ⟨_, ⟨value, rfl, rfl⟩, heq⟩ := hop
    rfl
  | unary op =>
    cases op <;> rw [hop.1] <;> rfl
  | binary op =>
    cases op <;> rw [hop.1] <;> rfl
  | _ =>
    rw [hop.1]
    rfl

end Instr

/-- Records lie where they would lie if they were written. -/
theorem Tiled.eq_placed (h : Tiled offset bytes records) :
    records = Instr.placed offset (records.map Prod.snd) ∧
      bytes.length = ((records.map Prod.snd).flatMap Instr.encode).length := by
  induction h with
  | nil => exact ⟨rfl, rfl⟩
  | @cons offset i record rest records hi _ ih =>
    obtain ⟨hplaced, hlength⟩ := ih
    constructor
    · rw [List.map_cons, Instr.placed, ← hi.length_eq, ← hplaced]
    · rw [List.map_cons, List.flatMap_cons, List.length_append, List.length_append, hi.length_eq, hlength]

namespace Code

theorem ofInstrs_of_decodeAll (h : code.decodeAll = .ok records) :
    (ofInstrs (records.map Prod.snd)).size = code.size ∧
      (ofInstrs (records.map Prod.snd)).decodeAll = .ok records := by
  have htiled := decodeAll_eq_ok_iff.mp h
  obtain ⟨hplaced, hlength⟩ := htiled.eq_placed
  have hfits : ∀ i ∈ records.map Prod.snd, i.Fits := by
    intro i hi
    obtain ⟨r, hr, rfl⟩ := List.mem_map.mp hi
    exact htiled.fits r hr
  constructor
  · rw [ofInstrs, List.size_toArray, ← hlength, Array.length_toList]
  · rw [decodeAll_ofInstrs hfits, ← hplaced]

theorem ofInstrs_eq_iff_strict (h : code.decodeAll = .ok records) :
    ofInstrs (records.map Prod.snd) = code ↔ ∀ r ∈ records, r.2.Strict (code.toList.drop r.1) := by
  have htiled := decodeAll_eq_ok_iff.mp h
  have hall : code.Holds 0 code.toList := ⟨Nat.zero_le _, List.prefix_rfl⟩
  constructor
  · intro hsame r hr
    have hwritten : code.toList = (records.map Prod.snd).flatMap Instr.encode := by
      rw [← hsame]
      rfl
    have hplaced : r ∈ Instr.placed 0 (records.map Prod.snd) := htiled.eq_placed.1 ▸ hr
    obtain ⟨more, hmore⟩ := (Instr.holds_of_mem_placed (hwritten ▸ hall) hplaced).2
    rw [← hmore]
    exact ((Instr.spells_encode (htiled.fits r hr)).eq_encode_iff more).mp rfl
  · intro hstrict
    rw [ofInstrs, ← htiled.eq_flatMap_encode hall hstrict]

end Code

namespace Builder

/-- The calls emit the records, one by one. -/
def Emits (calls : List Piece) (records : List (Nat × Instr)) : Prop :=
  calls.map Piece.instr? = records.map fun r => some r.2

theorem Emits.code_build {calls : List Piece} (h : Emits calls records) :
    (build calls).code = Code.ofInstrs (records.map Prod.snd) := by
  refine Builder.code_build ?_
  rw [List.map_map]
  exact h

end Builder

open Builder (build Emits)

/-- An image that is built from the records of another one has its size and its records. It is the same image exactly
if the operands of all records are spelled strictly, and building once more changes nothing. -/
theorem build_of_decodeAll (code : Code) (records : List (Nat × Instr)) (calls : List Piece)
    (hread : code.decodeAll = .ok records) (hcalls : Emits calls records) :
    (build calls).code.size = code.size ∧ (build calls).code.decodeAll = .ok records ∧
      ((build calls).code = code ↔ ∀ r ∈ records, r.2.Strict (code.toList.drop r.1)) ∧
      ∀ again recalls, (build calls).code.decodeAll = .ok again → Emits recalls again →
        (build recalls).code = (build calls).code := by
  obtain ⟨hsize, hsame⟩ := Code.ofInstrs_of_decodeAll hread
  rw [hcalls.code_build]
  refine ⟨hsize, hsame, Code.ofInstrs_eq_iff_strict hread, ?_⟩
  intro again recalls hagain hrecalls
  rw [hsame] at hagain
  cases hagain
  rw [hrecalls.code_build]

/-- A true of `7`, a mode of `2` and two zeros with a sign are read, and written in the usual way. -/
theorem build_of_decodeAll_unusual :
    let code : Code := #[11, 7, 0, 0, 0, 0, 0, 0, 0, 0x80, 14, 2, 4, 0, 0, 0, 0, 0, 0, 0, 0x80, 7]
    let records := [(0, .jump true 0), (10, .memLoad .byte), (12, .pushBytes []), (21, .dup)]
    let calls : List Piece := [.record (.jump true 0), .record (.memLoad .byte), .record (.pushBytes []), .opcode .dup]
    code.decodeAll = .ok records ∧ Emits calls records ∧ (build calls).code.size = 22 ∧
      (build calls).code.decodeAll = .ok records ∧ (build calls).code ≠ code := by
  intro code records calls
  have hread : code.decodeAll = .ok records := by decide +kernel
  obtain ⟨hsize, hsame, hequal, -⟩ := build_of_decodeAll code records calls hread rfl
  refine ⟨hread, rfl, hsize, hsame, ?_⟩
  rw [Ne, hequal]
  intro hstrict
  have hmode : (code.toList.drop 10)[1]? = some 0 ∨ (code.toList.drop 10)[1]? = some 1 :=
    hstrict (10, .memLoad .byte) (by decide)
  exact absurd hmode (by decide)

end StackMachine
