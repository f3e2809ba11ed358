import StackMachine.Code.Builder
import StackMachine.Proofs.Code.Tiling
import Mathlib.Tactic

/-!
Reading undoes building. A builder that is given whole records only, be it as an instruction or as an opcode
without operands, makes an image that is read as these instructions, each at the offset the builder had reached
before it. A jump target that is no safe natural number is the one thing that can be built and not read.
-/

set_option autoImplicit false

namespace StackMachine

namespace Piece

def instr? : Piece → Option Instr
  | .record i => some i
  | .opcode op =>
    match op.shape with
    | .plain i => some i
    | _ => none
  | _ => none

theorem encode_of_instr? {piece : Piece} {i : Instr} (h : piece.instr? = some i) :
    piece.encode = i.encode := by
  cases piece with
  | record j =>
    cases h
    rfl
  | opcode op => cases op <;> cases h <;> rfl
  | _ => cases h

end Piece

namespace Builder

def build (calls : List Piece) : Builder := calls.foldl emit {}

theorem toList_foldl_emit (b : Builder) (calls : List Piece) :
    (calls.foldl emit b).code.toList = b.code.toList ++ calls.flatMap Piece.encode := by
  induction calls generalizing b with
  | nil => simp
  | cons piece rest ih =>
    rw [List.foldl_cons, ih, List.flatMap_cons, ← List.append_assoc]
    simp [emit]

theorem flatMap_encode_of_instr? {calls : List Piece} {instrs : List Instr}
    (h : calls.map Piece.instr? = instrs.map some) :
    calls.flatMap Piece.encode = instrs.flatMap Instr.encode := by
  induction calls generalizing instrs with
  | nil =>
    cases instrs with
    | nil => rfl
    | cons => cases h
  | cons piece rest ih =>
    cases instrs with
    | nil => cases h
    | cons i instrs =>
      rw [List.map_cons, List.map_cons, List.cons.injEq] at h
      rw [List.flatMap_cons, List.flatMap_cons, Piece.encode_of_instr? h.1, ih h.2]

theorem code_build {calls : List Piece} {instrs : List Instr}
    (h : calls.map Piece.instr? = instrs.map some) : (build calls).code = Code.ofInstrs instrs := by
  apply Array.toList_inj.mp
  rw [build, toList_foldl_emit, flatMap_encode_of_instr? h]
  rfl

theorem position_build_take {calls : List Piece} {instrs : List Instr}
    (h : calls.map Piece.instr? = instrs.map some) (k : Nat) :
    (build (calls.take k)).position = (Code.ofInstrs (instrs.take k)).size := by
  have htake : (calls.take k).map Piece.instr? = (instrs.take k).map some := by
    rw [List.map_take, List.map_take, h]
  rw [position, code_build htake]

end Builder

namespace Instr

def payload : Instr → Nat
  | .capability name | .capabilityCheck name => name.utf8ByteSize
  | .pushBytes bytes => bytes.length
  | _ => 0

/-- A jump whose target is no safe natural number. -/
def outOfReach : Instr → Bool
  | .jump _ target => 2 ^ 53 ≤ target
  | _ => false

theorem fits_iff {i : Instr} (h : i.payload < 2 ^ 53) : i.Fits ↔ i.outOfReach = false := by
  have hsafe : ∀ n : Nat, n ≤ Double.maxSafe ↔ n < 2 ^ 53 := fun _ => Nat.lt_succ_iff.symm
  cases i with
  | capability _ | capabilityCheck _ | pushBytes _ => exact iff_of_true ((hsafe _).mpr h) rfl
  | jump _ target => rw [Fits, hsafe, outOfReach, decide_eq_false_iff_not, not_le]
  | _ => exact iff_of_true trivial rfl

theorem placed_eq_mapIdx (instrs : List Instr) (front : List Instr) :
    placed (Code.ofInstrs front).size instrs =
      instrs.mapIdx fun k i => ((Code.ofInstrs (front ++ instrs.take k)).size, i) := by
  induction instrs generalizing front with
  | nil => rfl
  | cons i rest ih =>
    have hnext : (Code.ofInstrs front).size + i.encode.length = (Code.ofInstrs (front ++ [i])).size := by
      simp [Code.ofInstrs]
    rw [placed, hnext, ih, List.mapIdx_cons]
    simp

end Instr

open Builder Instr

/-- An image built from whole records is read as these records, each at the offset the builder had reached;
where a jump target is no safe natural number, the first such record is where the reading fails. -/
theorem decodeAll_build (calls : List Piece) (instrs : List Instr)
    (hcalls : calls.map Piece.instr? = instrs.map some) (hsizes : ∀ i ∈ instrs, i.payload < 2 ^ 53) :
    (build calls).code.decodeAll =
      match instrs.findIdx? outOfReach with
      | none => .ok (instrs.mapIdx fun k i => ((build (calls.take k)).position, i))
      | some k => .error ⟨(build (calls.take k)).position, .invalidOperand "unsigned integer operand"⟩ := by
  rw [code_build hcalls]
  simp only [position_build_take hcalls]
  split
  case h_1 hnone =>
    have hfits : ∀ i ∈ instrs, i.Fits := fun i hi =>
      (fits_iff (hsizes i hi)).mpr (List.findIdx?_eq_none_iff.mp hnone i hi)
    rw [Code.decodeAll_ofInstrs hfits]
    exact congrArg _ (placed_eq_mapIdx instrs [])
  case h_2 k hk =>
    obtain ⟨hlt, hout, hbefore⟩ := List.findIdx?_eq_some_iff_getElem.mp hk
    have hfits : ∀ i ∈ instrs.take k, i.Fits := by
      intro i hi
      obtain ⟨j, hj, rfl⟩ := List.mem_take_iff_getElem.mp hi
      have hjk : j < k := hj.trans_le (min_le_left _ _)
      exact (fits_iff (hsizes _ (List.getElem_mem _))).mpr (by simpa using hbefore j hjk)
    have hnot : ¬ instrs[k].Fits := by
      rw [fits_iff (hsizes _ (List.getElem_mem _)), hout]
      exact Bool.noConfusion
    have hsplit : instrs = instrs.take k ++ instrs[k] :: instrs.drop (k + 1) := by
      rw [List.getElem_cons_drop hlt, List.take_append_drop]
    conv_lhs => rw [hsplit]
    exact Code.decodeAll_ofInstrs_of_not_fits hfits hnot

/-- A name of two bytes, a NaN with a payload and a bare opcode are read back. With jumps that go too far
behind them, the first of these is where the reading fails. -/
theorem decodeAll_build_far_jumps :
    let calls : List Piece :=
      [.opcode .dup, .record (.capability "é"), .record (.push ⟨0xfff0000000000001⟩)]
    let instrs : List Instr := [.dup, .capability "é", .push ⟨0xfff0000000000001⟩]
    let far : List Instr := [.jump true (2 ^ 53), .jump false (2 ^ 64 - 1)]
    (calls.map Piece.instr? = instrs.map some ∧ (∀ i ∈ instrs, i.payload < 2 ^ 53) ∧
      (build calls).code.decodeAll =
        .ok [(0, .dup), (1, .capability "é"), (12, .push ⟨0xfff0000000000001⟩)]) ∧
    ((∀ i ∈ instrs ++ far, i.payload < 2 ^ 53) ∧
      (build (calls ++ far.map Piece.record)).code.decodeAll =
        .error ⟨21, .invalidOperand "unsigned integer operand"⟩) := by
  intro calls instrs far
  have hcalls : calls.map Piece.instr? = instrs.map some := rfl
  have hsizes : ∀ i ∈ instrs, i.payload < 2 ^ 53 := by decide
  have hfar : ∀ i ∈ instrs ++ far, i.payload < 2 ^ 53 := by decide
  refine ⟨⟨hcalls, hsizes, ?_⟩, hfar, ?_⟩
  · exact decodeAll_build calls instrs hcalls hsizes
  · have hposition : (build ((calls ++ far.map Piece.record).take 3)).position = 21 := by decide +kernel
    have hfirst : (instrs ++ far).findIdx? outOfReach = some 3 := by decide
    rw [decodeAll_build (calls ++ far.map Piece.record) (instrs ++ far) rfl hfar, hfirst]
    simp only [hposition]

end StackMachine
