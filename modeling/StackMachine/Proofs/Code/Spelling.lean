import StackMachine.Code.Image
import StackMachine.Proofs.Code.Reading
import StackMachine.Proofs.Double.Whole
import Mathlib.Tactic

/-!
The bytes that records are read from. `Instr.Spells` relates an instruction to every record that is read as
it. One of them is the record that is written, and the others differ from it only in the byte of a
truth value and in a zero that is spelled with a sign. The records of an image lie behind one another and
fill it.
-/

set_option autoImplicit false

namespace StackMachine

open Read (SpellsNat SpellsBool SpellsBytes)

namespace Shape

def Spells : Shape → List UInt8 → Instr → Prop
  | .plain made, read, i => read = [] ∧ i = made
  | .named made, read, i => ∃ name : String, SpellsBytes read name.toUTF8.data.toList ∧ i = made name
  | .number made, read, i => ∃ x : Double, read = x.toBytes ∧ i = made x
  | .bytes made, read, i => ∃ body, SpellsBytes read body ∧ i = made body
  | .branch made, read, i => ∃ front back conditional target, read = front ++ back ∧
      SpellsBool front conditional ∧ SpellsNat back target ∧ i = made conditional target
  | .access made, read, i => ∃ b, SpellsBool read b ∧ i = made (.ofIsByte b)

end Shape

namespace Read

theorem accepts_operands (op : Opcode) : Accepts (operands op) op.shape.Spells := by
  rw [operands]
  cases op.shape with
  | plain made => exact accepts_pure made
  | named made => exact accepts_name.map made
  | number made => exact accepts_double.map made
  | bytes made =>
    apply (accepts_natural.bind fun count => (accepts_bytes count).map made).congr
    intro read i
    constructor
    · rintro ⟨size, _, count, rfl, hsize, body, ⟨rfl, rfl⟩, rfl⟩
      exact ⟨_, ⟨size, hsize, rfl⟩, rfl⟩
    · rintro ⟨body, ⟨size, hsize, rfl⟩, rfl⟩
      exact ⟨size, body, body.length, rfl, hsize, body, ⟨rfl, rfl⟩, rfl⟩
  | branch made =>
    apply (accepts_bool.bind fun c => accepts_natural.map (made c)).congr
    intro read i
    constructor
    · rintro ⟨front, back, c, rfl, hc, target, htarget, rfl⟩
      exact ⟨front, back, c, target, rfl, hc, htarget, rfl⟩
    · rintro ⟨front, back, c, target, rfl, hc, htarget, rfl⟩
      exact ⟨front, back, c, rfl, hc, target, htarget, rfl⟩
  | access made => exact accepts_bool.map fun b => made (.ofIsByte b)

end Read

namespace Instr

/-- The bytes of a record that is read as the instruction. -/
def Spells (i : Instr) (record : List UInt8) : Prop :=
  ∃ (op : Opcode) (operands : List UInt8), record = op.toByte :: operands ∧ op.shape.Spells operands i

theorem Spells.length_pos {i : Instr} {record : List UInt8} (h : i.Spells record) : 0 < record.length := by
  obtain ⟨op, operands, rfl, -⟩ := h
  exact Nat.succ_pos _

end Instr

namespace Read

theorem instr?_of_opcode {code : Code} {position : Nat} {op : Opcode}
    (h : code[position]? = some op.toByte) :
    instr? ⟨code, position⟩ = (operands op >>= fun i => pure (some i)) ⟨code, position + 1⟩ := by
  have hlt : position < code.size := (Array.getElem?_eq_some_iff.mp h).1
  rw [instr?, bind_apply, byte?_apply]
  simp only [h, if_pos hlt, Opcode.ofByte?_toByte]

theorem instr?_cases (code : Code) (position : Nat) :
    (code.size ≤ position ∧ instr? ⟨code, position⟩ = (.ok none, ⟨code, position⟩)) ∨
    (∃ op : Opcode, code[position]? = some op.toByte) ∨
    (∃ b, code[position]? = some b ∧
      instr? ⟨code, position⟩ = (.error (.unknownOpcode b), ⟨code, position + 1⟩)) := by
  by_cases hlt : position < code.size
  · have hb : code[position]? = some code[position] := Array.getElem?_eq_getElem hlt
    cases hop : Opcode.ofByte? code[position] with
    | none =>
      refine .inr (.inr ⟨_, hb, ?_⟩)
      rw [instr?, bind_apply, byte?_apply]
      simp only [hb, if_pos hlt, hop]
      rfl
    | some op => exact .inr (.inl ⟨op, by rw [Opcode.toByte_of_ofByte? hop, hb]⟩)
  · refine .inl ⟨not_lt.mp hlt, ?_⟩
    rw [instr?, bind_apply, byte?_apply]
    simp only [Array.getElem?_eq_none (not_lt.mp hlt), if_neg hlt]
    rfl

end Read

namespace Code

/-- There is no record at the end of an image, and only there. -/
theorem instrAt?_eq_none_iff {code : Code} {position : Nat} :
    code.instrAt? position = .ok none ↔ code.size ≤ position := by
  rw [instrAt?]
  rcases Read.instr?_cases code position with ⟨hend, hread⟩ | ⟨op, hop⟩ | ⟨b, hb, hread⟩
  · rw [hread]
    exact iff_of_true rfl hend
  · have hlt : position < code.size := (Array.getElem?_eq_some_iff.mp hop).1
    refine iff_of_false ?_ (not_le.mpr hlt)
    rw [Read.instr?_of_opcode hop, bind_apply]
    rcases Read.operands op ⟨code, position + 1⟩ with ⟨_ | i, c⟩ <;> exact nofun
  · have hlt : position < code.size := (Array.getElem?_eq_some_iff.mp hb).1
    rw [hread]
    exact iff_of_false nofun (not_le.mpr hlt)

theorem instrAt?_eq_some_iff_instr? {code : Code} {position next : Nat} {i : Instr} :
    code.instrAt? position = .ok (some (i, next)) ↔
      ∃ c, Read.instr? ⟨code, position⟩ = (.ok (some i), c) ∧ c.position = next := by
  rw [instrAt?]
  constructor
  · intro h
    split at h
    case h_1 read c hread =>
      cases read <;> cases h
      exact ⟨c, hread, rfl⟩
    case h_2 => cases h
  · rintro ⟨c, hread, rfl⟩
    rw [hread]
    rfl

theorem instrAt?_eq_some_iff {code : Code} {position next : Nat} {i : Instr} :
    code.instrAt? position = .ok (some (i, next)) ↔
      ∃ record, i.Spells record ∧ code.Holds position record ∧ next = position + record.length := by
  rw [instrAt?_eq_some_iff_instr?]
  constructor
  · rintro ⟨c, hread, rfl⟩
    obtain ⟨op, hop⟩ : ∃ op : Opcode, code[position]? = some op.toByte := by
      rcases Read.instr?_cases code position with ⟨-, hnone⟩ | hop | ⟨b, -, hfault⟩
      · cases hnone.symm.trans hread
      · exact hop
      · cases hfault.symm.trans hread
    have hfirst := holds_singleton.mpr hop
    rw [Read.instr?_of_opcode hop] at hread
    obtain ⟨operands, ⟨j, hj, hi⟩, hrest, rfl⟩ :=
      ((Read.accepts_operands op).map some code _ _ c hfirst.add_length_le).mp hread
    cases hi
    refine ⟨op.toByte :: operands, ⟨op, operands, rfl, hj⟩, holds_append.mpr ⟨hfirst, hrest⟩, ?_⟩
    simp only [List.length_cons, List.length_nil]
    ring
  · rintro ⟨_, ⟨op, operands, rfl, hi⟩, hold, rfl⟩
    rw [← List.singleton_append, holds_append] at hold
    obtain ⟨hfirst, hrest⟩ := hold
    rw [Read.instr?_of_opcode (holds_singleton.mp hfirst)]
    refine ⟨_, ((Read.accepts_operands op).map some code _ _ _ hfirst.add_length_le).mpr
      ⟨operands, ⟨i, hi, rfl⟩, hrest, rfl⟩, ?_⟩
    simp only [List.length_cons, List.length_nil]
    ring

end Code

namespace Read

theorem spellsNat_encodeNat {n : Nat} (h : n ≤ Double.maxSafe) : SpellsNat (encodeNat n) n := by
  refine ⟨Double.length_toBytes _, ?_⟩
  rw [encodeNat, Double.ofBytes_toBytes, Double.toNat?_ofNat_of_safe h]

theorem spellsBool_encodeBool (b : Bool) : SpellsBool (encodeBool b) b := by
  refine ⟨if b then 1 else 0, rfl, ?_⟩
  cases b <;> rfl

theorem spellsBytes_encodeBytes {body : List UInt8} (h : body.length ≤ Double.maxSafe) :
    SpellsBytes (encodeBytes body) body :=
  ⟨encodeNat body.length, spellsNat_encodeNat h, rfl⟩

/-- A number is spelled in the way it is written, or it is a zero with a sign. -/
theorem SpellsNat.eq_encodeNat_iff {bytes : List UInt8} {n : Nat} (h : SpellsNat bytes n) :
    bytes = encodeNat n ↔ bytes ≠ Double.negativeZero.toBytes := by
  obtain ⟨hlen, hn⟩ := h
  have hbytes : bytes = (Double.ofBytes bytes).toBytes := (Double.toBytes_ofBytes hlen).symm
  constructor
  · intro hwritten hsigned
    have heq : Double.ofNat n = Double.negativeZero := by
      rw [← Double.ofBytes_toBytes (Double.ofNat n), ← Double.ofBytes_toBytes Double.negativeZero]
      exact congrArg Double.ofBytes (hwritten.symm.trans hsigned)
    have hsign := congrArg Double.isNegative heq
    rw [Double.isNegative_ofNat] at hsign
    exact absurd hsign (by decide)
  · intro hsigned
    rcases Double.eq_ofNat_of_toNat? hn with hx | ⟨-, hx⟩
    · rw [hbytes, hx, encodeNat]
    · exact absurd (hbytes.trans (by rw [hx])) hsigned

theorem SpellsNat.le_maxSafe {bytes : List UInt8} {n : Nat} (h : SpellsNat bytes n) :
    n ≤ Double.maxSafe :=
  Double.le_maxSafe_of_toNat? h.2

end Read

namespace Instr

/-- Every length and target in the record of the instruction is a safe natural number. -/
def Fits : Instr → Prop
  | .capability name | .capabilityCheck name => name.utf8ByteSize ≤ Double.maxSafe
  | .pushBytes bytes => bytes.length ≤ Double.maxSafe
  | .jump _ target => target ≤ Double.maxSafe
  | _ => True

theorem length_utf8 (name : String) : name.toUTF8.data.toList.length = name.utf8ByteSize := by
  rw [Array.length_toList]
  exact String.size_toByteArray

theorem spells_encode {i : Instr} (h : i.Fits) : i.Spells i.encode := by
  refine ⟨i.opcode, i.operands, rfl, ?_⟩
  cases i with
  | capability name | capabilityCheck name =>
    exact ⟨name, Read.spellsBytes_encodeBytes (by rw [length_utf8]; exact h), rfl⟩
  | push x => exact ⟨x, rfl, rfl⟩
  | pushBytes body => exact ⟨body, Read.spellsBytes_encodeBytes h, rfl⟩
  | jump c target =>
    exact ⟨_, _, c, target, rfl, Read.spellsBool_encodeBool c, Read.spellsNat_encodeNat h, rfl⟩
  | memLoad mode | memStore mode =>
    refine ⟨mode.isByte, Read.spellsBool_encodeBool _, ?_⟩
    rw [Mode.ofIsByte_isByte]
  | unary op => cases op <;> exact ⟨rfl, rfl⟩
  | binary op => cases op <;> exact ⟨rfl, rfl⟩
  | _ => exact ⟨rfl, rfl⟩

end Instr

theorem Instr.Spells.fits {i : Instr} {record : List UInt8} (h : i.Spells record) : i.Fits := by
  obtain ⟨op, operands, -, hop⟩ := h
  cases op
  case capability =>
    obtain ⟨name, ⟨size, hsize, -⟩, rfl⟩ := hop
    rw [Fits, ← length_utf8]
    exact hsize.le_maxSafe
  case capabilityCheck =>
    obtain ⟨name, ⟨size, hsize, -⟩, rfl⟩ := hop
    rw [Fits, ← length_utf8]
    exact hsize.le_maxSafe
  case pushBytes =>
    obtain ⟨body, ⟨size, hsize, -⟩, rfl⟩ := hop
    exact hsize.le_maxSafe
  case jump =>
    obtain ⟨_, _, conditional, target, -, -, htarget, rfl⟩ := hop
    exact htarget.le_maxSafe
  case push | memLoad | memStore =>
    obtain ⟨_, -, rfl⟩ := hop
    exact trivial
  all_goals
    obtain ⟨-, rfl⟩ := hop
    exact trivial

namespace Read

def notNatural : Fault := .invalidOperand "unsigned integer operand"

theorem natural_of_large {code : Code} {position n : Nat} (hn : Double.maxSafe < n)
    (h : code.Holds position (encodeNat n)) :
    natural ⟨code, position⟩ = (.error notNatural, ⟨code, position + 8⟩) := by
  have hread : double ⟨code, position⟩ = (.ok (Double.ofNat n), ⟨code, position + 8⟩) :=
    (accepts_double code position _ _ h.1).mpr
      ⟨encodeNat n, rfl, h, by rw [encodeNat, Double.length_toBytes]⟩
  have hrefused : (Double.ofNat n).toNatOf "unsigned integer operand" = .error notNatural := by
    rw [Double.toNatOf, Double.toNat?_ofNat_of_large hn, notNatural]
  rw [natural, bind_apply, hread]
  exact lift_error_apply hrefused _

theorem operands_of_not_fits {code : Code} {position : Nat} {i : Instr} (hi : ¬ i.Fits)
    (h : code.Holds position i.operands) :
    ∃ c, operands i.opcode ⟨code, position⟩ = (.error notNatural, c) := by
  have hsized : ∀ body : List UInt8, Double.maxSafe < body.length →
      code.Holds position (encodeBytes body) →
      natural ⟨code, position⟩ = (.error notNatural, ⟨code, position + 8⟩) :=
    fun body hbody hold => natural_of_large hbody (Code.holds_append.mp hold).1
  cases i with
  | capability name | capabilityCheck name =>
    rw [Instr.Fits, not_le, ← Instr.length_utf8] at hi
    refine ⟨⟨code, position + 8⟩, ?_⟩
    change (Read.name >>= fun text => pure _ : Read Instr) ⟨code, position⟩ = _
    rw [bind_apply, Read.name, bind_apply, hsized _ hi h]
  | pushBytes body =>
    rw [Instr.Fits, not_le] at hi
    refine ⟨⟨code, position + 8⟩, ?_⟩
    change (natural >>= fun count => bytes count >>= fun body => pure _ : Read Instr) ⟨code, position⟩ = _
    rw [bind_apply, hsized body hi h]
  | jump c target =>
    rw [Instr.Fits, not_le] at hi
    obtain ⟨hfront, hback⟩ := Code.holds_append.mp h
    have hc : bool ⟨code, position⟩ = (.ok c, ⟨code, position + (encodeBool c).length⟩) :=
      (accepts_bool code position c _ h.1).mpr ⟨_, spellsBool_encodeBool c, hfront, rfl⟩
    refine ⟨⟨code, position + (encodeBool c).length + 8⟩, ?_⟩
    change (bool >>= fun c => natural >>= fun target => pure _ : Read Instr) ⟨code, position⟩ = _
    rw [bind_apply, hc]
    change (natural >>= fun target => pure _ : Read Instr) _ = _
    rw [bind_apply, natural_of_large hi hback]
  | _ => exact absurd trivial hi

end Read

theorem Code.instrAt?_of_not_fits {code : Code} {position : Nat} {i : Instr} (hi : ¬ i.Fits)
    (h : code.Holds position i.encode) : code.instrAt? position = .error Read.notNatural := by
  rw [Instr.encode, ← List.singleton_append, holds_append] at h
  obtain ⟨hfirst, hrest⟩ := h
  obtain ⟨c, hc⟩ := Read.operands_of_not_fits hi hrest
  have hread : Read.instr? ⟨code, position⟩ = (.error Read.notNatural, c) := by
    rw [Read.instr?_of_opcode (holds_singleton.mp hfirst), bind_apply]
    simp only [List.length_singleton] at hc
    rw [hc]
  rw [instrAt?, hread]

namespace Read

theorem SpellsNat.eq_encodeNat_iff_not_prefix {bytes : List UInt8} {n : Nat} (rest : List UInt8)
    (h : SpellsNat bytes n) :
    bytes = encodeNat n ↔ ¬ Double.negativeZero.toBytes <+: bytes ++ rest := by
  rw [h.eq_encodeNat_iff, not_iff_not]
  have hlen : Double.negativeZero.toBytes.length = bytes.length := by
    rw [Double.length_toBytes, h.1]
  constructor
  · rintro rfl
    exact List.prefix_append _ _
  · intro hprefix
    have hsigned := List.prefix_of_prefix_length_le hprefix (List.prefix_append bytes rest) hlen.le
    exact (hsigned.eq_of_length hlen).symm

theorem SpellsBytes.eq_encodeBytes_iff {bytes body : List UInt8} (rest : List UInt8)
    (h : SpellsBytes bytes body) :
    bytes = encodeBytes body ↔ ¬ Double.negativeZero.toBytes <+: bytes ++ rest := by
  obtain ⟨size, hsize, rfl⟩ := h
  rw [encodeBytes, List.append_left_inj, List.append_assoc]
  exact hsize.eq_encodeNat_iff_not_prefix _

theorem encodeBool_eq_iff (value : UInt8) :
    value = (if (value != 0) = true then 1 else 0) ↔ value = 0 ∨ value = 1 := by
  by_cases hzero : value = 0
  · simp [hzero]
  · simp [hzero]

end Read

theorem Mode.isByte_ofIsByte (b : Bool) : (Mode.ofIsByte b).isByte = b := by
  cases b <;> rfl

namespace Instr

/-- The operands of a record are spelled as they are written: truth values by zero and one, and no length or
target by a zero with a sign. The bytes are those from the record on. -/
def Strict : Instr → List UInt8 → Prop
  | .capability _, bytes | .capabilityCheck _, bytes | .pushBytes _, bytes =>
    ¬ Double.negativeZero.toBytes <+: bytes.drop 1
  | .jump _ _, bytes =>
    (bytes[1]? = some 0 ∨ bytes[1]? = some 1) ∧ ¬ Double.negativeZero.toBytes <+: bytes.drop 2
  | .memLoad _, bytes | .memStore _, bytes => bytes[1]? = some 0 ∨ bytes[1]? = some 1
  | _, _ => True

theorem opcode_of_spells {op : Opcode} {operands : List UInt8} {i : Instr}
    (h : op.shape.Spells operands i) : i.opcode = op := by
  cases op
  case capability => obtain ⟨name, -, rfl⟩ := h; rfl
  case capabilityCheck => obtain ⟨name, -, rfl⟩ := h; rfl
  case push => obtain ⟨x, -, rfl⟩ := h; rfl
  case pushBytes => obtain ⟨body, -, rfl⟩ := h; rfl
  case jump => obtain ⟨-, -, conditional, target, -, -, -, rfl⟩ := h; rfl
  case memLoad => obtain ⟨b, -, rfl⟩ := h; rfl
  case memStore => obtain ⟨b, -, rfl⟩ := h; rfl
  all_goals
    obtain ⟨-, rfl⟩ := h
    rfl

/-- A record is the one that is written exactly if its operands are spelled strictly. -/
theorem Spells.eq_encode_iff {i : Instr} {record : List UInt8} (rest : List UInt8)
    (h : i.Spells record) : record = i.encode ↔ i.Strict (record ++ rest) := by
  obtain ⟨op, operands, rfl, hop⟩ := h
  obtain rfl := opcode_of_spells hop
  rw [encode, List.cons.injEq, and_iff_right rfl]
  cases i with
  | capability _ | capabilityCheck _ | pushBytes _ =>
    obtain ⟨_, hbody, heq⟩ := hop
    cases heq
    exact hbody.eq_encodeBytes_iff rest
  | push x =>
    obtain ⟨_, rfl, heq⟩ := hop
    cases heq
    exact ⟨fun _ => trivial, fun _ => rfl⟩
  | jump c target =>
    obtain ⟨_, back, _, _, rfl, ⟨value, rfl, rfl⟩, htarget, heq⟩ := hop
    cases heq
    change value :: back = _ :: encodeNat target ↔
      (some value = some 0 ∨ some value = some 1) ∧ ¬ Double.negativeZero.toBytes <+: back ++ rest
    rw [List.cons.injEq, Read.encodeBool_eq_iff, htarget.eq_encodeNat_iff_not_prefix rest,
      Option.some_inj, Option.some_inj]
  | memLoad mode | memStore mode =>
    obtain ⟨_, ⟨value, rfl, rfl⟩, heq⟩ := hop
    cases heq
    change [value] = [if (Mode.ofIsByte (value != 0)).isByte then 1 else 0] ↔
      (some value = some 0 ∨ some value = some 1)
    rw [Mode.isByte_ofIsByte, List.cons.injEq, and_iff_left rfl, Read.encodeBool_eq_iff,
      Option.some_inj, Option.some_inj]
  | unary op => cases op <;> exact ⟨fun _ => trivial, fun _ => hop.1⟩
  | binary op => cases op <;> exact ⟨fun _ => trivial, fun _ => hop.1⟩
  | _ => exact ⟨fun _ => trivial, fun _ => hop.1⟩

end Instr

end StackMachine
