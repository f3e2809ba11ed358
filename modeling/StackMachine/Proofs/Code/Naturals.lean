import StackMachine.Code.Builder
import StackMachine.Proofs.Code.Spelling
import StackMachine.Proofs.Double.Value
import Mathlib.Tactic

/-!
Natural numbers as operands. A double is taken for a natural number exactly if its value is one below `2 ^ 53`. A
number is written as the double nearest to it, so it is read back if it is below that bound, and refused if it is not:
no greater number is rounded into the range that is accepted.
-/

set_option autoImplicit false

namespace StackMachine

namespace Double

variable {x : Double} {what : String} {n : Nat}

theorem lt_two_pow_iff_le_maxSafe : n < 2 ^ 53 ↔ n ≤ maxSafe := Nat.lt_succ_iff

theorem toNatOf_eq_ok_iff_value :
    x.toNatOf what = .ok n ↔ x.isFinite ∧ x.value = n ∧ n < 2 ^ 53 := by
  rw [Read.toNatOf_eq_ok_iff, toNat?_eq_some_iff, denotes_iff, lt_two_pow_iff_le_maxSafe, and_assoc]

theorem toNatOf_eq_error_iff :
    x.toNatOf what = .error (.invalidOperand what) ↔ ∀ n, x.toNatOf what ≠ .ok n := by
  rw [toNatOf]
  cases x.toNat? with
  | none => simp
  | some n => simp

theorem toNatOf_eq_ok_zero_iff : x.toNatOf what = .ok 0 ↔ x = zero ∨ x = negativeZero := by
  rw [Read.toNatOf_eq_ok_iff]
  constructor
  · intro h
    exact (eq_ofNat_of_toNat? h).imp (fun hx => by rw [hx]; decide +kernel) And.right
  · rintro (rfl | rfl)
    · decide +kernel
    · decide +kernel

end Double

theorem Builder.holds_emit (b : Builder) (piece : Piece) (more : Code) :
    Code.Holds ((b.emit piece).code ++ more) b.position piece.encode := by
  refine ⟨?_, more.toList, ?_⟩
  · rw [← Array.length_toList, position]
    simp [emit]
  · simp [emit, position]

/-- A number that is read back, or is refused; in both cases its eight bytes have been read. -/
theorem Read.natural_encodeNat {code : Code} {position n : Nat} (h : code.Holds position (encodeNat n)) :
    natural ⟨code, position⟩ = (if n < 2 ^ 53 then .ok n else .error notNatural, ⟨code, position + 8⟩) := by
  split
  case isTrue hn =>
    rw [Double.lt_two_pow_iff_le_maxSafe] at hn
    refine (accepts_natural code position n _ h.1).mpr ⟨encodeNat n, spellsNat_encodeNat hn, h, ?_⟩
    rw [encodeNat, Double.length_toBytes]
  case isFalse hn =>
    rw [Double.lt_two_pow_iff_le_maxSafe, not_le] at hn
    exact natural_of_large hn h

/-- Conversion to natural numbers is exact, both of operands that are found and of numbers that are written. -/
theorem naturals_exact :
    (∀ (x : Double) (what : String),
      (∀ n : Nat, x.toNatOf what = .ok n ↔ x.isFinite ∧ x.value = n ∧ n < 2 ^ 53) ∧
      (x.toNatOf what = .ok 0 ↔ x = .zero ∨ x = .negativeZero) ∧
      (x.toNatOf what = .error (.invalidOperand what) ↔ ¬ ∃ n : Nat, x.isFinite ∧ x.value = n ∧ n < 2 ^ 53)) ∧
    ∀ (v : UInt64) (b : Builder) (more : Code),
      let written := (b.emit (.natural v.toNat)).code
      (∃ x : Double, x.Rounds v.toNat ∧ written = b.code ++ x.toBytes) ∧
      Read.natural ⟨written ++ more, b.position⟩ =
        (if v.toNat < 2 ^ 53 then .ok v.toNat else .error (.invalidOperand "unsigned integer operand"),
          ⟨written ++ more, b.position + 8⟩) := by
  refine ⟨fun x what => ⟨fun n => Double.toNatOf_eq_ok_iff_value, Double.toNatOf_eq_ok_zero_iff, ?_⟩, ?_⟩
  · rw [Double.toNatOf_eq_error_iff, not_exists]
    exact forall_congr' fun n => not_congr Double.toNatOf_eq_ok_iff_value
  · intro v b more written
    have hrounds := Double.ofNat_rounds (Double.isFinite_ofNat v.toNat_lt)
    exact ⟨⟨_, hrounds, rfl⟩, Read.natural_encodeNat (b.holds_emit (.natural v.toNat) more)⟩

end StackMachine
