import StackMachine.Double.Decimal
import StackMachine.Proofs.Double.Whole
import Mathlib.Tactic

/-!
Decimals read as words. Reading depends on the magnitude alone, not on the zeros a decimal is written with,
and the decimal chosen for a word is read as that word.
-/

set_option autoImplicit false

namespace StackMachine

namespace Decimal

theorem tenTo_eq (n : Nat) : tenTo n = 10 ^ n := rfl

theorem digitCount_le_iff {n k : Nat} (hk : 0 < k) : digitCount n ≤ k ↔ n < 10 ^ k :=
  Nat.length_toDigits_le_iff (by decide) hk

theorem digitCount_mul_ten {n : Nat} (hn : 0 < n) : digitCount (n * 10) = digitCount n + 1 := by
  have h := Nat.toDigits_append_toDigits (b := 10) (d := 0) (by decide) hn (by decide)
  rw [Nat.add_zero, Nat.mul_comm] at h
  rw [digitCount, ← h]
  simp [digitCount]

theorem digitCount_mul_tenTo {n : Nat} (hn : 0 < n) (k : Nat) :
    digitCount (n * 10 ^ k) = digitCount n + k := by
  induction k with
  | zero => simp
  | succ k ih =>
    rw [pow_succ, ← Nat.mul_assoc, digitCount_mul_ten (by positivity), ih]
    omega

/-- Reading a decimal, with the power of ten on the one side or the other. -/
theorem toWord_eq (d : Decimal) :
    d.toWord =
      if d.digits = 0 ∨ digitCount d.digits + d.exponent < -330 then 0
      else if 310 < digitCount d.digits + d.exponent then Double.infinityWord
      else Double.nearestWord (d.digits * 10 ^ d.exponent.toNat * Double.unitsPerOne)
        (10 ^ (-d.exponent).toNat) := by
  obtain ⟨n, e⟩ := d
  cases e with
  | ofNat e => simp [toWord, tenTo_eq]
  | negSucc e => simp [toWord, tenTo_eq]

theorem toWord_le_infinityWord (d : Decimal) : d.toWord ≤ Double.infinityWord := by
  rw [toWord_eq]
  split
  · exact Nat.zero_le _
  split
  · exact le_rfl
  · exact min_le_right _ _

/-- Zeros behind the last digit change nothing if the exponent makes up for them. -/
theorem toWord_append_zeros (n k : Nat) (e : Int) : toWord ⟨n * 10 ^ k, e - k⟩ = toWord ⟨n, e⟩ := by
  by_cases hn : n = 0
  · simp [toWord_eq, hn]
  have hplaces : (digitCount (n * 10 ^ k) : Int) + (e - k) = digitCount n + e := by
    rw [digitCount_mul_tenTo (Nat.pos_of_ne_zero hn)]
    push_cast
    omega
  obtain ⟨j, hnum, hden⟩ : ∃ j, k + (e - k).toNat = e.toNat + j ∧ (-(e - k)).toNat = (-e).toNat + j :=
    ⟨k + (e - k).toNat - e.toNat, by omega, by omega⟩
  have hscale := Double.nearestWord_scale (n * 10 ^ e.toNat * Double.unitsPerOne) (10 ^ (-e).toNat)
    (10 ^ j) (by positivity)
  rw [← pow_add, ← hden] at hscale
  have hnum' : n * 10 ^ k * 10 ^ (e - k).toNat * Double.unitsPerOne =
      n * 10 ^ e.toNat * Double.unitsPerOne * 10 ^ j := by
    rw [Nat.mul_assoc n, ← pow_add, hnum, pow_add]
    ring
  have hz : n * 10 ^ k = 0 ↔ n = 0 := by simp
  simp only [toWord_eq, hplaces, hz, hnum', hscale]

/-- The decimal of all digits of a magnitude, which the search for a shorter one ends with. -/
theorem toWord_exact {w : Nat} (hz : w ≠ 0) (hw : w < Double.infinityWord) :
    (exact (Double.unitsOfWord w)).toWord = w := by
  have hpos := Double.unitsOfWord_pos hz
  have hlt := Double.unitsOfWord_lt hw
  have hfive : (0 : Nat) < 5 ^ 1074 := by positivity
  have hdigits : Double.unitsOfWord w * 5 ^ 1074 ≠ 0 := (Nat.mul_pos hpos hfive).ne'
  -- Between the least and the greatest finite magnitude, no shortcut of `toWord` is taken.
  have hleast : 743 < digitCount (Double.unitsOfWord w * 5 ^ 1074) := by
    rw [← not_le, digitCount_le_iff (by decide), not_lt]
    calc 10 ^ 743 ≤ 5 ^ 1074 := by decide +kernel
      _ ≤ Double.unitsOfWord w * 5 ^ 1074 := Nat.le_mul_of_pos_left _ hpos
  have hmost : digitCount (Double.unitsOfWord w * 5 ^ 1074) ≤ 1384 := by
    rw [digitCount_le_iff (by decide)]
    calc Double.unitsOfWord w * 5 ^ 1074 < 2 ^ 2098 * 5 ^ 1074 :=
          Nat.mul_lt_mul_of_pos_right hlt hfive
      _ ≤ 10 ^ 1384 := by decide +kernel
  have hexact : exact (Double.unitsOfWord w) = ⟨Double.unitsOfWord w * 5 ^ 1074, -1074⟩ := by
    unfold exact
    generalize (1074 : Nat) = k
    rfl
  have hnum : (-1074 : Int).toNat = 0 := rfl
  have hden : (-(-1074) : Int).toNat = 1074 := rfl
  have hten : ∀ u k : Nat, u * 5 ^ k * 2 ^ k = u * 10 ^ k := by
    intro u k
    rw [Nat.mul_assoc, ← Nat.mul_pow]
  have hround := Double.nearestWord_scale (Double.unitsOfWord w) 1 (10 ^ 1074) (by positivity)
  rw [Nat.one_mul] at hround
  rw [hexact, toWord_eq, if_neg (by simp only [not_or]; omega), if_neg (by simp only; omega),
    hnum, hden, pow_zero, Nat.mul_one, Double.unitsPerOne_eq, hten, hround,
    Double.nearestWord_unitsOfWord hw.le]

theorem toWord_of_onGrid? {w units : Nat} {e : Int} {d : Decimal}
    (h : onGrid? w units e = some d) : d.toWord = w := by
  simp only [onGrid?] at h
  split at h
  case isTrue hb => cases h; exact hb.1
  case isFalse =>
    split at h
    case isTrue ha => cases h; exact ha
    case isFalse => cases h

theorem toWord_ofWord {w : Nat} (hz : w ≠ 0) (hw : w < Double.infinityWord) :
    (ofWord w).toWord = w := by
  have search : ∀ left e, (shortestFrom w (Double.unitsOfWord w) left e).toWord = w := by
    intro left
    induction left with
    | zero => intro e; exact toWord_exact hz hw
    | succ left ih =>
      intro e
      rw [shortestFrom]
      split
      case h_1 d hd => exact toWord_of_onGrid? hd
      case h_2 => exact ih _
  exact search 17 _

end Decimal

end StackMachine
