import StackMachine.Proofs.Double.Whole
import Mathlib.Tactic

/-!
The numbers that doubles stand for. A pattern is read by its fields: a sign, eleven bits of exponent and 52 bits of
fraction. The number of a finite double is a whole number of units, and greater words stand for greater magnitudes. A
natural number is converted to the double nearest to it; if two are equally near, to the one with the even fraction.
-/

set_option autoImplicit false

namespace StackMachine

/-- Rounding moves a quotient by half at most, and by a half only to an even integer. -/
theorem two_mul_abs_roundHalfEven (num : ℕ) {den : ℕ} (hd : 0 < den) :
    2 * |(roundHalfEven num den * den : ℤ) - num| ≤ den ∧
      (2 * |(roundHalfEven num den * den : ℤ) - num| = den → Even (roundHalfEven num den)) := by
  have hr := Nat.mod_lt num hd
  have hnum : (num : ℤ) = den * (num / den : ℕ) + (num % den : ℕ) := by
    exact_mod_cast (Nat.div_add_mod num den).symm
  rw [hnum, Nat.even_iff, roundHalfEven]
  generalize num / den = a at *
  generalize num % den = r at *
  split
  · have hup : ((a + 1 : ℕ) * den : ℤ) - (den * a + r) = (den - r : ℕ) := by
      rw [Nat.cast_sub hr.le]
      push_cast
      ring
    rw [hup, Nat.abs_cast]
    omega
  · have hdown : (a * den : ℤ) - (den * a + r) = -r := by ring
    rw [hdown, abs_neg, Nat.abs_cast]
    omega

/-- No multiple of the divisor is nearer than the one that is rounded to; that one is even if another one is as near. -/
theorem roundHalfEven_nearest (num : ℕ) {den : ℕ} (hd : 0 < den) {k : ℕ} (hk : k ≠ roundHalfEven num den) :
    |(roundHalfEven num den * den : ℤ) - num| ≤ |(k * den : ℤ) - num| ∧
      (|(k * den : ℤ) - num| = |(roundHalfEven num den * den : ℤ) - num| → Even (roundHalfEven num den)) := by
  obtain ⟨hhalf, htie⟩ := two_mul_abs_roundHalfEven num hd
  generalize roundHalfEven num den = q at *
  have happart : (den : ℤ) ≤ |(k * den : ℤ) - num| + |(q * den : ℤ) - num| := by
    calc (den : ℤ) ≤ |(k - q : ℤ)| * den :=
          le_mul_of_one_le_left (by positivity) (Int.one_le_abs (by omega))
      _ = |(k * den - num : ℤ) - (q * den - num)| := by
          rw [← Nat.abs_cast den, ← abs_mul, Nat.abs_cast]
          congr 1
          ring
      _ ≤ _ := abs_sub _ _
  exact ⟨by omega, fun hequal => htie (by omega)⟩

namespace Double

variable {x y : Double} {u w : Nat}

/-- The magnitudes from a given exponent on lie on the grid of that exponent. -/
theorem lt_or_exists_unitsOfWord_eq (e w : Nat) :
    (e ≠ 0 ∧ unitsOfWord w < leadingBit * 2 ^ e) ∨ ∃ k, unitsOfWord w = k * 2 ^ e := by
  by_cases hfine : e = 0
  · exact Or.inr ⟨unitsOfWord w, by rw [hfine, pow_zero, Nat.mul_one]⟩
  by_cases hsmall : w < leadingBit
  · refine Or.inl ⟨hfine, ?_⟩
    rw [unitsOfWord_small hsmall]
    exact hsmall.trans_le (Nat.le_mul_of_pos_right _ (by positivity))
  · obtain ⟨f, m, rfl, lo, hi⟩ := exists_normal (not_lt.mp hsmall)
    rw [unitsOfWord_normal lo hi]
    by_cases hle : e ≤ f
    · refine Or.inr ⟨m * 2 ^ (f - e), ?_⟩
      rw [Nat.mul_assoc, ← pow_add, Nat.sub_add_cancel hle]
    · refine Or.inl ⟨hfine, ?_⟩
      calc m * 2 ^ f < 2 * leadingBit * 2 ^ f := Nat.mul_lt_mul_of_pos_right hi (by positivity)
        _ = leadingBit * 2 ^ (f + 1) := by ring
        _ ≤ leadingBit * 2 ^ e := Nat.mul_le_mul_left _ (Nat.pow_le_pow_right (by decide) (by omega))

/-- The magnitude of a rounded significand, also of one that is carried on to the next exponent. -/
theorem unitsOfWord_rounded {e q : Nat} (lo : e = 0 ∨ leadingBit ≤ q) (hi : q ≤ 2 * leadingBit) :
    unitsOfWord (e * leadingBit + q) = q * 2 ^ e := by
  by_cases hcarry : q = 2 * leadingBit
  · have hword : e * leadingBit + q = (e + 1) * leadingBit + leadingBit := by
      rw [hcarry]
      ring
    rw [hword, unitsOfWord_normal le_rfl (by decide), hcarry]
    ring
  · by_cases hsmall : q < leadingBit
    · obtain rfl : e = 0 := lo.resolve_right (by omega)
      rw [Nat.zero_mul, Nat.zero_add, unitsOfWord_small hsmall, pow_zero, Nat.mul_one]
    · exact unitsOfWord_normal (by omega) (by omega)

theorem unitsOfWord_strictMono : StrictMono unitsOfWord := by
  refine strictMono_nat_of_lt_succ fun w => ?_
  have hnext : ∀ {e q : Nat}, (e = 0 ∨ leadingBit ≤ q) → q < 2 * leadingBit →
      unitsOfWord (e * leadingBit + q) < unitsOfWord (e * leadingBit + (q + 1)) := by
    intro e q lo hi
    rw [unitsOfWord_rounded lo hi.le, unitsOfWord_rounded (lo.imp_right Nat.le_succ_of_le) hi]
    exact Nat.mul_lt_mul_of_pos_right (Nat.lt_succ_self q) (by positivity)
  by_cases hsmall : w < leadingBit
  · have h := hnext (e := 0) (q := w) (Or.inl rfl) (by omega)
    rwa [Nat.zero_mul, Nat.zero_add, Nat.zero_add] at h
  · obtain ⟨e, m, rfl, lo, hi⟩ := exists_normal (not_lt.mp hsmall)
    rw [Nat.add_assoc]
    exact hnext (Or.inr lo) hi

def gridOf (u : Nat) : Nat := u.log2 - 52

theorem leadingBit_mul_le (h : gridOf u ≠ 0) : leadingBit * 2 ^ gridOf u ≤ u := by
  have hlog : 52 + gridOf u = u.log2 := by
    rw [gridOf] at h ⊢
    omega
  have hu : u ≠ 0 := by
    rintro rfl
    exact h rfl
  rw [leadingBit_eq, ← pow_add, hlog]
  exact Nat.log2_self_le hu

theorem roundHalfEven_gridOf_le (u : Nat) : roundHalfEven u (2 ^ gridOf u) ≤ 2 * leadingBit := by
  have hlt : u / 2 ^ gridOf u < 2 * leadingBit := by
    rw [Nat.div_lt_iff_lt_mul (by positivity)]
    calc u < 2 ^ (u.log2 + 1) := Nat.lt_log2_self
      _ ≤ 2 ^ (53 + gridOf u) := Nat.pow_le_pow_right (by decide) (by rw [gridOf]; omega)
      _ = 2 * leadingBit * 2 ^ gridOf u := by
        rw [pow_add]
        rfl
  simp only [roundHalfEven]
  split <;> omega

theorem nearestWord_eq_min (u : Nat) :
    nearestWord u 1 = Min.min (gridOf u * leadingBit + roundHalfEven u (2 ^ gridOf u)) infinityWord := by
  simp only [nearestWord, Nat.div_one, Nat.one_shiftLeft, gridOf]

theorem nearestWord_eq (h : nearestWord u 1 < infinityWord) :
    nearestWord u 1 = gridOf u * leadingBit + roundHalfEven u (2 ^ gridOf u) := by
  rw [nearestWord_eq_min] at h ⊢
  exact min_eq_left (by omega)

theorem nearestWord_lt_infinityWord (h : gridOf u ≤ 2044) : nearestWord u 1 < infinityWord := by
  have hgrid : gridOf u * leadingBit ≤ 2044 * leadingBit := Nat.mul_le_mul_right _ h
  have hround := roundHalfEven_gridOf_le u
  have hbound : 2044 * leadingBit + 2 * leadingBit < infinityWord := by decide
  rw [nearestWord_eq_min]
  omega

theorem unitsOfWord_nearestWord (h : nearestWord u 1 < infinityWord) :
    unitsOfWord (nearestWord u 1) = roundHalfEven u (2 ^ gridOf u) * 2 ^ gridOf u := by
  rw [nearestWord_eq h]
  refine unitsOfWord_rounded ?_ (roundHalfEven_gridOf_le u)
  by_cases hgrid : gridOf u = 0
  · exact Or.inl hgrid
  · right
    have hquotient : leadingBit ≤ u / 2 ^ gridOf u :=
      (Nat.le_div_iff_mul_le (by positivity)).mpr (leadingBit_mul_le hgrid)
    exact hquotient.trans (le_roundHalfEven _ _)

theorem nearestWord_nearest (h : nearestWord u 1 < infinityWord)
    (hne : unitsOfWord w ≠ unitsOfWord (nearestWord u 1)) :
    |(unitsOfWord (nearestWord u 1) : ℤ) - u| ≤ |(unitsOfWord w : ℤ) - u| ∧
      (|(unitsOfWord w : ℤ) - u| = |(unitsOfWord (nearestWord u 1) : ℤ) - u| → Even (nearestWord u 1)) := by
  have hpos : 0 < 2 ^ gridOf u := by positivity
  have hparity : Even (roundHalfEven u (2 ^ gridOf u)) → Even (nearestWord u 1) := by
    intro heven
    rw [nearestWord_eq h]
    exact (Nat.even_mul.mpr (Or.inr (by decide))).add heven
  rw [unitsOfWord_nearestWord h] at hne ⊢
  rw [Nat.cast_mul]
  rcases lt_or_exists_unitsOfWord_eq (gridOf u) w with ⟨hgrid, hlow⟩ | ⟨k, hk⟩
  · -- The least magnitude on the grid is nearer than those below it, which are off it.
    have hleast := leadingBit_mul_le hgrid
    have hfar : |(leadingBit * (2 ^ gridOf u : ℕ) : ℤ) - u| < |(unitsOfWord w : ℤ) - u| := by
      rw [← Nat.cast_mul, abs_of_nonpos (by omega), abs_of_nonpos (by omega)]
      omega
    have hnear : |(roundHalfEven u (2 ^ gridOf u) * (2 ^ gridOf u : ℕ) : ℤ) - u| ≤
        |(leadingBit * (2 ^ gridOf u : ℕ) : ℤ) - u| := by
      by_cases heq : leadingBit = roundHalfEven u (2 ^ gridOf u)
      · rw [← heq]
      · exact (roundHalfEven_nearest u hpos heq).1
    exact ⟨(hnear.trans_lt hfar).le, fun htie => absurd htie (hnear.trans_lt hfar).ne'⟩
  · rw [hk] at hne ⊢
    have hkq : k ≠ roundHalfEven u (2 ^ gridOf u) := fun heq => hne (by rw [heq])
    obtain ⟨hle, htie⟩ := roundHalfEven_nearest u hpos hkq
    rw [Nat.cast_mul]
    exact ⟨hle, fun heq => hparity (htie heq)⟩

def exponent (x : Double) : Nat := x.bits.toNat / 2 ^ 52 % 2 ^ 11

def fraction (x : Double) : Nat := x.bits.toNat % 2 ^ 52

/-- The number that a finite double stands for. -/
def value (x : Double) : ℚ :=
  let magnitude : ℚ :=
    if x.exponent = 0 then x.fraction * 2 ^ (-1074 : ℤ)
    else (2 ^ 52 + x.fraction) * 2 ^ (x.exponent - 1075 : ℤ)
  if x.isNegative then -magnitude else magnitude

def signedUnits (x : Double) : ℤ := if x.isNegative then -(x.units : ℤ) else x.units

theorem word_div_leadingBit (x : Double) : x.word / leadingBit = x.exponent := by
  simp only [word, exponent, signWeight, leadingBit]
  omega

theorem word_mod_leadingBit (x : Double) : x.word % leadingBit = x.fraction := by
  simp only [word, fraction, signWeight, leadingBit]
  omega

theorem units_eq (x : Double) :
    x.units = if x.exponent = 0 then x.fraction else (2 ^ 52 + x.fraction) * 2 ^ (x.exponent - 1) := by
  have hsmall : x.word < leadingBit ↔ x.exponent = 0 := by
    rw [← word_div_leadingBit, Nat.div_eq_zero_iff_lt leadingBit_pos]
  rw [units, unitsOfWord, word_mod_leadingBit, word_div_leadingBit, Nat.shiftLeft_eq, ← leadingBit_eq]
  by_cases he : x.exponent = 0
  · rw [if_pos (hsmall.mpr he), if_pos he, ← word_mod_leadingBit, Nat.mod_eq_of_lt (hsmall.mpr he)]
  · rw [if_neg (mt hsmall.mp he), if_neg he]

theorem cast_unitsPerOne : (unitsPerOne : ℚ) = 2 ^ (1074 : ℤ) := by
  rw [unitsPerOne_eq, Nat.cast_pow, Nat.cast_ofNat]
  exact (zpow_ofNat 2 1074).symm

theorem value_eq (x : Double) : x.value = x.signedUnits / unitsPerOne := by
  have hmagnitude : (if x.exponent = 0 then (x.fraction : ℚ) * 2 ^ (-1074 : ℤ)
      else (2 ^ 52 + x.fraction) * 2 ^ (x.exponent - 1075 : ℤ)) = x.units / unitsPerOne := by
    rw [units_eq, cast_unitsPerOne]
    by_cases he : x.exponent = 0
    · rw [if_pos he, if_pos he, zpow_neg, div_eq_mul_inv]
    · have hshift : (x.exponent - 1075 : ℤ) = ((x.exponent - 1 : ℕ) : ℤ) - 1074 := by omega
      rw [if_neg he, if_neg he, hshift, zpow_sub₀ (by norm_num), zpow_natCast, ← mul_div_assoc]
      simp only [Nat.cast_mul, Nat.cast_add, Nat.cast_pow, Nat.cast_ofNat]
  simp only [value, signedUnits, hmagnitude]
  split
  · rw [Int.cast_neg, Int.cast_natCast, neg_div]
  · rw [Int.cast_natCast]

theorem cast_unitsPerOne_pos : (0 : ℚ) < unitsPerOne := by
  exact_mod_cast unitsPerOne_pos

theorem abs_value_sub (x : Double) (n : Nat) :
    |x.value - n| = (|x.signedUnits - (n * unitsPerOne : ℕ)| : ℤ) / unitsPerOne := by
  have hdistance : x.value - n = (x.signedUnits - (n * unitsPerOne : ℕ) : ℤ) / unitsPerOne := by
    rw [value_eq, Int.cast_sub, Int.cast_natCast, Nat.cast_mul, sub_div,
      mul_div_cancel_right₀ _ cast_unitsPerOne_pos.ne']
  rw [hdistance, abs_div, abs_of_pos cast_unitsPerOne_pos, Int.cast_abs]

theorem value_inj : x.value = y.value ↔ x.signedUnits = y.signedUnits := by
  rw [value_eq, value_eq, div_left_inj' cast_unitsPerOne_pos.ne', Int.cast_inj]

theorem value_eq_natCast_iff {n : Nat} : x.value = n ↔ x.units = n * unitsPerOne ∧ (x.isNegative → n = 0) := by
  rw [value_eq, div_eq_iff cast_unitsPerOne_pos.ne', ← Nat.cast_mul, ← Int.cast_natCast, Int.cast_inj, signedUnits]
  cases x.isNegative with
  | false => simp only [Bool.false_eq_true, if_false, false_implies, and_true, Nat.cast_inj]
  | true =>
    have hzero : n * unitsPerOne = 0 ↔ n = 0 := by simp [unitsPerOne_pos.ne']
    simp only [if_true, true_implies, ← hzero]
    omega

theorem denotes_iff {n : Nat} : x.Denotes n ↔ x.isFinite ∧ x.value = n := by
  rw [Denotes, value_eq_natCast_iff]

/-- The finite double that is nearest to a number; of two that are equally near, the one with the even fraction. -/
structure Rounds (x : Double) (q : ℚ) : Prop where
  finite : x.isFinite
  nearest : ∀ y : Double, y.isFinite → |x.value - q| ≤ |y.value - q|
  even : ∀ y : Double, y.isFinite → |y.value - q| = |x.value - q| → y.value ≠ x.value → Even x.fraction

theorem fraction_even (h : Even x.word) : Even x.fraction := by
  rw [← word_mod_leadingBit, leadingBit]
  rw [Nat.even_iff] at h ⊢
  omega

theorem signedUnits_ofNat (n : Nat) :
    (ofNat n).signedUnits = unitsOfWord (nearestWord (n * unitsPerOne) 1) := by
  rw [signedUnits, isNegative_ofNat, units, word_ofNat, wordOfUnits]
  rfl

theorem isFinite_ofNat {n : Nat} (h : n < 2 ^ 64) : (ofNat n).isFinite := by
  have hgrid : gridOf (n * unitsPerOne) ≤ 2044 := by
    by_cases hn : n = 0
    · rw [hn, Nat.zero_mul]
      decide
    · have hlog : n.log2 < 64 := (Nat.log2_lt hn).mpr h
      rw [gridOf, log2_mul_unitsPerOne hn]
      omega
  rw [isFinite, word_ofNat, wordOfUnits]
  exact decide_eq_true (nearestWord_lt_infinityWord hgrid)

/-- The sign of a double takes it away from a natural number, if it does anything. -/
theorem abs_units_sub_le (x : Double) (u : Nat) : |(x.units : ℤ) - u| ≤ |x.signedUnits - u| := by
  rw [signedUnits]
  split
  · rw [← abs_neg (-(x.units : ℤ) - u), abs_of_nonneg (by omega : 0 ≤ -(-(x.units : ℤ) - u)), abs_le]
    omega
  · exact le_rfl

theorem signedUnits_eq_or (x : Double) : x.signedUnits = x.units ∨ x.signedUnits = -(x.units : ℤ) := by
  rw [signedUnits]
  split
  · exact Or.inr rfl
  · exact Or.inl rfl

theorem ofNat_rounds {n : Nat} (h : (ofNat n).isFinite) : (ofNat n).Rounds n := by
  have hword : nearestWord (n * unitsPerOne) 1 < infinityWord := by
    rw [isFinite, word_ofNat, wordOfUnits] at h
    exact of_decide_eq_true h
  have hnearest : ∀ w, |(ofNat n).signedUnits - (n * unitsPerOne : ℕ)| ≤
      |(unitsOfWord w : ℤ) - (n * unitsPerOne : ℕ)| := by
    intro w
    rw [signedUnits_ofNat]
    by_cases heq : unitsOfWord w = unitsOfWord (nearestWord (n * unitsPerOne) 1)
    · rw [heq]
    · exact (nearestWord_nearest hword heq).1
  refine ⟨h, ?_, ?_⟩
  · intro y _
    rw [abs_value_sub, abs_value_sub, div_le_div_iff_of_pos_right cast_unitsPerOne_pos, Int.cast_le]
    exact (hnearest y.word).trans (abs_units_sub_le y _)
  · intro y _ htie hne
    rw [abs_value_sub, abs_value_sub, div_left_inj' cast_unitsPerOne_pos.ne', Int.cast_inj] at htie
    rw [Ne, value_inj] at hne
    have hdistance := le_antisymm ((abs_units_sub_le y _).trans_eq htie) (hnearest y.word)
    have hzero := hnearest 0
    rw [signedUnits_ofNat] at hdistance hne htie hzero
    apply fraction_even
    rw [word_ofNat, wordOfUnits]
    refine (nearestWord_nearest hword ?_).2 hdistance
    -- Another double of the same magnitude has the other sign, and is as near only if both are zeros.
    intro (heq : y.units = _)
    rcases y.signedUnits_eq_or with hsign | hsign
    · exact hne (by rw [hsign, heq])
    · rw [hsign, heq, abs_eq_abs] at htie
      rw [hsign, heq] at hne
      rw [unitsOfWord_small leadingBit_pos, Nat.cast_zero, zero_sub, abs_neg, Nat.abs_cast, abs_le] at hzero
      omega

end Double

end StackMachine
