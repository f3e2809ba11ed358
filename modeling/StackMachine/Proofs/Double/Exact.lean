import StackMachine.Double.Arith
import StackMachine.Proofs.Double.Value

/-!
Results that need no rounding. Whole numbers near a double and remainders of doubles are themselves numbers of
doubles, so that what is computed on units and put into a word again has lost nothing. From this follows which number
each of the roundings to whole numbers gives, and that a remainder is one.
-/

set_option autoImplicit false

namespace StackMachine.Double

variable {x y : Double} {u e q w : Nat}

def Exact (u : Nat) : Prop := ∃ w < infinityWord, unitsOfWord w = u

theorem exact_units (hx : x.isFinite) : Exact x.units := ⟨x.word, of_decide_eq_true hx, rfl⟩

theorem exists_significand (w : Nat) :
    ∃ e m, unitsOfWord w = m * 2 ^ e ∧ m < 2 * leadingBit ∧ (e = 0 ∨ leadingBit ≤ m) := by
  by_cases hsmall : w < leadingBit
  · exact ⟨0, w, by simp [unitsOfWord_small hsmall], by omega, .inl rfl⟩
  · obtain ⟨e, m, rfl, lo, hi⟩ := exists_normal (not_lt.mp hsmall)
    exact ⟨e, m, unitsOfWord_normal lo hi, hi, .inr lo⟩

theorem exists_word_of_grid (hq : q < 2 * leadingBit) : ∃ w, unitsOfWord w = q * 2 ^ e := by
  induction e generalizing q with
  | zero => exact ⟨_, unitsOfWord_rounded (.inl rfl) hq.le⟩
  | succ e ih =>
    by_cases hlead : leadingBit ≤ q
    · exact ⟨_, unitsOfWord_rounded (.inr hlead) hq.le⟩
    · obtain ⟨w, hw⟩ := ih (q := 2 * q) (by omega)
      refine ⟨w, ?_⟩
      rw [hw]
      ring

/-- What is left after taking away a magnitude lies on the grid of that magnitude. -/
theorem exact_mod {v : Nat} (hu : Exact u) (hv : Exact v) (hpos : v ≠ 0) : Exact (u % v) := by
  obtain ⟨a, ha, rfl⟩ := hu
  obtain ⟨b, hb, rfl⟩ := hv
  have hlt : unitsOfWord a % unitsOfWord b < unitsOfWord b := Nat.mod_lt _ (Nat.pos_of_ne_zero hpos)
  suffices hword : ∃ w, unitsOfWord w = unitsOfWord a % unitsOfWord b by
    obtain ⟨w, hw⟩ := hword
    rw [← hw] at hlt ⊢
    exact ⟨w, (unitsOfWord_strictMono.lt_iff_lt.mp hlt).trans hb, rfl⟩
  by_cases hless : unitsOfWord a < unitsOfWord b
  · exact ⟨a, (Nat.mod_eq_of_lt hless).symm⟩
  obtain ⟨e, m, hm, hfits, hlead⟩ := exists_significand b
  rcases lt_or_exists_unitsOfWord_eq e a with ⟨he, hlow⟩ | ⟨k, hk⟩
  · have hgrid := Nat.mul_le_mul_right (2 ^ e) (hlead.resolve_left he)
    omega
  · have hmpos : 0 < m := by
      rcases Nat.eq_zero_or_pos m with rfl | h
      · exact absurd (by simpa using hm) hpos
      · exact h
    rw [hk, hm, Nat.mul_mod_mul_right]
    exact exists_word_of_grid ((Nat.mod_lt k hmpos).trans hfits)

/-- A magnitude below the grid of whole numbers is small, and from there on all are whole. -/
theorem exact_whole {whole : Nat → Nat} (hwhole : ∀ k, whole (k * unitsPerOne) = k)
    (hsmall : ∀ u < leadingBit * unitsPerOne, whole u ≤ leadingBit) (hu : Exact u) :
    Exact (whole u * unitsPerOne) := by
  obtain ⟨w, hw, rfl⟩ := hu
  rcases lt_or_exists_unitsOfWord_eq 1074 w with ⟨-, hlow⟩ | ⟨k, hk⟩
  · rw [← unitsPerOne_eq] at hlow
    exact exists_word_of_safe ((hsmall _ hlow).trans (by decide))
  · rw [← unitsPerOne_eq] at hk
    rw [hk, hwhole, ← hk]
    exact ⟨w, hw, rfl⟩

theorem ofWord_of_exact (hu : Exact u) (negative : Bool) :
    (ofWord negative (wordOfUnits u)).isFinite ∧ (ofWord negative (wordOfUnits u)).units = u ∧
      (ofWord negative (wordOfUnits u)).isNegative = negative := by
  obtain ⟨w, hw, rfl⟩ := hu
  have hfits : w < signWeight := hw.trans (by decide)
  rw [wordOfUnits, nearestWord_unitsOfWord hw.le, isFinite, units, word_ofWord _ hfits, isNegative_ofWord _ hfits]
  exact ⟨decide_eq_true hw, rfl, rfl⟩

theorem value_of_negative (hx : x.isNegative = true) : x.value = -((x.units : ℚ) / unitsPerOne) := by
  rw [value_eq, signedUnits, if_pos hx, Int.cast_neg, Int.cast_natCast, neg_div]

theorem value_of_not_negative (hx : ¬ x.isNegative = true) : x.value = (x.units : ℚ) / unitsPerOne := by
  rw [value_eq, signedUnits, if_neg hx, Int.cast_natCast]

theorem abs_value (x : Double) : |x.value| = (x.units : ℚ) / unitsPerOne := by
  have hnonneg : (0 : ℚ) ≤ (x.units : ℚ) / unitsPerOne := by positivity
  by_cases hx : x.isNegative = true
  · rw [value_of_negative hx, abs_neg, abs_of_nonneg hnonneg]
  · rw [value_of_not_negative hx, abs_of_nonneg hnonneg]

theorem eq_of_units (hunits : x.units = y.units) (hsign : x.isNegative = y.isNegative) : x = y := by
  rw [← ofWord_word x, ← ofWord_word y, unitsOfWord_strictMono.injective hunits, hsign]

theorem eq_of_abs_value (hvalue : |x.value| = |y.value|) (hsign : x.isNegative = y.isNegative) : x = y := by
  rw [abs_value, abs_value, div_left_inj' cast_unitsPerOne_pos.ne', Nat.cast_inj] at hvalue
  exact eq_of_units hvalue hsign

theorem cast_wholeDown (u : Nat) : (wholeDown u : ℤ) = ⌊(u : ℚ) / unitsPerOne⌋ := by
  rw [wholeDown, Rat.floor_natCast_div_natCast, Int.natCast_ediv]

theorem cast_wholeUp (u : Nat) : (wholeUp u : ℤ) = ⌈(u : ℚ) / unitsPerOne⌉ := by
  have hpos := unitsPerOne_pos
  have hlow := Nat.div_mul_le_self (u + (unitsPerOne - 1)) unitsPerOne
  have hhigh := Nat.lt_div_mul_add hpos (a := u + (unitsPerOne - 1))
  rw [wholeUp]
  generalize (u + (unitsPerOne - 1)) / unitsPerOne = n at *
  symm
  rw [Int.ceil_eq_iff, lt_div_iff₀ cast_unitsPerOne_pos, div_le_iff₀ cast_unitsPerOne_pos, sub_mul, one_mul,
    sub_lt_iff_lt_add, Int.cast_natCast]
  constructor
  · exact_mod_cast (show n * unitsPerOne < u + unitsPerOne by omega)
  · exact_mod_cast (show u ≤ n * unitsPerOne by omega)

theorem cast_wholeNearest (u : Nat) : (wholeNearest u : ℤ) = ⌊(u : ℚ) / unitsPerOne + 1 / 2⌋ := by
  have hpos := cast_unitsPerOne_pos
  have hhalf : (u : ℚ) / unitsPerOne + 1 / 2 = ((2 * u + unitsPerOne : ℕ) : ℚ) / (2 * unitsPerOne : ℕ) := by
    push_cast
    field_simp
  rw [wholeNearest, hhalf, Rat.floor_natCast_div_natCast, Int.natCast_ediv]

/-- A rounding to a whole number: zeros keep their sign, and infinities and NaNs are no numbers to be rounded. -/
structure Rounded (R : ℚ → ℚ → Prop) (x y : Double) : Prop where
  sign : y.isNegative = x.isNegative
  number : x.isFinite → y.isFinite ∧ R x.value y.value
  other : ¬ x.isFinite → y = x

theorem rounded_roundBy {whole : Nat → Nat} {R : ℚ → ℚ → Prop} (hwhole : ∀ k, whole (k * unitsPerOne) = k)
    (hsmall : ∀ u < leadingBit * unitsPerOne, whole u ≤ leadingBit)
    (hR : ∀ y : Double, y.isNegative = x.isNegative → |y.value| = whole x.units → R x.value y.value) :
    Rounded R x (roundBy whole x) := by
  by_cases hx : x.isFinite = true
  · obtain ⟨hfinite, hunits, hsign⟩ := ofWord_of_exact (exact_whole hwhole hsmall (exact_units hx)) x.isNegative
    rw [roundBy, if_pos hx]
    refine ⟨hsign, fun _ => ⟨hfinite, hR _ hsign ?_⟩, fun hother => absurd hx hother⟩
    rw [abs_value, hunits, Nat.cast_mul, mul_div_cancel_right₀ _ cast_unitsPerOne_pos.ne']
  · rw [roundBy, if_neg hx]
    exact ⟨rfl, fun h => absurd h hx, fun _ => rfl⟩

theorem Rounded.unique {R : ℚ → ℚ → Prop} {z : Double} (hR : ∀ q r s, R q r → R q s → |r| = |s|)
    (hy : Rounded R x y) (hz : Rounded R x z) : y = z := by
  by_cases hx : x.isFinite = true
  · exact eq_of_abs_value (hR _ _ _ (hy.number hx).2 (hz.number hx).2) (hy.sign.trans hz.sign.symm)
  · rw [hy.other hx, hz.other hx]

theorem wholeDown_mul (k : Nat) : wholeDown (k * unitsPerOne) = k := Nat.mul_div_cancel k unitsPerOne_pos

theorem wholeUp_mul (k : Nat) : wholeUp (k * unitsPerOne) = k := by
  rw [wholeUp, Nat.add_comm, Nat.add_mul_div_right _ _ unitsPerOne_pos,
    Nat.div_eq_of_lt (Nat.sub_one_lt unitsPerOne_pos.ne'), Nat.zero_add]

theorem wholeNearest_mul (k : Nat) : wholeNearest (k * unitsPerOne) = k := by
  have hpos := unitsPerOne_pos
  rw [wholeNearest, Nat.mul_left_comm, Nat.add_comm, Nat.add_mul_div_right _ _ (by omega),
    Nat.div_eq_of_lt (by omega), Nat.zero_add]

theorem wholeDown_le (h : u < leadingBit * unitsPerOne) : wholeDown u ≤ leadingBit :=
  (Nat.div_lt_of_lt_mul (Nat.mul_comm _ _ ▸ h)).le

theorem wholeUp_le (h : u < leadingBit * unitsPerOne) : wholeUp u ≤ leadingBit := by
  have hpos := unitsPerOne_pos
  refine Nat.le_of_lt_succ (Nat.div_lt_of_lt_mul ?_)
  rw [Nat.mul_succ, Nat.mul_comm]
  omega

theorem wholeNearest_le (h : u < leadingBit * unitsPerOne) : wholeNearest u ≤ leadingBit := by
  have hpos := unitsPerOne_pos
  refine Nat.le_of_lt_succ (Nat.div_lt_of_lt_mul ?_)
  rw [Nat.mul_succ, Nat.mul_assoc, Nat.mul_comm unitsPerOne]
  omega

theorem trunc_rounded (x : Double) : Rounded (fun q r => |r| = ⌊|q|⌋) x x.trunc := by
  refine rounded_roundBy wholeDown_mul (fun _ => wholeDown_le) fun y _ hy => ?_
  rw [hy, abs_value, ← cast_wholeDown, Int.cast_natCast]

theorem round_rounded (x : Double) : Rounded (fun q r => |r| = ⌊|q| + 1 / 2⌋) x x.round := by
  refine rounded_roundBy wholeNearest_mul (fun _ => wholeNearest_le) fun y _ hy => ?_
  rw [hy, abs_value, ← cast_wholeNearest, Int.cast_natCast]

theorem floor_rounded (x : Double) : Rounded (fun q r => r = ⌊q⌋) x x.floor := by
  rw [floor]
  by_cases hx : x.isNegative = true
  · rw [if_pos hx]
    refine rounded_roundBy wholeUp_mul (fun _ => wholeUp_le) fun y hy habs => ?_
    rw [value_of_negative hx, value_of_negative (hy.trans hx), ← abs_value, habs, Int.floor_neg, ← cast_wholeUp,
      Int.cast_neg, Int.cast_natCast]
  · rw [if_neg hx]
    refine rounded_roundBy wholeDown_mul (fun _ => wholeDown_le) fun y hy habs => ?_
    rw [value_of_not_negative hx, value_of_not_negative (hy ▸ hx), ← abs_value, habs, ← cast_wholeDown,
      Int.cast_natCast]

theorem ceil_rounded (x : Double) : Rounded (fun q r => r = ⌈q⌉) x x.ceil := by
  rw [ceil]
  by_cases hx : x.isNegative = true
  · rw [if_pos hx]
    refine rounded_roundBy wholeDown_mul (fun _ => wholeDown_le) fun y hy habs => ?_
    rw [value_of_negative hx, value_of_negative (hy.trans hx), ← abs_value, habs, Int.ceil_neg, ← cast_wholeDown,
      Int.cast_neg, Int.cast_natCast]
  · rw [if_neg hx]
    refine rounded_roundBy wholeUp_mul (fun _ => wholeUp_le) fun y hy habs => ?_
    rw [value_of_not_negative hx, value_of_not_negative (hy ▸ hx), ← abs_value, habs, ← cast_wholeUp,
      Int.cast_natCast]

theorem value_nonpos (hx : x.isNegative = true) : x.value ≤ 0 := by
  rw [value_of_negative hx]
  exact neg_nonpos.mpr (by positivity)

theorem value_nonneg (hx : ¬ x.isNegative = true) : 0 ≤ x.value := by
  rw [value_of_not_negative hx]
  positivity

theorem same_side (h : y.isNegative = x.isNegative) : 0 ≤ x.value ∧ 0 ≤ y.value ∨ x.value ≤ 0 ∧ y.value ≤ 0 := by
  by_cases hx : x.isNegative = true
  · exact .inr ⟨value_nonpos hx, value_nonpos (h.trans hx)⟩
  · exact .inl ⟨value_nonneg hx, value_nonneg (h ▸ hx)⟩

theorem exists_multiple {q r s : ℚ} {n : ℕ} (h : |q| = n * |s| + |r|) (hside : 0 ≤ q ∧ 0 ≤ r ∨ q ≤ 0 ∧ r ≤ 0) :
    ∃ k : ℤ, q = k * s + r := by
  obtain ⟨k, hk⟩ : ∃ k : ℤ, (n : ℚ) * |s| = k * s := by
    rcases abs_choice s with hs | hs
    · exact ⟨n, by rw [hs, Int.cast_natCast]⟩
    · exact ⟨-n, by rw [hs, Int.cast_neg, Int.cast_natCast, mul_neg, neg_mul]⟩
  rcases hside with ⟨hq, hr⟩ | ⟨hq, hr⟩
  · rw [abs_of_nonneg hq, abs_of_nonneg hr, hk] at h
    exact ⟨k, h⟩
  · rw [abs_of_nonpos hq, abs_of_nonpos hr, hk] at h
    refine ⟨-k, ?_⟩
    rw [Int.cast_neg]
    linarith

/-- What is left of `x` after `y` was taken away from it, or added to it, as often as it goes. -/
structure Remains (x y z : Double) : Prop where
  finite : z.isFinite
  sign : z.isNegative = x.isNegative
  lt : |z.value| < |y.value|
  multiple : ∃ k : ℤ, x.value = k * y.value + z.value

theorem units_eq_zero_iff : x.units = 0 ↔ x.isZero := by
  rw [isZero, beq_iff_eq]
  constructor
  · intro h
    by_contra hword
    exact (unitsOfWord_pos hword).ne' h
  · intro h
    rw [units, h, unitsOfWord_small leadingBit_pos]

theorem rem_remains (hx : x.isFinite) (hy : y.isFinite) (hzero : ¬ y.isZero) : Remains x y (x.rem y) := by
  have hpos : y.units ≠ 0 := mt units_eq_zero_iff.mp hzero
  have hnumbers : ¬ (x.isNaN || y.isNaN || !x.isFinite || y.isZero) = true := by
    simp only [isNaN, isFinite, decide_eq_true_eq] at hx hy ⊢
    simp [hx, hzero, hx.le, hy.le]
  obtain ⟨hfinite, hunits, hsign⟩ := ofWord_of_exact (exact_mod (exact_units hx) (exact_units hy) hpos) x.isNegative
  rw [rem, if_neg hnumbers, if_neg (by simp [hy])]
  generalize ofWord x.isNegative (wordOfUnits (x.units % y.units)) = z at *
  refine ⟨hfinite, hsign, ?_, ?_⟩
  · rw [abs_value, abs_value, div_lt_div_iff_of_pos_right cast_unitsPerOne_pos, Nat.cast_lt, hunits]
    exact Nat.mod_lt _ (Nat.pos_of_ne_zero hpos)
  · obtain ⟨n, hdivision⟩ : ∃ n : ℕ, |x.value| = n * |y.value| + |z.value| := by
      refine ⟨x.units / y.units, ?_⟩
      rw [abs_value, abs_value, abs_value, ← mul_div_assoc, ← add_div, hunits, ← Nat.cast_mul, ← Nat.cast_add,
        Nat.div_add_mod']
    exact exists_multiple hdivision (same_side hsign)

theorem Remains.unique {z t : Double} (hz : Remains x y z) (ht : Remains x y t) : z = t := by
  have hsigns : z.isNegative = t.isNegative := hz.sign.trans ht.sign.symm
  obtain ⟨k, hk⟩ := hz.multiple
  obtain ⟨l, hl⟩ := ht.multiple
  have hbound : |t.value - z.value| < |y.value| := by
    have hzlt := abs_lt.mp hz.lt
    have htlt := abs_lt.mp ht.lt
    rw [abs_lt]
    rcases same_side hsigns.symm with ⟨hz, ht⟩ | ⟨hz, ht⟩ <;> constructor <;> linarith
  have hdiff : t.value - z.value = ((k - l : ℤ) : ℚ) * y.value := by
    push_cast
    linarith
  rw [hdiff, abs_mul] at hbound
  have hsmall : |((k - l : ℤ) : ℚ)| < 1 := by
    by_contra hlarge
    exact absurd (le_mul_of_one_le_left (abs_nonneg _) (not_lt.mp hlarge)) (not_le.mpr hbound)
  have hkl : k - l = 0 := Int.abs_lt_one_iff.mp (by exact_mod_cast hsmall)
  rw [hkl, Int.cast_zero, zero_mul, sub_eq_zero] at hdiff
  exact eq_of_abs_value (by rw [hdiff]) hsigns

end StackMachine.Double
