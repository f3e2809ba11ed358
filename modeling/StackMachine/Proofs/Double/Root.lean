import StackMachine.Proofs.Double.Exact

/-!
Cube roots. The root of a double is seldom a double; the one that is given is a nearest one. As roots are compared
through their cubes, this is said without them: the cube of what lies halfway between the given double and another
one is on the other one's side of the operand.
-/

set_option autoImplicit false

namespace StackMachine.Double

variable {x y : Double} {n r u w : Nat}

theorem cube_eq (n : Nat) : cube n = n ^ 3 := by
  rw [cube]
  ring

theorem cubeRootFrom_spec (n bits base : Nat) (hlow : base ^ 3 ≤ n) (hhigh : n < (base + 2 ^ bits) ^ 3) :
    (cubeRootFrom n bits base) ^ 3 ≤ n ∧ n < (cubeRootFrom n bits base + 1) ^ 3 := by
  induction bits generalizing base with
  | zero => exact ⟨hlow, hhigh⟩
  | succ bits ih =>
    simp only [cubeRootFrom, Nat.one_shiftLeft, cube_eq]
    by_cases hnext : (base + 2 ^ bits) ^ 3 ≤ n
    · rw [if_pos hnext]
      refine ih _ hnext ?_
      rwa [Nat.add_assoc, ← Nat.two_mul, ← pow_succ']
    · rw [if_neg hnext]
      exact ih _ hlow (not_le.mp hnext)

theorem cubeRoot_spec (n : Nat) : (cubeRoot n) ^ 3 ≤ n ∧ n < (cubeRoot n + 1) ^ 3 := by
  refine cubeRootFrom_spec n _ 0 (by simp) ?_
  rw [Nat.zero_add, ← pow_mul]
  exact Nat.lt_log2_self.trans_le (Nat.pow_le_pow_right (by decide) (by omega))

/-- A nearest double to the cube root. -/
structure NearestRoot (x y : Double) : Prop where
  sign : y.isNegative = x.isNegative
  below : ∀ z : Double, z.isFinite → z.value < y.value → ((z.value + y.value) / 2) ^ 3 ≤ x.value
  above : ∀ z : Double, z.isFinite → y.value < z.value → x.value ≤ ((z.value + y.value) / 2) ^ 3

theorem middle_of_nearer {a b u : ℕ} (h : |(a : ℤ) - u| ≤ |(b : ℤ) - u|) :
    (b < a → b + a ≤ 2 * u) ∧ (a < b → 2 * u ≤ b + a) := by
  rcases abs_cases ((a : ℤ) - u) with ⟨ha, hsa⟩ | ⟨ha, hsa⟩ <;>
    rcases abs_cases ((b : ℤ) - u) with ⟨hb, hsb⟩ | ⟨hb, hsb⟩ <;> omega

/-- A magnitude that is rounded on a coarse grid is not below it. -/
theorem rounded_on_grid {g : Nat} (h : nearestWord u 1 < infinityWord) (hg : leadingBit * 2 ^ g ≤ u) :
    (∃ k, unitsOfWord (nearestWord u 1) = k * 2 ^ g) ∧ leadingBit * 2 ^ g ≤ unitsOfWord (nearestWord u 1) := by
  have hu : u ≠ 0 := (Nat.lt_of_lt_of_le (Nat.mul_pos leadingBit_pos (by positivity)) hg).ne'
  have hle : g ≤ gridOf u := by
    have hlog : 52 + g ≤ u.log2 := (Nat.le_log2 hu).mpr (by rwa [pow_add, ← leadingBit_eq])
    rw [gridOf]
    omega
  rw [unitsOfWord_nearestWord h]
  constructor
  · refine ⟨roundHalfEven u (2 ^ gridOf u) * 2 ^ (gridOf u - g), ?_⟩
    rw [Nat.mul_assoc, ← pow_add, Nat.sub_add_cancel hle]
  · by_cases hzero : gridOf u = 0
    · obtain rfl : g = 0 := by omega
      have hround := le_roundHalfEven u (2 ^ gridOf u)
      simp only [hzero, pow_zero, Nat.div_one, Nat.mul_one] at hg hround ⊢
      exact hg.trans hround
    · have hquotient : leadingBit ≤ u / 2 ^ gridOf u :=
        (Nat.le_div_iff_mul_le (by positivity)).mpr (leadingBit_mul_le hzero)
      exact Nat.mul_le_mul (hquotient.trans (le_roundHalfEven _ _)) (Nat.pow_le_pow_right (by decide) hle)

/-- Where a root is not whole, half a step is added to it before it is rounded. The middle of two magnitudes lies on a
grid that is coarser, so it is on the same side of the root as of what is rounded. -/
theorem middles_apart {t g : Nat} (ht : t = 2 * r ∨ t = 2 * r + 1) (hr : 2 * leadingBit ≤ r)
    (h : nearestWord (t * 2 ^ g) 1 < infinityWord) (w : Nat) :
    (unitsOfWord w < unitsOfWord (nearestWord (t * 2 ^ g) 1) →
      unitsOfWord w + unitsOfWord (nearestWord (t * 2 ^ g) 1) ≤ r * 2 ^ (g + 2)) ∧
    (unitsOfWord (nearestWord (t * 2 ^ g) 1) < unitsOfWord w →
      (if t = 2 * r then r else r + 1) * 2 ^ (g + 2) ≤
        unitsOfWord w + unitsOfWord (nearestWord (t * 2 ^ g) 1)) := by
  have hcoarse : leadingBit * 2 ^ (g + 2) ≤ t * 2 ^ g := by
    calc leadingBit * 2 ^ (g + 2) = (4 * leadingBit) * 2 ^ g := by ring
      _ ≤ t * 2 ^ g := Nat.mul_le_mul_right _ (by omega)
  obtain ⟨⟨k, hk⟩, hlarge⟩ := rounded_on_grid h hcoarse
  have hmiddle : ∀ w, unitsOfWord w ≠ unitsOfWord (nearestWord (t * 2 ^ g) 1) → _ :=
    fun w hne => middle_of_nearer (nearestWord_nearest h hne).1
  generalize unitsOfWord (nearestWord (t * 2 ^ g) 1) = a at *
  have hgrid : 2 ^ (g + 2) = 4 * 2 ^ g := by ring
  have hpos : 0 < 2 ^ g := by positivity
  have hbelow : ∀ {v l : Nat}, unitsOfWord v = l * 2 ^ (g + 2) → unitsOfWord v < a →
      unitsOfWord v + a ≤ r * 2 ^ (g + 2) := by
    intro v l hl hlt
    have hle := (hmiddle v hlt.ne).1 hlt
    rw [hl, hk, hgrid] at hle ⊢
    have hcount : 4 * (l + k) ≤ 2 * t := Nat.le_of_mul_le_mul_right (by linarith) hpos
    calc l * (4 * 2 ^ g) + k * (4 * 2 ^ g) = (l + k) * (4 * 2 ^ g) := by ring
      _ ≤ r * (4 * 2 ^ g) := Nat.mul_le_mul_right _ (by omega)
  rcases lt_or_exists_unitsOfWord_eq (g + 2) w with ⟨-, hlow⟩ | ⟨l, hl⟩
  · refine ⟨fun hlt => ?_, fun hlt => absurd (hlow.trans_le hlarge) hlt.asymm⟩
    -- the least magnitude on the grid stands for those that are off it
    have hleast : unitsOfWord ((g + 2) * leadingBit + leadingBit) = leadingBit * 2 ^ (g + 2) :=
      unitsOfWord_normal le_rfl (by decide)
    rcases hlarge.lt_or_eq with hless | heq
    · have hle := hbelow hleast (hleast ▸ hless)
      rw [hleast] at hle
      omega
    · have hle := Nat.mul_le_mul_right (2 ^ (g + 2)) hr
      rw [Nat.mul_assoc] at hle
      omega
  · refine ⟨hbelow hl, fun hlt => ?_⟩
    have hle := (hmiddle w hlt.ne').2 hlt
    rw [hl, hk, hgrid] at hle ⊢
    have hcount : 2 * t ≤ 4 * (l + k) := Nat.le_of_mul_le_mul_right (by linarith) hpos
    calc (if t = 2 * r then r else r + 1) * (4 * 2 ^ g) ≤ (l + k) * (4 * 2 ^ g) :=
          Nat.mul_le_mul_right _ (by split <;> omega)
      _ = l * (4 * 2 ^ g) + k * (4 * 2 ^ g) := by ring

theorem nearestWord_lt_of_lt {k g : Nat} (h : u < 2 ^ k) (hk : k + g ≤ 2097) :
    nearestWord (u * 2 ^ g) 1 < infinityWord := by
  refine nearestWord_lt_infinityWord ?_
  by_cases hu : u * 2 ^ g = 0
  · simp [gridOf, hu]
  · have hlt : u * 2 ^ g < 2 ^ (k + g) := by
      rw [pow_add]
      exact Nat.mul_lt_mul_of_pos_right h (by positivity)
    have hlog := (Nat.log2_lt hu).mpr hlt
    rw [gridOf]
    omega

theorem shiftLeft_eq_mul (u g : ℕ) : u <<< g = u * 2 ^ g := Nat.shiftLeft_eq u g

/-- What is rounded for the root: twice the whole part `r` of the root of the shifted magnitude, made odd if that is not
all of it. -/
theorem exists_root (hx : x.isFinite) (hzero : ¬ x.isZero) :
    ∃ r t, (t = 2 * r ∨ t = 2 * r + 1) ∧ 2 * leadingBit ≤ r ∧ nearestWord (t * 2 ^ 659) 1 < infinityWord ∧
      r ^ 3 ≤ x.units * 2 ^ 168 ∧ x.units * 2 ^ 168 ≤ (if t = 2 * r then r else r + 1) ^ 3 ∧
      x.cbrt = ofWord x.isNegative (nearestWord (t * 2 ^ 659) 1) := by
  have hpos : 0 < x.units := Nat.pos_of_ne_zero (mt units_eq_zero_iff.mp hzero)
  have hbound : x.units < 2 ^ 2098 := unitsOfWord_lt (of_decide_eq_true hx)
  obtain ⟨hlow, hhigh⟩ := cubeRoot_spec (x.units * 2 ^ 168)
  rw [cbrt, if_neg (by simp [hx, hzero])]
  simp only [shiftLeft_eq_mul, cube_eq, wordOfUnits]
  generalize cubeRoot (x.units * 2 ^ 168) = r at *
  have hlarge : 2 ^ 56 < r + 1 := by
    refine lt_of_pow_lt_pow_left₀ 3 (Nat.zero_le _) (lt_of_le_of_lt ?_ hhigh)
    rw [← pow_mul]
    exact Nat.le_mul_of_pos_left _ hpos
  have hsmall : r < 2 ^ 756 := by
    refine lt_of_pow_lt_pow_left₀ 3 (Nat.zero_le _) (lt_of_le_of_lt hlow ?_)
    rw [← pow_mul]
    have hexponent : 756 * 3 = 2098 + 2 + 168 := by decide
    rw [hexponent, pow_add, pow_add]
    exact Nat.mul_lt_mul_of_pos_right (hbound.trans_le (Nat.le_mul_of_pos_right _ (by positivity))) (by positivity)
  have htwice : ∀ t, t ≤ 2 * r + 1 → nearestWord (t * 2 ^ 659) 1 < infinityWord := by
    intro t ht
    refine nearestWord_lt_of_lt (k := 757) ?_ (by decide)
    rw [pow_succ']
    omega
  rw [leadingBit_eq]
  obtain ⟨t, ht⟩ : ∃ t, t = if r ^ 3 = x.units * 2 ^ 168 then 2 * r else 2 * r + 1 := ⟨_, rfl⟩
  rw [← ht]
  by_cases hwhole : r ^ 3 = x.units * 2 ^ 168
  · rw [if_pos hwhole] at ht
    refine ⟨r, t, .inl ht, by omega, htwice _ (by omega), hlow, ?_, rfl⟩
    rw [if_pos ht, hwhole]
  · rw [if_neg hwhole] at ht
    refine ⟨r, t, .inr ht, by omega, htwice _ (by omega), hlow, ?_, rfl⟩
    rw [if_neg (by omega)]
    exact hhigh.le

theorem cube_grid : (2 ^ (659 + 2)) ^ 3 * 2 ^ 168 = 8 * unitsPerOne ^ 2 := by
  have height : 8 = 2 ^ 3 := rfl
  rw [unitsPerOne_eq, ← pow_mul, ← pow_add, ← pow_mul, height, ← pow_add]

theorem cube_middle {v : ℕ} (hv : 0 < v) (b a : ℕ) :
    (((b : ℚ) / v + (a : ℚ) / v) / 2) ^ 3 = ((b + a : ℕ) : ℚ) ^ 3 / (8 * v ^ 2) / v := by
  have hv' : (v : ℚ) ≠ 0 := Nat.cast_ne_zero.mpr hv.ne'
  push_cast
  field_simp
  norm_num

theorem cube_middle_le {v b a g s : ℕ} (hv : 0 < v) (hgrid : g ^ 3 * s = 8 * v ^ 2) (h : b + a ≤ r * g)
    (hr : r ^ 3 ≤ u * s) : (((b : ℚ) / v + (a : ℚ) / v) / 2) ^ 3 ≤ (u : ℚ) / v := by
  have hle : (b + a) ^ 3 ≤ u * (8 * v ^ 2) := by
    calc (b + a) ^ 3 ≤ (r * g) ^ 3 := Nat.pow_le_pow_left h 3
      _ = r ^ 3 * g ^ 3 := mul_pow _ _ _
      _ ≤ u * s * g ^ 3 := Nat.mul_le_mul_right _ hr
      _ = u * (g ^ 3 * s) := by ring
      _ = u * (8 * v ^ 2) := by rw [hgrid]
  rw [cube_middle hv, div_le_div_iff_of_pos_right (Nat.cast_pos.mpr hv), div_le_iff₀ (by positivity)]
  exact_mod_cast hle

theorem le_cube_middle {v b a g s : ℕ} (hv : 0 < v) (hgrid : g ^ 3 * s = 8 * v ^ 2) (h : r * g ≤ b + a)
    (hr : u * s ≤ r ^ 3) : (u : ℚ) / v ≤ (((b : ℚ) / v + (a : ℚ) / v) / 2) ^ 3 := by
  have hle : u * (8 * v ^ 2) ≤ (b + a) ^ 3 := by
    calc u * (8 * v ^ 2) = u * (g ^ 3 * s) := by rw [hgrid]
      _ = u * s * g ^ 3 := by ring
      _ ≤ r ^ 3 * g ^ 3 := Nat.mul_le_mul_right _ hr
      _ = (r * g) ^ 3 := (mul_pow _ _ _).symm
      _ ≤ (b + a) ^ 3 := Nat.pow_le_pow_left h 3
  rw [cube_middle hv, div_le_div_iff_of_pos_right (Nat.cast_pos.mpr hv), le_div_iff₀ (by positivity)]
  exact_mod_cast hle

/-- On magnitudes, where the other one may have any sign. -/
theorem middle_of_cbrt (hx : x.isFinite) (hzero : ¬ x.isZero) :
    x.cbrt.isFinite ∧ x.cbrt.isNegative = x.isNegative ∧
      ∀ (z : Double) (b : ℚ), |z.value| = |b| →
        (b < |x.cbrt.value| → ((b + |x.cbrt.value|) / 2) ^ 3 ≤ |x.value|) ∧
        (|x.cbrt.value| < b → |x.value| ≤ ((b + |x.cbrt.value|) / 2) ^ 3) := by
  obtain ⟨r, t, ht, hr, hinfinite, hlow, hhigh, hcbrt⟩ := exists_root hx hzero
  have hapart := middles_apart ht hr hinfinite
  obtain ⟨hfinite, hunits, hsign⟩ : x.cbrt.isFinite ∧ x.cbrt.units = unitsOfWord (nearestWord (t * 2 ^ 659) 1) ∧
      x.cbrt.isNegative = x.isNegative := by
    have hfits : nearestWord (t * 2 ^ 659) 1 < signWeight := hinfinite.trans (by decide)
    rw [hcbrt, isFinite, units, word_ofWord _ hfits, isNegative_ofWord _ hfits]
    exact ⟨decide_eq_true hinfinite, rfl, rfl⟩
  refine ⟨hfinite, hsign, fun z b hz => ?_⟩
  rw [← hunits] at hapart
  have hbelow : ∀ w, unitsOfWord w < x.cbrt.units →
      (((unitsOfWord w : ℚ) / unitsPerOne + |x.cbrt.value|) / 2) ^ 3 ≤ |x.value| := by
    intro w hw
    rw [abs_value, abs_value]
    exact cube_middle_le unitsPerOne_pos cube_grid ((hapart w).1 hw) hlow
  have hpos : (0 : ℚ) < unitsPerOne := cast_unitsPerOne_pos
  by_cases hb : 0 ≤ b
  · rw [abs_of_nonneg hb, abs_value] at hz
    rw [← hz]
    constructor
    · intro hlt
      rw [abs_value x.cbrt, div_lt_div_iff_of_pos_right hpos, Nat.cast_lt] at hlt
      exact hbelow z.word hlt
    · intro hlt
      rw [abs_value x.cbrt, div_lt_div_iff_of_pos_right hpos, Nat.cast_lt] at hlt
      rw [abs_value, abs_value]
      exact le_cube_middle unitsPerOne_pos cube_grid ((hapart z.word).2 hlt) hhigh
  · refine ⟨fun _ => ?_, fun hlt => absurd ((abs_nonneg _).trans_lt hlt).le hb⟩
    have hodd : Odd 3 := by decide
    by_cases hroot : x.cbrt.units = 0
    · rw [abs_value x.cbrt, hroot, Nat.cast_zero, zero_div, add_zero]
      exact (hodd.pow_nonpos (by linarith)).trans (abs_nonneg _)
    · have hzero := hbelow 0 (by rw [unitsOfWord_small leadingBit_pos]; omega)
      rw [unitsOfWord_small leadingBit_pos, Nat.cast_zero, zero_div, zero_add] at hzero
      exact (hodd.pow_le_pow.mpr (by linarith)).trans hzero

theorem cbrt_nearestRoot (hx : x.isFinite) : x.cbrt.isFinite ∧ NearestRoot x x.cbrt := by
  have hodd : Odd 3 := by decide
  by_cases hzero : x.isZero = true
  · have hvalue : x.value = 0 := by
      rw [← abs_eq_zero, abs_value, units_eq_zero_iff.mpr hzero, Nat.cast_zero, zero_div]
    rw [cbrt, if_pos (by simp [hzero])]
    refine ⟨hx, rfl, fun z _ hz => ?_, fun z _ hz => ?_⟩ <;> rw [hvalue] at hz ⊢
    · exact hodd.pow_nonpos (by linarith)
    · exact pow_nonneg (by linarith) 3
  · obtain ⟨hfinite, hsign, hmiddle⟩ := middle_of_cbrt hx hzero
    by_cases hnegative : x.isNegative = true
    · rw [abs_of_nonpos (value_nonpos hnegative), abs_of_nonpos (value_nonpos (hsign.trans hnegative))] at hmiddle
      have hflip : ∀ z : Double, ((-z.value + -x.cbrt.value) / 2) ^ 3 = -((z.value + x.cbrt.value) / 2) ^ 3 := by
        intro z
        ring
      refine ⟨hfinite, hsign, fun z _ hz => ?_, fun z _ hz => ?_⟩
      · have hcube := (hmiddle z (-z.value) (abs_neg _).symm).2 (neg_lt_neg hz)
        rw [hflip] at hcube
        exact neg_le_neg_iff.mp hcube
      · have hcube := (hmiddle z (-z.value) (abs_neg _).symm).1 (neg_lt_neg hz)
        rw [hflip] at hcube
        exact neg_le_neg_iff.mp hcube
    · rw [abs_of_nonneg (value_nonneg hnegative), abs_of_nonneg (value_nonneg (hsign ▸ hnegative))] at hmiddle
      exact ⟨hfinite, hsign, fun z _ hz => (hmiddle z z.value rfl).1 hz, fun z _ hz => (hmiddle z z.value rfl).2 hz⟩

end StackMachine.Double
