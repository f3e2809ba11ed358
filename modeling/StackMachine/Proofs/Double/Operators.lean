import StackMachine.Proofs.Double.Extrema
import StackMachine.Proofs.Double.Root

/-!
What each operator makes of its operands, said on the fields of the patterns and on the numbers they stand for. The four
operations and the square root are those of IEEE arithmetic, taken as given.
-/

set_option autoImplicit false

namespace StackMachine

namespace Double

variable {x y z : Double} {p q : Prop}

def NoNumber (x : Double) : Prop := x.exponent = 2047 ∧ x.fraction ≠ 0

def Null (x : Double) : Prop := x.exponent = 0 ∧ x.fraction = 0

def Truthy (x : Double) : Prop := ¬ x.NoNumber ∧ ¬ x.Null

instance (x : Double) : Decidable x.NoNumber := inferInstanceAs (Decidable (_ ∧ _))

instance (x : Double) : Decidable x.Null := inferInstanceAs (Decidable (_ ∧ _))

instance (x : Double) : Decidable x.Truthy := inferInstanceAs (Decidable (_ ∧ _))

/-- One if it is so, zero if not. -/
def Flags (x : Double) (p : Prop) : Prop := (p → x = ⟨0x3ff0000000000000⟩) ∧ (¬ p → x = ⟨0⟩)

theorem Flags.unique (hx : x.Flags p) (hy : y.Flags p) : x = y := by
  by_cases h : p
  · rw [hx.1 h, hy.1 h]
  · rw [hx.2 h, hy.2 h]

theorem flags_ofBool {b : Bool} (h : b = true ↔ p) : (ofBool b).Flags p := by
  cases b with
  | true => exact ⟨fun _ => rfl, fun hnot => absurd (h.mp rfl) hnot⟩
  | false => exact ⟨fun hp => absurd (h.mpr hp) Bool.false_ne_true, fun _ => rfl⟩

theorem word_eq (x : Double) : x.word = x.exponent * leadingBit + x.fraction := by
  rw [← word_div_leadingBit, ← word_mod_leadingBit, Nat.div_add_mod']

theorem exponent_lt (x : Double) : x.exponent < 2048 := Nat.mod_lt _ (by decide)

theorem fraction_lt (x : Double) : x.fraction < leadingBit := Nat.mod_lt _ (by decide)

theorem isNaN_iff : x.isNaN = true ↔ x.NoNumber := by
  have he := x.exponent_lt
  have hf := x.fraction_lt
  rw [isNaN, decide_eq_true_eq, NoNumber, word_eq, infinityWord]
  constructor
  · intro hlt
    have hexponent : x.exponent = 2047 := by
      by_contra hne
      have hle : x.exponent * leadingBit ≤ 2046 * leadingBit := Nat.mul_le_mul_right _ (by omega)
      omega
    exact ⟨hexponent, by rw [hexponent] at hlt; omega⟩
  · rintro ⟨hexponent, hfraction⟩
    rw [hexponent]
    omega

theorem isFinite_iff : x.isFinite = true ↔ x.exponent < 2047 := by
  have he := x.exponent_lt
  have hf := x.fraction_lt
  rw [isFinite, decide_eq_true_eq, word_eq, infinityWord]
  constructor
  · intro hlt
    by_contra hge
    have hle : 2047 * leadingBit ≤ x.exponent * leadingBit := Nat.mul_le_mul_right _ (by omega)
    omega
  · intro hlt
    have hle : x.exponent * leadingBit ≤ 2046 * leadingBit := Nat.mul_le_mul_right _ (by omega)
    omega

theorem isZero_iff : x.isZero = true ↔ x.Null := by
  have hpos := leadingBit_pos
  rw [isZero, beq_iff_eq, word_eq, Nat.add_eq_zero_iff, Nat.mul_eq_zero, Null]
  omega

theorem truthy_iff : x.truthy = true ↔ x.Truthy := by
  rw [truthy, Truthy, ← isNaN_iff, ← isZero_iff]
  cases x.isNaN <;> cases x.isZero <;> decide

theorem isInteger_iff : x.isInteger = true ↔ x.exponent < 2047 ∧ ∃ n : ℤ, x.value = n := by
  have hdvd : x.units % unitsPerOne = 0 ↔ ∃ n : ℤ, x.value = n := by
    have hsigned : x.units % unitsPerOne = 0 ↔ (unitsPerOne : ℤ) ∣ x.signedUnits := by
      rw [← Nat.dvd_iff_mod_eq_zero, signedUnits]
      split <;> simp [Int.natCast_dvd_natCast]
    rw [hsigned, value_eq]
    constructor
    · rintro ⟨n, hn⟩
      refine ⟨n, ?_⟩
      rw [hn, Int.cast_mul, Int.cast_natCast, mul_div_cancel_left₀ _ cast_unitsPerOne_pos.ne']
    · rintro ⟨n, hn⟩
      rw [div_eq_iff cast_unitsPerOne_pos.ne'] at hn
      exact ⟨n, by rw [mul_comm]; exact_mod_cast hn⟩
  rw [isInteger, Bool.and_eq_true, isFinite_iff, beq_iff_eq, hdvd]

/-- A comparison of the keys of numbers is one of their places. -/
theorem compared_iff {r : ℤ → ℤ → Prop} [DecidableRel r] {R : WithBot (WithTop ℚ) → WithBot (WithTop ℚ) → Prop}
    (hr : ∀ a b : Number, R a.double.place b.double.place ↔ r a.double.key b.double.key) :
    (!x.isNaN && !y.isNaN && decide (r x.key y.key)) = true ↔ ¬ x.NoNumber ∧ ¬ y.NoNumber ∧ R x.place y.place := by
  rw [← isNaN_iff, ← isNaN_iff]
  cases hx : x.isNaN with
  | true => simp
  | false =>
    cases hy : y.isNaN with
    | true => simp
    | false => simpa using (hr ⟨x, hx⟩ ⟨y, hy⟩).symm

theorem isEq_iff : x.isEq y = true ↔ ¬ x.NoNumber ∧ ¬ y.NoNumber ∧ x.place = y.place :=
  compared_iff (r := (· = ·)) fun _ _ => Number.place_eq_iff

theorem isLt_iff : x.isLt y = true ↔ ¬ x.NoNumber ∧ ¬ y.NoNumber ∧ x.place < y.place :=
  compared_iff fun _ _ => Number.place_lt_iff

theorem isLe_iff : x.isLe y = true ↔ ¬ x.NoNumber ∧ ¬ y.NoNumber ∧ x.place ≤ y.place :=
  compared_iff fun a b => by rw [← not_lt, ← not_lt, Number.place_lt_iff]

theorem place_zero : zero.place = 0 := by
  have hvalue : zero.value = 0 := by
    rw [← abs_eq_zero, abs_value, units_eq_zero_iff.mpr (by decide), Nat.cast_zero, zero_div]
  rw [place, if_pos (by decide), hvalue]
  rfl

theorem isPositive_iff : x.isPositive = true ↔ ¬ x.NoNumber ∧ 0 < x.place := by
  rw [isPositive, isLt_iff, place_zero, and_iff_right (by decide)]

/-- A pattern is made up of its fields. -/
theorem eq_of_fields (hsign : x.isNegative = y.isNegative) (hexponent : x.exponent = y.exponent)
    (hfraction : x.fraction = y.fraction) : x = y := by
  rw [← ofWord_word x, ← ofWord_word y, word_eq, word_eq, hsign, hexponent, hfraction]

theorem fields_ofWord (negative : Bool) (x : Double) :
    (ofWord negative x.word).isNegative = negative ∧ (ofWord negative x.word).exponent = x.exponent ∧
      (ofWord negative x.word).fraction = x.fraction := by
  have hword : (ofWord negative x.word).word = x.word := word_ofWord _ (Nat.mod_lt _ (by decide))
  rw [← word_div_leadingBit, ← word_mod_leadingBit, hword, word_div_leadingBit, word_mod_leadingBit]
  exact ⟨isNegative_ofWord _ (Nat.mod_lt _ (by decide)), rfl, rfl⟩

theorem sign_of_truthy (h : x.Truthy) :
    x.sign = if x.isNegative then ⟨0xbff0000000000000⟩ else ⟨0x3ff0000000000000⟩ := by
  rw [Truthy, ← isNaN_iff, ← isZero_iff] at h
  rw [sign, if_neg (by simp [h])]
  cases x.isNegative <;> rfl

theorem sign_of_not_truthy (h : ¬ x.Truthy) : x.sign = x := by
  rw [← truthy_iff, truthy] at h
  rw [sign, if_pos (by revert h; cases x.isNaN <;> cases x.isZero <;> decide)]

theorem cbrt_of_not_isFinite (h : ¬ x.isFinite) : x.cbrt = x := by
  rw [cbrt, if_pos (by simp [h])]

theorem min_of_noNumber (h : x.NoNumber ∨ y.NoNumber) : x.min y = ⟨0x7ff8000000000000⟩ := by
  rw [← isNaN_iff, ← isNaN_iff, ← Bool.or_eq_true] at h
  exact if_pos h

theorem max_of_noNumber (h : x.NoNumber ∨ y.NoNumber) : x.max y = ⟨0x7ff8000000000000⟩ := by
  rw [← isNaN_iff, ← isNaN_iff, ← Bool.or_eq_true] at h
  exact if_pos h

theorem rem_undefined (h : x.NoNumber ∨ y.NoNumber ∨ x.exponent = 2047 ∨ y.Null) :
    x.rem y = ⟨0x7ff8000000000000⟩ := by
  have hfinite : x.exponent = 2047 ↔ x.isFinite = false := by
    rw [← Bool.not_eq_true, isFinite_iff]
    have := x.exponent_lt
    omega
  rw [← isNaN_iff, ← isNaN_iff, hfinite, ← isZero_iff] at h
  rw [rem, if_pos (by simpa [or_assoc] using h)]
  rfl

theorem rem_infinite (hx : x.exponent < 2047) (hy : y.exponent = 2047) (hnumber : ¬ y.NoNumber) : x.rem y = x := by
  have hyfinite : ¬ y.isFinite = true := by
    rw [isFinite_iff]
    omega
  have hzero : ¬ y.Null := by
    rintro ⟨hexponent, -⟩
    omega
  have hxnumber : ¬ x.NoNumber := by
    rintro ⟨hexponent, -⟩
    omega
  rw [← isFinite_iff] at hx
  rw [← isNaN_iff] at hnumber hxnumber
  rw [← isZero_iff] at hzero
  rw [rem, if_neg (by simp [hx, hnumber, hxnumber, hzero]), if_pos (by simp [hyfinite])]

end Double

open Double

def Unary.Makes : Unary → Double → Double → Prop
  | .nan, x, y => y.Flags x.NoNumber
  | .finite, x, y => y.Flags (x.exponent < 2047)
  | .positive, x, y => y.Flags (¬ x.NoNumber ∧ 0 < x.place)
  | .integer, x, y => y.Flags (x.exponent < 2047 ∧ ∃ n : ℤ, x.value = n)
  | .not, x, y => y.Flags (¬ x.Truthy)
  | .truthy, x, y => y.Flags x.Truthy
  | .falsy, x, y => y.Flags (¬ x.Truthy)
  | .abs, x, y => y.isNegative = false ∧ y.exponent = x.exponent ∧ y.fraction = x.fraction
  | .sign, x, y =>
    (x.Truthy → y = if x.isNegative then ⟨0xbff0000000000000⟩ else ⟨0x3ff0000000000000⟩) ∧ (¬ x.Truthy → y = x)
  | .neg, x, y => y.isNegative = (!x.isNegative) ∧ y.exponent = x.exponent ∧ y.fraction = x.fraction
  | .floor, x, y => Rounded (fun q r => r = ⌊q⌋) x y
  | .ceil, x, y => Rounded (fun q r => r = ⌈q⌉) x y
  | .trunc, x, y => Rounded (fun q r => |r| = ⌊|q|⌋) x y
  | .round, x, y => Rounded (fun q r => |r| = ⌊|q| + 1 / 2⌋) x y
  | .sqrt, x, y => y = ⟨(Float.ofBits x.bits).sqrt.toBits⟩
  | .cbrt, x, y => (x.exponent < 2047 → y.exponent < 2047 ∧ NearestRoot x y) ∧ (x.exponent = 2047 → y = x)

/-- What an operator makes of two operands, of which the second one was on top. -/
def Binary.Makes : Binary → Double → Double → Double → Prop
  | .eq, x, y, z => z.Flags (¬ x.NoNumber ∧ ¬ y.NoNumber ∧ x.place = y.place)
  | .lt, x, y, z => z.Flags (¬ x.NoNumber ∧ ¬ y.NoNumber ∧ x.place < y.place)
  | .gt, x, y, z => z.Flags (¬ x.NoNumber ∧ ¬ y.NoNumber ∧ y.place < x.place)
  | .lte, x, y, z => z.Flags (¬ x.NoNumber ∧ ¬ y.NoNumber ∧ x.place ≤ y.place)
  | .gte, x, y, z => z.Flags (¬ x.NoNumber ∧ ¬ y.NoNumber ∧ y.place ≤ x.place)
  | .min, x, y, z =>
    (x.NoNumber ∨ y.NoNumber → z = ⟨0x7ff8000000000000⟩) ∧
      ∀ a b : Number, a.double = x → b.double = y → z = (a ⊓ b).double
  | .max, x, y, z =>
    (x.NoNumber ∨ y.NoNumber → z = ⟨0x7ff8000000000000⟩) ∧
      ∀ a b : Number, a.double = x → b.double = y → z = (a ⊔ b).double
  | .add, x, y, z => z = ⟨(Float.ofBits x.bits + Float.ofBits y.bits).toBits⟩
  | .sub, x, y, z => z = ⟨(Float.ofBits x.bits - Float.ofBits y.bits).toBits⟩
  | .mul, x, y, z => z = ⟨(Float.ofBits x.bits * Float.ofBits y.bits).toBits⟩
  | .div, x, y, z => z = ⟨(Float.ofBits x.bits / Float.ofBits y.bits).toBits⟩
  | .rem, x, y, z =>
    (x.NoNumber ∨ y.NoNumber ∨ x.exponent = 2047 ∨ y.Null → z = ⟨0x7ff8000000000000⟩) ∧
      (x.exponent < 2047 → y.exponent = 2047 → ¬ y.NoNumber → z = x) ∧
      (x.exponent < 2047 → y.exponent < 2047 → ¬ y.Null → Remains x y z)

theorem Unary.makes_eval (op : Unary) (x : Double) : op.Makes x (op.eval x) := by
  cases op with
  | nan => exact flags_ofBool isNaN_iff
  | finite => exact flags_ofBool isFinite_iff
  | positive => exact flags_ofBool isPositive_iff
  | integer => exact flags_ofBool isInteger_iff
  | truthy => exact flags_ofBool truthy_iff
  | not | falsy => exact flags_ofBool (by rw [← truthy_iff, Bool.not_eq_true, Bool.not_eq_true'])
  | abs | neg => exact fields_ofWord _ x
  | sign => exact ⟨sign_of_truthy, sign_of_not_truthy⟩
  | floor => exact floor_rounded x
  | ceil => exact ceil_rounded x
  | trunc => exact trunc_rounded x
  | round => exact round_rounded x
  | sqrt => rfl
  | cbrt =>
    constructor
    · intro hx
      rw [← isFinite_iff, eval]
      exact cbrt_nearestRoot (isFinite_iff.mpr hx)
    · intro hx
      exact cbrt_of_not_isFinite (by rw [isFinite_iff]; omega)

theorem Binary.makes_eval (op : Binary) (x y : Double) : op.Makes x y (op.eval x y) := by
  cases op with
  | eq => exact flags_ofBool isEq_iff
  | lt => exact flags_ofBool isLt_iff
  | gt => exact flags_ofBool (by rw [isLt_iff, and_left_comm])
  | lte => exact flags_ofBool isLe_iff
  | gte => exact flags_ofBool (by rw [isLe_iff, and_left_comm])
  | min => exact ⟨min_of_noNumber, by rintro a b rfl rfl; exact a.min_double b⟩
  | max => exact ⟨max_of_noNumber, by rintro a b rfl rfl; exact a.max_double b⟩
  | add | sub | mul | div => rfl
  | rem =>
    refine ⟨rem_undefined, rem_infinite, fun hx hy hzero => rem_remains ?_ ?_ ?_⟩
    · exact isFinite_iff.mpr hx
    · exact isFinite_iff.mpr hy
    · rwa [isZero_iff]

/-- Only the cube root has some freedom left. -/
theorem Unary.Makes.unique {op : Unary} {x y z : Double} (hy : op.Makes x y) (hz : op.Makes x z) (hop : op ≠ .cbrt) :
    y = z := by
  cases op with
  | nan | finite | positive | integer | not | truthy | falsy => exact Flags.unique hy hz
  | abs | neg =>
    obtain ⟨hysign, hyexponent, hyfraction⟩ := hy
    obtain ⟨hzsign, hzexponent, hzfraction⟩ := hz
    exact eq_of_fields (hysign.trans hzsign.symm) (hyexponent.trans hzexponent.symm) (hyfraction.trans hzfraction.symm)
  | sign =>
    by_cases hx : x.Truthy
    · rw [hy.1 hx, hz.1 hx]
    · rw [hy.2 hx, hz.2 hx]
  | floor | ceil => exact Rounded.unique (fun q r s hr hs => by rw [hr, hs]) hy hz
  | trunc | round => exact Rounded.unique (fun q r s hr hs => hr.trans hs.symm) hy hz
  | sqrt => exact Eq.trans hy (Eq.symm hz)
  | cbrt => exact absurd rfl hop

theorem Binary.Makes.unique {op : Binary} {x y z t : Double} (hz : op.Makes x y z) (ht : op.Makes x y t) : z = t := by
  cases op with
  | eq | lt | gt | lte | gte => exact Flags.unique hz ht
  | min | max =>
    by_cases h : x.NoNumber ∨ y.NoNumber
    · rw [hz.1 h, ht.1 h]
    · rw [not_or, ← isNaN_iff, ← isNaN_iff, Bool.not_eq_true, Bool.not_eq_true] at h
      exact (hz.2 ⟨x, h.1⟩ ⟨y, h.2⟩ rfl rfl).trans (ht.2 ⟨x, h.1⟩ ⟨y, h.2⟩ rfl rfl).symm
  | add | sub | mul | div => exact Eq.trans hz (Eq.symm ht)
  | rem =>
    obtain ⟨hzundefined, hzinfinite, hzfinite⟩ := hz
    obtain ⟨htundefined, htinfinite, htfinite⟩ := ht
    by_cases h : x.NoNumber ∨ y.NoNumber ∨ x.exponent = 2047 ∨ y.Null
    · rw [hzundefined h, htundefined h]
    · obtain ⟨-, hy, hxfinite, hzero⟩ : _ ∧ _ ∧ _ ∧ _ := by simpa only [not_or] using h
      have hx : x.exponent < 2047 := by
        have := x.exponent_lt
        omega
      by_cases hinfinite : y.exponent = 2047
      · rw [hzinfinite hx hinfinite hy, htinfinite hx hinfinite hy]
      · have hyfinite : y.exponent < 2047 := by
          have := y.exponent_lt
          omega
        exact (hzfinite hx hyfinite hzero).unique (htfinite hx hyfinite hzero)

end StackMachine
