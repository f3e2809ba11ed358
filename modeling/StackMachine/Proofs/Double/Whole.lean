import StackMachine.Double.Nearest
import Mathlib.Tactic

/-!
Natural numbers as doubles. A word with exponent bits is a significand and a number of doublings, and
rounding a magnitude that some word stands for gives back that word. So every natural number up to `maxSafe`
is exactly one double, zero apart, and a larger one is never taken for a safe one.
-/

set_option autoImplicit false

namespace StackMachine

theorem roundHalfEven_mul (q den : Nat) (hd : 0 < den) : roundHalfEven (q * den) den = q := by
  have hq : q * den / den = q := Nat.mul_div_cancel q hd
  simp only [roundHalfEven, hq, Nat.mul_mod_left]
  rw [if_neg (by omega)]

theorem le_roundHalfEven (num den : Nat) : num / den ≤ roundHalfEven num den := by
  simp only [roundHalfEven]
  split <;> omega

theorem roundHalfEven_scale (num den k : Nat) (hk : 0 < k) :
    roundHalfEven (num * k) (den * k) = roundHalfEven num den := by
  have above : den * k < 2 * (num % den * k) ↔ den < 2 * (num % den) := by
    rw [← Nat.mul_assoc, Nat.mul_lt_mul_right hk]
  have tie : 2 * (num % den * k) = den * k ↔ 2 * (num % den) = den := by
    rw [← Nat.mul_assoc, Nat.mul_left_inj hk.ne']
  simp only [roundHalfEven, Nat.mul_div_mul_right num den hk, Nat.mul_mod_mul_right, above, tie]

namespace Double

def negativeZero : Double := ⟨0x8000000000000000⟩

theorem leadingBit_eq : leadingBit = 2 ^ 52 := by decide

theorem leadingBit_pos : 0 < leadingBit := by decide

theorem unitsPerOne_eq : unitsPerOne = 2 ^ 1074 := by
  unfold unitsPerOne
  generalize 1074 = k
  exact Nat.one_shiftLeft k

theorem unitsPerOne_pos : 0 < unitsPerOne := by
  rw [unitsPerOne_eq]
  positivity

theorem nearestWord_scale (num den k : Nat) (hk : 0 < k) :
    nearestWord (num * k) (den * k) = nearestWord num den := by
  simp only [nearestWord, Nat.mul_div_mul_right num den hk, Nat.shiftLeft_eq]
  rw [Nat.mul_right_comm den k, roundHalfEven_scale _ _ _ hk]

theorem nearestWord_lt_signWeight (num den : Nat) : nearestWord num den < signWeight :=
  lt_of_le_of_lt (min_le_right _ _) (by decide)

theorem unitsOfWord_small {w : Nat} (h : w < leadingBit) : unitsOfWord w = w := by
  simp [unitsOfWord, h]

/-- The magnitude of a word with exponent bits: its significand `m`, doubled `e` times. -/
theorem unitsOfWord_normal {e m : Nat} (lo : leadingBit ≤ m) (hi : m < 2 * leadingBit) :
    unitsOfWord (e * leadingBit + m) = m * 2 ^ e := by
  have hdiv : (e * leadingBit + m) / leadingBit = e + 1 := by
    have hone : m / leadingBit = 1 := Nat.div_eq_of_lt_le (by omega) (by omega)
    rw [Nat.mul_comm, Nat.mul_add_div leadingBit_pos, hone]
  have hmod : (e * leadingBit + m) % leadingBit = m - leadingBit := by
    rw [Nat.mul_comm, Nat.mul_add_mod, Nat.mod_eq_sub_mod lo, Nat.mod_eq_of_lt (by omega)]
  have hbig : ¬ e * leadingBit + m < leadingBit := by omega
  rw [unitsOfWord, if_neg hbig, hdiv, hmod, Nat.shiftLeft_eq, Nat.add_sub_cancel' lo,
    Nat.add_sub_cancel]

theorem exists_normal {w : Nat} (h : leadingBit ≤ w) :
    ∃ e m, w = e * leadingBit + m ∧ leadingBit ≤ m ∧ m < 2 * leadingBit := by
  have hmod := Nat.mod_lt w leadingBit_pos
  refine ⟨w / leadingBit - 1, leadingBit + w % leadingBit, ?_, by omega, by omega⟩
  obtain ⟨k, hk⟩ := Nat.exists_eq_add_of_le ((Nat.one_le_div_iff leadingBit_pos).mpr h)
  have hw := Nat.div_add_mod w leadingBit
  rw [hk] at hw ⊢
  rw [Nat.add_sub_cancel_left]
  nlinarith

theorem log2_normal {e m : Nat} (lo : leadingBit ≤ m) (hi : m < 2 * leadingBit) :
    (m * 2 ^ e).log2 = 52 + e := by
  rw [leadingBit_eq] at lo hi
  have hne : m * 2 ^ e ≠ 0 := by positivity
  rw [Nat.log2_eq_iff hne]
  constructor
  · rw [pow_add]
    exact Nat.mul_le_mul_right _ lo
  · rw [show 52 + e + 1 = 53 + e by omega, pow_add]
    exact Nat.mul_lt_mul_of_pos_right (by omega) (by positivity)

theorem unitsOfWord_pos {w : Nat} (hw : w ≠ 0) : 0 < unitsOfWord w := by
  by_cases hs : w < leadingBit
  · rw [unitsOfWord_small hs]
    omega
  · obtain ⟨e, m, rfl, lo, hi⟩ := exists_normal (not_lt.mp hs)
    rw [unitsOfWord_normal lo hi]
    exact Nat.mul_pos (leadingBit_pos.trans_le lo) (by positivity)

theorem unitsOfWord_lt {w : Nat} (hw : w < infinityWord) : unitsOfWord w < 2 ^ 2098 := by
  by_cases hs : w < leadingBit
  · rw [unitsOfWord_small hs]
    exact hw.trans (by decide +kernel)
  · obtain ⟨e, m, rfl, lo, hi⟩ := exists_normal (not_lt.mp hs)
    have he : e + 1 < 2047 := by
      apply Nat.lt_of_mul_lt_mul_right (a := leadingBit)
      rw [Nat.add_mul]
      exact lt_of_le_of_lt (by omega) hw
    rw [unitsOfWord_normal lo hi]
    calc m * 2 ^ e < 2 * leadingBit * 2 ^ e := Nat.mul_lt_mul_of_pos_right hi (by positivity)
      _ ≤ 2 * leadingBit * 2 ^ 2045 :=
        Nat.mul_le_mul_left _ (Nat.pow_le_pow_right (by decide) (by omega))
      _ = 2 ^ 2098 := by decide +kernel

theorem le_unitsOfWord {e w : Nat} (h : (e + 1) * leadingBit ≤ w) :
    leadingBit * 2 ^ e ≤ unitsOfWord w := by
  obtain ⟨f, m, rfl, lo, hi⟩ := exists_normal ((Nat.le_mul_of_pos_left _ e.succ_pos).trans h)
  have hef : e + 1 < f + 2 := by
    apply Nat.lt_of_mul_lt_mul_right (a := leadingBit)
    rw [Nat.add_mul f 2]
    omega
  rw [unitsOfWord_normal lo hi]
  exact Nat.mul_le_mul lo (Nat.pow_le_pow_right (by decide) (by omega))

/-- Rounding gives back the word of a magnitude that has one. -/
theorem nearestWord_unitsOfWord {w : Nat} (h : w ≤ infinityWord) :
    nearestWord (unitsOfWord w) 1 = w := by
  by_cases hs : w < leadingBit
  · have hlog : w.log2 - 52 = 0 := by
      by_cases hz : w = 0
      · simp [hz]
      · have : w.log2 < 52 := (Nat.log2_lt hz).mpr (leadingBit_eq ▸ hs)
        omega
    have hround := roundHalfEven_mul w 1 (by decide)
    rw [Nat.mul_one] at hround
    simp only [unitsOfWord_small hs, nearestWord, Nat.div_one, hlog, Nat.shiftLeft_zero, hround]
    omega
  · obtain ⟨e, m, rfl, lo, hi⟩ := exists_normal (not_lt.mp hs)
    simp only [unitsOfWord_normal lo hi, nearestWord, Nat.div_one, log2_normal lo hi,
      Nat.one_shiftLeft, Nat.add_sub_cancel_left]
    rw [roundHalfEven_mul _ _ (by positivity)]
    omega

theorem ofWord_word (x : Double) : ofWord x.isNegative x.word = x := by
  obtain ⟨b⟩ := x
  have hb : b.toNat < 2 * signWeight := b.toNat_lt
  have hbits : (if signWeight ≤ b.toNat then signWeight + b.toNat % signWeight
      else b.toNat % signWeight) = b.toNat := by
    split
    · rename_i h
      rw [Nat.mod_eq_sub_mod h, Nat.mod_eq_of_lt (by omega)]
      omega
    · exact Nat.mod_eq_of_lt (by omega)
  simp only [ofWord, isNegative, word, decide_eq_true_eq, hbits, UInt64.ofNat_toNat]

theorem toNat_bits_ofWord (negative : Bool) {w : Nat} (h : w < signWeight) :
    (ofWord negative w).bits.toNat = if negative then signWeight + w else w := by
  have hs : signWeight + signWeight = 2 ^ 64 := by decide
  simp only [ofWord, UInt64.toNat_ofNat']
  apply Nat.mod_eq_of_lt
  split <;> omega

theorem word_ofWord (negative : Bool) {w : Nat} (h : w < signWeight) :
    (ofWord negative w).word = w := by
  rw [word, toNat_bits_ofWord negative h]
  split
  · rw [Nat.add_mod_left, Nat.mod_eq_of_lt h]
  · exact Nat.mod_eq_of_lt h

theorem isNegative_ofWord (negative : Bool) {w : Nat} (h : w < signWeight) :
    (ofWord negative w).isNegative = negative := by
  rw [isNegative, toNat_bits_ofWord negative h]
  cases negative with
  | false => simpa using h
  | true => simp

theorem word_ofNat (n : Nat) : (ofNat n).word = wordOfUnits (n * unitsPerOne) :=
  word_ofWord false (nearestWord_lt_signWeight _ 1)

theorem isNegative_ofNat (n : Nat) : (ofNat n).isNegative = false :=
  isNegative_ofWord false (nearestWord_lt_signWeight _ 1)

/-- A natural number below `2 ^ 53` is the magnitude of a word. -/
theorem exists_word_of_safe {n : Nat} (h : n ≤ maxSafe) :
    ∃ w < infinityWord, unitsOfWord w = n * unitsPerOne := by
  by_cases hz : n = 0
  · exact ⟨0, by decide, by rw [unitsOfWord_small (by decide), hz, Nat.zero_mul]⟩
  have hlog : n.log2 ≤ 52 := by
    have : n.log2 < 53 := (Nat.log2_lt hz).mpr (Nat.lt_succ_of_le h)
    omega
  -- The significand is the number itself, doubled until it fills 53 bits.
  have lo : leadingBit ≤ n * 2 ^ (52 - n.log2) := by
    calc leadingBit = 2 ^ n.log2 * 2 ^ (52 - n.log2) := by
          rw [← pow_add, Nat.add_sub_cancel' hlog, leadingBit_eq]
      _ ≤ n * 2 ^ (52 - n.log2) := Nat.mul_le_mul_right _ (Nat.log2_self_le hz)
  have hi : n * 2 ^ (52 - n.log2) < 2 * leadingBit := by
    calc n * 2 ^ (52 - n.log2) < 2 ^ (n.log2 + 1) * 2 ^ (52 - n.log2) :=
          Nat.mul_lt_mul_of_pos_right Nat.lt_log2_self (by positivity)
      _ = 2 * leadingBit := by
          rw [← pow_add, show n.log2 + 1 + (52 - n.log2) = 1 + 52 by omega, pow_add, leadingBit_eq,
            pow_one]
  refine ⟨(n.log2 + 1022) * leadingBit + n * 2 ^ (52 - n.log2), ?_, ?_⟩
  · have hexp : (n.log2 + 1022) * leadingBit ≤ 1074 * leadingBit :=
      Nat.mul_le_mul_right _ (by omega)
    have hinf : 1074 * leadingBit + 2 * leadingBit ≤ infinityWord := by decide
    omega
  · rw [unitsOfWord_normal lo hi, Nat.mul_assoc, ← pow_add, unitsPerOne_eq,
      show 52 - n.log2 + (n.log2 + 1022) = 1074 by omega]

theorem toNat?_ofNat_of_safe {n : Nat} (h : n ≤ maxSafe) : (ofNat n).toNat? = some n := by
  obtain ⟨w, hw, hu⟩ := exists_word_of_safe h
  have hword : (ofNat n).word = w := by
    rw [word_ofNat, wordOfUnits, ← hu, nearestWord_unitsOfWord hw.le]
  have hunits : (ofNat n).units = n * unitsPerOne := by rw [units, hword, hu]
  have hfinite : (ofNat n).isFinite = true := by simpa [isFinite, hword] using hw
  simp [toNat?, hunits, hfinite, isNegative_ofNat, Nat.mul_div_cancel _ unitsPerOne_pos, h]

theorem log2_mul_unitsPerOne {n : Nat} (hz : n ≠ 0) : (n * unitsPerOne).log2 = n.log2 + 1074 := by
  have hne : n * 2 ^ 1074 ≠ 0 := Nat.mul_ne_zero hz (by positivity)
  rw [unitsPerOne_eq, Nat.log2_eq_iff hne, pow_add, Nat.add_right_comm, pow_add]
  exact ⟨Nat.mul_le_mul_right _ (Nat.log2_self_le hz),
    Nat.mul_lt_mul_of_pos_right Nat.lt_log2_self (by positivity)⟩

/-- A number that is not safe is not rounded into the safe range either. -/
theorem toNat?_ofNat_of_large {n : Nat} (h : maxSafe < n) : (ofNat n).toNat? = none := by
  have hn : 2 ^ 53 ≤ n := Nat.succ_le_of_lt h
  have hz : n ≠ 0 := by omega
  have hlog : 53 ≤ n.log2 := (Nat.le_log2 hz).mpr hn
  have hround : leadingBit ≤ roundHalfEven (n * unitsPerOne) (1 <<< (n.log2 + 1022)) := by
    refine le_trans ?_ (le_roundHalfEven _ _)
    rw [Nat.one_shiftLeft, Nat.le_div_iff_mul_le (by positivity), leadingBit_eq, ← pow_add,
      show 52 + (n.log2 + 1022) = n.log2 + 1074 by omega, pow_add, ← unitsPerOne_eq]
    exact Nat.mul_le_mul_right _ (Nat.log2_self_le hz)
  have hword : (1075 + 1) * leadingBit ≤ (ofNat n).word := by
    have hshift : (n * unitsPerOne).log2 - 52 = n.log2 + 1022 := by
      rw [log2_mul_unitsPerOne hz]
      omega
    have hexp := Nat.mul_le_mul_right leadingBit (show 1075 ≤ n.log2 + 1022 by omega)
    simp only [word_ofNat, wordOfUnits, nearestWord, Nat.div_one, hshift]
    exact le_min (by omega) (by decide)
  have hunits : 2 ^ 53 * unitsPerOne ≤ (ofNat n).units := by
    refine le_trans (le_of_eq ?_) (le_unitsOfWord hword)
    rw [unitsPerOne_eq, leadingBit_eq, ← pow_add, ← pow_add]
  rw [toNat?, if_neg]
  rintro ⟨-, -, hsafe, -⟩
  have hlarge : 2 ^ 53 ≤ (ofNat n).units / unitsPerOne :=
    (Nat.le_div_iff_mul_le unitsPerOne_pos).mpr hunits
  exact absurd (hlarge.trans hsafe) (by decide)

/-- A safe natural number is one double, but for zero, which is two. -/
theorem eq_ofNat_of_toNat? {x : Double} {n : Nat} (h : x.toNat? = some n) :
    x = ofNat n ∨ (n = 0 ∧ x = negativeZero) := by
  simp only [toNat?] at h
  split at h
  case isFalse => cases h
  case isTrue hc =>
    obtain ⟨hfinite, hmod, -, hnegative⟩ := hc
    cases h
    have hlt : x.word < infinityWord := by simpa [isFinite] using hfinite
    have hword : wordOfUnits (x.units / unitsPerOne * unitsPerOne) = x.word := by
      rw [Nat.div_mul_cancel (Nat.dvd_of_mod_eq_zero hmod), wordOfUnits, units,
        nearestWord_unitsOfWord hlt.le]
    cases hs : x.isNegative with
    | false =>
      left
      rw [ofNat, hword, ← hs, ofWord_word]
    | true =>
      right
      have hzero := hnegative hs
      refine ⟨hzero, ?_⟩
      rw [hzero] at hword
      rw [← ofWord_word x, hs, ← hword]
      decide

/-- The number that a double is, of any size. -/
def Denotes (x : Double) (n : Nat) : Prop :=
  x.isFinite ∧ x.units = n * unitsPerOne ∧ (x.isNegative → n = 0)

theorem toNat?_eq_some_iff {x : Double} {n : Nat} : x.toNat? = some n ↔ x.Denotes n ∧ n ≤ maxSafe := by
  simp only [toNat?, Denotes]
  constructor
  · intro h
    split at h
    case isFalse => cases h
    case isTrue hwhole =>
      cases h
      obtain ⟨hfinite, hmod, hsafe, hsign⟩ := hwhole
      exact ⟨⟨hfinite, (Nat.div_mul_cancel (Nat.dvd_of_mod_eq_zero hmod)).symm, hsign⟩, hsafe⟩
  · rintro ⟨⟨hfinite, hunits, hsign⟩, hsafe⟩
    have hquotient : x.units / unitsPerOne = n := by rw [hunits, Nat.mul_div_cancel n unitsPerOne_pos]
    have hmod : x.units % unitsPerOne = 0 := by rw [hunits, Nat.mul_mod_left]
    rw [hquotient, if_pos ⟨hfinite, hmod, hsafe, hsign⟩]

theorem denotes_ofNat {n : Nat} (h : n ≤ maxSafe) : (ofNat n).Denotes n :=
  (toNat?_eq_some_iff.mp (toNat?_ofNat_of_safe h)).1

theorem le_maxSafe_of_toNat? {x : Double} {n : Nat} (h : x.toNat? = some n) : n ≤ maxSafe :=
  (toNat?_eq_some_iff.mp h).2

end Double

end StackMachine
