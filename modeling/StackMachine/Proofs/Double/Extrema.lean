import StackMachine.Instr
import StackMachine.Proofs.Double.Value
import Mathlib.Data.Option.NAry
import Mathlib.Data.Prod.Lex
import Mathlib.Order.WithBot
import Mathlib.Tactic

/-!
The lesser and the greater of two doubles. Doubles that are no NaN lie on the line of rational numbers with both
infinities, and of the two zeros, which lie on one place, the negative one comes first. In this total order `min` and
`max` are the lattice operations; a NaN, of which there is only one among their results, absorbs everything.
-/

set_option autoImplicit false

namespace StackMachine

namespace Double

variable {x y : Double}

/-- Where a double that is no NaN lies on the line of numbers. -/
def place (x : Double) : WithBot (WithTop ℚ) :=
  if x.isFinite then ((x.value : WithTop ℚ) : WithBot (WithTop ℚ)) else if x.isNegative then ⊥ else (⊤ : WithTop ℚ)

theorem eq_of_key (hkey : x.key = y.key) (hsign : x.isNegative = y.isNegative) : x = y := by
  have hword : x.word = y.word := by
    rw [key, key, hsign] at hkey
    split at hkey <;> omega
  rw [← ofWord_word x, ← ofWord_word y, hword, hsign]

theorem signedUnits_lt_iff : x.signedUnits < y.signedUnits ↔ x.key < y.key := by
  -- The signs decide which of the words, or a word and zero, are compared.
  have hmono := unitsOfWord_strictMono.lt_iff_lt (a := x.word) (b := y.word)
  have hanti := unitsOfWord_strictMono.lt_iff_lt (a := y.word) (b := x.word)
  have hx := unitsOfWord_strictMono.lt_iff_lt (a := 0) (b := x.word)
  have hy := unitsOfWord_strictMono.lt_iff_lt (a := 0) (b := y.word)
  rw [unitsOfWord_small leadingBit_pos] at hx hy
  simp only [signedUnits, key, units]
  cases x.isNegative <;> cases y.isNegative <;> simp only [Bool.false_eq_true, if_false, if_true] <;> omega

theorem value_lt_iff : x.value < y.value ↔ x.key < y.key := by
  rw [value_eq, value_eq, div_lt_div_iff_of_pos_right cast_unitsPerOne_pos, Int.cast_lt, signedUnits_lt_iff]

theorem value_eq_iff : x.value = y.value ↔ x.key = y.key := by
  rw [eq_iff_le_not_lt, eq_iff_le_not_lt, ← not_lt, ← not_lt, value_lt_iff, value_lt_iff]

end Double

@[ext] structure Number where
  double : Double
  isNumber : double.isNaN = false

namespace Number

variable {a b : Number}

theorem placed (a : Number) :
    (a.double.place = ((a.double.value : WithTop ℚ) : WithBot (WithTop ℚ)) ∧
      -(Double.infinityWord : ℤ) < a.double.key ∧ a.double.key < Double.infinityWord) ∨
    (a.double.place = ⊥ ∧ a.double.key = -(Double.infinityWord : ℤ)) ∨
    (a.double.place = (⊤ : WithTop ℚ) ∧ a.double.key = Double.infinityWord) := by
  have hword := a.isNumber
  rw [Double.isNaN, decide_eq_false_iff_not, not_lt] at hword
  by_cases hfinite : a.double.isFinite
  · refine Or.inl ⟨if_pos hfinite, ?_⟩
    rw [Double.isFinite, decide_eq_true_eq] at hfinite
    rw [Double.key]
    split <;> omega
  · rw [Double.place, if_neg hfinite, Double.key]
    rw [Double.isFinite, decide_eq_true_eq] at hfinite
    cases a.double.isNegative with
    | true => exact Or.inr (Or.inl ⟨rfl, by rw [if_pos rfl]; omega⟩)
    | false => exact Or.inr (Or.inr ⟨rfl, by rw [if_neg Bool.false_ne_true]; omega⟩)

theorem place_lt_of_key_lt (h : a.double.key < b.double.key) : a.double.place < b.double.place := by
  rcases a.placed with ⟨ha, hka⟩ | ⟨ha, hka⟩ | ⟨ha, hka⟩
  · rcases b.placed with ⟨hb, -⟩ | ⟨-, hkb⟩ | ⟨hb, -⟩
    · rw [ha, hb]
      exact_mod_cast Double.value_lt_iff.mpr h
    · omega
    · rw [ha, hb]
      exact_mod_cast WithTop.coe_lt_top _
  · rcases b.placed with ⟨hb, -⟩ | ⟨-, hkb⟩ | ⟨hb, -⟩
    · rw [ha, hb]
      exact WithBot.bot_lt_coe _
    · omega
    · rw [ha, hb]
      exact WithBot.bot_lt_coe _
  · rcases b.placed with ⟨-, hkb⟩ | ⟨-, hkb⟩ | ⟨-, hkb⟩ <;> omega

theorem place_eq_of_key_eq (h : a.double.key = b.double.key) : a.double.place = b.double.place := by
  have hpos : 0 < Double.infinityWord := by decide
  rcases a.placed with ⟨ha, hka⟩ | ⟨ha, hka⟩ | ⟨ha, hka⟩
  · rcases b.placed with ⟨hb, -⟩ | ⟨-, hkb⟩ | ⟨-, hkb⟩
    · rw [ha, hb, Double.value_eq_iff.mpr h]
    · omega
    · omega
  · rcases b.placed with ⟨-, hkb⟩ | ⟨hb, -⟩ | ⟨-, hkb⟩
    · omega
    · rw [ha, hb]
    · omega
  · rcases b.placed with ⟨-, hkb⟩ | ⟨-, hkb⟩ | ⟨hb, -⟩
    · omega
    · omega
    · rw [ha, hb]

theorem place_lt_iff : a.double.place < b.double.place ↔ a.double.key < b.double.key := by
  refine ⟨fun h => ?_, place_lt_of_key_lt⟩
  by_contra hkey
  rcases (not_lt.mp hkey).lt_or_eq with hlt | heq
  · exact lt_asymm h (place_lt_of_key_lt hlt)
  · exact h.ne (place_eq_of_key_eq heq.symm)

theorem place_eq_iff : a.double.place = b.double.place ↔ a.double.key = b.double.key := by
  rw [eq_iff_le_not_lt, eq_iff_le_not_lt, ← not_lt, ← not_lt, place_lt_iff, place_lt_iff]

/-- Numbers are ordered by their places, and the zeros, which share one, by their signs. -/
def orderKey (a : Number) : WithBot (WithTop ℚ) ×ₗ Bool := toLex (a.double.place, !a.double.isNegative)

theorem orderKey_injective : Function.Injective orderKey := by
  intro a b h
  obtain ⟨hplace, hsign⟩ := Prod.mk.inj (toLex.injective h)
  exact Number.ext (Double.eq_of_key (place_eq_iff.mp hplace) (Bool.not_inj hsign))

instance : LinearOrder Number := LinearOrder.lift' orderKey orderKey_injective

theorem le_iff : a ≤ b ↔ a.double.place < b.double.place ∨
    (a.double.place = b.double.place ∧ (b.double.isNegative → a.double.isNegative)) := by
  have hsign : (!a.double.isNegative) ≤ (!b.double.isNegative) ↔ (b.double.isNegative → a.double.isNegative) := by
    cases a.double.isNegative <;> cases b.double.isNegative <;> decide
  rw [← hsign]
  exact Prod.Lex.toLex_le_toLex

theorem le_iff_key : a ≤ b ↔ a.double.key < b.double.key ∨
    (a.double.key = b.double.key ∧ (b.double.isNegative → a.double.isNegative)) := by
  rw [le_iff, place_lt_iff, place_eq_iff]

/-- A choice by the keys, and between equal keys by the first sign alone, is the choice by the total order. -/
theorem choose_eq {α : Type} (choose : Number → Number → α) (a b : Number) :
    (if a.double.key = b.double.key then (if a.double.isNegative then choose a b else choose b a)
      else if a.double.key < b.double.key then choose a b else choose b a) =
      if a ≤ b then choose a b else choose b a := by
  by_cases hsame : a = b
  · subst hsame
    simp only [ite_self]
  rcases lt_trichotomy a.double.key b.double.key with hlt | heq | hgt
  · rw [if_neg hlt.ne, if_pos hlt, if_pos (le_iff_key.mpr (Or.inl hlt))]
  · -- Two numbers with one key are the two zeros, so the sign of either of them tells which one is first.
    have hsigns : a.double.isNegative ≠ b.double.isNegative :=
      fun hsign => hsame (Number.ext (Double.eq_of_key heq hsign))
    have hle : a ≤ b ↔ a.double.isNegative = true := by
      rw [le_iff_key]
      cases ha : a.double.isNegative <;> simp_all
    rw [if_pos heq]
    simp only [hle]
  · have hnot : ¬ a ≤ b := by
      rw [le_iff_key]
      omega
    rw [if_neg hgt.ne', if_neg hgt.not_gt, if_neg hnot]

theorem min_double (a b : Number) : a.double.min b.double = (min a b).double := by
  have hnumbers : (a.double.isNaN || b.double.isNaN) ≠ true := by simp [a.isNumber, b.isNumber]
  rw [Double.min, if_neg hnumbers, min_def, apply_ite Number.double]
  exact choose_eq (fun first _ => first.double) a b

theorem max_double (a b : Number) : a.double.max b.double = (max a b).double := by
  have hnumbers : (a.double.isNaN || b.double.isNaN) ≠ true := by simp [a.isNumber, b.isNumber]
  rw [Double.max, if_neg hnumbers, max_def, apply_ite Number.double]
  exact choose_eq (fun _ second => second.double) a b

end Number

namespace Double

def number? (x : Double) : Option Number :=
  if h : x.isNaN = false then some ⟨x, h⟩ else none

def ofNumber? : Option Number → Double
  | some a => a.double
  | none => nan

theorem number?_ofNumber? (a : Option Number) : (ofNumber? a).number? = a := by
  cases a with
  | none => rfl
  | some a => exact dif_pos a.isNumber

theorem number?_cases (x : Double) :
    (x.isNaN = true ∧ x.number? = none) ∨ ∃ a : Number, x = a.double ∧ x.number? = some a := by
  cases hx : x.isNaN with
  | true => exact Or.inl ⟨rfl, dif_neg (by simp [hx])⟩
  | false => exact Or.inr ⟨⟨x, hx⟩, rfl, dif_pos hx⟩

/-- An operation on numbers, with one NaN for whatever involves a NaN. -/
theorem eq_ofNumber? {op : Double → Double → Double} {f : Number → Number → Number}
    (hnumber : ∀ a b : Number, op a.double b.double = (f a b).double)
    (hnan : ∀ x y, (x.isNaN || y.isNaN) = true → op x y = nan) (x y : Double) :
    op x y = ofNumber? (Option.map₂ f x.number? y.number?) := by
  rcases x.number?_cases with ⟨hx, hxn⟩ | ⟨a, rfl, ha⟩
  · rw [hxn, Option.map₂_none_left, hnan x y (by rw [hx, Bool.true_or])]
    rfl
  rcases y.number?_cases with ⟨hy, hyn⟩ | ⟨b, rfl, hb⟩
  · rw [hyn, Option.map₂_none_right, hnan _ y (by rw [hy, Bool.or_true])]
    rfl
  · rw [ha, hb, Option.map₂_some_some]
    exact hnumber a b

theorem min_eq (x y : Double) : x.min y = ofNumber? (Option.map₂ (· ⊓ ·) x.number? y.number?) :=
  eq_ofNumber? Number.min_double (fun _ _ h => if_pos h) x y

theorem max_eq (x y : Double) : x.max y = ofNumber? (Option.map₂ (· ⊔ ·) x.number? y.number?) :=
  eq_ofNumber? Number.max_double (fun _ _ h => if_pos h) x y

end Double

/-- The instructions `min` and `max` are the lattice operations of the total order on numbers, and give the one NaN as
soon as an operand is a NaN. So for all patterns the order and the grouping of operands make no difference, and numbers
are absorbed. -/
theorem extrema_lattice :
    (∀ x y : Double, x.isNaN ∨ y.isNaN →
      Binary.min.eval x y = ⟨0x7ff8000000000000⟩ ∧ Binary.max.eval x y = ⟨0x7ff8000000000000⟩) ∧
    (∀ a b : Number, Binary.min.eval a.double b.double = (a ⊓ b).double ∧
      Binary.max.eval a.double b.double = (a ⊔ b).double) ∧
    (∀ a b : Number, a ≤ b ↔ a.double.place < b.double.place ∨
      (a.double.place = b.double.place ∧ (b.double.isNegative → a.double.isNegative))) ∧
    (∀ x y : Double, Binary.min.eval x y = Binary.min.eval y x ∧ Binary.max.eval x y = Binary.max.eval y x) ∧
    (∀ x y z : Double,
      Binary.min.eval (Binary.min.eval x y) z = Binary.min.eval x (Binary.min.eval y z) ∧
      Binary.max.eval (Binary.max.eval x y) z = Binary.max.eval x (Binary.max.eval y z)) ∧
    (∀ x y : Double, ¬ x.isNaN → ¬ y.isNaN →
      Binary.min.eval x x = x ∧ Binary.max.eval x x = x ∧
      Binary.min.eval x (Binary.max.eval x y) = x ∧ Binary.max.eval x (Binary.min.eval x y) = x) := by
  refine ⟨fun x y h => ?_, fun a b => ⟨a.min_double b, a.max_double b⟩, fun _ _ => Number.le_iff, fun x y => ?_,
    fun x y z => ?_, fun x y hx hy => ?_⟩
  · have hnan : (x.isNaN || y.isNaN) = true := by rwa [Bool.or_eq_true]
    exact ⟨if_pos hnan, if_pos hnan⟩
  · simp only [Binary.eval, Double.min_eq, Double.max_eq]
    exact ⟨congrArg _ (Option.map₂_comm inf_comm), congrArg _ (Option.map₂_comm sup_comm)⟩
  · simp only [Binary.eval, Double.min_eq, Double.max_eq, Double.number?_ofNumber?]
    exact ⟨congrArg _ (Option.map₂_assoc inf_assoc), congrArg _ (Option.map₂_assoc sup_assoc)⟩
  · let a : Number := ⟨x, Bool.eq_false_of_not_eq_true hx⟩
    let b : Number := ⟨y, Bool.eq_false_of_not_eq_true hy⟩
    change a.double.min a.double = a.double ∧ a.double.max a.double = a.double ∧
      a.double.min (a.double.max b.double) = a.double ∧ a.double.max (a.double.min b.double) = a.double
    simp only [Number.min_double, Number.max_double]
    exact ⟨congrArg _ (inf_idem a), congrArg _ (sup_idem a), congrArg _ inf_sup_self, congrArg _ sup_inf_self⟩

theorem extrema_lattice_zeros :
    let payload : Double := ⟨0xfff0000000000001⟩
    payload.isNaN ∧ Binary.min.eval payload .zero = ⟨0x7ff8000000000000⟩ ∧
      Binary.max.eval payload .zero = ⟨0x7ff8000000000000⟩ ∧
      ¬ Double.zero.isNaN ∧ ¬ Double.negativeZero.isNaN ∧
      Binary.min.eval .zero (Binary.max.eval .zero .negativeZero) = .zero ∧
      Binary.max.eval .zero (Binary.min.eval .zero .negativeZero) = .zero := by
  intro payload
  have hpayload : payload.isNaN := by decide
  have hzero : ¬ Double.zero.isNaN := by decide
  have hnegative : ¬ Double.negativeZero.isNaN := by decide
  obtain ⟨hnan, -, -, -, -, habsorbing⟩ := extrema_lattice
  obtain ⟨hmin, hmax⟩ := hnan payload .zero (Or.inl hpayload)
  obtain ⟨-, -, hinf, hsup⟩ := habsorbing .zero .negativeZero hzero hnegative
  exact ⟨hpayload, hmin, hmax, hzero, hnegative, hinf, hsup⟩

end StackMachine
