import StackMachine.Double.Literal
import StackMachine.Proofs.Double.Decimal
import Mathlib

/-!
The text of a double is read back bit for bit, whatever its layout. A NaN, whose text shows neither sign nor
payload, is read back as the one NaN that literals denote.
-/

set_option autoImplicit false

namespace StackMachine

namespace Text

theorem digitsValue_eq (digits : List Char) : digitsValue digits = Nat.ofDigitChars 10 digits 0 := rfl

@[simp] theorem digitsValue_toDigits (n : Nat) : digitsValue (Nat.toDigits 10 n) = n :=
  Nat.ofDigitChars_ten_toDigits

theorem digitsValue_append_zeros (digits : List Char) (k : Nat) :
    digitsValue (digits ++ List.replicate k '0') = digitsValue digits * 10 ^ k := by
  simp only [digitsValue_eq, Nat.ofDigitChars_append, Nat.ofDigitChars_replicate_zero, Nat.mul_comm]

theorem digitsValue_zeros_append (digits : List Char) (k : Nat) :
    digitsValue (List.replicate k '0' ++ digits) = digitsValue digits := by
  simp only [digitsValue_eq, Nat.ofDigitChars_append, Nat.ofDigitChars_replicate_zero, Nat.mul_zero]

end Text

namespace Double
open Text

theorem dropWhile_eq_self {t : List Char} (ht : t.takeWhile Char.isDigit = []) :
    t.dropWhile Char.isDigit = t := by
  have := List.takeWhile_append_dropWhile (p := Char.isDigit) (l := t)
  rwa [ht, List.nil_append] at this

/-- A literal with a point, read by its parts. -/
theorem decimal?_point {w f : List Char} (t : List Char) (hw : ∀ c ∈ w, c.isDigit)
    (hf : ∀ c ∈ f, c.isDigit) (ht : t.takeWhile Char.isDigit = []) (hne : w ++ f ≠ []) :
    decimal? (w ++ '.' :: (f ++ t)) =
      (exponent? t).map fun e => ⟨digitsValue (w ++ f), e - f.length⟩ := by
  have hpoint : ('.' :: (f ++ t)).takeWhile Char.isDigit = [] := rfl
  simp only [decimal?, List.takeWhile_append_of_pos hw, List.dropWhile_append_of_pos hw, hpoint,
    dropWhile_eq_self hpoint, splitFraction, List.takeWhile_append_of_pos hf,
    List.dropWhile_append_of_pos hf, ht, dropWhile_eq_self ht, List.append_nil, if_neg hne]

theorem decimal?_whole {w : List Char} (t : List Char) (hw : ∀ c ∈ w, c.isDigit)
    (ht : t.takeWhile Char.isDigit = []) (hs : splitFraction t = ([], t)) (hne : w ≠ []) :
    decimal? (w ++ t) = (exponent? t).map fun e => ⟨digitsValue w, e⟩ := by
  simp only [decimal?, List.takeWhile_append_of_pos hw, List.dropWhile_append_of_pos hw, ht,
    dropWhile_eq_self ht, hs, List.append_nil, if_neg hne, List.length_nil, Nat.cast_zero, sub_zero]

theorem isDigit_toDigits {n : Nat} {c : Char} (h : c ∈ Nat.toDigits 10 n) : c.isDigit :=
  Nat.isDigit_of_mem_toDigits (by decide) (by decide) h

theorem splitSign_of_head {c : Char} {rest : List Char} (hc : c.isDigit ∨ c = '.') :
    splitSign (c :: rest) = (false, c :: rest) := by
  have hminus : c ≠ '-' := by rintro rfl; exact absurd hc (by decide)
  have hplus : c ≠ '+' := by rintro rfl; exact absurd hc (by decide)
  simp [splitSign, hminus, hplus]

theorem exponent?_toDigits (e : Int) :
    exponent? ('e' :: ((if e < 0 then ['-'] else []) ++ Nat.toDigits 10 e.natAbs)) = some e := by
  have hdigits : (Nat.toDigits 10 e.natAbs).all Char.isDigit = true := by
    rw [List.all_eq_true]
    exact fun c hc => isDigit_toDigits hc
  by_cases hneg : e < 0
  · simp only [exponent?, if_pos hneg, List.singleton_append, splitSign]
    rw [if_pos ⟨Or.inl trivial, Nat.toDigits_ne_nil, hdigits⟩, digitsValue_toDigits, if_pos trivial]
    congr 1
    omega
  · obtain ⟨c, rest, hc⟩ :=
      List.exists_cons_of_ne_nil (Nat.toDigits_ne_nil (n := e.natAbs) (b := 10))
    have hsplit : splitSign (Nat.toDigits 10 e.natAbs) = (false, Nat.toDigits 10 e.natAbs) := by
      rw [hc]
      exact splitSign_of_head (Or.inl (isDigit_toDigits (by rw [hc]; exact List.mem_cons_self)))
    simp only [exponent?, if_neg hneg, List.nil_append, hsplit]
    rw [if_pos ⟨Or.inl trivial, Nat.toDigits_ne_nil, hdigits⟩, digitsValue_toDigits, if_neg (by decide)]
    congr 1
    omega

def significant (digits : List Char) (point : Int) : Decimal :=
  ⟨digitsValue digits, point - digits.length⟩

/-- Written out, a number is read with its significant digits and perhaps zeros behind them. -/
theorem decimal?_plainText {digits : List Char} (hd : ∀ c ∈ digits, c.isDigit) (hne : digits ≠ [])
    (point : Int) :
    ∃ k : Nat, decimal? (plainText digits point) =
      some ⟨digitsValue digits * 10 ^ k, (significant digits point).exponent - k⟩ := by
  have hzero : ∀ n, ∀ c ∈ List.replicate n '0', c.isDigit := by
    intro n c hc
    rw [List.eq_of_mem_replicate hc]
    rfl
  have hnil : exponent? [] = some 0 := rfl
  have hpos : 0 < digits.length := List.length_pos_iff.mpr hne
  by_cases hp : point ≤ 0
  · have htext : plainText digits point =
        List.replicate 1 '0' ++ '.' :: (List.replicate (-point).toNat '0' ++ digits ++ []) := by
      have hpoint : point.toNat = 0 := by omega
      simp [plainText, hpoint, hne]
    refine ⟨0, ?_⟩
    rw [htext, decimal?_point [] (hzero 1)
      (fun c hc => (List.mem_append.mp hc).elim (hzero _ c) (hd c)) rfl (by simp), hnil,
      ← List.append_assoc, ← List.replicate_add, digitsValue_zeros_append]
    simp [significant]
    omega
  by_cases hl : digits.length ≤ point.toNat
  · have htext : plainText digits point =
        digits ++ List.replicate (point.toNat - digits.length) '0' ++
          '.' :: (List.replicate 1 '0' ++ []) := by
      have htake : (digits.rightpad point.toNat '0').take point.toNat =
          digits ++ List.replicate (point.toNat - digits.length) '0' := by
        rw [List.rightpad, List.take_of_length_le]
        simp
        omega
      have hneg : (-point).toNat = 0 := by omega
      have hwhole : digits ++ List.replicate (point.toNat - digits.length) '0' ≠ [] := by simp [hne]
      simp only [plainText, htake, hneg, if_neg hwhole, List.drop_of_length_le hl]
      simp
    refine ⟨point.toNat - digits.length + 1, ?_⟩
    rw [htext, decimal?_point [] (fun c hc => (List.mem_append.mp hc).elim (hd c) (hzero _ c))
      (hzero 1) rfl (by simp), hnil, List.append_assoc, ← List.replicate_add, digitsValue_append_zeros]
    simp [significant]
    omega
  · have htext : plainText digits point =
        digits.take point.toNat ++ '.' :: (digits.drop point.toNat ++ []) := by
      have htake : (digits.rightpad point.toNat '0').take point.toNat = digits.take point.toNat := by
        rw [List.rightpad, List.take_append_of_le_length (by omega)]
      have hneg : (-point).toNat = 0 := by omega
      have hwhole : digits.take point.toNat ≠ [] := by simp [hne]; omega
      have hfraction : digits.drop point.toNat ≠ [] := by simp; omega
      simp only [plainText, htake, hneg, List.replicate_zero, List.nil_append, if_neg hwhole,
        if_neg hfraction, List.append_nil]
    refine ⟨0, ?_⟩
    rw [htext, decimal?_point [] (fun c hc => hd c (List.mem_of_mem_take hc))
      (fun c hc => hd c (List.mem_of_mem_drop hc)) rfl (by simp [hne]), hnil, List.take_append_drop]
    simp [significant]
    omega

theorem decimal?_scientificText {digits : List Char} (hd : ∀ c ∈ digits, c.isDigit) (hne : digits ≠ [])
    (e : Int) : decimal? (scientificText digits e) = some (significant digits (e + 1)) := by
  obtain ⟨c, rest, rfl⟩ := List.exists_cons_of_ne_nil hne
  have hc : ∀ a ∈ [c], a.isDigit := fun a ha => hd a (by simp_all)
  have hrest : ∀ a ∈ rest, a.isDigit := fun a ha => hd a (List.mem_cons_of_mem c ha)
  by_cases hr : rest = []
  · have htext : scientificText (c :: rest) e =
        [c] ++ 'e' :: ((if e < 0 then ['-'] else []) ++ Nat.toDigits 10 e.natAbs) := by
      simp [scientificText, hr]
    rw [htext, decimal?_whole _ hc rfl rfl (by simp), exponent?_toDigits, hr]
    simp [significant]
  · have htext : scientificText (c :: rest) e =
        [c] ++ '.' :: (rest ++ 'e' :: ((if e < 0 then ['-'] else []) ++ Nat.toDigits 10 e.natAbs)) := by
      simp [scientificText, hr]
    rw [htext, decimal?_point _ hc hrest rfl (by simp), exponent?_toDigits]
    simp [significant]

def significantDigits (d : Decimal) : List Char :=
  ((Nat.toDigits 10 d.digits).reverse.dropWhile (· == '0')).reverse

theorem toDigits_eq_significantDigits (d : Decimal) :
    ∃ z, Nat.toDigits 10 d.digits = significantDigits d ++ List.replicate z '0' := by
  refine ⟨((Nat.toDigits 10 d.digits).reverse.takeWhile (· == '0')).length, ?_⟩
  have hzeros : (Nat.toDigits 10 d.digits).reverse.takeWhile (· == '0') =
      List.replicate ((Nat.toDigits 10 d.digits).reverse.takeWhile (· == '0')).length '0' := by
    rw [List.eq_replicate_iff]
    refine ⟨rfl, fun c hc => ?_⟩
    simpa using List.mem_takeWhile_imp hc
  have hsplit := congrArg List.reverse
    (List.takeWhile_append_dropWhile (p := (· == '0')) (l := (Nat.toDigits 10 d.digits).reverse))
  rw [List.reverse_append, List.reverse_reverse, hzeros, List.reverse_replicate] at hsplit
  exact hsplit.symm

theorem isDigit_significantDigits {d : Decimal} {c : Char} (h : c ∈ significantDigits d) : c.isDigit := by
  obtain ⟨z, hz⟩ := toDigits_eq_significantDigits d
  exact isDigit_toDigits (by rw [hz]; exact List.mem_append_left _ h)

theorem significantDigits_ne_nil {d : Decimal} (hd : d.digits ≠ 0) : significantDigits d ≠ [] := by
  intro hnil
  obtain ⟨z, hz⟩ := toDigits_eq_significantDigits d
  have hvalue := congrArg digitsValue hz
  rw [hnil, digitsValue_toDigits, digitsValue_append_zeros] at hvalue
  exact hd (by simpa [digitsValue] using hvalue)

def point (d : Decimal) : Int := (Nat.toDigits 10 d.digits).length + d.exponent

theorem toWord_significant (d : Decimal) :
    (significant (significantDigits d) (point d)).toWord = d.toWord := by
  obtain ⟨z, hz⟩ := toDigits_eq_significantDigits d
  have hvalue : d.digits = digitsValue (significantDigits d) * 10 ^ z := by
    rw [← digitsValue_append_zeros, ← hz, digitsValue_toDigits]
  have hexp : point d - (significantDigits d).length = d.exponent + z := by
    rw [point, hz]
    simp
    omega
  have hscale := Decimal.toWord_append_zeros (digitsValue (significantDigits d)) z (d.exponent + z)
  rw [← hvalue, add_sub_cancel_right] at hscale
  rw [significant, hexp]
  exact hscale.symm

theorem decimalText_eq (d : Decimal) :
    decimalText d =
      if layout.least ≤ point d - 1 ∧ point d - 1 ≤ layout.greatest then
        plainText (significantDigits d) (point d)
      else scientificText (significantDigits d) (point d - 1) := rfl

/-- The text of a decimal is read as a decimal of the same magnitude. -/
theorem decimal?_decimalText {d : Decimal} (hd : d.digits ≠ 0) :
    ∃ r, decimal? (decimalText d) = some r ∧ r.toWord = d.toWord := by
  have hdigits : ∀ c ∈ significantDigits d, c.isDigit := fun c hc => isDigit_significantDigits hc
  have hne := significantDigits_ne_nil hd
  have hword := toWord_significant d
  rw [decimalText_eq]
  split
  · obtain ⟨k, hk⟩ := decimal?_plainText hdigits hne (point d)
    exact ⟨_, hk, (Decimal.toWord_append_zeros _ k _).trans hword⟩
  · have hread := decimal?_scientificText hdigits hne (point d - 1)
    rw [sub_add_cancel] at hread
    exact ⟨_, hread, hword⟩

theorem head_of_decimal? {chars : List Char} {d : Decimal} (h : decimal? chars = some d) :
    ∃ c rest, chars = c :: rest ∧ (c.isDigit ∨ c = '.') := by
  cases chars with
  | nil => cases h
  | cons c rest =>
    refine ⟨c, rest, rfl, ?_⟩
    by_contra hc
    rw [not_or] at hc
    have htake : (c :: rest).takeWhile Char.isDigit = [] := List.takeWhile_cons_of_neg hc.1
    have hsplit : splitFraction (c :: rest) = ([], c :: rest) := by simp [splitFraction, hc.2]
    simp [decimal?, htake, dropWhile_eq_self htake, hsplit] at h

theorem toLower_eq_self {c : Char} (hc : c.isDigit ∨ c = '.') : c.toLower = c := by
  have hlt : c.toNat < 65 := by
    rcases hc with hc | rfl
    · have := (Char.isDigit_iff_toNat.mp hc).2
      have : '9'.toNat = 57 := rfl
      omega
    · decide
  have hval : ¬ c.val ≥ 'A'.val := by
    rw [ge_iff_le, UInt32.le_iff_toNat_le]
    exact Nat.not_le.mpr hlt
  rw [Char.toLower, dif_neg (fun h => hval h.1)]

theorem namedWord?_of_head {c : Char} {rest : List Char} (hc : c.isDigit ∨ c = '.') :
    namedWord? (c :: rest) = none := by
  have name_ne : ∀ (a : Char) (name : List Char), ¬ (a.isDigit ∨ a = '.') →
      String.ofList ((c :: rest).map Char.toLower) ≠ String.ofList (a :: name) := by
    intro a name ha heq
    have hhead := List.head_eq_of_cons_eq (String.ofList_injective heq)
    rw [toLower_eq_self hc] at hhead
    exact ha (hhead ▸ hc)
  simp only [namedWord?]
  split
  case h_1 heq => exact absurd heq (name_ne 'i' ['n', 'f'] (by decide))
  case h_2 heq => exact absurd heq (name_ne 'i' ['n', 'f', 'i', 'n', 'i', 't', 'y'] (by decide))
  case h_3 heq => exact absurd heq (name_ne 'n' ['a', 'n'] (by decide))
  case h_4 => rfl

theorem ofText?_decimal (negative : Bool) {chars : List Char} {d : Decimal} (h : decimal? chars = some d) :
    ofText? (String.ofList ((if negative then ['-'] else []) ++ chars)) =
      some (ofWord negative d.toWord) := by
  have hsplit : splitSign ((if negative then ['-'] else []) ++ chars) = (negative, chars) := by
    cases negative with
    | true => rfl
    | false =>
      obtain ⟨c, rest, rfl, hc⟩ := head_of_decimal? h
      exact splitSign_of_head hc
  have hname : namedWord? chars = none := by
    obtain ⟨c, rest, rfl, hc⟩ := head_of_decimal? h
    exact namedWord?_of_head hc
  simp only [ofText?, String.toList_ofList, hsplit, hname, h, Option.map_some]

theorem digits_ofWord_ne_zero {w : Nat} (hz : w ≠ 0) (hw : w < infinityWord) :
    (Decimal.ofWord w).digits ≠ 0 := by
  intro hd
  have := Decimal.toWord_ofWord hz hw
  rw [Decimal.toWord_eq, if_pos (Or.inl hd)] at this
  exact hz this.symm

/-- What is written is read back, bit for bit. -/
theorem ofText?_toText {x : Double} (hx : x.isNaN = false) : ofText? x.toText = some x := by
  have hsign := ofWord_word x
  simp only [toText, hx, Bool.false_eq_true, if_false]
  by_cases hz : x.isZero
  · have hword : x.word = 0 := by simpa [isZero] using hz
    have hzero : Decimal.toWord ⟨0, -1⟩ = 0 := rfl
    rw [if_pos hz, ofText?_decimal x.isNegative (d := ⟨0, -1⟩) rfl, hzero, ← hword, hsign]
  by_cases hf : x.isFinite
  · have hword : x.word ≠ 0 := by simpa [isZero] using hz
    have hlt : x.word < infinityWord := by simpa [isFinite] using hf
    obtain ⟨r, hread, hr⟩ := decimal?_decimalText (digits_ofWord_ne_zero hword hlt)
    rw [if_neg hz, if_pos hf, ofText?_decimal x.isNegative hread, hr, Decimal.toWord_ofWord hword hlt, hsign]
  · have hword : x.word = infinityWord := by
      simp only [isNaN, isFinite, decide_eq_true_eq, decide_eq_false_iff_not] at hx hf
      omega
    have hinf : ∀ negative, ofText? (String.ofList ((if negative then ['-'] else []) ++ ['i', 'n', 'f'])) =
        some (ofWord negative infinityWord) := by decide +kernel
    rw [if_neg hz, if_neg hf, hinf, ← hword, hsign]

theorem ofText?_toText_nan {x : Double} (hx : x.isNaN) : ofText? x.toText = some nan := by
  have hnan : ofText? "NaN" = some nan := by decide +kernel
  rw [toText, if_pos hx, hnan]

theorem ofText?_repr {n : Nat} (h : n ≤ maxSafe) : ofText? n.repr = some (ofNat n) := by
  have hread : decimal? (Nat.toDigits 10 n) = some ⟨n, 0⟩ := by
    have hwhole := decimal?_whole [] (fun c hc => isDigit_toDigits (n := n) hc) rfl rfl Nat.toDigits_ne_nil
    simpa [exponent?] using hwhole
  have hword : Decimal.toWord ⟨n, 0⟩ = wordOfUnits (n * unitsPerOne) := by
    by_cases hn : n = 0
    · subst hn
      rw [Decimal.toWord_eq, if_pos (Or.inl rfl), Nat.zero_mul]
      rfl
    have hcount : Decimal.digitCount n ≤ 16 := by
      rw [Decimal.digitCount_le_iff (by decide)]
      exact h.trans_lt (by decide)
    rw [Decimal.toWord_eq, if_neg (by simp only; omega), if_neg (by simp only; omega), wordOfUnits]
    simp
  have htext := ofText?_decimal false hread
  rw [hword] at htext
  exact htext

theorem namedWord?_cases {chars : List Char} {w : Nat} (h : namedWord? chars = some w) :
    w = infinityWord ∨ (w = nan.word ∧ chars.map Char.toLower = ['n', 'a', 'n']) := by
  simp only [namedWord?] at h
  split at h
  case h_1 | h_2 =>
    cases h
    exact .inl rfl
  case h_3 heq =>
    cases h
    exact .inr ⟨rfl, String.ofList_injective heq⟩
  case h_4 => cases h

/-- A literal that denotes a NaN is the name of it, behind a sign or not. -/
theorem nan_of_ofText? {text : String} {x : Double} (h : ofText? text = some x) (hx : x.isNaN) :
    x = ofWord (splitSign text.toList).1 nan.word ∧
      (splitSign text.toList).2.map Char.toLower = ['n', 'a', 'n'] := by
  have hnumber : ∀ negative w, w ≤ infinityWord → (ofWord negative w).isNaN = false := by
    intro negative w hw
    rw [isNaN, word_ofWord negative (hw.trans_lt (by decide)), decide_eq_false_iff_not]
    exact not_lt.mpr hw
  simp only [ofText?] at h
  split at h
  case h_1 w hname =>
    cases h
    rcases namedWord?_cases hname with rfl | ⟨rfl, hlower⟩
    · rw [hnumber _ _ le_rfl] at hx
      cases hx
    · exact ⟨rfl, hlower⟩
  case h_2 =>
    obtain ⟨d, -, rfl⟩ := Option.map_eq_some_iff.mp h
    rw [hnumber _ _ d.toWord_le_infinityWord] at hx
    cases hx

theorem eq_minus_of_toLower {c : Char} (h : c.toLower = '-') : c = '-' := by
  rw [Char.toLower] at h
  split at h
  case isTrue hupper =>
    have hval : c.val + 32 = 45 := congrArg Char.val h
    have hback : c.val = 45 - 32 := by rw [← hval, UInt32.add_sub_cancel]
    rw [hback] at hupper
    exact absurd hupper (by decide)
  case isFalse => exact h

/-- The name of a NaN behind a minus, in any mix of cases. -/
def IsSignedNaN (text : String) : Prop := text.toList.map Char.toLower = ['-', 'n', 'a', 'n']

instance (text : String) : Decidable (IsSignedNaN text) :=
  inferInstanceAs (Decidable (_ = _))

theorem ofText?_signedNaN {text : String} (h : IsSignedNaN text) :
    ofText? text = some ⟨0xfff8000000000000⟩ := by
  obtain ⟨c, rest, htext, hc, hrest⟩ := List.map_eq_cons_iff.mp h
  have hname : namedWord? rest = some nan.word := by
    rw [namedWord?, hrest]
    rfl
  have hvalue : ofWord true nan.word = ⟨0xfff8000000000000⟩ := by decide +kernel
  simp only [ofText?, htext, eq_minus_of_toLower hc, splitSign, hname, hvalue]

theorem eq_nan_of_ofText? {text : String} {x : Double} (h : ofText? text = some x) (hx : x.isNaN)
    (hsigned : ¬ IsSignedNaN text) : x = nan := by
  have hplus : ofWord false nan.word = nan := by decide +kernel
  obtain ⟨hvalue, hlower⟩ := nan_of_ofText? h hx
  rw [IsSignedNaN] at hsigned
  rw [splitSign.eq_def] at hvalue hlower
  split at hvalue
  case h_1 rest htext =>
    rw [htext] at hsigned hlower
    exact absurd (congrArg ('-' :: ·) hlower) hsigned
  case h_2 => exact hvalue.trans hplus
  case h_3 => exact hvalue.trans hplus

theorem isAlphanum_of_isDigit {c : Char} (h : c.isDigit) : c.isAlphanum := by
  simp [Char.isAlphanum, h]

theorem chars_decimalText (d : Decimal) :
    ∀ c ∈ decimalText d, c.isAlphanum ∨ c = '.' ∨ c = '-' := by
  have hdigit : ∀ c ∈ significantDigits d, c.isAlphanum :=
    fun c hc => isAlphanum_of_isDigit (isDigit_significantDigits hc)
  have hzero : ∀ n, ∀ c ∈ List.replicate n '0', c.isAlphanum := by
    intro n c hc
    rw [List.eq_of_mem_replicate hc]
    rfl
  have hnumber : ∀ n, ∀ c ∈ Nat.toDigits 10 n, c.isAlphanum :=
    fun n c hc => isAlphanum_of_isDigit (isDigit_toDigits hc)
  have hwhole : ∀ n, ∀ c ∈ ((significantDigits d).rightpad n '0').take n, c.isAlphanum := by
    intro n c hc
    rcases List.mem_append.mp (List.mem_of_mem_take hc) with hc | hc
    · exact hdigit c hc
    · exact hzero _ c hc
  intro c hc
  rw [decimalText_eq] at hc
  split at hc
  · simp only [plainText, List.mem_append, List.mem_cons] at hc
    rcases hc with hc | rfl | hc
    · left
      split at hc
      · exact hzero 1 c hc
      · exact hwhole _ c hc
    · simp
    · left
      split at hc
      · exact hzero 1 c hc
      · rcases List.mem_append.mp hc with hc | hc
        · exact hzero _ c hc
        · exact hdigit c (List.mem_of_mem_drop hc)
  · simp only [scientificText, List.mem_append, List.mem_cons] at hc
    rcases hc with ((hc | hc) | rfl | hc) | hc
    · exact Or.inl (hdigit c (List.mem_of_mem_take hc))
    · split at hc
      · cases hc
      · rcases List.mem_cons.mp hc with rfl | hc
        · simp
        · exact Or.inl (hdigit c (List.mem_of_mem_drop hc))
    · exact Or.inl rfl
    · split at hc <;> simp_all
    · exact Or.inl (hnumber _ c hc)

/-- A text of a double is made of letters, digits, points and minus signs. -/
theorem chars_toText (x : Double) : ∀ c ∈ x.toText.toList, c.isAlphanum ∨ c = '.' ∨ c = '-' := by
  have hnan : "NaN".toList.all Char.isAlphanum := by decide
  have hinfinity : ['i', 'n', 'f'].all Char.isAlphanum := by decide
  have hzero : ∀ c ∈ ['0', '.', '0'], c = '0' ∨ c = '.' := by simp
  intro c hc
  rw [toText] at hc
  split at hc
  · exact .inl (List.all_eq_true.mp hnan c hc)
  · rw [String.toList_ofList, List.mem_append] at hc
    rcases hc with hc | hc
    · split at hc <;> simp_all
    · split at hc
      · rcases hzero c hc with rfl | rfl <;> decide
      · split at hc
        · exact chars_decimalText _ c hc
        · exact .inl (List.all_eq_true.mp hinfinity c hc)

end Double

end StackMachine
