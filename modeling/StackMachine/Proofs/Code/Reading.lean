import StackMachine.Code.Cursor
import StackMachine.Proofs.Failure
import Mathlib.Tactic

/-!
What reads accept. `Read.Accepts r spells` says that inside an image `r` succeeds exactly where the bytes at
the cursor are spelled as `spells` allows, that its answer is what they spell, and that it stops right behind
them. A read that does one thing after the other accepts one spelling behind the other.
-/

set_option autoImplicit false

namespace StackMachine

variable {α β : Type}

namespace Code

def Holds (code : Code) (position : Nat) (bytes : List UInt8) : Prop :=
  position ≤ code.size ∧ bytes <+: code.toList.drop position

theorem Holds.add_length_le {code : Code} {position : Nat} {bytes : List UInt8}
    (h : code.Holds position bytes) : position + bytes.length ≤ code.size := by
  obtain ⟨hp, hb⟩ := h
  have := hb.length_le
  simp only [List.length_drop, Array.length_toList] at this
  omega

theorem holds_nil {code : Code} {position : Nat} (h : position ≤ code.size) :
    code.Holds position [] :=
  ⟨h, List.nil_prefix⟩

theorem holds_append {code : Code} {position : Nat} {front back : List UInt8} :
    code.Holds position (front ++ back) ↔
      code.Holds position front ∧ code.Holds (position + front.length) back := by
  constructor
  · intro h
    have hlen := h.add_length_le
    obtain ⟨hp, rest, hrest⟩ := h
    rw [List.append_assoc] at hrest
    refine ⟨⟨hp, back ++ rest, hrest⟩, ?_, rest, ?_⟩
    · rw [List.length_append] at hlen
      omega
    · rw [← List.drop_drop, ← hrest, List.drop_left]
  · rintro ⟨⟨hp, rest, hrest⟩, -, more, hmore⟩
    refine ⟨hp, more, ?_⟩
    rw [← List.drop_drop, ← hrest, List.drop_left] at hmore
    rw [List.append_assoc, hmore, hrest]

theorem holds_singleton {code : Code} {position : Nat} {b : UInt8} :
    code.Holds position [b] ↔ code[position]? = some b := by
  rw [← Array.getElem?_toList, ← List.head?_drop]
  constructor
  · rintro ⟨-, rest, hrest⟩
    rw [← hrest]
    rfl
  · intro h
    obtain ⟨rest, hrest⟩ := List.head?_eq_some_iff.mp h
    refine ⟨?_, rest, hrest.symm⟩
    have hlen := congrArg List.length hrest
    simp only [List.length_drop, Array.length_toList, List.length_cons] at hlen
    omega

end Code

namespace Read

theorem bind_apply_eq_ok_iff {r : Read α} {f : α → Read β} {c d : Cursor} {b : β} :
    (r >>= f) c = (.ok b, d) ↔ ∃ a e, r c = (.ok a, e) ∧ f a e = (.ok b, d) := by
  rw [bind_apply]
  constructor
  · intro h
    split at h
    case h_1 a e hr => exact ⟨a, e, hr, h⟩
    case h_2 => cases h
  · rintro ⟨a, e, hr, hf⟩
    rw [hr]
    exact hf

theorem bytes_apply (count : Nat) (c : Cursor) :
    bytes count c =
      if c.position + count ≤ c.code.size then
        (.ok (c.code.extract c.position (c.position + count)).toList,
          { c with position := c.position + count })
      else (.error .unexpectedEnd, c) := by
  change (if c.position + count ≤ c.code.size then _ else _ : Read (List UInt8)) c = _
  split <;> rfl

theorem byte?_apply (c : Cursor) :
    byte? c = (.ok c.code[c.position]?,
      if c.position < c.code.size then { c with position := c.position + 1 } else c) := by
  have hget : (get : Read Cursor) c = (.ok c, c) := rfl
  rw [byte?, bind_apply, hget]
  by_cases h : c.position < c.code.size
  · simp only [Array.getElem?_eq_getElem h, if_pos h]
    rfl
  · simp only [Array.getElem?_eq_none (not_lt.mp h), if_neg h]
    rfl

/-- Inside an image, `r` reads exactly what `spells` allows, and all of it. -/
def Accepts (r : Read α) (spells : List UInt8 → α → Prop) : Prop :=
  ∀ (code : Code) (position : Nat) (a : α) (c : Cursor), position ≤ code.size →
    (r ⟨code, position⟩ = (.ok a, c) ↔
      ∃ bytes, spells bytes a ∧ code.Holds position bytes ∧ c = ⟨code, position + bytes.length⟩)

theorem accepts_pure (a : α) : Accepts (pure a) fun bytes b => bytes = [] ∧ b = a := by
  intro code position b c hp
  constructor
  · intro h
    cases h
    exact ⟨[], ⟨rfl, rfl⟩, Code.holds_nil hp, rfl⟩
  · rintro ⟨bytes, ⟨rfl, rfl⟩, -, rfl⟩
    rfl

theorem Accepts.bind {r : Read α} {f : α → Read β} {spells : List UInt8 → α → Prop}
    {next : α → List UInt8 → β → Prop} (hr : Accepts r spells) (hf : ∀ a, Accepts (f a) (next a)) :
    Accepts (r >>= f) fun bytes b =>
      ∃ front back a, bytes = front ++ back ∧ spells front a ∧ next a back b := by
  intro code position b c hp
  rw [bind_apply_eq_ok_iff]
  constructor
  · rintro ⟨a, d, hra, hfa⟩
    obtain ⟨front, hfront, hold, rfl⟩ := (hr code position a d hp).mp hra
    obtain ⟨back, hback, hold', rfl⟩ := (hf a code _ b c hold.add_length_le).mp hfa
    refine ⟨front ++ back, ⟨front, back, a, rfl, hfront, hback⟩, Code.holds_append.mpr ⟨hold, hold'⟩, ?_⟩
    rw [List.length_append, Nat.add_assoc]
  · rintro ⟨bytes, ⟨front, back, a, rfl, hfront, hback⟩, hold, rfl⟩
    obtain ⟨hold, hold'⟩ := Code.holds_append.mp hold
    refine ⟨a, _, (hr code position a _ hp).mpr ⟨front, hfront, hold, rfl⟩, ?_⟩
    refine (hf a code _ b _ hold.add_length_le).mpr ⟨back, hback, hold', ?_⟩
    rw [List.length_append, Nat.add_assoc]

theorem Accepts.congr {r : Read α} {spells other : List UInt8 → α → Prop} (hr : Accepts r spells)
    (h : ∀ bytes a, spells bytes a ↔ other bytes a) : Accepts r other := by
  have heq : spells = other := by
    funext bytes a
    exact propext (h bytes a)
  exact heq ▸ hr

theorem Accepts.map {r : Read α} {spells : List UInt8 → α → Prop} (hr : Accepts r spells)
    (f : α → β) : Accepts (r >>= fun a => pure (f a)) fun bytes b => ∃ a, spells bytes a ∧ b = f a := by
  apply (hr.bind fun a => accepts_pure (f a)).congr
  intro bytes b
  constructor
  · rintro ⟨front, _, a, rfl, ha, rfl, rfl⟩
    exact ⟨a, by simpa using ha, rfl⟩
  · rintro ⟨a, ha, rfl⟩
    exact ⟨bytes, [], a, by simp, ha, rfl, rfl⟩

theorem accepts_bytes (count : Nat) :
    Accepts (bytes count) fun bytes read => bytes = read ∧ read.length = count := by
  intro code position read c hp
  have hslice : (code.extract position (position + count)).toList =
      (code.toList.drop position).take count := by
    simp [List.extract_eq_take_drop]
  rw [bytes_apply]
  constructor
  · intro h
    split at h
    case isFalse => cases h
    case isTrue hfit =>
      cases h
      change position + count ≤ code.size at hfit
      have hlen : ((code.toList.drop position).take count).length = count := by
        simp only [List.length_take, List.length_drop, Array.length_toList]
        omega
      refine ⟨_, ⟨rfl, ?_⟩, ⟨hp, ?_⟩, ?_⟩
      · rw [hslice, hlen]
      · rw [hslice]
        exact List.take_prefix _ _
      · rw [hslice, hlen]
  · rintro ⟨bytes, ⟨rfl, rfl⟩, hold, rfl⟩
    have hread : (code.toList.drop position).take bytes.length = bytes :=
      (List.prefix_iff_eq_take.mp hold.2).symm
    rw [if_pos hold.add_length_le, hslice, hread]

theorem byte_apply (c : Cursor) :
    byte c =
      match c.code[c.position]? with
      | some b => (.ok b, { c with position := c.position + 1 })
      | none => (.error .unexpectedEnd, c) := by
  rw [byte, bind_apply, byte?_apply]
  by_cases h : c.position < c.code.size
  · simp only [Array.getElem?_eq_getElem h, if_pos h]
    rfl
  · simp only [Array.getElem?_eq_none (not_lt.mp h), if_neg h]
    rfl

theorem accepts_byte : Accepts byte fun bytes b => bytes = [b] := by
  intro code position b c hp
  rw [byte_apply]
  constructor
  · intro h
    split at h
    case h_1 read hread =>
      cases h
      exact ⟨[b], rfl, Code.holds_singleton.mpr hread, rfl⟩
    case h_2 => cases h
  · rintro ⟨bytes, rfl, hold, rfl⟩
    rw [Code.holds_singleton] at hold
    simp only [hold]
    rfl

/-- Eight bytes spell a natural number if they are those of a double that stands for it. -/
def SpellsNat (bytes : List UInt8) (n : Nat) : Prop :=
  bytes.length = 8 ∧ (Double.ofBytes bytes).toNat? = some n

def SpellsBool (bytes : List UInt8) (b : Bool) : Prop := ∃ value, bytes = [value] ∧ b = (value != 0)

def SpellsBytes (bytes body : List UInt8) : Prop :=
  ∃ size, SpellsNat size body.length ∧ bytes = size ++ body

theorem lift_error_apply {e : Except Fault α} {fault : Fault} (h : e = .error fault) (c : Cursor) :
    (liftM e : Read α) c = (.error fault, c) := by
  subst h
  rfl

theorem accepts_lift (e : Except Fault α) :
    Accepts (liftM e) fun bytes a => bytes = [] ∧ e = .ok a := by
  cases e with
  | ok x =>
    refine (accepts_pure x).congr fun bytes a => and_congr_right fun _ => ?_
    exact ⟨fun h => h ▸ rfl, fun h => (Except.ok.inj h).symm⟩
  | error fault =>
    intro code position a c _
    constructor
    · intro h
      cases h
    · rintro ⟨bytes, ⟨-, h⟩, -⟩
      cases h

theorem accepts_double : Accepts double fun bytes x => bytes = x.toBytes := by
  apply ((accepts_bytes 8).map Double.ofBytes).congr
  intro bytes x
  constructor
  · rintro ⟨read, ⟨rfl, hlen⟩, rfl⟩
    rw [Double.toBytes_ofBytes hlen]
  · rintro rfl
    exact ⟨x.toBytes, ⟨rfl, x.length_toBytes⟩, (Double.ofBytes_toBytes x).symm⟩

theorem toNatOf_eq_ok_iff {x : Double} {what : String} {n : Nat} :
    x.toNatOf what = .ok n ↔ x.toNat? = some n := by
  rw [Double.toNatOf]
  cases x.toNat? <;> simp

theorem accepts_natural : Accepts natural SpellsNat := by
  apply (accepts_double.bind fun x => accepts_lift (x.toNatOf _)).congr
  intro bytes n
  constructor
  · rintro ⟨front, back, x, rfl, rfl, rfl, hn⟩
    rw [List.append_nil]
    exact ⟨x.length_toBytes, by rw [Double.ofBytes_toBytes]; exact toNatOf_eq_ok_iff.mp hn⟩
  · rintro ⟨hlen, hn⟩
    exact ⟨bytes, [], Double.ofBytes bytes, by simp, (Double.toBytes_ofBytes hlen).symm, rfl,
      toNatOf_eq_ok_iff.mpr hn⟩

theorem accepts_bool : Accepts bool SpellsBool :=
  accepts_byte.map (· != 0)

theorem fromUTF8?_eq_some_iff {bytes : List UInt8} {text : String} :
    String.fromUTF8? ⟨bytes.toArray⟩ = some text ↔ bytes = text.toUTF8.data.toList := by
  rw [String.fromUTF8?]
  constructor
  · intro h
    split at h
    case isTrue hvalid => cases h; rfl
    case isFalse => cases h
  · rintro rfl
    have hvalid : ByteArray.IsValidUTF8 ⟨text.toUTF8.data.toList.toArray⟩ := text.isValidUTF8
    rw [dif_pos hvalid]
    rfl

theorem accepts_name : Accepts name fun bytes text => SpellsBytes bytes text.toUTF8.data.toList := by
  refine Accepts.congr (accepts_natural.bind fun count => (accepts_bytes count).bind fun body =>
    (?_ : Accepts _ fun bytes text => bytes = [] ∧ body = text.toUTF8.data.toList)) ?_
  · split
    case h_1 read hread =>
      refine (accepts_pure read).congr fun bytes text => and_congr_right fun _ => ?_
      rw [← fromUTF8?_eq_some_iff, hread, Option.some_inj, eq_comm]
    case h_2 hnone =>
      refine (accepts_lift (.error (.invalidOperand "capability name"))).congr fun bytes text =>
        and_congr_right fun _ => ?_
      rw [← fromUTF8?_eq_some_iff, hnone]
      simp
  · intro bytes text
    constructor
    · rintro ⟨size, _, count, rfl, hsize, body, _, _, rfl, ⟨rfl, rfl⟩, rfl, rfl⟩
      exact ⟨size, hsize, by simp⟩
    · rintro ⟨size, hsize, rfl⟩
      exact ⟨size, _, _, rfl, hsize, _, [], _, by simp, ⟨rfl, rfl⟩, rfl, rfl⟩

end Read

end StackMachine
