import StackMachine.Proofs.Machine.InPlace
import Mathlib.Tactic

/-!
Many values at once. To push a list is to push its values one by one, the last of them first, and to pop a number of
values is to pop one after the other; but a push or a pop of many values that fails leaves the stack alone. Each of the
two undoes the other. An index from zero on counts the values from the bottom, and a negative one finds the value that
a pop of that many values would end with.
-/

set_option autoImplicit false

namespace StackMachine

variable {σ : Type} {m : Machine σ} {rest : Stack} {values : List Double}

namespace Stack

variable {s : Stack}

/-- Depths that are held in memory are far from the largest machine word, where sums of depths stop. -/
theorem hasRoom_iff {count : Nat} (hdepth : s.depth < 2 ^ 60) (hcount : count < 2 ^ 60) :
    s.hasRoom count ↔ s.depth + count ≤ s.capacity := by
  have hmax : maxWord = 2 ^ 64 - 1 := rfl
  rw [hasRoom, decide_eq_true_eq]
  omega

end Stack

namespace Work

def pushEach : List Double → Work σ Unit
  | [] => pure ()
  | x :: values => do
    pushEach values
    push x

def popEach : Nat → Work σ (List Double)
  | 0 => return []
  | count + 1 => do
    let x ← pop
    let values ← popEach count
    return x :: values

theorem pushEach_apply (h : m.stack.hasRoom values.length) :
    pushEach values m = (.ok (), { m with stack := m.stack.add values }) := by
  induction values with
  | nil =>
    rw [Stack.add_nil]
    rfl
  | cons x values ih =>
    have hroom : (m.stack.add values).hasRoom 1 := Stack.hasRoom_add.mpr h
    rw [pushEach, bind_apply, ih (Stack.hasRoom_of_le h (Nat.le_succ _))]
    simp only [push_apply (m := { m with stack := m.stack.add values }) x hroom, Stack.add_add]
    rfl

theorem popEach_apply (hs : m.stack = rest.add values) :
    popEach values.length m = (.ok values, { m with stack := rest }) := by
  induction values generalizing m with
  | nil =>
    rw [Stack.add_nil] at hs
    subst hs
    rfl
  | cons x values ih =>
    have hrest := ih (m := { m with stack := rest.add values }) rfl
    rw [List.length_cons, popEach, bind_apply, pop_apply hs]
    simp only [bind_apply, hrest]
    rfl

theorem pushAll_apply_of_not_hasRoom (h : ¬ m.stack.hasRoom values.length) :
    pushAll values m = (.error (.stackOverflow m.stack.capacity), m) := by
  simp only [pushAll, stack, Stack.pushAll_eq, Stack.requireRoom, if_neg h, Except.map]

theorem popMany_apply_of_lt {count : Nat} (h : m.stack.depth < count) :
    popMany count m = (.error .stackUnderflow, m) := by
  simp only [popMany, stack, Stack.popMany, Stack.requireDepth_of_lt h, error_bind]

theorem peek_apply {index : Int} {result : Except Fault Double} (h : m.stack.peek index = result) :
    peek index m = (result, m) := by
  rw [peek, look, h]

end Work

namespace Stack

variable {s : Stack}

theorem peek_of_nonneg {index : Int} (hindex : 0 ≤ index) (hlt : index < s.depth) :
    ∃ x, s.values[index.toNat]? = some x ∧ s.peek index = .ok x := by
  have hslot : s.slot? index = some index.toNat := if_pos hindex
  have hsize : index.toNat < s.values.size := by
    rw [depth] at hlt
    omega
  have hvalue := Array.getElem?_eq_getElem hsize
  exact ⟨_, hvalue, by simp only [peek, hslot, Option.bind_eq_bind, Option.bind_some, hvalue]⟩

/-- A value that is counted from the top lies at the end of as many values as the count says. -/
theorem peek_of_neg {index : Int} (hindex : index < 0) (hlength : values.length = index.natAbs) :
    ∃ x, values.getLast? = some x ∧ (rest.add values).peek index = .ok x := by
  have hne : values.length - 1 < values.length := by omega
  have hneg : index = -((values.length - 1 : ℕ) + 1 : ℕ) := by omega
  refine ⟨values[values.length - 1], ?_, ?_⟩
  · rw [List.getLast?_eq_getElem?, List.getElem?_eq_getElem hne]
  · rw [hneg]
    exact peek_add hne

theorem peek_of_outside {index : Int} (h : ¬ (0 ≤ index ∧ index < s.depth))
    (h' : ¬ (-(s.depth : ℤ) ≤ index ∧ index < 0)) :
    s.peek index = .error (.indexOutOfRange index) := by
  by_cases hindex : 0 ≤ index
  · have hslot : s.slot? index = some index.toNat := if_pos hindex
    have hvalue : s.values[index.toNat]? = none := Array.getElem?_eq_none (by rw [depth] at h; omega)
    simp only [peek, hslot, Option.bind_eq_bind, Option.bind_some, hvalue]
  · have hslot : s.slot? index = none := by
      rw [slot?, if_neg hindex, if_neg (by omega)]
    simp only [peek, hslot, Option.bind_eq_bind, Option.bind_none]

end Stack

/-- Operations on many values of a stack that is within its capacity. -/
theorem bulk_operations_agree (m : Machine σ) (hbounded : m.stack.depth ≤ m.stack.capacity)
    (hdepth : m.stack.depth < 2 ^ 60) :
    (∀ values : List Double, values.length < 2 ^ 60 →
      if m.stack.depth + values.length ≤ m.stack.capacity then
        ∃ after, Work.pushAll values m = (.ok (), after) ∧ Work.pushEach values m = (.ok (), after) ∧
          Work.popMany values.length after = (.ok values, m)
      else Work.pushAll values m = (.error (.stackOverflow m.stack.capacity), m)) ∧
    (∀ count : Nat,
      if count ≤ m.stack.depth then
        ∃ values after, Work.popMany count m = (.ok values, after) ∧ Work.popEach count m = (.ok values, after) ∧
          Work.pushAll values after = (.ok (), m)
      else Work.popMany count m = (.error .stackUnderflow, m)) ∧
    ∀ index : Int,
      if 0 ≤ index ∧ index < m.stack.depth then
        ∃ x, m.stack.values[index.toNat]? = some x ∧ Work.peek index m = (.ok x, m)
      else if -(m.stack.depth : ℤ) ≤ index ∧ index < 0 then
        ∃ values after x, Work.popMany index.natAbs m = (.ok values, after) ∧ values.getLast? = some x ∧
          Work.peek index m = (.ok x, m)
      else Work.peek index m = (.error (.indexOutOfRange index), m) := by
  refine ⟨fun values hlength => ?_, fun count => ?_, fun index => ?_⟩
  · have hroom := Stack.hasRoom_iff hdepth hlength
    split
    case isTrue hfits =>
      rw [← hroom] at hfits
      exact ⟨_, Work.pushAll_apply values hfits, Work.pushEach_apply hfits, Work.popMany_apply rfl rfl⟩
    case isFalse hfull =>
      rw [← hroom] at hfull
      exact Work.pushAll_apply_of_not_hasRoom hfull
  · split
    case isTrue hdeep =>
      obtain ⟨rest, values, rfl, hs⟩ := Stack.exists_eq_add hdeep
      have hroom : rest.hasRoom values.length := by
        rw [hs] at hbounded hdepth
        rw [Stack.depth_add] at hbounded hdepth
        exact (Stack.hasRoom_iff (by omega) (by omega)).mpr hbounded
      refine ⟨values, { m with stack := rest }, Work.popMany_apply hs rfl, Work.popEach_apply hs, ?_⟩
      rw [Work.pushAll_apply (m := { m with stack := rest }) values hroom, ← hs]
    case isFalse hshallow => exact Work.popMany_apply_of_lt (not_le.mp hshallow)
  · split
    case isTrue hinside =>
      obtain ⟨x, hvalue, hpeek⟩ := Stack.peek_of_nonneg hinside.1 hinside.2
      exact ⟨x, hvalue, Work.peek_apply hpeek⟩
    case isFalse houtside =>
      split
      case isTrue hbelow =>
        have hdeep : index.natAbs ≤ m.stack.depth := by omega
        obtain ⟨rest, values, hlength, hs⟩ := Stack.exists_eq_add hdeep
        obtain ⟨x, hlast, hpeek⟩ : ∃ x, values.getLast? = some x ∧ m.stack.peek index = .ok x :=
          hs ▸ Stack.peek_of_neg hbelow.2 hlength
        exact ⟨values, _, x, Work.popMany_apply hs hlength, hlast, Work.peek_apply hpeek⟩
      case isFalse hbeyond => exact Work.peek_apply (Stack.peek_of_outside houtside hbeyond)

/-- A full stack of three, of which two are NaNs that differ in their bits. -/
def brimful : Machine Nat :=
  let m : Machine Nat := .start #[] { stackCapacity := 3 }
  { m with stack := m.stack.add [.one, ⟨0x7ff8000000000001⟩, ⟨0xfff0000000000001⟩] }

theorem bulk_operations_agree_brimful :
    brimful.stack.depth ≤ brimful.stack.capacity ∧ brimful.stack.depth < 2 ^ 60 ∧
      Work.pushAll [.zero] brimful = (.error (.stackOverflow 3), brimful) ∧
      Work.popMany 4 brimful = (.error .stackUnderflow, brimful) ∧
      (∃ values after, Work.popMany 2 brimful = (.ok values, after) ∧ Work.popEach 2 brimful = (.ok values, after) ∧
        Work.pushAll values after = (.ok (), brimful)) ∧
      Work.peek (-9223372036854775808) brimful = (.error (.indexOutOfRange (-9223372036854775808)), brimful) := by
  have hbounded : brimful.stack.depth ≤ brimful.stack.capacity := by decide
  have hdepth : brimful.stack.depth < 2 ^ 60 := by decide
  obtain ⟨hpush, hpop, hpeek⟩ := bulk_operations_agree brimful hbounded hdepth
  have hleast := hpeek (-9223372036854775808)
  rw [if_neg (by decide), if_neg (by decide)] at hleast
  exact ⟨hbounded, hdepth, hpush [.zero] (by decide), hpop 4, hpop 2, hleast⟩

end StackMachine
