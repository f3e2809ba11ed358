import StackMachine.Stack
import Mathlib.Tactic

/-!
The stack by its top. A stack that is deep enough is some other stack with values put on it, and every operation
on such a stack is told by what it does to these values.
-/

set_option autoImplicit false

namespace StackMachine.Stack

variable {s : Stack} {x : Double} {values : List Double} {count : Nat}

/-- The values on a stack that is no fuller than its capacity, as far as depths are counted. -/
def Bounded (s : Stack) : Prop := s.hasRoom 0

theorem depth_eq_length (s : Stack) : s.depth = s.values.toList.length := rfl

@[simp] theorem depth_add (s : Stack) (values : List Double) :
    (s.add values).depth = s.depth + values.length := by
  simp [depth_eq_length, toList_add]

@[simp] theorem capacity_add (s : Stack) (values : List Double) : (s.add values).capacity = s.capacity := rfl

@[simp] theorem add_nil (s : Stack) : s.add [] = s := by
  cases s
  simp [add]

theorem ext_values {s t : Stack} (hvalues : s.values.toList = t.values.toList)
    (hcapacity : s.capacity = t.capacity) : s = t := by
  cases s
  cases t
  simp_all [Array.toList_inj]

theorem length_topmost (h : count ≤ s.depth) : (s.topmost count).length = count := by
  rw [topmost_eq, List.length_take, List.length_reverse, Array.length_toList]
  exact min_eq_left h

/-- A stack that is deep enough, seen from the top. -/
theorem exists_eq_add (h : count ≤ s.depth) :
    ∃ rest values, values.length = count ∧ s = add rest values :=
  ⟨s.drop count, s.topmost count, length_topmost h, (add_topmost_drop s count).symm⟩

theorem drop_add (h : count ≤ values.length) : (s.add values).drop count = s.add (values.drop count) := by
  refine ext_values ?_ rfl
  rw [toList_drop, toList_add, toList_add, depth_add, List.reverse_drop]
  have hcount : s.depth + values.length - count = s.values.toList.length + (values.length - count) := by
    rw [← depth_eq_length]
    omega
  rw [hcount, List.take_length_add_append]

@[simp] theorem drop_zero (s : Stack) : s.drop 0 = s := by
  have hdrop := drop_add (s := s) (Nat.zero_le [].length)
  rwa [add_nil, List.drop_zero, add_nil] at hdrop

theorem drop_add_length (s : Stack) (values : List Double) : (s.add values).drop values.length = s := by
  rw [drop_add le_rfl, List.drop_length, add_nil]

theorem add_add (s : Stack) (values more : List Double) : (s.add values).add more = s.add (more ++ values) := by
  refine ext_values ?_ rfl
  rw [toList_add, toList_add, toList_add, List.reverse_append, List.append_assoc]

theorem add_inj {t : Stack} {more : List Double} (hlen : values.length = more.length) (h : s.add values = t.add more) :
    s = t ∧ values = more := by
  have hlist := congrArg (fun u => u.values.toList) h
  simp only [toList_add] at hlist
  obtain ⟨hvalues, hmore⟩ := List.append_inj' hlist (by simpa using hlen)
  exact ⟨ext_values hvalues (congrArg capacity h :), List.reverse_injective hmore⟩

theorem add_singleton_inj {y : Double} : s.add [x] = s.add [y] ↔ x = y := by
  constructor
  · intro h
    have hlist := (add_inj (by simp) h).2
    simpa using hlist
  · rintro rfl
    rfl

theorem topmost_add (h : count ≤ values.length) : (s.add values).topmost count = values.take count := by
  rw [topmost_eq, toList_add, List.reverse_append, List.reverse_reverse, List.take_append_of_le_length h]

theorem values_add_cons (s : Stack) (x : Double) (values : List Double) :
    (s.add (x :: values)).values = (s.add values).values.push x := by
  apply Array.toList_inj.mp
  simp [toList_add]

theorem pop_add_cons (s : Stack) (x : Double) (values : List Double) :
    (s.add (x :: values)).pop = .ok (x, s.add values) := by
  rw [pop, values_add_cons, Array.back?_push]
  simp only [Array.pop_push]
  rfl

theorem pop_of_depth_eq_zero (h : s.depth = 0) : s.pop = .error .stackUnderflow := by
  have hempty : s.values = #[] := Array.eq_empty_of_size_eq_zero h
  rw [pop, hempty]
  rfl

theorem peek_add {index : Nat} (h : index < values.length) :
    (s.add values).peek (-(index + 1 : Nat)) = .ok values[index] := by
  have hslot : (s.add values).slot? (-(index + 1 : Nat)) = some (s.depth + (values.length - (index + 1))) := by
    rw [slot?, if_neg (by omega), Int.natAbs_neg, Int.natAbs_natCast, depth_add, if_pos (by omega)]
    congr 1
    omega
  have hvalue : (s.add values).values[s.depth + (values.length - (index + 1))]? = some values[index] := by
    rw [← Array.getElem?_toList, toList_add, List.getElem?_append_right (by rw [depth_eq_length]; omega),
      depth_eq_length, Nat.add_sub_cancel_left, List.getElem?_reverse (by omega)]
    rw [List.getElem?_eq_getElem (by omega)]
    congr 2
    omega
  simp only [peek, hslot, Option.bind_eq_bind, Option.bind_some, hvalue]

@[simp] theorem peek_add_first (s : Stack) (x : Double) (values : List Double) :
    (s.add (x :: values)).peek (-1) = .ok x :=
  peek_add (Nat.succ_pos _)

@[simp] theorem peek_add_second (s : Stack) (x y : Double) (values : List Double) :
    (s.add (x :: y :: values)).peek (-2) = .ok y :=
  peek_add (Nat.succ_lt_succ (Nat.succ_pos _))

@[simp] theorem peek_add_third (s : Stack) (x y z : Double) (values : List Double) :
    (s.add (x :: y :: z :: values)).peek (-3) = .ok z :=
  peek_add (Nat.succ_lt_succ (Nat.succ_lt_succ (Nat.succ_pos _)))

theorem requireDepth_of_le (h : count ≤ s.depth) : s.requireDepth count = .ok () := if_pos h

theorem requireDepth_of_lt (h : s.depth < count) : s.requireDepth count = .error .stackUnderflow :=
  if_neg (Nat.not_le.mpr h)

theorem le_of_requireDepth {u : Unit} (h : s.requireDepth count = .ok u) : count ≤ s.depth := by
  by_contra hlt
  rw [requireDepth_of_lt (not_le.mp hlt)] at h
  cases h

theorem natAbs_le_of_peek {index : Int} (hindex : index < 0) (h : s.peek index = .ok x) : index.natAbs ≤ s.depth := by
  by_contra hdeep
  have hslot : s.slot? index = none := by
    rw [slot?, if_neg (not_le.mpr hindex), if_neg hdeep]
  simp [peek, hslot] at h

theorem eq_add_of_peek (h : s.peek (-1) = .ok x) : ∃ rest, s = add rest [x] := by
  obtain ⟨rest, values, hlen, rfl⟩ := exists_eq_add (natAbs_le_of_peek (by decide) h)
  obtain ⟨y, rfl⟩ := List.length_eq_one_iff.mp hlen
  rw [peek_add_first] at h
  exact ⟨rest, by rw [Except.ok.inj h]⟩

theorem requireRoom_eq_ok_iff {count : Nat} : s.requireRoom count = .ok () ↔ s.hasRoom count := by
  rw [requireRoom]
  split <;> simp_all

theorem hasRoom_add : (s.add values).hasRoom count ↔ s.hasRoom (values.length + count) := by
  simp [hasRoom, Nat.add_assoc]

theorem hasRoom_of_le {more : Nat} (h : s.hasRoom more) (hle : count ≤ more) : s.hasRoom count := by
  simp only [hasRoom, decide_eq_true_eq] at h ⊢
  omega

/-- What was taken off a bounded stack leaves room for as much. -/
theorem Bounded.hasRoom (h : (s.add values).Bounded) (hcount : count ≤ values.length) : s.hasRoom count := by
  simp only [Bounded, Stack.hasRoom, depth_add, capacity_add, decide_eq_true_eq] at h ⊢
  omega

theorem popMany_add (s : Stack) (values : List Double) :
    (s.add values).popMany values.length = .ok (values, s) := by
  have hdepth : values.length ≤ (s.add values).depth := by
    rw [depth_add]
    omega
  rw [popMany, requireDepth_of_le hdepth, topmost_add le_rfl, drop_add le_rfl, List.take_length,
    List.drop_length, add_nil]
  rfl

theorem pushAll_eq (s : Stack) (values : List Double) :
    s.pushAll values = (s.requireRoom values.length).map fun _ => s.add values := by
  rw [pushAll]
  cases s.requireRoom values.length <;> rfl

theorem push_eq_pushAll (s : Stack) (x : Double) : s.push x = s.pushAll [x] := by
  rw [push, pushAll]
  refine congrArg (s.requireRoom 1 >>= ·) ?_
  funext _
  refine congrArg Except.ok (ext_values ?_ rfl)
  simp [toList_add]

end StackMachine.Stack
