import StackMachine.Memory.Basic
import StackMachine.Proofs.Failure
import Mathlib.Tactic

/-!
Calls on a memory. A memory is changed by allocating, freeing and writing, and each of these is done as a whole or
refused without a trace. `Memory.Call.Outcome` lists what a call can come to, and what is said about all
sequences of calls is said case by case about the list.
-/

set_option autoImplicit false

namespace StackMachine.Memory

variable {m : Memory} {handle address length : Nat} {p : Page}

inductive Call where
  | allocate
  | free (handle : Nat)
  | write (handle address : Nat) (bytes : List UInt8)
  | writeDouble (handle address : Nat) (x : Double)
  deriving DecidableEq, Repr

namespace Call

def apply (m : Memory) : Call → Memory
  | .allocate => (m.allocate.toOption.map (·.2)).getD m
  | .free handle => m.free handle
  | .write handle address bytes => (m.write handle address bytes).toOption.getD m
  | .writeDouble handle address x => (m.writeDouble handle address x).toOption.getD m

/-- What a call answers: the handle of a new page, nothing, or why it was refused. -/
def answer (m : Memory) : Call → Except Fault (Option Nat)
  | .allocate => m.allocate.map fun made => some made.1
  | .free _ => .ok none
  | .write handle address bytes => (m.write handle address bytes).map fun _ => none
  | .writeDouble handle address x => (m.writeDouble handle address x).map fun _ => none

def bytesToWrite? : Call → Option (Nat × Nat × List UInt8)
  | .write handle address bytes => some (handle, address, bytes)
  | .writeDouble handle address x => some (handle, address, x.toBytes)
  | _ => none

end Call

def after (m : Memory) (calls : List Call) : Memory := calls.foldl Call.apply m

@[simp] theorem after_nil (m : Memory) : m.after [] = m := rfl

@[simp] theorem after_cons (m : Memory) (call : Call) (calls : List Call) :
    m.after (call :: calls) = (call.apply m).after calls := rfl

@[simp] theorem after_append (m : Memory) (calls more : List Call) :
    m.after (calls ++ more) = (m.after calls).after more :=
  List.foldl_append

theorem page?_eq_some_iff : m.page? handle = some p ↔ m.slots[handle]? = some (some p) :=
  Option.join_eq_some_iff

theorem get_of_page? (h : m.page? handle = some p) : m.get handle = .ok p := by
  rw [get, h]

theorem get_of_dead (h : m.page? handle = none) : m.get handle = .error (.pageNotFound handle) := by
  rw [get, h]

theorem requireRange_of_page? (h : m.page? handle = some p) (address length : Nat) :
    m.requireRange handle address length =
      if address + length ≤ Page.size then .ok p else .error (.pageOutOfBounds p.handle address length) := by
  rw [requireRange, get_of_page? h, ok_bind, Page.requireRange]
  by_cases hfits : address + length ≤ Page.size
  · rw [if_pos hfits, if_pos (Page.fits_iff.mpr hfits), ok_bind]
    rfl
  · rw [if_neg hfits, if_neg (mt Page.fits_iff.mp hfits), error_bind]

theorem requireRange_of_dead (h : m.page? handle = none) (address length : Nat) :
    m.requireRange handle address length = .error (.pageNotFound handle) := by
  rw [requireRange, get_of_dead h, error_bind]

theorem requireRange_eq_ok_iff :
    m.requireRange handle address length = .ok p ↔
      m.page? handle = some p ∧ address + length ≤ Page.size := by
  cases hpage : m.page? handle with
  | none =>
    rw [requireRange_of_dead hpage]
    exact iff_of_false nofun fun h => nomatch h.1
  | some q =>
    rw [requireRange_of_page? hpage]
    split
    case isTrue hfits => simp [hfits]
    case isFalse hfits => simp [hfits]

theorem allocate_eq (m : Memory) :
    m.allocate = m.requireAllocatable.map fun _ => (m.nextHandle, m.grow) := by
  rw [allocate]
  cases m.requireAllocatable <;> rfl

namespace Call

inductive Outcome (m : Memory) : Call → Except Fault (Option Nat) → Memory → Prop
  | refused {call : Call} {fault : Fault} : Outcome m call (.error fault) m
  | allocated (hroom : m.requireAllocatable = .ok ()) :
      Outcome m .allocate (.ok (some m.nextHandle)) m.grow
  | freed (handle : Nat) : Outcome m (.free handle) (.ok none) (m.free handle)
  | written {call : Call} {handle address : Nat} {bytes : List UInt8} {p : Page}
      (hcall : call.bytesToWrite? = some (handle, address, bytes)) (hpage : m.page? handle = some p)
      (hfits : address + bytes.length ≤ Page.size) :
      Outcome m call (.ok none) (m.overwrite handle address bytes)

theorem write_outcome (m : Memory) {call : Call} {handle address : Nat} {bytes : List UInt8}
    (hcall : call.bytesToWrite? = some (handle, address, bytes)) :
    Outcome m call ((m.write handle address bytes).map fun _ => none)
      ((m.write handle address bytes).toOption.getD m) := by
  rw [write_eq]
  cases hrange : m.requireRange handle address bytes.length with
  | error fault => exact .refused
  | ok p =>
    obtain ⟨hpage, hfits⟩ := requireRange_eq_ok_iff.mp hrange
    exact .written hcall hpage hfits

theorem outcome (m : Memory) (call : Call) : Outcome m call (call.answer m) (call.apply m) := by
  cases call with
  | allocate =>
    rw [answer, apply, allocate_eq]
    cases hroom : m.requireAllocatable with
    | error fault => exact .refused
    | ok => exact .allocated hroom
  | free handle => exact .freed handle
  | write handle address bytes => exact write_outcome m rfl
  | writeDouble handle address x => exact write_outcome m rfl

end Call

theorem after_keeps {I : Memory → Prop} (hcall : ∀ m (call : Call), I m → I (call.apply m)) (h : I m)
    (calls : List Call) : I (m.after calls) := by
  induction calls generalizing m with
  | nil => exact h
  | cons call calls ih => exact ih (hcall m call h)

@[simp] theorem nextHandle_grow (m : Memory) : m.grow.nextHandle = m.nextHandle + 1 := by
  simp [nextHandle, grow]

@[simp] theorem nextHandle_free (m : Memory) (handle : Nat) : (m.free handle).nextHandle = m.nextHandle := by
  rw [free]
  split <;> simp [nextHandle]

@[simp] theorem nextHandle_overwrite (m : Memory) (handle address : Nat) (bytes : List UInt8) :
    (m.overwrite handle address bytes).nextHandle = m.nextHandle := by
  simp [nextHandle, overwrite]

/-- A handle that was given out and whose page is gone. -/
def Spent (m : Memory) (handle : Nat) : Prop := handle < m.nextHandle ∧ m.page? handle = none

theorem spent_free (h : handle < m.nextHandle) : (m.free handle).Spent handle := by
  refine ⟨?_, ?_⟩
  · rwa [nextHandle_free]
  · rw [page?_free, if_pos rfl]

/-- No call brings a spent handle back: a new page gets the next handle, and writing needs a page. -/
theorem Spent.apply (h : m.Spent handle) (call : Call) : (call.apply m).Spent handle := by
  obtain ⟨hlt, hdead⟩ := h
  have houtcome := call.outcome m
  generalize call.answer m = answer, call.apply m = next at houtcome
  cases houtcome with
  | refused => exact ⟨hlt, hdead⟩
  | allocated =>
    refine ⟨?_, ?_⟩
    · rw [nextHandle_grow]
      omega
    · rw [page?_grow, if_neg hlt.ne, hdead]
  | freed other =>
    refine ⟨?_, ?_⟩
    · rwa [nextHandle_free]
    · rw [page?_free, hdead, ite_self]
  | written =>
    refine ⟨?_, ?_⟩
    · rwa [nextHandle_overwrite]
    · rw [page?_overwrite, hdead, Option.map_none, ite_self]

theorem Spent.after (h : m.Spent handle) (calls : List Call) : (m.after calls).Spent handle :=
  after_keeps (I := fun m => m.Spent handle) (fun _ call hm => hm.apply call) h calls

theorem free_of_dead (h : m.page? handle = none) : m.free handle = m := by
  rw [free, exists?, h]
  rfl

end StackMachine.Memory
