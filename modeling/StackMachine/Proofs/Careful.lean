import StackMachine.Proofs.Failure
import StackMachine.Text.Numeral
import Mathlib.Tactic

/-!
Careful computations. The operations of this library count in numbers without a bound and cannot be caught between
two changes. A careful computation counts in machine words, cuts slices out of arrays, and says of everything that
could go wrong on the way what it was, so that it can be proved that nothing does.
-/

set_option autoImplicit false

namespace StackMachine

/-- What a careful computation ends in if it has no answer. -/
inductive Setback where
  /-- A check failed, and the fault says which. -/
  | refused (fault : Fault)
  /-- A check failed although something had been changed already. -/
  | tooLate (fault : Fault)
  /-- A number left its machine type, or a slice the bytes that it is cut from. -/
  | outOfRange
  /-- A place was reached that nothing should lead to. -/
  | unforeseen
  deriving DecidableEq, Repr

def Timely {α : Type} (result : Except Setback α) : Prop :=
  ∀ setback, result = .error setback → ∃ fault, setback = .refused fault

theorem timely_mapError {α : Type} (result : Except Fault α) : Timely (result.mapError .refused) := by
  intro setback h
  rcases result with fault | a
  · cases h
    exact ⟨fault, rfl⟩
  · cases h

abbrev Careful (τ : Type) := ExceptT Setback (StateM τ)

namespace Careful

variable {τ α β : Type} {s t : τ}

def ensure (p : Prop) [Decidable p] : Careful τ Unit := if p then pure () else throw .outOfRange

def word (n : Nat) : Careful τ Nat := do
  ensure (n < Text.wordBound)
  return n

def signed (n : Int) : Careful τ Int := do
  ensure (-(2 ^ 63) ≤ n ∧ n < 2 ^ 63)
  return n

/-- A slice from one index up to another, of something of the given size. -/
def cut (start stop size : Nat) : Careful τ Unit := ensure (start ≤ stop ∧ stop ≤ size)

theorem bind_of_ok {w : Careful τ α} {a : α} (h : w s = (.ok a, t)) (f : α → Careful τ β) : (w >>= f) s = f a t := by
  rw [bind_apply, h]

theorem ensure_apply {p : Prop} [Decidable p] (h : p) (s : τ) : ensure p s = (.ok (), s) := by
  rw [ensure, if_pos h]
  rfl

theorem word_apply {n : Nat} (h : n < Text.wordBound) (s : τ) : word n s = (.ok n, s) :=
  bind_of_ok (ensure_apply h s) _

theorem signed_apply {n : Int} (h : -(2 ^ 63) ≤ n ∧ n < 2 ^ 63) (s : τ) : signed n s = (.ok n, s) :=
  bind_of_ok (ensure_apply h s) _

theorem cut_apply {start stop size : Nat} (hstart : start ≤ stop) (hstop : stop ≤ size) (s : τ) :
    cut start stop size s = (.ok (), s) :=
  ensure_apply ⟨hstart, hstop⟩ s

/-- Work that leaves the state as it is, element by element. -/
theorem mapM_apply {f : α → Careful τ β} {e : α → Except Setback β} {l : List α} (h : ∀ a ∈ l, f a s = (e a, s)) :
    l.mapM f s = (l.mapM e, s) := by
  induction l with
  | nil => rfl
  | cons a l ih =>
    have hrest := ih fun b hb => h b (List.mem_cons_of_mem a hb)
    rw [List.mapM_cons, List.mapM_cons, bind_apply, h a List.mem_cons_self]
    cases e a with
    | error setback => rfl
    | ok b =>
      simp only [ok_bind, bind_apply, hrest]
      cases l.mapM e <;> rfl

theorem mapM_mapError {f : α → Except Fault β} (g : Fault → Setback) (l : List α) :
    (l.mapM fun a => (f a).mapError g) = (l.mapM f).mapError g := by
  induction l with
  | nil => rfl
  | cons a l ih =>
    rw [List.mapM_cons, List.mapM_cons, ih]
    rcases f a with fault | b
    · rfl
    · rcases l.mapM f with fault | bs <;> rfl

end Careful

end StackMachine
