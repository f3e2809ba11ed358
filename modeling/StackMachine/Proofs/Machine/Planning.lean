import StackMachine.Proofs.Machine.InPlace
import StackMachine.Proofs.Memory.Calls

/-!
What is planned for an instruction. `Machine.Planned` says how the effects of a plan reach beyond the stack: which
of them halt the machine, move it or change its memory, and what was checked before. A plan that is refused
is refused for a reason of its own, never for one that belongs to the reading of records.
-/

set_option autoImplicit false

namespace StackMachine

variable {σ α β : Type} {F : Fault → Prop} {R : α → Prop}

/-- An answer that satisfies `R`, or a fault that satisfies `F`. -/
def Yields (R : α → Prop) (F : Fault → Prop) : Except Fault α → Prop
  | .ok a => R a
  | .error fault => F fault

abbrev Raises (F : Fault → Prop) (e : Except Fault α) : Prop := Yields (fun _ => True) F e

theorem Yields.bind {R : β → Prop} {e : Except Fault α} {f : α → Except Fault β} (he : Raises F e)
    (hf : ∀ a, e = .ok a → Yields R F (f a)) : Yields R F (e >>= f) := by
  cases e with
  | error fault => exact he
  | ok a => exact hf a rfl

theorem Yields.of_ok {e : Except Fault α} {a : α} (h : Yields R F e) (he : e = .ok a) : R a := by
  rw [he] at h
  exact h

theorem Yields.of_error {e : Except Fault α} {fault : Fault} (h : Yields R F e) (he : e = .error fault) : F fault := by
  rw [he] at h
  exact h

theorem raises_mapM {f : α → Except Fault β} (hf : ∀ a, Raises F (f a)) (l : List α) : Raises F (l.mapM f) := by
  induction l with
  | nil => exact trivial
  | cons a l ih =>
    rw [List.mapM_cons]
    exact Yields.bind (hf a) fun _ _ => Yields.bind ih fun _ _ => trivial

theorem Double.raises_toNatOf (x : Double) {what : String} (h : F (.invalidOperand what)) :
    Raises F (x.toNatOf what) := by
  rw [Double.toNatOf]
  split
  · exact trivial
  · exact h

theorem Stack.raises_requireDepth (s : Stack) (count : Nat) (h : F .stackUnderflow) :
    Raises F (s.requireDepth count) := by
  rw [requireDepth]
  split
  · exact trivial
  · exact h

theorem Stack.raises_requireRoom (s : Stack) (count : Nat) (h : F (.stackOverflow s.capacity)) :
    Raises F (s.requireRoom count) := by
  rw [requireRoom]
  split
  · exact trivial
  · exact h

theorem Stack.raises_peek (s : Stack) (index : Int) (h : F (.indexOutOfRange index)) : Raises F (s.peek index) := by
  rw [peek]
  split
  · exact trivial
  · exact h

def Fault.OfReading : Fault → Prop
  | .unknownOpcode _ | .unexpectedEnd => True
  | .invalidOperand what => what = "unsigned integer operand" ∨ what = "capability name"
  | _ => False

def Fault.OfExecution (fault : Fault) : Prop := ¬ fault.OfReading

theorem Fault.ofExecution_invalidOperand {what : String}
    (h : what ≠ "unsigned integer operand" ∧ what ≠ "capability name") : OfExecution (.invalidOperand what) :=
  not_or.mpr h

theorem Memory.raises_requireAllocatable (m : Memory) : Raises Fault.OfExecution m.requireAllocatable := by
  rw [requireAllocatable]
  split
  · split
    · exact not_false
    · exact trivial
  · exact trivial

theorem Memory.raises_requireRange (m : Memory) (handle address length : Nat) :
    Raises Fault.OfExecution (m.requireRange handle address length) := by
  cases hpage : m.page? handle with
  | none =>
    rw [requireRange_of_dead hpage]
    exact not_false
  | some p =>
    rw [requireRange_of_page? hpage]
    split
    · exact trivial
    · exact not_false

theorem Mode.raises_bytes (mode : Mode) (x : Double) : Raises Fault.OfExecution (mode.bytes x) := by
  have hvalue : Fault.OfExecution (.invalidOperand "byte value") := Fault.ofExecution_invalidOperand (by decide)
  cases mode with
  | float => exact trivial
  | byte =>
    refine Yields.bind (x.raises_toNatOf hvalue) ?_
    intro n _
    split
    · exact trivial
    · exact hvalue

namespace Machine

variable {m : Machine σ}

theorem raises_access (m : Machine σ) (mode : Mode) : Raises Fault.OfExecution (m.access mode) := by
  refine Yields.bind (m.stack.raises_requireDepth 3 not_false) fun _ _ => ?_
  refine Yields.bind (m.stack.raises_peek (-1) not_false) fun handle _ => ?_
  refine Yields.bind (handle.raises_toNatOf (Fault.ofExecution_invalidOperand (by decide))) fun _ _ => ?_
  refine Yields.bind (m.stack.raises_peek (-2) not_false) fun address _ => ?_
  refine Yields.bind (address.raises_toNatOf (Fault.ofExecution_invalidOperand (by decide))) fun _ _ => ?_
  refine Yields.bind (m.stack.raises_peek (-3) not_false) fun length _ => ?_
  refine Yields.bind (length.raises_toNatOf (Fault.ofExecution_invalidOperand (by decide))) fun n _ => ?_
  by_cases hmultiple : n % mode.width = 0
  · rw [if_neg (not_not.mpr hmultiple)]
    exact Yields.bind (m.memory.raises_requireRange _ _ _) fun _ _ => trivial
  · rw [if_pos hmultiple]
    exact Fault.ofExecution_invalidOperand (by decide)

end Machine

def Instr.StackOnly : Instr → Prop
  | .halt | .capability _ | .jump .. | .memPlz | .memCya | .memStore _ => False
  | _ => True

namespace Machine

variable {m : Machine σ}

inductive Planned (m : Machine σ) : Instr → Effect → Prop
  | halts : Planned m .halt { halts := true }
  | stackOnly {i : Instr} {pops : Nat} {pushes : List Double} (hi : i.StackOnly) : Planned m i { pops, pushes }
  | goesOn {target pops : Nat} {conditional : Bool} : Planned m (.jump conditional target) { pops }
  | jumps {target pops : Nat} {conditional : Bool} (htarget : target ≤ m.code.size) :
      Planned m (.jump conditional target) { pops, target := some target }
  | allocates (hroom : m.memory.requireAllocatable = .ok ()) :
      Planned m .memPlz { pushes := [.ofNat m.memory.nextHandle], memory := some .allocate }
  | frees {x : Double} {handle : Nat} (hpeek : m.stack.peek (-1) = .ok x) (hx : x.toNat? = some handle) :
      Planned m .memCya { pops := 1, memory := some (.free handle) }
  | writes {mode : Mode} {handle address pops : Nat} {bytes : List UInt8} {p : Page}
      (hpage : m.memory.page? handle = some p) (hfits : address + bytes.length ≤ Page.size) :
      Planned m (.memStore mode) { pops, memory := some (.write handle address bytes) }

theorem planJump_yields (m : Machine σ) (conditional : Bool) {target : Nat} (hF : F .stackUnderflow)
    (htarget : m.code.size < target → F (.invalidOperand "jump target")) :
    Yields (m.Planned (.jump conditional target)) F (m.planJump conditional target) := by
  rw [planJump]
  by_cases hbeyond : m.code.size < target
  · rw [if_pos hbeyond]
    exact htarget hbeyond
  · rw [if_neg hbeyond]
    cases conditional with
    | false => exact .jumps (not_lt.mp hbeyond)
    | true =>
      refine Yields.bind (m.stack.raises_requireDepth 1 hF) fun _ hdepth => ?_
      obtain ⟨rest, values, hlen, hs⟩ := Stack.exists_eq_add (Stack.le_of_requireDepth hdepth)
      obtain ⟨condition, rfl⟩ := List.length_eq_one_iff.mp hlen
      rw [hs, Stack.peek_add_first, ok_bind]
      cases condition.truthy with
      | false => exact .goesOn
      | true => exact .jumps (not_lt.mp hbeyond)

theorem planStore_yields (m : Machine σ) (mode : Mode) :
    Yields (m.Planned (.memStore mode)) Fault.OfExecution (m.planStore mode) := by
  refine Yields.bind (m.raises_access mode) fun a ha => ?_
  refine Yields.bind (m.stack.raises_requireDepth _ not_false) fun _ hdepth => ?_
  refine Yields.bind (raises_mapM mode.raises_bytes _) fun bytes hbytes => ?_
  obtain ⟨-, hmultiple, hrange, -⟩ := Work.access_eq_ok ha
  obtain ⟨hpage, hfits⟩ := Memory.requireRange_eq_ok_iff.mp hrange
  have hlength : bytes.flatten.length = a.length :=
    Work.length_flatten_topmost hmultiple (Stack.le_of_requireDepth hdepth) hbytes
  exact .writes hpage (by rwa [hlength])

theorem plan_yields (m : Machine σ) (i : Instr) : Yields (m.Planned i) Fault.OfExecution (m.plan i) := by
  cases i with
  | halt => exact .halts
  | capability name => exact not_false
  | capabilityCheck name =>
    rw [plan]
    cases m.capabilities with
    | none => exact not_false
    | some table => exact Yields.bind (m.stack.raises_requireRoom 1 not_false) fun _ _ => .stackOnly trivial
  | push value => exact Yields.bind (m.stack.raises_requireRoom 1 not_false) fun _ _ => .stackOnly trivial
  | pushBytes bytes => exact Yields.bind (m.stack.raises_requireRoom _ not_false) fun _ _ => .stackOnly trivial
  | pop => exact Yields.bind (m.stack.raises_requireDepth 1 not_false) fun _ _ => .stackOnly trivial
  | swap =>
    refine Yields.bind (m.stack.raises_requireDepth 2 not_false) fun _ _ => ?_
    refine Yields.bind (m.stack.raises_peek (-2) not_false) fun _ _ => ?_
    exact Yields.bind (m.stack.raises_peek (-1) not_false) fun _ _ => .stackOnly trivial
  | dup =>
    refine Yields.bind (m.stack.raises_peek (-1) not_false) fun _ _ => ?_
    exact Yields.bind (m.stack.raises_requireRoom 1 not_false) fun _ _ => .stackOnly trivial
  | dup2 =>
    refine Yields.bind (m.stack.raises_peek (-2) not_false) fun _ _ => ?_
    refine Yields.bind (m.stack.raises_peek (-1) not_false) fun _ _ => ?_
    exact Yields.bind (m.stack.raises_requireRoom 2 not_false) fun _ _ => .stackOnly trivial
  | select =>
    refine Yields.bind (m.stack.raises_requireDepth 3 not_false) fun _ _ => ?_
    refine Yields.bind (m.stack.raises_peek (-1) not_false) fun _ _ => ?_
    exact Yields.bind (m.stack.raises_peek _ not_false) fun _ _ => .stackOnly trivial
  | jump conditional target =>
    exact m.planJump_yields conditional not_false fun _ => Fault.ofExecution_invalidOperand (by decide)
  | memPlz =>
    refine Yields.bind (m.stack.raises_requireRoom 1 not_false) fun _ _ => ?_
    exact Yields.bind m.memory.raises_requireAllocatable fun _ hroom => .allocates hroom
  | memCya =>
    refine Yields.bind (m.stack.raises_peek (-1) not_false) fun x hpeek => ?_
    refine Yields.bind (x.raises_toNatOf (Fault.ofExecution_invalidOperand (by decide))) fun handle hx => ?_
    exact .frees hpeek (Read.toNatOf_eq_ok_iff.mp hx)
  | memCheck =>
    refine Yields.bind (m.stack.raises_requireDepth 1 not_false) fun _ _ => ?_
    exact Yields.bind (m.stack.raises_peek (-1) not_false) fun _ _ => .stackOnly trivial
  | memLoad mode =>
    refine Yields.bind (m.raises_access mode) fun _ _ => ?_
    exact Yields.bind (m.stack.raises_requireRoom _ not_false) fun _ _ => .stackOnly trivial
  | memStore mode => exact m.planStore_yields mode
  | unary op =>
    refine Yields.bind (m.stack.raises_requireDepth 1 not_false) fun _ _ => ?_
    exact Yields.bind (m.stack.raises_peek (-1) not_false) fun _ _ => .stackOnly trivial
  | binary op =>
    refine Yields.bind (m.stack.raises_requireDepth 2 not_false) fun _ _ => ?_
    refine Yields.bind (m.stack.raises_peek (-2) not_false) fun _ _ => ?_
    exact Yields.bind (m.stack.raises_peek (-1) not_false) fun _ _ => .stackOnly trivial
  | «over» =>
    refine Yields.bind (m.stack.raises_peek (-2) not_false) fun _ _ => ?_
    exact Yields.bind (m.stack.raises_requireRoom 1 not_false) fun _ _ => .stackOnly trivial

end Machine

end StackMachine
