import StackMachine.Machine.Run
import Mathlib.Tactic

/-!
The outcomes of a step. `Machine.Outcome` lists, with what was read and checked before, everything that a step can
come to; `Machine.step_outcome` says that the list is complete. Whatever is said about all steps is
said case by case about the list. `Machine.Faces` and `Machine.Performs` name the instruction that a step is
about.
-/

set_option autoImplicit false

namespace StackMachine.Machine

variable {σ : Type} {m : Machine σ} {i : Instr} {next : Nat}

theorem execute_of_error {fault : Fault} (hcall : ∀ name, i ≠ .capability name)
    (hplan : m.plan i = .error fault) : m.execute i next = ⟨.error fault, m, []⟩ := by
  cases i with
  | capability name => exact absurd rfl (hcall name)
  | _ =>
    rw [execute, hplan]
    exact nofun

theorem execute_eq_of_ok {e : Effect} (hcall : ∀ name, i ≠ .capability name) (hplan : m.plan i = .ok e) :
    m.execute i next =
      if e.halts then ⟨.ok .halted, m.commit e next, e.events m.memory ++ [.halted m.position (m.steps + 1)]⟩
      else ⟨.ok .running, m.commit e next, e.events m.memory⟩ := by
  cases i with
  | capability name => exact absurd rfl (hcall name)
  | _ =>
    rw [execute, hplan]
    exact nofun

theorem execute_of_ok {e : Effect} (hcall : ∀ name, i ≠ .capability name) (hplan : m.plan i = .ok e) :
    (m.execute i next).result = .ok (if e.halts then .halted else .running) ∧
      (m.execute i next).machine = m.commit e next := by
  rw [execute_eq_of_ok hcall hplan]
  split <;> exact ⟨rfl, rfl⟩

def returned (m : Machine σ) (name : String) (stack : Stack) (state : σ) (next : Nat) : Machine σ :=
  { m with
    capabilities := m.capabilities.map (·.setState name state)
    stack
    position := next
    steps := m.steps + 1 }

def withState (m : Machine σ) (name : String) (state : σ) : Machine σ :=
  { m with capabilities := m.capabilities.map (·.setState name state) }

inductive Outcome (m : Machine σ) : Except Fault Status → Machine σ → Prop
  | stays (hm : m.halted = true) : Outcome m (.ok .halted) m
  | ends (hm : m.halted = false) (hread : m.code.instrAt? m.position = .ok none) :
      Outcome m (.ok .halted) { m with halted := true }
  | unreadable {fault : Fault} (hm : m.halted = false) (hread : m.code.instrAt? m.position = .error fault) :
      Outcome m (.error fault) m
  | refused {i : Instr} {next : Nat} {fault : Fault} (hm : m.halted = false)
      (hread : m.code.instrAt? m.position = .ok (some (i, next))) (hcall : ∀ name, i ≠ .capability name)
      (hplan : m.plan i = .error fault) : Outcome m (.error fault) m
  | committed {i : Instr} {next : Nat} {e : Effect} (hm : m.halted = false)
      (hread : m.code.instrAt? m.position = .ok (some (i, next))) (hcall : ∀ name, i ≠ .capability name)
      (hplan : m.plan i = .ok e) :
      Outcome m (.ok (if e.halts then .halted else .running)) (m.commit e next)
  | unknown {name : String} {next : Nat} (hm : m.halted = false)
      (hread : m.code.instrAt? m.position = .ok (some (.capability name, next)))
      (hhandler : m.handler? name = none) : Outcome m (.error (.notImplemented name)) m
  | called {name : String} {next : Nat} {handler : Handler σ} {stack : Stack} {state : σ} (hm : m.halted = false)
      (hread : m.code.instrAt? m.position = .ok (some (.capability name, next)))
      (hhandler : m.handler? name = some handler)
      (hact : handler.act handler.state m.stack m.memory = (.ok (), stack, state)) :
      Outcome m (.ok .running) (m.returned name stack state next)
  | failed {name : String} {next : Nat} {handler : Handler σ} {stack : Stack} {state : σ} {fault : Fault}
      (hm : m.halted = false) (hread : m.code.instrAt? m.position = .ok (some (.capability name, next)))
      (hhandler : m.handler? name = some handler)
      (hact : handler.act handler.state m.stack m.memory = (.error fault, stack, state)) :
      Outcome m (.error fault) (m.withState name state)

theorem call_outcome (hm : m.halted = false) {name : String}
    (hread : m.code.instrAt? m.position = .ok (some (.capability name, next))) :
    Outcome m (m.call name next).result (m.call name next).machine := by
  rw [call]
  cases hhandler : m.handler? name with
  | none => exact .unknown hm hread hhandler
  | some handler =>
    rcases hact : handler.act handler.state m.stack m.memory with ⟨_ | _, stack, state⟩
    · simp only [hact]
      exact .failed hm hread hhandler hact
    · simp only [hact]
      exact .called hm hread hhandler hact

theorem execute_outcome (hm : m.halted = false) (hread : m.code.instrAt? m.position = .ok (some (i, next))) :
    Outcome m (m.execute i next).result (m.execute i next).machine := by
  by_cases hcall : ∃ name, i = .capability name
  · obtain ⟨name, rfl⟩ := hcall
    exact call_outcome hm hread
  · have hcall : ∀ name, i ≠ .capability name := fun name hi => hcall ⟨name, hi⟩
    cases hplan : m.plan i with
    | error fault =>
      rw [execute_of_error hcall hplan]
      exact .refused hm hread hcall hplan
    | ok e =>
      rw [(execute_of_ok hcall hplan).1, (execute_of_ok hcall hplan).2]
      exact .committed hm hread hcall hplan

theorem step_outcome (m : Machine σ) : Outcome m m.step.result m.step.machine := by
  rw [step]
  cases hm : m.halted with
  | true => exact .stays hm
  | false =>
    rcases hread : m.code.instrAt? m.position with fault | _ | ⟨i, next⟩
    · exact .unreadable hm hread
    · exact .ends hm hread
    · exact execute_outcome hm hread

def Faces (m : Machine σ) (i : Instr) : Prop := m.halted = false ∧ m.peekInstr = .ok (some i)

/-- The next step executes the instruction and does not fail. -/
def Performs (m : Machine σ) (i : Instr) : Prop := m.Faces i ∧ m.step.result.isOk

instance (m : Machine σ) (i : Instr) : Decidable (m.Faces i) := inferInstanceAs (Decidable (_ ∧ _))

instance (m : Machine σ) (i : Instr) : Decidable (m.Performs i) := inferInstanceAs (Decidable (_ ∧ _))

theorem faces_iff : m.Faces i ↔ m.halted = false ∧ ∃ next, m.code.instrAt? m.position = .ok (some (i, next)) := by
  refine and_congr_right fun _ => ?_
  rw [peekInstr]
  rcases m.code.instrAt? m.position with fault | _ | ⟨j, next⟩
  · exact iff_of_false nofun nofun
  · exact iff_of_false nofun nofun
  · simp [Except.map]

theorem step_eq_of_instrAt? (hm : m.halted = false) (hread : m.code.instrAt? m.position = .ok (some (i, next))) :
    m.step =
      { m.execute i next with events := .exec m.position i m.stack.depth :: (m.execute i next).events } := by
  rw [step, hm, hread]
  rfl

theorem step_of_instrAt? (hm : m.halted = false) (hread : m.code.instrAt? m.position = .ok (some (i, next))) :
    m.step.result = (m.execute i next).result ∧ m.step.machine = (m.execute i next).machine := by
  rw [step_eq_of_instrAt? hm hread]
  exact ⟨rfl, rfl⟩

theorem Faces.step_eq (h : m.Faces i) :
    ∃ next, m.step.result = (m.execute i next).result ∧ m.step.machine = (m.execute i next).machine := by
  obtain ⟨hm, next, hread⟩ := faces_iff.mp h
  exact ⟨next, step_of_instrAt? hm hread⟩

/-- A step that faces an instruction other than a call does what is planned for it. -/
theorem Faces.step_of_ok (h : m.Faces i) (hcall : ∀ name, i ≠ .capability name) {e : Effect}
    (hplan : m.plan i = .ok e) :
    ∃ next, m.step.result = .ok (if e.halts then .halted else .running) ∧ m.step.machine = m.commit e next := by
  obtain ⟨next, hresult, hmachine⟩ := h.step_eq
  rw [hresult, hmachine]
  exact ⟨next, execute_of_ok hcall hplan⟩

theorem Performs.exists_plan (h : m.Performs i) (hcall : ∀ name, i ≠ .capability name) :
    ∃ e next, m.plan i = .ok e ∧ m.step.machine = m.commit e next := by
  cases hplan : m.plan i with
  | error fault =>
    obtain ⟨hfaces, hok⟩ := h
    obtain ⟨next, hresult, -⟩ := hfaces.step_eq
    rw [hresult, execute_of_error hcall hplan] at hok
    cases hok
  | ok e =>
    obtain ⟨next, -, hmachine⟩ := h.1.step_of_ok hcall hplan
    exact ⟨e, next, rfl, hmachine⟩

end StackMachine.Machine
