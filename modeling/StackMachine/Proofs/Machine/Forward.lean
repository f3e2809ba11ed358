import StackMachine.Proofs.Code.Scanning
import StackMachine.Proofs.Machine.Events

/-!
Code without backward jumps. If every jump that can be read in the code, at whatever offset, leads beyond that offset,
then a step that goes on leaves the machine at a greater position, which is still within the code. So what is left of
the code bounds the number of instructions that a run executes, and every run stops.
-/

set_option autoImplicit false

namespace StackMachine

variable {σ : Type} {m : Machine σ}

namespace Code

def jumpTarget? (code : Code) (offset : Nat) : Option Nat :=
  match code.instrAt? offset with
  | .ok (some (.jump _ target, _)) => some target
  | _ => none

theorem jumpTarget?_of_instrAt? {code : Code} {offset target next : Nat} {conditional : Bool}
    (h : code.instrAt? offset = .ok (some (.jump conditional target, next))) :
    code.jumpTarget? offset = some target := by
  rw [jumpTarget?, h]

/-- Every jump leads onwards, also one that is only read from the middle of a record. -/
def Forward (code : Code) : Prop := ∀ offset < code.size, ∀ target ∈ code.jumpTarget? offset, offset < target

instance (code : Code) : Decidable code.Forward := inferInstanceAs (Decidable (∀ _ < _, _))

end Code

namespace Machine

theorem lt_position_step (hforward : m.code.Forward) (hstep : m.step.result = .ok .running) :
    m.step.machine.code = m.code ∧ m.position < m.step.machine.position ∧
      m.step.machine.position ≤ m.code.size := by
  have houtcome := m.step_outcome
  rw [hstep] at houtcome
  generalize hresult : Except.ok Status.running = result, m.step.machine = after at houtcome
  cases houtcome with
  | @committed i next e _ hread _ hplan =>
    obtain ⟨hlt, hle⟩ := Code.lt_of_instrAt? hread
    refine ⟨rfl, ?_⟩
    cases (m.plan_yields i).of_ok hplan with
    | jumps htarget =>
      have honwards := hforward m.position (hlt.trans_le hle) _ (Code.jumpTarget?_of_instrAt? hread)
      exact ⟨honwards, htarget⟩
    | _ => exact ⟨hlt, hle⟩
  | called _ hread => exact ⟨rfl, Code.lt_of_instrAt? hread⟩
  | _ => cases hresult

def ahead (m : Machine σ) : Nat := m.code.size - m.position

theorem ahead_step (hforward : m.code.Forward) (hstep : m.step.result = .ok .running) :
    m.step.machine.ahead < m.ahead := by
  obtain ⟨hcode, hlt, hle⟩ := lt_position_step hforward hstep
  rw [ahead, ahead, hcode]
  omega

/-- An instruction that is announced is ahead of the machine. -/
theorem length_announcement_le (m : Machine σ) : m.announcement.toList.length ≤ min 1 m.ahead := by
  cases hannounced : m.announcement with
  | none => simp
  | some e =>
    obtain ⟨i, hfaces⟩ := exists_faces_of_announcement hannounced
    obtain ⟨-, next, hread⟩ := faces_iff.mp hfaces
    have hnext := Code.lt_of_instrAt? hread
    rw [ahead, Option.toList_some, List.length_singleton]
    omega

theorem exists_loops_of_forward (hforward : m.code.Forward) :
    ∃ count turn, m.Loops count turn ∧ count ≤ m.ahead + 1 ∧
      (Log.on .instruction turn.events).length ≤ m.ahead ∧ turn.machine.steps ≤ m.steps + m.ahead := by
  induction hahead : m.ahead using Nat.strong_induction_on generalizing m with
  | _ ahead ih =>
    have hannounced := m.length_announcement_le
    by_cases hstep : m.step.result = .ok .running
    · have hless := ahead_step hforward hstep
      have hrest : m.step.machine.code.Forward := by rwa [(lt_position_step hforward hstep).1]
      obtain ⟨count, turn, hloops, hcount, hexecuted, hsteps⟩ := ih _ (hahead ▸ hless) hrest rfl
      have hresult := m.result_logged.trans hstep
      refine ⟨count + 1, _, .goesOn hresult (by rwa [machine_logged]), by omega, ?_, ?_⟩
      · rw [Turn.andThen_of_ok hresult, Log.on_append, List.length_append, m.logged_telling.length_on_instruction]
        omega
      · rw [steps_step hstep] at hsteps
        rw [Turn.andThen_of_ok hresult]
        change turn.machine.steps ≤ m.steps + ahead
        omega
    · have hsteps := m.logged_telling.steps
      refine ⟨1, _, .stops (by rwa [result_logged]), by omega, ?_, by omega⟩
      rw [m.logged_telling.length_on_instruction]
      omega

end Machine

/-- A machine whose code has no backward jumps moves onwards with every step that does not stop it, and its run stops
after no more instructions than there are bytes ahead of it. -/
theorem forward_code_stops (m : Machine σ) (hforward : m.code.Forward) :
    (m.step.result = .ok .running →
      m.step.machine.code = m.code ∧ m.position < m.step.machine.position ∧
        m.step.machine.position ≤ m.code.size) ∧
      ∃ count turn, m.Loops count turn ∧ (turn.result = .ok .halted ∨ ∃ fault, turn.result = .error fault) ∧
        (Log.on .instruction turn.events).length ≤ m.code.size - m.position ∧
        turn.machine.steps ≤ m.steps + (m.code.size - m.position) ∧
        (m.code.size - m.position < 2 ^ 64 → m.run = turn) := by
  refine ⟨Machine.lt_position_step hforward, ?_⟩
  obtain ⟨count, turn, hloops, hcount, hexecuted, hsteps⟩ := Machine.exists_loops_of_forward hforward
  have hstopped := hloops.result_ne
  refine ⟨count, turn, hloops, ?_, hexecuted, hsteps, ?_⟩
  · rcases hresult : turn.result with fault | _ | _
    · exact Or.inr ⟨fault, rfl⟩
    · exact absurd hresult hstopped
    · exact Or.inl rfl
  · intro hshort
    rw [← hloops.runFor_eq] at hstopped ⊢
    have hbudget : count ≤ Machine.boundless := hcount.trans hshort
    exact Machine.runFor_of_le hstopped hbudget

def hopping : Code := .ofInstrs [.push .one, .jump true 28, .pushBytes (Instr.jump false 38).encode]

theorem forward_code_stops_hopping :
    let m : Machine Nat := .start hopping {}
    m.code.Forward ∧ (∃ count, m.Loops count m.run) ∧ m.run.result = .ok .halted ∧ m.run.machine.position = 38 ∧
      (Log.on .instruction m.run.events).length ≤ 38 ∧ m.run.machine.steps ≤ 38 := by
  intro m
  have hforward : m.code.Forward := by decide +kernel
  have hahead : m.code.size - m.position = 38 := by decide +kernel
  obtain ⟨-, count, turn, hloops, hresult, hexecuted, hsteps, hrun⟩ := forward_code_stops m hforward
  rw [hahead] at hexecuted hsteps hrun
  obtain rfl : m.run = turn := hrun (by norm_num)
  have hshort : m.run = m.runFor 4 := by
    have hfew : 4 ≤ 2 ^ 64 := by norm_num
    refine Machine.runFor_of_le ?_ hfew
    decide +kernel
  have hstart : m.steps + 38 = 38 := by decide +kernel
  refine ⟨hforward, ⟨count, hloops⟩, ?_, ?_, hexecuted, hstart ▸ hsteps⟩
  · rw [hshort]
    decide +kernel
  · rw [hshort]
    decide +kernel

end StackMachine
