import StackMachine.Code.Image
import StackMachine.Proofs.Machine.Outcome

/-!
Runs. A run with a budget takes one step after the other until the machine halts, a step fails or the budget is
spent, so a budget may be split at any place. A run without a budget comes to whatever some budget comes to, and
`Machine.Loops` is that run, by the number of its steps.
-/

set_option autoImplicit false

namespace StackMachine

variable {σ : Type} {m : Machine σ} {turn : Turn σ} {status : Status} {n : Nat}

namespace Turn

def andThen (turn : Turn σ) (more : Machine σ → Turn σ) : Turn σ :=
  match turn.result with
  | .error _ => turn
  | .ok _ => { more turn.machine with events := turn.events ++ (more turn.machine).events }

theorem andThen_of_error {fault : Fault} (h : turn.result = .error fault) (more : Machine σ → Turn σ) :
    turn.andThen more = turn := by
  rw [andThen, h]

theorem andThen_of_ok (h : turn.result = .ok status) (more : Machine σ → Turn σ) :
    turn.andThen more =
      { more turn.machine with events := turn.events ++ (more turn.machine).events } := by
  rw [andThen, h]

theorem andThen_assoc (turn : Turn σ) (more yetMore : Machine σ → Turn σ) :
    (turn.andThen more).andThen yetMore = turn.andThen fun m => (more m).andThen yetMore := by
  cases hfirst : turn.result with
  | error fault => simp only [andThen_of_error hfirst]
  | ok status =>
    simp only [andThen_of_ok hfirst]
    cases hsecond : (more turn.machine).result with
    | error fault => simp only [andThen, hsecond]
    | ok status => simp only [andThen, hsecond, List.append_assoc]

end Turn

namespace Machine

theorem step_of_halted (h : m.halted = true) : m.step = ⟨.ok .halted, m, []⟩ := by
  rw [step, if_pos h]

theorem step_of_end (hm : m.halted = false) (hread : m.code.instrAt? m.position = .ok none) :
    m.step = ⟨.ok .halted, { m with halted := true }, [.endOfCode m.position]⟩ := by
  rw [step, hm, hread]
  rfl

theorem halted_step_iff (h : m.step.result = .ok status) : m.step.machine.halted = true ↔ status = .halted := by
  have houtcome := m.step_outcome
  generalize m.step.machine = after at houtcome
  rw [h] at houtcome
  generalize hresult : Except.ok status = result at houtcome
  cases houtcome with
  | stays hm =>
    cases hresult
    exact iff_of_true hm rfl
  | ends =>
    cases hresult
    exact iff_of_true rfl rfl
  | @committed i next e =>
    cases hresult
    cases hhalts : e.halts with
    | true => exact iff_of_true hhalts rfl
    | false => exact iff_of_false (by simp [commit, hhalts]) nofun
  | called hm =>
    cases hresult
    exact iff_of_false (by simp [returned, hm]) nofun
  | _ => cases hresult

/-- A step goes on running exactly if it executes an instruction and does not halt by it. -/
theorem step_eq_running_iff :
    m.step.result = .ok .running ↔ (∃ i, m.Performs i) ∧ m.step.machine.halted = false := by
  constructor
  · intro h
    have hrunning : m.step.machine.halted = false := by
      rw [← Bool.not_eq_true, halted_step_iff h]
      exact nofun
    refine ⟨?_, hrunning⟩
    have hok : m.step.result.isOk := by rw [h]; rfl
    have houtcome := m.step_outcome
    rw [h] at houtcome
    generalize hresult : Except.ok Status.running = result, m.step.machine = after at houtcome
    cases houtcome with
    | committed hm hread => exact ⟨_, faces_iff.mpr ⟨hm, _, hread⟩, hok⟩
    | called hm hread => exact ⟨_, faces_iff.mpr ⟨hm, _, hread⟩, hok⟩
    | _ => cases hresult
  · rintro ⟨⟨i, -, hok⟩, hrunning⟩
    cases hresult : m.step.result with
    | error fault =>
      rw [hresult] at hok
      cases hok
    | ok status =>
      cases status with
      | running => rfl
      | halted =>
        rw [(halted_step_iff hresult).mpr rfl] at hrunning
        cases hrunning

theorem steps_step (h : m.step.result = .ok .running) : m.step.machine.steps = m.steps + 1 := by
  have houtcome := m.step_outcome
  rw [h] at houtcome
  generalize hresult : Except.ok Status.running = result, m.step.machine = after at houtcome
  cases houtcome with
  | committed => rfl
  | called => rfl
  | _ => cases hresult

def stepped (m : Machine σ) (n : Nat) : Machine σ := (fun m => m.step.machine)^[n] m

@[simp] theorem stepped_zero (m : Machine σ) : m.stepped 0 = m := rfl

theorem stepped_succ (m : Machine σ) (n : Nat) : m.stepped (n + 1) = m.step.machine.stepped n := rfl

theorem stepped_succ' (m : Machine σ) (n : Nat) : m.stepped (n + 1) = (m.stepped n).step.machine :=
  Function.iterate_succ_apply' _ n m

/-- A step of a run, which tells of a failure. -/
def logged (m : Machine σ) : Turn σ :=
  match m.step.result with
  | .error fault => { m.step with events := m.step.events ++ [.stepFailed m.position fault] }
  | .ok _ => m.step

@[simp] theorem result_logged (m : Machine σ) : m.logged.result = m.step.result := by
  rw [logged]
  split <;> rfl

@[simp] theorem machine_logged (m : Machine σ) : m.logged.machine = m.step.machine := by
  rw [logged]
  split <;> rfl

theorem logged_of_ok (h : m.step.result = .ok status) : m.logged = m.step := by
  rw [logged, h]

theorem runFor_of_halted (h : m.halted = true) (n : Nat) : m.runFor n = ⟨.ok .halted, m, []⟩ := by
  cases n with
  | zero => simp [runFor, runFrom, h]
  | succ n => simp [runFor, runFrom, step_of_halted h]

theorem runFor_zero (h : m.halted = false) : m.runFor 0 = ⟨.ok .running, m, []⟩ := by
  simp [runFor, runFrom, h]

theorem runFrom_eq (told : List Event) (m : Machine σ) (n : Nat) :
    m.runFrom told n = { m.runFor n with events := told.reverse ++ (m.runFor n).events } := by
  induction n generalizing m told with
  | zero => simp [runFor, runFrom]
  | succ n ih =>
    rw [runFor, runFrom, runFrom]
    rcases hstep : m.step with ⟨fault | _ | _, after, events⟩
    · simp
    · simp [ih (events.reverse ++ told), ih events.reverse]
    · simp

theorem runFor_succ (m : Machine σ) (n : Nat) : m.runFor (n + 1) = m.logged.andThen (·.runFor n) := by
  rcases hstep : m.step with ⟨fault | _ | _, after, events⟩
  · have herror : m.logged.result = .error fault := by rw [result_logged, hstep]
    rw [Turn.andThen_of_error herror]
    simp [runFor, runFrom, logged, hstep]
  · have hok : m.step.result = .ok .running := by rw [hstep]
    rw [logged_of_ok hok, Turn.andThen_of_ok hok, hstep, runFor, runFrom]
    simp [hstep, runFrom_eq events.reverse]
  · have hok : m.step.result = .ok .halted := by rw [hstep]
    have hhalted := (halted_step_iff hok).mpr rfl
    rw [logged_of_ok hok, Turn.andThen_of_ok hok, runFor_of_halted hhalted]
    simp [runFor, runFrom, hstep]

theorem runFor_add (m : Machine σ) (n k : Nat) : m.runFor (n + k) = (m.runFor n).andThen (·.runFor k) := by
  induction n generalizing m with
  | zero =>
    rw [Nat.zero_add]
    cases hm : m.halted with
    | true => simp [runFor_of_halted hm, Turn.andThen]
    | false => simp [runFor_zero hm, Turn.andThen]
  | succ n ih =>
    calc m.runFor (n + 1 + k)
      _ = m.logged.andThen (·.runFor (n + k)) := by rw [Nat.add_right_comm, runFor_succ]
      _ = m.logged.andThen fun m => (m.runFor n).andThen (·.runFor k) := by simp only [ih]
      _ = (m.runFor (n + 1)).andThen (·.runFor k) := by rw [runFor_succ, Turn.andThen_assoc]

theorem halted_runFor_iff (h : (m.runFor n).result = .ok status) :
    (m.runFor n).machine.halted = true ↔ status = .halted := by
  induction n generalizing m with
  | zero =>
    cases hm : m.halted with
    | true =>
      rw [runFor_of_halted hm] at h ⊢
      cases h
      exact iff_of_true hm rfl
    | false =>
      rw [runFor_zero hm] at h ⊢
      cases h
      exact iff_of_false (by simp [hm]) nofun
  | succ n ih =>
    rw [runFor_succ] at h ⊢
    cases hstep : m.logged.result with
    | error fault =>
      rw [Turn.andThen_of_error hstep, hstep] at h
      cases h
    | ok first =>
      rw [Turn.andThen_of_ok hstep] at h ⊢
      exact ih h

/-- Nothing comes after a turn that failed or left a halted machine. -/
theorem andThen_runFor_of_stopped (hstop : turn.result ≠ .ok .running)
    (hhalted : turn.result = .ok .halted → turn.machine.halted = true) (n : Nat) :
    turn.andThen (·.runFor n) = turn := by
  rcases hresult : turn.result with fault | _ | _
  · exact Turn.andThen_of_error hresult _
  · exact absurd hresult hstop
  · rw [Turn.andThen_of_ok hresult, runFor_of_halted (hhalted hresult), List.append_nil, ← hresult]

theorem runFor_succ_of_stopped (h : m.step.result ≠ .ok .running) (n : Nat) : m.runFor (n + 1) = m.logged := by
  rw [runFor_succ]
  refine andThen_runFor_of_stopped (by rwa [result_logged]) ?_ n
  rw [result_logged, machine_logged]
  intro hresult
  exact (halted_step_iff hresult).mpr rfl

theorem runFor_of_le {k : Nat} (h : (m.runFor n).result ≠ .ok .running) (hle : n ≤ k) : m.runFor k = m.runFor n := by
  obtain ⟨more, rfl⟩ := Nat.exists_eq_add_of_le hle
  rw [runFor_add]
  exact andThen_runFor_of_stopped h (fun hresult => (halted_runFor_iff hresult).mpr rfl) more

/-- A run spends its whole budget exactly if every step of it executes an instruction that does not halt. -/
theorem runFor_eq_running_iff :
    (m.runFor n).result = .ok .running ↔
      m.halted = false ∧
        ∀ k < n, (∃ i, (m.stepped k).Performs i) ∧ (m.stepped (k + 1)).halted = false := by
  induction n generalizing m with
  | zero =>
    cases hm : m.halted with
    | true => simp [runFor_of_halted hm]
    | false => simp [runFor_zero hm]
  | succ n ih =>
    rw [Nat.forall_lt_succ_left]
    simp only [stepped_zero, stepped_succ, ← step_eq_running_iff]
    rw [runFor_succ]
    constructor
    · intro h
      have hlogged := m.result_logged
      cases hstep : m.step.result with
      | error fault =>
        rw [hstep] at hlogged
        rw [Turn.andThen_of_error hlogged, hlogged] at h
        cases h
      | ok status =>
        rw [hstep] at hlogged
        rw [Turn.andThen_of_ok hlogged, machine_logged] at h
        obtain ⟨hhalted, hrest⟩ := ih.mp h
        have hrunning : status = .running := by
          cases status with
          | running => rfl
          | halted =>
            rw [(halted_step_iff hstep).mpr rfl] at hhalted
            cases hhalted
        subst hrunning
        obtain ⟨⟨i, ⟨hm, -⟩, -⟩, -⟩ := step_eq_running_iff.mp hstep
        exact ⟨hm, rfl, hrest⟩
    · rintro ⟨hm, hstep, hrest⟩
      have hhalted := (step_eq_running_iff.mp hstep).2
      rw [← result_logged] at hstep
      rw [Turn.andThen_of_ok hstep, machine_logged]
      exact ih.mpr ⟨hhalted, hrest⟩

/-- A budget of steps that all succeed is spent by taking them, or by halting before. -/
theorem runFor_of_isOk (h : ∀ k < n, (m.stepped k).step.result.isOk) :
    (m.runFor n).result = .ok (if (m.stepped n).halted then .halted else .running) ∧
      (m.runFor n).machine = m.stepped n := by
  induction n generalizing m with
  | zero => exact ⟨rfl, rfl⟩
  | succ n ih =>
    rw [Nat.forall_lt_succ_left] at h
    obtain ⟨hfirst, hrest⟩ := h
    rw [stepped_zero, ← result_logged] at hfirst
    cases hstep : m.logged.result with
    | error fault =>
      rw [hstep] at hfirst
      cases hfirst
    | ok status =>
      rw [runFor_succ, Turn.andThen_of_ok hstep, machine_logged]
      exact ih hrest

theorem steps_stepped (h : ∀ k < n, (m.stepped k).step.result = .ok .running) :
    (m.stepped n).steps = m.steps + n := by
  induction n with
  | zero => rfl
  | succ n ih =>
    rw [stepped_succ', steps_step (h n n.lt_succ_self), ih fun k hk => h k (Nat.lt_succ_of_lt hk), Nat.add_assoc]

/-- What the machine comes to if it steps until it halts or a step fails, by the number of steps. -/
inductive Loops : Machine σ → Nat → Turn σ → Prop
  | stops {m : Machine σ} (h : m.logged.result ≠ .ok .running) : Loops m 1 m.logged
  | goesOn {m : Machine σ} {count : Nat} {turn : Turn σ} (h : m.logged.result = .ok .running)
      (hrest : Loops m.logged.machine count turn) : Loops m (count + 1) (m.logged.andThen fun _ => turn)

theorem Loops.result_ne {count : Nat} (h : m.Loops count turn) : turn.result ≠ .ok .running := by
  induction h with
  | stops h => exact h
  | goesOn h _ ih => rwa [Turn.andThen_of_ok h]

theorem Loops.runFor_eq {count : Nat} (h : m.Loops count turn) : m.runFor count = turn := by
  induction h with
  | @stops m h =>
    rw [result_logged] at h
    exact runFor_succ_of_stopped h 0
  | goesOn h _ ih => rw [runFor_succ, Turn.andThen_of_ok h, Turn.andThen_of_ok h, ih]

theorem exists_loops_of_running (hm : m.halted = false) (h : (m.runFor n).result ≠ .ok .running) :
    ∃ count ≤ n, m.Loops count (m.runFor n) := by
  induction n generalizing m with
  | zero =>
    rw [runFor_zero hm] at h
    exact absurd rfl h
  | succ n ih =>
    by_cases hstep : m.logged.result = .ok .running
    · rw [runFor_succ, Turn.andThen_of_ok hstep] at h
      have hrunning : m.logged.machine.halted = false := by
        rw [result_logged] at hstep
        rw [machine_logged]
        exact (step_eq_running_iff.mp hstep).2
      obtain ⟨count, hcount, hrest⟩ := ih hrunning h
      refine ⟨count + 1, Nat.succ_le_succ hcount, ?_⟩
      have hloops := Loops.goesOn hstep hrest
      rwa [Turn.andThen_of_ok hstep, ← Turn.andThen_of_ok hstep (·.runFor n), ← runFor_succ] at hloops
    · have hloops := Loops.stops hstep
      rw [result_logged] at hstep
      rw [runFor_succ_of_stopped hstep]
      exact ⟨1, Nat.succ_le_succ n.zero_le, hloops⟩

/-- A run that stops within a budget takes no more steps without one, but for the step that finds a halted
machine. -/
theorem exists_loops (h : (m.runFor n).result ≠ .ok .running) : ∃ count ≤ max 1 n, m.Loops count (m.runFor n) := by
  cases hm : m.halted with
  | false =>
    obtain ⟨count, hcount, hloops⟩ := exists_loops_of_running hm h
    exact ⟨count, le_max_of_le_right hcount, hloops⟩
  | true =>
    refine ⟨1, le_max_left 1 n, ?_⟩
    have hlogged : m.logged = m.runFor n := by
      rw [runFor_of_halted hm, logged, step_of_halted hm]
    rw [← hlogged]
    refine .stops ?_
    rwa [hlogged]

end Machine

/-- Budgets compose, a budget is spent exactly if as many instructions are executed without halting, and a run of fewer
than `2 ^ 64` steps comes to what some budget comes to. -/
theorem runs_compose (m : Machine σ) :
    (∀ n k, m.runFor (n + k) = (m.runFor n).andThen (·.runFor k)) ∧
      (∀ n, (m.runFor n).result = .ok .running ↔
        m.halted = false ∧
          ∀ k < n, (∃ i, (m.stepped k).Performs i) ∧ (m.stepped (k + 1)).halted = false) ∧
      (∀ n, (m.runFor n).result = .ok .running →
        (m.runFor n).machine = m.stepped n ∧ (m.runFor n).machine.steps = m.steps + n) ∧
      ∀ turn, (m.run = turn ∧ ∃ count < 2 ^ 64, m.Loops count turn) ↔
        turn.result ≠ .ok .running ∧ ∃ n < 2 ^ 64, m.runFor n = turn := by
  refine ⟨m.runFor_add, fun _ => Machine.runFor_eq_running_iff, ?_, ?_⟩
  · intro n hrunning
    obtain ⟨-, hall⟩ := Machine.runFor_eq_running_iff.mp hrunning
    have hsteps : ∀ k < n, (m.stepped k).step.result = .ok .running := by
      intro k hk
      rw [Machine.step_eq_running_iff, ← Machine.stepped_succ']
      exact hall k hk
    have hmachine : (m.runFor n).machine = m.stepped n := by
      refine (Machine.runFor_of_isOk fun k hk => ?_).2
      rw [hsteps k hk]
      rfl
    exact ⟨hmachine, hmachine ▸ Machine.steps_stepped hsteps⟩
  · intro turn
    constructor
    · rintro ⟨-, count, hcount, hloops⟩
      exact ⟨hloops.result_ne, count, hcount, hloops.runFor_eq⟩
    · rintro ⟨hstopped, n, hn, rfl⟩
      obtain ⟨count, hcount, hloops⟩ := Machine.exists_loops hstopped
      refine ⟨Machine.runFor_of_le hstopped (show n ≤ Machine.boundless from hn.le), count, ?_, hloops⟩
      exact lt_of_le_of_lt hcount (max_lt (by norm_num) hn)

def countdown : Code := .ofInstrs [.push (.ofNat 2), .push .one, .binary .sub, .dup, .jump true 9, .halt]

theorem runs_compose_countdown :
    let m : Machine Nat := .start countdown {}
    (m.runFor 6).result = .ok .running ∧ (m.runFor 6).machine.steps = 6 ∧
      m.runFor 20 = (m.runFor 6).andThen (·.runFor 14) ∧ m.run = m.runFor 20 ∧
      (m.runFor 20).result = .ok .halted ∧ (m.runFor 20).machine.steps = 10 := by
  intro m
  have hrunning : (m.runFor 6).result = .ok .running := by decide +kernel
  have hhalted : (m.runFor 20).result = .ok .halted := by decide +kernel
  have hcount : (m.runFor 20).machine.steps = 10 := by decide +kernel
  obtain ⟨hsplit, -, hspent, hrun⟩ := runs_compose m
  have hstopped : (m.runFor 20).result ≠ .ok .running := by
    rw [hhalted]
    exact nofun
  obtain ⟨hsame, -⟩ := (hrun (m.runFor 20)).mpr ⟨hstopped, 20, by norm_num, rfl⟩
  exact ⟨hrunning, (hspent 6 hrunning).2, hsplit 6 14, hsame, hhalted, hcount⟩

end StackMachine
