import StackMachine.Proofs.Machine.History
import StackMachine.Proofs.Machine.Running

/-!
The bounds of a machine. Whatever a program, its host and the handlers of its host do, the stack keeps the capacity that
it was given and never outgrows it, the machine stays in its code, and the code stays the same. Handlers are asked
for nothing but to work on the stack by the operations of the stack. A machine that has halted is at rest: its
host may still change it, but no step or run does.
-/

set_option autoImplicit false

namespace StackMachine

variable {σ : Type} {code : Code} {limits : Limits} {m : Machine σ}

namespace Stack

variable {S : Stack → Prop} {s : Stack}

def after (s : Stack) (calls : List Call) : Stack := calls.foldl Call.apply s

theorem Stable.after (hS : Stable S) (hs : S s) (calls : List Call) : S (s.after calls) := by
  induction calls generalizing s with
  | nil => exact hs
  | cons call calls ih => exact ih (hS s call hs)

/-- Conduct of a handler that changes the stack by its operations only. -/
def WorkedByCalls (act : Conduct σ) : Prop :=
  ∀ (state : σ) (s : Stack) (memory : Memory), ∃ calls, (act state s memory).2.1 = s.after calls

theorem Stable.keptBy (hS : Stable S) {act : Conduct σ} (hact : WorkedByCalls act) : KeptBy S act := by
  intro state s memory hs
  obtain ⟨calls, hcalls⟩ := hact state s memory
  rw [hcalls]
  exact hS.after hs calls

theorem stable_capacity (capacity : Nat) : Stable (·.capacity = capacity) := by
  intro s call hs
  cases call with
  | push x =>
    rw [Call.apply, push]
    cases s.requireRoom 1 <;> exact hs
  | pushAll values =>
    rw [Call.apply, pushAll]
    cases s.requireRoom values.length <;> exact hs
  | pop =>
    rw [Call.apply, pop]
    cases s.values.back? <;> exact hs
  | popMany count =>
    rw [Call.apply, popMany]
    cases s.requireDepth count <;> exact hs
  | clear => exact hs

/-- Depths are counted up to the largest word only, which is beyond every stack that can be held. -/
theorem depth_le_of_bounded (hb : s.Bounded) (h : s.capacity < 2 ^ 64 - 1 ∨ s.depth < 2 ^ 60) :
    s.depth ≤ s.capacity := by
  have hword : maxWord = 2 ^ 64 - 1 := rfl
  simp only [Bounded, hasRoom, Nat.add_zero, decide_eq_true_eq, hword] at hb
  omega

end Stack

/-- What no operation of the stack breaks is broken by no step and no handler either. -/
theorem Reachable.stack_stable {S : Stack → Prop} (hS : Stack.Stable S) (hempty : S (.empty limits.stackCapacity))
    (h : Reachable Stack.WorkedByCalls code limits m) : S m.stack := by
  -- the bound is carried along: only on a bounded stack does a step act by the operations of the stack
  have hboth : Stack.Stable fun s => s.Bounded ∧ S s := by
    rintro s call ⟨hb, hs⟩
    exact ⟨Stack.stable_bounded s call hb, hS s call hs⟩
  refine (h.invariant (I := fun m => m.stack.Bounded ∧ S m.stack) ⟨Stack.bounded_empty _, hempty⟩ ?_ ?_).2
  · intro m hgrants hm
    refine Machine.step_keeps hboth hm.1 ?_ hm
    intro name handler hhandler
    exact hboth.keptBy (hgrants name handler hhandler)
  · intro m call _ hm
    cases call with
    | stack call => exact hboth m.stack call hm
    | _ => exact hm

namespace Machine

structure InCode (code : Code) (m : Machine σ) : Prop where
  code_eq : m.code = code
  position_le : m.position ≤ code.size

theorem InCode.step (h : m.InCode code) : m.step.machine.InCode code := by
  obtain ⟨rfl, hposition⟩ := h
  have hnext : ∀ i next, m.code.instrAt? m.position = .ok (some (i, next)) → next ≤ m.code.size := by
    intro i next hread
    obtain ⟨record, -, hold, rfl⟩ := Code.instrAt?_eq_some_iff.mp hread
    exact hold.add_length_le
  have houtcome := m.step_outcome
  generalize m.step.result = result, m.step.machine = after at houtcome
  cases houtcome with
  | committed _ hread _ hplan =>
    have hbehind := hnext _ _ hread
    refine ⟨rfl, ?_⟩
    cases (m.plan_yields _).of_ok hplan with
    | jumps htarget => exact htarget
    | _ => exact hbehind
  | called _ hread => exact ⟨rfl, hnext _ _ hread⟩
  | _ => exact ⟨rfl, hposition⟩

theorem inCode_of_reachable {P : Conduct σ → Prop} (h : Reachable P code limits m) : m.InCode code := by
  refine h.invariant ⟨rfl, Nat.zero_le _⟩ (fun _ _ hm => hm.step) ?_
  rintro m call - ⟨hcode, hposition⟩
  cases call <;> exact ⟨hcode, hposition⟩

/-- Steps and runs answer that the machine has halted and leave it as it is. -/
structure AtRest (m : Machine σ) : Prop where
  halted : m.halted = true
  step : m.step = ⟨.ok .halted, m, []⟩
  runFor : ∀ budget, m.runFor budget = ⟨.ok .halted, m, []⟩
  run : m.run = ⟨.ok .halted, m, []⟩

theorem atRest_of_halted (h : m.halted = true) : m.AtRest :=
  ⟨h, step_of_halted h, runFor_of_halted h, runFor_of_halted h _⟩

theorem halted_after (h : m.halted = true) (moves : List (Move σ)) : (m.after moves).halted = true := by
  induction moves generalizing m with
  | nil => exact h
  | cons move moves ih =>
    apply ih
    cases move with
    | step =>
      rw [Move.apply, step_of_halted h]
      exact h
    | host call => cases call <;> exact h

end Machine

/-- A machine whose handlers work the stack by its operations keeps to its capacity and its code, and is at rest once it
has halted, whatever happens later. -/
theorem reachable_within_bounds (code : Code) (limits : Limits) (m : Machine σ)
    (hreach : Reachable Stack.WorkedByCalls code limits m) :
    m.stack.capacity = limits.stackCapacity ∧
      (limits.stackCapacity < 2 ^ 64 - 1 ∨ m.stack.depth < 2 ^ 60 → m.stack.depth ≤ limits.stackCapacity) ∧
      m.position ≤ code.size ∧ m.code = code ∧
      (m.halted = true → ∀ later : List (Move σ), (m.after later).AtRest) := by
  have hcapacity := hreach.stack_stable (Stack.stable_capacity limits.stackCapacity) rfl
  have hbounded := hreach.stack_stable Stack.stable_bounded (Stack.bounded_empty _)
  obtain ⟨hcode, hposition⟩ := Machine.inCode_of_reachable hreach
  refine ⟨hcapacity, ?_, hposition, hcode, ?_⟩
  · rw [← hcapacity]
    exact Stack.depth_le_of_bounded hbounded
  · intro hhalted later
    exact Machine.atRest_of_halted (Machine.halted_after hhalted later)

def filler : Handler Nat where
  state := 0
  act state s _ := (.ok (), s.after [.push .one, .push .one, .push .one], state + 1)

def filling : Code := .ofInstrs [.capability "fill", .dup, .halt]

def filled : Machine Nat :=
  let loaded := HostCall.apply (.start filling { stackCapacity := 2 })
    (.install (CapabilityTable.empty.register "fill" filler))
  ((HostCall.stack .pop).apply (loaded.runFor 10).machine).runFor 10 |>.machine

theorem reachable_within_bounds_filled :
    filled.halted = true ∧ filled.steps = 3 ∧ filled.stack.capacity = 2 ∧ filled.stack.depth ≤ 2 ∧
      filled.position ≤ filling.size ∧ (filled.after [.host (.stack .clear), .step]).AtRest := by
  have hhalted : filled.halted = true := by decide +kernel
  have hsteps : filled.steps = 3 := by decide +kernel
  have hreach : Reachable Stack.WorkedByCalls filling { stackCapacity := 2 } filled := by
    refine .runFor (.host (.runFor (.host .start _ ?_) 10) (.stack .pop) trivial) 10
    intro name handler hhandler
    rw [CapabilityTable.find?_register] at hhandler
    split at hhandler
    · obtain rfl := Option.some.inj hhandler
      intro state s memory
      simp only [filler]
      exact ⟨_, rfl⟩
    · cases hhandler
  obtain ⟨hcapacity, hdepth, hposition, -, hrest⟩ := reachable_within_bounds _ _ filled hreach
  exact ⟨hhalted, hsteps, hcapacity, hdepth (Or.inl (by norm_num)), hposition, hrest hhalted _⟩

end StackMachine
