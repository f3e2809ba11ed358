import StackMachine.Proofs.Machine.Reachable

/-!
Failed steps. A step that fails leaves the machine as it was, except for the private state of a handler that was
called; and so does the machine that works in place, where operands have been taken off the stack and bytes
read by the time of the failure. In place this rests on the stack being bounded: a push that follows
a pop cannot fail.
-/

set_option autoImplicit false

namespace StackMachine

namespace Machine

variable {σ : Type} {m : Machine σ}

def Invokes (m : Machine σ) (name : String) : Prop :=
  ∃ next, m.code.instrAt? m.position = .ok (some (.capability name, next))

/-- The machine after a failed step, as far as anyone but the handler that was called can tell. -/
structure Unchanged (before after : Machine σ) : Prop where
  code : after.code = before.code
  position : after.position = before.position
  stack : after.stack = before.stack
  memory : after.memory = before.memory
  running : before.halted = false
  halted : after.halted = before.halted
  steps : after.steps = before.steps
  /-- The same capabilities, in the same order. -/
  names : after.capabilities.map (·.names) = before.capabilities.map (·.names)
  /-- Handlers that were not called are the same. -/
  others : ∀ name, ¬ before.Invokes name → after.handler? name = before.handler? name
  /-- The handler that was called may have another private state; it does the same with it. -/
  conduct : ∀ name, (after.handler? name).map (·.act) = (before.handler? name).map (·.act)

theorem Unchanged.refl (hm : m.halted = false) : Unchanged m m where
  code := rfl
  position := rfl
  stack := rfl
  memory := rfl
  running := hm
  halted := rfl
  steps := rfl
  names := rfl
  others _ _ := rfl
  conduct _ := rfl

theorem Unchanged.withState (hm : m.halted = false) {name : String} (hname : m.Invokes name) (state : σ) :
    Unchanged m (m.withState name state) where
  code := rfl
  position := rfl
  stack := rfl
  memory := rfl
  running := hm
  halted := rfl
  steps := rfl
  names := by
    simp only [Machine.withState, Option.map_map]
    congr 1
    funext table
    exact table.names_setState name state
  others := by
    intro other hother
    have hne : other ≠ name := fun heq => hother (heq ▸ hname)
    simp only [handler?_withState, if_neg hne, Option.map_id']
  conduct := by
    intro other
    rw [handler?_withState, Option.map_map]
    congr 1
    funext handler
    simp only [Function.comp]
    split <;> rfl

theorem unchanged_of_step_error {fault : Fault} (h : m.step.result = .error fault) :
    Unchanged m m.step.machine := by
  have houtcome := m.step_outcome
  generalize m.step.machine = after at houtcome
  rw [h] at houtcome
  cases houtcome with
  | unreadable hm => exact .refl hm
  | refused hm => exact .refl hm
  | unknown hm => exact .refl hm
  | failed hm hread => exact .withState hm ⟨_, hread⟩ _

end Machine

variable {σ : Type}

/-- A step of a reachable machine that fails leaves it unchanged. If the handlers keep to the bound of the stack, a step
in place comes out as the step does, so whatever it has done by the time it fails, it leaves the machine
unchanged as well. -/
theorem step_error_unchanged (P : Conduct σ → Prop) (code : Code) (limits : Limits) (m : Machine σ)
    (hreach : Reachable P code limits m) :
    (∀ fault, m.step.result = .error fault → m.Unchanged m.step.machine) ∧
      ((∀ act, P act → Stack.KeptBy Stack.Bounded act) →
        m.stepInPlace = (m.step.result, m.step.machine) ∧
          ∀ fault after, m.stepInPlace = (.error fault, after) → m.Unchanged after) := by
  refine ⟨fun fault => Machine.unchanged_of_step_error, fun hP => ?_⟩
  have hplace := Machine.stepInPlace_eq_step (hreach.bounded hP)
  refine ⟨hplace, fun fault after hafter => ?_⟩
  obtain ⟨hfault, rfl⟩ := Prod.mk.inj (hplace.symm.trans hafter)
  exact Machine.unchanged_of_step_error hfault

/-- A handler that clears the stack, counts the call and fails. -/
def spoiler : Handler Nat where
  state := 0
  act state s _ := (.error .stackUnderflow, s.clear, state + 1)

def spoiled : Machine Nat :=
  HostCall.apply (HostCall.apply
    (.start (Instr.capability "x").encode.toArray { stackCapacity := 1 })
    (.install (CapabilityTable.empty.register "x" spoiler)))
    (.stack (.push .one))

theorem step_error_unchanged_spoiled :
    spoiled.Unchanged spoiled.step.machine ∧
      ∃ after, spoiled.stepInPlace = (.error .stackUnderflow, after) ∧ after = spoiled.step.machine ∧
        spoiled.Unchanged after := by
  have hfault : spoiled.step.result = .error .stackUnderflow := by decide +kernel
  have hkept : Stack.KeptBy Stack.Bounded spoiler.act := fun _ s _ hs => Stack.stable_bounded s .clear hs
  have hreach : Reachable (Stack.KeptBy Stack.Bounded) (Instr.capability "x").encode.toArray { stackCapacity := 1 }
      spoiled := by
    refine .host (.host .start _ ?_) _ trivial
    intro name handler hhandler
    rw [CapabilityTable.find?_register] at hhandler
    split at hhandler
    · exact Option.some.inj hhandler ▸ hkept
    · cases hhandler
  obtain ⟨hsame, hplace⟩ := step_error_unchanged _ _ _ spoiled hreach
  obtain ⟨hequal, hunchanged⟩ := hplace fun _ h => h
  rw [hfault] at hequal
  exact ⟨hsame _ hfault, _, hequal, rfl, hunchanged _ _ hequal⟩

end StackMachine
