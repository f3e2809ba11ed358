import StackMachine.Proofs.Machine.InPlace
import StackMachine.Proofs.Memory.Calls

/-!
The states of a machine. A host starts a machine, steps and runs it, and in between calls the operations of its
stack and its memory and gives it capabilities. `Reachable` holds of the machines that come about in
this way. The behaviour of the handlers is left open but for a predicate that they are asked to satisfy.
-/

set_option autoImplicit false

namespace StackMachine

variable {σ α β : Type}

/-- What a handler does with its private state, the stack and the memory. -/
abbrev Conduct (σ : Type) := σ → Stack → Memory → Except Fault Unit × Stack × σ

namespace Stack

inductive Call where
  | push (x : Double)
  | pushAll (values : List Double)
  | pop
  | popMany (count : Nat)
  | clear
  deriving DecidableEq, Repr

def Call.apply (s : Stack) : Call → Stack
  | .push x => (s.push x).toOption.getD s
  | .pushAll values => (s.pushAll values).toOption.getD s
  | .pop => (s.pop.toOption.map (·.2)).getD s
  | .popMany count => ((s.popMany count).toOption.map (·.2)).getD s
  | .clear => s.clear

/-- A property of stacks that no operation breaks. -/
def Stable (S : Stack → Prop) : Prop := ∀ (s : Stack) (c : Call), S s → S (c.apply s)

def KeptBy (S : Stack → Prop) (act : Conduct σ) : Prop :=
  ∀ (state : σ) (s : Stack) (memory : Memory), S s → S (act state s memory).2.1

end Stack

inductive HostCall (σ : Type) where
  | stack (call : Stack.Call)
  | memory (call : Memory.Call)
  | install (table : CapabilityTable σ)
  | register (name : String) (handler : Handler σ)

namespace HostCall

def apply (m : Machine σ) : HostCall σ → Machine σ
  | .stack call => { m with stack := call.apply m.stack }
  | .memory call => { m with memory := call.apply m.memory }
  | .install table => { m with capabilities := some table }
  | .register name handler => { m with capabilities := m.capabilities.map (·.register name handler) }

/-- Whether every handler that a host hands over satisfies `P`. -/
def Grants (P : Conduct σ → Prop) : HostCall σ → Prop
  | .install table => ∀ name handler, table.find? name = some handler → P handler.act
  | .register _ handler => P handler.act
  | _ => True

end HostCall

inductive Reachable (P : Conduct σ → Prop) (code : Code) (limits : Limits) : Machine σ → Prop
  | start : Reachable P code limits (.start code limits)
  | step {m : Machine σ} (h : Reachable P code limits m) : Reachable P code limits m.step.machine
  | runFor {m : Machine σ} (h : Reachable P code limits m) (budget : Nat) :
      Reachable P code limits (m.runFor budget).machine
  | run {m : Machine σ} (h : Reachable P code limits m) : Reachable P code limits m.run.machine
  | host {m : Machine σ} (h : Reachable P code limits m) (call : HostCall σ) (hcall : call.Grants P) :
      Reachable P code limits (call.apply m)

variable {P : Conduct σ → Prop} {code : Code} {limits : Limits} {m : Machine σ}

/-- What every step keeps, a run keeps. -/
theorem Machine.runFrom_keeps {I : Machine σ → Prop} (hstep : ∀ m, I m → I m.step.machine) (told : List Event)
    (budget : Nat) (h : I m) : I (m.runFrom told budget).machine := by
  induction budget generalizing m told with
  | zero => exact h
  | succ budget ih =>
    have hnext := hstep m h
    rw [runFrom]
    split
    case h_1 m' events hturn =>
      rw [hturn] at hnext
      exact ih _ hnext
    case h_2 m' events hturn =>
      rw [hturn] at hnext
      exact hnext
    case h_3 fault m' events hturn =>
      rw [hturn] at hnext
      exact hnext

theorem CapabilityTable.find?_setState (t : CapabilityTable σ) (name other : String) (state : σ) :
    (t.setState name state).find? other =
      (t.find? other).map fun handler => if other = name then { handler with state } else handler := by
  have hname : ((fun entry => entry.1 == other) ∘ fun entry : String × Handler σ =>
      if entry.1 = name then (entry.1, { entry.2 with state }) else entry) = fun entry => entry.1 == other := by
    funext entry
    simp only [Function.comp]
    split <;> rfl
  simp only [find?, setState, List.find?_map, Option.map_map, hname]
  cases hfound : t.entries.find? (·.1 == other) with
  | none => rfl
  | some entry =>
    have hentry : entry.1 = other := by simpa using List.find?_some hfound
    simp only [Option.map_some, Function.comp, hentry]
    split <;> rfl

theorem CapabilityTable.names_setState (t : CapabilityTable σ) (name : String) (state : σ) :
    (t.setState name state).names = t.names := by
  simp only [names, setState, List.map_map]
  apply List.map_congr_left
  intro entry _
  simp only [Function.comp]
  split <;> rfl

def Machine.Grants (P : Conduct σ → Prop) (m : Machine σ) : Prop :=
  ∀ name handler, m.handler? name = some handler → P handler.act

theorem Machine.handler?_eq {table : CapabilityTable σ} (h : m.capabilities = some table) (name : String) :
    m.handler? name = table.find? name := by
  rw [handler?, h]
  rfl

theorem Machine.handler?_withState (m : Machine σ) (name other : String) (state : σ) :
    (m.withState name state).handler? other =
      (m.handler? other).map fun handler => if other = name then { handler with state } else handler := by
  cases htable : m.capabilities with
  | none => simp [withState, handler?, htable]
  | some table =>
    have hafter : (m.withState name state).capabilities = some (table.setState name state) := by
      rw [withState, htable]
      rfl
    rw [handler?_eq hafter, handler?_eq htable]
    exact table.find?_setState name other state

/-- A call changes the private state of a handler and not what the handler does. -/
theorem Machine.Grants.withState (h : m.Grants P) (name : String) (state : σ) :
    (m.withState name state).Grants P := by
  intro other handler hhandler
  rw [handler?_withState, Option.map_eq_some_iff] at hhandler
  obtain ⟨before, hbefore, rfl⟩ := hhandler
  have hact := h other before hbefore
  split <;> exact hact

theorem Machine.Grants.step (h : m.Grants P) : m.step.machine.Grants P := by
  have houtcome := m.step_outcome
  generalize m.step.result = result, m.step.machine = after at houtcome
  cases houtcome with
  | called => exact h.withState _ _
  | failed => exact h.withState _ _
  | _ => exact h

theorem Machine.Grants.host (h : m.Grants P) (call : HostCall σ) (hcall : call.Grants P) :
    (call.apply m).Grants P := by
  cases call with
  | stack call => exact h
  | memory call => exact h
  | install table => exact hcall
  | register name handler =>
    intro other found hfound
    cases htable : m.capabilities with
    | none => simp [HostCall.apply, handler?, htable] at hfound
    | some table =>
      have hafter : (HostCall.apply m (.register name handler)).capabilities =
          some (table.register name handler) := by
        rw [HostCall.apply, htable]
        rfl
      rw [handler?_eq hafter, CapabilityTable.find?_register] at hfound
      split at hfound
      · exact Option.some.inj hfound ▸ hcall
      · exact h other found ((handler?_eq htable other).trans hfound)

/-- What holds at the start, and is kept by every step of a machine with handlers as the host promised them and by
every call of the host, holds of all states. -/
theorem Reachable.invariant {I : Machine σ → Prop} (hstart : I (.start code limits))
    (hstep : ∀ m, m.Grants P → I m → I m.step.machine)
    (hhost : ∀ m (call : HostCall σ), call.Grants P → I m → I (call.apply m))
    (h : Reachable P code limits m) : I m := by
  have hnext : ∀ m : Machine σ, m.Grants P ∧ I m → m.step.machine.Grants P ∧ I m.step.machine := by
    intro m hm
    exact ⟨hm.1.step, hstep m hm.1 hm.2⟩
  suffices hboth : m.Grants P ∧ I m from hboth.2
  induction h with
  | start => exact ⟨nofun, hstart⟩
  | step _ ih => exact hnext _ ih
  | runFor _ budget ih => exact Machine.runFrom_keeps hnext [] budget ih
  | run _ ih => exact Machine.runFrom_keeps hnext [] Machine.boundless ih
  | host _ call hcall ih => exact ⟨ih.1.host call hcall, hhost _ call hcall ih.2⟩

namespace Stack

theorem bounded_empty (capacity : Nat) : (empty capacity).Bounded := by
  simp [empty, Bounded, hasRoom, depth]

theorem bounded_add {s : Stack} {values : List Double} (h : s.hasRoom values.length) : (s.add values).Bounded := by
  simpa [Bounded, hasRoom] using h

theorem stable_bounded : Stable Bounded := by
  intro s c hs
  have hpushAll : ∀ values, (Call.apply s (.pushAll values)).Bounded := by
    intro values
    rw [Call.apply, pushAll_eq]
    cases hroom : s.requireRoom values.length with
    | error fault => exact hs
    | ok => exact bounded_add (requireRoom_eq_ok_iff.mp hroom)
  cases c with
  | push x =>
    rw [Call.apply, push_eq_pushAll]
    exact hpushAll [x]
  | pushAll values => exact hpushAll values
  | pop =>
    rw [Call.apply]
    by_cases hdepth : 1 ≤ s.depth
    · obtain ⟨rest, values, hlen, rfl⟩ := exists_eq_add hdepth
      obtain ⟨x, rfl⟩ := List.length_eq_one_iff.mp hlen
      rw [pop_add_cons, add_nil]
      exact hs.hasRoom (Nat.zero_le _)
    · rw [pop_of_depth_eq_zero (by omega)]
      exact hs
  | popMany count =>
    rw [Call.apply]
    by_cases hdepth : count ≤ s.depth
    · obtain ⟨rest, values, rfl, rfl⟩ := exists_eq_add hdepth
      rw [popMany_add]
      exact hs.hasRoom (Nat.zero_le _)
    · rw [popMany, requireDepth_of_lt (not_le.mp hdepth)]
      exact hs
  | clear => simp [Call.apply, clear, Bounded, hasRoom, depth]

end Stack

namespace Work

variable {S : Stack → Prop}

def Keeps (S : Stack → Prop) (w : Work σ α) : Prop := ∀ m, S m.stack → S (w m).2.stack

theorem Keeps.bind {w : Work σ α} {f : α → Work σ β} (hw : Keeps S w) (hf : ∀ a, Keeps S (f a)) :
    Keeps S (w >>= f) := by
  intro m hm
  have hnext := hw m hm
  rw [bind_apply]
  rcases hrun : w m with ⟨_ | a, m'⟩
  · rw [hrun] at hnext
    exact hnext
  · rw [hrun] at hnext
    exact hf a m' hnext

theorem keeps_look (question : Machine σ → Except Fault α) : Keeps S (look question) := fun _ hm => hm

theorem keeps_memory (operation : Memory → Except Fault (α × Memory)) : Keeps S (memory (σ := σ) operation) := by
  intro m hm
  rw [memory]
  rcases operation m.memory with _ | _ <;> exact hm

theorem keeps_jumpTo (target : Nat) : Keeps S (jumpTo (σ := σ) target) := by
  intro m hm
  rw [jumpTo]
  split <;> exact hm

theorem keeps_stack {operation : Stack → Except Fault (α × Stack)}
    (h : ∀ s a t, operation s = .ok (a, t) → S s → S t) : Keeps S (stack (σ := σ) operation) := by
  intro m hm
  rw [stack]
  rcases hrun : operation m.stack with fault | ⟨a, t⟩
  · exact hm
  · exact h m.stack a t hrun hm

theorem keeps_pushAll (hS : Stack.Stable S) (values : List Double) : Keeps S (pushAll (σ := σ) values) := by
  apply keeps_stack
  intro s _ t hrun hs
  have hcall := hS s (.pushAll values) hs
  rw [Stack.Call.apply] at hcall
  cases hpush : s.pushAll values with
  | error fault =>
    rw [hpush] at hrun
    cases hrun
  | ok after =>
    rw [hpush] at hrun hcall
    cases hrun
    exact hcall

theorem keeps_push (hS : Stack.Stable S) (x : Double) : Keeps S (push (σ := σ) x) := by
  rw [push_eq_pushAll]
  exact keeps_pushAll hS [x]

theorem keeps_pop (hS : Stack.Stable S) : Keeps S (pop (σ := σ)) := by
  apply keeps_stack
  intro s x t hrun hs
  have hcall := hS s .pop hs
  rw [Stack.Call.apply, hrun] at hcall
  exact hcall

theorem keeps_popMany (hS : Stack.Stable S) (count : Nat) : Keeps S (popMany (σ := σ) count) := by
  apply keeps_stack
  intro s values t hrun hs
  have hcall := hS s (.popMany count) hs
  rw [Stack.Call.apply, hrun] at hcall
  exact hcall

theorem keeps_jump (hS : Stack.Stable S) (conditional : Bool) (target : Nat) :
    Keeps S (jump (σ := σ) conditional target) := by
  refine (keeps_look _).bind ?_
  intro _
  cases conditional with
  | false => exact keeps_jumpTo target
  | true =>
    refine (keeps_pop hS).bind ?_
    intro x
    cases x.truthy with
    | false => exact fun _ hm => hm
    | true => exact keeps_jumpTo target

theorem keeps_execute (hS : Stack.Stable S) {i : Instr} (hcall : ∀ name, i ≠ .capability name) :
    Keeps S (execute (σ := σ) i) := by
  cases i with
  | halt => exact fun _ hm => hm
  | capability name => exact absurd rfl (hcall name)
  | capabilityCheck name => exact (keeps_look _).bind fun _ => keeps_push hS _
  | push x => exact keeps_push hS x
  | pushBytes bytes => exact keeps_pushAll hS _
  | pop => exact (keeps_pop hS).bind fun _ _ hm => hm
  | swap => exact (keeps_popMany hS 2).bind fun _ => keeps_pushAll hS _
  | dup => exact (keeps_look _).bind fun _ => keeps_push hS _
  | dup2 => exact (keeps_look _).bind fun _ => (keeps_look _).bind fun _ => keeps_pushAll hS _
  | select =>
    exact (keeps_look _).bind fun _ => (keeps_pop hS).bind fun _ => (keeps_pop hS).bind fun _ =>
      (keeps_pop hS).bind fun _ => keeps_push hS _
  | jump conditional target => exact keeps_jump hS conditional target
  | memPlz => exact (keeps_look _).bind fun _ => (keeps_memory _).bind fun _ => keeps_push hS _
  | memCya =>
    exact (keeps_look _).bind fun _ => (keeps_look _).bind fun _ => (keeps_pop hS).bind fun _ => keeps_memory _
  | memCheck => exact (keeps_pop hS).bind fun _ => (keeps_look _).bind fun _ => keeps_push hS _
  | memLoad mode =>
    exact (keeps_look _).bind fun _ => (keeps_look _).bind fun _ => (keeps_popMany hS 3).bind fun _ =>
      keeps_pushAll hS _
  | memStore mode =>
    exact (keeps_look _).bind fun _ => (keeps_look _).bind fun _ => (keeps_look _).bind fun _ =>
      (keeps_popMany hS _).bind fun _ => keeps_memory _
  | unary op => exact (keeps_pop hS).bind fun _ => keeps_push hS _
  | binary op =>
    exact (keeps_look _).bind fun _ => (keeps_pop hS).bind fun _ => (keeps_pop hS).bind fun _ => keeps_push hS _
  | _ => exact (keeps_look _).bind fun _ => keeps_push hS _

end Work

/-- A step keeps what the operations of the stack and the handlers keep. -/
theorem Machine.step_keeps {S : Stack → Prop} (hS : Stack.Stable S) (hb : m.stack.Bounded)
    (hgrants : m.Grants (Stack.KeptBy S)) (h : S m.stack) : S m.step.machine.stack := by
  have houtcome := m.step_outcome
  generalize m.step.result = result, m.step.machine = after at houtcome
  cases houtcome with
  | committed hm hread hcall hplan =>
    have hexecute := Work.execute_eq_carryOut hm hb hcall
    have hkept := Work.keeps_execute hS hcall m h
    rw [hexecute, hplan] at hkept
    exact hkept
  | @called name _ handler _ _ _ _ hhandler hact =>
    have hkept := hgrants name handler hhandler handler.state m.stack m.memory h
    rw [hact] at hkept
    exact hkept
  | _ => exact h

theorem Reachable.bounded (hP : ∀ act, P act → Stack.KeptBy Stack.Bounded act) (h : Reachable P code limits m) :
    m.stack.Bounded := by
  refine h.invariant (I := fun m => m.stack.Bounded) (Stack.bounded_empty _) ?_ ?_
  · intro m hgrants hb
    refine Machine.step_keeps Stack.stable_bounded hb ?_ hb
    intro name handler hhandler
    exact hP handler.act (hgrants name handler hhandler)
  · intro m call hcall hb
    cases call with
    | stack call => exact Stack.stable_bounded m.stack call hb
    | _ => exact hb

end StackMachine
