import StackMachine.Proofs.Machine.History

/-!
Calls of capabilities. A `Ledger` has for every name the handler that was registered last and what it has been invoked
on since; it is kept along the history of a machine and tells the handlers of the machine with their private states. To
see what handlers are invoked on, they are given a record to keep: `Machine.recording` is the machine whose handlers do
so, and it comes to the same otherwise.
-/

set_option autoImplicit false

namespace StackMachine

variable {σ : Type}

namespace CapabilityTable

def registerAll (t : CapabilityTable σ) (registrations : List (String × Handler σ)) : CapabilityTable σ :=
  registrations.foldl (fun t entry => t.register entry.1 entry.2) t

theorem find?_registerAll (t : CapabilityTable σ) (registrations : List (String × Handler σ)) (name : String) :
    (t.registerAll registrations).find? name = (registrations.reverse.lookup name).or (t.find? name) := by
  induction registrations generalizing t with
  | nil => rfl
  | cons entry registrations ih =>
    change ((t.register entry.1 entry.2).registerAll registrations).find? name = _
    rw [ih, find?_register, List.reverse_cons, List.lookup_append, Option.or_assoc]
    congr 1
    by_cases hname : name = entry.1
    · rw [if_pos hname, hname, List.lookup_cons_self, Option.some_or]
    · rw [if_neg hname, List.lookup_cons, beq_false_of_ne hname, List.lookup_nil, Option.none_or]

end CapabilityTable

abbrev Invocation := Stack × Memory

namespace Handler

def afterCalls (h : Handler σ) (log : List Invocation) : Handler σ :=
  { h with state := log.foldl (fun state call => (h.act state call.1 call.2).2.2) h.state }

theorem afterCalls_append (h : Handler σ) (log more : List Invocation) :
    h.afterCalls (log ++ more) = (h.afterCalls log).afterCalls more := by
  rw [afterCalls, List.foldl_append]
  rfl

def recording (h : Handler σ) : Handler (σ × List Invocation) where
  state := (h.state, [])
  act state s memory :=
    let (result, left, after) := h.act state.1 s memory
    (result, left, after, state.2 ++ [(s, memory)])

end Handler

def CapabilityTable.recording (t : CapabilityTable σ) : CapabilityTable (σ × List Invocation) :=
  ⟨t.entries.map fun entry => (entry.1, entry.2.recording)⟩

theorem CapabilityTable.find?_recording (t : CapabilityTable σ) (name : String) :
    t.recording.find? name = (t.find? name).map (·.recording) := by
  simp only [find?, recording, List.find?_map, Option.map_map]
  rfl

def Turn.recorded (turn : Turn (σ × List Invocation)) (name : String) : List Invocation :=
  (turn.machine.handler? name).elim [] (·.state.2)

namespace Machine

variable {m : Machine σ} {i : Instr} {name : String}

def recording (m : Machine σ) : Machine (σ × List Invocation) :=
  { m with capabilities := m.capabilities.map (·.recording) }

def invoked (m : Machine σ) (name : String) : List Invocation := m.recording.step.recorded name

/-- Executing the instruction would invoke a handler. -/
def Engages (m : Machine σ) (i : Instr) : Prop := ∃ next name, (m.recording.execute i next).recorded name ≠ []

theorem handler?_recording (m : Machine σ) (name : String) :
    m.recording.handler? name = (m.handler? name).map (·.recording) := by
  rw [handler?, handler?, recording]
  cases m.capabilities with
  | none => rfl
  | some table => exact table.find?_recording name

/-- The handler under the name was called on the stack and the memory of the machine. What it did to the stack is kept
if the call succeeded; its private state is kept in any case, and everything else is as it was. -/
structure Called (m : Machine σ) (name : String) (h : Handler σ) (result : Except Fault Status) (after : Machine σ) :
    Prop where
  result_eq : result = (h.act h.state m.stack m.memory).1.map fun _ => .running
  stack_of_ok : result = .ok .running → after.stack = (h.act h.state m.stack m.memory).2.1
  stack_of_error : ∀ fault, result = .error fault → after.stack = m.stack
  memory_eq : after.memory = m.memory
  handler_eq : after.handler? name = some (h.afterCalls [(m.stack, m.memory)])
  others : ∀ other, other ≠ name → after.handler? other = m.handler? other

theorem call_of_handler? {h : Handler σ} (hh : m.handler? name = some h) (next : Nat) :
    m.call name next =
      match h.act h.state m.stack m.memory with
      | (.ok (), stack, state) => ⟨.ok .running, m.returned name stack state next, []⟩
      | (.error fault, _, state) => ⟨.error fault, m.withState name state, []⟩ := by
  rw [call, hh]
  rcases hact : h.act h.state m.stack m.memory with ⟨_ | _, stack, state⟩
  · simp only [hact]
    rfl
  · simp only [hact]
    rfl

theorem called_of_handler? {h : Handler σ} (hh : m.handler? name = some h) (next : Nat) :
    m.Called name h (m.call name next).result (m.call name next).machine := by
  have hhandlers : ∀ state other, (m.withState name state).handler? other =
      if other = name then some { h with state } else m.handler? other := by
    intro state other
    rw [handler?_withState]
    by_cases hother : other = name
    · rw [hother, hh, if_pos rfl, Option.map_some, if_pos rfl]
    · simp only [if_neg hother, Option.map_id']
  have hafter : h.afterCalls [(m.stack, m.memory)] = { h with state := (h.act h.state m.stack m.memory).2.2 } := rfl
  have hnamed := fun state => (hhandlers state name).trans (if_pos rfl)
  have hothers := fun state other hother => (hhandlers state other).trans (if_neg hother)
  rw [call_of_handler? hh]
  rcases hact : h.act h.state m.stack m.memory with ⟨fault | _, left, state⟩
  · refine ⟨?_, nofun, fun _ _ => rfl, rfl, ?_, hothers state⟩
    · rw [hact]
      rfl
    · rw [hafter, hact]
      exact hnamed state
  · refine ⟨?_, fun _ => ?_, nofun, rfl, ?_, hothers state⟩
    · rw [hact]
      rfl
    · rw [hact]
      rfl
    · rw [hafter, hact]
      exact hnamed state

theorem elim_record (m : Machine σ) (name : String) : (m.recording.handler? name).elim [] (·.state.2) = [] := by
  rw [handler?_recording]
  cases m.handler? name <;> rfl

/-- A handler is invoked when its capability is called, once and on the stack and the memory at hand. -/
theorem recorded_execute (m : Machine σ) (i : Instr) (next : Nat) (name : String) :
    (m.recording.execute i next).recorded name =
      if i = .capability name ∧ (m.handler? name).isSome then [(m.stack, m.memory)] else [] := by
  rw [Turn.recorded]
  by_cases hcall : ∃ called, i = .capability called
  · obtain ⟨called, rfl⟩ := hcall
    simp only [Instr.capability.injEq]
    change ((m.recording.call called next).machine.handler? name).elim _ _ = _
    cases hh : m.handler? called with
    | none =>
      have hnone : m.recording.handler? called = none := by rw [handler?_recording, hh, Option.map_none]
      have hnot : ¬ (called = name ∧ (m.handler? name).isSome) := by
        rintro ⟨rfl, hsome⟩
        simp [hh] at hsome
      rw [call, hnone, if_neg hnot]
      exact m.elim_record name
    | some h =>
      have hsome : m.recording.handler? called = some h.recording := by rw [handler?_recording, hh, Option.map_some]
      have hcalled := called_of_handler? hsome next
      by_cases hname : name = called
      · subst name
        rw [hcalled.handler_eq, if_pos ⟨rfl, by rw [hh]; rfl⟩]
        rfl
      · rw [hcalled.others name hname, if_neg fun hboth => hname hboth.1.symm]
        exact m.elim_record name
  · have hcall : ∀ called, i ≠ .capability called := fun called hi => hcall ⟨called, hi⟩
    rw [if_neg fun hboth => hcall name hboth.1]
    cases hplan : m.recording.plan i with
    | error fault =>
      rw [execute_of_error hcall hplan]
      exact m.elim_record name
    | ok e =>
      rw [(execute_of_ok hcall hplan).2]
      exact m.elim_record name

structure Reflects (r : Machine (σ × List Invocation)) (m : Machine σ) : Prop where
  code_eq : r.code = m.code
  position_eq : r.position = m.position
  stack_eq : r.stack = m.stack
  memory_eq : r.memory = m.memory
  halted_eq : r.halted = m.halted
  steps_eq : r.steps = m.steps
  states_eq : ∀ name, (r.handler? name).map (·.state.1) = (m.handler? name).map (·.state)

theorem reflects_recording (m : Machine σ) : m.recording.Reflects m where
  code_eq := rfl
  position_eq := rfl
  stack_eq := rfl
  memory_eq := rfl
  halted_eq := rfl
  steps_eq := rfl
  states_eq name := by
    rw [handler?_recording, Option.map_map]
    rfl

theorem states_withState (m : Machine σ) (name : String) (state : σ) (log : List Invocation) (other : String) :
    ((m.recording.withState name (state, log)).handler? other).map (·.state.1) =
      ((m.withState name state).handler? other).map (·.state) := by
  rw [handler?_withState, handler?_withState, handler?_recording]
  simp only [Option.map_map]
  congr 1
  funext h
  by_cases hother : other = name
  · simp only [Function.comp, if_pos hother]
  · simp only [Function.comp, if_neg hother]
    rfl

theorem plan_recording (m : Machine σ) (i : Instr) : m.recording.plan i = m.plan i := by
  cases i with
  | capabilityCheck name =>
    simp only [plan, recording]
    cases m.capabilities with
    | none => rfl
    | some table => simp only [Option.map_some, CapabilityTable.contains, table.find?_recording, Option.isSome_map]
  | _ => rfl

theorem execute_recording (m : Machine σ) (i : Instr) (next : Nat) :
    (m.recording.execute i next).result = (m.execute i next).result ∧
      (m.recording.execute i next).machine.Reflects (m.execute i next).machine := by
  by_cases hcall : ∃ name, i = .capability name
  · obtain ⟨name, rfl⟩ := hcall
    change (m.recording.call name next).result = (m.call name next).result ∧
      (m.recording.call name next).machine.Reflects (m.call name next).machine
    cases hh : m.handler? name with
    | none =>
      have hnone : m.recording.handler? name = none := by rw [handler?_recording, hh, Option.map_none]
      rw [call, call, hh, hnone]
      exact ⟨rfl, m.reflects_recording⟩
    | some h =>
      have hsome : m.recording.handler? name = some h.recording := by rw [handler?_recording, hh, Option.map_some]
      have hrecorded : h.recording.act h.recording.state m.recording.stack m.recording.memory =
          ((h.act h.state m.stack m.memory).1, (h.act h.state m.stack m.memory).2.1,
            (h.act h.state m.stack m.memory).2.2, [(m.stack, m.memory)]) := rfl
      have hstates := fun state => m.states_withState name state [(m.stack, m.memory)]
      rw [call_of_handler? hh, call_of_handler? hsome, hrecorded]
      rcases h.act h.state m.stack m.memory with ⟨_ | _, left, state⟩
      · exact ⟨rfl, rfl, rfl, rfl, rfl, rfl, rfl, hstates state⟩
      · exact ⟨rfl, rfl, rfl, rfl, rfl, rfl, rfl, hstates state⟩
  · have hcall : ∀ name, i ≠ .capability name := fun name hi => hcall ⟨name, hi⟩
    cases hplan : m.plan i with
    | error fault =>
      rw [execute_of_error hcall hplan, execute_of_error hcall ((m.plan_recording i).trans hplan)]
      exact ⟨rfl, m.reflects_recording⟩
    | ok e =>
      have hplan' := (m.plan_recording i).trans hplan
      rw [(execute_of_ok hcall hplan).1, (execute_of_ok hcall hplan).2, (execute_of_ok hcall hplan').1,
        (execute_of_ok hcall hplan').2]
      exact ⟨rfl, (m.commit e next).reflects_recording⟩

theorem step_recording (m : Machine σ) :
    m.recording.step.result = m.step.result ∧ m.recording.step.machine.Reflects m.step.machine := by
  have hhalted : m.recording.halted = m.halted := rfl
  have hread : m.recording.code.instrAt? m.recording.position = m.code.instrAt? m.position := rfl
  rw [step, step, hhalted, hread]
  cases hm : m.halted with
  | true => exact ⟨rfl, m.reflects_recording⟩
  | false =>
    rcases m.code.instrAt? m.position with fault | _ | ⟨i, next⟩
    · exact ⟨rfl, m.reflects_recording⟩
    · exact ⟨rfl, reflects_recording { m with halted := true }⟩
    · exact m.execute_recording i next

theorem Faces.unique {j : Instr} (h : m.Faces i) (hj : m.Faces j) : i = j := by
  have hpeek := h.2.symm.trans hj.2
  simpa using hpeek

/-- A step that does not call a capability invokes nothing. -/
theorem invoked_eq (m : Machine σ) (name : String) :
    m.invoked name =
      if m.Faces (.capability name) ∧ (m.handler? name).isSome then [(m.stack, m.memory)] else [] := by
  by_cases hfaces : ∃ i, m.Faces i
  · obtain ⟨i, hi⟩ := hfaces
    obtain ⟨hm, next, hread⟩ := faces_iff.mp hi
    have hstep : m.invoked name = (m.recording.execute i next).recorded name := by
      rw [invoked, Turn.recorded, Turn.recorded, (step_of_instrAt? (m := m.recording) hm hread).2]
    have hsame : m.Faces (.capability name) ↔ i = .capability name := by
      constructor
      · exact hi.unique
      · rintro rfl
        exact hi
    simp only [hstep, recorded_execute, hsame]
  · have hnot : ¬ (m.Faces (.capability name) ∧ (m.handler? name).isSome) := fun h => hfaces ⟨_, h.1⟩
    have hread : ∀ i next, m.halted = false → m.code.instrAt? m.position ≠ .ok (some (i, next)) :=
      fun i next hm hread => hfaces ⟨i, faces_iff.mpr ⟨hm, next, hread⟩⟩
    rw [if_neg hnot, invoked, Turn.recorded]
    have houtcome := m.recording.step_outcome
    generalize m.recording.step.result = result, m.recording.step.machine = after at houtcome
    cases houtcome with
    | stays => exact m.elim_record name
    | ends => exact m.elim_record name
    | unreadable => exact m.elim_record name
    | refused hm h => exact absurd h (hread _ _ hm)
    | committed hm h => exact absurd h (hread _ _ hm)
    | unknown hm h => exact absurd h (hread _ _ hm)
    | called hm h => exact absurd h (hread _ _ hm)
    | failed hm h => exact absurd h (hread _ _ hm)

/-- A step changes private states by what it invokes handlers on, and not otherwise. -/
theorem handler?_step (m : Machine σ) (name : String) :
    m.step.machine.handler? name = (m.handler? name).map (·.afterCalls (m.invoked name)) := by
  rw [invoked_eq]
  by_cases hcall : m.Faces (.capability name) ∧ (m.handler? name).isSome
  · obtain ⟨hfaces, hsome⟩ := hcall
    obtain ⟨h, hh⟩ := Option.isSome_iff_exists.mp hsome
    obtain ⟨next, -, hmachine⟩ := hfaces.step_eq
    rw [if_pos ⟨hfaces, hsome⟩, hmachine, hh, Option.map_some]
    exact (called_of_handler? hh next).handler_eq
  · rw [if_neg hcall]
    change _ = (m.handler? name).map id
    rw [Option.map_id, id]
    have hother : ∀ called next state, m.halted = false →
        m.code.instrAt? m.position = .ok (some (.capability called, next)) →
        (m.withState called state).handler? name = m.handler? name := by
      intro called next state hm hread
      rw [handler?_withState]
      by_cases hname : name = called
      · subst called
        have hnone : m.handler? name = none := by
          by_contra hsome
          exact hcall ⟨faces_iff.mpr ⟨hm, next, hread⟩, Option.ne_none_iff_isSome.mp hsome⟩
        rw [hnone, Option.map_none]
      · simp only [if_neg hname, Option.map_id']
    have houtcome := m.step_outcome
    generalize m.step.result = result, m.step.machine = after at houtcome
    cases houtcome with
    | called hm hread => exact hother _ _ _ hm hread
    | failed hm hread => exact hother _ _ _ hm hread
    | _ => rfl

theorem isSome_capabilities_step (m : Machine σ) : m.step.machine.capabilities.isSome = m.capabilities.isSome := by
  have houtcome := m.step_outcome
  generalize m.step.result = result, m.step.machine = after at houtcome
  cases houtcome with
  | called => exact Option.isSome_map
  | failed => exact Option.isSome_map
  | _ => rfl

end Machine

/-- For every name the handler that was registered last under it, and what it has been invoked on since. -/
structure Ledger (σ : Type) where
  /-- Whether there is a table to register handlers in. -/
  installed : Bool
  bound? : String → Option (Handler σ × List Invocation)

namespace Ledger

def ofMachine (m : Machine σ) : Ledger σ := ⟨m.capabilities.isSome, fun name => (m.handler? name).map (·, [])⟩

def enter (ledger : Ledger σ) (m : Machine σ) : Move σ → Ledger σ
  | .step =>
    { ledger with
      bound? := fun name => (ledger.bound? name).map fun (h, log) => (h, log ++ m.invoked name) }
  | .host (.install table) => ⟨true, fun name => (table.find? name).map (·, [])⟩
  | .host (.register name h) =>
    if ledger.installed then { ledger with bound? := Function.update ledger.bound? name (some (h, [])) } else ledger
  | .host _ => ledger

def enterAll (ledger : Ledger σ) (m : Machine σ) : List (Move σ) → Ledger σ
  | [] => ledger
  | move :: moves => (ledger.enter m move).enterAll (move.apply m) moves

structure Tells (ledger : Ledger σ) (m : Machine σ) : Prop where
  installed_eq : m.capabilities.isSome = ledger.installed
  handler?_eq : ∀ name, m.handler? name = (ledger.bound? name).map fun (h, log) => h.afterCalls log

variable {ledger : Ledger σ} {m : Machine σ}

theorem tells_ofMachine (m : Machine σ) : (ofMachine m).Tells m where
  installed_eq := rfl
  handler?_eq name := by
    rw [ofMachine, Option.map_map]
    cases m.handler? name <;> rfl

theorem Tells.register (h : ledger.Tells m) (name : String) (handler : Handler σ) :
    (ledger.enter m (.host (.register name handler))).Tells (HostCall.apply m (.register name handler)) := by
  cases htable : m.capabilities with
  | none =>
    have hinstalled : ledger.installed = false := by rw [← h.installed_eq, htable]; rfl
    rw [enter, hinstalled, if_neg Bool.false_ne_true]
    have hsame : HostCall.apply m (.register name handler) = m := by
      rw [HostCall.apply, htable, Option.map_none, ← htable]
    rwa [hsame]
  | some table =>
    have hinstalled : ledger.installed = true := by rw [← h.installed_eq, htable]; rfl
    have hafter : (HostCall.apply m (.register name handler)).capabilities = some (table.register name handler) := by
      rw [HostCall.apply, htable, Option.map_some]
    rw [enter, if_pos hinstalled]
    refine ⟨by rw [hafter, hinstalled]; rfl, fun other => ?_⟩
    rw [Machine.handler?_eq hafter, CapabilityTable.find?_register, ← Machine.handler?_eq htable, h.handler?_eq]
    by_cases hother : other = name
    · subst other
      simp only [if_pos, Function.update_self]
      rfl
    · simp only [if_neg hother, Function.update_of_ne hother]

theorem Tells.enter (h : ledger.Tells m) (move : Move σ) : (ledger.enter m move).Tells (move.apply m) := by
  cases move with
  | step =>
    refine ⟨m.isSome_capabilities_step.trans h.installed_eq, fun name => ?_⟩
    change m.step.machine.handler? name = _
    rw [m.handler?_step, h.handler?_eq, Ledger.enter, Option.map_map, Option.map_map]
    congr 1
    funext entry
    exact (entry.1.afterCalls_append _ _).symm
  | host call =>
    cases call with
    | stack call => exact ⟨h.installed_eq, h.handler?_eq⟩
    | memory call => exact ⟨h.installed_eq, h.handler?_eq⟩
    | install table =>
      refine ⟨rfl, fun name => ?_⟩
      change table.find? name = _
      rw [Ledger.enter, Option.map_map]
      cases table.find? name <;> rfl
    | register name handler => exact h.register name handler

theorem Tells.enterAll (h : ledger.Tells m) (moves : List (Move σ)) :
    (ledger.enterAll m moves).Tells (m.after moves) := by
  induction moves generalizing ledger m with
  | nil => exact h
  | cons move moves ih => exact ih (h.enter move)

end Ledger

namespace Machine

variable {m : Machine σ} {name : String}

structure Declines (m : Machine σ) (name : String) : Prop where
  result_eq : m.step.result = .error (.notImplemented name)
  machine_eq : m.step.machine = m
  invoked_eq : ∀ other, m.invoked other = []

/-- A check for a capability: it is refused if there is no table, and otherwise it says whether a call would invoke a
handler. -/
structure Answers (m : Machine σ) (name : String) (installed : Bool) : Prop where
  refused_iff : m.step.result = .error (.notImplemented name) ↔ installed = false
  running : installed → m.step.result = .ok .running
  one_iff : m.step.machine.stack = m.stack.add [.one] ↔ m.Engages (.capability name)
  zero_iff : m.step.machine.stack = m.stack.add [.zero] ↔ installed ∧ ¬ m.Engages (.capability name)
  invoked_eq : ∀ other, m.invoked other = []

theorem engages_capability_iff : m.Engages (.capability name) ↔ (m.handler? name).isSome := by
  simp only [Engages, recorded_execute]
  constructor
  · rintro ⟨-, other, hne⟩
    by_contra hnone
    refine hne (if_neg ?_)
    rintro ⟨hother, hsome⟩
    cases hother
    exact hnone hsome
  · intro hsome
    refine ⟨0, name, ?_⟩
    rw [if_pos ⟨rfl, hsome⟩]
    exact List.cons_ne_nil _ _

theorem invoked_of_faces {i : Instr} (h : m.Faces i) (hi : ∀ other, i = .capability other → m.handler? other = none)
    (other : String) : m.invoked other = [] := by
  rw [Machine.invoked_eq, if_neg]
  rintro ⟨hother, hsome⟩
  rw [hi other (h.unique hother)] at hsome
  cases hsome

theorem Faces.declines (h : m.Faces (.capability name)) (hnone : m.handler? name = none) : m.Declines name := by
  obtain ⟨next, hresult, hmachine⟩ := h.step_eq
  have hcall : m.execute (.capability name) next = ⟨.error (.notImplemented name), m, []⟩ := by
    rw [execute, call, hnone]
  rw [hcall] at hresult hmachine
  refine ⟨hresult, hmachine, invoked_of_faces h ?_⟩
  intro other hother
  cases hother
  exact hnone

theorem Faces.called (h : m.Faces (.capability name)) {handler : Handler σ}
    (hhandler : m.handler? name = some handler) : m.Called name handler m.step.result m.step.machine := by
  obtain ⟨next, hresult, hmachine⟩ := h.step_eq
  rw [hresult, hmachine]
  exact called_of_handler? hhandler next

theorem Faces.answers (h : m.Faces (.capabilityCheck name)) (hroom : m.stack.hasRoom 1) :
    m.Answers name m.capabilities.isSome := by
  have hinvoked := invoked_of_faces h (by simp)
  have hdepth : ∀ x, m.stack ≠ m.stack.add [x] := by
    intro x heq
    have hdepth := congrArg Stack.depth heq
    simp at hdepth
  cases htable : m.capabilities with
  | none =>
    have hplan : m.plan (.capabilityCheck name) = .error (.notImplemented name) := by rw [plan, htable]; rfl
    have hnone : m.handler? name = none := by rw [handler?, htable]; rfl
    obtain ⟨next, hresult, hmachine⟩ := h.step_eq
    rw [execute_of_error (by simp) hplan] at hresult hmachine
    refine ⟨iff_of_true hresult rfl, fun h => absurd h Bool.false_ne_true, ?_, ?_, hinvoked⟩
    · rw [hmachine, engages_capability_iff, hnone]
      exact iff_of_false (hdepth _) Bool.false_ne_true
    · rw [hmachine]
      exact iff_of_false (hdepth _) fun hboth => Bool.false_ne_true hboth.1
  | some table =>
    have hroom : m.stack.requireRoom 1 = .ok () := Stack.requireRoom_eq_ok_iff.mpr hroom
    have hplan : m.plan (.capabilityCheck name) = .ok { pushes := [.ofBool (table.contains name)] } := by
      simp only [plan, htable, hroom]
      rfl
    have hcontains : m.Engages (.capability name) ↔ table.contains name := by
      rw [engages_capability_iff, handler?_eq htable]
      rfl
    obtain ⟨next, hresult, hmachine⟩ := h.step_of_ok (by simp) hplan
    have hstack : m.step.machine.stack = m.stack.add [.ofBool (table.contains name)] := by
      rw [hmachine]
      change (m.stack.drop 0).add _ = _
      rw [Stack.drop_zero]
    refine ⟨?_, fun _ => hresult, ?_, ?_, hinvoked⟩
    · rw [hresult]
      constructor <;> intro h <;> cases h
    · rw [hstack, hcontains, Stack.add_singleton_inj]
      cases table.contains name <;> decide
    · rw [hstack, hcontains, Stack.add_singleton_inj, Option.isSome_some, and_iff_right rfl]
      cases table.contains name <;> decide

end Machine

/-- A call invokes the handler that was registered last under the name, once, on the stack and the memory at hand, and
no other; without one it is refused. Its stack is kept if it succeeds and is put back if it fails, in place as well. A
check for the capability says whether a call would invoke a handler. -/
theorem capability_calls_isolated (m₀ : Machine σ) (past : List (Move σ)) (name : String) :
    let m := m₀.after past
    let ledger := (Ledger.ofMachine m₀).enterAll m₀ past
    (∀ registrations : List (String × Handler σ),
      (CapabilityTable.empty.registerAll registrations).find? name = registrations.reverse.lookup name) ∧
    (m.recording.step.result = m.step.result ∧ m.recording.step.machine.Reflects m.step.machine) ∧
    (m.Faces (.capability name) →
      (ledger.installed = false ∨ ledger.bound? name = none → m.Declines name) ∧
      (∀ h log, ledger.bound? name = some (h, log) →
        m.Called name (h.afterCalls log) m.step.result m.step.machine ∧
        ∀ other, m.invoked other = if other = name then [(m.stack, m.memory)] else []) ∧
      m.stepInPlace = (m.step.result, m.step.machine)) ∧
    (m.Faces (.capabilityCheck name) → m.stack.hasRoom 1 → m.Answers name ledger.installed) := by
  intro m ledger
  have htells : ledger.Tells m := (Ledger.tells_ofMachine m₀).enterAll past
  refine ⟨fun registrations => ?_, m.step_recording, fun hfaces => ⟨?_, ?_, ?_⟩, fun hfaces hroom => ?_⟩
  · rw [CapabilityTable.find?_registerAll]
    exact Option.or_none
  · intro hnone
    refine hfaces.declines ?_
    rcases hnone with hnone | hnone
    · have htable : m.capabilities = none := by simpa [hnone] using htells.installed_eq
      rw [Machine.handler?, htable]
      rfl
    · rw [htells.handler?_eq, hnone, Option.map_none]
  · intro h log hentry
    have hhandler : m.handler? name = some (h.afterCalls log) := by rw [htells.handler?_eq, hentry, Option.map_some]
    refine ⟨hfaces.called hhandler, fun other => ?_⟩
    rw [Machine.invoked_eq]
    by_cases hother : other = name
    · subst other
      rw [if_pos rfl, if_pos ⟨hfaces, by rw [hhandler, Option.isSome_some]⟩]
    · rw [if_neg hother, if_neg]
      rintro ⟨hfacesOther, -⟩
      exact hother (Instr.capability.inj (hfacesOther.unique hfaces))
  · exact Machine.stepInPlace_eq_step_of_call hfaces
  · rw [← htells.installed_eq]
    exact hfaces.answers hroom

def clearing (result : Except Fault Unit) : Handler Nat where
  state := 0
  act state s _ := (result, s.clear, state + 1)

def rebound : CapabilityTable Nat :=
  .registerAll .empty [("x", clearing (.ok ())), ("x", clearing (.error .stackUnderflow))]

theorem capability_calls_isolated_rebound :
    let start : Machine Nat := .start (.ofInstrs [.capabilityCheck "x", .capability "x"]) { stackCapacity := 1 }
    let check := start.after [.host (.install rebound)]
    let call := check.step.machine
    check.Answers "x" true ∧
      call.Called "x" (clearing (.error .stackUnderflow)) call.step.result call.step.machine ∧
      call.invoked "x" = [(call.stack, call.memory)] ∧ call.stack.values = #[.one] := by
  intro start check call
  have hpast : start.after [.host (.install rebound), .step] = call := rfl
  have hfaces : call.Faces (.capability "x") := by decide +kernel
  obtain ⟨-, -, -, hcheck⟩ := capability_calls_isolated start [.host (.install rebound)] "x"
  have hanswers := hcheck (by decide +kernel) (by decide +kernel)
  obtain ⟨hlast, -, hcall, -⟩ := capability_calls_isolated start [.host (.install rebound), .step] "x"
  have hfind : rebound.find? "x" = some (clearing (.error .stackUnderflow)) := by
    rw [rebound, hlast]
    simp
  have hentry : ((Ledger.ofMachine start).enterAll start [.host (.install rebound), .step]).bound? "x" =
      some (clearing (.error .stackUnderflow), []) := by
    have hnothing : (Move.apply start (.host (.install rebound))).invoked "x" = [] := hanswers.invoked_eq "x"
    simp only [Ledger.enterAll, Ledger.enter, hfind, Option.map_some, hnothing, List.append_nil]
  rw [hpast] at hcall
  obtain ⟨-, hcalled, -⟩ := hcall hfaces
  obtain ⟨hcalled, hinvoked⟩ := hcalled _ _ hentry
  exact ⟨hanswers, hcalled, hinvoked "x", by decide +kernel⟩

end StackMachine
