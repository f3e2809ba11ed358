import StackMachine.Proofs.Double.Whole
import StackMachine.Proofs.Machine.History

/-!
Handles over the history of a machine. The handles that allocations give out, whether a program or its host asks for
them, are the numbers from zero on, so no handle is given out twice; and once the page of a handle has been
freed, no instruction finds it again. Handles travel over the stack as doubles, which stand for them exactly
as long as they are below `2 ^ 53`.
-/

set_option autoImplicit false

namespace StackMachine

variable {σ : Type} {m : Machine σ} {i : Instr} {handle : Nat}

namespace Machine

def Offers (m : Machine σ) (handle : Nat) : Prop :=
  ∃ x, m.stack.peek (-1) = .ok x ∧ x.toNat? = some handle

theorem Performs.allocates (h : m.Performs .memPlz) :
    m.memory.allocate = .ok (m.memory.nextHandle, m.memory.grow) ∧ m.step.machine.memory = m.memory.grow ∧
      m.step.machine.stack = m.stack.add [.ofNat m.memory.nextHandle] := by
  obtain ⟨e, next, hplan, hmachine⟩ := h.exists_plan (by simp)
  rw [hmachine]
  cases (m.plan_yields .memPlz).of_ok hplan with
  | allocates hroom =>
    refine ⟨?_, rfl, ?_⟩
    · rw [Memory.allocate_eq, hroom]
      rfl
    · change (m.stack.drop 0).add _ = _
      rw [Stack.drop_zero]
  | stackOnly hi => cases hi

theorem nextHandle_step (h : ¬ m.Performs .memPlz) : m.step.machine.memory.nextHandle = m.memory.nextHandle := by
  have hperforms : ∀ j, m.Faces j → m.step.result.isOk → j ≠ .memPlz := by
    rintro _ hfaces hok rfl
    exact h ⟨hfaces, hok⟩
  have houtcome := m.step_outcome
  generalize m.step.result = result, m.step.machine = after at houtcome hperforms
  cases houtcome with
  | @committed j next e hm hread _ hplan =>
    have hne := hperforms j (faces_iff.mpr ⟨hm, next, hread⟩) rfl
    cases (m.plan_yields j).of_ok hplan with
    | allocates => exact absurd rfl hne
    | frees => exact Memory.nextHandle_free _ _
    | writes => exact Memory.nextHandle_overwrite _ _ _ _
    | _ => rfl
  | _ => rfl

end Machine

namespace Move

/-- The handle that a move allocates: a step by an instruction, the host by a call. -/
def allocated? (m : Machine σ) : Move σ → Option Nat
  | .step => if m.Performs .memPlz then m.memory.allocate.toOption.map (·.1) else none
  | .host (.memory .allocate) => m.memory.allocate.toOption.map (·.1)
  | .host _ => none

theorem allocated?_cases (m : Machine σ) (move : Move σ) :
    (move.allocated? m = some m.memory.nextHandle ∧
        (move.apply m).memory.nextHandle = m.memory.nextHandle + 1) ∨
      (move.allocated? m = none ∧ (move.apply m).memory.nextHandle = m.memory.nextHandle) := by
  cases move with
  | step =>
    rw [allocated?, apply]
    by_cases hplz : m.Performs .memPlz
    · obtain ⟨hallocate, hmemory, -⟩ := hplz.allocates
      rw [if_pos hplz, hallocate, hmemory]
      exact Or.inl ⟨rfl, Memory.nextHandle_grow _⟩
    · rw [if_neg hplz]
      exact Or.inr ⟨rfl, Machine.nextHandle_step hplz⟩
  | host call =>
    cases call with
    | memory call =>
      have houtcome := call.outcome m.memory
      cases call with
      | allocate =>
        simp only [allocated?, apply, HostCall.apply, Memory.Call.apply, Memory.allocate_eq]
        cases m.memory.requireAllocatable with
        | error fault => exact Or.inr ⟨rfl, rfl⟩
        | ok => exact Or.inl ⟨rfl, Memory.nextHandle_grow _⟩
      | free freed => exact Or.inr ⟨rfl, Memory.nextHandle_free _ _⟩
      | _ =>
        refine Or.inr ⟨rfl, ?_⟩
        simp only [apply, HostCall.apply]
        generalize Memory.Call.answer _ _ = answer, Memory.Call.apply _ _ = next at houtcome
        cases houtcome with
        | refused => rfl
        | written => exact Memory.nextHandle_overwrite _ _ _ _
    | _ => exact Or.inr ⟨rfl, rfl⟩

def Frees (m : Machine σ) (handle : Nat) : Move σ → Prop
  | .step => m.Performs .memCya ∧ m.Offers handle
  | .host (.memory (.free freed)) => freed = handle
  | .host _ => False

end Move

namespace Machine

def allocations (m : Machine σ) : List (Move σ) → List Nat
  | [] => []
  | move :: moves => (move.allocated? m).toList ++ allocations (move.apply m) moves

theorem exists_allocations_eq (m : Machine σ) (moves : List (Move σ)) :
    ∃ count, m.allocations moves = List.range' m.memory.nextHandle count ∧
      (m.after moves).memory.nextHandle = m.memory.nextHandle + count := by
  induction moves generalizing m with
  | nil => exact ⟨0, rfl, rfl⟩
  | cons move moves ih =>
    obtain ⟨count, hhandles, hnext⟩ := ih (move.apply m)
    rw [allocations, after_cons, hhandles, hnext]
    rcases move.allocated?_cases m with ⟨hmove, hgrown⟩ | ⟨hmove, hsame⟩
    · refine ⟨count + 1, ?_, ?_⟩
      · rw [hmove, hgrown, List.range'_succ]
        rfl
      · rw [hgrown]
        omega
    · rw [hmove, hsame]
      exact ⟨count, rfl, rfl⟩

theorem allocations_start (code : Code) (limits : Limits) (moves : List (Move σ)) :
    (start code limits).allocations moves =
      List.range ((start code limits).after moves).memory.nextHandle := by
  obtain ⟨count, hhandles, hnext⟩ := (start (σ := σ) code limits).exists_allocations_eq moves
  have hnone : (start (σ := σ) code limits).memory.nextHandle = 0 := rfl
  rw [hhandles, hnext, hnone, Nat.zero_add, List.range_eq_range']

/-- What becomes of a handle whose page is gone, on the stack and from the host. -/
structure Disowns (m : Machine σ) (handle : Nat) : Prop where
  dead : m.memory.exists? handle = false
  free_eq : m.memory.free handle = m.memory
  memCya : m.Faces .memCya → m.Offers handle → m.step.machine.memory = m.memory
  memCheck : m.Faces .memCheck → m.Offers handle →
    m.step.result = .ok .running ∧ m.step.machine.stack = (m.stack.drop 1).add [.zero]
  memLoad : ∀ mode, m.Offers handle → ¬ m.Performs (.memLoad mode)
  memStore : ∀ mode, m.Offers handle → ¬ m.Performs (.memStore mode)

theorem free_of_memCya (h : m.Faces .memCya) (hoffers : m.Offers handle) :
    m.step.machine.memory = m.memory.free handle := by
  obtain ⟨x, hpeek, hx⟩ := hoffers
  have hplan : m.plan .memCya = .ok { pops := 1, memory := some (.free handle) } := by
    rw [plan, hpeek, ok_bind, Read.toNatOf_eq_ok_iff.mpr hx, ok_bind]
    rfl
  obtain ⟨next, -, hmachine⟩ := h.step_of_ok (by simp) hplan
  rw [hmachine]
  rfl

theorem plan_memCheck_of_dead (hoffers : m.Offers handle) (hdead : m.memory.page? handle = none) :
    m.plan .memCheck = .ok { pops := 1, pushes := [.zero] } := by
  obtain ⟨x, hpeek, hx⟩ := hoffers
  obtain ⟨rest, hs⟩ := Stack.eq_add_of_peek hpeek
  have hdepth : 1 ≤ m.stack.depth := by
    rw [hs, Stack.depth_add, List.length_singleton]
    omega
  rw [plan, Stack.requireDepth_of_le hdepth, hpeek, ok_bind, ok_bind, hx, Option.any_some, Memory.exists?, hdead]
  rfl

theorem access_of_dead (hoffers : m.Offers handle) (hdead : m.memory.page? handle = none) (mode : Mode) (a : Access) :
    m.access mode ≠ .ok a := by
  intro haccess
  obtain ⟨x, hpeek, hx⟩ := hoffers
  obtain ⟨-, -, hrange, y, hpeek', hy⟩ := Work.access_eq_ok haccess
  -- an access names its page by the top of the stack, which is the handle that is offered
  obtain rfl : x = y := Except.ok.inj (hpeek.symm.trans hpeek')
  obtain rfl : handle = a.handle := Option.some.inj (hx.symm.trans hy)
  rw [Memory.requireRange_of_dead hdead] at hrange
  cases hrange

theorem disowns_of_dead (hdead : m.memory.page? handle = none) : m.Disowns handle where
  dead := by rw [Memory.exists?, hdead, Option.isSome_none]
  free_eq := Memory.free_of_dead hdead
  memCya := by
    intro hfaces hoffers
    rw [free_of_memCya hfaces hoffers]
    exact Memory.free_of_dead hdead
  memCheck := by
    intro hfaces hoffers
    obtain ⟨next, hresult, hmachine⟩ := hfaces.step_of_ok (by simp) (plan_memCheck_of_dead hoffers hdead)
    rw [hmachine]
    exact ⟨hresult, rfl⟩
  memLoad := by
    intro mode hoffers hperforms
    obtain ⟨e, next, hplan, -⟩ := hperforms.exists_plan (by simp)
    obtain ⟨a, haccess, -⟩ := bind_eq_ok_iff.mp hplan
    exact access_of_dead hoffers hdead mode a haccess
  memStore := by
    intro mode hoffers hperforms
    obtain ⟨e, next, hplan, -⟩ := hperforms.exists_plan (by simp)
    obtain ⟨a, haccess, -⟩ := bind_eq_ok_iff.mp hplan
    exact access_of_dead hoffers hdead mode a haccess

theorem spent_of_frees {move : Move σ} (hfrees : move.Frees m handle) (hgiven : handle < m.memory.nextHandle) :
    (move.apply m).memory.Spent handle := by
  cases move with
  | step =>
    rw [Move.apply, free_of_memCya hfrees.1.1 hfrees.2]
    exact Memory.spent_free hgiven
  | host call =>
    cases call with
    | memory call =>
      cases call with
      | free freed =>
        obtain rfl : freed = handle := hfrees
        exact Memory.spent_free hgiven
      | _ => exact hfrees.elim
    | _ => exact hfrees.elim

end Machine

/-- Whatever has happened before: an allocation gives out a handle beyond all earlier ones, which the double that is
pushed stands for, and a handle that was given out and then freed is disowned for good. -/
theorem handles_never_reused (code : Code) (limits : Limits) (past : List (Move σ)) :
    let start : Machine σ := .start code limits
    let m := start.after past
    (m.Performs .memPlz → (start.allocations past).length < 2 ^ 53 →
      ∃ handle, m.memory.allocate = .ok (handle, m.step.machine.memory) ∧
        m.step.machine.stack = m.stack.add [.ofNat handle] ∧ (Double.ofNat handle).toNat? = some handle ∧
        ∀ earlier ∈ start.allocations past, earlier < handle) ∧
      ∀ before move between handle, past = before ++ move :: between →
        handle ∈ start.allocations before → move.Frees (start.after before) handle → m.Disowns handle := by
  intro start m
  have hgiven : ∀ moves, start.allocations moves = List.range (start.after moves).memory.nextHandle :=
    Machine.allocations_start code limits
  refine ⟨?_, ?_⟩
  · intro hperforms hfew
    obtain ⟨hallocate, hmemory, hstack⟩ := hperforms.allocates
    have hsafe : m.memory.nextHandle ≤ Double.maxSafe := by
      rw [hgiven, List.length_range] at hfew
      exact Nat.le_of_lt_succ hfew
    refine ⟨m.memory.nextHandle, by rw [hallocate, hmemory], hstack, Double.toNat?_ofNat_of_safe hsafe, ?_⟩
    intro earlier hearlier
    rw [hgiven] at hearlier
    exact List.mem_range.mp hearlier
  · rintro before move between handle rfl hallocated hfrees
    rw [hgiven, List.mem_range] at hallocated
    -- whatever lies between is a number of calls on the memory, and no call brings the handle back
    have hspent := Machine.spent_of_frees hfrees hallocated
    obtain ⟨calls, hcalls⟩ := (move.apply (start.after before)).exists_calls_after between
    have hdead := (hspent.after calls).2
    rw [← hcalls, ← Machine.after_cons, ← Machine.after_append] at hdead
    exact Machine.disowns_of_dead hdead

def replacing : Code := .ofInstrs [.memPlz, .memCya, .memPlz]

theorem handles_never_reused_replacing :
    let m : Machine Nat := (Machine.start replacing {}).after [.step, .step]
    m.Performs .memPlz ∧ m.step.machine.stack = m.stack.add [.ofNat 1] ∧ m.Disowns 0 := by
  intro m
  have hperforms : m.Performs .memPlz := by decide +kernel
  have hfew : ((Machine.start (σ := Nat) replacing {}).allocations [.step, .step]).length < 2 ^ 53 := by
    decide +kernel
  have hgiven : 0 ∈ (Machine.start (σ := Nat) replacing {}).allocations [.step] := by decide +kernel
  have hfrees : Move.step.Frees ((Machine.start (σ := Nat) replacing {}).after [.step]) 0 :=
    ⟨by decide +kernel, .ofNat 0, by decide +kernel, by decide +kernel⟩
  obtain ⟨hallocates, hfreed⟩ := handles_never_reused (σ := Nat) replacing {} [.step, .step]
  obtain ⟨handle, hallocate, hstack, -⟩ := hallocates hperforms hfew
  have hone : m.memory.allocate.toOption.map (·.1) = some 1 := by decide +kernel
  rw [hallocate] at hone
  obtain rfl : handle = 1 := Option.some.inj hone
  exact ⟨hperforms, hstack, hfreed [.step] .step [] 0 rfl hgiven hfrees⟩

end StackMachine
