import StackMachine.Proofs.Machine.Planning
import StackMachine.Proofs.Machine.Reachable
import StackMachine.Proofs.Memory.Arena

/-!
The history of a machine: steps, and calls of its host between them. A run is a number of steps, so every machine that
can be reached has a history. On the memory a step acts as one call or none, and so what holds of a memory after
all calls holds of the memory of every machine; among it that the arena is well formed.
-/

set_option autoImplicit false

namespace StackMachine

variable {σ : Type} {P : Conduct σ → Prop} {code : Code} {limits : Limits} {m : Machine σ}

inductive Move (σ : Type) where
  | step
  | host (call : HostCall σ)

def Move.apply (m : Machine σ) : Move σ → Machine σ
  | .step => m.step.machine
  | .host call => call.apply m

namespace Machine

def after (m : Machine σ) (moves : List (Move σ)) : Machine σ := moves.foldl Move.apply m

@[simp] theorem after_nil (m : Machine σ) : m.after [] = m := rfl

@[simp] theorem after_cons (m : Machine σ) (move : Move σ) (moves : List (Move σ)) :
    m.after (move :: moves) = (move.apply m).after moves := rfl

@[simp] theorem after_append (m : Machine σ) (moves more : List (Move σ)) :
    m.after (moves ++ more) = (m.after moves).after more :=
  List.foldl_append

end Machine

theorem Reachable.exists_moves (h : Reachable P code limits m) :
    ∃ moves, (Machine.start code limits).after moves = m := by
  refine h.invariant (I := fun m => ∃ moves, (Machine.start code limits).after moves = m) ⟨[], rfl⟩ ?_ ?_
  · rintro m - ⟨moves, rfl⟩
    exact ⟨moves ++ [.step], Machine.after_append _ _ _⟩
  · rintro m call - ⟨moves, rfl⟩
    exact ⟨moves ++ [.host call], Machine.after_append _ _ _⟩

namespace Machine

theorem exists_calls_of_planned {i : Instr} {e : Effect} (h : m.Planned i e) :
    ∃ calls, e.applyMemory m.memory = m.memory.after calls := by
  cases h with
  | allocates hroom =>
    refine ⟨[.allocate], ?_⟩
    rw [Memory.after_cons, Memory.after_nil, Memory.Call.apply, Memory.allocate_eq, hroom]
    rfl
  | frees => exact ⟨[.free _], rfl⟩
  | @writes _ handle address _ bytes p hpage hfits =>
    refine ⟨[.write handle address bytes], ?_⟩
    have hrange := Memory.requireRange_eq_ok_iff.mpr ⟨hpage, hfits⟩
    rw [Memory.after_cons, Memory.after_nil, Memory.Call.apply, Memory.write_eq, hrange]
    rfl
  | _ => exact ⟨[], rfl⟩

theorem exists_calls_step (m : Machine σ) : ∃ calls, m.step.machine.memory = m.memory.after calls := by
  have houtcome := m.step_outcome
  generalize m.step.result = result, m.step.machine = next at houtcome
  cases houtcome with
  | committed _ _ _ hplan => exact exists_calls_of_planned ((m.plan_yields _).of_ok hplan)
  | _ => exact ⟨[], rfl⟩

theorem exists_calls_after (m : Machine σ) (moves : List (Move σ)) :
    ∃ calls, (m.after moves).memory = m.memory.after calls := by
  induction moves generalizing m with
  | nil => exact ⟨[], rfl⟩
  | cons move moves ih =>
    have hmove : ∃ calls, (move.apply m).memory = m.memory.after calls := by
      cases move with
      | step => exact m.exists_calls_step
      | host call =>
        cases call with
        | memory call => exact ⟨[call], rfl⟩
        | _ => exact ⟨[], rfl⟩
    obtain ⟨calls, hcalls⟩ := hmove
    obtain ⟨more, hmore⟩ := ih (move.apply m)
    exact ⟨calls ++ more, by rw [after_cons, hmore, hcalls, Memory.after_append]⟩

end Machine

namespace Memory

/-- The memories that come about by calls on an empty one, or inside a machine. -/
inductive Arises : (limit : Option Nat) → Memory → Prop
  | calls (limit : Option Nat) (calls : List Call) : Arises limit ((empty limit).after calls)
  | machine {σ : Type} {P : Conduct σ → Prop} {code : Code} {limits : Limits} {m : Machine σ}
      (h : Reachable P code limits m) : Arises limits.maxPages m.memory

theorem Arises.exists_calls {limit : Option Nat} {m : Memory} (h : Arises limit m) :
    ∃ calls, m = (empty limit).after calls := by
  cases h with
  | calls limit calls => exact ⟨calls, rfl⟩
  | @machine σ P code limits m h =>
    obtain ⟨moves, rfl⟩ := h.exists_moves
    exact Machine.exists_calls_after _ moves

end Memory

namespace Machine

theorem wellFormed_of_reachable (h : Reachable P code limits m) : m.memory.WellFormed := by
  obtain ⟨calls, hcalls⟩ := (Memory.Arises.machine h).exists_calls
  rw [hcalls]
  exact (Memory.wellFormed_empty _).after calls

theorem wellFormed_step (h : m.memory.WellFormed) : m.step.machine.memory.WellFormed := by
  obtain ⟨calls, hcalls⟩ := m.exists_calls_step
  rw [hcalls]
  exact h.after calls

end Machine

namespace Memory

/-- The arena is well formed, lists the live pages by their handles, and refuses to allocate exactly at its limit. -/
theorem arena_invariant (limit : Option Nat) (m : Memory) (harises : Arises limit m) :
    m.WellFormed ∧ m.limit = limit ∧
      (∀ handle, m.exists? handle → (m.free handle).live + 1 = m.live) ∧
      m.handles.Pairwise (· < ·) ∧ (∀ handle, handle ∈ m.handles ↔ m.exists? handle) ∧
      (∀ handle, (m.get handle).isOk = m.exists? handle ∧ (m.focus handle).map Prod.fst = m.get handle) ∧
      (∀ fault, m.allocate = .error fault ↔
        ∃ n, limit = some n ∧ m.handles.length = n ∧ fault = .pageLimit n) ∧
      (∀ fault, m.allocate = .error fault → Call.apply m .allocate = m) ∧
      (∀ handle, m.exists? handle → (m.free handle).allocate = .ok (m.nextHandle, (m.free handle).grow)) := by
  obtain ⟨calls, rfl⟩ := harises.exists_calls
  have hformed := (wellFormed_empty limit).after calls
  have hlimit := limit_after (empty limit) calls
  generalize (empty limit).after calls = m at hformed hlimit
  change m.limit = limit at hlimit
  subst limit
  refine ⟨hformed, rfl, ?_, hformed.pairwise_handles, fun _ => hformed.mem_handles_iff, ?_,
    fun _ => hformed.allocate_eq_error_iff, ?_, ?_⟩
  · intro handle hlive
    obtain ⟨p, hp⟩ := Option.isSome_iff_exists.mp hlive
    exact hformed.live_free hp
  · intro handle
    rw [focus_eq, get, exists?]
    cases m.page? handle <;> exact ⟨rfl, rfl⟩
  · intro fault hfault
    rw [Call.apply, hfault]
    rfl
  · intro handle hlive
    obtain ⟨p, hp⟩ := Option.isSome_iff_exists.mp hlive
    exact hformed.allocate_free hp

def crowded : List Call := [.allocate, .allocate, .allocate, .free 0, .free 0, .free 9, .allocate]

theorem arena_invariant_crowded :
    let m := (empty (some 2)).after crowded
    m.handles = [1, 2] ∧ m.live = 2 ∧ m.allocate = .error (.pageLimit 2) ∧
      (m.free 1).allocate = .ok (3, (m.free 1).grow) := by
  intro m
  have hhandles : m.handles = [1, 2] := by decide +kernel
  have hnext : m.nextHandle = 3 := by decide +kernel
  obtain ⟨hformed, -, -, -, hlive, -, hrefused, -, hagain⟩ :=
    arena_invariant (some 2) m (.calls (some 2) crowded)
  refine ⟨hhandles, ?_, (hrefused _).mpr ⟨2, rfl, by rw [hhandles]; rfl, rfl⟩, ?_⟩
  · rw [← hformed.length_handles, hhandles]
    rfl
  · rw [hagain 1 ((hlive 1).mp (by rw [hhandles]; decide)), hnext]

end Memory

end StackMachine
