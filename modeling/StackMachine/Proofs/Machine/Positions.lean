import StackMachine.Proofs.Code.Tiling
import StackMachine.Proofs.Machine.Atomicity
import StackMachine.Proofs.Machine.Planning

/-!
Where a machine stands. An image that can be read from its first record to its last is executed in another order, and
a jump may land anywhere in it. If all jumps of the image land on records or on its end, then so does the machine, in
all of its states: what it reads is what the image was read as, no step fails in reading and no jump fails for
its target.
-/

set_option autoImplicit false

namespace StackMachine

variable {σ : Type} {code : Code} {records : List (Nat × Instr)} {position : Nat}

def Code.Boundary (code : Code) (records : List (Nat × Instr)) (position : Nat) : Prop :=
  position ∈ records.map Prod.fst ∨ position = code.size

/-- At the offset of a record that record is read, and its end is a boundary again. -/
theorem Code.instrAt?_of_mem (hread : code.decodeAll = .ok records) {r : Nat × Instr} (hr : r ∈ records) :
    ∃ next, code.instrAt? r.1 = .ok (some (r.2, next)) ∧ code.Boundary records next := by
  have hold : code.Holds 0 code.toList := ⟨Nat.zero_le _, List.prefix_rfl⟩
  obtain ⟨next, hr, hnext⟩ := (decodeAll_eq_ok_iff.mp hread).instrAt? hold hr
  rw [Nat.zero_add, Array.length_toList] at hnext
  exact ⟨next, hr, hnext⟩

theorem Code.lookup_size (hread : code.decodeAll = .ok records) : records.lookup code.size = none := by
  rw [List.lookup_eq_none_iff]
  intro r hr
  obtain ⟨next, hr, -⟩ := instrAt?_of_mem hread hr
  rw [bne_iff_ne]
  intro hend
  rw [instrAt?_eq_none_iff.mpr hend.le] at hr
  cases hr

theorem Code.Boundary.le (hread : code.decodeAll = .ok records) (h : code.Boundary records position) :
    position ≤ code.size := by
  rcases h with hmem | rfl
  · obtain ⟨r, hr, rfl⟩ := List.mem_map.mp hmem
    obtain ⟨next, hr, -⟩ := instrAt?_of_mem hread hr
    by_contra hbeyond
    rw [instrAt?_eq_none_iff.mpr (not_le.mp hbeyond).le] at hr
    cases hr
  · exact le_rfl

theorem Code.Boundary.instrAt? (hread : code.decodeAll = .ok records) (h : code.Boundary records position) :
    (code.instrAt? position = .ok none ∧ records.lookup position = none) ∨
      ∃ i next, code.instrAt? position = .ok (some (i, next)) ∧ records.lookup position = some i ∧
        (position, i) ∈ records ∧ code.Boundary records next := by
  rcases h with hmem | rfl
  · right
    obtain ⟨r, hr, rfl⟩ := List.mem_map.mp hmem
    cases hlookup : records.lookup r.1 with
    | none =>
      have hne := List.lookup_eq_none_iff.mp hlookup r hr
      simp at hne
    | some i =>
      obtain ⟨before, after, rfl, -⟩ := List.lookup_eq_some_iff.mp hlookup
      have hi : (r.1, i) ∈ before ++ (r.1, i) :: after := List.mem_append_right _ List.mem_cons_self
      obtain ⟨next, hat, hnext⟩ := instrAt?_of_mem hread hi
      exact ⟨i, next, hat, rfl, hi, hnext⟩
  · exact Or.inl ⟨instrAt?_eq_none_iff.mpr le_rfl, lookup_size hread⟩

namespace Machine

variable {m : Machine σ}

/-- A machine that has come to a boundary of its image. -/
def Stands (code : Code) (records : List (Nat × Instr)) (m : Machine σ) : Prop :=
  m.code = code ∧ code.Boundary records m.position

theorem Stands.step (hread : code.decodeAll = .ok records)
    (haim : ∀ offset conditional target, (offset, Instr.jump conditional target) ∈ records →
      code.Boundary records target)
    (h : m.Stands code records) : m.step.machine.Stands code records := by
  obtain ⟨rfl, hposition⟩ := h
  have hnext : ∀ i next, m.code.instrAt? m.position = .ok (some (i, next)) →
      (m.position, i) ∈ records ∧ m.code.Boundary records next := by
    intro i next hat
    rcases hposition.instrAt? hread with ⟨hend, -⟩ | ⟨j, after, hj, -, hmem, hafter⟩
    · rw [hend] at hat
      cases hat
    · rw [hj] at hat
      cases hat
      exact ⟨hmem, hafter⟩
  have houtcome := m.step_outcome
  generalize m.step.result = result, m.step.machine = after at houtcome
  cases houtcome with
  | @committed i next e _ hat _ hplan =>
    obtain ⟨hmem, hbehind⟩ := hnext i next hat
    refine ⟨rfl, ?_⟩
    -- only a jump that is taken goes elsewhere than behind its record
    cases (m.plan_yields i).of_ok hplan with
    | @jumps target _ conditional _ => exact haim m.position conditional target hmem
    | _ => exact hbehind
  | called _ hat => exact ⟨rfl, (hnext _ _ hat).2⟩
  | _ => exact ⟨rfl, hposition⟩

theorem stands_of_reachable {P : Conduct σ → Prop} {limits : Limits} (hread : code.decodeAll = .ok records)
    (haim : ∀ offset conditional target, (offset, Instr.jump conditional target) ∈ records →
      code.Boundary records target)
    (h : Reachable P code limits m) : m.Stands code records := by
  refine h.invariant ?_ (fun _ _ hm => hm.step hread haim) ?_
  · have hstart := (Code.decodeAll_eq_ok_iff.mp hread).start_mem
    rw [Nat.zero_add, Array.length_toList] at hstart
    exact ⟨rfl, hstart⟩
  · intro m call _ hm
    cases call <;> exact hm

theorem peekInstr_of_stands (hread : code.decodeAll = .ok records) (h : m.Stands code records) :
    m.peekInstr = .ok (records.lookup m.position) := by
  obtain ⟨rfl, hposition⟩ := h
  rcases hposition.instrAt? hread with ⟨hat, hlookup⟩ | ⟨i, next, hat, hlookup, -⟩
  · rw [peekInstr, hat, hlookup]
    rfl
  · rw [peekInstr, hat, hlookup]
    rfl

/-- A step that fails on a boundary has read its instruction: the fault is one of execution or of a handler. -/
theorem step_error_of_stands (hread : code.decodeAll = .ok records) (h : m.Stands code records) {fault : Fault}
    (hfault : m.step.result = .error fault) :
    ¬ fault.OfReading ∨ ∃ name handler, m.Invokes name ∧ m.handler? name = some handler ∧
      (handler.act handler.state m.stack m.memory).1 = .error fault := by
  obtain ⟨rfl, hposition⟩ := h
  have houtcome := m.step_outcome
  rw [hfault] at houtcome
  generalize m.step.machine = after at houtcome
  cases houtcome with
  | unreadable _ hat =>
    rcases hposition.instrAt? hread with ⟨hend, -⟩ | ⟨i, next, hi, -⟩
    · rw [hend] at hat
      cases hat
    · rw [hi] at hat
      cases hat
  | refused _ _ _ hplan => exact Or.inl ((m.plan_yields _).of_error hplan)
  | unknown => exact Or.inl not_false
  | @failed name next handler _ _ _ _ hat hhandler hact =>
    exact Or.inr ⟨name, handler, ⟨next, hat⟩, hhandler, by rw [hact]⟩

/-- A jump to a place in the code fails for want of a condition only. -/
theorem step_error_of_jump {conditional : Bool} {target : Nat} {fault : Fault}
    (hpeek : m.peekInstr = .ok (some (.jump conditional target))) (htarget : target ≤ m.code.size)
    (hfault : m.step.result = .error fault) : fault = .stackUnderflow := by
  have hjump : ∀ i next, m.code.instrAt? m.position = .ok (some (i, next)) → i = .jump conditional target := by
    intro i next hat
    rw [peekInstr, hat] at hpeek
    cases hpeek
    rfl
  have houtcome := m.step_outcome
  rw [hfault] at houtcome
  generalize m.step.machine = after at houtcome
  cases houtcome with
  | unreadable _ hat =>
    rw [peekInstr, hat] at hpeek
    cases hpeek
  | refused _ hat _ hplan =>
    obtain rfl := hjump _ _ hat
    have hyields := m.planJump_yields (F := (· = .stackUnderflow)) conditional rfl
      fun hbeyond => absurd htarget (not_le.mpr hbeyond)
    exact hyields.of_error hplan
  | unknown _ hat => cases hjump _ _ hat
  | failed _ hat => cases hjump _ _ hat

end Machine

/-- A machine whose image is read to its end and whose jumps land on records or the end never leaves the records. -/
theorem reachable_reads_as_listed (P : Conduct σ → Prop) (code : Code) (records : List (Nat × Instr))
    (limits : Limits) (m : Machine σ) (hread : code.decodeAll = .ok records)
    (haim : ∀ offset conditional target, (offset, Instr.jump conditional target) ∈ records →
      target ∈ records.map Prod.fst ∨ target = code.size)
    (hreach : Reachable P code limits m) :
    (m.position ∈ records.map Prod.fst ∨ m.position = code.size) ∧
      m.peekInstr = .ok (records.lookup m.position) ∧ records.lookup code.size = none ∧
      (∀ fault, m.step.result = .error fault →
        ¬ fault.OfReading ∨ ∃ name handler, m.Invokes name ∧ m.handler? name = some handler ∧
          (handler.act handler.state m.stack m.memory).1 = .error fault) ∧
      (∀ conditional target, m.peekInstr = .ok (some (.jump conditional target)) →
        target ≤ code.size ∧ ∀ fault, m.step.result = .error fault → fault = .stackUnderflow) := by
  have hstands := Machine.stands_of_reachable hread haim hreach
  have hpeek := Machine.peekInstr_of_stands hread hstands
  obtain ⟨hcode, hposition⟩ := hstands
  refine ⟨hposition, hpeek, Code.lookup_size hread, ?_, ?_⟩
  · intro fault hfault
    exact Machine.step_error_of_stands hread ⟨hcode, hposition⟩ hfault
  · intro conditional target hjump
    have htarget : target ≤ code.size := by
      rw [hpeek, Except.ok.injEq] at hjump
      rcases hposition.instrAt? hread with ⟨-, hnone⟩ | ⟨i, next, -, hi, hmem, -⟩
      · rw [hnone] at hjump
        cases hjump
      · obtain rfl : i = .jump conditional target := Option.some.inj (hi.symm.trans hjump)
        exact Code.Boundary.le hread (haim m.position conditional target hmem)
    refine ⟨htarget, ?_⟩
    intro fault hfault
    exact Machine.step_error_of_jump hjump (hcode ▸ htarget) hfault

/-- A loop that leaves out a halt: its jumps land on the records at `20` and `0`. -/
def skippingLoop : List Instr := [.push .one, .jump true 20, .halt, .jump false 0]

theorem reachable_reads_as_listed_loop :
    let m : Machine Nat := (Machine.start (.ofInstrs skippingLoop) {}).step.machine.step.machine
    (m.position ∈ [0, 9, 19, 20] ∨ m.position = 30) ∧ m.peekInstr = .ok (some (.jump false 0)) ∧
      ∀ fault, m.step.result = .error fault → fault = .stackUnderflow := by
  intro m
  have hread : (Code.ofInstrs skippingLoop).decodeAll =
      .ok [(0, .push .one), (9, .jump true 20), (19, .halt), (20, .jump false 0)] := by decide +kernel
  have haim : ∀ offset conditional target, (offset, Instr.jump conditional target) ∈
      [(0, .push .one), (9, .jump true 20), (19, .halt), (20, .jump false 0)] →
      target ∈ [0, 9, 19, 20] ∨ target = (Code.ofInstrs skippingLoop).size := by
    intro offset conditional target hjump
    left
    simp at hjump
    rcases hjump with ⟨-, -, rfl⟩ | ⟨-, -, rfl⟩ <;> decide
  have hreach : Reachable (fun _ => True) (.ofInstrs skippingLoop) {} m := .step (.step .start)
  have hsize : (Code.ofInstrs skippingLoop).size = 30 := by decide +kernel
  have hposition : m.position = 20 := by decide +kernel
  obtain ⟨hplace, hpeek, -, -, hjump⟩ := reachable_reads_as_listed _ _ _ _ m hread haim hreach
  rw [hposition] at hpeek
  exact ⟨hsize ▸ hplace, hpeek, (hjump false 0 hpeek).2⟩

end StackMachine
