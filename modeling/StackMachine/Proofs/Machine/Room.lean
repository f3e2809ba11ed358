import StackMachine.Proofs.Machine.Planning
import StackMachine.Proofs.Memory.Arena
import StackMachine.Proofs.Machine.Running

/-!
Machines with more room. A machine may be given values under those of its stack, a larger stack and more pages. As long
as its steps succeed and call no capability it does not notice: the checks of an instruction look at the top of the
stack only, and more room never makes one of them fail. One comparison of plans covers the values under the stack
and the limits alike; steps and runs follow from it.
-/

set_option autoImplicit false

namespace StackMachine

variable {σ α β : Type} {base : List Double} {wide : Limits} {m : Machine σ} {n : Nat}

instance : LE Limits where
  le tight wide :=
    tight.stackCapacity ≤ wide.stackCapacity ∧
      ∀ most ∈ wide.maxPages, ∃ fewer ∈ tight.maxPages, fewer ≤ most

theorem Limits.le_refl (limits : Limits) : limits ≤ limits :=
  ⟨le_rfl, fun most hmost => ⟨most, hmost, le_rfl⟩⟩

namespace Stack

variable {s : Stack} {x : Double} {count capacity : Nat} {index : Int}

def above (s : Stack) (base : List Double) (capacity : Nat) : Stack := ⟨base.toArray ++ s.values, capacity⟩

theorem toList_above (s : Stack) (base : List Double) (capacity : Nat) :
    (s.above base capacity).values.toList = base ++ s.values.toList := by
  simp [above]

theorem depth_above (s : Stack) (base : List Double) (capacity : Nat) :
    (s.above base capacity).depth = base.length + s.depth := by
  simp [depth_eq_length, toList_above]

theorem above_add (s : Stack) (values base : List Double) (capacity : Nat) :
    (s.add values).above base capacity = (s.above base capacity).add values := by
  refine ext_values ?_ rfl
  rw [toList_above, toList_add, toList_add, toList_above, List.append_assoc]

theorem above_drop (h : count ≤ s.depth) : (s.drop count).above base capacity = (s.above base capacity).drop count := by
  obtain ⟨rest, values, rfl, rfl⟩ := exists_eq_add h
  rw [above_add, drop_add le_rfl, drop_add le_rfl, above_add]

theorem topmost_above (h : count ≤ s.depth) : (s.above base capacity).topmost count = s.topmost count := by
  obtain ⟨rest, values, rfl, rfl⟩ := exists_eq_add h
  rw [above_add, topmost_add le_rfl, topmost_add le_rfl]

theorem peek_above (hindex : index < 0) (h : s.peek index = .ok x) : (s.above base capacity).peek index = .ok x := by
  obtain ⟨rest, values, hlen, rfl⟩ := exists_eq_add (natAbs_le_of_peek hindex h)
  obtain ⟨k, rfl⟩ : ∃ k : Nat, index = -(k + 1 : Nat) := ⟨index.natAbs - 1, by omega⟩
  have hk : k < values.length := by omega
  rw [above_add, peek_add hk]
  rwa [peek_add hk] at h

theorem hasRoom_above (hcapacity : s.capacity + base.length ≤ capacity) (h : s.hasRoom count) :
    (s.above base capacity).hasRoom count := by
  simp only [hasRoom, depth_above, decide_eq_true_eq] at h ⊢
  simp only [above]
  omega

end Stack

theorem Memory.requireAllocatable_withLimit {memory : Memory} {limit : Option Nat}
    (hwide : ∀ most ∈ limit, ∃ fewer ∈ memory.limit, fewer ≤ most) (h : memory.requireAllocatable = .ok ()) :
    ({ memory with limit } : Memory).requireAllocatable = .ok () := by
  cases limit with
  | none => rfl
  | some most =>
    obtain ⟨fewer, hfewer, hle⟩ := hwide most rfl
    have hlive := lt_of_requireAllocatable h hfewer
    exact if_neg (not_le.mpr (hlive.trans_le hle))

theorem Memory.free_withLimit (memory : Memory) (limit : Option Nat) (handle : Nat) :
    ({ memory with limit } : Memory).free handle = { memory.free handle with limit } := by
  have hexists : ({ memory with limit } : Memory).exists? handle = memory.exists? handle := rfl
  rw [free, free, hexists]
  by_cases hlive : memory.exists? handle = true
  · simp only [if_pos hlive]
  · simp only [if_neg hlive]

theorem Effect.applyMemory_withLimit (e : Effect) (memory : Memory) (limit : Option Nat) :
    e.applyMemory { memory with limit } = { e.applyMemory memory with limit } := by
  rcases e with ⟨pops, pushes, _ | change, target, halts⟩
  · rfl
  · cases change with
    | allocate => rfl
    | free handle => exact memory.free_withLimit limit handle
    | write handle address bytes => rfl

/-- What the first computation answers the second one answers too, and the answer satisfies `R`. -/
def Persists (R : α → Prop) (e f : Except Fault α) : Prop := ∀ a, e = .ok a → f = .ok a ∧ R a

theorem persists_self (e : Except Fault α) : Persists (fun _ => True) e e := fun _ h => ⟨h, trivial⟩

theorem persists_ok {R : α → Prop} {a : α} (h : R a) : Persists R (.ok a) (.ok a) := by
  rintro _ ⟨⟩
  exact ⟨rfl, h⟩

theorem persists_error {R : α → Prop} (fault : Fault) (f : Except Fault α) : Persists R (.error fault) f := nofun

theorem Persists.bind {R : β → Prop} {e f : Except Fault α} {g k : α → Except Fault β}
    (he : Persists (fun _ => True) e f) (hg : ∀ a, e = .ok a → Persists R (g a) (k a)) :
    Persists R (e >>= g) (f >>= k) := by
  intro b hb
  obtain ⟨a, ha, hb⟩ := bind_eq_ok_iff.mp hb
  obtain ⟨hk, hR⟩ := hg a ha b hb
  rw [(he a ha).1]
  exact ⟨hk, hR⟩

namespace Machine

def limits (m : Machine σ) : Limits := ⟨m.stack.capacity, m.memory.limit⟩

def withLimits (m : Machine σ) (limits : Limits) : Machine σ :=
  { m with
    stack := { m.stack with capacity := limits.stackCapacity }
    memory := { m.memory with limit := limits.maxPages } }

def above (m : Machine σ) (base : List Double) : Machine σ :=
  { m with stack := m.stack.above base (m.stack.capacity + base.length) }

/-- The machine with its stack on top of other values, and with other limits. -/
abbrev refitted (m : Machine σ) (base : List Double) (limits : Limits) : Machine σ :=
  (m.above base).withLimits limits

theorem persists_requireDepth (m : Machine σ) (base : List Double) (wide : Limits) (count : Nat) :
    Persists (fun _ => True) (m.stack.requireDepth count) ((m.refitted base wide).stack.requireDepth count) := by
  intro _ h
  have hdepth := Stack.le_of_requireDepth h
  refine ⟨Stack.requireDepth_of_le ?_, trivial⟩
  change count ≤ (m.stack.above base wide.stackCapacity).depth
  rw [Stack.depth_above]
  omega

theorem persists_peek (m : Machine σ) (base : List Double) (wide : Limits) (index : Int) (hindex : index < 0) :
    Persists (fun _ => True) (m.stack.peek index) ((m.refitted base wide).stack.peek index) :=
  fun _ h => ⟨Stack.peek_above hindex h, trivial⟩

theorem persists_requireRoom (hwide : (m.above base).limits ≤ wide) (count : Nat) :
    Persists (fun _ => True) (m.stack.requireRoom count) ((m.refitted base wide).stack.requireRoom count) := by
  intro _ h
  have hroom := Stack.hasRoom_above hwide.1 (Stack.requireRoom_eq_ok_iff.mp h)
  exact ⟨Stack.requireRoom_eq_ok_iff.mpr hroom, trivial⟩

theorem persists_requireAllocatable (hwide : (m.above base).limits ≤ wide) :
    Persists (fun _ => True) m.memory.requireAllocatable (m.refitted base wide).memory.requireAllocatable :=
  fun _ h => ⟨Memory.requireAllocatable_withLimit hwide.2 h, trivial⟩

theorem persists_access (m : Machine σ) (base : List Double) (wide : Limits) (mode : Mode) :
    Persists (fun _ => True) (m.access mode) ((m.refitted base wide).access mode) := by
  refine Persists.bind (m.persists_requireDepth base wide 3) fun _ _ => ?_
  refine Persists.bind (m.persists_peek base wide (-1) (by decide)) fun handle _ => ?_
  refine Persists.bind (persists_self _) fun _ _ => ?_
  refine Persists.bind (m.persists_peek base wide (-2) (by decide)) fun address _ => ?_
  refine Persists.bind (persists_self _) fun _ _ => ?_
  refine Persists.bind (m.persists_peek base wide (-3) (by decide)) fun length _ => ?_
  exact Persists.bind (persists_self _) fun _ _ => persists_self _

/-- The values that a store writes lie on top of the stack, and so they are the same. -/
theorem persists_planStore (m : Machine σ) (base : List Double) (wide : Limits) (mode : Mode) :
    Persists (·.pops ≤ m.stack.depth) (m.planStore mode) ((m.refitted base wide).planStore mode) := by
  refine Persists.bind (m.persists_access base wide mode) fun a _ => ?_
  refine Persists.bind (m.persists_requireDepth base wide _) fun _ hdepth => ?_
  have hdepth := Stack.le_of_requireDepth hdepth
  have htop : (m.refitted base wide).stack.topmost (3 + a.count mode) = m.stack.topmost (3 + a.count mode) :=
    Stack.topmost_above hdepth
  rw [htop]
  exact Persists.bind (persists_self _) fun _ _ => persists_ok hdepth

theorem persists_planJump (m : Machine σ) (base : List Double) (wide : Limits) (conditional : Bool) (target : Nat) :
    Persists (·.pops ≤ m.stack.depth) (m.planJump conditional target)
      ((m.refitted base wide).planJump conditional target) := by
  have hcode : (m.refitted base wide).code = m.code := rfl
  rw [planJump, planJump, hcode]
  by_cases hbeyond : m.code.size < target
  · rw [if_pos hbeyond]
    exact persists_error _ _
  · rw [if_neg hbeyond, if_neg hbeyond]
    cases conditional with
    | false => exact persists_ok (Nat.zero_le _)
    | true =>
      refine Persists.bind (m.persists_requireDepth base wide 1) fun _ hdepth => ?_
      refine Persists.bind (m.persists_peek base wide (-1) (by decide)) fun _ _ => ?_
      exact persists_ok (Stack.le_of_requireDepth hdepth)

/-- What is planned for an instruction is planned with more room, too, and takes no more off the stack than there
was before. -/
theorem persists_plan (hwide : (m.above base).limits ≤ wide) (i : Instr) :
    Persists (·.pops ≤ m.stack.depth) (m.plan i) ((m.refitted base wide).plan i) := by
  have hdepth := m.persists_requireDepth base wide
  have hpeek := m.persists_peek base wide
  have hroom := persists_requireRoom hwide
  cases i with
  | halt => exact persists_ok (Nat.zero_le _)
  | capability name => exact persists_error _ _
  | capabilityCheck name =>
    have hcapabilities : (m.refitted base wide).capabilities = m.capabilities := rfl
    rw [plan, plan, hcapabilities]
    cases m.capabilities with
    | none => exact persists_error _ _
    | some table => exact Persists.bind (hroom 1) fun _ _ => persists_ok (Nat.zero_le _)
  | push value => exact Persists.bind (hroom 1) fun _ _ => persists_ok (Nat.zero_le _)
  | pushBytes bytes => exact Persists.bind (hroom _) fun _ _ => persists_ok (Nat.zero_le _)
  | pop => exact Persists.bind (hdepth 1) fun _ h => persists_ok (Stack.le_of_requireDepth h)
  | swap =>
    refine Persists.bind (hdepth 2) fun _ h => ?_
    refine Persists.bind (hpeek (-2) (by decide)) fun _ _ => ?_
    exact Persists.bind (hpeek (-1) (by decide)) fun _ _ => persists_ok (Stack.le_of_requireDepth h)
  | dup =>
    refine Persists.bind (hpeek (-1) (by decide)) fun _ _ => ?_
    exact Persists.bind (hroom 1) fun _ _ => persists_ok (Nat.zero_le _)
  | dup2 =>
    refine Persists.bind (hpeek (-2) (by decide)) fun _ _ => ?_
    refine Persists.bind (hpeek (-1) (by decide)) fun _ _ => ?_
    exact Persists.bind (hroom 2) fun _ _ => persists_ok (Nat.zero_le _)
  | select =>
    refine Persists.bind (hdepth 3) fun _ h => ?_
    refine Persists.bind (hpeek (-1) (by decide)) fun condition _ => ?_
    refine Persists.bind (hpeek _ (by split <;> decide)) fun _ _ => ?_
    exact persists_ok (Stack.le_of_requireDepth h)
  | jump conditional target => exact m.persists_planJump base wide conditional target
  | memPlz =>
    refine Persists.bind (hroom 1) fun _ _ => ?_
    exact Persists.bind (persists_requireAllocatable hwide) fun _ _ => persists_ok (Nat.zero_le _)
  | memCya =>
    refine Persists.bind (hpeek (-1) (by decide)) fun _ h => ?_
    exact Persists.bind (persists_self _) fun _ _ => persists_ok (Stack.natAbs_le_of_peek (by decide) h)
  | memCheck =>
    refine Persists.bind (hdepth 1) fun _ h => ?_
    exact Persists.bind (hpeek (-1) (by decide)) fun _ _ => persists_ok (Stack.le_of_requireDepth h)
  | memLoad mode =>
    refine Persists.bind (m.persists_access base wide mode) fun a ha => ?_
    exact Persists.bind (hroom _) fun _ _ => persists_ok (Work.access_eq_ok ha).1
  | memStore mode => exact m.persists_planStore base wide mode
  | unary op =>
    refine Persists.bind (hdepth 1) fun _ h => ?_
    exact Persists.bind (hpeek (-1) (by decide)) fun _ _ => persists_ok (Stack.le_of_requireDepth h)
  | binary op =>
    refine Persists.bind (hdepth 2) fun _ h => ?_
    refine Persists.bind (hpeek (-2) (by decide)) fun _ _ => ?_
    exact Persists.bind (hpeek (-1) (by decide)) fun _ _ => persists_ok (Stack.le_of_requireDepth h)
  | «over» =>
    refine Persists.bind (hpeek (-2) (by decide)) fun _ _ => ?_
    exact Persists.bind (hroom 1) fun _ _ => persists_ok (Nat.zero_le _)

theorem commit_refitted {e : Effect} (h : e.pops ≤ m.stack.depth) (next : Nat) :
    (m.refitted base wide).commit e next = (m.commit e next).refitted base wide := by
  have hstack : ((m.stack.above base wide.stackCapacity).drop e.pops).add e.pushes =
      ((m.stack.drop e.pops).add e.pushes).above base wide.stackCapacity := by
    rw [← Stack.above_drop h, ← Stack.above_add]
  have hmemory := e.applyMemory_withLimit m.memory wide.maxPages
  change { m.commit e next with
    stack := ((m.stack.above base wide.stackCapacity).drop e.pops).add e.pushes
    memory := e.applyMemory { m.memory with limit := wide.maxPages } } = _
  rw [hstack, hmemory]
  rfl

theorem limits_commit (m : Machine σ) (e : Effect) (next : Nat) : (m.commit e next).limits = m.limits := by
  have hlimit := congrArg Memory.limit (e.applyMemory_withLimit m.memory m.memory.limit)
  exact congrArg (Limits.mk m.stack.capacity) hlimit

def atCall (m : Machine σ) : Bool :=
  match m.peekInstr with
  | .ok (some (.capability _)) => !m.halted
  | _ => false

theorem atCall_of_faces {name : String} (h : m.Faces (.capability name)) : m.atCall = true := by
  rw [atCall, h.2, h.1]
  rfl

theorem limits_step (h : m.atCall = false) : m.step.machine.limits = m.limits := by
  have houtcome := m.step_outcome
  generalize m.step.result = result, m.step.machine = after at houtcome
  cases houtcome with
  | committed => exact limits_commit _ _ _
  | called hm hread =>
    rw [atCall_of_faces (faces_iff.mpr ⟨hm, _, hread⟩)] at h
    cases h
  | _ => rfl

/-- A step that succeeds and calls no capability is the same step with more room. -/
theorem step_refitted (hwide : (m.above base).limits ≤ wide) (hok : m.step.result.isOk) (hcall : m.atCall = false) :
    (m.refitted base wide).step.result = m.step.result ∧
      (m.refitted base wide).step.machine = m.step.machine.refitted base wide := by
  have houtcome := m.step_outcome
  generalize m.step.result = result, m.step.machine = after at houtcome hok
  cases houtcome with
  | stays hm =>
    rw [step_of_halted (m := m.refitted base wide) hm]
    exact ⟨rfl, rfl⟩
  | ends hm hread =>
    rw [step_of_end (m := m.refitted base wide) hm hread]
    exact ⟨rfl, rfl⟩
  | committed hm hread hplain hplan =>
    obtain ⟨hplan, hpops⟩ := persists_plan hwide _ _ hplan
    obtain ⟨hresult, hmachine⟩ := step_of_instrAt? (m := m.refitted base wide) hm hread
    rw [hresult, hmachine, (execute_of_ok hplain hplan).1, (execute_of_ok hplain hplan).2, commit_refitted hpops]
    exact ⟨rfl, rfl⟩
  | called hm hread =>
    rw [atCall_of_faces (faces_iff.mpr ⟨hm, _, hread⟩)] at hcall
    cases hcall
  | _ => cases hok

/-- The next steps all succeed, and none of them calls a capability. -/
def Unaided (m : Machine σ) (n : Nat) : Prop :=
  ∀ k < n, (m.stepped k).step.result.isOk ∧ (m.stepped k).atCall = false

instance (m : Machine σ) (n : Nat) : Decidable (m.Unaided n) := inferInstanceAs (Decidable (∀ k < n, _))

theorem Unaided.mono {k : Nat} (h : m.Unaided n) (hk : k ≤ n) : m.Unaided k :=
  fun j hj => h j (hj.trans_le hk)

theorem limits_stepped (h : m.Unaided n) : (m.stepped n).limits = m.limits := by
  induction n with
  | zero => rfl
  | succ n ih =>
    rw [stepped_succ', limits_step (h n n.lt_succ_self).2]
    exact ih (h.mono n.le_succ)

theorem limits_above_stepped (h : m.Unaided n) : ((m.stepped n).above base).limits = (m.above base).limits := by
  have hlimits := limits_stepped h
  rw [limits, limits, Limits.mk.injEq] at hlimits
  simp only [limits, above, Stack.above, hlimits]

theorem Unaided.each_step {k : Nat} (hwide : (m.above base).limits ≤ wide) (h : m.Unaided n) (hk : k < n) :
    ((m.stepped k).refitted base wide).step.result = (m.stepped k).step.result ∧
      ((m.stepped k).refitted base wide).step.machine = (m.stepped (k + 1)).refitted base wide := by
  obtain ⟨hok, hcall⟩ := h k hk
  rw [← limits_above_stepped (h.mono hk.le)] at hwide
  rw [stepped_succ']
  exact step_refitted hwide hok hcall

theorem stepped_refitted (hwide : (m.above base).limits ≤ wide) (h : m.Unaided n) :
    (m.refitted base wide).stepped n = (m.stepped n).refitted base wide := by
  induction n with
  | zero => rfl
  | succ n ih =>
    rw [stepped_succ', ih (h.mono n.le_succ)]
    exact (h.each_step hwide n.lt_succ_self).2

theorem Unaided.runFor_eq (h : m.Unaided n) :
    (m.runFor n).result = .ok (if (m.stepped n).halted then .halted else .running) ∧
      (m.runFor n).machine = m.stepped n :=
  runFor_of_isOk fun k hk => (h k hk).1

/-- With more room each step has the status that it had, and the machines at the end differ by the room only; so do
those that a run with as large a budget leaves. -/
theorem Unaided.refitted (hwide : (m.above base).limits ≤ wide) (h : m.Unaided n) :
    (∀ k < n, ((m.refitted base wide).stepped k).step.result = (m.stepped k).step.result) ∧
      (m.refitted base wide).stepped n = (m.stepped n).refitted base wide ∧
      ((m.refitted base wide).runFor n).result = (m.runFor n).result ∧
      ((m.refitted base wide).runFor n).machine = (m.stepped n).refitted base wide := by
  have hstatus : ∀ k < n, ((m.refitted base wide).stepped k).step.result = (m.stepped k).step.result := by
    intro k hk
    rw [stepped_refitted hwide (h.mono hk.le)]
    exact (h.each_step hwide hk).1
  have hok : ∀ k < n, ((m.refitted base wide).stepped k).step.result.isOk := by
    intro k hk
    rw [hstatus k hk]
    exact (h k hk).1
  have hend := stepped_refitted hwide h
  obtain ⟨hresult, hmachine⟩ := runFor_of_isOk hok
  refine ⟨hstatus, hend, ?_, ?_⟩
  · rw [hresult, hend, h.runFor_eq.1]
    rfl
  · rw [hmachine, hend]

theorem refitted_nil (m : Machine σ) (wide : Limits) : m.refitted [] wide = m.withLimits wide := by
  simp [withLimits, above, Stack.above]

end Machine

/-- Values under the stack of a machine, with room for them, change nothing about steps that succeed and call no
capability: they stay where they are, and everything else comes out the same. -/
theorem steps_above_values (m : Machine σ) (base : List Double) (n : Nat) (hsteps : m.Unaided n) :
    (∀ k < n, ((m.above base).stepped k).step.result = (m.stepped k).step.result) ∧
      (m.above base).stepped n = (m.stepped n).above base ∧
      ((m.above base).runFor n).result = (m.runFor n).result ∧
      ((m.above base).runFor n).machine = (m.runFor n).machine.above base := by
  have hend : (m.stepped n).refitted base (m.above base).limits = (m.stepped n).above base := by
    rw [← Machine.limits_above_stepped hsteps]
    rfl
  obtain ⟨hstatus, hstepped, hresult, hmachine⟩ := hsteps.refitted (Limits.le_refl (m.above base).limits)
  rw [hend] at hstepped hmachine
  rw [hsteps.runFor_eq.2]
  exact ⟨hstatus, hstepped, hresult, hmachine⟩

def exchanging : Code :=
  .ofInstrs [.push (.ofNat 7), .push (.ofNat 8), .push .zero, .memPlz, .memStore .float, .push (.ofNat 8), .push .zero,
    .push .zero, .memLoad .float, .dup, .binary .add, .halt]

theorem steps_above_values_exchanging :
    let m : Machine Nat := .start exchanging { stackCapacity := 4 }
    let base := [Double.nan, .ofNat 5]
    m.Unaided 12 ∧ ((m.above base).runFor 12).result = .ok .halted ∧
      ((m.above base).stepped 12).stack.values.toList = base ++ [.ofNat 14] ∧
      ((m.above base).stepped 12).stack.capacity = 6 := by
  intro m base
  have hsteps : m.Unaided 12 := by decide +kernel
  have hhalted : (m.runFor 12).result = .ok .halted := by decide +kernel
  have hvalues : ((m.stepped 12).above base).stack.values.toList = base ++ [.ofNat 14] := by decide +kernel
  have hcapacity : ((m.stepped 12).above base).stack.capacity = 6 := by decide +kernel
  obtain ⟨-, hend, hresult, -⟩ := steps_above_values m base 12 hsteps
  rw [hresult, hend]
  exact ⟨hsteps, hhalted, hvalues, hcapacity⟩

/-- Wider limits change nothing about steps that succeed and call no capability. -/
theorem steps_withLimits (m : Machine σ) (wide : Limits) (n : Nat) (hwide : m.limits ≤ wide) (hsteps : m.Unaided n) :
    (∀ k < n, ((m.withLimits wide).stepped k).step.result = (m.stepped k).step.result) ∧
      (m.withLimits wide).stepped n = (m.stepped n).withLimits wide ∧
      ((m.withLimits wide).runFor n).result = (m.runFor n).result ∧
      ((m.withLimits wide).runFor n).machine = (m.runFor n).machine.withLimits wide := by
  have hnil : (m.above []).limits ≤ wide := hwide
  obtain ⟨hstatus, hstepped, hresult, hmachine⟩ := hsteps.refitted hnil
  rw [hsteps.runFor_eq.2]
  simp only [Machine.refitted_nil] at hstatus hstepped hresult hmachine
  exact ⟨hstatus, hstepped, hresult, hmachine⟩

theorem steps_withLimits_exchanging :
    let tight : Machine Nat := .start exchanging { stackCapacity := 4, maxPages := some 1 }
    let wide : Machine Nat := .start exchanging {}
    tight.Unaided 12 ∧ (wide.runFor 12).result = .ok .halted ∧
      (wide.stepped 12).stack.values.toList = [.ofNat 14] ∧ (wide.stepped 12).memory.handles = [0] := by
  intro tight wide
  have hsteps : tight.Unaided 12 := by decide +kernel
  have hhalted : (tight.runFor 12).result = .ok .halted := by decide +kernel
  have hvalues : ((tight.stepped 12).withLimits {}).stack.values.toList = [.ofNat 14] := by decide +kernel
  have hhandles : ((tight.stepped 12).withLimits {}).memory.handles = [0] := by decide +kernel
  have hwide : tight.limits ≤ {} := ⟨by decide, nofun⟩
  obtain ⟨-, hend, hresult, -⟩ := steps_withLimits tight {} 12 hwide hsteps
  have hstart : wide = tight.withLimits {} := rfl
  rw [hstart, hresult, hend]
  exact ⟨hsteps, hhalted, hvalues, hhandles⟩

end StackMachine
