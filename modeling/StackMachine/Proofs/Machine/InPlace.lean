import StackMachine.Proofs.Code.Spelling
import StackMachine.Proofs.Machine.Outcome
import StackMachine.Proofs.Stack
import Mathlib.Tactic

/-!
Execution in place. `Machine.plan` looks at the operands of an instruction and `Machine.commit` does the rest. A
machine that works in place takes operands off its stack before it puts results on it, has moved its
cursor by the time a record turns out to be broken, and lets a handler have its own stack. `Machine.stepInPlace` is
such a machine, and `stepInPlace_eq_step` says that on a bounded stack it does what `Machine.step` does, the
outcomes of failed instructions included.
-/

set_option autoImplicit false

namespace StackMachine

variable {σ α : Type}

/-- Work on a machine. What was changed before a failure stays changed. -/
abbrev Work (σ : Type) := ExceptT Fault (StateM (Machine σ))

namespace Work

def stack (operation : Stack → Except Fault (α × Stack)) : Work σ α := fun m =>
  match operation m.stack with
  | .ok (a, stack) => (.ok a, { m with stack })
  | .error fault => (.error fault, m)

def memory (operation : Memory → Except Fault (α × Memory)) : Work σ α := fun m =>
  match operation m.memory with
  | .ok (a, memory) => (.ok a, { m with memory })
  | .error fault => (.error fault, m)

def look (question : Machine σ → Except Fault α) : Work σ α := fun m => (question m, m)

def pop : Work σ Double := stack Stack.pop

def popMany (count : Nat) : Work σ (List Double) := stack (·.popMany count)

def push (x : Double) : Work σ Unit := stack fun s => (s.push x).map ((), ·)

def pushAll (values : List Double) : Work σ Unit := stack fun s => (s.pushAll values).map ((), ·)

def peek (index : Int) : Work σ Double := look (·.stack.peek index)

def jumpTo (target : Nat) : Work σ Unit := fun m =>
  if m.code.size < target then (.error (.invalidOperand "jump target"), m)
  else (.ok (), { m with position := target })

def decode : Work σ (Option Instr) := fun m =>
  match Read.instr? ⟨m.code, m.position⟩ with
  | (result, c) => (result, { m with position := c.position })

def call (name : String) : Work σ Unit := fun m =>
  match m.handler? name with
  | none => (.error (.notImplemented name), m)
  | some handler =>
    let saved := m.stack
    let (result, stack, state) := handler.act handler.state m.stack m.memory
    let m := { m with stack, capabilities := m.capabilities.map (·.setState name state) }
    match result with
    | .ok () => (.ok (), m)
    | .error fault => (.error fault, { m with stack := saved })

def jump (conditional : Bool) (target : Nat) : Work σ Unit := do
  look fun m => if m.code.size < target then .error (.invalidOperand "jump target") else .ok ()
  if conditional then
    if (← pop).truthy then jumpTo target
  else jumpTo target

def load (mode : Mode) : Work σ Unit := do
  let a ← look (·.access mode)
  look (·.stack.requireRoom (a.count mode - 3))
  let values := (List.range (a.count mode)).map fun i => mode.load a.page (a.address + i * mode.width)
  let _ ← popMany 3
  pushAll values

def store (mode : Mode) : Work σ Unit := do
  let a ← look (·.access mode)
  look (·.stack.requireDepth (3 + a.count mode))
  let bytes ← look fun m =>
    (List.range (a.count mode)).mapM fun i => m.stack.peek (-(3 + i + 1 : Nat)) >>= mode.bytes
  let _ ← popMany (3 + a.count mode)
  memory fun memory => (memory.write a.handle a.address bytes.flatten).map ((), ·)

def execute : Instr → Work σ Unit
  | .halt => modify fun m => { m with halted := true }
  | .capability name => call name
  | .capabilityCheck name => do
    let present ← look fun m =>
      match m.capabilities with
      | none => .error (.notImplemented name)
      | some table => .ok (table.contains name)
    push (.ofBool present)
  | .push value => push value
  | .pushBytes bytes => pushAll (bytes.map Double.ofByte)
  | .pop => do
    let _ ← pop
  | .swap => do pushAll (← popMany 2).reverse
  | .dup => do push (← peek (-1))
  | .dup2 => do
    let under ← peek (-2)
    let top ← peek (-1)
    pushAll [top, under]
  | .over => do push (← peek (-2))
  | .select => do
    look (·.stack.requireDepth 3)
    let condition ← pop
    let first ← pop
    let second ← pop
    push (if condition.truthy then first else second)
  | .jump conditional target => jump conditional target
  | .memPlz => do
    look (·.stack.requireRoom 1)
    push (.ofNat (← memory Memory.allocate))
  | .memCya => do
    let value ← peek (-1)
    let handle ← look fun _ => value.toNatOf "page handle"
    let _ ← pop
    memory fun memory => .ok ((), memory.free handle)
  | .memCheck => do
    let value ← pop
    let live ← look fun m => .ok (value.toNat?.any m.memory.exists?)
    push (.ofBool live)
  | .memLoad mode => load mode
  | .memStore mode => store mode
  | .unary op => do push (op.eval (← pop))
  | .binary op => do
    look (·.stack.requireDepth 2)
    let right ← pop
    let left ← pop
    push (op.eval left right)

def cycle : Work σ Unit := do
  match ← decode with
  | some i => execute i
  | none => modify fun m => { m with halted := true }

end Work

/-- One step in place: after a failure the cursor, and nothing else, is put back. -/
def Machine.stepInPlace (m : Machine σ) : Except Fault Status × Machine σ :=
  if m.halted then (.ok .halted, m)
  else if m.code.size ≤ m.position then (.ok .halted, { m with halted := true })
  else
    match Work.cycle m with
    | (.ok (), after) =>
      (.ok (if after.halted then .halted else .running), { after with steps := after.steps + 1 })
    | (.error fault, after) => (.error fault, { after with position := m.position })

def Machine.carryOut (m : Machine σ) : Except Fault Effect → Except Fault Unit × Machine σ
  | .ok e => (.ok (), { m.commit e m.position with steps := m.steps })
  | .error fault => (.error fault, m)

namespace Work

variable {m : Machine σ} {rest : Stack} {values : List Double} {x : Double}

theorem carryOut_ok {e : Effect} (hm : m.halted = e.halts) (hs : m.stack = rest.add values)
    (hpops : e.pops = values.length) :
    m.carryOut (.ok e) =
      (.ok (), { m with
        position := e.target.getD m.position
        stack := rest.add e.pushes
        memory := e.applyMemory m.memory }) := by
  simp only [Machine.carryOut, Machine.commit, hs, hpops, Stack.drop_add le_rfl, List.drop_length,
    Stack.add_nil, ← hm]

/-- A look at the machine is a check of the plan. -/
theorem look_bind {question : Machine σ → Except Fault α} {w : α → Work σ Unit}
    {planned : α → Except Fault Effect} (h : ∀ a, question m = .ok a → w a m = m.carryOut (planned a)) :
    (look question >>= w) m = m.carryOut (question m >>= planned) := by
  rw [bind_apply, look]
  cases hq : question m with
  | error fault => rfl
  | ok a => exact h a hq

theorem pop_apply (hs : m.stack = rest.add (x :: values)) :
    pop m = (.ok x, { m with stack := rest.add values }) := by
  simp only [pop, stack, hs, Stack.pop_add_cons]

theorem pop_apply_of_empty (hs : m.stack.depth = 0) : pop m = (.error .stackUnderflow, m) := by
  simp only [pop, stack, Stack.pop_of_depth_eq_zero hs]

theorem popMany_apply {count : Nat} (hs : m.stack = rest.add values) (hcount : values.length = count) :
    popMany count m = (.ok values, { m with stack := rest }) := by
  subst hcount
  simp only [popMany, stack, hs, Stack.popMany_add]

theorem pushAll_apply (values : List Double) (h : m.stack.hasRoom values.length) :
    pushAll values m = (.ok (), { m with stack := m.stack.add values }) := by
  simp only [pushAll, stack, Stack.pushAll_eq, Stack.requireRoom_eq_ok_iff.mpr h, Except.map]

theorem push_eq_pushAll (x : Double) : (push x : Work σ Unit) = pushAll [x] := by
  funext m
  simp only [push, pushAll, Stack.push_eq_pushAll]

theorem push_apply (x : Double) (h : m.stack.hasRoom 1) :
    push x m = (.ok (), { m with stack := m.stack.add [x] }) := by
  rw [push_eq_pushAll]
  exact pushAll_apply [x] h

theorem pushAll_eq_carryOut (hm : m.halted = false) (values : List Double) :
    pushAll values m =
      m.carryOut (m.stack.requireRoom values.length >>= fun _ => .ok { pushes := values }) := by
  cases hroom : m.stack.requireRoom values.length with
  | error fault => simp only [pushAll, stack, Stack.pushAll_eq, hroom, Except.map, error_bind, Machine.carryOut]
  | ok =>
    have hs : m.stack = m.stack.add [] := (Stack.add_nil _).symm
    rw [pushAll_apply values (Stack.requireRoom_eq_ok_iff.mp hroom), ok_bind, carryOut_ok hm hs rfl]
    rfl

theorem push_eq_carryOut (hm : m.halted = false) (x : Double) :
    push x m = m.carryOut (m.stack.requireRoom 1 >>= fun _ => .ok { pushes := [x] }) := by
  rw [push_eq_pushAll]
  exact pushAll_eq_carryOut hm [x]

/-- A value is taken off the stack where the plan looks at it only. -/
theorem pop_bind {w : Double → Work σ Unit} {planned : Double → Except Fault Effect}
    (h : ∀ rest x, m.stack = rest.add [x] → w x { m with stack := rest } = m.carryOut (planned x)) :
    (pop >>= w) m =
      m.carryOut (m.stack.requireDepth 1 >>= fun _ => m.stack.peek (-1) >>= planned) := by
  by_cases hdepth : 1 ≤ m.stack.depth
  · obtain ⟨rest, values, hlen, hs⟩ := Stack.exists_eq_add hdepth
    obtain ⟨x, rfl⟩ := List.length_eq_one_iff.mp hlen
    have hpeek : m.stack.peek (-1) = .ok x := by rw [hs, Stack.peek_add_first]
    rw [Stack.requireDepth_of_le hdepth, hpeek, ok_bind, ok_bind, bind_apply, pop_apply hs, Stack.add_nil]
    exact h rest x hs
  · rw [Stack.requireDepth_of_lt (not_le.mp hdepth), error_bind, bind_apply, pop_apply_of_empty (by omega)]
    rfl

theorem push_after (hm : m.halted = false) (hb : m.stack.Bounded) (hs : m.stack = rest.add (x :: values))
    (y : Double) :
    push y { m with stack := rest } =
      m.carryOut (.ok { pops := (x :: values).length, pushes := [y] }) := by
  have hroom : rest.hasRoom 1 := (hs ▸ hb).hasRoom (by simp)
  rw [push_apply y hroom, carryOut_ok hm hs rfl]
  rfl

theorem execute_unary (hm : m.halted = false) (hb : m.stack.Bounded) (op : Unary) :
    execute (.unary op) m = m.carryOut (m.planUnary op) :=
  pop_bind fun _ x hs => push_after hm hb hs (op.eval x)

theorem execute_memCheck (hm : m.halted = false) (hb : m.stack.Bounded) :
    execute .memCheck m = m.carryOut (m.plan .memCheck) :=
  pop_bind fun _ _ hs => push_after hm hb hs _

theorem execute_binary (hm : m.halted = false) (hb : m.stack.Bounded) (op : Binary) :
    execute (.binary op) m = m.carryOut (m.planBinary op) := by
  apply look_bind
  intro _ hdepth
  obtain ⟨rest, values, hlen, hs⟩ := Stack.exists_eq_add (Stack.le_of_requireDepth hdepth)
  obtain ⟨x, y, rfl⟩ := List.length_eq_two.mp hlen
  rw [hs, Stack.peek_add_first, Stack.peek_add_second, ok_bind, ok_bind, bind_apply, pop_apply hs]
  change (pop >>= _) _ = _
  rw [bind_apply, pop_apply rfl, Stack.add_nil]
  exact push_after hm hb hs (op.eval y x)

theorem execute_select (hm : m.halted = false) (hb : m.stack.Bounded) :
    execute .select m = m.carryOut (m.plan .select) := by
  apply look_bind
  intro _ hdepth
  obtain ⟨rest, values, hlen, hs⟩ := Stack.exists_eq_add (Stack.le_of_requireDepth hdepth)
  obtain ⟨condition, first, second, rfl⟩ := List.length_eq_three.mp hlen
  have hchoice : m.stack.peek (if condition.truthy then -2 else -3) =
      .ok (if condition.truthy then first else second) := by
    rw [hs]
    split <;> simp
  rw [show m.stack.peek (-1) = .ok condition by rw [hs, Stack.peek_add_first], ok_bind, hchoice, ok_bind,
    bind_apply, pop_apply hs]
  change (pop >>= _) _ = _
  rw [bind_apply, pop_apply rfl]
  change (pop >>= _) _ = _
  rw [bind_apply, pop_apply rfl, Stack.add_nil]
  exact push_after hm hb hs _

theorem execute_swap (hm : m.halted = false) (hb : m.stack.Bounded) :
    execute .swap m = m.carryOut (m.plan .swap) := by
  by_cases hdepth : 2 ≤ m.stack.depth
  · obtain ⟨rest, values, hlen, hs⟩ := Stack.exists_eq_add hdepth
    obtain ⟨x, y, rfl⟩ := List.length_eq_two.mp hlen
    have hplan : m.plan .swap = .ok { pops := [x, y].length, pushes := [y, x] } := by
      rw [Machine.plan, Stack.requireDepth_of_le hdepth, hs, Stack.peek_add_first, Stack.peek_add_second]
      rfl
    have hroom : rest.hasRoom 2 := (hs ▸ hb).hasRoom le_rfl
    rw [hplan, carryOut_ok hm hs rfl, execute, bind_apply, popMany_apply hs hlen]
    exact pushAll_apply [y, x] hroom
  · rw [Machine.plan, Stack.requireDepth_of_lt (not_le.mp hdepth), execute, bind_apply, popMany, stack,
      Stack.popMany, Stack.requireDepth_of_lt (not_le.mp hdepth)]
    rfl

theorem execute_pop (hm : m.halted = false) : execute .pop m = m.carryOut (m.plan .pop) := by
  by_cases hdepth : 1 ≤ m.stack.depth
  · obtain ⟨rest, values, hlen, hs⟩ := Stack.exists_eq_add hdepth
    obtain ⟨x, rfl⟩ := List.length_eq_one_iff.mp hlen
    rw [Machine.plan, Stack.requireDepth_of_le hdepth, ok_bind, execute, bind_apply, pop_apply hs]
    exact (carryOut_ok (e := { pops := 1 }) hm hs rfl).symm
  · rw [Machine.plan, Stack.requireDepth_of_lt (not_le.mp hdepth), execute, bind_apply,
      pop_apply_of_empty (by omega)]
    rfl

theorem execute_jump (hm : m.halted = false) (conditional : Bool) (target : Nat) :
    execute (.jump conditional target) m = m.carryOut (m.planJump conditional target) := by
  have hstay : m.stack = m.stack.add [] := (Stack.add_nil _).symm
  by_cases hfar : m.code.size < target
  · simp only [execute, jump, Machine.planJump, bind_apply, look, if_pos hfar]
    rfl
  have hplan : m.planJump conditional target =
      if conditional then
        m.stack.requireDepth 1 >>= fun _ => m.stack.peek (-1) >>= fun x =>
          .ok { pops := 1, target := if x.truthy then some target else none }
      else .ok { target := some target } := by
    simp only [Machine.planJump, if_neg hfar]
    rfl
  rw [hplan, execute, jump, bind_apply, look, if_neg hfar]
  cases conditional with
  | false =>
    refine Eq.trans ?_ (carryOut_ok (e := { target := some target }) hm hstay rfl).symm
    simp only [Bool.false_eq_true, if_false, jumpTo, if_neg hfar, Stack.add_nil]
    rfl
  | true =>
    apply pop_bind
    intro rest x hs
    rw [carryOut_ok hm hs rfl]
    cases x.truthy with
    | false => rfl
    | true =>
      simp only [if_true, jumpTo, if_neg hfar]
      rfl

theorem execute_memPlz (hm : m.halted = false) : execute .memPlz m = m.carryOut (m.plan .memPlz) := by
  apply look_bind
  intro _ hroom
  have hstay : m.stack = m.stack.add [] := (Stack.add_nil _).symm
  rw [bind_apply, memory, Memory.allocate]
  cases m.memory.requireAllocatable with
  | error fault => rfl
  | ok =>
    rw [ok_bind, ok_bind]
    refine Eq.trans (push_apply _ (Stack.requireRoom_eq_ok_iff.mp hroom)) ?_
    exact (carryOut_ok (e := { pushes := [.ofNat m.memory.nextHandle], memory := some .allocate })
      hm hstay rfl).symm

theorem execute_memCya (hm : m.halted = false) : execute .memCya m = m.carryOut (m.plan .memCya) := by
  refine look_bind fun value hvalue => look_bind fun handle _ => ?_
  obtain ⟨rest, hs⟩ := Stack.eq_add_of_peek hvalue
  rw [bind_apply, pop_apply hs, Stack.add_nil]
  exact (carryOut_ok (e := { pops := 1, memory := some (.free handle) }) hm hs rfl).symm

theorem access_eq_ok {mode : Mode} {a : Access} (h : m.access mode = .ok a) :
    3 ≤ m.stack.depth ∧ a.length % mode.width = 0 ∧
      m.memory.requireRange a.handle a.address a.length = .ok a.page ∧
      ∃ top, m.stack.peek (-1) = .ok top ∧ top.toNat? = some a.handle := by
  obtain ⟨_, hdepth, h⟩ := bind_eq_ok_iff.mp h
  obtain ⟨top, htop, h⟩ := bind_eq_ok_iff.mp h
  obtain ⟨handle, hhandle, h⟩ := bind_eq_ok_iff.mp h
  obtain ⟨under, -, h⟩ := bind_eq_ok_iff.mp h
  obtain ⟨address, -, h⟩ := bind_eq_ok_iff.mp h
  obtain ⟨third, -, h⟩ := bind_eq_ok_iff.mp h
  obtain ⟨length, -, h⟩ := bind_eq_ok_iff.mp h
  by_cases hmultiple : length % mode.width = 0
  · rw [if_neg (not_not.mpr hmultiple)] at h
    obtain ⟨page, hpage, h⟩ := bind_eq_ok_iff.mp h
    cases h
    exact ⟨Stack.le_of_requireDepth hdepth, hmultiple, hpage, top, htop, Read.toNatOf_eq_ok_iff.mp hhandle⟩
  · rw [if_pos hmultiple] at h
    cases h

theorem execute_load (hm : m.halted = false) (mode : Mode) :
    execute (.memLoad mode) m = m.carryOut (m.planLoad mode) := by
  refine look_bind fun a ha => look_bind fun _ hroom => ?_
  obtain ⟨rest, values, hlen, hs⟩ := Stack.exists_eq_add (access_eq_ok ha).1
  have hroom : rest.hasRoom (a.count mode) := by
    rw [Stack.requireRoom_eq_ok_iff, hs] at hroom
    simp only [Stack.hasRoom, Stack.depth_add, Stack.capacity_add, decide_eq_true_eq, hlen] at hroom ⊢
    omega
  rw [bind_apply, popMany_apply hs hlen]
  refine (pushAll_apply _ ?_).trans (carryOut_ok (e := { pops := 3, pushes := _ }) hm hs hlen.symm).symm
  rw [List.length_map, List.length_range]
  exact hroom

theorem length_mode_bytes {mode : Mode} {x : Double} {bytes : List UInt8} (h : mode.bytes x = .ok bytes) :
    bytes.length = mode.width := by
  cases mode with
  | byte =>
    obtain ⟨n, -, h⟩ := bind_eq_ok_iff.mp h
    split at h <;> cases h
    rfl
  | float =>
    cases h
    exact Double.length_toBytes x

theorem length_flatten_mapM {mode : Mode} {bytes : List (List UInt8)}
    (h : values.mapM mode.bytes = .ok bytes) : bytes.flatten.length = values.length * mode.width := by
  induction values generalizing bytes with
  | nil =>
    cases h
    simp
  | cons x values ih =>
    rw [List.mapM_cons, bind_eq_ok_iff] at h
    obtain ⟨first, hfirst, h⟩ := h
    obtain ⟨more, hmore, h⟩ := bind_eq_ok_iff.mp h
    cases h
    rw [List.flatten_cons, List.length_append, length_mode_bytes hfirst, ih hmore, List.length_cons]
    ring

/-- The elements that an access counts are as many bytes as it asks for. -/
theorem length_flatten_topmost {mode : Mode} {a : Access} {s : Stack} {bytes : List (List UInt8)}
    (hmultiple : a.length % mode.width = 0) (hdepth : 3 + a.count mode ≤ s.depth)
    (h : ((s.topmost (3 + a.count mode)).drop 3).mapM mode.bytes = .ok bytes) : bytes.flatten.length = a.length := by
  have hproduct : a.count mode * mode.width = a.length := Nat.div_mul_cancel (Nat.dvd_of_mod_eq_zero hmultiple)
  rw [length_flatten_mapM h, List.length_drop, Stack.length_topmost hdepth, Nat.add_sub_cancel_left, hproduct]

theorem mapM_peek {count : Nat} {s : Stack} (f : Double → Except Fault α) (h : 3 + count ≤ s.depth) :
    ((List.range count).mapM fun i => s.peek (-(3 + i + 1 : Nat)) >>= f) =
      ((s.topmost (3 + count)).drop 3).mapM f := by
  obtain ⟨rest, values, hlen, rfl⟩ := Stack.exists_eq_add h
  have hvalues : values.drop 3 = (List.range count).map fun i => values.getD (3 + i) default := by
    apply List.ext_getElem (by simp [hlen])
    intro i hi _
    have hlt : 3 + i < values.length := by
      rw [List.length_drop] at hi
      omega
    simp [List.getElem?_eq_getElem hlt]
  rw [Stack.topmost_add hlen.ge, List.take_of_length_le hlen.le, hvalues, List.mapM_map]
  apply mapM_congr
  intro i hi
  have hlt : 3 + i < values.length := by
    rw [List.mem_range] at hi
    omega
  rw [Stack.peek_add hlt, ok_bind]
  simp [List.getElem?_eq_getElem hlt]

theorem execute_store (hm : m.halted = false) (mode : Mode) :
    execute (.memStore mode) m = m.carryOut (m.planStore mode) := by
  refine look_bind fun a ha => look_bind fun _ hdepth => ?_
  obtain ⟨-, hmultiple, hrange, -⟩ := access_eq_ok ha
  have hdepth := Stack.le_of_requireDepth hdepth
  refine Eq.trans (look_bind fun bytes hbytes => ?_)
    (congrArg (fun e => m.carryOut (e >>= _)) (mapM_peek mode.bytes hdepth))
  rw [mapM_peek mode.bytes hdepth] at hbytes
  obtain ⟨rest, values, hlen, hs⟩ := Stack.exists_eq_add hdepth
  have hlength : bytes.flatten.length = a.length := length_flatten_topmost hmultiple hdepth hbytes
  have hwrite : m.memory.write a.handle a.address bytes.flatten =
      .ok (m.memory.overwrite a.handle a.address bytes.flatten) := by
    rw [Memory.write_eq, hlength, hrange]
    rfl
  rw [bind_apply, popMany_apply hs hlen]
  simp only [memory, hwrite, Except.map]
  exact (carryOut_ok (e := { pops := _, memory := some (.write a.handle a.address bytes.flatten) })
    hm hs hlen.symm).symm

theorem execute_halt : execute .halt m = m.carryOut (m.plan .halt) := by
  change (Except.ok (), { m with halted := true }) =
    (Except.ok (), { m with stack := (m.stack.drop 0).add [], halted := true })
  rw [Stack.drop_zero, Stack.add_nil]

theorem execute_check (hm : m.halted = false) (name : String) :
    execute (.capabilityCheck name) m = m.carryOut (m.plan (.capabilityCheck name)) := by
  rw [execute, bind_apply, look, Machine.plan]
  cases htable : m.capabilities with
  | none => rfl
  | some table => exact push_eq_carryOut hm _

theorem execute_eq_carryOut (hm : m.halted = false) (hb : m.stack.Bounded) {i : Instr}
    (hcall : ∀ name, i ≠ .capability name) : execute i m = m.carryOut (m.plan i) := by
  cases i with
  | halt => exact execute_halt
  | capability name => exact absurd rfl (hcall name)
  | capabilityCheck name => exact execute_check hm name
  | push x => exact push_eq_carryOut hm x
  | pushBytes bytes =>
    have hpush := pushAll_eq_carryOut hm (bytes.map Double.ofByte)
    rw [List.length_map] at hpush
    exact hpush
  | pop => exact execute_pop hm
  | swap => exact execute_swap hm hb
  | dup => exact look_bind fun top _ => push_eq_carryOut hm top
  | dup2 =>
    exact look_bind fun under _ => look_bind fun top _ => pushAll_eq_carryOut hm [top, under]
  | select => exact execute_select hm hb
  | jump c target => exact execute_jump hm c target
  | memPlz => exact execute_memPlz hm
  | memCya => exact execute_memCya hm
  | memCheck => exact execute_memCheck hm hb
  | memLoad mode => exact execute_load hm mode
  | memStore mode => exact execute_store hm mode
  | unary op => exact execute_unary hm hb op
  | binary op => exact execute_binary hm hb op
  | _ => exact look_bind fun under _ => push_eq_carryOut hm under

end Work

namespace Machine

variable {m : Machine σ}

theorem plan_position (m : Machine σ) (i : Instr) (position : Nat) :
    { m with position }.plan i = m.plan i := by
  cases i <;> rfl

/-- The outcome of a step in place, from that of its instruction. -/
def settle (start : Nat) : Except Fault Unit × Machine σ → Except Fault Status × Machine σ
  | (.ok (), after) => (.ok (if after.halted then .halted else .running), { after with steps := after.steps + 1 })
  | (.error fault, after) => (.error fault, { after with position := start })

theorem settle_call (hm : m.halted = false) (name : String) (next : Nat) :
    settle m.position (Work.call name { m with position := next }) =
      ((m.call name next).result, (m.call name next).machine) := by
  have hhandler : { m with position := next }.handler? name = m.handler? name := rfl
  rw [Work.call, hhandler, Machine.call]
  cases m.handler? name with
  | none => rfl
  | some handler =>
    rcases hact : handler.act handler.state m.stack m.memory with ⟨_ | _, stack, state⟩
    · simp only [hact, settle]
    · simp only [hact, settle, hm]
      rfl

theorem settle_execute (hm : m.halted = false) (hb : m.stack.Bounded) (i : Instr) (next : Nat) :
    settle m.position (Work.execute i { m with position := next }) =
      ((m.execute i next).result, (m.execute i next).machine) := by
  by_cases hcall : ∃ name, i = .capability name
  · obtain ⟨name, rfl⟩ := hcall
    exact settle_call hm name next
  · have hcall : ∀ name, i ≠ .capability name := fun name hi => hcall ⟨name, hi⟩
    rw [Work.execute_eq_carryOut (m := { m with position := next }) hm hb hcall, plan_position]
    cases hplan : m.plan i with
    | error fault => rw [execute_of_error hcall hplan]; rfl
    | ok e => rw [(execute_of_ok hcall hplan).1, (execute_of_ok hcall hplan).2]; rfl

theorem stepInPlace_eq_of_settle
    (h : ∀ i next, m.halted = false → m.code.instrAt? m.position = .ok (some (i, next)) →
      settle m.position (Work.execute i { m with position := next }) =
        ((m.execute i next).result, (m.execute i next).machine)) :
    m.stepInPlace = (m.step.result, m.step.machine) := by
  rw [stepInPlace, step]
  cases hm : m.halted with
  | true => rfl
  | false =>
    simp only [Bool.false_eq_true, if_false]
    by_cases hend : m.code.size ≤ m.position
    · rw [if_pos hend, Code.instrAt?_eq_none_iff.mpr hend]
    · rw [if_neg hend]
      change settle m.position (Work.cycle m) = _
      have hsome : m.code.instrAt? m.position ≠ .ok none := hend ∘ Code.instrAt?_eq_none_iff.mp
      rw [Work.cycle, bind_apply, Work.decode]
      rw [Code.instrAt?] at h hsome ⊢
      rcases hread : Read.instr? ⟨m.code, m.position⟩ with ⟨_ | _ | i, c⟩
      · rfl
      · rw [hread] at hsome
        exact absurd rfl hsome
      · rw [hread] at h
        exact h i c.position hm rfl

/-- On a bounded stack a step in place comes out as the step does. -/
theorem stepInPlace_eq_step (hb : m.stack.Bounded) :
    m.stepInPlace = (m.step.result, m.step.machine) :=
  stepInPlace_eq_of_settle fun i next hm _ => settle_execute hm hb i next

/-- And so it does on any stack if it calls a capability. -/
theorem stepInPlace_eq_step_of_call {name : String} (h : m.Faces (.capability name)) :
    m.stepInPlace = (m.step.result, m.step.machine) := by
  apply stepInPlace_eq_of_settle
  intro i next hm hread
  obtain ⟨-, after, hcall⟩ := faces_iff.mp h
  rw [hread, Except.ok.injEq, Option.some.injEq, Prod.mk.injEq] at hcall
  obtain ⟨rfl, rfl⟩ := hcall
  exact settle_call hm name next

end Machine

end StackMachine
