import StackMachine.Proofs.Double.Operators
import StackMachine.Proofs.Machine.Bounds

/-!
The table of the instructions: what each takes off the stack, what it puts there, and what else it asks for. A step
succeeds exactly if the operands of the row are there, its results fit on what they leave, and the demand beyond the
stack is met; then it does what the row says and nothing else. Calls, loads and stores have no row, as the number of
values they move is not theirs to say.
-/

set_option autoImplicit false

namespace StackMachine

variable {σ : Type} {code : Code} {limits : Limits} {m : Machine σ} {i : Instr}

namespace Instr

def Tabled : Instr → Prop
  | .capability _ | .memLoad _ | .memStore _ => False
  | _ => True

def pops : Instr → Nat
  | .pop | .dup | .jump true _ | .memCya | .memCheck | .unary _ => 1
  | .swap | .dup2 | .over | .binary _ => 2
  | .select => 3
  | _ => 0

def pushes : Instr → Nat
  | .capabilityCheck _ | .push _ | .select | .memPlz | .memCheck | .unary _ | .binary _ => 1
  | .swap | .dup => 2
  | .over => 3
  | .dup2 => 4
  | .pushBytes bytes => bytes.length
  | _ => 0

def positionAfter (next : Nat) : Instr → List Double → Nat
  | .jump false target, _ => target
  | .jump true target, [condition] => if condition.Truthy then target else next
  | _, _ => next

end Instr

namespace Memory

structure Grown (m after : Memory) : Prop where
  limit : after.limit = m.limit
  live : after.live = m.live + 1
  nextHandle : after.nextHandle = m.nextHandle + 1
  blank : ∃ p, after.page? m.nextHandle = some p ∧ p.handle = m.nextHandle ∧ ∀ address, p.byte address = 0
  others : ∀ handle, handle ≠ m.nextHandle → after.page? handle = m.page? handle

structure Freed (m : Memory) (handle : Nat) (after : Memory) : Prop where
  limit : after.limit = m.limit
  live : after.live = if (m.page? handle).isSome then m.live - 1 else m.live
  nextHandle : after.nextHandle = m.nextHandle
  gone : after.page? handle = none
  others : ∀ other, other ≠ handle → after.page? other = m.page? other

theorem grown_grow (m : Memory) : m.Grown m.grow where
  limit := rfl
  live := rfl
  nextHandle := Array.size_push _
  blank := ⟨.blank m.nextHandle, by rw [page?_grow, if_pos rfl], rfl, fun _ => rfl⟩
  others handle hne := by rw [page?_grow, if_neg hne]

theorem freed_free (m : Memory) (handle : Nat) : m.Freed handle (m.free handle) where
  limit := by
    rw [free]
    split <;> rfl
  live := by
    rw [free, exists?]
    split <;> rfl
  nextHandle := by
    rw [free]
    split
    · exact Array.size_setIfInBounds
    · rfl
  gone := by rw [page?_free, if_pos rfl]
  others other hne := by rw [page?_free, if_neg hne]

end Memory

theorem CapabilityTable.contains_iff (table : CapabilityTable σ) (name : String) :
    table.contains name = true ↔ name ∈ table.names := by
  simp [contains, find?, names, List.find?_isSome]

namespace Machine

/-- The operands of an instruction and its results, each from the bottom to the top. -/
inductive Row (m : Machine σ) : Instr → List Double → List Double → Prop where
  | halt : Row m .halt [] []
  | capabilityCheck {table : CapabilityTable σ} {name : String} {x : Double} (htable : m.capabilities = some table)
      (hx : x.Flags (name ∈ table.names)) : Row m (.capabilityCheck name) [] [x]
  | push (x : Double) : Row m (.push x) [] [x]
  | pushBytes {bytes : List UInt8} {xs : List Double}
      (hxs : List.Forall₂ (fun b x => x.isNegative = false ∧ x.Denotes b.toNat) bytes.reverse xs) :
      Row m (.pushBytes bytes) [] xs
  | pop (x : Double) : Row m .pop [x] []
  | swap (x y : Double) : Row m .swap [x, y] [y, x]
  | dup (x : Double) : Row m .dup [x] [x, x]
  | dup2 (x y : Double) : Row m .dup2 [x, y] [x, y, x, y]
  | over (x y : Double) : Row m .over [x, y] [x, y, x]
  | select (x y condition : Double) : Row m .select [x, y, condition] [if condition.Truthy then y else x]
  | jump (target : Nat) : Row m (.jump false target) [] []
  | branch (target : Nat) (condition : Double) : Row m (.jump true target) [condition] []
  | memPlz {x : Double} (hsign : x.isNegative = false)
      (hx : m.memory.nextHandle < 2 ^ 64 → x.Rounds m.memory.nextHandle) : Row m .memPlz [] [x]
  | memCya (x : Double) : Row m .memCya [x] []
  | memCheck {x y : Double}
      (hy : y.Flags (∃ handle ≤ 2 ^ 53 - 1, x.Denotes handle ∧ (m.memory.page? handle).isSome)) :
      Row m .memCheck [x] [y]
  | unary {op : Unary} {x y : Double} (hy : op.Makes x y) : Row m (.unary op) [x] [y]
  | binary {op : Binary} {lhs rhs y : Double} (hy : op.Makes lhs rhs y) : Row m (.binary op) [lhs, rhs] [y]

def Admits (m : Machine σ) : Instr → Prop
  | .memPlz => ∀ limit, m.memory.limit = some limit → m.memory.live < limit
  | .memCya => ∃ top handle, m.stack.top? = some top ∧ top.Denotes handle ∧ handle ≤ 2 ^ 53 - 1
  | .jump _ target => target ≤ m.code.size
  | .capabilityCheck _ => m.capabilities.isSome
  | _ => True

structure Enabled (m : Machine σ) (i : Instr) : Prop where
  operands : i.pops ≤ m.stack.depth
  room : m.stack.depth - i.pops + i.pushes ≤ m.stack.capacity
  admits : m.Admits i

/-- Only two instructions of the table change the memory. -/
def MemoryAfter (m : Machine σ) (after : Memory) : Instr → List Double → Prop
  | .memPlz, _ => m.memory.Grown after
  | .memCya, [x] => ∃ handle, x.Denotes handle ∧ m.memory.Freed handle after
  | _, _ => after = m.memory

/-- The machine after an instruction with these operands and results, on top of the values `beneath`. -/
structure Updated (m : Machine σ) (i : Instr) (next : Nat) (beneath operands results : List Double)
    (after : Machine σ) : Prop where
  stack : after.stack.values.toList = beneath ++ results
  capacity : after.stack.capacity = m.stack.capacity
  position : after.position = i.positionAfter next operands
  memory : m.MemoryAfter after.memory i operands
  halted : after.halted = decide (i = .halt)
  steps : after.steps = m.steps + 1
  code : after.code = m.code
  capabilities : after.capabilities = m.capabilities

theorem Row.length {operands results : List Double} (h : m.Row i operands results) :
    operands.length = i.pops ∧ results.length = i.pushes := by
  cases h with
  | pushBytes hxs => exact ⟨rfl, by rw [← hxs.length_eq, List.length_reverse]; rfl⟩
  | _ => exact ⟨rfl, rfl⟩

end Machine

theorem Stack.requireRoom_of_le {s : Stack} {count : Nat} (h : s.depth + count ≤ s.capacity) :
    s.requireRoom count = .ok () := by
  rw [requireRoom_eq_ok_iff, hasRoom, decide_eq_true_eq]
  exact (min_le_left _ _).trans h

/-- Depths that are counted too low are beyond every stack that can be held. -/
theorem Stack.le_of_requireRoom {s : Stack} {count : Nat} {u : Unit} (h : s.requireRoom count = .ok u)
    (hcount : count ≤ 2 ^ 53) (hword : s.capacity < 2 ^ 64 - 1 ∨ s.depth < 2 ^ 60) :
    s.depth + count ≤ s.capacity := by
  have hmax : maxWord = 2 ^ 64 - 1 := rfl
  rw [requireRoom_eq_ok_iff, hasRoom, decide_eq_true_eq, hmax] at h
  omega

theorem Stack.top?_of_peek {s : Stack} {x : Double} (h : s.peek (-1) = .ok x) : s.top? = some x := by
  obtain ⟨rest, rfl⟩ := eq_add_of_peek h
  rw [top?, values_add_cons, Array.back?_push]

theorem Instr.Fits.pushes_le (h : i.Fits) : i.pushes ≤ 2 ^ 53 := by
  cases i with
  | pushBytes bytes => exact le_trans h (by decide)
  | _ => simp [pushes]

namespace Machine

/-- An instruction that is not refused had what its row asks for. -/
theorem enabled_of_plan {e : Effect} (h : m.plan i = .ok e) (hi : i.Tabled) (hpushes : i.pushes ≤ 2 ^ 53)
    (hfull : m.stack.depth ≤ m.stack.capacity) (hword : m.stack.capacity < 2 ^ 64 - 1 ∨ m.stack.depth < 2 ^ 60) :
    m.Enabled i := by
  have hroom : ∀ {count : Nat} {u : Unit}, m.stack.requireRoom count = .ok u → count ≤ 2 ^ 53 →
      m.stack.depth + count ≤ m.stack.capacity := fun h hcount => Stack.le_of_requireRoom h hcount hword
  cases i with
  | capability | memLoad | memStore => exact hi.elim
  | halt => exact ⟨Nat.zero_le _, hfull, trivial⟩
  | capabilityCheck name =>
    rw [plan] at h
    cases htable : m.capabilities with
    | none =>
      rw [htable] at h
      cases h
    | some table =>
      rw [htable] at h
      obtain ⟨_, hone, -⟩ := bind_eq_ok_iff.mp h
      exact ⟨Nat.zero_le _, hroom hone hpushes, by rw [Admits, htable]; rfl⟩
  | push | pushBytes =>
    obtain ⟨_, hone, -⟩ := bind_eq_ok_iff.mp h
    exact ⟨Nat.zero_le _, hroom hone hpushes, trivial⟩
  | pop | swap | select | memCheck | unary | binary =>
    obtain ⟨_, hoperands, -⟩ := bind_eq_ok_iff.mp h
    have hdepth := Stack.le_of_requireDepth hoperands
    refine ⟨hdepth, ?_, trivial⟩
    simp only [Instr.pops, Instr.pushes]
    omega
  | dup2 =>
    obtain ⟨under, hunder, h⟩ := bind_eq_ok_iff.mp h
    obtain ⟨top, -, h⟩ := bind_eq_ok_iff.mp h
    obtain ⟨_, htwo, -⟩ := bind_eq_ok_iff.mp h
    have hdepth := Stack.natAbs_le_of_peek (by decide) hunder
    have hfits := hroom htwo (by decide)
    refine ⟨hdepth, ?_, trivial⟩
    simp only [Instr.pops, Instr.pushes]
    omega
  | jump conditional target =>
    simp only [plan, planJump] at h
    by_cases hbeyond : m.code.size < target
    · rw [if_pos hbeyond] at h
      cases h
    · rw [if_neg hbeyond] at h
      cases conditional with
      | false => exact ⟨Nat.zero_le _, hfull, not_lt.mp hbeyond⟩
      | true =>
        obtain ⟨_, hone, -⟩ := bind_eq_ok_iff.mp h
        exact ⟨Stack.le_of_requireDepth hone, (Nat.sub_le _ _).trans hfull, not_lt.mp hbeyond⟩
  | memPlz =>
    obtain ⟨_, hone, h⟩ := bind_eq_ok_iff.mp h
    obtain ⟨_, hpages, -⟩ := bind_eq_ok_iff.mp h
    exact ⟨Nat.zero_le _, hroom hone (by decide), fun limit => Memory.lt_of_requireAllocatable hpages⟩
  | memCya =>
    obtain ⟨top, htop, h⟩ := bind_eq_ok_iff.mp h
    obtain ⟨handle, hhandle, -⟩ := bind_eq_ok_iff.mp h
    obtain ⟨hdenotes, hsafe⟩ := Double.toNat?_eq_some_iff.mp (Read.toNatOf_eq_ok_iff.mp hhandle)
    exact ⟨Stack.natAbs_le_of_peek (by decide) htop, (Nat.sub_le _ _).trans hfull,
      top, handle, Stack.top?_of_peek htop, hdenotes, hsafe⟩
  | dup | «over» =>
    obtain ⟨x, hpeek, h⟩ := bind_eq_ok_iff.mp h
    obtain ⟨_, hone, -⟩ := bind_eq_ok_iff.mp h
    have hdepth := Stack.natAbs_le_of_peek (by decide) hpeek
    have hfits := hroom hone (by decide)
    refine ⟨hdepth, ?_, trivial⟩
    simp only [Instr.pops, Instr.pushes]
    omega

/-- The operands `values`, which are listed from the top, lie on `rest`, and all that the row asks for is there. -/
structure Ready (m : Machine σ) (i : Instr) (rest : Stack) (values : List Double) : Prop where
  stack : m.stack = rest.add values
  length : values.length = i.pops
  room : rest.depth + i.pushes ≤ rest.capacity
  admits : m.Admits i

/-- The effect is that of a row: it takes the operands off `rest` and puts the results there, which are listed from
the top as well. -/
structure Meets (m : Machine σ) (i : Instr) (rest : Stack) (values results : List Double) (e : Effect) : Prop where
  row : m.Row i values.reverse results.reverse
  plan : m.plan i = .ok e
  stack : ((rest.add values).drop e.pops).add e.pushes = rest.add results
  memory : m.MemoryAfter (e.applyMemory m.memory) i values.reverse
  position : ∀ next, e.target.getD next = i.positionAfter next values.reverse
  halts : e.halts = decide (i = .halt)

theorem Enabled.exists_ready (h : m.Enabled i) : ∃ rest values, m.Ready i rest values := by
  obtain ⟨rest, values, hlen, hs⟩ := Stack.exists_eq_add h.operands
  have hroom := h.room
  rw [hs, Stack.depth_add, Stack.capacity_add, hlen, Nat.add_sub_cancel] at hroom
  exact ⟨rest, values, hs, hlen, hroom, h.admits⟩

theorem add_drop_all (rest : Stack) (values more : List Double) :
    ((rest.add values).drop values.length).add more = rest.add more := by
  rw [Stack.drop_add_length]

theorem add_drop_none (rest : Stack) (values more : List Double) :
    ((rest.add values).drop 0).add more = rest.add (more ++ values) := by
  rw [Stack.drop_zero, Stack.add_add]

namespace Ready

variable {rest : Stack} {values : List Double}

theorem requireDepth (h : m.Ready i rest values) (count : Nat) (hcount : count = i.pops) :
    m.stack.requireDepth count = .ok () := by
  apply Stack.requireDepth_of_le
  rw [h.stack, Stack.depth_add, h.length, hcount]
  exact Nat.le_add_left _ _

theorem requireRoom (h : m.Ready i rest values) (count : Nat) (hcount : i.pops + count ≤ i.pushes) :
    m.stack.requireRoom count = .ok () := by
  apply Stack.requireRoom_of_le
  have hroom := h.room
  rw [h.stack, Stack.depth_add, Stack.capacity_add, h.length]
  omega

theorem peek_first {x : Double} {more : List Double} (h : m.Ready i rest (x :: more)) :
    m.stack.peek (-1) = .ok x := by
  rw [h.stack, Stack.peek_add_first]

theorem peek_second {x y : Double} {more : List Double} (h : m.Ready i rest (y :: x :: more)) :
    m.stack.peek (-2) = .ok x := by
  rw [h.stack, Stack.peek_add_second]

theorem meets_halt (h : m.Ready .halt rest values) : ∃ results e, m.Meets .halt rest values results e := by
  obtain rfl := List.length_eq_zero_iff.mp h.length
  exact ⟨[], { halts := true }, .halt, rfl, add_drop_all rest [] [], rfl, fun _ => rfl, rfl⟩

theorem meets_capabilityCheck {name : String} (h : m.Ready (.capabilityCheck name) rest values) :
    ∃ results e, m.Meets (.capabilityCheck name) rest values results e := by
  obtain rfl := List.length_eq_zero_iff.mp h.length
  obtain ⟨table, htable⟩ := Option.isSome_iff_exists.mp h.admits
  refine ⟨[.ofBool (table.contains name)], { pushes := [.ofBool (table.contains name)] },
    .capabilityCheck htable (Double.flags_ofBool (table.contains_iff name)), ?_, add_drop_all rest [] _, rfl,
    fun _ => rfl, rfl⟩
  simp only [plan, htable, h.requireRoom 1 le_rfl]
  rfl

theorem meets_push {x : Double} (h : m.Ready (.push x) rest values) :
    ∃ results e, m.Meets (.push x) rest values results e := by
  obtain rfl := List.length_eq_zero_iff.mp h.length
  refine ⟨[x], { pushes := [x] }, .push x, ?_, add_drop_all rest [] _, rfl, fun _ => rfl, rfl⟩
  rw [plan, h.requireRoom 1 le_rfl]
  rfl

theorem meets_pushBytes {bytes : List UInt8} (h : m.Ready (.pushBytes bytes) rest values) :
    ∃ results e, m.Meets (.pushBytes bytes) rest values results e := by
  obtain rfl := List.length_eq_zero_iff.mp h.length
  refine ⟨bytes.map .ofByte, { pushes := bytes.map .ofByte }, .pushBytes ?_, ?_, add_drop_all rest [] _, rfl,
    fun _ => rfl, rfl⟩
  · rw [← List.map_reverse, List.forall₂_map_right_iff, List.forall₂_same]
    exact fun b _ => ⟨Double.isNegative_ofNat _, Double.denotes_ofNat (b.toNat_lt.le.trans (by decide))⟩
  · rw [plan, h.requireRoom bytes.length (Nat.zero_add _).le]
    rfl

theorem meets_copy (hi : i = .dup ∨ i = .dup2 ∨ i = .over) (h : m.Ready i rest values) :
    ∃ results e, m.Meets i rest values results e := by
  rcases hi with rfl | rfl | rfl
  · obtain ⟨x, rfl⟩ := List.length_eq_one_iff.mp h.length
    refine ⟨[x, x], { pushes := [x] }, .dup x, ?_, add_drop_none rest _ _, rfl, fun _ => rfl, rfl⟩
    rw [plan, h.peek_first, h.requireRoom 1 le_rfl]
    rfl
  · obtain ⟨y, x, rfl⟩ := List.length_eq_two.mp h.length
    refine ⟨[y, x, y, x], { pushes := [y, x] }, .dup2 x y, ?_, add_drop_none rest _ _, rfl, fun _ => rfl, rfl⟩
    rw [plan, h.peek_second, h.peek_first, h.requireRoom 2 le_rfl]
    rfl
  · obtain ⟨y, x, rfl⟩ := List.length_eq_two.mp h.length
    refine ⟨[x, y, x], { pushes := [x] }, .over x y, ?_, add_drop_none rest _ _, rfl, fun _ => rfl, rfl⟩
    rw [plan, h.peek_second, h.requireRoom 1 le_rfl]
    rfl

theorem meets_shuffle (hi : i = .pop ∨ i = .swap) (h : m.Ready i rest values) :
    ∃ results e, m.Meets i rest values results e := by
  rcases hi with rfl | rfl
  · obtain ⟨x, rfl⟩ := List.length_eq_one_iff.mp h.length
    refine ⟨[], { pops := 1 }, .pop x, ?_, add_drop_all rest _ _, rfl, fun _ => rfl, rfl⟩
    rw [plan, h.requireDepth 1 rfl]
    rfl
  · obtain ⟨y, x, rfl⟩ := List.length_eq_two.mp h.length
    refine ⟨[x, y], { pops := 2, pushes := [x, y] }, .swap x y, ?_, add_drop_all rest _ _, rfl, fun _ => rfl, rfl⟩
    rw [plan, h.requireDepth 2 rfl, h.peek_second, h.peek_first]
    rfl

theorem meets_select (h : m.Ready .select rest values) : ∃ results e, m.Meets .select rest values results e := by
  obtain ⟨condition, y, x, rfl⟩ := List.length_eq_three.mp h.length
  have hpicked : m.stack.peek (if condition.truthy then -2 else -3) = .ok (if condition.Truthy then y else x) := by
    simp only [h.stack, Double.truthy_iff]
    split
    · exact Stack.peek_add_second ..
    · exact Stack.peek_add_third ..
  refine ⟨[if condition.Truthy then y else x], { pops := 3, pushes := [if condition.Truthy then y else x] },
    .select x y condition, ?_, add_drop_all rest _ _, rfl, fun _ => rfl, rfl⟩
  simp only [plan, h.requireDepth 3 rfl, ok_bind, h.peek_first, hpicked]
  rfl

theorem meets_jump {conditional : Bool} {target : Nat} (h : m.Ready (.jump conditional target) rest values) :
    ∃ results e, m.Meets (.jump conditional target) rest values results e := by
  have hwithin : ¬ m.code.size < target := not_lt.mpr h.admits
  cases conditional with
  | false =>
    obtain rfl := List.length_eq_zero_iff.mp h.length
    refine ⟨[], { target := some target }, .jump target, ?_, add_drop_all rest [] [], rfl, fun _ => rfl, rfl⟩
    rw [plan, planJump, if_neg hwithin]
    rfl
  | true =>
    obtain ⟨condition, rfl⟩ := List.length_eq_one_iff.mp h.length
    refine ⟨[], { pops := 1, target := if condition.truthy then some target else none }, .branch target condition,
      ?_, add_drop_all rest [condition] [], rfl, ?_, rfl⟩
    · rw [plan, planJump, if_neg hwithin, h.requireDepth 1 rfl, h.peek_first]
      rfl
    · intro next
      simp only [Double.truthy_iff, List.reverse_singleton, Instr.positionAfter]
      split <;> rfl

theorem meets_memPlz (h : m.Ready .memPlz rest values) : ∃ results e, m.Meets .memPlz rest values results e := by
  obtain rfl := List.length_eq_zero_iff.mp h.length
  refine ⟨[.ofNat m.memory.nextHandle], { pushes := [.ofNat m.memory.nextHandle], memory := some .allocate },
    .memPlz (Double.isNegative_ofNat _) fun hword => Double.ofNat_rounds (Double.isFinite_ofNat hword), ?_,
    add_drop_all rest [] _, m.memory.grown_grow, fun _ => rfl, rfl⟩
  have hpages : m.memory.requireAllocatable = .ok () := by
    cases hpages : m.memory.requireAllocatable with
    | ok => rfl
    | error fault =>
      obtain ⟨limit, hlimit, hreached, -⟩ := Memory.requireAllocatable_eq_error_iff.mp hpages
      exact absurd hreached (not_le.mpr (h.admits limit hlimit))
  rw [plan, h.requireRoom 1 le_rfl, hpages]
  rfl

theorem meets_memCya (h : m.Ready .memCya rest values) : ∃ results e, m.Meets .memCya rest values results e := by
  obtain ⟨x, rfl⟩ := List.length_eq_one_iff.mp h.length
  obtain ⟨top, handle, htop, hdenotes, hsafe⟩ := h.admits
  obtain rfl : x = top := Option.some.inj ((Stack.top?_of_peek h.peek_first).symm.trans htop)
  have hhandle : x.toNat? = some handle := Double.toNat?_eq_some_iff.mpr ⟨hdenotes, hsafe⟩
  refine ⟨[], { pops := 1, memory := some (.free handle) }, .memCya x, ?_, add_drop_all rest _ _,
    ⟨handle, hdenotes, m.memory.freed_free handle⟩, fun _ => rfl, rfl⟩
  rw [plan, h.peek_first, ok_bind, Read.toNatOf_eq_ok_iff.mpr hhandle]
  rfl

theorem meets_memCheck (h : m.Ready .memCheck rest values) : ∃ results e, m.Meets .memCheck rest values results e := by
  obtain ⟨x, rfl⟩ := List.length_eq_one_iff.mp h.length
  have hlive : x.toNat?.any m.memory.exists? = true ↔
      ∃ handle ≤ 2 ^ 53 - 1, x.Denotes handle ∧ (m.memory.page? handle).isSome := by
    rw [Option.any_eq_true]
    refine exists_congr fun handle => ?_
    rw [Double.toNat?_eq_some_iff, Memory.exists?, and_right_comm, and_comm (b := handle ≤ _)]
    rfl
  refine ⟨[.ofBool (x.toNat?.any m.memory.exists?)],
    { pops := 1, pushes := [.ofBool (x.toNat?.any m.memory.exists?)] }, .memCheck (Double.flags_ofBool hlive), ?_,
    add_drop_all rest _ _, rfl, fun _ => rfl, rfl⟩
  rw [plan, h.requireDepth 1 rfl, h.peek_first]
  rfl

theorem meets_unary {op : Unary} (h : m.Ready (.unary op) rest values) :
    ∃ results e, m.Meets (.unary op) rest values results e := by
  obtain ⟨x, rfl⟩ := List.length_eq_one_iff.mp h.length
  refine ⟨[op.eval x], { pops := 1, pushes := [op.eval x] }, .unary (op.makes_eval x), ?_, add_drop_all rest _ _, rfl,
    fun _ => rfl, rfl⟩
  rw [plan, planUnary, h.requireDepth 1 rfl, h.peek_first]
  rfl

theorem meets_binary {op : Binary} (h : m.Ready (.binary op) rest values) :
    ∃ results e, m.Meets (.binary op) rest values results e := by
  obtain ⟨y, x, rfl⟩ := List.length_eq_two.mp h.length
  refine ⟨[op.eval x y], { pops := 2, pushes := [op.eval x y] }, .binary (op.makes_eval x y), ?_,
    add_drop_all rest _ _, rfl, fun _ => rfl, rfl⟩
  rw [plan, planBinary, h.requireDepth 2 rfl, h.peek_second, h.peek_first]
  rfl

theorem exists_meets (h : m.Ready i rest values) (hi : i.Tabled) : ∃ results e, m.Meets i rest values results e := by
  cases i with
  | capability | memLoad | memStore => exact hi.elim
  | halt => exact h.meets_halt
  | capabilityCheck => exact h.meets_capabilityCheck
  | push => exact h.meets_push
  | pushBytes => exact h.meets_pushBytes
  | pop => exact meets_shuffle (.inl rfl) h
  | swap => exact meets_shuffle (.inr rfl) h
  | dup => exact meets_copy (.inl rfl) h
  | dup2 => exact meets_copy (.inr (.inl rfl)) h
  | «over» => exact meets_copy (.inr (.inr rfl)) h
  | select => exact h.meets_select
  | jump => exact h.meets_jump
  | memPlz => exact h.meets_memPlz
  | memCya => exact h.meets_memCya
  | memCheck => exact h.meets_memCheck
  | unary => exact h.meets_unary
  | binary => exact h.meets_binary

end Ready

theorem Meets.updated {rest : Stack} {values results : List Double} {e : Effect}
    (h : m.Meets i rest values results e) (hs : m.stack = rest.add values) (next : Nat) :
    m.Updated i next rest.values.toList values.reverse results.reverse (m.commit e next) where
  stack := by rw [commit, hs, h.stack, Stack.toList_add]
  capacity := rfl
  position := h.position next
  memory := h.memory
  halted := h.halts
  steps := rfl
  code := rfl
  capabilities := rfl

theorem isOk_step_iff_plan {next : Nat} (hm : m.halted = false)
    (hread : m.code.instrAt? m.position = .ok (some (i, next))) (hcall : ∀ name, i ≠ .capability name) :
    m.step.result.isOk ↔ ∃ e, m.plan i = .ok e := by
  rw [(step_of_instrAt? hm hread).1]
  cases hplan : m.plan i with
  | error fault =>
    rw [execute_of_error hcall hplan]
    exact iff_of_false nofun nofun
  | ok e =>
    rw [(execute_of_ok hcall hplan).1]
    exact iff_of_true rfl ⟨e, rfl⟩

end Machine

/-- A step succeeds exactly if its row is met, and then it replaces the operands by the results and changes nothing that
the row does not name. Steps that are taken operation by operation come to the same. The stacks that are left out, of a
capacity that no depth exceeds and with `2 ^ 60` values on them, cannot be held. -/
theorem step_by_table {next : Nat} (hreach : Reachable (Stack.KeptBy Stack.Bounded) code limits m)
    (hm : m.halted = false) (hread : m.code.instrAt? m.position = .ok (some (i, next))) (hi : i.Tabled)
    (hword : m.stack.capacity < 2 ^ 64 - 1 ∨ m.stack.depth < 2 ^ 60) :
    (m.step.result.isOk ↔ m.Enabled i) ∧
    (m.step.result.isOk →
      ∃ beneath operands results, m.stack.values.toList = beneath ++ operands ∧ m.Row i operands results ∧
        operands.length = i.pops ∧ results.length = i.pushes ∧
        m.step.result = .ok (if i = .halt then .halted else .running) ∧
        m.Updated i next beneath operands results m.step.machine) ∧
    m.stepInPlace = (m.step.result, m.step.machine) := by
  have hb : m.stack.Bounded := hreach.bounded fun _ hact => hact
  have hcall : ∀ name, i ≠ .capability name := by
    rintro name rfl
    exact hi
  have hfits : i.Fits := by
    obtain ⟨record, hspells, -⟩ := Code.instrAt?_eq_some_iff.mp hread
    exact hspells.fits
  have hiff : m.step.result.isOk ↔ m.Enabled i := by
    rw [Machine.isOk_step_iff_plan hm hread hcall]
    constructor
    · rintro ⟨e, hplan⟩
      exact Machine.enabled_of_plan hplan hi hfits.pushes_le (Stack.depth_le_of_bounded hb hword) hword
    · intro henabled
      obtain ⟨rest, values, hready⟩ := henabled.exists_ready
      obtain ⟨results, e, hmeets⟩ := hready.exists_meets hi
      exact ⟨e, hmeets.plan⟩
  refine ⟨hiff, ?_, Machine.stepInPlace_eq_step hb⟩
  intro hok
  obtain ⟨rest, values, hready⟩ := (hiff.mp hok).exists_ready
  obtain ⟨results, e, hmeets⟩ := hready.exists_meets hi
  obtain ⟨hresult, hmachine⟩ := Machine.step_of_instrAt? hm hread
  obtain ⟨hstatus, hcommit⟩ : _ ∧ (m.execute i next).machine = m.commit e next :=
    Machine.execute_of_ok hcall hmeets.plan
  obtain ⟨hoperands, hresults⟩ := hmeets.row.length
  refine ⟨rest.values.toList, values.reverse, results.reverse, ?_, hmeets.row, hoperands, hresults, ?_, ?_⟩
  · rw [hready.stack, Stack.toList_add]
  · rw [hresult, hstatus, hmeets.halts]
    simp only [decide_eq_true_eq]
  · rw [hmachine, hcommit]
    exact hmeets.updated hready.stack next

def choosing : Code := .ofInstrs [.push (.ofNat 7), .push (.ofNat 8), .push .nan, .unary .nan, .select, .dup2]

def loaded : Machine Nat := ((Machine.start choosing { stackCapacity := 3 }).runFor 3).machine

/-- A full stack is no obstacle to what takes as much as it leaves. The NaN is found out and the upper number chosen;
the next instruction finds an operand too few. -/
theorem step_by_table_full :
    loaded.stack.depth = loaded.stack.capacity ∧
      loaded.step.machine.stack.values.toList = [.ofNat 7, .ofNat 8, ⟨0x3ff0000000000000⟩] ∧
      loaded.step.machine.step.machine.stack.values.toList = [.ofNat 8] ∧
      loaded.step.machine.step.machine.memory = loaded.step.machine.memory ∧
      loaded.step.machine.step.machine.step.result.isOk = false := by
  have hreach : Reachable (Stack.KeptBy Stack.Bounded) choosing { stackCapacity := 3 } loaded := .runFor .start 3
  have hfirst : loaded.code.instrAt? loaded.position = .ok (some (.unary .nan, 28)) := by decide +kernel
  have hsecond : loaded.step.machine.code.instrAt? loaded.step.machine.position = .ok (some (.select, 29)) := by
    decide +kernel
  have hthird : loaded.step.machine.step.machine.code.instrAt? loaded.step.machine.step.machine.position =
      .ok (some (.dup2, 30)) := by
    decide +kernel
  have hvalues : loaded.stack.values.toList = [.ofNat 7, .ofNat 8] ++ [.nan] := by decide +kernel
  obtain ⟨henabled, hdone, -⟩ := step_by_table hreach (by decide +kernel) hfirst trivial (.inl (by decide +kernel))
  obtain ⟨beneath, operands, results, hstack, hrow, -, -, -, hafter⟩ :=
    hdone (henabled.mpr ⟨by decide +kernel, by decide +kernel, trivial⟩)
  have hflagged : loaded.step.machine.stack.values.toList = [] ++ [.ofNat 7, .ofNat 8, ⟨0x3ff0000000000000⟩] := by
    cases hrow with
    | unary hmakes =>
      obtain ⟨rfl, hoperand⟩ := List.append_inj' (hstack.symm.trans hvalues) rfl
      obtain rfl := List.singleton_inj.mp hoperand
      rw [hafter.stack, hmakes.1 (by decide)]
      rfl
  obtain ⟨hselects, hchosen, -⟩ :=
    step_by_table hreach.step (by decide +kernel) hsecond trivial (.inl (by decide +kernel))
  obtain ⟨beneath, operands, results, hstack, hrow, -, -, -, hafter⟩ :=
    hchosen (hselects.mpr ⟨by decide +kernel, by decide +kernel, trivial⟩)
  obtain ⟨hrefused, -, -⟩ :=
    step_by_table hreach.step.step (by decide +kernel) hthird trivial (.inl (by decide +kernel))
  refine ⟨by decide +kernel, hflagged, ?_, ?_, ?_⟩
  · cases hrow with
    | select =>
      obtain ⟨rfl, hoperands⟩ := List.append_inj' (hstack.symm.trans hflagged) (by simp only [List.length_cons])
      obtain ⟨rfl, rfl, rfl⟩ : _ = _ ∧ _ = _ ∧ _ = _ := by simpa using hoperands
      rw [hafter.stack, if_pos (by decide)]
      rfl
  · cases hrow with
    | select => exact hafter.memory
  · rw [← Bool.not_eq_true, hrefused]
    intro hnext
    exact absurd hnext.operands (by decide +kernel)

end StackMachine
