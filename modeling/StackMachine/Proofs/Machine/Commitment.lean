import StackMachine.Proofs.Code.Cursors
import StackMachine.Proofs.Machine.Bounds
import StackMachine.Proofs.Machine.Bulk
import StackMachine.Proofs.Machine.Restoring

/-!
Execution with care. `Tracked` is a machine at work that remembers whether anything of it was changed, and
`TrackedWork.execute` takes an instruction through every check and every change of its own, in order: a check that
fails once something was changed comes too late, sums and products are machine words, indices have a sign, pages
are read in slices, and an opcode that its record should have given operands is unforeseen. On a bounded stack none
of this happens: what a decoded instruction checks before its first change is enough for all that
follows, so that it comes out as in `Work.execute`.
-/

set_option autoImplicit false

namespace StackMachine

variable {σ α β : Type}

structure Tracked (σ : Type) where
  machine : Machine σ
  changed : Bool := false

def Tracked.setback (t : Tracked σ) (fault : Fault) : Setback :=
  if t.changed then .tooLate fault else .refused fault

abbrev TrackedWork (σ : Type) := Careful (Tracked σ)

namespace Opcode

def unary? (op : Opcode) : Option Unary :=
  match op.shape with
  | .plain (.unary f) => some f
  | _ => none

def binary? (op : Opcode) : Option Binary :=
  match op.shape with
  | .plain (.binary f) => some f
  | _ => none

end Opcode

namespace TrackedWork

open Careful

/-- A check, or a question that may be refused. It cannot change anything. -/
def look (question : Machine σ → Except Fault α) : TrackedWork σ α := fun t =>
  match question t.machine with
  | .ok a => (.ok a, t)
  | .error fault => (.error (t.setback fault), t)

def change (w : Work σ α) : TrackedWork σ α := fun t =>
  match w t.machine with
  | (.ok a, machine) => (.ok a, ⟨machine, true⟩)
  | (.error fault, machine) => (.error (t.setback fault), ⟨machine, t.changed⟩)

def peek (index : Int) : TrackedWork σ Double := look (·.stack.peek index)

def pop : TrackedWork σ Double := change Work.pop

def popMany (count : Nat) : TrackedWork σ (List Double) := change (Work.popMany count)

def push (x : Double) : TrackedWork σ Unit := change (Work.push x)

def pushAll (values : List Double) : TrackedWork σ Unit := change (Work.pushAll values)

def readPage (p : Page) (address length : Nat) : TrackedWork σ (List UInt8) := do
  look fun _ => p.requireRange address length
  cut address (← word (address + length)) Page.size
  return p.read address length

def elements (p : Page) (address length : Nat) : Mode → TrackedWork σ (List Double)
  | .byte => return (← readPage p address length).map .ofByte
  | .float =>
    (List.range (length / 8)).mapM fun index => do
      let offset ← word (index * 8)
      return .ofBytes (← readPage p (← word (address + offset)) 8)

def load (mode : Mode) : TrackedWork σ Unit := do
  let a ← look (·.access mode)
  look (·.stack.requireRoom (a.count mode - 3))
  let p ← look (·.memory.get a.handle)
  let values ← elements p a.address a.length mode
  let _ ← popMany 3
  pushAll values

/-- The bytes of the elements that lie under the operands of a store. -/
def chunks (mode : Mode) (count : Nat) : TrackedWork σ (List (List UInt8)) :=
  (List.range count).mapM fun (index : Nat) => do
    let value ← peek (← signed (-4 - (← signed index)))
    look fun _ => mode.bytes value

def writePage (handle address : Nat) (bytes : List UInt8) : TrackedWork σ Unit := do
  let (p, replace) ← look (·.memory.focus handle)
  look fun _ => p.requireRange address bytes.length
  cut address (← word (address + bytes.length)) Page.size
  change (Work.memory fun _ => .ok ((), replace (p.write address bytes)))

def store (mode : Mode) : TrackedWork σ Unit := do
  let a ← look (·.access mode)
  let depth ← word (3 + a.count mode)
  look (·.stack.requireDepth depth)
  let _ ← word (a.count mode * mode.width)
  let bytes ← chunks mode (a.count mode)
  let _ ← popMany depth
  writePage a.handle a.address bytes.flatten

def jump (conditional : Bool) (target : Nat) : TrackedWork σ Unit := do
  look fun m => if m.code.size < target then .error (.invalidOperand "jump target") else .ok ()
  if conditional then
    if (← pop).truthy then change (Work.jumpTo target)
  else change (Work.jumpTo target)

def plain : Opcode → TrackedWork σ Unit
  | .pop => do
    let _ ← pop
  | .dup => do push (← peek (-1))
  | .dup2 => do
    let under ← peek (-2)
    let top ← peek (-1)
    pushAll [top, under]
  | .over => do push (← peek (-2))
  | .swap => do pushAll (← popMany 2).reverse
  | .select => do
    look (·.stack.requireDepth 3)
    let condition ← pop
    let first ← pop
    let second ← pop
    push (if condition.truthy then first else second)
  | .memPlz => do
    look (·.stack.requireRoom 1)
    push (.ofNat (← change (Work.memory Memory.allocate)))
  | .memCya => do
    let value ← peek (-1)
    let handle ← look fun _ => value.toNatOf "page handle"
    let _ ← pop
    change (Work.memory fun memory => .ok ((), memory.free handle))
  | .memCheck => do
    let value ← pop
    let live ← look fun m => .ok (value.toNat?.any m.memory.exists?)
    push (.ofBool live)
  | _ => throw .unforeseen

def simple (op : Opcode) : TrackedWork σ Unit :=
  match op.unary?, op.binary? with
  | some f, _ => do push (f.eval (← pop))
  | none, some f => do
    look (·.stack.requireDepth 2)
    let right ← pop
    let left ← pop
    push (f.eval left right)
  | none, none => plain op

def execute : Decoded → TrackedWork σ Unit
  | .halt => change (modify fun m => { m with halted := true })
  | .capability name => change (Work.call name)
  | .capabilityCheck name => do
    let present ← look fun m =>
      match m.capabilities with
      | none => .error (.notImplemented name)
      | some table => .ok (table.contains name)
    push (.ofBool present)
  | .push value => push value
  | .pushBytes bytes => pushAll (bytes.map Double.ofByte)
  | .jump conditional target => jump conditional target
  | .memLoad mode => load mode
  | .memStore mode => store mode
  | .simple op => simple op

def decode : TrackedWork σ (Option Decoded) := fun t =>
  match Reading.record? ⟨t.machine.code, t.machine.position⟩ with
  | (result, c) => (result, { t with machine := { t.machine with position := c.position } })

def cycle : TrackedWork σ Unit := do
  match ← decode with
  | some d => execute d
  | none => throw .unforeseen

end TrackedWork

def Machine.stepTracked (m : Machine σ) : Except Setback Status × Machine σ :=
  if m.halted then (.ok .halted, m)
  else if m.code.size ≤ m.position then (.ok .halted, { m with halted := true })
  else
    match TrackedWork.cycle { machine := m } with
    | (.ok (), t) =>
      (.ok (if t.machine.halted then .halted else .running), { t.machine with steps := t.machine.steps + 1 })
    | (.error setback, t) => (.error setback, { t.machine with position := m.position })

namespace TrackedWork

open Careful

variable {m after : Machine σ} {changed : Bool} {rest : Stack} {values : List Double} {x : Double}

/-- The tracked work answers as the work does and leaves the same machine; if it is refused, it is refused in time. -/
def Follows (changed : Bool) (w : TrackedWork σ α) (v : Work σ α) (m : Machine σ) : Prop :=
  ∃ touched : Bool, w ⟨m, changed⟩ = ((v m).1.mapError .refused, ⟨(v m).2, touched⟩)

theorem follows_pure (a : α) : Follows changed (pure a) (pure a) m := ⟨changed, rfl⟩

/-- What passes without a trace has no counterpart. -/
theorem follows_pass {s : TrackedWork σ α} {w : α → TrackedWork σ β} {v : Work σ β} {a : α}
    (hs : s ⟨m, changed⟩ = (.ok a, ⟨m, changed⟩)) (h : Follows changed (w a) v m) : Follows changed (s >>= w) v m := by
  rw [Follows, bind_of_ok hs]
  exact h

/-- Before the first change a check may fail. -/
theorem follows_look_bind {question : Machine σ → Except Fault α} {w : α → TrackedWork σ β} {v : α → Work σ β}
    (h : ∀ a, question m = .ok a → Follows false (w a) (v a) m) :
    Follows false (look question >>= w) (Work.look question >>= v) m := by
  rw [Follows, bind_apply, bind_apply, look, Work.look]
  cases hquestion : question m with
  | error fault => exact ⟨false, rfl⟩
  | ok a => exact h a hquestion

theorem follows_change (v : Work σ α) : Follows false (change v) v m := by
  rw [Follows, change]
  rcases v m with ⟨fault | a, after⟩
  · exact ⟨false, rfl⟩
  · exact ⟨true, rfl⟩

/-- The first change may be refused; what comes after it follows something that was changed. -/
theorem follows_change_bind {u : Work σ α} {w : α → TrackedWork σ β} {v : α → Work σ β}
    (h : ∀ a after, u m = (.ok a, after) → Follows true (w a) (v a) after) :
    Follows false (change u >>= w) (u >>= v) m := by
  rw [Follows, bind_apply, bind_apply, change]
  rcases hu : u m with ⟨fault | a, after⟩
  · exact ⟨false, rfl⟩
  · exact h a after hu

theorem follows_change_of_ok {u : Work σ α} {a : α} (hu : u m = (.ok a, after)) : Follows changed (change u) u m := by
  rw [Follows, change, hu]
  exact ⟨true, rfl⟩

theorem follows_change_bind_of_ok {u : Work σ α} {w : α → TrackedWork σ β} {v : α → Work σ β} {a : α}
    (hu : u m = (.ok a, after)) (h : Follows true (w a) (v a) after) :
    Follows changed (change u >>= w) (u >>= v) m := by
  rw [Follows, bind_apply, bind_apply, change, hu]
  exact h

theorem look_apply {question : Machine σ → Except Fault α} {a : α} (h : question m = .ok a) :
    look question ⟨m, changed⟩ = (.ok a, ⟨m, changed⟩) := by
  rw [look, h]

end TrackedWork

namespace Work

variable {m after : Machine σ} {values : List Double} {x : Double}

theorem popMany_eq_ok {count : Nat} (h : popMany count m = (.ok values, after)) :
    ∃ rest, values.length = count ∧ m.stack = rest.add values ∧ after = { m with stack := rest } := by
  by_cases hdepth : count ≤ m.stack.depth
  · obtain ⟨rest, popped, hlength, hs⟩ := Stack.exists_eq_add hdepth
    rw [popMany_apply hs hlength] at h
    cases h
    exact ⟨rest, hlength, hs, rfl⟩
  · rw [popMany_apply_of_lt (not_le.mp hdepth)] at h
    cases h

theorem pop_eq_ok (h : pop m = (.ok x, after)) :
    ∃ rest, m.stack = rest.add [x] ∧ after = { m with stack := rest } := by
  by_cases hdepth : 1 ≤ m.stack.depth
  · obtain ⟨rest, popped, hlength, hs⟩ := Stack.exists_eq_add hdepth
    obtain ⟨y, rfl⟩ := List.length_eq_one_iff.mp hlength
    rw [pop_apply hs, Stack.add_nil] at h
    cases h
    exact ⟨rest, hs, rfl⟩
  · rw [pop_apply_of_empty (by omega)] at h
    cases h

end Work

namespace TrackedWork

open Careful

variable {m after : Machine σ} {changed : Bool} {rest : Stack} {values : List Double} {x : Double}

theorem follows_push (h : m.stack.hasRoom 1) (y : Double) : Follows changed (push y) (Work.push y) m :=
  follows_change_of_ok (Work.push_apply y h)

theorem follows_pop_bind {w : Double → TrackedWork σ α} {v : Double → Work σ α} (hs : m.stack = rest.add (x :: values))
    (h : Follows true (w x) (v x) { m with stack := rest.add values }) :
    Follows changed (pop >>= w) (Work.pop >>= v) m :=
  follows_change_bind_of_ok (Work.pop_apply hs) h

theorem follows_replace (hb : m.stack.Bounded) (f : Double → Double) :
    Follows false (pop >>= fun x => push (f x)) (Work.pop >>= fun x => Work.push (f x)) m := by
  apply follows_change_bind
  intro x after hpop
  obtain ⟨rest, hs, rfl⟩ := Work.pop_eq_ok hpop
  exact follows_push ((hs ▸ hb).hasRoom le_rfl) (f x)

theorem follows_combine (hb : m.stack.Bounded) (f : Double → Double → Double) :
    Follows false
      (look (·.stack.requireDepth 2) >>= fun _ => pop >>= fun right => pop >>= fun left => push (f left right))
      (Work.look (·.stack.requireDepth 2) >>= fun _ => Work.pop >>= fun right => Work.pop >>= fun left =>
        Work.push (f left right)) m := by
  apply follows_look_bind
  intro _ hdepth
  obtain ⟨rest, values, hlength, hs⟩ := Stack.exists_eq_add (Stack.le_of_requireDepth hdepth)
  obtain ⟨right, left, rfl⟩ := List.length_eq_two.mp hlength
  have hroom : rest.hasRoom 1 := (hs ▸ hb).hasRoom (by simp)
  apply follows_pop_bind hs
  apply follows_pop_bind rfl
  rw [Stack.add_nil]
  exact follows_push hroom _

theorem follows_select (hb : m.stack.Bounded) : Follows false (plain .select) (Work.execute .select) m := by
  apply follows_look_bind
  intro _ hdepth
  obtain ⟨rest, values, hlength, hs⟩ := Stack.exists_eq_add (Stack.le_of_requireDepth hdepth)
  obtain ⟨condition, first, second, rfl⟩ := List.length_eq_three.mp hlength
  have hroom : rest.hasRoom 1 := (hs ▸ hb).hasRoom (by simp)
  apply follows_pop_bind hs
  apply follows_pop_bind rfl
  apply follows_pop_bind rfl
  rw [Stack.add_nil]
  exact follows_push hroom _

theorem follows_swap (hb : m.stack.Bounded) : Follows false (plain .swap) (Work.execute .swap) m := by
  apply follows_change_bind
  intro pair after hpopMany
  obtain ⟨rest, hlength, hs, rfl⟩ := Work.popMany_eq_ok hpopMany
  have hroom : rest.hasRoom pair.reverse.length := (hs ▸ hb).hasRoom (by simp)
  exact follows_change_of_ok (Work.pushAll_apply _ hroom)

theorem follows_memPlz : Follows false (plain .memPlz) (Work.execute .memPlz) m := by
  apply follows_look_bind
  intro _ hroom
  apply follows_change_bind
  intro handle after hallocate
  have hstack : after.stack = m.stack := by
    rw [Work.memory] at hallocate
    split at hallocate <;> cases hallocate
    rfl
  refine follows_push ?_ _
  rw [hstack]
  exact Stack.requireRoom_eq_ok_iff.mp hroom

theorem follows_memCya : Follows false (plain .memCya) (Work.execute .memCya) m := by
  apply follows_look_bind
  intro value _
  apply follows_look_bind
  intro handle _
  apply follows_change_bind
  intro x after _
  exact follows_change_of_ok rfl

theorem follows_memCheck (hb : m.stack.Bounded) : Follows false (plain .memCheck) (Work.execute .memCheck) m := by
  apply follows_change_bind
  intro value after hpop
  obtain ⟨rest, hs, rfl⟩ := Work.pop_eq_ok hpop
  refine follows_pass (look_apply rfl) ?_
  exact follows_push ((hs ▸ hb).hasRoom le_rfl) _

/-- The target was within the code before the condition was taken off, and the code is still the same. -/
theorem follows_jump (conditional : Bool) (target : Nat) :
    Follows false (jump conditional target) (Work.jump conditional target) m := by
  apply follows_look_bind
  intro _ htarget
  have hle : ¬ m.code.size < target := by
    intro hlt
    rw [if_pos hlt] at htarget
    cases htarget
  cases conditional with
  | false => exact follows_change _
  | true =>
    apply follows_change_bind
    intro condition after hpop
    obtain ⟨rest, -, rfl⟩ := Work.pop_eq_ok hpop
    cases condition.truthy with
    | false => exact follows_pure ()
    | true =>
      have hjump : Work.jumpTo target { m with stack := rest } =
          (.ok (), { m with stack := rest, position := target }) := by
        rw [Work.jumpTo, if_neg hle]
      exact follows_change_of_ok hjump

theorem lt_wordBound_of_le {n : Nat} (h : n ≤ Page.size) : n < Text.wordBound := lt_of_le_of_lt h (by decide)

theorem requireRange_apply {p : Page} {address length : Nat} (h : address + length ≤ Page.size) (t : Tracked σ) :
    look (fun _ => p.requireRange address length) t = (.ok (), t) :=
  look_apply (if_pos (Page.fits_iff.mpr h))

theorem readPage_apply {p : Page} {address length : Nat} (h : address + length ≤ Page.size) (t : Tracked σ) :
    readPage p address length t = (.ok (p.read address length), t) := by
  rw [readPage, bind_of_ok (requireRange_apply h t), bind_of_ok (word_apply (lt_wordBound_of_le h) t),
    bind_of_ok (cut_apply (Nat.le_add_right _ _) h t)]
  rfl

/-- Every element of a range lies in the page if the range does. -/
theorem elements_apply {p : Page} {address length : Nat} (h : address + length ≤ Page.size) (mode : Mode)
    (t : Tracked σ) :
    elements p address length mode t =
      (.ok ((List.range (length / mode.width)).map fun i => mode.load p (address + i * mode.width)), t) := by
  cases mode with
  | byte =>
    rw [elements, bind_of_ok (readPage_apply h t), ← Mode.loadMany_eq, Mode.width, Nat.div_one, Mode.loadMany_byte]
    rfl
  | float =>
    have helement : ∀ i ∈ List.range (length / 8),
        (word (i * 8) >>= fun offset => word (address + offset) >>= fun start =>
          readPage p start 8 >>= fun read => pure (Double.ofBytes read) : TrackedWork σ Double) t =
            (.ok (Mode.float.load p (address + i * 8)), t) := by
      intro i hi
      have hlt : i < length / 8 := List.mem_range.mp hi
      have hend : address + i * 8 + 8 ≤ Page.size := by omega
      have hoffset : i * 8 < Text.wordBound := lt_wordBound_of_le (by omega)
      have hstart : address + i * 8 < Text.wordBound := lt_wordBound_of_le (by omega)
      rw [bind_of_ok (word_apply hoffset t), bind_of_ok (word_apply hstart t), bind_of_ok (readPage_apply hend t)]
      rfl
    exact (mapM_apply helement).trans (Prod.ext List.mapM_pure rfl)

theorem follows_load (mode : Mode) : Follows false (load mode) (Work.load mode) m := by
  apply follows_look_bind
  intro a haccess
  obtain ⟨hdepth, -, hrange, -⟩ := Work.access_eq_ok haccess
  obtain ⟨hpage, hfits⟩ := Memory.requireRange_eq_ok_iff.mp hrange
  apply follows_look_bind
  rintro ⟨⟩ hroom
  refine follows_pass (look_apply (Memory.get_of_page? hpage)) ?_
  refine follows_pass (elements_apply hfits mode _) ?_
  apply follows_change_bind
  intro operands after hpopMany
  obtain ⟨rest, hlength, hs, rfl⟩ := Work.popMany_eq_ok hpopMany
  refine follows_change_of_ok (Work.pushAll_apply _ ?_)
  -- the room that was asked for leaves out the three operands, which are gone by now
  rw [Stack.requireRoom_eq_ok_iff, hs, Stack.hasRoom_add, hlength] at hroom
  refine Stack.hasRoom_of_le hroom ?_
  rw [List.length_map, List.length_range, Access.count]
  omega

/-- Indices into the stack are negative and far from the least of their type. -/
theorem chunks_apply {mode : Mode} {count : Nat} (hcount : count ≤ Page.size) :
    chunks mode count ⟨m, false⟩ =
      look (fun m => (List.range count).mapM fun i => m.stack.peek (-(3 + i + 1 : Nat)) >>= mode.bytes) ⟨m, false⟩ := by
  have hchunk : ∀ i ∈ List.range count,
      (signed i >>= fun index => signed (-4 - index) >>= fun index => peek index >>= fun value =>
        look fun _ => mode.bytes value : TrackedWork σ (List UInt8)) ⟨m, false⟩ =
          ((m.stack.peek (-(3 + i + 1 : Nat)) >>= mode.bytes).mapError .refused, ⟨m, false⟩) := by
    intro i hi
    have hlt : i < 65536 := lt_of_lt_of_le (List.mem_range.mp hi) hcount
    have hindex : (-4 - (i : ℤ)) = -(3 + i + 1 : Nat) := by omega
    rw [bind_of_ok (signed_apply (by omega) _), bind_of_ok (signed_apply (by omega) _), hindex, bind_apply, peek, look]
    cases m.stack.peek (-(3 + i + 1 : Nat)) with
    | error fault => rfl
    | ok value =>
      simp only [ok_bind, look]
      cases mode.bytes value <;> rfl
  refine (mapM_apply hchunk).trans ?_
  rw [mapM_mapError, look]
  rcases (List.range count).mapM fun i => m.stack.peek (-(3 + i + 1 : Nat)) >>= mode.bytes with fault | bytes <;> rfl

/-- A page that is live, and a range that is in it, do not stop a write. -/
theorem follows_writePage {handle address : Nat} {bytes : List UInt8} {p : Page}
    (hrange : m.memory.requireRange handle address bytes.length = .ok p) :
    Follows changed (writePage handle address bytes)
      (Work.memory fun memory => (memory.write handle address bytes).map ((), ·)) m := by
  obtain ⟨hpage, hfits⟩ := Memory.requireRange_eq_ok_iff.mp hrange
  have hfocus := m.memory.focus_eq handle
  rw [Memory.get_of_page? hpage] at hfocus
  refine follows_pass (look_apply hfocus) ?_
  refine follows_pass (requireRange_apply hfits _) ?_
  refine follows_pass (word_apply (lt_wordBound_of_le hfits) _) ?_
  refine follows_pass (cut_apply (Nat.le_add_right _ _) hfits _) ?_
  have hwrite : (m.memory.write handle address bytes).map ((), ·) =
      .ok ((), { m.memory with slots := m.memory.slots.setIfInBounds handle (some (p.write address bytes)) }) := by
    rw [Memory.write_eq, hrange, ← Memory.overwrite_of_page? hpage]
    rfl
  refine ⟨true, ?_⟩
  rw [change, Work.memory, Work.memory, hwrite]
  rfl

theorem follows_store (mode : Mode) : Follows false (store mode) (Work.store mode) m := by
  apply follows_look_bind
  intro a haccess
  obtain ⟨hoperands, hmultiple, hrange, -⟩ := Work.access_eq_ok haccess
  obtain ⟨hpage, hfits⟩ := Memory.requireRange_eq_ok_iff.mp hrange
  have hproduct : a.count mode * mode.width = a.length := Nat.div_mul_cancel (Nat.dvd_of_mod_eq_zero hmultiple)
  have hcount : a.count mode ≤ Page.size := by
    have hle : a.count mode ≤ a.length := Nat.div_le_self _ _
    omega
  have hdepth : 3 + a.count mode < Text.wordBound := by
    have hsize : Page.size + 3 < Text.wordBound := by decide
    omega
  refine follows_pass (word_apply hdepth _) ?_
  apply follows_look_bind
  intro _ hdeep
  refine follows_pass (word_apply (lt_wordBound_of_le (by omega)) _) ?_
  rw [Follows, bind_apply, chunks_apply hcount, ← bind_apply]
  apply follows_look_bind
  intro bytes hbytes
  rw [Work.mapM_peek mode.bytes (Stack.le_of_requireDepth hdeep)] at hbytes
  have hlength : bytes.flatten.length = a.length :=
    Work.length_flatten_topmost hmultiple (Stack.le_of_requireDepth hdeep) hbytes
  apply follows_change_bind
  intro operands after hpopMany
  obtain ⟨rest, -, -, rfl⟩ := Work.popMany_eq_ok hpopMany
  exact follows_writePage (p := a.page) (hlength ▸ hrange)

theorem unary?_opcode (f : Unary) : f.opcode.unary? = some f := by
  cases f <;> rfl

theorem binary?_opcode (f : Binary) : f.opcode.unary? = none ∧ f.opcode.binary? = some f := by
  cases f <;> exact ⟨rfl, rfl⟩

/-- What a decoded instruction checks before its first change is enough for everything that follows. -/
theorem follows_execute (hb : m.stack.Bounded) (i : Instr) :
    Follows false (execute i.decoded) (Work.execute i) m := by
  cases i with
  | halt => exact follows_change (Work.execute .halt)
  | capability name => exact follows_change _
  | capabilityCheck name =>
    apply follows_look_bind
    intro present _
    exact follows_change _
  | push x => exact follows_change _
  | pushBytes bytes => exact follows_change _
  | pop =>
    apply follows_change_bind
    intro x after _
    exact follows_pure ()
  | swap => exact follows_swap hb
  | dup =>
    apply follows_look_bind
    intro top _
    exact follows_change _
  | dup2 =>
    apply follows_look_bind
    intro under _
    apply follows_look_bind
    intro top _
    exact follows_change _
  | select => exact follows_select hb
  | jump conditional target => exact follows_jump conditional target
  | memPlz => exact follows_memPlz
  | memCya => exact follows_memCya
  | memCheck => exact follows_memCheck hb
  | memLoad mode => exact follows_load mode
  | memStore mode => exact follows_store mode
  | unary f =>
    have hsimple : execute (Instr.unary f).decoded = (pop >>= fun x => push (f.eval x) : TrackedWork σ Unit) := by
      change simple f.opcode = _
      rw [simple, unary?_opcode]
    rw [hsimple]
    exact follows_replace hb f.eval
  | binary f =>
    have hsimple : execute (Instr.binary f).decoded =
        (look (·.stack.requireDepth 2) >>= fun _ => pop >>= fun right => pop >>= fun left =>
          push (f.eval left right) : TrackedWork σ Unit) := by
      change simple f.opcode = _
      rw [simple, (binary?_opcode f).1, (binary?_opcode f).2]
    rw [hsimple]
    exact follows_combine hb f.eval
  | «over» =>
    apply follows_look_bind
    intro under _
    exact follows_change _

/-- On a stack that is fuller than its capacity the result of an operation finds no room in place of the operand. -/
example :
    let crowded : Machine Nat := { Machine.start #[] {} with stack := ⟨#[.one, .one], 0⟩ }
    (execute (.simple .not) { machine := crowded }).1 = .error (.tooLate (.stackOverflow 0)) := by
  decide

/-- An opcode that takes operands from its record is decoded together with them, never alone. -/
example (m : Machine Nat) : execute (.simple .push) { machine := m } = (.error .unforeseen, { machine := m }) := rfl

theorem decode_eq (hwords : Cursor.InWords ⟨m.code, m.position⟩) :
    decode ⟨m, changed⟩ =
      (((Work.decode m).1.map (Option.map Instr.decoded)).mapError .refused, ⟨(Work.decode m).2, changed⟩) := by
  obtain ⟨hagrees, -⟩ := Reading.agrees_record? ⟨m.code, m.position⟩ hwords
  rw [decode, hagrees, bind_apply, Work.decode]
  rcases Read.instr? ⟨m.code, m.position⟩ with ⟨fault | i, c⟩ <;> rfl

theorem decode_ne_none (hinside : m.position < m.code.size) : (Work.decode m).1 ≠ .ok none := by
  intro hnone
  have hread : m.code.instrAt? m.position = .ok none := by
    rw [Work.decode] at hnone
    rw [Code.instrAt?]
    rcases hinstr : Read.instr? ⟨m.code, m.position⟩ with ⟨fault | i, c⟩ <;> rw [hinstr] at hnone <;> cases hnone
    rfl
  exact absurd (Code.instrAt?_eq_none_iff.mp hread) (not_le.mpr hinside)

theorem stack_decode (m : Machine σ) : (Work.decode m).2.stack = m.stack := rfl

theorem follows_cycle (hb : m.stack.Bounded) (hwords : Cursor.InWords ⟨m.code, m.position⟩)
    (hinside : m.position < m.code.size) : Follows false cycle Work.cycle m := by
  have hsome := decode_ne_none hinside
  rw [Follows, cycle, Work.cycle, bind_apply, bind_apply, decode_eq hwords]
  rcases hdecode : Work.decode m with ⟨fault | i, after⟩
  · exact ⟨false, rfl⟩
  · cases i with
    | none =>
      rw [hdecode] at hsome
      exact absurd rfl hsome
    | some i =>
      have hstack := stack_decode m
      rw [hdecode] at hstack
      exact follows_execute (hstack ▸ hb) i

end TrackedWork

/-- A step with care comes out as the step does, and every refusal of it is in time. -/
theorem Machine.stepTracked_eq {m : Machine σ} (hb : m.stack.Bounded) (hsize : m.code.size < Text.wordBound) :
    m.stepTracked = (m.step.result.mapError .refused, m.step.machine) := by
  suffices hplace : m.stepTracked = (m.stepInPlace.1.mapError .refused, m.stepInPlace.2) by
    rw [hplace, stepInPlace_eq_step hb]
  rw [stepTracked, stepInPlace]
  by_cases hhalted : m.halted = true
  · rw [if_pos hhalted, if_pos hhalted]
    rfl
  · rw [if_neg hhalted, if_neg hhalted]
    by_cases hend : m.code.size ≤ m.position
    · rw [if_pos hend, if_pos hend]
      rfl
    · have hinside := not_le.mp hend
      obtain ⟨touched, hcycle⟩ := TrackedWork.follows_cycle hb ⟨hinside.trans hsize, hsize⟩ hinside
      rw [if_neg hend, if_neg hend, hcycle]
      rcases Work.cycle m with ⟨fault | _, after⟩ <;> rfl

/-- In a reachable state every instruction that can be decoded is refused before its first change or goes through,
within the ranges of its numbers and slices, and comes out as in place. So does the step that decodes it. -/
theorem changes_go_through (P : Conduct σ → Prop) (hP : ∀ act, P act → Stack.KeptBy Stack.Bounded act) (code : Code)
    (limits : Limits) (m : Machine σ) (hreach : Reachable P code limits m) (hsize : code.size < 2 ^ 64) :
    (∀ (c after : Cursor) (d : Decoded) (position : Nat), c.InWords → Reading.record? c = (.ok (some d), after) →
      Timely (TrackedWork.execute d { machine := { m with position } }).1 ∧
        ∃ i : Instr, d = i.decoded ∧
          TrackedWork.Follows false (TrackedWork.execute d) (Work.execute i) { m with position }) ∧
    Timely m.stepTracked.1 ∧ m.stepTracked = (m.step.result.mapError .refused, m.step.machine) := by
  have hbounded := hreach.bounded hP
  obtain ⟨rfl, -⟩ := Machine.inCode_of_reachable hreach
  have hstep := Machine.stepTracked_eq hbounded hsize
  refine ⟨?_, ?_, hstep⟩
  · intro c after d position hwords hread
    obtain ⟨i, rfl⟩ := Reading.exists_decoded hwords hread
    have hfollows : TrackedWork.Follows false (TrackedWork.execute i.decoded) (Work.execute i) { m with position } :=
      TrackedWork.follows_execute (m := { m with position }) hbounded i
    refine ⟨?_, i, rfl, hfollows⟩
    obtain ⟨touched, hexecute⟩ := hfollows
    rw [hexecute]
    exact timely_mapError _
  · rw [hstep]
    exact timely_mapError _

/-- The last eight bytes of a page are to be written, from a stack that is full of operands. -/
def edging : Code :=
  .ofInstrs [.push .one, .push (.ofNat 8), .push (.ofNat 65528), .memPlz, .memStore .float]

def edged : Machine Nat := ((Machine.start edging { stackCapacity := 4 }).runFor 4).machine

theorem changes_go_through_edged :
    edged.stack.depth = edged.stack.capacity ∧ edged.stepTracked = (.ok .running, edged.step.machine) ∧
      Timely (TrackedWork.execute (.memLoad .byte) { machine := { edged with position := 2 } }).1 ∧
      Timely (TrackedWork.execute (.simple .memPlz) { machine := { edged with position := 1 } }).1 := by
  have hfull : edged.stack.depth = edged.stack.capacity := by decide +kernel
  have hresult : edged.step.result = .ok .running := by decide +kernel
  have hreach : Reachable (Stack.KeptBy Stack.Bounded) edging { stackCapacity := 4 } edged := .runFor .start 4
  have hsize : edging.size < 2 ^ 64 := by decide +kernel
  have hload : Reading.record? ⟨#[0x0e, 1], 0⟩ = (.ok (some (.memLoad .byte)), ⟨#[0x0e, 1], 2⟩) := rfl
  have hmemPlz : Reading.record? ⟨#[0x0c], 0⟩ = (.ok (some (.simple .memPlz)), ⟨#[0x0c], 1⟩) := rfl
  obtain ⟨hdecoded, -, hstep⟩ := changes_go_through _ (fun _ h => h) _ _ edged hreach hsize
  rw [hresult] at hstep
  exact ⟨hfull, hstep, (hdecoded _ _ _ 2 (by decide) hload).1, (hdecoded _ _ _ 1 (by decide) hmemPlz).1⟩

end StackMachine
