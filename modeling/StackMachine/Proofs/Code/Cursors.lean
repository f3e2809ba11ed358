import StackMachine.Memory.Page
import StackMachine.Proofs.Careful
import StackMachine.Proofs.Code.Spelling

/-!
Reading with care. `Reading` takes records apart with a cursor that is a machine word: it adds to the cursor, cuts
slices out of the image, and leaves opcodes without operands unexplained. Where the size of the image and the cursor
are machine words, and the cursor may lie anywhere, it answers as `Read` does, so no addition overflows and
no slice is out of range. `Reply.Disciplined` says what every single call of a reader does to the cursor, and
`reader_disciplined` that the calls of any sequence do so.
-/

set_option autoImplicit false

namespace StackMachine

inductive Decoded where
  | halt
  | capability (name : String)
  | capabilityCheck (name : String)
  | push (value : Double)
  | pushBytes (bytes : List UInt8)
  | jump (conditional : Bool) (target : Nat)
  | memLoad (mode : Mode)
  | memStore (mode : Mode)
  | simple (op : Opcode)
  deriving DecidableEq, Repr

def Instr.decoded : Instr → Decoded
  | .halt => .halt
  | .capability name => .capability name
  | .capabilityCheck name => .capabilityCheck name
  | .push value => .push value
  | .pushBytes bytes => .pushBytes bytes
  | .jump conditional target => .jump conditional target
  | .memLoad mode => .memLoad mode
  | .memStore mode => .memStore mode
  | i => .simple i.opcode

abbrev Reading := Careful Cursor

namespace Reading

open Careful

variable {α β : Type}

def refuse (fault : Fault) : Reading α := throw (.refused fault)

def byte? : Reading (Option UInt8) := do
  let c ← get
  match c.code[c.position]? with
  | some b =>
    set { c with position := ← word (c.position + 1) }
    return some b
  | none => return none

def byte : Reading UInt8 := do
  match ← byte? with
  | some b => return b
  | none => refuse .unexpectedEnd

def bytes (count : Nat) : Reading (List UInt8) := do
  let c ← get
  match (Page.rangeEnd? c.position count).filter (· ≤ c.code.size) with
  | some stop =>
    cut c.position stop c.code.size
    set { c with position := stop }
    return (c.code.extract c.position stop).toList
  | none => refuse .unexpectedEnd

def double : Reading Double := do
  let read ← bytes 8
  ensure (read.length = 8)
  return .ofBytes read

def natural : Reading Nat := do
  match (← double).toNatOf "unsigned integer operand" with
  | .ok n => return n
  | .error fault => refuse fault

def bool : Reading Bool := do
  return (← byte) != 0

def name : Reading String := do
  let length ← natural
  match String.fromUTF8? ⟨(← bytes length).toArray⟩ with
  | some text => return text
  | none => refuse (.invalidOperand "capability name")

def operands : Opcode → Reading Decoded
  | .halt => return .halt
  | .capability => return .capability (← name)
  | .capabilityCheck => return .capabilityCheck (← name)
  | .push => return .push (← double)
  | .pushBytes => return .pushBytes (← bytes (← natural))
  | .jump => do
    let conditional ← bool
    return .jump conditional (← natural)
  | .memLoad => return .memLoad (.ofIsByte (← bool))
  | .memStore => return .memStore (.ofIsByte (← bool))
  | op => return .simple op

def record? : Reading (Option Decoded) := do
  match ← byte? with
  | none => return none
  | some b =>
    match Opcode.ofByte? b with
    | some op => return some (← operands op)
    | none => refuse (.unknownOpcode b)

end Reading

namespace Read

theorem length_of_bytes {count : Nat} {read : List UInt8} {c d : Cursor} (h : bytes count c = (.ok read, d)) :
    read.length = count := by
  rw [bytes_apply] at h
  split at h
  case isTrue hfits =>
    cases h
    simp only [Array.length_toList, Array.size_extract]
    omega
  case isFalse => cases h

theorem bytes_of_fits {count : Nat} {c : Cursor} (h : c.position + count ≤ c.code.size) :
    ∃ read, c.code.Holds c.position read ∧ read.length = count ∧
      bytes count c = (.ok read, { c with position := c.position + count }) := by
  have hread : bytes count c = _ := bytes_apply count c
  rw [if_pos h] at hread
  have hposition : c.position ≤ c.code.size := by omega
  obtain ⟨read, ⟨rfl, hlength⟩, hold, -⟩ := (accepts_bytes count c.code c.position _ _ hposition).mp hread
  exact ⟨_, hold, hlength, hread⟩

theorem byte_of_lt {c : Cursor} (h : c.position < c.code.size) :
    ∃ b, c.code.Holds c.position [b] ∧ byte? c = (.ok (some b), { c with position := c.position + 1 }) ∧
      byte c = (.ok b, { c with position := c.position + 1 }) := by
  have hget := Array.getElem?_eq_getElem h
  refine ⟨c.code[c.position], Code.holds_singleton.mpr hget, ?_, ?_⟩
  · rw [byte?_apply, if_pos h, hget]
  · simp only [byte_apply, hget]

theorem byte_of_le {c : Cursor} (h : c.code.size ≤ c.position) :
    byte? c = (.ok none, c) ∧ byte c = (.error .unexpectedEnd, c) := by
  have hget := Array.getElem?_eq_none h
  constructor
  · rw [byte?_apply, if_neg (not_lt.mpr h), hget]
  · simp only [byte_apply, hget]

theorem double_of_fits {c : Cursor} (h : c.position + 8 ≤ c.code.size) :
    ∃ read, c.code.Holds c.position read ∧ read.length = 8 ∧
      double c = (.ok (.ofBytes read), { c with position := c.position + 8 }) := by
  obtain ⟨read, hold, hlength, hread⟩ := bytes_of_fits h
  refine ⟨read, hold, hlength, ?_⟩
  rw [double, bind_apply, hread]
  rfl

theorem bytes_of_short {count : Nat} {c : Cursor} (h : c.code.size < c.position + count) :
    bytes count c = (.error .unexpectedEnd, c) := by
  rw [bytes_apply, if_neg (not_le.mpr h)]

theorem double_of_short {c : Cursor} (h : c.code.size < c.position + 8) :
    double c = (.error .unexpectedEnd, c) := by
  rw [double, bind_apply, bytes_of_short h]

end Read

namespace Cursor

def InWords (c : Cursor) : Prop := c.position < Text.wordBound ∧ c.code.size < Text.wordBound

instance (c : Cursor) : Decidable c.InWords := inferInstanceAs (Decidable (_ ∧ _))

/-- From one place to a later one of the same image. The cursor does not leave the image that it was in. -/
structure Onward (c d : Cursor) : Prop where
  code : d.code = c.code
  le : c.position ≤ d.position
  le_max : d.position ≤ max c.position c.code.size

theorem Onward.refl (c : Cursor) : c.Onward c := ⟨rfl, le_rfl, le_max_left _ _⟩

theorem Onward.trans {c d e : Cursor} (h : c.Onward d) (k : d.Onward e) : c.Onward e := by
  obtain ⟨hcode, hle, hmax⟩ := h
  obtain ⟨kcode, kle, kmax⟩ := k
  refine ⟨kcode.trans hcode, hle.trans kle, ?_⟩
  rw [hcode] at kmax
  omega

theorem Onward.inWords {c d : Cursor} (h : c.Onward d) (hc : c.InWords) : d.InWords := by
  obtain ⟨hcode, -, hmax⟩ := h
  obtain ⟨hposition, hsize⟩ := hc
  refine ⟨?_, hcode ▸ hsize⟩
  omega

end Cursor

namespace Reading

variable {α β : Type}

/-- The careful reading does what the read does, and moves the cursor onward. -/
def Agrees (w : Reading α) (r : Read α) : Prop :=
  ∀ c : Cursor, c.InWords → w c = ((r c).1.mapError .refused, (r c).2) ∧ c.Onward (r c).2

theorem agrees_pure (a : α) : Agrees (pure a) (pure a) := fun c _ => ⟨rfl, .refl c⟩

theorem agrees_refuse (fault : Fault) : Agrees (refuse (α := α) fault) (throw fault) := fun c _ => ⟨rfl, .refl c⟩

/-- What follows has to agree only on answers that there are. -/
theorem Agrees.bind {w : Reading α} {r : Read α} {f : α → Reading β} {g : α → Read β} (hw : Agrees w r)
    (hf : ∀ a c d, r c = (.ok a, d) → Agrees (f a) (g a)) : Agrees (w >>= f) (r >>= g) := by
  intro c hc
  obtain ⟨hequal, honward⟩ := hw c hc
  rw [bind_apply, bind_apply, hequal]
  rcases hread : r c with ⟨fault | a, d⟩
  · rw [hread] at honward
    exact ⟨rfl, honward⟩
  · rw [hread] at honward
    obtain ⟨hnext, honward'⟩ := hf a c d hread d (honward.inWords hc)
    exact ⟨hnext, honward.trans honward'⟩

theorem Agrees.map {w : Reading α} {r : Read α} (hw : Agrees w r) (f : α → β) :
    Agrees (w >>= fun a => pure (f a)) (r >>= fun a => pure (f a)) :=
  hw.bind fun a _ _ _ => agrees_pure (f a)

theorem Agrees.decoded {w : Reading α} {r : Read α} (hw : Agrees w r) (made : α → Instr) :
    Agrees (w >>= fun a => pure (made a).decoded)
      ((r >>= fun a => pure (made a)) >>= fun i => pure i.decoded) := by
  have hread : ((r >>= fun a => pure (made a)) >>= fun i => pure i.decoded) =
      r >>= fun a => pure (made a).decoded := by
    simp only [bind_assoc, pure_bind]
  rw [hread]
  exact hw.map _

theorem agrees_byte? : Agrees byte? Read.byte? := by
  intro c hc
  have hget : (get : Reading Cursor) c = (.ok c, c) := rfl
  rw [Read.byte?_apply, byte?, Careful.bind_of_ok hget]
  by_cases h : c.position < c.code.size
  · have hnext : c.position + 1 < Text.wordBound := lt_of_le_of_lt h hc.2
    simp only [Array.getElem?_eq_getElem h, if_pos h]
    rw [Careful.bind_of_ok (Careful.word_apply hnext c)]
    exact ⟨rfl, rfl, Nat.le_succ _, le_max_of_le_right h⟩
  · simp only [Array.getElem?_eq_none (not_lt.mp h), if_neg h]
    exact ⟨rfl, .refl c⟩

theorem agrees_byte : Agrees byte Read.byte := by
  apply agrees_byte?.bind
  intro b _ _ _
  cases b with
  | some b => exact agrees_pure b
  | none => exact agrees_refuse _

theorem agrees_bytes (count : Nat) : Agrees (bytes count) (Read.bytes count) := by
  intro c hc
  have hget : (get : Reading Cursor) c = (.ok c, c) := rfl
  rw [Read.bytes_apply, bytes, Careful.bind_of_ok hget]
  by_cases h : c.position + count ≤ c.code.size
  · have hstop : (Page.rangeEnd? c.position count).filter (· ≤ c.code.size) = some (c.position + count) := by
      rw [Page.rangeEnd?, if_pos (lt_of_le_of_lt h hc.2)]
      simpa using h
    simp only [hstop, if_pos h]
    rw [Careful.bind_of_ok (Careful.cut_apply (Nat.le_add_right _ _) h c)]
    exact ⟨rfl, rfl, Nat.le_add_right _ _, le_max_of_le_right h⟩
  · have hnone : (Page.rangeEnd? c.position count).filter (· ≤ c.code.size) = none := by
      rw [Page.rangeEnd?]
      split
      · simpa using h
      · rfl
    simp only [hnone, if_neg h]
    exact ⟨rfl, .refl c⟩

theorem agrees_double : Agrees double Read.double := by
  apply (agrees_bytes 8).bind
  intro read _ _ hread d hd
  rw [Careful.bind_of_ok (Careful.ensure_apply (Read.length_of_bytes hread) d)]
  exact agrees_pure _ d hd

theorem agrees_natural : Agrees natural Read.natural := by
  apply agrees_double.bind
  intro x _ _ _
  cases x.toNatOf "unsigned integer operand" with
  | ok n => exact agrees_pure n
  | error fault => exact agrees_refuse fault

theorem agrees_bool : Agrees bool Read.bool := agrees_byte.map _

theorem agrees_name : Agrees name Read.name := by
  apply agrees_natural.bind
  intro length _ _ _
  apply (agrees_bytes length).bind
  intro read _ _ _
  cases String.fromUTF8? ⟨read.toArray⟩ with
  | some text => exact agrees_pure text
  | none => exact agrees_refuse _

theorem agrees_operands (op : Opcode) : Agrees (operands op) (Read.operands op >>= fun i => pure i.decoded) := by
  cases op with
  | capability => exact agrees_name.decoded .capability
  | capabilityCheck => exact agrees_name.decoded .capabilityCheck
  | push => exact agrees_double.decoded .push
  | pushBytes =>
    have hread : Read.operands .pushBytes =
        Read.natural >>= fun length => Read.bytes length >>= fun read => pure (.pushBytes read) := rfl
    rw [hread, bind_assoc]
    apply agrees_natural.bind
    intro length _ _ _
    exact (agrees_bytes length).decoded .pushBytes
  | jump =>
    have hread : Read.operands .jump =
        Read.bool >>= fun conditional => Read.natural >>= fun target => pure (.jump conditional target) := rfl
    rw [hread, bind_assoc]
    apply agrees_bool.bind
    intro conditional _ _ _
    exact agrees_natural.decoded (.jump conditional)
  | memLoad => exact agrees_bool.decoded fun b => .memLoad (.ofIsByte b)
  | memStore => exact agrees_bool.decoded fun b => .memStore (.ofIsByte b)
  | _ => exact fun c _ => ⟨rfl, .refl c⟩

theorem agrees_record? : Agrees record? (Read.instr? >>= fun i => pure (i.map Instr.decoded)) := by
  rw [Read.instr?, bind_assoc]
  apply agrees_byte?.bind
  intro b _ _ _
  cases b with
  | none => exact agrees_pure none
  | some b =>
    simp only
    cases Opcode.ofByte? b with
    | none => exact agrees_refuse _
    | some op =>
      have hread : ((Read.operands op >>= fun i => pure (some i)) >>= fun i => pure (i.map Instr.decoded)) =
          (Read.operands op >>= fun i => pure i.decoded) >>= fun d => pure (some d) := by
        simp only [bind_assoc, pure_bind, Option.map_some]
      rw [hread]
      exact (agrees_operands op).map some

inductive Call where
  | opcode
  | byte
  | bytes (count : Nat)
  | double
  | bool
  | natural
  /-- What follows an opcode that was read before. -/
  | operands (op : Opcode)
  | record
  deriving DecidableEq, Repr

inductive Answer where
  | opcode (b : Option UInt8)
  | byte (b : UInt8)
  | bytes (read : List UInt8)
  | double (x : Double)
  | bool (b : Bool)
  | natural (n : Nat)
  | record (d : Option Decoded)
  deriving DecidableEq, Repr

namespace Call

def careful : Call → Reading Answer
  | .opcode => return .opcode (← Reading.byte?)
  | .byte => return .byte (← Reading.byte)
  | .bytes count => return .bytes (← Reading.bytes count)
  | .double => return .double (← Reading.double)
  | .bool => return .bool (← Reading.bool)
  | .natural => return .natural (← Reading.natural)
  | .operands op => return .record (some (← Reading.operands op))
  | .record => return .record (← Reading.record?)

def read : Call → Read Answer
  | .opcode => return .opcode (← Read.byte?)
  | .byte => return .byte (← Read.byte)
  | .bytes count => return .bytes (← Read.bytes count)
  | .double => return .double (← Read.double)
  | .bool => return .bool (← Read.bool)
  | .natural => return .natural (← Read.natural)
  | .operands op => return .record (some (← Read.operands op).decoded)
  | .record => return .record ((← Read.instr?).map Instr.decoded)

/-- The number of bytes that a primitive call takes. Records have no fixed width. -/
def width? : Call → Option Nat
  | .opcode | .byte | .bool => some 1
  | .bytes count => some count
  | .double | .natural => some 8
  | .operands _ | .record => none

def short : Call → Except Fault Answer
  | .opcode => .ok (.opcode none)
  | _ => .error .unexpectedEnd

inductive Takes : Call → List UInt8 → Except Fault Answer → Prop
  | opcode (b : UInt8) : Takes .opcode [b] (.ok (.opcode (some b)))
  | byte (b : UInt8) : Takes .byte [b] (.ok (.byte b))
  | bytes (read : List UInt8) : Takes (.bytes read.length) read (.ok (.bytes read))
  | double (x : Double) : Takes .double x.toBytes (.ok (.double x))
  | bool (b : UInt8) : Takes .bool [b] (.ok (.bool (b != 0)))
  | natural {read : List UInt8} {n : Nat} (h : Read.SpellsNat read n) : Takes .natural read (.ok (.natural n))
  | rejected {read : List UInt8} (hlength : read.length = 8) (h : ∀ n, ¬ Read.SpellsNat read n) :
      Takes .natural read (.error (.invalidOperand "unsigned integer operand"))

theorem agrees (call : Call) : Agrees call.careful call.read := by
  cases call with
  | opcode => exact agrees_byte?.map _
  | byte => exact agrees_byte.map _
  | bytes count => exact (agrees_bytes count).map _
  | double => exact agrees_double.map _
  | bool => exact agrees_bool.map _
  | natural => exact agrees_natural.map _
  | operands op =>
    have hread : read (.operands op) =
        (Read.operands op >>= fun i => pure i.decoded) >>= fun d => pure (.record (some d)) := by
      simp only [read, bind_assoc, pure_bind]
    rw [hread]
    exact (agrees_operands op).map _
  | record =>
    have hread : read .record =
        (Read.instr? >>= fun i => pure (i.map Instr.decoded)) >>= fun d => pure (.record d) := by
      simp only [read, bind_assoc, pure_bind]
    rw [hread]
    exact agrees_record?.map _

variable {call : Call} {c : Cursor} {width : Nat}

theorem natural_of_fits (h : c.position + 8 ≤ c.code.size) :
    ∃ bytes answer, c.code.Holds c.position bytes ∧ bytes.length = 8 ∧ Takes .natural bytes answer ∧
      read .natural c = (answer, { c with position := c.position + 8 }) := by
  obtain ⟨bytes, hold, hlength, hread⟩ := Read.double_of_fits h
  cases hvalue : (Double.ofBytes bytes).toNat? with
  | some n =>
    have hanswer : (Double.ofBytes bytes).toNatOf "unsigned integer operand" = .ok n :=
      Read.toNatOf_eq_ok_iff.mpr hvalue
    refine ⟨bytes, _, hold, hlength, .natural ⟨hlength, hvalue⟩, ?_⟩
    rw [read, bind_apply, Read.natural, bind_apply, hread]
    simp only [hanswer]
    rfl
  | none =>
    have hanswer : (Double.ofBytes bytes).toNatOf "unsigned integer operand" = .error Read.notNatural := by
      rw [Double.toNatOf, hvalue, Read.notNatural]
    have hrejected : ∀ n, ¬ Read.SpellsNat bytes n := by
      rintro n ⟨-, hn⟩
      rw [hvalue] at hn
      cases hn
    refine ⟨bytes, _, hold, hlength, .rejected hlength hrejected, ?_⟩
    rw [read, bind_apply, Read.natural, bind_apply, hread]
    simp only [hanswer]
    rfl

/-- Where the bytes suffice, a primitive call takes exactly its width, also if it rejects what it took. -/
theorem read_of_fits (hwidth : call.width? = some width) (h : c.position + width ≤ c.code.size) :
    ∃ bytes answer, c.code.Holds c.position bytes ∧ bytes.length = width ∧ call.Takes bytes answer ∧
      call.read c = (answer, { c with position := c.position + width }) := by
  cases call with
  | opcode =>
    cases hwidth
    obtain ⟨b, hold, hbyte?, -⟩ := Read.byte_of_lt h
    refine ⟨[b], _, hold, rfl, .opcode b, ?_⟩
    rw [read, bind_apply, hbyte?]
    rfl
  | byte =>
    cases hwidth
    obtain ⟨b, hold, -, hbyte⟩ := Read.byte_of_lt h
    refine ⟨[b], _, hold, rfl, .byte b, ?_⟩
    rw [read, bind_apply, hbyte]
    rfl
  | bool =>
    cases hwidth
    obtain ⟨b, hold, -, hbyte⟩ := Read.byte_of_lt h
    refine ⟨[b], _, hold, rfl, .bool b, ?_⟩
    rw [read, bind_apply, Read.bool, bind_apply, hbyte]
    rfl
  | bytes count =>
    cases hwidth
    obtain ⟨bytes, hold, rfl, hread⟩ := Read.bytes_of_fits h
    refine ⟨bytes, _, hold, rfl, .bytes bytes, ?_⟩
    rw [read, bind_apply, hread]
    rfl
  | double =>
    cases hwidth
    obtain ⟨bytes, hold, hlength, hread⟩ := Read.double_of_fits h
    have htakes := Takes.double (.ofBytes bytes)
    rw [Double.toBytes_ofBytes hlength] at htakes
    refine ⟨bytes, _, hold, hlength, htakes, ?_⟩
    rw [read, bind_apply, hread]
    rfl
  | natural =>
    cases hwidth
    exact natural_of_fits h
  | _ => cases hwidth

/-- Where they do not, it stays where it is. -/
theorem read_of_short (hwidth : call.width? = some width) (h : c.code.size < c.position + width) :
    call.read c = (call.short, c) := by
  cases call with
  | opcode =>
    cases hwidth
    rw [read, bind_apply, (Read.byte_of_le (Nat.le_of_lt_succ h)).1]
    rfl
  | byte =>
    cases hwidth
    rw [read, bind_apply, (Read.byte_of_le (Nat.le_of_lt_succ h)).2]
    rfl
  | bool =>
    cases hwidth
    rw [read, bind_apply, Read.bool, bind_apply, (Read.byte_of_le (Nat.le_of_lt_succ h)).2]
    rfl
  | bytes count =>
    cases hwidth
    rw [read, bind_apply, Read.bytes_of_short h]
    rfl
  | double =>
    cases hwidth
    rw [read, bind_apply, Read.double_of_short h]
    rfl
  | natural =>
    cases hwidth
    rw [read, bind_apply, Read.natural, bind_apply, Read.double_of_short h]
    rfl
  | _ => cases hwidth

end Call

structure Reply where
  call : Call
  before : Cursor
  answer : Except Setback Answer
  after : Cursor

/-- One call after the other. The next one starts where the last one stopped, whether it failed or not. -/
def replies : List Call → Cursor → List Reply
  | [], _ => []
  | call :: calls, c => ⟨call, c, (call.careful c).1, (call.careful c).2⟩ :: replies calls (call.careful c).2

structure Reply.Disciplined (r : Reply) : Prop where
  inRange : r.answer ≠ .error .outOfRange
  onward : r.before.Onward r.after
  /-- Cursor and answer are those of a reader that counts without a bound. -/
  reads : r.answer = (r.call.read r.before).1.mapError .refused ∧ r.after = (r.call.read r.before).2
  takes : ∀ width, r.call.width? = some width → r.before.position + width ≤ r.before.code.size →
    r.after.position = r.before.position + width ∧
      ∃ bytes answer, r.before.code.Holds r.before.position bytes ∧ bytes.length = width ∧
        r.call.Takes bytes answer ∧ r.answer = answer.mapError .refused
  stays : ∀ width, r.call.width? = some width → r.before.code.size < r.before.position + width →
    r.answer = r.call.short.mapError .refused ∧ r.after = r.before

theorem Reply.disciplined_of_careful (call : Call) {c : Cursor} (hc : c.InWords) :
    Disciplined ⟨call, c, (call.careful c).1, (call.careful c).2⟩ := by
  obtain ⟨hagrees, honward⟩ := call.agrees c hc
  rw [hagrees]
  refine ⟨?_, honward, ⟨rfl, rfl⟩, ?_, ?_⟩
  · rcases (call.read c).1 with fault | answer
    · exact nofun
    · exact nofun
  · intro width hwidth hfits
    obtain ⟨bytes, answer, hold, hlength, htakes, hread⟩ := Call.read_of_fits hwidth hfits
    rw [hread]
    exact ⟨rfl, bytes, answer, hold, hlength, htakes, rfl⟩
  · intro width hwidth hshort
    rw [Call.read_of_short hwidth hshort]
    exact ⟨rfl, rfl⟩

theorem replies_disciplined (calls : List Call) {c : Cursor} (hc : c.InWords) :
    ∀ r ∈ replies calls c, r.Disciplined ∧ c.Onward r.before := by
  induction calls generalizing c with
  | nil =>
    intro r hr
    cases hr
  | cons call calls ih =>
    intro r hr
    have hfirst := Reply.disciplined_of_careful call hc
    rcases List.mem_cons.mp hr with rfl | hr
    · exact ⟨hfirst, .refl c⟩
    · obtain ⟨hdisciplined, honward⟩ := ih (hfirst.onward.inWords hc) r hr
      exact ⟨hdisciplined, hfirst.onward.trans honward⟩

theorem exists_decoded {c after : Cursor} {d : Decoded} (hc : c.InWords) (h : record? c = (.ok (some d), after)) :
    ∃ i : Instr, d = i.decoded := by
  obtain ⟨hagrees, -⟩ := agrees_record? c hc
  rw [hagrees, bind_apply] at h
  rcases hread : Read.instr? c with ⟨fault | i, e⟩
  · rw [hread] at h
    cases h
  · rw [hread] at h
    cases i with
    | none => cases h
    | some i =>
      cases h
      exact ⟨i, rfl⟩

end Reading

/-- Whatever a reader is asked for, one call after the other, and wherever its cursor was put: every call is
disciplined, and the cursor stays between where it began and the end of the code, or where it began if that is
further. -/
theorem reader_disciplined (code : Code) (position : Nat) (calls : List Reading.Call) (hcode : code.size < 2 ^ 64)
    (hposition : position < 2 ^ 64) :
    ∀ r ∈ Reading.replies calls ⟨code, position⟩,
      r.Disciplined ∧ r.before.code = code ∧ position ≤ r.before.position ∧
        r.after.position ≤ max position code.size := by
  intro r hr
  have hinWords : Cursor.InWords ⟨code, position⟩ := ⟨hposition, hcode⟩
  obtain ⟨hdisciplined, honward⟩ := Reading.replies_disciplined calls hinWords r hr
  have hall := honward.trans hdisciplined.onward
  exact ⟨hdisciplined, honward.code, honward.le, hall.le_max⟩

def brokenJump : Code := #[11, 1, 0, 0, 0, 0, 0, 0, 0xf8, 0x3f, 7]

/-- At the largest of all positions a record cannot even begin. -/
theorem reader_disciplined_astray :
    let calls : List Reading.Call := [.record, .natural, .bytes 0xffffffffffffffff, .bytes 0, .opcode]
    (∀ r ∈ Reading.replies calls ⟨brokenJump, 0⟩, r.Disciplined) ∧
      (∀ r ∈ Reading.replies calls ⟨brokenJump, 0xffffffffffffffff⟩, r.Disciplined) ∧
      (Reading.replies calls ⟨brokenJump, 0⟩).map (·.after.position) = [10, 10, 10, 10, 11] ∧
      (Reading.replies calls ⟨brokenJump, 0xffffffffffffffff⟩).map (·.answer) =
        [.ok (.record none), .error (.refused .unexpectedEnd), .error (.refused .unexpectedEnd),
          .error (.refused .unexpectedEnd), .ok (.opcode none)] := by
  intro calls
  have hcode : brokenJump.size < 2 ^ 64 := by decide
  refine ⟨?_, ?_, ?_, ?_⟩
  · intro r hr
    exact (reader_disciplined brokenJump 0 calls hcode (by decide) r hr).1
  · intro r hr
    exact (reader_disciplined brokenJump 0xffffffffffffffff calls hcode (by decide) r hr).1
  · decide +kernel
  · decide +kernel

end StackMachine
