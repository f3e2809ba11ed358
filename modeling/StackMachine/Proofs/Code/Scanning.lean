import StackMachine.Proofs.Code.Rewriting

/-!
Reading an image from its start to its end. `Code.Scans` reads record after record with no bound on their number, and
`scans_iff` says that this always ends, with the answer of `Code.decodeAll`. A read answers the same
wherever its bytes lie, so an image that is put behind another one is read as before, at shifted offsets.
-/

set_option autoImplicit false

namespace StackMachine

def Cursor.behind (front : Code) (c : Cursor) : Cursor := ⟨front ++ c.code, front.size + c.position⟩

namespace Read

variable {α β : Type}

/-- The read answers the same behind other bytes, and stops as far from where it began, failures included. -/
def Shifts (r : Read α) : Prop := ∀ (front : Code) (c : Cursor), r (c.behind front) = ((r c).1, (r c).2.behind front)

theorem shifts_pure (a : α) : Shifts (pure a) := fun _ _ => rfl

theorem shifts_lift (e : Except Fault α) : Shifts (liftM e) := by
  intro front c
  cases e <;> rfl

theorem Shifts.bind {r : Read α} {f : α → Read β} (hr : Shifts r) (hf : ∀ a, Shifts (f a)) : Shifts (r >>= f) := by
  intro front c
  rw [bind_apply, bind_apply, hr front c]
  rcases r c with ⟨fault | a, d⟩
  · rfl
  · exact hf a front d

theorem shifts_bytes (count : Nat) : Shifts (bytes count) := by
  intro front c
  have hfits : front.size + c.position + count ≤ (front ++ c.code).size ↔ c.position + count ≤ c.code.size := by
    rw [Array.size_append]
    omega
  rw [bytes_apply, bytes_apply]
  simp only [Cursor.behind, hfits]
  split
  · have hstart : front.size + c.position - front.size = c.position := by omega
    have hend : front.size + c.position + count - front.size = c.position + count := by omega
    rw [Array.extract_append, Array.extract_empty_of_size_le_start (by omega), Array.empty_append, hstart, hend,
      Nat.add_assoc]
  · rfl

theorem shifts_byte? : Shifts byte? := by
  intro front c
  have hbefore : front.size + c.position < (front ++ c.code).size ↔ c.position < c.code.size := by
    rw [Array.size_append]
    omega
  have hget : (front ++ c.code)[front.size + c.position]? = c.code[c.position]? := by
    rw [Array.getElem?_append_right (by omega), Nat.add_sub_cancel_left]
  rw [byte?_apply, byte?_apply]
  simp only [Cursor.behind, hbefore, hget]
  split <;> rfl

theorem shifts_byte : Shifts byte := by
  refine shifts_byte?.bind fun b => ?_
  cases b with
  | none => exact shifts_lift (.error .unexpectedEnd)
  | some b => exact shifts_pure b

theorem shifts_double : Shifts double := (shifts_bytes 8).bind fun _ => shifts_pure _

theorem shifts_natural : Shifts natural := shifts_double.bind fun _ => shifts_lift _

theorem shifts_bool : Shifts bool := shifts_byte.bind fun _ => shifts_pure _

theorem shifts_name : Shifts name := by
  refine shifts_natural.bind fun count => (shifts_bytes count).bind fun body => ?_
  split
  · exact shifts_pure _
  · exact shifts_lift (.error (.invalidOperand "capability name"))

theorem shifts_operands (op : Opcode) : Shifts (operands op) := by
  rw [operands]
  cases op.shape with
  | plain made => exact shifts_pure made
  | named made => exact shifts_name.bind fun _ => shifts_pure _
  | number made => exact shifts_double.bind fun _ => shifts_pure _
  | bytes made => exact shifts_natural.bind fun count => (shifts_bytes count).bind fun _ => shifts_pure _
  | branch made => exact shifts_bool.bind fun _ => shifts_natural.bind fun _ => shifts_pure _
  | access made => exact shifts_bool.bind fun _ => shifts_pure _

theorem shifts_instr? : Shifts instr? := by
  refine shifts_byte?.bind fun b => ?_
  cases b with
  | none => exact shifts_pure none
  | some b =>
    simp only
    cases Opcode.ofByte? b with
    | none => exact shifts_lift (.error (.unknownOpcode b))
    | some op => exact (shifts_operands op).bind fun _ => shifts_pure _

end Read

variable {code front back : Code} {offset position : Nat} {bytes : List UInt8} {records : List (Nat × Instr)}
  {answer : Except ImageFault (List (Nat × Instr))}

namespace Code

theorem instrAt?_append (front back : Code) (position : Nat) :
    (front ++ back).instrAt? (front.size + position) =
      (back.instrAt? position).map (Option.map fun r => (r.1, front.size + r.2)) := by
  have hread : Read.instr? ⟨front ++ back, front.size + position⟩ = _ :=
    Read.shifts_instr? front ⟨back, position⟩
  rw [instrAt?, instrAt?, hread]
  rcases Read.instr? ⟨back, position⟩ with ⟨fault | i, c⟩
  · rfl
  · cases i <;> rfl

/-- Reads records from a position on, as many as there are. -/
inductive Scans (code : Code) : (position : Nat) → Except ImageFault (List (Nat × Instr)) → Prop
  | ends {position : Nat} (hread : code.instrAt? position = .ok none) : Scans code position (.ok [])
  | fails {position : Nat} {cause : Fault} (hread : code.instrAt? position = .error cause) :
      Scans code position (.error ⟨position, cause⟩)
  | reads {position next : Nat} {i : Instr} {answer : Except ImageFault (List (Nat × Instr))}
      (hread : code.instrAt? position = .ok (some (i, next))) (hrest : Scans code next answer) :
      Scans code position (answer.map ((position, i) :: ·))

theorem lt_of_instrAt? {i : Instr} {next : Nat} (h : code.instrAt? position = .ok (some (i, next))) :
    position < next ∧ next ≤ code.size := by
  obtain ⟨record, hi, hold, rfl⟩ := instrAt?_eq_some_iff.mp h
  have hpos := hi.length_pos
  exact ⟨by omega, hold.add_length_le⟩

theorem lt_size_of_instrAt?_error {cause : Fault} (h : code.instrAt? position = .error cause) :
    position < code.size := by
  by_contra hend
  rw [instrAt?_eq_none_iff.mpr (not_lt.mp hend)] at h
  cases h

theorem exists_scans (code : Code) (position : Nat) : ∃ answer, code.Scans position answer := by
  induction hleft : code.size - position using Nat.strong_induction_on generalizing position with
  | _ left ih =>
    rcases hread : code.instrAt? position with cause | _ | ⟨i, next⟩
    · exact ⟨_, .fails hread⟩
    · exact ⟨_, .ends hread⟩
    · obtain ⟨hlt, hle⟩ := lt_of_instrAt? hread
      obtain ⟨answer, hscan⟩ := ih (code.size - next) (by omega) next rfl
      exact ⟨_, .reads hread hscan⟩

/-- As many reads as there are bytes left are enough for the scan. -/
theorem Scans.decodeFrom_eq {left : Nat} (h : code.Scans position answer) (before : List (Nat × Instr))
    (hleft : code.size ≤ position + left) :
    code.decodeFrom before left position = answer.map (before.reverse ++ ·) := by
  induction h generalizing before left with
  | @ends position hread =>
    cases left with
    | zero => simp [decodeFrom, Except.map]
    | succ left => simp [decodeFrom, hread, Except.map]
  | @fails position cause hread =>
    have hlt := lt_size_of_instrAt?_error hread
    obtain ⟨left, rfl⟩ : ∃ n, left = n + 1 := ⟨left - 1, by omega⟩
    rw [decodeFrom, hread]
    rfl
  | @reads position next i answer hread _ ih =>
    obtain ⟨hlt, hle⟩ := lt_of_instrAt? hread
    obtain ⟨left, rfl⟩ : ∃ n, left = n + 1 := ⟨left - 1, by omega⟩
    rw [decodeFrom, hread]
    simp only
    rw [ih ((position, i) :: before) (by omega)]
    cases answer with
    | error fault => rfl
    | ok records => simp [Except.map]

theorem scans_iff : code.Scans 0 answer ↔ code.decodeAll = answer := by
  have hanswer : ∀ other, code.Scans 0 other → code.decodeAll = other := by
    intro other hscan
    rw [decodeAll, hscan.decodeFrom_eq [] (by omega)]
    cases other <;> rfl
  refine ⟨hanswer answer, ?_⟩
  rintro rfl
  obtain ⟨other, hscan⟩ := code.exists_scans 0
  exact (hanswer other hscan).symm ▸ hscan

def shifted (size : Nat) : Except ImageFault (List (Nat × Instr)) → Except ImageFault (List (Nat × Instr))
  | .ok records => .ok (records.map fun r => (size + r.1, r.2))
  | .error fault => .error ⟨size + fault.offset, fault.cause⟩

theorem Scans.behind (h : back.Scans position answer) (front : Code) :
    (front ++ back).Scans (front.size + position) (shifted front.size answer) := by
  induction h with
  | ends hread =>
    refine .ends ?_
    rw [instrAt?_append, hread]
    rfl
  | fails hread =>
    refine .fails ?_
    rw [instrAt?_append, hread]
    rfl
  | @reads position next i answer hread _ ih =>
    have hbehind : (front ++ back).instrAt? (front.size + position) = .ok (some (i, front.size + next)) := by
      rw [instrAt?_append, hread]
      rfl
    have hscan := Scans.reads hbehind ih
    cases answer <;> exact hscan

/-- A scan goes through tiled bytes and on behind them. -/
theorem Scans.of_tiled (h : Tiled offset bytes records) (hold : code.Holds offset bytes)
    (hscan : code.Scans (offset + bytes.length) answer) : code.Scans offset (answer.map (records ++ ·)) := by
  induction h with
  | nil =>
    cases answer <;> exact hscan
  | @cons offset i record rest records hi _ ih =>
    obtain ⟨hrecord, hrest⟩ := holds_append.mp hold
    rw [List.length_append, ← Nat.add_assoc] at hscan
    have hread := instrAt?_eq_some_iff.mpr ⟨record, hi, hrecord, rfl⟩
    have hwhole := Scans.reads hread (ih hrest hscan)
    cases answer <;> exact hwhole

theorem holds_append_left (front back : Code) : (front ++ back).Holds 0 front.toList := by
  refine ⟨Nat.zero_le _, back.toList, ?_⟩
  rw [List.drop_zero, Array.toList_append]

/-- Two images one behind the other are read one after the other. -/
theorem decodeAll_append (h : front.decodeAll = .ok records) (back : Code) :
    (front ++ back).decodeAll = (shifted front.size back.decodeAll).map (records ++ ·) := by
  have hback : (front ++ back).Scans (0 + front.toList.length) (shifted front.size back.decodeAll) := by
    rw [Nat.zero_add, Array.length_toList]
    exact (scans_iff.mpr rfl).behind front
  exact scans_iff.mp (.of_tiled (decodeAll_eq_ok_iff.mp h) (holds_append_left front back) hback)

/-- Up to the record that cannot be read, the image is tiled. -/
theorem Scans.tiled_of_error {fault : ImageFault} (h : code.Scans position (.error fault)) :
    ∃ front records, Tiled position front records ∧ code.Holds position front ∧
      fault.offset = position + front.length ∧ fault.offset < code.size ∧
      code.instrAt? fault.offset = .error fault.cause := by
  generalize hanswer : Except.error fault = answer at h
  induction h with
  | ends => cases hanswer
  | @fails position cause hread =>
    cases hanswer
    have hlt := lt_size_of_instrAt?_error hread
    exact ⟨[], [], .nil _, holds_nil hlt.le, rfl, hlt, hread⟩
  | @reads position next i answer hread _ ih =>
    cases answer with
    | ok => cases hanswer
    | error other =>
      cases hanswer
      obtain ⟨record, hi, hrecord, rfl⟩ := instrAt?_eq_some_iff.mp hread
      obtain ⟨front, records, htiled, hold, hoffset, hlt, hcause⟩ := ih rfl
      refine ⟨record ++ front, _, htiled.cons hi, holds_append.mpr ⟨hrecord, hold⟩, ?_, hlt, hcause⟩
      rw [hoffset, List.length_append, Nat.add_assoc]

theorem decodeAll_take_of_error {cause : Fault} (h : code.decodeAll = .error ⟨offset, cause⟩) :
    (∃ records, decodeAll (code.extract 0 offset) = .ok records) ∧ offset < code.size ∧
      code.instrAt? offset = .error cause := by
  obtain ⟨front, records, htiled, hold, hoffset, hlt, hcause⟩ := (scans_iff.mpr h).tiled_of_error
  have hfront : (code.extract 0 offset).toList = front := by
    obtain ⟨rest, hrest⟩ := hold.2
    simp only [Nat.zero_add] at hoffset
    rw [Array.toList_extract, List.extract_eq_take_drop, ← hrest, hoffset, Nat.sub_zero, List.take_left]
  refine ⟨⟨records, decodeAll_eq_ok_iff.mpr ?_⟩, hlt, hcause⟩
  rw [hfront]
  exact htiled

end Code

/-- The offsets of the records and the end of the bytes are the sums of the sizes before them. -/
theorem Tiled.offsets_eq_scanl (h : Tiled offset bytes records) :
    records.map Prod.fst ++ [offset + bytes.length] =
      (records.map Prod.snd).scanl (fun sum i => sum + i.encode.length) offset := by
  induction h with
  | nil => rfl
  | @cons offset i record rest records hi _ ih =>
    rw [List.map_cons, List.map_cons, List.scanl_cons, ← hi.length_eq, ← ih, List.length_append, ← Nat.add_assoc]
    rfl

theorem Tiled.instrAt?_eq (h : Tiled offset bytes records) (hold : code.Holds offset bytes) {r : Nat × Instr}
    (hr : r ∈ records) : code.instrAt? r.1 = .ok (some (r.2, r.1 + r.2.encode.length)) := by
  induction h with
  | nil => cases hr
  | @cons offset i record rest records hi _ ih =>
    obtain ⟨hrecord, hrest⟩ := Code.holds_append.mp hold
    rcases List.mem_cons.mp hr with rfl | hr
    · exact Code.instrAt?_eq_some_iff.mpr ⟨record, hi, hrecord, by rw [hi.length_eq]⟩
    · exact ih hrest hr

namespace Code

/-- A record is read wherever its bytes stand, whatever lies around them. -/
theorem instrAt?_of_extract {i : Instr} {next start : Nat} {other : Code}
    (h : code.instrAt? position = .ok (some (i, next)))
    (hsame : other.extract start (start + (next - position)) = code.extract position next) :
    other.instrAt? start = .ok (some (i, start + (next - position))) := by
  obtain ⟨record, hi, hold, rfl⟩ := instrAt?_eq_some_iff.mp h
  have hle := hold.add_length_le
  have hpos := hi.length_pos
  rw [Nat.add_sub_cancel_left] at hsame ⊢
  have hrecord : (code.extract position (position + record.length)).toList = record := by
    obtain ⟨rest, hrest⟩ := hold.2
    rw [Array.toList_extract, List.extract_eq_take_drop, ← hrest, Nat.add_sub_cancel_left, List.take_left]
  have hsize := congrArg Array.size hsame
  rw [Array.size_extract, Array.size_extract] at hsize
  rw [← hsame, Array.toList_extract, List.extract_eq_take_drop, Nat.add_sub_cancel_left] at hrecord
  refine instrAt?_eq_some_iff.mpr ⟨record, hi, ⟨by omega, ?_⟩, rfl⟩
  rw [← hrecord]
  exact List.take_prefix _ _

end Code

/-- A scan of an image ends, in one answer. If it reads the image to its end, the records lie behind one another from
the start to the end of the image. If it stops, the image is read to its end up to there and not beyond. Bytes that
follow an image are read behind it, at shifted offsets; and a record is read off its own bytes, wherever these stand. -/
theorem decodeAll_tiles_image (code : Code) :
    (∀ answer, code.Scans 0 answer ↔ code.decodeAll = answer) ∧
    (∀ records, code.decodeAll = .ok records →
      records.map Prod.fst ++ [code.size] =
        (records.map Prod.snd).scanl (fun offset i => offset + i.encode.length) 0 ∧
      ∀ r ∈ records, code.instrAt? r.1 = .ok (some (r.2, r.1 + r.2.encode.length))) ∧
    (∀ offset cause, code.decodeAll = .error ⟨offset, cause⟩ →
      (∃ records, Code.decodeAll (code.extract 0 offset) = .ok records) ∧ offset < code.size ∧
        code.instrAt? offset = .error cause) ∧
    (∀ records, code.decodeAll = .ok records → ∀ rest : Code,
      (code ++ rest).decodeAll = (Code.shifted code.size rest.decodeAll).map (records ++ ·)) ∧
    ∀ position i next, code.instrAt? position = .ok (some (i, next)) →
      position < next ∧ next ≤ code.size ∧
      ∀ (other : Code) (start : Nat),
        other.extract start (start + (next - position)) = code.extract position next →
        other.instrAt? start = .ok (some (i, start + (next - position))) := by
  refine ⟨fun _ => Code.scans_iff, ?_, fun _ _ => Code.decodeAll_take_of_error, fun _ => Code.decodeAll_append, ?_⟩
  · intro records hread
    have htiled := Code.decodeAll_eq_ok_iff.mp hread
    have hoffsets := htiled.offsets_eq_scanl
    rw [Nat.zero_add, Array.length_toList] at hoffsets
    refine ⟨hoffsets, fun r hr => ?_⟩
    exact htiled.instrAt?_eq ⟨Nat.zero_le _, List.prefix_rfl⟩ hr
  · intro position i next hread
    obtain ⟨hlt, hle⟩ := Code.lt_of_instrAt? hread
    exact ⟨hlt, hle, fun _ _ => Code.instrAt?_of_extract hread⟩

def signedTarget : Code := #[4, 0, 0, 0, 0, 0, 0, 0, 0x40, 1, 2, 11, 7, 0, 0, 0, 0, 0, 0, 0, 0x80, 7]

def cutShort : Code := #[7, 3, 1, 2]

/-- The records of the first image, the copy behind it and the offset at which the reading stops. -/
theorem decodeAll_tiles_image_cut_short :
    signedTarget.decodeAll = .ok [(0, .pushBytes [1, 2]), (11, .jump true 0), (21, .dup)] ∧
      [0, 11, 21, 22] = [Instr.pushBytes [1, 2], .jump true 0, .dup].scanl (fun sum i => sum + i.encode.length) 0 ∧
      (signedTarget ++ cutShort).decodeAll = .error ⟨23, .unexpectedEnd⟩ ∧
      (signedTarget ++ cutShort).Scans 0 (.error ⟨23, .unexpectedEnd⟩) ∧
      (∃ records, Code.decodeAll ((signedTarget ++ cutShort).extract 0 23) = .ok records) := by
  have hread : signedTarget.decodeAll = .ok [(0, .pushBytes [1, 2]), (11, .jump true 0), (21, .dup)] := by
    decide +kernel
  have hcut : cutShort.decodeAll = .error ⟨1, .unexpectedEnd⟩ := by decide +kernel
  obtain ⟨-, htiles, -, happend, -⟩ := decodeAll_tiles_image signedTarget
  have hstops : (signedTarget ++ cutShort).decodeAll = .error ⟨23, .unexpectedEnd⟩ := by
    rw [happend _ hread, hcut]
    rfl
  obtain ⟨hscans, -, hbefore, -, -⟩ := decodeAll_tiles_image (signedTarget ++ cutShort)
  exact ⟨hread, (htiles _ hread).1, hstops, (hscans _).mpr hstops, (hbefore _ _ hstops).1⟩

end StackMachine
