import StackMachine.Proofs.Code.Spelling
import Mathlib.Tactic

/-!
The records of an image lie behind one another and fill it. `Tiled` says so about bytes, without an image or
a cursor, and `decodeAll_eq_ok_iff` says that an image can be read to its end exactly if its bytes are tiled by
records. What is built from instructions that fit is tiled by them, and the first that does not fit is where
the reading stops.
-/

set_option autoImplicit false

namespace StackMachine

/-- Bytes that start at an offset, cut into records. -/
inductive Tiled : (offset : Nat) → List UInt8 → List (Nat × Instr) → Prop where
  | nil (offset : Nat) : Tiled offset [] []
  | cons {offset : Nat} {i : Instr} {record rest : List UInt8} {records : List (Nat × Instr)}
      (hi : i.Spells record) (hrest : Tiled (offset + record.length) rest records) :
      Tiled offset (record ++ rest) ((offset, i) :: records)

variable {code : Code} {offset position : Nat} {bytes front : List UInt8} {records : List (Nat × Instr)}

theorem Tiled.length_le (h : Tiled offset bytes records) : records.length ≤ bytes.length := by
  induction h with
  | nil => exact le_rfl
  | cons hi _ ih =>
    have := hi.length_pos
    simp only [List.length_cons, List.length_append]
    omega

theorem Tiled.fits (h : Tiled offset bytes records) : ∀ r ∈ records, r.2.Fits := by
  induction h with
  | nil => exact fun _ hr => nomatch hr
  | cons hi _ ih => exact List.forall_mem_cons.mpr ⟨hi.fits, ih⟩

theorem Tiled.start_mem (h : Tiled offset bytes records) :
    offset ∈ records.map Prod.fst ∨ offset = offset + bytes.length := by
  cases h with
  | nil => exact Or.inr rfl
  | cons => exact Or.inl List.mem_cons_self

/-- Every record is read where it lies, and the next position is that of the next record or the end. -/
theorem Tiled.instrAt? (h : Tiled offset bytes records) (hold : code.Holds offset bytes) {r : Nat × Instr}
    (hr : r ∈ records) :
    ∃ next, code.instrAt? r.1 = .ok (some (r.2, next)) ∧
      (next ∈ records.map Prod.fst ∨ next = offset + bytes.length) := by
  induction h with
  | nil => cases hr
  | @cons offset i record rest records hi hrest ih =>
    obtain ⟨hrecord, hbehind⟩ := Code.holds_append.mp hold
    rw [List.length_append, ← Nat.add_assoc, List.map_cons]
    rcases List.mem_cons.mp hr with rfl | hr
    · refine ⟨offset + record.length, Code.instrAt?_eq_some_iff.mpr ⟨record, hi, hrecord, rfl⟩, ?_⟩
      rcases hrest.start_mem with hnext | hend
      · exact Or.inl (List.mem_cons_of_mem _ hnext)
      · exact Or.inr hend
    · obtain ⟨next, hread, hnext⟩ := ih hbehind hr
      rcases hnext with hnext | hend
      · exact ⟨next, hread, Or.inl (List.mem_cons_of_mem _ hnext)⟩
      · exact ⟨next, hread, Or.inr hend⟩

/-- Records that are spelled strictly are the ones that are written. -/
theorem Tiled.eq_flatMap_encode (h : Tiled offset bytes records) (hold : code.Holds offset bytes)
    (hstrict : ∀ r ∈ records, r.2.Strict (code.toList.drop r.1)) :
    bytes = (records.map Prod.snd).flatMap Instr.encode := by
  induction h with
  | nil => rfl
  | @cons offset i record rest records hi _ ih =>
    rw [List.forall_mem_cons] at hstrict
    obtain ⟨hrecord, hrest⟩ := Code.holds_append.mp hold
    obtain ⟨more, hmore⟩ := hrecord.2
    have hi' : record = i.encode := (hi.eq_encode_iff more).mpr (hmore ▸ hstrict.1)
    rw [List.map_cons, List.flatMap_cons, ← ih hrest hstrict.2, ← hi']

namespace Code

theorem decodeFrom_of_tiled {left : Nat} (before : List (Nat × Instr)) (h : Tiled offset front records)
    (hold : code.Holds offset front) (hleft : front.length ≤ left) :
    code.decodeFrom before left offset =
      code.decodeFrom (records.reverse ++ before) (left - records.length) (offset + front.length) := by
  induction h generalizing before left with
  | nil => rfl
  | @cons offset i record rest records hi _ ih =>
    obtain ⟨hrecord, hrest⟩ := holds_append.mp hold
    have hread := instrAt?_eq_some_iff.mpr ⟨record, hi, hrecord, rfl⟩
    have hpos := hi.length_pos
    rw [List.length_append] at hleft
    obtain ⟨left, rfl⟩ : ∃ n, left = n + 1 := ⟨left - 1, by omega⟩
    rw [decodeFrom, hread]
    simp only
    rw [ih ((offset, i) :: before) hrest (by omega), List.reverse_cons, List.length_cons,
      Nat.add_sub_add_right, List.length_append, Nat.add_assoc, List.append_assoc, List.singleton_append]

theorem tiled_of_decodeFrom {left : Nat} {before all : List (Nat × Instr)}
    (h : code.decodeFrom before left position = .ok all) (hp : position ≤ code.size)
    (hleft : code.size ≤ position + left) :
    ∃ records, all = before.reverse ++ records ∧ Tiled position (code.toList.drop position) records := by
  have hend : ∀ position, position = code.size → Tiled position (code.toList.drop position) [] := by
    rintro _ rfl
    rw [List.drop_eq_nil_of_le code.length_toList.le]
    exact Tiled.nil _
  induction left generalizing before position with
  | zero =>
    cases h
    exact ⟨[], by simp, hend _ (by omega)⟩
  | succ left ih =>
    rw [decodeFrom] at h
    split at h
    case h_1 hnone =>
      cases h
      exact ⟨[], by simp, hend _ (hp.antisymm (instrAt?_eq_none_iff.mp hnone))⟩
    case h_2 i next hsome =>
      obtain ⟨record, hi, hold, rfl⟩ := instrAt?_eq_some_iff.mp hsome
      have hpos := hi.length_pos
      obtain ⟨records, rfl, htiled⟩ := ih h hold.add_length_le (by omega)
      have hdrop : code.toList.drop position = record ++ code.toList.drop (position + record.length) := by
        obtain ⟨rest, hrest⟩ := hold.2
        rw [← List.drop_drop, ← hrest, List.drop_left]
      refine ⟨(position, i) :: records, by simp, ?_⟩
      rw [hdrop]
      exact htiled.cons hi
    case h_3 => cases h

/-- An image can be read to its end exactly if it is tiled by the records that are found. -/
theorem decodeAll_eq_ok_iff : code.decodeAll = .ok records ↔ Tiled 0 code.toList records := by
  constructor
  · intro h
    obtain ⟨read, hread, htiled⟩ := tiled_of_decodeFrom h (Nat.zero_le _) (by omega)
    rw [hread]
    exact htiled
  · intro h
    have hold : code.Holds 0 code.toList := ⟨Nat.zero_le _, List.prefix_rfl⟩
    rw [decodeAll, decodeFrom_of_tiled [] h hold code.length_toList.le]
    have hlast : code.instrAt? (0 + code.toList.length) = .ok none := by
      rw [instrAt?_eq_none_iff, Nat.zero_add, Array.length_toList]
    rw [decodeFrom.eq_def]
    split
    · simp
    · rw [hlast]
      simp

/-- Reading stops at the first record that cannot be read. -/
theorem decodeAll_of_tiled_front {cause : Fault} (h : Tiled 0 front records) (hold : code.Holds 0 front)
    (hcause : code.instrAt? front.length = .error cause) :
    code.decodeAll = .error ⟨front.length, cause⟩ := by
  have hlt : front.length < code.size := by
    by_contra hend
    rw [instrAt?_eq_none_iff.mpr (not_lt.mp hend)] at hcause
    cases hcause
  rw [decodeAll, decodeFrom_of_tiled [] h hold hlt.le, Nat.zero_add]
  obtain ⟨left, hleft⟩ : ∃ n, code.size - records.length = n + 1 :=
    ⟨code.size - records.length - 1, by have := h.length_le; omega⟩
  rw [hleft, decodeFrom, hcause]

end Code

namespace Instr

def placed : (offset : Nat) → List Instr → List (Nat × Instr)
  | _, [] => []
  | offset, i :: rest => (offset, i) :: placed (offset + i.encode.length) rest

theorem tiled_placed {instrs : List Instr} (h : ∀ i ∈ instrs, i.Fits) (offset : Nat) :
    Tiled offset (instrs.flatMap encode) (placed offset instrs) := by
  induction instrs generalizing offset with
  | nil => exact Tiled.nil offset
  | cons i rest ih =>
    rw [List.forall_mem_cons] at h
    exact (ih h.2 _).cons (spells_encode h.1)

theorem map_snd_placed (offset : Nat) (instrs : List Instr) :
    (placed offset instrs).map Prod.snd = instrs := by
  induction instrs generalizing offset with
  | nil => rfl
  | cons i rest ih => rw [placed, List.map_cons, ih]

theorem holds_of_mem_placed {instrs : List Instr} (hold : code.Holds offset (instrs.flatMap encode))
    {r : Nat × Instr} (hr : r ∈ placed offset instrs) : code.Holds r.1 r.2.encode := by
  induction instrs generalizing offset with
  | nil => cases hr
  | cons i rest ih =>
    obtain ⟨hfirst, hrest⟩ := Code.holds_append.mp hold
    rcases List.mem_cons.mp hr with rfl | hr
    · exact hfirst
    · exact ih hrest hr

end Instr

namespace Code

theorem decodeAll_ofInstrs {instrs : List Instr} (h : ∀ i ∈ instrs, i.Fits) :
    (ofInstrs instrs).decodeAll = .ok (Instr.placed 0 instrs) :=
  decodeAll_eq_ok_iff.mpr (Instr.tiled_placed h 0)

/-- The first instruction that does not fit is where an image can be read no further. -/
theorem decodeAll_ofInstrs_of_not_fits {before after : List Instr} {i : Instr}
    (hbefore : ∀ j ∈ before, j.Fits) (hi : ¬ i.Fits) :
    (ofInstrs (before ++ i :: after)).decodeAll = .error ⟨(ofInstrs before).size, Read.notNatural⟩ := by
  have htext : (ofInstrs (before ++ i :: after)).toList =
      before.flatMap Instr.encode ++ (i.encode ++ after.flatMap Instr.encode) := by
    simp [ofInstrs]
  have hold : (ofInstrs (before ++ i :: after)).Holds 0 (before.flatMap Instr.encode ++ i.encode) := by
    refine ⟨Nat.zero_le _, after.flatMap Instr.encode, ?_⟩
    rw [List.drop_zero, htext, List.append_assoc]
  obtain ⟨hfront, hrecord⟩ := holds_append.mp hold
  rw [Nat.zero_add] at hrecord
  exact decodeAll_of_tiled_front (Instr.tiled_placed hbefore 0) hfront
    (instrAt?_of_not_fits hi hrecord)

theorem decodeAll_ofInstrs_eq_ok_iff {instrs : List Instr} :
    (ofInstrs instrs).decodeAll = .ok records ↔
      (∀ i ∈ instrs, i.Fits) ∧ records = Instr.placed 0 instrs := by
  constructor
  · intro h
    have hfits : ∀ i ∈ instrs, i.Fits := by
      by_contra hnot
      push Not at hnot
      obtain ⟨i, hi, hnot⟩ := hnot
      classical
      obtain ⟨first, hfirst⟩ : ∃ first, instrs.find? (fun i => ¬ i.Fits) = some first :=
        Option.isSome_iff_exists.mp (List.find?_isSome.mpr ⟨i, hi, by simpa using hnot⟩)
      obtain ⟨hlarge, before, after, rfl, hbefore⟩ := List.find?_eq_some_iff_append.mp hfirst
      rw [decodeAll_ofInstrs_of_not_fits (by simpa using hbefore) (by simpa using hlarge)] at h
      cases h
    rw [decodeAll_ofInstrs hfits] at h
    exact ⟨hfits, (Except.ok.inj h).symm⟩
  · rintro ⟨hfits, rfl⟩
    exact decodeAll_ofInstrs hfits

theorem ofInstrs_inj {a b : List Instr} (ha : ∀ i ∈ a, i.Fits) (hb : ∀ i ∈ b, i.Fits) :
    ofInstrs a = ofInstrs b ↔ a = b := by
  refine ⟨fun h => ?_, congrArg ofInstrs⟩
  have hread : Instr.placed 0 a = Instr.placed 0 b := by
    rw [← Except.ok.injEq, ← decodeAll_ofInstrs ha, ← decodeAll_ofInstrs hb, h]
  rw [← Instr.map_snd_placed 0 a, hread, Instr.map_snd_placed]

end Code

end StackMachine
