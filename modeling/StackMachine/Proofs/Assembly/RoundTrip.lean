import StackMachine.Proofs.Assembly.Listing
import Mathlib.Tactic

/-!
The way from an image to its listing and back. It ends where it began exactly if every record is canonical:
a listing shows what a record is read as, so a record that is spelled in an unusual way, a name that is no
plain word and the payload of a NaN are lost in it. What was assembled is canonical but for the one literal of a
NaN with a sign.
-/

set_option autoImplicit false

namespace StackMachine

open StackMachine.Text StackMachine.Assembly

/-- A record that its line in a listing tells exactly. The bytes are those of the image from the record on. -/
structure Instr.Canonical (i : Instr) (bytes : List UInt8) : Prop where
  /-- Truth values are spelled by zero and one, and no length or target by a zero with a sign. -/
  strict : i.Strict bytes
  /-- Names are not empty and hold no blank, no `#` and no `//`. -/
  legible : i.Legible
  nan : ∀ value, i = .push value → value.isNaN → value.bits = 0x7ff8000000000000

theorem Instr.asListed_eq_self_iff {i : Instr} :
    i.asListed = i ↔ ∀ value, i = .push value → value.isNaN → value.bits = 0x7ff8000000000000 := by
  cases i with
  | push x =>
    have hnan : Double.nan = x ↔ x.bits = 0x7ff8000000000000 :=
      ⟨fun h => h ▸ rfl, fun h => congrArg Double.mk h.symm⟩
    by_cases hx : x.isNaN <;> simp [asListed, hx, hnan]
  | _ => exact iff_of_true rfl nofun

theorem legible_of_readLine {line : List Char} {i : Instr} (h : readLine line = .ok (some i)) : i.Legible := by
  obtain ⟨found, hwords, hfound⟩ := readLine_eq_some_iff.mp h
  have hplain : ∀ word ∈ found, PlainWord word.toList := fun word hword =>
    plainWord_of_mem_lineWords (hwords ▸ List.mem_cons_of_mem _ hword)
  cases i with
  | capability name | capabilityCheck name =>
    obtain rfl : found = [name] := hfound
    exact hplain name List.mem_cons_self
  | _ => trivial

theorem mem_reduceOption_iff {rows : List (List Char)} {found : List (Option Instr)}
    (h : rows.map readLine = found.map .ok) {i : Instr} :
    i ∈ found.reduceOption ↔ ∃ row ∈ rows, readLine row = .ok (some i) := by
  rw [List.reduceOption_mem_iff, ← List.mem_map, h]
  exact ⟨fun hi => List.mem_map_of_mem hi, fun hi => by simpa using hi⟩

/-- The listing of an image is assembled into the same image exactly if every record of it is canonical. -/
theorem assemble_listing_iff_canonical {code : Code} {records : List (Nat × Instr)}
    (hdecode : code.decodeAll = .ok records) :
    (∃ listing, Listing.ofCode code = .ok listing ∧ assemble listing = .ok code) ↔
      ∀ r ∈ records, r.2.Canonical (code.toList.drop r.1) := by
  have htiled := Code.decodeAll_eq_ok_iff.mp hdecode
  have hlisting : ∀ listing, Listing.ofCode code = .ok listing ↔ listing = Listing.ofRecords records := by
    intro listing
    rw [Listing.ofCode_eq_ok_iff, hdecode]
    exact ⟨fun ⟨_, heq, h⟩ => Except.ok.inj heq ▸ h, fun h => ⟨records, rfl, h⟩⟩
  simp only [hlisting, exists_eq_left]
  constructor
  · intro h
    obtain ⟨found, hfound, rfl⟩ := assemble_eq_ok_iff.mp h
    obtain ⟨hfits, hplaced⟩ := Code.decodeAll_ofInstrs_eq_ok_iff.mp hdecode
    have hinstrs : records.map Prod.snd = found.reduceOption := by rw [hplaced, Instr.map_snd_placed]
    -- Whatever lines the listing had, its instructions were read from lines, and so names are plain words.
    have hlegible : ∀ r ∈ records, r.2.Legible := by
      intro r hr
      obtain ⟨row, -, hrow⟩ := (mem_reduceOption_iff hfound).mp (hinstrs ▸ List.mem_map_of_mem hr)
      exact legible_of_readLine hrow
    -- Hence every line tells its own record, and a NaN comes back as it was only if it is the plain one.
    have hagain := (Listing.assemble_ofRecords htiled.fits hlegible).symm.trans h
    rw [← Except.ok.inj hagain, Code.decodeAll_ofInstrs_eq_ok_iff] at hdecode
    have hlisted : (records.map fun r => r.2.asListed) = records.map Prod.snd := by
      conv_rhs => rw [hdecode.2, Instr.map_snd_placed]
    intro r hr
    refine ⟨?_, hlegible r hr, Instr.asListed_eq_self_iff.mp (List.map_inj_left.mp hlisted r hr)⟩
    have hold : (Code.ofInstrs found.reduceOption).Holds r.1 r.2.encode :=
      Instr.holds_of_mem_placed ⟨Nat.zero_le _, List.prefix_rfl⟩ (hplaced ▸ hr)
    obtain ⟨more, hmore⟩ := hold.2
    rw [← hmore]
    exact ((Instr.spells_encode (htiled.fits r hr)).eq_encode_iff more).mp rfl
  · intro h
    rw [Listing.assemble_ofRecords htiled.fits fun r hr => (h r hr).legible]
    have hsame : (records.map fun r => r.2.asListed) = records.map Prod.snd :=
      List.map_congr_left fun r hr => Instr.asListed_eq_self_iff.mpr (h r hr).nan
    have hbytes := htiled.eq_flatMap_encode ⟨Nat.zero_le _, List.prefix_rfl⟩ fun r hr => (h r hr).strict
    rw [hsame, Code.ofInstrs, ← hbytes]

/-- The plain NaN comes back, and a name that puts an instruction on a line of its own does not. -/
theorem assemble_listing_iff_canonical_line_break :
    (Code.decodeAll #[3, 0, 0, 0, 0, 0, 0, 0xf8, 0x7f] = .ok [(0, .push Double.nan)] ∧
      ∃ listing, Listing.ofCode #[3, 0, 0, 0, 0, 0, 0, 0xf8, 0x7f] = .ok listing ∧
        assemble listing = .ok #[3, 0, 0, 0, 0, 0, 0, 0xf8, 0x7f]) ∧
    ((Code.ofInstrs [.capability "a\nhalt"]).decodeAll = .ok [(0, .capability "a\nhalt")] ∧
      ¬ ∃ listing, Listing.ofCode (Code.ofInstrs [.capability "a\nhalt"]) = .ok listing ∧
        assemble listing = .ok (Code.ofInstrs [.capability "a\nhalt"])) := by
  have hnan : Code.decodeAll #[3, 0, 0, 0, 0, 0, 0, 0xf8, 0x7f] = .ok [(0, .push Double.nan)] := by
    decide +kernel
  have hbreak : (Code.ofInstrs [.capability "a\nhalt"]).decodeAll = .ok [(0, .capability "a\nhalt")] := by
    decide +kernel
  refine ⟨⟨hnan, (assemble_listing_iff_canonical hnan).mpr ?_⟩, hbreak, ?_⟩
  · refine List.forall_mem_singleton.mpr ⟨trivial, trivial, ?_⟩
    rintro _ ⟨rfl⟩ -
    rfl
  · rw [assemble_listing_iff_canonical hbreak, List.forall_mem_singleton]
    intro h
    exact absurd (h.legible.no_blank '\n' (by decide)) (by decide)

theorem le_maxSafe_of_readTarget {word : String} {target : Nat} (h : readTarget word = .ok target) :
    target ≤ Double.maxSafe := by
  obtain ⟨x, -, h⟩ := bind_eq_ok_iff.mp h
  cases hn : x.toNat? with
  | none =>
    rw [hn] at h
    cases h
  | some n =>
    rw [hn] at h
    cases h
    exact Double.le_maxSafe_of_toNat? hn

theorem length_eq_of_mapM_readByte {found : List String} {bytes : List UInt8}
    (h : found.mapM readByte = .ok bytes) : bytes.length = found.length := by
  induction found generalizing bytes with
  | nil =>
    cases h
    rfl
  | cons word rest ih =>
    rw [List.mapM_cons, bind_eq_ok_iff] at h
    obtain ⟨b, -, h⟩ := h
    obtain ⟨more, hmore, h⟩ := bind_eq_ok_iff.mp h
    cases h
    rw [List.length_cons, List.length_cons, ih hmore]

/-- A line is too short for a length that is no safe natural number. -/
theorem fits_of_readLine {line : List Char} {i : Instr} (h : readLine line = .ok (some i))
    (hsize : (String.ofList line).utf8ByteSize ≤ Double.maxSafe) : i.Fits := by
  obtain ⟨found, hwords, hfound⟩ := readLine_eq_some_iff.mp h
  cases i with
  | capability name | capabilityCheck name =>
    obtain rfl : found = [name] := hfound
    have hwithin : name.toList <:+: (String.ofList line).toList := by
      rw [String.toList_ofList]
      exact infix_of_mem_lineWords (hwords ▸ List.mem_cons_of_mem _ List.mem_cons_self)
    exact (utf8ByteSize_le_of_isInfix hwithin).trans hsize
  | pushBytes bytes =>
    calc
      bytes.length = found.length := length_eq_of_mapM_readByte hfound
      _ ≤ (lineWords line).length := by rw [hwords]; exact Nat.le_succ _
      _ ≤ line.length := length_lineWords_le line
      _ ≤ (String.ofList line).utf8ByteSize := length_le_utf8ByteSize line
      _ ≤ Double.maxSafe := hsize
  | jump c target =>
    obtain ⟨flag, word, -, -, htarget⟩ := hfound
    exact le_maxSafe_of_readTarget htarget
  | _ => trivial

theorem fits_of_mem_lines {source : String} {line : List Char} {i : Instr} (hsize : source.utf8ByteSize < 2 ^ 53)
    (hline : line ∈ lines source.toList) (h : readLine line = .ok (some i)) : i.Fits := by
  have hwithin : (String.ofList line).toList <:+: source.toList := by
    rw [String.toList_ofList]
    exact infix_of_mem_lines hline
  exact fits_of_readLine h ((utf8ByteSize_le_of_isInfix hwithin).trans (Nat.le_of_lt_succ hsize))

theorem Instr.placed_map_asListed (offset : Nat) (instrs : List Instr) :
    placed offset (instrs.map asListed) = (placed offset instrs).map fun r => (r.1, r.2.asListed) := by
  have hlength : ∀ i : Instr, i.asListed.encode.length = i.encode.length := by
    intro i
    cases i with
    | push x => simp [asListed, encode, operands]
    | _ => rfl
  induction instrs generalizing offset with
  | nil => rfl
  | cons i rest ih => rw [List.map_cons, placed, placed, List.map_cons, hlength, ih]

theorem Instr.fits_asListed {i : Instr} (h : i.Fits) : i.asListed.Fits := by
  cases i <;> exact h

theorem Instr.exists_push_of_opcode {i : Instr} (h : i.opcode = .push) : ∃ x, i = .push x := by
  cases i with
  | push x => exact ⟨x, rfl⟩
  | unary op => cases op <;> cases h
  | binary op => cases op <;> cases h
  | _ => cases h

def PushesSignedNaN (line : List Char) : Prop :=
  ∃ word, lineWords line = ["push", word] ∧ Double.IsSignedNaN word

/-- The one instruction that is read from a line and changed by its listing is the push of a NaN with a sign. -/
theorem asListed_eq_self_iff_of_readLine {line : List Char} {i : Instr} (h : readLine line = .ok (some i)) :
    i.asListed = i ↔ ¬ PushesSignedNaN line := by
  obtain ⟨found, hwords, hfound⟩ := readLine_eq_some_iff.mp h
  by_cases hpush : ∃ x, i = .push x
  · obtain ⟨x, rfl⟩ := hpush
    obtain ⟨word, rfl, hx⟩ := hfound
    by_cases hsigned : Double.IsSignedNaN word
    · obtain rfl : x = ⟨0xfff8000000000000⟩ :=
        Option.some_inj.mp (hx.symm.trans (Double.ofText?_signedNaN hsigned))
      exact iff_of_false (by decide) (not_not.mpr ⟨word, hwords, hsigned⟩)
    · refine iff_of_true (Instr.asListed_eq_self_iff.mpr ?_) ?_
      · rintro _ ⟨rfl⟩ hnan
        rw [Double.eq_nan_of_ofText? hx hnan hsigned]
        rfl
      · rintro ⟨other, hother, hsigned'⟩
        cases hwords.symm.trans hother
        exact hsigned hsigned'
  · refine iff_of_true (Instr.asListed_eq_self_iff.mpr fun x hx => absurd ⟨x, hx⟩ hpush) ?_
    rintro ⟨word, hword, -⟩
    have hmnemonic : "push" = i.opcode.mnemonic := (List.cons.inj (hword.symm.trans hwords)).1
    have hop : Opcode.ofMnemonic? "push" = some i.opcode := ofMnemonic?_eq_some_iff.mpr hmnemonic
    exact hpush (Instr.exists_push_of_opcode (Option.some_inj.mp (hop.symm.trans (by decide))))

theorem lineWords_of_readLine_none {line : List Char} (h : readLine line = .ok none) : lineWords line = [] := by
  rw [readLine] at h
  split at h
  case h_1 hwords => exact hwords
  case h_2 word found _ =>
    split at h
    case h_1 => cases h
    case h_2 op _ =>
      obtain ⟨⟨i, rest⟩, -, h⟩ := bind_eq_ok_iff.mp h
      simp only at h
      split at h <;> cases h

theorem exists_instrs_of_assemble {source : String} {code : Code} (hsize : source.utf8ByteSize < 2 ^ 53)
    (h : assemble source = .ok code) :
    ∃ instrs : List Instr, code = Code.ofInstrs instrs ∧ (∀ i ∈ instrs, i.Fits ∧ i.Legible) ∧
      ((∀ i ∈ instrs, i.asListed = i) ↔ ∀ line ∈ lines source.toList, ¬ PushesSignedNaN line) := by
  obtain ⟨found, hfound, rfl⟩ := assemble_eq_ok_iff.mp h
  refine ⟨found.reduceOption, rfl, ?_, ?_⟩
  · intro i hi
    obtain ⟨line, hline, hread⟩ := (mem_reduceOption_iff hfound).mp hi
    exact ⟨fits_of_mem_lines hsize hline hread, legible_of_readLine hread⟩
  · constructor
    · rintro hself line hline ⟨word, hwords, hsigned⟩
      have hmem : readLine line ∈ found.map Except.ok := hfound ▸ List.mem_map_of_mem hline
      obtain ⟨read, -, hread⟩ := List.mem_map.mp hmem
      cases read with
      | none => cases hwords.symm.trans (lineWords_of_readLine_none hread.symm)
      | some i =>
        have hi := (mem_reduceOption_iff hfound).mpr ⟨line, hline, hread.symm⟩
        exact (asListed_eq_self_iff_of_readLine hread.symm).mp (hself i hi) ⟨word, hwords, hsigned⟩
    · intro hlines i hi
      obtain ⟨line, hline, hread⟩ := (mem_reduceOption_iff hfound).mp hi
      exact (asListed_eq_self_iff_of_readLine hread).mpr (hlines line hline)

/-- What was assembled has a listing, which is assembled into the same records with every NaN without its sign;
this is the same image exactly if no line pushes a NaN with a sign. -/
theorem assemble_listing_of_assemble {source : String} {code : Code} (hsize : source.utf8ByteSize < 2 ^ 53)
    (h : assemble source = .ok code) :
    ∃ listing again, Listing.ofCode code = .ok listing ∧ assemble listing = .ok again ∧
      again.decodeAll = code.decodeAll.map (List.map fun r => (r.1, r.2.asListed)) ∧
      (again = code ↔ ∀ line ∈ lines source.toList, ¬ PushesSignedNaN line) := by
  obtain ⟨instrs, rfl, hinstrs, hsigned⟩ := exists_instrs_of_assemble hsize h
  have hfits : ∀ i ∈ instrs, i.Fits := fun i hi => (hinstrs i hi).1
  have hlisted : ∀ i ∈ instrs.map Instr.asListed, i.Fits :=
    List.forall_mem_map.mpr fun i hi => Instr.fits_asListed (hfits i hi)
  have hrecord : ∀ r ∈ Instr.placed 0 instrs, r.2 ∈ instrs := by
    intro r hr
    have hmem := List.mem_map_of_mem (f := Prod.snd) hr
    rwa [Instr.map_snd_placed] at hmem
  have hagain : (Instr.placed 0 instrs).map (fun r => r.2.asListed) = instrs.map Instr.asListed := by
    conv_rhs => rw [← Instr.map_snd_placed 0 instrs, List.map_map]
    rfl
  refine ⟨Listing.ofRecords (Instr.placed 0 instrs), Code.ofInstrs (instrs.map Instr.asListed), ?_, ?_, ?_, ?_⟩
  · exact Listing.ofCode_eq_ok_iff.mpr ⟨_, Code.decodeAll_ofInstrs hfits, rfl⟩
  · rw [← hagain]
    exact Listing.assemble_ofRecords (fun r hr => hfits r.2 (hrecord r hr))
      fun r hr => (hinstrs r.2 (hrecord r hr)).2
  · rw [Code.decodeAll_ofInstrs hlisted, Code.decodeAll_ofInstrs hfits, Instr.placed_map_asListed]
    rfl
  · rw [Code.ofInstrs_inj hlisted hfits, ← hsigned]
    simpa using List.map_inj_left (l := instrs) (f := Instr.asListed) (g := id)

/-- A NaN with a sign between a comment and another literal is all that changes. -/
theorem assemble_listing_of_assemble_mixed_cases :
    let source := "push -NaN # signed\npush 0.1"
    let code : Code := #[3, 0, 0, 0, 0, 0, 0, 0xf8, 0xff, 3, 0x9a, 0x99, 0x99, 0x99, 0x99, 0x99, 0xb9, 0x3f]
    source.utf8ByteSize < 2 ^ 53 ∧ assemble source = .ok code ∧
      ∃ listing again, Listing.ofCode code = .ok listing ∧ assemble listing = .ok again ∧
        again.decodeAll = .ok [(0, .push ⟨0x7ff8000000000000⟩), (9, .push ⟨0x3fb999999999999a⟩)] ∧
        again ≠ code := by
  intro source code
  have hsize : source.utf8ByteSize < 2 ^ 53 := by decide
  have hcode : assemble source = .ok code := by decide +kernel
  obtain ⟨listing, again, hlisting, hagain, hrecords, hsame⟩ := assemble_listing_of_assemble hsize hcode
  refine ⟨hsize, hcode, listing, again, hlisting, hagain, hrecords.trans (by decide +kernel), ?_⟩
  intro heq
  exact hsame.mp heq "push -NaN # signed".toList (by decide +kernel) ⟨"-NaN", by decide +kernel, by decide⟩

/-- Not everything that is assembled comes back from its listing. -/
theorem not_forall_assemble_listing :
    ¬ ∀ (source : String) (code : Code), source.utf8ByteSize < 2 ^ 53 → assemble source = .ok code →
      ∃ listing, Listing.ofCode code = .ok listing ∧ assemble listing = .ok code := by
  intro hall
  have hcode : assemble "push -nan" = .ok #[3, 0, 0, 0, 0, 0, 0, 0xf8, 0xff] := by decide +kernel
  have hlisting : Listing.ofCode #[3, 0, 0, 0, 0, 0, 0, 0xf8, 0xff] =
      .ok "push NaN                 #      0\n" := by decide +kernel
  have hagain : assemble "push NaN                 #      0\n" =
      .ok #[3, 0, 0, 0, 0, 0, 0, 0xf8, 0x7f] := by decide +kernel
  obtain ⟨listing, hl, ha⟩ := hall _ _ (by decide) hcode
  cases hlisting.symm.trans hl
  cases hagain.symm.trans ha

end StackMachine
