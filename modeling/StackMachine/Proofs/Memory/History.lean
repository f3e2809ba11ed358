import StackMachine.Proofs.Memory.Arena

/-!
What a memory holds, told by what was done to it. A log of calls and their answers determines, without any look at the
memory, the byte that was last written at an address since its page was allocated; every read finds exactly these
bytes, however writes overlapped and whatever was refused in between.
-/

set_option autoImplicit false

namespace StackMachine

theorem Page.byte_write_eq_getD (p : Page) (start : Nat) (bytes : List UInt8) (address : Nat) :
    (p.write start bytes).byte address =
      if start ≤ address then bytes[address - start]?.getD (p.byte address) else p.byte address := by
  rw [byte_write]
  by_cases hstart : start ≤ address
  · by_cases hinside : address < start + bytes.length
    · have hlt : address - start < bytes.length := by omega
      rw [if_pos ⟨hstart, hinside⟩, if_pos hstart, List.getD_eq_getElem?_getD, List.getElem?_eq_getElem hlt]
      rfl
    · rw [if_neg fun h => hinside h.2, if_pos hstart, List.getElem?_eq_none (by omega), Option.getD_none]
  · rw [if_neg fun h => hstart h.1, if_neg hstart]

namespace Memory

variable {m : Memory} {handle : Nat}

structure Entry where
  call : Call
  answer : Except Fault (Option Nat)
  deriving DecidableEq

namespace Entry

def allocates (e : Entry) (handle : Nat) : Bool := e.call = .allocate ∧ e.answer = .ok (some handle)

/-- The byte that was written at an address of a page, if the call was about it and was not refused. -/
def byteAt? (e : Entry) (handle address : Nat) : Option UInt8 :=
  match e.call.bytesToWrite?, e.answer with
  | some (page, start, bytes), .ok _ =>
    if page = handle ∧ start ≤ address then bytes[address - start]? else none
  | _, _ => none

end Entry

def record (m : Memory) : List Call → List Entry
  | [] => []
  | call :: calls => ⟨call, call.answer m⟩ :: record (call.apply m) calls

/-- The byte last written at an address since its page was allocated; zero if there is none. -/
def lastWritten (log : List Entry) (handle address : Nat) : UInt8 :=
  let since := log.reverse.takeWhile fun e => !e.allocates handle
  (since.findSome? (·.byteAt? handle address)).getD 0

theorem lastWritten_concat (log : List Entry) (e : Entry) (handle address : Nat) :
    lastWritten (log ++ [e]) handle address =
      if e.allocates handle then 0 else (e.byteAt? handle address).getD (lastWritten log handle address) := by
  rw [lastWritten, List.reverse_append, List.reverse_singleton, List.singleton_append, List.takeWhile_cons]
  cases e.allocates handle with
  | true => rfl
  | false =>
    simp only [Bool.not_false, if_true, List.findSome?_cons]
    cases e.byteAt? handle address <;> rfl

/-- One call: a live page was made by it and is blank, or was there before and has changed as the entry says. -/
theorem page?_apply (m : Memory) (call : Call) {q : Page} (hq : (call.apply m).page? handle = some q) :
    let e : Entry := ⟨call, call.answer m⟩
    (e.allocates handle = true ∧ q = Page.blank handle) ∨
      (e.allocates handle = false ∧ ∃ p, m.page? handle = some p ∧
        ∀ address, q.byte address = (e.byteAt? handle address).getD (p.byte address)) := by
  have houtcome := call.outcome m
  generalize call.answer m = answer, call.apply m = next at houtcome hq
  cases houtcome with
  | @refused _ fault =>
    refine Or.inr ⟨by simp [Entry.allocates], q, hq, ?_⟩
    intro address
    rw [Entry.byteAt?]
    split
    case h_1 h => cases h
    case h_2 => rfl
  | allocated =>
    rw [page?_grow] at hq
    by_cases hnew : handle = m.nextHandle
    · rw [if_pos hnew] at hq
      exact Or.inl ⟨by simp [Entry.allocates, hnew], (Option.some.inj hq).symm⟩
    · rw [if_neg hnew] at hq
      exact Or.inr ⟨by simp [Entry.allocates, Ne.symm hnew], q, hq, fun _ => rfl⟩
  | freed other =>
    rw [page?_free] at hq
    split at hq
    · cases hq
    · exact Or.inr ⟨by simp [Entry.allocates], q, hq, fun _ => rfl⟩
  | @written _ page start bytes _ hcall =>
    have hother : call ≠ .allocate := by
      rintro rfl
      cases hcall
    refine Or.inr ⟨by simp [Entry.allocates, hother], ?_⟩
    rw [page?_overwrite] at hq
    simp only [Entry.byteAt?, hcall]
    by_cases hpage : handle = page
    · rw [if_pos hpage] at hq
      obtain ⟨p, hp, rfl⟩ := Option.map_eq_some_iff.mp hq
      refine ⟨p, hp, ?_⟩
      intro address
      rw [Page.byte_write_eq_getD]
      by_cases hstart : start ≤ address
      · rw [if_pos hstart, if_pos ⟨hpage.symm, hstart⟩]
      · rw [if_neg hstart, if_neg fun h => hstart h.2, Option.getD_none]
    · rw [if_neg hpage] at hq
      refine ⟨q, hq, ?_⟩
      intro address
      rw [if_neg fun h => hpage h.1.symm, Option.getD_none]

def Tells (log : List Entry) (m : Memory) : Prop :=
  ∀ handle p, m.page? handle = some p →
    (∃ e ∈ log, e.allocates handle) ∧ ∀ address, p.byte address = lastWritten log handle address

theorem Tells.apply {log : List Entry} (h : Tells log m) (call : Call) :
    Tells (log ++ [⟨call, call.answer m⟩]) (call.apply m) := by
  intro handle q hq
  rcases page?_apply m call hq with ⟨hnew, rfl⟩ | ⟨hold, p, hp, hbyte⟩
  · refine ⟨⟨_, List.mem_append_right _ (List.mem_singleton_self _), hnew⟩, ?_⟩
    intro address
    rw [lastWritten_concat, if_pos hnew]
    rfl
  · obtain ⟨⟨e, he, hallocates⟩, hbytes⟩ := h handle p hp
    refine ⟨⟨e, List.mem_append_left _ he, hallocates⟩, ?_⟩
    intro address
    rw [lastWritten_concat, if_neg (by simp [hold]), hbyte, hbytes]

theorem Tells.after {log : List Entry} (h : Tells log m) (calls : List Call) :
    Tells (log ++ m.record calls) (m.after calls) := by
  induction calls generalizing m log with
  | nil =>
    rw [record, List.append_nil]
    exact h
  | cons call calls ih =>
    rw [record, ← List.singleton_append, ← List.append_assoc]
    exact ih (h.apply call)

theorem tells_record (limit : Option Nat) (calls : List Call) :
    Tells ((empty limit).record calls) ((empty limit).after calls) :=
  have hnone : Tells [] (empty limit) := fun _ _ h => nomatch h
  hnone.after calls

theorem read_of_page? {p : Page} (h : m.page? handle = some p) (address length : Nat) :
    m.read handle address length =
      if address + length ≤ Page.size then .ok (p.read address length)
      else .error (.pageOutOfBounds p.handle address length) := by
  rw [read, requireRange_of_page? h]
  split <;> rfl

/-- A live page holds, and reads of it return, what was last written since it was allocated. A read succeeds exactly
if it ends in the page. -/
theorem reads_last_written (limit : Option Nat) (calls : List Call) (handle : Nat)
    (hlive : ((empty limit).after calls).exists? handle) :
    let m := (empty limit).after calls
    let written := lastWritten ((empty limit).record calls) handle
    (∃ e ∈ (empty limit).record calls, e.allocates handle) ∧
      (∃ p, m.get handle = .ok p ∧ p.bytes.toList = (List.range Page.size).map written) ∧
      (∀ address length, m.read handle address length =
        if address + length ≤ Page.size then .ok ((List.range' address length).map written)
        else .error (.pageOutOfBounds handle address length)) ∧
      (∀ address, m.readDouble handle address =
        if address + 8 ≤ Page.size then .ok (.ofBytes ((List.range' address 8).map written))
        else .error (.pageOutOfBounds handle address 8)) := by
  intro m written
  obtain ⟨p, hp⟩ := Option.isSome_iff_exists.mp hlive
  obtain ⟨hallocated, hbyte⟩ := tells_record limit calls handle p hp
  have hformed : m.WellFormed := (wellFormed_empty limit).after calls
  have hbytes : p.byte = written := funext hbyte
  have hread : ∀ address length, m.read handle address length =
      if address + length ≤ Page.size then .ok ((List.range' address length).map written)
      else .error (.pageOutOfBounds handle address length) := by
    intro address length
    rw [read_of_page? hp, hformed.handle_eq handle p hp, Page.read, hbytes]
  refine ⟨hallocated, ⟨p, get_of_page? hp, ?_⟩, hread, ?_⟩
  · have hsize := hformed.size_bytes handle p hp
    apply List.ext_getElem?
    intro address
    rw [Array.getElem?_toList]
    by_cases hin : address < Page.size
    · rw [Page.getElem?_bytes hin, List.getElem?_map, List.getElem?_range hin, hbytes]
      rfl
    · rw [Array.getElem?_eq_none (by omega), List.getElem?_eq_none (by simpa using hin)]
  · intro address
    rw [readDouble, hread]
    split <;> rfl

def overlapping : List Call :=
  [.allocate, .allocate, .write 0 3 [1, 2, 3], .write 1 3 [7, 7, 7], .write 0 4 [9, 9, 9],
    .write 0 65535 [5, 5], .free 1, .write 1 3 [8], .allocate]

theorem reads_last_written_overlapping :
    ((empty (some 2)).after overlapping).exists? 0 = true ∧
      ((empty (some 2)).after overlapping).read 0 2 6 = .ok [0, 1, 9, 9, 9, 0] ∧
      ((empty (some 2)).after overlapping).read 0 65535 2 = .error (.pageOutOfBounds 0 65535 2) := by
  have hlive : ((empty (some 2)).after overlapping).exists? 0 = true := by decide +kernel
  obtain ⟨-, -, hread, -⟩ := reads_last_written (some 2) overlapping 0 hlive
  have hwritten : (List.range' 2 6).map (lastWritten ((empty (some 2)).record overlapping) 0) =
      [0, 1, 9, 9, 9, 0] := by decide +kernel
  refine ⟨hlive, ?_, ?_⟩
  · rw [hread, if_pos (by decide), hwritten]
  · rw [hread, if_neg (by decide)]

end Memory

end StackMachine
