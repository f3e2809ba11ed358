import StackMachine.Proofs.Machine.Transfer

/-!
Stores and loads undo each other. What was stored is found again by a load of the same part of the page, in the same
places of the stack, and what was loaded can be stored again without a change of any page. Both rest on the
bytes that a page holds: `Page.Holds` says that some bytes stand at an address, and the elements at an address are
those that the bytes spell.
-/

set_option autoImplicit false

namespace StackMachine

namespace Page

variable {p : Page} {address : Nat} {bytes front back : List UInt8}

def Holds (p : Page) (address : Nat) (bytes : List UInt8) : Prop := p.read address bytes.length = bytes

theorem length_read (p : Page) (address length : Nat) : (p.read address length).length = length := by
  rw [read, List.length_map, List.length_range']

theorem read_add (p : Page) (address length more : Nat) :
    p.read address (length + more) = p.read address length ++ p.read (address + length) more := by
  rw [read, read, read, ← List.map_append, List.range'_append_1]

theorem holds_read (p : Page) (address length : Nat) : p.Holds address (p.read address length) := by
  rw [Holds, length_read]

theorem holds_append :
    p.Holds address (front ++ back) ↔ p.Holds address front ∧ p.Holds (address + front.length) back := by
  rw [Holds, List.length_append, read_add]
  constructor
  · exact fun h => List.append_inj h (length_read _ _ _)
  · rintro ⟨hfront, hback⟩
    rw [hfront, hback]

theorem Holds.getElem? (h : p.Holds address bytes) {i : Nat} (hi : i < bytes.length) :
    bytes[i]? = some (p.byte (address + i)) := by
  rw [← h, read, List.getElem?_map, List.getElem?_range' hi, Option.map_some, Nat.one_mul]

theorem holds_write (p : Page) (address : Nat) (bytes : List UInt8) : (p.write address bytes).Holds address bytes := by
  apply List.ext_getElem (length_read _ _ _)
  intro i hread hi
  simp only [read, List.getElem_map, List.getElem_range', Nat.one_mul]
  rw [byte_write, if_pos ⟨by omega, by omega⟩, Nat.add_sub_cancel_left, List.getD_eq_getElem?_getD,
    List.getElem?_eq_getElem hi, Option.getD_some]

theorem Holds.byte_write (h : p.Holds address bytes) (i : Nat) : (p.write address bytes).byte i = p.byte i := by
  rw [Page.byte_write]
  split
  case isTrue hinside =>
    have hbyte := h.getElem? (i := i - address) (by omega)
    rw [List.getD_eq_getElem?_getD, hbyte, Option.getD_some]
    congr 1
    omega
  case isFalse => rfl

/-- A page is told by the bytes at the addresses of a page. -/
theorem bytes_eq_of_byte {q : Page} (hp : p.bytes.size = size) (hq : q.bytes.size = size)
    (h : ∀ i, p.byte i = q.byte i) : p.bytes = q.bytes := by
  apply Array.ext_getElem?
  intro i
  by_cases hi : i < size
  · rw [getElem?_bytes hi, getElem?_bytes hi, h]
  · rw [Array.getElem?_eq_none (by omega), Array.getElem?_eq_none (by omega)]

end Page

namespace Mode

variable {mode : Mode} {p : Page} {address : Nat} {x : Double} {bytes : List UInt8}

/-- What a value is after it was held by a page: as a byte it has no sign. -/
def settled : Mode → Double → Double
  | .byte, x => if x = .negativeZero then .zero else x
  | .float, x => x

def loadMany (mode : Mode) (p : Page) (address : Nat) : (count : Nat) → List Double
  | 0 => []
  | count + 1 => mode.load p address :: mode.loadMany p (address + mode.width) count

theorem loadMany_eq (mode : Mode) (p : Page) (address count : Nat) :
    mode.loadMany p address count = (List.range count).map fun i => mode.load p (address + i * mode.width) := by
  induction count generalizing address with
  | zero => rfl
  | succ count ih =>
    rw [loadMany, ih, List.range_succ_eq_map, List.map_cons, List.map_map, Nat.zero_mul, Nat.add_zero, List.cons.injEq,
      and_iff_right rfl]
    apply List.map_congr_left
    intro i _
    rw [Function.comp, Nat.succ_mul, Nat.add_assoc, Nat.add_comm mode.width]

theorem loadMany_byte (p : Page) (address count : Nat) :
    Mode.byte.loadMany p address count = (p.read address count).map .ofByte := by
  rw [loadMany_eq, Page.read, List.range'_eq_map_range, List.map_map, List.map_map]
  apply List.map_congr_left
  intro i _
  rw [width, Nat.mul_one]
  rfl

theorem ofNat_eq_settled {n : Nat} (h : x.toNat? = some n) : Double.ofNat n = byte.settled x := by
  rw [settled]
  rcases Double.eq_ofNat_of_toNat? h with rfl | ⟨rfl, rfl⟩
  · rw [if_neg]
    intro hzero
    have hsign := congrArg Double.isNegative hzero
    rw [Double.isNegative_ofNat] at hsign
    exact absurd hsign (by decide)
  · rw [if_pos rfl]
    decide +kernel

theorem Spells.load_eq (h : mode.Spells x bytes) (hold : p.Holds address bytes) :
    mode.load p address = mode.settled x := by
  cases mode with
  | byte =>
    obtain ⟨n, hle, hn, rfl⟩ := h
    have hbyte : p.byte address = UInt8.ofNat n := by simpa [Page.Holds, Page.read] using hold
    have hvalue : (UInt8.ofNat n).toNat = n := UInt8.toNat_ofNat_of_lt' (Nat.lt_succ_of_le hle)
    rw [load, hbyte, Double.ofByte, hvalue]
    exact ofNat_eq_settled (Double.toNat?_eq_some_iff.mpr ⟨hn, hle.trans (by decide)⟩)
  | float =>
    obtain rfl := spells_float_iff.mp h
    rw [Page.Holds, Double.length_toBytes] at hold
    rw [load, hold, Double.ofBytes_toBytes, settled]

/-- Stored values are found again, one behind the other. -/
theorem loadMany_of_spells {values : List Double} {chunks : List (List UInt8)}
    (h : List.Forall₂ mode.Spells values chunks) (hold : p.Holds address chunks.flatten) :
    mode.loadMany p address values.length = values.map mode.settled := by
  induction h generalizing address with
  | nil => rfl
  | cons hx _ ih =>
    rw [List.flatten_cons, Page.holds_append, hx.length_eq] at hold
    rw [List.length_cons, loadMany, hx.load_eq hold.1, ih hold.2, List.map_cons]

/-- A loaded element is spelled by the bytes that it was loaded from, and by no others. -/
theorem holds_of_spells_load (h : mode.Spells (mode.load p address) bytes) : p.Holds address bytes := by
  cases mode with
  | byte =>
    obtain ⟨n, hle, hn, rfl⟩ := h
    have hloaded : (Double.ofByte (p.byte address)).toNat? = some (p.byte address).toNat :=
      Double.toNat?_ofNat_of_safe ((p.byte address).toNat_lt.le.trans (by decide))
    have hspelled := Double.toNat?_eq_some_iff.mpr ⟨hn, hle.trans (by decide)⟩
    obtain rfl : (p.byte address).toNat = n := Option.some.inj (hloaded.symm.trans hspelled)
    simp [Page.Holds, Page.read]
  | float =>
    obtain rfl := spells_float_iff.mp h
    rw [load]
    rw [Double.toBytes_ofBytes (Page.length_read _ _ _)]
    exact p.holds_read address 8

theorem holds_of_spells_loadMany {count : Nat} {chunks : List (List UInt8)}
    (h : List.Forall₂ mode.Spells (mode.loadMany p address count) chunks) : p.Holds address chunks.flatten := by
  induction count generalizing address chunks with
  | zero =>
    cases h
    rfl
  | succ count ih =>
    rw [loadMany] at h
    cases h with
    | cons hfirst hmore =>
      rw [List.flatten_cons, Page.holds_append, hfirst.length_eq]
      exact ⟨holds_of_spells_load hfirst, ih hmore⟩

theorem le_of_mem_loadMany {count : Nat} (hx : x ∈ Mode.byte.loadMany p address count) : ∃ n ≤ 255, x.Denotes n := by
  rw [loadMany_byte, List.mem_map] at hx
  obtain ⟨b, -, rfl⟩ := hx
  have hlt := b.toNat_lt
  exact ⟨b.toNat, by omega, Double.denotes_ofNat (hlt.le.trans (by decide))⟩

end Mode

namespace Stack

variable {s t : Stack} {x y z : Double}

def pushOperands (s : Stack) (handle address length : Double) : Except Fault Stack := do
  let s ← s.push length
  let s ← s.push address
  s.push handle

theorem push_eq_ok_iff : s.push x = .ok t ↔ s.hasRoom 1 ∧ t = s.add [x] := by
  rw [push_eq_pushAll, pushAll_eq, List.length_singleton, requireRoom]
  split
  case isTrue hroom => simp [Except.map, hroom, eq_comm]
  case isFalse hroom => simp [Except.map, hroom]

theorem pushOperands_eq_ok_iff : s.pushOperands x y z = .ok t ↔ s.hasRoom 3 ∧ t = s.add [x, y, z] := by
  simp only [pushOperands, bind_eq_ok_iff, push_eq_ok_iff]
  constructor
  · rintro ⟨_, ⟨-, rfl⟩, _, ⟨-, rfl⟩, hroom, rfl⟩
    rw [add_add] at hroom
    rw [add_add, add_add]
    exact ⟨hasRoom_add.mp hroom, rfl⟩
  · rintro ⟨hroom, rfl⟩
    refine ⟨_, ⟨hasRoom_of_le hroom (by decide), rfl⟩, _, ⟨?_, rfl⟩, ?_, ?_⟩
    · exact hasRoom_add.mpr (hasRoom_of_le hroom (by simp))
    · rw [add_add]
      exact hasRoom_add.mpr hroom
    · rw [add_add, add_add]
      rfl

end Stack

/-- Memories with the same pages, byte by byte. -/
structure Memory.Alike (a b : Memory) : Prop where
  live_eq : a.live = b.live
  limit_eq : a.limit = b.limit
  nextHandle_eq : a.nextHandle = b.nextHandle
  pages_eq : ∀ handle,
    (a.page? handle).map (fun p => (p.handle, p.bytes)) = (b.page? handle).map fun p => (p.handle, p.bytes)

theorem Memory.alike_overwrite {memory : Memory} {handle address : Nat} {bytes : List UInt8} {p : Page}
    (hformed : memory.WellFormed) (hpage : memory.page? handle = some p) (hold : p.Holds address bytes)
    (hfits : address + bytes.length ≤ 65536) : (memory.overwrite handle address bytes).Alike memory where
  live_eq := rfl
  limit_eq := rfl
  nextHandle_eq := nextHandle_overwrite _ _ _ _
  pages_eq := by
    intro other
    rw [page?_overwrite]
    split
    case isTrue hother =>
      subst other
      have hsize := hformed.size_bytes _ _ hpage
      have hbytes : (p.write address bytes).bytes = p.bytes :=
        Page.bytes_eq_of_byte (Page.size_bytes_write hsize hfits) hsize hold.byte_write
      rw [hpage, Option.map_some, Option.map_some, Option.map_some, Page.handle_write, hbytes]
    case isFalse => rfl

namespace Machine

variable {σ : Type} {m m' : Machine σ} {mode : Mode} {rest : Stack} {values : List Double}

/-- The machine has the memory of another one and is about to execute an instruction on the given stack. -/
structure TakesUp (m' m : Machine σ) (s : Stack) (i : Instr) : Prop where
  faces : m'.Faces i
  stack_eq : m'.stack = s
  memory_eq : m'.memory = m.memory

/-- Operands ask for the same when they are pushed again, as long as the page is live. -/
theorem met_access_again {again : Mode} (h : (m.accessDemands mode).Met)
    (hoperands : ∀ index < 3, m'.operand? index = m.operand? index) (hdepth : 3 ≤ m'.stack.depth)
    (hlive : m'.memory.exists? m.request.handle) (hmode : again = .float → mode = .float) :
    m'.request = m.request ∧ (m'.accessDemands again).Met := by
  have hrequest : m'.request = m.request := by
    simp only [request, operandNat, hoperands 0 (by decide), hoperands 1 (by decide), hoperands 2 (by decide)]
  obtain ⟨-, hoffers, hmultiple, -, hfits⟩ := met_accessDemands_iff.mp h
  refine ⟨hrequest, met_accessDemands_iff.mpr ?_⟩
  rw [hrequest]
  refine ⟨hdepth, ?_, hmultiple ∘ hmode, hlive, hfits⟩
  intro index hindex
  rw [OffersNat, hoperands index hindex]
  exact hoffers index hindex

theorem planLoad_of_met (hformed : m.memory.WellFormed) (hmet : (m.accessDemands mode).Met)
    (hroom : m.stack.hasRoom (m.request.count mode - 3)) {p : Page} (hp : m.memory.page? m.request.handle = some p) :
    m.planLoad mode = .ok { pops := 3, pushes := mode.loadMany p m.request.address (m.request.count mode) } := by
  obtain ⟨a, haccess, -, -, -, q, hq, rfl⟩ := (decides_access hformed mode).exists_ok hmet
  obtain rfl : p = q := Option.some.inj (hp.symm.trans hq)
  have hroom : m.stack.requireRoom (Access.count ⟨m.request.handle, m.request.address, m.request.length, p⟩ mode - 3) =
      .ok () := Stack.requireRoom_eq_ok_iff.mpr hroom
  rw [planLoad, haccess, ok_bind, hroom, ok_bind, mode.loadMany_eq]
  rfl

theorem step_load (hfaces : m.Faces (.memLoad mode)) (hs : m.stack = rest.add values) (hvalues : values.length = 3)
    {elements : List Double} (hplan : m.planLoad mode = .ok { pops := 3, pushes := elements }) :
    m.step.result = .ok .running ∧ m.step.machine.stack = rest.add elements ∧ m.step.machine.memory = m.memory := by
  obtain ⟨next, hresult, hmachine⟩ := hfaces.step_of_ok (by simp) hplan
  rw [hresult, hmachine]
  refine ⟨rfl, ?_, rfl⟩
  change (m.stack.drop 3).add elements = _
  rw [hs, ← hvalues, Stack.drop_add_length]

theorem toStore_of_add {x y z : Double} (hs : m.stack = rest.add (x :: y :: z :: values))
    (hcount : values.length = m.request.count mode) : m.toStore mode = values := by
  rw [toStore, reverse_toList_of_add hs, ← hcount]
  exact List.take_left

theorem step_store (hfaces : m.Faces (.memStore mode)) {x y z : Double}
    (hs : m.stack = rest.add (x :: y :: z :: values)) (hcount : values.length = m.request.count mode)
    {handle address : Nat} {bytes : List UInt8} (hplan : m.planStore mode =
      .ok { pops := 3 + m.request.count mode, memory := some (.write handle address bytes) }) :
    m.step.result = .ok .running ∧ m.step.machine.stack = rest ∧
      m.step.machine.memory = m.memory.overwrite handle address bytes := by
  obtain ⟨next, hresult, hmachine⟩ := hfaces.step_of_ok (by simp) hplan
  rw [hresult, hmachine]
  refine ⟨rfl, ?_, rfl⟩
  change (m.stack.drop (3 + m.request.count mode)).add [] = rest
  have hlen : 3 + m.request.count mode = (x :: y :: z :: values).length := by
    rw [← hcount, Nat.add_comm]
    rfl
  rw [Stack.add_nil, hs, hlen, Stack.drop_add_length]

structure Storing (m : Machine σ) (mode : Mode) (rest : Stack) (x y z : Double) (stored : List Double) (p : Page)
    (chunks : List (List UInt8)) : Prop where
  stack_eq : m.stack = rest.add (x :: y :: z :: stored)
  count_eq : stored.length = m.request.count mode
  met : (m.accessDemands mode).Met
  page_eq : m.memory.page? m.request.handle = some p
  fits : m.request.address + m.request.length ≤ 65536
  spells : List.Forall₂ mode.Spells stored chunks
  length_eq : chunks.flatten.length = m.request.length
  stack_after : m.step.machine.stack = rest
  memory_after : m.step.machine.memory = m.memory.overwrite m.request.handle m.request.address chunks.flatten

structure Loading (m : Machine σ) (mode : Mode) (rest : Stack) (x y z : Double) (p : Page) : Prop where
  stack_eq : m.stack = rest.add [x, y, z]
  met : (m.accessDemands mode).Met
  room : m.stack.hasRoom (m.request.count mode - 3)
  page_eq : m.memory.page? m.request.handle = some p
  fits : m.request.address + m.request.length ≤ 65536
  stack_after : m.step.machine.stack = rest.add (mode.loadMany p m.request.address (m.request.count mode))
  memory_after : m.step.machine.memory = m.memory

theorem Performs.storing (hformed : m.memory.WellFormed) (h : m.Performs (.memStore mode)) :
    ∃ rest x y z stored p chunks, m.Storing mode rest x y z stored p chunks := by
  obtain ⟨e, next, hplan, -⟩ := h.exists_plan (by simp)
  obtain ⟨hmet, p, chunks, hp, hfits, hchunks, hlength, rfl⟩ := Yields.of_ok (decides_planStore hformed mode) hplan
  obtain ⟨hmet, hmore⟩ := Demands.met_append.mp hmet
  obtain ⟨rest, values, hlen, hs⟩ := Stack.exists_eq_add (Demands.met_cons.mp hmore).1
  rw [Nat.add_comm] at hlen
  match values, hlen with
  | x :: y :: z :: stored, hlen =>
    have hcount : stored.length = m.request.count mode := Nat.add_right_cancel (m := 3) hlen
    rw [toStore_of_add hs hcount] at hchunks
    obtain ⟨-, hstack, hmemory⟩ := step_store h.1 hs hcount hplan
    exact ⟨rest, x, y, z, stored, p, chunks, hs, hcount, hmet, hp, hfits, hchunks, hlength, hstack, hmemory⟩

theorem Performs.loading (hformed : m.memory.WellFormed) (h : m.Performs (.memLoad mode)) :
    ∃ rest x y z p, m.Loading mode rest x y z p := by
  obtain ⟨e, next, hplan, -⟩ := h.exists_plan (by simp)
  obtain ⟨a, haccess, hrest⟩ := bind_eq_ok_iff.mp hplan
  obtain ⟨u, hroom, -⟩ := bind_eq_ok_iff.mp hrest
  obtain ⟨hmet, hdepth, -, hfits, p, hp, rfl⟩ := Yields.of_ok (decides_access hformed mode) haccess
  obtain ⟨rest, values, hlen, hs⟩ := Stack.exists_eq_add hdepth
  obtain ⟨x, y, z, rfl⟩ := List.length_eq_three.mp hlen
  have hroom : m.stack.hasRoom (m.request.count mode - 3) := Stack.requireRoom_eq_ok_iff.mp hroom
  obtain ⟨-, hstack, hmemory⟩ := step_load h.1 hs hlen (planLoad_of_met hformed hmet hroom hp)
  exact ⟨rest, x, y, z, p, hs, hmet, hroom, hp, hfits, hstack, hmemory⟩

section

variable {x y z : Double} {stored : List Double} {p : Page} {chunks : List (List UInt8)}

/-- The operands of a store, taken up by a load: they ask for the same part of the page, which holds the bytes of the
values. -/
theorem Storing.asks_again (h : m.Storing mode rest x y z stored p chunks) {i : Instr} (again : Mode)
    (htakes : TakesUp m' m.step.machine (rest.add [x, y, z]) i) (hmode : again = .float → mode = .float) :
    m'.request = m.request ∧ (m'.accessDemands again).Met ∧
      m'.memory.page? m.request.handle = some (p.write m.request.address chunks.flatten) := by
  have hpage : m'.memory.page? m.request.handle = some (p.write m.request.address chunks.flatten) := by
    rw [htakes.memory_eq, h.memory_after, Memory.page?_overwrite, if_pos rfl, h.page_eq]
    rfl
  have hoperands : ∀ index < 3, m'.operand? index = m.operand? index := by
    intro index hindex
    rw [operand?_of_add htakes.stack_eq (by simpa using hindex), operand?_of_add h.stack_eq (by simp; omega)]
    interval_cases index <;> rfl
  obtain ⟨hrequest, hmet⟩ := met_access_again h.met hoperands (by simp [htakes.stack_eq])
    (by rw [Memory.exists?, hpage, Option.isSome_some]) hmode
  exact ⟨hrequest, hmet, hpage⟩

theorem Storing.wellFormed (h : m.Storing mode rest x y z stored p chunks) (hformed : m.memory.WellFormed) :
    m.step.machine.memory.WellFormed :=
  h.memory_after ▸ hformed.overwrite h.page_eq (h.length_eq ▸ h.fits)

/-- A load of what was stored, in either mode. -/
theorem Storing.loads_again {again : Mode} (h : m.Storing mode rest x y z stored p chunks)
    (hformed : m.memory.WellFormed) (htakes : TakesUp m' m.step.machine (rest.add [x, y, z]) (.memLoad again))
    (hmode : again = .float → mode = .float) (hroom : (rest.add [x, y, z]).hasRoom (m.request.count again - 3)) :
    ∃ q : Page, q.Holds m.request.address chunks.flatten ∧ m'.step.result = .ok .running ∧
      m'.step.machine.stack = rest.add (again.loadMany q m.request.address (m.request.count again)) ∧
      m'.step.machine.memory = m.step.machine.memory := by
  obtain ⟨hrequest, hmet, hpage⟩ := h.asks_again again htakes hmode
  rw [← hrequest, ← htakes.stack_eq] at hroom
  rw [← hrequest] at hpage
  have hplan := planLoad_of_met (htakes.memory_eq ▸ h.wellFormed hformed) hmet hroom hpage
  obtain ⟨hresult, hstack, hafter⟩ := step_load htakes.faces htakes.stack_eq rfl hplan
  rw [hrequest] at hstack
  exact ⟨_, Page.holds_write _ _ _, hresult, hstack, hafter.trans htakes.memory_eq⟩

/-- A load in the mode of the store finds the values, and there is room for them where they were. -/
theorem Storing.restores (h : m.Storing mode rest x y z stored p chunks) (hformed : m.memory.WellFormed)
    (hb : m.stack.Bounded) (htakes : TakesUp m' m.step.machine (rest.add [x, y, z]) (.memLoad mode)) :
    m'.step.result = .ok .running ∧ m'.step.machine.stack = rest.add (stored.map mode.settled) ∧
      m'.step.machine.memory = m.step.machine.memory := by
  have hroom : (rest.add [x, y, z]).hasRoom (m.request.count mode - 3) := by
    rw [h.stack_eq] at hb
    have hrest : rest.hasRoom (m.request.count mode + 3) := hb.hasRoom (by simp [h.count_eq])
    exact Stack.hasRoom_add.mpr (Stack.hasRoom_of_le hrest (by simp; omega))
  obtain ⟨q, hold, hresult, hstack, hmemory⟩ := h.loads_again hformed htakes id hroom
  rw [← h.count_eq, Mode.loadMany_of_spells h.spells hold] at hstack
  exact ⟨hresult, hstack, hmemory⟩

/-- A load of bytes finds those of the values that were stored, one value behind the other. -/
theorem Storing.restores_bytes (h : m.Storing .float rest x y z stored p chunks) (hformed : m.memory.WellFormed)
    (htakes : TakesUp m' m.step.machine (rest.add [x, y, z]) (.memLoad .byte))
    (hroom : (rest.add [x, y, z]).hasRoom (m.request.count .byte - 3)) :
    m'.step.result = .ok .running ∧
      m'.step.machine.stack = rest.add ((stored.flatMap Double.toBytes).map .ofByte) := by
  obtain ⟨q, hold, hresult, hstack, -⟩ := h.loads_again hformed htakes (by decide) hroom
  have hchunks : chunks = stored.map Double.toBytes := by
    have hspelled : List.Forall₂ (fun bytes value => bytes = Double.toBytes value) chunks stored :=
      (h.spells.imp fun _ _ => Mode.spells_float_iff.mp).flip
    rwa [← List.forall₂_map_right_iff, List.forall₂_eq_eq_eq] at hspelled
  have hcount : m.request.count .byte = chunks.flatten.length := by
    rw [h.length_eq, Request.count, Mode.width, Nat.div_one]
  rw [hcount, Mode.loadMany_byte, hold, hchunks, ← List.flatMap_def] at hstack
  exact ⟨hresult, hstack⟩

/-- A store of what was loaded writes the bytes that are there. -/
theorem Loading.restores (h : m.Loading mode rest x y z p) (hformed : m.memory.WellFormed)
    (htakes : TakesUp m' m.step.machine (m.step.machine.stack.add [x, y, z]) (.memStore mode)) :
    m'.step.result = .ok .running ∧ m'.step.machine.stack = rest ∧ m'.step.machine.memory.Alike m.memory := by
  have hmemory := htakes.memory_eq.trans h.memory_after
  have hs := htakes.stack_eq
  rw [h.stack_after, Stack.add_add, List.cons_append, List.cons_append, List.cons_append, List.nil_append] at hs
  have hoperands : ∀ index < 3, m'.operand? index = m.operand? index := by
    intro index hindex
    rw [operand?_of_add hs (by simp; omega), operand?_of_add h.stack_eq (by simpa using hindex)]
    interval_cases index <;> rfl
  have hdepth : 3 ≤ m'.stack.depth := by
    simp only [hs, Stack.depth_add, List.length_cons]
    omega
  have hlive : m'.memory.exists? m.request.handle := by rw [hmemory, Memory.exists?, h.page_eq, Option.isSome_some]
  obtain ⟨hrequest, hmet⟩ := met_access_again h.met hoperands hdepth hlive id
  have hcount : (mode.loadMany p m.request.address (m.request.count mode)).length = m'.request.count mode := by
    rw [hrequest, Mode.loadMany_eq, List.length_map, List.length_range]
  have hstored := toStore_of_add hs hcount
  have hstores : (m'.storeDemands mode).Met := by
    refine Demands.met_append.mpr ⟨hmet, Demands.met_cons.mpr ⟨?_, Demands.met_cons.mpr ⟨?_, Demands.met_nil⟩⟩⟩
    · rw [hs, Stack.depth_add, List.length_cons, List.length_cons, List.length_cons, hcount]
      omega
    · rw [hstored]
      rintro x hx rfl
      exact Mode.le_of_mem_loadMany hx
  obtain ⟨e, hplan, q, chunks, hq, hfits, hchunks, hlength, rfl⟩ :=
    (decides_planStore (hmemory ▸ hformed) mode).exists_ok hstores
  obtain ⟨hresult, hstack, hafter⟩ := step_store htakes.faces hs hcount hplan
  rw [hstored] at hchunks
  refine ⟨hresult, hstack, ?_⟩
  rw [hafter, hmemory, hrequest]
  exact Memory.alike_overwrite hformed h.page_eq (Mode.holds_of_spells_loadMany hchunks)
    (by rw [hlength, hrequest]; exact h.fits)

end

end Machine

variable {σ : Type} {code : Code} {limits : Limits} {m : Machine σ}

/-- After a store, its operands can be pushed again, and a load finds the stored values and leaves them where they were;
as bytes it finds those of the values, the lowest first. After a load, a store with the same operands leaves every page
as it was and takes the loaded values off again. -/
theorem stores_and_loads_inverse (mode : Mode) (hreach : Reachable (Stack.KeptBy Stack.Bounded) code limits m) :
    (m.Performs (.memStore mode) →
      ∃ rest stored handle address length again,
        m.stack = rest.add (handle :: address :: length :: stored) ∧ stored.length = m.request.count mode ∧
        m.step.machine.stack = rest ∧ rest.pushOperands handle address length = .ok again ∧
        (∀ m', Machine.TakesUp m' m.step.machine again (.memLoad mode) →
          m'.step.result = .ok .running ∧ m'.step.machine.stack = rest.add (stored.map mode.settled) ∧
            m'.step.machine.memory = m.step.machine.memory) ∧
        (mode = .float → ∀ m', Machine.TakesUp m' m.step.machine again (.memLoad .byte) →
          (rest.depth + m.request.length ≤ rest.capacity → m'.step.result = .ok .running) ∧
          (m'.step.result.isOk →
            m'.step.machine.stack = rest.add ((stored.flatMap Double.toBytes).map .ofByte)))) ∧
    (m.Performs (.memLoad mode) →
      ∃ rest handle address length, m.stack = rest.add [handle, address, length] ∧
        ∀ again, m.step.machine.stack.pushOperands handle address length = .ok again →
          ∀ m', Machine.TakesUp m' m.step.machine again (.memStore mode) →
            m'.step.result = .ok .running ∧ m'.step.machine.stack = rest ∧ m'.step.machine.memory.Alike m.memory) := by
  have hb : m.stack.Bounded := hreach.bounded fun _ hact => hact
  have hformed := Machine.wellFormed_of_reachable hreach
  constructor
  · intro hperforms
    obtain ⟨rest, x, y, z, stored, p, chunks, h⟩ := hperforms.storing hformed
    have hroom : rest.hasRoom 3 := Stack.Bounded.hasRoom (h.stack_eq ▸ hb) (by simp)
    refine ⟨rest, stored, x, y, z, _, h.stack_eq, h.count_eq, h.stack_after,
      Stack.pushOperands_eq_ok_iff.mpr ⟨hroom, rfl⟩, fun m' htakes => h.restores hformed hb htakes, ?_⟩
    rintro rfl m' htakes
    have hfind := h.restores_bytes hformed htakes
    refine ⟨fun hfits => (hfind ?_).1, fun hok => (hfind ?_).2⟩
    · rw [Stack.hasRoom_add, Request.count, Mode.width, Nat.div_one]
      rcases Nat.le_total m.request.length 3 with hfew | hmany
      · exact Stack.hasRoom_of_le hroom (by simp; omega)
      · have hlength : rest.hasRoom m.request.length := Stack.requireRoom_eq_ok_iff.mp (Stack.requireRoom_of_le hfits)
        exact Stack.hasRoom_of_le hlength (by simp; omega)
    · have hformed' : m'.memory.WellFormed := htakes.memory_eq ▸ h.wellFormed hformed
      obtain ⟨_, _, _, _, _, hload⟩ := Machine.Performs.loading hformed' ⟨htakes.faces, hok⟩
      obtain ⟨hrequest, -, -⟩ := h.asks_again .byte htakes (by decide)
      rw [← hrequest, ← htakes.stack_eq]
      exact hload.room
  · intro hperforms
    obtain ⟨rest, x, y, z, p, h⟩ := hperforms.loading hformed
    refine ⟨rest, x, y, z, h.stack_eq, ?_⟩
    intro again hagain m' htakes
    obtain ⟨-, rfl⟩ := Stack.pushOperands_eq_ok_iff.mp hagain
    exact h.restores hformed htakes

/-- A store of two bytes on a full stack, a load of what was stored, and a store of what was loaded. -/
def restoring : Code :=
  .ofInstrs ([.memPlz, .push (.ofNat 7), .push .negativeZero] ++ operands ++ [.memStore .byte] ++ operands ++
    [.memLoad .byte] ++ operands ++ [.memStore .byte])
where operands := [.push (.ofNat 2), .push (.ofNat 5), .push .zero]

theorem stores_and_loads_inverse_restoring :
    let start : Machine Nat := .start restoring { stackCapacity := 6 }
    let store := (start.runFor 6).machine
    let load := (start.runFor 10).machine
    let again := (start.runFor 14).machine
    let base := (Stack.empty 6).add [.zero]
    store.stack = base.add [.zero, .ofNat 5, .ofNat 2, .negativeZero, .ofNat 7] ∧
      load.step.result = .ok .running ∧ load.step.machine.stack = base.add [.zero, .ofNat 7] ∧
      again.step.result = .ok .running ∧ again.step.machine.stack = base ∧
      again.step.machine.memory.Alike load.memory := by
  intro start store load again base
  have hstore : Reachable (Stack.KeptBy Stack.Bounded) restoring { stackCapacity := 6 } store := .runFor .start 6
  have hload : Reachable (Stack.KeptBy Stack.Bounded) restoring { stackCapacity := 6 } load := .runFor .start 10
  have hstores : store.Performs (.memStore .byte) := by decide +kernel
  have hloads : load.Performs (.memLoad .byte) := by decide +kernel
  have hstoresAgain : again.Faces (.memStore .byte) := by decide +kernel
  have hfull : store.stack = base.add [.zero, .ofNat 5, .ofNat 2, .negativeZero, .ofNat 7] := by decide +kernel
  have hcount : store.request.count .byte = 2 := by decide +kernel
  have hoperands : load.stack = base.add [.zero, .ofNat 5, .ofNat 2] := by decide +kernel
  have hpush : base.pushOperands .zero (.ofNat 5) (.ofNat 2) = .ok load.stack := by decide +kernel
  have hpushAgain : load.step.machine.stack.pushOperands .zero (.ofNat 5) (.ofNat 2) = .ok again.stack := by
    decide +kernel
  have hmemory : load.memory = store.step.machine.memory := by decide +kernel
  have hmemoryAgain : again.memory = load.step.machine.memory := by decide +kernel
  have hsettled : [.negativeZero, .ofNat 7].map Mode.byte.settled = [.zero, .ofNat 7] := by decide +kernel
  clear_value store load again base
  obtain ⟨rest, stored, x, y, z, top, hs, hlen, -, htop, hfind, -⟩ :=
    (stores_and_loads_inverse .byte hstore).1 hstores
  obtain ⟨rfl, hvalues⟩ := Stack.add_inj (by simp [hlen, hcount]) (hs.symm.trans hfull)
  simp only [List.cons.injEq] at hvalues
  obtain ⟨rfl, rfl, rfl, rfl⟩ := hvalues
  obtain rfl : top = load.stack := Except.ok.inj (htop.symm.trans hpush)
  obtain ⟨hresult, hstack, -⟩ := hfind load ⟨hloads.1, rfl, hmemory⟩
  obtain ⟨rest, x, y, z, hs, hfind⟩ := (stores_and_loads_inverse .byte hload).2 hloads
  obtain ⟨rfl, hvalues⟩ := Stack.add_inj (by simp) (hs.symm.trans hoperands)
  simp only [List.cons.injEq, and_true] at hvalues
  obtain ⟨rfl, rfl, rfl⟩ := hvalues
  obtain ⟨hresultAgain, hstackAgain, halike⟩ := hfind _ hpushAgain again ⟨hstoresAgain, rfl, hmemoryAgain⟩
  exact ⟨hfull, hresult, hsettled ▸ hstack, hresultAgain, hstackAgain, halike⟩

end StackMachine
