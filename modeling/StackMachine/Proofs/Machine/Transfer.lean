import StackMachine.Proofs.Machine.Table
import Mathlib.Data.Nat.Digits.Defs

/-!
Loads and stores. Each of them makes its demands in a fixed order and is refused for the first that is not met; if all
are met it is done. `Demands` are such lists, and `Decides` says that a check follows one. A load puts the elements
of a part of a page in the place of its three operands, a store takes as many values off the stack and changes that
part of the page and nothing else.
-/

set_option autoImplicit false

namespace StackMachine

variable {σ α β : Type}

/-- Demands in the order in which they are made, each with the fault of a refusal. -/
abbrev Demands := List (Prop × Fault)

namespace Demands

variable {demands front back : Demands} {p : Prop} {fault other : Fault}

def Met (demands : Demands) : Prop := ∀ d ∈ demands, d.1

theorem met_nil : Met [] := nofun

theorem met_cons : Met ((p, fault) :: demands) ↔ p ∧ Met demands := List.forall_mem_cons

theorem met_append : Met (front ++ back) ↔ Met front ∧ Met back := List.forall_mem_append

/-- The fault of the first demand that is not met. -/
inductive Unmet : Demands → Fault → Prop
  | here {p : Prop} {fault : Fault} {rest : Demands} (hp : ¬ p) : Unmet ((p, fault) :: rest) fault
  | later {p : Prop} {other fault : Fault} {rest : Demands} (hp : p) (h : Unmet rest fault) :
      Unmet ((p, other) :: rest) fault

theorem Unmet.not_met (h : Unmet demands fault) : ¬ Met demands := by
  induction h with
  | here hp => exact fun hall => hp (hall _ List.mem_cons_self)
  | later _ _ ih => exact fun hall => ih fun d hd => hall d (List.mem_cons_of_mem _ hd)

theorem Unmet.unique (h : Unmet demands fault) (hother : Unmet demands other) : fault = other := by
  induction h with
  | here hp =>
    cases hother with
    | here => rfl
    | later hp' => exact absurd hp' hp
  | later hp _ ih =>
    cases hother with
    | here hp' => exact absurd hp hp'
    | later _ hother => exact ih hother

theorem Unmet.append_left (h : Unmet front fault) (back : Demands) : Unmet (front ++ back) fault := by
  induction h with
  | here hp => exact .here hp
  | later hp _ ih => exact .later hp ih

theorem Unmet.append_right (hfront : Met front) (h : Unmet back fault) : Unmet (front ++ back) fault := by
  induction front with
  | nil => exact h
  | cons d front ih =>
    obtain ⟨hd, hfront⟩ := met_cons.mp hfront
    exact .later hd (ih hfront)

end Demands

/-- The check answers as `R` says if the demands are met, and raises the fault of the first that is not. -/
def Decides (demands : Demands) (R : α → Prop) (e : Except Fault α) : Prop :=
  Yields (fun a => demands.Met ∧ R a) demands.Unmet e

namespace Decides

variable {demands front back : Demands} {p : Prop} {fault : Fault} {R : α → Prop} {S : β → Prop} {e : Except Fault α}
  {f : α → Except Fault β}

theorem of_ok {a : α} (h : R a) : Decides [] R (.ok a) := ⟨Demands.met_nil, h⟩

theorem bind (he : Decides front R e) (hf : ∀ a, R a → Decides back S (f a)) :
    Decides (front ++ back) S (e >>= f) := by
  cases e with
  | error fault => exact Demands.Unmet.append_left he back
  | ok a =>
    obtain ⟨hfront, ha⟩ := he
    have hnext := hf a ha
    rw [ok_bind]
    cases hfa : f a with
    | error fault =>
      rw [hfa] at hnext
      exact Demands.Unmet.append_right hfront hnext
    | ok b =>
      rw [hfa] at hnext
      exact ⟨Demands.met_append.mpr ⟨hfront, hnext.1⟩, hnext.2⟩

theorem cons (he : Decides [(p, fault)] R e) (hf : ∀ a, R a → Decides back S (f a)) :
    Decides ((p, fault) :: back) S (e >>= f) :=
  he.bind hf

theorem bind_ok {g : α → β} (he : Decides demands R e) (hg : ∀ a, R a → S (g a)) :
    Decides demands S (e >>= fun a => .ok (g a)) := by
  cases e with
  | error fault => exact he
  | ok a => exact ⟨he.1, hg a he.2⟩

theorem error_iff (h : Decides demands R e) : e = .error fault ↔ demands.Unmet fault := by
  cases e with
  | error other =>
    constructor
    · intro heq
      exact Except.error.inj heq ▸ h
    · intro hfault
      rw [Demands.Unmet.unique h hfault]
  | ok a => exact iff_of_false nofun fun hfault => hfault.not_met h.1

theorem exists_ok (h : Decides demands R e) (hmet : demands.Met) : ∃ a, e = .ok a ∧ R a := by
  cases e with
  | error fault => exact absurd hmet (Demands.Unmet.not_met h)
  | ok a => exact ⟨a, rfl, h.2⟩

theorem single {a : α} (hok : p → e = .ok a ∧ R a) (herror : ¬ p → e = .error fault) :
    Decides [(p, fault)] R e := by
  by_cases hp : p
  · obtain ⟨rfl, ha⟩ := hok hp
    exact ⟨by simpa [Demands.Met], ha⟩
  · rw [herror hp]
    exact .here hp

theorem guard {c : Prop} [Decidable c] (hc : c ↔ ¬ p) (h : p → Decides back R e) :
    Decides ((p, fault) :: back) R (if c then .error fault else e) := by
  have hbind : (if c then .error fault else e) = ((if c then .error fault else .ok ()) >>= fun _ => e) := by
    split <;> rfl
  rw [hbind]
  refine cons (R := fun _ => p) (single (a := ()) ?_ ?_) fun _ => h
  · exact fun hp => ⟨if_neg fun hbad => hc.mp hbad hp, hp⟩
  · exact fun hp => if_pos (hc.mpr hp)

theorem merge {q : Prop} (h : Decides [(p, fault), (q, fault)] R e) : Decides [(p ∧ q, fault)] R e := by
  cases e with
  | ok a => exact ⟨by simpa [Demands.Met] using h.1, h.2⟩
  | error other =>
    cases h with
    | here hp => exact .here fun hboth => hp hboth.1
    | later _ h =>
      cases h with
      | here hq => exact .here fun hboth => hq hboth.2
      | later _ h => cases h

theorem mapM {P : α → Prop} {R : α → β → Prop} {f : α → Except Fault β}
    (hf : ∀ a, Decides [(P a, fault)] (R a) (f a)) (l : List α) :
    Decides [(∀ a ∈ l, P a, fault)] (List.Forall₂ R l) (l.mapM f) := by
  induction l with
  | nil => exact .single (fun _ => ⟨rfl, .nil⟩) fun h => absurd nofun h
  | cons a l ih =>
    simp only [List.mapM_cons, List.forall_mem_cons]
    refine merge ((hf a).cons fun b hb => ih.cons fun more hmore => .of_ok ?_)
    exact .cons hb hmore

end Decides

structure Request where
  handle : Nat
  address : Nat
  length : Nat
  deriving DecidableEq, Repr

def Request.count (r : Request) (mode : Mode) : Nat := r.length / mode.width

namespace Machine

variable {m : Machine σ} {mode : Mode}

def operand? (m : Machine σ) (index : Nat) : Option Double := m.stack.values.toList.reverse[index]?

def OffersNat (m : Machine σ) (index : Nat) : Prop :=
  ∃ x n, m.operand? index = some x ∧ x.Denotes n ∧ n ≤ 2 ^ 53 - 1

/-- The whole number in an operand, which is what it denotes if it denotes a number at all. -/
def operandNat (m : Machine σ) (index : Nat) : Nat :=
  ((m.operand? index).map fun x => x.units / Double.unitsPerOne).getD 0

def request (m : Machine σ) : Request := ⟨m.operandNat 0, m.operandNat 1, m.operandNat 2⟩

def toStore (m : Machine σ) (mode : Mode) : List Double :=
  (m.stack.values.toList.reverse.drop 3).take (m.request.count mode)

def accessDemands (m : Machine σ) (mode : Mode) : Demands :=
  [(3 ≤ m.stack.depth, .stackUnderflow),
    (m.OffersNat 0, .invalidOperand "page handle"),
    (m.OffersNat 1, .invalidOperand "memory address"),
    (m.OffersNat 2, .invalidOperand "memory length"),
    (mode = .float → 8 ∣ m.request.length, .invalidOperand "float access length"),
    (m.memory.exists? m.request.handle, .pageNotFound m.request.handle),
    (m.request.address + m.request.length ≤ 65536,
      .pageOutOfBounds m.request.handle m.request.address m.request.length)]

def loadDemands (m : Machine σ) (mode : Mode) : Demands :=
  m.accessDemands mode ++
    [(m.stack.depth - 3 + m.request.count mode ≤ m.stack.capacity, .stackOverflow m.stack.capacity)]

def storeDemands (m : Machine σ) (mode : Mode) : Demands :=
  m.accessDemands mode ++
    [(3 + m.request.count mode ≤ m.stack.depth, .stackUnderflow),
      (∀ x ∈ m.toStore mode, mode = .byte → ∃ n ≤ 255, x.Denotes n, .invalidOperand "byte value")]

theorem met_accessDemands_iff :
    (m.accessDemands mode).Met ↔
      3 ≤ m.stack.depth ∧ (∀ index < 3, m.OffersNat index) ∧ (mode = .float → 8 ∣ m.request.length) ∧
        m.memory.exists? m.request.handle ∧ m.request.address + m.request.length ≤ 65536 := by
  have hall : (∀ index < 3, m.OffersNat index) ↔ m.OffersNat 0 ∧ m.OffersNat 1 ∧ m.OffersNat 2 := by
    constructor
    · exact fun h => ⟨h 0 (by decide), h 1 (by decide), h 2 (by decide)⟩
    · rintro ⟨h0, h1, h2⟩ index hindex
      interval_cases index <;> assumption
  simp only [accessDemands, Demands.met_cons, hall, Demands.met_nil, and_true, and_assoc]

section

variable {rest : Stack} {values : List Double}

theorem reverse_toList_of_add (hs : m.stack = rest.add values) :
    m.stack.values.toList.reverse = values ++ rest.values.toList.reverse := by
  rw [hs, Stack.toList_add, List.reverse_append, List.reverse_reverse]

theorem operand?_of_add (hs : m.stack = rest.add values) {index : Nat} (h : index < values.length) :
    m.operand? index = values[index]? := by
  rw [operand?, reverse_toList_of_add hs, List.getElem?_append_left h]

end

theorem decides_requireDepth (s : Stack) (count : Nat) :
    Decides [(count ≤ s.depth, .stackUnderflow)] (fun _ => count ≤ s.depth) (s.requireDepth count) :=
  .single (fun h => ⟨Stack.requireDepth_of_le h, h⟩) fun h => Stack.requireDepth_of_lt (not_le.mp h)

theorem offersNat_iff {index : Nat} : m.OffersNat index ↔ (m.operand? index >>= Double.toNat?).isSome := by
  constructor
  · rintro ⟨x, n, hx, hn⟩
    rw [hx, Option.bind_eq_bind, Option.bind_some, Double.toNat?_eq_some_iff.mpr hn]
    rfl
  · intro h
    obtain ⟨n, hn⟩ := Option.isSome_iff_exists.mp h
    obtain ⟨x, hx, hn⟩ := Option.bind_eq_some_iff.mp hn
    exact ⟨x, n, hx, Double.toNat?_eq_some_iff.mp hn⟩

instance (m : Machine σ) (index : Nat) : Decidable (m.OffersNat index) := decidable_of_iff _ offersNat_iff.symm

theorem operandNat_eq {index n : Nat} {x : Double} (h : m.operand? index = some x) (hx : x.Denotes n) :
    m.operandNat index = n := by
  rw [operandNat, h, Option.map_some, Option.getD_some, hx.2.1, Nat.mul_div_cancel n Double.unitsPerOne_pos]

theorem decides_toNatOf {index : Nat} {x : Double} (h : m.operand? index = some x) (what : String) :
    Decides [(m.OffersNat index, .invalidOperand what)] (· = m.operandNat index) (x.toNatOf what) := by
  rw [offersNat_iff, h, Option.bind_eq_bind, Option.bind_some, Double.toNatOf]
  cases hx : x.toNat? with
  | none => exact .here Bool.false_ne_true
  | some n =>
    have hn := operandNat_eq h (Double.toNat?_eq_some_iff.mp hx).1
    exact .single (fun _ => ⟨rfl, hn.symm⟩) fun hnot => absurd rfl hnot

theorem decides_requireRange {memory : Memory} (hformed : memory.WellFormed) (handle address length : Nat) :
    Decides
      [(memory.exists? handle, .pageNotFound handle),
        (address + length ≤ 65536, .pageOutOfBounds handle address length)]
      (fun p => memory.page? handle = some p ∧ address + length ≤ 65536)
      (memory.requireRange handle address length) := by
  cases hpage : memory.page? handle with
  | none =>
    rw [Memory.requireRange_of_dead hpage]
    refine .here ?_
    rw [Memory.exists?, hpage]
    exact Bool.false_ne_true
  | some p =>
    have hlive : memory.exists? handle = true := by rw [Memory.exists?, hpage, Option.isSome_some]
    rw [Memory.requireRange_of_page? hpage, hformed.handle_eq handle p hpage]
    refine Decides.cons (e := .ok ()) (R := fun _ => True) (f := fun _ => _)
      ⟨by simpa [Demands.Met] using hlive, trivial⟩ fun _ _ => ?_
    exact .single (a := p) (fun h => ⟨if_pos h, rfl, h⟩) fun h => if_neg h

theorem decides_access (hformed : m.memory.WellFormed) (mode : Mode) :
    Decides (m.accessDemands mode)
      (fun a => 3 ≤ m.stack.depth ∧ mode.width ∣ m.request.length ∧
        m.request.address + m.request.length ≤ 65536 ∧
        ∃ p, m.memory.page? m.request.handle = some p ∧
          a = ⟨m.request.handle, m.request.address, m.request.length, p⟩)
      (m.access mode) := by
  refine (decides_requireDepth m.stack 3).cons fun _ hdepth => ?_
  obtain ⟨rest, values, hlen, hs⟩ := Stack.exists_eq_add hdepth
  obtain ⟨x, y, z, rfl⟩ := List.length_eq_three.mp hlen
  have hx : m.operand? 0 = some x := operand?_of_add hs (by simp)
  have hy : m.operand? 1 = some y := operand?_of_add hs (by simp)
  have hz : m.operand? 2 = some z := operand?_of_add hs (by simp)
  have hfirst : m.stack.peek (-1) = .ok x := by rw [hs, Stack.peek_add_first]
  have hsecond : m.stack.peek (-2) = .ok y := by rw [hs, Stack.peek_add_second]
  have hthird : m.stack.peek (-3) = .ok z := by rw [hs, Stack.peek_add_third]
  rw [hfirst, ok_bind]
  refine (decides_toNatOf hx _).cons ?_
  rintro _ rfl
  rw [hsecond, ok_bind]
  refine (decides_toNatOf hy _).cons ?_
  rintro _ rfl
  rw [hthird, ok_bind]
  refine (decides_toNatOf hz _).cons ?_
  rintro _ rfl
  have hwidth : (mode = .float → 8 ∣ m.request.length) ↔ mode.width ∣ m.request.length := by
    cases mode <;> simp [Mode.width]
  refine Decides.guard ?_ fun hmultiple => ?_
  · rw [hwidth, Nat.dvd_iff_mod_eq_zero]
    rfl
  · refine (decides_requireRange hformed _ _ _).bind_ok fun p hp => ?_
    exact ⟨hdepth, hwidth.mp hmultiple, hp.2, p, hp.1, rfl⟩

end Machine

/-- The bytes that hold an element: the number that it is, or the eight digits of its pattern from the lowest on. -/
def Mode.Spells : Mode → Double → List UInt8 → Prop
  | .byte, x, bytes => ∃ n ≤ 255, x.Denotes n ∧ bytes = [UInt8.ofNat n]
  | .float, x, bytes => bytes.length = 8 ∧ Nat.ofDigits 256 (bytes.map UInt8.toNat) = x.bits.toNat

theorem ofDigits_eq_leValue (bytes : List UInt8) : Nat.ofDigits 256 (bytes.map UInt8.toNat) = leValue bytes := by
  induction bytes with
  | nil => rfl
  | cons b bytes ih =>
    rw [List.map_cons, Nat.ofDigits_cons, ih]
    rfl

theorem Mode.spells_float_iff {x : Double} {bytes : List UInt8} : float.Spells x bytes ↔ bytes = x.toBytes := by
  rw [Spells, ofDigits_eq_leValue]
  constructor
  · rintro ⟨hlength, hvalue⟩
    rw [Double.toBytes, ← hvalue, ← hlength, leBytes_leValue]
  · rintro rfl
    exact ⟨x.length_toBytes, by rw [Double.toBytes, leValue_leBytes, Nat.mod_eq_of_lt x.bits.toNat_lt]⟩

theorem Mode.Spells.length_eq {mode : Mode} {x : Double} {bytes : List UInt8} (h : mode.Spells x bytes) :
    bytes.length = mode.width := by
  cases mode with
  | byte =>
    obtain ⟨n, -, -, rfl⟩ := h
    rfl
  | float => exact h.1

theorem Mode.length_flatten_of_spells {mode : Mode} {values : List Double} {chunks : List (List UInt8)}
    (h : List.Forall₂ mode.Spells values chunks) : chunks.flatten.length = values.length * mode.width := by
  induction h with
  | nil => exact (Nat.zero_mul _).symm
  | cons hx _ ih =>
    rw [List.flatten_cons, List.length_append, hx.length_eq, ih, List.length_cons, Nat.succ_mul, Nat.add_comm]

/-- The values are those of a part of a page, from the lowest address on: each is spelled by the bytes that stand where
it was. Those that are spelled by one byte have no sign. -/
structure Request.Reads (r : Request) (mode : Mode) (p : Page) (values : List Double) : Prop where
  length_eq : values.length = r.count mode
  spells : ∀ i x, values[i]? = some x → ∃ bytes, mode.Spells x bytes ∧
    ∀ k < mode.width, bytes[k]? = some (p.byte (r.address + i * mode.width + k))
  unsigned : mode = .byte → ∀ x ∈ values, x.isNegative = false

def Request.elements (r : Request) (mode : Mode) (p : Page) : List Double :=
  (List.range (r.count mode)).map fun i => mode.load p (r.address + i * mode.width)

theorem Mode.exists_spells_load (mode : Mode) (p : Page) (address : Nat) :
    ∃ bytes, mode.Spells (mode.load p address) bytes ∧
      ∀ k < mode.width, bytes[k]? = some (p.byte (address + k)) := by
  cases mode with
  | byte =>
    have hlt := (p.byte address).toNat_lt
    refine ⟨[p.byte address], ⟨(p.byte address).toNat, by omega, ?_, by rw [UInt8.ofNat_toNat]⟩, ?_⟩
    · exact Double.denotes_ofNat (hlt.le.trans (by decide))
    · intro k hk
      obtain rfl : k = 0 := Nat.lt_one_iff.mp hk
      rfl
  | float =>
    have hlength : (p.read address 8).length = 8 := by rw [Page.read, List.length_map, List.length_range']
    refine ⟨p.read address 8, spells_float_iff.mpr ?_, ?_⟩
    · rw [load, Double.toBytes_ofBytes hlength]
    · intro k (hk : k < 8)
      rw [Page.read, List.getElem?_map, List.getElem?_range' hk, Option.map_some, Nat.one_mul]

/-- An element is determined by its bytes. -/
theorem Mode.Spells.unique {mode : Mode} {x y : Double} {bytes : List UInt8} (hx : mode.Spells x bytes)
    (hy : mode.Spells y bytes) (hsign : mode = .byte → x.isNegative = y.isNegative) : x = y := by
  cases mode with
  | byte =>
    obtain ⟨n, hn, hxn, rfl⟩ := hx
    obtain ⟨k, hk, hyk, hbytes⟩ := hy
    obtain rfl : n = k := by
      have hnat := congrArg UInt8.toNat (List.singleton_inj.mp hbytes)
      rwa [UInt8.toNat_ofNat_of_lt' (Nat.lt_succ_of_le hn), UInt8.toNat_ofNat_of_lt' (Nat.lt_succ_of_le hk)] at hnat
    exact Double.eq_of_units (hxn.2.1.trans hyk.2.1.symm) (hsign rfl)
  | float =>
    rw [spells_float_iff] at hx hy
    rw [← Double.ofBytes_toBytes x, ← Double.ofBytes_toBytes y, ← hx, ← hy]

theorem Request.reads_elements (r : Request) (mode : Mode) (p : Page) : r.Reads mode p (r.elements mode p) where
  length_eq := by rw [elements, List.length_map, List.length_range]
  spells := by
    intro i x hx
    obtain ⟨k, hk, rfl⟩ := Option.map_eq_some_iff.mp ((List.getElem?_map ..).symm.trans hx)
    obtain ⟨hlt, rfl⟩ := List.getElem?_eq_some_iff.mp hk
    rw [List.getElem_range]
    exact mode.exists_spells_load p _
  unsigned := by
    rintro rfl x hx
    obtain ⟨i, -, rfl⟩ := List.mem_map.mp hx
    exact Double.isNegative_ofNat _

/-- What is read is determined by the page. -/
theorem Request.Reads.unique {r : Request} {mode : Mode} {p : Page} {xs ys : List Double} (hx : r.Reads mode p xs)
    (hy : r.Reads mode p ys) : xs = ys := by
  apply List.ext_getElem (hx.length_eq.trans hy.length_eq.symm)
  intro i hi hi'
  obtain ⟨bytes, hspells, hbytes⟩ := hx.spells i _ (List.getElem?_eq_getElem hi)
  obtain ⟨others, hspells', hothers⟩ := hy.spells i _ (List.getElem?_eq_getElem hi')
  obtain rfl : bytes = others := by
    apply List.ext_getElem?
    intro k
    by_cases hk : k < mode.width
    · rw [hbytes k hk, hothers k hk]
    · rw [List.getElem?_eq_none (by rw [hspells.length_eq]; omega),
        List.getElem?_eq_none (by rw [hspells'.length_eq]; omega)]
  refine hspells.unique hspells' fun hmode => ?_
  rw [hx.unsigned hmode _ (List.getElem_mem hi), hy.unsigned hmode _ (List.getElem_mem hi')]

/-- Memory in which some bytes of one page were written and nothing else was changed. -/
structure Memory.Rewritten (before after : Memory) (handle address : Nat) (bytes : List UInt8) : Prop where
  live_eq : after.live = before.live
  limit_eq : after.limit = before.limit
  nextHandle_eq : after.nextHandle = before.nextHandle
  others : ∀ other, other ≠ handle → after.page? other = before.page? other
  page : ∃ p q, before.page? handle = some p ∧ after.page? handle = some q ∧ q.handle = p.handle ∧
    q.bytes.size = 65536 ∧ (∀ i b, bytes[i]? = some b → q.byte (address + i) = b) ∧
    ∀ a, a < address ∨ address + bytes.length ≤ a → q.byte a = p.byte a

theorem Memory.rewritten_overwrite {memory : Memory} {handle address : Nat} {bytes : List UInt8} {p : Page}
    (hformed : memory.WellFormed) (hpage : memory.page? handle = some p) (hfits : address + bytes.length ≤ 65536) :
    memory.Rewritten (memory.overwrite handle address bytes) handle address bytes where
  live_eq := rfl
  limit_eq := rfl
  nextHandle_eq := nextHandle_overwrite _ _ _ _
  others := by
    intro other hother
    rw [page?_overwrite, if_neg hother]
  page := by
    refine ⟨p, p.write address bytes, hpage, ?_, Page.handle_write _ _ _,
      Page.size_bytes_write (hformed.size_bytes _ _ hpage) hfits, ?_, ?_⟩
    · rw [page?_overwrite, if_pos rfl, hpage]
      rfl
    · intro i b hb
      obtain ⟨hlt, hbyte⟩ := List.getElem?_eq_some_iff.mp hb
      rw [Page.byte_write, if_pos ⟨by omega, by omega⟩, Nat.add_sub_cancel_left, List.getD_eq_getElem?_getD, hb]
      rfl
    · intro a houtside
      rw [Page.byte_write, if_neg (by omega)]

namespace Machine

variable {m : Machine σ} {mode : Mode} {next : Nat}

theorem decides_requireRoom {s : Stack} {count : Nat} (hb : s.Bounded) (hdepth : 3 ≤ s.depth) (hcount : count ≤ 2 ^ 53)
    (hword : s.capacity < 2 ^ 64 - 1 ∨ s.depth < 2 ^ 60) :
    Decides [(s.depth - 3 + count ≤ s.capacity, .stackOverflow s.capacity)] (fun _ => True)
      (s.requireRoom (count - 3)) := by
  have hfull := Stack.depth_le_of_bounded hb hword
  -- what is asked for is the room beyond that of the operands
  have hroom : s.hasRoom (count - 3) ↔ s.depth - 3 + count ≤ s.capacity := by
    rw [← Stack.requireRoom_eq_ok_iff]
    constructor
    · intro h
      have hle := Stack.le_of_requireRoom h (by omega) hword
      omega
    · intro h
      exact Stack.requireRoom_of_le (by omega)
  refine .single (a := ()) ?_ ?_
  · exact fun h => ⟨Stack.requireRoom_eq_ok_iff.mpr (hroom.mpr h), trivial⟩
  · exact fun h => if_neg (mt hroom.mp h)

theorem decides_bytes (mode : Mode) (x : Double) :
    Decides [(mode = .byte → ∃ n ≤ 255, x.Denotes n, .invalidOperand "byte value")] (mode.Spells x)
      (mode.bytes x) := by
  cases mode with
  | float => exact .single (fun _ => ⟨rfl, Mode.spells_float_iff.mpr rfl⟩) fun h => absurd nofun h
  | byte =>
    rw [Mode.bytes]
    cases hx : x.toNat? with
    | none =>
      rw [Double.toNatOf, hx]
      refine .here fun h => ?_
      obtain ⟨n, hle, hn⟩ := h rfl
      rw [Double.toNat?_eq_some_iff.mpr ⟨hn, hle.trans (by decide)⟩] at hx
      cases hx
    | some n =>
      rw [Read.toNatOf_eq_ok_iff.mpr hx, ok_bind]
      obtain ⟨hn, -⟩ := Double.toNat?_eq_some_iff.mp hx
      refine .single (a := [UInt8.ofNat n]) ?_ ?_
      · intro h
        obtain ⟨k, hle, hk⟩ := h rfl
        have hkx := Double.toNat?_eq_some_iff.mpr ⟨hk, hle.trans (by decide)⟩
        obtain rfl : n = k := Option.some.inj (hx.symm.trans hkx)
        exact ⟨if_pos (Nat.lt_succ_of_le hle), n, hle, hn, rfl⟩
      · intro h
        refine if_neg fun hlt => h fun _ => ⟨n, Nat.le_of_lt_succ hlt, hn⟩

theorem length_toStore (h : 3 + m.request.count mode ≤ m.stack.depth) :
    (m.toStore mode).length = m.request.count mode := by
  rw [toStore, List.length_take, List.length_drop, List.length_reverse, ← Stack.depth_eq_length]
  omega

theorem decides_planLoad (hformed : m.memory.WellFormed) (hb : m.stack.Bounded)
    (hword : m.stack.capacity < 2 ^ 64 - 1 ∨ m.stack.depth < 2 ^ 60) (mode : Mode) :
    Decides (m.loadDemands mode)
      (fun e => ∃ p, m.memory.page? m.request.handle = some p ∧
        e = { pops := 3, pushes := m.request.elements mode p })
      (m.planLoad mode) := by
  refine (decides_access hformed mode).bind ?_
  rintro a ⟨hdepth, -, hrange, p, hp, rfl⟩
  have hcount : m.request.count mode ≤ 2 ^ 53 := by
    have := Nat.div_le_self m.request.length mode.width
    rw [Request.count]
    omega
  exact (decides_requireRoom hb hdepth hcount hword).cons fun _ _ => .of_ok ⟨p, hp, rfl⟩

theorem decides_planStore (hformed : m.memory.WellFormed) (mode : Mode) :
    Decides (m.storeDemands mode)
      (fun e => ∃ p chunks, m.memory.page? m.request.handle = some p ∧
        m.request.address + m.request.length ≤ 65536 ∧ List.Forall₂ mode.Spells (m.toStore mode) chunks ∧
        chunks.flatten.length = m.request.length ∧
        e = { pops := 3 + m.request.count mode
              memory := some (.write m.request.handle m.request.address chunks.flatten) })
      (m.planStore mode) := by
  refine (decides_access hformed mode).bind ?_
  rintro a ⟨-, hmultiple, hrange, p, hp, rfl⟩
  refine (decides_requireDepth m.stack _).cons fun _ hdepth => ?_
  have hvalues : (m.stack.topmost (3 + m.request.count mode)).drop 3 = m.toStore mode := by
    rw [Stack.topmost_eq, toStore, ← List.take_drop]
  change Decides _ _ (((m.stack.topmost (3 + m.request.count mode)).drop 3).mapM mode.bytes >>= _)
  rw [hvalues]
  refine ((Decides.mapM (decides_bytes mode)) _).cons fun chunks hchunks => ?_
  refine .of_ok ⟨p, chunks, hp, hrange, hchunks, ?_, rfl⟩
  rw [Mode.length_flatten_of_spells hchunks, length_toStore hdepth]
  exact Nat.div_mul_cancel hmultiple

/-- The machine after a load: the values of the page are in the place of the three operands, that of the lowest
address on top. -/
def Loaded (m : Machine σ) (mode : Mode) (next : Nat) (after : Machine σ) : Prop :=
  ∃ p values, m.memory.page? m.request.handle = some p ∧ m.request.Reads mode p values ∧
    after = { m with
      position := next
      stack := ⟨(m.stack.values.toList.take (m.stack.depth - 3) ++ values.reverse).toArray, m.stack.capacity⟩
      steps := m.steps + 1 }

/-- The machine after a store: the operands and the values are gone, and the bytes of the values are in the part of the
page that was asked for. -/
def Stored (m : Machine σ) (mode : Mode) (next : Nat) (after : Machine σ) : Prop :=
  ∃ chunks memory, List.Forall₂ mode.Spells (m.toStore mode) chunks ∧
    chunks.flatten.length = m.request.length ∧
    m.memory.Rewritten memory m.request.handle m.request.address chunks.flatten ∧
    after = { m with
      position := next
      stack := ⟨(m.stack.values.toList.take (m.stack.depth - (3 + m.request.count mode))).toArray, m.stack.capacity⟩
      memory
      steps := m.steps + 1 }

/-- The next step is refused for the first demand that is not met, and changes nothing; otherwise it is done. -/
structure StepsBy (m : Machine σ) (demands : Demands) (Done : Machine σ → Prop) : Prop where
  refused_iff : ∀ fault, m.step.result = .error fault ↔ demands.Unmet fault
  unchanged : ∀ fault, m.step.result = .error fault → m.step.machine = m
  done : demands.Met → m.step.result = .ok .running ∧ Done m.step.machine

theorem StepsBy.of_plan {i : Instr} {demands : Demands} {R : Effect → Prop} {Done : Machine σ → Prop}
    (hm : m.halted = false) (hread : m.code.instrAt? m.position = .ok (some (i, next)))
    (hcall : ∀ name, i ≠ .capability name) (hplan : Decides demands R (m.plan i))
    (hdone : ∀ e, R e → e.halts = false ∧ Done (m.commit e next)) : m.StepsBy demands Done := by
  obtain ⟨hresult, hmachine⟩ := step_of_instrAt? hm hread
  have hrefused : ∀ fault, m.step.result = .error fault ↔ m.plan i = .error fault := by
    intro fault
    rw [hresult]
    cases hi : m.plan i with
    | error other => rw [execute_of_error hcall hi, Except.error.injEq, Except.error.injEq]
    | ok e =>
      rw [(execute_of_ok hcall hi).1]
      exact iff_of_false nofun nofun
  refine ⟨fun fault => (hrefused fault).trans hplan.error_iff, ?_, ?_⟩
  · intro fault hfault
    rw [hmachine, execute_of_error hcall ((hrefused fault).mp hfault)]
  · intro hmet
    obtain ⟨e, hi, he⟩ := hplan.exists_ok hmet
    obtain ⟨hhalts, hafter⟩ := hdone e he
    rw [hresult, hmachine, (execute_of_ok hcall hi).1, (execute_of_ok hcall hi).2, hhalts]
    exact ⟨rfl, hafter⟩

theorem loaded_commit (hm : m.halted = false) {p : Page} (hpage : m.memory.page? m.request.handle = some p) :
    m.Loaded mode next (m.commit { pops := 3, pushes := m.request.elements mode p } next) := by
  refine ⟨p, m.request.elements mode p, hpage, m.request.reads_elements mode p, ?_⟩
  have hstack : (m.stack.drop 3).add (m.request.elements mode p) =
      ⟨(m.stack.values.toList.take (m.stack.depth - 3) ++ (m.request.elements mode p).reverse).toArray,
        m.stack.capacity⟩ := by
    refine Stack.ext_values ?_ rfl
    rw [Stack.toList_add, Stack.toList_drop]
  rw [commit, hstack, hm]
  rfl

theorem stored_commit (hm : m.halted = false) (hformed : m.memory.WellFormed) {p : Page} {chunks : List (List UInt8)}
    (hpage : m.memory.page? m.request.handle = some p) (hfits : m.request.address + m.request.length ≤ 65536)
    (hchunks : List.Forall₂ mode.Spells (m.toStore mode) chunks) (hlength : chunks.flatten.length = m.request.length) :
    m.Stored mode next
      (m.commit
        { pops := 3 + m.request.count mode
          memory := some (.write m.request.handle m.request.address chunks.flatten) } next) := by
  have hstack : (m.stack.drop (3 + m.request.count mode)).add [] =
      ⟨(m.stack.values.toList.take (m.stack.depth - (3 + m.request.count mode))).toArray, m.stack.capacity⟩ := by
    refine Stack.ext_values ?_ rfl
    rw [Stack.add_nil, Stack.toList_drop]
  refine ⟨chunks, m.memory.overwrite m.request.handle m.request.address chunks.flatten, hchunks, hlength, ?_, ?_⟩
  · exact Memory.rewritten_overwrite hformed hpage (hlength ▸ hfits)
  · rw [commit, hstack, hm]
    rfl

end Machine

variable {m : Machine σ} {code : Code} {limits : Limits}

/-- A load or a store of a reachable machine is refused for the first of its demands that is not met, and done if all
are. Steps that are taken operation by operation come to the same. The stacks that are left out cannot be held. -/
theorem transfers_by_demands (mode : Mode) (next : Nat)
    (hreach : Reachable (Stack.KeptBy Stack.Bounded) code limits m) (hm : m.halted = false)
    (hword : m.stack.capacity < 2 ^ 64 - 1 ∨ m.stack.depth < 2 ^ 60) :
    (m.code.instrAt? m.position = .ok (some (.memLoad mode, next)) →
      m.StepsBy (m.loadDemands mode) (m.Loaded mode next)) ∧
    (m.code.instrAt? m.position = .ok (some (.memStore mode, next)) →
      m.StepsBy (m.storeDemands mode) (m.Stored mode next)) ∧
    m.stepInPlace = (m.step.result, m.step.machine) := by
  have hb : m.stack.Bounded := hreach.bounded fun _ hact => hact
  have hformed := Machine.wellFormed_of_reachable hreach
  refine ⟨fun hread => ?_, fun hread => ?_, Machine.stepInPlace_eq_step hb⟩
  · refine .of_plan hm hread (by simp) (Machine.decides_planLoad hformed hb hword mode) ?_
    rintro e ⟨p, hp, rfl⟩
    exact ⟨rfl, Machine.loaded_commit hm hp⟩
  · refine .of_plan hm hread (by simp) (Machine.decides_planStore hformed mode) ?_
    rintro e ⟨p, chunks, hp, hfits, hchunks, hlength, rfl⟩
    exact ⟨rfl, Machine.stored_commit hm hformed hp hfits hchunks hlength⟩

def overloading : Code :=
  .ofInstrs [.memPlz, .push (.ofNat 10), .push (.ofNat 20), .push (.ofNat 2), .push (.ofNat 5), .push (.ofNat 0),
    .memStore .byte, .push (.ofNat 2), .push (.ofNat 5), .push (.ofNat 0), .memLoad .byte,
    .push (.ofNat 9), .push (.ofNat 0), .push (.ofNat 0), .memLoad .byte]

theorem transfers_by_demands_overloading :
    let start : Machine Nat := .start overloading { stackCapacity := 6 }
    let store := (start.runFor 6).machine
    let load := (start.runFor 10).machine
    let more := (start.runFor 14).machine
    store.step.result = .ok .running ∧ store.Stored .byte 48 store.step.machine ∧
      load.step.result = .ok .running ∧ load.step.machine.stack.values.toList = [.zero, .ofNat 10, .ofNat 20] ∧
      load.step.machine.memory = load.memory ∧
      more.step.result = .error (.stackOverflow 6) ∧ more.step.machine = more := by
  intro start store load more
  have hstore : Reachable (Stack.KeptBy Stack.Bounded) overloading { stackCapacity := 6 } store := .runFor .start 6
  have hload : Reachable (Stack.KeptBy Stack.Bounded) overloading { stackCapacity := 6 } load := .runFor .start 10
  have hmore : Reachable (Stack.KeptBy Stack.Bounded) overloading { stackCapacity := 6 } more := .runFor .start 14
  obtain ⟨-, hstores, -⟩ := transfers_by_demands .byte 48 hstore (by decide +kernel) (.inl (by decide +kernel))
  obtain ⟨hloads, -, -⟩ := transfers_by_demands .byte 77 hload (by decide +kernel) (.inl (by decide +kernel))
  obtain ⟨hloadsMore, -, -⟩ := transfers_by_demands .byte 106 hmore (by decide +kernel) (.inl (by decide +kernel))
  have hvalues : store.toStore .byte = [.ofNat 20, .ofNat 10] := by decide +kernel
  have hdenotes : ∀ n ≤ 255, (Double.ofNat n).Denotes n := fun n hn => Double.denotes_ofNat (hn.trans (by decide))
  have hmet : (store.storeDemands .byte).Met := by
    rw [Machine.storeDemands, Demands.met_append, Machine.met_accessDemands_iff, Demands.met_cons, Demands.met_cons,
      hvalues]
    refine ⟨⟨by decide +kernel, by decide +kernel, nofun, by decide +kernel, by decide +kernel⟩, by decide +kernel, ?_,
      Demands.met_nil⟩
    simp only [List.forall_mem_cons]
    exact ⟨fun _ => ⟨20, by decide, hdenotes 20 (by decide)⟩, fun _ => ⟨10, by decide, hdenotes 10 (by decide)⟩, nofun⟩
  have hloadable : (load.loadDemands .byte).Met := by
    rw [Machine.loadDemands, Demands.met_append, Machine.met_accessDemands_iff, Demands.met_cons]
    exact ⟨⟨by decide +kernel, by decide +kernel, nofun, by decide +kernel, by decide +kernel⟩, by decide +kernel,
      Demands.met_nil⟩
  have hunmet : (more.loadDemands .byte).Unmet (.stackOverflow more.stack.capacity) := by
    refine .append_right (Machine.met_accessDemands_iff.mpr ?_) (.here (by decide +kernel))
    exact ⟨by decide +kernel, by decide +kernel, nofun, by decide +kernel, by decide +kernel⟩
  have hcapacity : more.stack.capacity = 6 := by decide +kernel
  have hfound : ∀ p, load.memory.page? load.request.handle = some p →
      load.request.elements .byte p = [.ofNat 20, .ofNat 10] := by decide +kernel
  have hbeneath : load.stack.values.toList.take (load.stack.depth - 3) = [.zero] := by decide +kernel
  obtain ⟨hresult, hafter⟩ := (hstores (by decide +kernel)).done hmet
  obtain ⟨hloaded, p, values, hpage, hreads, hmachine⟩ := (hloads (by decide +kernel)).done hloadable
  obtain rfl : values = [.ofNat 20, .ofNat 10] :=
    (hreads.unique (load.request.reads_elements .byte p)).trans (hfound p hpage)
  have hrefused := ((hloadsMore (by decide +kernel)).refused_iff _).mpr hunmet
  rw [hcapacity] at hrefused
  refine ⟨hresult, hafter, hloaded, ?_, ?_, hrefused, (hloadsMore (by decide +kernel)).unchanged _ hrefused⟩
  · rw [hmachine, hbeneath]
    rfl
  · rw [hmachine]

end StackMachine
