import StackMachine.Proofs.Memory.Calls

/-!
The arena that a memory is. `Memory.WellFormed` relates the counter of live pages to the slots, the pages to the slots
that they lie in, and the counter to the limit. It holds of an empty memory and is kept by every call; the counter
alone decides whether a page can be allocated, and it is right because of this.
-/

set_option autoImplicit false

namespace StackMachine

namespace Page

variable {p : Page} {address : Nat} {bytes : List UInt8}

theorem size_bytes_eq_iff : p.bytes.size = size ↔ p.held.size ≤ size := by
  rw [Page.bytes, Array.size_rightpad]
  exact max_eq_left_iff

theorem getElem?_bytes (h : address < size) : p.bytes[address]? = some (p.byte address) := by
  rw [Page.bytes, Array.rightpad, byte, Array.getD_eq_getD_getElem?, Array.getElem?_append]
  by_cases hheld : address < p.held.size
  · rw [if_pos hheld, Array.getElem?_eq_getElem hheld]
    rfl
  · rw [if_neg hheld, Array.getElem?_eq_none (not_lt.mp hheld), Array.getElem?_replicate, if_pos (by omega)]
    rfl

theorem size_overwrite (held : Array UInt8) (address : Nat) (bytes : List UInt8) (h : address ≤ held.size) :
    (overwrite held address bytes).size = max held.size (address + bytes.length) := by
  induction bytes generalizing held address with
  | nil => simp [overwrite, h]
  | cons b rest ih =>
    rw [overwrite, ih _ _ (by split <;> simp <;> omega)]
    split
    case isTrue hlt =>
      rw [Array.size_set, List.length_cons]
      omega
    case isFalse hge =>
      rw [Array.size_push, List.length_cons]
      omega

@[simp] theorem handle_write (p : Page) (address : Nat) (bytes : List UInt8) :
    (p.write address bytes).handle = p.handle := by
  cases bytes <;> rfl

theorem size_bytes_write (hp : p.bytes.size = size) (hfits : address + bytes.length ≤ size) :
    (p.write address bytes).bytes.size = size := by
  rw [size_bytes_eq_iff] at hp ⊢
  cases bytes with
  | nil => exact hp
  | cons b rest =>
    have hpad : (p.held.rightpad address 0).size = max address p.held.size := Array.size_rightpad
    have hwrite := size_overwrite (p.held.rightpad address 0) address (b :: rest) (by omega)
    simp only [write, hwrite]
    omega

end Page

namespace Memory

variable {m : Memory} {handle i : Nat} {p : Page}

structure WellFormed (m : Memory) : Prop where
  live_eq : m.live = m.slots.countP Option.isSome
  handle_eq : ∀ i p, m.page? i = some p → p.handle = i
  size_bytes : ∀ i p, m.page? i = some p → p.bytes.size = Page.size
  live_le : ∀ limit, m.limit = some limit → m.live ≤ limit

theorem wellFormed_empty (limit : Option Nat) : (empty limit).WellFormed where
  live_eq := rfl
  handle_eq _ _ h := nomatch h
  size_bytes _ _ h := nomatch h
  live_le _ _ := Nat.zero_le _

/-- Another page in a slot leaves the number of pages, an empty slot lessens it by one. -/
theorem countP_setIfInBounds (h : m.page? handle = some p) (slot : Option Page) :
    (m.slots.setIfInBounds handle slot).countP Option.isSome + 1 =
      m.slots.countP Option.isSome + if slot.isSome then 1 else 0 := by
  obtain ⟨hlt, hslot⟩ := Array.getElem?_eq_some_iff.mp (page?_eq_some_iff.mp h)
  have hpos : 0 < m.slots.countP Option.isSome :=
    Array.countP_pos_iff.mpr ⟨some p, hslot ▸ Array.getElem_mem hlt, rfl⟩
  rw [Array.setIfInBounds, dif_pos hlt, Array.countP_set, hslot]
  simp only [Option.isSome_some, if_true]
  omega

theorem requireAllocatable_eq_error_iff {fault : Fault} :
    m.requireAllocatable = .error fault ↔
      ∃ limit, m.limit = some limit ∧ limit ≤ m.live ∧ fault = .pageLimit limit := by
  rw [requireAllocatable]
  cases m.limit with
  | none => exact iff_of_false nofun nofun
  | some limit =>
    by_cases hfull : limit ≤ m.live
    · simp [hfull, eq_comm]
    · simp [hfull]

theorem lt_of_requireAllocatable (h : m.requireAllocatable = .ok ()) {limit : Nat} (hlimit : m.limit = some limit) :
    m.live < limit := by
  by_contra hfull
  rw [requireAllocatable_eq_error_iff.mpr ⟨limit, hlimit, not_lt.mp hfull, rfl⟩] at h
  cases h

namespace WellFormed

theorem live_pos (h : m.WellFormed) (hpage : m.page? handle = some p) : 0 < m.live := by
  have hcount := countP_setIfInBounds hpage none
  rw [← h.live_eq] at hcount
  simp only [Option.isSome_none, Bool.false_eq_true, if_false] at hcount
  omega

theorem grow (h : m.WellFormed) (hroom : m.requireAllocatable = .ok ()) : m.grow.WellFormed := by
  have hgrown : ∀ i q, m.grow.page? i = some q → q = Page.blank i ∨ m.page? i = some q := by
    intro i q hq
    rw [page?_grow] at hq
    split at hq
    · exact Or.inl (Option.some.inj hq).symm
    · exact Or.inr hq
  constructor
  · change m.live + 1 = (m.slots.push _).countP Option.isSome
    rw [Array.countP_push, ← h.live_eq]
    rfl
  · intro i q hq
    rcases hgrown i q hq with rfl | hq
    · rfl
    · exact h.handle_eq i q hq
  · intro i q hq
    rcases hgrown i q hq with rfl | hq
    · exact Page.size_bytes_eq_iff.mpr (Nat.zero_le _)
    · exact h.size_bytes i q hq
  · exact fun limit hlimit => lt_of_requireAllocatable hroom hlimit

theorem live_free (h : m.WellFormed) (hpage : m.page? handle = some p) : (m.free handle).live + 1 = m.live := by
  have hpos := h.live_pos hpage
  have hlive : m.exists? handle = true := by rw [exists?, hpage, Option.isSome_some]
  rw [Memory.free, if_pos hlive]
  exact Nat.sub_add_cancel hpos

theorem free (h : m.WellFormed) (handle : Nat) : (m.free handle).WellFormed := by
  cases hpage : m.page? handle with
  | none =>
    rw [free_of_dead hpage]
    exact h
  | some p =>
    have hlive := h.live_free hpage
    have hslots : (m.free handle).slots = m.slots.setIfInBounds handle none := by
      rw [Memory.free, exists?, hpage, Option.isSome_some, if_pos rfl]
    have hlimit : (m.free handle).limit = m.limit := by
      rw [Memory.free]
      split <;> rfl
    have hkept : ∀ i q, (m.free handle).page? i = some q → m.page? i = some q := by
      intro i q hq
      rw [page?_free] at hq
      split at hq
      · cases hq
      · exact hq
    constructor
    · have hcount := countP_setIfInBounds hpage none
      rw [← hslots, ← h.live_eq] at hcount
      simp only [Option.isSome_none, Bool.false_eq_true, if_false] at hcount
      omega
    · exact fun i q hq => h.handle_eq i q (hkept i q hq)
    · exact fun i q hq => h.size_bytes i q (hkept i q hq)
    · intro limit hl
      have := h.live_le limit (hlimit ▸ hl)
      omega

theorem overwrite (h : m.WellFormed) (hpage : m.page? handle = some p) {address : Nat} {bytes : List UInt8}
    (hfits : address + bytes.length ≤ Page.size) : (m.overwrite handle address bytes).WellFormed := by
  have hwritten : ∀ i q, (m.overwrite handle address bytes).page? i = some q →
      m.page? i = some q ∨ ∃ old, m.page? i = some old ∧ q = old.write address bytes := by
    intro i q hq
    rw [page?_overwrite] at hq
    split at hq
    · obtain ⟨old, hold, rfl⟩ := Option.map_eq_some_iff.mp hq
      exact Or.inr ⟨old, hold, rfl⟩
    · exact Or.inl hq
  constructor
  · have hcount := countP_setIfInBounds hpage (some (p.write address bytes))
    rw [overwrite_of_page? hpage]
    change m.live = (m.slots.setIfInBounds _ _).countP _
    rw [← h.live_eq, Option.isSome_some, if_pos rfl] at hcount
    omega
  · intro i q hq
    rcases hwritten i q hq with hq | ⟨old, hold, rfl⟩
    · exact h.handle_eq i q hq
    · rw [Page.handle_write]
      exact h.handle_eq i old hold
  · intro i q hq
    rcases hwritten i q hq with hq | ⟨old, hold, rfl⟩
    · exact h.size_bytes i q hq
    · exact Page.size_bytes_write (h.size_bytes i old hold) hfits
  · exact h.live_le

theorem apply (h : m.WellFormed) (call : Call) : (call.apply m).WellFormed := by
  have houtcome := call.outcome m
  generalize call.answer m = answer, call.apply m = next at houtcome
  cases houtcome with
  | refused => exact h
  | allocated hroom => exact h.grow hroom
  | freed handle => exact h.free handle
  | written _ hpage hfits => exact h.overwrite hpage hfits

theorem after (h : m.WellFormed) (calls : List Call) : (m.after calls).WellFormed :=
  after_keeps (fun _ call hm => hm.apply call) h calls

end WellFormed

theorem limit_apply (m : Memory) (call : Call) : (call.apply m).limit = m.limit := by
  have houtcome := call.outcome m
  generalize call.answer m = answer, call.apply m = next at houtcome
  cases houtcome with
  | freed handle =>
    rw [free]
    split <;> rfl
  | _ => rfl

theorem limit_after (m : Memory) (calls : List Call) : (m.after calls).limit = m.limit :=
  after_keeps (I := fun n => n.limit = m.limit) (fun n call hn => (limit_apply n call).trans hn) rfl calls

namespace WellFormed

theorem length_handles (h : m.WellFormed) : m.handles.length = m.live := by
  rw [handles, List.length_map, pages, List.length_filterMap_eq_countP, Array.countP_toList]
  exact h.live_eq.symm

theorem mem_handles_iff (h : m.WellFormed) : handle ∈ m.handles ↔ m.exists? handle := by
  have hpages : ∀ p, p ∈ m.pages ↔ ∃ i, m.page? i = some p := by
    intro p
    rw [pages, List.mem_filterMap]
    simp only [id_eq, exists_eq_right, page?_eq_some_iff, ← Array.getElem?_toList]
    exact List.mem_iff_getElem?
  rw [exists?, Option.isSome_iff_exists, handles, List.mem_map]
  constructor
  · rintro ⟨p, hp, rfl⟩
    obtain ⟨i, hi⟩ := (hpages p).mp hp
    rw [h.handle_eq i p hi]
    exact ⟨p, hi⟩
  · rintro ⟨p, hp⟩
    exact ⟨p, (hpages p).mpr ⟨handle, hp⟩, h.handle_eq handle p hp⟩

/-- Pages lie in the slots of their handles, so the order of the slots is that of the handles. -/
theorem pairwise_handles (h : m.WellFormed) : m.handles.Pairwise (· < ·) := by
  rw [handles, List.pairwise_map, pages, List.pairwise_filterMap, List.pairwise_iff_getElem]
  intro i j hi hj hlt p hp q hq
  have hpage : ∀ k r (hk : k < m.slots.toList.length), m.slots.toList[k] = some r → r.handle = k := by
    intro k r hk hr
    refine h.handle_eq k r (page?_eq_some_iff.mpr ?_)
    rw [← Array.getElem?_toList, List.getElem?_eq_getElem hk, hr]
  rw [hpage i p hi hp, hpage j q hj hq]
  exact hlt

theorem allocate_eq_error_iff (h : m.WellFormed) {fault : Fault} :
    m.allocate = .error fault ↔
      ∃ limit, m.limit = some limit ∧ m.handles.length = limit ∧ fault = .pageLimit limit := by
  have hrefused : m.allocate = .error fault ↔ m.requireAllocatable = .error fault := by
    rw [allocate_eq]
    cases m.requireAllocatable <;> simp [Except.map]
  rw [hrefused, requireAllocatable_eq_error_iff, h.length_handles]
  constructor
  · rintro ⟨limit, hlimit, hfull, rfl⟩
    exact ⟨limit, hlimit, (h.live_le limit hlimit).antisymm hfull, rfl⟩
  · rintro ⟨limit, hlimit, hfull, rfl⟩
    exact ⟨limit, hlimit, hfull.ge, rfl⟩

theorem allocate_free (h : m.WellFormed) (hpage : m.page? handle = some p) :
    (m.free handle).allocate = .ok (m.nextHandle, (m.free handle).grow) := by
  have hroom : (m.free handle).requireAllocatable = .ok () := by
    cases hrefused : (m.free handle).requireAllocatable with
    | ok => rfl
    | error fault =>
      obtain ⟨limit, hlimit, hfull, -⟩ := requireAllocatable_eq_error_iff.mp hrefused
      have hle := h.live_le limit ((limit_apply m (.free handle)).symm.trans hlimit)
      have hlive := h.live_free hpage
      omega
  rw [allocate_eq, hroom, nextHandle_free]
  rfl

end WellFormed

end Memory

end StackMachine
