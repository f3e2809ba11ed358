import StackMachine.Double.Basic
import StackMachine.Fault
import StackMachine.Memory.Page

/-!
Memory: an arena of pages. A handle is the number of pages allocated before it, so handles are never used
again; a page that is freed leaves its slot empty for good.
-/

set_option autoImplicit false

namespace StackMachine

structure Memory where
  slots : Array (Option Page) := #[]
  /-- The number of pages in the slots. -/
  live : Nat := 0
  limit : Option Nat := none
  deriving DecidableEq, Repr

namespace Memory

def empty (limit : Option Nat) : Memory := ⟨#[], 0, limit⟩

def page? (m : Memory) (handle : Nat) : Option Page := m.slots[handle]?.join

def exists? (m : Memory) (handle : Nat) : Bool := (m.page? handle).isSome

def pages (m : Memory) : List Page := m.slots.toList.filterMap id

def handles (m : Memory) : List Nat := m.pages.map Page.handle

def requireAllocatable (m : Memory) : Except Fault Unit :=
  match m.limit with
  | some limit => if limit ≤ m.live then .error (.pageLimit limit) else .ok ()
  | none => .ok ()

def nextHandle (m : Memory) : Nat := m.slots.size

def grow (m : Memory) : Memory :=
  { m with slots := m.slots.push (some (Page.blank m.nextHandle)), live := m.live + 1 }

def allocate (m : Memory) : Except Fault (Nat × Memory) := do
  m.requireAllocatable
  return (m.nextHandle, m.grow)

/-- Gives a page back; a handle that is not live is left alone. -/
def free (m : Memory) (handle : Nat) : Memory :=
  if m.exists? handle then
    { m with slots := m.slots.setIfInBounds handle none, live := m.live - 1 }
  else m

def get (m : Memory) (handle : Nat) : Except Fault Page :=
  match m.page? handle with
  | some p => .ok p
  | none => .error (.pageNotFound handle)

def requireRange (m : Memory) (handle address length : Nat) : Except Fault Page := do
  let p ← m.get handle
  p.requireRange address length
  return p

def read (m : Memory) (handle address length : Nat) : Except Fault (List UInt8) := do
  return (← m.requireRange handle address length).read address length

def readDouble (m : Memory) (handle address : Nat) : Except Fault Double := do
  return Double.ofBytes (← m.read handle address 8)

def overwrite (m : Memory) (handle address : Nat) (bytes : List UInt8) : Memory :=
  { m with slots := m.slots.modify handle (Option.map (·.write address bytes)) }

/-- A live page to be changed, and the memory with another page in its slot. -/
def focus (m : Memory) (handle : Nat) : Except Fault (Page × (Page → Memory)) :=
  match m.slots[handle]? with
  | some (some p) => .ok (p, fun q => { m with slots := m.slots.setIfInBounds handle (some q) })
  | _ => .error (.pageNotFound handle)

def write (m : Memory) (handle address : Nat) (bytes : List UInt8) : Except Fault Memory := do
  let (p, replace) ← m.focus handle
  return replace (← p.store address bytes)

def writeDouble (m : Memory) (handle address : Nat) (x : Double) : Except Fault Memory :=
  m.write handle address x.toBytes

def describePage (handle : Nat) : String :=
  "Page \x7b handle: " ++ handle.repr ++ ", len: " ++ Page.size.repr ++ " \x7d"

theorem page?_grow (m : Memory) (handle : Nat) :
    m.grow.page? handle = if handle = m.nextHandle then some (Page.blank handle) else m.page? handle := by
  by_cases next : handle = m.nextHandle
  · rw [if_pos next, next]
    simp [page?, grow, nextHandle]
  · have ne : handle ≠ m.slots.size := next
    rw [if_neg next]
    simp [page?, grow, Array.getElem?_push, ne]

theorem page?_free (m : Memory) (freed handle : Nat) :
    (m.free freed).page? handle = if handle = freed then none else m.page? handle := by
  by_cases live : m.exists? freed = true
  · simp only [free, live, if_true, page?, Array.getElem?_setIfInBounds]
    grind
  · rw [free, if_neg live]
    split
    · subst handle
      simpa [exists?] using live
    · rfl

theorem page?_overwrite (m : Memory) (written address : Nat) (bytes : List UInt8) (handle : Nat) :
    (m.overwrite written address bytes).page? handle =
      if handle = written then (m.page? handle).map (·.write address bytes) else m.page? handle := by
  simp only [page?, overwrite, Array.getElem?_modify]
  split
  · subst handle
    cases m.slots[written]? with
    | none => simp
    | some slot => cases slot <;> simp
  · grind

/-- The page that is changed is the one that is read. -/
theorem focus_eq (m : Memory) (handle : Nat) :
    m.focus handle =
      (m.get handle).map fun p =>
        (p, fun q => { m with slots := m.slots.setIfInBounds handle (some q) }) := by
  rw [focus, get, page?]
  cases m.slots[handle]? with
  | none => rfl
  | some slot => cases slot <;> rfl

theorem overwrite_of_page? {m : Memory} {handle : Nat} {p : Page} (h : m.page? handle = some p)
    (address : Nat) (bytes : List UInt8) :
    m.overwrite handle address bytes =
      { m with slots := m.slots.setIfInBounds handle (some (p.write address bytes)) } := by
  have slots : m.slots.modify handle (Option.map (·.write address bytes)) =
      m.slots.setIfInBounds handle (some (p.write address bytes)) := by
    apply Array.ext_getElem?
    intro i
    rw [page?, Option.join_eq_some_iff] at h
    rw [Array.getElem?_modify, Array.getElem?_setIfInBounds]
    split
    · subst i
      rw [h, if_pos (Array.getElem?_eq_some_iff.mp h).1]
      rfl
    · rfl
  rw [overwrite, slots]

theorem write_eq (m : Memory) (handle address : Nat) (bytes : List UInt8) :
    m.write handle address bytes =
      (m.requireRange handle address bytes.length).map fun _ => m.overwrite handle address bytes := by
  simp only [write, requireRange, focus_eq, get]
  cases found : m.page? handle with
  | none => rfl
  | some p =>
    simp only [Except.map, bind, Except.bind, Page.store, overwrite_of_page? found]
    cases p.requireRange address bytes.length <;> rfl

end Memory

end StackMachine
