import StackMachine.Memory.Basic
import StackMachine.Stack

/-!
Capabilities: functions of the host that a program calls by name. A handler works on the operand stack, may
look at memory but not change it, and keeps a private state of type `σ` from call to call.
-/

set_option autoImplicit false

namespace StackMachine

structure Handler (σ : Type) where
  state : σ
  /-- The outcome of a call, the stack and the private state it leaves. -/
  act : σ → Stack → Memory → Except Fault Unit × Stack × σ

structure CapabilityTable (σ : Type) where
  entries : List (String × Handler σ) := []

namespace CapabilityTable

variable {σ : Type}

def empty : CapabilityTable σ := ⟨[]⟩

def find? (t : CapabilityTable σ) (name : String) : Option (Handler σ) :=
  (t.entries.find? (·.1 == name)).map (·.2)

def contains (t : CapabilityTable σ) (name : String) : Bool := (t.find? name).isSome

def names (t : CapabilityTable σ) : List String := t.entries.map (·.1)

/-- Puts a handler under a name, in place of the one that was there. -/
def register (t : CapabilityTable σ) (name : String) (handler : Handler σ) : CapabilityTable σ :=
  ⟨t.entries.filter (·.1 != name) ++ [(name, handler)]⟩

def setState (t : CapabilityTable σ) (name : String) (state : σ) : CapabilityTable σ :=
  ⟨t.entries.map fun entry => if entry.1 = name then (entry.1, { entry.2 with state }) else entry⟩

def describe (t : CapabilityTable σ) : String :=
  let sorted := t.names.mergeSort fun a b => !decide (b < a)
  "CapabilityTable \x7b names: " ++ Text.bracketed (sorted.map Text.quoted) ++ " \x7d"

theorem find?_register (t : CapabilityTable σ) (name other : String) (handler : Handler σ) :
    (t.register name handler).find? other = if other = name then some handler else t.find? other := by
  have kept : (t.entries.filter (·.1 != name)).find? (·.1 == other) =
      if other = name then none else t.entries.find? (·.1 == other) := by
    induction t.entries with
    | nil => simp
    | cons entry rest ih => grind
  simp only [find?, register, List.find?_append, kept]
  split
  · simp_all
  · have : (name == other) = false := by grind
    simp [this]

end CapabilityTable

end StackMachine
