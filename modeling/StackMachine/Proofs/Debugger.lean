import StackMachine.Debugger
import StackMachine.Proofs.Machine.Running

/-!
The debugger is transparent: whatever is typed, the machine goes where plain steps take it. `step` is a run with a
budget, going on to a breakpoint takes the least number of steps that ends at one, and no other command touches the
machine. Lines are taken by their words: `Command.Spelled` tells which lines are commands that do anything.
-/

set_option autoImplicit false

namespace StackMachine

open StackMachine.Text

variable {σ : Type} {m : Machine σ} {d : Debugger} {stops : Nat → Bool} {n k : Nat}

namespace Command

def wordsOf (line : String) : List String := (words line.toList).map String.ofList

inductive Spelled : List String → Command → Prop
  | step {word : String} (hword : word ∈ ["s", "step"]) : Spelled [word] (.step 1)
  | steps {word operand : String} {rest : List String} {count : Nat} (hword : word ∈ ["s", "step"])
      (hcount : readWord operand = .ok count) : Spelled (word :: operand :: rest) (.step count)
  | resume {word : String} {rest : List String} (hword : word ∈ ["c", "continue"]) : Spelled (word :: rest) .resume
  | setBreak {word operand : String} {rest : List String} {offset : Nat} (hword : word ∈ ["b", "break"])
      (hoffset : readWord operand = .ok offset) : Spelled (word :: operand :: rest) (.setBreak offset)
  | clearBreak {word operand : String} {rest : List String} {offset : Nat} (hword : word = "clear")
      (hoffset : readWord operand = .ok offset) : Spelled (word :: operand :: rest) (.clearBreak offset)

def Idle : Command → Prop
  | .step _ | .resume | .setBreak _ | .clearBreak _ => False
  | _ => True

theorem withOffset_cases (usage : String) (command : Nat → Command) (operands : List String) :
    (∃ operand rest offset, operands = operand :: rest ∧ readWord operand = .ok offset ∧
      withOffset usage command operands = command offset) ∨
    withOffset usage command operands = .misused usage := by
  cases operands with
  | nil => exact Or.inr rfl
  | cons operand rest =>
    cases hread : readWord operand with
    | ok offset => exact Or.inl ⟨operand, rest, offset, rfl, hread, by simp [withOffset, hread]⟩
    | error fault => exact Or.inr (by simp [withOffset, hread])

theorem ofLine_cases (line : String) : Spelled (wordsOf line) (ofLine line) ∨ (ofLine line).Idle := by
  rw [ofLine, wordsOf]
  generalize (words line.toList).map String.ofList = found
  rcases found with _ | ⟨word, operands⟩
  · exact Or.inr trivial
  · simp only
    split
    case h_3 | h_4 =>
      rcases operands with _ | ⟨operand, rest⟩
      · exact Or.inl (.step (by simp))
      · simp only [List.head?_cons, Option.map_some]
        cases hread : readWord operand with
        | ok count => exact Or.inl (.steps (by simp) hread)
        | error fault => exact Or.inr trivial
    case h_5 | h_6 => exact Or.inl (.resume (by simp))
    case h_7 | h_8 =>
      rcases withOffset_cases "usage: break <offset>" .setBreak operands with
        ⟨operand, rest, offset, rfl, hread, h⟩ | h
      · rw [h]
        exact Or.inl (.setBreak (by simp) hread)
      · rw [h]
        exact Or.inr trivial
    case h_9 =>
      rcases withOffset_cases "usage: clear <offset>" .clearBreak operands with
        ⟨operand, rest, offset, rfl, hread, h⟩ | h
      · rw [h]
        exact Or.inl (.clearBreak rfl hread)
      · rw [h]
        exact Or.inr trivial
    all_goals exact Or.inr trivial

theorem Spelled.ofLine_eq {line : String} {c : Command} (h : Spelled (wordsOf line) c) : ofLine line = c := by
  rw [wordsOf] at h
  rw [ofLine]
  generalize (words line.toList).map String.ofList = found at h
  cases h with
  | step hword =>
    rcases List.mem_pair.mp hword with rfl | rfl <;> rfl
  | steps hword hcount =>
    rcases List.mem_pair.mp hword with rfl | rfl <;> simp [hcount]
  | resume hword =>
    rcases List.mem_pair.mp hword with rfl | rfl <;> rfl
  | setBreak hword hoffset =>
    rcases List.mem_pair.mp hword with rfl | rfl <;> simp [withOffset, hoffset]
  | clearBreak hword hoffset =>
    subst hword
    simp [withOffset, hoffset]

theorem spelled_of_ofLine {line : String} {c : Command} (h : ofLine line = c) (hc : ¬ c.Idle) :
    Spelled (wordsOf line) c := by
  subst h
  rcases ofLine_cases line with hspelled | hidle
  · exact hspelled
  · exact absurd hidle hc

end Command

theorem Machine.stepped_stepped (m : Machine σ) (n k : Nat) : (m.stepped n).stepped k = m.stepped (n + k) := by
  rw [Nat.add_comm]
  exact (Function.iterate_add_apply _ k n m).symm

namespace Debugger

/-- The next step is the last one: it halts or fails, or it ends where the machine is to stop. -/
def Stops (stops : Nat → Bool) (m : Machine σ) : Prop :=
  m.step.result ≠ .ok .running ∨ stops m.step.machine.position = true

instance (stops : Nat → Bool) (m : Machine σ) : Decidable (Stops stops m) := inferInstanceAs (Decidable (_ ∨ _))

theorem advance_of_stops (h : Stops stops m) (told : List Event) (n : Nat) :
    (advance stops told (n + 1) m).machine = m.step.machine ∧ (advance stops told (n + 1) m).output ≠ "" := by
  rw [advance]
  rcases hstep : m.step with ⟨fault | _ | _, after, events⟩
  · simp
  · rw [Stops, hstep] at h
    rcases h with h | h
    · exact absurd rfl h
    · simp [h]
  · simp

theorem advance_of_not_stops (h : ¬ Stops stops m) (told : List Event) (n : Nat) :
    ∃ more, advance stops told (n + 1) m = advance stops more n m.step.machine := by
  rw [Stops, not_or, not_not] at h
  obtain ⟨hrunning, hposition⟩ := h
  rcases hstep : m.step with ⟨result, after, events⟩
  rw [hstep] at hrunning hposition
  subst hrunning
  refine ⟨events.reverse ++ told, ?_⟩
  rw [advance, hstep]
  simp only [if_neg hposition]

theorem advance_of_first {told : List Event} (hbefore : ∀ j < k, ¬ Stops stops (m.stepped j))
    (hlast : Stops stops (m.stepped k)) (hbudget : k < n) :
    (advance stops told n m).machine = m.stepped (k + 1) ∧ (advance stops told n m).output ≠ "" := by
  obtain ⟨n, rfl⟩ := Nat.exists_eq_succ_of_ne_zero (Nat.ne_zero_of_lt hbudget)
  induction k generalizing m n told with
  | zero => exact advance_of_stops hlast told n
  | succ k ih =>
    have hfirst : ¬ Stops stops m := hbefore 0 k.succ_pos
    obtain ⟨more, hmore⟩ := advance_of_not_stops hfirst told n
    obtain ⟨n, rfl⟩ := Nat.exists_eq_succ_of_ne_zero (Nat.ne_zero_of_lt (Nat.lt_of_succ_lt_succ hbudget))
    rw [hmore]
    exact ih (fun j hj => hbefore (j + 1) (Nat.succ_lt_succ hj)) hlast n (Nat.lt_of_succ_lt_succ hbudget)

theorem advance_of_none {told : List Event} (h : ∀ j < n, ¬ Stops stops (m.stepped j)) :
    (advance stops told n m).machine = m.stepped n ∧ (advance stops told n m).output = "" := by
  induction n generalizing m told with
  | zero => exact ⟨rfl, rfl⟩
  | succ n ih =>
    have hfirst : ¬ Stops stops m := h 0 n.succ_pos
    obtain ⟨more, hmore⟩ := advance_of_not_stops hfirst told n
    rw [hmore]
    exact ih fun j hj => h (j + 1) (Nat.succ_lt_succ hj)

/-- The number of steps until the machine is to stop: the last of them is the first that halts, fails or ends at a
breakpoint. -/
def Reaches (stops : Nat → Bool) (m : Machine σ) (k : Nat) : Prop :=
  IsLeast {k | 1 ≤ k ∧ Stops stops (m.stepped (k - 1))} k

theorem reaches_succ_iff :
    Reaches stops m (k + 1) ↔ (∀ j < k, ¬ Stops stops (m.stepped j)) ∧ Stops stops (m.stepped k) := by
  constructor
  · rintro ⟨⟨-, hlast⟩, hleast⟩
    refine ⟨?_, hlast⟩
    intro j hj hstop
    have hle := hleast (a := j + 1) ⟨Nat.le_add_left 1 j, hstop⟩
    omega
  · rintro ⟨hbefore, hlast⟩
    refine ⟨⟨Nat.le_add_left 1 k, hlast⟩, ?_⟩
    rintro j ⟨hpos, hstop⟩
    by_contra hlt
    exact hbefore (j - 1) (by omega) hstop

theorem exists_reaches_iff : (∃ k ≤ n, Reaches stops m k) ↔ ∃ j < n, Stops stops (m.stepped j) := by
  constructor
  · rintro ⟨k, hle, ⟨hpos, hstop⟩, -⟩
    exact ⟨k - 1, by omega, hstop⟩
  · rintro ⟨j, hlt, hstop⟩
    have hfound : ∃ k, 1 ≤ k ∧ Stops stops (m.stepped (k - 1)) := ⟨j + 1, Nat.le_add_left 1 j, hstop⟩
    refine ⟨Nat.find hfound, ?_, Nat.find_spec hfound, fun i hi => Nat.find_min' hfound hi⟩
    exact (Nat.find_min' hfound ⟨Nat.le_add_left 1 j, hstop⟩).trans hlt

theorem Reaches.advance_eq (h : Reaches stops m k) (hbudget : k ≤ n) (told : List Event) :
    (advance stops told n m).machine = m.stepped k ∧ (advance stops told n m).output ≠ "" := by
  obtain ⟨k, rfl⟩ := Nat.exists_eq_add_of_le' h.1.1
  obtain ⟨hbefore, hlast⟩ := reaches_succ_iff.mp h
  exact advance_of_first hbefore hlast hbudget

theorem advance_output_eq_empty (h : ¬ ∃ k ≤ n, Reaches stops m k) (told : List Event) :
    (advance stops told n m).machine = m.stepped n ∧ (advance stops told n m).output = "" := by
  rw [exists_reaches_iff] at h
  push Not at h
  exact advance_of_none h

theorem exists_stepped_advance (stops : Nat → Bool) (told : List Event) (n : Nat) (m : Machine σ) :
    ∃ k, (advance stops told n m).machine = m.stepped k := by
  by_cases h : ∃ k ≤ n, Reaches stops m k
  · obtain ⟨k, hle, hreaches⟩ := h
    exact ⟨k, (hreaches.advance_eq hle told).1⟩
  · exact ⟨n, (advance_output_eq_empty h told).1⟩

/-- Without a place to stop at, the machine is run. -/
theorem advance_nowhere (told heard : List Event) (n : Nat) (m : Machine σ) :
    (advance (fun _ => false) told n m).machine = (m.runFrom heard n).machine := by
  induction n generalizing m told heard with
  | zero => rfl
  | succ n ih =>
    rw [advance, Machine.runFrom]
    rcases m.step with ⟨fault | _ | _, after, events⟩
    · rfl
    · exact ih _ _ after
    · rfl

theorem resume_of_no_breakpoints (h : d.breakpoints = []) (m : Machine σ) :
    (d.resume m).machine = m.run.machine := by
  have hnone : d.isBreakpoint = fun _ => false := by
    funext offset
    rw [isBreakpoint, h]
    rfl
  rw [resume, hnone]
  exact advance_nowhere [] [] Machine.boundless m

theorem isBreakpoint_addBreakpoint (d : Debugger) (offset x : Nat) :
    (d.addBreakpoint offset).isBreakpoint x ↔ x = offset ∨ d.isBreakpoint x := by
  rw [addBreakpoint]
  by_cases hset : d.isBreakpoint offset
  · rw [if_pos hset]
    constructor
    · exact Or.inr
    · rintro (rfl | hx)
      · exact hset
      · exact hx
  · rw [if_neg hset]
    simp only [isBreakpoint, List.contains_iff_mem] at hset ⊢
    simp only [List.mem_append, List.mem_cons, List.mem_filter, decide_eq_true_eq]
    constructor
    · rintro (⟨hx, -⟩ | rfl | ⟨hx, -⟩)
      · exact Or.inr hx
      · exact Or.inl rfl
      · exact Or.inr hx
    · rintro (rfl | hx)
      · exact Or.inr (Or.inl rfl)
      · rcases Nat.lt_trichotomy x offset with hlt | rfl | hgt
        · exact Or.inl ⟨hx, hlt⟩
        · exact absurd hx hset
        · exact Or.inr (Or.inr ⟨hx, hgt⟩)

theorem isBreakpoint_removeBreakpoint (d : Debugger) (offset x : Nat) :
    (d.removeBreakpoint offset).isBreakpoint x ↔ x ≠ offset ∧ d.isBreakpoint x := by
  simp only [isBreakpoint, removeBreakpoint, List.contains_iff_mem, List.mem_filter, decide_eq_true_eq]
  exact and_comm

theorem perform_idle {c : Command} (hstep : ∀ count, c ≠ .step count) (hresume : c ≠ .resume) (d : Debugger)
    (m : Machine σ) : (d.perform m c).2.machine = m := by
  cases c with
  | step count => exact absurd rfl (hstep count)
  | resume => exact absurd rfl hresume
  | _ => rfl

theorem perform_breakpoints {c : Command} (hset : ∀ offset, c ≠ .setBreak offset)
    (hclear : ∀ offset, c ≠ .clearBreak offset) (d : Debugger) (m : Machine σ) : (d.perform m c).1 = d := by
  cases c with
  | setBreak offset => exact absurd rfl (hset offset)
  | clearBreak offset => exact absurd rfl (hclear offset)
  | _ => rfl

theorem perform_step (d : Debugger) (m : Machine σ) (count : Nat) :
    (d.perform m (.step count)).2.machine = (m.runFor count).machine :=
  advance_nowhere [] [] count m

theorem exists_stepped_perform (d : Debugger) (m : Machine σ) (c : Command) :
    ∃ k, (d.perform m c).2.machine = m.stepped k := by
  cases c with
  | step count => exact exists_stepped_advance _ [] count m
  | resume => exact exists_stepped_advance _ [] Machine.boundless m
  | _ => exact ⟨0, rfl⟩

inductive Input where
  | line (text : String)
  | resume
  | addBreakpoint (offset : Nat)
  | removeBreakpoint (offset : Nat)
  deriving DecidableEq, Repr

def Input.apply (session : Debugger × Machine σ) : Input → Debugger × Machine σ
  | .line text =>
    let answer := session.1.perform session.2 (.ofLine text)
    (answer.1, answer.2.machine)
  | .resume => (session.1, (session.1.resume session.2).machine)
  | .addBreakpoint offset => (session.1.addBreakpoint offset, session.2)
  | .removeBreakpoint offset => (session.1.removeBreakpoint offset, session.2)

def after (d : Debugger) (m : Machine σ) (inputs : List Input) : Debugger × Machine σ :=
  inputs.foldl Input.apply (d, m)

theorem exists_stepped_apply (session : Debugger × Machine σ) (input : Input) :
    ∃ k, (input.apply session).2 = session.2.stepped k := by
  cases input with
  | line text => exact exists_stepped_perform session.1 session.2 (.ofLine text)
  | resume => exact exists_stepped_advance _ [] Machine.boundless session.2
  | _ => exact ⟨0, rfl⟩

theorem exists_stepped_after (d : Debugger) (m : Machine σ) (inputs : List Input) :
    ∃ k, (d.after m inputs).2 = m.stepped k := by
  rw [after]
  generalize hsession : (d, m) = session
  obtain rfl : m = session.2 := by rw [← hsession]
  clear hsession
  induction inputs generalizing session with
  | nil => exact ⟨0, rfl⟩
  | cons input inputs ih =>
    obtain ⟨first, hfirst⟩ := exists_stepped_apply session input
    obtain ⟨more, hmore⟩ := ih (input.apply session)
    refine ⟨first + more, ?_⟩
    rw [List.foldl_cons, hmore, hfirst, Machine.stepped_stepped]

end Debugger

open Command (Spelled wordsOf)
open Debugger (Reaches advance)

/-- A session takes the machine where plain steps do. `step` leaves what a run with that budget leaves, and going on
takes the number of steps that it takes to stop, which is all of them if there are no breakpoints. A loop without a
budget does what it does with every budget that is large enough; `2 ^ 64` steps are more than a machine counts. -/
theorem debugger_transparent (d : Debugger) (m : Machine σ) :
    (∀ inputs, ∃ n, (d.after m inputs).2 = m.stepped n) ∧
      (∀ line n, Spelled (wordsOf line) (.step n) → d.after m [.line line] = (d, (m.runFor n).machine)) ∧
      (∀ line, Spelled (wordsOf line) .resume → d.after m [.line line] = d.after m [.resume]) ∧
      (∀ k, Reaches d.isBreakpoint m k →
        (∀ budget ≥ k, (advance d.isBreakpoint [] budget m).machine = m.stepped k) ∧
          (k ≤ 2 ^ 64 → d.after m [.resume] = (d, m.stepped k))) ∧
      ((d.resume m).output ≠ "" ↔ ∃ k ≤ 2 ^ 64, Reaches d.isBreakpoint m k) ∧
      (d.breakpoints = [] → d.after m [.resume] = (d, m.run.machine)) ∧
      (∀ line, (∀ n, ¬ Spelled (wordsOf line) (.step n)) → ¬ Spelled (wordsOf line) .resume →
        (d.after m [.line line]).2 = m) ∧
      (∀ line, (∀ offset, ¬ Spelled (wordsOf line) (.setBreak offset)) →
        (∀ offset, ¬ Spelled (wordsOf line) (.clearBreak offset)) → (d.after m [.line line]).1 = d) ∧
      (∀ line offset, Spelled (wordsOf line) (.setBreak offset) →
        d.after m [.line line] = d.after m [.addBreakpoint offset]) ∧
      (∀ line offset, Spelled (wordsOf line) (.clearBreak offset) →
        d.after m [.line line] = d.after m [.removeBreakpoint offset]) ∧
      (∀ offset x, (d.addBreakpoint offset).isBreakpoint x ↔ x = offset ∨ d.isBreakpoint x) ∧
      ∀ offset x, (d.removeBreakpoint offset).isBreakpoint x ↔ x ≠ offset ∧ d.isBreakpoint x := by
  have hline : ∀ line, d.after m [.line line] =
      ((d.perform m (.ofLine line)).1, (d.perform m (.ofLine line)).2.machine) := fun _ => rfl
  refine ⟨d.exists_stepped_after m, ?_, ?_, ?_, ?_, ?_, ?_, ?_, ?_, ?_, d.isBreakpoint_addBreakpoint,
    d.isBreakpoint_removeBreakpoint⟩
  · intro line n hspelled
    rw [hline, hspelled.ofLine_eq, Debugger.perform_step]
    rfl
  · intro line hspelled
    rw [hline, hspelled.ofLine_eq]
    rfl
  · intro k hreaches
    refine ⟨fun budget hbudget => (hreaches.advance_eq hbudget []).1, ?_⟩
    intro hk
    exact congrArg (Prod.mk d) (hreaches.advance_eq (n := Machine.boundless) hk []).1
  · constructor
    · intro hreturned
      by_contra hnone
      exact hreturned (Debugger.advance_output_eq_empty (n := Machine.boundless) hnone []).2
    · rintro ⟨k, hk, hreaches⟩
      exact (hreaches.advance_eq (n := Machine.boundless) hk []).2
  · intro hnone
    exact congrArg (Prod.mk d) (Debugger.resume_of_no_breakpoints hnone m)
  · intro line hstep hresume
    rw [hline]
    refine Debugger.perform_idle ?_ ?_ d m
    · intro n hn
      exact hstep n (Command.spelled_of_ofLine hn not_false)
    · intro hn
      exact hresume (Command.spelled_of_ofLine hn not_false)
  · intro line hset hclear
    rw [hline]
    refine Debugger.perform_breakpoints ?_ ?_ d m
    · intro offset ho
      exact hset offset (Command.spelled_of_ofLine ho not_false)
    · intro offset ho
      exact hclear offset (Command.spelled_of_ofLine ho not_false)
  · intro line offset hspelled
    rw [hline, hspelled.ofLine_eq]
    rfl
  · intro line offset hspelled
    rw [hline, hspelled.ofLine_eq]
    rfl

/-- A loop with a breakpoint in it: the machine leaves the breakpoint that it stands on and comes back to it. -/
theorem debugger_transparent_countdown :
    let m : Machine Nat := .start countdown {}
    let d : Debugger := ⟨[20]⟩
    d.after m [.line "c"] = (d, m.stepped 4) ∧ (m.stepped 4).position = 20 ∧
      d.after (m.stepped 4) [.resume] = (d, m.stepped 8) ∧ (m.stepped 8).position = 20 ∧
      d.after m [.line " s 6 times"] = (d, (m.runFor 6).machine) ∧ (d.after m [.line "step x"]).2 = m := by
  intro m d
  have hsix : wordsOf " s 6 times" = ["s", "6", "times"] := by decide +kernel
  have hx : wordsOf "step x" = ["step", "x"] := by decide +kernel
  have hfirst : Reaches d.isBreakpoint m 4 := Debugger.reaches_succ_iff.mpr (by decide +kernel)
  have hsecond : Reaches d.isBreakpoint (m.stepped 4) 4 := Debugger.reaches_succ_iff.mpr (by decide +kernel)
  obtain ⟨-, hsteps, hresume, hgoes, -, -, hidle, -⟩ := debugger_transparent d m
  obtain ⟨-, -, -, hagain, -⟩ := debugger_transparent d (m.stepped 4)
  have hround := (hagain 4 hsecond).2 (by norm_num)
  rw [Machine.stepped_stepped] at hround
  refine ⟨?_, by decide +kernel, hround, by decide +kernel, ?_, ?_⟩
  · rw [hresume "c" (.resume (by decide))]
    exact (hgoes 4 hfirst).2 (by norm_num)
  · refine hsteps _ 6 ?_
    rw [hsix]
    exact .steps (by decide) (by decide +kernel)
  · apply hidle
    · rw [hx]
      intro n hspelled
      cases hspelled with
      | steps _ hcount => cases hcount
    · rw [hx]
      intro hspelled
      cases hspelled with
      | resume hword => exact absurd hword (by decide)

end StackMachine
