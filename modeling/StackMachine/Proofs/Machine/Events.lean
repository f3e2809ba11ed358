import StackMachine.Proofs.Machine.Atomicity
import StackMachine.Proofs.Machine.History
import StackMachine.Proofs.Machine.Running
import Mathlib

/-!
The log of a run. `Machine.Telling` lists what one step of a run can tell, together with what it does; from it follows
that the log of a run (`Machine.Chronicle`) announces the instructions that were read, in their order, replays to
the live pages that the run leaves, and is closed by the failure or the halt that the run ended in. Which
pages are live is known from the log alone: an allocation or a release names its handle and how many
pages there are then.
-/

set_option autoImplicit false

namespace StackMachine

variable {σ : Type} {m : Machine σ} {turn : Turn σ}

/-- What an event is about: an instruction that is about to be executed, a page that was allocated or freed, the machine
halting by an instruction or at the end of its code, or a step that failed. -/
inductive Topic where
  | instruction
  | page
  | halting
  | failure
  deriving DecidableEq, Repr

def Event.topic : Event → Topic
  | .exec .. => .instruction
  | .pageAllocated .. | .pageFreed .. => .page
  | .endOfCode _ | .halted .. => .halting
  | .stepFailed .. => .failure

structure LogEntry where
  level : Level
  message : String
  fields : List (String × String)
  deriving DecidableEq, Repr

def Event.entry (e : Event) : LogEntry := ⟨e.level, e.message, e.fields⟩

def Turn.log (turn : Turn σ) : List LogEntry := turn.events.map Event.entry

namespace LogEntry

def exec (position : Nat) (instr : Instr) (depth : Nat) : LogEntry :=
  ⟨.trace, "exec", [("position", position.repr), ("op", instr.text), ("depth", depth.repr)]⟩

def pageAllocated (handle live : Nat) : LogEntry :=
  ⟨.debug, "page allocated", [("handle", handle.repr), ("live", live.repr)]⟩

def pageFreed (handle live : Nat) : LogEntry :=
  ⟨.debug, "page freed", [("handle", handle.repr), ("live", live.repr)]⟩

def endOfCode (position : Nat) : LogEntry := ⟨.debug, "end of bytecode, halting", [("position", position.repr)]⟩

def halted (position steps : Nat) : LogEntry :=
  ⟨.debug, "halted", [("position", position.repr), ("steps", steps.repr)]⟩

def stepFailed (position : Nat) (fault : Fault) : LogEntry :=
  ⟨.warn, "step failed: " ++ fault.message, [("position", position.repr)]⟩

end LogEntry

/-- A record is known by its level and its message. -/
def Topic.covers (topic : Topic) (entry : LogEntry) : Bool :=
  match topic with
  | .instruction => entry.level = .trace ∧ entry.message = "exec"
  | .page => entry.level = .debug ∧ (entry.message = "page allocated" ∨ entry.message = "page freed")
  | .halting => entry.level = .debug ∧ (entry.message = "halted" ∨ entry.message = "end of bytecode, halting")
  | .failure => entry.level = .warn ∧ "step failed: ".toList <+: entry.message.toList

theorem Event.covers_entry (topic : Topic) (e : Event) : topic.covers e.entry = decide (e.topic = topic) := by
  cases topic <;> cases e <;> simp [Topic.covers, entry, level, message, topic]

def Turn.brokenOff (turn : Turn σ) : Bool :=
  match turn.result, turn.machine.peekInstr with
  | .error _, .ok (some _) => true
  | _, _ => false

theorem Turn.brokenOff_of_ok {status : Status} (h : turn.result = .ok status) : turn.brokenOff = false := by
  rw [brokenOff, h]

namespace Log

def on (topic : Topic) (events : List Event) : List Event := events.filter (·.topic = topic)

@[simp] theorem on_nil (topic : Topic) : on topic [] = [] := rfl

@[simp] theorem on_append (topic : Topic) (events more : List Event) :
    on topic (events ++ more) = on topic events ++ on topic more :=
  List.filter_append ..

theorem on_cons (topic : Topic) (e : Event) (events : List Event) :
    on topic (e :: events) = if e.topic = topic then e :: on topic events else on topic events := by
  by_cases he : e.topic = topic <;> simp [on, he]

theorem on_exec (topic : Topic) (position depth : Nat) (i : Instr) (events : List Event) :
    on topic (.exec position i depth :: events) =
      if .instruction = topic then .exec position i depth :: on topic events else on topic events :=
  on_cons ..

theorem on_of_ne {topic other : Topic} {events : List Event} (h : ∀ e ∈ events, e.topic = other)
    (hne : other ≠ topic) : on topic events = [] := by
  rw [on, List.filter_eq_nil_iff]
  intro e he
  simpa [h e he] using hne

def about (topic : Topic) (log : List LogEntry) : List LogEntry := log.filter topic.covers

@[simp] theorem about_append (topic : Topic) (log more : List LogEntry) :
    about topic (log ++ more) = about topic log ++ about topic more :=
  List.filter_append ..

theorem about_map (topic : Topic) (events : List Event) :
    about topic (events.map Event.entry) = (on topic events).map Event.entry := by
  rw [about, on, List.filter_map]
  congr 1
  exact List.filter_congr fun e _ => Event.covers_entry topic e

/-- The log, read by someone who knows the live handles, tells which ones are live in the end. What is allocated was not
live and what is freed was, and the pages that are live then are counted right. -/
inductive Replays : Finset Nat → List LogEntry → Finset Nat → Prop
  | done (live : Finset Nat) : Replays live [] live
  | allocated {live after : Finset Nat} {handle : Nat} {log : List LogEntry} (hnew : handle ∉ live)
      (h : Replays (insert handle live) log after) :
      Replays live (.pageAllocated handle (insert handle live).card :: log) after
  | freed {live after : Finset Nat} {handle : Nat} {log : List LogEntry} (hlive : handle ∈ live)
      (h : Replays (live.erase handle) log after) :
      Replays live (.pageFreed handle (live.erase handle).card :: log) after
  | other {live after : Finset Nat} {entry : LogEntry} {log : List LogEntry} (hother : ¬ Topic.page.covers entry)
      (h : Replays live log after) : Replays live (entry :: log) after

theorem Replays.append {live between after : Finset Nat} {log more : List LogEntry} (h : Replays live log between)
    (hmore : Replays between more after) : Replays live (log ++ more) after := by
  induction h with
  | done => exact hmore
  | allocated hnew _ ih => exact .allocated hnew (ih hmore)
  | freed hlive _ ih => exact .freed hlive (ih hmore)
  | other hother _ ih => exact .other hother (ih hmore)

/-- What is not about pages changes nothing. -/
theorem replays_of_about {live : Finset Nat} {log : List LogEntry} (h : about .page log = []) :
    Replays live log live := by
  induction log with
  | nil => exact .done live
  | cons entry log ih =>
    rw [about, List.filter_eq_nil_iff, List.forall_mem_cons] at h
    exact .other h.1 (ih (List.filter_eq_nil_iff.mpr h.2))

theorem Replays.unique {live after other : Finset Nat} {log : List LogEntry} (h : Replays live log after)
    (hother : Replays live log other) : after = other := by
  induction h with
  | done =>
    cases hother
    rfl
  | @allocated live _ handle _ _ _ ih =>
    generalize hentry : LogEntry.pageAllocated handle (insert handle live).card = entry at hother
    cases hother with
    | @allocated _ _ handle' _ _ h =>
      obtain ⟨hhandle, -⟩ : handle.repr = handle'.repr ∧ _ := by simpa [LogEntry.pageAllocated] using hentry
      obtain rfl := Nat.repr_inj.mp hhandle
      exact ih h
    | freed => simp [LogEntry.pageAllocated, LogEntry.pageFreed] at hentry
    | other hnot =>
      subst hentry
      exact absurd (Event.covers_entry .page (.pageAllocated ..)) hnot
  | @freed live _ handle _ _ _ ih =>
    generalize hentry : LogEntry.pageFreed handle (live.erase handle).card = entry at hother
    cases hother with
    | @freed _ _ handle' _ _ h =>
      obtain ⟨hhandle, -⟩ : handle.repr = handle'.repr ∧ _ := by simpa [LogEntry.pageFreed] using hentry
      obtain rfl := Nat.repr_inj.mp hhandle
      exact ih h
    | allocated => simp [LogEntry.pageAllocated, LogEntry.pageFreed] at hentry
    | other hnot =>
      subst hentry
      exact absurd (Event.covers_entry .page (.pageFreed ..)) hnot
  | other hnot _ ih =>
    cases hother with
    | other _ h => exact ih h
    | allocated => exact absurd (Event.covers_entry .page (.pageAllocated ..)) hnot
    | freed => exact absurd (Event.covers_entry .page (.pageFreed ..)) hnot

/-- The log has one entry on the topic, ends with it, and it is a closing one; or it has none. -/
inductive Closes (topic : Topic) (closing : LogEntry → Prop) : Bool → List LogEntry → Prop
  | closed (log : List LogEntry) {entry : LogEntry} (hnone : about topic log = []) (hon : topic.covers entry)
      (hlast : closing entry) : Closes topic closing true (log ++ [entry])
  | without {log : List LogEntry} (hnone : about topic log = []) : Closes topic closing false log

theorem Closes.append {topic : Topic} {closing closing' : LogEntry → Prop} {closed : Bool} {log : List LogEntry}
    (before : List LogEntry) (hbefore : about topic before = []) (himp : ∀ entry, closing entry → closing' entry)
    (h : Closes topic closing closed log) : Closes topic closing' closed (before ++ log) := by
  cases h with
  | closed log hnone hon hlast =>
    rw [← List.append_assoc]
    exact .closed _ (by rw [about_append, hbefore, hnone, List.append_nil]) hon (himp _ hlast)
  | without hnone => exact .without (by rw [about_append, hbefore, hnone, List.append_nil])

theorem Closes.about_eq_nil {topic : Topic} {closing : LogEntry → Prop} {log : List LogEntry}
    (h : Closes topic closing false log) : about topic log = [] := by
  cases h with
  | without hnone => exact hnone

end Log

namespace Memory

variable {m : Memory} {handle : Nat}

def liveHandles (m : Memory) : Finset Nat := m.handles.toFinset

namespace WellFormed

theorem mem_liveHandles_iff (h : m.WellFormed) : handle ∈ m.liveHandles ↔ m.exists? handle := by
  rw [liveHandles, List.mem_toFinset, h.mem_handles_iff]

theorem card_liveHandles (h : m.WellFormed) : m.liveHandles.card = m.live := by
  have hnodup : m.handles.Nodup := h.pairwise_handles.imp fun hlt => hlt.ne
  rw [liveHandles, List.toFinset_card_of_nodup hnodup, h.length_handles]

theorem nextHandle_notMem (h : m.WellFormed) : m.nextHandle ∉ m.liveHandles := by
  rw [h.mem_liveHandles_iff, exists?, page?]
  simp [nextHandle]

theorem liveHandles_grow (h : m.WellFormed) (hroom : m.requireAllocatable = .ok ()) :
    m.grow.liveHandles = insert m.nextHandle m.liveHandles := by
  ext handle
  rw [(h.grow hroom).mem_liveHandles_iff, Finset.mem_insert, h.mem_liveHandles_iff, exists?, exists?, page?_grow]
  by_cases hnext : handle = m.nextHandle <;> simp [hnext]

theorem liveHandles_free (h : m.WellFormed) (freed : Nat) :
    (m.free freed).liveHandles = m.liveHandles.erase freed := by
  ext handle
  rw [(h.free freed).mem_liveHandles_iff, Finset.mem_erase, h.mem_liveHandles_iff, exists?, exists?, page?_free]
  by_cases hfreed : handle = freed <;> simp [hfreed]

theorem liveHandles_overwrite (h : m.WellFormed) {p : Page} {address : Nat} {bytes : List UInt8}
    (hpage : m.page? handle = some p) (hfits : address + bytes.length ≤ Page.size) :
    (m.overwrite handle address bytes).liveHandles = m.liveHandles := by
  ext other
  rw [(h.overwrite hpage hfits).mem_liveHandles_iff, h.mem_liveHandles_iff, exists?, exists?, page?_overwrite]
  split <;> simp

theorem replays_allocationEvents (h : m.WellFormed) (hroom : m.requireAllocatable = .ok ()) :
    Log.Replays m.liveHandles (m.allocationEvents.map Event.entry) m.grow.liveHandles := by
  have hcard : (insert m.nextHandle m.liveHandles).card = m.live + 1 := by
    rw [Finset.card_insert_of_notMem h.nextHandle_notMem, h.card_liveHandles]
  rw [h.liveHandles_grow hroom, allocationEvents, ← hcard]
  exact .allocated h.nextHandle_notMem (.done _)

theorem replays_freeEvents (h : m.WellFormed) (freed : Nat) :
    Log.Replays m.liveHandles ((m.freeEvents freed).map Event.entry) (m.free freed).liveHandles := by
  rw [h.liveHandles_free, freeEvents]
  by_cases hlive : m.exists? freed = true
  · have hmem := h.mem_liveHandles_iff.mpr hlive
    have hcard : (m.liveHandles.erase freed).card = m.live - 1 := by
      rw [Finset.card_erase_of_mem hmem, h.card_liveHandles]
    rw [if_pos hlive, ← hcard]
    exact .freed hmem (.done _)
  · have hmem : freed ∉ m.liveHandles := mt h.mem_liveHandles_iff.mp hlive
    rw [if_neg hlive, Finset.erase_eq_of_notMem hmem]
    exact .done _

end WellFormed

theorem topic_of_mem_freeEvents {e : Event} (he : e ∈ m.freeEvents handle) : e.topic = .page := by
  rw [freeEvents] at he
  split at he
  · rw [List.mem_singleton] at he
    rw [he]
    rfl
  · cases he

end Memory

namespace Machine

theorem Planned.topic_of_mem {i : Instr} {e : Effect} (h : m.Planned i e) {event : Event}
    (hevent : event ∈ e.events m.memory) : event.topic = .page := by
  cases h with
  | allocates =>
    rw [List.mem_singleton.mp hevent]
    rfl
  | frees => exact Memory.topic_of_mem_freeEvents hevent
  | _ => cases hevent

theorem Planned.replays {i : Instr} {e : Effect} (h : m.Planned i e) (hformed : m.memory.WellFormed) :
    Log.Replays m.memory.liveHandles ((e.events m.memory).map Event.entry) (e.applyMemory m.memory).liveHandles := by
  cases h with
  | allocates hroom => exact hformed.replays_allocationEvents hroom
  | frees => exact hformed.replays_freeEvents _
  | writes hpage hfits =>
    have hkept := hformed.liveHandles_overwrite hpage hfits
    exact hkept.symm ▸ .done _
  | _ => exact .done _

def announcement (m : Machine σ) : Option LogEntry :=
  if m.halted then none
  else
    match m.peekInstr with
    | .ok (some i) => some (.exec m.position i m.stack.depth)
    | _ => none

theorem Faces.announcement_eq {i : Instr} (h : m.Faces i) :
    m.announcement = some (.exec m.position i m.stack.depth) := by
  simp [announcement, h.1, h.2]

theorem exists_faces_of_announcement {entry : LogEntry} (h : m.announcement = some entry) : ∃ i, m.Faces i := by
  rw [announcement] at h
  split at h
  · cases h
  case isFalse hm =>
    split at h
    case h_1 i hpeek => exact ⟨i, Bool.not_eq_true _ ▸ hm, hpeek⟩
    · cases h

/-- How a halt is told that the next step brings about. -/
def HaltsWith (m : Machine σ) (entry : LogEntry) : Prop :=
  (m.peekInstr = .ok none ∧ entry = .endOfCode m.position) ∨
    (m.peekInstr = .ok (some .halt) ∧ entry = .halted m.position (m.steps + 1))

/-- What a step of a run tells, by what it does. -/
inductive Telling (m : Machine σ) : Turn σ → Prop
  | stays (hm : m.halted = true) : Telling m ⟨.ok .halted, m, []⟩
  | ends (hm : m.halted = false) (hpeek : m.peekInstr = .ok none) :
      Telling m ⟨.ok .halted, { m with halted := true }, [.endOfCode m.position]⟩
  | unreadable {fault : Fault} (hm : m.halted = false) (hpeek : m.peekInstr = .error fault) :
      Telling m ⟨.error fault, m, [.stepFailed m.position fault]⟩
  | fails {i : Instr} {fault : Fault} {after : Machine σ} (h : m.Faces i) (hsame : m.Unchanged after) :
      Telling m ⟨.error fault, after, [.exec m.position i m.stack.depth, .stepFailed m.position fault]⟩
  | goesOn {i : Instr} {after : Machine σ} {pages : List Event} (h : m.Faces i) (hhalted : after.halted = false)
      (hsteps : after.steps = m.steps + 1) (hpages : ∀ e ∈ pages, e.topic = .page)
      (hreplay : m.memory.WellFormed →
        Log.Replays m.memory.liveHandles (pages.map Event.entry) after.memory.liveHandles) :
      Telling m ⟨.ok .running, after, .exec m.position i m.stack.depth :: pages⟩
  | halts {after : Machine σ} (h : m.Faces .halt) (hhalted : after.halted = true)
      (hsteps : after.steps = m.steps + 1) (hmemory : after.memory = m.memory) :
      Telling m ⟨.ok .halted, after, [.exec m.position .halt m.stack.depth, .halted m.position (m.steps + 1)]⟩

theorem logged_of_error {fault : Fault} {after : Machine σ} {events : List Event}
    (h : m.step = ⟨.error fault, after, events⟩) :
    m.logged = ⟨.error fault, after, events ++ [.stepFailed m.position fault]⟩ := by
  rw [logged, h]

theorem telling_of_call (hm : m.halted = false) {name : String} {next : Nat}
    (hread : m.code.instrAt? m.position = .ok (some (.capability name, next))) : m.Telling m.logged := by
  have hfaces : m.Faces (.capability name) := faces_iff.mpr ⟨hm, next, hread⟩
  have hstep := step_eq_of_instrAt? hm hread
  rw [execute, call] at hstep
  cases hhandler : m.handler? name with
  | none =>
    rw [hhandler] at hstep
    rw [logged_of_error hstep]
    exact .fails hfaces (.refl hm)
  | some handler =>
    rcases hact : handler.act handler.state m.stack m.memory with ⟨fault | _, stack, state⟩
    · simp only [hhandler, hact] at hstep
      rw [logged_of_error hstep]
      exact .fails hfaces (.withState hm ⟨next, hread⟩ state)
    · simp only [hhandler, hact] at hstep
      rw [logged, hstep]
      exact .goesOn hfaces hm rfl (List.forall_mem_nil _) fun _ => .done _

theorem telling_of_plan (hm : m.halted = false) {i : Instr} {next : Nat}
    (hread : m.code.instrAt? m.position = .ok (some (i, next))) (hcall : ∀ name, i ≠ .capability name) :
    m.Telling m.logged := by
  have hfaces : m.Faces i := faces_iff.mpr ⟨hm, next, hread⟩
  have hstep := step_eq_of_instrAt? hm hread
  cases hplan : m.plan i with
  | error fault =>
    rw [execute_of_error hcall hplan] at hstep
    rw [logged_of_error hstep]
    exact .fails hfaces (.refl hm)
  | ok e =>
    have hplanned := (m.plan_yields i).of_ok hplan
    rw [execute_eq_of_ok hcall hplan] at hstep
    by_cases hhalts : e.halts = true
    · rw [if_pos hhalts] at hstep
      rw [logged, hstep]
      cases hplanned with
      | halts => exact .halts hfaces rfl rfl rfl
      | _ => cases hhalts
    · rw [if_neg hhalts] at hstep
      rw [logged, hstep]
      exact .goesOn hfaces (Bool.not_eq_true _ ▸ hhalts) rfl (fun _ => hplanned.topic_of_mem) hplanned.replays

theorem logged_telling (m : Machine σ) : m.Telling m.logged := by
  cases hm : m.halted with
  | true =>
    rw [logged, step_of_halted hm]
    exact .stays hm
  | false =>
    rcases hread : m.code.instrAt? m.position with fault | _ | ⟨i, next⟩
    · have hstep : m.step = ⟨.error fault, m, []⟩ := by simp [step, hm, hread]
      rw [logged_of_error hstep]
      exact .unreadable hm (by rw [peekInstr, hread]; rfl)
    · rw [logged, step_of_end hm hread]
      exact .ends hm (by rw [peekInstr, hread]; rfl)
    · by_cases hcall : ∃ name, i = .capability name
      · obtain ⟨name, rfl⟩ := hcall
        exact telling_of_call hm hread
      · exact telling_of_plan hm hread fun name hi => hcall ⟨name, hi⟩

namespace Telling

theorem about_instruction (h : m.Telling turn) : Log.about .instruction turn.log = m.announcement.toList := by
  rw [Turn.log, Log.about_map]
  cases h with
  | stays hm => simp [announcement, hm]
  | ends hm hpeek => simp [announcement, hm, hpeek, Log.on_cons, Event.topic]
  | unreadable hm hpeek => simp [announcement, hm, hpeek, Log.on_cons, Event.topic]
  | fails h =>
    rw [h.announcement_eq]
    rfl
  | goesOn h _ _ hpages =>
    rw [h.announcement_eq, Log.on_exec, if_pos rfl, Log.on_of_ne hpages (by decide)]
    rfl
  | halts h =>
    rw [h.announcement_eq]
    rfl

theorem length_on_instruction (h : m.Telling turn) :
    (Log.on .instruction turn.events).length = m.announcement.toList.length := by
  rw [← h.about_instruction, Turn.log, Log.about_map, List.length_map]

/-- What a step that goes on tells besides is about pages. -/
theorem about_goesOn {topic : Topic} {position depth : Nat} {i : Instr} {pages : List Event}
    (hpages : ∀ e ∈ pages, e.topic = .page) (hinstruction : topic ≠ .instruction) (hpage : topic ≠ .page) :
    Log.about topic ((.exec position i depth :: pages).map Event.entry) = [] := by
  rw [Log.about_map, Log.on_exec, if_neg hinstruction.symm, Log.on_of_ne hpages hpage.symm]
  rfl

theorem closes_failure (h : m.Telling turn) :
    Log.Closes .failure
      (fun entry => ∃ fault, turn.result = .error fault ∧ entry = .stepFailed turn.machine.position fault)
      (!turn.result.isOk) turn.log := by
  cases h with
  | unreadable => exact .closed [] rfl (Event.covers_entry .failure (.stepFailed ..)) ⟨_, rfl, rfl⟩
  | @fails i fault after _ hsame =>
    refine .closed [.exec m.position i m.stack.depth] rfl (Event.covers_entry .failure (.stepFailed m.position fault))
      ⟨fault, rfl, ?_⟩
    rw [hsame.position]
    rfl
  | goesOn _ _ _ hpages => exact .without (about_goesOn hpages (by decide) (by decide))
  | _ => exact .without rfl

theorem closes_halting (h : m.Telling turn) :
    Log.Closes .halting m.HaltsWith (!m.halted && turn.machine.halted) turn.log := by
  cases h with
  | stays hm =>
    rw [hm]
    exact .without rfl
  | ends hm hpeek =>
    rw [hm]
    exact .closed [] rfl (Event.covers_entry .halting (.endOfCode m.position)) (.inl ⟨hpeek, rfl⟩)
  | unreadable hm =>
    rw [hm]
    exact .without rfl
  | fails h hsame =>
    rw [hsame.halted, h.1]
    exact .without rfl
  | goesOn h hhalted _ hpages =>
    rw [hhalted, Bool.and_false]
    exact .without (about_goesOn hpages (by decide) (by decide))
  | halts h hhalted =>
    rw [h.1, hhalted]
    exact .closed [.exec m.position .halt m.stack.depth] rfl
      (Event.covers_entry .halting (.halted m.position (m.steps + 1))) (.inr ⟨h.2, rfl⟩)

theorem replays (h : m.Telling turn) (hformed : m.memory.WellFormed) :
    Log.Replays m.memory.liveHandles turn.log turn.machine.memory.liveHandles := by
  cases h with
  | fails _ hsame =>
    rw [hsame.memory]
    exact Log.replays_of_about rfl
  | @goesOn i _ _ _ _ _ _ hreplay =>
    have hexec : Topic.page.covers (.exec m.position i m.stack.depth) = false :=
      Event.covers_entry .page (.exec m.position i m.stack.depth)
    exact .other (Bool.not_eq_true _ ▸ hexec) (hreplay hformed)
  | halts _ _ _ hmemory =>
    rw [hmemory]
    exact Log.replays_of_about rfl
  | _ => exact Log.replays_of_about rfl

theorem steps (h : m.Telling turn) :
    turn.machine.steps + (if turn.brokenOff then 1 else 0) = m.steps + m.announcement.toList.length := by
  cases h with
  | stays hm => simp [announcement, hm, Turn.brokenOff]
  | ends hm hpeek => simp [announcement, hm, hpeek, Turn.brokenOff]
  | unreadable hm hpeek => simp [announcement, hm, hpeek, Turn.brokenOff]
  | fails h hsame =>
    have hpeek := h.2
    rw [peekInstr, ← hsame.code, ← hsame.position, ← peekInstr] at hpeek
    simp [h.announcement_eq, Turn.brokenOff, hpeek, hsame.steps]
  | goesOn h _ hsteps => simp [h.announcement_eq, Turn.brokenOff, hsteps]
  | halts h _ hsteps => simp [h.announcement_eq, Turn.brokenOff, hsteps]

end Telling

def lastResult (m : Machine σ) : Nat → Except Fault Status
  | 0 => .ok (if m.halted then .halted else .running)
  | count + 1 => (m.stepped count).step.result

theorem lastResult_succ (h : m.step.result = .ok .running) (count : Nat) :
    m.lastResult (count + 1) = m.step.machine.lastResult count := by
  cases count with
  | zero =>
    have hhalted := (step_eq_running_iff.mp h).2
    simp [lastResult, h, hhalted]
  | succ count => rfl

def announcements (m : Machine σ) (count : Nat) : List LogEntry :=
  (List.range count).filterMap fun k => (m.stepped k).announcement

theorem announcements_succ (m : Machine σ) (count : Nat) :
    m.announcements (count + 1) = m.announcement.toList ++ m.step.machine.announcements count := by
  have htail : (fun k => (m.stepped (k + 1)).announcement) = fun k => (m.step.machine.stepped k).announcement := rfl
  rw [announcements, announcements, List.range_succ_eq_map, List.filterMap_cons, List.filterMap_map]
  cases hfirst : m.announcement <;> simp [hfirst, htail]

/-- A turn of so many steps, and its log. -/
structure Chronicle (m : Machine σ) (count : Nat) (turn : Turn σ) : Prop where
  machine_eq : turn.machine = m.stepped count
  running : ∀ k, k + 1 < count → (m.stepped k).step.result = .ok .running
  result_eq : turn.result = m.lastResult count
  /-- The instructions that were read are announced in the order of their execution. -/
  announced : Log.about .instruction turn.log = m.announcements count
  /-- All of them are counted as steps, but for one that failed. -/
  steps : turn.machine.steps + (if turn.brokenOff then 1 else 0) =
    m.steps + (Log.about .instruction turn.log).length
  /-- A failure is told once and last, with the place where the machine is left. -/
  failure : Log.Closes .failure
    (fun entry => ∃ fault, turn.result = .error fault ∧ entry = .stepFailed turn.machine.position fault)
    (!turn.result.isOk) turn.log
  pages : Log.Replays m.memory.liveHandles turn.log turn.machine.memory.liveHandles
  /-- A halt is told once and last, and not of a machine that was halted before. -/
  halting : Log.Closes .halting (fun entry => ∃ k, count = k + 1 ∧ (m.stepped k).HaltsWith entry)
    (!m.halted && turn.machine.halted) turn.log

theorem chronicle_zero (m : Machine σ) : m.Chronicle 0 ⟨m.lastResult 0, m, []⟩ where
  machine_eq := rfl
  running k hk := by omega
  result_eq := rfl
  announced := rfl
  steps := rfl
  failure := .without rfl
  pages := .done _
  halting := by
    rw [Bool.not_and_self]
    exact .without rfl

theorem chronicle_logged (hformed : m.memory.WellFormed) : m.Chronicle 1 m.logged where
  machine_eq := m.machine_logged
  running k hk := by omega
  result_eq := m.result_logged
  announced := by
    rw [m.logged_telling.about_instruction, announcements_succ]
    exact (List.append_nil _).symm
  steps := by
    rw [m.logged_telling.about_instruction]
    exact m.logged_telling.steps
  failure := m.logged_telling.closes_failure
  pages := m.logged_telling.replays hformed
  halting := m.logged_telling.closes_halting.append [] rfl fun _ h => ⟨0, rfl, h⟩

theorem Chronicle.cons {count : Nat} (hformed : m.memory.WellFormed) (hstep : m.step.result = .ok .running)
    (h : m.step.machine.Chronicle count turn) :
    m.Chronicle (count + 1) { turn with events := m.logged.events ++ turn.events } := by
  have htelling := m.logged_telling
  have hresult : m.logged.result = .ok .running := m.result_logged.trans hstep
  have hmachine : m.logged.machine = m.step.machine := m.machine_logged
  have hlog : Turn.log { turn with events := m.logged.events ++ turn.events } = m.logged.log ++ turn.log :=
    List.map_append
  obtain ⟨⟨i, ⟨hm, -⟩, -⟩, hhalted⟩ := step_eq_running_iff.mp hstep
  constructor
  · exact h.machine_eq
  · intro k hk
    cases k with
    | zero => exact hstep
    | succ k => exact h.running k (by omega)
  · rw [lastResult_succ hstep]
    exact h.result_eq
  · rw [hlog, Log.about_append, htelling.about_instruction, h.announced, announcements_succ]
  · have hfirst := htelling.steps
    have hrest := h.steps
    rw [Turn.brokenOff_of_ok hresult, hmachine] at hfirst
    rw [hlog, Log.about_append, htelling.about_instruction, List.length_append]
    simp only [Bool.false_eq_true, if_false] at hfirst
    change turn.machine.steps + (if turn.brokenOff then 1 else 0) = _
    omega
  · have hnone := htelling.closes_failure
    rw [hresult] at hnone
    rw [hlog]
    exact h.failure.append _ hnone.about_eq_nil fun _ => id
  · rw [hlog]
    have hfirst := htelling.replays hformed
    rw [hmachine] at hfirst
    exact hfirst.append h.pages
  · have hnone := htelling.closes_halting
    have hrest := h.halting
    rw [hmachine, hhalted, Bool.and_false] at hnone
    rw [hhalted] at hrest
    rw [hm, hlog]
    refine hrest.append _ hnone.about_eq_nil ?_
    rintro entry ⟨k, rfl, hk⟩
    exact ⟨k + 1, rfl, hk⟩

theorem exists_chronicle (hformed : m.memory.WellFormed) (n : Nat) : ∃ count ≤ n, m.Chronicle count (m.runFor n) := by
  induction n generalizing m with
  | zero => exact ⟨0, le_rfl, m.chronicle_zero⟩
  | succ n ih =>
    by_cases hstep : m.step.result = .ok .running
    · obtain ⟨count, hcount, hrest⟩ := ih (wellFormed_step hformed)
      rw [runFor_succ, Turn.andThen_of_ok (m.result_logged.trans hstep), machine_logged]
      exact ⟨count + 1, Nat.succ_le_succ hcount, hrest.cons hformed hstep⟩
    · rw [runFor_succ_of_stopped hstep]
      exact ⟨1, Nat.succ_le_succ n.zero_le, chronicle_logged hformed⟩

inductive Runs (m : Machine σ) : Turn σ → Prop
  | within (n : Nat) : Runs m (m.runFor n)
  | loops {count : Nat} {turn : Turn σ} (h : m.Loops count turn) : Runs m turn

end Machine

/-- The log of a run of a reachable machine is faithful: it announces the instructions that were read, replays to the
live pages that the run leaves, and ends with the failure or the halt if there was one. -/
theorem runs_chronicled (P : Conduct σ → Prop) (code : Code) (limits : Limits) (m : Machine σ) (turn : Turn σ)
    (hreach : Reachable P code limits m) (hruns : m.Runs turn) : ∃ count, m.Chronicle count turn := by
  have hformed := Machine.wellFormed_of_reachable hreach
  cases hruns with
  | within n =>
    obtain ⟨count, -, hchronicle⟩ := Machine.exists_chronicle hformed n
    exact ⟨count, hchronicle⟩
  | @loops n _ hloops =>
    obtain ⟨count, -, hchronicle⟩ := Machine.exists_chronicle hformed n
    rw [hloops.runFor_eq] at hchronicle
    exact ⟨count, hchronicle⟩

def churning : Code := .ofInstrs [.memPlz, .dup, .memCya, .memCya, .memPlz, .memPlz, .halt]

def churned : List LogEntry :=
  [⟨.trace, "exec", [("position", "0"), ("op", "memplz"), ("depth", "0")]⟩,
    ⟨.debug, "page allocated", [("handle", "0"), ("live", "1")]⟩,
    ⟨.trace, "exec", [("position", "1"), ("op", "dup"), ("depth", "1")]⟩,
    ⟨.trace, "exec", [("position", "2"), ("op", "memcya"), ("depth", "2")]⟩,
    ⟨.debug, "page freed", [("handle", "0"), ("live", "0")]⟩,
    ⟨.trace, "exec", [("position", "3"), ("op", "memcya"), ("depth", "1")]⟩,
    ⟨.trace, "exec", [("position", "4"), ("op", "memplz"), ("depth", "0")]⟩,
    ⟨.debug, "page allocated", [("handle", "1"), ("live", "1")]⟩,
    ⟨.trace, "exec", [("position", "5"), ("op", "memplz"), ("depth", "1")]⟩,
    ⟨.warn, "step failed: page limit reached (max 1)", [("position", "5")]⟩]

theorem runs_chronicled_churning :
    let m : Machine Nat := .start churning { maxPages := some 1 }
    m.run.log = churned ∧ m.run.machine.steps = 5 ∧ (Log.about .instruction churned).length = 6 ∧
      Log.Replays ∅ churned {1} ∧ ∃ count, m.Chronicle count m.run := by
  intro m
  have hrun : m.run = m.runFor 6 := by
    have hfew : 6 ≤ 2 ^ 64 := by norm_num
    refine Machine.runFor_of_le ?_ hfew
    decide +kernel
  have hlog : (m.runFor 6).log = churned := by decide +kernel
  have hsteps : (m.runFor 6).machine.steps = 5 := by decide +kernel
  have hbroken : (m.runFor 6).brokenOff = true := by decide +kernel
  have hhandles : (m.runFor 6).machine.memory.liveHandles = {1} := by decide +kernel
  obtain ⟨count, h⟩ := runs_chronicled (fun _ => True) churning { maxPages := some 1 } m m.run .start (.within _)
  rw [hrun] at h ⊢
  have hstart : m.steps = 0 := rfl
  have hcount := h.steps
  have hpages := h.pages
  rw [hsteps, hbroken, if_pos rfl, hstart, Nat.zero_add, hlog] at hcount
  rw [hlog, hhandles] at hpages
  exact ⟨hlog, hsteps, hcount.symm, hpages, count, h⟩

end StackMachine
