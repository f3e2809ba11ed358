import StackMachine.CommandLine.Options
import StackMachine.Proofs.Failure
import Mathlib.Data.List.Perm.Basic
import Mathlib.Tactic

/-!
Arguments in groups. The words of a command line fall into groups, each of them a switch, an option with its value or
the path of a program. As long as no value and no path is given twice, the groups can be given in any order: the options
that are read are told by what is among the groups, and so is the fault if they exclude each other.
-/

set_option autoImplicit false

namespace StackMachine.CommandLine

/-- Words that belong together. A value may be any text that can be read, also one that looks like an option. -/
inductive Group where
  | trace
  | disasm
  | debug
  | help (long : Bool)
  | emit (path : String)
  | number (flag : NumberFlag) (raw : String) (n : Nat) (spelled : Text.readWord raw = .ok n)
  | program (path : String) (plain : path.toList.head? ≠ some '-') (free : path ≠ "debug")
  deriving DecidableEq

inductive Setting where
  | emitPath
  | number (flag : NumberFlag)
  | source
  deriving DecidableEq, Repr

def NumberFlag.get : NumberFlag → Options → Option Nat
  | .maxSteps, o => o.maxSteps
  | .stackCapacity, o => o.stackCapacity
  | .maxPages, o => o.maxPages

namespace Group

def words : Group → List String
  | .trace => ["--trace"]
  | .disasm => ["--disasm"]
  | .debug => ["--debug"]
  | .help long => [if long then "--help" else "-h"]
  | .emit path => ["--emit", path]
  | .number flag raw _ _ => [flag.text, raw]
  | .program path _ _ => [path]

def setting? : Group → Option Setting
  | .emit _ => some .emitPath
  | .number flag _ _ _ => some (.number flag)
  | .program _ _ _ => some .source
  | _ => none

def apply : Group → Options → Options
  | .trace, o => { o with trace := true }
  | .disasm, o => { o with disasm := true }
  | .debug, o => { o with debug := true }
  | .help _, o => { o with help := true }
  | .emit path, o => { o with emitPath := some path }
  | .number flag _ n _, o => flag.set n o
  | .program path _ _, o => { o with source := some path }

end Group

def wordsOf (gs : List Group) : List String := gs.flatMap Group.words

theorem wordsOf_cons (g : Group) (gs : List Group) : wordsOf (g :: gs) = g.words ++ wordsOf gs := List.flatMap_cons

def settings (gs : List Group) : List Setting := gs.filterMap Group.setting?

theorem Word.ofText_flag (flag : NumberFlag) : Word.ofText flag.text = .number flag := by
  cases flag <;> rfl

theorem Word.ofText_plain {text : String} (h : text.toList.head? ≠ some '-') : Word.ofText text = .path text := by
  unfold ofText
  split <;> first | exact absurd rfl h | exact if_neg h

theorem Options.readWords_words (o : Options) (g : Group) (rest : List String)
    (hsource : g.setting? = some .source → o.source = none) :
    o.readWords (g.words ++ rest) = (g.apply o).readWords rest := by
  cases g with
  | trace | disasm | debug =>
    rw [Group.words, List.singleton_append, readWords.eq_def]
    rfl
  | help long =>
    rw [Group.words, List.singleton_append, readWords.eq_def]
    cases long <;> rfl
  | emit path =>
    rw [Group.words, List.cons_append, List.singleton_append, readWords.eq_def]
    rfl
  | number flag raw n spelled =>
    rw [Group.words, List.cons_append, List.singleton_append, readWords.eq_def]
    simp only [Word.ofText_flag, spelled]
    rfl
  | program path plain free =>
    rw [Group.words, List.singleton_append, readWords.eq_def]
    simp only [Word.ofText_plain plain, hsource rfl]
    rfl

variable {gs hs : List Group} {o o' : Options} {g : Group}

namespace Group

theorem switches_apply (g : Group) (o : Options) :
    ((g.apply o).trace = true ↔ o.trace = true ∨ g = .trace) ∧
    ((g.apply o).disasm = true ↔ o.disasm = true ∨ g = .disasm) ∧
    ((g.apply o).debug = true ↔ o.debug = true ∨ g = .debug) ∧
    ((g.apply o).help = true ↔ o.help = true ∨ ∃ long, g = .help long) := by
  cases g with
  | number flag => cases flag <;> simp [apply, NumberFlag.set]
  | _ => simp [apply]

theorem emitPath_apply {path : String} (hfree : g.setting? = some .emitPath → o.emitPath = none) :
    (g.apply o).emitPath = some path ↔ o.emitPath = some path ∨ g = .emit path := by
  cases g with
  | emit => simp [apply, hfree rfl]
  | number flag => cases flag <;> simp [apply, NumberFlag.set]
  | _ => simp [apply]

theorem get_apply {flag : NumberFlag} {n : Nat} (hfree : g.setting? = some (.number flag) → flag.get o = none) :
    flag.get (g.apply o) = some n ↔ flag.get o = some n ∨ ∃ raw spelled, g = .number flag raw n spelled := by
  cases g with
  | number other raw m spelled =>
    by_cases heq : other = flag
    · subst heq
      have hset : other.get (other.set m o) = some m := by cases other <;> rfl
      rw [apply, hset, hfree rfl]
      constructor
      · rintro ⟨⟩
        exact Or.inr ⟨raw, spelled, rfl⟩
      · rintro (h | ⟨_, _, h⟩)
        · cases h
        · cases h
          rfl
    · have hset : flag.get (other.set m o) = flag.get o := by
        cases other <;> cases flag <;> first | rfl | exact absurd rfl heq
      simp [apply, hset, heq]
  | _ => cases flag <;> simp [apply, NumberFlag.get]

theorem source_apply {path : String} (hfree : g.setting? = some .source → o.source = none) :
    (g.apply o).source = some path ↔ o.source = some path ∨ ∃ plain free, g = .program path plain free := by
  cases g with
  | program other plain free =>
    rw [apply, hfree rfl]
    constructor
    · rintro ⟨⟩
      exact Or.inr ⟨plain, free, rfl⟩
    · rintro (h | ⟨_, _, h⟩)
      · cases h
      · cases h
        rfl
  | number flag => cases flag <;> simp [apply, NumberFlag.set]
  | _ => simp [apply]

end Group

/-- The options say what is among the groups, and nothing else. -/
structure Reflects (gs : List Group) (o : Options) : Prop where
  trace : o.trace = true ↔ .trace ∈ gs
  disasm : o.disasm = true ↔ .disasm ∈ gs
  debug : o.debug = true ↔ .debug ∈ gs
  help : o.help = true ↔ ∃ long, .help long ∈ gs
  emitPath : ∀ path, o.emitPath = some path ↔ .emit path ∈ gs
  number : ∀ (flag : NumberFlag) (n : Nat), flag.get o = some n ↔ ∃ raw spelled, .number flag raw n spelled ∈ gs
  source : ∀ path, o.source = some path ↔ ∃ plain free, .program path plain free ∈ gs

theorem reflects_nil : Reflects [] {} where
  trace := by simp
  disasm := by simp
  debug := by simp
  help := by simp
  emitPath := by simp
  number := by rintro (_ | _ | _) <;> simp [NumberFlag.get]
  source := by simp

theorem Reflects.perm (h : Reflects gs o) (hperm : gs.Perm hs) : Reflects hs o where
  trace := by rw [h.trace, hperm.mem_iff]
  disasm := by rw [h.disasm, hperm.mem_iff]
  debug := by rw [h.debug, hperm.mem_iff]
  help := by simp only [h.help, hperm.mem_iff]
  emitPath := by simp only [h.emitPath, hperm.mem_iff, implies_true]
  number := by simp only [h.number, hperm.mem_iff, implies_true]
  source := by simp only [h.source, hperm.mem_iff, implies_true]

theorem Reflects.unique (h : Reflects gs o) (h' : Reflects gs o') : o = o' := by
  have hnumber : ∀ flag : NumberFlag, flag.get o = flag.get o' := fun flag =>
    Option.ext fun n => by rw [h.number, h'.number]
  have hsource : o.source = o'.source := Option.ext fun path => by rw [h.source, h'.source]
  have hemit : o.emitPath = o'.emitPath := Option.ext fun path => by rw [h.emitPath, h'.emitPath]
  have htrace : o.trace = o'.trace := Bool.eq_iff_iff.mpr (h.trace.trans h'.trace.symm)
  have hdisasm : o.disasm = o'.disasm := Bool.eq_iff_iff.mpr (h.disasm.trans h'.disasm.symm)
  have hdebug : o.debug = o'.debug := Bool.eq_iff_iff.mpr (h.debug.trans h'.debug.symm)
  have hhelp : o.help = o'.help := Bool.eq_iff_iff.mpr (h.help.trans h'.help.symm)
  have hsteps : o.maxSteps = o'.maxSteps := hnumber .maxSteps
  have hcapacity : o.stackCapacity = o'.stackCapacity := hnumber .stackCapacity
  have hpages : o.maxPages = o'.maxPages := hnumber .maxPages
  cases o
  cases o'
  simp only at hsource hemit htrace hdisasm hdebug hhelp hsteps hcapacity hpages
  rw [hsource, hemit, htrace, hdisasm, hdebug, hhelp, hsteps, hcapacity, hpages]

theorem mem_settings {s : Setting} (hg : g ∈ gs) (hs : g.setting? = some s) : s ∈ settings gs :=
  List.mem_filterMap.mpr ⟨g, hg, hs⟩

/-- What is not among the settings of the groups has not been set. -/
theorem Reflects.emitPath_eq_none (h : Reflects gs o) (hfree : .emitPath ∉ settings gs) : o.emitPath = none :=
  Option.eq_none_iff_forall_ne_some.mpr fun path hpath => hfree (mem_settings ((h.emitPath path).mp hpath) rfl)

theorem Reflects.get_eq_none {flag : NumberFlag} (h : Reflects gs o) (hfree : .number flag ∉ settings gs) :
    flag.get o = none :=
  Option.eq_none_iff_forall_ne_some.mpr fun n hn => by
    obtain ⟨raw, spelled, hmem⟩ := (h.number flag n).mp hn
    exact hfree (mem_settings hmem rfl)

theorem Reflects.source_eq_none (h : Reflects gs o) (hfree : .source ∉ settings gs) : o.source = none :=
  Option.eq_none_iff_forall_ne_some.mpr fun path hpath => by
    obtain ⟨plain, free, hmem⟩ := (h.source path).mp hpath
    exact hfree (mem_settings hmem rfl)

/-- One more group, which sets nothing that was set before. -/
theorem Reflects.concat (h : Reflects gs o) (hfree : ∀ s, g.setting? = some s → s ∉ settings gs) :
    Reflects (gs ++ [g]) (g.apply o) := by
  obtain ⟨htrace, hdisasm, hdebug, hhelp⟩ := g.switches_apply o
  constructor
  · rw [htrace, h.trace, List.mem_append, List.mem_singleton, eq_comm]
  · rw [hdisasm, h.disasm, List.mem_append, List.mem_singleton, eq_comm]
  · rw [hdebug, h.debug, List.mem_append, List.mem_singleton, eq_comm]
  · simp only [hhelp, h.help, List.mem_append, List.mem_singleton, exists_or, eq_comm]
  · intro path
    rw [Group.emitPath_apply fun hs => h.emitPath_eq_none (hfree _ hs), h.emitPath, List.mem_append,
      List.mem_singleton, eq_comm]
  · intro flag n
    rw [Group.get_apply fun hs => h.get_eq_none (hfree _ hs), h.number]
    simp only [List.mem_append, List.mem_singleton, exists_or, eq_comm]
  · intro path
    rw [Group.source_apply fun hs => h.source_eq_none (hfree _ hs), h.source]
    simp only [List.mem_append, List.mem_singleton, exists_or, eq_comm]

def Once (gs : List Group) : Prop := (settings gs).Nodup

instance (gs : List Group) : Decidable (Once gs) := inferInstanceAs (Decidable (settings gs).Nodup)

theorem Once.perm (h : Once gs) (hperm : gs.Perm hs) : Once hs := (hperm.filterMap Group.setting?).nodup_iff.mp h

theorem Once.not_mem_settings (h : Once (gs ++ g :: hs)) {s : Setting} (hset : g.setting? = some s) :
    s ∉ settings gs := by
  rw [Once, settings, List.filterMap_append, List.filterMap_cons_some hset, List.nodup_append] at h
  exact fun hmem => h.2.2 s hmem s List.mem_cons_self rfl

/-- The groups that are still to be read are reflected as well in the end. -/
theorem Options.readWords_wordsOf (h : Reflects gs o) (honce : Once (gs ++ hs)) :
    ∃ o', o.readWords (wordsOf hs) = .ok o' ∧ Reflects (gs ++ hs) o' := by
  -- Each group that is read moves from the words to the groups that the options reflect.
  induction hs generalizing gs o with
  | nil => exact ⟨o, readWords.eq_1 o, by rwa [List.append_nil]⟩
  | cons g hs ih =>
    have hfree : ∀ s, g.setting? = some s → s ∉ settings gs := fun s hset => honce.not_mem_settings hset
    rw [wordsOf_cons, o.readWords_words g (wordsOf hs) fun hset => h.source_eq_none (hfree _ hset)]
    rw [List.append_cons] at honce ⊢
    exact ih (h.concat hfree) honce

def Helps (gs : List Group) : Prop := ∃ long, .help long ∈ gs

def Emits (gs : List Group) : Prop := ∃ path, .emit path ∈ gs

def Lists (gs : List Group) : Prop := .disasm ∈ gs

def Debugs (gs : List Group) : Prop := .debug ∈ gs

def Budgets (gs : List Group) : Prop := ∃ raw n spelled, .number .maxSteps raw n spelled ∈ gs

/-- The fault of groups that exclude each other. Of several the first is reported. -/
inductive Conflict (gs : List Group) : OptionFault → Prop where
  | emitWithDisasm (emits : Emits gs) (lists : Lists gs) : Conflict gs .emitWithDisasm
  | outputWithRun (single : ¬(Emits gs ∧ Lists gs)) (output : Emits gs ∨ Lists gs) (run : Debugs gs ∨ Budgets gs) :
    Conflict gs .outputWithRun
  | debugWithBudget (silent : ¬(Emits gs ∨ Lists gs)) (debugs : Debugs gs) (budgets : Budgets gs) :
    Conflict gs .debugWithBudget

theorem Reflects.conflict?_eq_some (h : Reflects gs o) (fault : OptionFault) :
    o.conflict? = some fault ↔ ¬Helps gs ∧ Conflict gs fault := by
  have hemits : o.emitPath.isSome = true ↔ Emits gs := by
    simp only [Option.isSome_iff_exists, h.emitPath, Emits]
  have hbudgets : o.maxSteps.isSome = true ↔ Budgets gs := by
    simp only [Option.isSome_iff_exists, show o.maxSteps = NumberFlag.get .maxSteps o from rfl, h.number, Budgets]
    exact exists_comm
  have hlists : o.disasm = true ↔ Lists gs := h.disasm
  have hdebugs : o.debug = true ↔ Debugs gs := h.debug
  have hboth : (o.emitPath.isSome && o.disasm) = true ↔ Emits gs ∧ Lists gs := by
    rw [Bool.and_eq_true, hemits, hlists]
  have hrun : ((o.emitPath.isSome || o.disasm) && (o.debug || o.maxSteps.isSome)) = true ↔
      (Emits gs ∨ Lists gs) ∧ (Debugs gs ∨ Budgets gs) := by
    rw [Bool.and_eq_true, Bool.or_eq_true, Bool.or_eq_true, hemits, hlists, hdebugs, hbudgets]
  have hpaused : (o.debug && o.maxSteps.isSome) = true ↔ Debugs gs ∧ Budgets gs := by
    rw [Bool.and_eq_true, hdebugs, hbudgets]
  rw [Helps, ← h.help, Options.conflict?]
  constructor
  · intro hfault
    split_ifs at hfault with help both run paused
    · cases hfault
      exact ⟨help, .emitWithDisasm (hboth.mp both).1 (hboth.mp both).2⟩
    · cases hfault
      exact ⟨help, .outputWithRun (mt hboth.mpr both) (hrun.mp run).1 (hrun.mp run).2⟩
    · obtain ⟨debugs, budgets⟩ := hpaused.mp paused
      cases hfault
      exact ⟨help, .debugWithBudget (fun output => run (hrun.mpr ⟨output, .inl debugs⟩)) debugs budgets⟩
  · rintro ⟨help, hconflict⟩
    rw [if_neg help]
    cases hconflict with
    | emitWithDisasm emits lists => rw [if_pos (hboth.mpr ⟨emits, lists⟩)]
    | outputWithRun single output run => rw [if_neg (mt hboth.mp single), if_pos (hrun.mpr ⟨output, run⟩)]
    | debugWithBudget silent debugs budgets =>
      rw [if_neg fun both => silent (.inl (hboth.mp both).1), if_neg fun run => silent (hrun.mp run).1,
        if_pos (hpaused.mpr ⟨debugs, budgets⟩)]

theorem Group.words_eq_cons (g : Group) : ∃ first rest, g.words = first :: rest ∧ first ≠ "debug" := by
  cases g with
  | number flag raw => exact ⟨flag.text, [raw], rfl, by cases flag <;> decide⟩
  | help long => exact ⟨if long then "--help" else "-h", [], rfl, by cases long <;> decide⟩
  | program path plain free => exact ⟨path, [], rfl, free⟩
  | emit path => exact ⟨"--emit", [path], rfl, by decide⟩
  | trace => exact ⟨"--trace", [], rfl, by decide⟩
  | disasm => exact ⟨"--disasm", [], rfl, by decide⟩
  | debug => exact ⟨"--debug", [], rfl, by decide⟩

theorem wordsOf_ne_debug (gs : List Group) (rest : List String) : wordsOf gs ≠ "debug" :: rest := by
  cases gs with
  | nil => simp [wordsOf]
  | cons g gs =>
    obtain ⟨first, others, hwords, hfirst⟩ := g.words_eq_cons
    rw [wordsOf_cons, hwords, List.cons_append]
    exact fun heq => hfirst (List.cons.inj heq).1

def Options.checked (o : Options) : Except OptionFault Options :=
  match o.conflict? with
  | some fault => .error fault
  | none => .ok o

theorem Options.ofArgs_wordsOf (gs : List Group) : ofArgs (wordsOf gs) = readWords {} (wordsOf gs) >>= checked := by
  unfold ofArgs
  split
  case h_1 rest heq => exact absurd heq (wordsOf_ne_debug gs rest)
  case h_2 => rfl

/-- The word in front of the groups is one more group. -/
theorem Options.ofArgs_debug_cons (gs : List Group) :
    ofArgs ("debug" :: wordsOf gs) = ofArgs (wordsOf (.debug :: gs)) := by
  rw [ofArgs_wordsOf, wordsOf_cons, readWords_words {} .debug (wordsOf gs) nofun]
  rfl

theorem Reflects.checked_eq_ok (h : Reflects gs o) (hfine : Helps gs ∨ ¬∃ fault, Conflict gs fault) :
    o.checked = .ok o := by
  have hnone : o.conflict? = none := Option.eq_none_iff_forall_ne_some.mpr fun fault hfault => by
    obtain ⟨hhelp, hconflict⟩ := (h.conflict?_eq_some fault).mp hfault
    exact hfine.elim hhelp fun hno => hno ⟨fault, hconflict⟩
  rw [Options.checked, hnone]

theorem Reflects.checked_eq_error (h : Reflects gs o) {fault : OptionFault} (hhelp : ¬Helps gs)
    (hconflict : Conflict gs fault) : o.checked = .error fault := by
  rw [Options.checked, (h.conflict?_eq_some fault).mpr ⟨hhelp, hconflict⟩]

/-- What is read depends on the groups only, not on their order. -/
theorem Once.ofArgs_eq (honce : Once gs) : ∃ o, Reflects gs o ∧
    ∀ hs : List Group, gs.Perm hs → Options.ofArgs (wordsOf hs) = o.checked := by
  obtain ⟨o, hread, hreflects⟩ := Options.readWords_wordsOf reflects_nil honce
  refine ⟨o, hreflects, fun hs hperm => ?_⟩
  obtain ⟨o', hread', hreflects'⟩ := Options.readWords_wordsOf reflects_nil (honce.perm hperm)
  have hsame : o' = o := hreflects'.unique (hreflects.perm hperm)
  rw [Options.ofArgs_wordsOf, hread', hsame]
  rfl

/-- The groups of a command line can be given in any order. The options that are read are those that are given, or all
orders are refused with the one fault of what is given, and the word `debug` in front is as good as `--debug` anywhere
among the groups. -/
theorem arguments_in_any_order (gs hs : List Group) (hperm : gs.Perm hs) (honce : Once gs) :
    Options.ofArgs (wordsOf hs) = Options.ofArgs (wordsOf gs) ∧
    (Helps gs ∨ (¬∃ fault, Conflict gs fault) → ∃ o, Reflects gs o ∧ Options.ofArgs (wordsOf gs) = .ok o) ∧
    (∀ fault, ¬Helps gs → Conflict gs fault → Options.ofArgs (wordsOf gs) = .error fault) ∧
    ∀ more : List Group, more.Perm (.debug :: gs) →
      Options.ofArgs ("debug" :: wordsOf hs) = Options.ofArgs (wordsOf more) := by
  obtain ⟨o, hreflects, hall⟩ := honce.ofArgs_eq
  have hgs : Options.ofArgs (wordsOf gs) = o.checked := hall gs (.refl gs)
  refine ⟨(hall hs hperm).trans hgs.symm, fun hfine => ⟨o, hreflects, hgs.trans (hreflects.checked_eq_ok hfine)⟩,
    fun fault hhelp hconflict => hgs.trans (hreflects.checked_eq_error hhelp hconflict), fun more hmore => ?_⟩
  have hdebug : Once (.debug :: gs) := honce
  obtain ⟨o', -, hall'⟩ := hdebug.ofArgs_eq
  calc Options.ofArgs ("debug" :: wordsOf hs)
      = Options.ofArgs (wordsOf (.debug :: hs)) := Options.ofArgs_debug_cons hs
    _ = o'.checked := hall' _ (hperm.cons _)
    _ = Options.ofArgs (wordsOf more) := (hall' more hmore.symm).symm

def debugAndEmit : List Group :=
  [.emit "--trace", .number .maxSteps "+5" 5 (by decide), .debug, .program "a.pasm" (by decide) (by decide)]

theorem arguments_in_any_order_debug_emit :
    debugAndEmit.Perm debugAndEmit.reverse ∧ Once debugAndEmit ∧
    Options.ofArgs ["a.pasm", "--debug", "--max-steps", "+5", "--emit", "--trace"] =
      Options.ofArgs ["--emit", "--trace", "--max-steps", "+5", "--debug", "a.pasm"] ∧
    Options.ofArgs ["--emit", "--trace", "--max-steps", "+5", "--debug", "a.pasm"] = .error .outputWithRun := by
  have hperm : debugAndEmit.Perm debugAndEmit.reverse := (List.reverse_perm _).symm
  have honce : Once debugAndEmit := by decide
  have hhelp : ¬Helps debugAndEmit := by rintro ⟨long, hmem⟩; simp [debugAndEmit] at hmem
  have hconflict : Conflict debugAndEmit .outputWithRun :=
    .outputWithRun (fun hboth => by simp [Lists, debugAndEmit] at hboth)
      (.inl ⟨"--trace", by simp [debugAndEmit]⟩) (.inl (by simp [Debugs, debugAndEmit]))
  obtain ⟨hsame, -, herror, -⟩ := arguments_in_any_order debugAndEmit debugAndEmit.reverse hperm honce
  exact ⟨hperm, honce, hsame, herror _ hhelp hconflict⟩

end StackMachine.CommandLine
