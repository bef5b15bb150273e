import CxxDead.Generic
import CxxDead.KeyInputs
import CxxDead.RemovedArguments
/-!
# The inputs of a command

A command names precompiled headers, modules and module maps in three ways: with a separate
operand, joined to the option, or forwarded to the compiler proper. `collectCommandInputs`
looks for the options in what is left of the arguments.

- `collectCommandInputs_ok_iff`: what is looked up, and that all of it must be readable.
- `leaves_items`: what is left of the arguments.
- `lookups_items`: when the paths that are given are what is looked up.
- `normalizeCompileCommand_inputs`: when normalizing finds the inputs, and that a key tells
  their contents apart.
-/

namespace CxxDead

open Lib

/-! ## Sorted paths -/

theorem pathOrder_eq_iff {p q : Path} : pathOrder p = pathOrder q ↔ p.components = q.components := by
  have hsame : p.components = q.components ↔ p.generic = q.generic := by
    rw [← Path.same_iff, Path.same, beq_iff_eq]
  rw [hsame, pathOrder, pathOrder, toLex_inj, Prod.mk.injEq]
  constructor
  · rintro ⟨habsolute, hnames⟩
    rw [Path.generic, Path.generic, Path.genericString, Path.genericString, habsolute, hnames]
  · intro h
    have habsolute := Path.isAbsolute_generic p
    have hnames := Path.names_generic p
    rw [h, Path.isAbsolute_generic] at habsolute
    rw [h, Path.names_generic] at hnames
    exact ⟨habsolute.symm, hnames.symm⟩

theorem sortPaths_sorted (paths : List Path) : (sortPaths paths).Pairwise fun p q => pathOrder p < pathOrder q := by
  rw [sortPaths, uniqueOn_congr fun p q => pathOrder_eq_iff.symm]
  convert uniqueOn_sorted pathOrder (sortOn_pairwise pathOrder paths)

theorem mem_sortPaths {paths : List Path} {p : Path} (h : p ∈ sortPaths paths) : p ∈ paths :=
  (mem_sortOn pathOrder).1 ((uniqueOn_sublist _ _).subset h)

theorem same_mem_sortPaths {paths : List Path} {p : Path} (h : p ∈ paths) : ∃ q ∈ sortPaths paths, q.same p = true := by
  obtain ⟨q, hq, heq⟩ := key_mem_uniqueOn Path.components ((mem_sortOn pathOrder).2 h)
  exact ⟨q, hq, beq_iff_eq.2 heq⟩

namespace CommandInputs

open RemovedArguments

/-! ## What is looked up -/

/-- The text of a path in the value of an option. -/
def pathText (option value : Bytes) : Bytes :=
  if option = lit "-fmodule-file" then withoutModuleName value else value

def inputOption (argument : Bytes) : Option Bytes :=
  separateOptions.find? fun option => argument == option || (joinedValue argument option).isSome

/-- The options found in the arguments, with the text of their path. -/
def lookups : List Bytes → Except Exception (List (Bytes × Bytes))
  | [] => .ok []
  | argument :: rest =>
    match inputOption argument with
    | none => lookups rest
    | some option =>
      match joinedValue argument option with
      | some value => (lookups rest).map ((option, pathText option value) :: ·)
      | none =>
        match rest with
        | [] => .error (.runtimeError (option ++ lit " requires a path"))
        | value :: rest => (lookups rest).map ((option, pathText option value) :: ·)

section Collect
variable (disk : Disk) (command : CompileCommand)

/-- The text of a path names a regular file that can be read. -/
structure Names (found : Bytes × Bytes) (path : Path) : Prop where
  nonempty : found.2 ≠ []
  normalizes : normalizedPath disk found.2 command.directory = .ok path
  readable : disk.commandInput path = .readable

variable {disk command}

theorem commandInputPath_ok_iff {option value : Bytes} {path : Path} :
    commandInputPath disk value option command = .ok path ↔
      Names disk command (option, pathText option value) path := by
  unfold commandInputPath
  rw [← pathText]
  generalize htext : pathText option value = text
  cases text with
  | nil => exact iff_of_false (fun h => nomatch h) fun h => h.nonempty rfl
  | cons c text =>
    simp only [List.isEmpty_cons, Bool.false_eq_true, if_false, bind, Except.bind, pure, Except.pure]
    cases hpath : normalizedPath disk (c :: text) command.directory with
    | error e => exact iff_of_false (fun h => nomatch h) fun h => nomatch hpath.symm.trans h.normalizes
    | ok path' =>
      dsimp only
      have hsame : Names disk command (option, c :: text) path → path = path' :=
        fun h => Except.ok.inj (h.normalizes.symm.trans hpath)
      cases hinput : disk.commandInput path' with
      | irregular =>
        refine iff_of_false (fun h => nomatch h) fun h => ?_
        rw [hsame h] at h
        exact nomatch hinput.symm.trans h.readable
      | unreadable =>
        refine iff_of_false (fun h => nomatch h) fun h => ?_
        rw [hsame h] at h
        exact nomatch hinput.symm.trans h.readable
      | readable =>
        constructor
        · rintro ⟨⟩
          exact ⟨List.cons_ne_nil _ _, hpath, hinput⟩
        · intro h
          rw [hsame h]

theorem collect_cons_ok_iff {option value : Bytes} {m : Except Exception (List Path)}
    {l : Except Exception (List (Bytes × Bytes))}
    (ih : ∀ paths, m = .ok paths ↔ ∃ found, l = .ok found ∧ List.Forall₂ (Names disk command) found paths)
    (paths : List Path) :
    (do
      let path ← commandInputPath disk value option command
      pure (path :: (← m))) = .ok paths ↔
      ∃ found, l.map ((option, pathText option value) :: ·) = .ok found ∧
        List.Forall₂ (Names disk command) found paths := by
  simp only [map_eq_ok]
  constructor
  · intro h
    cases hpath : commandInputPath disk value option command with
    | error e =>
      rw [hpath] at h
      exact nomatch h
    | ok path =>
      cases hm : m with
      | error e =>
        rw [hpath, hm] at h
        exact nomatch h
      | ok rest =>
        rw [hpath, hm] at h
        obtain rfl : path :: rest = paths := Except.ok.inj h
        obtain ⟨found, hfound, hnames⟩ := (ih rest).1 hm
        exact ⟨_, ⟨found, hfound, rfl⟩, .cons (commandInputPath_ok_iff.1 hpath) hnames⟩
  · rintro ⟨_, ⟨found, hfound, rfl⟩, hnames⟩
    cases hnames with
    | cons hname hrest =>
      rw [commandInputPath_ok_iff.2 hname, (ih _).2 ⟨found, hfound, hrest⟩]
      rfl

/-- Collecting succeeds exactly when everything that is looked up can be read. -/
theorem collectCommandInputs_ok_iff {arguments : List Bytes} {paths : List Path} :
    collectCommandInputs disk command arguments = .ok paths ↔
      ∃ found, lookups arguments = .ok found ∧ List.Forall₂ (Names disk command) found paths := by
  induction arguments using lookups.induct generalizing paths with
  | case1 =>
    rw [collectCommandInputs, lookups]
    constructor
    · rintro ⟨⟩
      exact ⟨[], rfl, .nil⟩
    · rintro ⟨_, ⟨⟩, hnames⟩
      cases hnames
      rfl
  | case2 argument rest hoption ih =>
    rw [lookups, hoption, collectCommandInputs]
    rw [inputOption] at hoption
    rw [hoption]
    exact ih
  | case3 argument rest option hoption value hvalue ih =>
    rw [lookups, hoption, collectCommandInputs]
    rw [inputOption] at hoption
    rw [hoption]
    simp only [hvalue]
    exact collect_cons_ok_iff (fun _ => ih) paths
  | case4 argument option hoption hvalue =>
    rw [lookups, hoption, collectCommandInputs]
    rw [inputOption] at hoption
    rw [hoption]
    simp only [hvalue]
    exact iff_of_false (fun h => nomatch h) fun ⟨_, h, _⟩ => nomatch h
  | case5 argument option hoption hvalue value rest ih =>
    rw [lookups, hoption, collectCommandInputs]
    rw [inputOption] at hoption
    rw [hoption]
    simp only [hvalue]
    exact collect_cons_ok_iff (fun _ => ih) paths

end Collect

/-! ## The options of a command -/

/-- A part of the arguments: one that names no input, or an option with its path. -/
inductive Item where
  | other (group : Group)
  | separate (option path : Bytes)
  /-- `option=path`, with the name of a module before the path or without, for the compiler proper or not. -/
  | joined (forwarded : Bool) (option : Bytes) (name : Option Bytes) (path : Bytes)
  /-- `-Xclang option -Xclang path`. -/
  | forwarded (option path : Bytes)

def joinedText (option : Bytes) (name : Option Bytes) (path : Bytes) : Bytes :=
  option ++ ch '=' :: (name.elim path fun name => name ++ ch '=' :: path)

namespace Item

def text : Item → List Bytes
  | other group => group.text
  | separate option path => [option, path]
  | joined false option name path => [joinedText option name path]
  | joined true option name path => [lit "-Xclang", joinedText option name path]
  | forwarded option path => [lit "-Xclang", option, lit "-Xclang", path]

/-- The option with its path. -/
def operand : Item → Option (Bytes × Bytes)
  | other _ => none
  | separate option path | joined _ option _ path | forwarded option path => some (option, path)

end Item

def NotInput (argument : Bytes) : Prop := inputOption argument = none

def ModuleName (option name : Bytes) : Prop :=
  option = lit "-fmodule-file" ∧ name ≠ [] ∧ ch '/' ∉ name ∧ ch '\\' ∉ name ∧ ch '=' ∉ name

section Items
variable (disk : Disk) (command : CompileCommand)

def WellFormed : Item → Prop
  | .other group => RemovedArguments.WellFormed disk command group ∧ ∀ argument ∈ group.kept, NotInput argument
  | .separate option _ | .forwarded option _ => option ∈ separateOptions
  | .joined _ option name _ => option ∈ separateOptions ∧ ∀ n ∈ name, ModuleName option n

/-- Whether an argument is kept when it stands alone. -/
def stays (argument : Bytes) : Bool :=
  (dropsAlone disk command argument).isNone && (isSourceArgument disk argument command).toOption == some false

/-- What is left of the operand of a group whose first argument is taken. -/
def leftAlone (operand : Bytes) : List Bytes := if (dropsAlone disk command operand).isNone then [operand] else []

/-- What is left of the arguments of a group. `pending` says that the first one is taken. -/
def leftOfGroup (pending : Bool) : Group → List Bytes
  | .semantic argument => if pending then [] else [argument]
  | .forwarded argument => if pending then [argument] else [lit "-Xclang", argument]
  | .separate _ operand | .dependencyFile operand => if pending then leftAlone disk command operand else []
  | .diagnosticFile operand =>
    if pending then lit "-serialize-diagnostic-file" :: lit "-Xclang" :: leftAlone disk command operand else []
  | .joined option operand => if !pending && operand.isEmpty then [option] else []
  | _ => []

def left (pending : Bool) : Item → List Bytes
  | .other group => leftOfGroup disk command pending group
  | .separate option path => [option, path]
  | .joined false option name path => [joinedText option name path]
  | .joined true option name path =>
    if pending then [joinedText option name path] else [lit "-Xclang", joinedText option name path]
  | .forwarded option path =>
    if pending then [option, lit "-Xclang", path] else [lit "-Xclang", option, lit "-Xclang", path]

/-- Whether the next argument is taken behind an operand that stands alone, if that names no input. -/
def nextAlone (operand : Bytes) : Option Bool :=
  match dropsAlone disk command operand with
  | some pending => some pending
  | none => if stays disk command operand && (inputOption operand).isNone then some false else none

/-- Whether the next argument is taken behind an item, if the item keeps its option and its path. -/
def next (pending : Bool) : Item → Option Bool
  | .other group =>
    match pending, group with
    | false, .moduleOutput => some true
    | true, .separate _ operand | true, .dependencyFile operand => nextAlone disk command operand
    | true, .diagnosticFile operand =>
      if droppedAfterXclang [operand] = 0 then nextAlone disk command operand else none
    | _, _ => some false
  | .separate _ path => if pending || !stays disk command path then none else some false
  | .joined forwarded _ _ _ => if pending && !forwarded then none else some false
  | .forwarded _ path =>
    if path == lit "-serialize-diagnostic-file" || !stays disk command path then none else some false

/-- Every item keeps its option and its path, and no output is taken for an input. -/
def keeps : Bool → List Item → Bool
  | pending, [] => !pending
  | pending, item :: rest =>
    match next disk command pending item with
    | some pending => keeps pending rest
    | none => false

def leftOf : Bool → List Item → List Bytes
  | _, [] => []
  | pending, item :: rest =>
    left disk command pending item ++ leftOf ((next disk command pending item).getD false) rest

end Items

/-- The path that is given is the one that is looked up. -/
def reads : Item → Bool
  | .other _ => true
  | .separate option path => pathText option path == path
  | .joined _ option name path => name.isSome || pathText option path == path
  | .forwarded _ path => path == lit "-Xclang"

def texts (items : List Item) : List Bytes := items.flatMap Item.text

def operands (items : List Item) : List (Bytes × Bytes) := items.filterMap Item.operand

/-- Every option keeps its path, and every path is looked up as it is given. -/
def tracked (disk : Disk) (command : CompileCommand) (items : List Item) : Bool :=
  keeps disk command false items && items.all reads

/-! ## What is left of the arguments -/

section Left
variable {disk : Disk} {command : CompileCommand}

/-- `kept` is left of the arguments, where the first one may be taken: then there is one. -/
def Leaves (disk : Disk) (command : CompileCommand) (pending : Bool) (arguments kept : List Bytes) : Prop :=
  (pending = true → arguments ≠ []) ∧ keptArguments disk command pending.toNat arguments = .ok kept

theorem leaves_false {arguments kept : List Bytes} :
    Leaves disk command false arguments kept ↔ keptArguments disk command 0 arguments = .ok kept :=
  and_iff_right fun h => nomatch h

/-- The first argument is taken. -/
theorem leaves_taken {argument : Bytes} {rest kept : List Bytes} (h : Leaves disk command false rest kept) :
    Leaves disk command true (argument :: rest) kept :=
  ⟨fun _ => List.cons_ne_nil _ _, h.2⟩

theorem leaves_kept {argument : Bytes} {rest kept : List Bytes}
    (hverdict : verdict disk command argument rest = .ok none) (h : Leaves disk command false rest kept) :
    Leaves disk command false (argument :: rest) (argument :: kept) := by
  rw [leaves_false, keptArguments_cons, hverdict]
  exact map_eq_ok.2 ⟨kept, h.2, rfl⟩

theorem leaves_dropped {argument : Bytes} {rest kept : List Bytes} {skip : Nat}
    (hverdict : verdict disk command argument rest = .ok (some skip))
    (h : keptArguments disk command skip rest = .ok kept) : Leaves disk command false (argument :: rest) kept := by
  rw [leaves_false, keptArguments_cons, hverdict]
  exact h

/-- A flag that takes the next argument, which must be there. -/
theorem leaves_taking {argument : Bytes} (hflag : flagsWithValue.contains argument = true) {rest kept : List Bytes}
    (h : Leaves disk command true rest kept) : Leaves disk command false (argument :: rest) kept := by
  obtain ⟨hnonempty, hkept⟩ := h
  cases rest with
  | nil => exact absurd rfl (hnonempty rfl)
  | cons next rest => exact leaves_dropped (verdict_flag hflag next rest) hkept

/-- An argument that is looked at although it is an operand. -/
theorem leaves_alone {argument : Bytes} {rest kept : List Bytes} (hforwarding : droppedAfterXclang rest = 0) :
    (∀ pending, dropsAlone disk command argument = some pending → Leaves disk command pending rest kept →
      Leaves disk command false (argument :: rest) kept) ∧
    (stays disk command argument = true → Leaves disk command false rest kept →
      Leaves disk command false (argument :: rest) (argument :: kept)) := by
  unfold stays dropsAlone
  by_cases hflag : flagsWithValue.contains argument = true
  · rw [if_pos hflag]
    refine ⟨?_, fun h => nomatch h⟩
    rintro _ ⟨⟩ h
    exact leaves_taking hflag h
  rw [if_neg hflag]
  have hflag : flagsWithValue.contains argument = false := by simpa using hflag
  have hdrop : ∀ b, verdict disk command argument rest = .ok (some 0) →
      some false = some b → Leaves disk command b rest kept → Leaves disk command false (argument :: rest) kept := by
    rintro _ hverdict ⟨⟩ h
    exact leaves_dropped hverdict h.2
  cases houtput : isOutputOption argument with
  | true => exact ⟨fun pending => hdrop pending (verdict_output hflag houtput), fun h => nomatch h⟩
  | false =>
    have hverdict : verdict disk command argument rest = _ := verdict_other hflag houtput fun _ => hforwarding
    cases hpreprocessor : isPreprocessorOption argument with
    | true =>
      rw [hpreprocessor, if_pos rfl] at hverdict
      exact ⟨fun pending => hdrop pending hverdict, fun h => nomatch h⟩
    | false =>
      rw [hpreprocessor, if_neg Bool.false_ne_true] at hverdict
      cases hsource : isSourceArgument disk argument command with
      | error e => exact ⟨fun _ h => (nomatch h), fun h => nomatch h⟩
      | ok source =>
        rw [hsource] at hverdict
        cases source with
        | true => exact ⟨fun pending => hdrop pending hverdict, fun h => nomatch h⟩
        | false => exact ⟨fun _ h => (nomatch h), fun _ => leaves_kept hverdict⟩

section Group
variable {group : Group} {tail kept : List Bytes} {pending : Bool}

theorem droppedAfterXclang_alone {argument : Bytes} (h : droppedAfterXclang [argument] = 0) (tail : List Bytes) :
    droppedAfterXclang (argument :: tail) = 0 := by
  refine if_neg fun hfile => ?_
  have hone : droppedAfterXclang [argument] = 1 := if_pos hfile
  rw [h] at hone
  cases hone

theorem leaves_group (hgroup : RemovedArguments.WellFormed disk command group)
    (hforwarding : droppedAfterXclang tail = 0) {pending' : Bool}
    (hnext : next disk command pending (.other group) = some pending') (h : Leaves disk command pending' tail kept) :
    Leaves disk command pending (group.text ++ tail) (leftOfGroup disk command pending group ++ kept) := by
  -- the operand of an option that was taken itself stands alone
  have hoperand : ∀ operand, nextAlone disk command operand = some pending' →
      Leaves disk command false (operand :: tail) (leftAlone disk command operand ++ kept) := by
    intro operand hsome
    unfold nextAlone at hsome
    unfold leftAlone
    cases hdrops : dropsAlone disk command operand with
    | some b =>
      rw [hdrops] at hsome
      obtain rfl : b = pending' := Option.some.inj hsome
      exact (leaves_alone hforwarding).1 b hdrops h
    | none =>
      rw [hdrops] at hsome
      obtain ⟨hstays, heq⟩ := Option.ite_none_right_eq_some.1 hsome
      obtain rfl : false = pending' := Option.some.inj heq
      exact (leaves_alone hforwarding).2 (Bool.and_eq_true_iff.1 hstays).1 h
  -- one argument is dropped, by its own verdict or because it is taken
  have hsingle : ∀ argument, verdict disk command argument tail = .ok (some 0) →
      Leaves disk command false tail kept → Leaves disk command pending (argument :: tail) kept := by
    intro argument hverdict h
    cases pending with
    | false => exact leaves_dropped hverdict h.2
    | true => exact leaves_taken h
  cases group with
  | semantic argument =>
    cases pending with
    | false =>
      cases hnext
      exact leaves_kept hgroup.verdict h
    | true =>
      cases hnext
      exact leaves_taken h
  | forwarded argument =>
    have hverdict : verdict disk command (lit "-Xclang") (argument :: tail) = .ok none :=
      verdict_forwarding (@droppedAfterXclang_text disk command (.semantic argument) hgroup tail)
    cases pending with
    | false =>
      cases hnext
      exact leaves_kept hverdict (leaves_kept hgroup.verdict h)
    | true =>
      cases hnext
      exact leaves_taken (leaves_kept hgroup.verdict h)
  | separate option operand =>
    cases pending with
    | false =>
      cases hnext
      have hlisted : ∀ option ∈ operandOptions, flagsWithValue.contains option = true := by decide
      exact leaves_taking (hlisted option hgroup) (leaves_taken h)
    | true => exact leaves_taken (hoperand operand hnext)
  | joined option operand =>
    cases hnext' : pending with
    | false =>
      subst hnext'
      cases hnext
      have hverdict : verdict disk command (option ++ operand) tail = _ := verdict_joined hgroup
      cases operand with
      | nil =>
        rw [List.append_nil] at hverdict
        show Leaves disk command false ((option ++ []) :: tail) (option :: kept)
        rw [List.append_nil]
        exact leaves_kept hverdict h
      | cons c operand => exact leaves_dropped hverdict h.2
    | true =>
      subst hnext'
      cases hnext
      exact leaves_taken h
  | flag argument =>
    obtain rfl : false = pending' := by cases pending <;> exact Option.some.inj hnext
    exact hsingle _ (flag_verdict hgroup) h
  | moduleOutput =>
    cases pending with
    | false =>
      cases hnext
      exact leaves_taking (by decide) h
    | true =>
      cases hnext
      exact leaves_taken h
  | dependencyFile operand =>
    cases pending with
    | false =>
      cases hnext
      exact leaves_dropped (show verdict _ _ _ _ = .ok (some 3) from rfl) h.2
    | true => exact leaves_taken (leaves_taking (by decide) (leaves_taken (hoperand operand hnext)))
  | diagnosticFile operand =>
    cases pending with
    | false =>
      cases hnext
      exact leaves_dropped (show verdict _ _ _ _ = .ok (some 3) from rfl) h.2
    | true =>
      obtain ⟨hdropped, hnext⟩ := Option.ite_none_right_eq_some.1 hnext
      have hoption : verdict disk command (lit "-serialize-diagnostic-file") (lit "-Xclang" :: operand :: tail) = .ok none :=
        rfl
      have hforward : verdict disk command (lit "-Xclang") (operand :: tail) = .ok none :=
        verdict_forwarding (droppedAfterXclang_alone hdropped tail)
      -- the first -Xclang is taken, what it forwards and the second one stay
      exact leaves_taken (leaves_kept hoption (leaves_kept hforward (hoperand operand hnext)))
  | preprocessor option operand =>
    obtain rfl : false = pending' := by cases pending <;> exact Option.some.inj hnext
    exact hsingle _ (verdict_preprocessor hgroup) h
  | source argument =>
    obtain rfl : false = pending' := by cases pending <;> exact Option.some.inj hnext
    exact hsingle _ (verdict_source hgroup) h

end Group

/-! ### Options for inputs -/

theorem semantic_option {option : Bytes} (h : option ∈ separateOptions) : Semantic disk command option := by
  have hlisted : ∀ option ∈ separateOptions, option ≠ lit "-Xclang" ∧ option ≠ lit "-serialize-diagnostic-file" ∧
      flagsWithValue.contains option = false ∧ isOutputOption option = false ∧ isPreprocessorOption option = false ∧
      option.head? = some (ch '-') := by decide
  obtain ⟨hforwarding, hdiagnostics, hflag, houtput, hpreprocessor, hdash⟩ := hlisted option h
  exact ⟨hforwarding, hdiagnostics, hflag, houtput, hpreprocessor, isSourceArgument_dash hdash⟩

/-- Two words that differ early: nothing that starts with one is the other, or starts with it. -/
def apart (word other : Bytes) : Bool := !word.isPrefixOf other && !other.isPrefixOf word

theorem apart_append {word other : Bytes} (h : apart word other = true) (rest : Bytes) :
    word ++ rest ≠ other ∧ other.isPrefixOf (word ++ rest) = false := by
  rw [apart, Bool.and_eq_true, Bool.not_eq_true', Bool.not_eq_true'] at h
  have hnot : ¬ other <+: word ++ rest := by
    intro hprefix
    rcases List.prefix_or_prefix_of_prefix hprefix (List.prefix_append word rest) with hle | hle
    · exact nomatch h.2.symm.trans (List.isPrefixOf_iff_prefix.2 hle)
    · exact nomatch h.1.symm.trans (List.isPrefixOf_iff_prefix.2 hle)
  refine ⟨fun heq => hnot (heq ▸ List.prefix_rfl), ?_⟩
  rw [Bool.eq_false_iff]
  exact fun hprefix => hnot (List.isPrefixOf_iff_prefix.1 hprefix)

theorem joinedText_eq (option : Bytes) (name : Option Bytes) (path : Bytes) :
    joinedText option name path = (option ++ [ch '=']) ++ name.elim path fun name => name ++ ch '=' :: path := by
  rw [joinedText, List.append_assoc, List.singleton_append]

theorem semantic_joined {option : Bytes} (h : option ∈ separateOptions) (name : Option Bytes) (path : Bytes) :
    Semantic disk command (joinedText option name path) := by
  have hlisted : ∀ option ∈ separateOptions, (∀ other ∈ [lit "-Xclang", lit "-serialize-diagnostic-file", lit "-o",
      lit "-Wp,-MD,", lit "-Wp,-MMD,"] ++ (flagsWithValue ++ (removedFlags ++ joinedOutputOptions)),
      apart (option ++ [ch '=']) other = true) ∧ (option ++ [ch '=']).head? = some (ch '-') ∧ option ≠ [] := by decide
  obtain ⟨hapart, hdash, hnonempty⟩ := hlisted option h
  rw [joinedText_eq]
  generalize name.elim path (fun name => name ++ ch '=' :: path) = rest
  have hne := fun other hother => apart_append (hapart other hother) rest
  simp only [List.forall_mem_append, List.forall_mem_cons] at hne
  obtain ⟨⟨hforwarding, hdiagnostics, ho, hmd, hmmd, -⟩, hflags, hremoved, hjoined⟩ := hne
  refine ⟨hforwarding.1, hdiagnostics.1, ?_, ?_, ?_, isSourceArgument_dash ?_⟩
  · rw [List.contains_eq_mem, decide_eq_false_iff_not]
    exact fun hmem => (hflags _ hmem).1 rfl
  · have hany : joinedOutputOptions.any (fun other => other.isPrefixOf (option ++ [ch '='] ++ rest) &&
        decide ((option ++ [ch '='] ++ rest).length > other.length)) = false := by
      refine List.any_eq_false.2 fun other hmem => ?_
      rw [(hjoined other hmem).2]
      exact Bool.false_ne_true
    have hcontains : removedFlags.contains (option ++ [ch '='] ++ rest) = false := by
      rw [List.contains_eq_mem, decide_eq_false_iff_not]
      exact fun hmem => (hremoved _ hmem).1 rfl
    rw [isOutputOption, hcontains, hany, ho.2]
    rfl
  · rw [isPreprocessorOption, hmd.2, hmmd.2]
    rfl
  · rw [List.head?_append_of_ne_nil _ (List.append_ne_nil_of_left_ne_nil hnonempty _)]
    exact hdash

theorem droppedAfterXclang_semantic {argument : Bytes} (h : Semantic disk command argument) (tail : List Bytes) :
    droppedAfterXclang (argument :: tail) = 0 :=
  @droppedAfterXclang_text disk command (.semantic argument) h tail

section Item
variable {item : Item} {tail kept : List Bytes} {pending : Bool}

/-- No item starts with what `-Xclang` would take with it. -/
theorem droppedAfterXclang_item (hitem : WellFormed disk command item) (tail : List Bytes) :
    droppedAfterXclang (item.text ++ tail) = 0 := by
  have hforwarding : ∀ rest, droppedAfterXclang (lit "-Xclang" :: rest) = 0 := fun rest => rfl
  cases item with
  | other group => exact droppedAfterXclang_text hitem.1 tail
  | separate option path =>
    have hsemantic : Semantic disk command option := semantic_option hitem
    exact droppedAfterXclang_semantic hsemantic _
  | joined forwarded option name path =>
    have hsemantic : Semantic disk command (joinedText option name path) := semantic_joined hitem.1 name path
    cases forwarded with
    | false => exact droppedAfterXclang_semantic hsemantic _
    | true => exact hforwarding _
  | forwarded option path => exact hforwarding _

theorem leaves_item (hitem : WellFormed disk command item) (hforwarding : droppedAfterXclang tail = 0) {pending' : Bool}
    (hnext : next disk command pending item = some pending') (h : Leaves disk command pending' tail kept) :
    Leaves disk command pending (item.text ++ tail) (left disk command pending item ++ kept) := by
  have hfirst : ∀ {rest kept}, droppedAfterXclang rest = 0 → Leaves disk command false rest kept →
      Leaves disk command pending (lit "-Xclang" :: rest) ((if pending then [] else [lit "-Xclang"]) ++ kept) := by
    intro rest kept hrest h
    cases pending with
    | false => exact leaves_kept (verdict_forwarding hrest) h
    | true => exact leaves_taken h
  cases item with
  | other group => exact leaves_group hitem.1 hforwarding hnext h
  | separate option path =>
    obtain ⟨hnot, heq⟩ := Option.ite_none_left_eq_some.1 hnext
    obtain rfl : false = pending' := Option.some.inj heq
    rw [Bool.or_eq_true, not_or, Bool.not_eq_true, Bool.not_eq_true, Bool.not_eq_false'] at hnot
    obtain ⟨rfl, hstays⟩ := hnot
    exact leaves_kept (semantic_option hitem).verdict ((leaves_alone hforwarding).2 hstays h)
  | joined forwarded option name path =>
    obtain ⟨hnot, heq⟩ := Option.ite_none_left_eq_some.1 hnext
    obtain rfl : false = pending' := Option.some.inj heq
    have hsemantic : Semantic disk command (joinedText option name path) := semantic_joined hitem.1 name path
    have hjoined := leaves_kept hsemantic.verdict h
    cases forwarded with
    | false =>
      obtain rfl : pending = false := by simpa using hnot
      exact hjoined
    | true =>
      have hleaves := hfirst (droppedAfterXclang_semantic hsemantic tail) hjoined
      cases pending <;> exact hleaves
  | forwarded option path =>
    obtain ⟨hnot, heq⟩ := Option.ite_none_left_eq_some.1 hnext
    obtain rfl : false = pending' := Option.some.inj heq
    rw [Bool.or_eq_true, not_or, Bool.not_eq_true, Bool.not_eq_true, Bool.not_eq_false', beq_eq_false_iff_ne] at hnot
    obtain ⟨hdiagnostics, hstays⟩ := hnot
    have hfile : path ≠ lit "-dependency-file" := by
      rintro rfl
      exact nomatch hstays
    have hpath : droppedAfterXclang (path :: tail) = 0 := if_neg (not_or.2 ⟨hfile, hdiagnostics⟩)
    have halone := leaves_kept (verdict_forwarding hpath) ((leaves_alone hforwarding).2 hstays h)
    have hsemantic : Semantic disk command option := semantic_option hitem
    have hleaves := hfirst (droppedAfterXclang_semantic hsemantic _) (leaves_kept hsemantic.verdict halone)
    cases pending <;> exact hleaves

end Item

theorem leaves_items {items : List Item} (h : ∀ item ∈ items, WellFormed disk command item) (pending : Bool)
    (hkeeps : keeps disk command pending items = true) :
    Leaves disk command pending (texts items) (leftOf disk command pending items) := by
  induction items generalizing pending with
  | nil =>
    cases pending with
    | false => exact leaves_false.2 rfl
    | true => exact nomatch hkeeps
  | cons item rest ih =>
    obtain ⟨hitem, hrest⟩ := List.forall_mem_cons.1 h
    have hforwarding : droppedAfterXclang (texts rest) = 0 := by
      cases rest with
      | nil => rfl
      | cons item' rest' => exact droppedAfterXclang_item (hrest item' List.mem_cons_self) _
    rw [keeps] at hkeeps
    rw [leftOf]
    cases hnext : next disk command pending item with
    | none =>
      rw [hnext] at hkeeps
      exact nomatch hkeeps
    | some pending' =>
      rw [hnext] at hkeeps
      exact leaves_item hitem hforwarding hnext (ih hrest pending' hkeeps)

end Left

/-! ## What is found in it -/

section Lookups
variable {disk : Disk} {command : CompileCommand}

theorem lookups_notInput {argument : Bytes} (h : NotInput argument) (rest : List Bytes) :
    lookups (argument :: rest) = lookups rest := by
  rw [lookups, h]

theorem lookups_notInputs {arguments : List Bytes} (h : ∀ argument ∈ arguments, NotInput argument) (rest : List Bytes) :
    lookups (arguments ++ rest) = lookups rest := by
  induction arguments with
  | nil => rfl
  | cons argument arguments ih =>
    obtain ⟨hargument, harguments⟩ := List.forall_mem_cons.1 h
    rw [List.cons_append, lookups_notInput hargument, ih harguments]

theorem lookups_separate {option : Bytes} (h : option ∈ separateOptions) (value : Bytes) (rest : List Bytes) :
    lookups (option :: value :: rest) = (lookups rest).map ((option, pathText option value) :: ·) := by
  have hlisted : ∀ option ∈ separateOptions, inputOption option = some option ∧ joinedValue option option = none := by
    decide
  obtain ⟨hoption, hvalue⟩ := hlisted option h
  rw [lookups, hoption]
  simp only [hvalue]

theorem joinedValue_self (option value : Bytes) : joinedValue (option ++ ch '=' :: value) option = some value := by
  have hprefix : option.isPrefixOf (option ++ ch '=' :: value) = true :=
    List.isPrefixOf_iff_prefix.2 (List.prefix_append _ _)
  have hdrop : (option ++ ch '=' :: value).drop (option.length + 1) = value := by
    rw [← List.drop_drop, List.drop_left, List.drop_one, List.tail_cons]
  rw [joinedValue, hprefix, hdrop, List.getElem?_append_right (le_refl _), Nat.sub_self]
  rfl

theorem inputOption_joined {option : Bytes} (h : option ∈ separateOptions) (value : Bytes) :
    inputOption (option ++ ch '=' :: value) = some option := by
  have hlisted : ∀ option ∈ separateOptions, ∀ other ∈ separateOptions, other ≠ option → apart option other = true := by
    decide
  have hself : (option ++ ch '=' :: value == option || (joinedValue (option ++ ch '=' :: value) option).isSome) = true := by
    rw [joinedValue_self, Option.isSome_some, Bool.or_true]
  have hother : ∀ other ∈ separateOptions, other ≠ option →
      (option ++ ch '=' :: value == other || (joinedValue (option ++ ch '=' :: value) other).isSome) = false := by
    intro other hmem hne
    obtain ⟨htext, hprefix⟩ := apart_append (hlisted option h other hmem hne) (ch '=' :: value)
    rw [joinedValue, hprefix, beq_eq_false_iff_ne.2 htext]
    rfl
  unfold inputOption
  cases hfound : separateOptions.find? fun other => option ++ ch '=' :: value == other ||
      (joinedValue (option ++ ch '=' :: value) other).isSome with
  | none => exact absurd hself (List.find?_eq_none.1 hfound option h)
  | some other =>
    by_cases hne : other = option
    · rw [hne]
    · have hsome := List.find?_some hfound
      exact absurd ((hother other (List.mem_of_find?_eq_some hfound) hne).symm.trans hsome) Bool.false_ne_true

theorem pathText_named {option name : Bytes} (h : ModuleName option name) (path : Bytes) :
    pathText option (name ++ ch '=' :: path) = path := by
  obtain ⟨rfl, hnonempty, hslash, hbackslash, hequals⟩ := h
  have hname : (name ++ ch '=' :: path).takeWhile (· != ch '=') = name := by
    refine takeWhile_append_of_stop (fun c hc => bne_iff_ne.2 ?_) (by decide) path
    rintro rfl
    exact hequals hc
  have hlength : name.length < (name ++ ch '=' :: path).length := by
    rw [List.length_append, List.length_cons]
    omega
  rw [pathText, if_pos rfl, withoutModuleName, hname]
  simp only [hlength, hnonempty, hslash, hbackslash, not_false_eq_true, ne_eq, and_self, if_true]
  rw [← List.drop_drop, List.drop_left, List.drop_one, List.tail_cons]

theorem lookups_joined {option : Bytes} (h : option ∈ separateOptions) (value : Bytes) (rest : List Bytes) :
    lookups ((option ++ ch '=' :: value) :: rest) = (lookups rest).map ((option, pathText option value) :: ·) := by
  rw [lookups, inputOption_joined h]
  simp only [joinedValue_self]

theorem leftOfGroup_notInput {group : Group} {pending pending' : Bool} (hitem : WellFormed disk command (.other group))
    (hnext : next disk command pending (.other group) = some pending') :
    ∀ argument ∈ leftOfGroup disk command pending group, NotInput argument := by
  obtain ⟨hgroup, hkept⟩ := hitem
  have hoperand : ∀ operand, nextAlone disk command operand = some pending' →
      ∀ argument ∈ leftAlone disk command operand, NotInput argument := by
    intro operand hsome argument hmem
    obtain ⟨hnone, hmem⟩ := List.mem_ite_nil_right.1 hmem
    obtain rfl := List.mem_singleton.1 hmem
    rw [nextAlone, Option.isNone_iff_eq_none.1 hnone] at hsome
    obtain ⟨hcond, -⟩ := Option.ite_none_right_eq_some.1 hsome
    exact Option.isNone_iff_eq_none.1 (Bool.and_eq_true_iff.1 hcond).2
  cases group with
  | semantic argument =>
    intro a hmem
    cases pending with
    | false => exact hkept a hmem
    | true => exact nomatch hmem
  | forwarded argument =>
    intro a hmem
    cases pending with
    | false => exact hkept a hmem
    | true => exact hkept a (List.mem_cons_of_mem _ hmem)
  | separate option operand =>
    cases pending with
    | false => exact fun _ hmem => nomatch hmem
    | true => exact hoperand operand hnext
  | dependencyFile operand =>
    cases pending with
    | false => exact fun _ hmem => nomatch hmem
    | true => exact hoperand operand hnext
  | diagnosticFile operand =>
    cases pending with
    | false => exact fun _ hmem => nomatch hmem
    | true =>
      obtain ⟨-, hnext⟩ := Option.ite_none_right_eq_some.1 hnext
      have hoption : NotInput (lit "-serialize-diagnostic-file") := by unfold NotInput; decide
      have hforward : NotInput (lit "-Xclang") := by unfold NotInput; decide
      exact List.forall_mem_cons.2 ⟨hoption, List.forall_mem_cons.2 ⟨hforward, hoperand operand hnext⟩⟩
  | joined option operand =>
    have hlisted : ∀ option ∈ joinedOptions, inputOption option = none := by decide
    intro a hmem
    obtain ⟨-, hmem⟩ := List.mem_ite_nil_right.1 hmem
    obtain rfl := List.mem_singleton.1 hmem
    exact hlisted a hgroup.1
  | _ => exact fun _ hmem => nomatch hmem

/-- An item that keeps its option and its path is read if and only if the path is the one that is looked up. -/
theorem lookups_left {item : Item} {pending pending' : Bool} {tail : List Bytes} {found : List (Bytes × Bytes)}
    (hitem : WellFormed disk command item) (hnext : next disk command pending item = some pending') :
    lookups (left disk command pending item ++ tail) = .ok (item.operand.toList ++ found) ↔
      reads item = true ∧ lookups tail = .ok found := by
  have hforwarding : inputOption (lit "-Xclang") = none := by decide
  have hpair : ∀ {option text path : Bytes} {rest : List Bytes},
      (lookups rest).map ((option, text) :: ·) = .ok ((option, path) :: found) ↔
        text = path ∧ lookups rest = .ok found := by
    intro option text path rest
    rw [ok_cons, Prod.mk.injEq, and_iff_right rfl]
  cases item with
  | other group =>
    show lookups (leftOfGroup disk command pending group ++ tail) = .ok found ↔ _
    rw [lookups_notInputs (leftOfGroup_notInput hitem hnext)]
    exact (and_iff_right rfl).symm
  | separate option path =>
    show lookups (option :: path :: tail) = .ok ((option, path) :: found) ↔ _
    rw [lookups_separate hitem, hpair, reads, beq_iff_eq]
  | joined forwarded option name path =>
    have hreads : reads (.joined forwarded option name path) = true ↔
        pathText option (name.elim path fun name => name ++ ch '=' :: path) = path := by
      cases name with
      | none => rw [reads, Option.isSome_none, Bool.false_or, beq_iff_eq, Option.elim_none]
      | some name => exact iff_of_true rfl (pathText_named (hitem.2 name rfl) path)
    have hjoined : lookups (joinedText option name path :: tail) = .ok ((option, path) :: found) ↔
        reads (.joined forwarded option name path) = true ∧ lookups tail = .ok found := by
      rw [joinedText, lookups_joined hitem.1, hpair, hreads]
    cases forwarded with
    | false => exact hjoined
    | true =>
      cases pending with
      | true => exact hjoined
      | false =>
        show lookups (lit "-Xclang" :: joinedText option name path :: tail) = .ok ((option, path) :: found) ↔ _
        rw [lookups_notInput hforwarding]
        exact hjoined
  | forwarded option path =>
    have htext : ∀ option ∈ separateOptions, pathText option (lit "-Xclang") = lit "-Xclang" := by decide
    have hoption : lookups (option :: lit "-Xclang" :: path :: tail) = .ok ((option, path) :: found) ↔
        reads (.forwarded option path) = true ∧ lookups tail = .ok found := by
      rw [lookups_separate hitem, hpair, htext option hitem, reads, beq_iff_eq, eq_comm]
      refine and_congr_right fun heq => ?_
      rw [heq, lookups_notInput hforwarding]
    cases pending with
    | true => exact hoption
    | false =>
      show lookups (lit "-Xclang" :: option :: lit "-Xclang" :: path :: tail) = .ok ((option, path) :: found) ↔ _
      rw [lookups_notInput hforwarding]
      exact hoption

theorem lookups_items {items : List Item} (h : ∀ item ∈ items, WellFormed disk command item) {pending : Bool}
    (hkeeps : keeps disk command pending items = true) :
    lookups (leftOf disk command pending items) = .ok (operands items) ↔ items.all reads = true := by
  induction items generalizing pending with
  | nil => exact iff_of_true rfl rfl
  | cons item rest ih =>
    obtain ⟨hitem, hrest⟩ := List.forall_mem_cons.1 h
    rw [keeps] at hkeeps
    cases hnext : next disk command pending item with
    | none =>
      rw [hnext] at hkeeps
      exact nomatch hkeeps
    | some pending' =>
      rw [hnext] at hkeeps
      have hoperands : operands (item :: rest) = item.operand.toList ++ operands rest := by
        rw [operands, operands, List.filterMap_cons]
        cases item.operand <;> rfl
      rw [leftOf, hnext, Option.getD_some, hoperands, lookups_left hitem hnext, ih hrest hkeeps, List.all_cons,
        Bool.and_eq_true]

end Lookups

/-! ## Whole commands -/

section Command
variable {disk : Disk} {command resolved : CompileCommand} {compiler : Bytes} {expansion : ResponseExpansion}

/-- Two keys of one command differ when the contents of one of its inputs do. -/
theorem text_ne_of_digest {c c' : CacheKey.Call} {text text' : Bytes} (h : c.text = .ok text) (h' : c'.text = .ok text')
    (htools : CacheKey.SameTools c c') (hcommand : c.command.commandInputs = c'.command.commandInputs) {input : Path}
    (hinput : input ∈ c.command.commandInputs) (hdigest : c.host.sha256File input ≠ c'.host.sha256File input) :
    text ≠ text' := by
  intro heq
  have hinputs := ((CacheKey.text_eq_iff h h' htools).1 heq).commandInputs
  rw [← hcommand, List.forall₂_same] at hinputs
  exact hdigest (hinputs input hinput).2

/-- When every option keeps its path, the paths that are looked up are the ones that are given if and only if each item
is read right. Then the inputs of the command are those paths and the response files, and a cache key depends on the
contents of each. -/
theorem normalizeCompileCommand_inputs (h : Prepared disk command resolved compiler expansion) {items : List Item}
    (hitems : expansion.output = texts items) (hwell : ∀ item ∈ items, WellFormed disk resolved item)
    (hcompiler : NotInput compiler) {files : List Path}
    (hfiles : List.Forall₂ (Names disk resolved) (operands items) files) :
    (keeps disk resolved false items = true →
      keptArguments disk resolved 0 (texts items) = .ok (leftOf disk resolved false items) ∧
        (lookups (compiler :: leftOf disk resolved false items) = .ok (operands items) ↔ items.all reads = true)) ∧
    (tracked disk resolved items = true → ∃ normalized, normalizeCompileCommand disk command = .ok normalized ∧
      normalized.commandInputs = sortPaths (expansion.inputs ++ files) ∧
      normalized.commandInputs.Pairwise (fun p q => pathOrder p < pathOrder q) ∧
      (∀ path ∈ normalized.commandInputs, path ∈ expansion.inputs ++ files) ∧
      (∀ path ∈ expansion.inputs ++ files, ∃ input ∈ normalized.commandInputs, input.same path = true) ∧
      ∀ (c c' : CacheKey.Call) (text text' : Bytes), c.text = .ok text → c'.text = .ok text' → CacheKey.SameTools c c' →
        c.command = normalized.toCompileCommand → c'.command = normalized.toCompileCommand →
        (∃ input ∈ normalized.commandInputs, c.host.sha256File input ≠ c'.host.sha256File input) → text ≠ text') := by
  have hleaves : keeps disk resolved false items = true →
      keptArguments disk resolved 0 (texts items) = .ok (leftOf disk resolved false items) :=
    fun hkeeps => leaves_false.1 (leaves_items hwell false hkeeps)
  have hlookups : keeps disk resolved false items = true →
      (lookups (compiler :: leftOf disk resolved false items) = .ok (operands items) ↔ items.all reads = true) := by
    intro hkeeps
    rw [lookups_notInput hcompiler]
    exact lookups_items hwell hkeeps
  refine ⟨fun hkeeps => ⟨hleaves hkeeps, hlookups hkeeps⟩, fun htracked => ?_⟩
  obtain ⟨hkeeps, hreads⟩ := Bool.and_eq_true_iff.1 htracked
  have hcollected : collectCommandInputs disk resolved (compiler :: leftOf disk resolved false items) = .ok files :=
    collectCommandInputs_ok_iff.2 ⟨operands items, (hlookups hkeeps).2 hreads, hfiles⟩
  have heq := normalizeCompileCommand_eq h
  simp only [hitems, hleaves hkeeps, Except.bind, hcollected] at heq
  obtain ⟨normalized, hnormalized, hcommand⟩ := map_eq_ok.1 heq
  have hinputs : normalized.commandInputs = sortPaths (expansion.inputs ++ files) :=
    congrArg CompileCommand.commandInputs hcommand
  refine ⟨normalized, hnormalized, hinputs, ?_, ?_, ?_, ?_⟩
  · rw [hinputs]
    exact sortPaths_sorted _
  · rw [hinputs]
    exact fun path => mem_sortPaths
  · rw [hinputs]
    exact fun path => same_mem_sortPaths
  · rintro c c' text text' htext htext' htools hc hc' ⟨input, hmem, hdigest⟩
    refine text_ne_of_digest htext htext' htools (by rw [hc, hc']) ?_ hdigest
    rw [hc]
    exact hmem

/-! ### A precompiled header -/

/-- The one file that can be read is `/p/x.pch`. -/
def headerDisk : Disk :=
  { currentPath := .ok ⟨lit "/"⟩, responseFile := fun _ => .cannotOpen
    commandInput := fun path => if path = ⟨lit "/p/x.pch"⟩ then .readable else .irregular }

def headerCommand (items : List Item) : CompileCommand :=
  { directory := ⟨lit "/p"⟩, file := ⟨lit "a.cpp"⟩, arguments := lit "g++" :: texts items }

def headerResolved (items : List Item) : CompileCommand :=
  { directory := ⟨lit "/p"⟩, file := ⟨lit "/p/a.cpp"⟩, arguments := lit "g++" :: texts items }

theorem headerCommand_source (items : List Item) :
    WellFormed headerDisk (headerResolved items) (.other (.source (lit "a.cpp"))) :=
  ⟨(rfl : isSourceArgument headerDisk (lit "a.cpp") _ = .ok true), fun _ h => nomatch h⟩

theorem headerCommand_names (items : List Item) (option : Bytes) :
    Names headerDisk (headerResolved items) (option, lit "x.pch") ⟨lit "/p/x.pch"⟩ :=
  ⟨show lit "x.pch" ≠ [] by decide, rfl, rfl⟩

/-- The header behind its option and as a module file with a name. -/
def readHeader : List Item :=
  [.separate (lit "-include-pch") (lit "x.pch"), .joined false (lit "-fmodule-file") (some (lit "m")) (lit "x.pch"),
   .other (.source (lit "a.cpp"))]

theorem readHeader_inputs : ∃ normalized, normalizeCompileCommand headerDisk (headerCommand readHeader) = .ok normalized ∧
    normalized.commandInputs = [⟨lit "/p/x.pch"⟩] := by
  have hprepared : Prepared headerDisk (headerCommand readHeader) (headerResolved readHeader) (lit "g++")
      { output := texts readHeader } := ⟨by decide, rfl, by decide, texts readHeader, rfl, rfl⟩
  have hname : ModuleName (lit "-fmodule-file") (lit "m") := by
    unfold ModuleName
    decide
  have hwell : ∀ item ∈ readHeader, WellFormed headerDisk (headerResolved readHeader) item :=
    List.forall_mem_cons.2 ⟨show lit "-include-pch" ∈ separateOptions by decide, List.forall_mem_cons.2
      ⟨⟨by decide, fun _ h => Option.mem_some.1 h ▸ hname⟩, List.forall_mem_singleton.2 (headerCommand_source _)⟩⟩
  have hfiles : List.Forall₂ (Names headerDisk (headerResolved readHeader)) (operands readHeader)
      [⟨lit "/p/x.pch"⟩, ⟨lit "/p/x.pch"⟩] := .cons (headerCommand_names _ _) (.cons (headerCommand_names _ _) .nil)
  obtain ⟨normalized, hnormalized, hinputs, -⟩ :=
    (normalizeCompileCommand_inputs hprepared rfl hwell rfl hfiles).2 (by decide)
  exact ⟨normalized, hnormalized, hinputs.trans (by decide)⟩

/-- Forwarded to the compiler proper, the header is not found. -/
def lostHeader : List Item := [.forwarded (lit "-include-pch") (lit "x.pch"), .other (.source (lit "a.cpp"))]

theorem lostHeader_inputs :
    Prepared headerDisk (headerCommand lostHeader) (headerResolved lostHeader) (lit "g++")
      { output := texts lostHeader } ∧
    (∀ item ∈ lostHeader, WellFormed headerDisk (headerResolved lostHeader) item) ∧
    List.Forall₂ (Names headerDisk (headerResolved lostHeader)) (operands lostHeader) [⟨lit "/p/x.pch"⟩] ∧
    (normalizeCompileCommand headerDisk (headerCommand lostHeader)).map (·.toCompileCommand) =
      .error (.runtimeError (lit "command input for -include-pch is not a readable regular file: /p/-Xclang")) := by
  refine ⟨⟨by decide, rfl, by decide, texts lostHeader, rfl, rfl⟩, ?_, .cons (headerCommand_names _ _) .nil, rfl⟩
  exact List.forall_mem_cons.2 ⟨show lit "-include-pch" ∈ separateOptions by decide,
    List.forall_mem_singleton.2 (headerCommand_source _)⟩

end Command

end CommandInputs

end CxxDead
