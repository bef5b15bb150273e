import CxxDead.CompileDatabase
import CxxDead.Lib.Throwing
/-!
# Which arguments are removed

The arguments of a command are groups: an argument that means something to the compiler, or
an option for an output with its operand. `keptArguments` goes over them with a count of
arguments to leave out, and must meet the ends of the groups. It does not behind a bare
`-fmodule-output`, which it takes for an option with an operand.

- `keptArguments_eq`: what is kept, place by place.
- `keptMask_groups`: when the places kept are those of the arguments that mean something.
- `normalizeCompileCommand_groups`: the same for whole commands.
-/

namespace CxxDead

open Lib

namespace RemovedArguments

section Verdict
variable (disk : Disk) (command : CompileCommand)

/-! ## One argument at a time -/

def isPreprocessorOption (argument : Bytes) : Bool :=
  (lit "-Wp,-MD,").isPrefixOf argument || (lit "-Wp,-MMD,").isPrefixOf argument

/-- What becomes of an argument: it is kept, or dropped with as many of those behind it. -/
def verdict (argument : Bytes) (rest : List Bytes) : Except Exception (Option Nat) :=
  if flagsWithValue.contains argument then
    if rest.isEmpty then .error (.runtimeError (lit "compilation flag " ++ argument ++ lit " requires a value"))
    else .ok (some 1)
  else if isOutputOption argument then .ok (some 0)
  else if argument = lit "-Xclang" ∧ droppedAfterXclang rest ≠ 0 then .ok (some (droppedAfterXclang rest))
  else if isPreprocessorOption argument then .ok (some 0)
  else (isSourceArgument disk argument command).map fun source => if source then some 0 else none

/-- Which arguments are kept, the first `skip` ones left out. -/
def keptMask : Nat → List Bytes → Except Exception (List Bool)
  | _, [] => .ok []
  | skip + 1, _ :: rest => (keptMask skip rest).map (false :: ·)
  | 0, argument :: rest =>
    (verdict disk command argument rest).bind fun
      | some skip => (keptMask skip rest).map (false :: ·)
      | none => (keptMask 0 rest).map (true :: ·)

/-- The elements at the places that are set. -/
def select (l : List Bytes) (mask : List Bool) : List Bytes := ((l.zip mask).filter (·.2)).map (·.1)

variable {disk command}

theorem keptArguments_cons (argument : Bytes) (rest : List Bytes) :
    keptArguments disk command 0 (argument :: rest) = (verdict disk command argument rest).bind fun
      | some skip => keptArguments disk command skip rest
      | none => (keptArguments disk command 0 rest).map (argument :: ·) := by
  rw [keptArguments, verdict]
  split
  · split <;> rfl
  · split
    · rfl
    · split
      · rfl
      · rw [← isPreprocessorOption]
        split
        · rfl
        · cases isSourceArgument disk argument command with
          | error e => rfl
          | ok source =>
            cases source with
            | true => rfl
            | false =>
              cases hrest : keptArguments disk command 0 rest with
              | error e => simp [bind, Except.bind, Except.map]
              | ok kept => simp [bind, Except.bind, Except.map, pure, Except.pure]

theorem map_eq_ok {α β : Type} {m : Except Exception α} {f : α → β} {b : β} :
    m.map f = .ok b ↔ ∃ a, m = .ok a ∧ f a = b := by
  cases m <;> simp [Except.map]

theorem keptArguments_eq (skip : Nat) (arguments : List Bytes) :
    keptArguments disk command skip arguments = (keptMask disk command skip arguments).map (select arguments) := by
  have hfalse : ∀ (m : Except Exception (List Bool)) (argument : Bytes) (rest : List Bytes),
      (m.map (false :: ·)).map (select (argument :: rest)) = m.map (select rest) := by
    intro m argument rest
    cases m <;> rfl
  have htrue : ∀ (m : Except Exception (List Bool)) (argument : Bytes) (rest : List Bytes),
      (m.map (true :: ·)).map (select (argument :: rest)) = (m.map (select rest)).map (argument :: ·) := by
    intro m argument rest
    cases m <;> rfl
  induction arguments generalizing skip with
  | nil => cases skip <;> rfl
  | cons argument rest ih =>
    cases skip with
    | succ skip => rw [keptArguments, keptMask, ih skip, hfalse]
    | zero =>
      rw [keptArguments_cons, keptMask]
      cases verdict disk command argument rest with
      | error e => rfl
      | ok kept =>
        cases kept with
        | some skip =>
          show keptArguments disk command skip rest = _
          rw [ih skip]
          exact (hfalse _ _ _).symm
        | none =>
          show (keptArguments disk command 0 rest).map _ = _
          rw [ih 0]
          exact (htrue _ _ _).symm

end Verdict

/-! ## Groups of arguments -/

inductive Group where
  | semantic (argument : Bytes)
  /-- `-Xclang` and an argument for the compiler proper. -/
  | forwarded (argument : Bytes)
  | separate (option operand : Bytes)
  | joined (option operand : Bytes)
  | flag (argument : Bytes)
  /-- `-fmodule-output`, which has no operand of its own. -/
  | moduleOutput
  /-- `-Xclang -dependency-file -Xclang operand`. -/
  | dependencyFile (operand : Bytes)
  /-- `-Xclang -serialize-diagnostic-file -Xclang operand`. -/
  | diagnosticFile (operand : Bytes)
  | preprocessor (option operand : Bytes)
  | source (argument : Bytes)

def operandOptions : List Bytes :=
  [lit "-o", lit "--output", lit "-MF", lit "-MT", lit "-MQ", lit "-MJ", lit "--serialize-diagnostics"]

def joinedOptions : List Bytes :=
  [lit "-o", lit "--output=", lit "-MF", lit "-MT", lit "-MQ", lit "-MJ", lit "--serialize-diagnostics=",
   lit "-fmodule-output="]

namespace Group

def text : Group → List Bytes
  | semantic argument | flag argument | source argument => [argument]
  | forwarded argument => [lit "-Xclang", argument]
  | separate option operand => [option, operand]
  | joined option operand | preprocessor option operand => [option ++ operand]
  | moduleOutput => [lit "-fmodule-output"]
  | dependencyFile operand => [lit "-Xclang", lit "-dependency-file", lit "-Xclang", operand]
  | diagnosticFile operand => [lit "-Xclang", lit "-serialize-diagnostic-file", lit "-Xclang", operand]

/-- The places of the arguments that mean something. -/
def mask : Group → List Bool
  | semantic _ => [true]
  | forwarded _ => [true, true]
  | separate _ _ => [false, false]
  | dependencyFile _ | diagnosticFile _ => [false, false, false, false]
  | joined _ _ | flag _ | moduleOutput | preprocessor _ _ | source _ => [false]

/-- The arguments that mean something. -/
def kept : Group → List Bytes
  | semantic argument => [argument]
  | forwarded argument => [lit "-Xclang", argument]
  | _ => []

end Group

section Groups
variable (disk : Disk) (command : CompileCommand)

/-- An argument that names neither an output nor the source. -/
structure Semantic (argument : Bytes) : Prop where
  not_forwarding : argument ≠ lit "-Xclang"
  not_diagnostics : argument ≠ lit "-serialize-diagnostic-file"
  not_flag : flagsWithValue.contains argument = false
  not_output : isOutputOption argument = false
  not_preprocessor : isPreprocessorOption argument = false
  not_source : isSourceArgument disk argument command = .ok false

def WellFormed : Group → Prop
  | .semantic argument | .forwarded argument => Semantic disk command argument
  | .separate option _ => option ∈ operandOptions
  | .joined option operand => option ∈ joinedOptions ∧ (operand = [] → option.getLast? = some (ch '='))
  | .flag argument => argument ∈ removedFlags
  | .moduleOutput | .dependencyFile _ | .diagnosticFile _ => True
  | .preprocessor option _ => option = lit "-Wp,-MD," ∨ option = lit "-Wp,-MMD,"
  | .source argument => isSourceArgument disk argument command = .ok true

/-- Whether an argument is dropped when it stands alone, and then whether it takes the next one with it. -/
def dropsAlone (argument : Bytes) : Option Bool :=
  if flagsWithValue.contains argument then some true
  else if isOutputOption argument || isPreprocessorOption argument ||
      (isSourceArgument disk argument command).toOption == some true then some false
  else none

/-- Whether the next argument is taken behind a group, if the places of the group are right. `pending` says that its
first argument is taken. -/
def after : Bool → Group → Option Bool
  | false, .moduleOutput => some true
  | false, .joined _ operand => if operand.isEmpty then none else some false
  | false, _ => some false
  | true, .semantic _ | true, .forwarded _ | true, .diagnosticFile _ => none
  | true, .separate _ operand | true, .dependencyFile operand => dropsAlone disk command operand
  | true, _ => some false

/-- No argument that means something is taken for an operand, and no operand for an argument. -/
def fine : Bool → List Group → Bool
  | pending, [] => !pending
  | pending, group :: rest =>
    match after disk command pending group with
    | some pending => fine pending rest
    | none => false

end Groups

/-! ## What becomes of the arguments of a group -/

section Verdict
variable {disk : Disk} {command : CompileCommand} {argument : Bytes} {rest : List Bytes}

theorem isPrefixOf_dash {option : Bytes} (hoption : option.head? = some (ch '-')) (h : argument.head? ≠ some (ch '-')) :
    option.isPrefixOf argument = false := by
  cases option with
  | nil => exact nomatch hoption
  | cons c option =>
    obtain rfl : c = ch '-' := Option.some.inj hoption
    cases argument with
    | nil => rfl
    | cons d argument =>
      have hne : (ch '-' == d) = false := by simpa using fun heq => h (congrArg some heq.symm)
      rw [List.isPrefixOf, hne]
      rfl

theorem not_contains_dash {options : List Bytes} (hoptions : ∀ option ∈ options, option.head? = some (ch '-'))
    (h : argument.head? ≠ some (ch '-')) : options.contains argument = false := by
  rw [List.contains_eq_mem, decide_eq_false_iff_not]
  exact fun hmem => h (hoptions _ hmem)

/-- Options start with a dash. -/
theorem not_option (h : argument.head? ≠ some (ch '-')) :
    flagsWithValue.contains argument = false ∧ isOutputOption argument = false ∧
      isPreprocessorOption argument = false := by
  have hjoined : joinedOutputOptions.any
      (fun option => option.isPrefixOf argument && decide (argument.length > option.length)) = false := by
    refine List.any_eq_false.2 fun option hmem => ?_
    have hdash : ∀ option ∈ joinedOutputOptions, option.head? = some (ch '-') := by decide
    rw [isPrefixOf_dash (hdash option hmem) h]
    exact Bool.false_ne_true
  refine ⟨not_contains_dash (by decide) h, ?_, ?_⟩
  · rw [isOutputOption, not_contains_dash (by decide) h, hjoined, isPrefixOf_dash (by decide) h]
    rfl
  · rw [isPreprocessorOption, isPrefixOf_dash (by decide) h, isPrefixOf_dash (by decide) h]
    rfl

theorem isSourceArgument_dash (h : argument.head? = some (ch '-')) : isSourceArgument disk argument command = .ok false :=
  if_pos (by simp [h])

theorem verdict_flag (h : flagsWithValue.contains argument = true) (next : Bytes) (rest : List Bytes) :
    verdict disk command argument (next :: rest) = .ok (some 1) := by
  rw [verdict, if_pos h]
  rfl

theorem verdict_output (hflag : flagsWithValue.contains argument = false) (h : isOutputOption argument = true) :
    verdict disk command argument rest = .ok (some 0) := by
  rw [verdict, if_neg (by rw [hflag]; exact Bool.false_ne_true), if_pos h]

theorem verdict_other (hflag : flagsWithValue.contains argument = false) (houtput : isOutputOption argument = false)
    (hforwarding : argument = lit "-Xclang" → droppedAfterXclang rest = 0) :
    verdict disk command argument rest = if isPreprocessorOption argument then .ok (some 0)
      else (isSourceArgument disk argument command).map fun source => if source then some 0 else none := by
  rw [verdict, if_neg (by rw [hflag]; exact Bool.false_ne_true), if_neg (by simp [houtput]), if_neg fun h => h.2 (hforwarding h.1)]

theorem verdict_source (h : isSourceArgument disk argument command = .ok true) :
    verdict disk command argument rest = .ok (some 0) := by
  have hdash : argument.head? ≠ some (ch '-') := fun hdash => nomatch (isSourceArgument_dash hdash).symm.trans h
  obtain ⟨hflag, houtput, hpreprocessor⟩ := not_option hdash
  rw [verdict_other hflag houtput, hpreprocessor, h]
  · rfl
  · rintro rfl
    exact absurd (by decide) hdash

theorem Semantic.verdict (h : Semantic disk command argument) :
    verdict disk command argument rest = .ok none := by
  rw [verdict_other h.not_flag h.not_output fun heq => absurd heq h.not_forwarding, h.not_preprocessor, h.not_source]
  rfl

theorem verdict_forwarding (h : droppedAfterXclang rest = 0) :
    RemovedArguments.verdict disk command (lit "-Xclang") rest = .ok none := by
  rw [verdict_other (by decide) (by decide) fun _ => h, isSourceArgument_dash (by decide)]
  rfl

theorem verdict_joined {option operand : Bytes} (h : WellFormed disk command (.joined option operand)) :
    RemovedArguments.verdict disk command (option ++ operand) rest = .ok (if operand.isEmpty then none else some 0) := by
  obtain ⟨hoption, hempty⟩ := h
  cases operand with
  | nil =>
    have hlast := hempty rfl
    have hbare : ∀ option ∈ joinedOptions, option.getLast? = some (ch '=') →
        flagsWithValue.contains option = false ∧ isOutputOption option = false ∧
          isPreprocessorOption option = false ∧ option ≠ lit "-Xclang" ∧ option.head? = some (ch '-') := by decide
    obtain ⟨hflag, houtput, hpreprocessor, hforwarding, hdash⟩ := hbare option hoption hlast
    rw [List.append_nil, verdict_other hflag houtput fun heq => absurd heq hforwarding, hpreprocessor,
      isSourceArgument_dash hdash]
    rfl
  | cons c operand =>
    have hlength : (option ++ c :: operand).length > option.length := by
      rw [List.length_append, List.length_cons]
      omega
    have hfront : option.isPrefixOf (option ++ c :: operand) = true :=
      List.isPrefixOf_iff_prefix.2 (List.prefix_append _ _)
    have hflag : flagsWithValue.contains (option ++ c :: operand) = false := by
      have hshort : ∀ option ∈ joinedOptions, ∀ flag ∈ flagsWithValue, option.isPrefixOf flag = true →
          option.length = flag.length := by decide
      rw [List.contains_eq_mem, decide_eq_false_iff_not]
      intro hmem
      have hlength' := hshort option hoption _ hmem hfront
      omega
    refine verdict_output hflag ?_
    by_cases hsingle : option = lit "-o"
    · subst hsingle
      have hlong : (lit "-o" ++ c :: operand).length > 2 := hlength
      rw [isOutputOption, hfront, decide_eq_true hlong]
      simp
    · have hlisted : ∀ option ∈ joinedOptions, option ≠ lit "-o" → option ∈ joinedOutputOptions := by decide
      have hany : joinedOutputOptions.any (fun option' =>
          option'.isPrefixOf (option ++ c :: operand) &&
            decide ((option ++ c :: operand).length > option'.length)) = true :=
        List.any_eq_true.2 ⟨option, hlisted option hoption hsingle, by simp [hfront]⟩
      rw [isOutputOption, hany]
      simp

theorem verdict_preprocessor {option operand : Bytes} (h : WellFormed disk command (.preprocessor option operand)) :
    RemovedArguments.verdict disk command (option ++ operand) rest = .ok (some 0) := by
  have hfront : option.isPrefixOf (option ++ operand) = true := List.isPrefixOf_iff_prefix.2 (List.prefix_append _ _)
  have hpreprocessor : isPreprocessorOption (option ++ operand) = true := by
    rcases h with rfl | rfl <;> simp [isPreprocessorOption, hfront]
  have hflag : flagsWithValue.contains (option ++ operand) = false := by
    have hother : ∀ flag ∈ flagsWithValue, option.isPrefixOf flag = false := by
      rcases h with rfl | rfl <;> decide
    rw [List.contains_eq_mem, decide_eq_false_iff_not]
    exact fun hmem => nomatch (hother _ hmem).symm.trans hfront
  cases houtput : isOutputOption (option ++ operand) with
  | true => exact verdict_output hflag houtput
  | false =>
    rw [verdict_other hflag houtput, hpreprocessor]
    · rfl
    · intro heq
      rw [heq] at hfront
      rcases h with rfl | rfl <;> exact absurd hfront (by decide)

end Verdict

/-! ## Going over the groups -/

section Groups
variable {disk : Disk} {command : CompileCommand}

/-- The arguments of groups, one after the other. -/
def texts (groups : List Group) : List Bytes := groups.flatMap Group.text

def masks (groups : List Group) : List Bool := groups.flatMap Group.mask

theorem ok_cons {α : Type} {m : Except Exception (List α)} {a b : α} {l : List α} :
    m.map (a :: ·) = .ok (b :: l) ↔ a = b ∧ m = .ok l := by
  rw [map_eq_ok]
  constructor
  · rintro ⟨l', rfl, heq⟩
    obtain ⟨rfl, rfl⟩ := List.cons.inj heq
    exact ⟨rfl, rfl⟩
  · rintro ⟨rfl, rfl⟩
    exact ⟨l, rfl, rfl⟩

theorem keptMask_skip (skip : Nat) (argument : Bytes) (rest : List Bytes) (l : List Bool) (b : Bool) :
    keptMask disk command (skip + 1) (argument :: rest) = .ok (b :: l) ↔
      b = false ∧ keptMask disk command skip rest = .ok l := by
  rw [keptMask, ok_cons, eq_comm (a := b)]

theorem keptMask_verdict {argument : Bytes} {rest : List Bytes} {kept : Option Nat}
    (h : verdict disk command argument rest = .ok kept) (l : List Bool) (b : Bool) :
    keptMask disk command 0 (argument :: rest) = .ok (b :: l) ↔
      b = kept.isNone ∧ keptMask disk command (kept.getD 0) rest = .ok l := by
  rw [keptMask, h]
  cases kept with
  | none => exact ok_cons.trans (and_congr_left fun _ => eq_comm)
  | some skip => exact ok_cons.trans (and_congr_left fun _ => eq_comm)

/-- No group starts with what `-Xclang` would take with it. -/
theorem droppedAfterXclang_text {group : Group} (hgroup : WellFormed disk command group) (tail : List Bytes) :
    droppedAfterXclang (group.text ++ tail) = 0 := by
  have hhead : ∀ first tail, first ≠ lit "-dependency-file" → first ≠ lit "-serialize-diagnostic-file" →
      droppedAfterXclang (first :: tail) = 0 := by
    intro first tail hfile hdiagnostics
    exact if_neg (not_or.2 ⟨hfile, hdiagnostics⟩)
  have hsemantic : ∀ argument tail, Semantic disk command argument → droppedAfterXclang (argument :: tail) = 0 := by
    intro argument tail hargument
    refine hhead _ _ ?_ hargument.not_diagnostics
    rintro rfl
    exact absurd hargument.not_flag (by decide)
  have hlisted : ∀ option ∈ operandOptions ++ removedFlags,
      option ≠ lit "-dependency-file" ∧ option ≠ lit "-serialize-diagnostic-file" := by decide
  have hfront : ∀ option ∈ joinedOptions ++ [lit "-Wp,-MD,", lit "-Wp,-MMD,"],
      option.isPrefixOf (lit "-dependency-file") = false ∧
        option.isPrefixOf (lit "-serialize-diagnostic-file") = false := by decide
  have hjoined : ∀ option operand tail, option ∈ joinedOptions ++ [lit "-Wp,-MD,", lit "-Wp,-MMD,"] →
      droppedAfterXclang ((option ++ operand) :: tail) = 0 := by
    intro option operand tail hoption
    have hoperand : option.isPrefixOf (option ++ operand) = true :=
      List.isPrefixOf_iff_prefix.2 (List.prefix_append _ _)
    refine hhead _ _ (fun heq => ?_) fun heq => ?_
    · rw [heq, (hfront option hoption).1] at hoperand
      exact nomatch hoperand
    · rw [heq, (hfront option hoption).2] at hoperand
      exact nomatch hoperand
  cases group with
  | semantic argument => exact hsemantic argument _ hgroup
  | forwarded argument => exact hhead _ _ (by decide) (by decide)
  | separate option operand =>
    have hoption := hlisted option (List.mem_append_left _ hgroup)
    exact hhead _ _ hoption.1 hoption.2
  | joined option operand => exact hjoined option operand _ (List.mem_append_left _ hgroup.1)
  | flag argument =>
    have hoption := hlisted argument (List.mem_append_right _ hgroup)
    exact hhead _ _ hoption.1 hoption.2
  | moduleOutput => exact hhead _ _ (by decide) (by decide)
  | dependencyFile operand => exact hhead _ _ (by decide) (by decide)
  | diagnosticFile operand => exact hhead _ _ (by decide) (by decide)
  | preprocessor option operand =>
    refine hjoined option operand _ (List.mem_append_right _ ?_)
    rcases hgroup with rfl | rfl <;> decide
  | source argument =>
    have hdash : argument.head? ≠ some (ch '-') :=
      fun hdash => nomatch (isSourceArgument_dash hdash).symm.trans hgroup
    refine hhead _ _ ?_ ?_ <;>
    · rintro rfl
      exact absurd (by decide) hdash

/-- Arguments are kept at the places `mask`, where the first one may be taken: then there is one. -/
def Follows (disk : Disk) (command : CompileCommand) (pending : Bool) (arguments : List Bytes) (mask : List Bool) :
    Prop :=
  (pending = true → arguments ≠ []) ∧ keptMask disk command pending.toNat arguments = .ok mask

theorem follows_false {arguments : List Bytes} {mask : List Bool} :
    Follows disk command false arguments mask ↔ keptMask disk command 0 arguments = .ok mask :=
  and_iff_right fun h => nomatch h

/-- An argument that takes the next one, which must be there. -/
theorem keptMask_taking {argument : Bytes} (h : flagsWithValue.contains argument = true) {tail : List Bytes}
    {mask : List Bool} : keptMask disk command 0 (argument :: tail) = .ok (false :: mask) ↔
      Follows disk command true tail mask := by
  cases tail with
  | nil =>
    refine iff_of_false (fun hmask => ?_) fun hfollows => hfollows.1 rfl rfl
    rw [keptMask, verdict, if_pos h] at hmask
    exact nomatch hmask
  | cons next tail =>
    rw [keptMask_verdict (verdict_flag h next tail)]
    exact (and_iff_right rfl).trans (and_iff_right fun _ => List.cons_ne_nil _ _).symm

/-- An operand that is looked at as an argument. -/
theorem keptMask_alone {tail : List Bytes} (hforwarding : droppedAfterXclang tail = 0) {mask : List Bool}
    (argument : Bytes) : keptMask disk command 0 (argument :: tail) = .ok (false :: mask) ↔
      ∃ pending, dropsAlone disk command argument = some pending ∧ Follows disk command pending tail mask := by
  unfold dropsAlone
  by_cases hflag : flagsWithValue.contains argument = true
  · rw [keptMask_taking hflag, if_pos hflag]
    simp
  have hflag : flagsWithValue.contains argument = false := by simpa using hflag
  rw [if_neg (by rw [hflag]; exact Bool.false_ne_true)]
  by_cases houtput : isOutputOption argument = true
  · rw [keptMask_verdict (verdict_output hflag houtput), if_pos (by simp [houtput])]
    simp [follows_false]
  have houtput : isOutputOption argument = false := by simpa using houtput
  have hverdict : verdict disk command argument tail = _ := verdict_other hflag houtput fun _ => hforwarding
  by_cases hpreprocessor : isPreprocessorOption argument = true
  · rw [if_pos hpreprocessor] at hverdict
    rw [keptMask_verdict hverdict, if_pos (by simp [hpreprocessor])]
    simp [follows_false]
  rw [if_neg hpreprocessor] at hverdict
  have hpreprocessor : isPreprocessorOption argument = false := by simpa using hpreprocessor
  cases hsource : isSourceArgument disk argument command with
  | error e =>
    rw [hsource] at hverdict
    rw [keptMask, hverdict]
    simp [houtput, hpreprocessor, Except.toOption, Except.bind, Except.map]
  | ok source =>
    rw [hsource] at hverdict
    have hkept : verdict disk command argument tail = .ok (if source then some 0 else none) := hverdict
    rw [keptMask_verdict hkept]
    cases source <;> simp [houtput, hpreprocessor, Except.toOption, follows_false]

theorem flag_verdict {argument : Bytes} {rest : List Bytes} (h : argument ∈ removedFlags) :
    verdict disk command argument rest = .ok (some 0) := by
  have hlisted : ∀ flag ∈ removedFlags, flagsWithValue.contains flag = false ∧ isOutputOption flag = true := by decide
  exact verdict_output (hlisted argument h).1 (hlisted argument h).2

section Group
variable {group : Group} {tail : List Bytes} {mask : List Bool}

theorem continues {p pending : Bool} (h : after disk command p group = some pending) :
    Follows disk command pending tail mask ↔
      ∃ pending', after disk command p group = some pending' ∧ Follows disk command pending' tail mask := by
  simp [h]

/-- At the start of a group. -/
theorem group_start (hgroup : WellFormed disk command group) :
    keptMask disk command 0 (group.text ++ tail) = .ok (group.mask ++ mask) ↔
      ∃ pending, after disk command false group = some pending ∧ Follows disk command pending tail mask := by
  have hdropped : ∀ argument, verdict disk command argument tail = .ok (some 0) →
      (keptMask disk command 0 (argument :: tail) = .ok (false :: mask) ↔ Follows disk command false tail mask) :=
    fun argument h => (keptMask_verdict h _ _).trans ((and_iff_right rfl).trans follows_false.symm)
  have hfile : ∀ option operand, verdict disk command (lit "-Xclang") (option :: lit "-Xclang" :: operand :: tail) =
      .ok (some 3) → (keptMask disk command 0 (lit "-Xclang" :: option :: lit "-Xclang" :: operand :: tail) =
        .ok (false :: false :: false :: false :: mask) ↔ Follows disk command false tail mask) := by
    intro option operand hforwarding
    refine (keptMask_verdict hforwarding _ _).trans ((and_iff_right rfl).trans ?_)
    refine (keptMask_skip 2 _ _ _ _).trans ((and_iff_right rfl).trans ?_)
    refine (keptMask_skip 1 _ _ _ _).trans ((and_iff_right rfl).trans ?_)
    exact (keptMask_skip 0 _ _ _ _).trans ((and_iff_right rfl).trans follows_false.symm)
  cases group with
  | semantic argument =>
    exact (keptMask_verdict hgroup.verdict _ _).trans
      ((and_iff_right rfl).trans (follows_false.symm.trans (continues rfl)))
  | forwarded argument =>
    have hforwarding : verdict disk command (lit "-Xclang") (argument :: tail) = .ok none :=
      verdict_forwarding (@droppedAfterXclang_text disk command (.semantic argument) hgroup tail)
    refine (keptMask_verdict hforwarding _ _).trans ((and_iff_right rfl).trans ?_)
    exact (keptMask_verdict hgroup.verdict _ _).trans
      ((and_iff_right rfl).trans (follows_false.symm.trans (continues rfl)))
  | separate option operand =>
    have hlisted : ∀ option ∈ operandOptions, flagsWithValue.contains option = true := by decide
    refine (keptMask_verdict (verdict_flag (hlisted option hgroup) _ _) _ _).trans ((and_iff_right rfl).trans ?_)
    exact (keptMask_skip 0 _ _ _ _).trans ((and_iff_right rfl).trans (follows_false.symm.trans (continues rfl)))
  | joined option operand =>
    refine (keptMask_verdict (verdict_joined hgroup) _ _).trans ?_
    cases operand with
    | nil => exact iff_of_false (fun h => nomatch h.1) fun ⟨_, h, _⟩ => nomatch h
    | cons c operand => exact (and_iff_right rfl).trans (follows_false.symm.trans (continues rfl))
  | flag argument => exact (hdropped _ (flag_verdict hgroup)).trans (continues rfl)
  | moduleOutput => exact (keptMask_taking (by decide)).trans (continues rfl)
  | dependencyFile operand => exact (hfile (lit "-dependency-file") operand rfl).trans (continues rfl)
  | diagnosticFile operand => exact (hfile (lit "-serialize-diagnostic-file") operand rfl).trans (continues rfl)
  | preprocessor option operand => exact (hdropped _ (verdict_preprocessor hgroup)).trans (continues rfl)
  | source argument => exact (hdropped _ (verdict_source hgroup)).trans (continues rfl)

/-- At the start of a group whose first argument is taken. -/
theorem group_taken (hforwarding : droppedAfterXclang tail = 0) :
    keptMask disk command 1 (group.text ++ tail) = .ok (group.mask ++ mask) ↔
      ∃ pending, after disk command true group = some pending ∧ Follows disk command pending tail mask := by
  have hdropped : ∀ argument, keptMask disk command 1 (argument :: tail) = .ok (false :: mask) ↔
      Follows disk command false tail mask :=
    fun argument => (keptMask_skip 0 _ _ _ _).trans ((and_iff_right rfl).trans follows_false.symm)
  cases group with
  | semantic argument =>
    exact iff_of_false (fun h => nomatch ((keptMask_skip 0 _ _ _ _).1 h).1) fun ⟨_, h, _⟩ => nomatch h
  | forwarded argument =>
    exact iff_of_false (fun h => nomatch ((keptMask_skip 0 _ _ _ _).1 h).1) fun ⟨_, h, _⟩ => nomatch h
  | separate option operand =>
    exact (keptMask_skip 0 _ _ _ _).trans ((and_iff_right rfl).trans (keptMask_alone hforwarding operand))
  | dependencyFile operand =>
    have htaking : flagsWithValue.contains (lit "-dependency-file") = true := by decide
    refine (keptMask_skip 0 _ _ _ _).trans ((and_iff_right rfl).trans ?_)
    refine (keptMask_verdict (verdict_flag htaking _ _) _ _).trans ((and_iff_right rfl).trans ?_)
    exact (keptMask_skip 0 _ _ _ _).trans ((and_iff_right rfl).trans (keptMask_alone hforwarding operand))
  | diagnosticFile operand =>
    -- the option is left alone, and is none that is removed
    have hverdict : verdict disk command (lit "-serialize-diagnostic-file") (lit "-Xclang" :: operand :: tail) = .ok none :=
      rfl
    exact iff_of_false (fun h => nomatch ((keptMask_verdict hverdict _ _).1 ((keptMask_skip 0 _ _ _ _).1 h).2).1)
      fun ⟨_, h, _⟩ => nomatch h
  | joined option operand => exact (hdropped _).trans (continues rfl)
  | flag argument => exact (hdropped _).trans (continues rfl)
  | moduleOutput => exact (hdropped _).trans (continues rfl)
  | preprocessor option operand => exact (hdropped _).trans (continues rfl)
  | source argument => exact (hdropped _).trans (continues rfl)

theorem follows_group (hgroup : WellFormed disk command group) (hforwarding : droppedAfterXclang tail = 0)
    (pending : Bool) : Follows disk command pending (group.text ++ tail) (group.mask ++ mask) ↔
      ∃ pending', after disk command pending group = some pending' ∧ Follows disk command pending' tail mask := by
  cases pending with
  | false => exact follows_false.trans (group_start hgroup)
  | true =>
    have hsome : group.text ++ tail ≠ [] := by cases group <;> exact List.cons_ne_nil _ _
    exact (and_iff_right fun _ => hsome).trans (group_taken hforwarding)

end Group

theorem droppedAfterXclang_texts {groups : List Group} (h : ∀ group ∈ groups, WellFormed disk command group) :
    droppedAfterXclang (texts groups) = 0 := by
  cases groups with
  | nil => rfl
  | cons group rest => exact droppedAfterXclang_text (h group List.mem_cons_self) (texts rest)

theorem follows_groups {groups : List Group} (h : ∀ group ∈ groups, WellFormed disk command group) (pending : Bool) :
    Follows disk command pending (texts groups) (masks groups) ↔ fine disk command pending groups = true := by
  induction groups generalizing pending with
  | nil => cases pending <;> simp [Follows, fine, texts, masks, keptMask]
  | cons group rest ih =>
    obtain ⟨hgroup, hrest⟩ := List.forall_mem_cons.1 h
    refine (follows_group hgroup (droppedAfterXclang_texts hrest) pending).trans ?_
    rw [fine]
    cases after disk command pending group with
    | none => exact iff_of_false (fun ⟨_, h, _⟩ => nomatch h) fun h => nomatch h
    | some pending' =>
      rw [← ih hrest]
      constructor
      · rintro ⟨_, ⟨⟩, hfollows⟩
        exact hfollows
      · exact fun hfollows => ⟨pending', rfl, hfollows⟩

/-- The arguments that mean something are kept, and no others. -/
theorem keptMask_groups {groups : List Group} (h : ∀ group ∈ groups, WellFormed disk command group) :
    keptMask disk command 0 (texts groups) = .ok (masks groups) ↔ fine disk command false groups = true :=
  follows_false.symm.trans (follows_groups h false)

theorem select_masks (groups : List Group) : select (texts groups) (masks groups) = groups.flatMap Group.kept := by
  have happend : ∀ (l l' : List Bytes) (mask mask' : List Bool), l.length = mask.length →
      select (l ++ l') (mask ++ mask') = select l mask ++ select l' mask' := by
    intro l l' mask mask' hlength
    rw [select, List.zip_append hlength, List.filter_append, List.map_append]
    rfl
  induction groups with
  | nil => rfl
  | cons group rest ih =>
    have hgroup : group.text.length = group.mask.length ∧ select group.text group.mask = group.kept := by
      cases group <;> exact ⟨rfl, rfl⟩
    rw [texts, masks, List.flatMap_cons, List.flatMap_cons, happend _ _ _ _ hgroup.1, List.flatMap_cons, hgroup.2, ← ih]
    rfl

end Groups

/-! ## Whole commands -/

section Command
variable {disk : Disk} {command resolved : CompileCommand} {compiler : Bytes} {expansion : ResponseExpansion}

/-- The command names a compiler, and the arguments behind it have been expanded. -/
structure Prepared (disk : Disk) (command resolved : CompileCommand) (compiler : Bytes)
    (expansion : ResponseExpansion) : Prop where
  nonempty : command.arguments ≠ []
  resolves : resolvePaths disk command = .ok resolved
  compiles : isCompiler compiler = true
  expands : ∃ rest, resolved.arguments.dropWhile isLauncher = compiler :: rest ∧
    rest.forM (expandResponseArgument disk resolved.directory maxResponseDepth) {} = .ok () expansion

theorem normalizeCompileCommand_eq (h : Prepared disk command resolved compiler expansion) :
    (normalizeCompileCommand disk command).map (·.toCompileCommand) =
      (keptArguments disk resolved 0 expansion.output).bind fun kept =>
        (collectCommandInputs disk resolved (compiler :: kept)).map fun inputs =>
          { directory := resolved.directory
            file := resolved.file
            arguments := compiler :: kept ++ [resolved.file.text]
            output := resolved.output
            commandInputs := sortPaths (expansion.inputs ++ inputs) } := by
  obtain ⟨rest, hrest, hexpanded⟩ := h.expands
  have hnonempty : command.arguments.isEmpty = false := by simpa using h.nonempty
  unfold normalizeCompileCommand
  rw [hnonempty, h.resolves]
  simp only [bind, Except.bind, hrest, h.compiles, hexpanded, Bool.false_eq_true, if_false, Bool.not_true]
  cases keptArguments disk resolved 0 expansion.output with
  | error e => rfl
  | ok kept =>
    dsimp only
    cases collectCommandInputs disk resolved (compiler :: kept) <;> rfl

/-- A normalized command has the compiler, the arguments at the places that are kept, and the source. These are the
places of the arguments that mean something if and only if none of these is taken for an operand of
`-fmodule-output`, no operand behind one stands alone, and no operand is empty. -/
theorem normalizeCompileCommand_groups (h : Prepared disk command resolved compiler expansion) {groups : List Group}
    (hgroups : expansion.output = texts groups) (hwell : ∀ group ∈ groups, WellFormed disk resolved group) :
    (∀ normalized, normalizeCompileCommand disk command = .ok normalized →
      ∃ mask, keptMask disk resolved 0 (texts groups) = .ok mask ∧
        normalized.arguments = compiler :: select (texts groups) mask ++ [resolved.file.text]) ∧
    (keptMask disk resolved 0 (texts groups) = .ok (masks groups) ↔ fine disk resolved false groups = true) ∧
    (fine disk resolved false groups = true →
      (normalizeCompileCommand disk command).map (·.toCompileCommand) =
        (collectCommandInputs disk resolved (compiler :: groups.flatMap Group.kept)).map fun inputs =>
          { directory := resolved.directory
            file := resolved.file
            arguments := compiler :: groups.flatMap Group.kept ++ [resolved.file.text]
            output := resolved.output
            commandInputs := sortPaths (expansion.inputs ++ inputs) }) := by
  have heq := normalizeCompileCommand_eq h
  rw [hgroups, keptArguments_eq] at heq
  refine ⟨fun normalized hnormalized => ?_, keptMask_groups hwell, fun hfine => ?_⟩
  · rw [hnormalized] at heq
    cases hmask : keptMask disk resolved 0 (texts groups) with
    | error e =>
      rw [hmask] at heq
      exact nomatch heq
    | ok mask =>
      rw [hmask] at heq
      obtain ⟨inputs, -, hcommand⟩ := map_eq_ok.1 heq.symm
      exact ⟨mask, rfl, (congrArg CompileCommand.arguments hcommand).symm⟩
  · rw [heq, (keptMask_groups hwell).2 hfine, ← select_masks]
    rfl

/-! ### An option without an operand -/

def plainDisk : Disk := ⟨.ok ⟨lit "/"⟩, fun _ => .cannotOpen, fun _ => .irregular⟩

def moduleCommand (groups : List Group) : CompileCommand :=
  { directory := ⟨lit "/p"⟩, file := ⟨lit "a.cpp"⟩, arguments := lit "g++" :: texts groups }

def moduleResolved (groups : List Group) : CompileCommand :=
  { directory := ⟨lit "/p"⟩, file := ⟨lit "/p/a.cpp"⟩, arguments := lit "g++" :: texts groups }

/-- What is taken would have been dropped. -/
def harmless : List Group :=
  [.moduleOutput, .flag (lit "-c"), .semantic (lit "-DX"), .separate (lit "-o") (lit "-c"), .source (lit "a.cpp")]

theorem semantic_define (groups : List Group) : Semantic plainDisk (moduleResolved groups) (lit "-DX") :=
  ⟨by decide, by decide, by decide, by decide, by decide, rfl⟩

theorem harmless_groups : (normalizeCompileCommand plainDisk (moduleCommand harmless)).map (·.toCompileCommand) =
    .ok { moduleResolved harmless with arguments := [lit "g++", lit "-DX", lit "/p/a.cpp"] } := by
  have hprepared : Prepared plainDisk (moduleCommand harmless) (moduleResolved harmless) (lit "g++")
      { output := texts harmless } := ⟨by decide, rfl, by decide, texts harmless, rfl, rfl⟩
  have hwell : ∀ group ∈ harmless, WellFormed plainDisk (moduleResolved harmless) group :=
    List.forall_mem_cons.2 ⟨trivial, List.forall_mem_cons.2 ⟨show lit "-c" ∈ removedFlags by decide,
      List.forall_mem_cons.2 ⟨semantic_define harmless, List.forall_mem_cons.2
        ⟨show lit "-o" ∈ operandOptions by decide, List.forall_mem_singleton.2 rfl⟩⟩⟩⟩
  exact ((normalizeCompileCommand_groups hprepared rfl hwell).2.2 (by decide)).trans rfl

/-- A definition behind `-fmodule-output` is lost. -/
def lostDefine : List Group := [.moduleOutput, .semantic (lit "-DX"), .source (lit "a.cpp")]

theorem lostDefine_groups :
    (∀ group ∈ lostDefine, WellFormed plainDisk (moduleResolved lostDefine) group) ∧
      (normalizeCompileCommand plainDisk (moduleCommand lostDefine)).map (·.arguments) =
        .ok [lit "g++", lit "/p/a.cpp"] ∧
      lostDefine.flatMap Group.kept = [lit "-DX"] :=
  ⟨List.forall_mem_cons.2 ⟨trivial, List.forall_mem_cons.2 ⟨semantic_define lostDefine,
    List.forall_mem_singleton.2 rfl⟩⟩, rfl, rfl⟩

end Command

end RemovedArguments

end CxxDead
