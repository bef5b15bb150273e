import CxxDead.Artifact
import CxxDead.Provider
import CxxDead.TimeLimits
import CxxDead.Lib.Distinct
import CxxDead.CommandInputs
import CxxDead.PathContainment
/-!
# The command line

`parseCli` reads the options of a run, checks how they go together, and puts
their paths in normal form.

- `parseCli_accepts`: what a command line is taken for, read off its words: an option
  with its value, a flag, or the database.
- `parseCli_order`: only the order of words about the same thing matters.
- `parseCli_wellFormed`: the paths of a run are absolute and normal, and apart where they have to be.
-/

namespace CxxDead

open Lib

/-- The order of `canonicalize_callback_registration_rules`, by all fields. -/
def ruleKey (rule : CallbackRegistrationRule) :
    Bytes ×ₗ Bytes ×ₗ Bytes ×ₗ Bytes ×ₗ UInt64 ×ₗ Bytes ×ₗ Bytes ×ₗ Bool :=
  toLex (rule.callee.id, toLex (rule.callee.linkageName, toLex (rule.callee.qualifiedName,
    toLex (rule.callee.signature, toLex (rule.argumentIndex, toLex (rule.evidence.provider,
      toLex (rule.evidence.reason, rule.requireUnique)))))))

def canonicalizeCallbackRegistrationRules (rules : List CallbackRegistrationRule) : List CallbackRegistrationRule :=
  uniqueOn id (sortOn ruleKey rules)

namespace CommandLine

structure CliOptions where
  compilationDatabase : Path := {}
  projectRoot : Path
  reportPaths : List Path := []
  translationUnitRoot : Option Path := none
  excludedPaths : List Path := []
  output : Option Path := none
  graphOutput : Option Path := none
  baselineGraph : Option Path := none
  differentialPolicy : Option Path := none
  cacheDirectory : Option Path := none
  cmakeBuildDirectory : Option Path := none
  targetManifest : Option Path := none
  format : Bytes := lit "human"
  configurationId : Bytes := lit "default"
  configuration : Bytes := []
  target : Bytes := []
  clang : Bytes := lit "clang++"
  frontend : IndexFrontend := .astJson
  astFilter : Bytes := []
  roots : List Bytes := []
  callbackRegistrationRules : List CallbackRegistrationRule := []
  providerConfigs : List Path := []
  /-- Milliseconds. -/
  translationUnitTimeout : Nat := 0
  indexTimeout : Nat := 0
  maxAstBytes : UInt64 := 0
  verbose : Bool := false
  clangExplicit : Bool := false
  configurationIdExplicit : Bool := false
  projectRootExplicit : Bool := false
  failOnUnreachable : Bool := false
  failOnDiff : Bool := false
  noCache : Bool := false

/-! ## Options -/

inductive ValueOption where
  | compileCommands | projectRoot | reportPath | tuRoot | excludePath | mode | configurationId | cmakeBuildDir
  | targetManifest | configuration | target | root | callbackRegistration | providerConfig | frontend | clang | astFilter
  | tuTimeout | indexTimeout | maxAstBytes | format | output | graphOutput | baselineGraph | diffPolicy | cacheDir
deriving DecidableEq, Repr

inductive Flag where
  | noCache | verbose | failOnUnreachable | failOnDiff
deriving DecidableEq, Repr

def ValueOption.text : ValueOption → Bytes
  | compileCommands => lit "--compile-commands" | projectRoot => lit "--project-root"
  | reportPath => lit "--report-path" | tuRoot => lit "--tu-root" | excludePath => lit "--exclude-path"
  | mode => lit "--mode" | configurationId => lit "--configuration-id" | cmakeBuildDir => lit "--cmake-build-dir"
  | targetManifest => lit "--target-manifest" | configuration => lit "--configuration" | target => lit "--target"
  | root => lit "--root" | callbackRegistration => lit "--callback-registration"
  | providerConfig => lit "--provider-config" | frontend => lit "--frontend" | clang => lit "--clang"
  | astFilter => lit "--ast-filter" | tuTimeout => lit "--tu-timeout" | indexTimeout => lit "--index-timeout"
  | maxAstBytes => lit "--max-ast-bytes" | format => lit "--format" | output => lit "--output"
  | graphOutput => lit "--graph-output" | baselineGraph => lit "--baseline-graph" | diffPolicy => lit "--diff-policy"
  | cacheDir => lit "--cache-dir"

/-- The options with a value, in the order in which they are tried. -/
def ValueOption.all : List ValueOption :=
  [compileCommands, projectRoot, reportPath, tuRoot, excludePath, mode, configurationId, cmakeBuildDir, targetManifest,
    configuration, target, root, callbackRegistration, providerConfig, frontend, clang, astFilter, tuTimeout,
    indexTimeout, maxAstBytes, format, output, graphOutput, baselineGraph, diffPolicy, cacheDir]

def ValueOption.ofText (argument : Bytes) : Option ValueOption := all.find? (·.text == argument)

def Flag.text : Flag → Bytes
  | noCache => lit "--no-cache" | verbose => lit "--verbose" | failOnUnreachable => lit "--fail-on-unreachable"
  | failOnDiff => lit "--fail-on-diff"

def Flag.all : List Flag := [noCache, verbose, failOnUnreachable, failOnDiff]

def Flag.ofText (argument : Bytes) : Option Flag := all.find? (·.text == argument)

def parseCallbackRegistration (value : Bytes) : Except Exception CallbackRegistrationRule :=
  let malformed := .error (.runtimeError
    (lit "--callback-registration must use CALLEE:INDEX with a zero-based index"))
  match splitLast (ch ':') value with
  | none => malformed
  | some (callee, indexText) =>
    if callee = [] ∨ indexText = [] then malformed
    else
      match fromCharsUnsigned indexText with
      | some (argumentIndex, []) =>
        .ok { callee := { qualifiedName := callee }, argumentIndex := argumentIndex.toUInt64 }
      | _ => malformed

def parseFrontend (value : Bytes) : Except Exception IndexFrontend :=
  if value = lit "ast-json" then .ok .astJson
  else if value = lit "libtooling" then .ok .libTooling
  else .error (.runtimeError (lit "--frontend must be ast-json or libtooling"))

def parseMaxAstBytes (value : Bytes) : Except Exception UInt64 :=
  let malformed := .error (.runtimeError (lit "--max-ast-bytes must be a positive integer"))
  match fromCharsUnsigned value with
  | some (bytes, []) => if bytes = 0 ∨ 2 ^ 64 - 1 < bytes then malformed else .ok bytes.toUInt64
  | _ => malformed

/-- The branch of an option with its value. -/
def ValueOption.apply (options : CliOptions) (value : Bytes) : ValueOption → Except Exception CliOptions
  | compileCommands => .ok { options with compilationDatabase := ⟨value⟩ }
  | projectRoot => .ok { options with projectRoot := ⟨value⟩, projectRootExplicit := true }
  | reportPath => .ok { options with reportPaths := options.reportPaths ++ [⟨value⟩] }
  | tuRoot => .ok { options with translationUnitRoot := some ⟨value⟩ }
  | excludePath => .ok { options with excludedPaths := options.excludedPaths ++ [⟨value⟩] }
  | mode =>
    if value ≠ lit "application" then .error (.runtimeError (lit "only --mode application is supported"))
    else .ok options
  | configurationId =>
    if value = [] then .error (.runtimeError (lit "--configuration-id cannot be empty"))
    else .ok { options with configurationId := value, configurationIdExplicit := true }
  | cmakeBuildDir => .ok { options with cmakeBuildDirectory := some ⟨value⟩ }
  | targetManifest => .ok { options with targetManifest := some ⟨value⟩ }
  | configuration => .ok { options with configuration := value }
  | target => .ok { options with target := value }
  | root => .ok { options with roots := options.roots ++ [value] }
  | callbackRegistration => do
    let rule ← parseCallbackRegistration value
    .ok { options with callbackRegistrationRules := options.callbackRegistrationRules ++ [rule] }
  | providerConfig => .ok { options with providerConfigs := options.providerConfigs ++ [⟨value⟩] }
  | frontend => do
    let frontend ← parseFrontend value
    .ok { options with frontend }
  | clang => .ok { options with clang := value, clangExplicit := true }
  | astFilter => .ok { options with astFilter := value }
  | tuTimeout => do
    let seconds ← parseTimeLimit tuTimeout.text value
    .ok { options with translationUnitTimeout := seconds * 1000 }
  | indexTimeout => do
    let seconds ← parseTimeLimit indexTimeout.text value
    .ok { options with indexTimeout := seconds * 1000 }
  | maxAstBytes => do
    let maxAstBytes ← parseMaxAstBytes value
    .ok { options with maxAstBytes }
  | format =>
    if value ≠ lit "human" ∧ value ≠ lit "json" ∧ value ≠ lit "sarif" then
      .error (.runtimeError (lit "--format must be human, json, or sarif"))
    else .ok { options with format := value }
  | output => .ok { options with output := some ⟨value⟩ }
  | graphOutput => .ok { options with graphOutput := some ⟨value⟩ }
  | baselineGraph => .ok { options with baselineGraph := some ⟨value⟩ }
  | diffPolicy => .ok { options with differentialPolicy := some ⟨value⟩ }
  | cacheDir => .ok { options with cacheDirectory := some ⟨value⟩ }

def Flag.apply (options : CliOptions) : Flag → CliOptions
  | noCache => { options with noCache := true }
  | verbose => { options with verbose := true }
  | failOnUnreachable => { options with failOnUnreachable := true }
  | failOnDiff => { options with failOnDiff := true }

/-- The branch of a positional argument. -/
def applyPositional (options : CliOptions) (argument : Bytes) : Except Exception CliOptions :=
  if options.compilationDatabase.isEmpty then .ok { options with compilationDatabase := ⟨argument⟩ }
  else .error (.runtimeError (lit "unexpected positional argument: " ++ argument))

/-! ## The loop over the arguments -/

/-- What a command line asks for. -/
inductive CliRequest where
  | run (options : CliOptions)
  | help | version

def parseArguments (options : CliOptions) : List Bytes → Except Exception CliRequest
  | [] => .ok (.run options)
  | argument :: rest =>
    if argument = lit "--help" then .ok .help
    else if argument = lit "--version" then .ok .version
    else
      match ValueOption.ofText argument with
      | some option =>
        match rest with
        | [] => .error (.runtimeError (argument ++ lit " requires a value"))
        | value :: rest => do
          let options ← option.apply options value
          parseArguments options rest
      | none =>
        match Flag.ofText argument with
        | some flag => parseArguments (flag.apply options) rest
        | none =>
          if argument.head? = some (ch '-') then .error (.runtimeError (lit "unknown option: " ++ argument))
          else do
            let options ← applyPositional options argument
            parseArguments options rest

/-! ## The checks after the loop -/

/-- `std::filesystem::absolute(path).lexically_normal()`. -/
def absoluteNormal (cwd path : Path) : Except Exception Path :=
  (path.absolute (.ok cwd)).map Path.lexicallyNormal

def absoluteOption (cwd : Path) : Option Path → Except Exception (Option Path)
  | none => .ok none
  | some path => (absoluteNormal cwd path).map some

/-- The comparison of two paths of which each may be missing. -/
def sameOption : Option Path → Option Path → Bool
  | some p, some q => p.same q
  | none, none => true
  | _, _ => false

def rejectIf (condition : Bool) (message : String) : Except Exception Unit :=
  if condition then .error (.runtimeError (lit message)) else .ok ()

def CliOptions.hasMetadata (o : CliOptions) : Bool := o.cmakeBuildDirectory.isSome || o.targetManifest.isSome

def CliOptions.hasGate (o : CliOptions) : Bool := o.baselineGraph.isSome && o.differentialPolicy.isSome

/-- The database, next to CMake's metadata unless it is given. -/
def CliOptions.database (cmakeBuildDirectory : Option Path) (o : CliOptions) : Path :=
  if o.compilationDatabase.isEmpty then
    (cmakeBuildDirectory.map fun directory => directory.append ⟨lit "compile_commands.json"⟩).getD
      ⟨lit "compile_commands.json"⟩
  else o.compilationDatabase

/-- The paths that are normalized before the checks on them. -/
def CliOptions.normalizeCompared (cwd : Path) (o : CliOptions) : Except Exception CliOptions := do
  let cmakeBuildDirectory ← absoluteOption cwd o.cmakeBuildDirectory
  let targetManifest ← absoluteOption cwd o.targetManifest
  let compilationDatabase ← absoluteNormal cwd (o.database cmakeBuildDirectory)
  let projectRoot ← absoluteNormal cwd o.projectRoot
  let output ← absoluteOption cwd o.output
  let graphOutput ← absoluteOption cwd o.graphOutput
  let baselineGraph ← absoluteOption cwd o.baselineGraph
  let differentialPolicy ← absoluteOption cwd o.differentialPolicy
  .ok { o with
        cmakeBuildDirectory, targetManifest, compilationDatabase, projectRoot, output, graphOutput, baselineGraph,
        differentialPolicy }

/-- The other paths, and the lists in canonical order. -/
def CliOptions.normalizeRest (cwd : Path) (o : CliOptions) : Except Exception CliOptions := do
  let cacheDirectory ← absoluteOption cwd o.cacheDirectory
  let translationUnitRoot ← absoluteOption cwd o.translationUnitRoot
  let providerConfigs ← o.providerConfigs.mapM (absoluteNormal cwd)
  .ok { o with
        cacheDirectory, translationUnitRoot
        providerConfigs := sortPaths providerConfigs
        callbackRegistrationRules := canonicalizeCallbackRegistrationRules o.callbackRegistrationRules }

/-- The rest of `parse_cli`. Paths are compared in normal form. -/
def finishOptions (cwd : Path) (o : CliOptions) : Except Exception CliOptions := do
  rejectIf (o.cmakeBuildDirectory.isSome && o.targetManifest.isSome)
    "--cmake-build-dir and --target-manifest are mutually exclusive"
  rejectIf ((!o.configuration.isEmpty || !o.target.isEmpty) && !o.hasMetadata)
    "--configuration and --target require build metadata"
  rejectIf (o.translationUnitRoot.isSome && o.hasMetadata)
    "--tu-root cannot be combined with target-aware build metadata"
  let o ← o.normalizeCompared cwd
  rejectIf (o.output.isSome && sameOption o.graphOutput o.output) "--output and --graph-output must name different files"
  rejectIf (o.baselineGraph.isSome && (sameOption o.output o.baselineGraph || sameOption o.graphOutput o.baselineGraph))
    "--baseline-graph must differ from --output and --graph-output"
  rejectIf (o.differentialPolicy.isSome && !o.baselineGraph.isSome) "--diff-policy requires --baseline-graph"
  rejectIf (o.failOnDiff && !o.hasGate) "--fail-on-diff requires --baseline-graph and --diff-policy"
  rejectIf (o.format == lit "sarif" && !o.hasGate) "--format sarif requires --baseline-graph and --diff-policy"
  rejectIf (o.noCache && o.cacheDirectory.isSome) "--cache-dir and --no-cache are mutually exclusive"
  o.normalizeRest cwd

def finishRequest (cwd : Path) : CliRequest → Except Exception CliRequest
  | .run options => .run <$> finishOptions cwd options
  | .help => .ok .help
  | .version => .ok .version

/-- `parse_cli`, where `arguments` are those after the program's name. -/
def parseCli (currentPath : Except Exception Path) (arguments : List Bytes) : Except Exception CliRequest := do
  let cwd ← currentPath
  let request ← parseArguments { projectRoot := cwd } arguments
  finishRequest cwd request

/-! ## Words -/

/-- What a command line says at one place. -/
inductive Word where
  | value (option : ValueOption) (text : Bytes)
  | flag (flag : Flag)
  | database (text : Bytes) (plain : text.head? ≠ some (ch '-'))

def Word.arguments : Word → List Bytes
  | value option text => [option.text, text]
  | flag f => [f.text]
  | database text _ => [text]

def Word.apply (options : CliOptions) : Word → Except Exception CliOptions
  | value option text => option.apply options text
  | flag f => .ok (f.apply options)
  | database text _ => applyPositional options text

/-- The values that words give an option. -/
def Word.textFor (option : ValueOption) : Word → Option Bytes
  | value o text => if o = option then some text else none
  | flag _ => none
  | database text _ => if option = .compileCommands then some text else none

def textsFor (words : List Word) (option : ValueOption) : List Bytes := words.filterMap (Word.textFor option)

def Word.isFlag (f : Flag) : Word → Bool
  | .flag g => g = f
  | _ => false

def isGiven (words : List Word) (f : Flag) : Bool := words.any (Word.isFlag f)

/-- The options that stand for given values and flags: a repeated option counts
with its last value, unless it adds to a list. -/
def CliOptions.of (cwd : Path) (texts : ValueOption → List Bytes) (given : Flag → Bool) : CliOptions where
  compilationDatabase := ⟨(texts .compileCommands).getLast?.getD []⟩
  projectRoot := ((texts .projectRoot).getLast?.map Path.mk).getD cwd
  reportPaths := (texts .reportPath).map Path.mk
  translationUnitRoot := (texts .tuRoot).getLast?.map Path.mk
  excludedPaths := (texts .excludePath).map Path.mk
  output := (texts .output).getLast?.map Path.mk
  graphOutput := (texts .graphOutput).getLast?.map Path.mk
  baselineGraph := (texts .baselineGraph).getLast?.map Path.mk
  differentialPolicy := (texts .diffPolicy).getLast?.map Path.mk
  cacheDirectory := (texts .cacheDir).getLast?.map Path.mk
  cmakeBuildDirectory := (texts .cmakeBuildDir).getLast?.map Path.mk
  targetManifest := (texts .targetManifest).getLast?.map Path.mk
  format := (texts .format).getLast?.getD (lit "human")
  configurationId := (texts .configurationId).getLast?.getD (lit "default")
  configuration := (texts .configuration).getLast?.getD []
  target := (texts .target).getLast?.getD []
  clang := (texts .clang).getLast?.getD (lit "clang++")
  frontend := ((texts .frontend).getLast?.bind fun text => (parseFrontend text).toOption).getD .astJson
  astFilter := (texts .astFilter).getLast?.getD []
  roots := texts .root
  callbackRegistrationRules := (texts .callbackRegistration).filterMap fun text => (parseCallbackRegistration text).toOption
  providerConfigs := (texts .providerConfig).map Path.mk
  translationUnitTimeout := ((texts .tuTimeout).getLast?.bind fun text =>
    (parseTimeLimit ValueOption.tuTimeout.text text).toOption).getD 0 * 1000
  indexTimeout := ((texts .indexTimeout).getLast?.bind fun text =>
    (parseTimeLimit ValueOption.indexTimeout.text text).toOption).getD 0 * 1000
  maxAstBytes := ((texts .maxAstBytes).getLast?.bind fun text => (parseMaxAstBytes text).toOption).getD 0
  verbose := given .verbose
  clangExplicit := (texts .clang).getLast?.isSome
  configurationIdExplicit := (texts .configurationId).getLast?.isSome
  projectRootExplicit := (texts .projectRoot).getLast?.isSome
  failOnUnreachable := given .failOnUnreachable
  failOnDiff := given .failOnDiff
  noCache := given .noCache

def CliOptions.ofWords (cwd : Path) (words : List Word) : CliOptions := .of cwd (textsFor words) (isGiven words)

/-! ## Values -/

/-- A decimal number of 64 bits. -/
structure IsNumber (text : Bytes) (number : Nat) : Prop where
  nonempty : text ≠ []
  digits : ∀ c ∈ text, Json.isDigit c = true
  value : text.foldl (fun number c => 10 * number + (c.toNat - (ch '0').toNat)) 0 = number
  fits : number < 2 ^ 64

theorem fromCharsUnsigned_ok_iff {text : Bytes} {number : Nat} :
    fromCharsUnsigned text = some (number, []) ↔ IsNumber text number := by
  unfold fromCharsUnsigned
  dsimp only
  constructor
  · intro h
    split at h
    · cases h
    · rename_i hnumber
      obtain ⟨rfl, hrest⟩ := Prod.mk.inj (Option.some.inj h)
      rw [not_or] at hnumber
      have hall : text.takeWhile Json.isDigit = text := by
        have := List.takeWhile_append_dropWhile (p := Json.isDigit) (l := text)
        rwa [hrest, List.append_nil] at this
      rw [hall] at hnumber ⊢
      exact ⟨hnumber.1, List.takeWhile_eq_self_iff.1 hall, rfl, by omega⟩
  · rintro ⟨hne, hdigits, rfl, hfits⟩
    rw [List.takeWhile_eq_self_iff.2 hdigits, List.dropWhile_eq_nil_iff.2 hdigits, if_neg]
    rintro (h | h)
    · exact hne h
    · omega

/-- The value of `--callback-registration`. -/
structure IsRegistration (text : Bytes) (rule : CallbackRegistrationRule) : Prop where
  split : ∃ callee index number, splitLast (ch ':') text = some (callee, index) ∧ callee ≠ [] ∧ IsNumber index number ∧
    rule = { callee := { qualifiedName := callee }, argumentIndex := number.toUInt64 }

theorem parseCallbackRegistration_ok_iff {text : Bytes} {rule : CallbackRegistrationRule} :
    parseCallbackRegistration text = .ok rule ↔ IsRegistration text rule := by
  unfold parseCallbackRegistration
  dsimp only
  constructor
  · intro h
    split at h
    · cases h
    · rename_i callee index hsplit
      split at h
      · cases h
      · rename_i hne
        split at h
        · rename_i number hnumber
          exact ⟨callee, index, number, hsplit, fun h => hne (.inl h), fromCharsUnsigned_ok_iff.1 hnumber,
            (Except.ok.inj h).symm⟩
        · cases h
  · rintro ⟨callee, index, number, hsplit, hcallee, hindex, rfl⟩
    have hne : ¬(callee = [] ∨ index = []) := by
      rintro (h | h)
      · exact hcallee h
      · exact hindex.nonempty h
    simp only [hsplit, if_neg hne, fromCharsUnsigned_ok_iff.2 hindex]

theorem parseTimeLimit_ok_iff {argument text : Bytes} {seconds : Nat} :
    parseTimeLimit argument text = .ok seconds ↔
      IsNumber text seconds ∧ 0 < seconds ∧ seconds ≤ (2 ^ 63 - 1) / 1000 := by
  constructor
  · intro h
    refine ⟨?_, TimeLimits.parseTimeLimit_ok h⟩
    unfold parseTimeLimit at h
    dsimp only at h
    split at h
    · rename_i number hnumber
      split at h
      · cases h
      · rw [← Except.ok.inj h]
        exact fromCharsUnsigned_ok_iff.1 hnumber
    · cases h
  · rintro ⟨hnumber, hpos, hle⟩
    have hrange : ¬(seconds = 0 ∨ (2 ^ 63 - 1) / 1000 < seconds) := by omega
    unfold parseTimeLimit
    simp only [fromCharsUnsigned_ok_iff.2 hnumber, if_neg hrange]

theorem parseMaxAstBytes_ok_iff {text : Bytes} {bytes : UInt64} :
    parseMaxAstBytes text = .ok bytes ↔ IsNumber text bytes.toNat ∧ bytes ≠ 0 := by
  unfold parseMaxAstBytes
  dsimp only
  constructor
  · intro h
    split at h
    · rename_i number hnumber
      split at h
      · cases h
      · rename_i hrange
        have hn := fromCharsUnsigned_ok_iff.1 hnumber
        have hto : number.toUInt64.toNat = number := Nat.mod_eq_of_lt hn.fits
        obtain rfl := Except.ok.inj h
        rw [hto]
        refine ⟨hn, fun h0 => hrange (.inl ?_)⟩
        rw [← hto, h0]
        rfl
    · cases h
  · rintro ⟨hnumber, hne⟩
    have hpos : bytes.toNat ≠ 0 := fun h => hne (UInt64.toNat_inj.1 h)
    have hrange : ¬(bytes.toNat = 0 ∨ 2 ^ 64 - 1 < bytes.toNat) := by
      have := hnumber.fits
      omega
    simp only [fromCharsUnsigned_ok_iff.2 hnumber, if_neg hrange]
    rw [Nat.toUInt64, UInt64.ofNat_toNat]

/-- The values that an option takes. -/
def ValueOption.Accepts (option : ValueOption) (text : Bytes) : Prop :=
  match option with
  | mode => text = lit "application"
  | configurationId => text ≠ []
  | callbackRegistration => ∃ rule, IsRegistration text rule
  | frontend => text = lit "ast-json" ∨ text = lit "libtooling"
  | tuTimeout | indexTimeout => ∃ seconds, IsNumber text seconds ∧ 0 < seconds ∧ seconds ≤ (2 ^ 63 - 1) / 1000
  | maxAstBytes => ∃ bytes : UInt64, IsNumber text bytes.toNat ∧ bytes ≠ 0
  | format => text = lit "human" ∨ text = lit "json" ∨ text = lit "sarif"
  | _ => True

/-! ## Runs of words -/

section Runs

variable {cwd : Path} {texts : ValueOption → List Bytes} {given : Flag → Bool} {o : CliOptions}

theorem ok_eq_iff {α : Type} {a b : α} : (Except.ok a : Except Exception α) = .ok b ↔ b = a :=
  ⟨fun h => (Except.ok.inj h).symm, fun h => congrArg Except.ok h.symm⟩

theorem checked_ok_iff {α : Type} {p : Prop} [Decidable p] {e : Exception} {a b : α} :
    (if p then .error e else .ok a) = Except.ok b ↔ ¬p ∧ b = a := by
  split
  · rename_i hp
    exact iff_of_false (by simp) fun h => h.1 hp
  · rename_i hp
    exact ⟨fun h => ⟨hp, ok_eq_iff.1 h⟩, fun h => ok_eq_iff.2 h.2⟩

theorem parsed_ok_iff {α β : Type} {m : Except Exception α} {P : α → Prop} (hm : ∀ a, m = .ok a ↔ P a) {f : α → β}
    {b : β} {d : Except Exception α → β} (hd : ∀ a, d (.ok a) = f a) :
    (m >>= fun a => .ok (f a)) = .ok b ↔ (∃ a, P a) ∧ b = d m := by
  rw [except_bind_ok_iff]
  constructor
  · rintro ⟨a, ha, hb⟩
    rw [ha, hd]
    exact ⟨⟨a, (hm a).1 ha⟩, ok_eq_iff.1 hb⟩
  · rintro ⟨⟨a, ha⟩, hb⟩
    rw [(hm a).2 ha, hd] at hb
    exact ⟨a, (hm a).2 ha, ok_eq_iff.2 hb⟩

theorem parseFrontend_ok_iff {text : Bytes} {frontend : IndexFrontend} :
    parseFrontend text = .ok frontend ↔
      text = lit "ast-json" ∧ frontend = .astJson ∨ text = lit "libtooling" ∧ frontend = .libTooling := by
  have hne : lit "libtooling" ≠ lit "ast-json" := by decide
  unfold parseFrontend
  split
  · rename_i h
    subst h
    simp [Ne.symm hne, eq_comm]
  · rename_i h
    split
    · rename_i h'
      subst h'
      simp [hne, eq_comm]
    · rename_i h'
      simp [h, h']

/-- An option reads its value, and adds it to those before. -/
theorem ValueOption.apply_of (option : ValueOption) (text : Bytes) :
    option.apply (.of cwd texts given) text = .ok o ↔
      option.Accepts text ∧ o = .of cwd (Function.update texts option (texts option ++ [text])) given := by
  cases option
  case mode =>
    simp only [ValueOption.apply, Accepts, checked_ok_iff, ne_eq, not_not]
    rfl
  case configurationId =>
    simp only [ValueOption.apply, Accepts, checked_ok_iff, CliOptions.of, Function.update_self, List.getLast?_concat]
    rfl
  case format =>
    simp only [ValueOption.apply, Accepts, checked_ok_iff, CliOptions.of, Function.update_self, List.getLast?_concat,
      ne_eq, not_and_or, not_not]
    rfl
  case frontend =>
    refine (parsed_ok_iff (fun _ => parseFrontend_ok_iff) (d := fun m =>
      { CliOptions.of cwd texts given with frontend := m.toOption.getD .astJson }) fun _ => rfl).trans ?_
    simp only [Accepts, CliOptions.of, Function.update_self, List.getLast?_concat, exists_or, exists_and_left,
      exists_eq, and_true, Option.bind_some]
    rfl
  case callbackRegistration =>
    refine (parsed_ok_iff (fun _ => parseCallbackRegistration_ok_iff) (d := fun m =>
      { CliOptions.of cwd texts given with
        callbackRegistrationRules := (CliOptions.of cwd texts given).callbackRegistrationRules ++ m.toOption.toList })
      fun _ => rfl).trans ?_
    have hone : [text].filterMap (fun text => (parseCallbackRegistration text).toOption) =
        (parseCallbackRegistration text).toOption.toList := by
      rw [List.filterMap_cons]
      cases (parseCallbackRegistration text).toOption <;> rfl
    simp only [Accepts, CliOptions.of, Function.update_self, List.filterMap_append, hone]
    rfl
  case tuTimeout =>
    refine (parsed_ok_iff (fun _ => parseTimeLimit_ok_iff) (d := fun m =>
      { CliOptions.of cwd texts given with translationUnitTimeout := m.toOption.getD 0 * 1000 }) fun _ => rfl).trans ?_
    simp only [Accepts, CliOptions.of, Function.update_self, List.getLast?_concat, Option.bind_some]
    rfl
  case indexTimeout =>
    refine (parsed_ok_iff (fun _ => parseTimeLimit_ok_iff) (d := fun m =>
      { CliOptions.of cwd texts given with indexTimeout := m.toOption.getD 0 * 1000 }) fun _ => rfl).trans ?_
    simp only [Accepts, CliOptions.of, Function.update_self, List.getLast?_concat, Option.bind_some]
    rfl
  case maxAstBytes =>
    refine (parsed_ok_iff (fun _ => parseMaxAstBytes_ok_iff) (d := fun m =>
      { CliOptions.of cwd texts given with maxAstBytes := m.toOption.getD 0 }) fun _ => rfl).trans ?_
    simp only [Accepts, CliOptions.of, Function.update_self, List.getLast?_concat, Option.bind_some]
    rfl
  -- the other options take any text
  all_goals
    simp only [ValueOption.apply, Accepts, true_and, ok_eq_iff, CliOptions.of, Function.update_self, List.getLast?_concat,
      List.map_append, List.map_cons, List.map_nil]
    rfl

theorem textsFor_append (words after : List Word) (option : ValueOption) :
    textsFor (words ++ after) option = textsFor words option ++ textsFor after option :=
  List.filterMap_append

theorem textsFor_value (words : List Word) (option : ValueOption) (text : Bytes) :
    textsFor (words ++ [.value option text]) =
      Function.update (textsFor words) option (textsFor words option ++ [text]) := by
  funext other
  rw [textsFor_append]
  by_cases h : option = other
  · subst h
    rw [Function.update_self]
    simp [textsFor, Word.textFor]
  · rw [Function.update_of_ne (Ne.symm h)]
    simp [textsFor, Word.textFor, h]

theorem textsFor_flag (words : List Word) (f : Flag) : textsFor (words ++ [.flag f]) = textsFor words := by
  funext other
  rw [textsFor_append]
  simp [textsFor, Word.textFor]

theorem textsFor_database (words : List Word) (text : Bytes) (plain : text.head? ≠ some (ch '-')) :
    textsFor (words ++ [.database text plain]) = textsFor (words ++ [.value .compileCommands text]) := by
  funext other
  rw [textsFor_append, textsFor_append]
  by_cases h : other = .compileCommands
  · subst h
    rfl
  · simp [textsFor, Word.textFor, h, Ne.symm h]

theorem isGiven_value (words : List Word) (option : ValueOption) (text : Bytes) :
    isGiven (words ++ [.value option text]) = isGiven words := by
  funext f
  simp [isGiven, Word.isFlag]

theorem isGiven_database (words : List Word) (text : Bytes) (plain : text.head? ≠ some (ch '-')) :
    isGiven (words ++ [.database text plain]) = isGiven words := by
  funext f
  simp [isGiven, Word.isFlag]

theorem isGiven_flag (words : List Word) (f : Flag) :
    isGiven (words ++ [.flag f]) = Function.update (isGiven words) f true := by
  funext g
  by_cases h : f = g
  · subst h
    simp [isGiven, Word.isFlag]
  · rw [Function.update_of_ne (Ne.symm h)]
    simp [isGiven, Word.isFlag, h]

theorem Flag.apply_of (f : Flag) :
    f.apply (.of cwd texts given) = .of cwd texts (Function.update given f true) := by
  cases f <;> rfl

/-- A word that can follow others: its value is one that the option takes, and
only one database is named without its option. -/
def Word.FitsAfter (before : List Word) : Word → Prop
  | value option text => option.Accepts text
  | flag _ => True
  | database _ _ => (textsFor before .compileCommands).getLast?.getD [] = []

def Meaningful (words : List Word) : Prop :=
  ∀ before word after, words = before ++ word :: after → word.FitsAfter before

theorem Word.apply_ofWords (words : List Word) (word : Word) :
    word.apply (.ofWords cwd words) = .ok o ↔ word.FitsAfter words ∧ o = .ofWords cwd (words ++ [word]) := by
  cases word with
  | value option text =>
    rw [CliOptions.ofWords, CliOptions.ofWords, textsFor_value, isGiven_value]
    exact option.apply_of text
  | flag f =>
    rw [CliOptions.ofWords, CliOptions.ofWords, textsFor_flag, isGiven_flag, ← Flag.apply_of]
    simp only [Word.apply, FitsAfter, true_and, ok_eq_iff]
  | database text plain =>
    rw [CliOptions.ofWords, CliOptions.ofWords, textsFor_database, textsFor_value, isGiven_database]
    have hempty : (CliOptions.of cwd (textsFor words) (isGiven words)).compilationDatabase.isEmpty = true ↔
        (textsFor words .compileCommands).getLast?.getD [] = [] := List.isEmpty_iff
    -- The same as `--compile-commands`, where no database was named before.
    by_cases h : (textsFor words .compileCommands).getLast?.getD [] = []
    · have := @ValueOption.apply_of cwd (textsFor words) (isGiven words) o .compileCommands text
      rw [Word.apply, applyPositional, if_pos (hempty.2 h)]
      exact this.trans (and_congr_left fun _ => iff_of_true trivial h)
    · rw [Word.apply, applyPositional, if_neg (fun h' => h (hempty.1 h'))]
      exact iff_of_false (by simp) fun h' => h h'.1

theorem run_ofWords (before words : List Word) :
    words.foldlM Word.apply (.ofWords cwd before) = .ok o ↔
      (∀ front word back, words = front ++ word :: back → word.FitsAfter (before ++ front)) ∧
        o = .ofWords cwd (before ++ words) := by
  induction words generalizing before with
  | nil =>
    rw [List.append_nil]
    refine ok_eq_iff.trans ⟨fun h => ⟨fun front word back hnil => ?_, h⟩, And.right⟩
    simp at hnil
  | cons word words ih =>
    rw [List.foldlM_cons, except_bind_ok_iff]
    constructor
    · rintro ⟨o₁, hword, hrest⟩
      obtain ⟨hfits, rfl⟩ := (word.apply_ofWords before).1 hword
      obtain ⟨hall, rfl⟩ := (ih (before ++ [word])).1 hrest
      refine ⟨fun front w back hsplit => ?_, by rw [List.append_assoc]; rfl⟩
      cases front with
      | nil =>
        obtain ⟨rfl, -⟩ := List.cons.inj hsplit
        rwa [List.append_nil]
      | cons v front =>
        obtain ⟨rfl, hback⟩ := List.cons.inj hsplit
        simpa only [List.append_assoc, List.singleton_append] using hall front w back hback
    · rintro ⟨hall, rfl⟩
      have hfits : word.FitsAfter before := by simpa only [List.append_nil] using hall [] word words rfl
      refine ⟨_, (word.apply_ofWords before).2 ⟨hfits, rfl⟩, (ih (before ++ [word])).2 ⟨fun front w back hsplit => ?_, ?_⟩⟩
      · simpa only [List.append_assoc, List.singleton_append] using
          hall (word :: front) w back (by rw [hsplit, List.cons_append])
      · rw [List.append_assoc, List.singleton_append]

end Runs

/-! ## Accepted command lines -/

theorem ValueOption.ofText_text (option : ValueOption) : ofText option.text = some option := by
  cases option <;> decide

theorem ValueOption.ofText_some {argument : Bytes} {option : ValueOption} (h : ofText argument = some option) :
    argument = option.text :=
  (by simpa using List.find?_some h : option.text = argument).symm

theorem ValueOption.text_not_request (option : ValueOption) : option.text ≠ lit "--help" ∧ option.text ≠ lit "--version" := by
  cases option <;> decide

theorem ValueOption.text_head (option : ValueOption) : option.text.head? = some (ch '-') := by
  cases option <;> rfl

theorem Flag.ofText_text (f : Flag) : ofText f.text = some f := by
  cases f <;> decide

theorem Flag.ofText_some {argument : Bytes} {f : Flag} (h : ofText argument = some f) : argument = f.text :=
  (by simpa using List.find?_some h : f.text = argument).symm

theorem Flag.text_not_option (f : Flag) :
    f.text ≠ lit "--help" ∧ f.text ≠ lit "--version" ∧ ValueOption.ofText f.text = none := by
  cases f <;> decide

theorem Flag.text_head (f : Flag) : f.text.head? = some (ch '-') := by
  cases f <;> rfl

/-- A word is taken whole. -/
theorem parseArguments_word (options : CliOptions) (word : Word) (rest : List Bytes) :
    parseArguments options (word.arguments ++ rest) = word.apply options >>= fun o => parseArguments o rest := by
  cases word with
  | value option text =>
    obtain ⟨hhelp, hversion⟩ := option.text_not_request
    simp only [Word.arguments, List.cons_append, List.nil_append, parseArguments, if_neg hhelp, if_neg hversion,
      ValueOption.ofText_text]
    rfl
  | flag f =>
    obtain ⟨hhelp, hversion, hoption⟩ := f.text_not_option
    simp only [Word.arguments, List.cons_append, List.nil_append, parseArguments, if_neg hhelp, if_neg hversion,
      hoption, Flag.ofText_text]
    rfl
  | database text plain =>
    have hhelp : text ≠ lit "--help" := fun h => plain (by rw [h]; rfl)
    have hversion : text ≠ lit "--version" := fun h => plain (by rw [h]; rfl)
    have hoption : ValueOption.ofText text = none := Option.eq_none_iff_forall_ne_some.2 fun option h =>
      plain (by rw [ValueOption.ofText_some h, ValueOption.text_head])
    have hflag : Flag.ofText text = none := Option.eq_none_iff_forall_ne_some.2 fun f h =>
      plain (by rw [Flag.ofText_some h, Flag.text_head])
    simp only [Word.arguments, List.cons_append, List.nil_append, parseArguments, if_neg hhelp, if_neg hversion,
      hoption, hflag, if_neg plain]
    rfl

theorem parseArguments_words (options : CliOptions) (words : List Word) (rest : List Bytes) :
    parseArguments options (words.flatMap Word.arguments ++ rest) =
      words.foldlM Word.apply options >>= fun o => parseArguments o rest := by
  induction words generalizing options with
  | nil => rfl
  | cons word words ih =>
    rw [List.flatMap_cons, List.append_assoc, parseArguments_word, List.foldlM_cons]
    cases word.apply options with
    | error e => rfl
    | ok o => exact ih o

/-- Where the loop over the arguments ends. -/
inductive Ends (options : CliOptions) : List Bytes → CliRequest → Prop where
  | run : Ends options [] (.run options)
  | help (rest : List Bytes) : Ends options (lit "--help" :: rest) .help
  | version (rest : List Bytes) : Ends options (lit "--version" :: rest) .version

/-- The arguments are words up to where the loop ends. -/
def Taken (options : CliOptions) (arguments : List Bytes) (request : CliRequest) : Prop :=
  ∃ (words : List Word) (rest : List Bytes) (o : CliOptions), arguments = words.flatMap Word.arguments ++ rest ∧
    words.foldlM Word.apply options = .ok o ∧ Ends o rest request

theorem Taken.cons {options o : CliOptions} {word : Word} {rest : List Bytes} {request : CliRequest}
    (hword : word.apply options = .ok o) (h : Taken o rest request) :
    Taken options (word.arguments ++ rest) request := by
  obtain ⟨words, rest, o', rfl, hrun, hends⟩ := h
  refine ⟨word :: words, rest, o', by rw [List.flatMap_cons, List.append_assoc], ?_, hends⟩
  rw [List.foldlM_cons, hword]
  exact hrun

theorem parseArguments_ok_iff {options : CliOptions} {arguments : List Bytes} {request : CliRequest} :
    parseArguments options arguments = .ok request ↔ Taken options arguments request := by
  constructor
  · intro h
    fun_induction parseArguments options arguments with
    | case1 options =>
      obtain rfl := Except.ok.inj h
      exact ⟨[], [], options, rfl, rfl, .run⟩
    | case2 options rest =>
      obtain rfl := Except.ok.inj h
      exact ⟨[], _, options, rfl, rfl, .help rest⟩
    | case3 options rest =>
      obtain rfl := Except.ok.inj h
      exact ⟨[], _, options, rfl, rfl, .version rest⟩
    | case4 => cases h
    | case5 options argument hhelp hversion option hoption value rest ih =>
      obtain ⟨o, ho, hrest⟩ := except_bind_ok_iff.1 h
      rw [ValueOption.ofText_some hoption]
      exact @Taken.cons options o (.value option value) rest request ho (ih o hrest)
    | case6 options argument rest hhelp hversion hoption f hflag ih =>
      rw [Flag.ofText_some hflag]
      exact @Taken.cons options _ (.flag f) rest request rfl (ih h)
    | case7 => cases h
    | case8 options argument rest hhelp hversion hoption hflag hplain ih =>
      obtain ⟨o, ho, hrest⟩ := except_bind_ok_iff.1 h
      exact @Taken.cons options o (.database argument hplain) rest request ho (ih o hrest)
  · rintro ⟨words, rest, o, rfl, hrun, hends⟩
    rw [parseArguments_words, hrun]
    cases hends with
    | run => rfl
    | help => rfl
    | version => rfl

/-- The normal form of a path that is not empty. -/
def normalPath (cwd path : Path) : Path := (cwd.append path).lexicallyNormal

/-- The options whose compared paths are in normal form. -/
def CliOptions.compared (cwd : Path) (o : CliOptions) : CliOptions :=
  { o with
    compilationDatabase := normalPath cwd (o.database (o.cmakeBuildDirectory.map (normalPath cwd)))
    projectRoot := normalPath cwd o.projectRoot
    output := o.output.map (normalPath cwd)
    graphOutput := o.graphOutput.map (normalPath cwd)
    baselineGraph := o.baselineGraph.map (normalPath cwd)
    differentialPolicy := o.differentialPolicy.map (normalPath cwd)
    cmakeBuildDirectory := o.cmakeBuildDirectory.map (normalPath cwd)
    targetManifest := o.targetManifest.map (normalPath cwd) }

/-- The options with all paths in normal form, and their lists in canonical order. -/
def CliOptions.normalized (cwd : Path) (o : CliOptions) : CliOptions :=
  { o.compared cwd with
    translationUnitRoot := o.translationUnitRoot.map (normalPath cwd)
    cacheDirectory := o.cacheDirectory.map (normalPath cwd)
    providerConfigs := sortPaths (o.providerConfigs.map (normalPath cwd))
    callbackRegistrationRules := canonicalizeCallbackRegistrationRules o.callbackRegistrationRules }

/-- The single paths that must not be empty; an empty database stands for the default. -/
def CliOptions.named (o : CliOptions) : List Path :=
  o.projectRoot :: (o.cmakeBuildDirectory.toList ++ o.targetManifest.toList ++ o.output.toList ++ o.graphOutput.toList ++
    o.baselineGraph.toList ++ o.differentialPolicy.toList ++ o.cacheDirectory.toList ++ o.translationUnitRoot.toList)

/-- What `parse_cli` asks of the options as a whole. -/
structure CliOptions.Consistent (cwd : Path) (o : CliOptions) : Prop where
  metadata : ¬(o.cmakeBuildDirectory.isSome ∧ o.targetManifest.isSome)
  selection : o.configuration ≠ [] ∨ o.target ≠ [] → o.hasMetadata = true
  tuRoot : o.translationUnitRoot.isSome → o.hasMetadata = false
  named : ∀ p ∈ o.named, p.isEmpty = false
  policiesNamed : ∀ p ∈ o.providerConfigs, p.isEmpty = false
  outputs : ∀ p q, o.output = some p → o.graphOutput = some q → (normalPath cwd q).same (normalPath cwd p) = false
  baseline : ∀ p q, o.output = some p ∨ o.graphOutput = some p → o.baselineGraph = some q →
    (normalPath cwd p).same (normalPath cwd q) = false
  policy : o.differentialPolicy.isSome → o.baselineGraph.isSome
  gate : o.failOnDiff = true ∨ o.format = lit "sarif" → o.hasGate = true
  cache : ¬(o.noCache = true ∧ o.cacheDirectory.isSome)

theorem rejectIf_ok_iff {condition : Bool} {message : String} {u : Unit} :
    rejectIf condition message = .ok u ↔ condition = false := by
  unfold rejectIf
  cases condition <;> simp

theorem sameOption_map {cwd : Path} {p q : Option Path} :
    (p.isSome && sameOption (q.map (normalPath cwd)) (p.map (normalPath cwd))) = false ↔
      ∀ a b, p = some a → q = some b → (normalPath cwd b).same (normalPath cwd a) = false := by
  cases p with
  | none => simp
  | some a =>
    cases q with
    | none => simp [sameOption]
    | some b => simp [sameOption]

theorem except_map_ok_iff {α β : Type} {m : Except Exception α} {f : α → β} {b : β} :
    (f <$> m) = .ok b ↔ ∃ a, m = .ok a ∧ b = f a := by
  cases m with
  | error e => exact iff_of_false (by rintro ⟨⟩) (by rintro ⟨a, h, -⟩; cases h)
  | ok a =>
    constructor
    · intro h
      exact ⟨a, rfl, (Except.ok.inj h).symm⟩
    · rintro ⟨_, h, rfl⟩
      rw [← Except.ok.inj h]
      rfl

theorem absoluteNormal_ok_iff {cwd path full : Path} :
    absoluteNormal cwd path = .ok full ↔ path.isEmpty = false ∧ full = normalPath cwd path := by
  show (Path.lexicallyNormal <$> path.absolute (.ok cwd)) = .ok full ↔ _
  simp only [except_map_ok_iff, Path.absolute_ok_iff]
  constructor
  · rintro ⟨_, ⟨hne, rfl⟩, rfl⟩
    exact ⟨hne, rfl⟩
  · rintro ⟨hne, rfl⟩
    exact ⟨_, ⟨hne, rfl⟩, rfl⟩

theorem absoluteOption_ok_iff {cwd : Path} {path full : Option Path} :
    absoluteOption cwd path = .ok full ↔ (∀ p ∈ path.toList, p.isEmpty = false) ∧ full = path.map (normalPath cwd) := by
  cases path with
  | none => exact ok_eq_iff.trans ⟨fun h => ⟨List.forall_mem_nil _, h⟩, And.right⟩
  | some p =>
    show (some <$> absoluteNormal cwd p) = .ok full ↔ _
    simp only [except_map_ok_iff, absoluteNormal_ok_iff, Option.toList_some, List.forall_mem_singleton, Option.map_some]
    constructor
    · rintro ⟨_, ⟨hne, rfl⟩, rfl⟩
      exact ⟨hne, rfl⟩
    · rintro ⟨hne, rfl⟩
      exact ⟨_, ⟨hne, rfl⟩, rfl⟩

theorem mapM_absoluteNormal_ok_iff {cwd : Path} {paths full : List Path} :
    paths.mapM (absoluteNormal cwd) = .ok full ↔ (∀ p ∈ paths, p.isEmpty = false) ∧ full = paths.map (normalPath cwd) := by
  induction paths generalizing full with
  | nil => exact ok_eq_iff.trans ⟨fun h => ⟨List.forall_mem_nil _, h⟩, And.right⟩
  | cons p paths ih =>
    simp only [List.mapM_cons, except_bind_ok_iff, absoluteNormal_ok_iff, ih, List.forall_mem_cons, List.map_cons]
    constructor
    · rintro ⟨_, ⟨hp, rfl⟩, rest, ⟨hpaths, rfl⟩, hfull⟩
      exact ⟨⟨hp, hpaths⟩, (Except.ok.inj hfull).symm⟩
    · rintro ⟨⟨hp, hpaths⟩, rfl⟩
      exact ⟨_, ⟨hp, rfl⟩, _, ⟨hpaths, rfl⟩, rfl⟩

theorem CliOptions.database_nonempty (directory : Option Path) (o : CliOptions) :
    (o.database directory).isEmpty = false := by
  unfold CliOptions.database
  split
  · cases directory with
    | none => rfl
    | some directory => exact Path.isEmpty_append directory rfl
  · exact Bool.eq_false_iff.2 ‹_›

theorem CliOptions.normalizeCompared_ok_iff {cwd : Path} {o n : CliOptions} :
    o.normalizeCompared cwd = .ok n ↔
      (∀ p ∈ o.projectRoot :: (o.cmakeBuildDirectory.toList ++ o.targetManifest.toList ++ o.output.toList ++
        o.graphOutput.toList ++ o.baselineGraph.toList ++ o.differentialPolicy.toList), p.isEmpty = false) ∧
        n = o.compared cwd := by
  unfold normalizeCompared
  simp only [except_bind_ok_iff, absoluteOption_ok_iff, absoluteNormal_ok_iff, ok_eq_iff, List.forall_mem_cons,
    List.forall_mem_append]
  constructor
  · rintro ⟨_, ⟨hcmake, rfl⟩, _, ⟨hmanifest, rfl⟩, _, ⟨-, rfl⟩, _, ⟨hroot, rfl⟩, _, ⟨houtput, rfl⟩, _, ⟨hgraph, rfl⟩, _,
      ⟨hbaseline, rfl⟩, _, ⟨hpolicy, rfl⟩, rfl⟩
    exact ⟨⟨hroot, ⟨⟨⟨⟨hcmake, hmanifest⟩, houtput⟩, hgraph⟩, hbaseline⟩, hpolicy⟩, rfl⟩
  · rintro ⟨⟨hroot, ⟨⟨⟨⟨hcmake, hmanifest⟩, houtput⟩, hgraph⟩, hbaseline⟩, hpolicy⟩, rfl⟩
    exact ⟨_, ⟨hcmake, rfl⟩, _, ⟨hmanifest, rfl⟩, _, ⟨o.database_nonempty _, rfl⟩, _, ⟨hroot, rfl⟩, _, ⟨houtput, rfl⟩, _,
      ⟨hgraph, rfl⟩, _, ⟨hbaseline, rfl⟩, _, ⟨hpolicy, rfl⟩, rfl⟩

theorem CliOptions.normalizeRest_ok_iff {cwd : Path} {o n : CliOptions} :
    (o.compared cwd).normalizeRest cwd = .ok n ↔
      (∀ p ∈ o.cacheDirectory.toList ++ o.translationUnitRoot.toList, p.isEmpty = false) ∧
        (∀ p ∈ o.providerConfigs, p.isEmpty = false) ∧ n = o.normalized cwd := by
  unfold normalizeRest
  simp only [except_bind_ok_iff, absoluteOption_ok_iff, mapM_absoluteNormal_ok_iff, ok_eq_iff, List.forall_mem_append]
  constructor
  · rintro ⟨_, ⟨hcache, rfl⟩, _, ⟨hroot, rfl⟩, _, ⟨hpolicies, rfl⟩, rfl⟩
    exact ⟨⟨hcache, hroot⟩, hpolicies, rfl⟩
  · rintro ⟨⟨hcache, hroot⟩, hpolicies, rfl⟩
    exact ⟨_, ⟨hcache, rfl⟩, _, ⟨hroot, rfl⟩, _, ⟨hpolicies, rfl⟩, rfl⟩

theorem finishOptions_ok_iff {cwd : Path} {o n : CliOptions} :
    finishOptions cwd o = .ok n ↔ o.Consistent cwd ∧ n = o.normalized cwd := by
  have houtputs : ((o.compared cwd).output.isSome && sameOption (o.compared cwd).graphOutput (o.compared cwd).output) =
      false ↔ ∀ p q, o.output = some p → o.graphOutput = some q → (normalPath cwd q).same (normalPath cwd p) = false := by
    simpa only [CliOptions.compared, Option.isSome_map] using sameOption_map
  -- the comparisons of the source are made on the normalized paths
  have hbaseline : ((o.compared cwd).baselineGraph.isSome &&
      (sameOption (o.compared cwd).output (o.compared cwd).baselineGraph ||
        sameOption (o.compared cwd).graphOutput (o.compared cwd).baselineGraph)) = false ↔
      ∀ p q, o.output = some p ∨ o.graphOutput = some p → o.baselineGraph = some q →
        (normalPath cwd p).same (normalPath cwd q) = false := by
    have := fun other => @sameOption_map cwd o.baselineGraph other
    simp only [CliOptions.compared, Option.isSome_map, Bool.and_or_distrib_left, Bool.or_eq_false_iff, this]
    constructor
    · rintro ⟨ho, hg⟩ p q (hp | hp) hq
      · exact ho q p hq hp
      · exact hg q p hq hp
    · exact fun h => ⟨fun q p hq hp => h p q (.inl hp) hq, fun q p hq hp => h p q (.inr hp) hq⟩
  have hgate : (o.compared cwd).hasGate = o.hasGate := by
    simp only [CliOptions.hasGate, CliOptions.compared, Option.isSome_map]
  unfold finishOptions
  simp only [except_bind_ok_iff, rejectIf_ok_iff, exists_const, CliOptions.normalizeCompared_ok_iff]
  constructor
  · rintro ⟨hmetadata, hselection, htuRoot, _, ⟨hcompared, rfl⟩, hout, hbase, hpolicy, hdiff, hsarif, hcache, hrest⟩
    obtain ⟨hothers, hpolicies, rfl⟩ := CliOptions.normalizeRest_ok_iff.1 hrest
    rw [hgate] at hdiff hsarif
    refine ⟨⟨by simpa using hmetadata, fun h => ?_, fun h => ?_, ?_, hpolicies, houtputs.1 hout, hbaseline.1 hbase,
      ?_, ?_, ?_⟩, rfl⟩
    · by_contra hno
      rcases h with h | h
      · simp [hno, h] at hselection
      · simp [hno, h] at hselection
    · simpa [h] using htuRoot
    · simp only [CliOptions.named, List.forall_mem_cons, List.forall_mem_append] at hcompared hothers ⊢
      exact ⟨hcompared.1, ⟨hcompared.2, hothers.1⟩, hothers.2⟩
    · simpa [CliOptions.compared] using hpolicy
    · rintro (h | h)
      · simpa [CliOptions.compared, h] using hdiff
      · simpa [CliOptions.compared, h] using hsarif
    · simpa [CliOptions.compared] using hcache
  · rintro ⟨⟨hmetadata, hselection, htuRoot, hnamed, hpolicies, hout, hbase, hpolicy, hpolicyGate, hcache⟩, rfl⟩
    simp only [CliOptions.named, List.forall_mem_cons, List.forall_mem_append] at hnamed
    refine ⟨by simpa using hmetadata, ?_, ?_, _, ⟨?_, rfl⟩, houtputs.2 hout, hbaseline.2 hbase, ?_, ?_, ?_, ?_,
      CliOptions.normalizeRest_ok_iff.2 ⟨?_, hpolicies, rfl⟩⟩
    · by_cases h : o.configuration ≠ [] ∨ o.target ≠ []
      · simp [hselection h]
      · obtain ⟨hc, ht⟩ := not_or.1 h
        simp [not_not.1 hc, not_not.1 ht]
    · by_cases h : o.translationUnitRoot.isSome
      · simp [htuRoot h]
      · simp [h]
    · simp only [List.forall_mem_cons, List.forall_mem_append]
      exact ⟨hnamed.1, hnamed.2.1.1⟩
    · simpa [CliOptions.compared] using hpolicy
    · rw [hgate]
      by_cases h : o.failOnDiff = true
      · simp [hpolicyGate (.inl h)]
      · simp [CliOptions.compared, h]
    · rw [hgate]
      by_cases h : o.format = lit "sarif"
      · simp [hpolicyGate (.inr h)]
      · simp [CliOptions.compared, h]
    · simpa [CliOptions.compared] using hcache
    · simp only [List.forall_mem_append]
      exact ⟨hnamed.2.1.2, hnamed.2.2⟩

theorem run_meaningful {cwd : Path} {words : List Word} {o : CliOptions} :
    words.foldlM Word.apply { projectRoot := cwd } = .ok o ↔ Meaningful words ∧ o = .ofWords cwd words :=
  run_ofWords [] words

/-- The answer to a command line of `words` that ends with `rest`. -/
inductive Answer (cwd : Path) (words : List Word) : List Bytes → CliRequest → Prop where
  | run : (CliOptions.ofWords cwd words).Consistent cwd →
      Answer cwd words [] (.run ((CliOptions.ofWords cwd words).normalized cwd))
  | help (rest : List Bytes) : Answer cwd words (lit "--help" :: rest) .help
  | version (rest : List Bytes) : Answer cwd words (lit "--version" :: rest) .version

theorem parseCli_eq (cwd : Path) (arguments : List Bytes) :
    parseCli (.ok cwd) arguments = parseArguments { projectRoot := cwd } arguments >>= finishRequest cwd :=
  rfl

/-- A command line is accepted exactly if it consists of words that can follow each
other, and if what they say together is consistent, where `--help` and
`--version` cut off all that comes behind them. -/
theorem parseCli_accepts (cwd : Path) (arguments : List Bytes) (request : CliRequest) :
    parseCli (.ok cwd) arguments = .ok request ↔
      ∃ words rest, arguments = words.flatMap Word.arguments ++ rest ∧ Meaningful words ∧
        Answer cwd words rest request := by
  constructor
  · intro h
    obtain ⟨r, hr, h⟩ := except_bind_ok_iff.1 (parseCli_eq cwd arguments ▸ h)
    obtain ⟨words, rest, o, rfl, hrun, hends⟩ := parseArguments_ok_iff.1 hr
    obtain ⟨hwords, rfl⟩ := run_meaningful.1 hrun
    refine ⟨words, rest, rfl, hwords, ?_⟩
    cases hends with
    | run =>
      obtain ⟨n, hn, rfl⟩ := except_map_ok_iff.1 h
      obtain ⟨hconsistent, rfl⟩ := finishOptions_ok_iff.1 hn
      exact .run hconsistent
    | help rest =>
      obtain rfl := Except.ok.inj h
      exact .help rest
    | version rest =>
      obtain rfl := Except.ok.inj h
      exact .version rest
  · rintro ⟨words, rest, rfl, hwords, hanswer⟩
    rw [parseCli_eq, parseArguments_words, run_meaningful.2 ⟨hwords, rfl⟩]
    cases hanswer with
    | run hconsistent => exact except_map_ok_iff.2 ⟨_, finishOptions_ok_iff.2 ⟨hconsistent, rfl⟩, rfl⟩
    | help rest => rfl
    | version rest => rfl

theorem parseCli_words {cwd : Path} {words : List Word} {o : CliOptions} :
    parseCli (.ok cwd) (words.flatMap Word.arguments) = .ok (.run o) ↔
      Meaningful words ∧ (CliOptions.ofWords cwd words).Consistent cwd ∧
        o = (CliOptions.ofWords cwd words).normalized cwd := by
  have hall := parseArguments_words { projectRoot := cwd } words []
  rw [List.append_nil] at hall
  rw [parseCli_eq, hall, bind_assoc, except_bind_ok_iff]
  simp only [run_meaningful]
  constructor
  · rintro ⟨_, ⟨hwords, rfl⟩, h⟩
    obtain ⟨n, hn, hrun⟩ := except_map_ok_iff.1 h
    obtain rfl := CliRequest.run.inj hrun
    exact ⟨hwords, finishOptions_ok_iff.1 hn⟩
  · rintro ⟨hwords, hconsistent⟩
    exact ⟨_, ⟨hwords, rfl⟩, except_map_ok_iff.2 ⟨o, finishOptions_ok_iff.2 hconsistent, rfl⟩⟩

theorem parseCli_run {cwd : Path} {arguments : List Bytes} {o : CliOptions}
    (h : parseCli (.ok cwd) arguments = .ok (.run o)) :
    ∃ words, arguments = words.flatMap Word.arguments ∧ Meaningful words ∧ (CliOptions.ofWords cwd words).Consistent cwd ∧
      o = (CliOptions.ofWords cwd words).normalized cwd := by
  obtain ⟨r, hr, h⟩ := except_bind_ok_iff.1 (parseCli_eq cwd arguments ▸ h)
  obtain ⟨words, rest, o', rfl, hrun, hends⟩ := parseArguments_ok_iff.1 hr
  cases hends with
  | run =>
    rw [List.append_nil] at hr ⊢
    exact ⟨words, rfl, parseCli_words.1 ((parseCli_eq cwd _).trans (except_bind_ok_iff.2 ⟨_, hr, h⟩))⟩
  | help rest => cases h
  | version rest => cases h

/-! ## The order of words -/

/-- A word about an option, also where it is left out before the database. -/
def Word.concerns (option : ValueOption) (word : Word) : Bool := (word.textFor option).isSome

/-- Two command lines that say the same about each option, in the same order. The order
between options is free, and so is that of the policies and of the rules. -/
structure SaysSame (words words' : List Word) : Prop where
  said : ∀ option, option ≠ .providerConfig → option ≠ .callbackRegistration →
    words.filter (Word.concerns option) = words'.filter (Word.concerns option)
  policies : ∀ text, text ∈ textsFor words .providerConfig ↔ text ∈ textsFor words' .providerConfig
  rules : ∀ text, text ∈ textsFor words .callbackRegistration ↔ text ∈ textsFor words' .callbackRegistration
  flags : ∀ f, isGiven words f = isGiven words' f

theorem SaysSame.symm {words words' : List Word} (h : SaysSame words words') : SaysSame words' words :=
  ⟨fun option h₁ h₂ => (h.said option h₁ h₂).symm, fun text => (h.policies text).symm,
    fun text => (h.rules text).symm, fun f => (h.flags f).symm⟩

theorem textsFor_filter (words : List Word) (option : ValueOption) :
    textsFor (words.filter (Word.concerns option)) option = textsFor words option := by
  unfold textsFor
  rw [List.filterMap_filter]
  refine List.filterMap_congr fun word _ => ?_
  unfold Word.concerns
  cases word.textFor option <;> rfl

theorem SaysSame.texts {words words' : List Word} (h : SaysSame words words') {option : ValueOption}
    (h₁ : option ≠ .providerConfig) (h₂ : option ≠ .callbackRegistration) :
    textsFor words option = textsFor words' option := by
  rw [← textsFor_filter, h.said option h₁ h₂, textsFor_filter]

theorem SaysSame.listed {words words' : List Word} (h : SaysSame words words') (option : ValueOption) (text : Bytes) :
    text ∈ textsFor words option ↔ text ∈ textsFor words' option := by
  by_cases h₁ : option = .providerConfig
  · subst h₁
    exact h.policies text
  · by_cases h₂ : option = .callbackRegistration
    · subst h₂
      exact h.rules text
    · rw [h.texts h₁ h₂]

theorem mem_textsFor {words : List Word} {option : ValueOption} (hoption : option ≠ .compileCommands) {text : Bytes} :
    text ∈ textsFor words option ↔ .value option text ∈ words := by
  unfold textsFor
  rw [List.mem_filterMap]
  constructor
  · rintro ⟨word, hword, htext⟩
    cases word with
    | value o t =>
      obtain ⟨rfl, hvalue⟩ := Option.ite_none_right_eq_some.1 htext
      rwa [← Option.some.inj hvalue]
    | flag f => cases htext
    | database t plain => exact absurd (Option.ite_none_right_eq_some.1 htext).1 hoption
  · exact fun hword => ⟨_, hword, if_pos rfl⟩

theorem Meaningful.accepts {words : List Word} (hwords : Meaningful words) {option : ValueOption} {text : Bytes}
    (hmem : .value option text ∈ words) : option.Accepts text := by
  obtain ⟨front, back, hsplit⟩ := List.append_of_mem hmem
  exact hwords front _ back hsplit

theorem SaysSame.meaningful {words words' : List Word} (h : SaysSame words words') (hwords : Meaningful words) :
    Meaningful words' := by
  rintro before word after rfl
  cases word with
  | value option text =>
    by_cases hoption : option = .compileCommands
    · subst hoption
      trivial
    · have hmem : .value option text ∈ words := (mem_textsFor hoption).1 ((h.listed option text).2
        ((mem_textsFor hoption).2 (List.mem_append_right _ List.mem_cons_self)))
      exact hwords.accepts hmem
  | flag f => trivial
  | database text plain =>
    -- The words about the database before this one are the same in both lines.
    have hsaid := h.said .compileCommands (by decide) (by decide)
    rw [List.filter_append, List.filter_cons_of_pos (by rfl)] at hsaid
    obtain ⟨front, rest, rfl, hfront, hrest⟩ := List.filter_eq_append_iff.1 hsaid
    obtain ⟨skipped, back, rfl, hskipped, -, -⟩ := List.filter_eq_cons_iff.1 hrest
    have hfits := hwords (front ++ skipped) (.database text plain) back (List.append_assoc ..).symm
    have htexts : textsFor (front ++ skipped) .compileCommands = textsFor before .compileCommands := by
      rw [← textsFor_filter, List.filter_append, List.filter_eq_nil_iff.2 hskipped, List.append_nil, hfront, textsFor_filter]
    rwa [Word.FitsAfter, htexts] at hfits

theorem lexicallyNormal_generic {p : Path} (hp : p.isAbsolute = true) : p.lexicallyNormal.generic = p.lexicallyNormal := by
  have htext : ∀ names, Path.IsNames names → (Path.mk (Path.joinNames true names)).generic = ⟨Path.joinNames true names⟩ :=
    fun names hnames => by
      rw [Path.generic, Path.genericString, Path.isAbsolute_joinNames hnames, Path.names_joinNames hnames]
  obtain ⟨kept, hkept, heq | ⟨hne, heq⟩⟩ := Path.lexicallyNormal_eq hp
  · rw [heq]
    exact htext kept (Path.isNames_plain hkept)
  · rw [heq]
    exact htext _ (Path.isNames_trailing hkept hne)

theorem normalPath_generic {cwd : Path} (hcwd : cwd.isAbsolute = true) (path : Path) :
    (normalPath cwd path).generic = normalPath cwd path :=
  lexicallyNormal_generic (Path.isAbsolute_append hcwd)

theorem ruleKey_inj {rule rule' : CallbackRegistrationRule} (h : ruleKey rule = ruleKey rule') : rule = rule' := by
  obtain ⟨⟨id, linkageName, qualifiedName, signature⟩, argumentIndex, ⟨provider, reason⟩, requireUnique⟩ := rule
  obtain ⟨⟨id', linkageName', qualifiedName', signature'⟩, argumentIndex', ⟨provider', reason'⟩, requireUnique'⟩ := rule'
  simp only [ruleKey, toLex_inj, Prod.mk.injEq] at h
  obtain ⟨rfl, rfl, rfl, rfl, rfl, rfl, rfl, rfl⟩ := h
  rfl

theorem canonicalizeCallbackRegistrationRules_congr {rules rules' : List CallbackRegistrationRule}
    (h : ∀ rule, rule ∈ rules ↔ rule ∈ rules') :
    canonicalizeCallbackRegistrationRules rules = canonicalizeCallbackRegistrationRules rules' :=
  uniqueOn_sortOn_congr (fun _ _ => ⟨congrArg ruleKey, ruleKey_inj⟩) h fun _ _ _ _ => ruleKey_inj

theorem sortPaths_congr {paths paths' : List Path} (h : ∀ p, p ∈ paths ↔ p ∈ paths')
    (hgeneric : ∀ p ∈ paths, p.generic = p) : sortPaths paths = sortPaths paths' :=
  uniqueOn_sortOn_congr (fun _ _ => pathOrder_eq_iff.symm) h fun p hp q hq hpq => by
    have hsame : p.generic = q.generic := Path.same_iff.1 (beq_iff_eq.2 (pathOrder_eq_iff.1 hpq))
    rwa [hgeneric p hp, hgeneric q hq] at hsame

/-- Command lines that say the same are read alike. -/
theorem SaysSame.ofWords {words words' : List Word} (h : SaysSame words words') (cwd : Path) :
    CliOptions.ofWords cwd words = { CliOptions.ofWords cwd words' with
      providerConfigs := (CliOptions.ofWords cwd words).providerConfigs
      callbackRegistrationRules := (CliOptions.ofWords cwd words).callbackRegistrationRules } := by
  have htexts : textsFor words = Function.update (Function.update (textsFor words') .providerConfig
      (textsFor words .providerConfig)) .callbackRegistration (textsFor words .callbackRegistration) := by
    funext option
    by_cases h₂ : option = .callbackRegistration
    · rw [h₂, Function.update_self]
    · rw [Function.update_of_ne h₂]
      by_cases h₁ : option = .providerConfig
      · rw [h₁, Function.update_self]
      · rw [Function.update_of_ne h₁, h.texts h₁ h₂]
  have hflags : isGiven words = isGiven words' := funext h.flags
  unfold CliOptions.ofWords
  rw [htexts, hflags]
  rfl

theorem SaysSame.accepted {words words' : List Word} (h : SaysSame words words') {cwd : Path}
    (hcwd : cwd.isAbsolute = true) {o : CliOptions}
    (ho : parseCli (.ok cwd) (words.flatMap Word.arguments) = .ok (.run o)) :
    parseCli (.ok cwd) (words'.flatMap Word.arguments) = .ok (.run o) := by
  obtain ⟨hwords, hconsistent, rfl⟩ := parseCli_words.1 ho
  refine parseCli_words.2 ⟨h.meaningful hwords, ?_, ?_⟩
  · rw [h.symm.ofWords cwd]
    refine ⟨hconsistent.metadata, hconsistent.selection, hconsistent.tuRoot, hconsistent.named, ?_, hconsistent.outputs,
      hconsistent.baseline, hconsistent.policy, hconsistent.gate, hconsistent.cache⟩
    intro p hp
    obtain ⟨text, htext, rfl⟩ := List.mem_map.1 hp
    exact hconsistent.policiesNamed _ (List.mem_map.2 ⟨text, (h.policies text).2 htext, rfl⟩)
  · have hpolicies : sortPaths ((CliOptions.ofWords cwd words).providerConfigs.map (normalPath cwd)) =
        sortPaths ((CliOptions.ofWords cwd words').providerConfigs.map (normalPath cwd)) := by
      refine sortPaths_congr (fun p => ?_) fun p hp => ?_
      · simp only [CliOptions.ofWords, CliOptions.of, List.mem_map, h.policies]
      · obtain ⟨path, -, rfl⟩ := List.mem_map.1 hp
        exact normalPath_generic hcwd path
    have hrules : canonicalizeCallbackRegistrationRules (CliOptions.ofWords cwd words).callbackRegistrationRules =
        canonicalizeCallbackRegistrationRules (CliOptions.ofWords cwd words').callbackRegistrationRules := by
      refine canonicalizeCallbackRegistrationRules_congr fun rule => ?_
      simp only [CliOptions.ofWords, CliOptions.of, List.mem_filterMap, h.rules]
    unfold CliOptions.normalized CliOptions.compared
    rw [hpolicies, hrules, h.ofWords cwd]
    rfl

/-- Only the order of words about the same option matters, and among policies and rules
not even that: no other rearrangement of an accepted command line changes the run. -/
theorem parseCli_order {words words' : List Word} (h : SaysSame words words') {cwd : Path}
    (hcwd : cwd.isAbsolute = true) (o : CliOptions) :
    parseCli (.ok cwd) (words.flatMap Word.arguments) = .ok (.run o) ↔
      parseCli (.ok cwd) (words'.flatMap Word.arguments) = .ok (.run o) :=
  ⟨h.accepted hcwd, h.symm.accepted hcwd⟩

/-- Policies behind a root, one of them twice, or in front of it and around it. -/
def policiesLast : List Word :=
  [.flag .verbose, .value .root (lit "main"), .value .providerConfig (lit "a.yml"),
    .value .providerConfig (lit "b.yml"), .value .providerConfig (lit "a.yml")]

def policiesFirst : List Word :=
  [.value .providerConfig (lit "b.yml"), .value .root (lit "main"), .value .providerConfig (lit "a.yml"), .flag .verbose]

theorem policiesFirst_order : parseCli (.ok ⟨lit "/p"⟩) (policiesLast.flatMap Word.arguments) =
    .ok (.run ((CliOptions.ofWords ⟨lit "/p"⟩ policiesFirst).normalized ⟨lit "/p"⟩)) := by
  have hsame : SaysSame policiesFirst policiesLast := by
    refine ⟨fun option h₁ h₂ => ?_, fun text => ?_, fun text => ?_, fun f => ?_⟩
    · cases option
      case providerConfig => exact absurd rfl h₁
      all_goals rfl
    · simp only [textsFor, Word.textFor, policiesFirst, policiesLast, List.filterMap_cons, List.filterMap_nil, if_pos,
        List.mem_cons]
      simp
      tauto
    · exact Iff.rfl
    · cases f <;> rfl
  exact (parseCli_order hsame (by decide) _).1 rfl

/-! ## What an accepted command line holds -/

/-- The paths that `parse_cli` normalizes. -/
def CliOptions.paths (o : CliOptions) : List Path :=
  [o.compilationDatabase, o.projectRoot] ++ o.providerConfigs ++ o.translationUnitRoot.toList ++ o.output.toList ++
    o.graphOutput.toList ++ o.baselineGraph.toList ++ o.differentialPolicy.toList ++ o.cacheDirectory.toList ++
    o.cmakeBuildDirectory.toList ++ o.targetManifest.toList

structure CliOptions.WellFormed (o : CliOptions) : Prop where
  paths : ∀ p ∈ o.paths, p.IsAbsoluteNormal
  policies : o.providerConfigs.Pairwise fun p q => pathOrder p < pathOrder q
  rules : o.callbackRegistrationRules.Pairwise fun r s => ruleKey r < ruleKey s
  outputs : ∀ p q, o.output = some p → o.graphOutput = some q → q.same p = false
  baseline : ∀ p q, o.output = some p ∨ o.graphOutput = some p → o.baselineGraph = some q → p.same q = false
  gate : o.failOnDiff = true ∨ o.format = lit "sarif" → o.baselineGraph.isSome ∧ o.differentialPolicy.isSome
  metadata : ¬(o.cmakeBuildDirectory.isSome ∧ o.targetManifest.isSome)
  format : o.format = lit "human" ∨ o.format = lit "json" ∨ o.format = lit "sarif"
  configurationId : o.configurationId ≠ []
  limits : o.translationUnitTimeout < 2 ^ 63 ∧ o.indexTimeout < 2 ^ 63

theorem ofWords_format (cwd : Path) {words : List Word} (hwords : Meaningful words) :
    (CliOptions.ofWords cwd words).format = lit "human" ∨ (CliOptions.ofWords cwd words).format = lit "json" ∨
      (CliOptions.ofWords cwd words).format = lit "sarif" := by
  show (textsFor words .format).getLast?.getD (lit "human") = _ ∨ (textsFor words .format).getLast?.getD (lit "human") = _ ∨
    (textsFor words .format).getLast?.getD (lit "human") = _
  cases hlast : (textsFor words .format).getLast? with
  | none => exact .inl rfl
  | some text => exact hwords.accepts ((mem_textsFor (by decide)).1 (List.mem_of_getLast? hlast))

theorem ofWords_configurationId (cwd : Path) {words : List Word} (hwords : Meaningful words) :
    (CliOptions.ofWords cwd words).configurationId ≠ [] := by
  show (textsFor words .configurationId).getLast?.getD (lit "default") ≠ []
  cases hlast : (textsFor words .configurationId).getLast? with
  | none => decide
  | some text => exact hwords.accepts ((mem_textsFor (by decide)).1 (List.mem_of_getLast? hlast))

theorem limit_fits (argument : Bytes) (text : Option Bytes) :
    (text.bind fun text => (parseTimeLimit argument text).toOption).getD 0 * 1000 < 2 ^ 63 := by
  have hseconds : ∀ limit : Option Nat, (∀ seconds, limit = some seconds → seconds ≤ (2 ^ 63 - 1) / 1000) →
      limit.getD 0 * 1000 < 2 ^ 63 := by
    intro limit h
    cases limit with
    | none => simp
    | some seconds =>
      have := h seconds rfl
      rw [Option.getD_some]
      omega
  refine hseconds _ fun seconds h => ?_
  obtain ⟨t, -, ht⟩ := Option.bind_eq_some_iff.1 h
  cases hlimit : parseTimeLimit argument t with
  | error e =>
    rw [hlimit] at ht
    cases ht
  | ok s =>
    rw [hlimit] at ht
    obtain rfl := Option.some.inj ht
    exact (parseTimeLimit_ok_iff.1 hlimit).2.2

theorem normalPath_isAbsoluteNormal {cwd : Path} (hcwd : cwd.isAbsolute = true) (path : Path) :
    (normalPath cwd path).IsAbsoluteNormal :=
  Path.lexicallyNormal_isAbsoluteNormal (Path.isAbsolute_append hcwd)

theorem CliOptions.normalized_paths {cwd : Path} (hcwd : cwd.isAbsolute = true) (o : CliOptions) :
    ∀ p ∈ (o.normalized cwd).paths, p.IsAbsoluteNormal := by
  have hone := normalPath_isAbsoluteNormal hcwd
  have hmaybe : ∀ q : Option Path, ∀ p ∈ (q.map (normalPath cwd)).toList, p.IsAbsoluteNormal := by
    intro q p hp
    cases q with
    | none => cases hp
    | some q =>
      obtain rfl := List.mem_singleton.1 hp
      exact hone q
  have hpolicies : ∀ p ∈ sortPaths (o.providerConfigs.map (normalPath cwd)), p.IsAbsoluteNormal := by
    intro p hp
    obtain ⟨q, -, rfl⟩ := List.mem_map.1 (mem_sortPaths hp)
    exact hone q
  simp only [CliOptions.paths, CliOptions.normalized, CliOptions.compared, List.forall_mem_append, List.forall_mem_cons]
  exact ⟨⟨⟨⟨⟨⟨⟨⟨⟨⟨hone _, hone _, List.forall_mem_nil _⟩, hpolicies⟩, hmaybe _⟩, hmaybe _⟩, hmaybe _⟩, hmaybe _⟩, hmaybe _⟩,
    hmaybe _⟩, hmaybe _⟩, hmaybe _⟩

theorem canonicalizeCallbackRegistrationRules_sorted (rules : List CallbackRegistrationRule) :
    (canonicalizeCallbackRegistrationRules rules).Pairwise fun r s => ruleKey r < ruleKey s := by
  have hkey : ∀ a b : CallbackRegistrationRule, id a = id b ↔ ruleKey a = ruleKey b :=
    fun _ _ => ⟨congrArg ruleKey, ruleKey_inj⟩
  rw [canonicalizeCallbackRegistrationRules, uniqueOn_congr hkey]
  convert uniqueOn_sorted ruleKey (sortOn_pairwise ruleKey rules)

theorem wellFormed_normalized {cwd : Path} (hcwd : cwd.isAbsolute = true) {words : List Word} (hwords : Meaningful words)
    (hconsistent : (CliOptions.ofWords cwd words).Consistent cwd) :
    ((CliOptions.ofWords cwd words).normalized cwd).WellFormed where
  paths := CliOptions.normalized_paths hcwd _
  policies := sortPaths_sorted _
  rules := canonicalizeCallbackRegistrationRules_sorted _
  outputs := fun p q hp hq => by
    obtain ⟨p', hp', rfl⟩ := Option.map_eq_some_iff.1 hp
    obtain ⟨q', hq', rfl⟩ := Option.map_eq_some_iff.1 hq
    exact hconsistent.outputs p' q' hp' hq'
  baseline := fun p q hp hq => by
    obtain ⟨q', hq', rfl⟩ := Option.map_eq_some_iff.1 hq
    rcases hp with hp | hp
    · obtain ⟨p', hp', rfl⟩ := Option.map_eq_some_iff.1 hp
      exact hconsistent.baseline p' q' (.inl hp') hq'
    · obtain ⟨p', hp', rfl⟩ := Option.map_eq_some_iff.1 hp
      exact hconsistent.baseline p' q' (.inr hp') hq'
  gate := fun h => by
    have hgate := hconsistent.gate h
    simpa [CliOptions.hasGate, CliOptions.normalized, CliOptions.compared] using hgate
  metadata := by simpa [CliOptions.normalized, CliOptions.compared] using hconsistent.metadata
  format := ofWords_format cwd hwords
  configurationId := ofWords_configurationId cwd hwords
  limits := ⟨limit_fits _ _, limit_fits _ _⟩

/-- The options of a run: their paths are absolute and in normal form, the baseline is
neither of the files that are written, and these differ. -/
theorem parseCli_wellFormed {cwd : Path} (hcwd : cwd.isAbsolute = true) {arguments : List Bytes} {o : CliOptions}
    (h : parseCli (.ok cwd) arguments = .ok (.run o)) : o.WellFormed := by
  obtain ⟨words, -, hwords, hconsistent, rfl⟩ := parseCli_run h
  exact wellFormed_normalized hcwd hwords hconsistent

/-- A line with a baseline and a graph to write. -/
def baselineLine : List Word :=
  [.value .baselineGraph (lit "old.json"), .value .graphOutput (lit "out/../new.json"), .database (lit "db.json") (by decide)]

theorem baselineLine_wellFormed :
    ((CliOptions.ofWords ⟨lit "/p"⟩ baselineLine).normalized ⟨lit "/p"⟩).WellFormed :=
  @parseCli_wellFormed ⟨lit "/p"⟩ (by decide) (baselineLine.flatMap Word.arguments) _ rfl

end CommandLine

end CxxDead
