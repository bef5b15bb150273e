import CxxDead.Comparison
import CxxDead.Database
import CxxDead.DifferentialConfig
import CxxDead.HumanReport
import CxxDead.IndexReturn
import CxxDead.Manifest
import CxxDead.ProviderConfig
/-!
# The program

`main`: the command line is read, what it names is loaded, the commands are indexed,
and the outputs are written. What the system does is `Events`.

- `main_ends`: what a run leaves behind, and what its exit code says of it.
-/

namespace CxxDead

open Lib Indexer CommandLine

namespace Program

/-! ## The system -/

/-- What becomes of a text that is written to a stream. -/
inductive Written where
  | complete
  | failed (left : Bytes)

/-- What opening a path gives, the standard streams, and the cache as the indexers see it. -/
structure World where
  files : Path → Option Bytes
  standardOutput : Bytes := []
  standardError : Bytes := []
  cache : CacheDirectory

/-- Links may give a file several names, also names that lead into the cache from elsewhere. -/
structure Events where
  files : Files
  sameFile : Path → Path → Bool
  sameFile_refl : ∀ path, sameFile path path = true
  /-- Whether a path leads to a file in a directory. -/
  leadsInto : Path → Path → Bool
  cache : CacheDirectory
  /-- What opening a path gives that leads into the cache. -/
  cached : CacheDirectory → Path → Option Bytes
  weaklyCanonical : Path → Except Exception Path
  yaml : Yaml.Reader
  fromChars : Bytes → Option ℚ
  handlersInstalled : Bool
  /-- While the commands are indexed, by either frontend. -/
  environment : (options : IndexOptions) → Environment options.callbackRegistrationRules.length
  libTooling : IndexOptions → List CompileCommand → CacheDirectory → Outcome × CacheDirectory
  /-- The signal that has been caught, or zero. -/
  cancellationSignal : Nat := 0
  opens : Path → Bool
  writes : Path → Bytes → Written
  writesStandardOutput : Bytes → Written
  /-- The line of `--verbose`, which tells times and memory. -/
  metricsLine : IndexResult → Bytes

abbrev ProgramM := EStateM Exception World

/-- Where a text stands that has been written to a file, or to the standard output. -/
def World.put (w : World) (events : Events) (destination : Option Path) (text : Bytes) : World :=
  match destination with
  | some path => { w with files := fun other => if events.sameFile path other then some text else w.files other }
  | none => { w with standardOutput := w.standardOutput ++ text }

/-- The files after the cache in this directory has changed. -/
def World.withCache (w : World) (events : Events) (directory : Option Path) (cache : CacheDirectory) : World :=
  { w with
    files := fun path => if directory.any (events.leadsInto · path) then events.cached cache path else w.files path
    cache }

def lift {α : Type} (m : Except Exception α) : ProgramM α := fun w =>
  match m with
  | .ok a => .ok a w
  | .error e => .error e w

def throwIf (condition : Bool) (message : Bytes) : ProgramM Unit :=
  lift (if condition then .error (.runtimeError message) else .ok ())

/-- An `std::ofstream` is opened, which truncates the file. -/
def openFile (events : Events) (failure : String) (path : Path) : ProgramM Unit := fun w =>
  if events.opens path then .ok () (w.put events (some path) [])
  else .error (.runtimeError (lit failure ++ path.text)) w

/-- Writing to an open stream, and whether the stream is still good. -/
def write (events : Events) (destination : Option Path) (text : Bytes) : ProgramM Bool := fun w =>
  match destination.elim (events.writesStandardOutput text) fun path => events.writes path text with
  | .complete => .ok true (w.put events destination text)
  | .failed left => .ok false (w.put events destination left)

def writeError (text : Bytes) : ProgramM Unit :=
  modify fun w => { w with standardError := w.standardError ++ text }

/-! ## What is to be done -/

/-- All that is known before the commands are indexed. -/
structure Prepared where
  options : CliOptions
  policies : List ProviderPolicy
  differentialPolicy : Option DifferentialPolicy
  selection : Option TargetSelection
  commands : List CompileCommand

/-- The model that the command line names, which names at most one. -/
def loadModel (events : Events) (options : CliOptions) : Except Exception (Option BuildMetadata.LoadedModel) :=
  match options.cmakeBuildDirectory, options.targetManifest with
  | some directory, _ => some <$> BuildMetadata.loadCmakeFileApi events.fromChars events.files directory
  | none, some manifest => some <$> BuildMetadata.loadTargetManifest events.fromChars events.files manifest
  | none, none => .ok none

def restrictCommands (options : CliOptions) (commands : List CompileCommand) : Except Exception (List CompileCommand) :=
  match options.translationUnitRoot with
  | none => .ok commands
  | some root =>
    let kept := commands.filter fun command => CommandLine.pathIsWithin command.file root
    if kept.isEmpty then .error (.runtimeError (lit "--tu-root excluded every compilation command")) else .ok kept

/-- What the selected target says of the project and the configuration, unless the command line does. -/
def selectOptions (options : CliOptions) (model : BuildMetadata.LoadedModel) (context : TargetAnalysisContext) :
    CliOptions :=
  { options with
    projectRoot := if options.projectRootExplicit then options.projectRoot else model.sourceRoot
    configurationId :=
      if options.configurationIdExplicit then options.configurationId
      else if context.configuration.isEmpty then lit "default" else context.configuration }

/-- The options with the rules of the providers, and the default place of the cache. -/
def settleOptions (options : CliOptions) (policies : List ProviderPolicy) : CliOptions :=
  { options with
    callbackRegistrationRules := canonicalizeCallbackRegistrationRules
      (options.callbackRegistrationRules ++ policies.flatMap (·.callbackRegistrations))
    cacheDirectory :=
      if options.noCache || options.cacheDirectory.isSome then options.cacheDirectory
      else some ((options.projectRoot.append ⟨lit ".cxx-dead"⟩).append ⟨lit "cache"⟩) }

def targetKind (selection : Option TargetSelection) : Option BuildTargetKind :=
  selection.map (·.context.targetKind)

def isLibrary (kind : BuildTargetKind) : Bool :=
  kind != .executable && kind != .objectLibrary && kind != .utility

def prepare (events : Events) (options : CliOptions) : Except Exception Prepared := do
  rejectIf (options.frontend == .libTooling && options.clangExplicit) "--clang applies only to --frontend ast-json"
  let policies ← options.providerConfigs.mapM (loadProviderConfig events.yaml events.files)
  let policies := policies.map (·.toProviderPolicy)
  let differentialPolicy ← options.differentialPolicy.mapM (loadDifferentialPolicy events.yaml events.files)
  let commands ← Database.loadCompilationDatabase events.weaklyCanonical events.files events.fromChars
    options.compilationDatabase
  let model ← loadModel events options
  let selected ← model.mapM fun model => do
    let selection ← selectTargetCommands model.model options.configuration options.target commands
    pure (selectOptions options model selection.context, selection)
  let commands ← restrictCommands options ((selected.map (·.2.commands)).getD commands)
  let selection := selected.map (·.2)
  rejectIf (policies.any (fun policy => !policy.publicApiRoots.isEmpty) && !(targetKind selection).any isLibrary)
    "public_api_roots require a selected static, shared, module, or interface library"
  pure {
    options := settleOptions ((selected.map (·.1)).getD options) policies
    policies
    differentialPolicy := differentialPolicy.map (·.toDifferentialPolicy)
    selection
    commands }

namespace Prepared

def indexOptions (p : Prepared) : IndexOptions :=
  { projectRoot := p.options.projectRoot
    configurationId := p.options.configurationId
    reportPaths := p.options.reportPaths
    excludedPaths := p.options.excludedPaths
    clangExecutable := p.options.clang
    astFilter := p.options.astFilter
    manualRoots := p.options.roots
    callbackRegistrationRules := p.options.callbackRegistrationRules
    providerPolicies := p.policies
    selectedTargetSources := (p.selection.map (·.context.selectedSources)).getD []
    publicHeaders := (p.selection.map (·.context.publicHeaders)).getD []
    translationUnitTimeout := p.options.translationUnitTimeout
    indexTimeout := p.options.indexTimeout
    maxAstBytes := p.options.maxAstBytes
    cacheDirectory := p.options.cacheDirectory
    cancellationRequested := true
    verbose := p.options.verbose
    inferSharedLibraryExports := (targetKind p.selection).any fun kind => kind == .sharedLibrary || kind == .moduleLibrary
    requireLibraryApiPolicy :=
      (targetKind p.selection).any fun kind => kind == .staticLibrary || kind == .interfaceLibrary }

/-- The context of a target, or of the whole application. -/
def reportMetadata (p : Prepared) : AnalysisMetadata :=
  match p.selection with
  | none => { mode := lit "application", configurationId := p.options.configurationId }
  | some selection =>
    { mode := lit "target"
      configurationId := p.options.configurationId
      configuration := selection.context.configuration
      targetId := selection.context.targetId
      targetName := selection.context.targetName
      targetKind := selection.context.targetKind.toText
      closureTargets := selection.context.closureTargets }

def artifactMetadata (p : Prepared) (indexed : IndexResult) : GraphArtifactMetadata :=
  let context := (p.selection.map (·.context)).getD {}
  { configurationId := p.options.configurationId
    configuration := context.configuration
    targetId := context.targetId
    targetName := context.targetName
    targetKind := if p.selection.isSome then context.targetKind.toText else []
    closureTargets := context.closureTargets
    frontend := indexed.frontend
    translationUnits := indexed.translationUnits.toUInt64 }

/-- The result with the diagnostics of the selection. -/
def withSelection (p : Prepared) (indexed : IndexResult) : IndexResult :=
  { indexed with
    diagnostics := match p.selection with
      | some selection => sortUnique (indexed.diagnostics ++ selection.diagnostics)
      | none => indexed.diagnostics
    cacheWarnings := sortUnique indexed.cacheWarnings }

end Prepared

/-! ## Indexing -/

def reportPath (files : Files) (projectRoot path : Path) : Except Exception Path := do
  let path ← files.absoluteNormal path
  if Ast.pathIsWithin path projectRoot then .ok path
  else .error (.invalidArgument (lit "report path is outside the project root: " ++ path.text))

def cachePath (files : Files) (projectRoot : Path) : Option Path → Except Exception (Option Path)
  | none => .ok none
  | some directory => some <$> files.absoluteNormal (projectRoot.append directory)

/-- The constructor of an indexer, which is the same for both frontends. -/
def constructIndexer (files : Files) (options : IndexOptions) : Except Exception IndexOptions :=
  if options.configurationId.isEmpty then .error (.invalidArgument (lit "configuration identity cannot be empty"))
  else do
    let projectRoot ← files.absoluteNormal options.projectRoot
    let reportPaths ← (if options.reportPaths.isEmpty then [projectRoot] else options.reportPaths).mapM
      (reportPath files projectRoot)
    let excludedPaths ← options.excludedPaths.mapM files.absoluteNormal
    let selectedTargetSources ← options.selectedTargetSources.mapM files.absoluteNormal
    let publicHeaders ← options.publicHeaders.mapM files.absoluteNormal
    let cacheDirectory ← cachePath files projectRoot options.cacheDirectory
    .ok { options with
          projectRoot, reportPaths, excludedPaths, selectedTargetSources, publicHeaders, cacheDirectory }

/-- The run of an indexer that has been constructed with these options. -/
def indexCommands (events : Events) (p : Prepared) (options : IndexOptions) (cache : CacheDirectory) :
    Outcome × CacheDirectory :=
  match p.options.frontend with
  | .libTooling => events.libTooling options p.commands cache
  | .astJson => index options (events.environment options) p.commands cache

/-! ## What is done -/

def usage : Bytes := lit "Usage: cxx-dead [compile_commands.json] [options]

Application-mode whole-program C++ reachability prototype.

Options:
  --compile-commands PATH   Compilation database (default: compile_commands.json)
  --project-root PATH       Index definitions below this workspace path (default: cwd)
  --report-path PATH        Report definitions below this path (repeatable; default: project root)
  --tu-root PATH            Analyze only translation units below this path
  --exclude-path PATH       Exclude declarations below this path (repeatable)
  --mode application       Analysis context; only application is supported in the MVP
  --configuration-id ID    Stable build-configuration identity (default: default)
  --cmake-build-dir PATH    Read target metadata from a CMake File API reply
  --target-manifest PATH    Read target metadata from an explicit JSON manifest
  --configuration NAME     Select a build-model configuration
  --target NAME            Select one target by name or id
  --root SYMBOL            Add a qualified or mangled symbol root (repeatable)
  --callback-registration CALLEE:INDEX
                           Treat zero-based callback argument INDEX as provider-reachable
                           when CALLEE executes (repeatable)
  --provider-config PATH   Load a versioned YAML reachability provider (repeatable)
  --frontend NAME          Index frontend: ast-json or libtooling (default: ast-json)
  --clang PATH              Clang executable used for AST indexing (default: clang++)
  --ast-filter TEXT         Experimental frontend declaration-name filter
  --tu-timeout SECONDS     Per-translation-unit AST JSON wall-time limit
  --index-timeout SECONDS  Whole AST JSON indexing wall-time limit
  --max-ast-bytes BYTES    Per-translation-unit AST JSON output limit
  --format human|json|sarif
                           Output format (default: human; SARIF requires a baseline and policy)
  --output PATH             Write the report to a file
  --graph-output PATH       Write deterministic graph artifact JSON to a file
  --baseline-graph PATH     Compare the current analysis with this graph artifact
  --diff-policy PATH        Apply a versioned YAML differential policy
  --cache-dir PATH          Store reusable TU facts here (default: PROJECT/.cxx-dead/cache)
  --no-cache                Disable translation-unit cache reads and writes
  --fail-on-unreachable     Exit with status 2 when candidates are found
  --fail-on-diff            Exit with status 2 on differential policy matches
  --verbose                 Include Clang diagnostics and stage metrics
  --help                    Show this help
  --version                 Show the version
"

/-- What is known of a run that was cut short, in place of a report. -/
def failureText (p : Prepared) (message : Bytes) (run : RunDiagnostics) : Bytes :=
  if p.options.format = lit "json" then writeJsonRunDiagnostic message run p.reportMetadata
  else writeHumanRunDiagnostic message run

/-- Nothing is checked but that the file could be opened. -/
def writeFailure (events : Events) (p : Prepared) (message : Bytes) (run : RunDiagnostics) : ProgramM Unit :=
  match if p.options.format = lit "sarif" then none else p.options.output with
  | some path => do
    openFile events "cannot open output file: " path
    let _ ← write events (some path) (failureText p message run)
    writeError (lit "cxx-dead: " ++ run.state.toText ++ lit " indexing run; diagnostics written to " ++ path.text ++
      newline)
  | none =>
    if p.options.format = lit "json" then do
      let _ ← write events none (failureText p message run)
    else writeError (failureText p message run)

/-- The exit code of a run that was cut short, perhaps by a signal. -/
def failureCode (events : Events) : Int :=
  if events.cancellationSignal ≠ 0 then 128 + events.cancellationSignal else 1

def reportFailure (events : Events) (p : Prepared) (message : Bytes) (run : RunDiagnostics) : ProgramM Int := do
  writeFailure events p message run
  pure (failureCode events)

/-- The comparison with the baseline, if there is one. -/
def compareWithBaseline (events : Events) (p : Prepared) (indexed : IndexResult) : ProgramM (Option DifferentialReport) := do
  match p.options.baselineGraph with
  | none => pure none
  | some path =>
    match (← get).files path with
    | none => throw (.runtimeError (lit "cannot open baseline graph artifact: " ++ path.text))
    | some contents => do
      let baseline ← lift (Artifact.readGraphArtifact events.fromChars contents)
      let reachability := analyzeReachability indexed.graph
      let report ← lift (buildDifferentialReport baseline indexed.graph reachability
        (buildReport indexed.graph reachability) (p.artifactMetadata indexed) p.differentialPolicy)
      pure (some report)

def writeGraph (events : Events) (p : Prepared) (indexed : IndexResult) : ProgramM Unit :=
  match p.options.graphOutput with
  | none => pure ()
  | some path => do
    openFile events "cannot open graph artifact: " path
    let text ← lift (Artifact.writeGraphArtifact indexed.graph (p.artifactMetadata indexed) indexed.diagnostics)
    let good ← write events (some path) text
    throwIf (!good) (lit "could not write graph artifact: " ++ path.text)

/-- The diagnostics of a run that is complete. -/
def completeRun (indexed : IndexResult) : RunDiagnostics :=
  { state := .complete
    frontend := indexed.frontend
    partialGraphDiscarded := false
    translationUnits := indexed.translationUnitDiagnostics }

/-- The text of the report. For SARIF there has to be a comparison. -/
def reportText (p : Prepared) (indexed : IndexResult) (differential : Option DifferentialReport) : Option Bytes :=
  let reachability := analyzeReachability indexed.graph
  let report := buildReport indexed.graph reachability
  let metadata := { p.reportMetadata with run := completeRun indexed }
  match differential with
  | some changes =>
    if p.options.format = lit "sarif" then writeSarif changes p.options.projectRoot (lit "0.18.0")
    else if p.options.format = lit "json" then some (writeJsonDifferentialReport changes)
    else some (writeHumanDifferentialReport changes)
  | none =>
    if p.options.format = lit "json" then
      some (writeJsonReport indexed.graph reachability report indexed.diagnostics metadata)
    else some (writeHumanReport indexed.graph report indexed.diagnostics metadata)

def openOutput (events : Events) (destination : Option Path) : ProgramM Unit :=
  match destination with
  | none => pure ()
  | some path => openFile events "cannot open output file: " path

def writeReport (events : Events) (destination : Option Path) (text : Bytes) : ProgramM Unit := do
  openOutput events destination
  let good ← write events destination text
  throwIf (!good) (lit "could not write analysis report")

/-- The findings, or the changes, that the command line asks to fail on. -/
def fails (options : CliOptions) (indexed : IndexResult) (differential : Option DifferentialReport) : Bool :=
  let report := buildReport indexed.graph (analyzeReachability indexed.graph)
  (options.failOnUnreachable && !report.findings.isEmpty) ||
    (options.failOnDiff && differential.any fun changes => changes.policyMatches != 0)

def warn (indexed : IndexResult) : ProgramM Unit :=
  writeError (indexed.cacheWarnings.flatMap fun warning => lit "cxx-dead: warning: " ++ warning ++ newline)

/-- What follows the indexing. The SARIF writer finds a classification at every change that it writes. -/
def reportResult (events : Events) (p : Prepared) (indexed : IndexResult) : ProgramM Int := do
  warn indexed
  let differential ← compareWithBaseline events p indexed
  writeGraph events p indexed
  writeReport events p.options.output ((reportText p indexed differential).getD [])
  writeError (if p.options.verbose then events.metricsLine indexed else [])
  pure (if fails p.options indexed differential = true then 2 else 0)

def indexAll (events : Events) (p : Prepared) (options : IndexOptions) : ProgramM Outcome := fun w =>
  match indexCommands events p options w.cache with
  | (outcome, cache) => .ok outcome (w.withCache events options.cacheDirectory cache)

def analyse (events : Events) (options : CliOptions) : ProgramM Int := do
  let p ← lift (prepare events options)
  throwIf (!events.handlersInstalled) (lit "cannot install cancellation signal handlers")
  let indexOptions ← lift (constructIndexer events.files p.indexOptions)
  match ← indexAll events p indexOptions with
  | .returned indexed => reportResult events p (p.withSelection indexed)
  | .threw (.indexingError message run) => reportFailure events p message run
  | .threw (.exception e) => throw e

/-- The `try` block of `main`; `--help` and `--version` exit at once. -/
def run (events : Events) (arguments : List Bytes) : ProgramM Int := do
  match ← lift (parseCli events.files.currentPath arguments) with
  | .help => do
    let _ ← write events none usage
    pure 0
  | .version => do
    let _ ← write events none (lit "cxx-dead 0.18.0\n")
    pure 0
  | .run options => analyse events options

def start (events : Events) : World := { files := events.files.contents, cache := events.cache }

/-- What is asked of the outputs does not depend on the target. -/
structure SameRequest (o o' : CliOptions) : Prop where
  output : o'.output = o.output
  graphOutput : o'.graphOutput = o.graphOutput
  baselineGraph : o'.baselineGraph = o.baselineGraph
  format : o'.format = o.format
  failOnUnreachable : o'.failOnUnreachable = o.failOnUnreachable
  failOnDiff : o'.failOnDiff = o.failOnDiff

theorem SameRequest.refl (o : CliOptions) : SameRequest o o := ⟨rfl, rfl, rfl, rfl, rfl, rfl⟩

theorem SameRequest.settle {o o' : CliOptions} (h : SameRequest o o') (policies : List ProviderPolicy) :
    SameRequest o (settleOptions o' policies) :=
  ⟨h.output, h.graphOutput, h.baselineGraph, h.format, h.failOnUnreachable, h.failOnDiff⟩

theorem SameRequest.select (o : CliOptions) (model : BuildMetadata.LoadedModel) (context : TargetAnalysisContext) :
    SameRequest o (selectOptions o model context) :=
  ⟨rfl, rfl, rfl, rfl, rfl, rfl⟩

/-- The options of a run are those of the command line, with what the target says, and are settled last. -/
theorem prepare_settles {events : Events} {o : CliOptions} {p : Prepared} (h : prepare events o = .ok p) :
    ∃ o' policies, p.options = settleOptions o' policies ∧ SameRequest o o' ∧ o'.noCache = o.noCache ∧
      o'.cacheDirectory = o.cacheDirectory := by
  unfold prepare at h
  obtain ⟨_, -, h⟩ := except_bind_ok_iff.1 h
  obtain ⟨policies, -, h⟩ := except_bind_ok_iff.1 h
  obtain ⟨_, -, h⟩ := except_bind_ok_iff.1 h
  obtain ⟨commands, -, h⟩ := except_bind_ok_iff.1 h
  obtain ⟨model, -, h⟩ := except_bind_ok_iff.1 h
  obtain ⟨selected, hselected, h⟩ := except_bind_ok_iff.1 h
  obtain ⟨_, -, h⟩ := except_bind_ok_iff.1 h
  obtain ⟨_, -, h⟩ := except_bind_ok_iff.1 h
  obtain rfl := Except.ok.inj h
  refine ⟨_, _, rfl, ?_⟩
  cases model with
  | none =>
    obtain rfl := Except.ok.inj hselected
    exact ⟨.refl o, rfl, rfl⟩
  | some model =>
    obtain ⟨found, hfound, hselected⟩ := except_bind_ok_iff.1 hselected
    obtain rfl := Except.ok.inj hselected
    obtain ⟨selection, -, hfound⟩ := except_bind_ok_iff.1 hfound
    obtain rfl := Except.ok.inj hfound
    exact ⟨.select o model selection.context, rfl, rfl⟩

theorem prepare_request {events : Events} {o : CliOptions} {p : Prepared} (h : prepare events o = .ok p) :
    SameRequest o p.options := by
  obtain ⟨o', policies, hoptions, hsame, -⟩ := prepare_settles h
  rw [hoptions]
  exact hsame.settle policies

/-- Without a cache there is none by default either. -/
theorem prepare_uncached {events : Events} {o : CliOptions} {p : Prepared} (h : prepare events o = .ok p)
    (hno : o.noCache = true) (hnone : o.cacheDirectory = none) : p.options.cacheDirectory = none := by
  obtain ⟨o', policies, hoptions, -, hcache, hdirectory⟩ := prepare_settles h
  simp only [hoptions, settleOptions, hcache, hno, hdirectory, hnone, Bool.true_or, if_true]

/-- The command line names this path to be written to. -/
def Names (o : CliOptions) (path : Path) : Prop := o.output = some path ∨ o.graphOutput = some path

/-- The file has a name that the command line names to be written to. -/
def Asked (events : Events) (o : CliOptions) (path : Path) : Prop :=
  ∃ name, Names o name ∧ events.sameFile name path = true

/-- Only files that are asked for have been written. -/
def Contained (events : Events) (files : Path → Option Bytes) (o : CliOptions) (w : World) : Prop :=
  ∀ path, ¬ Asked events o path → w.files path = files path

/-- Nothing has been written yet. -/
structure Untouched (files : Path → Option Bytes) (w : World) : Prop where
  files : w.files = files
  standardOutput : w.standardOutput = []

section Contained
variable {events : Events} {files : Path → Option Bytes} {o : CliOptions} {α : Type} {P : World → Prop}

theorem Untouched.contained {w : World} (h : Untouched files w) : Contained events files o w := fun path _ => by
  rw [h.files]

theorem put_files_ne {w : World} {destination : Option Path} {text : Bytes} {path : Path}
    (h : ∀ name, destination = some name → events.sameFile name path = false) :
    (w.put events destination text).files path = w.files path := by
  cases destination with
  | none => rfl
  | some name => exact if_neg (Bool.eq_false_iff.1 (h name rfl))

theorem put_files_eq (w : World) (path : Path) (text : Bytes) : (w.put events (some path) text).files path = some text :=
  if_pos (events.sameFile_refl path)

theorem put_contained {w : World} {destination : Option Path} (h : Contained events files o w)
    (hnames : ∀ path, destination = some path → Names o path) (text : Bytes) :
    Contained events files o (w.put events destination text) := by
  intro path hpath
  rw [put_files_ne fun name heq => Bool.eq_false_iff.2 fun hsame => hpath ⟨name, hnames name heq, hsame⟩]
  exact h path hpath

theorem lift_keeps (m : Except Exception α) : Triple P (lift m) (fun a w => m = .ok a ∧ P w) fun _ => P := by
  intro w hw
  unfold lift
  cases m with
  | ok a => exact ⟨rfl, hw⟩
  | error e => exact hw

/-- A state of `P`, but for what stands at the destination. -/
def Spoilt (events : Events) (P : World → Prop) (destination : Option Path) (w : World) : Prop :=
  ∃ w₀, P w₀ ∧ (w = w₀ ∨ ∃ left, w = w₀.put events destination left)

theorem Spoilt.intact {destination : Option Path} {w : World} (h : P w) : Spoilt events P destination w :=
  ⟨w, h, .inl rfl⟩

theorem Spoilt.contained {destination : Option Path} {w : World} (h : Spoilt events P destination w)
    (hP : ∀ w, P w → Contained events files o w) (hnames : ∀ path, destination = some path → Names o path) :
    Contained events files o w := by
  obtain ⟨w₀, hw, rfl | ⟨left, rfl⟩⟩ := h
  · exact hP w hw
  · exact put_contained (hP w₀ hw) hnames left

theorem throwIf_keeps (condition : Bool) (message : Bytes) :
    Triple P (throwIf condition message) (fun _ w => condition = false ∧ P w) fun _ => P := by
  intro w hw
  cases condition with
  | true => exact hw
  | false => exact ⟨rfl, hw⟩

theorem openFile_spec (failure : String) (path : Path) :
    Triple P (openFile events failure path) (fun _ w => ∃ w₀, P w₀ ∧ w = w₀.put events (some path) []) fun _ => P := by
  intro w hw
  unfold openFile
  by_cases hopens : events.opens path = true
  · rw [if_pos hopens]
    exact ⟨w, hw, rfl⟩
  · rw [if_neg hopens]
    exact hw

theorem write_spec (destination : Option Path) (text : Bytes) {E : Exception → World → Prop} :
    Triple P (write events destination text)
      (fun good w => ∃ w₀ left, P w₀ ∧ w = w₀.put events destination left ∧ (good = true → left = text)) E := by
  intro w hw
  unfold write
  cases destination.elim (events.writesStandardOutput text) fun path => events.writes path text with
  | complete => exact ⟨w, text, hw, rfl, fun _ => rfl⟩
  | failed left => exact ⟨w, left, hw, rfl, fun h => by cases h⟩

theorem put_put (w : World) (path : Path) (text text' : Bytes) :
    (w.put events (some path) text).put events (some path) text' = w.put events (some path) text' := by
  have hfiles : (fun other => if events.sameFile path other then some text' else
      if events.sameFile path other then some text else w.files other) =
      fun other => if events.sameFile path other then some text' else w.files other := by
    funext other
    by_cases hsame : events.sameFile path other = true
    · rw [if_pos hsame, if_pos hsame]
    · rw [if_neg hsame, if_neg hsame, if_neg hsame]
  unfold World.put
  exact congrArg (fun files => { w with files }) hfiles

theorem writeError_keeps {E : Exception → World → Prop} (hP : ∀ w text, P w → P { w with standardError := text })
    (text : Bytes) : Triple P (writeError text) (fun _ => P) E :=
  Triple.modify fun w hw => hP w _ hw

/-- A text that is written to a file that has just been opened. -/
theorem writeOpened_spec (path : Path) (text message : Bytes) :
    Triple (fun w => ∃ w₀, P w₀ ∧ w = w₀.put events (some path) [])
      (do
        let good ← write events (some path) text
        throwIf (!good) message)
      (fun _ w => ∃ w₀, P w₀ ∧ w = w₀.put events (some path) text) fun _ => Spoilt events P (some path) := by
  refine Triple.bind (write_spec (some path) text) fun good => ?_
  refine (throwIf_keeps (!good) message).imp (fun _ h => h) ?_ ?_
  · rintro _ w ⟨hgood, _, left, ⟨w₀, hw, rfl⟩, rfl, hleft⟩
    obtain rfl := hleft (by simpa using hgood)
    exact ⟨w₀, hw, put_put _ _ _ _⟩
  · rintro _ w ⟨_, left, ⟨w₀, hw, rfl⟩, rfl, -⟩
    exact ⟨w₀, hw, .inr ⟨left, put_put _ _ _ _⟩⟩

theorem writeReport_spec (destination : Option Path) (text : Bytes) :
    Triple P (writeReport events destination text) (fun _ w => ∃ w₀, P w₀ ∧ w = w₀.put events destination text)
      fun _ => Spoilt events P destination := by
  unfold writeReport openOutput
  cases destination with
  | some path =>
    exact Triple.bind ((openFile_spec _ path).imp (fun _ h => h) (fun _ _ h => h) fun _ _ => Spoilt.intact)
      fun _ => writeOpened_spec path text _
  | none =>
    refine Triple.bind (Triple.pure (Q := fun _ => P) fun w hw => hw) fun _ => ?_
    refine Triple.bind (write_spec none text) fun good => (throwIf_keeps (!good) _).imp (fun _ h => h) ?_ ?_
    · rintro _ w ⟨hgood, w₀, left, hw, rfl, hleft⟩
      obtain rfl := hleft (by simpa using hgood)
      exact ⟨w₀, hw, rfl⟩
    · rintro _ w ⟨w₀, left, hw, rfl, -⟩
      exact ⟨w₀, hw, .inr ⟨left, rfl⟩⟩

/-- Afterwards the graph stands where it has to. -/
theorem writeGraph_spec (p : Prepared) (indexed : IndexResult) :
    Triple P (writeGraph events p indexed)
      (fun _ w => (p.options.graphOutput = none ∧ P w) ∨ ∃ path text w₀, p.options.graphOutput = some path ∧
        Artifact.writeGraphArtifact indexed.graph (p.artifactMetadata indexed) indexed.diagnostics = .ok text ∧
        P w₀ ∧ w = w₀.put events (some path) text)
      fun _ => Spoilt events P p.options.graphOutput := by
  unfold writeGraph
  cases hpath : p.options.graphOutput with
  | none => exact Triple.pure fun w hw => .inl ⟨rfl, hw⟩
  | some path =>
    refine Triple.bind ((openFile_spec _ path).imp (fun _ h => h) (fun _ _ h => h) fun _ _ => Spoilt.intact) fun _ => ?_
    refine Triple.bind ((lift_keeps _).imp (fun _ h => h) (fun _ _ h => h) ?_) fun text => ?_
    · rintro _ w ⟨w₀, hw, rfl⟩
      exact ⟨w₀, hw, .inr ⟨[], rfl⟩⟩
    · rintro w ⟨htext, hw⟩
      refine (writeOpened_spec path text _).imp (fun _ h => h) ?_ (fun _ _ h => h) w hw
      rintro _ w' ⟨w₀, hw₀, rfl⟩
      exact .inr ⟨path, text, w₀, rfl, htext, hw₀, rfl⟩

end Contained

/-! ## What is written -/

/-- The comparison that a run makes: none without a baseline. -/
inductive Compared (events : Events) (files : Path → Option Bytes) (p : Prepared) (indexed : IndexResult) :
    Option DifferentialReport → Prop where
  | alone (h : p.options.baselineGraph = none) : Compared events files p indexed none
  | against {path : Path} {contents : Bytes} {baseline : GraphArtifact} {changes : DifferentialReport}
      (hpath : p.options.baselineGraph = some path) (hcontents : files path = some contents)
      (hbaseline : Artifact.readGraphArtifact events.fromChars contents = .ok baseline)
      (hchanges : differential baseline indexed.graph (p.artifactMetadata indexed) p.differentialPolicy = .ok changes) :
      Compared events files p indexed (some changes)

/-- The text at the destination, and nothing else of this run. -/
def Stands (w : World) (destination : Option Path) (text : Bytes) : Prop :=
  match destination with
  | some path => w.files path = some text
  | none => w.standardOutput = text

/-- The graph stands where it was asked for, unless the report has been written to the same file. -/
def GraphStands (events : Events) (p : Prepared) (indexed : IndexResult) (w : World) : Prop :=
  ∀ path, p.options.graphOutput = some path →
    (∀ name, p.options.output = some name → events.sameFile name path = false) → ∃ text,
      Artifact.writeGraphArtifact indexed.graph (p.artifactMetadata indexed) indexed.diagnostics = .ok text ∧
        w.files path = some text

/-- The analysis is complete: what was asked for stands where it was asked for, and the exit code is the gate's.
`files` are those that indexing has left. -/
structure Analysed (events : Events) (files : Path → Option Bytes) (p : Prepared) (indexed : IndexResult)
    (differential : Option DifferentialReport) (code : Int) (w : World) : Prop where
  compared : Compared events files p indexed differential
  report : ∃ text, reportText p indexed differential = some text ∧ Stands w p.options.output text
  graph : GraphStands events p indexed w
  gate : code = if fails p.options indexed differential then 2 else 0

section Written
variable {events : Events} {files : Path → Option Bytes} {p : Prepared} {indexed : IndexResult}
  {E : Exception → World → Prop}

theorem warn_untouched : Triple (Untouched files) (warn indexed) (fun _ => Untouched files) E :=
  writeError_keeps (fun _ _ hw => ⟨hw.files, hw.standardOutput⟩) _

theorem compareWithBaseline_compared :
    Triple (Untouched files) (compareWithBaseline events p indexed)
      (fun differential w => Compared events files p indexed differential ∧ Untouched files w) fun _ =>
        Untouched files := by
  unfold compareWithBaseline
  cases hpath : p.options.baselineGraph with
  | none => exact Triple.pure fun w hw => ⟨.alone hpath, hw⟩
  | some path =>
    refine Triple.get_bind fun w hw => ?_
    rw [hw.files]
    cases hcontents : files path with
    | none => exact Triple.throw fun t ht => by rw [ht]; exact hw
    | some contents =>
      refine Triple.bind ((lift_keeps _).imp (P := Untouched files) (fun t ht => by rw [ht]; exact hw)
        (fun _ _ h => h) fun _ _ h => h) fun baseline => ?_
      refine Triple.bind ((lift_keeps _).imp (fun _ h => h) (fun _ _ h => h) fun _ _ h => h.2) fun changes =>
        Triple.pure ?_
      rintro t ⟨hchanges, hbaseline, ht⟩
      exact ⟨.against hpath hcontents hbaseline hchanges, ht⟩

/-- The SARIF writer has what it needs. -/
theorem reportText_isSome {differential : Option DifferentialReport}
    (h : Compared events files p indexed differential) :
    ∃ text, reportText p indexed differential = some text := by
  unfold reportText
  cases h with
  | alone =>
    dsimp only
    split <;> exact ⟨_, rfl⟩
  | against _ _ _ hchanges =>
    dsimp only
    split
    · exact Option.isSome_iff_exists.1 (writeSarif_isSome _ _ (differential_classified hchanges))
    · split <;> exact ⟨_, rfl⟩

theorem put_stands {w : World} (hw : w.standardOutput = []) (destination : Option Path) (text : Bytes) :
    Stands (w.put events destination text) destination text := by
  cases destination with
  | some path => exact put_files_eq w path text
  | none =>
    show w.standardOutput ++ text = text
    rw [hw, List.nil_append]

/-- The graph has been written, and nothing else. -/
structure GraphWritten (events : Events) (files : Path → Option Bytes) (p : Prepared) (indexed : IndexResult) (w : World) :
    Prop where
  contained : Contained events files p.options w
  standardOutput : w.standardOutput = []
  graph : GraphStands events p indexed w

theorem writeGraph_written :
    Triple (Untouched files) (writeGraph events p indexed) (fun _ => GraphWritten events files p indexed)
      fun _ => Contained events files p.options := by
  refine (writeGraph_spec p indexed).imp (fun _ h => h) ?_ fun _ w h =>
    h.contained (fun _ hw => hw.contained) fun path => .inr
  rintro _ w (⟨hnone, hw⟩ | ⟨path, text, w₀, hpath, htext, hw, rfl⟩)
  · refine ⟨hw.contained, hw.standardOutput, fun path hpath => ?_⟩
    rw [hnone] at hpath
    cases hpath
  · refine ⟨put_contained hw.contained (fun other heq => .inr (hpath.trans heq)) text, hw.standardOutput,
      fun other hother _ => ⟨text, htext, ?_⟩⟩
    obtain rfl := Option.some.inj (hpath.symm.trans hother)
    exact put_files_eq w₀ path text

/-- The report has been written as well. -/
structure ReportWritten (events : Events) (files : Path → Option Bytes) (p : Prepared) (indexed : IndexResult)
    (text : Bytes) (w : World) : Prop where
  contained : Contained events files p.options w
  report : Stands w p.options.output text
  graph : GraphStands events p indexed w

theorem GraphWritten.report {w : World} (h : GraphWritten events files p indexed w) (text : Bytes) :
    ReportWritten events files p indexed text (w.put events p.options.output text) := by
  refine ⟨put_contained h.contained (fun path => .inl) text, put_stands h.standardOutput _ _,
    fun path hpath hapart => ?_⟩
  obtain ⟨graph, hgraph, hstands⟩ := h.graph path hpath hapart
  exact ⟨graph, hgraph, (put_files_ne hapart).trans hstands⟩

theorem reportResult_analysed :
    Triple (Untouched files) (reportResult events p indexed)
      (fun code w => Contained events files p.options w ∧
        ∃ differential, Analysed events files p indexed differential code w)
      fun _ => Contained events files p.options := by
  refine Triple.bind warn_untouched fun _ => ?_
  refine Triple.bind (compareWithBaseline_compared.imp (fun _ h => h) (fun _ _ h => h) fun _ _ h => h.contained)
    fun differential => ?_
  rintro w ⟨hcompared, hw⟩
  obtain ⟨text, htext⟩ := reportText_isSome hcompared
  rw [htext, Option.getD_some]
  refine Triple.bind writeGraph_written (fun _ => ?_) w hw
  refine Triple.bind (R := fun _ => ReportWritten events files p indexed text)
    ((writeReport_spec p.options.output text).imp (fun _ h => h) ?_ fun _ _ h =>
      h.contained (fun _ hw => hw.contained) fun path => .inl) fun _ => ?_
  · rintro _ w ⟨w₀, hw, rfl⟩
    exact hw.report text
  · refine Triple.bind (writeError_keeps (fun _ _ hw => ⟨hw.contained, hw.report, hw.graph⟩) _) fun _ => Triple.pure ?_
    intro w hw
    exact ⟨hw.contained, differential, hcompared, ⟨text, htext, hw.report⟩, hw.graph, rfl⟩

end Written

/-! ## Whole runs -/

theorem SameRequest.asked {events : Events} {o o' : CliOptions} (h : SameRequest o o') {path : Path} :
    Asked events o' path ↔ Asked events o path := by
  unfold Asked Names
  rw [h.output, h.graphOutput]

theorem SameRequest.contained {events : Events} {files : Path → Option Bytes} {o o' : CliOptions} (h : SameRequest o o')
    {w : World} (hw : Contained events files o' w) : Contained events files o w :=
  fun path hpath => hw path fun hasked => hpath (h.asked.1 hasked)

/-- No output is named like the baseline. -/
theorem parseCli_apart {currentPath : Except Exception Path} {arguments : List Bytes} {o : CliOptions}
    (h : parseCli currentPath arguments = .ok (.run o)) {name path : Path} (hname : Names o name)
    (hbaseline : o.baselineGraph = some path) : name.same path = false := by
  obtain ⟨cwd, rfl, -⟩ := except_bind_ok_iff.1 h
  obtain ⟨words, -, -, hconsistent, rfl⟩ := parseCli_run h
  obtain ⟨q, hq, rfl⟩ := Option.map_eq_some_iff.1 hbaseline
  rcases hname with hname | hname
  · obtain ⟨p, hp, rfl⟩ := Option.map_eq_some_iff.1 hname
    exact hconsistent.baseline p q (.inl hp) hq
  · obtain ⟨p, hp, rfl⟩ := Option.map_eq_some_iff.1 hname
    exact hconsistent.baseline p q (.inr hp) hq

theorem parseCli_uncached {currentPath : Except Exception Path} {arguments : List Bytes} {o : CliOptions}
    (h : parseCli currentPath arguments = .ok (.run o)) (hno : o.noCache = true) : o.cacheDirectory = none := by
  obtain ⟨cwd, rfl, -⟩ := except_bind_ok_iff.1 h
  obtain ⟨words, -, -, hconsistent, rfl⟩ := parseCli_run h
  cases hcache : (CliOptions.ofWords cwd words).cacheDirectory with
  | none => exact congrArg (Option.map (normalPath cwd)) hcache
  | some directory => exact absurd ⟨hno, by rw [hcache]; rfl⟩ hconsistent.cache

/-- There is something to report on, all of it in the project. -/
def ReportsInside (options : IndexOptions) : Prop :=
  options.reportPaths ≠ [] ∧ ∀ path ∈ options.reportPaths, Ast.pathIsWithin path options.projectRoot = true

theorem constructIndexer_inside {files : Files} {given options : IndexOptions}
    (h : constructIndexer files given = .ok options) : ReportsInside options := by
  unfold constructIndexer at h
  split at h
  · cases h
  · obtain ⟨root, -, h⟩ := except_bind_ok_iff.1 h
    obtain ⟨paths, hpaths, h⟩ := except_bind_ok_iff.1 h
    obtain ⟨_, -, h⟩ := except_bind_ok_iff.1 h
    obtain ⟨_, -, h⟩ := except_bind_ok_iff.1 h
    obtain ⟨_, -, h⟩ := except_bind_ok_iff.1 h
    obtain ⟨_, -, h⟩ := except_bind_ok_iff.1 h
    obtain rfl := Except.ok.inj h
    obtain ⟨hall, hmem⟩ := mapM_returned hpaths
    refine ⟨fun hnil => ?_, fun path hpath => ?_⟩
    · -- an empty list has been replaced by the project
      obtain ⟨written, hwritten⟩ : ∃ path, path ∈ if given.reportPaths.isEmpty then [root] else given.reportPaths := by
        split
        · exact ⟨root, List.mem_singleton_self root⟩
        · rename_i hne
          exact List.exists_mem_of_ne_nil _ (by simpa using hne)
      obtain ⟨path, hpath⟩ := hall written hwritten
      have hmem' := (hmem path).2 ⟨written, hwritten, hpath⟩
      rw [show paths = [] from hnil] at hmem'
      exact List.not_mem_nil hmem'
    · obtain ⟨written, -, hpath⟩ := (hmem path).1 hpath
      obtain ⟨full, -, hfull⟩ := except_bind_ok_iff.1 hpath
      split at hfull
      · rename_i hwithin
        rw [← Except.ok.inj hfull]
        exact hwithin
      · cases hfull

theorem constructIndexer_uncached {files : Files} {given options : IndexOptions}
    (h : constructIndexer files given = .ok options) (hnone : given.cacheDirectory = none) :
    options.cacheDirectory = none := by
  unfold constructIndexer at h
  split at h
  · cases h
  · obtain ⟨_, -, h⟩ := except_bind_ok_iff.1 h
    obtain ⟨_, -, h⟩ := except_bind_ok_iff.1 h
    obtain ⟨_, -, h⟩ := except_bind_ok_iff.1 h
    obtain ⟨_, -, h⟩ := except_bind_ok_iff.1 h
    obtain ⟨_, -, h⟩ := except_bind_ok_iff.1 h
    obtain ⟨cache, hcache, h⟩ := except_bind_ok_iff.1 h
    obtain rfl := Except.ok.inj h
    rw [hnone] at hcache
    exact (Except.ok.inj hcache).symm

/-- What opening a path gives when indexing has ended. -/
def filesAfter (events : Events) (p : Prepared) (options : IndexOptions) : Path → Option Bytes :=
  ((start events).withCache events options.cacheDirectory (indexCommands events p options events.cache).2).files

/-- What an exit code says. -/
inductive Verdict (events : Events) (arguments : List Bytes) : Int → World → Prop where
  /-- The tool has told of itself. -/
  | told {w : World} (h : parseCli events.files.currentPath arguments = .ok .help ∨
      parseCli events.files.currentPath arguments = .ok .version) : Verdict events arguments 0 w
  | analysed {o : CliOptions} {p : Prepared} {options : IndexOptions} {indexed : IndexResult}
      {differential : Option DifferentialReport} {code : Int} {w : World}
      (hoptions : parseCli events.files.currentPath arguments = .ok (.run o))
      (hprepared : prepare events o = .ok p) (hrequest : SameRequest o p.options)
      (hconstructed : constructIndexer events.files p.indexOptions = .ok options) (hinside : ReportsInside options)
      (hindexed : (indexCommands events p options events.cache).1 = .returned indexed)
      (hanswers : p.options.frontend = .astJson →
        Answers (events.environment options).disk options p.commands indexed)
      (h : Analysed events (filesAfter events p options) p (p.withSelection indexed) differential code w) :
      Verdict events arguments code w
  /-- Not everything could be indexed, or a signal has been caught. What is known of the run is written instead. -/
  | incomplete {o : CliOptions} {p : Prepared} {options : IndexOptions} {message : Bytes} {run : RunDiagnostics}
      {w : World}
      (hoptions : parseCli events.files.currentPath arguments = .ok (.run o)) (hprepared : prepare events o = .ok p)
      (hconstructed : constructIndexer events.files p.indexOptions = .ok options)
      (hindexed : (indexCommands events p options events.cache).1 = .threw (.indexingError message run))
      (hstate : p.options.frontend = .astJson → run.state = .incomplete) :
      Verdict events arguments (failureCode events) w
  /-- Something else has failed, and the last that the tool says is what. -/
  | threw {e : Exception} {before : Bytes} {w : World}
      (h : w.standardError = before ++ lit "cxx-dead: error: " ++ Artifact.what e ++ newline) : Verdict events arguments 1 w

/-- A path that leads into the cache of this run. -/
def InCache (events : Events) (arguments : List Bytes) (path : Path) : Prop :=
  ∃ o p options directory, parseCli events.files.currentPath arguments = .ok (.run o) ∧ prepare events o = .ok p ∧
    constructIndexer events.files p.indexOptions = .ok options ∧ options.cacheDirectory = some directory ∧
    events.leadsInto directory path = true

/-- Outside of the cache no file is changed that the command line does not ask for, under whatever name. -/
structure LeavesAlone (events : Events) (arguments : List Bytes) (w : World) : Prop where
  contained : ∀ path, w.files path = events.files.contents path ∨ InCache events arguments path ∨
    ∃ o, parseCli events.files.currentPath arguments = .ok (.run o) ∧ Asked events o path
  /-- The baseline is changed only through a link. -/
  baseline : ∀ o path, parseCli events.files.currentPath arguments = .ok (.run o) → o.baselineGraph = some path →
    w.files path = events.files.contents path ∨ InCache events arguments path ∨
      ∃ name, Names o name ∧ name.same path = false ∧ events.sameFile name path = true
  uncached : ∀ o, parseCli events.files.currentPath arguments = .ok (.run o) → o.noCache = true →
    ∀ path, ¬ InCache events arguments path

/-- What a run leaves behind. -/
structure Ends (events : Events) (arguments : List Bytes) (code : Int) (w : World) : Prop
    extends LeavesAlone events arguments w where
  verdict : Verdict events arguments code w

section Runs
variable {events : Events} {arguments : List Bytes} {o : CliOptions}

theorem writeFailure_contained {files : Path → Option Bytes} (p : Prepared) (message : Bytes) (run : RunDiagnostics) :
    Triple (Contained events files p.options) (writeFailure events p message run)
      (fun _ => Contained events files p.options) fun _ => Contained events files p.options := by
  have hwrite : ∀ (destination : Option Path) (text : Bytes),
      (∀ path, destination = some path → Names p.options path) →
      Triple (Contained events files p.options) (write events destination text)
        (fun _ => Contained events files p.options) fun _ => Contained events files p.options := by
    intro destination text hnames
    refine (write_spec destination text).imp (fun _ h => h) ?_ fun _ _ h => h
    rintro _ w ⟨w₀, left, hw, rfl, -⟩
    exact put_contained hw hnames left
  unfold writeFailure
  cases hpath : (if p.options.format = lit "sarif" then none else p.options.output) with
  | none =>
    refine Triple.ite (fun _ => ?_) fun _ => writeError_keeps (fun _ _ h => h) _
    exact Triple.bind (hwrite none _ fun _ h => by cases h) fun _ => Triple.pure fun _ h => h
  | some path =>
    have hnames : ∀ other, some path = some other → Names p.options other := by
      intro other heq
      obtain rfl := Option.some.inj heq
      -- SARIF output is not replaced by diagnostics
      split at hpath
      · cases hpath
      · exact .inl hpath
    refine Triple.bind (R := fun _ => Contained events files p.options) ((openFile_spec _ path).imp (fun _ h => h) ?_
      fun _ _ h => h) fun _ => ?_
    · rintro _ w ⟨w₀, hw, rfl⟩
      exact put_contained hw hnames []
    · exact Triple.bind (hwrite (some path) _ hnames) fun _ => writeError_keeps (fun _ _ h => h) _

theorem indexAll_returned (p : Prepared) (options : IndexOptions) {E : Exception → World → Prop} :
    Triple (fun w => w = start events) (indexAll events p options)
      (fun outcome w => (indexCommands events p options events.cache).1 = outcome ∧
        Untouched (filesAfter events p options) w) E := by
  rintro w rfl
  exact ⟨rfl, rfl, rfl⟩

theorem indexCommands_guarantees {p : Prepared} (options : IndexOptions) (hfrontend : p.options.frontend = .astJson) :
    Guarantees (events.environment options).disk options p.commands
      (indexCommands events p options events.cache).1 := by
  unfold indexCommands
  rw [hfrontend]
  exact index_guarantees _ _ _ _

/-- Indexing changes the cache only. -/
theorem filesAfter_ne {p : Prepared} {options : IndexOptions} {path : Path}
    (h : ∀ directory, options.cacheDirectory = some directory → events.leadsInto directory path = false) :
    filesAfter events p options path = events.files.contents path := by
  refine if_neg fun hinto => ?_
  obtain ⟨directory, hdirectory, hinto⟩ := (Option.any_eq_true _ _).1 hinto
  exact absurd hinto (Bool.eq_false_iff.1 (h directory hdirectory))

/-- What a run may have changed: the cache, and what is asked for. -/
def Confined (events : Events) (arguments : List Bytes) (o : CliOptions) (w : World) : Prop :=
  ∀ path, w.files path = events.files.contents path ∨ InCache events arguments path ∨ Asked events o path

theorem Contained.confined {p : Prepared} {options : IndexOptions} {w : World}
    (hoptions : parseCli events.files.currentPath arguments = .ok (.run o)) (hprepared : prepare events o = .ok p)
    (hconstructed : constructIndexer events.files p.indexOptions = .ok options)
    (h : Contained events (filesAfter events p options) o w) : Confined events arguments o w := by
  intro path
  by_cases hasked : Asked events o path
  · exact .inr (.inr hasked)
  by_cases hcache : InCache events arguments path
  · exact .inr (.inl hcache)
  · refine .inl ((h path hasked).trans (filesAfter_ne fun directory hdirectory => Bool.eq_false_iff.2 fun hinto => ?_))
    exact hcache ⟨o, p, options, directory, hoptions, hprepared, hconstructed, hdirectory, hinto⟩

theorem analyse_verdict (hoptions : parseCli events.files.currentPath arguments = .ok (.run o)) :
    Triple (fun w => w = start events) (analyse events o)
      (fun code w => Confined events arguments o w ∧ Verdict events arguments code w)
      fun _ => Confined events arguments o := by
  have hstart : ∀ w, w = start events → Confined events arguments o w := by
    rintro w rfl
    exact fun _ => .inl rfl
  refine Triple.bind ((lift_keeps _).imp (fun _ h => h) (fun _ _ h => h) fun _ => hstart) fun p => ?_
  rintro w ⟨hprepared, hw⟩
  have hrequest := prepare_request hprepared
  refine Triple.bind ((throwIf_keeps _ _).imp (fun _ h => h) (fun _ _ h => h.2) fun _ => hstart) (fun _ => ?_) w hw
  refine Triple.bind ((lift_keeps _).imp (fun _ h => h) (fun _ _ h => h) fun _ => hstart) fun options => ?_
  rintro w ⟨hconstructed, hw⟩
  have hconfined : ∀ w, Contained events (filesAfter events p options) p.options w → Confined events arguments o w :=
    fun w h => (hrequest.contained h).confined hoptions hprepared hconstructed
  -- indexing writes to the cache only
  refine Triple.bind (indexAll_returned p options) (fun outcome => ?_) w hw
  rintro w ⟨hindexed, hw⟩
  cases outcome with
  | returned indexed =>
    refine reportResult_analysed.imp (fun _ h => h) ?_ (fun _ _ h => hconfined _ h) w hw
    rintro code w ⟨hcontained, differential, hanalysed⟩
    refine ⟨hconfined w hcontained, .analysed hoptions hprepared hrequest hconstructed
      (constructIndexer_inside hconstructed) hindexed (fun hfrontend => ?_) hanalysed⟩
    have hguarantees := @indexCommands_guarantees events p options hfrontend
    rw [hindexed] at hguarantees
    exact hguarantees.2.2
  | threw failure =>
    cases failure with
    | exception e => exact hconfined w hw.contained
    | indexingError message run =>
      refine Triple.bind ((writeFailure_contained p message run).imp (fun _ h => h) (fun _ _ h => h) fun _ _ h =>
        hconfined _ h) (fun _ => Triple.pure fun w hw => ?_) w hw.contained
      refine ⟨hconfined w hw, .incomplete hoptions hprepared hconstructed hindexed fun hfrontend => ?_⟩
      have hguarantees := @indexCommands_guarantees events p options hfrontend
      rw [hindexed] at hguarantees
      exact hguarantees

/-- A run of the tool about itself writes to the standard output. -/
theorem told_ends (text : Bytes) (h : parseCli events.files.currentPath arguments = .ok .help ∨
      parseCli events.files.currentPath arguments = .ok .version) {E : Exception → World → Prop} :
    Triple (fun w => w = start events)
      (do
        let _ ← write events none text
        pure 0)
      (fun code w => w.files = events.files.contents ∧ Verdict events arguments code w) E := by
  refine Triple.bind (write_spec none text) fun _ => Triple.pure ?_
  rintro _ ⟨_, left, rfl, rfl, -⟩
  exact ⟨rfl, .told h⟩

/-- A run without a cache has none to lead into. -/
theorem inCache_uncached (hoptions : parseCli events.files.currentPath arguments = .ok (.run o)) (hno : o.noCache = true)
    (path : Path) : ¬ InCache events arguments path := by
  rintro ⟨o', p, options, directory, ho', hprepared, hconstructed, hdirectory, -⟩
  rw [hoptions] at ho'
  cases ho'
  have hnone := constructIndexer_uncached hconstructed
    (prepare_uncached hprepared hno (parseCli_uncached hoptions hno))
  rw [hnone] at hdirectory
  cases hdirectory

theorem Confined.leavesAlone {w : World} (hoptions : parseCli events.files.currentPath arguments = .ok (.run o))
    (hw : Confined events arguments o w) : LeavesAlone events arguments w where
  contained path := (hw path).imp_right (Or.imp_right fun hasked => ⟨o, hoptions, hasked⟩)
  baseline o' path ho' hbaseline := by
    rw [hoptions] at ho'
    cases ho'
    refine (hw path).imp_right (Or.imp_right ?_)
    rintro ⟨name, hname, hsame⟩
    exact ⟨name, hname, parseCli_apart hoptions hname hbaseline, hsame⟩
  uncached _ := inCache_uncached

theorem leavesAlone_of_files {w : World} (hw : w.files = events.files.contents) : LeavesAlone events arguments w :=
  ⟨fun path => .inl (congrFun hw path), fun _ path _ _ => .inl (congrFun hw path), fun _ => inCache_uncached⟩

theorem run_ends : Triple (fun w => w = start events) (run events arguments) (Ends events arguments)
    fun _ => LeavesAlone events arguments := by
  refine Triple.bind ((lift_keeps _).imp (fun _ h => h) (fun _ _ h => h) fun _ w hw =>
    leavesAlone_of_files (by rw [hw]; rfl)) fun request => ?_
  rintro w ⟨hparsed, hw⟩
  cases request with
  | help =>
    exact (told_ends usage (.inl hparsed)).imp (fun _ h => h) (fun _ _ h => ⟨leavesAlone_of_files h.1, h.2⟩)
      (fun _ _ h => h) w hw
  | version =>
    exact (told_ends _ (.inr hparsed)).imp (fun _ h => h) (fun _ _ h => ⟨leavesAlone_of_files h.1, h.2⟩)
      (fun _ _ h => h) w hw
  | run o =>
    exact (analyse_verdict hparsed).imp (fun _ h => h) (fun _ _ h => ⟨h.1.leavesAlone hparsed, h.2⟩)
      (fun _ _ h => h.leavesAlone hparsed) w hw

end Runs

end Program

end CxxDead
