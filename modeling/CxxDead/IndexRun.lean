import CxxDead.CacheKey
import CxxDead.Index
import CxxDead.Staging
import CxxDead.VirtualDispatch
/-!
# Runs of the AST indexer

`ClangAstIndexer::index`: commands are normalized, and then each translation unit
is served from the cache or compiled, collected, staged and merged. What the
system does is an `Environment`. A run keeps its state when it throws, for then
the staged writes are still to be destroyed.

- `IndexRun`: the state, in which no record is listed twice.
- `index`: the run, with the objects' destructors.
-/

namespace CxxDead

open Lib CxxDead.Graph

namespace Indexer

/-! ## What a run reports -/

inductive RunState where
  | complete | incomplete | unsupported
deriving DecidableEq, Repr

inductive TranslationUnitStatus where
  | indexed | failed | skipped | timedOut | unsupported | cancelled
deriving DecidableEq, Repr

structure TranslationUnitDiagnostic where
  file : Path
  status : TranslationUnitStatus
  stage : Bytes
  message : Bytes
  exitCode : Option Int := none
  signal : Option Int := none
deriving DecidableEq

structure RunDiagnostics where
  state : RunState
  frontend : IndexFrontend
  partialGraphDiscarded : Bool
  translationUnits : List TranslationUnitDiagnostic
deriving DecidableEq

/-- What a run throws. -/
inductive Failure where
  | indexingError (message : Bytes) (diagnostics : RunDiagnostics)
  | exception (e : Exception)
deriving DecidableEq

structure IndexMetrics where
  cacheHits : Nat := 0
  cacheMisses : Nat := 0
  cacheBytesRead : Nat := 0
  cacheBytesWritten : Nat := 0

structure IndexResult where
  graph : Graph
  diagnostics : List Bytes
  frontend : IndexFrontend
  translationUnits : Nat
  astBytes : UInt64
  factBytes : UInt64
  metrics : IndexMetrics
  cacheWarnings : List Bytes
  translationUnitDiagnostics : List TranslationUnitDiagnostic

/-! ## The environment -/

inductive ProcessTermination where
  | exited | signaled | timedOut | cancelled | outputLimitExceeded
deriving DecidableEq, Repr

structure ProcessOptions where
  timeout : Option Int
  standardOutputLimit : UInt64
  cancellationRequested : Bool

structure ProcessResult where
  exitCode : Int := -1
  signal : Int := 0
  termination : ProcessTermination := .exited
  standardOutput : Bytes := []
  standardError : Bytes := []

/-- What the collectors make of a translation unit. -/
structure CollectedFacts (rules : Nat) where
  graph : Graph
  diagnostics : List Bytes
  ruleMatches : List Bool
  records : List (Bytes × List Bytes)
  built : Built graph
  matches_length : ruleMatches.length = rules
  names_nodup : (records.map (·.1)).Nodup

/-- What happens while a unit is indexed. `started` and the numbers after it are the clock in nanoseconds,
each when it is read. -/
structure UnitEvents (rules : Nat) where
  cancelledBefore : Bool := false
  cancelledValidating : Bool := false
  cancelledCollecting : Bool := false
  started : Nat := 0
  unitValidated : Nat := 0
  indexValidated : Nat := 0
  launched : Nat := 0
  unitCollected : Nat := 0
  indexCollected : Nat := 0
  /-- While the key is computed. -/
  host : Host
  currentPath : Path
  cacheFile : CacheFile
  /-- While the entry's dependencies are checked. -/
  dependencyDigest : Path → Except Exception Bytes
  temporaryDirectory : Except Exception Path
  temporaryCounter : Nat := 0
  runProcess : List Bytes → Path → ProcessOptions → Except Exception ProcessResult
  fromChars : Bytes → Option ℚ
  collect : List Json.Value → Except Exception (CollectedFacts rules)
  parseMakeDependencies : Path → Path → Except Exception (List Path)
  /-- While the entry to be stored is made. -/
  hostAfter : Host
  stage : StageEvents
  vectorGrows : Bool := false

structure Environment (rules : Nat) where
  pid : Nat := 0
  started : Nat := 0
  /-- While each command is normalized. -/
  disk : Nat → Disk
  unitEvents : Nat → UnitEvents rules
  /-- The orders in which the hash maps list their entries. -/
  recordOrder : RecordMap → RecordMap
  methodOrder : List (Bytes × List SymbolId) → List (Bytes × List SymbolId)
  recordOrder_perm : ∀ records, (recordOrder records).entries.Perm records.entries
  methodOrder_perm : ∀ methods, (methodOrder methods).Perm methods
  commitEvents : Nat → CommitEvents := fun _ => {}

/-- What all units of a run share. -/
structure Invocation where
  options : IndexOptions
  commands : List CompileCommand
  normalized : List NormalizedCommand
  environment : Environment options.callbackRegistrationRules.length

namespace Invocation

def rules (i : Invocation) : Nat := i.options.callbackRegistrationRules.length

def resolved (i : Invocation) : List CompileCommand := i.normalized.map (·.toCompileCommand)

def cancelled (i : Invocation) (answer : Bool) : Bool := i.options.cancellationRequested && answer

/-- A limit in milliseconds has been reached. -/
def reached (limit : Int) (started now : Nat) : Bool :=
  decide (0 < limit) && decide (limit * 1000000 ≤ (now : Int) - started)

end Invocation

/-! ## The state of a run -/

def NamedOnce (s : IndexState) : Prop := (s.records.map (·.1)).Nodup

structure IndexRun where
  index : IndexState
  namedOnce : NamedOnce index
  astBytes : UInt64 := 0
  metrics : IndexMetrics := {}
  cacheWarnings : List Bytes := []
  translationUnitDiagnostics : List TranslationUnitDiagnostic := []
  stagedCacheWrites : List StagedCacheWrite := []
  cache : CacheDirectory

abbrev RunM := EStateM Failure IndexRun

theorem addRecord_names (records : List (Bytes × List Bytes)) (name : Bytes) (bases : List Bytes) :
    (addRecord records name bases).map (·.1) =
      if name ∈ records.map (·.1) then records.map (·.1) else records.map (·.1) ++ [name] := by
  induction records with
  | nil => rfl
  | cons r records ih =>
    unfold addRecord
    by_cases hr : r.1 = name
    · simp [hr]
    · rw [if_neg hr, List.map_cons, ih, List.map_cons]
      by_cases hmem : name ∈ records.map (·.1)
      · rw [if_pos hmem, if_pos (List.mem_cons_of_mem _ hmem)]
      · rw [if_neg hmem, if_neg fun h => (List.mem_cons.1 h).elim (fun heq => hr heq.symm) hmem]
        rfl

theorem addRecord_nodup {records : List (Bytes × List Bytes)} (name : Bytes) (bases : List Bytes)
    (h : (records.map (·.1)).Nodup) : ((addRecord records name bases).map (·.1)).Nodup := by
  rw [addRecord_names]
  split
  · exact h
  · rename_i hname
    exact List.nodup_append.2 ⟨h, by simp, fun a ha b hb heq => hname (List.mem_singleton.1 hb ▸ heq ▸ ha)⟩

theorem addRecords_namedOnce (records : List (Bytes × List Bytes)) (s : IndexState) (hs : NamedOnce s) :
    NamedOnce (addRecords records s) := by
  unfold addRecords NamedOnce at *
  generalize s.records = before at hs
  induction records generalizing before with
  | nil => exact hs
  | cons r records ih => exact ih _ (addRecord_nodup _ _ hs)

theorem mergeInto_namedOnce (source : Graph) : Keeps NamedOnce (mergeInto source) := by
  intro s hs
  unfold endState mergeInto
  cases mergeGraph source s.graph <;> exact hs

theorem mergeCached_namedOnce (entry : TranslationUnitCacheEntry) : Keeps NamedOnce (mergeCached entry) :=
  (mergeInto_namedOnce _).bind fun _ => Keeps.bind (fun _ hs => hs) fun _ => Keeps.bind (fun _ hs => hs) fun _ =>
    Keeps.bind (fun _ hs => hs) fun _ => Keeps.bind (addRecords_namedOnce _) fun _ => fun _ hs => hs

theorem mergeFresh_namedOnce {rules : Nat} (unit : TranslationUnit rules) : Keeps NamedOnce (mergeFresh unit) :=
  Keeps.bind (fun _ hs => hs) fun _ => (mergeInto_namedOnce _).bind fun _ => Keeps.bind (fun _ hs => hs) fun _ =>
    Keeps.bind (fun _ hs => hs) fun _ => Keeps.bind (addRecords_namedOnce _) fun _ => fun _ hs => hs

/-! ## Throwing -/

/-- A `try` block; `rethrow` stands for the lack of one. -/
def attempt {α : Type} (m : EStateM Exception IndexRun α) (handler : Exception → RunM α) : RunM α := fun s =>
  match m s with
  | .ok a s' => .ok a s'
  | .error e s' => handler e s'

def rethrow {α : Type} (e : Exception) : RunM α := throw (.exception e)

def compute {α : Type} (m : Except Exception α) : EStateM Exception IndexRun α := fun s =>
  match m with
  | .ok a => .ok a s
  | .error e => .error e s

/-- Merging into the state of the loop. -/
def merging (m : IndexM Unit) (hm : Keeps NamedOnce m) : EStateM Exception IndexRun Unit := fun s =>
  let s' := { s with index := endState m s.index, namedOnce := hm _ s.namedOnce }
  match m s.index with
  | .ok _ _ => .ok () s'
  | .error e _ => .error e s'

def setGraph (graph : Graph) (s : IndexRun) : IndexRun :=
  { s with index := { s.index with graph }, namedOnce := s.namedOnce }

def onGraph (m : GraphM Unit) : EStateM Exception IndexRun Unit := fun s =>
  match m s.index.graph with
  | .ok _ graph => .ok () (setGraph graph s)
  | .error e graph => .error e (setGraph graph s)

def pushDiagnostic (diagnostic : Bytes) (s : IndexRun) : IndexRun :=
  { s with index := { s.index with diagnostics := s.index.diagnostics ++ [diagnostic] }, namedOnce := s.namedOnce }

def pushCacheWarnings (warnings : List Bytes) (s : IndexRun) : IndexRun :=
  { s with cacheWarnings := s.cacheWarnings ++ warnings }

def indexedDiagnostic (command : CompileCommand) : TranslationUnitDiagnostic :=
  { file := command.file
    status := .indexed
    stage := lit "indexing"
    message := lit "translation unit indexed successfully" }

def skippedDiagnostic (command : CompileCommand) : TranslationUnitDiagnostic :=
  { file := command.file
    status := .skipped
    stage := lit "indexing"
    message := lit "not indexed because an earlier translation unit did not complete" }

/-- What `fail_indexing` throws at `current`. -/
def indexingDiagnostics (commands : List CompileCommand) (run : IndexRun) (current : Nat)
    (failing : CompileCommand → TranslationUnitDiagnostic) : RunDiagnostics :=
  { state := .incomplete
    frontend := .astJson
    partialGraphDiscarded := !run.translationUnitDiagnostics.isEmpty || !run.index.graph.symbols.isEmpty
    translationUnits := run.translationUnitDiagnostics ++
      match commands.drop current with
      | [] => []
      | command :: rest => failing command :: rest.map skippedDiagnostic }

def failIndexing {α : Type} (commands : List CompileCommand) (current : Nat) (status : TranslationUnitStatus)
    (stage message : Bytes) (exitCode : Option Int := none) (signal : Option Int := none) : RunM α := fun s =>
  .error (.indexingError message (indexingDiagnostics commands s current fun command =>
    { file := command.file, status, stage, message, exitCode, signal })) s

/-- A check of the whole index has failed. -/
def failIndex {α : Type} (message : Bytes) : RunM α := fun s =>
  .error (.indexingError message
    { state := .incomplete
      frontend := .astJson
      partialGraphDiscarded := true
      translationUnits := s.translationUnitDiagnostics }) s

def stopIf (condition : Bool) (failure : RunM Unit) : RunM Unit := if condition then failure else pure ()

def recordIndexed (command : NormalizedCommand) : RunM Unit :=
  modify fun s =>
    { s with
      translationUnitDiagnostics := s.translationUnitDiagnostics ++ [indexedDiagnostic command.toCompileCommand] }

/-! ## Serving a unit from the cache -/

def lookupCached {rules : Nat} (directory : Path) (key : Bytes) (command : NormalizedCommand) (events : UnitEvents rules) :
    CacheLookupResult :=
  loadTranslationUnitCache events.currentPath directory key command.file events.cacheFile events.dependencyDigest

/-- The entry found, unless its matches do not fit the rules. -/
def compatibleEntry (rules : Nat) (cached : CacheLookupResult) : Option TranslationUnitCacheEntry :=
  cached.entry.filter fun entry => entry.registrationRuleMatches.length == rules

def recordLookup (cached : CacheLookupResult) (s : IndexRun) : IndexRun :=
  { s with
    metrics := { s.metrics with cacheBytesRead := s.metrics.cacheBytesRead + cached.bytesRead }
    cacheWarnings := s.cacheWarnings ++ cached.warnings }

def incompatibleMetadata (command : CompileCommand) : Bytes :=
  lit "ignored translation-unit cache entry with incompatible callback metadata for " ++ command.file.text

def warnIncompatible (rules : Nat) (command : CompileCommand) (cached : CacheLookupResult) (s : IndexRun) : IndexRun :=
  if cached.entry.isSome && (compatibleEntry rules cached).isNone then
    pushCacheWarnings [incompatibleMetadata command] s
  else s

/-- The checks that may stop a run while a cache entry is validated. -/
def interruptedValidating (i : Invocation) (events : UnitEvents i.rules) : Bool :=
  i.cancelled events.cancelledValidating ||
    (Invocation.reached i.options.translationUnitTimeout events.started events.unitValidated ||
      Invocation.reached i.options.indexTimeout i.environment.started events.indexValidated)

def validateCached (i : Invocation) (current : Nat) (command : NormalizedCommand) (events : UnitEvents i.rules)
    (cached : CacheLookupResult) : RunM (Option TranslationUnitCacheEntry) := do
  modify (recordLookup cached)
  stopIf (i.cancelled events.cancelledValidating)
    (failIndexing i.resolved current .cancelled (lit "cache_validation")
      (lit "indexing cancelled while validating cached facts for " ++ command.file.text))
  stopIf (Invocation.reached i.options.translationUnitTimeout events.started events.unitValidated)
    (failIndexing i.resolved current .timedOut (lit "cache_validation")
      (lit "translation-unit timeout while validating cached facts for " ++ command.file.text))
  stopIf (Invocation.reached i.options.indexTimeout i.environment.started events.indexValidated)
    (failIndexing i.resolved current .timedOut (lit "cache_validation")
      (lit "index timeout while validating cached facts for " ++ command.file.text))
  modify (warnIncompatible i.rules command.toCompileCommand cached)
  pure (compatibleEntry i.rules cached)

/-- A unit that the cache serves. Nothing catches what the merge throws. -/
def indexCached (command : NormalizedCommand) (entry : TranslationUnitCacheEntry) : RunM Unit := do
  attempt (merging (mergeCached entry) (mergeCached_namedOnce entry)) rethrow
  modify fun s => { s with metrics := { s.metrics with cacheHits := s.metrics.cacheHits + 1 } }
  recordIndexed command

/-! ## Compiling a unit -/

def intText (n : Int) : Bytes :=
  match n with
  | .ofNat n => decimal n
  | .negSucc n => ch '-' :: decimal (n + 1)

def cacheTemporaryPath (temporaryDirectory : Except Exception Path) (pid counter : Nat) (suffix : Bytes) :
    Except Exception Path :=
  temporaryDirectory.map fun directory =>
    directory.append ⟨lit "cxx-dead-" ++ decimal pid ++ ch '-' :: decimal counter ++ suffix⟩

def astCommand (command : CompileCommand) (options : IndexOptions) (dependencyFile : Option Path) :
    Except Exception (List Bytes) :=
  if command.arguments.length < 2 then
    .error (.runtimeError (lit "normalized compilation command omitted its source file"))
  else .ok (
    [options.clangExecutable] ++ command.arguments.tail.dropLast ++
    [lit "-Wno-error", lit "-Xclang", lit "-ast-dump=json"] ++
    (if options.astFilter.isEmpty then [] else [lit "-Xclang", lit "-ast-dump-filter=" ++ options.astFilter]) ++
    [lit "-fsyntax-only"] ++
    (match dependencyFile with
      | some file => [lit "-MD", lit "-MF", file.text, lit "-MT", command.file.text]
      | none => []) ++
    [command.file.text])

def conciseDiagnostic (diagnostic : Bytes) : Bytes :=
  if diagnostic.length > 4000 then diagnostic.take 4000 ++ lit "\n... diagnostics truncated" else diagnostic

/-- `elapsed_milliseconds`: the clock counts nanoseconds. -/
def elapsedMilliseconds (started now : Nat) : Int := ((now : Int) - started).tdiv 1000000

/-- The index's time is up before Clang is started. -/
def lateForProcess (i : Invocation) (events : UnitEvents i.rules) : Bool :=
  decide (0 < i.options.indexTimeout) &&
    decide (i.options.indexTimeout ≤ elapsedMilliseconds i.environment.started events.launched)

/-- The process's limit, and whose limit it is. -/
def processTimeout (i : Invocation) (events : UnitEvents i.rules) : Option Int × Bytes :=
  let unit := if 0 < i.options.translationUnitTimeout then some i.options.translationUnitTimeout else none
  let remaining := i.options.indexTimeout - elapsedMilliseconds i.environment.started events.launched
  if 0 < i.options.indexTimeout ∧ unit.all (fun timeout => decide (remaining < timeout)) = true then
    (some remaining, lit "index")
  else (unit, lit "translation-unit")

def runClang (i : Invocation) (current : Nat) (command : NormalizedCommand) (events : UnitEvents i.rules)
    (invocation : List Bytes) : RunM ProcessResult := do
  let (timeout, timeoutScope) := processTimeout i events
  let process ← attempt
    (compute (events.runProcess invocation command.directory
      { timeout
        standardOutputLimit := i.options.maxAstBytes
        cancellationRequested := i.options.cancellationRequested }))
    fun error => failIndexing i.resolved current .failed (lit "process")
      (lit "could not run Clang AST indexing for " ++ command.file.text ++ lit ": " ++ Artifact.what error)
  let fail := fun (status : TranslationUnitStatus) (stage message : Bytes) =>
    (failIndexing i.resolved current status stage message (some process.exitCode) (some process.signal) : RunM Unit)
  stopIf (process.termination == .timedOut)
    (fail .timedOut (lit "clang") (timeoutScope ++ lit " timeout while indexing " ++ command.file.text))
  stopIf (process.termination == .cancelled)
    (fail .cancelled (lit "clang") (lit "indexing cancelled while processing " ++ command.file.text))
  stopIf (process.termination == .outputLimitExceeded)
    (fail .failed (lit "ast_output") (lit "Clang AST output exceeded --max-ast-bytes for " ++ command.file.text))
  stopIf (process.exitCode != 0)
    (fail .failed (lit "clang") (lit "Clang AST indexing failed for " ++ command.file.text ++ lit " (exit " ++
      intText process.exitCode ++ lit "):\n" ++ conciseDiagnostic process.standardError))
  modify fun s => { s with astBytes := s.astBytes + process.standardOutput.length.toUInt64 }
  pure process

/-! ### The AST -/

structure JsonDocuments where
  documents : List Bytes := []
  /-- The document that has begun. -/
  current : Bytes := []
  depth : Nat := 0
  inString : Bool := false
  escaped : Bool := false

namespace JsonDocuments

def push (s : JsonDocuments) (c : UInt8) : JsonDocuments :=
  if s.depth = 0 then s else { s with current := s.current ++ [c] }

def step (s : JsonDocuments) (c : UInt8) : Except Exception JsonDocuments :=
  if s.inString then
    let s' := s.push c
    if s.escaped then .ok { s' with escaped := false }
    else if c = ch '\\' then .ok { s' with escaped := true }
    else if c = ch '"' then .ok { s' with inString := false }
    else .ok s'
  else if c = ch '"' then .ok { s.push c with inString := true }
  else if c = ch '\x7b' ∨ c = ch '[' then
    if s.depth = 0 then .ok { s with current := [c], depth := 1 } else .ok { s.push c with depth := s.depth + 1 }
  else if c = ch '\x7d' ∨ c = ch ']' then
    if s.depth = 0 then .error (.runtimeError (lit "unexpected closing delimiter in Clang AST JSON"))
    else if s.depth = 1 then .ok { s with documents := s.documents ++ [s.current ++ [c]], current := [], depth := 0 }
    else .ok { s.push c with depth := s.depth - 1 }
  else if s.depth = 0 ∧ Text.isSpace c = false then
    .error (.runtimeError (lit "unexpected content between Clang AST JSON documents"))
  else .ok (s.push c)

end JsonDocuments

def splitJsonDocuments (input : Bytes) : Except Exception (List Bytes) := do
  let s ← input.foldlM JsonDocuments.step {}
  if s.depth ≠ 0 ∨ s.inString = true then throw (.runtimeError (lit "incomplete Clang AST JSON document"))
  pure s.documents

/-- `json::parse`, with the error's text. -/
def parseDocument (fromChars : Bytes → Option ℚ) (document : Bytes) : Except Exception Json.Value :=
  match Json.parse fromChars document with
  | .ok value => .ok value
  | .error error =>
    .error (.runtimeError (lit "JSON parse error at byte " ++ decimal error.offset ++ lit ": " ++ error.message))

def parseDocuments (fromChars : Bytes → Option ℚ) (output : Bytes) : Except Exception (List Json.Value) := do
  let documents ← splitJsonDocuments output
  documents.mapM (parseDocument fromChars)

/-! ### The facts -/

def pointBytes (point : SourcePoint) : Nat := point.file.text.length + 4 * 8

def extentBytes (extent : SourceExtent) : Nat :=
  pointBytes extent.location + pointBytes extent.begin + pointBytes extent.end

def symbolBytes (symbol : Symbol) : Nat :=
  symbol.key.length + symbol.identity.configurationId.length + symbol.identity.usr.length +
    symbol.identity.linkageName.length + symbol.identity.translationUnit.length +
    symbol.identity.fallbackAnchor.length + symbol.name.length + symbol.qualifiedName.length +
    symbol.className.length + symbol.signature.length + extentBytes symbol.source.spelling + 4 * 1 + 2 * 4 +
    (symbol.source.expansion.map extentBytes).getD 0

def evidenceBytes (evidence : Evidence) : Nat := evidence.provider.length + evidence.reason.length

def graphFactBytes (graph : Graph) : UInt64 :=
  ((graph.symbols.map symbolBytes).sum +
    (graph.edges.map fun edge => 2 * 8 + 4 + evidenceBytes edge.evidence).sum +
    (graph.roots.map fun root => 8 + 4 + evidenceBytes root.evidence).sum +
    (graph.escapes.map fun escape => 2 * 8 + 4 + evidenceBytes escape.evidence).sum +
    (graph.suppressions.map fun suppression => 8 + evidenceBytes suppression.evidence).sum).toUInt64

/-- What Clang says of a unit that compiles is reported on request. -/
def verboseDiagnostics (i : Invocation) (command : NormalizedCommand) (process : ProcessResult) : List Bytes :=
  if i.options.verbose && !process.standardError.isEmpty then
    [command.file.text ++ lit ":\n" ++ conciseDiagnostic process.standardError]
  else []

def translationUnit (i : Invocation) (command : NormalizedCommand) (key : Bytes) (process : ProcessResult)
    (facts : CollectedFacts i.rules) : TranslationUnit i.rules :=
  { cacheKey := key
    graph := facts.graph
    diagnostics := verboseDiagnostics i command process ++ facts.diagnostics
    ruleMatches := facts.ruleMatches
    records := facts.records
    dependencies := []
    astBytes := process.standardOutput.length.toUInt64
    factBytes := graphFactBytes facts.graph
    built := facts.built
    matches_length := facts.matches_length
    names_nodup := facts.names_nodup }

def collectUnit (i : Invocation) (current : Nat) (command : NormalizedCommand) (events : UnitEvents i.rules)
    (key : Bytes) (process : ProcessResult) : RunM (TranslationUnit i.rules) := do
  -- here the diagnostics take the files of the commands as they were given
  let documents ← attempt (compute (parseDocuments events.fromChars process.standardOutput))
    fun error => failIndexing i.commands current .failed (lit "ast_parse")
      (lit "invalid Clang AST JSON for " ++ command.file.text ++ lit ": " ++ Artifact.what error)
  let facts ← attempt (compute (events.collect documents))
    fun error => failIndexing i.resolved current .failed (lit "fact_collection")
      (lit "could not collect Clang AST facts for " ++ command.file.text ++ lit ": " ++ Artifact.what error)
  stopIf (i.cancelled events.cancelledCollecting)
    (failIndexing i.resolved current .cancelled (lit "fact_collection")
      (lit "indexing cancelled while collecting facts for " ++ command.file.text))
  stopIf (Invocation.reached i.options.translationUnitTimeout events.started events.unitCollected)
    (failIndexing i.resolved current .timedOut (lit "fact_collection")
      (lit "translation-unit timeout while collecting facts for " ++ command.file.text))
  stopIf (Invocation.reached i.options.indexTimeout i.environment.started events.indexCollected)
    (failIndexing i.resolved current .timedOut (lit "fact_collection")
      (lit "index timeout while collecting facts for " ++ command.file.text))
  pure (translationUnit i command key process facts)

/-! ### Staging -/

def hashDependencies (host : Host) : List Path → Except Exception (List CacheDependency)
  | [] => .ok []
  | path :: rest => do
    let digest ← host.sha256File path
    pure (⟨path, digest⟩ :: (← hashDependencies host rest))

def hashCacheDependencies (host : Host) (paths : List Path) : Except Exception (List CacheDependency) := do
  let paths ← paths.mapM fun path => (host.absolute path).map Path.lexicallyNormal
  hashDependencies host (sortPaths paths)

/-- The entry to be stored. -/
def entryToStage {rules : Nat} (command : NormalizedCommand) (events : UnitEvents rules) (dependencyFile : Path)
    (unit : TranslationUnit rules) : Except Exception TranslationUnitCacheEntry := do
  let dependencies ← events.parseMakeDependencies dependencyFile command.directory
  let dependencies ← hashCacheDependencies events.hostAfter (dependencies ++ [command.file] ++ command.commandInputs)
  pure (cacheEntry { unit with dependencies })

def stageEntry {rules : Nat} (pid : Nat) (directory : Path) (events : UnitEvents rules) (key : Bytes)
    (entry : TranslationUnitCacheEntry) (s : IndexRun) : IndexRun :=
  match stageTranslationUnitCache events.stage pid directory key entry s.cache s.cacheWarnings with
  | (none, cache, cacheWarnings) => { s with cache, cacheWarnings }
  | (some staged, cache, cacheWarnings) =>
    let (vector, moved, cache) := pushBack events.vectorGrows s.stagedCacheWrites staged cache
    { s with
      cache := moved.destroy cache
      cacheWarnings
      stagedCacheWrites := vector
      metrics := { s.metrics with cacheBytesWritten := s.metrics.cacheBytesWritten + staged.bytes } }

def stageUnit {rules : Nat} (pid : Nat) (directory : Path) (command : NormalizedCommand) (events : UnitEvents rules)
    (dependencyFile : Path) (unit : TranslationUnit rules) : RunM Unit :=
  match entryToStage command events dependencyFile unit with
  | .ok entry => modify (stageEntry pid directory events unit.cacheKey entry)
  | .error error =>
    modify (pushCacheWarnings
      [lit "could not cache facts for " ++ command.file.text ++ lit ": " ++ Artifact.what error])

/-! ### One unit -/

/-- Merging the facts of a unit that has just been collected, which may fail like the rest. -/
def mergeUnit (i : Invocation) (current : Nat) (command : NormalizedCommand) (unit : TranslationUnit i.rules) :
    RunM Unit := do
  attempt (merging (mergeFresh unit) (mergeFresh_namedOnce unit))
    fun error => failIndexing i.resolved current .failed (lit "fact_merge")
      (lit "could not merge Clang AST facts for " ++ command.file.text ++ lit ": " ++ Artifact.what error)
  recordIndexed command

def countMiss (s : IndexRun) : IndexRun :=
  { s with metrics := { s.metrics with cacheMisses := s.metrics.cacheMisses + 1 } }

/-- The file for the compiler's dependencies, if there is a cache. Nothing catches what finding a place for it throws. -/
def dependencyFile {rules : Nat} (pid : Nat) (events : UnitEvents rules) (cache : Option (Path × Bytes)) :
    RunM (Option (Path × Bytes × Path)) :=
  match cache with
  | none => pure none
  | some (directory, key) => do
    let file ← attempt (compute (cacheTemporaryPath events.temporaryDirectory pid events.temporaryCounter (lit ".d")))
      rethrow
    pure (some (directory, key, file))

/-- A unit that the cache does not serve; `cache` is its directory and the unit's key. -/
def indexFresh (i : Invocation) (current : Nat) (command : NormalizedCommand) (events : UnitEvents i.rules)
    (cache : Option (Path × Bytes)) : RunM Unit := do
  stopIf (lateForProcess i events)
    (failIndexing i.resolved current .timedOut (lit "indexing")
      (lit "index timeout reached before " ++ command.file.text))
  let cache ← dependencyFile i.environment.pid events cache
  let invocation ← attempt
    (compute (astCommand command.toCompileCommand i.options (cache.map fun (_, _, file) => file))) rethrow
  let process ← runClang i current command events invocation
  let key := (cache.map fun (_, key, _) => key).getD []
  let unit ← collectUnit i current command events key process
  match cache with
  | none => mergeUnit i current command unit
  | some (directory, _, file) => do
    stageUnit i.environment.pid directory command events file unit
    mergeUnit i current command unit

def indexUnit (i : Invocation) (current : Nat) (command : NormalizedCommand) (events : UnitEvents i.rules) :
    RunM Unit := do
  stopIf (i.cancelled events.cancelledBefore)
    (failIndexing i.resolved current .cancelled (lit "indexing")
      (lit "indexing cancelled before " ++ command.file.text))
  match i.options.cacheDirectory with
  | none => indexFresh i current command events none
  | some directory => do
    let key ← attempt (compute (translationUnitCacheKey events.host command.toCompileCommand i.options .astJson)) rethrow
    match ← validateCached i current command events (lookupCached directory key command events) with
    | some entry => indexCached command entry
    | none => do
      modify countMiss
      indexFresh i current command events (some (directory, key))

def indexUnits (i : Invocation) : Nat → List NormalizedCommand → RunM Unit
  | _, [] => pure ()
  | current, command :: rest => do
    indexUnit i current command (i.environment.unitEvents current)
    indexUnits i (current + 1) rest

/-! ## After the last unit -/

/-- The records in the order in which the hash map lists them. -/
def recordMap {rules : Nat} (environment : Environment rules) (s : IndexRun) : RecordMap :=
  environment.recordOrder ⟨s.index.records, s.namedOnce⟩

def dispatchVirtually {rules : Nat} (environment : Environment rules) : RunM Unit := do
  let s ← get
  attempt
    (onGraph (addVirtualDispatchEdges (recordMap environment s)
      (environment.methodOrder (methodsByClass s.index.graph)))) rethrow

/-- Every registration rule has to match a call. -/
def checkRules : List (CallbackRegistrationRule × Bool) → RunM Unit
  | [] => pure ()
  | (rule, matched) :: rest => do
    stopIf (!matched)
      (failIndex (lit "callback registration rule did not match a registrar call: " ++ describe rule.callee ++
        ch ':' :: decimal rule.argumentIndex.toNat))
    checkRules rest

/-- The symbols that a manual root names. -/
def requestedSymbols (g : Graph) (requested : Bytes) : List SymbolId :=
  (List.range g.symbols.length).filter fun id =>
    (g.symbol id).qualifiedName == requested || (g.symbol id).identity.linkageName == requested ||
      (g.symbol id).key == requested

def addManualRoot (requested : Bytes) : RunM Unit := do
  let ids := requestedSymbols (← get).index.graph requested
  attempt
    (onGraph (ids.forM fun id =>
      addRoot id .manual ⟨lit "command_line", lit "matched configured root: " ++ requested⟩)) rethrow
  modify fun s =>
    if ids.isEmpty then pushDiagnostic (lit "configured root did not match a symbol: " ++ requested) s else s

def publicHeaderReason (path : Path) : Bytes := lit "declaration in public header " ++ path.genericString

def isObserved (g : Graph) (header : Path) : Bool :=
  g.roots.any fun root => isPublicApi root.kind && root.evidence.reason == publicHeaderReason header

def checkPublicHeader (header : Path) : RunM Unit := do
  let s ← get
  stopIf (!isObserved s.index.graph header)
    (failIndex (lit "declared public header was not observed in indexed translation units: " ++ header.text))

def fallbackDiagnostic (symbol : Symbol) : Bytes :=
  lit "fallback symbol identity for " ++ symbol.qualifiedName ++ lit " : " ++ symbol.signature ++ lit " at " ++
    symbol.identity.fallbackAnchor ++ lit "; this frontend exposes neither a linkage name nor a Clang USR"

def addFallbackIdentityDiagnostics (s : IndexRun) : IndexRun :=
  (s.index.graph.symbols.filter fun symbol => symbol.identity.quality == .fallback).foldl
    (fun s symbol => pushDiagnostic (fallbackDiagnostic symbol) s) s

/-- Canonicalizing throws nothing, so that the handler around it is left out. -/
def sortResult (s : IndexRun) : IndexRun :=
  { s with
    index := { s.index with
      graph := s.index.graph.canonicalize
      diagnostics := sortUnique s.index.diagnostics }
    namedOnce := s.namedOnce
    translationUnitDiagnostics := sortOn (fun unit => pathOrder unit.file) s.translationUnitDiagnostics }

def noteAstFilter (options : IndexOptions) (s : IndexRun) : IndexRun :=
  if options.astFilter.isEmpty then s
  else pushDiagnostic (lit "Clang AST name filter active: " ++ options.astFilter) s

def finishIndex (i : Invocation) : RunM Unit := do
  dispatchVirtually i.environment
  checkRules (i.options.callbackRegistrationRules.zip (← get).index.ruleMatches)
  i.options.manualRoots.forM addManualRoot
  attempt (onGraph (applyProviderPolicies i.options.providerPolicies))
    fun error => failIndex (lit "could not apply reachability provider: " ++ Artifact.what error)
  i.options.publicHeaders.forM checkPublicHeader
  modify (noteAstFilter i.options)
  let s ← get
  stopIf s.index.graph.roots.isEmpty
    (failIndex (lit "no application roots found; include main(), --root, or a provider root"))
  modify addFallbackIdentityDiagnostics
  modify sortResult

/-- The loop that publishes the staged writes; `n` numbers them. -/
def commitFrom (events : Nat → CommitEvents) (n : Nat) :
    List StagedCacheWrite → CacheDirectory → List Bytes → List StagedCacheWrite × CacheDirectory × List Bytes
  | [], d, warnings => ([], d, warnings)
  | w :: rest, d, warnings =>
    let (w', d', warnings') := w.commit (events n) d warnings
    let (rest', d'', warnings'') := commitFrom events (n + 1) rest d' warnings'
    (w' :: rest', d'', warnings'')

/-! ## A run -/

/-- The commands as they are given, one of which could not be normalized. -/
def normalizationFailure (commands : List CompileCommand) (current : Nat) (command : CompileCommand)
    (error : Exception) : Failure :=
  .indexingError
    (lit "could not normalize compilation command for " ++ command.file.text ++ lit ": " ++ Artifact.what error)
    { state := .incomplete
      frontend := .astJson
      partialGraphDiscarded := false
      translationUnits := commands.zipIdx.map fun (other, n) =>
        { file := other.file
          status := if n = current then .failed else .skipped
          stage := lit "command_normalization"
          message :=
            if n = current then Artifact.what error
            else lit "not indexed because command normalization failed" } }

def normalizeCommands (commands : List CompileCommand) (disk : Nat → Disk) :
    Nat → List CompileCommand → Except Failure (List NormalizedCommand)
  | _, [] => .ok []
  | current, command :: rest =>
    match normalizeCompileCommand (disk current) command with
    | .error error => .error (normalizationFailure commands current command error)
    | .ok normalized => (normalizeCommands commands disk (current + 1) rest).map (normalized :: ·)

/-- A library needs public headers or explicit public API roots. -/
def libraryApiDeclared (options : IndexOptions) : Bool :=
  !options.requireLibraryApiPolicy || !options.publicHeaders.isEmpty ||
    options.providerPolicies.any fun policy => !policy.publicApiRoots.isEmpty

/-- Nothing is known about any unit. -/
def refusal (message : Bytes) : Failure :=
  .indexingError message
    { state := .incomplete, frontend := .astJson, partialGraphDiscarded := false, translationUnits := [] }

def startRun (rules : Nat) (cache : CacheDirectory) : IndexRun :=
  { index := initialState rules, namedOnce := List.nodup_nil, cache }

inductive Outcome where
  | returned (result : IndexResult)
  | threw (failure : Failure)

def resultOf (s : IndexRun) (cacheWarnings : List Bytes) : IndexResult :=
  { graph := s.index.graph
    diagnostics := s.index.diagnostics
    frontend := .astJson
    translationUnits := s.index.translationUnits
    astBytes := s.astBytes
    factBytes := s.index.factBytes
    metrics := s.metrics
    cacheWarnings
    translationUnitDiagnostics := s.translationUnitDiagnostics }

def runUnits (i : Invocation) : RunM Unit := do
  indexUnits i 0 i.normalized
  finishIndex i

/-- The staged writes are destroyed in the end, whether or not they have been committed. -/
def runIndex (i : Invocation) (cache : CacheDirectory) : Outcome × CacheDirectory :=
  match runUnits i (startRun i.rules cache) with
  | .error failure s => (.threw failure, destroyAll s.stagedCacheWrites s.cache)
  | .ok () s =>
    let (staged, d, warnings) := commitFrom i.environment.commitEvents 0 s.stagedCacheWrites s.cache s.cacheWarnings
    (.returned (resultOf s warnings), destroyAll staged d)

def index (options : IndexOptions) (environment : Environment options.callbackRegistrationRules.length)
    (commands : List CompileCommand) (cache : CacheDirectory) : Outcome × CacheDirectory :=
  if !libraryApiDeclared options then
    (.threw (refusal (lit "selected library requires public headers or explicit public API roots")), cache)
  else if commands.isEmpty then
    (.threw (refusal (lit "selected interface library has no compilation context")), cache)
  else
    match normalizeCommands commands environment.disk 0 commands with
    | .error failure => (.threw failure, cache)
    | .ok normalized => runIndex { options, commands, normalized, environment } cache

end Indexer

end CxxDead
