import CxxDead.Cache
import CxxDead.CompileDatabase
import CxxDead.Provider
/-!
# Cache keys

The options of the indexer, and the key under which the facts of a translation
unit are cached: the hash of everything that they depend on.

- `translationUnitCacheKey_ok_iff`: there is a key unless the search for the compiler
  or the digest of a command input throws.
-/

namespace CxxDead

open Lib

structure IndexOptions where
  projectRoot : Path := {}
  configurationId : Bytes := lit "default"
  reportPaths : List Path := []
  excludedPaths : List Path := []
  clangExecutable : Bytes := lit "clang++"
  astFilter : Bytes := []
  manualRoots : List Bytes := []
  callbackRegistrationRules : List CallbackRegistrationRule := []
  providerPolicies : List ProviderPolicy := []
  selectedTargetSources : List Path := []
  publicHeaders : List Path := []
  /-- Milliseconds, and no limit unless positive. -/
  translationUnitTimeout : Int := 0
  indexTimeout : Int := 0
  maxAstBytes : UInt64 := 0
  cacheDirectory : Option Path := none
  /-- Whether there is a callback to ask. -/
  cancellationRequested : Bool := false
  verbose : Bool := false
  inferSharedLibraryExports : Bool := false
  requireLibraryApiPolicy : Bool := false

/-- What the system says while a key is computed. `fingerprint` is `tool_fingerprint`, and
`binary` is that of the tool itself. -/
structure Host where
  currentPath : Except Exception Path
  «exists» : Path → Except Exception Bool
  binary : Except Exception Bytes
  fingerprint : Path → Except Exception Bytes
  sha256File : Path → Except Exception Bytes
  sha256 : Bytes → Bytes
  environment : Bytes → Option Bytes

namespace Host

def absolute (host : Host) (path : Path) : Except Exception Path := path.absolute host.currentPath

/-- The first directory of the search path that has the executable. -/
def searchPath (host : Host) (name : Path) : List Bytes → Except Exception (Option Path)
  | [] => .ok none
  | directory :: rest => do
    let directory ← if directory.isEmpty then host.currentPath else pure ⟨directory⟩
    let candidate := directory.append name
    if ← host.exists candidate then
      let candidate ← host.absolute candidate
      pure (some candidate.lexicallyNormal)
    else searchPath host name rest

def resolveExecutable (host : Host) (executable : Bytes) : Except Exception (Option Path) :=
  let path : Path := ⟨executable⟩
  if !path.parentPath.isEmpty then do
    let path ← host.absolute path
    if ← host.exists path then pure (some path.lexicallyNormal) else pure none
  else
    match host.environment (lit "PATH") with
    | none => .ok none
    | some search => host.searchPath path (search.splitOn (ch ':'))

end Host

/-! ## Components -/

namespace CacheKey

def appendComponent (name value : Bytes) : Bytes :=
  decimal name.length ++ ch ':' :: name ++ decimal value.length ++ ch ':' :: value

def appendPaths (name : Bytes) (paths : List Path) : Bytes :=
  appendComponent name (decimal paths.length) ++
    paths.flatMap fun path => appendComponent (lit "path") path.genericString

def appendValues (name : Bytes) (values : List Bytes) : Bytes :=
  appendComponent name (decimal values.length) ++ values.flatMap (appendComponent (lit "value"))

def flag (b : Bool) : Bytes := if b then lit "1" else lit "0"

def fingerprintOr (fingerprint : Except Exception Bytes) : Bytes :=
  match fingerprint with
  | .ok digest => digest
  | .error _ => lit "unavailable"

def compilerComponents (host : Host) (options : IndexOptions) (frontend : IndexFrontend) : Except Exception Bytes :=
  match frontend with
  | .libTooling => .ok []
  | .astJson => do
    match ← host.resolveExecutable options.clangExecutable with
    | none => pure []
    | some compiler =>
      pure (appendComponent (lit "clang_path") compiler.genericString ++
        appendComponent (lit "clang_digest") (fingerprintOr (host.fingerprint compiler)))

def inputComponents (host : Host) : List Path → Except Exception Bytes
  | [] => .ok []
  | input :: rest => do
    let digest ← host.sha256File input
    pure (appendComponent (lit "command_input_path") input.genericString ++
      appendComponent (lit "command_input_digest") digest ++ (← inputComponents host rest))

def ruleComponents (rule : CallbackRegistrationRule) : Bytes :=
  appendComponent (lit "callback") (describe rule.callee) ++
    appendComponent (lit "argument") (decimal rule.argumentIndex.toNat) ++
    appendComponent (lit "provider") rule.evidence.provider ++ appendComponent (lit "reason") rule.evidence.reason

/-- The environment variables that change what the compiler does. -/
def environmentNames : List Bytes :=
  [lit "PATH", lit "CPATH", lit "CPLUS_INCLUDE_PATH", lit "C_INCLUDE_PATH", lit "OBJC_INCLUDE_PATH",
   lit "GCC_EXEC_PREFIX", lit "COMPILER_PATH", lit "LIBRARY_PATH", lit "SDKROOT", lit "MACOSX_DEPLOYMENT_TARGET",
   lit "SOURCE_DATE_EPOCH", lit "CLANG_CONFIG_FILE_SYSTEM_DIR", lit "CLANG_CONFIG_FILE_USER_DIR", lit "LANG",
   lit "LC_ALL"]

def components (host : Host) (command : CompileCommand) (options : IndexOptions) (frontend : IndexFrontend) :
    Except Exception Bytes := do
  let compiler ← compilerComponents host options frontend
  let inputs ← inputComponents host command.commandInputs
  pure (
    appendComponent (lit "cache_schema") (decimal translationUnitCacheSchemaVersion) ++
    appendComponent (lit "extractor") (lit "cxx-dead-0.18") ++
    appendComponent (lit "cxx_dead_binary") (fingerprintOr host.binary) ++
    appendComponent (lit "frontend") frontend.toText ++
    appendComponent (lit "directory") command.directory.genericString ++
    appendComponent (lit "file") command.file.genericString ++
    appendComponent (lit "configuration") options.configurationId ++
    appendComponent (lit "project_root") options.projectRoot.genericString ++
    appendComponent (lit "clang") options.clangExecutable ++ compiler ++
    appendComponent (lit "ast_filter") options.astFilter ++
    appendComponent (lit "verbose") (flag options.verbose) ++
    appendComponent (lit "infer_exports") (flag options.inferSharedLibraryExports) ++
    appendComponent (lit "require_api") (flag options.requireLibraryApiPolicy) ++
    appendValues (lit "arguments") command.arguments ++ inputs ++
    appendPaths (lit "report_paths") options.reportPaths ++
    appendPaths (lit "excluded_paths") options.excludedPaths ++
    appendPaths (lit "selected_sources") options.selectedTargetSources ++
    appendPaths (lit "public_headers") options.publicHeaders ++
    options.callbackRegistrationRules.flatMap ruleComponents ++
    environmentNames.flatMap fun name =>
      match host.environment name with
      | some value => appendComponent name value
      | none => [])

end CacheKey

def translationUnitCacheKey (host : Host) (command : CompileCommand) (options : IndexOptions)
    (frontend : IndexFrontend) : Except Exception Bytes :=
  (CacheKey.components host command options frontend).map host.sha256

/-! ## When there is a key -/

/-- The computation throws nothing. -/
def Succeeds {α : Type} (m : Except Exception α) : Prop := ∃ a, m = .ok a

section Succeeds
variable {α β : Type} {m : Except Exception α} {host : Host} {options : IndexOptions}

theorem succeeds_ok (a : α) : Succeeds (.ok a : Except Exception α) := ⟨a, rfl⟩

theorem succeeds_bind_iff {f : α → Except Exception β} : Succeeds (m >>= f) ↔ ∃ a, m = .ok a ∧ Succeeds (f a) := by
  unfold Succeeds
  cases m with
  | error e =>
    constructor
    · rintro ⟨b, h⟩
      cases h
    · rintro ⟨a, h, -⟩
      cases h
  | ok a =>
    constructor
    · rintro ⟨b, h⟩
      exact ⟨a, rfl, b, h⟩
    · rintro ⟨_, heq, b, h⟩
      cases heq
      exact ⟨b, h⟩

theorem succeeds_map_iff {f : α → β} : Succeeds (m.map f) ↔ Succeeds m := by
  unfold Succeeds
  cases m with
  | error e => simp [Except.map]
  | ok a => simp [Except.map]

theorem inputComponents_succeeds_iff {inputs : List Path} :
    Succeeds (CacheKey.inputComponents host inputs) ↔ ∀ input ∈ inputs, Succeeds (host.sha256File input) := by
  induction inputs with
  | nil => simp [CacheKey.inputComponents, succeeds_ok]
  | cons input rest ih =>
    rw [CacheKey.inputComponents, succeeds_bind_iff, List.forall_mem_cons, ← ih]
    constructor
    · rintro ⟨digest, hdigest, hrest⟩
      obtain ⟨components, hcomponents, -⟩ := succeeds_bind_iff.1 hrest
      exact ⟨⟨digest, hdigest⟩, ⟨components, hcomponents⟩⟩
    · rintro ⟨⟨digest, hdigest⟩, ⟨components, hcomponents⟩⟩
      exact ⟨digest, hdigest, succeeds_bind_iff.2 ⟨components, hcomponents, succeeds_ok _⟩⟩

theorem compilerComponents_succeeds_iff :
    Succeeds (CacheKey.compilerComponents host options .astJson) ↔
      Succeeds (host.resolveExecutable options.clangExecutable) := by
  unfold CacheKey.compilerComponents
  rw [succeeds_bind_iff]
  constructor
  · rintro ⟨compiler, hcompiler, -⟩
    exact ⟨compiler, hcompiler⟩
  · rintro ⟨compiler, hcompiler⟩
    refine ⟨compiler, hcompiler, ?_⟩
    cases compiler <;> exact succeeds_ok _

theorem translationUnitCacheKey_ok_iff {command : CompileCommand} :
    Succeeds (translationUnitCacheKey host command options .astJson) ↔
      Succeeds (host.resolveExecutable options.clangExecutable) ∧
        ∀ input ∈ command.commandInputs, Succeeds (host.sha256File input) := by
  unfold translationUnitCacheKey CacheKey.components
  rw [succeeds_map_iff, succeeds_bind_iff, ← inputComponents_succeeds_iff, ← compilerComponents_succeeds_iff]
  constructor
  · rintro ⟨compiler, hcompiler, hrest⟩
    obtain ⟨inputs, hinputs, -⟩ := succeeds_bind_iff.1 hrest
    exact ⟨⟨compiler, hcompiler⟩, ⟨inputs, hinputs⟩⟩
  · rintro ⟨⟨compiler, hcompiler⟩, ⟨inputs, hinputs⟩⟩
    exact ⟨compiler, hcompiler, succeeds_bind_iff.2 ⟨inputs, hinputs, succeeds_ok _⟩⟩

end Succeeds

end CxxDead
