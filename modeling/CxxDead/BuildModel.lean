import CxxDead.CompileDatabase
import CxxDead.Lib.DepthFirst
/-!
# Build targets

Choosing the compilation commands of a target and of the targets that it depends on.

- `selectTargetCommands`: the commands of a target's closure, and what is reported about them.
-/

namespace CxxDead

open Lib

inductive BuildTargetKind where
  | executable | staticLibrary | sharedLibrary | moduleLibrary | objectLibrary | interfaceLibrary | utility
deriving DecidableEq, Repr

structure BuildTarget where
  id : Bytes := []
  name : Bytes := []
  kind : BuildTargetKind := .utility
  sources : List Path := []
  dependencies : List Bytes := []
  publicHeaders : List Path := []
deriving DecidableEq

structure BuildConfiguration where
  name : Bytes := []
  targets : List BuildTarget := []

structure BuildModel where
  configurations : List BuildConfiguration := []

structure TargetAnalysisContext where
  configuration : Bytes := []
  targetId : Bytes := []
  targetName : Bytes := []
  targetKind : BuildTargetKind := .executable
  closureTargets : List Bytes := []
  selectedSources : List Path := []
  publicHeaders : List Path := []
deriving DecidableEq

structure TargetSelection where
  context : TargetAnalysisContext := {}
  commands : List CompileCommand := []
  diagnostics : List Bytes := []
deriving DecidableEq

/-! ## Selecting a configuration and a target -/

def selectConfiguration (model : BuildModel) (requested : Bytes) : Except Exception BuildConfiguration :=
  if requested ≠ [] then
    match model.configurations.find? (·.name == requested) with
    | some configuration => .ok configuration
    | none => .error (.runtimeError (lit "build configuration not found: " ++ requested))
  else
    match model.configurations with
    | [configuration] => .ok configuration
    | _ => .error (.runtimeError (lit "build metadata has multiple configurations; select one with --configuration"))

/-- The loop that looks for the only target with a property. -/
def onlyTarget (matching : BuildTarget → Bool) (several none : Bytes) (targets : List BuildTarget) :
    Except Exception BuildTarget := do
  let found ← targets.foldlM
    (fun found target =>
      if !matching target then pure found
      else if found.isSome then throw (.runtimeError several)
      else pure (some target)) (Option.none : Option BuildTarget)
  match found with
  | some target => pure target
  | .none => throw (.runtimeError none)

def selectTarget (configuration : BuildConfiguration) (requested : Bytes) : Except Exception BuildTarget :=
  if requested ≠ [] then
    onlyTarget (fun target => target.name == requested || target.id == requested)
      (lit "target name is ambiguous; select by target id: " ++ requested)
      (lit "build target not found: " ++ requested) configuration.targets
  else
    onlyTarget (fun target => target.kind == .executable)
      (lit "build metadata has multiple executable targets; select one with --target")
      (lit "build metadata has no executable target; select a library with --target and provide an explicit --root")
      configuration.targets

/-- `by_id`. -/
def indexTargets (targets : List BuildTarget) : Except Exception (List (Bytes × BuildTarget)) :=
  targets.foldlM
    (fun index target =>
      if (index.lookup target.id).isSome then
        throw (.runtimeError (lit "duplicate target id in build configuration: " ++ target.id))
      else pure (index ++ [(target.id, target)])) []

/-! ## The closure of dependencies -/

def missingDependency (target : BuildTarget) (dependencyId : Bytes) : Bytes :=
  lit "build metadata omits dependency target " ++ dependencyId ++ lit " referenced by " ++ target.name

/-- What a visit of a target does about each dependency: a diagnostic, or a visit. -/
def dependencySteps (byId : List (Bytes × BuildTarget)) (target : BuildTarget) : List (Bytes ⊕ BuildTarget) :=
  target.dependencies.map fun dependencyId =>
    match byId.lookup dependencyId with
    | some dependency => .inr dependency
    | none => .inl (missingDependency target dependencyId)

/-- `visit`, to a depth. -/
def visitTarget (byId : List (Bytes × BuildTarget)) (depth : Nat) (target : BuildTarget) :
    Option (DepthFirst.State BuildTarget Bytes Bytes) :=
  DepthFirst.visit (·.id) (dependencySteps byId) depth target {}

def staticLibraryNote (target : BuildTarget) : Bytes :=
  lit "static-library target " ++ target.name ++
    lit " is analyzed with all translation units present; archive-member extraction is not modeled"

/-! ## Choosing commands -/

/-- What follows the first place of `marker` in a text. -/
def afterFirst (marker : Bytes) : Bytes → Option Bytes
  | [] => if marker = [] then some [] else none
  | c :: text => if marker <+: c :: text then some ((c :: text).drop marker.length) else afterFirst marker text

/-- The part of the output's path behind the target's directory. -/
def outputInTarget (command : CompileCommand) (targetName : Bytes) : Option Bytes :=
  afterFirst (lit "/CMakeFiles/" ++ targetName ++ lit ".dir/") (ch '/' :: command.output.genericString)

def commandMatchesTarget (command : CompileCommand) (targetName : Bytes) : Bool :=
  !command.output.isEmpty && (outputInTarget command targetName).isSome

def commandMatchesConfiguration (command : CompileCommand) (targetName configuration : Bytes) : Bool :=
  if configuration.isEmpty || command.output.isEmpty then false
  else
    match outputInTarget command targetName with
    | none => false
    | some suffix => (configuration ++ [ch '/']).isPrefixOf suffix

def equivalentCommands (left right : CompileCommand) : Bool :=
  left.directory.same right.directory && left.file.same right.file && left.arguments == right.arguments

def commandAt (commands : List CompileCommand) (index : Nat) : CompileCommand := commands.getD index {}

def candidateCommands (commands : List CompileCommand) (source : Path) : List Nat :=
  (List.range commands.length).filter fun i => (commandAt commands i).file.same source

def ownedCommands (commands : List CompileCommand) (targetName : Bytes) (source : Path) : List Nat :=
  (candidateCommands commands source).filter fun i => commandMatchesTarget (commandAt commands i) targetName

def configuredCommands (commands : List CompileCommand) (configuration targetName : Bytes) (source : Path) : List Nat :=
  (ownedCommands commands targetName source).filter fun i =>
    commandMatchesConfiguration (commandAt commands i) targetName configuration

def usableCommands (commands : List CompileCommand) (configuration targetName : Bytes) (source : Path) : List Nat :=
  if configuredCommands commands configuration targetName source ≠ [] then
    configuredCommands commands configuration targetName source
  else if ownedCommands commands targetName source = [] then candidateCommands commands source
  else ownedCommands commands targetName source

def chooseCommand (commands : List CompileCommand) (configuration targetName : Bytes) (source : Path) :
    Except Exception Nat :=
  match usableCommands commands configuration targetName source with
  | [] =>
    .error (.runtimeError (lit "no compilation command for target source " ++ source.text ++ lit " in " ++ targetName))
  | first :: rest =>
    if rest ≠ [] ∧
        ((first :: rest).all fun i => equivalentCommands (commandAt commands first) (commandAt commands i)) = false then
      .error (.runtimeError
        (lit "ambiguous compilation commands for target source " ++ source.text ++ lit " in " ++ targetName))
    else .ok first

/-- Its sources are compiled. -/
def isCompiled (target : BuildTarget) : Bool := target.kind != .utility && target.kind != .interfaceLibrary

/-- `selected_indexes`, in order. -/
def selectedIndexes (commands : List CompileCommand) (configuration : Bytes) (closure : List BuildTarget) :
    Except Exception (List Nat) := do
  let chosen ← (closure.filter isCompiled).mapM fun target =>
    target.sources.mapM fun source => chooseCommand commands configuration target.name source
  pure (sortUnique chosen.flatten)

/-- What is returned for the targets and commands found. -/
def targetSelection (configuration : BuildConfiguration) (selected : BuildTarget) (closure : List BuildTarget)
    (diagnostics : List Bytes) (commands : List CompileCommand) : TargetSelection :=
  { context :=
      { configuration := configuration.name
        targetId := selected.id
        targetName := selected.name
        targetKind := selected.kind
        closureTargets := closure.map (·.name)
        selectedSources := selected.sources
        publicHeaders := selected.publicHeaders }
    commands
    diagnostics := sortOn id (diagnostics ++ (closure.filter (·.kind = .staticLibrary)).map staticLibraryNote) }

/-- The part of `select_target_commands` behind the selection of the target. -/
def selectClosureCommands (configuration : BuildConfiguration) (selected : BuildTarget) (commands : List CompileCommand) :
    Except Exception TargetSelection := do
  let byId ← indexTargets configuration.targets
  match visitTarget byId (configuration.targets.length + 1) selected with
  -- the depth is enough: `visitTarget_returns`
  | none => throw (.runtimeError (lit "recursion limit"))
  | some visited =>
    let closure := sortOn (·.name) visited.order
    let indexes ← selectedIndexes commands configuration.name closure
    if indexes.map (commandAt commands) = [] ∧ selected.kind ≠ .interfaceLibrary then
      throw (.runtimeError (lit "selected target closure contains no C++ compilation commands"))
    else
      pure (targetSelection configuration selected closure visited.notes (indexes.map (commandAt commands)))

def selectTargetCommands (model : BuildModel) (configurationName targetName : Bytes) (commands : List CompileCommand) :
    Except Exception TargetSelection := do
  let configuration ← selectConfiguration model configurationName
  let selected ← selectTarget configuration targetName
  if selected.kind = .utility then throw (.runtimeError (lit "utility targets cannot be analyzed: " ++ selected.name))
  else selectClosureCommands configuration selected commands

end CxxDead
