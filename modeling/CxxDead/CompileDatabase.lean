import CxxDead.Artifact
import CxxDead.Lib.Sorting
/-!
# Compilation commands

Normalizing a compilation command: launchers and output options are dropped,
response files are expanded, and the source becomes the last argument.

- `NormalizedCommand`: a normalized command names a compiler first and its source last.
-/

namespace CxxDead

open Lib

structure CompileCommand where
  directory : Path := {}
  file : Path := {}
  arguments : List Bytes := []
  output : Path := {}
  commandInputs : List Path := []
deriving DecidableEq

/-- What opening, measuring and reading a response file finds. -/
inductive ResponseFile where
  | cannotOpen | cannotInspect
  | cannotRead (size : Nat)
  | text (size : Nat) (contents : Bytes)

inductive CommandInput where
  | irregular | unreadable | readable
deriving DecidableEq

/-- What the file system says while a command is normalized. -/
structure Disk where
  currentPath : Except Exception Path
  responseFile : Path → ResponseFile
  commandInput : Path → CommandInput

/-- `std::filesystem::absolute`. -/
def Disk.absolute (disk : Disk) (path : Path) : Except Exception Path := path.absolute disk.currentPath

/-- The order of paths: relative ones first, then name by name. -/
def pathOrder (path : Path) : Bool ×ₗ List Bytes := toLex (path.isAbsolute, Path.names path.text)

/-- Sorted, and only the first of several equal paths. -/
def sortPaths (paths : List Path) : List Path := uniqueOn Path.components (sortOn pathOrder paths)

def maxResponseDepth : Nat := 16
def maxResponseBytes : Nat := 16 * 1024 * 1024

/-! ## Compilers -/

/-- What stands before and after the last `c`. -/
def splitLast (c : UInt8) : Bytes → Option (Bytes × Bytes)
  | [] => none
  | x :: rest =>
    match splitLast c rest with
    | some (front, back) => some (x :: front, back)
    | none => if x = c then some ([], rest) else none

def executableName (argument : Bytes) : Bytes := (Path.names argument).getLast?.getD []

def isLauncher (argument : Bytes) : Bool :=
  [lit "ccache", lit "sccache", lit "distcc", lit "icecc"].contains (executableName argument)

def versionSuffix (suffix : Bytes) : Bool :=
  !suffix.isEmpty && suffix.all fun c => (ch '0' ≤ c && c ≤ ch '9') || c == ch '.'

def drivers : List Bytes := [lit "clang++", lit "clang", lit "g++", lit "gcc", lit "c++", lit "cc"]

def isCompiler (argument : Bytes) : Bool :=
  let full := executableName argument
  let name := match splitLast (ch '-') full with
    | some (front, suffix) => if versionSuffix suffix then front else full
    | none => full
  drivers.any fun driver => name == driver ||
    (decide (name.length > driver.length) && driver.isSuffixOf name &&
      name[name.length - driver.length - 1]? == some (ch '-'))

def normalizedPath (disk : Disk) (value : Bytes) (directory : Path) : Except Exception Path := do
  let path : Path := ⟨value⟩
  let path ← disk.absolute (if path.isAbsolute then path else directory.append path)
  pure path.lexicallyNormal

/-! ## Shell words -/

inductive Quote where
  | none | single | double
deriving DecidableEq

structure ShellWords where
  quote : Quote := .none
  escaped : Bool := false
  tokenStarted : Bool := false
  token : Bytes := []
  result : List Bytes := []

namespace ShellWords

def flush (s : ShellWords) : ShellWords :=
  if s.tokenStarted then { s with result := s.result ++ [s.token], token := [], tokenStarted := false } else s

def push (s : ShellWords) (c : UInt8) : ShellWords := { s with token := s.token ++ [c], tokenStarted := true }

def step (s : ShellWords) (c : UInt8) : ShellWords :=
  if s.escaped then { s.push c with escaped := false }
  else
    match s.quote with
    | .single => if c = ch '\'' then { s with quote := .none, tokenStarted := true } else s.push c
    | .double =>
      if c = ch '"' then { s with quote := .none, tokenStarted := true }
      else if c = ch '\\' then { s with escaped := true, tokenStarted := true }
      else s.push c
    | .none =>
      if c = ch '\\' then { s with escaped := true, tokenStarted := true }
      else if c = ch '\'' then { s with quote := .single, tokenStarted := true }
      else if c = ch '"' then { s with quote := .double, tokenStarted := true }
      else if c = ch ' ' ∨ c = 9 ∨ c = 10 ∨ c = 13 then s.flush
      else s.push c

end ShellWords

def splitShellCommand (command : Bytes) : Except Exception (List Bytes) :=
  let s := command.foldl ShellWords.step {}
  if s.escaped = true ∨ s.quote ≠ .none then
    .error (.runtimeError (lit "unterminated quote or escape in compilation command"))
  else .ok s.flush.result

example : splitShellCommand (lit "g++ 'a b' -DX=\"y z\" a\\ b.cpp") =
    .ok [lit "g++", lit "a b", lit "-DX=y z", lit "a b.cpp"] := by rfl

/-! ## Response files -/

structure ResponseExpansion where
  bytes : Nat := 0
  active : List Bytes := []
  inputs : List Path := []
  output : List Bytes := []

abbrev ExpansionM := EStateM Exception ResponseExpansion

def readResponseFile (disk : Disk) (path : Path) (expansion : ResponseExpansion) : Except Exception Bytes :=
  let left := maxResponseBytes - min expansion.bytes maxResponseBytes
  let exceeds := Exception.runtimeError (lit "response-file contents exceed 16 MiB")
  match disk.responseFile path with
  | .cannotOpen => .error (.runtimeError (lit "cannot open response file: " ++ path.text))
  | .cannotInspect => .error (.runtimeError (lit "cannot inspect response file: " ++ path.text))
  | .cannotRead size =>
    if size > left then .error exceeds
    else .error (.runtimeError (lit "cannot read response file: " ++ path.text))
  | .text size contents => if size > left ∨ contents.length > left then .error exceeds else .ok contents

def emitArgument (argument : Bytes) : ExpansionM Unit :=
  modify fun expansion => { expansion with output := expansion.output ++ [argument] }

def isResponse (argument : Bytes) : Bool := argument.head? == some (ch '@') && argument.length != 1

/-- The words of a response file, which is active from now on. -/
def openResponseFile (disk : Disk) (directory : Path) (argument : Bytes) : ExpansionM (List Bytes) := fun expansion =>
  let step : Except Exception (ResponseExpansion × List Bytes) := do
    let path ← normalizedPath disk argument.tail directory
    if expansion.active.contains path.genericString then
      throw (.runtimeError (lit "cyclic response file: " ++ path.text))
    let text ← readResponseFile disk path expansion
    match splitShellCommand text with
    | .error e => throw (.runtimeError (lit "invalid response file " ++ path.text ++ lit ": " ++ Artifact.what e))
    | .ok arguments =>
      pure ({ expansion with
              bytes := expansion.bytes + text.length
              active := path.genericString :: expansion.active
              inputs := expansion.inputs ++ [path] }, arguments)
  match step with
  | .error e => .error e expansion
  | .ok (expansion', arguments) => .ok arguments expansion'

/-- `levels` is how much deeper response files may nest. -/
def expandResponseArgument (disk : Disk) (directory : Path) : Nat → Bytes → ExpansionM Unit
  | 0, argument =>
    if isResponse argument then throw (.runtimeError (lit "response-file nesting exceeds 16 levels"))
    else emitArgument argument
  | levels + 1, argument =>
    if isResponse argument then do
      let active := (← get).active
      let arguments ← openResponseFile disk directory argument
      arguments.forM (expandResponseArgument disk directory levels)
      modify fun expansion => { expansion with active }
    else emitArgument argument

/-! ## Arguments -/

def isSourceArgument (disk : Disk) (argument : Bytes) (command : CompileCommand) : Except Exception Bool :=
  if argument.isEmpty || argument.head? == some (ch '-') then .ok false
  else (normalizedPath disk argument command.directory).map fun path => path.same command.file

def flagsWithValue : List Bytes :=
  [lit "-o", lit "--output", lit "-MF", lit "-MT", lit "-MQ", lit "-MJ", lit "--serialize-diagnostics",
   lit "-dependency-file", lit "-fmodule-output"]

def removedFlags : List Bytes :=
  [lit "-c", lit "-S", lit "-E", lit "-MD", lit "-MMD", lit "-MP", lit "-MG", lit "-MM", lit "-M", lit "-emit-llvm"]

def joinedOutputOptions : List Bytes :=
  [lit "--output=", lit "-MF", lit "-MT", lit "-MQ", lit "-MJ", lit "--serialize-diagnostics=",
   lit "-dependency-file=", lit "-fmodule-output="]

def isOutputOption (argument : Bytes) : Bool :=
  removedFlags.contains argument ||
    joinedOutputOptions.any (fun option => option.isPrefixOf argument && decide (argument.length > option.length)) ||
    ((lit "-o").isPrefixOf argument && decide (argument.length > 2))

/-- How many arguments after `-Xclang` are dropped with it: one that names an output, and then
`-Xclang` with the name of the file if two more arguments follow. -/
def droppedAfterXclang : List Bytes → Nat
  | option :: rest =>
    if option = lit "-dependency-file" ∨ option = lit "-serialize-diagnostic-file" then
      match rest with
      | next :: _ :: _ => if next = lit "-Xclang" then 3 else 1
      | _ => 1
    else 0
  | [] => 0

/-- The arguments that are kept, the first `skip` ones left out. -/
def keptArguments (disk : Disk) (command : CompileCommand) : Nat → List Bytes → Except Exception (List Bytes)
  | _, [] => .ok []
  | skip + 1, _ :: rest => keptArguments disk command skip rest
  | 0, argument :: rest =>
    if flagsWithValue.contains argument then
      if rest.isEmpty then .error (.runtimeError (lit "compilation flag " ++ argument ++ lit " requires a value"))
      else keptArguments disk command 1 rest
    else if isOutputOption argument then keptArguments disk command 0 rest
    else if argument = lit "-Xclang" ∧ droppedAfterXclang rest ≠ 0 then
      keptArguments disk command (droppedAfterXclang rest) rest
    else if (lit "-Wp,-MD,").isPrefixOf argument || (lit "-Wp,-MMD,").isPrefixOf argument then
      keptArguments disk command 0 rest
    else do
      if ← isSourceArgument disk argument command then keptArguments disk command 0 rest
      else pure (argument :: (← keptArguments disk command 0 rest))

/-! ## Command inputs -/

def separateOptions : List Bytes := [lit "-include-pch", lit "-fmodule-file", lit "-fmodule-map-file"]

def joinedValue (argument option : Bytes) : Option Bytes :=
  if option.isPrefixOf argument && argument[option.length]? == some (ch '=') then
    some (argument.drop (option.length + 1))
  else none

/-- The path of a module file whose value may name the module first. -/
def withoutModuleName (value : Bytes) : Bytes :=
  let name := value.takeWhile (· != ch '=')
  if name.length < value.length ∧ name ≠ [] ∧ ch '/' ∉ name ∧ ch '\\' ∉ name then value.drop (name.length + 1) else value

def commandInputPath (disk : Disk) (value option : Bytes) (command : CompileCommand) : Except Exception Path := do
  let value := if option = lit "-fmodule-file" then withoutModuleName value else value
  if value.isEmpty then throw (.runtimeError (option ++ lit " requires a non-empty path"))
  let path ← normalizedPath disk value command.directory
  match disk.commandInput path with
  | .irregular =>
    throw (.runtimeError (lit "command input for " ++ option ++ lit " is not a readable regular file: " ++ path.text))
  | .unreadable => throw (.runtimeError (lit "cannot read command input for " ++ option ++ lit ": " ++ path.text))
  | .readable => pure path

def collectCommandInputs (disk : Disk) (command : CompileCommand) : List Bytes → Except Exception (List Path)
  | [] => .ok []
  | argument :: rest =>
    match separateOptions.find? fun option => argument == option || (joinedValue argument option).isSome with
    | none => collectCommandInputs disk command rest
    | some option =>
      match joinedValue argument option with
      | some value => do
        let path ← commandInputPath disk value option command
        pure (path :: (← collectCommandInputs disk command rest))
      | none =>
        match rest with
        | [] => .error (.runtimeError (option ++ lit " requires a path"))
        | value :: rest => do
          let path ← commandInputPath disk value option command
          pure (path :: (← collectCommandInputs disk command rest))

/-! ## Normalization -/

/-- The compiler comes first and the source last. -/
structure NormalizedCommand extends CompileCommand where
  source_last : arguments.getLast? = some file.text
  compiler_first : 2 ≤ arguments.length

def resolvePaths (disk : Disk) (command : CompileCommand) : Except Exception CompileCommand := do
  let directory := (← disk.absolute command.directory).lexicallyNormal
  let file ← disk.absolute (if command.file.isAbsolute then command.file else directory.append command.file)
  let output ←
    if command.output.isEmpty then pure command.output
    else do
      let output ← disk.absolute (if command.output.isAbsolute then command.output else directory.append command.output)
      pure output.lexicallyNormal
  pure { command with directory, file := file.lexicallyNormal, output }

def normalizeCompileCommand (disk : Disk) (command : CompileCommand) : Except Exception NormalizedCommand := do
  if command.arguments.isEmpty then throw (.runtimeError (lit "empty compilation command for " ++ command.file.text))
  let resolved ← resolvePaths disk command
  let unsupported := fun argument : Bytes => Exception.runtimeError
    (lit "unsupported compiler or launcher command '" ++ argument ++ lit "' for " ++ resolved.file.text)
  match resolved.arguments.dropWhile isLauncher with
  | [] => throw (unsupported (resolved.arguments.head?.getD []))
  | compiler :: rest =>
    if !isCompiler compiler then throw (unsupported compiler)
    match rest.forM (expandResponseArgument disk resolved.directory maxResponseDepth) {} with
    | .error e _ => throw e
    | .ok _ expansion =>
      let kept ← keptArguments disk resolved 0 expansion.output
      let inputs ← collectCommandInputs disk resolved (compiler :: kept)
      pure {
        directory := resolved.directory
        file := resolved.file
        arguments := (compiler :: kept) ++ [resolved.file.text]
        output := resolved.output
        commandInputs := sortPaths (expansion.inputs ++ inputs)
        source_last := List.getLast?_concat
        compiler_first := by simp }

end CxxDead
