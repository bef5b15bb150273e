import CxxDead.Graph
import CxxDead.Json
/-!
# Graph artifacts

The document that stores a graph with its metadata and diagnostics, and the
reader that checks every field of it.
-/

namespace CxxDead

open Lib

inductive IndexFrontend where
  | astJson | libTooling
deriving DecidableEq, Repr

structure GraphArtifactMetadata where
  configurationId : Bytes := lit "default"
  configuration : Bytes := []
  targetId : Bytes := []
  targetName : Bytes := []
  targetKind : Bytes := []
  closureTargets : List Bytes := []
  frontend : IndexFrontend := .astJson
  translationUnits : UInt64 := 0
deriving DecidableEq

structure GraphArtifact where
  graph : Graph := {}
  metadata : GraphArtifactMetadata := {}
  diagnostics : List Bytes := []
deriving DecidableEq

def graphArtifactSchemaVersion : Nat := 7
def symbolIdentitySchemaVersion : Nat := 1

/-! ## The enumerations as text -/

def SymbolKind.toText : SymbolKind → Bytes
  | .function => lit "function" | .method => lit "method" | .constructor => lit "constructor"
  | .destructor => lit "destructor" | .synthetic => lit "synthetic"

def SymbolScope.toText : SymbolScope → Bytes
  | .reportable => lit "reportable" | .indexed => lit "indexed" | .externalOpaque => lit "external_opaque"
  | .excluded => lit "excluded"

def EdgeKind.toText : EdgeKind → Bytes
  | .directCall => lit "direct_call" | .constructs => lit "constructs" | .virtualDispatch => lit "virtual_dispatch"
  | .callbackRegistration => lit "callback_registration" | .provider => lit "provider"

def RootKind.toText : RootKind → Bytes
  | .applicationEntryPoint => lit "application_entry_point" | .globalInitializer => lit "global_initializer"
  | .manual => lit "manual" | .callbackRegistration => lit "callback_registration" | .provider => lit "provider"
  | .publicApi => lit "public_api"

def EscapeKind.toText : EscapeKind → Bytes
  | .addressTaken => lit "address_taken" | .callableObject => lit "callable_object" | .provider => lit "provider"

def IdentityQuality.toText : IdentityQuality → Bytes
  | .stable => lit "stable" | .fallback => lit "fallback"

def IndexFrontend.toText : IndexFrontend → Bytes
  | .astJson => lit "ast-json" | .libTooling => lit "libtooling"

namespace Artifact

open Json

/-! ## Layout -/

def member (m : String × Bytes) : Bytes := quoted (lit m.1) ++ lit ": " ++ m.2

/-- An object on one line. -/
def inlineObject (members : List (String × Bytes)) : Bytes :=
  lit "\x7b" ++ (lit ", ").intercalate (members.map member) ++ lit "\x7d"

/-- An object with one member on each line. -/
def blockObject (indent : String) (members : List (String × Bytes)) : Bytes :=
  lit "\x7b\n" ++ (lit ",\n").intercalate (members.map fun m => lit indent ++ lit "  " ++ member m) ++
    lit "\n" ++ lit indent ++ lit "\x7d"

/-- An array on one line. -/
def inlineArray (items : List Bytes) : Bytes := lit "[" ++ (lit ", ").intercalate items ++ lit "]"

/-- An array with one item on each line. -/
def blockArray (items : List Bytes) : Bytes :=
  lit "[" ++ (if items = [] then [] else
    lit "\n" ++ (lit ",\n").intercalate (items.map (lit "    " ++ ·)) ++ lit "\n") ++ lit "  ]"

def boolText (b : Bool) : Bytes := if b then lit "true" else lit "false"

def writeNullableString (value : Bytes) : Bytes := if value = [] then lit "null" else quoted value

/-! ## Writing -/

def writeSourcePoint (point : SourcePoint) : Bytes := inlineObject [
  ("file", quoted point.file.genericString), ("line", decimal point.line.toNat),
  ("column", decimal point.column.toNat), ("offset", decimal point.offset.toNat),
  ("token_length", decimal point.tokenLength.toNat)]

def writeSourceExtent (extent : SourceExtent) : Bytes := inlineObject [
  ("location", writeSourcePoint extent.location),
  ("range", inlineObject [("begin", writeSourcePoint extent.begin), ("end", writeSourcePoint extent.end)])]

def writeSource (source : SymbolSource) : Bytes := inlineObject [
  ("spelling", writeSourceExtent source.spelling),
  ("expansion", match source.expansion with
    | some extent => writeSourceExtent extent
    | none => lit "null")]

def writeEvidence (evidence : Evidence) : Bytes := inlineObject [
  ("provider", quoted evidence.provider), ("reason", quoted evidence.reason)]

def writeIdentity (identity : SymbolIdentity) : Bytes := inlineObject [
  ("quality", quoted identity.quality.toText), ("configuration_id", quoted identity.configurationId),
  ("usr", quoted identity.usr), ("linkage_name", quoted identity.linkageName),
  ("translation_unit", quoted identity.translationUnit), ("fallback_anchor", quoted identity.fallbackAnchor)]

def writeSymbol (symbol : Symbol) : Bytes := blockObject "    " [
  ("id", quoted symbol.key), ("identity", writeIdentity symbol.identity), ("name", quoted symbol.name),
  ("qualified_name", quoted symbol.qualifiedName), ("class_name", quoted symbol.className),
  ("signature", quoted symbol.signature), ("kind", quoted symbol.kind.toText),
  ("scope", quoted symbol.scope.toText), ("defined", boolText symbol.defined),
  ("internal_linkage", boolText symbol.internalLinkage), ("virtual", boolText symbol.isVirtual),
  ("source", writeSource symbol.source)]

def writeEdge (g : Graph) (edge : Edge) : Bytes := inlineObject [
  ("from", quoted (g.symbol edge.from).key), ("to", quoted (g.symbol edge.to).key),
  ("kind", quoted edge.kind.toText), ("evidence", writeEvidence edge.evidence)]

def writeRoot (g : Graph) (root : Root) : Bytes := inlineObject [
  ("symbol", quoted (g.symbol root.symbol).key), ("kind", quoted root.kind.toText),
  ("evidence", writeEvidence root.evidence)]

def writeEscape (g : Graph) (escape : Escape) : Bytes := inlineObject [
  ("symbol", quoted (g.symbol escape.symbol).key),
  ("from", match escape.from with
    | some id => quoted (g.symbol id).key
    | none => lit "null"),
  ("kind", quoted escape.kind.toText), ("evidence", writeEvidence escape.evidence)]

def writeSuppression (g : Graph) (suppression : Suppression) : Bytes := inlineObject [
  ("symbol", quoted (g.symbol suppression.symbol).key), ("evidence", writeEvidence suppression.evidence)]

def writeContext (metadata : GraphArtifactMetadata) : Bytes := inlineObject [
  ("configuration", quoted metadata.configuration), ("target_id", writeNullableString metadata.targetId),
  ("target_name", writeNullableString metadata.targetName), ("target_kind", writeNullableString metadata.targetKind),
  ("closure_targets", inlineArray (metadata.closureTargets.map quoted))]

/-! ### The order of the facts -/

def symbolsByKey (g : Graph) : List Symbol :=
  (sortOn (fun id => (g.symbol id).key) (List.range g.symbols.length)).map g.symbol

def edgesByKey (g : Graph) : List Edge :=
  sortOn (fun e => toLex ((g.symbol e.from).key, toLex ((g.symbol e.to).key,
    toLex (e.kind.code, Graph.evidenceOrder e.evidence)))) g.edges

def rootsByKey (g : Graph) : List Root :=
  sortOn (fun r => toLex ((g.symbol r.symbol).key, toLex (r.kind.code, Graph.evidenceOrder r.evidence))) g.roots

/-- An absent origin sorts as an empty key. -/
def escapesByKey (g : Graph) : List Escape :=
  sortOn (fun e => toLex ((g.symbol e.symbol).key,
    toLex ((e.from.map fun id => (g.symbol id).key).getD [],
      toLex (e.kind.code, Graph.evidenceOrder e.evidence)))) g.escapes

def suppressionsByKey (g : Graph) : List Suppression :=
  sortOn (fun s => toLex ((g.symbol s.symbol).key, Graph.evidenceOrder s.evidence)) g.suppressions

/-- The document, once the configuration has been checked. -/
def writeDocument (g : Graph) (metadata : GraphArtifactMetadata) (diagnostics : List Bytes) : Bytes :=
  blockObject "" [
    ("artifact_schema_version", decimal graphArtifactSchemaVersion),
    ("identity_schema_version", decimal symbolIdentitySchemaVersion),
    ("configuration_id", quoted metadata.configurationId), ("analysis_context", writeContext metadata),
    ("frontend", quoted metadata.frontend.toText),
    ("translation_units", decimal metadata.translationUnits.toNat),
    ("symbols", blockArray ((symbolsByKey g).map writeSymbol)),
    ("edges", blockArray ((edgesByKey g).map (writeEdge g))),
    ("roots", blockArray ((rootsByKey g).map (writeRoot g))),
    ("escapes", blockArray ((escapesByKey g).map (writeEscape g))),
    ("suppressions", blockArray ((suppressionsByKey g).map (writeSuppression g))),
    ("diagnostics", blockArray ((sortUnique diagnostics).map quoted))] ++ lit "\n"

def writeGraphArtifact (g : Graph) (metadata : GraphArtifactMetadata) (diagnostics : List Bytes) :
    Except Exception Bytes :=
  if metadata.configurationId = [] then
    .error (.invalidArgument (lit "graph artifact configuration identity cannot be empty"))
  else
    match g.symbols.find? (fun symbol => symbol.identity.configurationId != metadata.configurationId) with
    | some symbol => .error (.invalidArgument
        (lit "graph artifact configuration does not match symbol identity: " ++ symbol.key))
    | none => .ok (writeDocument g metadata diagnostics)

/-! ## Checked access -/

abbrev ReadM := Except Exception

def invalidArtifact {α : Type} (context message : Bytes) : ReadM α :=
  .error (.runtimeError (lit "invalid graph artifact " ++ context ++ lit ": " ++ message))

/-- A message about a key. -/
def aboutKey (before : String) (key : Bytes) (after : String) : Bytes := lit before ++ lit "'" ++ key ++ lit after

def requireObject (value : Value) (context : Bytes) : ReadM (List (Bytes × Value)) :=
  match value with
  | .object members => .ok members
  | _ => invalidArtifact context (lit "must be an object")

def requireKeys (value : Value) (required : List String) (context : Bytes) : ReadM Unit := do
  let members ← requireObject value context
  match (required.map lit).find? (fun key => (members.lookup key).isNone) with
  | some key => invalidArtifact context (aboutKey "requires " key "'")
  | none =>
    match members.find? (fun m => !(required.map lit).contains m.1) with
    | some m => invalidArtifact context (aboutKey "contains unknown key " m.1 "'")
    | none => pure ()

def requireValue (value : Value) (key : String) (context : Bytes) : ReadM Value := do
  let members ← requireObject value context
  match members.lookup (lit key) with
  | some field => pure field
  | none => invalidArtifact context (aboutKey "requires " (lit key) "'")

def requireString (value : Value) (key : String) (context : Bytes) (allowEmpty : Bool := true) : ReadM Bytes := do
  match ← requireValue value key context with
  | .string s =>
    if !allowEmpty && s.isEmpty then invalidArtifact context (aboutKey "" (lit key) "' cannot be empty") else pure s
  | _ => invalidArtifact context (aboutKey "" (lit key) "' must be a string")

def nullableString (value : Value) (key : String) (context : Bytes) : ReadM Bytes := do
  let message := aboutKey "" (lit key) "' must be null or a non-empty string"
  match ← requireValue value key context with
  | .null => pure []
  | .string s => if s.isEmpty then invalidArtifact context message else pure s
  | _ => invalidArtifact context message

def requireBool (value : Value) (key : String) (context : Bytes) : ReadM Bool := do
  match ← requireValue value key context with
  | .bool b => pure b
  | _ => invalidArtifact context (aboutKey "" (lit key) "' must be a boolean")

def largestExactJsonInteger : Nat := 9007199254740991

def requireSize (value : Value) (key : String) (context : Bytes) : ReadM UInt64 := do
  let message := aboutKey "" (lit key) "' must be a non-negative integer"
  match ← requireValue value key context with
  | .number x =>
    if x < 0 ∨ (x.floor : ℚ) ≠ x ∨ x > largestExactJsonInteger then invalidArtifact context message
    else pure x.floor.toNat.toUInt64
  | _ => invalidArtifact context message

def requireArray (value : Value) (key : String) (context : Bytes) : ReadM (List Value) := do
  match ← requireValue value key context with
  | .array items => pure items
  | _ => invalidArtifact context (aboutKey "" (lit key) "' must be an array")

def parseEnum {α : Type} (value : Bytes) (map : List (String × α)) (context : Bytes) : ReadM α :=
  match map.find? (fun item => lit item.1 == value) with
  | some item => .ok item.2
  | none => invalidArtifact context (aboutKey "contains unsupported value " value "'")

/-! ## Reading the parts -/

def parseSourcePoint (value : Value) (context : Bytes) : ReadM SourcePoint := do
  requireKeys value ["file", "line", "column", "offset", "token_length"] context
  let file ← requireString value "file" context
  let line ← requireSize value "line" context
  let column ← requireSize value "column" context
  let offset ← requireSize value "offset" context
  let tokenLength ← requireSize value "token_length" context
  pure { file := ⟨file⟩, line, column, offset, tokenLength }

def parseSourceExtent (value : Value) (context : Bytes) : ReadM SourceExtent := do
  requireKeys value ["location", "range"] context
  let range ← requireValue value "range" context
  requireKeys range ["begin", "end"] (context ++ lit ".range")
  let location ← parseSourcePoint (← requireValue value "location" context) (context ++ lit ".location")
  let begin ← parseSourcePoint (← requireValue range "begin" context) (context ++ lit ".range.begin")
  let «end» ← parseSourcePoint (← requireValue range "end" context) (context ++ lit ".range.end")
  pure { location, begin, «end» }

def parseExpansion (value : Value) (context : Bytes) : ReadM (Option SourceExtent) :=
  match value with
  | .null => pure none
  | _ => some <$> parseSourceExtent value context

def parseSource (value : Value) (context : Bytes) : ReadM SymbolSource := do
  requireKeys value ["spelling", "expansion"] context
  let spelling ← parseSourceExtent (← requireValue value "spelling" context) (context ++ lit ".spelling")
  let expansion ← parseExpansion (← requireValue value "expansion" context) (context ++ lit ".expansion")
  pure { spelling, expansion }

def parseEvidence (value : Value) (context : Bytes) : ReadM Evidence := do
  requireKeys value ["provider", "reason"] context
  let provider ← requireString value "provider" context
  let reason ← requireString value "reason" context
  pure { provider, reason }

def parseFrontend (value context : Bytes) : ReadM IndexFrontend :=
  parseEnum value [("ast-json", .astJson), ("libtooling", .libTooling)] context

def parseIdentity (value : Value) (context : Bytes) : ReadM SymbolIdentity := do
  requireKeys value ["quality", "configuration_id", "usr", "linkage_name", "translation_unit", "fallback_anchor"]
    context
  let configurationId ← requireString value "configuration_id" context false
  let usr ← requireString value "usr" context
  let linkageName ← requireString value "linkage_name" context
  let translationUnit ← requireString value "translation_unit" context
  let fallbackAnchor ← requireString value "fallback_anchor" context
  let quality ← parseEnum (← requireString value "quality" context false)
    [("stable", .stable), ("fallback", .fallback)] (context ++ lit ".quality")
  pure { configurationId, usr, linkageName, translationUnit, fallbackAnchor, quality }

/-- The text of an exception. -/
def what : Exception → Bytes
  | .invalidArgument text | .outOfRange text | .runtimeError text => text

/-- The identity must be one that `makeSymbolIdentity` builds, and the key must be its own. -/
def checkIdentity (symbol : Symbol) (context : Bytes) : ReadM Symbol :=
  let identity := symbol.identity
  match makeSymbolIdentity identity.configurationId identity.usr identity.linkageName identity.translationUnit
      identity.fallbackAnchor with
  | .error e => invalidArtifact context (what e)
  | .ok validated =>
    if validated.quality ≠ identity.quality then
      invalidArtifact context (lit "identity quality does not match its identity fields")
    else if stableSymbolKey identity ≠ symbol.key then
      invalidArtifact context (lit "symbol id does not match its identity fields")
    else .ok symbol

def parseSymbol (value : Value) (context : Bytes) : ReadM Symbol := do
  requireKeys value ["id", "identity", "name", "qualified_name", "class_name", "signature", "kind", "scope", "defined",
    "internal_linkage", "virtual", "source"] context
  let identity ← parseIdentity (← requireValue value "identity" context) (context ++ lit ".identity")
  let key ← requireString value "id" context false
  let name ← requireString value "name" context
  let qualifiedName ← requireString value "qualified_name" context
  let className ← requireString value "class_name" context
  let signature ← requireString value "signature" context
  let source ← parseSource (← requireValue value "source" context) (context ++ lit ".source")
  let kind ← parseEnum (← requireString value "kind" context false)
    [("function", .function), ("method", .method), ("constructor", .constructor), ("destructor", .destructor),
      ("synthetic", .synthetic)] (context ++ lit ".kind")
  let scope ← parseEnum (← requireString value "scope" context false)
    [("reportable", .reportable), ("indexed", .indexed), ("external_opaque", .externalOpaque)]
    (context ++ lit ".scope")
  let defined ← requireBool value "defined" context
  let internalLinkage ← requireBool value "internal_linkage" context
  let isVirtual ← requireBool value "virtual" context
  checkIdentity
    { key, identity, name, qualifiedName, className, signature, source, kind, scope, defined, internalLinkage,
      isVirtual } context

/-! ## Reading the document -/

def targetKinds : List Bytes := [lit "executable", lit "static_library", lit "shared_library", lit "module_library",
  lit "object_library", lit "interface_library", lit "utility"]

def parseClosureTarget (value : Value) : ReadM Bytes :=
  let context := lit "analysis_context.closure_targets"
  let message := lit "entries must be non-empty strings"
  match value with
  | .string s => if s.isEmpty then invalidArtifact context message else .ok s
  | _ => invalidArtifact context message

/-- The target's fields appear together, and its kind is a known one. -/
def checkTarget (metadata : GraphArtifactMetadata) : ReadM Unit :=
  let fields := (!metadata.targetId.isEmpty).toNat + (!metadata.targetName.isEmpty).toNat +
    (!metadata.targetKind.isEmpty).toNat
  if fields ≠ 0 ∧ fields ≠ 3 then
    invalidArtifact (lit "analysis_context") (lit "target id, name, and kind must appear together")
  else if metadata.targetKind ≠ [] ∧ metadata.targetKind ∉ targetKinds then
    invalidArtifact (lit "analysis_context.target_kind") (lit "contains an unsupported target kind")
  else .ok ()

def parseMetadata (root : Value) : ReadM GraphArtifactMetadata := do
  let document := lit "document"
  let configurationId ← requireString root "configuration_id" document false
  let frontend ← parseFrontend (← requireString root "frontend" document false) (lit "document.frontend")
  let translationUnits ← requireSize root "translation_units" document
  let value ← requireValue root "analysis_context" document
  requireKeys value ["configuration", "target_id", "target_name", "target_kind", "closure_targets"]
    (lit "document.analysis_context")
  let context := lit "analysis_context"
  let configuration ← requireString value "configuration" context
  let targetId ← nullableString value "target_id" context
  let targetName ← nullableString value "target_name" context
  let targetKind ← nullableString value "target_kind" context
  let metadata : GraphArtifactMetadata :=
    { configurationId, configuration, targetId, targetName, targetKind, frontend, translationUnits }
  checkTarget metadata
  let closureTargets ← (← requireArray value "closure_targets" context).mapM parseClosureTarget
  pure { metadata with closureTargets }

/-- Run an operation on the graph that is being read. -/
def applyTo {α : Type} (g : Graph) (operation : GraphM α) : ReadM (α × Graph) :=
  match operation g with
  | .ok a g' => .ok (a, g')
  | .error e _ => .error e

/-- The context of an item of a list. -/
def itemContext (list : String) (index : Nat) : Bytes :=
  lit "document." ++ lit list ++ lit "[" ++ decimal index ++ lit "]"

/-- The graph that is being read, and the ids of its keys. -/
abbrev Loaded := Graph × List (Bytes × SymbolId)

def loadSymbol (configurationId : Bytes) (state : Loaded) (item : Value × Nat) : ReadM Loaded := do
  let context := itemContext "symbols" item.2
  let symbol ← parseSymbol item.1 context
  if symbol.identity.configurationId ≠ configurationId then
    invalidArtifact context (lit "configuration identity does not match the artifact")
  else if (state.2.lookup symbol.key).isSome then invalidArtifact context (lit "duplicate symbol id")
  else
    let (id, graph) ← applyTo state.1 (Graph.addOrMergeSymbol symbol)
    pure (graph, Graph.emplaceKey state.2 symbol.key id)

def symbolId (ids : List (Bytes × SymbolId)) (key context : Bytes) : ReadM SymbolId :=
  match ids.lookup key with
  | some id => .ok id
  | none => invalidArtifact context (aboutKey "references unknown symbol " key "'")

/-- The symbol that a member names. -/
def requireSymbol (ids : List (Bytes × SymbolId)) (item : Value) (key : String) (context : Bytes) :
    ReadM SymbolId := do
  symbolId ids (← requireString item key context false) (context ++ lit "." ++ lit key)

def requireEvidence (item : Value) (context : Bytes) : ReadM Evidence := do
  parseEvidence (← requireValue item "evidence" context) (context ++ lit ".evidence")

def loadEdge (ids : List (Bytes × SymbolId)) (g : Graph) (item : Value × Nat) : ReadM Graph := do
  let context := itemContext "edges" item.2
  requireKeys item.1 ["from", "to", "kind", "evidence"] context
  let «from» ← requireSymbol ids item.1 "from" context
  let «to» ← requireSymbol ids item.1 "to" context
  let kind ← parseEnum (← requireString item.1 "kind" context false)
    [("direct_call", .directCall), ("constructs", .constructs), ("virtual_dispatch", .virtualDispatch),
      ("callback_registration", .callbackRegistration), ("provider", .provider)] (context ++ lit ".kind")
  let evidence ← requireEvidence item.1 context
  Prod.snd <$> applyTo g (Graph.addEdge «from» «to» kind evidence)

def loadRoot (ids : List (Bytes × SymbolId)) (g : Graph) (item : Value × Nat) : ReadM Graph := do
  let context := itemContext "roots" item.2
  requireKeys item.1 ["symbol", "kind", "evidence"] context
  let symbol ← requireSymbol ids item.1 "symbol" context
  let kind ← parseEnum (← requireString item.1 "kind" context false)
    [("application_entry_point", .applicationEntryPoint), ("global_initializer", .globalInitializer),
      ("manual", .manual), ("callback_registration", .callbackRegistration), ("provider", .provider),
      ("public_api", .publicApi)] (context ++ lit ".kind")
  let evidence ← requireEvidence item.1 context
  Prod.snd <$> applyTo g (Graph.addRoot symbol kind evidence)

def parseOrigin (ids : List (Bytes × SymbolId)) (value : Value) (context : Bytes) : ReadM (Option SymbolId) :=
  match value with
  | .null => pure none
  | .string s =>
    if s.isEmpty then invalidArtifact context (lit "must be null or a symbol id") else some <$> symbolId ids s context
  | _ => invalidArtifact context (lit "must be null or a symbol id")

def loadEscape (ids : List (Bytes × SymbolId)) (g : Graph) (item : Value × Nat) : ReadM Graph := do
  let context := itemContext "escapes" item.2
  requireKeys item.1 ["symbol", "from", "kind", "evidence"] context
  let «from» ← parseOrigin ids (← requireValue item.1 "from" context) (context ++ lit ".from")
  let symbol ← requireSymbol ids item.1 "symbol" context
  let kind ← parseEnum (← requireString item.1 "kind" context false)
    [("address_taken", .addressTaken), ("callable_object", .callableObject), ("provider", .provider)]
    (context ++ lit ".kind")
  let evidence ← requireEvidence item.1 context
  Prod.snd <$> applyTo g (Graph.addEscape symbol kind evidence «from»)

def loadSuppression (ids : List (Bytes × SymbolId)) (g : Graph) (item : Value × Nat) : ReadM Graph := do
  let context := itemContext "suppressions" item.2
  requireKeys item.1 ["symbol", "evidence"] context
  let symbol ← requireSymbol ids item.1 "symbol" context
  let evidence ← requireEvidence item.1 context
  Prod.snd <$> applyTo g (Graph.addSuppression symbol evidence)

def parseDiagnostic (value : Value) : ReadM Bytes :=
  match value with
  | .string s => .ok s
  | _ => invalidArtifact (lit "document.diagnostics") (lit "entries must be strings")

def checkVersion (root : Value) (key : String) (version : Nat) : ReadM Unit := do
  if (← requireSize root key (lit "document")).toNat ≠ version then
    invalidArtifact (lit "document") (lit "unsupported " ++ lit key)
  else pure ()

/-- The facts of a document, once its graph's symbols are loaded. -/
def loadFacts (root : Value) (state : Loaded) : ReadM Graph := do
  let document := lit "document"
  let g ← (← requireArray root "edges" document).zipIdx.foldlM (loadEdge state.2) state.1
  let g ← (← requireArray root "roots" document).zipIdx.foldlM (loadRoot state.2) g
  let g ← (← requireArray root "escapes" document).zipIdx.foldlM (loadEscape state.2) g
  (← requireArray root "suppressions" document).zipIdx.foldlM (loadSuppression state.2) g

def readDocument (root : Value) : ReadM GraphArtifact := do
  let document := lit "document"
  requireKeys root ["artifact_schema_version", "identity_schema_version", "configuration_id", "analysis_context",
    "frontend", "translation_units", "symbols", "edges", "roots", "escapes", "suppressions", "diagnostics"] document
  checkVersion root "artifact_schema_version" graphArtifactSchemaVersion
  checkVersion root "identity_schema_version" symbolIdentitySchemaVersion
  let metadata ← parseMetadata root
  let state ← (← requireArray root "symbols" document).zipIdx.foldlM (loadSymbol metadata.configurationId) ({}, [])
  let graph ← loadFacts root state
  let diagnostics ← (← requireArray root "diagnostics" document).mapM parseDiagnostic
  pure { graph := graph.canonicalize, metadata, diagnostics }

/-- `fromChars` is the conversion of number tokens. -/
def readGraphArtifact (fromChars : Bytes → Option ℚ) (document : Bytes) : ReadM GraphArtifact :=
  match Json.parse fromChars document with
  | .error e => .error (.runtimeError (lit "invalid graph artifact JSON: JSON parse error at byte " ++
      decimal e.offset ++ lit ": " ++ e.message))
  | .ok root => readDocument root

end Artifact

end CxxDead
