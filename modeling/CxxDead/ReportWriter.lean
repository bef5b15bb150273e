import CxxDead.Differential
import CxxDead.IndexRun
/-!
# The JSON reports

`writeJsonReport`, `writeJsonRunDiagnostic` and `writeJsonDifferentialReport`, byte
for byte: an object or an array of the document is one application of a layout, and
a member or a list that the code leaves out is left out of the layout's list.
-/

namespace CxxDead

open Lib Artifact Indexer

/-! ## Layouts and numbers -/

/-- Items on lines of their own, or nothing. -/
def itemLines (indent : String) (items : List Bytes) : Bytes :=
  if items = [] then [] else
    lit "\n" ++ (lit ",\n").intercalate (items.map (lit indent ++ ·)) ++ lit "\n"

/-- An array with one item on each line, the closing bracket at `close`. -/
def nestedArray (indent close : String) (items : List Bytes) : Bytes :=
  lit "[" ++ itemLines indent items ++ lit close ++ lit "]"

/-- As `nestedArray`, but without white space if it is empty. -/
def compactArray (indent close : String) (items : List Bytes) : Bytes :=
  lit "[" ++ (if items = [] then [] else itemLines indent items ++ lit close) ++ lit "]"

/-- An object whose members stand at `indent` and whose closing brace stands at `close`. -/
def nestedObject (indent close : String) (members : List (String × Bytes)) : Bytes :=
  lit "\x7b\n" ++ (lit ",\n").intercalate (members.map fun m => lit indent ++ member m) ++ lit "\n" ++
    lit close ++ lit "\x7d"

/-- A `std::size_t` that the model counts without a bound. -/
def writeSize (n : Nat) : Bytes := decimal n.toUInt64.toNat

/-- An `int`, or a number that is cast to one. -/
def writeInt (x : Int) : Bytes :=
  let value := x.bmod (2 ^ 32)
  if value < 0 then ch '-' :: decimal value.natAbs else decimal value.natAbs

def nullable {α : Type} (write : α → Bytes) : Option α → Bytes
  | some value => write value
  | none => lit "null"

/-! ## The enumerations as text -/

def FindingEvidenceKind.toText : FindingEvidenceKind → Bytes
  | .noReachablePath => lit "no_reachable_path" | .internalLinkage => lit "internal_linkage"
  | .virtualDispatchUncertainty => lit "virtual_dispatch_uncertainty" | .escape => lit "escape"

def Indexer.RunState.toText : RunState → Bytes
  | .complete => lit "complete" | .incomplete => lit "incomplete" | .unsupported => lit "unsupported"

def Indexer.TranslationUnitStatus.toText : TranslationUnitStatus → Bytes
  | .indexed => lit "indexed" | .failed => lit "failed" | .skipped => lit "skipped" | .timedOut => lit "timed_out"
  | .unsupported => lit "unsupported" | .cancelled => lit "cancelled"

/-! ## The run and its context -/

structure AnalysisMetadata where
  mode : Bytes := lit "application"
  configurationId : Bytes := lit "default"
  configuration : Bytes := []
  targetId : Bytes := []
  targetName : Bytes := []
  targetKind : Bytes := []
  closureTargets : List Bytes := []
  run : RunDiagnostics := ⟨.complete, .astJson, false, []⟩
deriving DecidableEq

def reportSchemaVersion : Nat := 12
def differentialReportSchemaVersion : Nat := 2

def writeTranslationUnit (unit : TranslationUnitDiagnostic) : Bytes := blockObject "      " (
  [("file", Json.quoted unit.file.text), ("status", Json.quoted unit.status.toText), ("stage", Json.quoted unit.stage),
    ("message", Json.quoted unit.message)] ++
  (match unit.exitCode with
    | some code => [("exit_code", writeInt code)]
    | none => []) ++
  (match unit.signal with
    | some signal => if signal ≠ 0 then [("signal", writeInt signal)] else []
    | none => []))

def writeJsonRun (run : RunDiagnostics) : Bytes := blockObject "  " [
  ("state", Json.quoted run.state.toText), ("frontend", Json.quoted run.frontend.toText),
  ("partial_graph_discarded", boolText run.partialGraphDiscarded),
  ("translation_units", nestedArray "      " "    " (run.translationUnits.map writeTranslationUnit))]

def writeAnalysisContext (metadata : AnalysisMetadata) : Bytes := blockObject "  " [
  ("configuration_id", Json.quoted metadata.configurationId), ("configuration", Json.quoted metadata.configuration),
  ("target_id", writeNullableString metadata.targetId), ("target_name", writeNullableString metadata.targetName),
  ("target_kind", writeNullableString metadata.targetKind),
  ("closure_targets", inlineArray (metadata.closureTargets.map Json.quoted))]

/-! ## Sources: the native form of a path -/

def writeJsonSourcePoint (point : SourcePoint) : Bytes := inlineObject [
  ("file", Json.quoted point.file.text), ("line", decimal point.line.toNat),
  ("column", decimal point.column.toNat), ("offset", decimal point.offset.toNat),
  ("token_length", decimal point.tokenLength.toNat)]

def writeJsonSourceExtent (extent : SourceExtent) : Bytes := inlineObject [
  ("location", writeJsonSourcePoint extent.location),
  ("range", inlineObject [("begin", writeJsonSourcePoint extent.begin), ("end", writeJsonSourcePoint extent.end)])]

def writeJsonSource (source : SymbolSource) : Bytes := inlineObject [
  ("spelling", writeJsonSourceExtent source.spelling), ("expansion", nullable writeJsonSourceExtent source.expansion)]

/-! ## The report -/

/-- `component_by_symbol`. -/
def componentBySymbol (reachability : ReachabilityResult) : SymbolId → Int :=
  groupTable (fun component => (component : Int).bmod (2 ^ 32)) (-1) reachability.unreachableSccs

/-- `weak_component_by_symbol`. -/
def weakComponentBySymbol (report : AnalysisReport) : SymbolId → Int :=
  report.unreachableComponents.foldl
    (fun table component => component.members.foldl
      (fun table member => Function.update table member.symbol ((component.weakComponent : Int).bmod (2 ^ 32))) table)
    fun _ => -1

section Parts
variable (g : Graph)

def writeMemberKeys (members : List AggregateMember) (disposition : AggregateMemberDisposition) : Bytes :=
  inlineArray ((members.filter (·.disposition == disposition)).map
    fun member => Json.quoted (g.symbol member.symbol).key)

def writeOwnershipSummary (labelName : String) (summary : OwnershipSummary) : Bytes := blockObject "        " [
  (labelName, Json.quoted summary.label), ("estimated_loc", decimal summary.lines.estimatedLoc.toNat),
  ("unmeasured_symbols", writeSize summary.lines.unmeasuredSymbols),
  ("finding_keys", writeMemberKeys g summary.members .actionable),
  ("suppressed_finding_keys", writeMemberKeys g summary.members .suppressed)]

def writeOwnership (summaries : List OwnershipSummary) (labelName : String) : Bytes :=
  compactArray "        " "      " (summaries.map (writeOwnershipSummary g labelName))

def writeFindingEvidence (item : FindingEvidence) : Bytes := blockObject "        " (
  [("kind", Json.quoted item.kind.toText), ("provider", Json.quoted item.evidence.provider),
    ("reason", Json.quoted item.evidence.reason)] ++
  (match item.escapeKind with
    | some kind => [("escape_kind", Json.quoted kind.toText)]
    | none => []) ++
  (match item.from with
    | some id => [("from_symbol", Json.quoted (g.symbol id).qualifiedName),
      ("from_signature", Json.quoted (g.symbol id).signature)]
    | none => []))

def writeFinding (component weakComponent : SymbolId → Int) (finding : Finding)
    (suppressions : Option (List Evidence)) : Bytes :=
  let symbol := g.symbol finding.symbol
  let source := (primarySourceExtent symbol).location
  blockObject "    " (
    [("symbol", Json.quoted symbol.qualifiedName), ("signature", Json.quoted symbol.signature),
      ("key", Json.quoted symbol.key), ("kind", Json.quoted symbol.kind.toText),
      ("scope", Json.quoted symbol.scope.toText), ("file", Json.quoted source.file.text),
      ("line", decimal source.line.toNat), ("source", writeJsonSource symbol.source),
      ("classification", Json.quoted finding.classification.toText), ("component", writeInt (component finding.symbol)),
      ("weak_component", writeInt (weakComponent finding.symbol)),
      ("evidence", nestedArray "        " "      " (finding.evidence.map (writeFindingEvidence g)))] ++
    (match suppressions with
      | some suppressions =>
        [("suppression_evidence", nestedArray "        " "      " (suppressions.map Artifact.writeEvidence))]
      | none => []))

def writeReportRoot (root : Root) : Bytes :=
  let symbol := g.symbol root.symbol
  blockObject "    " [
    ("symbol", Json.quoted symbol.qualifiedName), ("signature", Json.quoted symbol.signature),
    ("key", Json.quoted symbol.key), ("kind", Json.quoted root.kind.toText),
    ("scope", Json.quoted symbol.scope.toText), ("source", writeJsonSource symbol.source),
    ("evidence", blockObject "      " [("provider", Json.quoted root.evidence.provider),
      ("reason", Json.quoted root.evidence.reason)])]

def writePublicApi (retained : ProviderReachability) : Bytes :=
  let symbol := g.symbol retained.symbol
  blockObject "    " [
    ("symbol", Json.quoted symbol.qualifiedName), ("signature", Json.quoted symbol.signature),
    ("key", Json.quoted symbol.key), ("classification", Json.quoted (lit "externally_reachable")),
    ("evidence", Artifact.writeEvidence retained.evidence)]

def writeProviderReachable (retained : ProviderReachability) : Bytes :=
  let symbol := g.symbol retained.symbol
  blockObject "    " [
    ("symbol", Json.quoted symbol.qualifiedName), ("signature", Json.quoted symbol.signature),
    ("key", Json.quoted symbol.key),
    ("from_symbol", nullable (fun id => Json.quoted (g.symbol id).qualifiedName) retained.from),
    ("from_signature", nullable (fun id => Json.quoted (g.symbol id).signature) retained.from),
    ("evidence", Artifact.writeEvidence retained.evidence)]

def writeScc (component : SymbolId → Int) (members : List AggregateMember) (scc : Nat) : Bytes :=
  let sccMembers := members.filter fun member => component member.symbol == (scc : Int).bmod (2 ^ 32)
  blockObject "        " [
    ("id", writeSize scc), ("finding_keys", writeMemberKeys g sccMembers .actionable),
    ("suppressed_finding_keys", writeMemberKeys g sccMembers .suppressed)]

def writeCondensationEdge (edge : CondensationEdge) : Bytes := inlineObject [
  ("from_scc", writeSize edge.fromScc), ("to_scc", writeSize edge.toScc)]

def writeAggregate (componentOf : SymbolId → Int) (component : UnreachableAggregate) : Bytes := blockObject "    " [
  ("id", writeSize component.weakComponent), ("estimated_loc", decimal component.lines.estimatedLoc.toNat),
  ("unmeasured_symbols", writeSize component.lines.unmeasuredSymbols),
  ("sccs", nestedArray "        " "      " (component.sccs.map (writeScc g componentOf component.members))),
  ("edges", nestedArray "        " "      " (component.edges.map writeCondensationEdge)),
  ("finding_keys", writeMemberKeys g component.members .actionable),
  ("suppressed_finding_keys", writeMemberKeys g component.members .suppressed),
  ("ownership", nestedObject "      " "      " [
    ("types", writeOwnership g component.types "type"), ("files", writeOwnership g component.files "file"),
    ("directories", writeOwnership g component.directories "directory")])]

end Parts

def writeSummary (report : AnalysisReport) : Bytes := blockObject "  " [
  ("defined_symbols", writeSize report.definedSymbols), ("reachable_symbols", writeSize report.reachableSymbols),
  ("structurally_reachable_symbols", writeSize report.structurallyReachableSymbols),
  ("provider_reachable_symbols", writeSize report.providerReachableSymbols),
  ("public_api_symbols", writeSize report.publicApiSymbols),
  ("internal_live_symbols", writeSize report.internalLiveSymbols),
  ("internal_unreachable_symbols", writeSize report.internalUnreachableSymbols),
  ("unreachable_symbols", writeSize report.unreachableSymbols),
  ("unreachable_components", writeSize report.unreachableComponents.length),
  ("actionable_unreachable_symbols", writeSize report.actionableUnreachableSymbols),
  ("suppressed_symbols", writeSize report.suppressedSymbols),
  ("scope_counts", blockObject "    " [
    ("reportable", writeSize report.reportableSymbols), ("indexed", writeSize report.indexedSymbols),
    ("external_opaque", writeSize report.externalOpaqueSymbols)])]

def writeJsonReport (g : Graph) (reachability : ReachabilityResult) (report : AnalysisReport) (diagnostics : List Bytes)
    (metadata : AnalysisMetadata) : Bytes :=
  let component := componentBySymbol reachability
  let weakComponent := weakComponentBySymbol report
  blockObject "" [
    ("schema_version", decimal reportSchemaVersion), ("mode", Json.quoted metadata.mode),
    ("run", writeJsonRun metadata.run), ("analysis_context", writeAnalysisContext metadata),
    ("summary", writeSummary report),
    ("roots", blockArray (g.roots.map (writeReportRoot g))),
    ("public_api", blockArray (report.publicApi.map (writePublicApi g))),
    ("provider_reachable", blockArray (report.providerReachable.map (writeProviderReachable g))),
    ("unreachable_components", blockArray (report.unreachableComponents.map (writeAggregate g component))),
    ("findings", blockArray (report.findings.map fun finding => writeFinding g component weakComponent finding none)),
    ("suppressed_findings", blockArray (report.suppressedFindings.map fun suppressed =>
      writeFinding g component weakComponent suppressed.finding (some suppressed.suppressions))),
    ("diagnostics", blockArray (diagnostics.map Json.quoted))] ++ lit "\n"

/-- `what()` ends where the message has a null byte. -/
def whatText (message : Bytes) : Bytes := message.takeWhile (· ≠ 0)

/-- The report of an `IndexingError`. -/
def writeJsonRunDiagnostic (message : Bytes) (run : RunDiagnostics) (metadata : AnalysisMetadata) : Bytes :=
  blockObject "" [
    ("schema_version", decimal reportSchemaVersion), ("mode", Json.quoted metadata.mode), ("run", writeJsonRun run),
    ("analysis_context", writeAnalysisContext metadata),
    ("diagnostics", inlineArray [Json.quoted (whatText message)])] ++ lit "\n"

/-! ## The differential report -/

def writeMetadata (metadata : GraphArtifactMetadata) : Bytes := inlineObject [
  ("configuration_id", Json.quoted metadata.configurationId), ("configuration", Json.quoted metadata.configuration),
  ("target_id", writeNullableString metadata.targetId), ("target_name", writeNullableString metadata.targetName),
  ("target_kind", writeNullableString metadata.targetKind), ("frontend", Json.quoted metadata.frontend.toText),
  ("translation_units", decimal metadata.translationUnits.toNat),
  ("closure_targets", inlineArray (metadata.closureTargets.map Json.quoted))]

def writeDifferentialEvidence (item : DifferentialEvidence) : Bytes := inlineObject [
  ("kind", Json.quoted item.kind.toText), ("provider", Json.quoted item.evidence.provider),
  ("reason", Json.quoted item.evidence.reason),
  ("escape_kind", nullable (fun kind => Json.quoted kind.toText) item.escapeKind),
  ("from_symbol", writeNullableString item.fromSymbol)]

def writeState (state : DifferentialSymbolState) : Bytes := inlineObject [
  ("present", boolText state.present), ("reachable", boolText state.reachable),
  ("suppressed", boolText state.suppressed),
  ("classification", nullable (fun classification => Json.quoted classification.toText) state.classification),
  ("evidence", inlineArray (state.evidence.map writeDifferentialEvidence)),
  ("suppressions", inlineArray (state.suppressions.map Artifact.writeEvidence))]

def writeChange (change : DifferentialChange) : Bytes := inlineObject [
  ("kind", Json.quoted change.kind.toText), ("policy_match", boolText change.policyMatch),
  ("symbol", inlineObject [
    ("id", Json.quoted change.symbol.key), ("qualified_name", Json.quoted change.symbol.qualifiedName),
    ("signature", Json.quoted change.symbol.signature), ("kind", Json.quoted change.symbol.kind.toText),
    ("location", writeSourcePoint (primarySourceExtent change.symbol).location)]),
  ("baseline", writeState change.baseline), ("current", writeState change.current)]

def writeJsonDifferentialReport (report : DifferentialReport) : Bytes := blockObject "" [
  ("diff_schema_version", decimal differentialReportSchemaVersion), ("baseline", writeMetadata report.baseline),
  ("current", writeMetadata report.current),
  ("summary", inlineObject [
    ("new_symbols", writeSize report.newSymbols), ("newly_unreachable", writeSize report.newlyUnreachable),
    ("removed", writeSize report.removed), ("became_reachable", writeSize report.becameReachable),
    ("policy_matches", writeSize report.policyMatches)]),
  ("changes", blockArray (report.changes.map writeChange))] ++ lit "\n"

end CxxDead
