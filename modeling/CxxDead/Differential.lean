import CxxDead.Artifact
import CxxDead.Report
/-!
# The differential report

`buildDifferentialReport` compares a baseline artifact with the current graph by
stable key, and `writeSarif` writes what the policy selects. The writer returns
nothing where the code would read an absent classification.
-/

namespace CxxDead

open Lib

inductive ChangeKind where
  | newSymbol | newlyUnreachable | removed | becameReachable
deriving DecidableEq, Repr

structure DifferentialPolicy where
  changes : List ChangeKind := [.newSymbol, .newlyUnreachable]
  classifications : List Classification := [.dead, .likelyDead, .possiblyDead, .dynamicallyReferenced]
  targets : List Bytes := []

structure DifferentialEvidence where
  kind : FindingEvidenceKind
  evidence : Evidence
  escapeKind : Option EscapeKind
  fromSymbol : Bytes
deriving DecidableEq

structure DifferentialSymbolState where
  present : Bool := false
  reachable : Bool := false
  suppressed : Bool := false
  classification : Option Classification := none
  evidence : List DifferentialEvidence := []
  suppressions : List Evidence := []
deriving DecidableEq

structure DifferentialChange where
  kind : ChangeKind
  symbol : Symbol
  baseline : DifferentialSymbolState
  current : DifferentialSymbolState
  policyMatch : Bool := false
deriving DecidableEq

structure DifferentialReport where
  baseline : GraphArtifactMetadata
  current : GraphArtifactMetadata
  changes : List DifferentialChange := []
  newSymbols : Nat := 0
  newlyUnreachable : Nat := 0
  removed : Nat := 0
  becameReachable : Nat := 0
  policyMatches : Nat := 0
deriving DecidableEq

/-! ## The state of a symbol on one side -/

def eligibleSymbol (symbol : Symbol) : Bool :=
  symbol.defined && isReportable symbol.scope && symbol.kind != .synthetic

structure FindingLookup where
  finding : Option Finding := none
  suppressed : Option SuppressedFinding := none

def findFinding (report : AnalysisReport) (id : SymbolId) : FindingLookup :=
  match report.findings.find? (·.symbol == id) with
  | some finding => { finding }
  | none =>
    match report.suppressedFindings.find? (·.finding.symbol == id) with
    | some suppressed => { finding := suppressed.finding, suppressed }
    | none => {}

def differentialEvidence (g : Graph) (item : FindingEvidence) : DifferentialEvidence :=
  { kind := item.kind
    evidence := item.evidence
    escapeKind := item.escapeKind
    fromSymbol := (item.from.map fun id => (g.symbol id).key).getD [] }

def symbolState (g : Graph) (reachability : ReachabilityResult) (report : AnalysisReport) (id : Option SymbolId) :
    DifferentialSymbolState :=
  match id with
  | none => {}
  | some id =>
    let state : DifferentialSymbolState := { present := true, reachable := flag reachability.reachable id }
    let lookup := findFinding report id
    match lookup.finding with
    | none => state
    | some finding =>
      { state with
        classification := finding.classification
        suppressed := lookup.suppressed.isSome
        suppressions := (lookup.suppressed.map (·.suppressions)).getD []
        evidence := finding.evidence.map (differentialEvidence g) }

/-! ## The policy -/

def requireCompatibleContext (baseline current : GraphArtifactMetadata) : Except Exception Unit :=
  if baseline.configurationId ≠ current.configurationId then
    .error (.runtimeError (lit "baseline/current configuration identities differ"))
  else if baseline.frontend ≠ current.frontend then
    .error (.runtimeError (lit "baseline/current index frontends differ"))
  else if baseline.targetId ≠ current.targetId ∨ baseline.targetName ≠ current.targetName ∨
      baseline.targetKind ≠ current.targetKind then
    .error (.runtimeError (lit "baseline/current target identities differ"))
  else .ok ()

def requireTarget (current : GraphArtifactMetadata) : Option DifferentialPolicy → Except Exception Unit
  | none => .ok ()
  | some policy =>
    if policy.targets ≠ [] ∧ (current.targetName = [] ∨ current.targetName ∉ policy.targets) then
      .error (.runtimeError
        (lit "differential policy does not apply to current target '" ++ current.targetName ++ lit "'"))
    else .ok ()

def policyMatches (policy : DifferentialPolicy) (current : GraphArtifactMetadata) (change : DifferentialChange) :
    Bool :=
  match change.current.classification with
  | none => false
  | some classification =>
    decide (change.kind ∈ policy.changes) && !change.current.suppressed &&
      decide (classification ∈ policy.classifications) &&
      (policy.targets.isEmpty || decide (current.targetName ∈ policy.targets))

/-! ## The comparison -/

/-- The ids of the eligible symbols by key; the first of several keeps its place. -/
def eligibleIds (g : Graph) : List (Bytes × SymbolId) :=
  ((List.range g.symbols.length).filter fun id => eligibleSymbol (g.symbol id)).foldl
    (fun ids id => Graph.emplaceKey ids (g.symbol id).key id) []

def changeKind (baseline current : ReachabilityResult) (baselineId currentId : Option SymbolId) : Option ChangeKind :=
  match baselineId, currentId with
  | none, _ => some .newSymbol
  | some _, none => some .removed
  | some b, some c =>
    if flag baseline.reachable b && !flag current.reachable c then some .newlyUnreachable
    else if !flag baseline.reachable b && flag current.reachable c then some .becameReachable
    else none

/-- One side of a comparison. -/
structure Side where
  graph : Graph
  reachability : ReachabilityResult
  report : AnalysisReport

def Side.idOf (side : Side) (key : Bytes) : Option SymbolId := (eligibleIds side.graph).lookup key

def Side.state (side : Side) (key : Bytes) : DifferentialSymbolState :=
  symbolState side.graph side.reachability side.report (side.idOf key)

/-- The change of one key, before the policy. -/
def changeAt (baseline current : Side) (key : Bytes) : Option DifferentialChange :=
  (changeKind baseline.reachability current.reachability (baseline.idOf key) (current.idOf key)).map fun kind =>
    { kind
      symbol :=
        match current.idOf key with
        | some id => current.graph.symbol id
        | none => baseline.graph.symbol ((baseline.idOf key).getD 0)
      baseline := baseline.state key
      current := current.state key }

def countChange (report : DifferentialReport) (change : DifferentialChange) : DifferentialReport :=
  { report with
    newSymbols := report.newSymbols + (change.kind == .newSymbol).toNat
    newlyUnreachable := report.newlyUnreachable + (change.kind == .newlyUnreachable).toNat
    removed := report.removed + (change.kind == .removed).toNat
    becameReachable := report.becameReachable + (change.kind == .becameReachable).toNat
    policyMatches := report.policyMatches + change.policyMatch.toNat
    changes := report.changes ++ [change] }

/-- One turn of the loop over the keys. -/
def visitKey (baseline current : Side) (metadata : GraphArtifactMetadata) (policy : Option DifferentialPolicy)
    (report : DifferentialReport) (key : Bytes) : DifferentialReport :=
  match changeAt baseline current key with
  | none => report
  | some change =>
    countChange report
      { change with policyMatch := (policy.map fun p => policyMatches p metadata change).getD false }

def buildDifferentialReport (baseline : GraphArtifact) (currentGraph : Graph)
    (currentReachability : ReachabilityResult) (currentReport : AnalysisReport)
    (currentMetadata : GraphArtifactMetadata) (policy : Option DifferentialPolicy) :
    Except Exception DifferentialReport := do
  requireCompatibleContext baseline.metadata currentMetadata
  requireTarget currentMetadata policy
  let reachability := analyzeReachability baseline.graph
  let before : Side := ⟨baseline.graph, reachability, buildReport baseline.graph reachability⟩
  let after : Side := ⟨currentGraph, currentReachability, currentReport⟩
  let keys := sortUnique ((eligibleIds before.graph).map (·.1) ++ (eligibleIds after.graph).map (·.1))
  pure (keys.foldl (visitKey before after currentMetadata policy)
    { baseline := baseline.metadata, current := currentMetadata })

/-! ## SARIF -/

def Classification.toText : Classification → Bytes
  | .dead => lit "dead" | .likelyDead => lit "likely_dead" | .possiblyDead => lit "possibly_dead"
  | .dynamicallyReferenced => lit "dynamically_referenced"

def ChangeKind.toText : ChangeKind → Bytes
  | .newSymbol => lit "new_symbol" | .newlyUnreachable => lit "newly_unreachable" | .removed => lit "removed"
  | .becameReachable => lit "became_reachable"

def displayName (symbol : Symbol) : Bytes :=
  if symbol.qualifiedName = [] then symbol.name else symbol.qualifiedName

/-- `sarif_rule`, which reads the classification. -/
def sarifRule (change : DifferentialChange) : Option Bytes :=
  change.current.classification.map fun classification =>
    lit "cxx-dead." ++ change.kind.toText ++ lit "." ++ classification.toText

def uppercaseHex (d : Nat) : UInt8 := if d < 10 then ch '0' + d.toUInt8 else ch 'A' + (d - 10).toUInt8

def isAlphanumeric (c : UInt8) : Bool :=
  Json.isDigit c || (decide (ch 'a' ≤ c) && decide (c ≤ ch 'z')) || (decide (ch 'A' ≤ c) && decide (c ≤ ch 'Z'))

def uriEncode (path : Bytes) : Bytes :=
  path.flatMap fun c =>
    if isAlphanumeric c || (lit "/._-~").contains c then [c]
    else [ch '%', uppercaseHex (c.toNat / 16), uppercaseHex (c.toNat % 16)]

def sarifUri (file projectRoot : Path) : Bytes :=
  if file.isEmpty then []
  else
    let normalized := file.lexicallyNormal
    let relative := normalized.lexicallyRelative projectRoot.lexicallyNormal
    let shown :=
      if normalized.isAbsolute && !relative.isEmpty && !relative.isAbsolute &&
          relative.components.head? != some Path.dotDot then
        relative
      else normalized
    uriEncode shown.genericString

/-- The location of a result, if the symbol has one. -/
def sarifLocations (symbol : Symbol) (projectRoot : Path) : Bytes :=
  let extent := primarySourceExtent symbol
  let uri := sarifUri extent.location.file projectRoot
  if uri ≠ [] ∧ extent.location.line ≠ 0 then
    lit ", \"locations\": [\x7b\"physicalLocation\": \x7b\"artifactLocation\": \x7b\"uri\": " ++ Json.quoted uri ++
      lit "\x7d, \"region\": \x7b\"startLine\": " ++ decimal extent.location.line.toNat ++
      (if extent.location.column ≠ 0 then lit ", \"startColumn\": " ++ decimal extent.location.column.toNat else []) ++
      (if extent.end.line ≠ 0 then lit ", \"endLine\": " ++ decimal extent.end.line.toNat else []) ++
      (if extent.end.column ≠ 0 then
        lit ", \"endColumn\": " ++ decimal (extent.end.column + extent.end.tokenLength).toNat
      else []) ++
      lit "\x7d\x7d\x7d]"
  else []

def sarifResult (targetName : Bytes) (projectRoot : Path) (change : DifferentialChange) : Option Bytes := do
  let classification ← change.current.classification
  let rule ← sarifRule change
  pure (lit "\n      \x7b\"ruleId\": " ++ Json.quoted rule ++ lit ", \"level\": \"warning\", \"message\": \x7b\"text\": " ++
    Json.quoted (displayName change.symbol ++ lit " is " ++ classification.toText ++ lit " (" ++ change.kind.toText ++
      lit ")") ++
    lit "\x7d, \"partialFingerprints\": \x7b\"cxxDeadSymbolId/v1\": " ++ Json.quoted change.symbol.key ++
    lit "\x7d, \"properties\": \x7b\"change\": \"" ++ change.kind.toText ++ lit "\", \"classification\": \"" ++
    classification.toText ++ lit "\", \"target\": " ++ Artifact.writeNullableString targetName ++ lit "\x7d" ++
    sarifLocations change.symbol projectRoot ++ lit "\x7d")

def writeSarif (report : DifferentialReport) (projectRoot : Path) (toolVersion : Bytes) : Option Bytes := do
  let selected := report.changes.filter (·.policyMatch)
  let rules ← selected.mapM sarifRule
  let results ← selected.mapM (sarifResult report.current.targetName projectRoot)
  pure (lit "\x7b\n  \"$schema\": \"https://json.schemastore.org/sarif-2.1.0.json\",\n  \"version\": \"2.1.0\",\n" ++
    lit "  \"runs\": [\x7b\n    \"tool\": \x7b\"driver\": \x7b\"name\": \"cxx-dead\", \"version\": " ++
    Json.quoted toolVersion ++ lit ", \"informationUri\": \"https://github.com/gobha-me/cxx-dead\", \"rules\": [" ++
    (lit ", ").intercalate ((sortUnique rules).map fun rule =>
      lit "\x7b\"id\": " ++ Json.quoted rule ++ lit ", \"shortDescription\": \x7b\"text\": \"New dead-code debt\"\x7d\x7d") ++
    lit "]\x7d\x7d,\n    \"results\": [" ++ (lit ",").intercalate results ++
    (if results ≠ [] then lit "\n" else []) ++ lit "    ]\n  \x7d]\n\x7d\n")

end CxxDead
