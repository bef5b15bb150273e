import CxxDead.Reachability
import Mathlib.Data.UInt
/-!
# The report

`buildReport` classifies every unreachable symbol, counts, and gathers the
unreachable symbols of each weak component with their line estimate and
ownership.
-/

namespace CxxDead

open Lib

inductive Classification where
  | dead | likelyDead | possiblyDead | dynamicallyReferenced
deriving DecidableEq, Repr

inductive FindingEvidenceKind where
  | noReachablePath | internalLinkage | virtualDispatchUncertainty | escape
deriving DecidableEq, Repr

structure FindingEvidence where
  kind : FindingEvidenceKind := .noReachablePath
  evidence : Evidence
  escapeKind : Option EscapeKind := none
  «from» : Option SymbolId := none
deriving DecidableEq

structure Finding where
  symbol : SymbolId
  classification : Classification := .likelyDead
  evidence : List FindingEvidence
deriving DecidableEq

structure ProviderReachability where
  symbol : SymbolId
  «from» : Option SymbolId
  evidence : Evidence
deriving DecidableEq

structure SuppressedFinding where
  finding : Finding
  suppressions : List Evidence
deriving DecidableEq

inductive AggregateMemberDisposition where
  | actionable | suppressed
deriving DecidableEq, Repr

structure AggregateMember where
  symbol : SymbolId
  disposition : AggregateMemberDisposition
deriving DecidableEq

structure SourceLineEstimate where
  estimatedLoc : UInt64 := 0
  unmeasuredSymbols : Nat := 0
deriving DecidableEq

structure OwnershipSummary where
  label : Bytes
  members : List AggregateMember
  lines : SourceLineEstimate
deriving DecidableEq

structure UnreachableAggregate where
  weakComponent : Nat
  sccs : List Nat
  edges : List CondensationEdge := []
  members : List AggregateMember
  lines : SourceLineEstimate
  types : List OwnershipSummary
  files : List OwnershipSummary
  directories : List OwnershipSummary
deriving DecidableEq

structure AnalysisReport where
  findings : List Finding := []
  reportableSymbols : Nat := 0
  indexedSymbols : Nat := 0
  externalOpaqueSymbols : Nat := 0
  definedSymbols : Nat := 0
  reachableSymbols : Nat := 0
  structurallyReachableSymbols : Nat := 0
  providerReachableSymbols : Nat := 0
  unreachableSymbols : Nat := 0
  actionableUnreachableSymbols : Nat := 0
  suppressedSymbols : Nat := 0
  publicApiSymbols : Nat := 0
  internalLiveSymbols : Nat := 0
  internalUnreachableSymbols : Nat := 0
  publicApi : List ProviderReachability := []
  providerReachable : List ProviderReachability := []
  suppressedFindings : List SuppressedFinding := []
  unreachableComponents : List UnreachableAggregate := []
deriving DecidableEq

/-! ## Classifying an unreachable symbol -/

/-- The evidence that an escape of the symbol adds. -/
def escapeEvidence (escape : Escape) : FindingEvidence :=
  { kind := .escape, evidence := escape.evidence, escapeKind := escape.kind, «from» := escape.from }

def classify (g : Graph) (id : SymbolId) (symbol : Symbol) : Finding :=
  let noPath : FindingEvidence :=
    { kind := .noReachablePath
      evidence := ⟨lit "reachability_analysis", lit "no path from an application root"⟩ }
  let escapes := g.escapes.filter fun e => e.symbol == id
  let evidence := noPath :: escapes.map escapeEvidence
  if escapes ≠ [] then { symbol := id, classification := .dynamicallyReferenced, evidence }
  else if symbol.isVirtual then
    { symbol := id
      classification := .possiblyDead
      evidence := evidence ++
        [{ kind := .virtualDispatchUncertainty
           evidence := ⟨lit "classification_policy", lit "virtual dispatch requires conservative review"⟩ }] }
  else if symbol.internalLinkage then
    { symbol := id
      classification := .dead
      evidence := evidence ++
        [{ kind := .internalLinkage
           evidence := ⟨lit "classification_policy", lit "symbol has internal linkage"⟩ }] }
  else { symbol := id, evidence }

/-! ## Counting -/

def publicApiRoot (g : Graph) (id : SymbolId) : Bool := g.roots.any fun r => isPublicApi r.kind && r.symbol == id

def suppressionsOf (g : Graph) (id : SymbolId) : List Evidence :=
  (g.suppressions.filter fun s => s.symbol == id).map (·.evidence)

/-- The report so far and `suppressed_symbol`. -/
structure Tally where
  report : AnalysisReport
  suppressedSymbol : SymbolId → Bool

def countScope (report : AnalysisReport) (scope : SymbolScope) : AnalysisReport :=
  { report with
    reportableSymbols := report.reportableSymbols + (scope == .reportable).toNat
    indexedSymbols := report.indexedSymbols + (scope == .indexed).toNat
    externalOpaqueSymbols := report.externalOpaqueSymbols + (scope == .externalOpaque).toNat }

def countReachable (report : AnalysisReport) (isPublic isProvider : Bool) : AnalysisReport :=
  { report with
    reachableSymbols := report.reachableSymbols + 1
    internalLiveSymbols := report.internalLiveSymbols + (!isPublic).toNat
    providerReachableSymbols := report.providerReachableSymbols + isProvider.toNat
    structurallyReachableSymbols := report.structurallyReachableSymbols + (!isProvider).toNat }

def countUnreachable (report : AnalysisReport) (finding : Finding) (suppressions : List Evidence) : AnalysisReport :=
  let report :=
    { report with
      unreachableSymbols := report.unreachableSymbols + 1
      internalUnreachableSymbols := report.internalUnreachableSymbols + 1 }
  if suppressions = [] then
    { report with
      actionableUnreachableSymbols := report.actionableUnreachableSymbols + 1
      findings := report.findings ++ [finding] }
  else
    { report with
      suppressedSymbols := report.suppressedSymbols + 1
      suppressedFindings := report.suppressedFindings ++ [⟨finding, suppressions⟩] }

/-- The symbols that the report is about. -/
def isReported (symbol : Symbol) : Bool := symbol.defined && isReportable symbol.scope && symbol.kind != .synthetic

/-- One turn of the loop over the symbols. -/
def visitSymbol (g : Graph) (result : ReachabilityResult) (tally : Tally) (id : SymbolId) : Tally :=
  let symbol := g.symbol id
  let report := countScope tally.report symbol.scope
  if !isReported symbol then { tally with report }
  else
    let report :=
      { report with
        definedSymbols := report.definedSymbols + 1
        publicApiSymbols := report.publicApiSymbols + (publicApiRoot g id).toNat }
    if flag result.reachable id then
      { tally with report := countReachable report (publicApiRoot g id) (flag result.providerReachable id) }
    else
      { report := countUnreachable report (classify g id symbol) (suppressionsOf g id)
        suppressedSymbol :=
          if suppressionsOf g id = [] then tally.suppressedSymbol
          else Function.update tally.suppressedSymbol id true }

/-! ## Provenance -/

/-- Defined and reportable. -/
def isListed (symbol : Symbol) : Bool := symbol.defined && isReportable symbol.scope

def publicApiEntries (g : Graph) : List ProviderReachability :=
  (g.roots.filter fun r => isPublicApi r.kind && isReportable (g.symbol r.symbol).scope).map
    fun r => ⟨r.symbol, none, r.evidence⟩

def providerEntries (g : Graph) (result : ReachabilityResult) : List ProviderReachability :=
  ((g.edges.filter fun e =>
      e.kind.isProvider && flag result.reachable e.from && flag result.providerReachable e.to &&
        isListed (g.symbol e.to)).map fun e => ⟨e.to, some e.from, e.evidence⟩) ++
  ((g.roots.filter fun r =>
      r.kind.isProvider && flag result.providerReachable r.symbol && isListed (g.symbol r.symbol)).map
    fun r => ⟨r.symbol, none, r.evidence⟩)

def providerOrder (g : Graph) (item : ProviderReachability) : Bytes ×ₗ Bytes ×ₗ Bytes ×ₗ Bytes :=
  toLex ((g.symbol item.symbol).key,
    toLex ((item.from.map fun id => (g.symbol id).key).getD [], Graph.evidenceOrder item.evidence))

def publicApiOrder (g : Graph) (item : ProviderReachability) : Bytes ×ₗ Bytes ×ₗ Bytes :=
  toLex ((g.symbol item.symbol).key, Graph.evidenceOrder item.evidence)

/-! ## The order of findings -/

def findingBefore (g : Graph) (left right : Finding) : Bool :=
  let lhs := g.symbol left.symbol
  let rhs := g.symbol right.symbol
  let lhsLocation := (primarySourceExtent lhs).location
  let rhsLocation := (primarySourceExtent rhs).location
  if !lhsLocation.file.same rhsLocation.file then decide (lhsLocation.file.text < rhsLocation.file.text)
  else if lhsLocation.line ≠ rhsLocation.line then decide (lhsLocation.line < rhsLocation.line)
  else if lhs.qualifiedName ≠ rhs.qualifiedName then decide (lhs.qualifiedName < rhs.qualifiedName)
  else decide (lhs.signature < rhs.signature)

def suppressedFindingOrder (g : Graph) (item : SuppressedFinding) : Bytes ×ₗ UInt64 ×ₗ Bytes ×ₗ Bytes :=
  let symbol := g.symbol item.finding.symbol
  let location := (primarySourceExtent symbol).location
  toLex (location.file.text, toLex (location.line, toLex (symbol.qualifiedName, symbol.signature)))

/-! ## Line estimates and ownership -/

/-- The lines of a member can be counted. -/
def isMeasurable (extent : SourceExtent) : Bool :=
  !(extent.begin.file.isEmpty || !extent.begin.file.same extent.end.file || extent.begin.line == 0 ||
    decide (extent.end.line < extent.begin.line))

/-- The lines that `first … last` and the later ranges cover. -/
def coverFrom (first last : UInt64) : List (UInt64 × UInt64) → UInt64
  | [] => last - first + 1
  | range :: ranges =>
    if range.1 ≤ last ∨ range.1 - 1 = last then coverFrom first (max last range.2) ranges
    else (last - first + 1) + coverFrom range.1 range.2 ranges

/-- The lines that the ranges of one file cover. -/
def coveredLines (ranges : List (UInt64 × UInt64)) : UInt64 :=
  match sortOn toLex ranges with
  | [] => 0
  | range :: ranges => coverFrom range.1 range.2 ranges

def estimateLines (g : Graph) (members : List AggregateMember) : SourceLineEstimate :=
  let extents := members.map fun member => primarySourceExtent (g.symbol member.symbol)
  let rangesByFile := groupOn (fun extent => extent.begin.file.genericString) (extents.filter isMeasurable)
  { estimatedLoc :=
      (rangesByFile.map fun group => coveredLines (group.2.map fun extent => (extent.begin.line, extent.end.line))).sum
    unmeasuredSymbols := extents.countP fun extent => !isMeasurable extent }

def summarizeOwnership (g : Graph) (members : List AggregateMember) (labelFor : Symbol → Bytes) :
    List OwnershipSummary :=
  (groupOn (fun member => labelFor (g.symbol member.symbol))
      (members.filter fun member => labelFor (g.symbol member.symbol) ≠ [])).map
    fun group => { label := group.1, members := group.2, lines := estimateLines g group.2 }

/-- The file that a symbol is shown under. -/
def ownerFile (symbol : Symbol) : Path :=
  let extent := primarySourceExtent symbol
  if extent.location.file.isEmpty then extent.begin.file else extent.location.file

def fileLabel (symbol : Symbol) : Bytes := (ownerFile symbol).genericString

def directoryLabel (symbol : Symbol) : Bytes :=
  if (ownerFile symbol).isEmpty then [] else (ownerFile symbol).parentPath.genericString

/-! ## Unreachable components -/

def aggregateMembers (g : Graph) (result : ReachabilityResult) (suppressedSymbol : SymbolId → Bool)
    (sccs : List Nat) : List AggregateMember :=
  sortOn (fun member => (g.symbol member.symbol).key)
    (sccs.flatMap fun scc => (result.unreachableSccs.getD scc []).map fun symbol =>
      ⟨symbol, if suppressedSymbol symbol then .suppressed else .actionable⟩)

def aggregate (g : Graph) (result : ReachabilityResult) (suppressedSymbol : SymbolId → Bool)
    (component : List Nat × Nat) : UnreachableAggregate :=
  let members := aggregateMembers g result suppressedSymbol component.1
  { weakComponent := component.2
    sccs := component.1
    members
    lines := estimateLines g members
    types := summarizeOwnership g members (·.className)
    files := summarizeOwnership g members fileLabel
    directories := summarizeOwnership g members directoryLabel }

/-- `weak_component_by_scc`. -/
def weakComponentByScc (result : ReachabilityResult) : Nat → Nat :=
  groupTable (fun i => i) 0 result.unreachableWeakComponents

/-- List a condensation edge in its component. -/
def listEdge (byScc : Nat → Nat) (components : List UnreachableAggregate) (e : CondensationEdge) :
    List UnreachableAggregate :=
  if byScc e.fromScc = byScc e.toScc then
    components.modify (byScc e.fromScc) fun component => { component with edges := component.edges ++ [e] }
  else components

def buildReport (g : Graph) (result : ReachabilityResult) : AnalysisReport :=
  let tally := (List.range g.symbols.length).foldl (visitSymbol g result)
    { report := { publicApi := publicApiEntries g }, suppressedSymbol := fun _ => false }
  let report := tally.report
  { report with
    providerReachable :=
      uniqueOn (fun item => (item.symbol, item.from, item.evidence.provider, item.evidence.reason))
        (sortOn (providerOrder g) (providerEntries g result))
    publicApi :=
      uniqueOn (fun item => (item.symbol, item.evidence.provider, item.evidence.reason))
        (sortOn (publicApiOrder g) report.publicApi)
    findings := sortWith (findingBefore g) report.findings
    suppressedFindings := sortOn (suppressedFindingOrder g) report.suppressedFindings
    unreachableComponents :=
      result.unreachableCondensationEdges.foldl (listEdge (weakComponentByScc result))
        (result.unreachableWeakComponents.zipIdx.map (aggregate g result tally.suppressedSymbol)) }

end CxxDead
