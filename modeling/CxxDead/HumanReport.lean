import CxxDead.Accounting
import CxxDead.ReportWriter
/-!
# The human-readable reports

What the tool prints for a person: a report, a comparison, and the diagnostics of a
run that failed. The report lists its findings component by component, and looks each
of them up among the findings.

- `writeHumanReport_shows`: every finding is listed once, in its component.
-/

namespace CxxDead

open Lib Indexer

def newline : Bytes := [ch '\n']

/-- Items printed one after another. -/
def printAll {α : Type} (items : List α) (print : α → Bytes) : Bytes := items.flatMap print

/-- A section that is left out where there is nothing to list. -/
def printSection {α : Type} (title : String) (items : List α) (print : α → Bytes) : Bytes :=
  if items.isEmpty then [] else lit title ++ printAll items print

/-! ## Symbols and their sources -/

def humanLocation (point : SourcePoint) : Bytes :=
  if point.file.isEmpty then lit "<unknown>"
  else
    point.file.text ++ (if point.line ≠ 0 then lit ":" ++ decimal point.line.toNat else []) ++
      (if point.column ≠ 0 then lit ":" ++ decimal point.column.toNat else [])

def humanRange (extent : SourceExtent) : Bytes :=
  humanLocation extent.begin ++ lit " - " ++ humanLocation extent.end

def displaySymbol (symbol : Symbol) : Bytes := symbol.qualifiedName ++ lit " : " ++ symbol.signature

def writeHumanSource (symbol : Symbol) (indent : String) : Bytes :=
  let primary := primarySourceExtent symbol
  lit indent ++ lit "Location:         " ++ humanLocation primary.location ++ newline ++
    lit indent ++ lit "Definition range: " ++ humanRange primary ++ newline ++
    match symbol.source.expansion with
    | some expansion =>
      lit indent ++ lit "Spelling:         " ++ humanLocation symbol.source.spelling.location ++ newline ++
        lit indent ++ lit "Expansion:        " ++ humanLocation expansion.location ++ newline
    | none => []

def writeEvidenceLine (evidence : Evidence) : Bytes := evidence.provider ++ lit ": " ++ evidence.reason

section Parts
variable (g : Graph)

def writeHumanEvidence (evidence : List FindingEvidence) (indent : String) : Bytes :=
  printAll evidence fun item =>
    lit indent ++ lit "- [" ++ item.kind.toText ++ lit "] " ++ writeEvidenceLine item.evidence ++
      (match item.escapeKind with
        | some kind => lit " (" ++ kind.toText ++ lit ")"
        | none => []) ++
      (match item.from with
        | some id => lit " from " ++ displaySymbol (g.symbol id)
        | none => []) ++
      newline

/-! ## The report -/

def writeHumanContext (metadata : AnalysisMetadata) : Bytes :=
  lit "Run state: " ++ metadata.run.state.toText ++ lit " (" ++ metadata.run.frontend.toText ++ lit ", " ++
    writeSize metadata.run.translationUnits.length ++ lit " translation units)\n\n" ++
    if metadata.mode = lit "target" then
      lit "Analysis target: " ++ metadata.targetName ++ lit " (" ++ metadata.targetKind ++ lit ")\n" ++
        lit "Configuration: " ++ metadata.configuration ++ lit " [" ++ metadata.configurationId ++ lit "]\n" ++
        lit "Target closure: " ++ (lit ", ").intercalate metadata.closureTargets ++ lit "\n\n"
    else []

def writeHumanSummary (report : AnalysisReport) : Bytes :=
  lit "cxx-dead application reachability report\n\nSUMMARY\n" ++
    lit "  Graph symbols by scope:    " ++ writeSize report.reportableSymbols ++ lit " reportable, " ++
    writeSize report.indexedSymbols ++ lit " indexed, " ++ writeSize report.externalOpaqueSymbols ++
    lit " external opaque\n" ++
    lit "  Defined project functions: " ++ writeSize report.definedSymbols ++ newline ++
    lit "  Reachable:                 " ++ writeSize report.reachableSymbols ++ lit " (" ++
    writeSize report.structurallyReachableSymbols ++ lit " structural, " ++
    writeSize report.providerReachableSymbols ++ lit " provider)\n" ++
    lit "  Unreachable candidates:    " ++ writeSize report.unreachableSymbols ++ lit " (" ++
    writeSize report.actionableUnreachableSymbols ++ lit " actionable, " ++ writeSize report.suppressedSymbols ++
    lit " suppressed)\n" ++
    lit "  Library classes:           " ++ writeSize report.publicApiSymbols ++ lit " public API, " ++
    writeSize report.internalLiveSymbols ++ lit " internal live, " ++ writeSize report.internalUnreachableSymbols ++
    lit " internal unreachable\n\n"

def writeHumanRoot (root : Root) : Bytes :=
  lit "  " ++ displaySymbol (g.symbol root.symbol) ++ lit " [" ++ root.kind.toText ++ lit "]\n" ++
    lit "    Scope:    " ++ (g.symbol root.symbol).scope.toText ++ newline ++
    lit "    Evidence: " ++ writeEvidenceLine root.evidence ++ newline

def writeHumanPublicApi (retained : ProviderReachability) : Bytes :=
  lit "  " ++ displaySymbol (g.symbol retained.symbol) ++ lit " [externally_reachable]\n" ++
    lit "    Evidence: " ++ writeEvidenceLine retained.evidence ++ newline

def writeHumanProviderReachable (retained : ProviderReachability) : Bytes :=
  lit "  " ++ displaySymbol (g.symbol retained.symbol) ++ newline ++
    (match retained.from with
      | some id => lit "    From:     " ++ displaySymbol (g.symbol id) ++ newline
      | none => []) ++
    lit "    Evidence: " ++ writeEvidenceLine retained.evidence ++ newline

/-! ## Components -/

def UnreachableAggregate.actionable (component : UnreachableAggregate) : List AggregateMember :=
  component.members.filter (·.disposition == .actionable)

def writeHumanOwnership (kind : String) (summaries : List OwnershipSummary) : Bytes :=
  printAll summaries fun summary =>
    lit "    - " ++ lit kind ++ lit " " ++ summary.label ++ lit ": " ++ writeSize summary.members.length ++
      lit " symbols, estimated " ++ decimal summary.lines.estimatedLoc.toNat ++ lit " LOC" ++
      (if summary.lines.unmeasuredSymbols ≠ 0 then
        lit " (" ++ writeSize summary.lines.unmeasuredSymbols ++ lit " unmeasured)"
      else []) ++
      newline

def writeHumanFinding (finding : Finding) : Bytes :=
  let symbol := g.symbol finding.symbol
  lit "\n    " ++ displaySymbol symbol ++ newline ++ writeHumanSource symbol "      " ++
    lit "      Kind:           " ++ symbol.kind.toText ++ newline ++
    lit "      Classification: " ++ finding.classification.toText ++ newline ++
    lit "      Evidence:\n" ++ writeHumanEvidence g finding.evidence "        "

/-- The findings that the writer looks up for the members of a component. -/
def shownFindings (report : AnalysisReport) (component : UnreachableAggregate) : List Finding :=
  component.actionable.filterMap fun member => report.findings.find? (·.symbol == member.symbol)

def writeHumanComponent (report : AnalysisReport) (component : UnreachableAggregate) : Bytes :=
  let actionable := component.actionable.length
  let suppressed := component.members.length - actionable
  if actionable = 0 then []
  else
    lit "UNREACHABLE COMPONENT CANDIDATE\n\n" ++
      lit "  Component:       " ++ writeSize component.weakComponent ++ newline ++
      lit "  SCCs:            " ++ writeSize component.sccs.length ++ newline ++
      lit "  Findings:        " ++ writeSize actionable ++ lit " actionable, " ++ writeSize suppressed ++
      lit " suppressed\n" ++
      lit "  Estimated LOC:   " ++ decimal component.lines.estimatedLoc.toNat ++
      (if component.lines.unmeasuredSymbols ≠ 0 then
        lit " (" ++ writeSize component.lines.unmeasuredSymbols ++ lit " unmeasured symbols)"
      else []) ++
      lit "\n  Ownership hints:\n" ++ writeHumanOwnership "type" component.types ++
      writeHumanOwnership "file" component.files ++ writeHumanOwnership "directory" component.directories ++
      lit "  Actionable findings:\n" ++ printAll (shownFindings report component) (writeHumanFinding g) ++
      (if suppressed ≠ 0 then lit "\n  Suppressed members are audited in SUPPRESSED FINDINGS below.\n" else []) ++
      newline

def writeHumanFindings (report : AnalysisReport) : Bytes :=
  if report.findings.isEmpty then lit "No actionable unreachable function definitions found.\n"
  else printAll report.unreachableComponents (writeHumanComponent g report)

def writeHumanSuppressed (suppressed : SuppressedFinding) : Bytes :=
  let symbol := g.symbol suppressed.finding.symbol
  displaySymbol symbol ++ newline ++ writeHumanSource symbol "  " ++
    lit "  Original classification: " ++ suppressed.finding.classification.toText ++ newline ++
    lit "  Original evidence:\n" ++ writeHumanEvidence g suppressed.finding.evidence "    " ++
    lit "  Suppression evidence:\n" ++
    printAll suppressed.suppressions (fun evidence => lit "    - " ++ writeEvidenceLine evidence ++ newline) ++ newline

def writeHumanReport (report : AnalysisReport) (diagnostics : List Bytes) (metadata : AnalysisMetadata) : Bytes :=
  writeHumanContext metadata ++ writeHumanSummary report ++
    lit "ROOTS\n" ++ printAll g.roots (writeHumanRoot g) ++ newline ++
    printSection "PUBLIC API\n" report.publicApi (writeHumanPublicApi g) ++
    (if report.publicApi.isEmpty then [] else newline) ++
    printSection "PROVIDER-REACHABLE SYMBOLS\n" report.providerReachable (writeHumanProviderReachable g) ++
    (if report.providerReachable.isEmpty then [] else newline) ++
    writeHumanFindings g report ++
    printSection "SUPPRESSED FINDINGS\n\n" report.suppressedFindings (writeHumanSuppressed g) ++
    printSection "DIAGNOSTICS\n" diagnostics (fun diagnostic => lit "  - " ++ diagnostic ++ newline)

end Parts

/-! ## Failed runs and comparisons -/

def writeHumanUnit (unit : TranslationUnitDiagnostic) : Bytes :=
  lit "  - " ++ unit.file.text ++ lit " [" ++ unit.status.toText ++ lit "]\n" ++
    lit "    Stage: " ++ unit.stage ++ newline ++ lit "    Cause: " ++ unit.message ++ newline ++
    (match unit.exitCode with
      | some code => lit "    Exit:  " ++ writeInt code ++ newline
      | none => []) ++
    (match unit.signal with
      | some signal => if signal ≠ 0 then lit "    Signal: " ++ writeInt signal ++ newline else []
      | none => [])

def writeHumanRunDiagnostic (message : Bytes) (run : RunDiagnostics) : Bytes :=
  lit "cxx-dead indexing run\n\nRUN STATE\n" ++
    lit "  State:                   " ++ run.state.toText ++ newline ++
    lit "  Frontend:                " ++ run.frontend.toText ++ newline ++
    lit "  Partial graph discarded: " ++ (if run.partialGraphDiscarded then lit "yes" else lit "no") ++ lit "\n\n" ++
    lit "TRANSLATION UNITS\n" ++ printAll run.translationUnits writeHumanUnit ++
    lit "\nDIAGNOSTIC\n  " ++ whatText message ++ newline

def writeHumanChange (change : DifferentialChange) : Bytes :=
  let location := (primarySourceExtent change.symbol).location
  change.kind.toText ++ (if change.policyMatch then lit " [policy_match]" else []) ++ newline ++
    lit "  " ++ displayName change.symbol ++ lit " : " ++ change.symbol.signature ++ newline ++
    lit "  Stable ID: " ++ change.symbol.key ++ newline ++
    (if !location.file.isEmpty then
      lit "  Location: " ++ location.file.text ++ lit ":" ++ decimal location.line.toNat ++ lit ":" ++
        decimal location.column.toNat ++ newline
    else []) ++
    (match change.current.classification with
      | some classification =>
        lit "  Current: " ++ classification.toText ++ (if change.current.suppressed then lit " [suppressed]" else []) ++
          newline
      | none => []) ++
    newline

def writeHumanDifferentialReport (report : DifferentialReport) : Bytes :=
  lit "cxx-dead differential reachability report\n\nContext: " ++
    (if report.current.targetName = [] then lit "application" else report.current.targetName) ++
    lit " [" ++ report.current.configurationId ++ lit "]\n" ++
    lit "Frontend: " ++ report.current.frontend.toText ++ lit "\n\nSUMMARY\n" ++
    lit "  New symbols:          " ++ writeSize report.newSymbols ++ newline ++
    lit "  Newly unreachable:    " ++ writeSize report.newlyUnreachable ++ newline ++
    lit "  Removed:              " ++ writeSize report.removed ++ newline ++
    lit "  Became reachable:     " ++ writeSize report.becameReachable ++ newline ++
    lit "  Policy matches:       " ++ writeSize report.policyMatches ++ lit "\n\n" ++
    if report.changes.isEmpty then lit "No reportable reachability changes found.\n"
    else printAll report.changes writeHumanChange

/-! ## The listed findings -/

section Printing
variable {α : Type} {items : List α} {print : α → Bytes} {item : α}

theorem infix_printAll (h : item ∈ items) : print item <:+: printAll items print := by
  obtain ⟨before, after, rfl⟩ := List.append_of_mem h
  refine ⟨printAll before print, printAll after print, ?_⟩
  simp only [printAll, List.flatMap_append, List.flatMap_cons, List.append_assoc]

theorem infix_printSection (title : String) (h : item ∈ items) : print item <:+: printSection title items print := by
  have hne : items.isEmpty = false := by
    cases items with
    | nil => cases h
    | cons first rest => rfl
  rw [printSection, hne]
  exact List.infix_append_of_infix_right (infix_printAll h)

end Printing

section Report
variable {g : Graph} (hg : g.ValidIds)

/-- The report of a graph. -/
def reportOf (g : Graph) : AnalysisReport := buildReport g (analyzeReachability g)

include hg

/-- The actionable members of the components are the candidates that no suppression names. -/
theorem mem_actionable_iff {id : SymbolId} :
    id ∈ ((reportOf g).unreachableComponents.flatMap (·.actionable)).map (·.symbol) ↔
      g.IsCandidate id ∧ isSuppressed g id = false := by
  have hdisposition : dispositionOf g id = .actionable ↔ isSuppressed g id = false := by
    rw [Bool.eq_false_iff, ne_eq, isSuppressed_iff]
    unfold dispositionOf
    split
    · simp_all
    · simp_all
  have hfilter : (reportOf g).unreachableComponents.flatMap (·.actionable) =
      ((reportOf g).unreachableComponents.flatMap (·.members)).filter (·.disposition == .actionable) := by
    rw [List.filter_flatMap]
    rfl
  rw [hfilter, List.mem_map]
  simp only [List.mem_filter, reportOf, mem_componentMembers_iff hg, beq_iff_eq]
  constructor
  · rintro ⟨member, ⟨⟨hcandidate, hmember⟩, hactionable⟩, rfl⟩
    exact ⟨hcandidate, hdisposition.1 (hmember.symm.trans hactionable)⟩
  · rintro ⟨hcandidate, hsuppressed⟩
    have hactionable := hdisposition.2 hsuppressed
    exact ⟨⟨id, .actionable⟩, ⟨⟨hcandidate, hactionable.symm⟩, rfl⟩, rfl⟩

theorem actionable_nodup : (((reportOf g).unreachableComponents.flatMap (·.actionable)).map (·.symbol)).Nodup := by
  have hmembers : ((((reportOf g).unreachableComponents.flatMap (·.members))).map (·.symbol)).Nodup := by
    refine ((componentMembers_perm hg).map _).nodup_iff.2 ?_
    rw [List.map_map]
    exact (List.map_id _).symm ▸ (Graph.unreachableSccs_classes hg).nodup
  rw [show (reportOf g).unreachableComponents.flatMap (·.actionable) =
    ((reportOf g).unreachableComponents.flatMap (·.members)).filter (·.disposition == .actionable) from
      List.filter_flatMap.symm]
  exact hmembers.sublist (List.filter_sublist.map _)

omit hg in
theorem mem_findingSymbols_iff {id : SymbolId} :
    id ∈ (reportOf g).findings.map (·.symbol) ↔ g.IsCandidate id ∧ isSuppressed g id = false := by
  rw [reportOf, (buildReport_findings_perm g (analyzeReachability g)).mem_iff, mem_dead_filter]
  simp

omit hg in
theorem findingSymbols_nodup : ((reportOf g).findings.map (·.symbol)).Nodup :=
  (buildReport_findings_perm g (analyzeReachability g)).nodup_iff.2 (List.nodup_range.filter _)

/-- Every actionable member has a finding, and it is the only one of that symbol. -/
theorem shownFindings_symbols {component : UnreachableAggregate} (hc : component ∈ (reportOf g).unreachableComponents) :
    (shownFindings (reportOf g) component).map (·.symbol) = component.actionable.map (·.symbol) := by
  have hfound : ∀ member ∈ component.actionable, ∃ finding,
      (reportOf g).findings.find? (·.symbol == member.symbol) = some finding ∧ finding.symbol = member.symbol := by
    intro member hmember
    have hid := (mem_actionable_iff hg).1 (List.mem_map_of_mem (List.mem_flatMap.2 ⟨component, hc, hmember⟩))
    obtain ⟨finding, hfinding, hsymbol⟩ := List.mem_map.1 (mem_findingSymbols_iff.2 hid)
    obtain ⟨found, hfound⟩ := Option.isSome_iff_exists.1
      (List.find?_isSome.2 ⟨finding, hfinding, beq_iff_eq.2 hsymbol⟩ :
        ((reportOf g).findings.find? (·.symbol == member.symbol)).isSome)
    exact ⟨found, hfound, by simpa using List.find?_some hfound⟩
  unfold shownFindings
  generalize component.actionable = members at hfound
  induction members with
  | nil => rfl
  | cons member rest ih =>
    obtain ⟨finding, hfinding, hsymbol⟩ := hfound member List.mem_cons_self
    simp only [List.filterMap_cons, hfinding, List.map_cons, hsymbol,
      ih fun other hother => hfound other (List.mem_cons_of_mem _ hother)]

theorem shownFindings_perm :
    ((reportOf g).unreachableComponents.flatMap (shownFindings (reportOf g))).Perm (reportOf g).findings := by
  have hsymbols : ((reportOf g).unreachableComponents.flatMap (shownFindings (reportOf g))).map (·.symbol) =
      ((reportOf g).unreachableComponents.flatMap (·.actionable)).map (·.symbol) := by
    rw [List.map_flatMap, List.map_flatMap]
    exact List.flatMap_congr fun component hc => shownFindings_symbols hg hc
  have hmem : ∀ finding ∈ (reportOf g).unreachableComponents.flatMap (shownFindings (reportOf g)),
      finding ∈ (reportOf g).findings := by
    intro finding hfinding
    obtain ⟨component, -, hshown⟩ := List.mem_flatMap.1 hfinding
    obtain ⟨member, -, hfound⟩ := List.mem_filterMap.1 hshown
    exact List.mem_of_find?_eq_some hfound
  have hnodup : ((reportOf g).unreachableComponents.flatMap (shownFindings (reportOf g))).Nodup := by
    refine List.Nodup.of_map (·.symbol) ?_
    rw [hsymbols]
    exact actionable_nodup hg
  -- neither list repeats a finding, so it is enough that they have the same ones
  refine (List.perm_ext_iff_of_nodup hnodup findingSymbols_nodup.of_map).2 fun finding => ⟨hmem finding, fun h => ?_⟩
  have hid := (mem_actionable_iff hg).2 (mem_findingSymbols_iff.1 (List.mem_map_of_mem h))
  rw [← hsymbols] at hid
  obtain ⟨shown, hshown, hsame⟩ := List.mem_map.1 hid
  rw [← List.inj_on_of_nodup_map findingSymbols_nodup (hmem shown hshown) h hsame]
  exact hshown

/-- What a reader of the text can rely on. -/
structure ShowsFindings (g : Graph) (report : AnalysisReport) (text : Bytes) : Prop where
  /-- The findings in the sections of the components are those of the report. -/
  listed_perm : (report.unreachableComponents.flatMap (shownFindings report)).Perm report.findings
  /-- A component announces as many findings as it lists. -/
  announced : ∀ component ∈ report.unreachableComponents,
    (shownFindings report component).map (·.symbol) = component.actionable.map (·.symbol)
  /-- No component is left out because there is nothing to report. -/
  none_iff : report.findings = [] ↔ ∀ component ∈ report.unreachableComponents, component.actionable = []
  finding_shown : ∀ finding ∈ report.findings, writeHumanFinding g finding <:+: text
  suppressed_shown : ∀ suppressed ∈ report.suppressedFindings, writeHumanSuppressed g suppressed <:+: text

theorem writeHumanComponent_shows {component : UnreachableAggregate} (hc : component ∈ (reportOf g).unreachableComponents)
    {finding : Finding} (hshown : finding ∈ shownFindings (reportOf g) component) :
    writeHumanFinding g finding <:+: writeHumanComponent g (reportOf g) component := by
  -- a component with nothing to report is left out, but this one has the finding
  have hne : component.actionable.length ≠ 0 := by
    have := List.length_pos_of_mem (List.mem_map_of_mem (f := Finding.symbol) hshown)
    rw [shownFindings_symbols hg hc, List.length_map] at this
    exact this.ne'
  unfold writeHumanComponent
  simp only [if_neg hne]
  exact List.infix_append_of_infix_left (List.infix_append_of_infix_left
    (List.infix_append_of_infix_right (infix_printAll hshown)))

theorem writeHumanFindings_shows {finding : Finding} (hfinding : finding ∈ (reportOf g).findings) :
    writeHumanFinding g finding <:+: writeHumanFindings g (reportOf g) := by
  obtain ⟨component, hc, hshown⟩ := List.mem_flatMap.1 ((shownFindings_perm hg).mem_iff.2 hfinding)
  have hsome : (reportOf g).findings.isEmpty = false := by
    rw [List.isEmpty_eq_false_iff]
    exact List.ne_nil_of_mem hfinding
  rw [writeHumanFindings, hsome]
  exact (writeHumanComponent_shows hg hc hshown).trans (infix_printAll hc)

theorem writeHumanReport_shows (diagnostics : List Bytes) (metadata : AnalysisMetadata) :
    ShowsFindings g (reportOf g) (writeHumanReport g (reportOf g) diagnostics metadata) := by
  have hperm := shownFindings_perm hg
  refine ⟨hperm, fun component hc => shownFindings_symbols hg hc, ?_, fun finding hfinding => ?_,
    fun suppressed hsuppressed => ?_⟩
  · rw [← List.perm_nil, ← hperm.congr_left, List.perm_nil, List.flatMap_eq_nil_iff]
    refine forall₂_congr fun component hc => ?_
    rw [← List.map_eq_nil_iff (f := Finding.symbol), shownFindings_symbols hg hc, List.map_eq_nil_iff]
  · unfold writeHumanReport
    exact List.infix_append_of_infix_left (List.infix_append_of_infix_left
      (List.infix_append_of_infix_right (writeHumanFindings_shows hg hfinding)))
  · unfold writeHumanReport
    exact List.infix_append_of_infix_left
      (List.infix_append_of_infix_right (infix_printSection "SUPPRESSED FINDINGS\n\n" hsuppressed))

end Report

theorem deadCycle_shown : ShowsFindings Graph.deadCycle (reportOf Graph.deadCycle)
    (writeHumanReport Graph.deadCycle (reportOf Graph.deadCycle) [lit "no tests"] {}) :=
  writeHumanReport_shows ⟨by decide, by decide, by decide, by decide⟩ [lit "no tests"] {}

end CxxDead
