import CxxDead.Accounting
/-!
# Suppressions

What suppression facts change in a report, and what they leave alone.

- `addSuppressions_movesFindings`: suppressions move findings to the suppressed
  ones and set dispositions; nothing else in the report depends on them.
-/

namespace CxxDead

open Lib CxxDead.Graph

/-- Add suppressions, each for a symbol and with its evidence. -/
def addSuppressions (facts : List (SymbolId × Evidence)) : GraphM Unit :=
  facts.forM fun fact => addSuppression fact.1 fact.2

/-- What has been found out about unreachable symbols, suppressed or not. -/
def AnalysisReport.allFindings (report : AnalysisReport) : List Finding :=
  report.findings ++ report.suppressedFindings.map (·.finding)

/-- The parts that are not about unreachable symbols, and the counts besides those of actionable and suppressed ones. -/
def AnalysisReport.frame (report : AnalysisReport) : AnalysisReport :=
  { report with
    findings := []
    suppressedFindings := []
    actionableUnreachableSymbols := 0
    suppressedSymbols := 0
    unreachableComponents := [] }

/-! ## Components without their dispositions -/

def AggregateMember.undisposed (member : AggregateMember) : AggregateMember := { member with disposition := .actionable }

def OwnershipSummary.undisposed (summary : OwnershipSummary) : OwnershipSummary :=
  { summary with members := summary.members.map AggregateMember.undisposed }

def UnreachableAggregate.undisposed (component : UnreachableAggregate) : UnreachableAggregate :=
  { component with
    members := component.members.map AggregateMember.undisposed
    types := component.types.map OwnershipSummary.undisposed
    files := component.files.map OwnershipSummary.undisposed
    directories := component.directories.map OwnershipSummary.undisposed }

section Undisposed
variable (g : Graph) (result : ReachabilityResult)

theorem aggregateMembers_undisposed (suppressedSymbol : SymbolId → Bool) (sccs : List Nat) :
    (aggregateMembers g result suppressedSymbol sccs).map AggregateMember.undisposed =
      aggregateMembers g result (fun _ => false) sccs := by
  have hkey : (fun member : AggregateMember => (g.symbol member.symbol).key) ∘ AggregateMember.undisposed =
      fun member => (g.symbol member.symbol).key := rfl
  unfold aggregateMembers
  rw [← hkey, ← sortOn_map, hkey, List.map_flatMap]
  simp only [List.map_map, Function.comp_def, AggregateMember.undisposed, Bool.false_eq_true, if_false]

/-- Only the symbols of the members count. -/
theorem estimateLines_undisposed (members : List AggregateMember) :
    estimateLines g (members.map AggregateMember.undisposed) = estimateLines g members := by
  unfold estimateLines
  rw [List.map_map]
  rfl

theorem summarizeOwnership_undisposed (members : List AggregateMember) (labelFor : Symbol → Bytes) :
    summarizeOwnership g (members.map AggregateMember.undisposed) labelFor =
      (summarizeOwnership g members labelFor).map OwnershipSummary.undisposed := by
  unfold summarizeOwnership groupOn
  simp only [List.filter_map, List.map_map, Function.comp_def, OwnershipSummary.undisposed, estimateLines_undisposed]
  rfl

theorem aggregate_undisposed (suppressedSymbol : SymbolId → Bool) (component : List Nat × Nat) :
    (aggregate g result suppressedSymbol component).undisposed = aggregate g result (fun _ => false) component := by
  have hmembers := aggregateMembers_undisposed g result suppressedSymbol component.1
  unfold aggregate UnreachableAggregate.undisposed
  simp only [← hmembers, estimateLines_undisposed, summarizeOwnership_undisposed]

theorem listEdge_undisposed (byScc : Nat → Nat) (components : List UnreachableAggregate) (e : CondensationEdge) :
    (listEdge byScc components e).map UnreachableAggregate.undisposed =
      listEdge byScc (components.map UnreachableAggregate.undisposed) e := by
  unfold listEdge
  split
  · refine List.ext_getElem? fun i => ?_
    rw [List.getElem?_map, List.getElem?_modify, List.getElem?_modify, List.getElem?_map]
    cases components[i]? with
    | none => rfl
    | some component =>
      simp only [Option.map_some]
      split <;> rfl
  · rfl

theorem components_undisposed :
    (buildReport g result).unreachableComponents.map UnreachableAggregate.undisposed =
      result.unreachableCondensationEdges.foldl (listEdge (weakComponentByScc result))
        (result.unreachableWeakComponents.zipIdx.map (aggregate g result fun _ => false)) := by
  have hfold : ∀ (l : List CondensationEdge) (components : List UnreachableAggregate),
      (l.foldl (listEdge (weakComponentByScc result)) components).map UnreachableAggregate.undisposed =
        l.foldl (listEdge (weakComponentByScc result)) (components.map UnreachableAggregate.undisposed) := by
    intro l
    induction l with
    | nil => exact fun _ => rfl
    | cons e l ih =>
      intro components
      rw [List.foldl_cons, List.foldl_cons, ih, listEdge_undisposed]
  have hbare : (bareComponents g result).map UnreachableAggregate.undisposed =
      result.unreachableWeakComponents.zipIdx.map (aggregate g result fun _ => false) := by
    rw [bareComponents, List.map_map]
    exact List.map_congr_left fun component _ => aggregate_undisposed g result _ component
  rw [buildReport_components, hfold, hbare]

end Undisposed

/-! ## Ownership -/

/-- A component's ownership lists only members of the component. -/
structure OwnsMembers (component : UnreachableAggregate) : Prop where
  types : ∀ summary ∈ component.types, summary.members ⊆ component.members
  files : ∀ summary ∈ component.files, summary.members ⊆ component.members
  directories : ∀ summary ∈ component.directories, summary.members ⊆ component.members

theorem summarizeOwnership_members {g : Graph} {members : List AggregateMember} {labelFor : Symbol → Bytes}
    {summary : OwnershipSummary} (h : summary ∈ summarizeOwnership g members labelFor) : summary.members ⊆ members := by
  obtain ⟨group, hgroup, rfl⟩ := List.mem_map.1 h
  obtain ⟨label, -, rfl⟩ := List.mem_map.1 hgroup
  intro member hmember
  exact (List.mem_filter.1 (List.mem_filter.1 hmember).1).1

theorem buildReport_ownsMembers (g : Graph) (result : ReachabilityResult) :
    ∀ component ∈ (buildReport g result).unreachableComponents, OwnsMembers component := by
  have hstep : ∀ byScc e components, (∀ component ∈ components, OwnsMembers component) →
      ∀ component ∈ listEdge byScc components e, OwnsMembers component := by
    intro byScc e components h component hc
    unfold listEdge at hc
    split at hc
    · obtain ⟨i, hi⟩ := List.mem_iff_getElem?.1 hc
      rw [List.getElem?_modify] at hi
      obtain ⟨old, hold, rfl⟩ := Option.map_eq_some_iff.1 hi
      have howns := h old (List.mem_of_getElem? hold)
      split
      · exact ⟨howns.types, howns.files, howns.directories⟩
      · exact howns
    · exact h component hc
  rw [buildReport_components]
  refine List.foldlRecOn _ _ (fun component hc => ?_) fun components h e _ => hstep _ e components h
  obtain ⟨_, -, rfl⟩ := List.mem_map.1 hc
  exact ⟨fun _ => summarizeOwnership_members, fun _ => summarizeOwnership_members, fun _ => summarizeOwnership_members⟩

/-! ## Two graphs that differ in suppressions -/

section Frame
variable (g : Graph) (suppressions : List Suppression) (result : ReachabilityResult)

/-- Suppressions give a finding its list, not its place among the unreachable symbols. -/
theorem allFindings_perm : (buildReport g result).allFindings.Perm
    (((List.range g.symbols.length).filter (isDeadSymbol g result)).map fun id => classify g id (g.symbol id)) := by
  have hfindings : (buildReport g result).findings.Perm (tallied g result).report.findings := sortWith_perm _ _
  have hsuppressed : (buildReport g result).suppressedFindings.Perm (tallied g result).report.suppressedFindings :=
    sortWith_perm _ _
  refine (hfindings.append (hsuppressed.map _)).trans ?_
  rw [tallied_findings, tallied_suppressedFindings, List.map_map, Function.comp_def, ← List.map_append]
  refine List.Perm.map _ ?_
  have hsplit := List.filter_append_perm (fun id => !isSuppressed g id)
    ((List.range g.symbols.length).filter (isDeadSymbol g result))
  simpa only [List.filter_filter, Bool.not_not, Bool.and_comm] using hsplit

theorem visitSymbol_frame {tally tally' : Tally} (h : tally.report.frame = tally'.report.frame) (id : SymbolId) :
    (visitSymbol g result tally id).report.frame =
      (visitSymbol { g with suppressions := suppressions } result tally' id).report.frame := by
  rw [visitSymbol_eq, visitSymbol_eq]
  simp only [AnalysisReport.frame, AnalysisReport.mk.injEq, countScope, true_and, and_true] at h ⊢
  obtain ⟨h₁, h₂, h₃, h₄, h₅, h₆, h₇, h₈, h₉, h₁₀, h₁₁, h₁₂, h₁₃⟩ := h
  rw [h₁, h₂, h₃, h₄, h₅, h₆, h₇, h₈, h₉, h₁₀, h₁₁, h₁₂, h₁₃]
  exact ⟨rfl, rfl, rfl, rfl, rfl, rfl, rfl, rfl, rfl, rfl, rfl, rfl, rfl⟩

theorem buildReport_frame : (buildReport g result).frame =
    (buildReport { g with suppressions := suppressions } result).frame := by
  have hfold : ∀ (l : List SymbolId) (tally tally' : Tally), tally.report.frame = tally'.report.frame →
      (l.foldl (visitSymbol g result) tally).report.frame =
        (l.foldl (visitSymbol { g with suppressions := suppressions } result) tally').report.frame := by
    intro l
    induction l with
    | nil => exact fun _ _ h => h
    | cons id l ih => exact fun tally tally' h => ih _ _ (visitSymbol_frame g suppressions result h id)
  have htally := hfold (List.range g.symbols.length)
    { report := { publicApi := publicApiEntries g }, suppressedSymbol := fun _ => false }
    { report := { publicApi := publicApiEntries g }, suppressedSymbol := fun _ => false } rfl
  simp only [AnalysisReport.frame, AnalysisReport.mk.injEq, true_and, and_true] at htally ⊢
  obtain ⟨h₁, h₂, h₃, h₄, h₅, h₆, h₇, h₈, h₉, h₁₀, h₁₁, h₁₂, -⟩ := htally
  refine ⟨h₁, h₂, h₃, h₄, h₅, h₆, h₇, h₈, h₉, h₁₀, h₁₁, ?_, rfl⟩
  exact congrArg
    (fun api => uniqueOn (fun item => (item.symbol, item.evidence.provider, item.evidence.reason))
      (sortOn (publicApiOrder g) api)) h₁₂

theorem allFindings_nodup : ((buildReport g result).allFindings.map (·.symbol)).Nodup := by
  have hsymbols : (((List.range g.symbols.length).filter (isDeadSymbol g result)).map
      fun id => classify g id (g.symbol id)).map (·.symbol) =
        (List.range g.symbols.length).filter (isDeadSymbol g result) := by
    rw [List.map_map]
    exact (List.map_congr_left fun id _ => classify_symbol g id _).trans (List.map_id _)
  refine ((allFindings_perm g result).map _).nodup_iff.2 ?_
  rw [hsymbols]
  exact List.nodup_range.filter _

end Frame

/-! ## Adding suppressions -/

theorem addSuppressions_ok {facts : List (SymbolId × Evidence)} {g g' : Graph}
    (h : addSuppressions facts g = .ok () g') :
    (∀ fact ∈ facts, fact.1 < g.symbols.length) ∧
    ∃ suppressions, g' = { g with suppressions := suppressions } ∧
      ∀ s, s ∈ suppressions ↔ s ∈ g.suppressions ∨ (s.symbol, s.evidence) ∈ facts := by
  induction facts generalizing g with
  | nil =>
    obtain ⟨-, rfl⟩ := pure_ok_iff.1 h
    exact ⟨fun _ hfact => absurd hfact List.not_mem_nil, g.suppressions, rfl, fun s => by simp⟩
  | cons fact facts ih =>
    obtain ⟨⟨⟩, mid, hadd, hrest⟩ := bind_ok_iff.1 h
    obtain ⟨hvalid, -, rfl⟩ := guarded_ok_iff.1 hadd
    obtain ⟨hvalids, suppressions, rfl, hmem⟩ := ih hrest
    refine ⟨fun other hother => ?_, suppressions, rfl, fun s => ?_⟩
    · rcases List.mem_cons.1 hother with rfl | hother
      · exact not_le.1 hvalid
      · exact hvalids other hother
    · have hfact : s = ⟨fact.1, fact.2⟩ ↔ (s.symbol, s.evidence) = fact := by
        cases s
        cases fact
        simp
      rw [hmem, mem_addFact, hfact, List.mem_cons, or_assoc]

theorem dispositionOf_suppressed {g : Graph} {id : SymbolId} :
    dispositionOf g id = .suppressed ↔ ∃ s ∈ g.suppressions, s.symbol = id := by
  unfold dispositionOf
  split
  · rename_i hs
    exact iff_of_true rfl hs
  · rename_i hs
    exact iff_of_false (by decide) hs

/-- What suppressions may change between two graphs: the list that a finding is
on, the counts of actionable and suppressed symbols, and dispositions. -/
structure MovesFindings (g g' : Graph) : Prop where
  reachability : analyzeReachability g' = analyzeReachability g
  findings : (buildReport g' (analyzeReachability g')).allFindings.Perm
    (buildReport g (analyzeReachability g)).allFindings
  findings_nodup : ((buildReport g (analyzeReachability g)).allFindings.map (·.symbol)).Nodup
  frame : (buildReport g' (analyzeReachability g')).frame = (buildReport g (analyzeReachability g)).frame
  components : (buildReport g' (analyzeReachability g')).unreachableComponents.map UnreachableAggregate.undisposed =
    (buildReport g (analyzeReachability g)).unreachableComponents.map UnreachableAggregate.undisposed
  suppressed : ∀ component ∈ (buildReport g' (analyzeReachability g')).unreachableComponents,
    ∀ member ∈ component.members, member.disposition = .suppressed ↔ ∃ s ∈ g'.suppressions, s.symbol = member.symbol
  owns : ∀ component ∈ (buildReport g' (analyzeReachability g')).unreachableComponents, OwnsMembers component

/-- Suppressing what is there moves findings and sets dispositions. -/
theorem movesFindings {g : Graph} (h : g.ValidIds) {suppressions : List Suppression}
    (hvalid : ∀ s ∈ suppressions, s.symbol < g.symbols.length) :
    MovesFindings g { g with suppressions := suppressions } := by
  have hids : ({ g with suppressions := suppressions } : Graph).ValidIds := ⟨h.edges, h.roots, h.escapes, hvalid⟩
  have hresult : analyzeReachability { g with suppressions := suppressions } = analyzeReachability g := rfl
  refine ⟨hresult, ?_, allFindings_nodup g _, (buildReport_frame g suppressions _).symm, ?_, ?_,
    buildReport_ownsMembers _ _⟩
  · exact (allFindings_perm _ _).trans (allFindings_perm g _).symm
  · rw [components_undisposed, components_undisposed]
    rfl
  · intro component hcomponent member hmember
    obtain ⟨-, hdisposition⟩ :=
      (mem_componentMembers_iff hids).1 (List.mem_flatMap.2 ⟨component, hcomponent, hmember⟩)
    rw [hdisposition, dispositionOf_suppressed]

theorem addSuppressions_movesFindings {g g' : Graph} (h : g.ValidIds) {facts : List (SymbolId × Evidence)}
    (hadd : addSuppressions facts g = .ok () g') :
    (∀ s, s ∈ g'.suppressions ↔ s ∈ g.suppressions ∨ (s.symbol, s.evidence) ∈ facts) ∧ MovesFindings g g' := by
  obtain ⟨hvalids, suppressions, rfl, hmem⟩ := addSuppressions_ok hadd
  refine ⟨hmem, movesFindings h fun s hs => ?_⟩
  rcases (hmem s).1 hs with hold | hnew
  · exact h.suppressions s hold
  · exact hvalids _ hnew

/-- A suppressed symbol of a dead cycle. -/
theorem deadCycle_movesFindings :
    MovesFindings Graph.deadCycle
      { Graph.deadCycle with suppressions := [⟨1, ⟨lit "ci", lit "kept for a plugin"⟩⟩] } :=
  (addSuppressions_movesFindings ⟨by decide, by decide, by decide, by decide⟩
    (rfl : addSuppressions [(1, ⟨lit "ci", lit "kept for a plugin"⟩)] Graph.deadCycle = _)).2

end CxxDead
