import CxxDead.Components
import CxxDead.Report
import CxxDead.Lib.Folds
/-!
# The report's accounts

Each counter and each list of `buildReport` in closed form, and that they agree.

- `visitSymbol_eq`: what one turn of the counting loop adds.
- `buildReport_accounts`: the counters add up, the findings are the unreachable
  symbols, each once, and so are the members of the components.
-/

namespace CxxDead

open Lib

variable {g : Graph}

/-! ## One turn -/

/-- Reported and reachable. -/
def isLiveSymbol (g : Graph) (result : ReachabilityResult) (id : SymbolId) : Bool :=
  isReported (g.symbol id) && flag result.reachable id

/-- Reported and not reachable. -/
def isDeadSymbol (g : Graph) (result : ReachabilityResult) (id : SymbolId) : Bool :=
  isReported (g.symbol id) && !flag result.reachable id

def isSuppressed (g : Graph) (id : SymbolId) : Bool := !(suppressionsOf g id).isEmpty

theorem isSuppressed_iff {id : SymbolId} : isSuppressed g id = true ↔ ∃ s ∈ g.suppressions, s.symbol = id := by
  simp [isSuppressed, suppressionsOf, List.filter_eq_nil_iff]

theorem classify_symbol (g : Graph) (id : SymbolId) (symbol : Symbol) : (classify g id symbol).symbol = id := by
  unfold classify
  simp only
  split
  · rfl
  · split
    · rfl
    · split <;> rfl

theorem visitSymbol_eq (g : Graph) (result : ReachabilityResult) (tally : Tally) (id : SymbolId) :
    visitSymbol g result tally id =
      { report :=
          { countScope tally.report (g.symbol id).scope with
            definedSymbols := tally.report.definedSymbols + (isReported (g.symbol id)).toNat
            publicApiSymbols :=
              tally.report.publicApiSymbols + (isReported (g.symbol id) && publicApiRoot g id).toNat
            reachableSymbols := tally.report.reachableSymbols + (isLiveSymbol g result id).toNat
            internalLiveSymbols :=
              tally.report.internalLiveSymbols + (isLiveSymbol g result id && !publicApiRoot g id).toNat
            providerReachableSymbols :=
              tally.report.providerReachableSymbols +
                (isLiveSymbol g result id && flag result.providerReachable id).toNat
            structurallyReachableSymbols :=
              tally.report.structurallyReachableSymbols +
                (isLiveSymbol g result id && !flag result.providerReachable id).toNat
            unreachableSymbols := tally.report.unreachableSymbols + (isDeadSymbol g result id).toNat
            internalUnreachableSymbols :=
              tally.report.internalUnreachableSymbols + (isDeadSymbol g result id).toNat
            actionableUnreachableSymbols :=
              tally.report.actionableUnreachableSymbols + (isDeadSymbol g result id && !isSuppressed g id).toNat
            suppressedSymbols :=
              tally.report.suppressedSymbols + (isDeadSymbol g result id && isSuppressed g id).toNat
            findings := tally.report.findings ++
              if isDeadSymbol g result id && !isSuppressed g id then [classify g id (g.symbol id)] else []
            suppressedFindings := tally.report.suppressedFindings ++
              if isDeadSymbol g result id && isSuppressed g id then
                [⟨classify g id (g.symbol id), suppressionsOf g id⟩]
              else [] }
        suppressedSymbol := fun other =>
          tally.suppressedSymbol other || (isDeadSymbol g result id && isSuppressed g id && other == id) } := by
  have hupdate : Function.update tally.suppressedSymbol id true =
      fun other => tally.suppressedSymbol other || other == id := by
    funext other
    by_cases h : other = id
    · simp [h]
    · simp [h]
  unfold visitSymbol isLiveSymbol isDeadSymbol isSuppressed
  cases hrep : isReported (g.symbol id) with
  | false => simp [hrep, countScope]
  | true =>
    cases hreach : flag result.reachable id with
    | true => simp [hrep, countScope, countReachable]
    | false =>
      by_cases hs : suppressionsOf g id = []
      · simp [hrep, hs, countScope, countUnreachable]
      · have hne : (suppressionsOf g id).isEmpty = false := by simpa using hs
        simp [hrep, hs, hne, hupdate, countScope, countUnreachable]

/-! ## The whole loop -/

/-- The tally at the end of the loop over the symbols. -/
def tallied (g : Graph) (result : ReachabilityResult) : Tally :=
  (List.range g.symbols.length).foldl (visitSymbol g result)
    { report := { publicApi := publicApiEntries g }, suppressedSymbol := fun _ => false }

section Loop
variable (g : Graph) (result : ReachabilityResult)

/-- A counter that a turn raises on `p` ends as the number of symbols that satisfy `p`. -/
theorem tallied_count (f : AnalysisReport → Nat) (p : SymbolId → Bool)
    (h : ∀ tally id, f (visitSymbol g result tally id).report = f tally.report + (p id).toNat)
    (hinit : f { publicApi := publicApiEntries g } = 0) :
    f (tallied g result).report = (List.range g.symbols.length).countP p := by
  have := foldl_count (visitSymbol g result) (fun tally => f tally.report) p h (List.range g.symbols.length)
    { report := { publicApi := publicApiEntries g }, suppressedSymbol := fun _ => false }
  simpa [hinit, tallied] using this

theorem tallied_findings :
    (tallied g result).report.findings =
      ((List.range g.symbols.length).filter fun id => isDeadSymbol g result id && !isSuppressed g id).map
        fun id => classify g id (g.symbol id) := by
  have := foldl_collect (visitSymbol g result) (fun tally => tally.report.findings)
    (fun id => isDeadSymbol g result id && !isSuppressed g id) (fun id => classify g id (g.symbol id))
    (fun tally id => by rw [visitSymbol_eq]) (List.range g.symbols.length)
    { report := { publicApi := publicApiEntries g }, suppressedSymbol := fun _ => false }
  simpa [tallied] using this

theorem tallied_suppressedFindings :
    (tallied g result).report.suppressedFindings =
      ((List.range g.symbols.length).filter fun id => isDeadSymbol g result id && isSuppressed g id).map
        fun id => ⟨classify g id (g.symbol id), suppressionsOf g id⟩ := by
  have := foldl_collect (visitSymbol g result) (fun tally => tally.report.suppressedFindings)
    (fun id => isDeadSymbol g result id && isSuppressed g id)
    (fun id => (⟨classify g id (g.symbol id), suppressionsOf g id⟩ : SuppressedFinding))
    (fun tally id => by rw [visitSymbol_eq]) (List.range g.symbols.length)
    { report := { publicApi := publicApiEntries g }, suppressedSymbol := fun _ => false }
  simpa [tallied] using this

theorem tallied_suppressedSymbol (id : SymbolId) :
    (tallied g result).suppressedSymbol id = true ↔
      id < g.symbols.length ∧ isDeadSymbol g result id = true ∧ isSuppressed g id = true := by
  have := foldl_any (visitSymbol g result) (fun tally => tally.suppressedSymbol id)
    (fun other => isDeadSymbol g result other && isSuppressed g other && id == other)
    (fun tally other => by rw [visitSymbol_eq]) (List.range g.symbols.length)
    { report := { publicApi := publicApiEntries g }, suppressedSymbol := fun _ => false }
  unfold tallied
  rw [this]
  simp only [Bool.false_or, List.any_eq_true, List.mem_range, Bool.and_eq_true, beq_iff_eq]
  constructor
  · rintro ⟨other, hlt, h, rfl⟩
    exact ⟨hlt, h⟩
  · rintro ⟨hlt, h⟩
    exact ⟨id, hlt, h, rfl⟩

end Loop

/-! ## The counters -/

section Counters
variable (g : Graph) (result : ReachabilityResult)

theorem buildReport_definedSymbols :
    (buildReport g result).definedSymbols = (List.range g.symbols.length).countP fun id => isReported (g.symbol id) :=
  tallied_count g result (·.definedSymbols) _ (fun tally id => by rw [visitSymbol_eq]) rfl

theorem buildReport_reachableSymbols :
    (buildReport g result).reachableSymbols = (List.range g.symbols.length).countP (isLiveSymbol g result) :=
  tallied_count g result (·.reachableSymbols) _ (fun tally id => by rw [visitSymbol_eq]) rfl

theorem buildReport_unreachableSymbols :
    (buildReport g result).unreachableSymbols = (List.range g.symbols.length).countP (isDeadSymbol g result) :=
  tallied_count g result (·.unreachableSymbols) _ (fun tally id => by rw [visitSymbol_eq]) rfl

theorem buildReport_publicApiSymbols :
    (buildReport g result).publicApiSymbols =
      (List.range g.symbols.length).countP fun id => isReported (g.symbol id) && publicApiRoot g id :=
  tallied_count g result (·.publicApiSymbols) _ (fun tally id => by rw [visitSymbol_eq]) rfl

theorem buildReport_internalLiveSymbols :
    (buildReport g result).internalLiveSymbols =
      (List.range g.symbols.length).countP fun id => isLiveSymbol g result id && !publicApiRoot g id :=
  tallied_count g result (·.internalLiveSymbols) _ (fun tally id => by rw [visitSymbol_eq]) rfl

theorem buildReport_internalUnreachableSymbols :
    (buildReport g result).internalUnreachableSymbols =
      (List.range g.symbols.length).countP (isDeadSymbol g result) :=
  tallied_count g result (·.internalUnreachableSymbols) _ (fun tally id => by rw [visitSymbol_eq]) rfl

theorem buildReport_providerReachableSymbols :
    (buildReport g result).providerReachableSymbols =
      (List.range g.symbols.length).countP fun id => isLiveSymbol g result id && flag result.providerReachable id :=
  tallied_count g result (·.providerReachableSymbols) _ (fun tally id => by rw [visitSymbol_eq]) rfl

theorem buildReport_structurallyReachableSymbols :
    (buildReport g result).structurallyReachableSymbols =
      (List.range g.symbols.length).countP fun id => isLiveSymbol g result id && !flag result.providerReachable id :=
  tallied_count g result (·.structurallyReachableSymbols) _ (fun tally id => by rw [visitSymbol_eq]) rfl

theorem buildReport_actionableUnreachableSymbols :
    (buildReport g result).actionableUnreachableSymbols =
      (List.range g.symbols.length).countP fun id => isDeadSymbol g result id && !isSuppressed g id :=
  tallied_count g result (·.actionableUnreachableSymbols) _ (fun tally id => by rw [visitSymbol_eq]) rfl

theorem buildReport_suppressedSymbols :
    (buildReport g result).suppressedSymbols =
      (List.range g.symbols.length).countP fun id => isDeadSymbol g result id && isSuppressed g id :=
  tallied_count g result (·.suppressedSymbols) _ (fun tally id => by rw [visitSymbol_eq]) rfl

end Counters

/-! ## The findings -/

theorem buildReport_findings_perm (g : Graph) (result : ReachabilityResult) :
    ((buildReport g result).findings.map (·.symbol)).Perm
      ((List.range g.symbols.length).filter fun id => isDeadSymbol g result id && !isSuppressed g id) := by
  have hperm : (buildReport g result).findings.Perm (tallied g result).report.findings := sortWith_perm _ _
  refine (hperm.map _).trans (.of_eq ?_)
  rw [tallied_findings, List.map_map]
  exact List.map_congr_left (fun id _ => classify_symbol g id _) |>.trans (List.map_id _)

theorem buildReport_suppressedFindings_perm (g : Graph) (result : ReachabilityResult) :
    ((buildReport g result).suppressedFindings.map (·.finding.symbol)).Perm
      ((List.range g.symbols.length).filter fun id => isDeadSymbol g result id && isSuppressed g id) := by
  have hperm : (buildReport g result).suppressedFindings.Perm (tallied g result).report.suppressedFindings :=
    sortWith_perm _ _
  refine (hperm.map _).trans (.of_eq ?_)
  rw [tallied_suppressedFindings, List.map_map]
  exact List.map_congr_left (fun id _ => classify_symbol g id _) |>.trans (List.map_id _)

theorem isDeadSymbol_iff {id : SymbolId} (hid : id < g.symbols.length) :
    isDeadSymbol g (analyzeReachability g) id = true ↔ g.IsCandidate id := by
  rw [← Graph.isCandidate_iff hid]
  simp only [isDeadSymbol, isReported, Graph.isCandidate, Bool.and_eq_true]
  tauto

/-! ## The components -/

theorem map_listEdge {β : Type} (f : UnreachableAggregate → β)
    (h : ∀ component edges, f { component with edges := edges } = f component)
    (byScc : Nat → Nat) (components : List UnreachableAggregate) (e : CondensationEdge) :
    (listEdge byScc components e).map f = components.map f := by
  unfold listEdge
  split
  · refine List.ext_getElem? fun i => ?_
    rw [List.getElem?_map, List.getElem?_map, List.getElem?_modify]
    cases components[i]? with
    | none => rfl
    | some component =>
      split
      · exact congrArg some (h component _)
      · rfl
  · rfl

/-- The components before their edges are listed. -/
def bareComponents (g : Graph) (result : ReachabilityResult) : List UnreachableAggregate :=
  result.unreachableWeakComponents.zipIdx.map (aggregate g result (tallied g result).suppressedSymbol)

theorem buildReport_components (g : Graph) (result : ReachabilityResult) :
    (buildReport g result).unreachableComponents =
      result.unreachableCondensationEdges.foldl (listEdge (weakComponentByScc result)) (bareComponents g result) := rfl

theorem bareComponents_length (g : Graph) (result : ReachabilityResult) :
    (bareComponents g result).length = result.unreachableWeakComponents.length := by
  simp [bareComponents]

/-- The members of all components are the symbols of all strongly connected
components, if the weak components partition these. -/
theorem members_perm (g : Graph) (result : ReachabilityResult) (hnodup : result.unreachableWeakComponents.flatten.Nodup)
    (hall : ∀ i, i ∈ result.unreachableWeakComponents.flatten ↔ i < result.unreachableSccs.length) :
    ((buildReport g result).unreachableComponents.flatMap (·.members)).Perm
      (result.unreachableSccs.flatten.map fun symbol =>
        ⟨symbol, if (tallied g result).suppressedSymbol symbol then .suppressed else .actionable⟩) := by
  have hmembers : (buildReport g result).unreachableComponents.map (·.members) =
      (bareComponents g result).map (·.members) := by
    rw [buildReport_components]
    exact foldl_keep (listEdge (weakComponentByScc result)) (fun components => components.map (·.members))
      (map_listEdge _ (fun _ _ => rfl) _) _ _
  have hbare : (bareComponents g result).map (·.members) =
      result.unreachableWeakComponents.map
        (aggregateMembers g result (tallied g result).suppressedSymbol) := by
    rw [bareComponents, List.map_map]
    conv_rhs => rw [← List.zipIdx_map_fst 0 result.unreachableWeakComponents, List.map_map]
    rfl
  have hrange : result.unreachableWeakComponents.flatten.Perm (List.range result.unreachableSccs.length) :=
    (List.perm_ext_iff_of_nodup hnodup List.nodup_range).2 fun i => by rw [hall, List.mem_range]
  rw [List.flatMap_def, hmembers, hbare, ← range_flatMap_getD]
  refine List.Perm.trans ?_ (hrange.flatMap_right _)
  generalize result.unreachableWeakComponents = components
  induction components with
  | nil => exact .refl _
  | cons c components ih =>
    rw [List.map_cons, List.flatten_cons, List.flatten_cons, List.flatMap_append]
    exact (sortOn_perm _ _).append ih

theorem listEdge_foldl {byScc : Nat → Nat} (l : List CondensationEdge) (components : List UnreachableAggregate)
    (h : ∀ e ∈ l, byScc e.fromScc = byScc e.toScc ∧ byScc e.fromScc < components.length) :
    ((l.foldl (listEdge byScc) components).flatMap (·.edges)).Perm (components.flatMap (·.edges) ++ l) := by
  induction l generalizing components with
  | nil => simp
  | cons e l ih =>
    obtain ⟨heq, hlt⟩ := h e List.mem_cons_self
    have hstep : listEdge byScc components e =
        components.modify (byScc e.fromScc) fun component => { component with edges := component.edges ++ [e] } :=
      if_pos heq
    rw [List.foldl_cons, hstep]
    refine (ih _ fun e' he' => ?_).trans ?_
    · rw [List.length_modify]
      exact h e' (List.mem_cons_of_mem _ he')
    · refine ((flatMap_modify (x := e) (fun _ => rfl) components hlt).append_right l).trans (.of_eq ?_)
      rw [List.append_assoc]
      rfl

/-- The components list the condensation edges, each once, if none leads from
one weak component to another. -/
theorem edges_perm (g : Graph) (result : ReachabilityResult) (hnodup : result.unreachableWeakComponents.flatten.Nodup)
    (hin : ∀ e ∈ result.unreachableCondensationEdges, e.fromScc ∈ result.unreachableWeakComponents.flatten)
    (hsame : ∀ c ∈ result.unreachableWeakComponents, ∀ e ∈ result.unreachableCondensationEdges,
      e.fromScc ∈ c ↔ e.toScc ∈ c) :
    ((buildReport g result).unreachableComponents.flatMap (·.edges)).Perm result.unreachableCondensationEdges := by
  have hbare : (bareComponents g result).flatMap (·.edges) = [] :=
    List.flatMap_eq_nil_iff.2 fun component hc => by
      obtain ⟨_, -, rfl⟩ := List.mem_map.1 hc
      rfl
  rw [buildReport_components]
  refine (listEdge_foldl _ _ fun e he => ?_).trans (.of_eq (by rw [hbare, List.nil_append]))
  obtain ⟨c, hc, hfrom⟩ := List.mem_flatten.1 (hin e he)
  obtain ⟨i, hi⟩ := List.mem_iff_getElem?.1 hc
  have hto := (hsame c hc e he).1 hfrom
  unfold weakComponentByScc
  rw [groupTable_of_mem hnodup hi hfrom, groupTable_of_mem hnodup hi hto, bareComponents_length]
  exact ⟨rfl, (List.getElem?_eq_some_iff.1 hi).1⟩

/-! ## The accounts -/

theorem publicApiRoot_reachable (h : g.ValidIds) {id : SymbolId} (hroot : publicApiRoot g id = true) :
    flag (analyzeReachability g).reachable id = true := by
  simp only [publicApiRoot, List.any_eq_true, Bool.and_eq_true, beq_iff_eq] at hroot
  obtain ⟨r, hr, -, rfl⟩ := hroot
  exact (Graph.flag_reachable h r.symbol).2 ⟨r, hr, [], rfl, by simp⟩

/-- The disposition that a suppression gives. -/
def dispositionOf (g : Graph) (id : SymbolId) : AggregateMemberDisposition :=
  if ∃ s ∈ g.suppressions, s.symbol = id then .suppressed else .actionable

theorem suppressedSymbol_disposition {id : SymbolId} (hid : g.IsCandidate id) :
    (if (tallied g (analyzeReachability g)).suppressedSymbol id then AggregateMemberDisposition.suppressed
      else .actionable) = dispositionOf g id := by
  have hiff : (tallied g (analyzeReachability g)).suppressedSymbol id = true ↔ ∃ s ∈ g.suppressions, s.symbol = id := by
    rw [tallied_suppressedSymbol, isSuppressed_iff, isDeadSymbol_iff hid.lt]
    exact ⟨fun hall => hall.2.2, fun hs => ⟨hid.lt, hid, hs⟩⟩
  unfold dispositionOf
  simp only [hiff]

/-- What the numbers and lists of a report have to do with each other and with
the candidates of the graph. -/
structure Accounts (g : Graph) (report : AnalysisReport) : Prop where
  defined_eq : report.definedSymbols = report.reachableSymbols + report.unreachableSymbols
  visibility_eq : report.definedSymbols =
    report.publicApiSymbols + report.internalLiveSymbols + report.internalUnreachableSymbols
  reachable_eq : report.reachableSymbols = report.structurallyReachableSymbols + report.providerReachableSymbols
  unreachable_eq : report.unreachableSymbols = report.actionableUnreachableSymbols + report.suppressedSymbols
  findings_length : report.findings.length = report.actionableUnreachableSymbols
  suppressedFindings_length : report.suppressedFindings.length = report.suppressedSymbols
  findings_nodup : (report.findings.map (·.symbol)).Nodup
  findings_iff : ∀ id, id ∈ report.findings.map (·.symbol) ↔
    g.IsCandidate id ∧ ¬ ∃ s ∈ g.suppressions, s.symbol = id
  suppressedFindings_nodup : (report.suppressedFindings.map (·.finding.symbol)).Nodup
  suppressedFindings_iff : ∀ id, id ∈ report.suppressedFindings.map (·.finding.symbol) ↔
    g.IsCandidate id ∧ ∃ s ∈ g.suppressions, s.symbol = id
  members_nodup : ((report.unreachableComponents.flatMap (·.members)).map (·.symbol)).Nodup
  members_iff : ∀ member, member ∈ report.unreachableComponents.flatMap (·.members) ↔
    g.IsCandidate member.symbol ∧ member.disposition = dispositionOf g member.symbol
  edges_nodup : (report.unreachableComponents.flatMap (·.edges)).Nodup
  edges_iff : ∀ e, e ∈ report.unreachableComponents.flatMap (·.edges) ↔
    e ∈ (analyzeReachability g).unreachableCondensationEdges

theorem mem_dead_filter {p : SymbolId → Bool} {id : SymbolId} :
    id ∈ (List.range g.symbols.length).filter (fun id => isDeadSymbol g (analyzeReachability g) id && p id) ↔
      g.IsCandidate id ∧ p id = true := by
  simp only [List.mem_filter, List.mem_range, Bool.and_eq_true]
  constructor
  · rintro ⟨hid, hdead, hp⟩
    exact ⟨(isDeadSymbol_iff hid).1 hdead, hp⟩
  · rintro ⟨hc, hp⟩
    exact ⟨hc.lt, (isDeadSymbol_iff hc.lt).2 hc, hp⟩

/-- Every public root is reachable, so the symbols split into public ones, other
live ones and dead ones. -/
theorem visibility_eq (h : g.ValidIds) :
    (buildReport g (analyzeReachability g)).definedSymbols =
      (buildReport g (analyzeReachability g)).publicApiSymbols +
        (buildReport g (analyzeReachability g)).internalLiveSymbols +
        (buildReport g (analyzeReachability g)).internalUnreachableSymbols := by
  rw [buildReport_definedSymbols, buildReport_publicApiSymbols, buildReport_internalLiveSymbols,
    buildReport_internalUnreachableSymbols]
  have hpublic : (List.range g.symbols.length).countP (fun id => isReported (g.symbol id) && publicApiRoot g id) =
      (List.range g.symbols.length).countP
        fun id => isLiveSymbol g (analyzeReachability g) id && publicApiRoot g id := by
    refine List.countP_congr fun id _ => ?_
    simp only [isLiveSymbol, Bool.and_eq_true]
    exact ⟨fun ⟨hrep, hroot⟩ => ⟨⟨hrep, publicApiRoot_reachable h hroot⟩, hroot⟩,
      fun ⟨⟨hrep, _⟩, hroot⟩ => ⟨hrep, hroot⟩⟩
  rw [hpublic, countP_split]
  exact (countP_split _ _ _).symm

/-- The members of the components are the candidates, with the disposition that a suppression gives. -/
theorem componentMembers_perm (h : g.ValidIds) :
    ((buildReport g (analyzeReachability g)).unreachableComponents.flatMap (·.members)).Perm
      ((analyzeReachability g).unreachableSccs.flatten.map fun symbol => ⟨symbol, dispositionOf g symbol⟩) := by
  obtain ⟨hnodup, hall, -⟩ := weakComponents_spec (fun e he => Graph.condensationEdges_lt h he)
  refine (members_perm g (analyzeReachability g) hnodup hall).trans (.of_eq (List.map_congr_left fun id hid => ?_))
  rw [suppressedSymbol_disposition ((Graph.mem_unreachableSccs h id).1 (List.mem_flatten.1 hid))]

theorem mem_componentMembers_iff (h : g.ValidIds) {member : AggregateMember} :
    member ∈ (buildReport g (analyzeReachability g)).unreachableComponents.flatMap (·.members) ↔
      g.IsCandidate member.symbol ∧ member.disposition = dispositionOf g member.symbol := by
  rw [(componentMembers_perm h).mem_iff, List.mem_map]
  constructor
  · rintro ⟨id, hid, rfl⟩
    exact ⟨(Graph.mem_unreachableSccs h id).1 (List.mem_flatten.1 hid), rfl⟩
  · rintro ⟨hid, hdisposition⟩
    refine ⟨member.symbol, List.mem_flatten.2 ((Graph.mem_unreachableSccs h _).2 hid), ?_⟩
    rw [← hdisposition]

theorem buildReport_accounts (h : g.ValidIds) : Accounts g (buildReport g (analyzeReachability g)) := by
  have hfindings := buildReport_findings_perm g (analyzeReachability g)
  have hsuppressed := buildReport_suppressedFindings_perm g (analyzeReachability g)
  obtain ⟨hnodup, hall, hsame⟩ := weakComponents_spec (fun e he => Graph.condensationEdges_lt h he)
  have hedges := edges_perm g (analyzeReachability g) hnodup
    (fun e he => (hall e.fromScc).2 (Graph.condensationEdges_lt h he).1) hsame
  have hsccs := Graph.unreachableSccs_classes h
  refine ⟨?_, visibility_eq h, ?_, ?_, ?_, ?_, ?_, fun id => ?_, ?_, fun id => ?_, ?_,
    fun member => mem_componentMembers_iff h, ?_, fun e => hedges.mem_iff⟩
  · rw [buildReport_definedSymbols, buildReport_reachableSymbols, buildReport_unreachableSymbols]
    exact (countP_split _ _ _).symm
  · rw [buildReport_reachableSymbols, buildReport_structurallyReachableSymbols,
      buildReport_providerReachableSymbols, Nat.add_comm]
    exact (countP_split _ _ _).symm
  · rw [buildReport_unreachableSymbols, buildReport_actionableUnreachableSymbols, buildReport_suppressedSymbols,
      Nat.add_comm]
    exact (countP_split _ _ _).symm
  · rw [buildReport_actionableUnreachableSymbols, List.countP_eq_length_filter, ← hfindings.length_eq,
      List.length_map]
  · rw [buildReport_suppressedSymbols, List.countP_eq_length_filter, ← hsuppressed.length_eq, List.length_map]
  · exact hfindings.nodup_iff.2 (List.nodup_range.filter _)
  · rw [hfindings.mem_iff, mem_dead_filter, Bool.not_eq_true', ← Bool.not_eq_true, isSuppressed_iff]
  · exact hsuppressed.nodup_iff.2 (List.nodup_range.filter _)
  · rw [hsuppressed.mem_iff, mem_dead_filter, isSuppressed_iff]
  · refine ((componentMembers_perm h).map _).nodup_iff.2 ?_
    rw [List.map_map]
    exact (List.map_id _).symm ▸ hsccs.nodup
  · exact hedges.nodup_iff.2 (Graph.condensationEdges_nodup g)

theorem deadCycle_accounts : Accounts Graph.deadCycle (buildReport Graph.deadCycle (analyzeReachability Graph.deadCycle)) :=
  buildReport_accounts ⟨by decide, by decide, by decide, by decide⟩

end CxxDead
