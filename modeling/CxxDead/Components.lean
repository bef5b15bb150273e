import CxxDead.Reachability
/-!
# Components of the unreachable symbols

What `analyzeReachability` says about the symbols that no root reaches.

- `unreachableSccs_partition`: the components partition the candidates by mutual
  reachability among candidates.
- `sccBySymbol_iff`: the index under which a symbol's component is looked up.
- `weakComponents_spec`: the weak components partition the component indexes, and
  no condensation edge leads from one to another.
-/

namespace CxxDead

open Lib Relation

namespace Graph

/-- A symbol that the components are made of. -/
structure IsCandidate (g : Graph) (id : SymbolId) : Prop where
  lt : id < g.symbols.length
  defined : (g.symbol id).defined = true
  scope : (g.symbol id).scope = .reportable
  unreachable : flag (analyzeReachability g).reachable id = false
  kind : (g.symbol id).kind ≠ .synthetic

/-- A path of traversable edges whose every vertex is a candidate. -/
def CandidatePath (g : Graph) (a b : SymbolId) : Prop :=
  ∃ p, g.IsPath a p b ∧ ∀ e ∈ p, isTraversable e.kind = true ∧ g.IsCandidate e.from ∧ g.IsCandidate e.to

variable {g : Graph}

theorem isReportable_iff {scope : SymbolScope} : isReportable scope = true ↔ scope = .reportable := by
  cases scope <;> simp [isReportable]

theorem isCandidate_iff {id : SymbolId} (hid : id < g.symbols.length) :
    g.isCandidate (analyzeReachability g).reachable id = true ↔ g.IsCandidate id := by
  simp only [isCandidate, Bool.and_eq_true, isReportable_iff, Bool.not_eq_true', bne_iff_ne]
  constructor
  · rintro ⟨⟨⟨hd, hs⟩, hu⟩, hk⟩
    exact ⟨hid, hd, hs, hu, hk⟩
  · rintro ⟨-, hd, hs, hu, hk⟩
    exact ⟨⟨⟨hd, hs⟩, hu⟩, hk⟩

/-- The edges that the recursion follows from a candidate are those of candidate paths. -/
theorem reach_iff_candidatePath (h : g.ValidIds) {a b : SymbolId} (ha : g.IsCandidate a) :
    Tarjan.Reach g.adjacency (g.isCandidate (analyzeReachability g).reachable) a b ↔ g.CandidatePath a b := by
  unfold CandidatePath
  rw [exists_path_iff]
  constructor
  · intro hr
    suffices hboth : g.IsCandidate b ∧
        ReflTransGen (fun a b => ∃ e ∈ g.edges, (isTraversable e.kind = true ∧ g.IsCandidate e.from ∧
          g.IsCandidate e.to) ∧ e.from = a ∧ e.to = b) a b from hboth.2
    induction hr with
    | refl => exact ⟨ha, .refl⟩
    | tail _ hstep ih =>
      obtain ⟨hmem, hc⟩ := hstep
      obtain ⟨e, he, hlive, rfl, rfl⟩ := mem_adjacency.1 hmem
      have hto := (isCandidate_iff (h.edges e he).2).1 hc
      exact ⟨hto, ih.2.tail ⟨e, he, ⟨(isLive_iff.1 hlive).1, ih.1, hto⟩, rfl, rfl⟩⟩
  · intro hr
    refine ReflTransGen.mono ?_ _ _ hr
    rintro _ _ ⟨e, he, ⟨htrav, hfrom, hto⟩, rfl, rfl⟩
    refine ⟨mem_adjacency.2 ⟨e, he, isLive_iff.2 ⟨htrav, ?_⟩, rfl, rfl⟩, (isCandidate_iff hto.lt).2 hto⟩
    rw [hfrom.scope]
    rfl

theorem unreachableSccs_classes (h : g.ValidIds) :
    Tarjan.Classes g.adjacency (g.isCandidate (analyzeReachability g).reachable) g.symbols.length
      (analyzeReachability g).unreachableSccs :=
  (Tarjan.run_spec (sortOn_perm g.memberOrder) h.adjacency_lt).perm (sortOn_perm _ _)

theorem mem_unreachableSccs (h : g.ValidIds) (id : SymbolId) :
    (∃ c ∈ (analyzeReachability g).unreachableSccs, id ∈ c) ↔ g.IsCandidate id := by
  rw [← List.mem_flatten, (unreachableSccs_classes h).mem_iff]
  constructor
  · exact fun ⟨hc, hid⟩ => (isCandidate_iff hid).1 hc
  · exact fun hc => ⟨(isCandidate_iff hc.lt).2 hc, hc.lt⟩

/-- The components partition the candidates: none is empty, no symbol is in two,
and two candidates share one exactly when each reaches the other through
candidates. -/
theorem unreachableSccs_partition (h : g.ValidIds) :
    (∀ c ∈ (analyzeReachability g).unreachableSccs, c ≠ []) ∧
    (analyzeReachability g).unreachableSccs.flatten.Nodup ∧
    (∀ id, (∃ c ∈ (analyzeReachability g).unreachableSccs, id ∈ c) ↔ g.IsCandidate id) ∧
    ∀ a b, g.IsCandidate a → g.IsCandidate b →
      ((∃ c ∈ (analyzeReachability g).unreachableSccs, a ∈ c ∧ b ∈ c) ↔ g.CandidatePath a b ∧ g.CandidatePath b a) := by
  have hclasses := unreachableSccs_classes h
  refine ⟨hclasses.ne_nil, hclasses.nodup, mem_unreachableSccs h, fun a b ha hb => ?_⟩
  rw [← reach_iff_candidatePath h ha, ← reach_iff_candidatePath h hb]
  constructor
  · rintro ⟨c, hc, hac, hbc⟩
    exact (hclasses.class_iff c hc a hac b).1 hbc
  · intro hab
    obtain ⟨c, hc, hac⟩ := (mem_unreachableSccs h a).2 ha
    exact ⟨c, hc, hac, (hclasses.class_iff c hc a hac b).2 hab⟩

/-- Two functions that call each other and a third that calls them, none of them called from a root. -/
def deadCycle : Graph :=
  { symbols := ["a", "b", "c"].map fun key => { key := lit key, defined := true, scope := .reportable }
    edges := [⟨0, 1, .directCall, {}⟩, ⟨1, 0, .directCall, {}⟩, ⟨2, 0, .directCall, {}⟩] }

theorem deadCycle_partition :
    (analyzeReachability deadCycle).unreachableSccs.flatten.Nodup ∧
    ((∃ c ∈ (analyzeReachability deadCycle).unreachableSccs, 0 ∈ c ∧ 1 ∈ c) ↔
      deadCycle.CandidatePath 0 1 ∧ deadCycle.CandidatePath 1 0) := by
  have h : deadCycle.ValidIds := ⟨by decide, by decide, by decide, by decide⟩
  have hall := unreachableSccs_partition h
  have hcand : ∀ id < 3, deadCycle.IsCandidate id := fun id hid => by
    refine ⟨hid, ?_, ?_, ?_, ?_⟩ <;> revert id <;> decide
  exact ⟨hall.2.1, hall.2.2.2 0 1 (hcand 0 (by decide)) (hcand 1 (by decide))⟩

/-! ## Component indexes -/

/-- The table gives the component that a symbol is in, or a negative number. -/
theorem sccBySymbol_iff {sccs : List (List SymbolId)} (hnodup : sccs.flatten.Nodup) (id : SymbolId) (i : Nat) :
    sccBySymbol sccs id = i ↔ ∃ c, sccs[i]? = some c ∧ id ∈ c :=
  groupTable_iff hnodup (fun a b h => by simpa using h) (fun i => by show (i : Int) ≠ -1; omega)

/-! ## Condensation and weak components -/

theorem condensationEdge_some {bySymbol : SymbolId → Int} {e : Edge} {c : CondensationEdge}
    (h : condensationEdge bySymbol e = some c) : bySymbol e.from = c.fromScc ∧ bySymbol e.to = c.toScc := by
  unfold condensationEdge at h
  split at h
  · cases h
  · split at h
    · cases h
    · rename_i hnot
      push Not at hnot
      cases h
      exact ⟨by simp [hnot.1], by simp [hnot.2.1]⟩

theorem condensationEdges_lt (h : g.ValidIds) {e : CondensationEdge}
    (he : e ∈ (analyzeReachability g).unreachableCondensationEdges) :
    e.fromScc < (analyzeReachability g).unreachableSccs.length ∧
      e.toScc < (analyzeReachability g).unreachableSccs.length := by
  have hnodup := (unreachableSccs_classes h).nodup
  have hmem := (mem_sortOn _).1 ((uniqueOn_sublist _ _).subset he)
  obtain ⟨edge, -, hedge⟩ := List.mem_filterMap.1 hmem
  obtain ⟨hfrom, hto⟩ := condensationEdge_some hedge
  obtain ⟨c, hc, -⟩ := (sccBySymbol_iff hnodup _ _).1 hfrom
  obtain ⟨c', hc', -⟩ := (sccBySymbol_iff hnodup _ _).1 hto
  exact ⟨(List.getElem?_eq_some_iff.1 hc).1, (List.getElem?_eq_some_iff.1 hc').1⟩

theorem condensationEdges_nodup (g : Graph) : (analyzeReachability g).unreachableCondensationEdges.Nodup :=
  (uniqueOn_sorted condensationOrder (sortOn_pairwise _ _)).imp fun hlt => by
    rintro rfl
    exact lt_irrefl _ hlt

end Graph

theorem mem_weakAdjacency {edges : List CondensationEdge} {a b : Nat} :
    b ∈ weakAdjacency edges a ↔ ∃ e ∈ edges, e.fromScc = a ∧ e.toScc = b ∨ e.toScc = a ∧ e.fromScc = b := by
  simp only [weakAdjacency, List.mem_flatMap, List.mem_append]
  refine exists_congr fun e => and_congr_right fun _ => or_congr ?_ ?_
  all_goals
    split
    · rename_i h; simp [h, eq_comm]
    · rename_i h; simp [h]

/-- The weak components, in the order in which they are reported. -/
theorem weakComponents_perm (edges : List CondensationEdge) (count : Nat) :
    (weakComponents edges count).Perm ((Search.components (weakAdjacency edges) count).map (sortOn id)) :=
  sortOn_perm _ _

/-- Weak components are groups of connected indexes. -/
theorem weakComponents_connected {edges : List CondensationEdge} {count : Nat}
    (h : ∀ e ∈ edges, e.fromScc < count ∧ e.toScc < count) :
    Search.Connected (weakAdjacency edges) count (weakComponents edges count) := by
  have hspec : Search.Connected (weakAdjacency edges) count (Search.components (weakAdjacency edges) count) :=
    Search.components_spec (fun v w hw => by
      obtain ⟨e, he, ⟨-, rfl⟩ | ⟨-, rfl⟩⟩ := mem_weakAdjacency.1 hw
      · exact (h e he).2
      · exact (h e he).1)
    (fun v w hw => by
      obtain ⟨e, he, hor⟩ := mem_weakAdjacency.1 hw
      exact mem_weakAdjacency.2 ⟨e, he, by tauto⟩)
  have hflat : (weakComponents edges count).flatten.Perm (Search.components (weakAdjacency edges) count).flatten := by
    refine (weakComponents_perm edges count).flatten.trans ?_
    generalize Search.components (weakAdjacency edges) count = groups
    induction groups with
    | nil => exact .refl _
    | cons c groups ih => exact (sortOn_perm id c).append ih
  have hsorted : ∀ c ∈ weakComponents edges count, ∃ group ∈ Search.components (weakAdjacency edges) count,
      sortOn id group = c := fun c hc => List.mem_map.1 ((weakComponents_perm edges count).mem_iff.1 hc)
  refine ⟨fun c hc => ?_, hflat.nodup_iff.2 hspec.nodup, fun i => by rw [hflat.mem_iff, hspec.mem_iff],
    fun c hc v hv w => ?_⟩
  · obtain ⟨group, hgroup, rfl⟩ := hsorted c hc
    obtain ⟨v, hv⟩ := List.exists_mem_of_ne_nil _ (hspec.ne_nil group hgroup)
    exact List.ne_nil_of_mem ((mem_sortOn id).2 hv)
  · obtain ⟨group, hgroup, rfl⟩ := hsorted c hc
    rw [mem_sortOn] at hv ⊢
    exact hspec.joined_iff group hgroup v hv w

theorem weakComponents_spec {edges : List CondensationEdge} {count : Nat}
    (h : ∀ e ∈ edges, e.fromScc < count ∧ e.toScc < count) :
    (weakComponents edges count).flatten.Nodup ∧ (∀ i, i ∈ (weakComponents edges count).flatten ↔ i < count) ∧
    ∀ c ∈ weakComponents edges count, ∀ e ∈ edges, e.fromScc ∈ c ↔ e.toScc ∈ c := by
  have hspec := weakComponents_connected h
  refine ⟨hspec.nodup, hspec.mem_iff, fun c hc e he => ⟨fun hfrom => ?_, fun hto => ?_⟩⟩
  · exact (hspec.joined_iff c hc _ hfrom _).2 (.single (mem_weakAdjacency.2 ⟨e, he, .inl ⟨rfl, rfl⟩⟩))
  · exact (hspec.joined_iff c hc _ hto _).2 (.single (mem_weakAdjacency.2 ⟨e, he, .inr ⟨rfl, rfl⟩⟩))

end CxxDead
