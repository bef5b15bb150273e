import CxxDead.Components
/-!
# The condensation of the unreachable symbols

What the condensation edges and the weak components of `analyzeReachability` say
about the components that they are made of.

- `condensation_spec`: the condensation has an edge for each pair of different
  components that a traversable edge joins, and no cycle; the weak components are
  its connected parts, in order.
-/

namespace CxxDead

open Lib Relation

namespace Graph

/-- The component at index `i` has the symbol. -/
def InScc (g : Graph) (i : Nat) (id : SymbolId) : Prop :=
  ∃ c, (analyzeReachability g).unreachableSccs[i]? = some c ∧ id ∈ c

/-- A traversable edge leads from the component at `a` to the one at `b`. -/
def SccsJoined (g : Graph) (a b : Nat) : Prop :=
  ∃ e ∈ g.edges, isTraversable e.kind = true ∧ g.InScc a e.from ∧ g.InScc b e.to

/-- A condensation edge between `a` and `b`, taken in either direction. -/
def SccsLinked (g : Graph) (a b : Nat) : Prop :=
  ⟨a, b⟩ ∈ (analyzeReachability g).unreachableCondensationEdges ∨
    ⟨b, a⟩ ∈ (analyzeReachability g).unreachableCondensationEdges

variable {g : Graph} {a b : Nat}

/-! ## The edges -/

theorem condensationEdge_some_iff {sccs : List (List SymbolId)} (hnodup : sccs.flatten.Nodup) {e : Edge} :
    condensationEdge (sccBySymbol sccs) e = some ⟨a, b⟩ ↔ isTraversable e.kind = true ∧ a ≠ b ∧
      (∃ c, sccs[a]? = some c ∧ e.from ∈ c) ∧ ∃ c, sccs[b]? = some c ∧ e.to ∈ c := by
  rw [← sccBySymbol_iff hnodup, ← sccBySymbol_iff hnodup]
  unfold condensationEdge
  constructor
  · intro h
    split at h
    · cases h
    · rename_i htraversable
      split at h
      · cases h
      · rename_i hnot
        simp only [not_or, Int.not_lt] at hnot
        simp only [Option.some.injEq, CondensationEdge.mk.injEq] at h
        refine ⟨by simpa using htraversable, ?_, ?_, ?_⟩ <;> omega
  · rintro ⟨htraversable, hne, hfrom, hto⟩
    rw [if_neg (by simp [htraversable]), hfrom, hto, if_neg (by omega)]
    rfl

theorem mem_condensationEdges_iff (h : g.ValidIds) :
    ⟨a, b⟩ ∈ (analyzeReachability g).unreachableCondensationEdges ↔ a ≠ b ∧ g.SccsJoined a b := by
  have hedges : ∀ e : CondensationEdge, e ∈ (analyzeReachability g).unreachableCondensationEdges ↔
      ∃ edge ∈ g.edges, condensationEdge (sccBySymbol (analyzeReachability g).unreachableSccs) edge = some e := by
    intro e
    rw [← List.mem_filterMap]
    constructor
    · intro he
      exact (mem_sortOn condensationOrder).1 ((uniqueOn_sublist _ _).subset he)
    · intro he
      obtain ⟨e', he', horder⟩ := key_mem_uniqueOn condensationOrder ((mem_sortOn condensationOrder).2 he)
      simp only [condensationOrder, EmbeddingLike.apply_eq_iff_eq, Prod.mk.injEq] at horder
      obtain rfl : e' = e := by
        cases e'
        cases e
        simp_all
      exact he'
  have hnodup := (unreachableSccs_classes h).nodup
  simp only [hedges, condensationEdge_some_iff hnodup]
  unfold SccsJoined InScc
  tauto

theorem condensationEdges_sorted (g : Graph) : (analyzeReachability g).unreachableCondensationEdges.Pairwise
    fun e e' => condensationOrder e < condensationOrder e' :=
  uniqueOn_sorted condensationOrder (sortOn_pairwise _ _)

/-- A symbol of a component is a candidate. -/
theorem InScc.isCandidate (h : g.ValidIds) {id : SymbolId} (hid : g.InScc a id) : g.IsCandidate id := by
  obtain ⟨c, hc, hmem⟩ := hid
  exact (mem_unreachableSccs h id).1 ⟨c, List.mem_of_getElem? hc, hmem⟩

/-- An edge between components is one that the components were made with. -/
theorem SccsJoined.between (h : g.ValidIds) (hne : a ≠ b) (hab : g.SccsJoined a b) :
    Tarjan.Between g.adjacency (g.isCandidate (analyzeReachability g).reachable)
      (analyzeReachability g).unreachableSccs a b := by
  obtain ⟨e, he, htraversable, hfrom, hto⟩ := hab
  have hcandidate := hfrom.isCandidate h
  have hcandidate' := hto.isCandidate h
  obtain ⟨c, hc, hmem⟩ := hfrom
  obtain ⟨d, hd, hmem'⟩ := hto
  refine ⟨hne, c, d, hc, hd, e.from, hmem, e.to, hmem', ?_, (isCandidate_iff hcandidate'.lt).2 hcandidate'⟩
  refine mem_adjacency.2 ⟨e, he, isLive_iff.2 ⟨htraversable, ?_⟩, rfl, rfl⟩
  rw [hcandidate.scope]
  rfl

theorem condensation_acyclic (h : g.ValidIds) (a : Nat) :
    ¬ TransGen (fun a b => ⟨a, b⟩ ∈ (analyzeReachability g).unreachableCondensationEdges) a a := by
  intro hcycle
  refine (unreachableSccs_classes h).acyclic a (TransGen.mono (fun a b hab => ?_) _ _ hcycle)
  obtain ⟨hne, hjoined⟩ := (mem_condensationEdges_iff h).1 hab
  exact hjoined.between h hne

/-! ## The weak components -/

theorem mem_weakAdjacency_iff : b ∈ weakAdjacency (analyzeReachability g).unreachableCondensationEdges a ↔
    g.SccsLinked a b := by
  rw [mem_weakAdjacency]
  constructor
  · rintro ⟨e, he, ⟨rfl, rfl⟩ | ⟨rfl, rfl⟩⟩
    · exact .inl he
    · exact .inr he
  · rintro (he | he)
    · exact ⟨_, he, .inl ⟨rfl, rfl⟩⟩
    · exact ⟨_, he, .inr ⟨rfl, rfl⟩⟩

theorem weakComponents_groups (h : g.ValidIds) :
    Search.Connected (weakAdjacency (analyzeReachability g).unreachableCondensationEdges)
      (analyzeReachability g).unreachableSccs.length (analyzeReachability g).unreachableWeakComponents :=
  weakComponents_connected fun _ he => condensationEdges_lt h he

/-- Two indexes share a weak component exactly if condensation edges connect them. -/
theorem sameWeakComponent_iff (h : g.ValidIds) (ha : a < (analyzeReachability g).unreachableSccs.length) :
    (∃ c ∈ (analyzeReachability g).unreachableWeakComponents, a ∈ c ∧ b ∈ c) ↔ ReflTransGen g.SccsLinked a b := by
  have hgroups := weakComponents_groups h
  have hlinked : (fun a b => b ∈ weakAdjacency (analyzeReachability g).unreachableCondensationEdges a) =
      g.SccsLinked := by
    funext a b
    exact propext mem_weakAdjacency_iff
  have hjoined := hgroups.joined_iff
  rw [hlinked] at hjoined
  constructor
  · rintro ⟨c, hc, hac, hbc⟩
    exact (hjoined c hc a hac b).1 hbc
  · intro hab
    obtain ⟨c, hc, hac⟩ := List.mem_flatten.1 ((hgroups.mem_iff a).2 ha)
    exact ⟨c, hc, hac, (hjoined c hc a hac b).2 hab⟩

theorem weakComponents_increasing (h : g.ValidIds) {c : List Nat}
    (hc : c ∈ (analyzeReachability g).unreachableWeakComponents) : c.Pairwise (· < ·) := by
  obtain ⟨group, hgroup, rfl⟩ := List.mem_map.1 ((weakComponents_perm _ _).mem_iff.1 hc)
  have hnodup := (List.nodup_flatten.1 (weakComponents_groups h).nodup).1 _ hc
  refine (List.pairwise_and_iff.2 ⟨sortOn_pairwise id group, hnodup⟩).imp ?_
  rintro i j ⟨hle, hne⟩
  exact lt_of_le_of_ne hle hne

/-- No two weak components have the same first index. -/
theorem weakComponents_heads (h : g.ValidIds) :
    (analyzeReachability g).unreachableWeakComponents.Pairwise fun c d => c.headD 0 < d.headD 0 := by
  have hgroups := weakComponents_groups h
  have hle : (analyzeReachability g).unreachableWeakComponents.Pairwise fun c d => c.headD 0 ≤ d.headD 0 :=
    sortOn_pairwise (fun component : List Nat => component.headD 0) _
  have hhead : ∀ c ∈ (analyzeReachability g).unreachableWeakComponents, c.headD 0 ∈ c := by
    intro c hc
    obtain ⟨i, c', rfl⟩ := List.exists_cons_of_ne_nil (hgroups.ne_nil c hc)
    simp
  have hdisjoint := List.pairwise_and_iff.2 ⟨hle, (List.nodup_flatten.1 hgroups.nodup).2⟩
  refine hdisjoint.imp_of_mem fun {c d} hc hd hcd => lt_of_le_of_ne hcd.1 fun heq => ?_
  exact hcd.2 (hhead c hc) (heq ▸ hhead d hd)

/-! ## Both together -/

/-- What the condensation and its weak components are. -/
structure IsCondensation (g : Graph) (edges : List CondensationEdge) (components : List (List Nat)) (count : Nat) :
    Prop where
  edge_iff : ∀ a b, ⟨a, b⟩ ∈ edges ↔ a ≠ b ∧ g.SccsJoined a b
  sorted : edges.Pairwise fun e e' => condensationOrder e < condensationOrder e'
  nodup : edges.Nodup
  acyclic : ∀ a, ¬ TransGen (fun a b => ⟨a, b⟩ ∈ edges) a a
  covers : ∀ i, i ∈ components.flatten ↔ i < count
  disjoint : components.flatten.Nodup
  ne_nil : ∀ c ∈ components, c ≠ []
  same_iff : ∀ a b, a < count → b < count →
    ((∃ c ∈ components, a ∈ c ∧ b ∈ c) ↔ ReflTransGen (fun a b => ⟨a, b⟩ ∈ edges ∨ ⟨b, a⟩ ∈ edges) a b)
  increasing : ∀ c ∈ components, c.Pairwise (· < ·)
  ordered : components.Pairwise fun c d => c.headD 0 < d.headD 0

/-- The condensation joins different components that a traversable edge joins, each
pair once, in order and without a cycle; the weak components partition the
indexes by connection, each sorted, by their smallest index. -/
theorem condensation_spec (h : g.ValidIds) :
    g.IsCondensation (analyzeReachability g).unreachableCondensationEdges
      (analyzeReachability g).unreachableWeakComponents (analyzeReachability g).unreachableSccs.length where
  edge_iff _ _ := mem_condensationEdges_iff h
  sorted := condensationEdges_sorted g
  nodup := condensationEdges_nodup g
  acyclic := condensation_acyclic h
  covers := (weakComponents_groups h).mem_iff
  disjoint := (weakComponents_groups h).nodup
  ne_nil := (weakComponents_groups h).ne_nil
  same_iff _ _ ha _ := sameWeakComponent_iff h ha
  increasing _ hc := weakComponents_increasing h hc
  ordered := weakComponents_heads h

theorem deadCycle_condensation :
    (⟨0, 1⟩ ∈ (analyzeReachability deadCycle).unreachableCondensationEdges ↔ 0 ≠ 1 ∧ deadCycle.SccsJoined 0 1) ∧
    ∀ a, ¬ TransGen (fun a b => ⟨a, b⟩ ∈ (analyzeReachability deadCycle).unreachableCondensationEdges) a a := by
  have h : deadCycle.ValidIds := ⟨by decide, by decide, by decide, by decide⟩
  exact ⟨(condensation_spec h).edge_iff 0 1, (condensation_spec h).acyclic⟩

end Graph

end CxxDead
