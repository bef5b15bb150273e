import CxxDead.Invariant
import CxxDead.Lib.Groups
import CxxDead.Lib.Search
import CxxDead.Lib.Tarjan
/-!
# Reachability

`analyzeReachability`: two traversals from the roots, the strongly connected
components of the unreachable symbols, their condensation and its weak
components. `IsPath` says in the graph's own terms what the traversals compute.

- `analyzeReachability_iff_path`: a symbol is marked exactly when a path of live
  edges leads to it from a root.
-/

namespace CxxDead

open Lib

structure CondensationEdge where
  fromScc : Nat
  toScc : Nat
deriving DecidableEq

structure ReachabilityResult where
  reachable : List Bool
  structurallyReachable : List Bool
  providerReachable : List Bool
  unreachableSccs : List (List SymbolId)
  unreachableCondensationEdges : List CondensationEdge
  unreachableWeakComponents : List (List Nat)

/-- `bits[id]`. -/
def flag (bits : List Bool) (id : Nat) : Bool := bits.getD id false

namespace Graph

/-! ## The traversals -/

/-- An edge that leads on from its source. -/
def isLive (g : Graph) (e : Edge) : Bool := isTraversable e.kind && hasIndexedBody (g.symbol e.from).scope

def adjacency (g : Graph) (id : SymbolId) : List SymbolId :=
  (g.edges.filter fun e => g.isLive e && e.from == id).map (·.to)

def structuralAdjacency (g : Graph) (id : SymbolId) : List SymbolId :=
  (g.edges.filter fun e => g.isLive e && !e.kind.isProvider && e.from == id).map (·.to)

/-- The roots that a traversal starts from. -/
def startingRoots (g : Graph) (includeProviderRoots : Bool) : List SymbolId :=
  (g.roots.filter fun r => includeProviderRoots || !r.kind.isProvider).map (·.symbol)

/-- The stack loop of `traverse`, at its end. -/
def traversal (g : Graph) (edges : SymbolId → List SymbolId) (includeProviderRoots : Bool) : Search :=
  Search.drain edges g.symbols.length
    ((g.startingRoots includeProviderRoots).foldl Search.push (Search.start g.symbols.length))

def traverse (g : Graph) (edges : SymbolId → List SymbolId) (includeProviderRoots : Bool) : List Bool :=
  (g.traversal edges includeProviderRoots).marks

/-! ## Components of the unreachable symbols -/

def isCandidate (g : Graph) (reachable : List Bool) (id : SymbolId) : Bool :=
  (g.symbol id).defined && isReportable (g.symbol id).scope && !flag reachable id &&
    (g.symbol id).kind != .synthetic

/-- The order of the members of a component. -/
def memberOrder (g : Graph) (id : SymbolId) : Bytes ×ₗ Bytes :=
  toLex ((g.symbol id).qualifiedName, (g.symbol id).signature)

/-- The order of components, by their first member. -/
def sccOrder (g : Graph) (component : List SymbolId) : Bytes ×ₗ UInt64 ×ₗ UInt64 ×ₗ Bytes :=
  let symbol := g.symbol (component.headD 0)
  let location := (primarySourceExtent symbol).location
  toLex (location.file.genericString, toLex (location.line, toLex (location.column, symbol.key)))

def unreachableSccs (g : Graph) (reachable : List Bool) : List (List SymbolId) :=
  sortOn g.sccOrder
    (Tarjan.run g.adjacency (g.isCandidate reachable) (sortOn g.memberOrder) g.symbols.length).components

/-- `scc_by_symbol`, where `-1` stands for a symbol in no component. -/
def sccBySymbol (sccs : List (List SymbolId)) : SymbolId → Int := groupTable (fun i => (i : Int)) (-1) sccs

def condensationEdge (bySymbol : SymbolId → Int) (e : Edge) : Option CondensationEdge :=
  if !isTraversable e.kind then none
  else if bySymbol e.from < 0 ∨ bySymbol e.to < 0 ∨ bySymbol e.from = bySymbol e.to then none
  else some ⟨(bySymbol e.from).toNat, (bySymbol e.to).toNat⟩

def condensationOrder (e : CondensationEdge) : Nat ×ₗ Nat := toLex (e.fromScc, e.toScc)

def condensationEdges (g : Graph) (sccs : List (List SymbolId)) : List CondensationEdge :=
  uniqueOn condensationOrder (sortOn condensationOrder (g.edges.filterMap (condensationEdge (sccBySymbol sccs))))

end Graph

def weakAdjacency (edges : List CondensationEdge) (scc : Nat) : List Nat :=
  edges.flatMap fun e => (if e.fromScc = scc then [e.toScc] else []) ++ (if e.toScc = scc then [e.fromScc] else [])

def weakComponents (edges : List CondensationEdge) (count : Nat) : List (List Nat) :=
  sortOn (fun component => component.headD 0)
    ((Search.components (weakAdjacency edges) count).map (sortOn id))

def analyzeReachability (g : Graph) : ReachabilityResult :=
  let structurallyReachable := g.traverse g.structuralAdjacency false
  let reachable := g.traverse g.adjacency true
  let unreachableSccs := g.unreachableSccs reachable
  let edges := g.condensationEdges unreachableSccs
  { reachable
    structurallyReachable
    providerReachable :=
      (List.range g.symbols.length).map fun id => flag reachable id && !flag structurallyReachable id
    unreachableSccs
    unreachableCondensationEdges := edges
    unreachableWeakComponents := weakComponents edges unreachableSccs.length }

/-! ## Paths -/

namespace Graph

/-- `p` lists the edges of a path of `g` from `a` to `b`. -/
def IsPath (g : Graph) (a : SymbolId) : List Edge → SymbolId → Prop
  | [], b => a = b
  | e :: p, b => e ∈ g.edges ∧ e.from = a ∧ IsPath g e.to p b

variable {g : Graph}

/-- Paths of edges that satisfy `ok`, as a closure. -/
theorem exists_path_iff {ok : Edge → Prop} {a b : SymbolId} :
    (∃ p, g.IsPath a p b ∧ ∀ e ∈ p, ok e) ↔
      Relation.ReflTransGen (fun a b => ∃ e ∈ g.edges, ok e ∧ e.from = a ∧ e.to = b) a b := by
  constructor
  · rintro ⟨p, hp, hok⟩
    induction p generalizing a with
    | nil => rw [show a = b from hp]
    | cons e p ih =>
      obtain ⟨he, hfrom, hrest⟩ := hp
      exact .head ⟨e, he, hok e List.mem_cons_self, hfrom, rfl⟩
        (ih hrest fun e' h' => hok e' (List.mem_cons_of_mem _ h'))
  · intro h
    induction h using Relation.ReflTransGen.head_induction_on with
    | refl => exact ⟨[], rfl, by simp⟩
    | head hstep _ ih =>
      obtain ⟨e, he, hok, rfl, rfl⟩ := hstep
      obtain ⟨p, hp, hall⟩ := ih
      refine ⟨e :: p, ⟨he, rfl, hp⟩, fun e' h' => ?_⟩
      rcases List.mem_cons.1 h' with rfl | h'
      · exact hok
      · exact hall e' h'

theorem mem_adjacency {a b : SymbolId} :
    b ∈ g.adjacency a ↔ ∃ e ∈ g.edges, g.isLive e = true ∧ e.from = a ∧ e.to = b := by
  simp [adjacency, and_assoc]

theorem mem_structuralAdjacency {a b : SymbolId} :
    b ∈ g.structuralAdjacency a ↔
      ∃ e ∈ g.edges, (g.isLive e = true ∧ e.kind.isProvider = false) ∧ e.from = a ∧ e.to = b := by
  simp [structuralAdjacency, and_assoc]

theorem mem_startingRoots {includeProviderRoots : Bool} {id : SymbolId} :
    id ∈ g.startingRoots includeProviderRoots ↔
      ∃ r ∈ g.roots, (includeProviderRoots = true ∨ r.kind.isProvider = false) ∧ r.symbol = id := by
  simp [startingRoots, and_assoc]

theorem ValidIds.adjacency_lt (h : g.ValidIds) (a : SymbolId) : ∀ b ∈ g.adjacency a, b < g.symbols.length := by
  intro b hb
  obtain ⟨e, he, -, -, rfl⟩ := mem_adjacency.1 hb
  exact (h.edges e he).2

theorem flag_iff {bits : List Bool} {id : Nat} : flag bits id = true ↔ bits[id]? = some true := by
  unfold flag
  rw [List.getD_eq_getElem?_getD]
  cases h : bits[id]? <;> simp

/-- A traversal whose adjacency lists the targets of the edges that satisfy `ok`
marks what a path of such edges leads to. -/
theorem flag_traverse (h : g.ValidIds) {edges : SymbolId → List SymbolId} {ok : Edge → Prop}
    (hedges : ∀ a b, b ∈ edges a ↔ ∃ e ∈ g.edges, ok e ∧ e.from = a ∧ e.to = b)
    (includeProviderRoots : Bool) (id : SymbolId) :
    flag (g.traverse edges includeProviderRoots) id = true ↔
      ∃ r ∈ g.roots, (includeProviderRoots = true ∨ r.kind.isProvider = false) ∧
        ∃ p, g.IsPath r.symbol p id ∧ ∀ e ∈ p, ok e := by
  have hlt : ∀ a, ∀ b ∈ edges a, b < g.symbols.length := fun a b hb => by
    obtain ⟨e, he, -, -, rfl⟩ := (hedges a b).1 hb
    exact (h.edges e he).2
  have hroots : ∀ r ∈ g.startingRoots includeProviderRoots, r < g.symbols.length := fun r hr => by
    obtain ⟨root, hroot, -, rfl⟩ := mem_startingRoots.1 hr
    exact h.roots root hroot
  have hstep : (fun a b => b ∈ edges a) = fun a b => ∃ e ∈ g.edges, ok e ∧ e.from = a ∧ e.to = b :=
    funext fun a => funext fun b => propext (hedges a b)
  rw [flag_iff]
  show (Search.search edges _ _)[id]? = some true ↔ _
  rw [Search.search_iff hroots hlt, hstep]
  simp only [exists_path_iff, mem_startingRoots]
  constructor
  · rintro ⟨_, ⟨r, hr, hkind, rfl⟩, hp⟩
    exact ⟨r, hr, hkind, hp⟩
  · rintro ⟨r, hr, hkind, hp⟩
    exact ⟨_, ⟨r, hr, hkind, rfl⟩, hp⟩

theorem isLive_iff {e : Edge} :
    g.isLive e = true ↔ isTraversable e.kind = true ∧ hasIndexedBody (g.symbol e.from).scope = true := by
  unfold isLive
  exact Bool.and_eq_true_iff

/-! ## What the marks mean -/

theorem length_traverse (edges : SymbolId → List SymbolId) (includeProviderRoots : Bool) :
    (g.traverse edges includeProviderRoots).length = g.symbols.length :=
  Search.length_search _ _

theorem flag_lt {bits : List Bool} {id : Nat} (h : flag bits id = true) : id < bits.length :=
  (List.getElem?_eq_some_iff.1 (flag_iff.1 h)).1

theorem flag_reachable (h : g.ValidIds) (id : SymbolId) :
    flag (analyzeReachability g).reachable id = true ↔
      ∃ r ∈ g.roots, ∃ p, g.IsPath r.symbol p id ∧
        ∀ e ∈ p, isTraversable e.kind = true ∧ hasIndexedBody (g.symbol e.from).scope = true := by
  show flag (g.traverse g.adjacency true) id = true ↔ _
  rw [flag_traverse h (fun a b => mem_adjacency)]
  simp only [true_or, true_and, isLive_iff]

theorem flag_structurallyReachable (h : g.ValidIds) (id : SymbolId) :
    flag (analyzeReachability g).structurallyReachable id = true ↔
      ∃ r ∈ g.roots, r.kind.isProvider = false ∧ ∃ p, g.IsPath r.symbol p id ∧
        ∀ e ∈ p, (isTraversable e.kind = true ∧ hasIndexedBody (g.symbol e.from).scope = true) ∧
          e.kind.isProvider = false := by
  show flag (g.traverse g.structuralAdjacency false) id = true ↔ _
  rw [flag_traverse h (fun a b => mem_structuralAdjacency)]
  simp only [Bool.false_eq_true, false_or, isLive_iff]

theorem flag_providerReachable (g : Graph) (id : SymbolId) :
    flag (analyzeReachability g).providerReachable id = true ↔
      flag (analyzeReachability g).reachable id = true ∧
        flag (analyzeReachability g).structurallyReachable id = false := by
  have hlt : flag (g.traverse g.adjacency true) id = true → id < g.symbols.length := fun h => by
    have := flag_lt h
    rwa [length_traverse] at this
  rw [flag_iff]
  show ((List.range g.symbols.length).map _)[id]? = some true ↔ flag (g.traverse g.adjacency true) id = true ∧ _
  rw [List.getElem?_map]
  by_cases hid : id < g.symbols.length
  · rw [List.getElem?_range hid]
    simp [analyzeReachability]
  · rw [List.getElem?_eq_none (by simpa using hid)]
    exact iff_of_false (by simp) (fun h => hid (hlt h.1))

/-- The marks are what paths of live edges from the roots say, and every stack
loop runs until its stack is empty. -/
theorem analyzeReachability_iff_path (h : g.ValidIds) :
    (∀ id, flag (analyzeReachability g).reachable id = true ↔
      ∃ r ∈ g.roots, ∃ p, g.IsPath r.symbol p id ∧
        ∀ e ∈ p, isTraversable e.kind = true ∧ hasIndexedBody (g.symbol e.from).scope = true) ∧
    (∀ id, flag (analyzeReachability g).structurallyReachable id = true ↔
      ∃ r ∈ g.roots, r.kind.isProvider = false ∧ ∃ p, g.IsPath r.symbol p id ∧
        ∀ e ∈ p, (isTraversable e.kind = true ∧ hasIndexedBody (g.symbol e.from).scope = true) ∧
          e.kind.isProvider = false) ∧
    (∀ id, flag (analyzeReachability g).providerReachable id = true ↔
      flag (analyzeReachability g).reachable id = true ∧
        flag (analyzeReachability g).structurallyReachable id = false) ∧
    (g.traversal g.adjacency true).stack = [] ∧ (g.traversal g.structuralAdjacency false).stack = [] := by
  refine ⟨flag_reachable h, flag_structurallyReachable h, flag_providerReachable g, ?_, ?_⟩
  · exact Search.search_stack _ _ _
  · exact Search.search_stack _ _ _

/-- Two functions that call each other, one of them an entry point. -/
def mutualCalls : Graph :=
  { symbols := [{ key := lit "a", defined := true, scope := .reportable },
      { key := lit "b", defined := true, scope := .reportable }]
    edges := [⟨0, 1, .directCall, {}⟩, ⟨1, 0, .directCall, {}⟩]
    keyToId := [(lit "a", 0), (lit "b", 1)]
    roots := [⟨0, .applicationEntryPoint, {}⟩] }

theorem mutualCalls_validIds : mutualCalls.ValidIds := ⟨by decide, by decide, by decide, by decide⟩

theorem mutualCalls_reachable :
    (∃ r ∈ mutualCalls.roots, ∃ p, mutualCalls.IsPath r.symbol p 1 ∧
      ∀ e ∈ p, isTraversable e.kind = true ∧ hasIndexedBody (mutualCalls.symbol e.from).scope = true) ∧
    (mutualCalls.traversal mutualCalls.adjacency true).stack = [] :=
  ⟨((analyzeReachability_iff_path mutualCalls_validIds).1 1).1 (by decide),
    (analyzeReachability_iff_path mutualCalls_validIds).2.2.2.1⟩

end Graph

end CxxDead
