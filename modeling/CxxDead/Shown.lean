import CxxDead.Unseen
/-!
# What the walk over uses is bound to see

The counterpart of what is unseen: a node at which a function is surely seen leaves an
edge, a root or an escape of it, and no later step takes that back.

- `possible_reliable`: of a function that is declared in the project only, what may be is sure.
- `collectUses_traced`: the walk over a tree in which the function is surely seen leaves a trace of it.
-/

namespace CxxDead

open Lib Json CxxDead.Graph

namespace Ast

/-! ## Facts stay -/

/-- A state that the walk comes to later. -/
structure Later (s s' : TranslationUnitState) : Prop where
  grows : Grows s s'
  inv : s'.graph.Inv
  length_le : s.graph.symbols.length ≤ s'.graph.symbols.length
  keyOf_eq : ∀ d < s.graph.symbols.length, s'.graph.keyOf d = s.graph.keyOf d

section Later
variable {s₀ s s' : TranslationUnitState}

theorem Later.refl (hs : s.graph.Inv) : Later s s := ⟨.refl s, hs, Nat.le_refl _, fun _ _ => rfl⟩

theorem Later.trans (h : Later s₀ s) (h' : Later s s') : Later s₀ s' :=
  ⟨h.grows.trans h'.grows, h'.inv, Nat.le_trans h.length_le h'.length_le, fun d hd =>
    (h'.keyOf_eq d (Nat.lt_of_lt_of_le hd h.length_le)).trans (h.keyOf_eq d hd)⟩

/-- The symbols are the same, the facts have grown. -/
theorem Later.sameSymbols (h : Later s₀ s) (hgrows : Grows s₀ s') (hinv : s'.graph.Inv)
    (hsymbols : s'.graph.symbols = s.graph.symbols) : Later s₀ s' := by
  refine ⟨hgrows, hinv, ?_, fun d hd => ?_⟩
  · rw [hsymbols]
    exact h.length_le
  · rw [← h.keyOf_eq d hd]
    unfold keyOf symbol
    rw [hsymbols]

theorem Later.onGraph {m : GraphM Unit} (hgrows : Keeps (Grows s₀) (Ast.onGraph m)) (hinv : Keeps Inv m)
    (hsymbols : ∀ g, (endState m g).symbols = g.symbols) : Keeps (Later s₀) (Ast.onGraph m) := by
  intro s hs
  have hafter := hgrows s hs.grows
  rw [onGraph_endState] at hafter ⊢
  exact hs.sameSymbols hafter (hinv _ hs.inv) (hsymbols s.graph)

theorem promote_later (hs : Later s₀ s) {id : Bytes} {symbol : Symbol} (hnew : s.declarations.lookup id = none)
    (houtside : s.opaqueDeclarations.lookup id = some symbol) : Later s₀ (endState (promote id symbol) s) := by
  have hgrows := (grows_steps s₀).promote s id symbol hnew houtside hs.grows
  rcases promote_endState id symbol s with ⟨d, s', hrun, hend⟩ | hend
  · rw [hend] at hgrows ⊢
    obtain ⟨g, hgraph, rfl⟩ := promote_ok hrun
    obtain ⟨hextends, -⟩ := addOrMergeSymbol_spec hs.inv hgraph
    exact ⟨hgrows, Keeps.ok (addOrMergeSymbol_inv symbol) hs.inv hgraph, Nat.le_trans hs.length_le hextends.length_le,
      fun d hd => (hextends.keyOf_eq d (Nat.lt_of_lt_of_le hd hs.length_le)).trans (hs.keyOf_eq d hd)⟩
  · rw [hend]
    exact hs

theorem later_steps (s₀ : TranslationUnitState) : KeptBySteps (Later s₀) where
  promote _ _ _ hnew houtside hs := promote_later hs hnew houtside
  edge _ _ _ _ := Later.onGraph ((grows_steps s₀).edge _ _ _ _) (addEdge_inv _ _ _ _) (addEdge_symbols _ _ _ _)
  root _ _ _ := Later.onGraph ((grows_steps s₀).root _ _ _) (addRoot_inv _ _ _) (addRoot_symbols _ _ _)
  escape _ _ _ _ := Later.onGraph ((grows_steps s₀).escape _ _ _ _) (addEscape_inv _ _ _ _) (addEscape_symbols _ _ _ _)
  bindings s bindings hs := hs.sameSymbols ((grows_steps s₀).bindings s bindings hs.grows) hs.inv rfl
  diagnostic s d hs := hs.sameSymbols ((grows_steps s₀).diagnostic s d hs.grows) hs.inv rfl
  ruleMatch s k hs := hs.sameSymbols ((grows_steps s₀).ruleMatch s k hs.grows) hs.inv rfl

/-- Later, if the graph is well formed. -/
def Onward (s s' : TranslationUnitState) : Prop := s.graph.Inv → Later s s'

theorem Onward.refl (s : TranslationUnitState) : Onward s s := Later.refl

theorem Onward.trans {s'' : TranslationUnitState} (h : Onward s s') (h' : Onward s' s'') : Onward s s'' :=
  fun hs => (h hs).trans (h' (h hs).inv)

theorem onward_steps (s : TranslationUnitState) : KeptBySteps (Onward s) where
  promote _ _ symbol hnew houtside h hs := (later_steps s).promote _ _ symbol hnew houtside (h hs)
  edge _ _ _ _ _ h hs := (later_steps s).edge _ _ _ _ _ (h hs)
  root _ _ _ _ h hs := (later_steps s).root _ _ _ _ (h hs)
  escape _ _ _ _ _ h hs := (later_steps s).escape _ _ _ _ _ (h hs)
  bindings _ bindings h hs := (later_steps s).bindings _ bindings (h hs)
  diagnostic _ diagnostic h hs := (later_steps s).diagnostic _ diagnostic (h hs)
  ruleMatch _ k h hs := (later_steps s).ruleMatch _ k (h hs)

end Later

/-! ## What is found -/

/-- One of the symbols is the function. -/
def HasKey (key : Bytes) (s : TranslationUnitState) (l : List SymbolId) : Prop :=
  ∃ d ∈ l, d < s.graph.symbols.length ∧ s.graph.keyOf d = key

section Found
variable {key : Bytes} {s₀ s s' : TranslationUnitState} {l l' : List SymbolId}

theorem HasKey.mono (h : HasKey key s l) (hsub : ∀ d ∈ l, d ∈ l') : HasKey key s l' := by
  obtain ⟨d, hd, hlt, hkey⟩ := h
  exact ⟨d, hsub d hd, hlt, hkey⟩

theorem HasKey.later (h : HasKey key s l) (hlater : Later s s') : HasKey key s' l := by
  obtain ⟨d, hd, hlt, hkey⟩ := h
  exact ⟨d, hd, Nat.lt_of_lt_of_le hlt hlater.length_le, (hlater.keyOf_eq d hlt).trans hkey⟩

/-- A declared id that denotes the function stands for it. -/
theorem Steady.denotes (hs : Steady s₀ s) {id : Bytes} {d : SymbolId} (hd : s.declarations.lookup id = some d)
    (hdenotes : denotedKey s₀ id = some key) : d < s.graph.symbols.length ∧ s.graph.keyOf d = key := by
  rw [← hs.denoted, denotedKey_some hd] at hdenotes
  exact ⟨hs.declared hd, Option.some.inj hdenotes⟩

theorem resolveReferences_certain (hs : Steady s₀ s) {t : Node} (hrefers : refersTo s₀ key t = true)
    (hrun : resolveReferences t s = .ok l s') : HasKey key s' l := by
  obtain ⟨id, hid, hdenotes⟩ := List.any_eq_true.1 hrefers
  have hkey : denotedKey s₀ id = some key := beq_iff_eq.1 hdenotes
  obtain ⟨d, hd, hlookup⟩ := resolveReferences_known hrun hid (known_of_denoted ((hs.denoted id).trans hkey))
  have hs' : Steady s₀ s' := (resolveReferences_keeps (steady_steps s₀).toKeptByLooks t).ok hs hrun
  exact ⟨d, hd, hs'.denotes hlookup hkey⟩

/-- The symbol of the graph that a symbol of the project has become. -/
theorem Steady.settledAt (hs : Steady s₀ s) {symbol : Symbol} (hsymbol : symbol ∈ s₀.graph.symbols) :
    ∃ d < s.graph.symbols.length, Settles symbol (s.graph.symbol d) := by
  obtain ⟨merged, hmerged, hsettles⟩ := hs.settled symbol hsymbol
  obtain ⟨d, hd, rfl⟩ := List.mem_iff_getElem.1 hmerged
  exact ⟨d, hd, by rw [symbol_eq hd]; exact hsettles⟩

theorem Settles.belongs {type : Bytes} {symbol merged : Symbol} (h : Settles symbol merged)
    (hbelongs : belongsTo type symbol = true) : type ≠ [] ∧ namesEquivalent merged.className type = true := by
  unfold belongsTo at hbelongs
  simp only [Bool.and_eq_true, bne_iff_ne] at hbelongs
  obtain ⟨⟨htype, hclass⟩, hequivalent⟩ := hbelongs
  exact ⟨htype, by rw [h.className hclass]; exact hequivalent⟩

theorem callOperators_certain (hs : Steady s₀ s) {type : Bytes} (h : surelyOperates s₀ key type = true) :
    HasKey key s (callOperators s.graph type) := by
  obtain ⟨symbol, hsymbol, hkey, hp⟩ := holds_iff.1 h
  obtain ⟨hname, hbelongs⟩ := Bool.and_eq_true_iff.1 hp
  obtain ⟨d, hd, hsettles⟩ := hs.settledAt hsymbol
  obtain ⟨htype, hequivalent⟩ := hsettles.belongs hbelongs
  refine ⟨d, ?_, hd, hsettles.key.trans hkey⟩
  unfold callOperators
  rw [if_neg htype]
  refine List.mem_filter.2 ⟨List.mem_range.2 hd, Bool.and_eq_true_iff.2 ⟨?_, hequivalent⟩⟩
  rw [hsettles.name]
  exact hname

theorem constructionTargets_certain (hs : Steady s₀ s) {type : Bytes} {signature : Option Bytes}
    (h : surelyConstructs s₀ key type signature = true) : HasKey key s (constructionTargets s.graph type signature) := by
  obtain ⟨symbol, hsymbol, hkey, hp⟩ := holds_iff.1 h
  obtain ⟨hbelongs, hkind⟩ := Bool.and_eq_true_iff.1 hp
  obtain ⟨d, hd, hsettles⟩ := hs.settledAt hsymbol
  obtain ⟨htype, hequivalent⟩ := hsettles.belongs hbelongs
  refine ⟨d, ?_, hd, hsettles.key.trans hkey⟩
  unfold constructionTargets
  rw [if_neg htype]
  refine List.mem_filter.2 ⟨List.mem_range.2 hd, Bool.and_eq_true_iff.2 ⟨hequivalent, ?_⟩⟩
  rw [hsettles.kind]
  refine (Bool.or_eq_true _ _ ▸ hkind).elim (fun hconstructor => ?_) fun hdestructor => ?_
  · obtain ⟨hconstructor, hsignature⟩ := Bool.and_eq_true_iff.1 hconstructor
    refine Bool.or_eq_true_iff.2 (.inl (Bool.and_eq_true_iff.2 ⟨hconstructor, ?_⟩))
    cases signature with
    | none => rfl
    | some x =>
      simp only [Option.all_some, Bool.and_eq_true, bne_iff_ne, beq_iff_eq] at hsignature ⊢
      obtain ⟨⟨hne, hsame⟩, hbody⟩ := hsignature
      exact (hsettles.signature hbody hne).trans hsame
  · exact Bool.or_eq_true_iff.2 (.inr hdestructor)

mutual

theorem lambdaOperator_mem (declarations : List (Bytes × SymbolId)) {id : Bytes} {d : SymbolId}
    (hd : declarations.lookup id = some d) : ∀ t, id ∈ lambdaOperatorIds t → d ∈ collectLambdaOperators declarations t
  | .node value children => by
    unfold lambdaOperatorIds collectLambdaOperators
    split
    · intro hid
      rw [← List.mem_singleton.1 hid, hd]
      exact List.mem_singleton_self d
    · exact allLambdaOperators_mem declarations hd children

theorem allLambdaOperators_mem (declarations : List (Bytes × SymbolId)) {id : Bytes} {d : SymbolId}
    (hd : declarations.lookup id = some d) :
    ∀ ts, id ∈ allLambdaOperatorIds ts → d ∈ collectAllLambdaOperators declarations ts
  | [] => fun hid => absurd hid List.not_mem_nil
  | t :: ts => by
    unfold allLambdaOperatorIds collectAllLambdaOperators
    intro hid
    rcases List.mem_append.1 hid with hid | hid
    · exact List.mem_append.2 (.inl (lambdaOperator_mem declarations hd t hid))
    · exact List.mem_append.2 (.inr (allLambdaOperators_mem declarations hd ts hid))

end

/-- Whatever the sight sees is there. -/
structure Sure (key : Bytes) (sight : Sight) (s : TranslationUnitState) : Prop where
  declares : ∀ {id}, sight.declares id = true →
    ∃ d, s.declarations.lookup id = some d ∧ d < s.graph.symbols.length ∧ s.graph.keyOf d = key
  operates : ∀ {type}, sight.operates type = true → HasKey key s (callOperators s.graph type)
  constructs : ∀ {type signature}, sight.constructs type signature = true →
    HasKey key s (constructionTargets s.graph type signature)
  bound : ∀ {v}, sight.bound v = true → ∃ targets, s.callableBindings.lookup v = some targets ∧ HasKey key s targets
  byValue : ∀ {callee}, sight.byValue callee = true → ∀ id ∈ collectReferenceIds callee, denotedKey s id = none

/-- The sight is sure in all states of `I`, which looking something up and recording a fact do not leave. -/
structure Reliable (key : Bytes) (s₀ : TranslationUnitState) (sight : Sight) (I : TranslationUnitState → Prop) :
    Prop where
  looks : KeptByLooks I
  steady : ∀ {s}, I s → Steady s₀ s
  sure : ∀ {s}, I s → Sure key sight s

variable {sight : Sight} {I : TranslationUnitState → Prop}

theorem lambdaOperators_found (hsure : Sure key sight s) {t : Node}
    (h : (lambdaOperatorIds t).any sight.declares = true) : HasKey key s (collectLambdaOperators s.declarations t) := by
  obtain ⟨id, hid, hdeclares⟩ := List.any_eq_true.1 h
  obtain ⟨d, hd, hfound⟩ := hsure.declares hdeclares
  exact ⟨d, lambdaOperator_mem _ hd t hid, hfound⟩

theorem boundTargets_found (hsure : Sure key sight s) {node : Value} (h : (ownVariableId node).any sight.bound = true) :
    HasKey key s (boundTargets s node) := by
  obtain ⟨v, hv, hbound⟩ := (Option.any_eq_true _ _).1 h
  obtain ⟨targets, hlookup, hfound⟩ := hsure.bound hbound
  unfold boundTargets
  rw [hv]
  show HasKey key s ((s.callableBindings.lookup v).getD [])
  rw [hlookup]
  exact hfound

theorem ownCallableTargets_found (hr : Reliable key s₀ sight I) (hs : I s) {t : Node}
    (h : ((ownVariableId t.label).any sight.bound || (isReferenceKind (stringOr t.label "kind") && refersTo s₀ key t) ||
      sight.operates (normalizeType (desugaredTypeString t.label))) = true)
    (hrun : ownCallableTargets t s = .ok l s') : HasKey key s' l := by
  have hlast : ∀ {references s₁}, I s₁ → Later s s₁ →
      (isReferenceKind (stringOr t.label "kind") = true → refersTo s₀ key t = true → HasKey key s₁ references) →
      HasKey key s₁ (appendUnique (appendUnique (appendUnique [] (boundTargets s t.label)) references)
        (callOperators s₁.graph (normalizeType (desugaredTypeString t.label)))) := by
    intro references s₁ hs₁ hlater hfound
    rcases Bool.or_eq_true_iff.1 h with h | hoperates
    · refine HasKey.mono ?_ fun d hd => mem_appendUnique.2 (.inl hd)
      rcases Bool.or_eq_true_iff.1 h with hbound | hrefers
      · exact ((boundTargets_found (hr.sure hs) hbound).later hlater).mono fun d hd =>
          mem_appendUnique.2 (.inl (mem_appendUnique_nil.2 hd))
      · obtain ⟨hkind, hrefers⟩ := Bool.and_eq_true_iff.1 hrefers
        exact (hfound hkind hrefers).mono fun d hd => mem_appendUnique.2 (.inr hd)
    · exact ((hr.sure hs₁).operates hoperates).mono fun d hd => mem_appendUnique.2 (.inr hd)
  obtain ⟨_, _, hget, hrest⟩ := bind_ok_iff.1 hrun
  cases hget
  simp only [] at hrest
  split at hrest
  · obtain ⟨references, s₁, hreferences, hrest⟩ := bind_ok_iff.1 hrest
    obtain ⟨_, _, hget, hpure⟩ := bind_ok_iff.1 hrest
    cases hget
    obtain ⟨rfl, rfl⟩ := pure_ok_iff.1 hpure
    have hlater : Later s s₁ :=
      (resolveReferences_keeps (later_steps s).toKeptByLooks t).ok (.refl (hr.steady hs).inv) hreferences
    exact hlast ((resolveReferences_keeps hr.looks t).ok hs hreferences) hlater fun _ hrefers =>
      resolveReferences_certain (hr.steady hs) hrefers hreferences
  · rename_i hkind
    obtain ⟨_, _, hnone, hrest⟩ := bind_ok_iff.1 hrest
    obtain ⟨rfl, rfl⟩ := pure_ok_iff.1 hnone
    obtain ⟨_, _, hget, hpure⟩ := bind_ok_iff.1 hrest
    cases hget
    obtain ⟨rfl, rfl⟩ := pure_ok_iff.1 hpure
    exact hlast hs (.refl (hr.steady hs).inv) fun h => absurd h hkind

mutual

/-- The function is found where it surely stands for an expression. -/
theorem resolveCallableTargets_found (hr : Reliable key s₀ sight I) : ∀ t s l s', I s →
    standsFor s₀ key sight t = true → resolveCallableTargets t s = .ok l s' → HasKey key s' l
  | .node value children, s, l, s', hs, hstands, hrun => by
    unfold resolveCallableTargets at hrun
    unfold standsFor at hstands
    split at hrun
    · rename_i hlambda
      rw [if_pos hlambda] at hstands
      obtain ⟨_, _, hget, hpure⟩ := bind_ok_iff.1 hrun
      cases hget
      obtain ⟨rfl, rfl⟩ := pure_ok_iff.1 hpure
      exact (lambdaOperators_found (hr.sure hs) hstands).mono fun d => mem_appendUnique_nil.2
    · rename_i hlambda
      rw [if_neg hlambda] at hstands
      obtain ⟨own, s₁, hown, hrest⟩ := bind_ok_iff.1 hrun
      have hs₁ : I s₁ := (ownCallableTargets_keeps hr.looks _).ok hs hown
      have hfound := fun h => ownCallableTargets_found (t := .node value children) hr hs h hown
      split at hrest
      · rename_i hstop
        obtain ⟨rfl, rfl⟩ := pure_ok_iff.1 hrest
        rw [hstop, Bool.not_true, Bool.false_and, Bool.or_false] at hstands
        exact hfound hstands
      · rename_i hgo
        rw [Bool.not_eq_true] at hgo
        rw [hgo, Bool.not_false, Bool.true_and] at hstands
        exact resolveAllCallableTargets_found hr children own s₁ l s' hs₁
          ((Bool.or_eq_true_iff.1 hstands).imp_left hfound) hrest

theorem resolveAllCallableTargets_found (hr : Reliable key s₀ sight I) : ∀ ts result s l s', I s →
    HasKey key s result ∨ anyStandsFor s₀ key sight ts = true →
    resolveAllCallableTargets result ts s = .ok l s' → HasKey key s' l
  | [], result, s, l, s', hs, hstands, hrun => by
    obtain ⟨rfl, rfl⟩ := pure_ok_iff.1 hrun
    exact hstands.resolve_right Bool.false_ne_true
  | t :: ts, result, s, l, s', hs, hstands, hrun => by
    unfold resolveAllCallableTargets at hrun
    unfold anyStandsFor at hstands
    obtain ⟨targets, s₁, hfirst, hrest⟩ := bind_ok_iff.1 hrun
    have hs₁ : I s₁ := (resolveCallableTargets_keeps hr.looks t).ok hs hfirst
    refine resolveAllCallableTargets_found hr ts _ s₁ l s' hs₁ ?_ hrest
    rcases hstands with hresult | hstands
    · have hlater : Later s s₁ :=
        (resolveCallableTargets_keeps (later_steps s).toKeptByLooks t).ok (.refl (hr.steady hs).inv) hfirst
      exact .inl ((hresult.later hlater).mono fun d hd => mem_appendUnique.2 (.inl hd))
    · refine (Bool.or_eq_true_iff.1 hstands).imp_left fun ht => ?_
      exact (resolveCallableTargets_found hr t s targets s₁ hs ht hfirst).mono fun d hd => mem_appendUnique.2 (.inr hd)

end

/-- References that are declared nowhere resolve to nothing. -/
theorem resolveReferences_unknown {t : Node} (h : ∀ id ∈ collectReferenceIds t, denotedKey s id = none) :
    resolveReferences t s = .ok [] s := by
  have hone : ∀ id, denotedKey s id = none → resolveReference id s = .ok none s := by
    intro id hid
    unfold resolveReference
    cases hdeclared : s.declarations.lookup id with
    | some d =>
      rw [denotedKey_some hdeclared] at hid
      cases hid
    | none =>
      rw [denotedKey_none hdeclared, Option.map_eq_none_iff] at hid
      rw [hid]
  have hall : ∀ ids : List Bytes, (∀ id ∈ ids, denotedKey s id = none) →
      ids.mapM resolveReference s = .ok (ids.map fun _ => none) s := by
    intro ids hids
    induction ids with
    | nil => rfl
    | cons id ids ih =>
      rw [List.mapM_cons, bind_of_ok (hone id (hids id List.mem_cons_self)),
        bind_of_ok (ih fun x hx => hids x (List.mem_cons_of_mem _ hx))]
      rfl
  unfold resolveReferences
  rw [bind_of_ok (hall _ h)]
  have hnone : ∀ ids : List Bytes, (ids.map fun _ => (none : Option SymbolId)).reduceOption = [] := by
    intro ids
    induction ids with
    | nil => rfl
    | cons id ids ih => exact ih
  rw [hnone]
  rfl

theorem calleeTargets_found (hr : Reliable key s₀ sight I) (hs : I s) {callee : Node}
    (h : (refersTo s₀ key callee || (sight.byValue callee && standsFor s₀ key sight callee)) = true)
    (hrun : calleeTargets callee s = .ok l s') : HasKey key s' l := by
  obtain ⟨references, s₁, hreferences, hrest⟩ := bind_ok_iff.1 hrun
  rcases Bool.or_eq_true_iff.1 h with hrefers | hvalue
  · obtain ⟨d, hd, hfound⟩ := resolveReferences_certain (hr.steady hs) hrefers hreferences
    rw [if_neg (List.ne_nil_of_mem hd)] at hrest
    obtain ⟨rfl, rfl⟩ := pure_ok_iff.1 hrest
    exact ⟨d, hd, hfound⟩
  · obtain ⟨hnone, hstands⟩ := Bool.and_eq_true_iff.1 hvalue
    rw [resolveReferences_unknown ((hr.sure hs).byValue hnone)] at hreferences
    cases hreferences
    rw [if_pos rfl] at hrest
    exact resolveCallableTargets_found hr callee s l s' hs hstands hrest

end Found

/-! ## Shown functions leave a trace -/

/-- A fact that only the walk over uses records. -/
def Traced (key : Bytes) (g : Graph) : Prop :=
  (∃ e ∈ g.edges, g.keyOf e.to = key) ∨
    (∃ r ∈ g.roots, r.kind = .globalInitializer ∧ g.keyOf r.symbol = key) ∨
    ∃ e ∈ g.escapes, g.keyOf e.symbol = key

section Traced
variable {tu : UnitContext} {key : Bytes} {s₀ s s' : TranslationUnitState}
variable {sight : Sight} {I : TranslationUnitState → Prop}

theorem Traced.later (h : Traced key s.graph) (hs : s.graph.Inv) (hlater : Later s s') : Traced key s'.graph := by
  rcases h with ⟨e, he, hkey⟩ | ⟨r, hr, hkind, hkey⟩ | ⟨e, he, hkey⟩
  · exact .inl ⟨e, hlater.grows.edges e he, by rw [hlater.keyOf_eq _ (hs.ids.edges e he).2, hkey]⟩
  · exact .inr (.inl ⟨r, hlater.grows.roots r hr, hkind, by rw [hlater.keyOf_eq _ (hs.ids.roots r hr), hkey]⟩)
  · exact .inr (.inr ⟨e, hlater.grows.escapes e he, by rw [hlater.keyOf_eq _ (hs.ids.escapes e he).1, hkey]⟩)

/-- What follows a trace does not take it back. -/
theorem Traced.after {α : Type} (h : Traced key s.graph) (hs : s.graph.Inv) {m : CollectM α}
    (hm : Keeps (Later s) m) {a : α} (hrun : m s = .ok a s') : Traced key s'.graph :=
  h.later hs (hm.ok (.refl hs) hrun)

/-- A loop over symbols, one of which is the function. -/
theorem forM_traced {f : SymbolId → CollectM Unit} (honward : ∀ s d, Keeps (Onward s) (f d))
    (hturn : ∀ s s' d, f d s = .ok () s' → s.graph.keyOf d = key → Traced key s'.graph)
    (hs : s.graph.Inv) {targets : List SymbolId} (hrun : targets.forM f s = .ok () s') (hfound : HasKey key s targets) :
    Traced key s'.graph := by
  obtain ⟨d, hd, hlt, hkey⟩ := hfound
  -- the turn of the function, with the turns before and after it
  obtain ⟨s₁, s₂, hone, hto, hfrom⟩ := forM_returned Onward.refl Onward.trans honward hrun hd
  have hbefore := hto hs
  have hone' : Onward s₁ s₂ := (honward s₁ d).ok (.refl s₁) hone
  have hafter := hone' hbefore.inv
  exact (hturn s₁ s₂ d hone ((hbefore.keyOf_eq d hlt).trans hkey)).later hafter.inv (hfrom hafter.inv)

theorem addEscape_traced {d : SymbolId} {kind : EscapeKind} {evidence : Evidence} {«from» : Option SymbolId}
    (hrun : onGraph (addEscape d kind evidence «from») s = .ok () s') (hkey : s.graph.keyOf d = key) :
    Traced key s'.graph := by
  have hgraph := onGraph_ok hrun
  unfold addEscape at hgraph
  rw [guarded_ok_iff] at hgraph
  rw [← hgraph.2.2]
  exact .inr (.inr ⟨_, mem_addFact.2 (.inr rfl), hkey⟩)

theorem addUse_traced {i : UseContext} (hi : i.inCode = true) {kind : EdgeKind} {reason : Bytes} {d : SymbolId}
    (hrun : addUse i kind reason d s = .ok () s') (hkey : s.graph.keyOf d = key) : Traced key s'.graph := by
  unfold addUse at hrun
  unfold UseContext.inCode at hi
  cases hcaller : i.caller with
  | some caller =>
    rw [hcaller] at hrun
    have hgraph := onGraph_ok hrun
    unfold addEdge at hgraph
    rw [guarded_ok_iff] at hgraph
    rw [← hgraph.2.2]
    exact .inl ⟨_, mem_addFact.2 (.inr rfl), hkey⟩
  | none =>
    rw [hcaller, Option.isSome_none, Bool.false_or] at hi
    rw [hcaller, hi] at hrun
    have hgraph := onGraph_ok hrun
    unfold addRoot at hgraph
    rw [guarded_ok_iff] at hgraph
    rw [← hgraph.2.2]
    exact .inr (.inl ⟨_, mem_addFact.2 (.inr rfl), rfl, hkey⟩)

theorem addUses_traced {i : UseContext} (hi : i.inCode = true) {kind : EdgeKind} {reason : Bytes}
    (hs : s.graph.Inv) {targets : List SymbolId} (hrun : targets.forM (addUse i kind reason) s = .ok () s')
    (hfound : HasKey key s targets) : Traced key s'.graph :=
  forM_traced (fun s d => addUse_keeps (onward_steps s).toKeptByLooks i _ _ d)
    (fun _ _ _ hrun hkey => addUse_traced hi hrun hkey) hs hrun hfound

theorem addConstructionEdges_traced (hr : Reliable key s₀ sight I) (hs : I s) {i : UseContext} (hi : i.inCode = true)
    {type : Bytes} {signature : Option Bytes} (h : sight.constructs (normalizeType type) signature = true)
    {reason : Bytes} {matched : Bool} (hrun : addConstructionEdges i type signature reason s = .ok matched s') :
    Traced key s'.graph := by
  obtain ⟨_, _, hget, hrest⟩ := bind_ok_iff.1 hrun
  cases hget
  obtain ⟨_, s₁, huses, hpure⟩ := bind_ok_iff.1 hrest
  obtain ⟨-, rfl⟩ := pure_ok_iff.1 hpure
  exact addUses_traced hi (hr.steady hs).inv huses ((hr.sure hs).constructs h)

theorem addFactoryConstructionEdges_traced (hr : Reliable key s₀ sight I) (hs : I s) {i : UseContext}
    (hi : i.inCode = true) {call callee : Node} (h : factoryConstructs sight call callee = true)
    (hrun : addFactoryConstructionEdges i call callee s = .ok () s') : Traced key s'.graph := by
  unfold addFactoryConstructionEdges at hrun
  unfold factoryConstructs at h
  cases hfactory : factoryCall call callee with
  | none =>
    rw [hfactory] at h
    cases h
  | some found =>
    obtain ⟨helper, element⟩ := found
    rw [hfactory] at h hrun
    simp only [] at hrun
    split at hrun
    · obtain ⟨_, s₁, hconstruct, hpure⟩ := bind_ok_iff.1 hrun
      obtain ⟨-, rfl⟩ := pure_ok_iff.1 hpure
      exact addConstructionEdges_traced hr hs hi h hconstruct
    · obtain ⟨matched, s₁, hconstruct, hrest⟩ := bind_ok_iff.1 hrun
      have htraced := addConstructionEdges_traced hr hs hi h hconstruct
      have hinv : s₁.graph.Inv :=
        (hr.steady ((addConstructionEdges_keeps hr.looks i element none _).ok hs hconstruct)).inv
      refine htraced.after hinv ?_ hrest
      split
      · exact modify_keeps fun s hs => (later_steps s₁).diagnostic s _ hs
      · exact Keeps.pure _

theorem addCallableEscapes_traced (hr : Reliable key s₀ sight I) (hs : I s) {i : UseContext} {reason : Bytes}
    {expression : Node} (h : standsFor s₀ key sight expression = true)
    (hrun : addCallableEscapes i reason expression s = .ok () s') : Traced key s'.graph := by
  obtain ⟨targets, s₁, hresolve, hescapes⟩ := bind_ok_iff.1 hrun
  have hs₁ : I s₁ := (resolveCallableTargets_keeps hr.looks expression).ok hs hresolve
  exact forM_traced (fun s d => (onward_steps s).escape d _ _ _) (fun _ _ _ hrun hkey => addEscape_traced hrun hkey)
    (hr.steady hs₁).inv hescapes (resolveCallableTargets_found hr expression s targets s₁ hs h hresolve)

/-- A loop over expressions, one of which stands for the function. -/
theorem addAllCallableEscapes_traced (hr : Reliable key s₀ sight I) {i : UseContext} {reason : Bytes} :
    ∀ {ts : List Node} {s s' : TranslationUnitState}, I s → anyStandsFor s₀ key sight ts = true →
      ts.forM (addCallableEscapes i reason) s = .ok () s' → Traced key s'.graph
  | [], _, _, _, hstands, _ => absurd hstands Bool.false_ne_true
  | t :: ts, s, s', hs, hstands, hrun => by
    obtain ⟨_, s₁, hfirst, hrest⟩ := bind_ok_iff.1 hrun
    have hs₁ : I s₁ := (addCallableEscapes_keeps hr.looks i reason t).ok hs hfirst
    unfold anyStandsFor at hstands
    rcases Bool.or_eq_true_iff.1 hstands with ht | hts
    · exact (addCallableEscapes_traced hr hs ht hfirst).after (hr.steady hs₁).inv
        (Keeps.forM (addCallableEscapes_keeps (later_steps s₁).toKeptByLooks i reason) ts) hrest
    · exact addAllCallableEscapes_traced hr hs₁ hts hrest

theorem recordReference_traced (hr : Reliable key s₀ sight I) (hs : I s) {i : UseContext} {t : Node}
    (hrefers : refersTo s₀ key t = true) (hrun : recordReference i t s = .ok () s') : Traced key s'.graph := by
  obtain ⟨targets, s₁, hresolve, hescapes⟩ := bind_ok_iff.1 hrun
  have hs₁ : I s₁ := (resolveReferences_keeps hr.looks t).ok hs hresolve
  exact forM_traced (fun s d => (onward_steps s).escape d _ _ _) (fun _ _ _ hrun hkey => addEscape_traced hrun hkey)
    (hr.steady hs₁).inv hescapes (resolveReferences_certain (hr.steady hs) hrefers hresolve)

theorem recordCall_traced (hr : Reliable key s₀ sight I) (hs : I s) {i : UseContext} {call callee : Node}
    {arguments : List Node} (h : (i.inCode && calleeSeen s₀ key sight call callee) = true ∨
      anyStandsFor s₀ key sight arguments = true)
    (hrun : recordCall tu i call callee arguments s = .ok () s') : Traced key s'.graph := by
  obtain ⟨targets, s₁, htargets, hrun⟩ := bind_ok_iff.1 hrun
  obtain ⟨_, s₂, huses, hrun⟩ := bind_ok_iff.1 hrun
  obtain ⟨_, s₃, hfactory, hrun⟩ := bind_ok_iff.1 hrun
  obtain ⟨_, s₄, hescapes, hrules⟩ := bind_ok_iff.1 hrun
  have hs₁ : I s₁ := (calleeTargets_keeps hr.looks callee).ok hs htargets
  have hs₂ : I s₂ := (Keeps.forM (addUse_keeps hr.looks i _ _) targets).ok hs₁ huses
  have hs₃ : I s₃ := (addFactoryConstructionEdges_keeps hr.looks i call callee).ok hs₂ hfactory
  have hs₄ : I s₄ := (Keeps.forM (addCallableEscapes_keeps hr.looks i _) arguments).ok hs₃ hescapes
  -- a trace left at any of the steps is there at the end
  have hlooks := fun s => (later_steps s).toKeptByLooks
  have hend : Traced key s₄.graph → Traced key s'.graph := fun h =>
    h.after (hr.steady hs₄).inv (Keeps.forM (applyRule_keeps (hlooks s₄) i targets (callee :: arguments)) _) hrules
  have hlast : Traced key s₃.graph → Traced key s'.graph := fun h =>
    hend (h.after (hr.steady hs₃).inv (Keeps.forM (addCallableEscapes_keeps (hlooks s₃) i _) arguments) hescapes)
  have hmiddle : Traced key s₂.graph → Traced key s'.graph := fun h =>
    hlast (h.after (hr.steady hs₂).inv (addFactoryConstructionEdges_keeps (hlooks s₂) i call callee) hfactory)
  rcases h with hcallee | harguments
  · obtain ⟨hi, hseen⟩ := Bool.and_eq_true_iff.1 hcallee
    unfold calleeSeen at hseen
    rcases Bool.or_eq_true_iff.1 hseen with hseen | hconstructs
    · exact hmiddle (addUses_traced hi (hr.steady hs₁).inv huses (calleeTargets_found hr hs hseen htargets))
    · exact hlast (addFactoryConstructionEdges_traced hr hs₂ hi hconstructs hfactory)
  · exact hend (addAllCallableEscapes_traced hr hs₃ harguments hescapes)

theorem recordConstruction_traced (hr : Reliable key s₀ sight I) (hs : I s) {i : UseContext} {t : Node}
    (h : (i.inCode && sight.constructs (normalizeType (desugaredTypeString t.label))
        (if typeString t.label "ctorType" = [] then none else some (typeString t.label "ctorType"))) = true ∨
      (containsText (lit "std::function<") (normalizeType (desugaredTypeString t.label)) &&
        anyStandsFor s₀ key sight t.children) = true)
    (hrun : recordConstruction i t s = .ok () s') : Traced key s'.graph := by
  obtain ⟨matched, s₁, hconstruct, hrest⟩ := bind_ok_iff.1 hrun
  have hs₁ : I s₁ := (addConstructionEdges_keeps hr.looks i _ _ _).ok hs hconstruct
  rcases h with hconstructs | hstored
  · obtain ⟨hi, hconstructs⟩ := Bool.and_eq_true_iff.1 hconstructs
    refine (addConstructionEdges_traced hr hs hi hconstructs hconstruct).after (hr.steady hs₁).inv ?_ hrest
    exact Keeps.ite (Keeps.forM (addCallableEscapes_keeps (later_steps s₁).toKeptByLooks i _) _) (Keeps.pure _)
  · obtain ⟨hfunction, hstands⟩ := Bool.and_eq_true_iff.1 hstored
    rw [if_pos hfunction] at hrest
    exact addAllCallableEscapes_traced hr hs₁ hstands hrest

/-- A node at which the function is certainly seen leaves a trace of it. -/
theorem recordUses_traced (hr : Reliable key s₀ sight I) (hs : I s) {i : UseContext} {t : Node}
    (h : sees s₀ key sight i t = true) (hrun : recordUses tu i t s = .ok () s') : Traced key s'.graph := by
  unfold sees at h
  unfold recordUses at hrun
  split at hrun
  · rename_i hvariable
    rw [if_pos hvariable] at h
    cases h
  rename_i hvariable
  rw [if_neg hvariable] at h
  split at hrun
  · rename_i hassignment
    rw [if_pos hassignment] at h
    cases h
  rename_i hassignment
  rw [if_neg hassignment] at h
  split at hrun
  · rename_i hcall
    rw [if_pos hcall] at h
    cases hchildren : t.children with
    | nil =>
      rw [hchildren] at h
      cases h
    | cons callee arguments =>
      rw [hchildren] at h hrun
      exact recordCall_traced hr hs (Bool.or_eq_true_iff.1 h) hrun
  rename_i hcall
  rw [if_neg hcall] at h
  split at hrun
  · rename_i hconstruction
    rw [if_pos hconstruction] at h
    exact recordConstruction_traced hr hs (Bool.or_eq_true_iff.1 h) hrun
  rename_i hconstruction
  rw [if_neg hconstruction] at h
  split at hrun
  · rename_i hreference
    rw [if_pos hreference] at h
    exact recordReference_traced hr hs h hrun
  · rename_i hreference
    rw [if_neg hreference] at h
    cases h

end Traced

/-! ## What is sure -/

/-- No declaration outside the project has the function's key. -/
def Inside (s : TranslationUnitState) (key : Bytes) : Prop := ∀ entry ∈ s.opaqueDeclarations, entry.2.key ≠ key

/-- The function's symbol is what it was at `s₀`, and these variables are bound to it. -/
structure Firm (key : Bytes) (s₀ : TranslationUnitState) (bound : List Bytes) (s : TranslationUnitState) : Prop
    extends Steady s₀ s where
  unmerged : ∀ symbol ∈ s.graph.symbols, symbol.key = key → symbol ∈ s₀.graph.symbols
  held : ∀ v ∈ bound, ∃ targets, s.callableBindings.lookup v = some targets ∧ HasKey key s targets

section Sure
variable {tu : UnitContext} {key : Bytes} {s₀ s s' : TranslationUnitState} {bound : List Bytes}

theorem refersToNothing_iff {t : Node} :
    refersToNothing s t = true ↔ ∀ id ∈ collectReferenceIds t, denotedKey s id = none := by
  unfold refersToNothing
  rw [Bool.not_eq_true', List.any_eq_false]
  exact forall₂_congr fun id _ => by rw [Bool.not_eq_true, Option.isSome_eq_false_iff, Option.isNone_iff_eq_none]

theorem certain_reliable (key : Bytes) (s₀ : TranslationUnitState) : Reliable key s₀ (certain s₀ key) (Steady s₀) where
  looks := (steady_steps s₀).toKeptByLooks
  steady := fun hs => hs
  sure := fun {s} hs => {
    declares := fun {id} h => by
      obtain ⟨d, hd, hkey⟩ := (Option.any_eq_true _ _).1 h
      have hdenotes : denotedKey s₀ id = some key := by
        rw [denotedKey_some hd]
        exact congrArg some (beq_iff_eq.1 hkey)
      exact ⟨d, hs.kept hd, hs.denotes (hs.kept hd) hdenotes⟩
    operates := callOperators_certain hs
    constructs := constructionTargets_certain hs
    bound := fun h => absurd h Bool.false_ne_true
    byValue := fun h id hid => (hs.denoted id).trans (refersToNothing_iff.1 h id hid) }

/-! ### The function's own symbol -/

theorem Firm.later (h : Firm key s₀ bound s) (hsteady : Steady s₀ s') (hlater : Later s s')
    (hunmerged : ∀ symbol ∈ s'.graph.symbols, symbol.key = key → symbol ∈ s.graph.symbols)
    (hbindings : s'.callableBindings = s.callableBindings) : Firm key s₀ bound s' := by
  refine ⟨hsteady, fun symbol hsymbol hkey => h.unmerged symbol (hunmerged symbol hsymbol hkey) hkey, fun v hv => ?_⟩
  obtain ⟨targets, hlookup, hfound⟩ := h.held v hv
  exact ⟨targets, by rw [hbindings]; exact hlookup, hfound.later hlater⟩

theorem Firm.onGraph {m : GraphM Unit} (hsteady : Keeps (Steady s₀) (Ast.onGraph m))
    (hlater : ∀ s, Keeps (Later s) (Ast.onGraph m)) (hsymbols : ∀ g, (endState m g).symbols = g.symbols) :
    Keeps (Firm key s₀ bound) (Ast.onGraph m) := by
  intro s hs
  have hsteady' := hsteady s hs.toSteady
  have hlater' := hlater s s (.refl hs.inv)
  rw [onGraph_endState] at hsteady' hlater' ⊢
  exact hs.later hsteady' hlater' (fun symbol hsymbol _ => hsymbols s.graph ▸ hsymbol) rfl

theorem promote_firm (hinside : Inside s₀ key) (h : Firm key s₀ bound s) {id : Bytes} {symbol : Symbol}
    (hnew : s.declarations.lookup id = none) (houtside : s.opaqueDeclarations.lookup id = some symbol) :
    Firm key s₀ bound (endState (promote id symbol) s) := by
  have hsteady := (steady_steps s₀).promote s id symbol hnew houtside h.toSteady
  have hlater := promote_later (.refl h.inv) hnew houtside
  rcases promote_endState id symbol s with ⟨d, s', hrun, hend⟩ | hend
  · rw [hend] at hsteady hlater ⊢
    obtain ⟨g, hgraph, rfl⟩ := promote_ok hrun
    obtain ⟨-, -, -, -, hrecord⟩ := addOrMergeSymbol_spec h.inv hgraph
    refine h.later hsteady hlater (fun other hother hkey => ?_) rfl
    -- the record of another key is left alone
    have hne : key ≠ symbol.key := (hinside _ (mem_of_lookup (h.outside ▸ houtside))).symm
    have hfound := hsteady.inv.record_iff.2 ⟨hother, hkey⟩
    rw [hrecord, if_neg hne] at hfound
    exact (h.inv.record_iff.1 hfound).1
  · rw [hend]
    exact h

/-- The function's symbol satisfies what is known of it. -/
theorem Inside.meets (hinside : Inside s key) (hs : s.graph.Inv) {p : Symbol → Bool} (hp : knows s key p = true)
    {symbol : Symbol} (hsymbol : symbol ∈ s.graph.symbols) (hkey : symbol.key = key) : p symbol = true := by
  obtain ⟨known, hknown, hmeets⟩ := List.any_eq_true.1 hp
  obtain ⟨hk, hmeets⟩ := Bool.and_eq_true_iff.1 hmeets
  rcases List.mem_append.1 hknown with hknown | hknown
  · have hfirst := hs.record_iff.2 ⟨hknown, beq_iff_eq.1 hk⟩
    have hsecond := hs.record_iff.2 ⟨hsymbol, hkey⟩
    rw [hfirst] at hsecond
    exact Option.some.inj hsecond ▸ hmeets
  · obtain ⟨entry, hentry, rfl⟩ := List.mem_map.1 hknown
    exact absurd (beq_iff_eq.1 hk) (hinside entry hentry)

theorem Inside.symbol (hinside : Inside s key) {p : Symbol → Bool} (hp : knows s key p = true) :
    ∃ symbol ∈ s.graph.symbols, symbol.key = key := by
  obtain ⟨known, hknown, hmeets⟩ := List.any_eq_true.1 hp
  have hkey := beq_iff_eq.1 (Bool.and_eq_true_iff.1 hmeets).1
  rcases List.mem_append.1 hknown with hknown | hknown
  · exact ⟨known, hknown, hkey⟩
  · obtain ⟨entry, hentry, rfl⟩ := List.mem_map.1 hknown
    exact absurd hkey (hinside entry hentry)

/-- What is known of the function holds of the symbol that it has now. -/
theorem Firm.symbol (h : Firm key s₀ bound s) (hinside : Inside s₀ key) (hs₀ : s₀.graph.Inv) {p : Symbol → Bool}
    (hp : knows s₀ key p = true) : ∃ d < s.graph.symbols.length, s.graph.keyOf d = key ∧
      ∀ q : Symbol → Bool, knows s₀ key q = true → q (s.graph.symbol d) = true := by
  obtain ⟨symbol, hsymbol, hkey⟩ := hinside.symbol hp
  obtain ⟨d, hd, hsettles⟩ := h.settledAt hsymbol
  have hnow := hsettles.key.trans hkey
  exact ⟨d, hd, hnow, fun q hq => hinside.meets hs₀ hq (h.unmerged _ (symbol_mem hd) hnow) hnow⟩

theorem Firm.operates (h : Firm key s₀ bound s) (hinside : Inside s₀ key) (hs₀ : s₀.graph.Inv) {type : Bytes}
    (hoperates : operates s₀ key type = true) : HasKey key s (callOperators s.graph type) := by
  unfold Ast.operates at hoperates
  obtain ⟨hoperates, hclass⟩ := Bool.and_eq_true_iff.1 hoperates
  obtain ⟨htype, hname⟩ := Bool.and_eq_true_iff.1 hoperates
  obtain ⟨d, hd, hkey, hmeets⟩ := h.symbol hinside hs₀ hname
  refine ⟨d, ?_, hd, hkey⟩
  unfold callOperators
  rw [if_neg (bne_iff_ne.1 htype)]
  exact List.mem_filter.2 ⟨List.mem_range.2 hd, Bool.and_eq_true_iff.2 ⟨hmeets _ hname, hmeets _ hclass⟩⟩

theorem Firm.constructs (h : Firm key s₀ bound s) (hinside : Inside s₀ key) (hs₀ : s₀.graph.Inv) {type : Bytes}
    {signature : Option Bytes} (hconstructs : constructs s₀ key type signature = true) :
    HasKey key s (constructionTargets s.graph type signature) := by
  unfold Ast.constructs at hconstructs
  obtain ⟨hconstructs, hkind⟩ := Bool.and_eq_true_iff.1 hconstructs
  obtain ⟨htype, hclass⟩ := Bool.and_eq_true_iff.1 hconstructs
  obtain ⟨d, hd, hkey, hmeets⟩ := h.symbol hinside hs₀ hclass
  refine ⟨d, ?_, hd, hkey⟩
  unfold constructionTargets
  rw [if_neg (bne_iff_ne.1 htype)]
  refine List.mem_filter.2 ⟨List.mem_range.2 hd, Bool.and_eq_true_iff.2 ⟨hmeets _ hclass, ?_⟩⟩
  rcases Bool.or_eq_true_iff.1 hkind with hconstructor | hdestructor
  · obtain ⟨hconstructor, hsignature⟩ := Bool.and_eq_true_iff.1 hconstructor
    exact Bool.or_eq_true_iff.2 (.inl (Bool.and_eq_true_iff.2 ⟨hmeets _ hconstructor, hmeets _ hsignature⟩))
  · exact Bool.or_eq_true_iff.2 (.inr (hmeets _ hdestructor))

/-- Of a function that is declared in the project only, what may be is sure. -/
theorem possible_reliable (hinside : Inside s₀ key) (hs₀ : s₀.graph.Inv) (hrules : takesCallee tu = false)
    (bound : List Bytes) : Reliable key s₀ (possible s₀ key tu bound) (Firm key s₀ bound) where
  looks := {
    promote := fun _ _ _ hnew houtside h => promote_firm hinside h hnew houtside
    edge := fun _ _ _ _ => Firm.onGraph ((steady_steps s₀).edge _ _ _ _) (fun s => (later_steps s).edge _ _ _ _)
      (addEdge_symbols _ _ _ _)
    root := fun _ _ _ => Firm.onGraph ((steady_steps s₀).root _ _ _) (fun s => (later_steps s).root _ _ _)
      (addRoot_symbols _ _ _)
    escape := fun _ _ _ _ => Firm.onGraph ((steady_steps s₀).escape _ _ _ _) (fun s => (later_steps s).escape _ _ _ _)
      (addEscape_symbols _ _ _ _)
    diagnostic := fun s _ h => h.later ((steady_steps s₀).diagnostic s _ h.toSteady)
      ((later_steps s).diagnostic s _ (.refl h.inv)) (fun _ hsymbol _ => hsymbol) rfl
    ruleMatch := fun s _ h => h.later ((steady_steps s₀).ruleMatch s _ h.toSteady)
      ((later_steps s).ruleMatch s _ (.refl h.inv)) (fun _ hsymbol _ => hsymbol) rfl }
  steady := fun h => h.toSteady
  sure := fun {s} h => {
    declares := fun {id} hdenotes => by
      have hkey : denotedKey s₀ id = some key := beq_iff_eq.1 hdenotes
      cases hd : s₀.declarations.lookup id with
      | some d => exact ⟨d, h.kept hd, h.denotes (h.kept hd) hkey⟩
      | none =>
        rw [denotedKey_none hd] at hkey
        obtain ⟨symbol, hlookup, hsame⟩ := Option.map_eq_some_iff.1 hkey
        exact absurd hsame (hinside _ (mem_of_lookup hlookup))
    operates := h.operates hinside hs₀
    constructs := h.constructs hinside hs₀
    bound := fun {v} hv => h.held v (List.contains_iff_mem.1 hv)
    byValue := fun {callee} hvalue id hid => by
      have hnothing : (takesCallee tu || refersToNothing s₀ callee) = true := hvalue
      rw [hrules, Bool.false_or] at hnothing
      exact (h.denoted id).trans (refersToNothing_iff.1 hnothing id hid) }

end Sure

/-! ## The walk -/

/-- A variable that may be bound to the function is declared again without it. -/
def Stop.rebinds (s : TranslationUnitState) (key : Bytes) (tu : UnitContext) (stop : Stop) : Bool :=
  stringOr stop.node.label "kind" == lit "VarDecl" && stop.way.bound.contains (stringOr stop.node.label "id") &&
    !anyStandsFor s key (possible s key tu stop.way.bound) stop.node.children

/-- On every way a sight that is reliable there; a node that is fair leads on to the next one. -/
structure Guides (key : Bytes) (s₀ : TranslationUnitState) (tu : UnitContext) (sightOf : Way → Sight)
    (fair : Stop → Prop) (I : Way → TranslationUnitState → Prop) : Prop where
  reliable : ∀ w, Reliable key s₀ (sightOf w) (I w)
  records : ∀ {w i t s s'}, I w s → fair ⟨i.anonymous, t, w⟩ → recordUses tu i t s = .ok () s' →
    I (w.after s₀ key tu i t) s'

section Guided
variable {tu : UnitContext} {key : Bytes} {s₀ s s' : TranslationUnitState}

theorem certain_guides (key : Bytes) (s₀ : TranslationUnitState) (tu : UnitContext) :
    Guides key s₀ tu (fun _ => certain s₀ key) (fun _ => True) (fun _ => Steady s₀) where
  reliable _ := certain_reliable key s₀
  records hs _ hrun := (recordUses_keeps (steady_steps s₀) _ _).ok hs hrun

theorem lookup_filter_ne {l : List (Bytes × List SymbolId)} {name v : Bytes} (hne : v ≠ name) :
    (l.filter fun binding => binding.1 != name).lookup v = l.lookup v := by
  induction l with
  | nil => rfl
  | cons binding l ih =>
    obtain ⟨other, found⟩ := binding
    rw [lookup_cons_iff]
    by_cases hother : other = name
    · rw [List.filter_cons_of_neg (by simp [hother]), ih, if_neg (hother ▸ hne)]
    · rw [List.filter_cons_of_pos (by simp [hother]), lookup_cons_iff, ih]

/-- A variable whose initializer surely stands for the function is bound to it. -/
theorem bindVariable_firm (hr : ∀ bound, Reliable key s₀ (possible s₀ key tu bound) (Firm key s₀ bound)) {t : Node}
    {bound : List Bytes} (hs : Firm key s₀ bound s)
    (hfair : stringOr t.label "id" ∈ bound → anyStandsFor s₀ key (possible s₀ key tu bound) t.children = true)
    (hrun : bindVariable t s = .ok () s') :
    Firm key s₀ (if anyStandsFor s₀ key (possible s₀ key tu bound) t.children then stringOr t.label "id" :: bound
      else bound) s' := by
  obtain ⟨targets, s₁, hresolve, hrest⟩ := bind_ok_iff.1 hrun
  have hs₁ : Firm key s₀ bound s₁ := (resolveAllCallableTargets_keeps (hr bound).looks [] _).ok hs hresolve
  have hfound := fun h => resolveAllCallableTargets_found (hr bound) t.children [] s targets s₁ hs (.inr h) hresolve
  split at hrest
  · cases hrest
    refine ⟨hs₁.toSteady.same hs₁.inv rfl rfl rfl, hs₁.unmerged, fun v hv => ?_⟩
    -- an older binding of the same variable is hidden from now on
    by_cases hsame : v = stringOr t.label "id"
    · have hstands : anyStandsFor s₀ key (possible s₀ key tu bound) t.children = true := by
        by_contra hnot
        rw [if_neg hnot] at hv
        exact hnot (hfair (hsame ▸ hv))
      exact ⟨targets, lookup_cons_iff.trans (if_pos hsame), hfound hstands⟩
    · have hmem : v ∈ bound := by
        split at hv
        · exact (List.mem_cons.1 hv).resolve_left hsame
        · exact hv
      obtain ⟨found, hlookup, hfunction⟩ := hs₁.held v hmem
      exact ⟨found, (lookup_cons_iff.trans (if_neg hsame)).trans hlookup, hfunction⟩
  · rename_i hnil
    obtain ⟨-, rfl⟩ := pure_ok_iff.1 hrest
    rw [if_neg]
    · exact hs₁
    intro hstands
    obtain ⟨d, hd, -⟩ := hfound hstands
    exact hnil (List.ne_nil_of_mem hd)

theorem unbindVariable_firm {t left : Node} {rest : List Node} (hchildren : t.children = left :: rest)
    {bound : List Bytes} (hs : Firm key s₀ bound s) (hrun : unbindVariable t s = .ok () s') :
    Firm key s₀ (bound.filter (· != referencedVariableId left)) s' := by
  unfold unbindVariable at hrun
  rw [hchildren] at hrun
  cases hrun
  refine ⟨hs.toSteady.same hs.inv rfl rfl rfl, hs.unmerged, fun v hv => ?_⟩
  obtain ⟨hmem, hne⟩ := List.mem_filter.1 hv
  obtain ⟨targets, hlookup, hfound⟩ := hs.held v hmem
  exact ⟨targets, (lookup_filter_ne (bne_iff_ne.1 hne)).trans hlookup, hfound⟩

theorem possible_guides (hinside : Inside s₀ key) (hs₀ : s₀.graph.Inv) (hrules : takesCallee tu = false) :
    Guides key s₀ tu (fun w => possible s₀ key tu w.bound) (fun stop => stop.rebinds s₀ key tu = false)
      (fun w => Firm key s₀ w.bound) where
  reliable w := possible_reliable hinside hs₀ hrules w.bound
  records := by
    intro w i t s s' hs hfair hrun
    have hr := possible_reliable hinside hs₀ hrules
    show Firm key s₀ (boundAfter s₀ key tu w.bound t) s'
    -- only a variable and an assignment change what is bound
    by_cases hvariable : stringOr t.label "kind" = lit "VarDecl"
    · unfold recordUses at hrun
      rw [if_pos hvariable] at hrun
      unfold boundAfter
      rw [if_pos hvariable]
      refine bindVariable_firm hr hs (fun hbound => ?_) hrun
      unfold Stop.rebinds at hfair
      rw [beq_iff_eq.2 hvariable, List.contains_iff_mem.2 hbound, Bool.true_and, Bool.true_and] at hfair
      simpa using hfair
    by_cases hassignment : isAssignment t.label = true
    · unfold recordUses at hrun
      rw [if_neg hvariable, if_pos hassignment] at hrun
      unfold boundAfter
      rw [if_neg hvariable, if_pos hassignment]
      cases hchildren : t.children with
      | nil =>
        unfold unbindVariable at hrun
        rw [hchildren] at hrun
        obtain ⟨-, rfl⟩ := pure_ok_iff.1 hrun
        exact hs
      | cons left rest => exact unbindVariable_firm hchildren hs hrun
    rw [boundAfter_other hvariable (Bool.not_eq_true _ ▸ hassignment)]
    exact (recordOthers_keeps (hr w.bound).looks i hvariable hassignment).ok hs hrun

variable {sightOf : Way → Sight} {fair : Stop → Prop} {I : Way → TranslationUnitState → Prop}

mutual

/-- The walk over a tree leaves a trace of a function that is surely seen at one of the nodes that it enters. -/
theorem collectUses_traced (hg : Guides key s₀ tu sightOf fair I) : ∀ t i w s s', Along s₀ w.looked s → I w s →
    (∀ stop ∈ (route s₀ key tu t i.anonymous w).1, fair stop) → walk (visitUse tu) t i s = .ok () s' →
      (Along s₀ (route s₀ key tu t i.anonymous w).2.looked s' ∧ I (route s₀ key tu t i.anonymous w).2 s') ∧
      ((∃ stop ∈ (route s₀ key tu t i.anonymous w).1, sees s₀ key (sightOf stop.way) stop.inside stop.node = true) →
        Traced key s'.graph)
  | .node value children, i, w, s, s', halong, hs, hfair, hrun => by
    unfold walk at hrun
    unfold route at hfair ⊢
    obtain ⟨below, s₁, hvisit, hrest⟩ := bind_ok_iff.1 hrun
    rcases visitUse_along halong hvisit with ⟨hopen, rfl, rfl⟩ | ⟨inside, hopen, hrecord, rfl, halong₁⟩
    · obtain ⟨-, rfl⟩ := pure_ok_iff.1 hrest
      rw [show openNode s₀ tu w value i.anonymous = none from hopen]
      exact ⟨⟨halong, hs⟩, fun ⟨_, hstop, _⟩ => absurd hstop List.not_mem_nil⟩
    · rw [show openNode s₀ tu w value i.anonymous = some inside.anonymous from hopen] at hfair ⊢
      have hs₁ : I (w.after s₀ key tu inside (.node value children)) s₁ :=
        hg.records hs (hfair _ List.mem_cons_self) hrecord
      have hrest' := collectAllUses_traced hg children (childUseContext tu value inside)
        (w.after s₀ key tu inside (.node value children)) s₁ s' halong₁ hs₁
      rw [childUseContext_anonymous] at hrest'
      obtain ⟨hend, hbelow⟩ := hrest' (fun stop hstop => hfair stop (List.mem_cons_of_mem _ hstop)) hrest
      refine ⟨hend, fun ⟨stop, hstop, hsees⟩ => ?_⟩
      -- seen here or below
      rcases List.mem_cons.1 hstop with rfl | hstop
      · rw [sees_anonymous] at hsees
        exact (recordUses_traced (hg.reliable w) hs hsees hrecord).after halong₁.steady.inv
          (walkAll_keeps (visitUse_keeps (later_steps s₁)) _ _) hrest
      · exact hbelow ⟨stop, hstop, hsees⟩

theorem collectAllUses_traced (hg : Guides key s₀ tu sightOf fair I) : ∀ ts context w s s', Along s₀ w.looked s →
    I w s → (∀ stop ∈ (routeAll s₀ key tu ts (fun k => (context k).anonymous) w).1, fair stop) →
    walkAll (visitUse tu) ts context s = .ok () s' →
      (Along s₀ (routeAll s₀ key tu ts (fun k => (context k).anonymous) w).2.looked s' ∧
        I (routeAll s₀ key tu ts (fun k => (context k).anonymous) w).2 s') ∧
      ((∃ stop ∈ (routeAll s₀ key tu ts (fun k => (context k).anonymous) w).1,
        sees s₀ key (sightOf stop.way) stop.inside stop.node = true) → Traced key s'.graph)
  | [], _, _, _, _, halong, hs, _, hrun => by
    obtain ⟨-, rfl⟩ := pure_ok_iff.1 hrun
    exact ⟨⟨halong, hs⟩, fun ⟨_, hstop, _⟩ => absurd hstop List.not_mem_nil⟩
  | t :: ts, context, w, s, s', halong, hs, hfair, hrun => by
    unfold walkAll at hrun
    obtain ⟨_, s₁, hfirst, hrest⟩ := bind_ok_iff.1 hrun
    obtain ⟨⟨halong₁, hs₁⟩, hhere⟩ := collectUses_traced hg t _ w s s₁ halong hs
      (fun stop hstop => hfair stop (List.mem_append.2 (.inl hstop))) hfirst
    obtain ⟨hend, hthere⟩ := collectAllUses_traced hg ts _ _ s₁ s' halong₁ hs₁
      (fun stop hstop => hfair stop (List.mem_append.2 (.inr hstop))) hrest
    refine ⟨hend, fun ⟨stop, hstop, hsees⟩ => ?_⟩
    rcases List.mem_append.1 hstop with hstop | hstop
    · exact (hhere ⟨stop, hstop, hsees⟩).after halong₁.steady.inv
        (walkAll_keeps (visitUse_keeps (later_steps s₁)) _ _) hrest
    · exact hthere ⟨stop, hstop, hsees⟩

end

end Guided

end Ast

end CxxDead
