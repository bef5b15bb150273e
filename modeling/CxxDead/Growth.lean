import CxxDead.Comparison
import CxxDead.PolicyFacts
/-!
# More facts

Every operation on a graph only adds, also one that throws half way, so that a
longer run never makes reachable code unreachable or a finding more certain.

- `onlyGrows_run`: any run of operations and provider policies.
- `mergeGraphs_onlyGrows`: more translation units, in any order.
-/

namespace CxxDead

open Lib Relation CxxDead.Graph

variable {g g' g'' : Graph}

/-! ## Growth by key -/

/-- `s'` says at least what `s` says of one symbol. -/
structure Strengthens (s s' : Symbol) : Prop where
  kind : s'.kind = s.kind
  internalLinkage : s'.internalLinkage = s.internalLinkage
  defined : s.defined = true → s'.defined = true
  isVirtual : s.isVirtual = true → s'.isVirtual = true
  scope : scopeRank s.scope ≤ scopeRank s'.scope

theorem Strengthens.refl (s : Symbol) : Strengthens s s := ⟨rfl, rfl, id, id, Nat.le_refl _⟩

theorem Strengthens.trans {s s' s'' : Symbol} (h : Strengthens s s') (h' : Strengthens s' s'') : Strengthens s s'' :=
  ⟨h'.kind.trans h.kind, h'.internalLinkage.trans h.internalLinkage, fun hs => h'.defined (h.defined hs),
    fun hs => h'.isVirtual (h.isVirtual hs), Nat.le_trans h.scope h'.scope⟩

theorem hasIndexedBody_iff (scope : SymbolScope) : hasIndexedBody scope = true ↔ 2 ≤ scopeRank scope := by
  cases scope <;> decide

theorem isReportable_iff (scope : SymbolScope) : isReportable scope = true ↔ 3 ≤ scopeRank scope := by
  cases scope <;> decide

theorem Strengthens.eligible {s s' : Symbol} (h : Strengthens s s') (hs : eligibleSymbol s = true) :
    eligibleSymbol s' = true := by
  simp only [eligibleSymbol, Bool.and_eq_true, isReportable_iff, bne_iff_ne] at hs ⊢
  exact ⟨⟨h.defined hs.1.1, Nat.le_trans hs.1.2 h.scope⟩, by rw [h.kind]; exact hs.2⟩

theorem strengthens_merge {t s : Symbol} (h : ∀ check ∈ compatibility t s, check.1 = true) :
    Strengthens t (mergeFields t s) := by
  obtain ⟨-, -, -, hlinkage, -⟩ := compatible_fields h
  refine ⟨rfl, ?_, fun ht => ?_, fun ht => ?_, ?_⟩
  · show (t.internalLinkage || s.internalLinkage) = _
    rw [← hlinkage, Bool.or_self]
  · show (t.defined || s.defined) = true
    rw [ht, Bool.true_or]
  · show (t.isVirtual || s.isVirtual) = true
    rw [ht, Bool.true_or]
  · show scopeRank t.scope ≤ scopeRank (if scopeRank s.scope > scopeRank t.scope then s.scope else t.scope)
    split <;> omega

/-- `g'` holds all facts of `g`, and says at least as much of each of its symbols. -/
structure Grown (g g' : Graph) : Prop where
  record : ∀ {key s}, g.record key = some s → ∃ s', g'.record key = some s' ∧ Strengthens s s'
  edges : ∀ x ∈ g.edgeFacts, x ∈ g'.edgeFacts
  roots : ∀ x ∈ g.rootFacts, x ∈ g'.rootFacts
  escapes : ∀ x ∈ g.escapeFacts, x ∈ g'.escapeFacts
  suppressions : ∀ x ∈ g.suppressionFacts, x ∈ g'.suppressionFacts

theorem Grown.refl (g : Graph) : Grown g g :=
  ⟨fun {_ s} hs => ⟨s, hs, .refl s⟩, fun _ => id, fun _ => id, fun _ => id, fun _ => id⟩

theorem Grown.trans (h : Grown g g') (h' : Grown g' g'') : Grown g g'' := by
  refine ⟨fun hs => ?_, fun x hx => h'.edges x (h.edges x hx), fun x hx => h'.roots x (h.roots x hx),
    fun x hx => h'.escapes x (h.escapes x hx), fun x hx => h'.suppressions x (h.suppressions x hx)⟩
  obtain ⟨s', hs', hstronger⟩ := h.record hs
  obtain ⟨s'', hs'', hstronger'⟩ := h'.record hs'
  exact ⟨s'', hs'', hstronger.trans hstronger'⟩

theorem Graph.SameFacts.grown (h : SameFacts g g') : Grown g g' :=
  ⟨fun {_ s} hs => ⟨s, by rw [← h.record]; exact hs, .refl s⟩, fun x => (h.edges x).1, fun x => (h.roots x).1,
    fun x => (h.escapes x).1, fun x => (h.suppressions x).1⟩

/-! ## What growth does to the analysis -/

/-- How sure a classification is that the symbol is dead. -/
def Classification.certainty : Classification → Nat
  | .dead => 3 | .likelyDead => 2 | .possiblyDead => 1 | .dynamicallyReferenced => 0

/-- The symbol with the key is reachable without what providers say. -/
def StructurallyReachableAt (g : Graph) (key : Bytes) : Prop :=
  ∃ id < g.symbols.length, g.keyOf id = key ∧ flag (analyzeReachability g).structurallyReachable id = true

/-- What is reachable stays so; an actionable finding about a symbol that was
already reported on was an actionable finding before, and no less certain. -/
structure OnlyGrows (g g' : Graph) : Prop where
  reachable : ∀ key, ReachableAt g key → ReachableAt g' key
  structurallyReachable : ∀ key, StructurallyReachableAt g key → StructurallyReachableAt g' key
  findings : ∀ f' ∈ (buildReport g' (analyzeReachability g')).findings, ∀ id < g.symbols.length,
    g.keyOf id = g'.keyOf f'.symbol → eligibleSymbol (g.symbol id) = true →
      ∃ f ∈ (buildReport g (analyzeReachability g)).findings, f.symbol = id ∧
        f'.classification.certainty ≤ f.classification.certainty

theorem Grown.keyReach (h : Grown g g') {okRoot : RootKind → Prop} {ok : EdgeKind → Prop} {key : Bytes}
    (hreach : KeyReach g okRoot ok key) : KeyReach g' okRoot ok key := by
  obtain ⟨root, kind, evidence, hroot, hok, hpath⟩ := hreach
  refine ⟨root, kind, evidence, h.roots _ hroot, hok, ReflTransGen.mono ?_ _ _ hpath⟩
  rintro a b ⟨kind, evidence, hedge, htraversable, ⟨s, hs, hbody⟩, hok⟩
  obtain ⟨s', hs', hstronger⟩ := h.record hs
  refine ⟨kind, evidence, h.edges _ hedge, htraversable, ⟨s', hs', ?_⟩, hok⟩
  rw [hasIndexedBody_iff] at hbody ⊢
  exact Nat.le_trans hbody hstronger.scope

theorem Grown.symbol (hg : g.Inv) (hg' : g'.Inv) (h : Grown g g') {id : SymbolId} (hid : id < g.symbols.length) :
    ∃ id' < g'.symbols.length, g'.keyOf id' = g.keyOf id ∧ Strengthens (g.symbol id) (g'.symbol id') := by
  obtain ⟨s', hs', hstronger⟩ := h.record (hg.record_keyOf hid)
  obtain ⟨hmem, hkey⟩ := hg'.record_iff.1 hs'
  obtain ⟨id', hid', rfl⟩ := List.mem_iff_getElem.1 hmem
  refine ⟨id', hid', ?_, ?_⟩
  · rw [← hkey, keyOf, Graph.symbol, List.getD_eq_getElem _ _ hid']
  · rwa [show g'.symbol id' = g'.symbols[id'] from List.getD_eq_getElem _ _ hid']

theorem Grown.escaped (hg' : g'.Inv) (h : Grown g g') {id id' : SymbolId} (hid' : id' < g'.symbols.length)
    (hkey : g.keyOf id = g'.keyOf id') (he : ∃ e ∈ g.escapes, e.symbol = id) :
    ∃ e ∈ g'.escapes, e.symbol = id' := by
  obtain ⟨e, he, rfl⟩ := he
  obtain ⟨e', he', hfact⟩ := List.mem_map.1 (h.escapes _ (List.mem_map.2 ⟨e, he, rfl⟩))
  simp only [escapeFact, Prod.mk.injEq] at hfact
  exact ⟨e', he', hg'.key_inj (hg'.ids.escapes e' he').1 hid' (hfact.1.trans hkey)⟩

theorem Grown.suppressed (hg' : g'.Inv) (h : Grown g g') {id id' : SymbolId} (hid' : id' < g'.symbols.length)
    (hkey : g.keyOf id = g'.keyOf id') (hs : isSuppressed g id = true) : isSuppressed g' id' = true := by
  rw [isSuppressed_iff] at hs ⊢
  obtain ⟨s, hs, rfl⟩ := hs
  obtain ⟨s', hs', hfact⟩ := List.mem_map.1 (h.suppressions _ (List.mem_map.2 ⟨s, hs, rfl⟩))
  simp only [suppressionFact, Prod.mk.injEq] at hfact
  exact ⟨s', hs', hg'.key_inj (hg'.ids.suppressions s' hs') hid' (hfact.1.trans hkey)⟩

section Grown
variable (hg : g.Inv) (hg' : g'.Inv) (h : Grown g g') {id id' : SymbolId} (hid : id < g.symbols.length)
  (hid' : id' < g'.symbols.length) (hkey : g.keyOf id = g'.keyOf id')
include hg hg' h hid hid' hkey

theorem Grown.strengthens : Strengthens (g.symbol id) (g'.symbol id') := by
  obtain ⟨other, hother, hsame, hstronger⟩ := h.symbol hg hg' hid
  rwa [hg'.key_inj hother hid' (hsame.trans hkey)] at hstronger

theorem Grown.certainty : (classify g' id' (g'.symbol id')).classification.certainty ≤
    (classify g id (g.symbol id)).classification.certainty := by
  have hstronger := h.strengthens hg hg' hid hid' hkey
  have hescaped := h.escaped hg' hid' hkey
  rw [classify_classification, classify_classification, hstronger.internalLinkage]
  -- an escape makes the finding one of the least certain, and escapes are never lost
  by_cases he : ∃ e ∈ g.escapes, e.symbol = id
  · rw [if_pos (hescaped he)]
    exact Nat.zero_le _
  · rw [if_neg he]
    split
    · exact Nat.zero_le _
    · cases hv : (g.symbol id).isVirtual with
      | true => rw [hstronger.isVirtual hv]
      | false =>
        cases (g'.symbol id').isVirtual <;> cases (g.symbol id).internalLinkage <;> decide

end Grown

theorem Grown.onlyGrows (hg : g.Inv) (hg' : g'.Inv) (h : Grown g g') : OnlyGrows g g' := by
  have hreach : ∀ key, ReachableAt g key → ReachableAt g' key := by
    rintro key ⟨id, hid, rfl, hflag⟩
    obtain ⟨id', hid', hkey, -⟩ := h.symbol hg hg' hid
    rw [flag_reachable_iff_keyReach hg hid] at hflag
    exact ⟨id', hid', hkey, (flag_reachable_iff_keyReach hg' hid').2 (hkey ▸ h.keyReach hflag)⟩
  refine ⟨hreach, ?_, fun f' hf' id hid hkey helig => ?_⟩
  · rintro key ⟨id, hid, rfl, hflag⟩
    obtain ⟨id', hid', hkey, -⟩ := h.symbol hg hg' hid
    rw [flag_structurallyReachable_iff_keyReach hg hid] at hflag
    exact ⟨id', hid', hkey, (flag_structurallyReachable_iff_keyReach hg' hid').2 (hkey ▸ h.keyReach hflag)⟩
  · obtain ⟨id', hid', ⟨hdead, hunsuppressed⟩, rfl⟩ := (mem_findings _ _ _).1 hf'
    rw [classify_symbol] at hkey
    refine ⟨_, (mem_findings _ _ _).2 ⟨id, hid, ⟨?_, ?_⟩, rfl⟩, classify_symbol _ _ _,
      h.certainty hg hg' hid hid' hkey⟩
    · rw [eligibleSymbol_eq_isReported] at helig
      have hnot : ¬ flag (analyzeReachability g').reachable id' = true := by
        simp only [isDeadSymbol, Bool.and_eq_true, Bool.not_eq_true'] at hdead
        simp [hdead.2]
      have hlive : ¬ flag (analyzeReachability g).reachable id = true := fun hflag =>
        hnot ((reachableAt_iff hg' hid').1 (hkey ▸ hreach _ ((reachableAt_iff hg hid).2 hflag)))
      simp [isDeadSymbol, helig, hlive]
    · rw [← Bool.not_eq_true]
      exact fun hs => absurd (h.suppressed hg' hid' hkey hs) (by simp [hunsuppressed])

/-! ## Operations only add -/

/-- A well-formed graph that has grown from `g`. -/
def GrownFrom (g g' : Graph) : Prop := g'.Inv ∧ Grown g g'

theorem addOrMergeSymbol_grown (s : Symbol) : Keeps (GrownFrom g) (addOrMergeSymbol s) := by
  rintro g₁ ⟨hinv, hgrown⟩
  refine ⟨addOrMergeSymbol_inv s g₁ hinv, hgrown.trans ?_⟩
  unfold endState
  split
  · rename_i id g₂ hok
    obtain ⟨hextends, -, -, hcompatible, hrecord⟩ := addOrMergeSymbol_spec hinv hok
    refine ⟨fun {key t} ht => ?_, fun x hx => by rwa [hextends.edgeFacts hinv],
      fun x hx => by rwa [hextends.rootFacts hinv], fun x hx => by rwa [hextends.escapeFacts hinv],
      fun x hx => by rwa [hextends.suppressionFacts hinv]⟩
    rw [hrecord]
    split
    · rename_i hkey
      subst hkey
      rw [ht]
      exact ⟨_, rfl, strengthens_merge (hcompatible t ht)⟩
    · exact ⟨t, ht, .refl t⟩
  · rename_i hbad
    rw [addOrMergeSymbol_error hbad]
    exact .refl _

/-- A graph with the same symbols and at least the same facts. -/
theorem grown_of_facts (hsymbols : g'.symbols = g.symbols) (hindex : g'.keyToId = g.keyToId)
    (hedges : g.edges ⊆ g'.edges) (hroots : g.roots ⊆ g'.roots) (hescapes : g.escapes ⊆ g'.escapes)
    (hsuppressions : g.suppressions ⊆ g'.suppressions) : Grown g g' := by
  have hsymbol : g'.symbol = g.symbol := by funext id; unfold Graph.symbol; rw [hsymbols]
  have hkey : g'.keyOf = g.keyOf := by funext id; unfold keyOf; rw [hsymbol]
  refine ⟨fun {key s} hs => ⟨s, ?_, .refl s⟩, fun x hx => ?_, fun x hx => ?_, fun x hx => ?_, fun x hx => ?_⟩
  · rwa [record, findByKey, hindex, hsymbol]
  · rw [edgeFacts, show g'.edgeFact = g.edgeFact by funext e; simp only [edgeFact, hkey]]
    exact List.map_subset _ hedges hx
  · rw [rootFacts, show g'.rootFact = g.rootFact by funext r; simp only [rootFact, hkey]]
    exact List.map_subset _ hroots hx
  · rw [escapeFacts, show g'.escapeFact = g.escapeFact by funext e; simp only [escapeFact, hkey]]
    exact List.map_subset _ hescapes hx
  · rw [suppressionFacts, show g'.suppressionFact = g.suppressionFact by funext s; simp only [suppressionFact, hkey]]
    exact List.map_subset _ hsuppressions hx

theorem subset_addFact {α : Type} [DecidableEq α] (facts : List α) (fact : α) : facts ⊆ addFact facts fact :=
  fun _ hx => mem_addFact.2 (.inl hx)

/-- A check of ids, then one more fact. -/
theorem guarded_grown {c : Graph → Prop} [DecidablePred c] {e : Exception} {change : Graph → Graph}
    (hinv : Keeps Inv fun g₁ => if c g₁ then .error e g₁ else .ok () (change g₁))
    (hgrown : ∀ g₁, Grown g₁ (change g₁)) :
    Keeps (GrownFrom g) fun g₁ => if c g₁ then .error e g₁ else .ok () (change g₁) := by
  rintro g₁ ⟨hg₁, h₁⟩
  refine ⟨hinv g₁ hg₁, h₁.trans ?_⟩
  unfold endState
  dsimp only
  by_cases hc : c g₁
  · rw [if_pos hc]
    exact .refl _
  · rw [if_neg hc]
    exact hgrown g₁

theorem addEdge_grown (a b : SymbolId) (kind : EdgeKind) (evidence : Evidence) :
    Keeps (GrownFrom g) (addEdge a b kind evidence) :=
  guarded_grown (addEdge_inv a b kind evidence) fun _ => grown_of_facts rfl rfl (subset_addFact _ _)
    (List.Subset.refl _) (List.Subset.refl _) (List.Subset.refl _)

theorem addRoot_grown (id : SymbolId) (kind : RootKind) (evidence : Evidence) :
    Keeps (GrownFrom g) (addRoot id kind evidence) :=
  guarded_grown (addRoot_inv id kind evidence) fun _ => grown_of_facts rfl rfl (List.Subset.refl _)
    (subset_addFact _ _) (List.Subset.refl _) (List.Subset.refl _)

theorem addEscape_grown (id : SymbolId) (kind : EscapeKind) (evidence : Evidence) (origin : Option SymbolId) :
    Keeps (GrownFrom g) (addEscape id kind evidence origin) :=
  guarded_grown (addEscape_inv id kind evidence origin) fun _ => grown_of_facts rfl rfl (List.Subset.refl _)
    (List.Subset.refl _) (subset_addFact _ _) (List.Subset.refl _)

theorem addSuppression_grown (id : SymbolId) (evidence : Evidence) :
    Keeps (GrownFrom g) (addSuppression id evidence) :=
  guarded_grown (addSuppression_inv id evidence) fun _ => grown_of_facts rfl rfl (List.Subset.refl _)
    (List.Subset.refl _) (List.Subset.refl _) (subset_addFact _ _)

theorem mergeGraph_grown (source : Graph) : Keeps (GrownFrom g) (mergeGraph source) := by
  unfold mergeGraph
  refine (Keeps.mapM addOrMergeSymbol_grown _).bind fun remap => ?_
  refine (Keeps.forM (fun e => addEdge_grown _ _ _ _) _).bind fun _ => ?_
  refine (Keeps.forM (fun r => addRoot_grown _ _ _) _).bind fun _ => ?_
  refine (Keeps.forM (fun e => addEscape_grown _ _ _ _) _).bind fun _ => ?_
  exact Keeps.forM (fun s => addSuppression_grown _ _) _

theorem canonicalize_grown {g₁ : Graph} (h : GrownFrom g g₁) : GrownFrom g g₁.canonicalize :=
  ⟨canonicalize_inv h.1, h.2.trans (canonicalize_sameFacts h.1).symm.grown⟩

section Policies
variable {P : Graph → Prop} (hedge : ∀ a b kind evidence, Keeps P (addEdge a b kind evidence))
  (hroot : ∀ id kind evidence, Keeps P (addRoot id kind evidence))
  (hescape : ∀ id kind evidence origin, Keeps P (addEscape id kind evidence origin))
  (hsuppression : ∀ id evidence, Keeps P (addSuppression id evidence))
include hedge hroot hescape hsuppression

/-- A policy keeps what the operations keep. -/
theorem applyPolicy_keeps (policy : ProviderPolicy) : Keeps P (applyPolicy policy) := by
  have hresolve : ∀ selector context, Keeps P (resolveUnique selector context) := resolveUnique_keeps
  unfold applyPolicy
  refine (Keeps.forM (fun rule => ?_) _).bind fun _ => (Keeps.forM (fun fact => ?_) _).bind fun _ =>
    (Keeps.forM (fun fact => ?_) _).bind fun _ => (Keeps.forM (fun fact => ?_) _).bind fun _ =>
    (Keeps.forM (fun fact => ?_) _).bind fun _ => Keeps.forM (fun fact => ?_) _
  · split
    · exact (hresolve _ _).bind fun _ => Keeps.pure _
    · exact Keeps.pure _
  · exact (hresolve _ _).bind fun id => hroot id _ _
  · exact (hresolve _ _).bind fun id => hroot id _ _
  · exact (hresolve _ _).bind fun _ => (hresolve _ _).bind fun _ => hedge _ _ _ _
  · refine Keeps.bind ?_ fun _ => (hresolve _ _).bind fun _ => hescape _ _ _ _
    unfold resolveOrigin
    split
    · rw [map_eq_pure_bind]
      exact (hresolve _ _).bind fun _ => Keeps.pure _
    · exact Keeps.pure _
  · exact (hresolve _ _).bind fun _ => hsuppression _ _

theorem applyProviderPolicies_keeps (hcanonicalize : ∀ g, P g → P g.canonicalize) (policies : List ProviderPolicy) :
    Keeps P (applyProviderPolicies policies) := by
  unfold applyProviderPolicies
  split
  · exact Keeps.pure _
  · exact (Keeps.forM (applyPolicy_keeps hedge hroot hescape hsuppression) policies).bind fun _ => hcanonicalize

end Policies

theorem applyProviderPolicies_grown (policies : List ProviderPolicy) :
    Keeps (GrownFrom g) (applyProviderPolicies policies) :=
  applyProviderPolicies_keeps addEdge_grown addRoot_grown addEscape_grown addSuppression_grown
    (fun _ h => canonicalize_grown h) policies

/-! ## Whole runs -/

/-- One operation on a graph, which may throw after some of its work. -/
inductive Step : Graph → Graph → Prop where
  | addOrMergeSymbol (g : Graph) (s : Symbol) : Step g (endState (addOrMergeSymbol s) g)
  | addEdge (g : Graph) (a b : SymbolId) (kind : EdgeKind) (evidence : Evidence) :
      Step g (endState (addEdge a b kind evidence) g)
  | addRoot (g : Graph) (id : SymbolId) (kind : RootKind) (evidence : Evidence) :
      Step g (endState (addRoot id kind evidence) g)
  | addEscape (g : Graph) (id : SymbolId) (kind : EscapeKind) (evidence : Evidence) (origin : Option SymbolId) :
      Step g (endState (addEscape id kind evidence origin) g)
  | addSuppression (g : Graph) (id : SymbolId) (evidence : Evidence) : Step g (endState (addSuppression id evidence) g)
  | canonicalize (g : Graph) : Step g g.canonicalize
  | mergeGraph (g source : Graph) : Step g (endState (mergeGraph source) g)
  | applyProviderPolicies (g : Graph) (policies : List ProviderPolicy) :
      Step g (endState (applyProviderPolicies policies) g)

theorem Step.grown {g₁ g₂ : Graph} (h : Step g₁ g₂) (hg : GrownFrom g g₁) : GrownFrom g g₂ := by
  cases h with
  | addOrMergeSymbol s => exact addOrMergeSymbol_grown s g₁ hg
  | addEdge a b kind evidence => exact addEdge_grown a b kind evidence g₁ hg
  | addRoot id kind evidence => exact addRoot_grown id kind evidence g₁ hg
  | addEscape id kind evidence origin => exact addEscape_grown id kind evidence origin g₁ hg
  | addSuppression id evidence => exact addSuppression_grown id evidence g₁ hg
  | canonicalize => exact canonicalize_grown hg
  | mergeGraph source => exact mergeGraph_grown source g₁ hg
  | applyProviderPolicies policies => exact applyProviderPolicies_grown policies g₁ hg

/-- However operations and policies follow each other, and wherever they throw,
the analysis only grows. -/
theorem onlyGrows_run (hg : Built g) (hrun : ReflTransGen Step g g') : OnlyGrows g g' := by
  have hgrown : GrownFrom g g' := by
    induction hrun with
    | refl => exact ⟨hg.inv, .refl g⟩
    | tail _ hstep ih => exact hstep.grown ih
  exact hgrown.2.onlyGrows hg.inv hgrown.1

/-- `f` stays reachable from `main` when its definition arrives. -/
theorem mainUnit_onlyGrows : OnlyGrows mainUnit (endState (mergeGraph calleeUnit) mainUnit) :=
  onlyGrows_run mainUnit_built (.single (.mergeGraph mainUnit calleeUnit))

/-! ## More translation units -/

/-- A join of more records says at least as much. -/
theorem Joined.strengthens {l l' : List Symbol} {s s' : Symbol} (hl : l ⊆ l') (h : Joined l s) (h' : Joined l' s') :
    Strengthens s s' := by
  obtain ⟨⟨x, hx, hscope⟩, -⟩ := h.scope
  refine ⟨(h'.kind x (hl hx)).symm.trans (h.kind x hx), (h'.internalLinkage x (hl hx)).symm.trans (h.internalLinkage x hx),
    fun hs => ?_, fun hs => ?_, ?_⟩
  · obtain ⟨y, hy, hdefined⟩ := h.defined.1 hs
    exact h'.defined.2 ⟨y, hl hy, hdefined⟩
  · obtain ⟨y, hy, hvirtual⟩ := h.isVirtual.1 hs
    exact h'.isVirtual.2 ⟨y, hl hy, hvirtual⟩
  · rw [← hscope]
    exact h'.scope.2 x (hl hx)

theorem contributions_subset {sources sources' : List Graph} (h : sources ⊆ sources') (key : Bytes) :
    contributions sources key ⊆ contributions sources' key := by
  intro s hs
  obtain ⟨source, hsource, hrecord⟩ := List.mem_filterMap.1 hs
  exact List.mem_filterMap.2 ⟨source, h hsource, hrecord⟩

theorem Collected.grown {sources sources' : List Graph} (hsub : sources ⊆ sources') (h : Collected sources g)
    (h' : Collected sources' g') : Grown g g' := by
  refine ⟨fun {key s} hs => ?_, fun x hx => ?_, fun x hx => ?_, fun x hx => ?_, fun x hx => ?_⟩
  · rcases h.record key with ⟨hnone, -⟩ | ⟨t, ht, hne, hjoined⟩
    · rw [hnone] at hs
      cases hs
    · rw [ht] at hs
      cases hs
      -- what the fewer sources say of the key, the others say as well
      have hsubset := contributions_subset hsub key
      rcases h'.record key with ⟨-, hnil⟩ | ⟨s', hs', -, hjoined'⟩
      · rw [hnil] at hsubset
        exact absurd (List.subset_nil.1 hsubset) hne
      · exact ⟨s', hs', hjoined.strengthens hsubset hjoined'⟩
  · obtain ⟨source, hsource, hx⟩ := (h.edges x).1 hx
    exact (h'.edges x).2 ⟨source, hsub hsource, hx⟩
  · obtain ⟨source, hsource, hx⟩ := (h.roots x).1 hx
    exact (h'.roots x).2 ⟨source, hsub hsource, hx⟩
  · obtain ⟨source, hsource, hx⟩ := (h.escapes x).1 hx
    exact (h'.escapes x).2 ⟨source, hsub hsource, hx⟩
  · obtain ⟨source, hsource, hx⟩ := (h.suppressions x).1 hx
    exact (h'.suppressions x).2 ⟨source, hsub hsource, hx⟩

/-- Analysing more translation units, in whatever order, only grows the analysis. -/
theorem mergeGraphs_onlyGrows {sources sources' : List Graph} (hbuilt : ∀ source ∈ sources', Built source)
    (hsub : sources ⊆ sources') {u v : Unit} (hm : mergeGraphs sources {} = .ok u g)
    (hm' : mergeGraphs sources' {} = .ok v g') : OnlyGrows g g' := by
  have h := mergeGraphs_collected (fun s hs => (hbuilt s (hsub hs)).inv) hm
  have h' := mergeGraphs_collected (fun s hs => (hbuilt s hs).inv) hm'
  exact (h.grown hsub h').onlyGrows h.inv h'.inv

/-- The unit of `main` alone, and after the unit of `f`. -/
theorem calleeFirst_onlyGrows :
    OnlyGrows (endState (mergeGraphs [mainUnit]) {}) (endState (mergeGraphs [calleeUnit, mainUnit]) {}) := by
  have hbuilt : ∀ source ∈ [calleeUnit, mainUnit], Built source := by
    intro source hs
    rcases List.mem_cons.1 hs with rfl | hs
    · exact calleeUnit_built
    · exact List.mem_singleton.1 hs ▸ mainUnit_built
  exact mergeGraphs_onlyGrows hbuilt (List.subset_cons_self _ _) rfl rfl

end CxxDead
