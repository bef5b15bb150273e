import CxxDead.Merge
/-!
# Provider policies

Selectors, and the facts that policies add to a graph about the symbols they select.

- `resolveUnique_ok_iff`: a selector resolves to the only symbol it matches.
- `applyPolicy_inv`: a policy keeps a graph well formed, also when it fails.
-/

namespace CxxDead

open Lib CxxDead.Graph

structure SymbolSelector where
  id : Bytes := []
  linkageName : Bytes := []
  qualifiedName : Bytes := []
  signature : Bytes := []
deriving DecidableEq

structure CallbackRegistrationRule where
  callee : SymbolSelector := {}
  argumentIndex : UInt64 := 0
  evidence : Evidence := { provider := lit "callback_registration" }
  requireUnique : Bool := false
deriving DecidableEq

structure ProviderRootFact where
  symbol : SymbolSelector
  evidence : Evidence

structure ProviderEdgeFact where
  «from» : SymbolSelector
  «to» : SymbolSelector
  evidence : Evidence

structure ProviderEscapeFact where
  symbol : SymbolSelector
  «from» : Option SymbolSelector
  evidence : Evidence

structure ProviderSuppressionFact where
  symbol : SymbolSelector
  evidence : Evidence

structure ProviderPolicy where
  source : Path := {}
  roots : List ProviderRootFact := []
  publicApiRoots : List ProviderRootFact := []
  edges : List ProviderEdgeFact := []
  escapes : List ProviderEscapeFact := []
  suppressions : List ProviderSuppressionFact := []
  callbackRegistrations : List CallbackRegistrationRule := []

/-! ## Selecting symbols -/

/-- `matches`. -/
def symbolMatches (symbol : Symbol) (selector : SymbolSelector) : Bool :=
  (selector.id.isEmpty || symbol.key == selector.id) &&
    (selector.linkageName.isEmpty || symbol.identity.linkageName == selector.linkageName) &&
    (selector.qualifiedName.isEmpty || symbol.qualifiedName == selector.qualifiedName) &&
    (selector.signature.isEmpty || symbol.signature == selector.signature)

def describe (selector : SymbolSelector) : Bytes :=
  if !selector.id.isEmpty then lit "id '" ++ selector.id ++ lit "'"
  else if !selector.linkageName.isEmpty then lit "linkage_name '" ++ selector.linkageName ++ lit "'"
  else
    lit "qualified_name '" ++ selector.qualifiedName ++ lit "'" ++
      if !selector.signature.isEmpty then lit " with signature '" ++ selector.signature ++ lit "'" else []

/-- The ids of the symbols that a selector matches. -/
def matchesFound (g : Graph) (selector : SymbolSelector) : List SymbolId :=
  (List.range g.symbols.length).filter fun id => symbolMatches (g.symbol id) selector

def resolveUnique (selector : SymbolSelector) (context : Bytes) : GraphM SymbolId := fun g =>
  match matchesFound g selector with
  | [id] => .ok id g
  | found =>
    .error (.runtimeError (context ++ lit " selector " ++ describe selector ++ lit " matched " ++
      decimal found.length ++ lit " symbols; expected exactly one")) g

def resolveOrigin (selector : Option SymbolSelector) (context : Bytes) : GraphM (Option SymbolId) :=
  match selector with
  | some selector => some <$> resolveUnique selector context
  | none => pure none

/-! ## Applying policies -/

def applyPolicy (policy : ProviderPolicy) : GraphM Unit := do
  let source := policy.source.text
  policy.callbackRegistrations.forM fun rule =>
    if rule.requireUnique then do
      let _ ← resolveUnique rule.callee (source ++ lit ": callback")
    else pure ()
  policy.roots.forM fun fact => do
    let id ← resolveUnique fact.symbol (source ++ lit ": root")
    addRoot id .provider fact.evidence
  policy.publicApiRoots.forM fun fact => do
    let id ← resolveUnique fact.symbol (source ++ lit ": public_api_root")
    addRoot id .publicApi fact.evidence
  policy.edges.forM fun fact => do
    let «from» ← resolveUnique fact.from (source ++ lit ": edge.from")
    let «to» ← resolveUnique fact.to (source ++ lit ": edge.to")
    addEdge «from» «to» .provider fact.evidence
  policy.escapes.forM fun fact => do
    let «from» ← resolveOrigin fact.from (source ++ lit ": escape.from")
    let id ← resolveUnique fact.symbol (source ++ lit ": escape.symbol")
    addEscape id .provider fact.evidence «from»
  policy.suppressions.forM fun fact => do
    let id ← resolveUnique fact.symbol (source ++ lit ": suppression")
    addSuppression id fact.evidence

def applyProviderPolicies (policies : List ProviderPolicy) : GraphM Unit :=
  if policies.isEmpty then pure ()
  else do
    policies.forM applyPolicy
    modify canonicalize

/-! ## What they keep -/

theorem mem_matchesFound {g : Graph} {selector : SymbolSelector} {id : SymbolId} :
    id ∈ matchesFound g selector ↔ id < g.symbols.length ∧ symbolMatches (g.symbol id) selector = true := by
  simp [matchesFound]

/-- A selector resolves exactly if one symbol matches it, and to that symbol. -/
theorem resolveUnique_ok_iff {selector : SymbolSelector} {context : Bytes} {g g' : Graph} {id : SymbolId} :
    resolveUnique selector context g = .ok id g' ↔
      g' = g ∧ ∀ other, other < g.symbols.length ∧ symbolMatches (g.symbol other) selector = true ↔ other = id := by
  have hnodup : (matchesFound g selector).Nodup := List.nodup_range.filter _
  simp only [← mem_matchesFound]
  unfold resolveUnique
  split
  · rename_i found hfound
    rw [hfound]
    simp only [EStateM.Result.ok.injEq, List.mem_singleton]
    constructor
    · rintro ⟨rfl, rfl⟩
      exact ⟨rfl, fun _ => Iff.rfl⟩
    · rintro ⟨rfl, honly⟩
      exact ⟨(honly found).1 rfl, rfl⟩
  · rename_i hmany
    simp only [reduceCtorEq, false_iff, not_and]
    intro _ honly
    have hperm : (matchesFound g selector).Perm [id] :=
      (List.perm_ext_iff_of_nodup hnodup (List.nodup_singleton id)).2 fun other => by rw [honly, List.mem_singleton]
    exact hmany id (List.perm_singleton.1 hperm)

theorem resolveUnique_keeps {I : Graph → Prop} (selector : SymbolSelector) (context : Bytes) :
    Keeps I (resolveUnique selector context) := by
  intro g hg
  unfold endState resolveUnique
  split
  · rename_i h
    split at h
    · cases h
      exact hg
    · cases h
  · rename_i h
    split at h
    · cases h
    · cases h
      exact hg

theorem applyPolicy_inv (policy : ProviderPolicy) : Keeps Graph.Inv (applyPolicy policy) := by
  have hresolve : ∀ selector context, Keeps Graph.Inv (resolveUnique selector context) := resolveUnique_keeps
  unfold applyPolicy
  refine (Keeps.forM (fun rule => ?_) _).bind fun _ => (Keeps.forM (fun fact => ?_) _).bind fun _ =>
    (Keeps.forM (fun fact => ?_) _).bind fun _ => (Keeps.forM (fun fact => ?_) _).bind fun _ =>
    (Keeps.forM (fun fact => ?_) _).bind fun _ => Keeps.forM (fun fact => ?_) _
  · split
    · exact (hresolve _ _).bind fun _ => Keeps.pure _
    · exact Keeps.pure _
  · exact (hresolve _ _).bind fun id => addRoot_inv id _ _
  · exact (hresolve _ _).bind fun id => addRoot_inv id _ _
  · exact (hresolve _ _).bind fun _ => (hresolve _ _).bind fun _ => addEdge_inv _ _ _ _
  · refine Keeps.bind ?_ fun _ => (hresolve _ _).bind fun _ => addEscape_inv _ _ _ _
    unfold resolveOrigin
    split
    · rw [map_eq_pure_bind]
      exact (hresolve _ _).bind fun _ => Keeps.pure _
    · exact Keeps.pure _
  · exact (hresolve _ _).bind fun _ => addSuppression_inv _ _

end CxxDead
