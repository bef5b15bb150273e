import CxxDead.Provider
import CxxDead.NormalForm
import CxxDead.Lib.Additions
/-!
# What policies add

- `applyPolicy_adds`: a policy adds the facts that it names, if each of its
  selectors matches one symbol of the graph, and fails otherwise.
- `applyProviderPolicies_spec`: a list of policies does so in any order, however
  often each is listed.
-/

namespace CxxDead

open Lib CxxDead.Graph

/-! ## Facts that policies name -/

inductive Fact where
  | root (root : Root)
  | edge (edge : Edge)
  | escape (escape : Escape)
  | suppression (suppression : Suppression)

def Graph.Has (g : Graph) : Fact → Prop
  | .root root => root ∈ g.roots
  | .edge edge => edge ∈ g.edges
  | .escape escape => escape ∈ g.escapes
  | .suppression suppression => suppression ∈ g.suppressions

/-- The fact about renumbered symbols. -/
def Fact.move (f : SymbolId → SymbolId) : Fact → Fact
  | .root r => .root { r with symbol := f r.symbol }
  | .edge e => .edge { e with «from» := f e.from, «to» := f e.to }
  | .escape e => .escape { e with symbol := f e.symbol, «from» := e.from.map f }
  | .suppression s => .suppression { s with symbol := f s.symbol }

/-- The selector matches this symbol and no other. -/
def Selects (g : Graph) (selector : SymbolSelector) (id : SymbolId) : Prop :=
  ∀ other, other < g.symbols.length ∧ symbolMatches (g.symbol other) selector = true ↔ other = id

def SelectsOrigin (g : Graph) : Option SymbolSelector → Option SymbolId → Prop
  | some selector, some id => Selects g selector id
  | none, none => True
  | _, _ => False

/-- The selectors of a policy that have to match one symbol. -/
def ProviderPolicy.selectors (policy : ProviderPolicy) : List SymbolSelector :=
  (policy.callbackRegistrations.filter (·.requireUnique)).map (·.callee) ++ policy.roots.map (·.symbol) ++
    policy.publicApiRoots.map (·.symbol) ++ policy.edges.flatMap (fun fact => [fact.from, fact.to]) ++
    policy.escapes.flatMap (fun fact => fact.from.toList ++ [fact.symbol]) ++ policy.suppressions.map (·.symbol)

/-- The facts that a policy names, about the symbols of `g`. -/
inductive Names (g : Graph) (policy : ProviderPolicy) : Fact → Prop where
  | root {fact id} : fact ∈ policy.roots → Selects g fact.symbol id →
      Names g policy (.root ⟨id, .provider, fact.evidence⟩)
  | publicApiRoot {fact id} : fact ∈ policy.publicApiRoots → Selects g fact.symbol id →
      Names g policy (.root ⟨id, .publicApi, fact.evidence⟩)
  | edge {fact source target} : fact ∈ policy.edges → Selects g fact.from source → Selects g fact.to target →
      Names g policy (.edge ⟨source, target, .provider, fact.evidence⟩)
  | escape {fact origin id} : fact ∈ policy.escapes → SelectsOrigin g fact.from origin → Selects g fact.symbol id →
      Names g policy (.escape ⟨id, origin, .provider, fact.evidence⟩)
  | suppression {fact id} : fact ∈ policy.suppressions → Selects g fact.symbol id →
      Names g policy (.suppression ⟨id, fact.evidence⟩)

/-! ## Adding one fact -/

section Adding
variable {g : Graph}

theorem Selects.lt {selector : SymbolSelector} {id : SymbolId} (h : Selects g selector id) : id < g.symbols.length :=
  ((h id).2 rfl).1

theorem Selects.unique {selector : SymbolSelector} {a b : SymbolId} (h : Selects g selector a)
    (h' : Selects g selector b) : a = b :=
  (h' a).1 ((h a).2 rfl)

theorem SelectsOrigin.unique {selector : Option SymbolSelector} {a b : Option SymbolId} (h : SelectsOrigin g selector a)
    (h' : SelectsOrigin g selector b) : a = b := by
  cases selector with
  | none =>
    cases a with
    | some a => cases h
    | none =>
      cases b with
      | some b => cases h'
      | none => rfl
  | some selector =>
    cases a with
    | none => cases h
    | some a =>
      cases b with
      | none => cases h'
      | some b => exact congrArg some (Selects.unique h h')

/-- The symbols and their index are those of `g`. -/
def SameSymbols (g h : Graph) : Prop := h.symbols = g.symbols ∧ h.keyToId = g.keyToId

theorem SameSymbols.selects {h : Graph} (hs : SameSymbols g h) {selector : SymbolSelector} {id : SymbolId} :
    Selects h selector id ↔ Selects g selector id := by
  unfold Selects Graph.symbol
  rw [hs.1]

theorem resolveUnique_asks (selector : SymbolSelector) (context : Bytes) (s : Graph) (hs : SameSymbols g s) :
    Triple (fun t => t = s) (resolveUnique selector context) (fun id t => Selects g selector id ∧ t = s)
      (fun _ _ => ¬ ∃ id, Selects g selector id) := by
  rintro t rfl
  cases hrun : resolveUnique selector context t with
  | ok id t' =>
    obtain ⟨rfl, hselects⟩ := resolveUnique_ok_iff.1 hrun
    exact ⟨hs.selects.1 hselects, rfl⟩
  | error e t' =>
    rintro ⟨id, hselects⟩
    have hok : resolveUnique selector context t = .ok id t := resolveUnique_ok_iff.2 ⟨rfl, hs.selects.2 hselects⟩
    rw [hrun] at hok
    cases hok

theorem resolveOrigin_asks (selector : Option SymbolSelector) (context : Bytes) (s : Graph) (hs : SameSymbols g s) :
    Triple (fun t => t = s) (resolveOrigin selector context) (fun origin t => SelectsOrigin g selector origin ∧ t = s)
      (fun _ _ => ¬ ∃ origin, SelectsOrigin g selector origin) := by
  cases selector with
  | none => exact Triple.pure fun t ht => ⟨trivial, ht⟩
  | some selector =>
    have hask : Triple (fun t => t = s) (resolveUnique selector context) (fun id t => Selects g selector id ∧ t = s)
        fun _ _ => ¬ ∃ origin, SelectsOrigin g (some selector) origin := by
      refine (resolveUnique_asks selector context s hs).imp (fun _ => id) (fun _ _ => id) ?_
      rintro _ _ hno ⟨origin, horigin⟩
      cases origin with
      | none => cases horigin
      | some id => exact hno ⟨id, horigin⟩
    show Triple _ (some <$> resolveUnique selector context) _ _
    rw [map_eq_pure_bind]
    exact hask.bind fun id => Triple.pure fun _ h => h

theorem addRoot_adds {id : SymbolId} (hid : id < g.symbols.length) (kind : RootKind) (evidence : Evidence) :
    Adds (SameSymbols g) Has (addRoot id kind evidence) True fun x => x = .root ⟨id, kind, evidence⟩ := by
  refine .one fun s hs => ⟨_, if_neg (hs.1 ▸ not_le.2 hid), hs, fun fact => ?_⟩
  cases fact with
  | root root => simp only [Has, mem_addFact, Fact.root.injEq]
  | edge | escape | suppression => simp [Has]

theorem addEdge_adds {source target : SymbolId} (hsource : source < g.symbols.length)
    (htarget : target < g.symbols.length) (kind : EdgeKind) (evidence : Evidence) :
    Adds (SameSymbols g) Has (addEdge source target kind evidence) True
      fun x => x = .edge ⟨source, target, kind, evidence⟩ := by
  refine .one fun s hs => ⟨_, if_neg (hs.1 ▸ not_or.2 ⟨not_le.2 hsource, not_le.2 htarget⟩), hs, fun fact => ?_⟩
  cases fact with
  | edge edge => simp only [Has, mem_addFact, Fact.edge.injEq]
  | root | escape | suppression => simp [Has]

theorem addEscape_adds {id : SymbolId} (hid : id < g.symbols.length) {origin : Option SymbolId}
    (horigin : ∀ f ∈ origin, f < g.symbols.length) (kind : EscapeKind) (evidence : Evidence) :
    Adds (SameSymbols g) Has (addEscape id kind evidence origin) True
      fun x => x = .escape ⟨id, origin, kind, evidence⟩ := by
  refine .one fun s hs => ⟨_, if_neg ?_, hs, fun fact => ?_⟩
  · rw [hs.1, not_or]
    refine ⟨not_le.2 hid, ?_⟩
    cases origin with
    | none => simp
    | some f => simpa using horigin f rfl
  · cases fact with
    | escape escape => simp only [Has, mem_addFact, Fact.escape.injEq]
    | root | edge | suppression => simp [Has]

theorem addSuppression_adds {id : SymbolId} (hid : id < g.symbols.length) (evidence : Evidence) :
    Adds (SameSymbols g) Has (addSuppression id evidence) True fun x => x = .suppression ⟨id, evidence⟩ := by
  refine .one fun s hs => ⟨_, if_neg (hs.1 ▸ not_le.2 hid), hs, fun fact => ?_⟩
  cases fact with
  | suppression suppression => simp only [Has, mem_addFact, Fact.suppression.injEq]
  | root | edge | escape => simp [Has]

end Adding

/-! ## A policy -/

section Policy
variable {g : Graph} (policy : ProviderPolicy)

theorem callbackRegistrations_add (source : Bytes) :
    Adds (SameSymbols g) Has
      (policy.callbackRegistrations.forM fun rule =>
        if rule.requireUnique then do
          let _ ← resolveUnique rule.callee source
        else pure ())
      (∀ rule ∈ policy.callbackRegistrations, rule.requireUnique = true → ∃ id, Selects g rule.callee id)
      fun _ => False := by
  suffices h : ∀ rule ∈ policy.callbackRegistrations, Adds (SameSymbols g) Has
      (if rule.requireUnique then do
        let _ ← resolveUnique rule.callee source
      else pure ())
      (rule.requireUnique = true → ∃ id, Selects g rule.callee id) fun _ => False from
    (Adds.forM _ h).congr Iff.rfl fun x => by simp
  intro rule _
  split
  · rename_i hunique
    refine (Adds.ask (fun _ _ => Selects.unique) (resolveUnique_asks rule.callee source)
      fun _ _ => Adds.nothing).congr ?_ fun x => by simp
    simp only [hunique, and_true, true_implies]
  · rename_i hunique
    exact Adds.nothing.congr (by simp [hunique]) fun _ => Iff.rfl

/-- A loop over facts that each select one symbol. -/
theorem rootFacts_add (facts : List ProviderRootFact) (context : Bytes) (kind : RootKind) :
    Adds (SameSymbols g) Has
      (facts.forM fun fact => do
        let id ← resolveUnique fact.symbol context
        addRoot id kind fact.evidence)
      (∀ fact ∈ facts, ∃ id, Selects g fact.symbol id)
      fun x => ∃ fact ∈ facts, ∃ id, Selects g fact.symbol id ∧ x = .root ⟨id, kind, fact.evidence⟩ := by
  refine Adds.forM _ fun fact _ => ?_
  exact (Adds.ask (fun _ _ => Selects.unique) (resolveUnique_asks fact.symbol context) fun id hid =>
    addRoot_adds hid.lt kind fact.evidence).congr (and_iff_left trivial) fun _ => Iff.rfl

theorem edgeFacts_add (fromContext toContext : Bytes) :
    Adds (SameSymbols g) Has
      (policy.edges.forM fun fact => do
        let «from» ← resolveUnique fact.from fromContext
        let «to» ← resolveUnique fact.to toContext
        addEdge «from» «to» .provider fact.evidence)
      (∀ fact ∈ policy.edges, (∃ id, Selects g fact.from id) ∧ ∃ id, Selects g fact.to id)
      fun x => ∃ fact ∈ policy.edges, ∃ source, Selects g fact.from source ∧ ∃ target, Selects g fact.to target ∧
        x = .edge ⟨source, target, .provider, fact.evidence⟩ := by
  refine Adds.forM _ fun fact _ => ?_
  refine Adds.ask (fun _ _ => Selects.unique) (resolveUnique_asks fact.from fromContext) fun source hsource => ?_
  exact (Adds.ask (fun _ _ => Selects.unique) (resolveUnique_asks fact.to toContext) fun target htarget =>
    addEdge_adds hsource.lt htarget.lt .provider fact.evidence).congr (and_iff_left trivial) fun _ => Iff.rfl

theorem SelectsOrigin.lt {selector : Option SymbolSelector} {origin : Option SymbolId}
    (h : SelectsOrigin g selector origin) : ∀ f ∈ origin, f < g.symbols.length := by
  rintro f ⟨⟩
  cases selector with
  | none => cases h
  | some selector => exact Selects.lt h

/-- An origin can be resolved if its selector, when there is one, selects a symbol. -/
theorem exists_selectsOrigin {selector : Option SymbolSelector} :
    (∃ origin, SelectsOrigin g selector origin) ↔ ∀ s ∈ selector, ∃ id, Selects g s id := by
  cases selector with
  | none => exact iff_of_true ⟨none, trivial⟩ fun _ h => nomatch h
  | some selector =>
    constructor
    · rintro ⟨_ | id, h⟩ s ⟨⟩
      · cases h
      · exact ⟨id, h⟩
    · intro h
      obtain ⟨id, hid⟩ := h selector rfl
      exact ⟨some id, hid⟩

theorem escapeFacts_add (fromContext symbolContext : Bytes) :
    Adds (SameSymbols g) Has
      (policy.escapes.forM fun fact => do
        let «from» ← resolveOrigin fact.from fromContext
        let id ← resolveUnique fact.symbol symbolContext
        addEscape id .provider fact.evidence «from»)
      (∀ fact ∈ policy.escapes, (∀ s ∈ fact.from, ∃ id, Selects g s id) ∧ ∃ id, Selects g fact.symbol id)
      fun x => ∃ fact ∈ policy.escapes, ∃ origin, SelectsOrigin g fact.from origin ∧ ∃ id, Selects g fact.symbol id ∧
        x = .escape ⟨id, origin, .provider, fact.evidence⟩ := by
  refine Adds.forM _ fun fact _ => ?_
  refine (Adds.ask (fun _ _ => SelectsOrigin.unique) (resolveOrigin_asks fact.from fromContext)
    fun origin horigin => ?_).congr (and_congr_left' exists_selectsOrigin) fun _ => Iff.rfl
  exact (Adds.ask (fun _ _ => Selects.unique) (resolveUnique_asks fact.symbol symbolContext) fun id hid =>
    addEscape_adds hid.lt horigin.lt .provider fact.evidence).congr (and_iff_left trivial) fun _ => Iff.rfl

theorem suppressionFacts_add (context : Bytes) :
    Adds (SameSymbols g) Has
      (policy.suppressions.forM fun fact => do
        let id ← resolveUnique fact.symbol context
        addSuppression id fact.evidence)
      (∀ fact ∈ policy.suppressions, ∃ id, Selects g fact.symbol id)
      fun x => ∃ fact ∈ policy.suppressions, ∃ id, Selects g fact.symbol id ∧
        x = .suppression ⟨id, fact.evidence⟩ := by
  refine Adds.forM _ fun fact _ => ?_
  exact (Adds.ask (fun _ _ => Selects.unique) (resolveUnique_asks fact.symbol context) fun id hid =>
    addSuppression_adds hid.lt fact.evidence).congr (and_iff_left trivial) fun _ => Iff.rfl

theorem applyPolicy_adds :
    Adds (SameSymbols g) Has (applyPolicy policy) (∀ selector ∈ policy.selectors, ∃ id, Selects g selector id)
      (Names g policy) := by
  unfold applyPolicy
  refine ((callbackRegistrations_add policy _).seq <| (rootFacts_add policy.roots _ .provider).seq <|
    (rootFacts_add policy.publicApiRoots _ .publicApi).seq <| (edgeFacts_add policy _ _).seq <|
    (escapeFacts_add policy _ _).seq (suppressionFacts_add policy _)).congr ?_ fun x => ?_
  · simp only [ProviderPolicy.selectors, List.forall_mem_append, List.forall_mem_map, List.mem_filter, and_imp,
      List.forall_mem_flatMap, List.forall_mem_cons, List.not_mem_nil, false_implies, implies_true, Option.mem_toList,
      and_assoc, and_true]
    exact Iff.rfl
  · constructor
    · rintro (hnothing | ⟨fact, hfact, id, hid, rfl⟩ | ⟨fact, hfact, id, hid, rfl⟩ |
        ⟨fact, hfact, source, hsource, target, htarget, rfl⟩ | ⟨fact, hfact, origin, horigin, id, hid, rfl⟩ |
        ⟨fact, hfact, id, hid, rfl⟩)
      · exact hnothing.elim
      · exact .root hfact hid
      · exact .publicApiRoot hfact hid
      · exact .edge hfact hsource htarget
      · exact .escape hfact horigin hid
      · exact .suppression hfact hid
    · rintro (⟨hfact, hid⟩ | ⟨hfact, hid⟩ | ⟨hfact, hsource, htarget⟩ | ⟨hfact, horigin, hid⟩ | ⟨hfact, hid⟩)
      · exact .inr (.inl ⟨_, hfact, _, hid, rfl⟩)
      · exact .inr (.inr (.inl ⟨_, hfact, _, hid, rfl⟩))
      · exact .inr (.inr (.inr (.inl ⟨_, hfact, _, hsource, _, htarget, rfl⟩)))
      · exact .inr (.inr (.inr (.inr (.inl ⟨_, hfact, _, horigin, _, hid, rfl⟩))))
      · exact .inr (.inr (.inr (.inr (.inr ⟨_, hfact, _, hid, rfl⟩))))

end Policy

/-! ## Lists of policies -/

/-- Every selector of every policy matches one symbol. -/
def AllSelect (g : Graph) (policies : List ProviderPolicy) : Prop :=
  ∀ policy ∈ policies, ∀ selector ∈ policy.selectors, ∃ id, Selects g selector id

/-- `g'` is `g` in canonical order with the facts that the policies name. -/
structure Applied (g : Graph) (policies : List ProviderPolicy) (g' : Graph) : Prop where
  symbols : g'.symbols = g.canonicalize.symbols
  keyToId : g'.keyToId = g.canonicalize.keyToId
  facts : ∀ fact, g'.Has fact ↔
    ∃ original, (g.Has original ∨ ∃ policy ∈ policies, Names g policy original) ∧ original.move g.canonicalId = fact
  canonical : g'.canonicalize = g'

section Policies
variable {g : Graph}

theorem applyPolicies_adds (policies : List ProviderPolicy) :
    Adds (SameSymbols g) Has (policies.forM applyPolicy) (AllSelect g policies)
      fun x => ∃ policy ∈ policies, Names g policy x :=
  Adds.forM policies fun policy _ => applyPolicy_adds policy

/-- The canonical order renumbers the symbols of every fact. -/
theorem canonicalize_has (fact : Fact) :
    g.canonicalize.Has fact ↔ ∃ original, g.Has original ∧ original.move g.canonicalId = fact := by
  cases fact with
  | root r =>
    show r ∈ sortOn _ _ ↔ _
    rw [mem_sortOn, List.mem_map]
    constructor
    · rintro ⟨r, hr, rfl⟩
      exact ⟨.root r, hr, rfl⟩
    · rintro ⟨r | _ | _ | _, hr, ⟨⟩⟩
      exact ⟨r, hr, rfl⟩
  | edge e =>
    show e ∈ sortOn _ _ ↔ _
    rw [mem_sortOn, List.mem_map]
    constructor
    · rintro ⟨e, he, rfl⟩
      exact ⟨.edge e, he, rfl⟩
    · rintro ⟨_ | e | _ | _, he, ⟨⟩⟩
      exact ⟨e, he, rfl⟩
  | escape e =>
    show e ∈ sortOn _ _ ↔ _
    rw [mem_sortOn, List.mem_map]
    constructor
    · rintro ⟨e, he, rfl⟩
      exact ⟨.escape e, he, rfl⟩
    · rintro ⟨_ | _ | e | _, he, ⟨⟩⟩
      exact ⟨e, he, rfl⟩
  | suppression s =>
    show s ∈ sortOn _ _ ↔ _
    rw [mem_sortOn, List.mem_map]
    constructor
    · rintro ⟨s, hs, rfl⟩
      exact ⟨.suppression s, hs, rfl⟩
    · rintro ⟨_ | _ | _ | s, hs, ⟨⟩⟩
      exact ⟨s, hs, rfl⟩

theorem SameSymbols.canonicalId {h : Graph} (hh : SameSymbols g h) : h.canonicalId = g.canonicalId := by
  unfold Graph.canonicalId keyOrder Graph.symbol
  rw [hh.1]

theorem SameSymbols.sameFacts {h k : Graph} (hh : SameSymbols g h) (hk : SameSymbols g k)
    (hfacts : ∀ x, h.Has x ↔ k.Has x) : SameFacts h k := by
  have hsymbol : h.symbol = k.symbol := by
    unfold Graph.symbol
    rw [hh.1, hk.1]
  have hkey : h.keyOf = k.keyOf := by
    unfold keyOf
    rw [hsymbol]
  refine ⟨fun key => ?_, fun x => ?_, fun x => ?_, fun x => ?_, fun x => ?_⟩
  · unfold record findByKey
    rw [hsymbol, hh.2, hk.2]
  · simp only [edgeFacts, List.mem_map, edgeFact, hkey, show ∀ e, e ∈ h.edges ↔ e ∈ k.edges from fun e => hfacts (.edge e)]
  · simp only [rootFacts, List.mem_map, rootFact, hkey, show ∀ r, r ∈ h.roots ↔ r ∈ k.roots from fun r => hfacts (.root r)]
  · simp only [escapeFacts, List.mem_map, escapeFact, hkey,
      show ∀ e, e ∈ h.escapes ↔ e ∈ k.escapes from fun e => hfacts (.escape e)]
  · simp only [suppressionFacts, List.mem_map, suppressionFact, hkey,
      show ∀ s, s ∈ h.suppressions ↔ s ∈ k.suppressions from fun s => hfacts (.suppression s)]

theorem applyProviderPolicies_eq {policies : List ProviderPolicy} (hne : policies ≠ []) (g : Graph) :
    applyProviderPolicies policies g =
      match policies.forM applyPolicy g with
      | .ok _ g' => .ok ⟨⟩ g'.canonicalize
      | .error e g' => .error e g' := by
  have hrun : applyProviderPolicies policies = policies.forM applyPolicy >>= fun _ => modify canonicalize :=
    if_neg (by simpa using hne)
  rw [hrun]
  cases h : policies.forM applyPolicy g with
  | ok _ g' => exact bind_of_ok h
  | error e g' => exact bind_of_error h

theorem applyProviderPolicies_returns {policies : List ProviderPolicy} (hne : policies ≠ []) (g : Graph) :
    (∃ g', applyProviderPolicies policies g = .ok ⟨⟩ g') ↔ AllSelect g policies := by
  rw [← (applyPolicies_adds policies).returns_iff (s := g) ⟨rfl, rfl⟩, applyProviderPolicies_eq hne]
  constructor
  · rintro ⟨g', hg'⟩
    split at hg'
    · rename_i g₁ hrun
      exact ⟨g₁, hrun⟩
    · cases hg'
  · rintro ⟨g₁, hrun⟩
    rw [hrun]
    exact ⟨_, rfl⟩

/-- The graph before it is put in canonical order. -/
theorem applyProviderPolicies_ok {policies : List ProviderPolicy} (hne : policies ≠ []) (hg : g.Inv) {g' : Graph}
    (h : applyProviderPolicies policies g = .ok ⟨⟩ g') :
    ∃ g₁, g' = g₁.canonicalize ∧ g₁.Inv ∧ SameSymbols g g₁ ∧
      ∀ x, g₁.Has x ↔ g.Has x ∨ ∃ policy ∈ policies, Names g policy x := by
  rw [applyProviderPolicies_eq hne] at h
  split at h
  · rename_i g₁ hrun
    cases h
    obtain ⟨-, hsymbols, hfacts⟩ := (applyPolicies_adds policies).ok (s := g) ⟨rfl, rfl⟩ hrun
    exact ⟨g₁, rfl, (Keeps.forM applyPolicy_inv policies).ok hg hrun, hsymbols, hfacts⟩
  · cases h

theorem applied {policies : List ProviderPolicy} (hne : policies ≠ []) (hg : g.Inv) {g' : Graph}
    (h : applyProviderPolicies policies g = .ok ⟨⟩ g') : Applied g policies g' := by
  obtain ⟨g₁, rfl, hinv, hsymbols, hfacts⟩ := applyProviderPolicies_ok hne hg h
  have hmoved : g₁.canonicalize.symbols = g.canonicalize.symbols := by
    unfold canonicalize keyOrder Graph.symbol
    rw [hsymbols.1]
  refine ⟨hmoved, congrArg indexKeys hmoved, fun fact => ?_,
    canonicalize_congr (canonicalize_inv hinv) hinv (canonicalize_sameFacts hinv)⟩
  rw [canonicalize_has, hsymbols.canonicalId]
  simp only [hfacts]

/-- Policies compose in any order, and repeating one changes nothing. -/
theorem applyProviderPolicies_spec (hg : Built g) {policies policies' : List ProviderPolicy} (hne : policies ≠ [])
    (hsame : ∀ policy, policy ∈ policies ↔ policy ∈ policies') :
    ((∃ g', applyProviderPolicies policies g = .ok ⟨⟩ g') ↔ AllSelect g policies) ∧
    (∀ g', applyProviderPolicies policies g = .ok ⟨⟩ g' → Applied g policies g') ∧
    Alike (· = ·) (applyProviderPolicies policies g) (applyProviderPolicies policies' g) := by
  have hne' : policies' ≠ [] := by
    obtain ⟨policy, hpolicy⟩ := List.exists_mem_of_ne_nil policies hne
    exact List.ne_nil_of_mem ((hsame policy).1 hpolicy)
  refine ⟨applyProviderPolicies_returns hne g, fun g' => applied hne hg.inv, ?_⟩
  have hboth : AllSelect g policies ↔ AllSelect g policies' := by
    unfold AllSelect
    simp only [hsame]
  rw [← applyProviderPolicies_returns hne, ← applyProviderPolicies_returns hne'] at hboth
  cases h : applyProviderPolicies policies g with
  | ok _ g' =>
    obtain ⟨g'', h'⟩ := hboth.1 ⟨g', h⟩
    obtain ⟨g₁, rfl, hinv₁, hsymbols₁, hfacts₁⟩ := applyProviderPolicies_ok hne hg.inv h
    obtain ⟨g₂, rfl, hinv₂, hsymbols₂, hfacts₂⟩ := applyProviderPolicies_ok hne' hg.inv h'
    rw [h']
    exact canonicalize_congr hinv₁ hinv₂ (hsymbols₁.sameFacts hsymbols₂ fun x => by simp only [hfacts₁, hfacts₂, hsame])
  | error e g' =>
    cases h' : applyProviderPolicies policies' g with
    | ok _ g'' =>
      obtain ⟨other, hother⟩ := hboth.2 ⟨g'', h'⟩
      rw [h] at hother
      cases hother
    | error e' g'' => trivial

end Policies

/-- Two policies about the two symbols of a graph, in two orders and one of them twice. -/
def rootPolicy : ProviderPolicy :=
  { source := ⟨lit "roots.yaml"⟩, roots := [⟨{ id := lit "a" }, ⟨lit "tests", lit "called by the harness"⟩⟩] }

def edgePolicy : ProviderPolicy :=
  { source := ⟨lit "edges.yaml"⟩
    edges := [⟨{ id := lit "b" }, { id := lit "a" }, ⟨lit "plugin", lit "loaded by name"⟩⟩] }

theorem unsorted_policies :
    AllSelect Graph.unsorted [rootPolicy, edgePolicy] ∧
    (∃ g', applyProviderPolicies [rootPolicy, edgePolicy] Graph.unsorted = .ok ⟨⟩ g' ∧
      Applied Graph.unsorted [rootPolicy, edgePolicy] g') ∧
    Alike (· = ·) (applyProviderPolicies [rootPolicy, edgePolicy] Graph.unsorted)
      (applyProviderPolicies [edgePolicy, rootPolicy, edgePolicy] Graph.unsorted) := by
  have hbuilt : Built Graph.unsorted := .addEdge _ _ _ _ (.addOrMergeSymbol _ (.addOrMergeSymbol _ .empty))
  have hsame : ∀ policy, policy ∈ [rootPolicy, edgePolicy] ↔ policy ∈ [edgePolicy, rootPolicy, edgePolicy] :=
    fun policy => by simp [or_comm]
  obtain ⟨hreturns, happlied, halike⟩ := applyProviderPolicies_spec hbuilt (List.cons_ne_nil _ _) hsame
  have hok : ∃ g', applyProviderPolicies [rootPolicy, edgePolicy] Graph.unsorted = .ok ⟨⟩ g' := ⟨_, rfl⟩
  obtain ⟨g', hg'⟩ := hok
  exact ⟨hreturns.1 ⟨g', hg'⟩, ⟨g', hg', happlied g' hg'⟩, halike⟩

end CxxDead
