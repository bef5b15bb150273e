import CxxDead.Merge
import CxxDead.ObservedCalls
import CxxDead.Sight
/-!
# What the walk over uses enters

A walk looks ids up and brings the declarations outside the project among them into
the graph. Which ids these are can be read off the AST, and with it which nodes the
walk enters.

- `recordUses_looks`: what is looked up at a node.
- `enterNode_open`: the walk enters what `openNode` says.
-/

namespace CxxDead

open Lib Json CxxDead.Graph

namespace Ast

/-! ## What stays as it is -/

/-- A symbol as it is declared outside the project. -/
structure Outsider (symbol : Symbol) : Prop where
  scope : symbol.scope = .externalOpaque
  defined : symbol.defined = false

def Outsiders (s : TranslationUnitState) : Prop :=
  ∀ {id symbol}, s.opaqueDeclarations.lookup id = some symbol → Outsider symbol

/-- What stays of a symbol when declarations outside the project are merged into it. -/
structure Settles (symbol merged : Symbol) : Prop where
  key : merged.key = symbol.key
  name : merged.name = symbol.name
  kind : merged.kind = symbol.kind
  body : hasIndexedBody symbol.scope = true → hasIndexedBody merged.scope = true
  className : symbol.className ≠ [] → merged.className = symbol.className
  signature : hasIndexedBody symbol.scope = true → symbol.signature ≠ [] → merged.signature = symbol.signature

theorem Settles.refl (symbol : Symbol) : Settles symbol symbol :=
  ⟨rfl, rfl, rfl, fun h => h, fun _ => rfl, fun _ _ => rfl⟩

theorem mergeFields_body {target : Symbol} (source : Symbol) (h : hasIndexedBody target.scope = true) :
    hasIndexedBody (mergeFields target source).scope = true := by
  unfold mergeFields
  dsimp only
  split
  · rename_i hrank
    revert h hrank
    cases target.scope <;> cases source.scope <;> decide
  · exact h

/-- A symbol of the project takes over nothing that it has. -/
theorem Settles.outsider {target source : Symbol} (h : Outsider source) : Settles target (mergeFields target source) := by
  refine ⟨mergeFields_key target source, rfl, rfl, mergeFields_body source, fun hclass => if_neg hclass,
    fun hbody hsignature => if_neg ?_⟩
  have hdefinition : preferredDefinition target source = false := by
    unfold preferredDefinition
    rw [h.defined, Bool.and_false]
  have hscope : preferredScope target source = false ∧ canonicalPeer target source = false := by
    unfold preferredScope canonicalPeer
    rw [h.scope]
    revert hbody
    cases target.scope <;> simp [hasIndexedBody, scopeRank]
  rw [hdefinition, hscope.1, hscope.2]
  simp [hsignature]

theorem Settles.trans {a b c : Symbol} (h : Settles a b) (h' : Settles b c) : Settles a c := by
  refine ⟨h'.key.trans h.key, h'.name.trans h.name, h'.kind.trans h.kind, fun hbody => h'.body (h.body hbody),
    fun hclass => ?_, fun hbody hsignature => ?_⟩
  · have hsame := h.className hclass
    exact (h'.className (hsame ▸ hclass)).trans hsame
  · have hsame := h.signature hbody hsignature
    exact (h'.signature (h.body hbody) (hsame ▸ hsignature)).trans hsame

/-- What holds all along a walk that has started at `s₀`. -/
structure Steady (s₀ s : TranslationUnitState) : Prop where
  outsiders : Outsiders s₀
  inv : s.graph.Inv
  declared : ∀ {id d}, s.declarations.lookup id = some d → d < s.graph.symbols.length
  denoted : ∀ id, denotedKey s id = denotedKey s₀ id
  outside : s.opaqueDeclarations = s₀.opaqueDeclarations
  kept : ∀ {id d}, s₀.declarations.lookup id = some d → s.declarations.lookup id = some d
  settled : ∀ symbol ∈ s₀.graph.symbols, ∃ merged ∈ s.graph.symbols, Settles symbol merged
  bodies : ∀ merged ∈ s.graph.symbols, hasIndexedBody merged.scope = true →
    ∃ symbol ∈ s₀.graph.symbols, symbol.key = merged.key ∧ hasIndexedBody symbol.scope = true

section Steady
variable {s₀ s s' : TranslationUnitState}

theorem onGraph_run {α : Type} {m : GraphM α} {a : α} (h : Ast.onGraph m s = .ok a s') :
    ∃ g, m s.graph = .ok a g ∧ s' = { s with graph := g } := by
  unfold Ast.onGraph at h
  cases hrun : m s.graph with
  | ok b g =>
    rw [hrun] at h
    cases h
    exact ⟨g, rfl, rfl⟩
  | error e g =>
    rw [hrun] at h
    cases h

theorem onGraph_endState {α : Type} (m : GraphM α) (s : TranslationUnitState) :
    endState (Ast.onGraph m) s = { s with graph := endState m s.graph } := by
  unfold endState Ast.onGraph
  cases m s.graph <;> rfl

theorem denotedKey_some {id : Bytes} {d : SymbolId} (h : s.declarations.lookup id = some d) :
    denotedKey s id = some (s.graph.keyOf d) := by
  rw [denotedKey, h]

theorem denotedKey_none {id : Bytes} (h : s.declarations.lookup id = none) :
    denotedKey s id = (s.opaqueDeclarations.lookup id).map Symbol.key := by
  rw [denotedKey, h]

/-- An outside declaration that has become a symbol. -/
theorem promote_ok {id : Bytes} {symbol : Symbol} {d : SymbolId} (h : promote id symbol s = .ok d s') :
    ∃ g, addOrMergeSymbol symbol s.graph = .ok d g ∧
      s' = { s with graph := g, declarations := (id, d) :: s.declarations } := by
  obtain ⟨d', s₁, hadd, hrest⟩ := bind_ok_iff.1 h
  cases hrest
  obtain ⟨g, hgraph, rfl⟩ := onGraph_run hadd
  exact ⟨g, hgraph, rfl⟩

theorem lookup_cons_iff {α : Type} {l : List (Bytes × α)} {id id' : Bytes} {a : α} :
    ((id, a) :: l).lookup id' = if id' = id then some a else l.lookup id' := by
  rw [List.lookup_cons]
  by_cases hid : id' = id
  · simp [hid]
  · simp [hid, beq_eq_false_iff_ne.2 hid]

/-- Merging an outside declaration settles every symbol, and gives none a body. -/
theorem addOrMergeSymbol_settles {g g' : Graph} (hg : g.Inv) {symbol : Symbol} (hsymbol : Outsider symbol) {d : SymbolId}
    (hrun : addOrMergeSymbol symbol g = .ok d g') :
    (∀ old ∈ g.symbols, ∃ new ∈ g'.symbols, Settles old new) ∧
      ∀ new ∈ g'.symbols, hasIndexedBody new.scope = true →
        ∃ old ∈ g.symbols, old.key = new.key ∧ hasIndexedBody old.scope = true := by
  have hg' : g'.Inv := Keeps.ok (addOrMergeSymbol_inv symbol) hg hrun
  obtain ⟨-, -, -, -, hrecord⟩ := addOrMergeSymbol_spec hg hrun
  have hbodiless : hasIndexedBody symbol.scope = false := by
    rw [hsymbol.scope]
    rfl
  constructor
  · intro old hold
    have hfound := hg.record_iff.2 ⟨hold, rfl⟩
    have hnow := hrecord old.key
    split at hnow
    · rw [hfound] at hnow
      obtain ⟨hmem, -⟩ := hg'.record_iff.1 hnow
      exact ⟨_, hmem, .outsider hsymbol⟩
    · exact ⟨old, (hg'.record_iff.1 (hnow.trans hfound)).1, .refl old⟩
  · intro new hnew hbody
    have hfound := hg'.record_iff.2 ⟨hnew, rfl⟩
    rw [hrecord] at hfound
    split at hfound
    · rename_i hsame
      cases htarget : g.record new.key with
      | none =>
        rw [htarget] at hfound
        cases hfound
        rw [hbodiless] at hbody
        cases hbody
      | some target =>
        rw [htarget] at hfound
        cases hfound
        obtain ⟨hmem, htargetKey⟩ := hg.record_iff.1 htarget
        refine ⟨target, hmem, htargetKey, ?_⟩
        rcases mergeFields_scope target symbol with hscope | hscope
        · rwa [hscope] at hbody
        · rw [hscope, hbodiless] at hbody
          cases hbody
    · exact ⟨new, (hg.record_iff.1 hfound).1, rfl, hbody⟩

theorem Steady.refl (houtsiders : Outsiders s) (hs : s.graph.Inv) (hdeclared : ∀ {id d}, s.declarations.lookup id = some d →
    d < s.graph.symbols.length) : Steady s s :=
  ⟨houtsiders, hs, hdeclared, fun _ => rfl, rfl, fun h => h, fun symbol hsymbol => ⟨symbol, hsymbol, .refl symbol⟩,
    fun merged hmerged hbody => ⟨merged, hmerged, rfl, hbody⟩⟩

/-- A state with the same symbols and declarations. -/
theorem Steady.same (h : Steady s₀ s) (hinv : s'.graph.Inv) (hsymbols : s'.graph.symbols = s.graph.symbols)
    (hdeclarations : s'.declarations = s.declarations) (houtside : s'.opaqueDeclarations = s.opaqueDeclarations) :
    Steady s₀ s' := by
  have hkeyOf : s'.graph.keyOf = s.graph.keyOf := by
    funext d
    unfold keyOf symbol
    rw [hsymbols]
  refine ⟨h.outsiders, hinv, fun hd => ?_, fun id => ?_, houtside.trans h.outside, fun hd => ?_, hsymbols ▸ h.settled,
    hsymbols ▸ h.bodies⟩
  · rw [hsymbols]
    exact h.declared (hdeclarations ▸ hd)
  · rw [← h.denoted id]
    unfold denotedKey
    rw [hkeyOf, hdeclarations, houtside]
  · rw [hdeclarations]
    exact h.kept hd

theorem promote_steady (h : Steady s₀ s) {id : Bytes} {symbol : Symbol}
    (hnew : s.declarations.lookup id = none) (houtside : s.opaqueDeclarations.lookup id = some symbol) {d : SymbolId}
    (hrun : promote id symbol s = .ok d s') :
    Steady s₀ s' ∧ Extends s.graph s'.graph ∧ d < s'.graph.symbols.length ∧ s'.graph.keyOf d = symbol.key := by
  obtain ⟨g, hgraph, rfl⟩ := promote_ok hrun
  obtain ⟨hextends, hd, hkey, -, -⟩ := addOrMergeSymbol_spec h.inv hgraph
  obtain ⟨hsettled, hbodies⟩ := addOrMergeSymbol_settles h.inv (h.outsiders (h.outside ▸ houtside)) hgraph
  refine ⟨⟨h.outsiders, Keeps.ok (addOrMergeSymbol_inv symbol) h.inv hgraph, fun {id' d'} hfound => ?_,
    fun id' => ?_, h.outside, fun {id' d'} hfound => ?_, fun old hold => ?_, fun new hnew hbody => ?_⟩, hextends, hd, hkey⟩
  · rw [lookup_cons_iff] at hfound
    split at hfound
    · cases hfound
      exact hd
    · exact Nat.lt_of_lt_of_le (h.declared hfound) hextends.length_le
  · rw [← h.denoted id']
    by_cases hid : id' = id
    · rw [denotedKey_some (lookup_cons_iff.trans (if_pos hid)), hid, denotedKey_none hnew, houtside, Option.map_some,
        ← hkey]
    · cases hfound : s.declarations.lookup id' with
      | none => rw [denotedKey_none (lookup_cons_iff.trans ((if_neg hid).trans hfound)), denotedKey_none hfound]
      | some d' =>
        rw [denotedKey_some (lookup_cons_iff.trans ((if_neg hid).trans hfound)), denotedKey_some hfound]
        exact congrArg some (hextends.keyOf_eq d' (h.declared hfound))
  · have hold := h.kept hfound
    rw [lookup_cons_iff, if_neg]
    · exact hold
    · rintro rfl
      rw [hnew] at hold
      cases hold
  · obtain ⟨middle, hmiddle, hfirst⟩ := h.settled old hold
    obtain ⟨new, hnew, hsecond⟩ := hsettled middle hmiddle
    exact ⟨new, hnew, hfirst.trans hsecond⟩
  · obtain ⟨middle, hmiddle, hkey', hbody'⟩ := hbodies new hnew hbody
    obtain ⟨old, hold, hkey'', hbody''⟩ := h.bodies middle hmiddle hbody'
    exact ⟨old, hold, hkey''.trans hkey', hbody''⟩

theorem Steady.onGraph {m : GraphM Unit} (hinv : Keeps Inv m) (hsymbols : ∀ g, (endState m g).symbols = g.symbols) :
    Keeps (Steady s₀) (Ast.onGraph m) := by
  intro s hs
  rw [onGraph_endState]
  exact hs.same (hinv _ hs.inv) (hsymbols s.graph) rfl rfl

theorem addEdge_symbols («from» «to» : SymbolId) (kind : EdgeKind) (evidence : Evidence) (g : Graph) :
    (endState (addEdge «from» «to» kind evidence) g).symbols = g.symbols := by
  unfold endState addEdge
  split <;> rename_i h <;> split at h <;> cases h <;> rfl

theorem addRoot_symbols (id : SymbolId) (kind : RootKind) (evidence : Evidence) (g : Graph) :
    (endState (addRoot id kind evidence) g).symbols = g.symbols := by
  unfold endState addRoot
  split <;> rename_i h <;> split at h <;> cases h <;> rfl

theorem addEscape_symbols (id : SymbolId) (kind : EscapeKind) (evidence : Evidence) («from» : Option SymbolId)
    (g : Graph) : (endState (addEscape id kind evidence «from») g).symbols = g.symbols := by
  unfold endState addEscape
  split <;> rename_i h <;> split at h <;> cases h <;> rfl

theorem addSymbol_error {symbol : Symbol} {e : Exception}
    (h : Ast.onGraph (addOrMergeSymbol symbol) s = .error e s') : s' = s := by
  unfold Ast.onGraph at h
  cases hgraph : addOrMergeSymbol symbol s.graph with
  | ok d g =>
    rw [hgraph] at h
    cases h
  | error e₁ g =>
    rw [hgraph] at h
    cases h
    rw [addOrMergeSymbol_error hgraph]

/-- A declaration that cannot be merged leaves the state as it was. -/
theorem promote_endState (id : Bytes) (symbol : Symbol) (s : TranslationUnitState) :
    (∃ d s', promote id symbol s = .ok d s' ∧ endState (promote id symbol) s = s') ∨
      endState (promote id symbol) s = s := by
  unfold endState
  cases hadd : Ast.onGraph (addOrMergeSymbol symbol) s with
  | ok d s₁ =>
    have hrun : promote id symbol s = .ok d { s₁ with declarations := (id, d) :: s₁.declarations } := by
      unfold promote
      rw [bind_of_ok hadd]
      rfl
    exact .inl ⟨d, _, hrun, by rw [hrun]⟩
  | error e s₁ =>
    refine .inr ?_
    unfold promote
    rw [bind_of_error hadd, addSymbol_error hadd]

theorem steady_steps (s₀ : TranslationUnitState) : KeptBySteps (Steady s₀) where
  promote s id symbol hnew houtside hs := by
    rcases promote_endState id symbol s with ⟨d, s', hrun, hend⟩ | hend
    · rw [hend]
      exact (promote_steady hs hnew houtside hrun).1
    · rw [hend]
      exact hs
  edge _ _ _ _ := Steady.onGraph (addEdge_inv _ _ _ _) (addEdge_symbols _ _ _ _)
  root _ _ _ := Steady.onGraph (addRoot_inv _ _ _) (addRoot_symbols _ _ _)
  escape _ _ _ _ := Steady.onGraph (addEscape_inv _ _ _ _) (addEscape_symbols _ _ _ _)
  bindings _ _ hs := hs.same hs.inv rfl rfl rfl
  diagnostic _ _ hs := hs.same hs.inv rfl rfl rfl
  ruleMatch _ _ hs := hs.same hs.inv rfl rfl rfl

end Steady

/-! ## What is looked up -/

def Declares (s : TranslationUnitState) (id : Bytes) : Prop := (s.declarations.lookup id).isSome = true

/-- Of the ids, this one is declared outside the project. -/
def OutsideAmong (ids : List Bytes) (s : TranslationUnitState) (id : Bytes) : Prop :=
  id ∈ ids ∧ (s.opaqueDeclarations.lookup id).isSome = true

/-- A command that looks up the ids of `lower` and none but those of `upper`: what is declared outside the
project among them is declared afterwards. -/
structure Looks (lower upper : List Bytes) {α : Type} (m : CollectM α) : Prop where
  outside : ∀ s s' a, m s = .ok a s' → s'.opaqueDeclarations = s.opaqueDeclarations
  within : ∀ s s' a, m s = .ok a s' → ∀ id, Declares s' id → Declares s id ∨ OutsideAmong upper s id
  all : ∀ s s' a, m s = .ok a s' → ∀ id, Declares s id ∨ OutsideAmong lower s id → Declares s' id

section Looks
variable {α β : Type} {lower upper lower' upper' : List Bytes}

theorem Looks.mono {m : CollectM α} (h : Looks lower upper m) (hlower : lower' ⊆ lower) (hupper : upper ⊆ upper') :
    Looks lower' upper' m where
  outside := h.outside
  within s s' a hrun id hd := (h.within s s' a hrun id hd).imp_right fun hid => ⟨hupper hid.1, hid.2⟩
  all s s' a hrun id hd := h.all s s' a hrun id (hd.imp_right fun hid => ⟨hlower hid.1, hid.2⟩)

/-- Neither the declarations nor those outside the project change. -/
theorem Looks.still {m : CollectM α} (h : ∀ s s' a, m s = .ok a s' →
    s'.declarations = s.declarations ∧ s'.opaqueDeclarations = s.opaqueDeclarations) : Looks [] [] m := by
  have hsame : ∀ s s' a, m s = .ok a s' → ∀ id, Declares s' id ↔ Declares s id := fun s s' a hrun id => by
    unfold Declares
    rw [(h s s' a hrun).1]
  exact ⟨fun s s' a hrun => (h s s' a hrun).2, fun s s' a hrun id hd => .inl ((hsame s s' a hrun id).1 hd),
    fun s s' a hrun id hd => (hsame s s' a hrun id).2 (hd.resolve_right fun hid => List.not_mem_nil hid.1)⟩

theorem Looks.pure (a : α) : Looks [] [] (Pure.pure a : CollectM α) :=
  .still fun s s' b hrun => by cases hrun; exact ⟨rfl, rfl⟩

theorem Looks.throw (e : Exception) : Looks lower upper (throw e : CollectM α) := by
  constructor <;> intro s s' a hrun <;> cases hrun

theorem Looks.modify {f : TranslationUnitState → TranslationUnitState}
    (h : ∀ s, (f s).declarations = s.declarations ∧ (f s).opaqueDeclarations = s.opaqueDeclarations) :
    Looks [] [] (modify f : CollectM PUnit) :=
  .still fun s s' b hrun => by cases hrun; exact h _

theorem Looks.onGraph (m : GraphM α) : Looks [] [] (Ast.onGraph m) :=
  .still fun s s' b hrun => by
    obtain ⟨g, -, rfl⟩ := onGraph_run hrun
    exact ⟨rfl, rfl⟩

theorem Looks.bind {m : CollectM α} {f : α → CollectM β} (hm : Looks lower upper m)
    (hf : ∀ a, Looks lower' upper' (f a)) : Looks (lower ++ lower') (upper ++ upper') (m >>= f) := by
  refine ⟨fun s s'' b hrun => ?_, fun s s'' b hrun id hd => ?_, fun s s'' b hrun id hd => ?_⟩ <;>
    obtain ⟨a, s', hfirst, hsecond⟩ := bind_ok_iff.1 hrun
  · exact ((hf a).outside _ _ _ hsecond).trans (hm.outside _ _ _ hfirst)
  · rcases (hf a).within _ _ _ hsecond id hd with hd | ⟨hid, hout⟩
    · exact (hm.within _ _ _ hfirst id hd).imp_right fun hid => ⟨List.mem_append.2 (.inl hid.1), hid.2⟩
    · exact .inr ⟨List.mem_append.2 (.inr hid), hm.outside _ _ _ hfirst ▸ hout⟩
  · rcases hd with hd | ⟨hid, hout⟩
    · exact (hf a).all _ _ _ hsecond id (.inl (hm.all _ _ _ hfirst id (.inl hd)))
    · rcases List.mem_append.1 hid with hid | hid
      · exact (hf a).all _ _ _ hsecond id (.inl (hm.all _ _ _ hfirst id (.inr ⟨hid, hout⟩)))
      · exact (hf a).all _ _ _ hsecond id (.inr ⟨hid, (hm.outside _ _ _ hfirst).symm ▸ hout⟩)

theorem Looks.get_bind {f : TranslationUnitState → CollectM α} (h : ∀ s, Looks lower upper (f s)) :
    Looks lower upper (get >>= f) where
  outside s := (h s).outside s
  within s := (h s).within s
  all s := (h s).all s

theorem Looks.map {m : CollectM α} (h : Looks lower upper m) (f : α → β) :
    Looks lower upper (m >>= fun a => Pure.pure (f a)) := by
  have hbind := h.bind fun a => Looks.pure (f a)
  rwa [List.append_nil, List.append_nil] at hbind

/-- A loop that looks nothing up by rights, and in no turn more than `upper`. -/
theorem Looks.forM {γ : Type} {f : γ → CollectM PUnit} {l : List γ} (h : ∀ a ∈ l, Looks [] upper (f a)) :
    Looks [] upper (l.forM f) := by
  induction l with
  | nil => exact (Looks.pure _).mono (List.Subset.refl _) (List.nil_subset _)
  | cons a l ih =>
    have hrest := ih fun b hb => h b (List.mem_cons_of_mem _ hb)
    exact ((h a List.mem_cons_self).bind fun _ => hrest).mono (List.Subset.refl _)
      (List.append_subset.2 ⟨List.Subset.refl _, List.Subset.refl _⟩)

end Looks

/-! ### Expressions -/

/-- An id that is looked up is declared afterwards, if it is declared anywhere. -/
theorem resolveReference_looks (id : Bytes) : Looks [id] [id] (resolveReference id) := by
  have hrun : ∀ s s' found, resolveReference id s = .ok found s' → s'.opaqueDeclarations = s.opaqueDeclarations ∧
      ∀ id', Declares s' id' ↔ Declares s id' ∨ OutsideAmong [id] s id' := by
    intro s s' found hrun
    unfold resolveReference at hrun
    unfold OutsideAmong Declares
    cases hdeclared : s.declarations.lookup id with
    | some d =>
      rw [hdeclared] at hrun
      cases hrun
      refine ⟨rfl, fun id' => ⟨.inl, fun hd => hd.elim (fun h => h) fun hid => ?_⟩⟩
      rw [List.mem_singleton.1 hid.1, hdeclared]
      rfl
    | none =>
      cases houtside : s.opaqueDeclarations.lookup id with
      | none =>
        rw [hdeclared, houtside] at hrun
        cases hrun
        refine ⟨rfl, fun id' => ⟨.inl, fun hd => hd.elim (fun h => h) fun hid => ?_⟩⟩
        rw [List.mem_singleton.1 hid.1, houtside] at hid
        cases hid.2
      | some symbol =>
        rw [hdeclared, houtside] at hrun
        simp only [map_eq_pure_bind] at hrun
        obtain ⟨d, s₁, hpromote, hpure⟩ := bind_ok_iff.1 hrun
        obtain ⟨-, rfl⟩ := pure_ok_iff.1 hpure
        obtain ⟨g, -, rfl⟩ := promote_ok hpromote
        refine ⟨rfl, fun id' => ?_⟩
        rw [lookup_cons_iff]
        by_cases hid : id' = id
        · rw [if_pos hid, hid, houtside]
          simp
        · rw [if_neg hid]
          simp [hid]
  exact ⟨fun s s' found h => (hrun s s' found h).1, fun s s' found h id' => ((hrun s s' found h).2 id').1,
    fun s s' found h id' => ((hrun s s' found h).2 id').2⟩

theorem resolveAll_looks (ids : List Bytes) : Looks ids ids (ids.mapM resolveReference) := by
  induction ids with
  | nil => exact Looks.pure _
  | cons id ids ih =>
    rw [List.mapM_cons]
    exact (resolveReference_looks id).bind fun _ => ih.map _

theorem resolveReferences_looks (t : Node) :
    Looks (collectReferenceIds t) (collectReferenceIds t) (resolveReferences t) := (resolveAll_looks _).map _

theorem ownCallableTargets_looks (t : Node) :
    Looks (if isReferenceKind (stringOr t.label "kind") then collectReferenceIds t else [])
      (if isReferenceKind (stringOr t.label "kind") then collectReferenceIds t else []) (ownCallableTargets t) := by
  refine Looks.get_bind fun s => ?_
  split
  · rename_i hkind
    have hrun := (resolveReferences_looks t).bind fun references => Looks.get_bind fun s' => Looks.pure
      (appendUnique (appendUnique (appendUnique [] (boundTargets s t.label)) references)
        (callOperators s'.graph (normalizeType (desugaredTypeString t.label))))
    rwa [List.append_nil] at hrun
  · exact (Looks.pure []).bind fun _ => Looks.get_bind fun _ => Looks.pure _

mutual

theorem resolveCallableTargets_looks : ∀ t, Looks (lookedUp t) (lookedUp t) (resolveCallableTargets t)
  | .node value children => by
    unfold resolveCallableTargets lookedUp
    split
    · exact Looks.get_bind fun _ => Looks.pure _
    · refine (ownCallableTargets_looks (.node value children)).bind fun own => ?_
      split
      · exact Looks.pure _
      · exact resolveAllCallableTargets_looks own children

theorem resolveAllCallableTargets_looks (result : List SymbolId) :
    ∀ ts, Looks (allLookedUp ts) (allLookedUp ts) (resolveAllCallableTargets result ts)
  | [] => Looks.pure _
  | t :: ts => by
    unfold resolveAllCallableTargets allLookedUp
    exact (resolveCallableTargets_looks t).bind fun _ => resolveAllCallableTargets_looks _ ts

end

mutual

/-- Whatever is looked up is a reference. -/
theorem lookedUp_subset : ∀ t, lookedUp t ⊆ collectReferenceIds t
  | .node value children => by
    unfold lookedUp
    split
    · exact List.nil_subset _
    · refine List.append_subset.2 ⟨?_, ?_⟩
      · split
        · exact List.Subset.refl _
        · exact List.nil_subset _
      · split
        · exact List.nil_subset _
        · unfold collectReferenceIds
          exact List.Subset.trans (allLookedUp_subset children) (List.subset_append_right _ _)

theorem allLookedUp_subset : ∀ ts, allLookedUp ts ⊆ collectAllReferenceIds ts
  | [] => List.Subset.refl _
  | t :: ts => by
    unfold allLookedUp collectAllReferenceIds
    exact List.append_subset.2 ⟨List.Subset.trans (lookedUp_subset t) (List.subset_append_left _ _),
      List.Subset.trans (allLookedUp_subset ts) (List.subset_append_right _ _)⟩

end

theorem calleeTargets_looks (callee : Node) :
    Looks (collectReferenceIds callee) (collectReferenceIds callee) (calleeTargets callee) := by
  have hvalue : ∀ targets, Looks [] (lookedUp callee)
      (if targets = [] then resolveCallableTargets callee else pure targets) := fun targets => by
    split
    · exact (resolveCallableTargets_looks callee).mono (List.nil_subset _) (List.Subset.refl _)
    · exact (Looks.pure _).mono (List.Subset.refl _) (List.nil_subset _)
  exact ((resolveReferences_looks callee).bind hvalue).mono (List.subset_append_left _ _)
    (List.append_subset.2 ⟨List.Subset.refl _, lookedUp_subset callee⟩)

/-! ### Nodes -/

theorem addUse_looks (i : UseContext) (kind : EdgeKind) (reason : Bytes) (target : SymbolId) :
    Looks [] [] (addUse i kind reason target) := by
  unfold addUse
  split
  · exact Looks.onGraph _
  · split
    · exact Looks.onGraph _
    · exact Looks.pure _

theorem addConstructionEdges_looks (i : UseContext) (type : Bytes) (signature : Option Bytes) (reason : Bytes) :
    Looks [] [] (addConstructionEdges i type signature reason) :=
  Looks.get_bind fun _ => (Looks.forM fun _ _ => addUse_looks _ _ _ _).bind fun _ => Looks.pure _

theorem addFactoryConstructionEdges_looks (i : UseContext) (call callee : Node) :
    Looks [] [] (addFactoryConstructionEdges i call callee) := by
  unfold addFactoryConstructionEdges
  split
  · exact Looks.pure _
  · split
    · exact (addConstructionEdges_looks _ _ _ _).bind fun _ => Looks.pure _
    · refine (addConstructionEdges_looks _ _ _ _).bind fun matched => ?_
      split
      · exact Looks.modify fun _ => ⟨rfl, rfl⟩
      · exact Looks.pure _

theorem addCallableEscapes_looks (i : UseContext) (reason : Bytes) (expression : Node) :
    Looks (lookedUp expression) (lookedUp expression) (addCallableEscapes i reason expression) := by
  have hrun := (resolveCallableTargets_looks expression).bind fun targets =>
    (Looks.forM fun target _ => Looks.onGraph (addEscape target .callableObject ⟨lit "clang_ast", reason⟩ i.caller) :
      Looks [] [] (targets.forM _))
  rwa [List.append_nil] at hrun

theorem addAllCallableEscapes_looks (i : UseContext) (reason : Bytes) (ts : List Node) :
    Looks (allLookedUp ts) (allLookedUp ts) (ts.forM (addCallableEscapes i reason)) := by
  induction ts with
  | nil => exact Looks.pure _
  | cons t ts ih => exact (addCallableEscapes_looks i reason t).bind fun _ => ih

theorem registerCallback_looks (i : UseContext) (evidence : Evidence) (callback : SymbolId) :
    Looks [] [] (registerCallback i evidence callback) := by
  unfold registerCallback
  split
  · exact Looks.onGraph _
  · split
    · exact Looks.onGraph _
    · exact Looks.pure _

/-- An operand that a rule looks at has been looked at before. -/
theorem applyRule_looks (i : UseContext) (targets : List SymbolId) (operands : List Node)
    (rule : CallbackRegistrationRule × Nat) : Looks [] (allLookedUp operands) (applyRule i targets operands rule) := by
  have hmem : ∀ ts : List Node, ∀ t ∈ ts, lookedUp t ⊆ allLookedUp ts := by
    intro ts t ht
    induction ts with
    | nil => cases ht
    | cons u ts ih =>
      unfold allLookedUp
      rcases List.mem_cons.1 ht with rfl | ht
      · exact List.subset_append_left _ _
      · exact List.Subset.trans (ih ht) (List.subset_append_right _ _)
  refine Looks.get_bind fun s => ?_
  simp only []
  split
  · show Looks ([] ++ []) ([] ++ allLookedUp operands) _
    refine Looks.bind (Looks.modify fun _ => ⟨rfl, rfl⟩) fun _ => ?_
    split
    · exact Looks.throw _
    · rename_i argument hargument
      refine ((resolveCallableTargets_looks argument).bind fun callbacks =>
        (?_ : Looks [] [] (if callbacks = [] then _ else _))).mono (List.nil_subset _)
        (List.append_subset.2 ⟨hmem _ _ (List.mem_of_getElem? hargument), List.nil_subset _⟩)
      split
      · exact Looks.throw _
      · exact Looks.forM fun _ _ => registerCallback_looks _ _ _
  · exact (Looks.pure _).mono (List.Subset.refl _) (List.nil_subset _)

theorem recordCall_looks (tu : UnitContext) (i : UseContext) (call callee : Node) (arguments : List Node) :
    Looks (collectReferenceIds callee ++ allLookedUp arguments) (collectReferenceIds callee ++ allLookedUp arguments)
      (recordCall tu i call callee arguments) := by
  -- the rules look at the operands once more, which is nothing new
  have hoperands : allLookedUp (callee :: arguments) ⊆ collectReferenceIds callee ++ allLookedUp arguments := by
    rw [allLookedUp]
    exact List.append_subset.2 ⟨List.Subset.trans (lookedUp_subset callee) (List.subset_append_left _ _),
      List.subset_append_right _ _⟩
  have hrun : Looks (collectReferenceIds callee ++ ([] ++ ([] ++ (allLookedUp arguments ++ []))))
      (collectReferenceIds callee ++ ([] ++ ([] ++ (allLookedUp arguments ++ allLookedUp (callee :: arguments)))))
      (recordCall tu i call callee arguments) :=
    (calleeTargets_looks callee).bind fun targets => (Looks.forM fun _ _ => addUse_looks i _ _ _).bind fun _ =>
      (addFactoryConstructionEdges_looks i call callee).bind fun _ =>
      (addAllCallableEscapes_looks i _ arguments).bind fun _ =>
      Looks.forM fun rule _ => applyRule_looks i targets (callee :: arguments) rule
  simp only [List.nil_append, List.append_nil] at hrun
  exact hrun.mono (List.Subset.refl _) (List.append_subset.2 ⟨List.subset_append_left _ _,
    List.append_subset.2 ⟨List.subset_append_right _ _, hoperands⟩⟩)

theorem bindVariable_looks (t : Node) : Looks (allLookedUp t.children) (allLookedUp t.children) (bindVariable t) := by
  have hbind : ∀ targets, Looks [] [] (if targets ≠ [] then
      modify fun s => { s with callableBindings := (stringOr t.label "id", targets) :: s.callableBindings }
      else pure () : CollectM Unit) := fun targets => by
    split
    · exact Looks.modify fun _ => ⟨rfl, rfl⟩
    · exact Looks.pure _
  have hrun := (resolveAllCallableTargets_looks [] t.children).bind hbind
  rw [List.append_nil] at hrun
  exact hrun

theorem unbindVariable_looks (t : Node) : Looks [] [] (unbindVariable t) := by
  unfold unbindVariable
  split
  · exact Looks.pure _
  · exact Looks.modify fun _ => ⟨rfl, rfl⟩

theorem recordConstruction_looks (i : UseContext) (t : Node) :
    Looks (if containsText (lit "std::function<") (normalizeType (desugaredTypeString t.label)) then
        allLookedUp t.children else [])
      (if containsText (lit "std::function<") (normalizeType (desugaredTypeString t.label)) then
        allLookedUp t.children else []) (recordConstruction i t) := by
  generalize hstored : containsText (lit "std::function<") (normalizeType (desugaredTypeString t.label)) = stored
  have hconstruction := addConstructionEdges_looks i (desugaredTypeString t.label)
    (if typeString t.label "ctorType" = [] then none else some (typeString t.label "ctorType"))
    (lit "constructor or destructor use")
  have hescapes := addAllCallableEscapes_looks i (lit "callable value stored in std::function") t.children
  unfold recordConstruction
  dsimp only
  rw [hstored]
  cases stored with
  | true => exact hconstruction.bind fun _ => hescapes
  | false => exact hconstruction.bind fun _ => Looks.pure _

theorem recordReference_looks (i : UseContext) (t : Node) :
    Looks (collectReferenceIds t) (collectReferenceIds t) (recordReference i t) := by
  have hescapes : ∀ targets : List SymbolId, Looks [] [] (targets.forM fun target => onGraph (addEscape target .addressTaken
      ⟨lit "clang_ast", lit "function referenced outside a callee position"⟩ i.caller)) :=
    fun targets => Looks.forM fun _ _ => Looks.onGraph _
  have hrun := (resolveReferences_looks t).bind hescapes
  rw [List.append_nil] at hrun
  exact hrun

theorem recordUses_looks (tu : UnitContext) (i : UseContext) (t : Node) :
    Looks (lookedUpAt i t) (lookedUpAt i t) (recordUses tu i t) := by
  unfold recordUses lookedUpAt
  split
  · exact bindVariable_looks t
  split
  · exact unbindVariable_looks t
  split
  · cases t.children with
    | nil => exact Looks.pure _
    | cons callee arguments => exact recordCall_looks tu i t callee arguments
  split
  · exact recordConstruction_looks i t
  split
  · exact recordReference_looks i t
  · exact Looks.pure _

/-! ## The way of the walk -/

/-- The walk has started at `s₀`, has come this way and is at `s`. -/
structure Along (s₀ : TranslationUnitState) (looked : List Bytes) (s : TranslationUnitState) : Prop where
  steady : Steady s₀ s
  looked : ∀ id, Declares s id ↔ Declares s₀ id ∨ OutsideAmong looked s₀ id

section Along
variable {s₀ s s' : TranslationUnitState} {looked : List Bytes}

theorem Along.start (hs : Steady s s) : Along s [] s :=
  ⟨hs, fun _ => ⟨.inl, fun h => h.resolve_right fun hid => List.not_mem_nil hid.1⟩⟩

theorem Along.moves (h : Along s₀ looked s) {α : Type} {m : CollectM α} {ids : List Bytes} (hm : Looks ids ids m)
    (hsteady : Steady s₀ s') {a : α} (hrun : m s = .ok a s') : Along s₀ (looked ++ ids) s' := by
  refine ⟨hsteady, fun id => ⟨fun hd => ?_, fun hd => ?_⟩⟩
  · rcases hm.within _ _ _ hrun id hd with hd | ⟨hid, hout⟩
    · exact ((h.looked id).1 hd).imp_right fun hid => ⟨List.mem_append.2 (.inl hid.1), hid.2⟩
    · exact .inr ⟨List.mem_append.2 (.inr hid), h.steady.outside ▸ hout⟩
  · refine hm.all _ _ _ hrun id ?_
    rcases hd with hd | ⟨hid, hout⟩
    · exact .inl ((h.looked id).2 (.inl hd))
    · rcases List.mem_append.1 hid with hid | hid
      · exact .inl ((h.looked id).2 (.inr ⟨hid, hout⟩))
      · exact .inr ⟨hid, h.steady.outside ▸ hout⟩

theorem holds_iff {k : Bytes} {p : Symbol → Bool} :
    holds s k p = true ↔ ∃ symbol ∈ s.graph.symbols, symbol.key = k ∧ p symbol = true := by
  unfold holds
  simp only [List.any_eq_true, Bool.and_eq_true, beq_iff_eq]

/-- The body of a function is entered if the function has a symbol in the project. -/
theorem Steady.body_iff (h : Steady s₀ s) {d : SymbolId} (hd : d < s.graph.symbols.length) :
    hasIndexedBody (s.graph.symbol d).scope = true ↔
      holds s₀ (s.graph.keyOf d) (fun symbol => hasIndexedBody symbol.scope) = true := by
  rw [holds_iff]
  constructor
  · exact fun hbody => h.bodies _ (symbol_mem hd) hbody
  · rintro ⟨symbol, hsymbol, hkey, hbody⟩
    obtain ⟨merged, hmerged, hsettles⟩ := h.settled symbol hsymbol
    -- keys are unique, so what the symbol has become is the one at `d`
    have hsame : merged = s.graph.symbol d := by
      have hfirst := h.inv.record_iff.2 ⟨hmerged, hsettles.key.trans hkey⟩
      have hsecond := h.inv.record_iff.2 ⟨symbol_mem hd, rfl⟩
      exact Option.some.inj (hfirst.symm.trans hsecond)
    exact hsame ▸ hsettles.body hbody

theorem outside_of_denoted {id : Bytes} {k : Bytes} (h : denotedKey s id = some k) (hnot : ¬ Declares s id) :
    (s.opaqueDeclarations.lookup id).isSome = true := by
  cases hd : s.declarations.lookup id with
  | some d => exact absurd (show Declares s id by unfold Declares; rw [hd]; rfl) hnot
  | none =>
    rw [denotedKey_none hd] at h
    cases hout : s.opaqueDeclarations.lookup id with
    | some symbol => rfl
    | none =>
      rw [hout] at h
      cases h

/-- What the walk enters can be told from its way. -/
theorem enterNode_open (tu : UnitContext) {w : Way} (h : Along s₀ w.looked s) (node : Value) (i : UseContext) :
    (enterNode tu s node i).map UseContext.anonymous = openNode s₀ tu w node i.anonymous := by
  have hcaller : i.anonymous.caller = none ↔ i.caller = none := Option.map_eq_none_iff
  have hdeclares : w.declares s₀ (stringOr node "id") = true ↔
      Declares s₀ (stringOr node "id") ∨ stringOr node "id" ∈ w.looked := by
    unfold Way.declares Declares
    rw [Bool.or_eq_true, List.contains_iff_mem]
  unfold enterNode openNode
  split
  · cases hd : s.declarations.lookup (stringOr node "id") with
    | some d =>
      -- declared by now: from the start, or since it was looked up
      have hdeclared : Declares s (stringOr node "id") := by
        unfold Declares
        rw [hd]
        rfl
      have hknown : w.declares s₀ (stringOr node "id") = true :=
        hdeclares.2 (((h.looked _).1 hdeclared).imp_right And.left)
      simp only [hknown, true_and, ← h.steady.denoted, denotedKey_some hd, Option.any_some,
        ← h.steady.body_iff (h.steady.declared hd)]
      split <;> rfl
    | none =>
      -- if it denotes a function at all, that one is outside the project and not looked up yet
      have hnot : ¬ Declares s (stringOr node "id") := by
        unfold Declares
        rw [hd]
        exact Bool.false_ne_true
      rw [if_neg]
      · rfl
      rintro ⟨hknown, hbody⟩
      obtain ⟨k, hk, -⟩ := (Option.any_eq_true _ _).1 hbody
      refine hnot ((h.looked _).2 ?_)
      by_cases hd₀ : Declares s₀ (stringOr node "id")
      · exact .inl hd₀
      · exact .inr ⟨(hdeclares.1 hknown).resolve_left hd₀, outside_of_denoted hk hd₀⟩
  · have hsame : (stringOr node "kind" = lit "VarDecl" ∧ i.anonymous.fileContext = true ∧ i.anonymous.caller = none) ↔
        (stringOr node "kind" = lit "VarDecl" ∧ i.fileContext = true ∧ i.caller = none) :=
      and_congr_right fun _ => and_congr_right fun _ => hcaller
    by_cases hvariable : stringOr node "kind" = lit "VarDecl" ∧ i.fileContext = true ∧ i.caller = none
    · rw [if_pos hvariable, if_pos (hsame.2 hvariable)]
      split <;> rename_i hbody
      · exact (if_pos hbody).symm
      · exact (if_neg hbody).symm
    · rw [if_neg hvariable, if_neg (hvariable ∘ hsame.1)]
      rfl

/-- Which function is the caller changes neither what is seen nor what is looked up. -/
theorem inCode_anonymous (i : UseContext) : i.anonymous.inCode = i.inCode := by
  unfold UseContext.inCode UseContext.anonymous
  rw [Option.isSome_map]

theorem sees_anonymous (s : TranslationUnitState) (key : Bytes) (sight : Sight) (i : UseContext) (t : Node) :
    sees s key sight i.anonymous t = sees s key sight i t := by
  unfold sees
  rw [inCode_anonymous]
  rfl

theorem childUseContext_anonymous (tu : UnitContext) (node : Value) (i : UseContext) :
    (fun k => (childUseContext tu node i k).anonymous) = childUseContext tu node i.anonymous := by
  funext k
  unfold childUseContext
  split <;> rfl

/-- A visit stops where the way does, or goes on along it. -/
theorem visitUse_along {tu : UnitContext} {w : Way} (h : Along s₀ w.looked s) {t : Node}
    {i : UseContext} {below : Option (Nat → UseContext)} (hrun : visitUse tu t i s = .ok below s') :
    (openNode s₀ tu w t.label i.anonymous = none ∧ below = none ∧ s' = s) ∨
      ∃ inside, openNode s₀ tu w t.label i.anonymous = some inside.anonymous ∧ recordUses tu inside t s = .ok () s' ∧
        below = some (childUseContext tu t.label inside) ∧ Along s₀ (w.looked ++ lookedUpAt inside t) s' := by
  rcases visitUse_ok hrun with ⟨hnone, hbelow, hsame⟩ | ⟨inside, henter, hrecord, hbelow⟩
  · exact .inl ⟨by rw [← enterNode_open tu h, hnone]; rfl, hbelow, hsame⟩
  · refine .inr ⟨inside, by rw [← enterNode_open tu h, henter]; rfl, hrecord, hbelow, ?_⟩
    exact h.moves (recordUses_looks tu inside t) ((recordUses_keeps (steady_steps s₀) inside t).ok h.steady hrecord)
      hrecord

end Along

end Ast

end CxxDead
