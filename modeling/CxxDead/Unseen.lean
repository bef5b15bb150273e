import CxxDead.Entered
import CxxDead.Lib.Tables
import CxxDead.Lib.Triple
/-!
# What the walk over uses does not see

A walk that does not come upon a function records nothing of it, whatever it records of
others: the symbols at hand are never the function.

- `collectUses_clear`: the walk over a tree in which the function is unseen leaves it untouched.
-/

namespace CxxDead

open Lib Json CxxDead.Graph

namespace Ast

/-! ## What stays true of names -/

/-- `symbol` has this part from a symbol with its key that was known before. -/
def HasPart (s₀ : TranslationUnitState) {α : Type} (part : Symbol → α) (symbol : Symbol) : Prop :=
  ∃ known ∈ knownSymbols s₀, known.key = symbol.key ∧ part known = part symbol

/-- Merging takes each part from one of two symbols. -/
structure HasParts (s₀ : TranslationUnitState) (symbol : Symbol) : Prop where
  name : HasPart s₀ (·.name) symbol
  kind : HasPart s₀ (·.kind) symbol
  className : HasPart s₀ (·.className) symbol
  signature : HasPart s₀ (·.signature) symbol
  scope : HasPart s₀ (·.scope) symbol

section Parts
variable {s₀ : TranslationUnitState} {symbol target source : Symbol}

theorem HasParts.of_known (h : symbol ∈ knownSymbols s₀) : HasParts s₀ symbol :=
  ⟨⟨_, h, rfl, rfl⟩, ⟨_, h, rfl, rfl⟩, ⟨_, h, rfl, rfl⟩, ⟨_, h, rfl, rfl⟩, ⟨_, h, rfl, rfl⟩⟩

theorem HasPart.knows {α : Type} {part : Symbol → α} (h : HasPart s₀ part symbol) {p : α → Bool}
    (hp : p (part symbol) = true) : knows s₀ symbol.key (fun known => p (part known)) = true := by
  obtain ⟨known, hknown, hkey, hpart⟩ := h
  refine List.any_eq_true.2 ⟨known, hknown, Bool.and_eq_true_iff.2 ⟨beq_iff_eq.2 hkey, ?_⟩⟩
  show p (part known) = true
  rw [hpart]
  exact hp

theorem HasPart.either {α : Type} {part : Symbol → α} (h : HasPart s₀ part target) (h' : HasPart s₀ part source)
    (hkey : source.key = target.key) {merged : Symbol} (hmerged : merged.key = target.key)
    (hpart : part merged = part target ∨ part merged = part source) : HasPart s₀ part merged := by
  rcases hpart with hpart | hpart
  · obtain ⟨known, hknown, hk, hp⟩ := h
    exact ⟨known, hknown, hk.trans hmerged.symm, hp.trans hpart.symm⟩
  · obtain ⟨known, hknown, hk, hp⟩ := h'
    exact ⟨known, hknown, hk.trans (hkey.trans hmerged.symm), hp.trans hpart.symm⟩

theorem HasParts.merge (h : HasParts s₀ target) (h' : HasParts s₀ source) (hkey : source.key = target.key) :
    HasParts s₀ (mergeFields target source) := by
  have hmerged := mergeFields_key target source
  refine ⟨h.name.either h'.name hkey hmerged (.inl rfl), h.kind.either h'.kind hkey hmerged (.inl rfl),
    h.className.either h'.className hkey hmerged ?_, h.signature.either h'.signature hkey hmerged ?_,
    h.scope.either h'.scope hkey hmerged (mergeFields_scope target source)⟩
  · by_cases hne : target.className = []
    · exact .inr (if_pos hne)
    · exact .inl (if_neg hne)
  · unfold mergeFields
    dsimp only
    split
    · exact .inr rfl
    · exact .inl rfl

end Parts

/-- No fact about the function with this key has been added. -/
structure NothingNew (key : Bytes) (g g' : Graph) : Prop where
  edges : ∀ e ∈ g'.edges, g'.keyOf e.to = key → e ∈ g.edges
  roots : ∀ r ∈ g'.roots, g'.keyOf r.symbol = key → r ∈ g.roots
  escapes : ∀ e ∈ g'.escapes, g'.keyOf e.symbol = key → e ∈ g.escapes

theorem NothingNew.extends {key : Bytes} {g₀ g g' : Graph} (h : NothingNew key g₀ g) (hg : g.Inv)
    (hextends : Extends g g') : NothingNew key g₀ g' := by
  refine ⟨fun e he hto => ?_, fun r hr hto => ?_, fun e he hto => ?_⟩
  · rw [hextends.edges_eq] at he
    rw [hextends.keyOf_eq _ (hg.ids.edges e he).2] at hto
    exact h.edges e he hto
  · rw [hextends.roots_eq] at hr
    rw [hextends.keyOf_eq _ (hg.ids.roots r hr)] at hto
    exact h.roots r hr hto
  · rw [hextends.escapes_eq] at he
    rw [hextends.keyOf_eq _ (hg.ids.escapes e he).1] at hto
    exact h.escapes e he hto

/-- A symbol other than the one with this key. -/
def Avoids (key : Bytes) (s : TranslationUnitState) (d : SymbolId) : Prop :=
  d < s.graph.symbols.length ∧ s.graph.keyOf d ≠ key

/-- What holds on the way of a walk that has started at `s₀` and has not come upon the function, of which only
the variables in `bound` may hold something. -/
structure Untouched (key : Bytes) (s₀ : TranslationUnitState) (bound : List Bytes) (s : TranslationUnitState) : Prop
    extends Steady s₀ s where
  parts : ∀ symbol ∈ s.graph.symbols, HasParts s₀ symbol
  nothingNew : NothingNew key s₀.graph s.graph
  bindings : ∀ {v targets}, s.callableBindings.lookup v = some targets → v ∉ bound → ∀ d ∈ targets, Avoids key s d

/-- The symbols at hand are not the function. -/
def Clear (key : Bytes) (s₀ : TranslationUnitState) (bound : List Bytes) (l : List SymbolId)
    (s : TranslationUnitState) : Prop :=
  Untouched key s₀ bound s ∧ ∀ d ∈ l, Avoids key s d

section Steps
variable {tu : UnitContext} {key : Bytes} {s₀ s s' : TranslationUnitState} {bound : List Bytes} {l l' : List SymbolId}

theorem Clear.mono (h : Clear key s₀ bound l s) (hl : ∀ d ∈ l', d ∈ l) : Clear key s₀ bound l' s :=
  ⟨h.1, fun d hd => h.2 d (hl d hd)⟩

theorem Avoids.extends {d : SymbolId} (h : Avoids key s d) (hs : Extends s.graph s'.graph) : Avoids key s' d :=
  ⟨Nat.lt_of_lt_of_le h.1 hs.length_le, by rw [hs.keyOf_eq d h.1]; exact h.2⟩

/-- Adding a known symbol leaves every symbol with parts that were known. -/
theorem addOrMergeSymbol_parts {g g' : Graph} (hg : g.Inv) (hparts : ∀ other ∈ g.symbols, HasParts s₀ other)
    {symbol : Symbol} (hknown : HasParts s₀ symbol) {d : SymbolId} (hrun : addOrMergeSymbol symbol g = .ok d g') :
    ∀ other ∈ g'.symbols, HasParts s₀ other := by
  intro other hother
  have hg' : g'.Inv := Keeps.ok (addOrMergeSymbol_inv symbol) hg hrun
  obtain ⟨-, -, -, -, hrecord⟩ := addOrMergeSymbol_spec hg hrun
  have hown := hg'.record_iff.2 ⟨hother, rfl⟩
  rw [hrecord] at hown
  split at hown
  · rename_i hsame
    cases htarget : g.record other.key with
    | none =>
      rw [htarget] at hown
      cases hown
      exact hknown
    | some target =>
      rw [htarget] at hown
      cases hown
      obtain ⟨hmem, htargetKey⟩ := hg.record_iff.1 htarget
      exact (hparts target hmem).merge hknown (htargetKey.trans hsame).symm
  · exact hparts other (hg.record_iff.1 hown).1

/-- An outside declaration becomes a symbol with the key that its id denotes. -/
theorem promote_untouched (h : Untouched key s₀ bound s) {id : Bytes} {symbol : Symbol}
    (hnew : s.declarations.lookup id = none) (houtside : s.opaqueDeclarations.lookup id = some symbol) {d : SymbolId}
    (hrun : promote id symbol s = .ok d s') : Untouched key s₀ bound s' ∧ Extends s.graph s'.graph ∧
      d < s'.graph.symbols.length ∧ s'.graph.keyOf d = symbol.key := by
  obtain ⟨hsteady, hextends, hd, hkey⟩ := promote_steady h.toSteady hnew houtside hrun
  obtain ⟨g, hgraph, rfl⟩ := promote_ok hrun
  have hknown : HasParts s₀ symbol := .of_known <| List.mem_append.2 <| .inr <| List.mem_map.2
    ⟨(id, symbol), mem_of_lookup (h.outside ▸ houtside), rfl⟩
  exact ⟨⟨hsteady, addOrMergeSymbol_parts h.inv h.parts hknown hgraph, h.nothingNew.extends h.inv hextends,
    fun hv hbound d' hd' => (h.bindings hv hbound d' hd').extends hextends⟩, hextends, hd, hkey⟩

/-! ## What is found is clear -/

/-- What has been found counts if `c` is false. -/
def counted (c : Bool) (found : List SymbolId) : List SymbolId := if c then [] else found

/-- From a clear state `m` comes to a clear state; the symbols that it finds are clear too, if `c` is false. -/
def Finds (key : Bytes) (s₀ : TranslationUnitState) (bound : List Bytes) (c : Bool) (m : CollectM (List SymbolId)) : Prop :=
  ∀ l, Triple (Clear key s₀ bound l) m (fun found => Clear key s₀ bound (counted c found ++ l)) fun _ _ => True

theorem Clear.append {found : List SymbolId} (h : Clear key s₀ bound l s) (hfound : ∀ d ∈ found, Avoids key s d) :
    Clear key s₀ bound (found ++ l) s :=
  ⟨h.1, fun d hd => (List.mem_append.1 hd).elim (hfound d) (h.2 d)⟩

theorem Clear.found {c : Bool} {found : List SymbolId} (h : Clear key s₀ bound l s)
    (hfound : c = false → ∀ d ∈ found, Avoids key s d) : Clear key s₀ bound (counted c found ++ l) s := by
  refine h.append fun d hd => ?_
  cases c with
  | true => cases hd
  | false => exact hfound rfl d hd

theorem Clear.rest {c : Bool} {found : List SymbolId} (h : Clear key s₀ bound (counted c found ++ l) s) :
    Clear key s₀ bound l s := h.mono fun _ hd => List.mem_append.2 (.inr hd)

theorem Clear.avoids {c : Bool} {found : List SymbolId} (h : Clear key s₀ bound (counted c found ++ l) s)
    (hc : c = false) : ∀ d ∈ found, Avoids key s d := by
  subst hc
  exact fun d hd => h.2 d (List.mem_append.2 (.inl hd))

theorem Clear.among {c : Bool} {found out : List SymbolId} (h : Clear key s₀ bound (counted c found ++ l) s)
    (hout : ∀ d ∈ out, d ∈ found) : Clear key s₀ bound (counted c out ++ l) s :=
  h.rest.found fun hc d hd => h.avoids hc d (hout d hd)

/-- Two searches, one after the other. -/
theorem Clear.join {c c' : Bool} {found found' out : List SymbolId}
    (h : Clear key s₀ bound (counted c' found' ++ (counted c found ++ l)) s)
    (hout : ∀ d ∈ out, d ∈ found ∨ d ∈ found') : Clear key s₀ bound (counted (c || c') out ++ l) s := by
  refine h.rest.rest.found fun hc d hd => ?_
  obtain ⟨hfirst, hsecond⟩ := Bool.or_eq_false_iff.1 hc
  rcases hout d hd with hd | hd
  · exact h.rest.avoids hfirst d hd
  · exact h.avoids hsecond d hd

/-- The state is read. -/
theorem Clear.get_bind {α : Type} {f : TranslationUnitState → CollectM α} {Q : α → TranslationUnitState → Prop}
    {E : Exception → TranslationUnitState → Prop}
    (h : ∀ s, Clear key s₀ bound l s → ∃ l', Clear key s₀ bound l' s ∧ Triple (Clear key s₀ bound l') (f s) Q E) :
    Triple (Clear key s₀ bound l) (get >>= f) Q E :=
  Triple.get_bind fun s hs => by
    obtain ⟨l', hclear, hf⟩ := h s hs
    exact hf.imp (fun t ht => ht ▸ hclear) (fun _ _ => id) fun _ _ => id

theorem resolveReference_clear (l : List SymbolId) (id : Bytes) :
    Triple (Clear key s₀ bound l) (resolveReference id)
      (fun found => Clear key s₀ bound (counted (denotes s₀ key id) found.toList ++ l)) fun _ _ => True := by
  intro s hs
  -- an id denotes the same key before and after it is promoted
  have hdenotes : ∀ k, denotedKey s id = some k → denotes s₀ key id = false → k ≠ key := by
    rintro _ hk hnot rfl
    unfold denotes at hnot
    rw [← hs.1.denoted id, hk, beq_self_eq_true] at hnot
    cases hnot
  unfold resolveReference
  cases hdeclared : s.declarations.lookup id with
  | some d =>
    refine hs.found fun hnot e he => ?_
    cases Option.mem_toList.1 he
    exact ⟨hs.1.declared hdeclared, hdenotes _ (by unfold denotedKey; rw [hdeclared]) hnot⟩
  | none =>
    cases houtside : s.opaqueDeclarations.lookup id with
    | none => exact hs.found fun _ _ hd => nomatch hd
    | some symbol =>
      simp only [map_eq_pure_bind]
      cases hrun : promote id symbol s with
      | error e s' =>
        rw [bind_of_error hrun]
        trivial
      | ok d s' =>
        obtain ⟨huntouched, hextends, hd, hkey⟩ := promote_untouched hs.1 hdeclared houtside hrun
        have hclear : Clear key s₀ bound l s' := ⟨huntouched, fun d hd => (hs.2 d hd).extends hextends⟩
        rw [bind_of_ok hrun]
        refine hclear.found fun hnot e he => ?_
        cases Option.mem_toList.1 he
        refine ⟨hd, ?_⟩
        rw [hkey]
        exact hdenotes _ (by unfold denotedKey; rw [hdeclared, houtside]; rfl) hnot

theorem resolveAll_clear (ids : List Bytes) (l : List SymbolId) :
    Triple (Clear key s₀ bound l) (ids.mapM resolveReference)
      (fun found => Clear key s₀ bound (counted (ids.any (denotes s₀ key)) found.reduceOption ++ l)) fun _ _ => True := by
  induction ids generalizing l with
  | nil => exact Triple.pure fun s hs => hs
  | cons id ids ih =>
    rw [List.mapM_cons]
    refine (resolveReference_clear l id).bind fun found => (ih _).bind fun more => Triple.pure fun s hs => ?_
    refine hs.join fun d hd => ?_
    rw [List.reduceOption_mem_iff, List.mem_cons] at hd
    rcases hd with hd | hd
    · exact .inl (Option.mem_toList.2 hd.symm)
    · exact .inr (List.reduceOption_mem_iff.2 hd)

theorem mem_appendUnique_nil {targets : List SymbolId} {d : SymbolId} : d ∈ appendUnique [] targets ↔ d ∈ targets :=
  mem_appendUnique.trans (or_iff_right List.not_mem_nil)

theorem resolveReferences_finds (expression : Node) :
    Finds key s₀ bound (refersTo s₀ key expression) (resolveReferences expression) := by
  intro l
  exact (resolveAll_clear _ l).bind fun found => Triple.pure fun s hs => hs.among fun d => mem_appendUnique_nil.1

theorem known_of_denoted {id k : Bytes} (h : denotedKey s id = some k) : Known s id := by
  by_cases hd : Declares s id
  · exact .inl hd
  · exact .inr (outside_of_denoted h hd)

/-- No target is found where no function is known, and only there. -/
theorem resolveReferences_nothing (hs : Steady s₀ s) {t : Node} (hrun : resolveReferences t s = .ok [] s') :
    refersToNothing s₀ t = true := by
  unfold refersToNothing
  rw [Bool.not_eq_true']
  refine Bool.eq_false_iff.2 fun hany => ?_
  obtain ⟨id, hid, hdenotes⟩ := List.any_eq_true.1 hany
  obtain ⟨k, hk⟩ := Option.isSome_iff_exists.1 hdenotes
  obtain ⟨d, hd, -⟩ := resolveReferences_known hrun hid (known_of_denoted ((hs.denoted id).trans hk))
  exact List.not_mem_nil hd

theorem resolveReferences_clear (t : Node) (l : List SymbolId) :
    Triple (Clear key s₀ bound l) (resolveReferences t)
      (fun targets s => Clear key s₀ bound (counted (refersTo s₀ key t) targets ++ l) s ∧
        (targets = [] → refersToNothing s₀ t = true)) fun _ _ => True := by
  intro s hs
  have hclear := resolveReferences_finds t l s hs
  cases hrun : resolveReferences t s with
  | error e s' => trivial
  | ok targets s' =>
    rw [hrun] at hclear
    refine ⟨hclear, ?_⟩
    rintro rfl
    exact resolveReferences_nothing hs.1.toSteady hrun

/-! ### Types -/

theorem callOperators_avoid (h : Untouched key s₀ bound s) (type : Bytes) (hno : operates s₀ key type = false) :
    ∀ d ∈ callOperators s.graph type, Avoids key s d := by
  intro d hd
  unfold callOperators at hd
  split at hd
  · cases hd
  · rename_i htype
    obtain ⟨hlt, hmatch⟩ := List.mem_filter.1 hd
    obtain ⟨hname, hclass⟩ := Bool.and_eq_true_iff.1 hmatch
    refine ⟨List.mem_range.1 hlt, fun hkey => ?_⟩
    -- the name and the class may come from two declarations with this key
    have hparts := h.parts _ (symbol_mem (List.mem_range.1 hlt))
    have hnamed := hparts.name.knows (p := (· == lit "operator()")) hname
    have howned := hparts.className.knows (p := (namesEquivalent · type)) hclass
    change knows s₀ (s.graph.keyOf d) _ = true at hnamed howned
    rw [hkey] at hnamed howned
    unfold operates at hno
    rw [hnamed, howned, bne_iff_ne.2 htype] at hno
    cases hno

theorem constructionTargets_avoid (h : Untouched key s₀ bound s) {type : Bytes} {signature : Option Bytes}
    (hno : constructs s₀ key type signature = false) :
    ∀ d ∈ constructionTargets s.graph type signature, Avoids key s d := by
  intro d hd
  unfold constructionTargets at hd
  split at hd
  · cases hd
  · rename_i htype
    obtain ⟨hlt, hmatch⟩ := List.mem_filter.1 hd
    obtain ⟨hclass, hkind⟩ := Bool.and_eq_true_iff.1 hmatch
    refine ⟨List.mem_range.1 hlt, fun hkey => ?_⟩
    have hparts := h.parts _ (symbol_mem (List.mem_range.1 hlt))
    have howned := hparts.className.knows (p := (namesEquivalent · type)) hclass
    change knows s₀ (s.graph.keyOf d) _ = true at howned
    rw [hkey] at howned
    unfold constructs at hno
    rw [howned, bne_iff_ne.2 htype, Bool.true_and, Bool.true_and] at hno
    obtain ⟨hnoConstructor, hnoDestructor⟩ := Bool.or_eq_false_iff.1 hno
    rcases Bool.or_eq_true_iff.1 hkind with hconstructor | hdestructor
    · obtain ⟨hconstructor, hsignature⟩ := Bool.and_eq_true_iff.1 hconstructor
      have hkinded := hparts.kind.knows (p := (· == .constructor)) hconstructor
      have hsigned := hparts.signature.knows (p := fun x => signature.all (x == ·)) hsignature
      change knows s₀ (s.graph.keyOf d) _ = true at hkinded hsigned
      rw [hkey] at hkinded hsigned
      rw [hkinded, hsigned] at hnoConstructor
      cases hnoConstructor
    · have hkinded := hparts.kind.knows (p := (· == .destructor)) hdestructor
      change knows s₀ (s.graph.keyOf d) _ = true at hkinded
      rw [hkey, hnoDestructor] at hkinded
      cases hkinded

/-! ### Callable objects -/

mutual

theorem collectLambdaOperators_declared (declarations : List (Bytes × SymbolId)) :
    ∀ t, ∀ d ∈ collectLambdaOperators declarations t, ∃ id ∈ lambdaOperatorIds t, declarations.lookup id = some d
  | .node value children => by
    unfold collectLambdaOperators lambdaOperatorIds
    split
    · intro d hd
      exact ⟨_, List.mem_singleton_self _, Option.mem_toList.1 hd⟩
    · exact collectAllLambdaOperators_declared declarations children

theorem collectAllLambdaOperators_declared (declarations : List (Bytes × SymbolId)) :
    ∀ ts, ∀ d ∈ collectAllLambdaOperators declarations ts, ∃ id ∈ allLambdaOperatorIds ts, declarations.lookup id = some d
  | [] => fun _ hd => nomatch hd
  | t :: ts => by
    unfold collectAllLambdaOperators allLambdaOperatorIds
    intro d hd
    rcases List.mem_append.1 hd with hd | hd
    · obtain ⟨id, hid, hlookup⟩ := collectLambdaOperators_declared declarations t d hd
      exact ⟨id, List.mem_append.2 (.inl hid), hlookup⟩
    · obtain ⟨id, hid, hlookup⟩ := collectAllLambdaOperators_declared declarations ts d hd
      exact ⟨id, List.mem_append.2 (.inr hid), hlookup⟩

end

theorem lambdaOperators_avoid (h : Untouched key s₀ bound s) {t : Node}
    (hno : (lambdaOperatorIds t).any (denotes s₀ key) = false) :
    ∀ d ∈ collectLambdaOperators s.declarations t, Avoids key s d := by
  intro d hd
  obtain ⟨id, hid, hlookup⟩ := collectLambdaOperators_declared s.declarations t d hd
  refine ⟨h.declared hlookup, fun hkey => ?_⟩
  have hdenoted := h.denoted id
  unfold denotedKey at hdenoted
  rw [hlookup] at hdenoted
  have hnot := List.any_eq_false.1 hno id hid
  unfold denotes at hnot
  rw [show denotedKey s₀ id = some (s.graph.keyOf d) from hdenoted.symm, hkey, beq_self_eq_true] at hnot
  exact hnot rfl

theorem boundTargets_avoid (h : Untouched key s₀ bound s) (node : Value)
    (hno : (ownVariableId node).any (possible s₀ key tu bound).bound = false) :
    ∀ d ∈ boundTargets s node, Avoids key s d := by
  intro d hd
  unfold boundTargets at hd
  split at hd
  · rename_i id hid
    rw [hid, Option.any_some] at hno
    have hfree : id ∉ bound := fun hmem => by
      rw [show (possible s₀ key tu bound).bound id = true from List.contains_iff_mem.2 hmem] at hno
      cases hno
    cases hbound : s.callableBindings.lookup id with
    | none =>
      rw [hbound] at hd
      cases hd
    | some targets =>
      rw [hbound] at hd
      exact h.bindings hbound hfree d hd
  · cases hd

-- what is seen by a type is never looked into again
attribute [local irreducible] operates constructs

theorem ownCallableTargets_finds (tu : UnitContext) (t : Node) :
    Finds key s₀ bound ((ownVariableId t.label).any (possible s₀ key tu bound).bound ||
      (isReferenceKind (stringOr t.label "kind") && refersTo s₀ key t) ||
      (possible s₀ key tu bound).operates (normalizeType (desugaredTypeString t.label))) (ownCallableTargets t) := by
  intro l
  show Triple _ _ (fun found => Clear key s₀ bound (counted (_ || operates s₀ key _) found ++ l)) _
  unfold ownCallableTargets
  generalize hvariable : (ownVariableId t.label).any (possible s₀ key tu bound).bound = fromVariable
  refine Clear.get_bind fun s hs => ?_
  have hbound : fromVariable = false → ∀ d ∈ appendUnique [] (boundTargets s t.label), Avoids key s d := fun hno d hd =>
    boundTargets_avoid hs.1 t.label (hvariable.trans hno) d (mem_appendUnique_nil.1 hd)
  refine ⟨_, hs.found hbound, ?_⟩
  have hlast : ∀ (c : Bool) (references : List SymbolId),
      Triple
        (Clear key s₀ bound (counted c references ++ (counted fromVariable (appendUnique [] (boundTargets s t.label)) ++ l)))
        (get >>= fun s' => pure (appendUnique (appendUnique (appendUnique [] (boundTargets s t.label)) references)
          (callOperators s'.graph (normalizeType (desugaredTypeString t.label)))) : CollectM (List SymbolId))
        (fun found => Clear key s₀ bound
          (counted (fromVariable || c || operates s₀ key (normalizeType (desugaredTypeString t.label))) found ++ l))
        fun _ _ => True := by
    intro c references
    refine Clear.get_bind fun s' hs' =>
      ⟨_, hs'.found (callOperators_avoid hs'.1 (normalizeType (desugaredTypeString t.label))), Triple.pure fun s'' hs'' => ?_⟩
    -- the variable's targets and the references, then the operators of the type
    have hjoined : Clear key s₀ bound (counted (fromVariable || c)
        (appendUnique (appendUnique [] (boundTargets s t.label)) references) ++ l) s'' :=
      hs''.rest.join fun d hd => mem_appendUnique.1 hd
    have hoperators : Clear key s₀ bound (counted (operates s₀ key (normalizeType (desugaredTypeString t.label)))
        (callOperators s'.graph (normalizeType (desugaredTypeString t.label))) ++ l) s'' :=
      hs''.mono fun d hd => (List.mem_append.1 hd).elim (fun hd => List.mem_append.2 (.inl hd)) fun hd =>
        List.mem_append.2 (.inr (List.mem_append.2 (.inr (List.mem_append.2 (.inr hd)))))
    refine hjoined.rest.found fun hno d hd => ?_
    obtain ⟨hfirst, hsecond⟩ := Bool.or_eq_false_iff.1 hno
    rcases mem_appendUnique.1 hd with hd | hd
    · exact hjoined.avoids hfirst d hd
    · exact hoperators.avoids hsecond d hd
  simp only []
  split
  · rename_i hkind
    rw [hkind, Bool.true_and]
    exact (resolveReferences_finds t _).bind fun references => hlast _ references
  · rename_i hkind
    rw [Bool.not_eq_true] at hkind
    rw [hkind, Bool.false_and]
    have hnothing : Triple (Clear key s₀ bound (counted fromVariable (appendUnique [] (boundTargets s t.label)) ++ l))
        (pure [] : CollectM (List SymbolId)) (fun references => Clear key s₀ bound (counted false references ++
          (counted fromVariable (appendUnique [] (boundTargets s t.label)) ++ l))) fun _ _ => True :=
      Triple.pure fun s' hs' => hs'.found fun _ d hd => absurd hd List.not_mem_nil
    exact hnothing.bind fun references => hlast false references

mutual

theorem resolveCallableTargets_finds (tu : UnitContext) : ∀ t,
    Finds key s₀ bound (standsFor s₀ key (possible s₀ key tu bound) t) (resolveCallableTargets t)
  | .node value children => by
    intro l
    unfold resolveCallableTargets standsFor
    split
    · refine Clear.get_bind fun s hs => ⟨_, hs.found (lambdaOperators_avoid (t := .node value children) hs.1),
        Triple.pure fun s' hs' => hs'.among fun d => mem_appendUnique_nil.1⟩
    · refine (ownCallableTargets_finds tu (.node value children) l).bind fun own => ?_
      split
      · rename_i hstop
        rw [hstop, Bool.not_true, Bool.false_and, Bool.or_false]
        exact Triple.pure fun s hs => hs
      · rename_i hgo
        rw [Bool.not_eq_true] at hgo
        rw [hgo, Bool.not_false, Bool.true_and]
        exact resolveAllCallableTargets_finds tu _ own children l

theorem resolveAllCallableTargets_finds (tu : UnitContext) (c : Bool) (result : List SymbolId) : ∀ ts l,
    Triple (Clear key s₀ bound (counted c result ++ l)) (resolveAllCallableTargets result ts)
      (fun found => Clear key s₀ bound (counted (c || anyStandsFor s₀ key (possible s₀ key tu bound) ts) found ++ l))
      fun _ _ => True
  | [], l => by
    unfold resolveAllCallableTargets anyStandsFor
    rw [Bool.or_false]
    exact Triple.pure fun s hs => hs
  | t :: ts, l => by
    unfold resolveAllCallableTargets anyStandsFor
    rw [← Bool.or_assoc]
    refine (resolveCallableTargets_finds tu t _).bind fun targets => ?_
    exact (resolveAllCallableTargets_finds tu _ _ ts l).imp (fun s hs => hs.join fun d => mem_appendUnique.1)
      (fun _ _ => id) fun _ _ => id

end

/-! ## What is recorded -/

/-- A command on the graph that adds a fact about a symbol at hand. -/
theorem onGraph_clear {m : GraphM Unit} (hinv : Keeps Inv m)
    (hm : ∀ s, Clear key s₀ bound l s → ∀ g, m s.graph = .ok () g →
      g.symbols = s.graph.symbols ∧ NothingNew key s₀.graph g) :
    Triple (Clear key s₀ bound l) (onGraph m) (fun _ => Clear key s₀ bound l) fun _ _ => True := by
  intro s hs
  cases hrun : Ast.onGraph m s with
  | error e s' => trivial
  | ok u s' =>
    obtain ⟨g, hgraph, rfl⟩ := onGraph_run hrun
    obtain ⟨hsymbols, hnew⟩ := hm s hs g hgraph
    have hkeyOf : g.keyOf = s.graph.keyOf := by
      funext d
      unfold keyOf symbol
      rw [hsymbols]
    have havoids : ∀ d, Avoids key s d → Avoids key { s with graph := g } d := fun d hd => by
      unfold Avoids
      rw [show ({ s with graph := g } : TranslationUnitState).graph = g from rfl, hsymbols, hkeyOf]
      exact hd
    exact ⟨⟨hs.1.toSteady.same (hinv.ok hs.1.inv hgraph) hsymbols rfl rfl,
      fun other hother => hs.1.parts other (hsymbols ▸ hother), hnew,
      fun hv hbound d hd => havoids d (hs.1.bindings hv hbound d hd)⟩, fun d hd => havoids d (hs.2 d hd)⟩

-- the rules for triples are applied as they stand, no command is run
attribute [local irreducible] Triple

theorem addEdge_clear («from» : SymbolId) {d : SymbolId} (hd : d ∈ l) (kind : EdgeKind) (evidence : Evidence) :
    Triple (Clear key s₀ bound l) (onGraph (addEdge «from» d kind evidence)) (fun _ => Clear key s₀ bound l)
      fun _ _ => True :=
  onGraph_clear (addEdge_inv _ _ _ _) fun s hs g hrun => by
    unfold addEdge at hrun
    rw [guarded_ok_iff] at hrun
    obtain ⟨-, -, rfl⟩ := hrun
    refine ⟨rfl, fun e he hto => ?_, hs.1.nothingNew.roots, hs.1.nothingNew.escapes⟩
    rcases mem_addFact.1 he with he | rfl
    · exact hs.1.nothingNew.edges e he hto
    · exact absurd hto (hs.2 d hd).2

theorem addRoot_clear {d : SymbolId} (hd : d ∈ l) (kind : RootKind) (evidence : Evidence) :
    Triple (Clear key s₀ bound l) (onGraph (addRoot d kind evidence)) (fun _ => Clear key s₀ bound l) fun _ _ => True :=
  onGraph_clear (addRoot_inv _ _ _) fun s hs g hrun => by
    unfold addRoot at hrun
    rw [guarded_ok_iff] at hrun
    obtain ⟨-, -, rfl⟩ := hrun
    refine ⟨rfl, hs.1.nothingNew.edges, fun r hr hto => ?_, hs.1.nothingNew.escapes⟩
    rcases mem_addFact.1 hr with hr | rfl
    · exact hs.1.nothingNew.roots r hr hto
    · exact absurd hto (hs.2 d hd).2

theorem addEscape_clear {d : SymbolId} (hd : d ∈ l) (kind : EscapeKind) (evidence : Evidence)
    («from» : Option SymbolId) :
    Triple (Clear key s₀ bound l) (onGraph (addEscape d kind evidence «from»)) (fun _ => Clear key s₀ bound l)
      fun _ _ => True :=
  onGraph_clear (addEscape_inv _ _ _ _) fun s hs g hrun => by
    unfold addEscape at hrun
    rw [guarded_ok_iff] at hrun
    obtain ⟨-, -, rfl⟩ := hrun
    refine ⟨rfl, hs.1.nothingNew.edges, hs.1.nothingNew.roots, fun e he hto => ?_⟩
    rcases mem_addFact.1 he with he | rfl
    · exact hs.1.nothingNew.escapes e he hto
    · exact absurd hto (hs.2 d hd).2

/-- Outside code a use may be of any symbol. -/
theorem addUse_clear {i : UseContext} {kind : EdgeKind} {reason : Bytes} {d : SymbolId} (hd : i.inCode = true → d ∈ l) :
    Triple (Clear key s₀ bound l) (addUse i kind reason d) (fun _ => Clear key s₀ bound l) fun _ _ => True := by
  unfold addUse
  unfold UseContext.inCode at hd
  cases hcaller : i.caller with
  | some caller => exact addEdge_clear _ (hd (by rw [hcaller]; rfl)) _ _
  | none =>
    refine Triple.ite (fun hglobal => ?_) fun _ => Triple.pure fun s hs => hs
    exact addRoot_clear (hd (by rw [hglobal, Bool.or_true])) _ _

theorem registerCallback_clear {i : UseContext} {evidence : Evidence} {d : SymbolId} (hd : i.inCode = true → d ∈ l) :
    Triple (Clear key s₀ bound l) (registerCallback i evidence d) (fun _ => Clear key s₀ bound l) fun _ _ => True := by
  unfold registerCallback
  unfold UseContext.inCode at hd
  cases hcaller : i.caller with
  | some caller => exact addEdge_clear _ (hd (by rw [hcaller]; rfl)) _ _
  | none =>
    refine Triple.ite (fun hglobal => ?_) fun _ => Triple.pure fun s hs => hs
    exact addRoot_clear (hd (by rw [hglobal, Bool.or_true])) _ _

theorem mem_counted {c : Bool} {found : List SymbolId} {d : SymbolId} (hc : c = false) (hd : d ∈ found) :
    d ∈ counted c found ++ l := by
  subst hc
  exact List.mem_append.2 (.inl hd)

theorem addConstructionEdges_clear {i : UseContext} {type : Bytes} {signature : Option Bytes}
    (hno : i.inCode = true → constructs s₀ key (normalizeType type) signature = false) (reason : Bytes) :
    Triple (Clear key s₀ bound l) (addConstructionEdges i type signature reason) (fun _ => Clear key s₀ bound l)
      fun _ _ => True := by
  refine Clear.get_bind fun s hs => ⟨_, hs.found (c := !i.inCode) fun hcode =>
    constructionTargets_avoid hs.1 (hno (by simpa using hcode)), ?_⟩
  refine (Triple.forM _ fun d hd => addUse_clear fun hcode => mem_counted (by rw [hcode]; rfl) hd).bind fun _ => ?_
  exact Triple.pure fun s' hs' => hs'.rest

theorem addFactoryConstructionEdges_clear {i : UseContext} {call callee : Node}
    (hno : i.inCode = true → factoryConstructs (possible s₀ key tu bound) call callee = false) :
    Triple (Clear key s₀ bound l) (addFactoryConstructionEdges i call callee) (fun _ => Clear key s₀ bound l)
      fun _ _ => True := by
  unfold addFactoryConstructionEdges
  unfold factoryConstructs at hno
  cases hfactory : factoryCall call callee with
  | none => exact Triple.pure fun s hs => hs
  | some found =>
    rw [hfactory] at hno
    refine Triple.ite (fun _ => ?_) fun _ => ?_
    · exact (addConstructionEdges_clear hno _).bind fun _ => Triple.pure fun s hs => hs
    · refine (addConstructionEdges_clear hno _).bind fun matched => ?_
      refine Triple.ite (fun _ => Triple.modify fun s hs => ?_) fun _ => Triple.pure fun s hs => hs
      exact ⟨⟨hs.1.toSteady.same hs.1.inv rfl rfl rfl, hs.1.parts, hs.1.nothingNew, hs.1.bindings⟩, hs.2⟩

theorem addCallableEscapes_clear (i : UseContext) (reason : Bytes) {expression : Node}
    (hno : standsFor s₀ key (possible s₀ key tu bound) expression = false) :
    Triple (Clear key s₀ bound l) (addCallableEscapes i reason expression) (fun _ => Clear key s₀ bound l)
      fun _ _ => True :=
  (resolveCallableTargets_finds tu expression l).bind fun _ =>
    (Triple.forM _ fun _ hd => addEscape_clear (mem_counted hno hd) _ _ _).imp (fun _ => id) (fun _ _ hs => hs.rest)
      fun _ _ => id

theorem anyStandsFor_eq (ts : List Node) :
    anyStandsFor s₀ key (possible s₀ key tu bound) ts = ts.any (standsFor s₀ key (possible s₀ key tu bound)) := by
  induction ts with
  | nil => rfl
  | cons t ts ih => rw [anyStandsFor, ih, List.any_cons]

theorem standsFor_of_any {ts : List Node} (h : anyStandsFor s₀ key (possible s₀ key tu bound) ts = false) {t : Node}
    (ht : t ∈ ts) : standsFor s₀ key (possible s₀ key tu bound) t = false := by
  rw [anyStandsFor_eq] at h
  exact Bool.eq_false_iff.2 (List.any_eq_false.1 h t ht)

theorem applyRule_clear (tu : UnitContext) {i : UseContext} {operands : List Node}
    {rule : CallbackRegistrationRule × Nat}
    (hno : i.inCode = true → ∀ operand, operands[(rule.1.argumentIndex + 1).toNat]? = some operand →
      standsFor s₀ key (possible s₀ key tu bound) operand = false) (targets : List SymbolId) :
    Triple (Clear key s₀ bound l) (applyRule i targets operands rule) (fun _ => Clear key s₀ bound l) fun _ _ => True := by
  refine Clear.get_bind fun s hs => ⟨l, hs, ?_⟩
  refine Triple.ite (fun _ => ?_) fun _ => Triple.pure fun s hs => hs
  refine Triple.bind (R := fun _ => Clear key s₀ bound l) (Triple.modify fun s hs => ?_) fun _ => ?_
  · exact ⟨⟨hs.1.toSteady.same hs.1.inv rfl rfl rfl, hs.1.parts, hs.1.nothingNew, hs.1.bindings⟩, hs.2⟩
  cases hoperand : operands[(rule.1.argumentIndex + 1).toNat]? with
  | none => exact Triple.throw fun _ _ => trivial
  | some operand =>
    refine (resolveCallableTargets_finds tu operand l).bind fun callbacks => ?_
    refine Triple.ite (fun _ => Triple.throw fun _ _ => trivial) fun _ => ?_
    have hcallback : ∀ d ∈ callbacks, i.inCode = true →
        d ∈ counted (standsFor s₀ key (possible s₀ key tu bound) operand) callbacks ++ l :=
      fun d hd hcode => mem_counted (hno hcode operand hoperand) hd
    exact (Triple.forM _ fun d hd => registerCallback_clear (hcallback d hd)).imp (fun _ => id)
      (fun _ _ hs => hs.rest) fun _ _ => id

/-- The callee operand is seen as a value only if it refers to no known function. -/
theorem calleeTargets_finds (tu : UnitContext) (callee : Node) :
    Finds key s₀ bound (refersTo s₀ key callee ||
        ((possible s₀ key tu bound).byValue callee && standsFor s₀ key (possible s₀ key tu bound) callee))
      (calleeTargets callee) := by
  intro l
  refine (resolveReferences_clear callee l).bind fun targets => Triple.assume fun hnothing =>
    Triple.ite (fun hnil => ?_) fun _ => ?_
  · have hvalue : (possible s₀ key tu bound).byValue callee = true := Bool.or_eq_true_iff.2 (.inr (hnothing hnil))
    rw [hvalue, Bool.true_and]
    exact (resolveCallableTargets_finds tu callee _).imp (fun _ => id) (fun _ _ hs => hs.join fun d hd => .inr hd)
      fun _ _ => id
  · refine Triple.pure fun s hs => hs.rest.found fun hc d hd => hs.avoids (Bool.or_eq_false_iff.1 hc).1 d hd

/-- The operand that a rule looks at is an argument, unless its index wraps around. -/
theorem rule_operand {rule : CallbackRegistrationRule} (hrule : rule ∈ tu.options.callbackRegistrationRules)
    {callee operand : Node} {arguments : List Node}
    (hoperand : (callee :: arguments)[(rule.argumentIndex + 1).toNat]? = some operand) :
    operand ∈ arguments ∨ (operand = callee ∧ takesCallee tu = true) := by
  by_cases hzero : rule.argumentIndex + 1 = 0
  · rw [hzero] at hoperand
    cases hoperand
    exact .inr ⟨rfl, List.any_eq_true.2 ⟨rule, hrule, beq_iff_eq.2 hzero⟩⟩
  · obtain ⟨k, hk⟩ := Nat.exists_eq_succ_of_ne_zero fun h : (rule.argumentIndex + 1).toNat = 0 =>
      hzero (UInt64.toNat_inj.1 h)
    rw [hk, List.getElem?_cons_succ] at hoperand
    exact .inl (List.mem_of_getElem? hoperand)

theorem recordCall_clear (tu : UnitContext) {i : UseContext} {call callee : Node} {arguments : List Node}
    (hcode : i.inCode = true → calleeSeen s₀ key (possible s₀ key tu bound) call callee = false)
    (harguments : anyStandsFor s₀ key (possible s₀ key tu bound) arguments = false) :
    Triple (Clear key s₀ bound l) (recordCall tu i call callee arguments) (fun _ => Clear key s₀ bound l)
      fun _ _ => True := by
  have htargets := fun h => (Bool.or_eq_false_iff.1 (hcode h)).1
  refine (calleeTargets_finds tu callee l).bind fun targets => ?_
  refine (Triple.forM _ fun d hd => addUse_clear fun h => mem_counted (htargets h) hd).bind fun _ => ?_
  refine (addFactoryConstructionEdges_clear fun h => (Bool.or_eq_false_iff.1 (hcode h)).2).bind fun _ => ?_
  refine (Triple.forM _ fun a ha => addCallableEscapes_clear i _ (standsFor_of_any harguments ha)).bind fun _ => ?_
  refine (Triple.forM _ fun rule hrule => applyRule_clear tu (fun h operand hoperand => ?_) targets).imp (fun _ => id)
    (fun _ _ hs => hs.rest) fun _ _ => id
  rcases rule_operand (List.fst_mem_of_mem_zipIdx hrule) hoperand with hoperand | ⟨rfl, hwraps⟩
  · exact standsFor_of_any harguments hoperand
  · have hvalue := (Bool.or_eq_false_iff.1 (htargets h)).2
    rwa [show (possible s₀ key tu bound).byValue operand = true from Bool.or_eq_true_iff.2 (.inl hwraps),
      Bool.true_and] at hvalue

theorem Untouched.binds {bound' : List Bytes} (h : Untouched key s₀ bound s) (hsub : bound ⊆ bound') :
    Untouched key s₀ bound' s :=
  ⟨h.toSteady, h.parts, h.nothingNew, fun hv hfree => h.bindings hv fun hmem => hfree (hsub hmem)⟩

/-- A variable that is initialized with the function is bound from then on. -/
theorem bindVariable_clear (t : Node) :
    Triple (Clear key s₀ bound l) (bindVariable t) (fun _ => Clear key s₀
      (if anyStandsFor s₀ key (possible s₀ key tu bound) t.children then stringOr t.label "id" :: bound else bound) l)
      fun _ _ => True := by
  have htargets : Triple (Clear key s₀ bound l) (resolveAllCallableTargets [] t.children) (fun found => Clear key s₀ bound
      (counted (false || anyStandsFor s₀ key (possible s₀ key tu bound) t.children) found ++ l)) fun _ _ => True :=
    resolveAllCallableTargets_finds tu false [] t.children l
  rw [Bool.false_or] at htargets
  generalize anyStandsFor s₀ key (possible s₀ key tu bound) t.children = shown at htargets ⊢
  have hsub : bound ⊆ if shown then stringOr t.label "id" :: bound else bound := by
    cases shown with
    | true => exact List.subset_cons_self _ _
    | false => exact List.Subset.refl _
  refine htargets.bind fun targets => Triple.ite (fun _ => Triple.modify fun s hs => ?_) fun _ =>
    Triple.pure fun s hs => ⟨hs.1.binds hsub, hs.rest.2⟩
  refine ⟨⟨hs.1.toSteady.same hs.1.inv rfl rfl rfl, hs.1.parts, hs.1.nothingNew, fun {v found} hv hfree d hd => ?_⟩,
    hs.rest.2⟩
  -- the newest binding of a variable is the one that counts
  rw [lookup_cons_iff] at hv
  split at hv
  · rename_i hsame
    cases hv
    cases shown with
    | true => exact absurd (hsame ▸ List.mem_cons_self) hfree
    | false => exact hs.avoids rfl d hd
  · exact hs.1.bindings hv (fun hmem => hfree (hsub hmem)) d hd

theorem lookup_unbound {l : List (Bytes × List SymbolId)} {name v : Bytes} {targets : List SymbolId}
    (h : (l.filter fun binding => binding.1 != name).lookup v = some targets) : v ≠ name ∧ l.lookup v = some targets := by
  induction l with
  | nil => cases h
  | cons binding l ih =>
    obtain ⟨other, found⟩ := binding
    rw [lookup_cons_iff]
    by_cases hother : other = name
    · rw [List.filter_cons_of_neg (by simp [hother])] at h
      obtain ⟨hne, hrest⟩ := ih h
      exact ⟨hne, (if_neg fun hv => hne (hv.trans hother)).trans hrest⟩
    · rw [List.filter_cons_of_pos (by simp [hother]), lookup_cons_iff] at h
      split at h
      · rename_i hv
        exact ⟨fun hname => hother (hv.symm.trans hname), (if_pos hv).trans h⟩
      · rename_i hv
        obtain ⟨hne, hrest⟩ := ih h
        exact ⟨hne, (if_neg hv).trans hrest⟩

theorem unbindVariable_clear {t left : Node} {rest : List Node} (hchildren : t.children = left :: rest) :
    Triple (Clear key s₀ bound l) (unbindVariable t)
      (fun _ => Clear key s₀ (bound.filter (· != referencedVariableId left)) l) fun _ _ => True := by
  unfold unbindVariable
  rw [hchildren]
  refine Triple.modify fun s hs => ?_
  refine ⟨⟨hs.1.toSteady.same hs.1.inv rfl rfl rfl, hs.1.parts, hs.1.nothingNew, fun {v targets} hv hfree => ?_⟩, hs.2⟩
  obtain ⟨hne, hold⟩ := lookup_unbound hv
  exact hs.1.bindings hold fun hmem => hfree (List.mem_filter.2 ⟨hmem, bne_iff_ne.2 hne⟩)

theorem recordReference_clear (i : UseContext) {t : Node} (hno : refersTo s₀ key t = false) :
    Triple (Clear key s₀ bound l) (recordReference i t) (fun _ => Clear key s₀ bound l) fun _ _ => True :=
  (resolveReferences_finds t l).bind fun _ =>
    (Triple.forM _ fun _ hd => addEscape_clear (mem_counted hno hd) _ _ _).imp (fun _ => id) (fun _ _ hs => hs.rest)
      fun _ _ => id

theorem recordConstruction_clear {i : UseContext} {t : Node}
    (hcode : i.inCode = true → constructs s₀ key (normalizeType (desugaredTypeString t.label))
      (if typeString t.label "ctorType" = [] then none else some (typeString t.label "ctorType")) = false)
    (hstored : containsText (lit "std::function<") (normalizeType (desugaredTypeString t.label)) = true →
      anyStandsFor s₀ key (possible s₀ key tu bound) t.children = false) :
    Triple (Clear key s₀ bound l) (recordConstruction i t) (fun _ => Clear key s₀ bound l) fun _ _ => True := by
  apply Triple.bind (R := fun _ => Clear key s₀ bound l)
  · apply addConstructionEdges_clear
    exact hcode
  intro _
  apply Triple.ite
  · intro h
    exact Triple.forM _ fun child hchild => addCallableEscapes_clear i _ (standsFor_of_any (hstored h) hchild)
  · exact fun _ => Triple.pure fun s hs => hs

theorem eq_false_of_guard {a b : Bool} (h : (a && b) = false) (ha : a = true) : b = false := by
  rwa [ha, Bool.true_and] at h

theorem boundAfter_other {t : Node} (hvariable : stringOr t.label "kind" ≠ lit "VarDecl")
    (hassignment : isAssignment t.label = false) : boundAfter s₀ key tu bound t = bound := by
  unfold boundAfter
  rw [if_neg hvariable, hassignment]
  rfl

/-- A node at which the function is not seen records nothing of it. -/
theorem recordUses_clear (tu : UnitContext) {i : UseContext} {t : Node}
    (hno : sees s₀ key (possible s₀ key tu bound) i t = false) :
    Triple (Clear key s₀ bound l) (recordUses tu i t) (fun _ => Clear key s₀ (boundAfter s₀ key tu bound t) l)
      fun _ _ => True := by
  unfold sees at hno
  refine Triple.ite (fun hvariable => ?_) fun hvariable => ?_
  · unfold boundAfter
    rw [if_pos hvariable]
    exact bindVariable_clear t
  rw [if_neg hvariable] at hno
  refine Triple.ite (fun hassignment => ?_) fun hassignment => ?_
  · unfold boundAfter
    rw [if_neg hvariable, if_pos hassignment]
    cases hchildren : t.children with
    | nil =>
      unfold unbindVariable
      rw [hchildren]
      exact Triple.pure fun s hs => hs
    | cons left rest => exact unbindVariable_clear hchildren
  rw [if_neg hassignment] at hno
  rw [boundAfter_other hvariable (by simpa using hassignment)]
  refine Triple.ite (fun hcall => ?_) fun hcall => ?_
  · rw [if_pos hcall] at hno
    cases hchildren : t.children with
    | nil => exact Triple.pure fun s hs => hs
    | cons callee arguments =>
      rw [hchildren] at hno
      obtain ⟨hcode, harguments⟩ := Bool.or_eq_false_iff.1 hno
      exact recordCall_clear tu (eq_false_of_guard hcode) harguments
  rw [if_neg hcall] at hno
  refine Triple.ite (fun hconstruction => ?_) fun hconstruction => ?_
  · rw [if_pos hconstruction] at hno
    obtain ⟨hcode, hstored⟩ := Bool.or_eq_false_iff.1 hno
    exact recordConstruction_clear (eq_false_of_guard hcode) (eq_false_of_guard hstored)
  rw [if_neg hconstruction] at hno
  refine Triple.ite (fun hreference => ?_) fun _ => Triple.pure fun s hs => hs
  rw [if_pos hreference] at hno
  exact recordReference_clear i hno

/-! ## The walk -/

/-- Started on a way, the walk has come to its end, and has not come upon the function. -/
def ClearEnd (key : Bytes) (s₀ : TranslationUnitState) (w : Way) (s : TranslationUnitState) : Prop :=
  Along s₀ w.looked s ∧ Clear key s₀ w.bound [] s

theorem visitUse_clear {tu : UnitContext} {value : Value} {children : List Node} {i : UseContext} {w : Way}
    (hs : ClearEnd key s₀ w s)
    (hunseen : ∀ stop ∈ (route s₀ key tu (.node value children) i.anonymous w).1, stop.sees s₀ key tu = false)
    {below : Option (Nat → UseContext)} (hrun : visitUse tu (.node value children) i s = .ok below s') :
    (below = none ∧ ClearEnd key s₀ (route s₀ key tu (.node value children) i.anonymous w).2 s') ∨
      ∃ context w', below = some context ∧ ClearEnd key s₀ w' s' ∧
        (∀ stop ∈ (routeAll s₀ key tu children (fun k => (context k).anonymous) w').1, stop.sees s₀ key tu = false) ∧
        (route s₀ key tu (.node value children) i.anonymous w).2 =
          (routeAll s₀ key tu children (fun k => (context k).anonymous) w').2 := by
  unfold route at hunseen ⊢
  rcases visitUse_along hs.1 hrun with ⟨hopen, rfl, rfl⟩ | ⟨inside, hopen, hrecord, rfl, halong⟩
  · rw [show openNode s₀ tu w value i.anonymous = none from hopen]
    exact .inl ⟨rfl, hs⟩
  · rw [show openNode s₀ tu w value i.anonymous = some inside.anonymous from hopen] at hunseen ⊢
    have hsees : sees s₀ key (possible s₀ key tu w.bound) inside (.node value children) = false := by
      rw [← sees_anonymous]
      exact hunseen _ List.mem_cons_self
    have hclear := (recordUses_clear tu hsees).ok hs.2 hrecord
    refine .inr ⟨_, w.after s₀ key tu inside (.node value children), rfl, ⟨halong, hclear⟩, fun stop hstop => ?_, ?_⟩
    · rw [childUseContext_anonymous] at hstop
      exact hunseen stop (List.mem_cons_of_mem _ hstop)
    · rw [childUseContext_anonymous]
      rfl

mutual

theorem collectUses_clear (tu : UnitContext) : ∀ t i w s s', ClearEnd key s₀ w s →
    (∀ stop ∈ (route s₀ key tu t i.anonymous w).1, stop.sees s₀ key tu = false) →
    walk (visitUse tu) t i s = .ok () s' → ClearEnd key s₀ (route s₀ key tu t i.anonymous w).2 s'
  | .node value children, i, w, s, s', hs, hunseen, hrun => by
    unfold walk at hrun
    obtain ⟨below, s₁, hvisit, hrest⟩ := bind_ok_iff.1 hrun
    rcases visitUse_clear hs hunseen hvisit with ⟨rfl, hend⟩ | ⟨context, w', rfl, hclear, hbelow, hway⟩
    · obtain ⟨-, rfl⟩ := pure_ok_iff.1 hrest
      exact hend
    · rw [hway]
      exact collectAllUses_clear tu children context w' s₁ s' hclear hbelow hrest

theorem collectAllUses_clear (tu : UnitContext) : ∀ ts context w s s', ClearEnd key s₀ w s →
    (∀ stop ∈ (routeAll s₀ key tu ts (fun k => (context k).anonymous) w).1, stop.sees s₀ key tu = false) →
    walkAll (visitUse tu) ts context s = .ok () s' →
    ClearEnd key s₀ (routeAll s₀ key tu ts (fun k => (context k).anonymous) w).2 s'
  | [], _, _, _, _, hs, _, hrun => by
    obtain ⟨-, rfl⟩ := pure_ok_iff.1 hrun
    exact hs
  | t :: ts, context, w, s, s', hs, hunseen, hrun => by
    unfold walkAll at hrun
    obtain ⟨_, s₁, hfirst, hrest⟩ := bind_ok_iff.1 hrun
    have hmiddle := collectUses_clear tu t _ w s s₁ hs
      (fun stop hstop => hunseen stop (List.mem_append.2 (.inl hstop))) hfirst
    exact collectAllUses_clear tu ts _ _ s₁ s' hmiddle
      (fun stop hstop => hunseen stop (List.mem_append.2 (.inr hstop))) hrest

end

end Steps

end Ast

end CxxDead
