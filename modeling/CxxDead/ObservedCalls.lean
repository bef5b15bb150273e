import CxxDead.Uses
/-!
# Observed calls

A call in a function or in the initializer of a namespace-scope variable leaves
an edge or a root for every function that its callee operand refers to. A call
in the initializer of a class member leaves nothing.

- `callsObserved`: no call in code is dropped.
- `memberInitializer_dropped`: a call in a default member initializer is.
-/

namespace CxxDead

open Lib Json CxxDead.Graph

namespace Ast

/-! ## Facts are not lost -/

/-- What a later state keeps of an earlier one. -/
structure Grows (s s' : TranslationUnitState) : Prop where
  edges : ∀ e ∈ s.graph.edges, e ∈ s'.graph.edges
  roots : ∀ r ∈ s.graph.roots, r ∈ s'.graph.roots
  escapes : ∀ e ∈ s.graph.escapes, e ∈ s'.graph.escapes
  declarations : ∀ {id d}, s.declarations.lookup id = some d → s'.declarations.lookup id = some d
  opaqueDeclarations : s'.opaqueDeclarations = s.opaqueDeclarations

namespace Grows

theorem refl (s : TranslationUnitState) : Grows s s := ⟨fun _ h => h, fun _ h => h, fun _ h => h, fun h => h, rfl⟩

theorem trans {s s' s'' : TranslationUnitState} (h : Grows s s') (h' : Grows s' s'') : Grows s s'' :=
  ⟨fun e he => h'.edges e (h.edges e he), fun r hr => h'.roots r (h.roots r hr),
    fun e he => h'.escapes e (h.escapes e he), fun hd => h'.declarations (h.declarations hd),
    h'.opaqueDeclarations.trans h.opaqueDeclarations⟩

/-- A command on the graph that keeps the facts. -/
theorem onGraph {α : Type} {m : GraphM α}
    (h : ∀ g, (∀ e ∈ g.edges, e ∈ (endState m g).edges) ∧ (∀ r ∈ g.roots, r ∈ (endState m g).roots) ∧
      ∀ e ∈ g.escapes, e ∈ (endState m g).escapes) (s₀ : TranslationUnitState) :
    Keeps (Grows s₀) (Ast.onGraph m) := by
  intro s hs
  refine hs.trans ?_
  obtain ⟨hedges, hroots, hescapes⟩ := h s.graph
  unfold endState Ast.onGraph at *
  cases hrun : m s.graph with
  | ok a g =>
    rw [hrun] at hedges hroots hescapes
    exact ⟨hedges, hroots, hescapes, fun hd => hd, rfl⟩
  | error e g =>
    rw [hrun] at hedges hroots hescapes
    exact ⟨hedges, hroots, hescapes, fun hd => hd, rfl⟩

end Grows

theorem addOrMergeSymbol_facts (symbol : Symbol) (g : Graph) :
    (endState (addOrMergeSymbol symbol) g).edges = g.edges ∧ (endState (addOrMergeSymbol symbol) g).roots = g.roots ∧
      (endState (addOrMergeSymbol symbol) g).escapes = g.escapes := by
  unfold endState addOrMergeSymbol
  split_ifs
  · exact ⟨rfl, rfl, rfl⟩
  · exact ⟨rfl, rfl, rfl⟩
  · split
    · rename_i h
      split at h
      · split at h
        · cases h
        · cases h
          exact ⟨rfl, rfl, rfl⟩
      · cases h
        exact ⟨rfl, rfl, rfl⟩
    · rename_i h
      split at h
      · split at h
        · cases h
          exact ⟨rfl, rfl, rfl⟩
        · cases h
      · cases h

theorem grows_steps (s₀ : TranslationUnitState) : KeptBySteps (Grows s₀) where
  promote s id symbol hnew _ hs := by
    have hadded : Grows s (endState (Ast.onGraph (addOrMergeSymbol symbol)) s) :=
      Grows.onGraph (fun g => by
        obtain ⟨hedges, hroots, hescapes⟩ := addOrMergeSymbol_facts symbol g
        exact ⟨fun e he => hedges ▸ he, fun r hr => hroots ▸ hr, fun e he => hescapes ▸ he⟩) s s (.refl s)
    refine hs.trans ?_
    unfold endState promote at *
    cases hrun : Ast.onGraph (addOrMergeSymbol symbol) s with
    | error e s' =>
      rw [hrun] at hadded
      rw [bind_of_error hrun]
      exact hadded
    | ok d s' =>
      rw [hrun] at hadded
      rw [bind_of_ok hrun]
      refine ⟨hadded.edges, hadded.roots, hadded.escapes, fun {id' d'} hd => ?_, hadded.opaqueDeclarations⟩
      have hne : (id' == id) = false := by
        rw [beq_eq_false_iff_ne]
        rintro rfl
        rw [hnew] at hd
        cases hd
      have hkept := hadded.declarations hd
      show List.lookup id' ((id, d) :: s'.declarations) = some d'
      rw [List.lookup_cons, hne]
      exact hkept
  edge _ _ _ _ := Grows.onGraph (fun g => by
    unfold endState addEdge
    split <;> rename_i h <;> split at h <;> cases h
    · exact ⟨fun e he => mem_addFact.2 (.inl he), fun _ hr => hr, fun _ he => he⟩
    · exact ⟨fun _ he => he, fun _ hr => hr, fun _ he => he⟩) s₀
  root _ _ _ := Grows.onGraph (fun g => by
    unfold endState addRoot
    split <;> rename_i h <;> split at h <;> cases h
    · exact ⟨fun _ he => he, fun r hr => mem_addFact.2 (.inl hr), fun _ he => he⟩
    · exact ⟨fun _ he => he, fun _ hr => hr, fun _ he => he⟩) s₀
  escape _ _ _ _ := Grows.onGraph (fun g => by
    unfold endState addEscape
    split <;> rename_i h <;> split at h <;> cases h
    · exact ⟨fun _ he => he, fun _ hr => hr, fun e he => mem_addFact.2 (.inl he)⟩
    · exact ⟨fun _ he => he, fun _ hr => hr, fun _ he => he⟩) s₀
  bindings _ _ hs := hs.trans ⟨fun _ h => h, fun _ h => h, fun _ h => h, fun h => h, rfl⟩
  diagnostic _ _ hs := hs.trans ⟨fun _ h => h, fun _ h => h, fun _ h => h, fun h => h, rfl⟩
  ruleMatch _ _ hs := hs.trans ⟨fun _ h => h, fun _ h => h, fun _ h => h, fun h => h, rfl⟩

/-! ## References are resolved -/

/-- The declaration is in the project, or one outside it has been seen. -/
def Known (s : TranslationUnitState) (id : Bytes) : Prop :=
  (s.declarations.lookup id).isSome = true ∨ (s.opaqueDeclarations.lookup id).isSome = true

theorem Known.grows {s s' : TranslationUnitState} {id : Bytes} (h : Known s id) (hs : Grows s s') : Known s' id := by
  rcases h with h | h
  · obtain ⟨d, hd⟩ := Option.isSome_iff_exists.1 h
    exact .inl (by rw [hs.declarations hd]; rfl)
  · exact .inr (by rw [hs.opaqueDeclarations]; exact h)

theorem resolveReference_known {id : Bytes} {s s' : TranslationUnitState} {found : Option SymbolId}
    (h : resolveReference id s = .ok found s') (hknown : Known s id) :
    ∃ d, found = some d ∧ s'.declarations.lookup id = some d := by
  unfold resolveReference at h
  cases hdeclared : s.declarations.lookup id with
  | some d =>
    rw [hdeclared] at h
    cases h
    exact ⟨d, rfl, hdeclared⟩
  | none =>
    cases houtside : s.opaqueDeclarations.lookup id with
    | none =>
      rcases hknown with hknown | hknown
      · rw [hdeclared] at hknown
        cases hknown
      · rw [houtside] at hknown
        cases hknown
    | some symbol =>
      rw [hdeclared, houtside] at h
      simp only [map_eq_pure_bind] at h
      obtain ⟨d, s₁, hpromote, hpure⟩ := bind_ok_iff.1 h
      obtain ⟨rfl, rfl⟩ := pure_ok_iff.1 hpure
      refine ⟨d, rfl, ?_⟩
      obtain ⟨d', s₂, hadd, hrest⟩ := bind_ok_iff.1 hpromote
      cases hrest
      simp

theorem mem_appendUnique {result more : List SymbolId} {d : SymbolId} :
    d ∈ appendUnique result more ↔ d ∈ result ∨ d ∈ more := by
  unfold appendUnique
  induction more generalizing result with
  | nil => simp
  | cons m more ih => rw [List.foldl_cons, ih, mem_addFact, List.mem_cons, or_assoc]

theorem resolveAll_known {ids : List Bytes} {s s' : TranslationUnitState} {found : List (Option SymbolId)}
    (h : ids.mapM resolveReference s = .ok found s') {id : Bytes} (hid : id ∈ ids) (hknown : Known s id) :
    ∃ d, some d ∈ found ∧ s'.declarations.lookup id = some d := by
  have hgrows := fun (s₀ : TranslationUnitState) id => resolveReference_keeps (grows_steps s₀).toKeptByLooks id
  induction ids generalizing s found with
  | nil => cases hid
  | cons first ids ih =>
    rw [List.mapM_cons] at h
    obtain ⟨r, s₁, hfirst, hrest⟩ := bind_ok_iff.1 h
    obtain ⟨rs, s₂, hmore, hpure⟩ := bind_ok_iff.1 hrest
    obtain ⟨rfl, rfl⟩ := pure_ok_iff.1 hpure
    have hto : Grows s s₁ := (hgrows s first).ok (.refl s) hfirst
    have hfrom : Grows s₁ s₂ := (Keeps.mapM (hgrows s₁) ids).ok (.refl s₁) hmore
    rcases List.mem_cons.1 hid with rfl | hid
    · obtain ⟨d, rfl, hd⟩ := resolveReference_known hfirst hknown
      exact ⟨d, List.mem_cons_self, hfrom.declarations hd⟩
    · obtain ⟨d, hmem, hd⟩ := ih hmore hid (hknown.grows hto)
      exact ⟨d, List.mem_cons_of_mem _ hmem, hd⟩

theorem resolveReferences_known {expression : Node} {s s' : TranslationUnitState} {targets : List SymbolId}
    (h : resolveReferences expression s = .ok targets s') {id : Bytes} (hid : id ∈ collectReferenceIds expression)
    (hknown : Known s id) : ∃ d ∈ targets, s'.declarations.lookup id = some d := by
  obtain ⟨found, s₁, hfound, hpure⟩ := bind_ok_iff.1 h
  obtain ⟨rfl, rfl⟩ := pure_ok_iff.1 hpure
  obtain ⟨d, hmem, hd⟩ := resolveAll_known hfound hid hknown
  exact ⟨d, mem_appendUnique.2 (.inr (List.reduceOption_mem_iff.2 hmem)), hd⟩

theorem calleeTargets_known {callee : Node} {s s' : TranslationUnitState} {targets : List SymbolId}
    (h : calleeTargets callee s = .ok targets s') {id : Bytes} (hid : id ∈ collectReferenceIds callee)
    (hknown : Known s id) : ∃ d ∈ targets, s'.declarations.lookup id = some d := by
  obtain ⟨references, s₁, hreferences, hrest⟩ := bind_ok_iff.1 h
  obtain ⟨d, hmem, hd⟩ := resolveReferences_known hreferences hid hknown
  rw [if_neg (List.ne_nil_of_mem hmem)] at hrest
  obtain ⟨rfl, rfl⟩ := pure_ok_iff.1 hrest
  exact ⟨d, hmem, hd⟩

/-! ## Calls are recorded -/

/-- An edge into `d`, a root on it or an escape of it. -/
def Recorded (g : Graph) (d : SymbolId) : Prop :=
  (∃ e ∈ g.edges, e.to = d) ∨ (∃ r ∈ g.roots, r.symbol = d) ∨ ∃ e ∈ g.escapes, e.symbol = d

theorem Recorded.grows {s s' : TranslationUnitState} {d : SymbolId} (h : Recorded s.graph d) (hs : Grows s s') :
    Recorded s'.graph d := by
  rcases h with ⟨e, he, rfl⟩ | ⟨r, hr, rfl⟩ | ⟨e, he, rfl⟩
  · exact .inl ⟨e, hs.edges e he, rfl⟩
  · exact .inr (.inl ⟨r, hs.roots r hr, rfl⟩)
  · exact .inr (.inr ⟨e, hs.escapes e he, rfl⟩)

/-- A use in this context is an edge or a root. -/
def InCode (i : UseContext) : Prop := i.caller ≠ none ∨ i.globalInitializer = true

theorem onGraph_ok {α : Type} {m : GraphM α} {s s' : TranslationUnitState} {a : α} (h : Ast.onGraph m s = .ok a s') :
    m s.graph = .ok a s'.graph := by
  unfold Ast.onGraph at h
  cases hrun : m s.graph with
  | ok b g =>
    rw [hrun] at h
    cases h
    rfl
  | error e g =>
    rw [hrun] at h
    cases h

theorem addUse_recorded {i : UseContext} (hi : InCode i) {kind : EdgeKind} {reason : Bytes} {d : SymbolId}
    {s s' : TranslationUnitState} (h : addUse i kind reason d s = .ok () s') : Recorded s'.graph d := by
  unfold addUse at h
  cases hcaller : i.caller with
  | some caller =>
    rw [hcaller] at h
    have hedge := onGraph_ok h
    unfold addEdge at hedge
    rw [guarded_ok_iff] at hedge
    rw [← hedge.2.2]
    exact .inl ⟨_, mem_addFact.2 (.inr rfl), rfl⟩
  | none =>
    have hglobal : i.globalInitializer = true := hi.resolve_left fun hne => hne hcaller
    rw [hcaller, hglobal] at h
    have hroot := onGraph_ok h
    unfold addRoot at hroot
    rw [guarded_ok_iff] at hroot
    rw [← hroot.2.2]
    exact .inr (.inl ⟨_, mem_addFact.2 (.inr rfl), rfl⟩)

section Calls
variable {tu : UnitContext}

theorem recordCall_recorded {i : UseContext} (hi : InCode i) {call callee : Node} {arguments : List Node}
    {s s' : TranslationUnitState} (h : recordCall tu i call callee arguments s = .ok () s') {id : Bytes}
    (hid : id ∈ collectReferenceIds callee) (hknown : Known s id) :
    ∃ d, s'.declarations.lookup id = some d ∧ Recorded s'.graph d := by
  obtain ⟨targets, s₁, htargets, hrest⟩ := bind_ok_iff.1 h
  obtain ⟨_, s₂, huses, hafter⟩ := bind_ok_iff.1 hrest
  obtain ⟨d, hmem, hd⟩ := calleeTargets_known htargets hid hknown
  have huse := fun (s₀ : TranslationUnitState) target =>
    addUse_keeps (grows_steps s₀).toKeptByLooks i .directCall [] target
  obtain ⟨s₃, s₄, hturn, hto, hfrom⟩ := forM_returned Grows.refl Grows.trans huse huses hmem
  have hgrows : Grows s₂ s' :=
    Keeps.ok ((addFactoryConstructionEdges_keeps (grows_steps s₂).toKeptByLooks i call callee).bind fun _ =>
      (Keeps.forM (addCallableEscapes_keeps (grows_steps s₂).toKeptByLooks i _) arguments).bind fun _ =>
        Keeps.forM (applyRule_keeps (grows_steps s₂).toKeptByLooks i targets (callee :: arguments)) _) (.refl s₂) hafter
  have hfacts := (addUse_recorded hi hturn).grows (hfrom.trans hgrows)
  have hkept : Grows s₁ s' := hto.trans (((huse s₃ d).ok (.refl s₃) hturn).trans (hfrom.trans hgrows))
  exact ⟨d, hkept.declarations hd, hfacts⟩

/-! ## Where a call stands -/

/-- Where the walk over uses is. -/
abbrev UsePosition := Position Value UseContext TranslationUnitState

def kindOf (p : UsePosition) : Bytes := stringOr p.1.label "kind"

/-- A variable that is declared in a namespace. -/
def NamespaceVariable (tu : UnitContext) (root p : UsePosition) : Prop :=
  kindOf p = lit "VarDecl" ∧
    ∃ parent, Visits (visitUse tu) root parent ∧ Descends (visitUse tu) parent p ∧ childFileContext parent.1.label = true

/-- The walk from `root` comes to `p` through a function or through a namespace-scope variable. -/
def StandsInCode (tu : UnitContext) (root p : UsePosition) : Prop :=
  ∃ enclosing, Visits (visitUse tu) root enclosing ∧ Visits (visitUse tu) enclosing p ∧
    (isFunctionKind (kindOf enclosing) = true ∨ NamespaceVariable tu root enclosing)

/-- A parent's context goes on to its children. -/
theorem descends_context {p q : UsePosition} (h : Descends (visitUse tu) p q) :
    ∃ inside k, enterNode tu p.2.2 p.1.label p.2.1 = some inside ∧ q.2.1 = childUseContext tu p.1.label inside k := by
  obtain ⟨context, s, k, hvisit, -, hcontext, -⟩ := h
  rcases visitUse_ok hvisit with ⟨-, hnone, -⟩ | ⟨inside, henter, -, hbelow⟩
  · cases hnone
  · cases hbelow
    exact ⟨inside, k, henter, hcontext⟩

theorem InCode.child {i : UseContext} (h : InCode i) (node : Value) (k : Nat) :
    InCode (childUseContext tu node i k) := by
  unfold childUseContext
  split
  · exact h
  · exact h

theorem InCode.enter {i inside : UseContext} (h : InCode i) {s : TranslationUnitState} {node : Value}
    (henter : enterNode tu s node i = some inside) : InCode inside := by
  unfold enterNode at henter
  split at henter
  · split at henter
    · split at henter
      · cases henter
        exact .inl (Option.some_ne_none _)
      · cases henter
    · cases henter
  · split at henter
    · split at henter
      · cases henter
        exact .inr rfl
      · cases henter
    · cases henter
      exact h

/-- A function is entered as the caller. -/
theorem enterNode_function {i inside : UseContext} {s : TranslationUnitState} {node : Value}
    (hkind : isFunctionKind (stringOr node "kind") = true) (henter : enterNode tu s node i = some inside) :
    InCode inside := by
  unfold enterNode at henter
  rw [if_pos hkind] at henter
  split at henter
  · split at henter
    · cases henter
      exact .inl (Option.some_ne_none _)
    · cases henter
  · cases henter

/-- A namespace-scope variable is entered as a global initializer. -/
theorem enterNode_variable {i inside : UseContext} {s : TranslationUnitState} {node : Value}
    (hkind : stringOr node "kind" = lit "VarDecl") (hfile : i.fileContext = true)
    (henter : enterNode tu s node i = some inside) : InCode inside := by
  unfold enterNode at henter
  rw [if_neg (by rw [hkind]; decide)] at henter
  cases hcaller : i.caller with
  | some caller =>
    rw [if_neg (by simp [hcaller])] at henter
    cases henter
    exact .inl (by simp [hcaller])
  | none =>
    rw [if_pos ⟨hkind, hfile, hcaller⟩] at henter
    split at henter
    · cases henter
      exact .inr rfl
    · cases henter

theorem childUseContext_file {node : Value} (h : childFileContext node = true) (i : UseContext) (k : Nat) :
    (childUseContext tu node i k).fileContext = true := by
  have hcall : isCallExpression (stringOr node "kind") = false := by
    unfold childFileContext at h
    have hkind := List.contains_iff_mem.1 h
    simp only [List.mem_cons, List.not_mem_nil, or_false] at hkind
    rcases hkind with hkind | hkind | hkind <;> rw [hkind] <;> decide
  unfold childUseContext
  rw [if_neg (by rw [hcall]; decide)]
  exact h

theorem StandsInCode.inCode {root p : UsePosition} (h : StandsInCode tu root p) {inside : UseContext}
    (henter : enterNode tu p.2.2 p.1.label p.2.1 = some inside) : InCode inside := by
  obtain ⟨enclosing, -, hvisits, henclosing⟩ := h
  -- along the way down from the enclosing declaration
  induction hvisits generalizing inside with
  | refl =>
    rcases henclosing with hfunction | ⟨hkind, parent, -, hparent, hfile⟩
    · exact enterNode_function hfunction henter
    · obtain ⟨outside, k, -, hcontext⟩ := descends_context hparent
      exact enterNode_variable hkind (by rw [hcontext]; exact childUseContext_file hfile _ _) henter
  | tail _ hlast ih =>
    obtain ⟨outside, k, houtside, hcontext⟩ := descends_context hlast
    exact InCode.enter (by rw [hcontext]; exact (ih houtside).child _ _) henter

end Calls

/-! ## No call in code is dropped -/

/-- After the walks over `ast`, every known function that the callee of a visited call refers to has been
recorded, if the call stands where `P` says. -/
def CallsObserved (tu : UnitContext) (P : UsePosition → UsePosition → Prop) : Prop :=
  ∀ (ast : Node) (i : ScopeContext) (j : UseContext) (s₀ s s' : TranslationUnitState),
    collectDeclarations tu ast i s₀ = .ok () s → collectUses tu ast j s = .ok () s' →
    ∀ p, Visits (visitUse tu) (ast, j, s) p → isCallExpression (kindOf p) = true → P (ast, j, s) p →
    ∀ callee ∈ p.1.children.head?, ∀ id ∈ collectReferenceIds callee, Known s id →
      ∃ d, s'.declarations.lookup id = some d ∧ Recorded s'.graph d

/-- What the kind of a call rules out. -/
theorem call_kind {node : Value} (h : isCallExpression (stringOr node "kind") = true) :
    isFunctionKind (stringOr node "kind") = false ∧ stringOr node "kind" ≠ lit "VarDecl" ∧ isAssignment node = false := by
  have hkind := List.contains_iff_mem.1 h
  simp only [List.mem_cons, List.not_mem_nil, or_false] at hkind
  unfold isAssignment
  rcases hkind with hkind | hkind | hkind | hkind <;> rw [hkind] <;> refine ⟨by decide, by decide, ?_⟩ <;>
    exact Bool.or_eq_false_iff.2 ⟨Bool.and_eq_false_imp.2 fun h => absurd h (by decide), by decide⟩

theorem enterNode_call {tu : UnitContext} {node : Value} (h : isCallExpression (stringOr node "kind") = true)
    (s : TranslationUnitState) (i : UseContext) : enterNode tu s node i = some i := by
  obtain ⟨hfunction, hvariable, -⟩ := call_kind h
  unfold enterNode
  rw [if_neg (by rw [hfunction]; decide), if_neg fun h => hvariable h.1]

theorem recordUses_call {tu : UnitContext} {t callee : Node} {arguments : List Node}
    (h : isCallExpression (stringOr t.label "kind") = true) (hchildren : t.children = callee :: arguments)
    (i : UseContext) : recordUses tu i t = recordCall tu i t callee arguments := by
  obtain ⟨-, hvariable, hassignment⟩ := call_kind h
  unfold recordUses
  rw [if_neg hvariable, if_neg (by rw [hassignment]; decide), if_pos h, hchildren]

theorem callsObserved (tu : UnitContext) : CallsObserved tu (StandsInCode tu) := by
  intro ast i j s₀ s s' _ huses p hvisits hcall hcode callee hcallee id hid hknown
  obtain ⟨below, s₁, hvisit, hto, hfrom⟩ :=
    Visits.returned Grows.refl Grows.trans (fun s₀ t i => visitUse_keeps (grows_steps s₀) t i) hvisits huses
  have henter : enterNode tu p.2.2 p.1.label p.2.1 = some p.2.1 := enterNode_call hcall _ _
  have hcontext : InCode p.2.1 := hcode.inCode henter
  rcases visitUse_ok hvisit with ⟨hnone, -, -⟩ | ⟨inside, hinside, hrecord, -⟩
  · rw [henter] at hnone
    cases hnone
  · rw [henter] at hinside
    cases hinside
    obtain ⟨arguments, hchildren⟩ := List.head?_eq_some_iff.1 hcallee
    rw [recordUses_call hcall hchildren] at hrecord
    obtain ⟨d, hd, hrecorded⟩ := recordCall_recorded hcontext hrecord hid (hknown.grows hto)
    exact ⟨d, hfrom.declarations hd, hrecorded.grows hfrom⟩

/-! ## Calls outside code -/

def ofKind (kind : String) (members : List (Bytes × Value)) : Value :=
  .object ((lit "kind", .string (lit kind)) :: members)

def inner (items : List Value) : Bytes × Value := (lit "inner", .array items)

/-- A call of the function whose id is `0x1`. -/
def callOfF : Value :=
  ofKind "CallExpr" [inner [ofKind "DeclRefExpr"
    [(lit "referencedDecl", ofKind "FunctionDecl" [(lit "id", .string (lit "0x1"))])]]]

def recordS : Value := ofKind "CXXRecordDecl" [(lit "name", .string (lit "S")), inner [ofKind "FieldDecl" [inner [callOfF]]]]

/-- `int f() { return 1; }` and `struct S { int n = f(); };`. -/
def memberInitializer : Value :=
  ofKind "TranslationUnitDecl" [inner [
    ofKind "FunctionDecl" [(lit "id", .string (lit "0x1")), (lit "name", .string (lit "f")),
      (lit "mangledName", .string (lit "_Z1fv")), inner [ofKind "CompoundStmt" []]],
    recordS]]

/-- What is known before the walk over uses. -/
def declaredF : TranslationUnitState :=
  endState (collectDeclarations projectUnit (node memberInitializer) { inheritedFile := projectUnit.command.file })
    (initialUnit projectUnit)

/-- The file of a node is in the project and not excluded. -/
def InIndexedFile (tu : UnitContext) (_ p : UsePosition) : Prop :=
  hasIndexedBody (symbolScope tu (nodeFile tu p.1.label p.2.1.inheritedFile)) = true

/-- The call in the default member initializer leaves no trace. -/
theorem memberInitializer_dropped : ¬ CallsObserved projectUnit (InIndexedFile projectUnit) := by
  intro h
  let context : UseContext := { inheritedFile := projectUnit.command.file }
  have hrecord : Descends (visitUse projectUnit) (node memberInitializer, context, declaredF)
      (node recordS, { context with fileContext := true }, declaredF) := ⟨_, _, 1, rfl, rfl, rfl, rfl⟩
  have hfield : Descends (visitUse projectUnit) (node recordS, { context with fileContext := true }, declaredF)
      (node (ofKind "FieldDecl" [inner [callOfF]]), context, declaredF) := ⟨_, _, 0, rfl, rfl, rfl, rfl⟩
  have hcall : Descends (visitUse projectUnit) (node (ofKind "FieldDecl" [inner [callOfF]]), context, declaredF)
      (node callOfF, context, declaredF) := ⟨_, _, 0, rfl, rfl, rfl, rfl⟩
  obtain ⟨d, -, hrecorded⟩ := h (node memberInitializer) { inheritedFile := projectUnit.command.file } context
    (initialUnit projectUnit) declaredF declaredF rfl rfl (node callOfF, context, declaredF)
    (((Relation.ReflTransGen.single hrecord).tail hfield).tail hcall) rfl rfl _ rfl (lit "0x1") (by decide) (.inl rfl)
  rcases hrecorded with ⟨e, he, -⟩ | ⟨r, hr, -⟩ | ⟨e, he, -⟩
  · exact List.not_mem_nil he
  · exact List.not_mem_nil hr
  · exact List.not_mem_nil he

end Ast

end CxxDead
