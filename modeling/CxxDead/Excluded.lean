import CxxDead.Shown
/-!
# Excluded code

The walk over uses stops at functions without an indexed symbol and at namespace-scope
variables of files that are not indexed. It does not stop at other excluded code.

- `collectDocuments_influence`: nothing is recorded of a function that is seen from no node that
  the walk enters, something of a function that is certainly seen from one, and in the plain case
  something of each function that is seen.
- `excluded_influences`: the initializer of a class member in an excluded header has influence.
-/

namespace CxxDead

open Lib Json CxxDead.Graph

namespace Ast

/-! ## Before the walk over uses -/

/-- The declared functions are symbols. -/
def DeclaresSymbols (s : TranslationUnitState) : Prop :=
  ∀ {id d}, s.declarations.lookup id = some d → d < s.graph.symbols.length

/-- What is known when the walk over uses begins. -/
structure Declared (s : TranslationUnitState) : Prop where
  inv : s.graph.Inv
  declared : DeclaresSymbols s
  outsiders : Outsiders s
  bindings : s.callableBindings = []
  edges : s.graph.edges = []
  roots : ∀ r ∈ s.graph.roots, r.kind ≠ .globalInitializer
  escapes : s.graph.escapes = []

section Declared
variable {tu : UnitContext} {key : Bytes} {s s' : TranslationUnitState}

theorem initialUnit_declared (tu : UnitContext) : Declared (initialUnit tu) :=
  ⟨(initialUnit_wellCollected tu).built.inv, (fun h => nomatch h), (fun h => nomatch h), rfl, rfl,
    (fun _ h => nomatch h), rfl⟩

theorem recordContext_declared (node : Value) (scope : Bytes) (file : Path) :
    Keeps Declared (recordContext tu node scope file) := by
  have hset : ∀ s, Declared s → Declared (setContext node scope s) := fun s hs => by
    unfold setContext
    split
    · exact hs
    · exact ⟨hs.inv, hs.declared, hs.outsiders, hs.bindings, hs.edges, hs.roots, hs.escapes⟩
  unfold recordContext
  refine Keeps.ite (modify_keeps hset) (Keeps.ite (modify_keeps fun s hs => ?_) (Keeps.pure _))
  have hcontext := hset s hs
  exact ⟨hcontext.inv, hcontext.declared, hcontext.outsiders, hcontext.bindings, hcontext.edges, hcontext.roots,
    hcontext.escapes⟩

theorem addRootIf_declared (p : Bool) (id : SymbolId) {kind : RootKind} (hkind : kind ≠ .globalInitializer)
    (evidence : Evidence) : Keeps Declared (addRootIf p id kind evidence) := by
  refine Keeps.ite (fun s hs => ?_) (Keeps.pure _)
  have hinv := addRoot_inv id kind evidence s.graph hs.inv
  rw [onGraph_endState]
  unfold endState addRoot at *
  split at hinv <;> rename_i h <;> split at h <;> cases h
  · refine ⟨hinv, hs.declared, hs.outsiders, hs.bindings, hs.edges, fun r hr => ?_, hs.escapes⟩
    rcases mem_addFact.1 hr with hr | rfl
    · exact hs.roots r hr
    · exact hkind
  · exact hs

/-- Only what is indexed is taken to be defined. -/
theorem declaredSymbol_outsider {contexts : List (Bytes × Bytes)} {node : Value} {i : ScopeContext} {symbol : Symbol}
    (h : declaredSymbol tu contexts node i = .ok symbol) (hscope : symbol.scope = .externalOpaque) : Outsider symbol := by
  obtain ⟨identity, -, hpure⟩ := except_bind_ok_iff.1 h
  cases hpure
  refine ⟨hscope, ?_⟩
  show (hasIndexedBody (symbolScope tu _) && _ && _) = false
  rw [show symbolScope tu (nodeFile tu node i.inheritedFile) = .externalOpaque from hscope]
  rfl

theorem declare_declared (node : Value) {symbol : Symbol} (houtsider : symbol.scope = .externalOpaque → Outsider symbol)
    (file : Path) : Keeps Declared (declare tu node symbol file) := by
  refine Keeps.ite (Keeps.pure _) <| .of_triple <| Triple.ite (fun hscope => Triple.modify fun s hs => ?_) fun _ => ?_
  · refine ⟨hs.inv, hs.declared, fun {id other} hlookup => ?_, hs.bindings, hs.edges, hs.roots, hs.escapes⟩
    rw [lookup_cons_iff] at hlookup
    split at hlookup
    · cases hlookup
      exact houtsider hscope
    · exact hs.outsiders hlookup
  have hadd : Triple Declared (onGraph (addOrMergeSymbol symbol))
      (fun d s => Declared s ∧ d < s.graph.symbols.length) fun _ => Declared := by
    intro s hs
    cases hrun : onGraph (addOrMergeSymbol symbol) s with
    | error e s' =>
      rw [addSymbol_error hrun]
      exact hs
    | ok d s' =>
      obtain ⟨g, hgraph, rfl⟩ := onGraph_run hrun
      obtain ⟨hextends, hd, -⟩ := addOrMergeSymbol_spec hs.inv hgraph
      exact ⟨⟨Keeps.ok (addOrMergeSymbol_inv symbol) hs.inv hgraph,
        fun hfound => Nat.lt_of_lt_of_le (hs.declared hfound) hextends.length_le, hs.outsiders, hs.bindings,
        hextends.edges_eq.trans hs.edges, fun r hr => hs.roots r (hextends.roots_eq ▸ hr),
        hextends.escapes_eq.trans hs.escapes⟩, hd⟩
  have hroots : ∀ d, Keeps Declared (addDeclarationRoots tu d node symbol.internalLinkage file) := fun d =>
    (addRootIf_declared _ d (by decide) _).bind fun _ => (addRootIf_declared _ d (by decide) _).bind fun _ =>
      addRootIf_declared _ d (by decide) _
  refine hadd.bind fun d => Triple.bind (Triple.modify fun s hs => ?_) fun _ => Triple.of_keeps (hroots d)
  obtain ⟨hs, hlt⟩ := hs
  refine ⟨hs.inv, fun {id' d'} hd => ?_, hs.outsiders, hs.bindings, hs.edges, hs.roots, hs.escapes⟩
  rw [lookup_cons_iff] at hd
  split at hd
  · cases hd
    exact hlt
  · exact hs.declared hd

theorem collectContexts_declared (t : Node) (i : ScopeContext) : Keeps Declared (collectContexts tu t i) :=
  walk_keeps (fun _ _ => (recordContext_declared _ _ _).bind fun _ => Keeps.pure _) t i

theorem collectDeclarations_declared (t : Node) (i : ScopeContext) : Keeps Declared (collectDeclarations tu t i) := by
  refine walk_keeps (fun t i => ?_) t i
  have hfunction : Keeps Declared (declareFunction tu t.label i) := by
    refine get_keeps.bind fun s => ?_
    split
    · rename_i symbol hsymbol
      exact declare_declared _ (declaredSymbol_outsider hsymbol) _
    · exact throw_keeps _
  unfold visitDeclaration
  split
  · exact hfunction.bind fun _ => Keeps.pure _
  · exact Keeps.pure _

end Declared

/-! ## All documents -/

section Documents
variable (tu : UnitContext) (documents : List Value)

/-- The first two walks, each over all documents. -/
def declareDocuments : CollectM Unit := do
  documents.forM fun ast => collectContexts tu (node ast) { inheritedFile := tu.command.file }
  documents.forM fun ast => collectDeclarations tu (node ast) { inheritedFile := tu.command.file }

/-- The third walk, over all documents. -/
def useDocuments : CollectM Unit :=
  documents.forM fun ast => collectUses tu (node ast) { inheritedFile := tu.command.file }

theorem collectDocuments_eq :
    collectDocuments tu documents = declareDocuments tu documents >>= fun _ => useDocuments tu documents :=
  (bind_assoc _ _ _).symm

variable {tu documents} {key : Bytes} {s s' : TranslationUnitState}

theorem declareDocuments_declared (h : declareDocuments tu documents (initialUnit tu) = .ok () s) : Declared s := by
  have hkeeps : Keeps Declared (declareDocuments tu documents) :=
    (Keeps.forM (fun _ => collectContexts_declared _ _) _).bind fun _ =>
      Keeps.forM (fun _ => collectDeclarations_declared _ _) _
  exact hkeeps.ok (initialUnit_declared tu) h

theorem useDocuments_run (hdeclared : declareDocuments tu documents (initialUnit tu) = .ok () s)
    (hcollect : collectDocuments tu documents (initialUnit tu) = .ok () s') : useDocuments tu documents s = .ok () s' := by
  rw [collectDocuments_eq, bind_of_ok hdeclared] at hcollect
  exact hcollect

theorem Declared.steady (h : Declared s) : Steady s s := .refl h.outsiders h.inv h.declared

theorem Declared.untouched (h : Declared s) : Untouched key s [] s where
  toSteady := h.steady
  parts _ hsymbol := .of_known (List.mem_append.2 (.inl hsymbol))
  nothingNew := ⟨fun _ h _ => h, fun _ h _ => h, fun _ h _ => h⟩
  bindings hv := by
    rw [h.bindings] at hv
    cases hv

theorem Traced.new (h : Traced key s'.graph) (hs : Declared s) : ¬ NothingNew key s.graph s'.graph := by
  intro hnew
  rcases h with ⟨e, he, hkey⟩ | ⟨r, hr, hkind, hkey⟩ | ⟨e, he, hkey⟩
  · have hold := hnew.edges e he hkey
    rw [hs.edges] at hold
    cases hold
  · exact hs.roots r (hnew.roots r hr hkey) hkind
  · have hold := hnew.escapes e he hkey
    rw [hs.escapes] at hold
    cases hold

/-- The walk over all documents is one over siblings. -/
theorem useDocuments_eq (tu : UnitContext) (documents : List Value) : useDocuments tu documents =
    walkAll (visitUse tu) (documents.map node) fun _ => { inheritedFile := tu.command.file } := by
  unfold useDocuments
  induction documents with
  | nil => rfl
  | cons ast documents ih =>
    show (collectUses tu (node ast) _ >>= fun _ => documents.forM _) = _
    rw [ih]
    rfl

theorem useDocuments_nothingNew (hs : Declared s) (huses : useDocuments tu documents s = .ok () s')
    (hunseen : ∀ stop ∈ stops s key tu documents, stop.sees s key tu = false) : NothingNew key s.graph s'.graph := by
  rw [useDocuments_eq] at huses
  have hstart : ClearEnd key s {} s := ⟨.start hs.steady, hs.untouched, fun _ hd => absurd hd List.not_mem_nil⟩
  exact (collectAllUses_clear tu (documents.map node) (fun _ => { inheritedFile := tu.command.file }) {} s s' hstart
    hunseen huses).2.1.nothingNew

theorem useDocuments_traced (hs : Declared s) (huses : useDocuments tu documents s = .ok () s')
    (hshown : ∃ stop ∈ stops s key tu documents, stop.shows s key = true) : Traced key s'.graph := by
  rw [useDocuments_eq] at huses
  exact (collectAllUses_traced (certain_guides key s tu) (documents.map node)
    (fun _ => { inheritedFile := tu.command.file }) {} s s' (.start hs.steady) hs.steady (fun _ _ => trivial) huses).2
    hshown

/-- The function is declared in the project only, no rule takes a callee operand for the callback, and no variable
that may be bound to the function is declared again without it. -/
structure Plain (s : TranslationUnitState) (key : Bytes) (tu : UnitContext) (documents : List Value) : Prop where
  inside : Inside s key
  rules : takesCallee tu = false
  fair : ∀ stop ∈ stops s key tu documents, stop.rebinds s key tu = false

theorem Plain.traced (hplain : Plain s key tu documents) (hs : Declared s)
    (huses : useDocuments tu documents s = .ok () s')
    (hseen : ∃ stop ∈ stops s key tu documents, stop.sees s key tu = true) : Traced key s'.graph := by
  rw [useDocuments_eq] at huses
  have hfirm : Firm key s [] s := ⟨hs.steady, fun _ hsymbol _ => hsymbol, fun _ hv => absurd hv List.not_mem_nil⟩
  exact (collectAllUses_traced (possible_guides hplain.inside hs.inv hplain.rules) (documents.map node)
    (fun _ => { inheritedFile := tu.command.file }) {} s s' (.start hs.steady) hfirm hplain.fair huses).2 hseen

/-- The walk over uses adds no fact about a function that is seen from no node that it enters, and adds one about
a function that is certainly seen from one; in the plain case it adds one about each function that is seen. -/
theorem collectDocuments_influence (hdeclared : declareDocuments tu documents (initialUnit tu) = .ok () s)
    (hcollect : collectDocuments tu documents (initialUnit tu) = .ok () s') (key : Bytes) :
    ((∀ stop ∈ stops s key tu documents, stop.sees s key tu = false) → NothingNew key s.graph s'.graph) ∧
    ((∃ stop ∈ stops s key tu documents, stop.shows s key = true) → ¬ NothingNew key s.graph s'.graph) ∧
    (Plain s key tu documents →
      (NothingNew key s.graph s'.graph ↔ ∀ stop ∈ stops s key tu documents, stop.sees s key tu = false)) := by
  have hs := declareDocuments_declared hdeclared
  have huses := useDocuments_run hdeclared hcollect
  have hunseen : (∀ stop ∈ stops s key tu documents, stop.sees s key tu = false) → NothingNew key s.graph s'.graph :=
    useDocuments_nothingNew hs huses
  refine ⟨hunseen, fun hshown => (useDocuments_traced hs huses hshown).new hs, fun hplain => ⟨?_, hunseen⟩⟩
  intro hnew stop hstop
  rw [← Bool.not_eq_true]
  intro hsees
  exact (hplain.traced hs huses ⟨stop, hstop, hsees⟩).new hs hnew

end Documents

/-! ## Excluded initializers -/

section Mentions
variable (s : TranslationUnitState) (key : Bytes) (tu : UnitContext)

/-- The node itself refers to the function, calls it, or has a type that it is a call operator, a constructor
or a destructor of. -/
def mentions (t : Node) : Bool :=
  (ownReferenceIds t.label).any (denotes s key) ||
    operates s key (normalizeType (desugaredTypeString t.label)) ||
    constructs s key (normalizeType (desugaredTypeString t.label)) none ||
    (isCallExpression (stringOr t.label "kind") &&
      t.children.head?.any fun callee => refersTo s key callee || factoryConstructs (possible s key tu []) t callee)

mutual

/-- Whatever mentions the function stands in a subtree whose file is excluded. -/
def mentionsExcluded : Node → Path → Bool
  | .node value children, inheritedFile =>
    symbolScope tu (nodeFile tu value inheritedFile) == .excluded ||
      (!mentions s key tu (.node value children) && allMentionsExcluded children (nodeFile tu value inheritedFile))

def allMentionsExcluded : List Node → Path → Bool
  | [], _ => true
  | t :: ts, inheritedFile => mentionsExcluded t inheritedFile && allMentionsExcluded ts inheritedFile

end

end Mentions

/-- Excluded code adds no fact about any function. -/
def ExcludedHasNoInfluence (tu : UnitContext) : Prop :=
  ∀ (documents : List Value) (s s' : TranslationUnitState) (key : Bytes),
    declareDocuments tu documents (initialUnit tu) = .ok () s →
    collectDocuments tu documents (initialUnit tu) = .ok () s' →
    (∀ ast ∈ documents, mentionsExcluded s key tu (node ast) tu.command.file = true) →
    NothingNew key s.graph s'.graph

/-- `/p/generated` is excluded. -/
def excludingUnit : UnitContext :=
  { projectUnit with options := { projectUnit.options with excludedPaths := [⟨lit "/p/generated"⟩] } }

def functionF : Value :=
  ofKind "FunctionDecl" [(lit "id", .string (lit "0x1")), (lit "name", .string (lit "f")),
    (lit "mangledName", .string (lit "_Z1fv")), inner [ofKind "CompoundStmt" []]]

/-- A variable in `/p/generated/hooks.h` with the initializer `f`. -/
def hook : Value :=
  ofKind "VarDecl" [(lit "name", .string (lit "hook")),
    (lit "loc", .object [(lit "file", .string (lit "/p/generated/hooks.h"))]),
    inner [ofKind "DeclRefExpr" [(lit "referencedDecl", ofKind "FunctionDecl" [(lit "id", .string (lit "0x1"))])]]]

/-- `int f() { return 1; }` and, in the header, `struct Hooks { static inline int (*hook)() = f; };`. -/
def hookMember : Value :=
  ofKind "TranslationUnitDecl" [inner [functionF,
    ofKind "CXXRecordDecl" [(lit "name", .string (lit "Hooks")),
      (lit "loc", .object [(lit "file", .string (lit "/p/generated/hooks.h"))]), inner [hook]]]]

/-- The same with the variable at namespace scope. -/
def hookVariable : Value := ofKind "TranslationUnitDecl" [inner [functionF, hook]]

/-- What is known before the walk over the uses of a document, and after it. -/
def declaredIn (ast : Value) : TranslationUnitState :=
  endState (declareDocuments excludingUnit [ast]) (initialUnit excludingUnit)

def collectedFrom (ast : Value) : TranslationUnitState :=
  endState (collectDocuments excludingUnit [ast]) (initialUnit excludingUnit)

theorem declaredIn_run (ast : Value)
    (h : returns (declareDocuments excludingUnit [ast]) (initialUnit excludingUnit) = true) :
    declareDocuments excludingUnit [ast] (initialUnit excludingUnit) = .ok () (declaredIn ast) :=
  endState_of_returns h

theorem collectedFrom_run (ast : Value)
    (h : returns (collectDocuments excludingUnit [ast]) (initialUnit excludingUnit) = true) :
    collectDocuments excludingUnit [ast] (initialUnit excludingUnit) = .ok () (collectedFrom ast) :=
  endState_of_returns h

theorem excluded_influences : ¬ ExcludedHasNoInfluence excludingUnit := by
  intro h
  have hdeclared := declaredIn_run hookMember (by decide)
  have hcollected := collectedFrom_run hookMember (by decide)
  have hs := declareDocuments_declared hdeclared
  have hnew := h [hookMember] _ _ ((declaredIn hookMember).graph.keyOf 0) hdeclared hcollected (by decide)
  have htraced : Traced ((declaredIn hookMember).graph.keyOf 0) (collectedFrom hookMember).graph :=
    useDocuments_traced hs (useDocuments_run hdeclared hcollected) (by decide)
  exact htraced.new hs hnew

theorem hookVariable_unseen :
    Plain (declaredIn hookVariable) ((declaredIn hookVariable).graph.keyOf 0) excludingUnit [hookVariable] ∧
      NothingNew ((declaredIn hookVariable).graph.keyOf 0) (declaredIn hookVariable).graph
        (collectedFrom hookVariable).graph := by
  have hplain : Plain (declaredIn hookVariable) ((declaredIn hookVariable).graph.keyOf 0) excludingUnit [hookVariable] :=
    { inside := by unfold Inside; decide, rules := by decide, fair := by decide }
  have hinfluence := collectDocuments_influence (declaredIn_run hookVariable (by decide))
    (collectedFrom_run hookVariable (by decide)) ((declaredIn hookVariable).graph.keyOf 0)
  exact ⟨hplain, (hinfluence.2.2 hplain).2 (by decide)⟩

end Ast

end CxxDead
