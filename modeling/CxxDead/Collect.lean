import CxxDead.Location
import CxxDead.Index
/-!
# Collecting contexts and declarations

The first two walks over the AST of a translation unit: names of scopes and
bases of records, then a symbol for each function. Declarations outside the
project are kept aside until something refers to them.

- `collectContexts_keeps`, `collectDeclarations_keeps`: the unit's graph is built by graph
  operations and no record is listed twice, also when a walk throws.
-/

namespace CxxDead

open Lib Json CxxDead.Graph

namespace Ast

/-- What the walks over the AST fill. In a map the newest entry of a key counts. -/
structure TranslationUnitState where
  graph : Graph := {}
  contexts : List (Bytes × Bytes) := []
  declarations : List (Bytes × SymbolId) := []
  opaqueDeclarations : List (Bytes × Symbol) := []
  callableBindings : List (Bytes × List SymbolId) := []
  records : List (Bytes × List Bytes) := []
  diagnostics : List Bytes := []
  registrationRuleMatches : List Bool := []

abbrev CollectM := EStateM Exception TranslationUnitState

def onGraph {α : Type} (m : GraphM α) : CollectM α := fun s =>
  match m s.graph with
  | .ok a g => .ok a { s with graph := g }
  | .error e g => .error e { s with graph := g }

variable (tu : UnitContext)

/-! ## Contexts -/

/-- What a node hands down to its children. -/
structure ScopeContext where
  scope : Bytes := []
  inheritedFile : Path
  tuLocalContext : Bool := false

/-- A namespace or a named record opens a scope. -/
def childScope (node : Value) (scope : Bytes) : Bytes :=
  let kind := stringOr node "kind"
  if kind = lit "NamespaceDecl" then joinName scope (anonymousScopeName node)
  else if isRecordKind kind && !boolOr node "isImplicit" then joinName scope (stringOr node "name")
  else scope

/-- Append the bases that the record does not have. -/
def appendBases (records : List (Bytes × List Bytes)) (name : Bytes) (bases : List Bytes) : List (Bytes × List Bytes) :=
  match records with
  | [] => [(name, bases.foldl addFact [])]
  | (n, b) :: rest => if n = name then (n, bases.foldl addFact b) :: rest else (n, b) :: appendBases rest name bases

def baseNames (node : Value) : List Bytes :=
  match node.find (lit "bases") with
  | some (.array bases) => (bases.map fun base => normalizeType (typeString base "type")).filter (· ≠ [])
  | _ => []

def setContext (node : Value) (scope : Bytes) (s : TranslationUnitState) : TranslationUnitState :=
  if stringOr node "id" = [] then s else { s with contexts := (stringOr node "id", scope) :: s.contexts }

def recordContext (node : Value) (scope : Bytes) (file : Path) : CollectM Unit :=
  if stringOr node "kind" = lit "NamespaceDecl" then modify (setContext node scope)
  else if isRecordKind (stringOr node "kind") && !boolOr node "isImplicit" && stringOr node "name" != [] &&
      hasIndexedBody (symbolScope tu file) then
    modify fun s => { setContext node scope s with records := appendBases s.records scope (baseNames node) }
  else pure ()

/-- `collect_contexts` at one node. -/
def visitContext (t : Node) (i : ScopeContext) : CollectM (Option (Nat → ScopeContext)) := do
  let scope := childScope t.label i.scope
  let inheritedFile := nodeFile tu t.label i.inheritedFile
  recordContext tu t.label scope inheritedFile
  pure (some fun _ => { scope, inheritedFile })

def collectContexts : Node → ScopeContext → CollectM Unit := walk (visitContext tu)

/-! ## Declarations -/

def isLambda (node : Value) : Bool :=
  match node.find (lit "definitionData") with
  | some definition => boolOr definition "isLambda"
  | none => false

/-- Below a function or the record of a lambda everything is local to the translation unit. -/
def childTuLocalContext (node : Value) (tuLocalContext : Bool) : Bool :=
  let kind := stringOr node "kind"
  let ofLambda :=
    if kind = lit "NamespaceDecl" then false
    else if isRecordKind kind && !boolOr node "isImplicit" then false
    else kind == lit "CXXRecordDecl" && isLambda node
  tuLocalContext || ofLambda || isFunctionKind kind

/-- The scope of the declaration's semantic parent, if that has been seen. -/
def ownerScope (contexts : List (Bytes × Bytes)) (node : Value) (scope : Bytes) : Bytes :=
  let contextId := stringOr node "parentDeclContextId"
  if contextId = [] then scope else (contexts.lookup contextId).getD scope

/-- The symbol of a function, as its declaration at `node` describes it. -/
def declaredSymbol (contexts : List (Bytes × Bytes)) (node : Value) (i : ScopeContext) : Except Exception Symbol := do
  let file := nodeFile tu node i.inheritedFile
  let kind := stringOr node "kind"
  let mangled := stringOr node "mangledName"
  let name := stringOr node "name"
  let owner := ownerScope contexts node i.scope
  let qualified := joinName owner name
  let internal := isInternalSymbol node kind mangled qualified
  let signature := typeString node "type"
  let source := symbolSource tu node file
  let identity ← makeSymbolIdentity tu.options.configurationId [] mangled
    (if internal || i.tuLocalContext then identityPath tu.command.file tu.options.projectRoot else [])
    (fallbackIdentityAnchor qualified signature source tu.options.projectRoot)
  let scope := symbolScope tu file
  pure {
    key := stableSymbolKey identity
    identity
    name
    qualifiedName := qualified
    className := if symbolKind kind = .function then [] else owner
    signature
    source
    kind := symbolKind kind
    scope
    defined := hasIndexedBody scope && hasBody node && mangled != []
    internalLinkage := internal
    isVirtual := boolOr node "virtual" || hasOverrideAttribute node }

def addRootIf (p : Bool) (id : SymbolId) (kind : RootKind) (evidence : Evidence) : CollectM Unit :=
  if p then onGraph (addRoot id kind evidence) else pure ()

/-- The roots that a declaration is by itself. -/
def addDeclarationRoots (id : SymbolId) (node : Value) (internal : Bool) (file : Path) : CollectM Unit := do
  addRootIf (!internal && containsPath tu.options.publicHeaders file) id .publicApi
    ⟨lit "library_api", publicHeaderReason file⟩
  addRootIf (!internal && tu.options.inferSharedLibraryExports && hasBody node &&
      containsPath tu.options.selectedTargetSources tu.command.file && isExportVisible node tu.command)
    id .publicApi ⟨lit "library_api", lit "external definition has effective exported visibility"⟩
  addRootIf (stringOr node "name" == lit "main" && hasBody node) id .applicationEntryPoint
    ⟨lit "application_policy", lit "defined function named main is an application entry point"⟩

def declare (node : Value) (symbol : Symbol) (file : Path) : CollectM Unit :=
  if stringOr node "id" = [] ∨ symbol.key = [] ∨ symbol.scope = .excluded then pure ()
  else if symbol.scope = .externalOpaque then
    modify fun s => { s with opaqueDeclarations := (stringOr node "id", symbol) :: s.opaqueDeclarations }
  else do
    let id ← onGraph (addOrMergeSymbol symbol)
    modify fun s => { s with declarations := (stringOr node "id", id) :: s.declarations }
    addDeclarationRoots tu id node symbol.internalLinkage file

def declareFunction (node : Value) (i : ScopeContext) : CollectM Unit := do
  match declaredSymbol tu (← get).contexts node i with
  | .ok symbol => declare tu node symbol (nodeFile tu node i.inheritedFile)
  | .error e => throw e

/-- `collect_declarations` at one node. -/
def visitDeclaration (t : Node) (i : ScopeContext) : CollectM (Option (Nat → ScopeContext)) := do
  if isFunctionKind (stringOr t.label "kind") && !boolOr t.label "isImplicit" then declareFunction tu t.label i
  pure (some fun _ =>
    { scope := childScope t.label i.scope
      inheritedFile := nodeFile tu t.label i.inheritedFile
      tuLocalContext := childTuLocalContext t.label i.tuLocalContext })

def collectDeclarations : Node → ScopeContext → CollectM Unit := walk (visitDeclaration tu)

/-! ## What they keep -/

/-- The facts collected so far, with `rules` callback rules. -/
structure WellCollected (rules : Nat) (s : TranslationUnitState) : Prop where
  built : Built s.graph
  names_nodup : (s.records.map (·.1)).Nodup
  matches_length : s.registrationRuleMatches.length = rules

theorem appendBases_names (records : List (Bytes × List Bytes)) (name : Bytes) (bases : List Bytes) :
    (appendBases records name bases).map (·.1) =
      if name ∈ records.map (·.1) then records.map (·.1) else records.map (·.1) ++ [name] := by
  induction records with
  | nil => rfl
  | cons record records ih =>
    obtain ⟨n, b⟩ := record
    unfold appendBases
    by_cases hn : n = name
    · simp [hn]
    · have hne : name ≠ n := fun heq => hn heq.symm
      rw [if_neg hn]
      simp only [List.map_cons, ih, List.mem_cons, hne, false_or]
      split <;> simp

theorem appendBases_nodup {records : List (Bytes × List Bytes)} (h : (records.map (·.1)).Nodup) (name : Bytes)
    (bases : List Bytes) : ((appendBases records name bases).map (·.1)).Nodup := by
  rw [appendBases_names]
  split
  · exact h
  · rename_i hname
    exact List.nodup_append.2 ⟨h, List.nodup_singleton _, fun a ha b hb heq =>
      hname (List.mem_singleton.1 hb ▸ heq ▸ ha)⟩

section Keep
variable {tu} {rules : Nat}

theorem WellCollected.setGraph {s : TranslationUnitState} (h : WellCollected rules s) {g : Graph} (hg : Built g) :
    WellCollected rules { s with graph := g } := ⟨hg, h.names_nodup, h.matches_length⟩

theorem onGraph_keeps {α : Type} {m : GraphM α} (h : ∀ g, Built g → Built (endState m g)) :
    Keeps (WellCollected rules) (onGraph m) := by
  intro s hs
  have hm := h _ hs.built
  unfold endState onGraph at *
  cases hrun : m s.graph with
  | ok a g =>
    rw [hrun] at hm
    exact hs.setGraph hm
  | error e g =>
    rw [hrun] at hm
    exact hs.setGraph hm

theorem get_keeps {I : TranslationUnitState → Prop} : Keeps I (get : CollectM TranslationUnitState) := fun _ hs => hs

theorem modify_keeps {I : TranslationUnitState → Prop} {f : TranslationUnitState → TranslationUnitState}
    (h : ∀ s, I s → I (f s)) : Keeps I (modify f : CollectM PUnit) := h

theorem throw_keeps {α : Type} {I : TranslationUnitState → Prop} (e : Exception) : Keeps I (throw e : CollectM α) :=
  fun _ hs => hs

theorem setContext_keeps {s : TranslationUnitState} (h : WellCollected rules s) (node : Value) (scope : Bytes) :
    WellCollected rules (setContext node scope s) := by
  unfold setContext
  split
  · exact h
  · exact ⟨h.built, h.names_nodup, h.matches_length⟩

theorem recordContext_keeps (node : Value) (scope : Bytes) (file : Path) :
    Keeps (WellCollected rules) (recordContext tu node scope file) := by
  unfold recordContext
  split
  · exact modify_keeps fun s hs => setContext_keeps hs _ _
  · split
    · refine modify_keeps fun s hs => ?_
      have hcontext := setContext_keeps hs node scope
      exact ⟨hcontext.built, appendBases_nodup hs.names_nodup _ _, hcontext.matches_length⟩
    · exact Keeps.pure _

theorem collectContexts_keeps (t : Node) (i : ScopeContext) : Keeps (WellCollected rules) (collectContexts tu t i) := by
  refine walk_keeps (fun t i => ?_) t i
  exact (recordContext_keeps _ _ _).bind fun _ => Keeps.pure _

theorem addRootIf_keeps (p : Bool) (id : SymbolId) (kind : RootKind) (evidence : Evidence) :
    Keeps (WellCollected rules) (addRootIf p id kind evidence) := by
  unfold addRootIf
  split
  · exact onGraph_keeps fun g hg => .addRoot _ _ _ hg
  · exact Keeps.pure _

theorem declare_keeps (node : Value) (symbol : Symbol) (file : Path) :
    Keeps (WellCollected rules) (declare tu node symbol file) := by
  unfold declare
  split
  · exact Keeps.pure _
  · split
    · exact modify_keeps fun s hs => ⟨hs.built, hs.names_nodup, hs.matches_length⟩
    · refine (onGraph_keeps fun g hg => .addOrMergeSymbol _ hg).bind fun id => Keeps.bind ?_ fun _ => ?_
      · exact modify_keeps fun s hs => ⟨hs.built, hs.names_nodup, hs.matches_length⟩
      · exact (addRootIf_keeps _ _ _ _).bind fun _ => (addRootIf_keeps _ _ _ _).bind fun _ => addRootIf_keeps _ _ _ _

theorem declareFunction_keeps (node : Value) (i : ScopeContext) :
    Keeps (WellCollected rules) (declareFunction tu node i) := by
  refine get_keeps.bind fun s => ?_
  split
  · exact declare_keeps _ _ _
  · exact throw_keeps _

theorem collectDeclarations_keeps (t : Node) (i : ScopeContext) :
    Keeps (WellCollected rules) (collectDeclarations tu t i) := by
  refine walk_keeps (fun t i => ?_) t i
  unfold visitDeclaration
  split
  · exact (declareFunction_keeps _ _).bind fun _ => Keeps.pure _
  · exact Keeps.pure _

end Keep

end Ast

end CxxDead
