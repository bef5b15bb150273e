import CxxDead.References
import CxxDead.IndexRun
/-!
# Collecting uses

The third walk over the AST of a translation unit, which records calls,
constructions, escapes and callback registrations, and the facts that the three
walks collect together.

- `collectUses_keeps`: the walk keeps the unit's facts well collected.
- `collectFacts`: what is collected from the AST documents of a unit.
-/

namespace CxxDead

open Lib Json CxxDead.Graph

namespace Ast

variable (tu : UnitContext)

/-- What a node hands down to its children. -/
structure UseContext where
  caller : Option SymbolId := none
  globalInitializer : Bool := false
  calleePosition : Bool := false
  fileContext : Bool := false
  inheritedFile : Path

/-! ## Uses -/

def useReason : EdgeKind → Bytes
  | .directCall => lit "direct call expression"
  | .constructs => lit "constructor or destructor use"
  | .virtualDispatch => lit "virtual dispatch"
  | .callbackRegistration => lit "configured callback registration"
  | .provider => lit "configured provider edge"

/-- Outside functions and global initializers a use leaves no trace. -/
def addUse (i : UseContext) (kind : EdgeKind) (reason : Bytes) (target : SymbolId) : CollectM Unit :=
  match i.caller with
  | some caller => onGraph (addEdge caller target kind ⟨lit "clang_ast", if reason = [] then useReason kind else reason⟩)
  | none =>
    if i.globalInitializer then
      onGraph (addRoot target .globalInitializer
        ⟨lit "clang_ast", lit "use from a namespace-scope variable initializer"⟩)
    else pure ()

/-! ### Constructions -/

/-- The destructors of a class and its constructors, those of one signature if it is known. -/
def constructionTargets (g : Graph) (constructedType : Bytes) (constructorSignature : Option Bytes) : List SymbolId :=
  if constructedType = [] then []
  else (List.range g.symbols.length).filter fun id =>
    let symbol := g.symbol id
    namesEquivalent symbol.className constructedType &&
      ((symbol.kind == .constructor && constructorSignature.all (symbol.signature == ·)) || symbol.kind == .destructor)

/-- Whether there was anything to construct. -/
def addConstructionEdges (i : UseContext) (constructedType : Bytes) (constructorSignature : Option Bytes)
    (reason : Bytes) : CollectM Bool := do
  let targets := constructionTargets (← get).graph (normalizeType constructedType) constructorSignature
  targets.forM (addUse i .constructs reason)
  pure !targets.isEmpty

/-- The factory that a call of a function returning an owning pointer goes through, and the element. -/
def factoryCall (call callee : Node) : Option (Bytes × Bytes) :=
  if stringOr call.label "valueCategory" = lit "prvalue" then
    match owningPointerElementType (desugaredTypeString call.label) with
    | some element => if referencedFunctionName callee = [] then none else some (referencedFunctionName callee, element)
    | none => none
  else none

def unsupportedFactory (helper element : Bytes) : Bytes :=
  lit "unsupported owning-pointer factory " ++ helper ++
    lit "; conservatively retained construction and destruction for " ++ element

def addFactoryConstructionEdges (i : UseContext) (call callee : Node) : CollectM Unit :=
  match factoryCall call callee with
  | none => pure ()
  | some (helper, element) =>
    if helper = lit "make_unique" ∨ helper = lit "make_shared" then do
      let _ ← addConstructionEdges i element none (lit "standard smart-pointer factory construction")
    else do
      let matched ← addConstructionEdges i element none (lit "conservative owning-pointer factory construction")
      if matched then
        modify fun s => { s with diagnostics := s.diagnostics ++ [unsupportedFactory helper element] }

/-! ### Escapes and registrations -/

def addCallableEscapes (i : UseContext) (reason : Bytes) (expression : Node) : CollectM Unit := do
  let targets ← resolveCallableTargets expression
  targets.forM fun target => onGraph (addEscape target .callableObject ⟨lit "clang_ast", reason⟩ i.caller)

def ruleName (rule : CallbackRegistrationRule) : Bytes :=
  lit "callback registration rule " ++ describe rule.callee ++ ch ':' :: decimal rule.argumentIndex.toNat

def ruleEvidence (rule : CallbackRegistrationRule) : Evidence :=
  { provider := if rule.evidence.provider = [] then lit "callback_registration" else rule.evidence.provider
    reason :=
      if rule.evidence.reason = [] then
        lit "configured callback argument " ++ decimal rule.argumentIndex.toNat ++ lit " of " ++ describe rule.callee
      else rule.evidence.reason }

def registerCallback (i : UseContext) (evidence : Evidence) (callback : SymbolId) : CollectM Unit :=
  match i.caller with
  | some caller => onGraph (addEdge caller callback .callbackRegistration evidence)
  | none =>
    if i.globalInitializer then
      onGraph (addRoot callback .callbackRegistration
        { evidence with reason := evidence.reason ++ lit " from a namespace-scope initializer" })
    else pure ()

/-- One rule at a call; `operands` are the callee and the arguments. -/
def applyRule (i : UseContext) (targets : List SymbolId) (operands : List Node)
    (rule : CallbackRegistrationRule × Nat) : CollectM Unit := do
  let g := (← get).graph
  if targets.any fun target => symbolMatches (g.symbol target) rule.1.callee then
    modify fun s => { s with registrationRuleMatches := s.registrationRuleMatches.set rule.2 true }
    match operands[(rule.1.argumentIndex + 1).toNat]? with
    | none => throw (.runtimeError (ruleName rule.1 ++ lit " exceeds the registrar argument list"))
    | some argument =>
      let callbacks ← resolveCallableTargets argument
      if callbacks = [] then throw (.runtimeError (ruleName rule.1 ++ lit " did not resolve a callable argument"))
      else callbacks.forM (registerCallback i (ruleEvidence rule.1))
  else pure ()

/-! ### Expressions -/

/-- The function or the callable objects that a callee operand stands for. -/
def calleeTargets (callee : Node) : CollectM (List SymbolId) := do
  let targets ← resolveReferences callee
  if targets = [] then resolveCallableTargets callee else pure targets

def recordCall (i : UseContext) (call callee : Node) (arguments : List Node) : CollectM Unit := do
  let targets ← calleeTargets callee
  targets.forM (addUse i .directCall [])
  addFactoryConstructionEdges i call callee
  arguments.forM (addCallableEscapes i (lit "callable value passed outside a direct callee position"))
  tu.options.callbackRegistrationRules.zipIdx.forM (applyRule i targets (callee :: arguments))

/-- A variable is bound to the callable objects of its initializer. -/
def bindVariable (t : Node) : CollectM Unit := do
  let targets ← resolveAllCallableTargets [] t.children
  if targets ≠ [] then
    modify fun s => { s with callableBindings := (stringOr t.label "id", targets) :: s.callableBindings }

/-- An assignment ends what its left side was bound to. -/
def unbindVariable (t : Node) : CollectM Unit :=
  match t.children with
  | [] => pure ()
  | left :: _ =>
    modify fun s =>
      { s with callableBindings := s.callableBindings.filter fun binding => binding.1 != referencedVariableId left }

def isAssignment (node : Value) : Bool :=
  (stringOr node "kind" == lit "BinaryOperator" && stringOr node "opcode" == lit "=") ||
    stringOr node "kind" == lit "CompoundAssignOperator"

def recordConstruction (i : UseContext) (t : Node) : CollectM Unit := do
  let type := desugaredTypeString t.label
  let constructorType := typeString t.label "ctorType"
  let _ ← addConstructionEdges i type (if constructorType = [] then none else some constructorType)
    (lit "constructor or destructor use")
  if containsText (lit "std::function<") (normalizeType type) then
    t.children.forM (addCallableEscapes i (lit "callable value stored in std::function"))

def recordReference (i : UseContext) (t : Node) : CollectM Unit := do
  let targets ← resolveReferences t
  targets.forM fun target =>
    onGraph (addEscape target .addressTaken
      ⟨lit "clang_ast", lit "function referenced outside a callee position"⟩ i.caller)

/-- What a node records by itself, in the context `i` that holds inside it. -/
def recordUses (i : UseContext) (t : Node) : CollectM Unit :=
  -- a node has one kind, so at most one of the source's checks applies
  if stringOr t.label "kind" = lit "VarDecl" then bindVariable t
  else if isAssignment t.label then unbindVariable t
  else if isCallExpression (stringOr t.label "kind") then
    match t.children with
    | [] => pure ()
    | callee :: arguments => recordCall tu i t callee arguments
  else if stringOr t.label "kind" = lit "CXXConstructExpr" ∨ stringOr t.label "kind" = lit "CXXTemporaryObjectExpr" then
    recordConstruction i t
  else if !i.calleePosition && isReferenceKind (stringOr t.label "kind") then recordReference i t
  else pure ()

/-! ## The walk -/

/-- The context inside a node, or nothing if the walk does not enter it. -/
def enterNode (s : TranslationUnitState) (node : Value) (i : UseContext) : Option UseContext :=
  if isFunctionKind (stringOr node "kind") then
    match s.declarations.lookup (stringOr node "id") with
    | some id =>
      if hasIndexedBody (s.graph.symbol id).scope then some { i with caller := some id, globalInitializer := false }
      else none
    | none => none
  else if stringOr node "kind" = lit "VarDecl" ∧ i.fileContext = true ∧ i.caller = none then
    if hasIndexedBody (symbolScope tu (nodeFile tu node i.inheritedFile)) then some { i with globalInitializer := true }
    else none
  else some i

def childFileContext (node : Value) : Bool :=
  [lit "TranslationUnitDecl", lit "NamespaceDecl", lit "LinkageSpecDecl"].contains (stringOr node "kind")

/-- The context of the `k`-th child: a call's first child is its callee. -/
def childUseContext (node : Value) (i : UseContext) (k : Nat) : UseContext :=
  let inheritedFile := nodeFile tu node i.inheritedFile
  if isCallExpression (stringOr node "kind") then
    { i with calleePosition := k == 0, fileContext := false, inheritedFile }
  else { i with fileContext := childFileContext node, inheritedFile }

/-- `collect_uses` at one node. -/
def visitUse (t : Node) (i : UseContext) : CollectM (Option (Nat → UseContext)) := do
  match enterNode tu (← get) t.label i with
  | none => pure none
  | some inside =>
    recordUses tu inside t
    pure (some (childUseContext tu t.label inside))

def collectUses : Node → UseContext → CollectM Unit := walk (visitUse tu)

variable {tu} in
/-- A visit stops, or records what the node uses and goes on to the children. -/
theorem visitUse_ok {t : Node} {i : UseContext} {s s' : TranslationUnitState} {below : Option (Nat → UseContext)}
    (h : visitUse tu t i s = .ok below s') :
    (enterNode tu s t.label i = none ∧ below = none ∧ s' = s) ∨
      ∃ inside, enterNode tu s t.label i = some inside ∧ recordUses tu inside t s = .ok () s' ∧
        below = some (childUseContext tu t.label inside) := by
  obtain ⟨s₀, s₁, hget, hrest⟩ := bind_ok_iff.1 h
  cases hget
  cases henter : enterNode tu s t.label i with
  | none =>
    rw [henter] at hrest
    obtain ⟨rfl, rfl⟩ := pure_ok_iff.1 hrest
    exact .inl ⟨rfl, rfl, rfl⟩
  | some inside =>
    rw [henter] at hrest
    obtain ⟨_, s₂, hrecord, hpure⟩ := bind_ok_iff.1 hrest
    obtain ⟨rfl, rfl⟩ := pure_ok_iff.1 hpure
    exact .inr ⟨inside, rfl, hrecord, rfl⟩

variable {tu} in
theorem enterNode_inherited {s : TranslationUnitState} {node : Value} {i inside : UseContext}
    (h : enterNode tu s node i = some inside) : inside.inheritedFile = i.inheritedFile := by
  unfold enterNode at h
  split at h
  · split at h
    · split at h <;> cases h
      rfl
    · cases h
  · split at h
    · split at h <;> cases h
      rfl
    · cases h
      rfl

/-! ## What the walk keeps -/

section Keep
variable {tu} {I : TranslationUnitState → Prop}

theorem addUse_keeps (h : KeptByLooks I) (i : UseContext) (kind : EdgeKind) (reason : Bytes) (target : SymbolId) :
    Keeps I (addUse i kind reason target) := by
  unfold addUse
  split
  · exact h.edge _ _ _ _
  · split
    · exact h.root _ _ _
    · exact Keeps.pure _

theorem addConstructionEdges_keeps (h : KeptByLooks I) (i : UseContext) (type : Bytes) (signature : Option Bytes)
    (reason : Bytes) : Keeps I (addConstructionEdges i type signature reason) :=
  get_keeps.bind fun _ => (Keeps.forM (addUse_keeps h _ _ _) _).bind fun _ => Keeps.pure _

theorem addFactoryConstructionEdges_keeps (h : KeptByLooks I) (i : UseContext) (call callee : Node) :
    Keeps I (addFactoryConstructionEdges i call callee) := by
  unfold addFactoryConstructionEdges
  split
  · exact Keeps.pure _
  · split
    · exact (addConstructionEdges_keeps h _ _ _ _).bind fun _ => Keeps.pure _
    · refine (addConstructionEdges_keeps h _ _ _ _).bind fun matched => ?_
      split
      · exact modify_keeps fun s hs => h.diagnostic s _ hs
      · exact Keeps.pure _

theorem addCallableEscapes_keeps (h : KeptByLooks I) (i : UseContext) (reason : Bytes) (expression : Node) :
    Keeps I (addCallableEscapes i reason expression) :=
  (resolveCallableTargets_keeps h _).bind fun _ => Keeps.forM (fun _ => h.escape _ _ _ _) _

theorem registerCallback_keeps (h : KeptByLooks I) (i : UseContext) (evidence : Evidence) (callback : SymbolId) :
    Keeps I (registerCallback i evidence callback) := by
  unfold registerCallback
  split
  · exact h.edge _ _ _ _
  · split
    · exact h.root _ _ _
    · exact Keeps.pure _

theorem applyRule_keeps (h : KeptByLooks I) (i : UseContext) (targets : List SymbolId) (operands : List Node)
    (rule : CallbackRegistrationRule × Nat) : Keeps I (applyRule i targets operands rule) := by
  refine get_keeps.bind fun s => ?_
  simp only []
  split
  · refine (modify_keeps fun s hs => h.ruleMatch s _ hs).bind fun _ => ?_
    split
    · exact throw_keeps _
    · refine (resolveCallableTargets_keeps h _).bind fun callbacks => ?_
      split
      · exact throw_keeps _
      · exact Keeps.forM (registerCallback_keeps h _ _) _
  · exact Keeps.pure _

theorem calleeTargets_keeps (h : KeptByLooks I) (callee : Node) : Keeps I (calleeTargets callee) := by
  refine (resolveReferences_keeps h _).bind fun targets => ?_
  split
  · exact resolveCallableTargets_keeps h _
  · exact Keeps.pure _

theorem recordCall_keeps (h : KeptByLooks I) (i : UseContext) (call callee : Node) (arguments : List Node) :
    Keeps I (recordCall tu i call callee arguments) :=
  (calleeTargets_keeps h _).bind fun _ => (Keeps.forM (addUse_keeps h _ _ _) _).bind fun _ =>
    (addFactoryConstructionEdges_keeps h _ _ _).bind fun _ =>
    (Keeps.forM (addCallableEscapes_keeps h _ _) _).bind fun _ => Keeps.forM (applyRule_keeps h _ _ _) _

theorem bindVariable_keeps (h : KeptBySteps I) (t : Node) : Keeps I (bindVariable t) := by
  refine (resolveAllCallableTargets_keeps h.toKeptByLooks _ _).bind fun targets => ?_
  split
  · exact modify_keeps fun s hs => h.bindings s _ hs
  · exact Keeps.pure _

theorem unbindVariable_keeps (h : KeptBySteps I) (t : Node) : Keeps I (unbindVariable t) := by
  unfold unbindVariable
  split
  · exact Keeps.pure _
  · exact modify_keeps fun s hs => h.bindings s _ hs

theorem recordConstruction_keeps (h : KeptByLooks I) (i : UseContext) (t : Node) :
    Keeps I (recordConstruction i t) := by
  refine (addConstructionEdges_keeps h _ _ _ _).bind fun _ => ?_
  split
  · exact Keeps.forM (addCallableEscapes_keeps h _ _) _
  · exact Keeps.pure _

theorem recordReference_keeps (h : KeptByLooks I) (i : UseContext) (t : Node) : Keeps I (recordReference i t) :=
  (resolveReferences_keeps h _).bind fun _ => Keeps.forM (fun _ => h.escape _ _ _ _) _

/-- Binding variables apart, recording changes nothing but what looking does. -/
theorem recordOthers_keeps (h : KeptByLooks I) (i : UseContext) {t : Node}
    (hvariable : stringOr t.label "kind" ≠ lit "VarDecl") (hassignment : ¬ isAssignment t.label = true) :
    Keeps I (recordUses tu i t) := by
  unfold recordUses
  rw [if_neg hvariable, if_neg hassignment]
  split
  · split
    · exact Keeps.pure _
    · exact recordCall_keeps h _ _ _ _
  split
  · exact recordConstruction_keeps h i t
  split
  · exact recordReference_keeps h i t
  · exact Keeps.pure _

theorem recordUses_keeps (h : KeptBySteps I) (i : UseContext) (t : Node) : Keeps I (recordUses tu i t) := by
  by_cases hvariable : stringOr t.label "kind" = lit "VarDecl"
  · unfold recordUses
    rw [if_pos hvariable]
    exact bindVariable_keeps h t
  by_cases hassignment : isAssignment t.label = true
  · unfold recordUses
    rw [if_neg hvariable, if_pos hassignment]
    exact unbindVariable_keeps h t
  exact recordOthers_keeps h.toKeptByLooks i hvariable hassignment

theorem visitUse_keeps (h : KeptBySteps I) (t : Node) (i : UseContext) : Keeps I (visitUse tu t i) := by
  refine get_keeps.bind fun s => ?_
  split
  · exact Keeps.pure _
  · exact (recordUses_keeps h _ _).bind fun _ => Keeps.pure _

theorem collectUses_keeps (h : KeptBySteps I) (t : Node) (i : UseContext) : Keeps I (collectUses tu t i) :=
  walk_keeps (visitUse_keeps h) t i

end Keep

/-! ## The facts of a unit -/

theorem wellCollected_steps (rules : Nat) : KeptBySteps (WellCollected rules) where
  promote s id symbol _ _ hs := by
    have hkeeps : Keeps (WellCollected rules) (promote id symbol) :=
      (onGraph_keeps fun g hg => .addOrMergeSymbol _ hg).bind fun _ =>
        (modify_keeps fun s hs => ⟨hs.built, hs.names_nodup, hs.matches_length⟩).bind fun _ => Keeps.pure _
    exact hkeeps s hs
  edge _ _ _ _ := onGraph_keeps fun _ hg => .addEdge _ _ _ _ hg
  root _ _ _ := onGraph_keeps fun _ hg => .addRoot _ _ _ hg
  escape _ _ _ _ := onGraph_keeps fun _ hg => .addEscape _ _ _ _ hg
  bindings _ _ hs := ⟨hs.built, hs.names_nodup, hs.matches_length⟩
  diagnostic _ _ hs := ⟨hs.built, hs.names_nodup, hs.matches_length⟩
  ruleMatch _ _ hs := ⟨hs.built, hs.names_nodup, by rw [List.length_set]; exact hs.matches_length⟩

/-- The three walks, each over all documents. -/
def collectDocuments (documents : List Value) : CollectM Unit := do
  documents.forM fun ast => collectContexts tu (node ast) { inheritedFile := tu.command.file }
  documents.forM fun ast => collectDeclarations tu (node ast) { inheritedFile := tu.command.file }
  documents.forM fun ast => collectUses tu (node ast) { inheritedFile := tu.command.file }

theorem collectDocuments_keeps (rules : Nat) (documents : List Value) :
    Keeps (WellCollected rules) (collectDocuments tu documents) :=
  (Keeps.forM (fun _ => collectContexts_keeps _ _) _).bind fun _ =>
    (Keeps.forM (fun _ => collectDeclarations_keeps _ _) _).bind fun _ =>
    Keeps.forM (fun _ => collectUses_keeps (wellCollected_steps rules) _ _) _

/-- Nothing is collected at first. -/
def initialUnit : TranslationUnitState :=
  { registrationRuleMatches := List.replicate tu.options.callbackRegistrationRules.length false }

theorem initialUnit_wellCollected :
    WellCollected tu.options.callbackRegistrationRules.length (initialUnit tu) :=
  ⟨.empty, List.nodup_nil, List.length_replicate⟩

/-- The facts that a run of the indexer merges: the collectors meet what it asks of them. -/
def collectFacts (documents : List Value) :
    Except Exception (Indexer.CollectedFacts tu.options.callbackRegistrationRules.length) :=
  match hrun : collectDocuments tu documents (initialUnit tu) with
  | .error e _ => .error e
  | .ok _ s =>
    have hs : WellCollected tu.options.callbackRegistrationRules.length s :=
      (collectDocuments_keeps tu _ documents).ok (initialUnit_wellCollected tu) hrun
    .ok {
      graph := s.graph
      diagnostics := s.diagnostics
      ruleMatches := s.registrationRuleMatches
      records := s.records
      built := hs.built
      matches_length := hs.matches_length
      names_nodup := hs.names_nodup }

end Ast

end CxxDead
