import CxxDead.Uses
/-!
# What the walk over uses can see

Read off an AST and the state before the walk, without running it: which function
an id denotes, what an expression can stand for, which nodes the walk enters and in
which order, and whether it comes upon the function with a given key at one of them.
-/

namespace CxxDead

open Lib Json CxxDead.Graph

namespace Ast

/-! ## Names -/

section Names
variable (s : TranslationUnitState) (key : Bytes)

def knownSymbols : List Symbol := s.graph.symbols ++ s.opaqueDeclarations.map (·.2)

/-- A known symbol with this key satisfies `p`. -/
def knows (p : Symbol → Bool) : Bool := (knownSymbols s).any fun symbol => symbol.key == key && p symbol

/-- The symbol of the graph with this key satisfies `p`. -/
def holds (p : Symbol → Bool) : Bool := s.graph.symbols.any fun symbol => symbol.key == key && p symbol

/-- The key of the function that is declared under an id. -/
def denotedKey (id : Bytes) : Option Bytes :=
  match s.declarations.lookup id with
  | some d => some (s.graph.keyOf d)
  | none => (s.opaqueDeclarations.lookup id).map (·.key)

def denotes (id : Bytes) : Bool := denotedKey s id == some key

/-- The expression refers to the function. -/
def refersTo (t : Node) : Bool := (collectReferenceIds t).any (denotes s key)

/-- The function is a call operator of the type. -/
def operates (type : Bytes) : Bool :=
  type != [] && knows s key (·.name == lit "operator()") && knows s key fun symbol => namesEquivalent symbol.className type

/-- The function is a destructor or, with this signature, a constructor of the type. -/
def constructs (type : Bytes) (signature : Option Bytes) : Bool :=
  type != [] && knows s key (fun symbol => namesEquivalent symbol.className type) &&
    ((knows s key (·.kind == .constructor) && knows s key fun symbol => signature.all (symbol.signature == ·)) ||
      knows s key (·.kind == .destructor))

/-- The class of the function's symbol is settled and is the type. -/
def belongsTo (type : Bytes) (symbol : Symbol) : Bool :=
  type != [] && symbol.className != [] && namesEquivalent symbol.className type

def surelyOperates (type : Bytes) : Bool :=
  holds s key fun symbol => symbol.name == lit "operator()" && belongsTo type symbol

def surelyConstructs (type : Bytes) (signature : Option Bytes) : Bool :=
  holds s key fun symbol => belongsTo type symbol &&
    ((symbol.kind == .constructor && signature.all fun x => symbol.signature != [] && symbol.signature == x &&
      hasIndexedBody symbol.scope) || symbol.kind == .destructor)

mutual

/-- The ids of the call operators of a lambda expression. -/
def lambdaOperatorIds : Node → List Bytes
  | .node value children =>
    if stringOr value "kind" = lit "CXXMethodDecl" ∧ stringOr value "name" = lit "operator()" then [stringOr value "id"]
    else allLambdaOperatorIds children

def allLambdaOperatorIds : List Node → List Bytes
  | [] => []
  | t :: ts => lambdaOperatorIds t ++ allLambdaOperatorIds ts

end

/-! ## Sight -/

/-- How an expression is seen to stand for the function without referring to it: by a lambda's call operator
that is declared under an id, by a type that is called, by a type that is constructed with a constructor of a
signature, and by a variable. A callee operand that refers to a function is not looked at as a value. -/
structure Sight where
  declares : Bytes → Bool
  operates : Bytes → Bool
  constructs : Bytes → Option Bytes → Bool
  bound : Bytes → Bool
  byValue : Node → Bool

/-- A configured rule takes the callee operand itself for the callback: one more than its index is zero. -/
def takesCallee (tu : UnitContext) : Bool :=
  tu.options.callbackRegistrationRules.any fun rule => rule.argumentIndex + 1 == 0

/-- The expression refers to no known function. -/
def refersToNothing (t : Node) : Bool := !(collectReferenceIds t).any fun id => (denotedKey s id).isSome

/-- Whatever may be, if these variables are bound to the function. -/
def possible (tu : UnitContext) (bound : List Bytes) : Sight where
  declares := denotes s key
  operates := operates s key
  constructs := constructs s key
  bound := bound.contains
  byValue callee := takesCallee tu || refersToNothing s callee

/-- What is bound to be, whatever has been merged and assigned on the way. -/
def certain : Sight where
  declares id := (s.declarations.lookup id).any fun d => s.graph.keyOf d == key
  operates := surelyOperates s key
  constructs := surelyConstructs s key
  bound _ := false
  byValue := refersToNothing s

variable (sight : Sight)

mutual

/-- The function is among the callable objects that the expression stands for. -/
def standsFor : Node → Bool
  | .node value children =>
    if stringOr value "kind" = lit "LambdaExpr" then (lambdaOperatorIds (.node value children)).any sight.declares
    else
      (ownVariableId value).any sight.bound ||
        (isReferenceKind (stringOr value "kind") && refersTo s key (.node value children)) ||
        sight.operates (normalizeType (desugaredTypeString value)) ||
        (!(isCallExpression (stringOr value "kind") || isFunctionKind (stringOr value "kind")) &&
          anyStandsFor children)

def anyStandsFor : List Node → Bool
  | [] => false
  | t :: ts => standsFor t || anyStandsFor ts

end

/-- A factory that makes an owning pointer constructs the pointer's element. -/
def factoryConstructs (call callee : Node) : Bool :=
  match factoryCall call callee with
  | none => false
  | some (_, element) => sight.constructs (normalizeType element) none

def UseContext.inCode (i : UseContext) : Bool := i.caller.isSome || i.globalInitializer

def calleeSeen (call callee : Node) : Bool :=
  refersTo s key callee || (sight.byValue callee && standsFor s key sight callee) || factoryConstructs sight call callee

/-- The walk comes upon the function at this node, in the context `i` that holds inside it. -/
def sees (i : UseContext) (t : Node) : Bool :=
  -- a variable is bound and an assignment ends that: neither is a fact
  if stringOr t.label "kind" = lit "VarDecl" then false
  else if isAssignment t.label then false
  else if isCallExpression (stringOr t.label "kind") then
    match t.children with
    | [] => false
    | callee :: arguments => (i.inCode && calleeSeen s key sight t callee) || anyStandsFor s key sight arguments
  else if stringOr t.label "kind" = lit "CXXConstructExpr" ∨ stringOr t.label "kind" = lit "CXXTemporaryObjectExpr" then
    let type := desugaredTypeString t.label
    let constructorType := typeString t.label "ctorType"
    (i.inCode && sight.constructs (normalizeType type) (if constructorType = [] then none else some constructorType)) ||
      (containsText (lit "std::function<") (normalizeType type) && anyStandsFor s key sight t.children)
  else if !i.calleePosition && isReferenceKind (stringOr t.label "kind") then refersTo s key t
  else false

end Names

/-! ## The way of the walk -/

mutual

/-- The ids that are looked up to tell which callable objects an expression stands for. -/
def lookedUp : Node → List Bytes
  | .node value children =>
    if stringOr value "kind" = lit "LambdaExpr" then []
    else
      (if isReferenceKind (stringOr value "kind") then collectReferenceIds (.node value children) else []) ++
        if isCallExpression (stringOr value "kind") || isFunctionKind (stringOr value "kind") then []
        else allLookedUp children

def allLookedUp : List Node → List Bytes
  | [] => []
  | t :: ts => lookedUp t ++ allLookedUp ts

end

/-- The ids that are looked up at a node, in the context that holds inside it. -/
def lookedUpAt (i : UseContext) (t : Node) : List Bytes :=
  if stringOr t.label "kind" = lit "VarDecl" then allLookedUp t.children
  else if isAssignment t.label then []
  else if isCallExpression (stringOr t.label "kind") then
    match t.children with
    | [] => []
    | callee :: arguments => collectReferenceIds callee ++ allLookedUp arguments
  else if stringOr t.label "kind" = lit "CXXConstructExpr" ∨ stringOr t.label "kind" = lit "CXXTemporaryObjectExpr" then
    if containsText (lit "std::function<") (normalizeType (desugaredTypeString t.label)) then allLookedUp t.children
    else []
  else if !i.calleePosition && isReferenceKind (stringOr t.label "kind") then collectReferenceIds t
  else []

/-- The walk so far: the ids that it has looked up, and the variables that may be bound to the function. -/
structure Way where
  looked : List Bytes := []
  bound : List Bytes := []

/-- A node that the walk enters, with the context inside it and the way to it. -/
structure Stop where
  inside : UseContext
  node : Node
  way : Way

section Way
variable (s : TranslationUnitState) (key : Bytes) (tu : UnitContext)

def boundAfter (bound : List Bytes) (t : Node) : List Bytes :=
  if stringOr t.label "kind" = lit "VarDecl" then
    if anyStandsFor s key (possible s key tu bound) t.children then stringOr t.label "id" :: bound else bound
  else if isAssignment t.label then
    match t.children with
    | [] => bound
    | left :: _ => bound.filter (· != referencedVariableId left)
  else bound

def Way.after (w : Way) (i : UseContext) (t : Node) : Way where
  looked := w.looked ++ lookedUpAt i t
  bound := boundAfter s key tu w.bound t

/-- The id is declared in the project, or has been looked up. -/
def Way.declares (w : Way) (id : Bytes) : Bool := (s.declarations.lookup id).isSome || w.looked.contains id

/-- Which function is the caller does not matter to what is seen. -/
def UseContext.anonymous (i : UseContext) : UseContext := { i with caller := i.caller.map fun _ => 0 }

/-- As `enterNode`, from the way to the node: a declaration outside the project counts once it has been looked up,
and has an indexed body if a function of the project has its key. -/
def openNode (w : Way) (node : Value) (i : UseContext) : Option UseContext :=
  if isFunctionKind (stringOr node "kind") then
    if w.declares s (stringOr node "id") = true ∧
        (denotedKey s (stringOr node "id")).any (fun k => holds s k fun symbol => hasIndexedBody symbol.scope) = true then
      some { i with caller := some 0, globalInitializer := false }
    else none
  else if stringOr node "kind" = lit "VarDecl" ∧ i.fileContext = true ∧ i.caller = none then
    if hasIndexedBody (symbolScope tu (nodeFile tu node i.inheritedFile)) then some { i with globalInitializer := true }
    else none
  else some i

mutual

/-- The nodes of a tree that the walk enters, in its order, and the way to its end. -/
def route : Node → UseContext → Way → List Stop × Way
  | .node value children, i, w =>
    match openNode s tu w value i with
    | none => ([], w)
    | some inside =>
      let below := routeAll children (childUseContext tu value inside) (w.after s key tu inside (.node value children))
      (⟨inside, .node value children, w⟩ :: below.1, below.2)

def routeAll : List Node → (Nat → UseContext) → Way → List Stop × Way
  | [], _, w => ([], w)
  | t :: ts, context, w =>
    let first := route t (context 0) w
    let rest := routeAll ts (fun k => context (k + 1)) first.2
    (first.1 ++ rest.1, rest.2)

end

/-- The nodes that the walk over all documents enters. -/
def stops (documents : List Value) : List Stop :=
  (routeAll s key tu (documents.map node) (fun _ => { inheritedFile := tu.command.file }) {}).1

/-- The function may be seen from here. -/
def Stop.sees (stop : Stop) : Bool := Ast.sees s key (possible s key tu stop.way.bound) stop.inside stop.node

/-- The function is certainly seen from here. -/
def Stop.shows (stop : Stop) : Bool := Ast.sees s key (certain s key) stop.inside stop.node

end Way

end Ast

end CxxDead
