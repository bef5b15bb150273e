import CxxDead.Path
import CxxDead.Lib.Sorting
import CxxDead.Lib.Throwing
import Mathlib.Data.Prod.Lex
import Mathlib.Order.WithBot
/-!
# The neutral graph

Symbols, edges, roots, escapes and suppressions, and the operations that build a
`Graph`. A symbol's id is its position. The operations run in `GraphM`, which
keeps the graph as it stands when they throw.
-/

namespace CxxDead

open Lib

abbrev SymbolId := Nat

inductive SymbolKind where
  | function | method | constructor | destructor | synthetic
deriving DecidableEq, Inhabited, Repr

inductive SymbolScope where
  | reportable | indexed | externalOpaque | excluded
deriving DecidableEq, Repr

inductive EdgeKind where
  | directCall | constructs | virtualDispatch | callbackRegistration | provider
deriving DecidableEq, Repr

inductive RootKind where
  | applicationEntryPoint | globalInitializer | manual | callbackRegistration | provider | publicApi
deriving DecidableEq, Repr

inductive EscapeKind where
  | addressTaken | callableObject | provider
deriving DecidableEq, Repr

inductive IdentityQuality where
  | stable | fallback
deriving DecidableEq, Repr

/-! The enumerations' underlying integers, which order and store them. -/

def SymbolKind.code : SymbolKind → Nat
  | .function => 0 | .method => 1 | .constructor => 2 | .destructor => 3 | .synthetic => 4

def SymbolScope.code : SymbolScope → Nat
  | .reportable => 0 | .indexed => 1 | .externalOpaque => 2 | .excluded => 3

def EdgeKind.code : EdgeKind → Nat
  | .directCall => 0 | .constructs => 1 | .virtualDispatch => 2 | .callbackRegistration => 3 | .provider => 4

def RootKind.code : RootKind → Nat
  | .applicationEntryPoint => 0 | .globalInitializer => 1 | .manual => 2 | .callbackRegistration => 3
  | .provider => 4 | .publicApi => 5

def EscapeKind.code : EscapeKind → Nat
  | .addressTaken => 0 | .callableObject => 1 | .provider => 2

def IdentityQuality.code : IdentityQuality → Nat
  | .stable => 0 | .fallback => 1

structure SymbolIdentity where
  configurationId : Bytes := lit "default"
  usr : Bytes := []
  linkageName : Bytes := []
  translationUnit : Bytes := []
  fallbackAnchor : Bytes := []
  quality : IdentityQuality := .fallback
deriving DecidableEq

structure Evidence where
  provider : Bytes := []
  reason : Bytes := []
deriving DecidableEq

structure SourcePoint where
  file : Path := {}
  line : UInt64 := 0
  column : UInt64 := 0
  offset : UInt64 := 0
  tokenLength : UInt64 := 0
deriving DecidableEq

structure SourceExtent where
  location : SourcePoint := {}
  begin : SourcePoint := {}
  «end» : SourcePoint := {}
deriving DecidableEq

structure SymbolSource where
  spelling : SourceExtent := {}
  expansion : Option SourceExtent := none
deriving DecidableEq

structure Symbol where
  key : Bytes := []
  identity : SymbolIdentity := {}
  name : Bytes := []
  qualifiedName : Bytes := []
  className : Bytes := []
  signature : Bytes := []
  source : SymbolSource := {}
  kind : SymbolKind := .function
  scope : SymbolScope := .externalOpaque
  defined : Bool := false
  internalLinkage : Bool := false
  isVirtual : Bool := false
deriving DecidableEq

structure Edge where
  «from» : SymbolId
  «to» : SymbolId
  kind : EdgeKind
  evidence : Evidence
deriving DecidableEq

structure Root where
  symbol : SymbolId
  kind : RootKind
  evidence : Evidence
deriving DecidableEq

structure Escape where
  symbol : SymbolId
  «from» : Option SymbolId
  kind : EscapeKind
  evidence : Evidence
deriving DecidableEq

structure Suppression where
  symbol : SymbolId
  evidence : Evidence
deriving DecidableEq

/-- What the operations throw. -/
inductive Exception where
  | invalidArgument (what : Bytes)
  | outOfRange (what : Bytes)
  | runtimeError (what : Bytes)
deriving DecidableEq

/-- `std::filesystem::absolute`, which refuses the empty path. -/
def Path.absolute (currentPath : Except Exception Path) (path : Path) : Except Exception Path :=
  if path.isEmpty then .error (.runtimeError (lit "filesystem error: cannot make absolute path: Invalid argument []"))
  else if path.isAbsolute then .ok path
  else currentPath.map fun cwd => cwd.append path

theorem Path.absolute_ok_iff {cwd path full : Path} :
    path.absolute (.ok cwd) = .ok full ↔ path.isEmpty = false ∧ full = cwd.append path := by
  unfold Path.absolute
  split
  · rename_i hempty
    exact iff_of_false nofun fun h => absurd (hempty.symm.trans h.1) (by decide)
  · rename_i hne
    have happend : (if path.isAbsolute then .ok path else (Except.ok cwd).map fun cwd => cwd.append path) =
        (.ok (cwd.append path) : Except Exception Path) := by
      split
      · rename_i habsolute
        rw [Path.append, habsolute, Bool.true_or, if_pos rfl]
      · rfl
    rw [happend]
    exact ⟨fun h => ⟨Bool.eq_false_iff.2 hne, (Except.ok.inj h).symm⟩, fun h => congrArg _ h.2.symm⟩

structure Graph where
  symbols : List Symbol := []
  edges : List Edge := []
  keyToId : List (Bytes × SymbolId) := []
  roots : List Root := []
  escapes : List Escape := []
  suppressions : List Suppression := []
deriving DecidableEq

abbrev GraphM := EStateM Exception Graph

/-- `symbols()[id]`, which the code only evaluates for ids in range. -/
def Graph.symbol (g : Graph) (id : SymbolId) : Symbol := g.symbols.getD id {}

/-! ## Predicates on kinds and scopes -/

def isTraversable : EdgeKind → Bool
  | .directCall | .constructs | .virtualDispatch | .callbackRegistration | .provider => true

def EdgeKind.isProvider : EdgeKind → Bool
  | .callbackRegistration | .provider => true
  | _ => false

def RootKind.isProvider : RootKind → Bool
  | .callbackRegistration | .provider => true
  | _ => false

def isPublicApi : RootKind → Bool
  | .publicApi => true
  | _ => false

def hasIndexedBody : SymbolScope → Bool
  | .reportable | .indexed => true
  | _ => false

def isReportable : SymbolScope → Bool
  | .reportable => true
  | _ => false

def primarySourceExtent (symbol : Symbol) : SourceExtent :=
  symbol.source.expansion.getD symbol.source.spelling

/-! ## Identities -/

def makeSymbolIdentity (configurationId usr linkageName translationUnit fallbackAnchor : Bytes) :
    Except Exception SymbolIdentity :=
  if configurationId = [] then
    .error (.invalidArgument (lit "configuration identity cannot be empty"))
  else
    let quality : IdentityQuality := if linkageName ≠ [] ∨ usr ≠ [] then .stable else .fallback
    if quality = .fallback ∧ fallbackAnchor = [] then
      .error (.invalidArgument (lit "fallback symbol identity requires a source anchor"))
    else .ok { configurationId, usr, linkageName, translationUnit, fallbackAnchor, quality }

def appendComponent (label value : Bytes) : Bytes :=
  ch '|' :: label ++ ch '=' :: decimal value.length ++ ch ':' :: value

def stableSymbolKey (identity : SymbolIdentity) : Bytes :=
  lit "cxx-dead-symbol-v1" ++ appendComponent (lit "configuration") identity.configurationId ++
  (if identity.linkageName ≠ [] then
    appendComponent (lit "anchor") (lit "linkage") ++ appendComponent (lit "value") identity.linkageName
  else if identity.usr ≠ [] then
    appendComponent (lit "anchor") (lit "usr") ++ appendComponent (lit "value") identity.usr
  else
    appendComponent (lit "anchor") (lit "fallback") ++ appendComponent (lit "value") identity.fallbackAnchor) ++
  appendComponent (lit "translation_unit") identity.translationUnit

/-! ## Merging two records of one symbol -/

def scopeRank : SymbolScope → Nat
  | .reportable => 3 | .indexed => 2 | .externalOpaque => 1 | .excluded => 0

/-- Both sides agree, or one says nothing. -/
def agreeOrEmpty (a b : Bytes) : Bool := a.isEmpty || b.isEmpty || a == b

/-- The checks of `merge_symbol`, in order, with the field each one names. -/
def compatibility (target source : Symbol) : List (Bool × String) := [
  (target.kind == source.kind, "kind"),
  (agreeOrEmpty target.qualifiedName source.qualifiedName, "qualified name"),
  (agreeOrEmpty target.name source.name, "name"),
  (agreeOrEmpty target.className source.className, "owning class"),
  (target.internalLinkage == source.internalLinkage, "linkage domain"),
  (target.identity.configurationId == source.identity.configurationId, "configuration identity"),
  (target.identity.linkageName == source.identity.linkageName, "linkage identity"),
  (target.identity.translationUnit == source.identity.translationUnit, "translation-unit identity"),
  (agreeOrEmpty target.identity.usr source.identity.usr, "Clang USR")]

/-- The order that picks between two locations of one symbol. -/
def sourceOrder (value : SymbolSource) : Bytes ×ₗ UInt64 ×ₗ UInt64 ×ₗ UInt64 :=
  let extent := value.expansion.getD value.spelling
  toLex (extent.location.file.genericString,
    toLex (extent.location.line, toLex (extent.location.column, extent.location.offset)))

def mergeIdentity (target source : SymbolIdentity) : SymbolIdentity :=
  { target with
    usr := if target.usr = [] then source.usr else target.usr
    fallbackAnchor :=
      if target.fallbackAnchor = [] ∨
          (source.fallbackAnchor ≠ [] ∧ source.fallbackAnchor < target.fallbackAnchor) then
        source.fallbackAnchor
      else target.fallbackAnchor
    quality := if source.quality = .stable then .stable else target.quality }

/-- `source` brings the definition that `target` lacks. -/
def preferredDefinition (target source : Symbol) : Bool := !target.defined && source.defined

def preferredScope (target source : Symbol) : Bool :=
  target.defined == source.defined && decide (scopeRank source.scope > scopeRank target.scope)

def canonicalPeer (target source : Symbol) : Bool :=
  target.defined == source.defined && target.scope == source.scope &&
    decide (sourceOrder source.source < sourceOrder target.source)

/-- What `merge_symbol` stores once its checks have passed. -/
def mergeFields (target source : Symbol) : Symbol :=
  let takes := preferredDefinition target source || preferredScope target source || canonicalPeer target source
  { target with
    identity := mergeIdentity target.identity source.identity
    defined := target.defined || source.defined
    scope := if scopeRank source.scope > scopeRank target.scope then source.scope else target.scope
    internalLinkage := target.internalLinkage || source.internalLinkage
    isVirtual := target.isVirtual || source.isVirtual
    source :=
      if ((primarySourceExtent target).location.file.isEmpty || takes) &&
          !(primarySourceExtent source).location.file.isEmpty then
        source.source
      else target.source
    qualifiedName := if target.qualifiedName = [] then source.qualifiedName else target.qualifiedName
    className := if target.className = [] then source.className else target.className
    signature := if target.signature = [] ∨ takes = true then source.signature else target.signature }

def mergeSymbol (target source : Symbol) : Except Exception Symbol :=
  match (compatibility target source).find? (!·.1) with
  | some (_, field) =>
    .error (.runtimeError (lit "incompatible " ++ lit field ++ lit " for stable symbol identity " ++ target.key))
  | none => .ok (mergeFields target source)

/-! ## Operations -/

namespace Graph

def findByKey (g : Graph) (key : Bytes) : Option SymbolId := g.keyToId.lookup key

/-- `emplace` on the key index: an entry that is there stays. -/
def emplaceKey (index : List (Bytes × SymbolId)) (key : Bytes) (id : SymbolId) : List (Bytes × SymbolId) :=
  if (index.lookup key).isSome then index else index ++ [(key, id)]

def addOrMergeSymbol (symbol : Symbol) : GraphM SymbolId := fun g =>
  if symbol.key = [] then .error (.invalidArgument (lit "symbol key cannot be empty")) g
  else if symbol.scope = .excluded then
    .error (.invalidArgument (lit "excluded symbols cannot be added to the graph")) g
  else
    match g.findByKey symbol.key with
    | some id =>
      match mergeSymbol (g.symbol id) symbol with
      | .error e => .error e g
      | .ok merged => .ok id { g with symbols := g.symbols.set id merged }
    | none =>
      .ok g.symbols.length
        { g with
          keyToId := emplaceKey g.keyToId symbol.key g.symbols.length
          symbols := g.symbols ++ [symbol] }

/-- Append a fact unless it is already there. -/
def addFact {α : Type} [DecidableEq α] (facts : List α) (fact : α) : List α :=
  if fact ∈ facts then facts else facts ++ [fact]

def addEdge («from» «to» : SymbolId) (kind : EdgeKind) (evidence : Evidence) : GraphM Unit := fun g =>
  if «from» ≥ g.symbols.length ∨ «to» ≥ g.symbols.length then
    .error (.outOfRange (lit "graph edge references an invalid symbol")) g
  else .ok () { g with edges := addFact g.edges ⟨«from», «to», kind, evidence⟩ }

def addRoot (id : SymbolId) (kind : RootKind) (evidence : Evidence) : GraphM Unit := fun g =>
  if id ≥ g.symbols.length then .error (.outOfRange (lit "invalid graph root")) g
  else .ok () { g with roots := addFact g.roots ⟨id, kind, evidence⟩ }

def addEscape (id : SymbolId) (kind : EscapeKind) (evidence : Evidence) («from» : Option SymbolId) :
    GraphM Unit := fun g =>
  if id ≥ g.symbols.length ∨ «from».any (fun f => decide (f ≥ g.symbols.length)) = true then
    .error (.outOfRange (lit "graph escape references an invalid symbol")) g
  else .ok () { g with escapes := addFact g.escapes ⟨id, «from», kind, evidence⟩ }

def addSuppression (id : SymbolId) (evidence : Evidence) : GraphM Unit := fun g =>
  if id ≥ g.symbols.length then .error (.outOfRange (lit "invalid graph suppression")) g
  else .ok () { g with suppressions := addFact g.suppressions ⟨id, evidence⟩ }

/-! ### Canonical order -/

/-- Evidence, as the last two entries of a sort key. -/
def evidenceOrder (e : Evidence) : Bytes ×ₗ Bytes := toLex (e.provider, e.reason)

def edgeOrder (e : Edge) : Nat ×ₗ Nat ×ₗ Nat ×ₗ Bytes ×ₗ Bytes :=
  toLex (e.from, toLex (e.to, toLex (e.kind.code, evidenceOrder e.evidence)))

def rootOrder (r : Root) : Nat ×ₗ Nat ×ₗ Bytes ×ₗ Bytes :=
  toLex (r.symbol, toLex (r.kind.code, evidenceOrder r.evidence))

/-- An absent origin comes first. -/
def escapeOrder (e : Escape) : Nat ×ₗ WithBot Nat ×ₗ Nat ×ₗ Bytes ×ₗ Bytes :=
  toLex (e.symbol, toLex (e.from, toLex (e.kind.code, evidenceOrder e.evidence)))

def suppressionOrder (s : Suppression) : Nat ×ₗ Bytes ×ₗ Bytes :=
  toLex (s.symbol, evidenceOrder s.evidence)

/-- Symbol ids by increasing key. -/
def keyOrder (g : Graph) : List SymbolId := sortOn (fun id => (g.symbol id).key) (List.range g.symbols.length)

/-- Where `canonicalize` moves a symbol. -/
def canonicalId (g : Graph) (id : SymbolId) : SymbolId := g.keyOrder.idxOf id

/-- The key index of a list of symbols, rebuilt by `emplace` in id order. -/
def indexKeys (symbols : List Symbol) : List (Bytes × SymbolId) :=
  (symbols.zipIdx).foldl (fun index (symbol, id) => emplaceKey index symbol.key id) []

def canonicalize (g : Graph) : Graph :=
  let symbols := g.keyOrder.map g.symbol
  { symbols
    keyToId := indexKeys symbols
    edges := sortOn edgeOrder
      (g.edges.map fun e => { e with «from» := g.canonicalId e.from, «to» := g.canonicalId e.to })
    roots := sortOn rootOrder (g.roots.map fun r => { r with symbol := g.canonicalId r.symbol })
    escapes := sortOn escapeOrder
      (g.escapes.map fun e => { e with symbol := g.canonicalId e.symbol, «from» := e.from.map g.canonicalId })
    suppressions := sortOn suppressionOrder
      (g.suppressions.map fun s => { s with symbol := g.canonicalId s.symbol }) }

end Graph

/-! ## Merging graphs -/

/-- `remap[id]`. -/
def remapped (remap : List SymbolId) (id : SymbolId) : SymbolId := remap.getD id 0

/-- Merge `source` into the graph of the state. -/
def mergeGraph (source : Graph) : GraphM Unit := do
  let remap ← source.symbols.mapM Graph.addOrMergeSymbol
  source.edges.forM fun e => Graph.addEdge (remapped remap e.from) (remapped remap e.to) e.kind e.evidence
  source.roots.forM fun r => Graph.addRoot (remapped remap r.symbol) r.kind r.evidence
  source.escapes.forM fun e =>
    Graph.addEscape (remapped remap e.symbol) e.kind e.evidence (e.from.map (remapped remap))
  source.suppressions.forM fun s => Graph.addSuppression (remapped remap s.symbol) s.evidence

/-- Merge a list of graphs, one after the other, into an empty graph. -/
def mergeGraphs (sources : List Graph) : GraphM Unit := sources.forM mergeGraph

end CxxDead
