import CxxDead.CacheKey
import CxxDead.VirtualDispatch
import CxxDead.Lib.Walk
/-!
# The AST of a translation unit

Clang's JSON dump as a tree of nodes, and what the collectors read off one node:
where it stands, its file's scope, its types and its name.

- `node_children`: the tree has the nodes that `children` finds.
- `findText_eraseAll`: an erased word is gone, also where erasing it would leave a new one.
-/

namespace CxxDead

open Lib Json

namespace Ast

abbrev Node := Rose Value

def stringOr (value : Value) (key : String) : Bytes := value.stringOr (lit key) []

def boolOr (value : Value) (key : String) : Bool := value.boolOr (lit key) false

/-! ## The tree -/

/-- The JSON values below a node. -/
def children (node : Value) : List Value :=
  match node.find (lit "inner") with
  | some (.array items) => items
  | _ => []

mutual

def node : Value → Node
  | .object members => .node (.object members) (innerNodes members)
  | value => .node value []

def innerNodes : List (Bytes × Value) → List Node
  | [] => []
  | (key, value) :: rest => if lit "inner" == key then arrayNodes value else innerNodes rest

def arrayNodes : Value → List Node
  | .array items => nodes items
  | _ => []

def nodes : List Value → List Node
  | [] => []
  | item :: items => node item :: nodes items

end

theorem nodes_eq (items : List Value) : nodes items = items.map node := by
  induction items with
  | nil => rfl
  | cons item items ih => rw [nodes, ih, List.map_cons]

theorem innerNodes_eq (members : List (Bytes × Value)) :
    innerNodes members = (children (.object members)).map node := by
  induction members with
  | nil => rfl
  | cons member members ih =>
    obtain ⟨key, value⟩ := member
    unfold innerNodes
    unfold children Value.find at ih ⊢
    simp only [List.lookup_cons] at ih ⊢
    cases lit "inner" == key with
    | true => cases value <;> simp [arrayNodes, nodes_eq]
    | false => simpa using ih

theorem node_label (value : Value) : (node value).label = value := by
  cases value <;> rfl

theorem node_children (value : Value) : (node value).children = (children value).map node := by
  cases value with
  | object members => exact innerNodes_eq members
  | _ => rfl

/-! ## Kinds of nodes -/

def isFunctionKind (kind : Bytes) : Bool :=
  [lit "FunctionDecl", lit "CXXMethodDecl", lit "CXXConstructorDecl", lit "CXXDestructorDecl",
   lit "CXXConversionDecl"].contains kind

def symbolKind (kind : Bytes) : SymbolKind :=
  if kind = lit "CXXConstructorDecl" then .constructor
  else if kind = lit "CXXDestructorDecl" then .destructor
  else if kind = lit "CXXMethodDecl" ∨ kind = lit "CXXConversionDecl" then .method
  else .function

def isRecordKind (kind : Bytes) : Bool :=
  [lit "CXXRecordDecl", lit "RecordDecl", lit "ClassTemplateSpecializationDecl"].contains kind

def isCallExpression (kind : Bytes) : Bool :=
  [lit "CallExpr", lit "CXXMemberCallExpr", lit "CXXOperatorCallExpr", lit "CUDAKernelCallExpr"].contains kind

def anonymousScopeName (node : Value) : Bytes :=
  let name := stringOr node "name"
  if name = [] then lit "(anonymous namespace)" else name

/-! ## Words in a text -/

/-- What stands before and after the first `needle`. -/
def findText (needle : Bytes) : Bytes → Option (Bytes × Bytes)
  | [] => none
  | c :: rest =>
    if needle.isPrefixOf (c :: rest) then some ([], (c :: rest).drop needle.length)
    else (findText needle rest).map fun found => (c :: found.1, found.2)

def containsText (needle text : Bytes) : Bool := (findText needle text).isSome

/-- Erase the first `needle` until there is none, at most `turns` times. -/
def eraseTurns (needle : Bytes) : Nat → Bytes → Bytes
  | 0, text => text
  | turns + 1, text =>
    match findText needle text with
    | none => text
    | some (front, back) => eraseTurns needle turns (front ++ back)

/-- Each turn shortens the text. -/
def eraseAll (needle text : Bytes) : Bytes := eraseTurns needle text.length text

theorem findText_length {needle text front back : Bytes} (h : findText needle text = some (front, back)) :
    (front ++ back).length + needle.length = text.length := by
  induction text generalizing front with
  | nil => cases h
  | cons c rest ih =>
    unfold findText at h
    split at h
    · rename_i hprefix
      cases h
      have hle := (List.isPrefixOf_iff_prefix.1 hprefix).length_le
      rw [List.nil_append, List.length_drop]
      omega
    · obtain ⟨⟨front', back'⟩, hfound, heq⟩ := Option.map_eq_some_iff.1 h
      cases heq
      have := ih hfound
      simp only [List.cons_append, List.length_cons] at this ⊢
      omega

/-- The turns that `eraseAll` has are enough. -/
theorem findText_eraseAll {needle : Bytes} (hne : needle ≠ []) (text : Bytes) :
    findText needle (eraseAll needle text) = none := by
  have hturns : ∀ turns text, text.length ≤ turns → findText needle (eraseTurns needle turns text) = none := by
    intro turns
    induction turns with
    | zero =>
      intro text htext
      obtain rfl := List.length_eq_zero_iff.1 (Nat.le_zero.1 htext)
      rfl
    | succ turns ih =>
      intro text htext
      unfold eraseTurns
      split
      · assumption
      · rename_i front back hfound
        have hshort := findText_length hfound
        have hpos := List.length_pos_iff.2 hne
        exact ih _ (by omega)
  exact hturns _ _ (Nat.le_refl _)

/-! ## Types -/

def typeString (node : Value) (field : String) : Bytes :=
  match node.find (lit field) with
  | some type => stringOr type "qualType"
  | none => []

def desugaredTypeString (node : Value) : Bytes :=
  match node.find (lit "type") with
  | some type => type.stringOr (lit "desugaredQualType") (stringOr type "qualType")
  | none => []

/-- Drop the characters at the end that satisfy `p`. -/
def trimEnd (p : UInt8 → Bool) (text : Bytes) : Bytes := (text.reverse.dropWhile p).reverse

def normalizeType (value : Bytes) : Bytes :=
  let value := [lit "const ", lit "volatile ", lit "struct ", lit "class "].foldl (fun value word => eraseAll word value) value
  let value := trimEnd (fun c => c == ch '&' || c == ch '*' || Text.isSpace c) value
  value.dropWhile Text.isSpace

/-- The text up to the comma or the bracket that ends the first template argument. -/
def templateArgument : Nat → Bytes → Option Bytes
  | _, [] => none
  | depth, c :: rest =>
    if c = ch '<' then (templateArgument (depth + 1) rest).map (c :: ·)
    else if c = ch '>' then
      match depth with
      | 0 => some []
      | depth + 1 => (templateArgument depth rest).map (c :: ·)
    else if c = ch ',' ∧ depth = 0 then some []
    else (templateArgument depth rest).map (c :: ·)

/-- The element of the pointer `pointerName`, if the type is one; there is no element if it is an array. -/
def pointerElement (normalized pointerName : Bytes) : Option (Option Bytes) :=
  match findText pointerName normalized with
  | none => none
  | some (front, arguments) =>
    if !(lit "std::").isPrefixOf front || front.any (fun c => (lit "<>, ").contains c) then none
    else (templateArgument 0 arguments).map fun argument =>
      let element := normalizeType argument
      if element ≠ [] ∧ ¬ (lit "[]").isSuffixOf element = true then some element else none

def owningPointerElementType (type : Bytes) : Option Bytes :=
  let normalized := normalizeType type
  ((pointerElement normalized (lit "unique_ptr<")).or (pointerElement normalized (lit "shared_ptr<"))).join

example : owningPointerElementType (lit "const std::unique_ptr<ns::Map<int, A>, D> &") = some (lit "ns::Map<int, A>") := by
  decide

/-! ## Bodies, linkage and visibility -/

def hasBody (node : Value) : Bool :=
  stringOr node "explicitlyDefaulted" != [] ||
    (children node).any fun child =>
      [lit "CompoundStmt", lit "CXXTryStmt", lit "CoroutineBodyStmt"].contains (stringOr child "kind")

def hasOverrideAttribute (node : Value) : Bool :=
  (children node).any fun child => stringOr child "kind" == lit "OverrideAttr"

def isInternalSymbol (node : Value) (kind mangled qualified : Bytes) : Bool :=
  (kind == lit "FunctionDecl" && stringOr node "storageClass" == lit "static") || (lit "_ZL").isPrefixOf mangled ||
    containsText (lit "GLOBAL__N") mangled || containsText (lit "(anonymous namespace)") qualified

def explicitVisibility (node : Value) : Option Bytes :=
  ((children node).find? fun child => stringOr child "kind" == lit "VisibilityAttr").map (stringOr · "visibility")

def commandHasHiddenDefaultVisibility (command : CompileCommand) : Bool :=
  command.arguments.foldl (fun hidden argument =>
    if argument = lit "-fvisibility=hidden" then true
    else if argument = lit "-fvisibility=default" ∨ argument = lit "-fvisibility=protected" then false
    else hidden) false

def isExportVisible (node : Value) (command : CompileCommand) : Bool :=
  match explicitVisibility node with
  | some visibility => visibility == lit "default" || visibility == lit "protected"
  | none => !commandHasHiddenDefaultVisibility command

end Ast

end CxxDead
