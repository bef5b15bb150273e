import CxxDead.Ast
/-!
# Locations of AST nodes

Clang leaves out the file of a location when it is the one printed before.
`nodeFile` recovers it from the node's parent, and extents, identities and
scopes are made of what it finds.
-/

namespace CxxDead

open Lib Json

namespace Ast

/-- What the collectors know of a translation unit besides its AST. -/
structure UnitContext where
  command : CompileCommand
  options : IndexOptions
  currentPath : Path
  /-- The text of a source file, if it can be opened. -/
  readFile : Path → Option Bytes

variable (tu : UnitContext)

def absoluteNormalized (path base : Path) : Path :=
  if path.isEmpty then {}
  else (tu.currentPath.append (if path.isAbsolute then path else base.append path)).lexicallyNormal

/-! ## Files -/

mutual

/-- The location itself if it names a file, else that of the expansion or of the spelling. -/
def physicalLocation : Value → Option Value
  | .object members =>
    if (members.lookup (lit "file")).isSome then some (.object members)
    else
      some (((physicalMember (lit "expansionLoc") members).or (physicalMember (lit "spellingLoc") members)).getD
        (.object members))
  | _ => none

def physicalMember (member : Bytes) : List (Bytes × Value) → Option Value
  | [] => none
  | (key, value) :: rest => if member == key then physicalLocation value else physicalMember member rest

end

theorem physicalMember_eq (member : Bytes) (members : List (Bytes × Value)) :
    physicalMember member members = (members.lookup member).bind physicalLocation := by
  induction members with
  | nil => rfl
  | cons first members ih =>
    obtain ⟨key, value⟩ := first
    unfold physicalMember
    simp only [List.lookup_cons]
    cases member == key with
    | true => rfl
    | false => simpa using ih

def nodeFile (node : Value) (inherited : Path) : Path :=
  match (node.find (lit "loc")).bind physicalLocation with
  | none => inherited
  | some location =>
    let file := stringOr location "file"
    if file ≠ [] ∧ file.head? ≠ some (ch '<') then absoluteNormalized tu ⟨file⟩ tu.command.directory
    else if (location.find (lit "includedFrom")).isSome ∧ inherited.same tu.command.file = true then {}
    else inherited

/-! ## Points and extents -/

/-- `static_cast<std::size_t>`, of the numbers for which it is defined. -/
def toSize (x : ℚ) : UInt64 := x.floor.toNat.toUInt64

def numericField (object : Option Value) (key : String) : UInt64 :=
  match object.bind (·.find (lit key)) with
  | some (.number x) => toSize x
  | _ => 0

def locationVariant (location : Option Value) (variant : String) : Option Value :=
  match location with
  | some (.object members) =>
    match members.lookup (lit variant) with
    | some (.object nested) => some (.object nested)
    | _ =>
      if (members.lookup (lit "spellingLoc")).isNone ∧ (members.lookup (lit "expansionLoc")).isNone ∧
          variant = "spellingLoc" then
        some (.object members)
      else none
  | _ => none

/-- The offset of each line, if the file can be opened. -/
def sourceLineOffsets (file : Path) : List UInt64 :=
  match tu.readFile file with
  | none => []
  | some contents => 0 :: (contents.zipIdx.filter (·.1 == 10)).map fun c => (c.2 + 1).toUInt64

/-- Line and column from the offset, where Clang has left them out. -/
def locate (point : SourcePoint) : SourcePoint :=
  match sourceLineOffsets tu point.file with
  | [] => point
  | offsets =>
    let lineIndex := offsets.countP (· ≤ point.offset)
    { point with
      line := if point.line = 0 then lineIndex.toUInt64 else point.line
      column :=
        if point.column = 0 ∧ lineIndex ≠ 0 then point.offset - offsets.getD (lineIndex - 1) 0 + 1 else point.column }

def sourcePoint (location : Option Value) (inheritedFile : Path) : SourcePoint :=
  match location with
  | none => {}
  | some value =>
    let file := stringOr value "file"
    let point : SourcePoint :=
      { file :=
          if file = [] then inheritedFile
          else if file.head? ≠ some (ch '<') then absoluteNormalized tu ⟨file⟩ tu.command.directory
          else {}
        line := numericField location "line"
        column := numericField location "col"
        offset := numericField location "offset"
        tokenLength := numericField location "tokLen" }
    match value.find (lit "offset") with
    | some (.number _) =>
      if !point.file.isEmpty && (point.line == 0 || point.column == 0) then locate tu point else point
    | _ => point

def sourceExtent (node : Value) (variant : String) (inheritedFile : Path) : SourceExtent :=
  let range := node.find (lit "range")
  let location := sourcePoint tu (locationVariant (node.find (lit "loc")) variant) inheritedFile
  let rangeFile := if !location.file.isEmpty then location.file else inheritedFile
  let begin := sourcePoint tu (locationVariant (range.bind (·.find (lit "begin"))) variant) rangeFile
  let endFile := if !begin.file.isEmpty then begin.file else rangeFile
  let «end» := sourcePoint tu (locationVariant (range.bind (·.find (lit "end"))) variant) endFile
  let location := if location.file.isEmpty then begin else location
  let begin := if begin.file.isEmpty then location else begin
  { location, begin, «end» := if «end».file.isEmpty then begin else «end» }

def hasExpansionLocation (node : Value) : Bool :=
  let expanded := fun location : Option Value => (location.bind (·.find (lit "expansionLoc"))).isSome
  let range := node.find (lit "range")
  expanded (node.find (lit "loc")) || expanded (range.bind (·.find (lit "begin"))) ||
    expanded (range.bind (·.find (lit "end")))

def symbolSource (node : Value) (inheritedFile : Path) : SymbolSource :=
  { spelling := sourceExtent tu node "spellingLoc" inheritedFile
    expansion := if hasExpansionLocation node then some (sourceExtent tu node "expansionLoc" inheritedFile) else none }

/-! ## Scopes -/

def pathIsWithin (child parent : Path) : Bool :=
  if child.isEmpty || parent.isEmpty then false
  else
    let relative := child.lexicallyRelative parent
    if relative.isEmpty then child.same parent
    else relative.components.head? != some Path.dotDot && !relative.isAbsolute

def containsPath (paths : List Path) (path : Path) : Bool := paths.any fun other => other.same path

def symbolScope (file : Path) : SymbolScope :=
  if tu.options.excludedPaths.any (pathIsWithin file) then .excluded
  else if !pathIsWithin file tu.options.projectRoot then .externalOpaque
  else if tu.options.reportPaths.any (pathIsWithin file) then .reportable
  else .indexed

/-- The unit `/p/a.cpp` of the project `/p`. -/
def projectUnit : UnitContext where
  command := { directory := ⟨lit "/p"⟩, file := ⟨lit "/p/a.cpp"⟩ }
  options := { projectRoot := ⟨lit "/p"⟩ }
  currentPath := ⟨lit "/p"⟩
  readFile _ := none

example : symbolScope projectUnit ⟨lit "/p/include/a.h"⟩ = .indexed := by decide
example : symbolScope projectUnit ⟨lit "/p2/a.h"⟩ = .externalOpaque := by decide

/-! ## Identities -/

def publicHeaderReason (path : Path) : Bytes := lit "declaration in public header " ++ path.genericString

def identityPath (path projectRoot : Path) : Bytes :=
  if path.isEmpty then []
  else if pathIsWithin path projectRoot then (path.lexicallyRelative projectRoot).genericString
  else path.lexicallyNormal.genericString

def fallbackIdentityAnchor (qualified signature : Bytes) (source : SymbolSource) (projectRoot : Path) : Bytes :=
  let location := (source.expansion.getD source.spelling).location
  qualified ++ ch '|' :: signature ++ ch '|' :: identityPath location.file projectRoot ++
    ch ':' :: decimal location.offset.toNat

end Ast

end CxxDead
