import CxxDead.Uses
/-!
# Recovering the files that Clang leaves out

Clang prints the file of a location only where it differs from the one printed
before, in document order, and marks the locations in included files. The walks
hand the file of a node down to its children, but not on to its siblings.

- `locationsRecovered_iff`: the declarations whose files are recovered.
- `secondHeaderDeclaration_lost`: the second of two functions in one header is not
  among them.
- `walk_inherits`: what the walks hand down is what the results are about.
-/

namespace CxxDead

open Lib Json

namespace Ast

/-! ## The dump -/

/-- A file under the name that Clang prints, and whether it is an included one. -/
structure SourceFile where
  name : Bytes
  included : Bool

/-- Where a declaration stands. One that a macro makes is printed with its spelling before its expansion. -/
inductive TrueLocation where
  | written (file : SourceFile)
  | expanded (spelling expansion : SourceFile)

/-- A node of the dump with what is true of it. -/
structure Printed where
  value : Value
  loc : Option TrueLocation := none
  /-- The files of the locations that are printed after `loc`. -/
  others : List SourceFile := []

/-- A file and the name that was printed just before it. -/
structure Mark where
  file : SourceFile
  before : Bytes

namespace Printed

/-- The location that decides where a node is. -/
def mark (before : Bytes) (p : Printed) : Option Mark :=
  match p.loc with
  | none => none
  | some (.written file) => some ⟨file, before⟩
  | some (.expanded spelling expansion) => some ⟨expansion, spelling.name⟩

/-- The files that a node prints, in order. -/
def files (p : Printed) : List SourceFile :=
  (match p.loc with
  | none => []
  | some (.written file) => [file]
  | some (.expanded spelling expansion) => [spelling, expansion]) ++ p.others

end Printed

def printedFiles (t : Rose Printed) : List SourceFile := t.labels.flatMap Printed.files

def lastName (before : Bytes) (files : List SourceFile) : Bytes := (files.getLast?.map (·.name)).getD before

/-- A bare location: the file if it is not the one before, and the mark of an included one. -/
structure EncodedFile (before : Bytes) (file : SourceFile) (members : List (Bytes × Value)) : Prop where
  name : members.lookup (lit "file") = if file.name = before then none else some (.string file.name)
  includedFrom : (members.lookup (lit "includedFrom")).isSome = file.included
  spellingLoc : members.lookup (lit "spellingLoc") = none
  expansionLoc : members.lookup (lit "expansionLoc") = none

def EncodedLocation (before : Bytes) : TrueLocation → Value → Prop
  | .written file, .object members => EncodedFile before file members
  | .expanded spelling expansion, .object members =>
    members.lookup (lit "file") = none ∧
      ∃ first second, members.lookup (lit "spellingLoc") = some (.object first) ∧ EncodedFile before spelling first ∧
        members.lookup (lit "expansionLoc") = some (.object second) ∧ EncodedFile spelling.name expansion second
  | _, _ => False

def EncodedNode (before : Bytes) (p : Printed) : Prop :=
  match p.loc with
  | none => p.value.find (lit "loc") = none ∨ p.value.find (lit "loc") = some (.object [])
  | some location => ∃ value, p.value.find (lit "loc") = some value ∧ EncodedLocation before location value

/-! ## Places in the dump -/

variable (tu : UnitContext)

structure Place where
  tree : Rose Printed
  /-- The name printed just before the node. -/
  before : Bytes
  /-- The locations of the nodes around it, the nearest first. -/
  above : List Mark
  /-- The file that is handed down to the node. -/
  inherited : Path

namespace Place

def mark (p : Place) : Option Mark := p.tree.label.mark p.before

def file (p : Place) : Path := nodeFile tu p.tree.label.value p.inherited

end Place

/-- `q` is a child of `p`. -/
def Below (p q : Place) : Prop :=
  ∃ k, p.tree.children[k]? = some q.tree ∧
    q.before = lastName p.before (p.tree.label.files ++ (p.tree.children.take k).flatMap printedFiles) ∧
    q.above = p.mark.toList ++ p.above ∧ q.inherited = p.file tu

/-- The top of a dump; `before` is the name that was printed last in the dump before it, if there is one. -/
def top (t : Rose Printed) (before : Bytes) : Place := ⟨t, before, [], tu.command.file⟩

def IsPlace (t : Rose Printed) (before : Bytes) : Place → Prop := Relation.ReflTransGen (Below tu) (top tu t before)

/-- The dump leaves out what Clang leaves out. -/
def Encoded (t : Rose Printed) (before : Bytes) : Prop :=
  ∀ p, IsPlace tu t before p → EncodedNode p.before p.tree.label

def trueFile (file : SourceFile) : Path := absoluteNormalized tu ⟨file.name⟩ tu.command.directory

/-- In the main source, or in a header of the project. -/
def Located (file : SourceFile) : Prop :=
  trueFile tu file ≠ {} ∧
    (trueFile tu file = tu.command.file ∨ pathIsWithin (trueFile tu file) tu.options.projectRoot = true)

/-- Every declaration in the main source or in a header of the project gets the file that it is in, and so its scope. -/
def LocationsRecovered (t : Rose Printed) (before : Bytes) : Prop :=
  ∀ p, IsPlace tu t before p → ∀ m ∈ p.mark, Located tu m.file →
    p.file tu = trueFile tu m.file ∧ symbolScope tu (p.file tu) = symbolScope tu (trueFile tu m.file)

/-! ## Which declarations are recovered -/

/-- The name is printed, and it is that of a file. -/
def Mark.named (m : Mark) : Bool := m.file.name != m.before && m.file.name != [] && m.file.name.head? != some (ch '<')

/-- The file of the nearest node around whose name is printed, or else the main source. -/
def anchor (above : List Mark) : Path := ((above.find? Mark.named).map fun m => trueFile tu m.file).getD tu.command.file

/-- The nodes around up to that one. -/
def between (above : List Mark) : List Mark := above.takeWhile fun m => !m.named

/-- The location is printed with its name. Or it is in the file of the nearest node around that is; where this is the
main source, neither the location nor one between the two may be in an included file. -/
def Recoverable (above : List Mark) (m : Mark) : Prop :=
  m.named = true ∨
    (trueFile tu m.file = anchor tu above ∧
      ((anchor tu above).same tu.command.file = true → ∀ w ∈ m :: between above, w.file.included = false))

/-- What is handed down below nodes with these locations. -/
def settled : List Mark → Path
  | [] => tu.command.file
  | m :: above =>
    if m.named then trueFile tu m.file
    else if m.file.included = true ∧ (settled above).same tu.command.file = true then {}
    else settled above

section Recovery
variable {tu}

theorem settled_eq (above : List Mark) :
    settled tu above =
      if (anchor tu above).same tu.command.file = true ∧ ∃ w ∈ between above, w.file.included = true then {}
      else anchor tu above := by
  induction above with
  | nil => simp [settled, anchor, between]
  | cons m above ih =>
    unfold settled
    cases hnamed : m.named with
    | true =>
      have hbetween : between (m :: above) = [] := by simp [between, hnamed]
      have hanchor : anchor tu (m :: above) = trueFile tu m.file := by simp [anchor, hnamed]
      rw [if_pos rfl, hbetween, hanchor, if_neg (by simp)]
    | false =>
      have hbetween : between (m :: above) = m :: between above := by simp [between, hnamed]
      have hanchor : anchor tu (m :: above) = anchor tu above := by simp [anchor, hnamed]
      rw [if_neg (by decide), hbetween, hanchor, ih]
      by_cases hlost : (anchor tu above).same tu.command.file = true ∧ ∃ w ∈ between above, w.file.included = true
      · -- an empty path stays empty, whatever it is compared with
        have hmore : (anchor tu above).same tu.command.file = true ∧ ∃ w ∈ m :: between above, w.file.included = true :=
          ⟨hlost.1, hlost.2.imp fun w hw => ⟨List.mem_cons_of_mem _ hw.1, hw.2⟩⟩
        rw [if_pos hlost, if_pos hmore]
        split <;> rfl
      · rw [if_neg hlost]
        by_cases hm : m.file.included = true ∧ (anchor tu above).same tu.command.file = true
        · rw [if_pos hm, if_pos ⟨hm.2, m, List.mem_cons_self, hm.1⟩]
        · rw [if_neg hm, if_neg]
          rintro ⟨hsame, w, hw, hincluded⟩
          rcases List.mem_cons.1 hw with rfl | hw
          · exact hm ⟨hincluded, hsame⟩
          · exact hlost ⟨hsame, w, hw, hincluded⟩

/-- A location read back: its name if that is printed, and else what the node's parent says. -/
theorem settled_cons (above : List Mark) (m : Mark) (hne : trueFile tu m.file ≠ {}) :
    settled tu (m :: above) = trueFile tu m.file ↔ Recoverable tu above m := by
  unfold Recoverable
  cases hnamed : m.named with
  | true => simp [settled, hnamed]
  | false =>
    have hbetween : between (m :: above) = m :: between above := by simp [between, hnamed]
    have hanchor : anchor tu (m :: above) = anchor tu above := by simp [anchor, hnamed]
    rw [settled_eq, hbetween, hanchor]
    by_cases hlost : (anchor tu above).same tu.command.file = true ∧ ∃ w ∈ m :: between above, w.file.included = true
    · rw [if_pos hlost]
      constructor
      · intro h
        exact absurd h.symm hne
      · rintro (h | ⟨-, hnone⟩)
        · cases h
        · obtain ⟨hsame, w, hw, hincluded⟩ := hlost
          rw [hnone hsame w hw] at hincluded
          cases hincluded
    · rw [if_neg hlost]
      constructor
      · intro h
        refine .inr ⟨h.symm, fun hsame w hw => ?_⟩
        rw [← Bool.not_eq_true]
        exact fun hincluded => hlost ⟨hsame, w, hw, hincluded⟩
      · rintro (h | ⟨h, -⟩)
        · cases h
        · exact h.symm

/-- What `nodeFile` makes of a bare location. -/
theorem file_encoded {before : Bytes} {file : SourceFile} {members : List (Bytes × Value)}
    (h : EncodedFile before file members) {node : Value}
    (hnode : (node.find (lit "loc")).bind physicalLocation = some (.object members)) (inherited : Path) :
    nodeFile tu node inherited =
      if (⟨file, before⟩ : Mark).named then trueFile tu file
      else if file.included = true ∧ inherited.same tu.command.file = true then {}
      else inherited := by
  have hname : stringOr (.object members) "file" = if file.name = before then [] else file.name := by
    have hfind : (Value.object members).find (lit "file") = if file.name = before then none else some (.string file.name) :=
      h.name
    unfold stringOr Value.stringOr
    rw [hfind]
    by_cases hsame : file.name = before
    · rw [if_pos hsame, if_pos hsame]
    · rw [if_neg hsame, if_neg hsame]
  have hincluded : ((Value.object members).find (lit "includedFrom")).isSome = file.included := h.includedFrom
  unfold nodeFile
  rw [hnode]
  simp only [hname, hincluded]
  by_cases hsame : file.name = before
  · simp [Mark.named, hsame]
  · simp only [Mark.named, Bool.and_eq_true, bne_iff_ne, ne_eq, hsame, not_false_eq_true, true_and]
    rfl

theorem physicalLocation_plain {members : List (Bytes × Value)}
    (hspelling : members.lookup (lit "spellingLoc") = none) (hexpansion : members.lookup (lit "expansionLoc") = none) :
    physicalLocation (.object members) = some (.object members) := by
  unfold physicalLocation
  rw [physicalMember_eq, physicalMember_eq, hspelling, hexpansion]
  split <;> rfl

theorem physicalLocation_expanded {members second : List (Bytes × Value)} (hfile : members.lookup (lit "file") = none)
    (hexpansion : members.lookup (lit "expansionLoc") = some (.object second))
    (hsecond : physicalLocation (.object second) = some (.object second)) :
    physicalLocation (.object members) = some (.object second) := by
  rw [physicalLocation, hfile, physicalMember_eq, hexpansion]
  simp [hsecond]

theorem nodeFile_encoded {before : Bytes} {p : Printed} (h : EncodedNode before p) (inherited : Path) :
    nodeFile tu p.value inherited =
      match p.mark before with
      | none => inherited
      | some m =>
        if m.named then trueFile tu m.file
        else if m.file.included = true ∧ inherited.same tu.command.file = true then {}
        else inherited := by
  unfold EncodedNode at h
  unfold Printed.mark
  cases hloc : p.loc with
  | none =>
    rw [hloc] at h
    unfold nodeFile
    rcases h with h | h
    · rw [h]
      rfl
    · rw [h, Option.bind_some, physicalLocation_plain rfl rfl]
      rfl
  | some location =>
    rw [hloc] at h
    obtain ⟨value, hvalue, hencoded⟩ := h
    cases location with
    | written file =>
      cases value with
      | object members =>
        have hplain := physicalLocation_plain hencoded.spellingLoc hencoded.expansionLoc
        exact file_encoded hencoded (by rw [hvalue]; exact hplain) inherited
      | _ => exact hencoded.elim
    | expanded spelling expansion =>
      cases value with
      | object members =>
        obtain ⟨hfile, first, second, -, -, hexpansion, hsecond⟩ := hencoded
        have hplain := physicalLocation_plain hsecond.spellingLoc hsecond.expansionLoc
        exact file_encoded hsecond (by rw [hvalue]; exact physicalLocation_expanded hfile hexpansion hplain) inherited
      | _ => exact hencoded.elim

/-- What is handed down to a place is what the locations around it settle. -/
theorem inherited_eq {t : Rose Printed} {before : Bytes} (h : Encoded tu t before) {p : Place}
    (hp : IsPlace tu t before p) : p.inherited = settled tu p.above := by
  induction hp with
  | refl => rfl
  | tail hq hstep ih =>
    obtain ⟨k, -, -, habove, hinherited⟩ := hstep
    rw [hinherited, habove, Place.file, nodeFile_encoded (h _ hq), ih]
    unfold Place.mark
    cases Printed.mark _ _ with
    | none => rfl
    | some m => rfl

theorem file_eq {t : Rose Printed} {before : Bytes} (h : Encoded tu t before) {p : Place}
    (hp : IsPlace tu t before p) {m : Mark} (hm : p.mark = some m) : p.file tu = settled tu (m :: p.above) := by
  unfold Place.mark at hm
  rw [Place.file, nodeFile_encoded (h _ hp), hm, inherited_eq h hp]
  rfl

theorem locationsRecovered_iff {t : Rose Printed} {before : Bytes} (h : Encoded tu t before) :
    LocationsRecovered tu t before ↔
      ∀ p, IsPlace tu t before p → ∀ m ∈ p.mark, Located tu m.file → Recoverable tu p.above m := by
  refine forall_congr' fun p => forall_congr' fun hp => forall_congr' fun m => forall_congr' fun hm =>
    forall_congr' fun hlocated => ?_
  rw [← settled_cons p.above m hlocated.1, ← file_eq h hp hm]
  constructor
  · exact fun hright => hright.1
  · intro hfile
    exact ⟨hfile, by rw [hfile]⟩

end Recovery

/-! ## The walks hand the file down -/

section Walks
variable {tu}

/-- A walk that gives the children of a node the node's file inherits what places inherit. -/
theorem walk_inherits {ι : Type} {visit : Node → ι → CollectM (Option (Nat → ι))} (inherited : ι → Path)
    (hvisit : ∀ {t i s context s'}, visit t i s = .ok (some context) s' →
      ∀ k, inherited (context k) = nodeFile tu t.label (inherited i))
    {t : Rose Printed} {i : ι} (hi : inherited i = tu.command.file) (before : Bytes) {s : TranslationUnitState}
    {q : Position Value ι TranslationUnitState} (h : Visits visit (t.map Printed.value, i, s) q) :
    ∃ p, IsPlace tu t before p ∧ q.1 = p.tree.map Printed.value ∧ inherited q.2.1 = p.inherited := by
  induction h with
  | refl => exact ⟨top tu t before, .refl, rfl, hi⟩
  | tail _ hlast ih =>
    obtain ⟨p, hp, htree, hinherited⟩ := ih
    obtain ⟨context, s₁, k, hrun, hchild, hcontext, -⟩ := hlast
    rw [htree, Rose.children_map, List.getElem?_map] at hchild
    obtain ⟨c, hc, hmap⟩ := Option.map_eq_some_iff.1 hchild
    refine ⟨⟨c, _, _, p.file tu⟩, hp.tail ⟨k, hc, rfl, rfl, rfl⟩, hmap.symm, ?_⟩
    rw [hcontext, hvisit hrun k, htree, Rose.label_map, hinherited]
    rfl

theorem collectContexts_inherits {t : Node} {i : ScopeContext} {s s' : TranslationUnitState} {context : Nat → ScopeContext}
    (h : visitContext tu t i s = .ok (some context) s') (k : Nat) :
    (context k).inheritedFile = nodeFile tu t.label i.inheritedFile := by
  obtain ⟨_, s₁, -, hpure⟩ := bind_ok_iff.1 h
  obtain ⟨heq, -⟩ := pure_ok_iff.1 hpure
  rw [← Option.some.inj heq]

theorem collectDeclarations_inherits {t : Node} {i : ScopeContext} {s s' : TranslationUnitState}
    {context : Nat → ScopeContext} (h : visitDeclaration tu t i s = .ok (some context) s') (k : Nat) :
    (context k).inheritedFile = nodeFile tu t.label i.inheritedFile := by
  unfold visitDeclaration at h
  split at h
  · obtain ⟨_, s₁, -, hpure⟩ := bind_ok_iff.1 h
    obtain ⟨heq, -⟩ := pure_ok_iff.1 hpure
    rw [← Option.some.inj heq]
  · obtain ⟨heq, -⟩ := pure_ok_iff.1 h
    rw [← Option.some.inj heq]

theorem collectUses_inherits {t : Node} {i : UseContext} {s s' : TranslationUnitState} {context : Nat → UseContext}
    (h : visitUse tu t i s = .ok (some context) s') (k : Nat) :
    (context k).inheritedFile = nodeFile tu t.label i.inheritedFile := by
  rcases visitUse_ok h with ⟨-, hnone, -⟩ | ⟨inside, henter, -, hbelow⟩
  · cases hnone
  · rw [Option.some.inj hbelow, ← enterNode_inherited henter]
    unfold childUseContext
    split <;> rfl

end Walks

/-! ## Two declarations in one header -/

/-- A location as Clang prints it. -/
def encodeFile (before : Bytes) (file : SourceFile) : List (Bytes × Value) :=
  (if file.name = before then [] else [(lit "file", .string file.name)]) ++
    (if file.included then [(lit "includedFrom", .object [(lit "file", .string (lit "/p/a.cpp"))])] else [])

theorem encodeFile_encoded (before : Bytes) (file : SourceFile) : EncodedFile before file (encodeFile before file) := by
  unfold encodeFile
  by_cases hname : file.name = before <;> cases hincluded : file.included <;>
    constructor <;> simp [hname, hincluded, List.lookup_cons] <;> rfl

/-- A function, printed after a location in the file `before`. -/
def printedAt (before : Bytes) (file : SourceFile) : Printed where
  value := .object [(lit "kind", .string (lit "FunctionDecl")), (lit "loc", .object (encodeFile before file))]
  loc := some (.written file)

/-- The dumps of functions in these files, one after the other. -/
def functionsIn : Bytes → List SourceFile → List (Rose Printed)
  | _, [] => []
  | before, file :: files => .node (printedAt before file) [] :: functionsIn file.name files

/-- The dump of a translation unit with a function in each of these files. -/
def dumpOf (files : List SourceFile) : Rose Printed :=
  .node { value := .object [(lit "kind", .string (lit "TranslationUnitDecl"))] } (functionsIn [] files)

theorem lastName_cons (before : Bytes) (file : SourceFile) (files : List SourceFile) :
    lastName before (file :: files) = lastName file.name files := by
  unfold lastName
  rw [List.getLast?_cons]
  cases files.getLast? <;> rfl

theorem functionsIn_files (before : Bytes) (files : List SourceFile) (k : Nat) :
    ((functionsIn before files).take k).flatMap printedFiles = files.take k := by
  induction files generalizing before k with
  | nil => simp [functionsIn]
  | cons file files ih =>
    cases k with
    | zero => rfl
    | succ k => exact congrArg (file :: ·) (ih file.name k)

theorem functionsIn_getElem {before : Bytes} {files : List SourceFile} {k : Nat} {t : Rose Printed}
    (h : (functionsIn before files)[k]? = some t) :
    ∃ file, files[k]? = some file ∧ t = .node (printedAt (lastName before (files.take k)) file) [] := by
  induction files generalizing before k with
  | nil => cases h
  | cons file files ih =>
    cases k with
    | zero => exact ⟨file, rfl, (Option.some.inj h).symm⟩
    | succ k =>
      have hrest : (functionsIn file.name files)[k]? = some t := h
      rw [List.take_succ_cons, lastName_cons]
      exact ih hrest

section Dump
variable {tu}

theorem dumpOf_places {files : List SourceFile} {p : Place} (hp : IsPlace tu (dumpOf files) [] p) :
    p = top tu (dumpOf files) [] ∨
      ∃ k file, files[k]? = some file ∧ p.before = lastName [] (files.take k) ∧
        p.tree = .node (printedAt p.before file) [] := by
  induction hp with
  | refl => exact .inl rfl
  | tail _ hlast ih =>
    obtain ⟨k, hchild, hbefore, -, -⟩ := hlast
    rcases ih with rfl | ⟨-, file, -, -, htree⟩
    · obtain ⟨file, hfile, htree⟩ := functionsIn_getElem hchild
      have hnames := hbefore.trans (congrArg (lastName []) (functionsIn_files [] files k))
      exact .inr ⟨k, file, hfile, hnames, by rw [htree, hnames]⟩
    · rw [htree] at hchild
      cases hchild

theorem dumpOf_encoded (files : List SourceFile) : Encoded tu (dumpOf files) [] := by
  intro p hp
  rcases dumpOf_places hp with rfl | ⟨-, file, -, -, htree⟩
  · exact .inl rfl
  · rw [htree]
    exact ⟨_, rfl, encodeFile_encoded p.before file⟩

end Dump

def mainSource : SourceFile := ⟨lit "/p/a.cpp", false⟩
def header : SourceFile := ⟨lit "/p/h.h", true⟩

/-- One function in a header and one in the main source. -/
theorem headerAndMain_recovered : LocationsRecovered projectUnit (dumpOf [header, mainSource]) [] := by
  refine (locationsRecovered_iff (dumpOf_encoded _)).2 fun p hp m hm _ => .inl ?_
  rcases dumpOf_places hp with rfl | ⟨k, file, hfile, hbefore, htree⟩
  · cases hm
  · have hmark : m = ⟨file, p.before⟩ := by
      unfold Place.mark at hm
      rw [htree] at hm
      exact (Option.some.inj hm).symm
    rw [hmark, hbefore]
    match k with
    | 0 => obtain rfl := Option.some.inj hfile; decide
    | 1 => obtain rfl := Option.some.inj hfile; decide
    | _ + 2 => cases hfile

/-- Of two functions in a header the second has no file of its own. -/
theorem secondHeaderDeclaration_lost :
    Encoded projectUnit (dumpOf [header, header]) [] ∧ ¬ LocationsRecovered projectUnit (dumpOf [header, header]) [] := by
  refine ⟨dumpOf_encoded _, fun h => ?_⟩
  have hplace : IsPlace projectUnit (dumpOf [header, header]) []
      ⟨.node (printedAt header.name header) [], header.name, [], projectUnit.command.file⟩ :=
    .single ⟨1, rfl, rfl, rfl, rfl⟩
  obtain ⟨hfile, -⟩ := h _ hplace ⟨header, header.name⟩ rfl ⟨by decide, .inr (by decide)⟩
  exact absurd hfile (by decide)

end Ast

end CxxDead
