import CxxDead.ArtifactRoundTrip
import CxxDead.Lib.Folds
import CxxDead.ReportWriter
/-!
# The SARIF document as layouts

- `writeSarif_text`: what the SARIF writer prints by hand is the object `sarifLog`,
  written with the layouts of the other documents.
-/

namespace CxxDead

open Lib Json Artifact

/-! ## Literals -/

theorem lit_append (s t : String) : lit s ++ lit t = lit (s ++ t) := by
  unfold lit
  rw [String.toList_append, List.map_append]

theorem lit_append_assoc (s t : String) (rest : Bytes) : lit s ++ (lit t ++ rest) = lit (s ++ t) ++ rest := by
  rw [← List.append_assoc, lit_append]

/-- A text without special bytes stands between its quotes as it is. -/
theorem quoted_plain {s : Bytes} (h : escape s = s) : Json.quoted s = lit "\"" ++ (s ++ lit "\"") := by
  unfold Json.quoted
  rw [h]
  rfl

theorem quoted_lit {s : String} (h : escape (lit s) = lit s) : Json.quoted (lit s) = lit ("\"" ++ s ++ "\"") := by
  rw [quoted_plain h, lit_append, lit_append, String.append_assoc]

theorem quoted_changeKind (kind : ChangeKind) : Json.quoted kind.toText = lit "\"" ++ (kind.toText ++ lit "\"") := by
  cases kind <;> exact quoted_plain (by decide)

theorem quoted_classification (classification : Classification) :
    Json.quoted classification.toText = lit "\"" ++ (classification.toText ++ lit "\"") := by
  cases classification <;> exact quoted_plain (by decide)

/-! ## Layouts member by member -/

theorem intercalate_cons («sep» part : Bytes) (parts : List Bytes) :
    «sep».intercalate (part :: parts) = part ++ parts.flatMap («sep» ++ ·) := by
  induction parts generalizing part with
  | nil => simp
  | cons next parts ih => rw [List.intercalate_cons_cons, ih, List.flatMap_cons, List.append_assoc, List.append_assoc]

theorem inlineObject_cons (m : String × Bytes) (members : List (String × Bytes)) :
    inlineObject (m :: members) =
      lit "\x7b" ++ (member m ++ (members.flatMap (fun m => lit ", " ++ member m) ++ lit "\x7d")) := by
  unfold inlineObject
  rw [List.map_cons, intercalate_cons, List.flatMap_map, List.append_assoc, List.append_assoc]

theorem member_text {name : String} (h : escape (lit name) = lit name) (text : Bytes) :
    member (name, text) = lit ("\"" ++ name ++ "\": ") ++ text := by
  unfold member
  rw [quoted_lit h, lit_append, String.append_assoc]
  rfl

theorem member_optional (name label : String) (h : lit ", " ++ (Json.quoted (lit name) ++ lit ": ") = lit label)
    (c : Prop) [Decidable c] (text : Bytes) :
    (if c then [(name, text)] else []).flatMap (fun m => lit ", " ++ member m) =
      if c then lit label ++ text else [] := by
  split
  · rw [List.flatMap_singleton, ← h, List.append_assoc]
    rfl
  · rfl

theorem blockObject_cons (indent : String) (m : String × Bytes) (members : List (String × Bytes)) :
    blockObject indent (m :: members) = lit "\x7b\n" ++ (lit indent ++ (lit "  " ++ (member m ++
      (members.flatMap (fun m => lit ",\n" ++ (lit indent ++ (lit "  " ++ member m))) ++
        (lit "\n" ++ (lit indent ++ lit "\x7d")))))) := by
  unfold blockObject
  rw [List.map_cons, intercalate_cons, List.flatMap_map]
  simp only [List.append_assoc]

/-! ## A result -/

/-- The members of a region; the code prints no number that is zero. -/
def sarifRegion (extent : SourceExtent) : List (String × Bytes) :=
  ("startLine", decimal extent.location.line.toNat) ::
    ((if extent.location.column ≠ 0 then [("startColumn", decimal extent.location.column.toNat)] else []) ++
      ((if extent.end.line ≠ 0 then [("endLine", decimal extent.end.line.toNat)] else []) ++
        (if extent.end.column ≠ 0 then
          [("endColumn", decimal (extent.end.column + extent.end.tokenLength).toNat)]
        else [])))

def sarifPlace (uri : Bytes) (extent : SourceExtent) : Bytes := inlineObject [
  ("physicalLocation", inlineObject [
    ("artifactLocation", inlineObject [("uri", Json.quoted uri)]), ("region", inlineObject (sarifRegion extent))])]

def sarifPlaces (symbol : Symbol) (projectRoot : Path) : List (String × Bytes) :=
  let extent := primarySourceExtent symbol
  let uri := sarifUri extent.location.file projectRoot
  if uri ≠ [] ∧ extent.location.line ≠ 0 then [("locations", inlineArray [sarifPlace uri extent])] else []

theorem sarifRegion_text (extent : SourceExtent) :
    inlineObject (sarifRegion extent) = lit "\x7b\"startLine\": " ++ (decimal extent.location.line.toNat ++
      ((if extent.location.column ≠ 0 then
        lit ", \"startColumn\": " ++ decimal extent.location.column.toNat
      else []) ++
      ((if extent.end.line ≠ 0 then lit ", \"endLine\": " ++ decimal extent.end.line.toNat else []) ++
      ((if extent.end.column ≠ 0 then
        lit ", \"endColumn\": " ++ decimal (extent.end.column + extent.end.tokenLength).toNat
      else []) ++ lit "\x7d")))) := by
  unfold sarifRegion
  rw [inlineObject_cons, List.flatMap_append, List.flatMap_append,
    member_optional "startColumn" ", \"startColumn\": " (by decide),
    member_optional "endLine" ", \"endLine\": " (by decide),
    member_optional "endColumn" ", \"endColumn\": " (by decide)]
  simp (disch := decide) only [member_text, lit_append_assoc, List.append_assoc, String.reduceAppend]

theorem sarifLocations_text (symbol : Symbol) (projectRoot : Path) :
    sarifLocations symbol projectRoot = (sarifPlaces symbol projectRoot).flatMap (fun m => lit ", " ++ member m) := by
  unfold sarifLocations sarifPlaces
  dsimp only
  split
  · unfold sarifPlace
    simp only [sarifRegion_text, inlineArray, List.intercalate_singleton, inlineObject_cons, List.flatMap_cons,
      List.flatMap_nil, List.append_nil, List.nil_append, member, List.append_assoc]
    simp (disch := decide) only [quoted_lit, lit_append_assoc, lit_append, String.reduceAppend]
  · rfl

def sarifMembers (targetName rule : Bytes) (change : DifferentialChange) (classification : Classification) :
    List (String × Bytes) := [
  ("ruleId", Json.quoted rule), ("level", Json.quoted (lit "warning")),
  ("message", inlineObject [("text", Json.quoted (displayName change.symbol ++ lit " is " ++ classification.toText ++
    lit " (" ++ change.kind.toText ++ lit ")"))]),
  ("partialFingerprints", inlineObject [("cxxDeadSymbolId/v1", Json.quoted change.symbol.key)]),
  ("properties", inlineObject [("change", Json.quoted change.kind.toText),
    ("classification", Json.quoted classification.toText), ("target", writeNullableString targetName)])]

/-- The text is the object of some change. -/
def IsSarifResult (targetName : Bytes) (projectRoot : Path) (text : Bytes) : Prop :=
  ∃ change classification rule, text = inlineObject
    (sarifMembers targetName rule change classification ++ sarifPlaces change.symbol projectRoot)

theorem sarifResult_text {targetName text : Bytes} {projectRoot : Path} {change : DifferentialChange}
    (h : sarifResult targetName projectRoot change = some text) :
    ∃ body, IsSarifResult targetName projectRoot body ∧ lit "\n      " ++ body = text := by
  unfold sarifResult at h
  obtain ⟨classification, -, h⟩ := Option.bind_eq_some_iff.1 h
  obtain ⟨rule, -, h⟩ := Option.bind_eq_some_iff.1 h
  refine ⟨_, ⟨change, classification, rule, rfl⟩, ?_⟩
  rw [← Option.some_inj.1 h, sarifLocations_text]
  unfold sarifMembers
  simp only [List.cons_append, List.nil_append, inlineObject_cons, List.flatMap_cons, List.flatMap_nil, List.append_nil,
    member, quoted_changeKind, quoted_classification, List.append_assoc]
  simp (disch := decide) only [quoted_lit, lit_append_assoc, String.reduceAppend]

/-! ## The log -/

def sarifRuleObject (rule : Bytes) : Bytes := inlineObject [
  ("id", Json.quoted rule), ("shortDescription", inlineObject [("text", Json.quoted (lit "New dead-code debt"))])]

def sarifDriver (toolVersion : Bytes) (rules : List Bytes) : Bytes := inlineObject [
  ("name", Json.quoted (lit "cxx-dead")), ("version", Json.quoted toolVersion),
  ("informationUri", Json.quoted (lit "https://github.com/gobha-me/cxx-dead")),
  ("rules", inlineArray (rules.map sarifRuleObject))]

def sarifLog (toolVersion : Bytes) (rules results : List Bytes) : Bytes := blockObject "" [
  ("$schema", Json.quoted (lit "https://json.schemastore.org/sarif-2.1.0.json")),
  ("version", Json.quoted (lit "2.1.0")),
  ("runs", inlineArray [blockObject "  " [
    ("tool", inlineObject [("driver", sarifDriver toolVersion rules)]),
    ("results", nestedArray "      " "    " results)]])]

theorem sarifRuleObject_text (rule : Bytes) :
    sarifRuleObject rule = lit "\x7b\"id\": " ++ (Json.quoted rule ++
      lit ", \"shortDescription\": \x7b\"text\": \"New dead-code debt\"\x7d\x7d") := by
  unfold sarifRuleObject
  simp only [inlineObject_cons, List.flatMap_cons, List.flatMap_nil, List.append_nil, List.nil_append, member,
    List.append_assoc]
  simp (disch := decide) only [quoted_lit, lit_append_assoc, lit_append, String.reduceAppend]

theorem itemLines_text (results : List Bytes) (rest : Bytes) :
    (lit ",").intercalate (results.map (lit "\n      " ++ ·)) ++
      ((if results.map (lit "\n      " ++ ·) ≠ [] then lit "\n" else []) ++ rest) =
    itemLines "      " results ++ rest := by
  unfold itemLines
  cases results with
  | nil => rfl
  | cons result results =>
    rw [if_pos (by simp), if_neg (by simp), intercalate_prefix, intercalate_prefix]
    simp only [lit_append_assoc, lit_append, List.append_assoc, String.reduceAppend]

theorem writeSarif_text {report : DifferentialReport} {projectRoot : Path} {toolVersion text : Bytes}
    (h : writeSarif report projectRoot toolVersion = some text) :
    ∃ rules results, (∀ result ∈ results, IsSarifResult report.current.targetName projectRoot result) ∧
      text = sarifLog toolVersion rules results ++ lit "\n" := by
  unfold writeSarif at h
  obtain ⟨rules, -, h⟩ := Option.bind_eq_some_iff.1 h
  obtain ⟨lines, hlines, h⟩ := Option.bind_eq_some_iff.1 h
  have hbody : ∀ line ∈ lines, ∃ result, IsSarifResult report.current.targetName projectRoot result ∧
      lit "\n      " ++ result = line := fun line hline => by
    obtain ⟨change, -, hchange⟩ := mem_of_mapM hlines line hline
    exact sarifResult_text hchange
  obtain ⟨results, hresults, rfl⟩ := exists_map hbody
  refine ⟨sortUnique rules, results, hresults, ?_⟩
  rw [← Option.some_inj.1 h]
  unfold sarifLog sarifDriver
  simp only [inlineObject_cons, blockObject_cons, inlineArray, nestedArray, List.flatMap_cons, List.flatMap_nil,
    List.append_nil, List.nil_append, List.intercalate_singleton, member, List.append_assoc]
  simp (disch := decide) only [quoted_lit, lit_append_assoc, lit_append, String.reduceAppend]
  rw [itemLines_text, funext sarifRuleObject_text]

end CxxDead
