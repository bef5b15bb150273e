import CxxDead.ArtifactRoundTrip
import CxxDead.Comparison
import CxxDead.JsonParse
import CxxDead.SarifText
/-!
# What the writers print is JSON

- `IsJson`: a text that the parser reads as some value, closed under every layout.
- `written_accepted`: the five writers' documents are accepted.
-/

namespace CxxDead

open Lib Json Artifact Indexer

/-- The parser reads the text as a value, wherever it stands. -/
def IsJson (fromChars : Bytes → Option ℚ) (text : Bytes) : Prop := ∃ v, Printed fromChars v text

/-- The conversion of tokens takes every integer of 64 bits, with or without a minus sign. -/
structure ConvertsIntegers (fromChars : Bytes → Option ℚ) : Prop where
  unsigned : ∀ n < 2 ^ 64, (fromChars (decimal n)).isSome = true
  negative : ∀ n < 2 ^ 64, (fromChars (ch '-' :: decimal n)).isSome = true

section Layouts
variable {fromChars : Bytes → Option ℚ}

/-! ## Leaves -/

theorem isJson_quoted (s : Bytes) : IsJson fromChars (Json.quoted s) := ⟨_, .string s⟩

theorem isJson_null : IsJson fromChars (lit "null") := ⟨_, .null⟩

theorem isJson_bool (b : Bool) : IsJson fromChars (boolText b) := ⟨_, .bool b⟩

theorem isJson_nullableString (s : Bytes) : IsJson fromChars (writeNullableString s) := ⟨_, printed_nullable s⟩

theorem isJson_nullable {α : Type} {write : α → Bytes} (h : ∀ a, IsJson fromChars (write a)) (value : Option α) :
    IsJson fromChars (nullable write value) := by
  cases value with
  | none => exact isJson_null
  | some a => exact h a

/-- Decimal digits are a number's integer part. -/
theorem exists_intPart (n : Nat) : ∃ i : IntPart, i.text = decimal n := by
  by_cases hn : n = 0
  · subst hn
    exact ⟨.zero, rfl⟩
  · obtain ⟨ds, hds⟩ := exists_digits (decimal_digits n)
    cases ds with
    | nil => exact absurd hds.symm (decimal_ne_nil n)
    | cons first ds =>
      have hfirst : first ≠ 0 := by
        rintro rfl
        exact decimal_head_ne_zero hn (digitByte 0) (by rw [← hds]; rfl) rfl
      obtain ⟨nonzero, rfl⟩ := Fin.exists_succ_eq.2 hfirst
      exact ⟨.digits nonzero ds, hds⟩

theorem isJson_integer (negative : Bool) (n : Nat) (h : (fromChars (minusText negative ++ decimal n)).isSome = true) :
    IsJson fromChars (minusText negative ++ decimal n) := by
  obtain ⟨i, hi⟩ := exists_intPart n
  obtain ⟨number, hnumber⟩ := Option.isSome_iff_exists.1 h
  have htext : NumberToken.text ⟨negative, i, none, none⟩ = minusText negative ++ decimal n := by
    show minusText negative ++ i.text ++ [] ++ [] = _
    rw [List.append_nil, List.append_nil, hi]
  rw [← htext] at hnumber ⊢
  exact ⟨_, .token hnumber⟩

section Numbers
variable (hconvert : ConvertsIntegers fromChars)
include hconvert

theorem isJson_decimal {n : Nat} (h : n < 2 ^ 64) : IsJson fromChars (decimal n) :=
  isJson_integer false n (hconvert.unsigned n h)

theorem isJson_word (x : UInt64) : IsJson fromChars (decimal x.toNat) := isJson_decimal hconvert x.toNat_lt

theorem isJson_size (n : Nat) : IsJson fromChars (writeSize n) := isJson_word hconvert _

theorem isJson_int (x : Int) : IsJson fromChars (writeInt x) := by
  have hlow : -2 ^ 31 ≤ x.bmod (2 ^ 32) := Int.le_bmod (by decide)
  have hhigh : x.bmod (2 ^ 32) < 2 ^ 31 := Int.bmod_lt (by decide)
  have habs : (x.bmod (2 ^ 32)).natAbs < 2 ^ 64 := by omega
  unfold writeInt
  dsimp only
  split
  · exact isJson_integer true _ (hconvert.negative _ habs)
  · exact isJson_decimal hconvert habs

end Numbers

/-! ## Arrays and objects -/

theorem isJson_array {«open» gap close : Bytes} (hopen : ∀ c ∈ «open», isSpace c = true)
    (hgap : ∀ c ∈ gap, isSpace c = true) (hclose : ∀ c ∈ close, isSpace c = true) {items : List Bytes}
    (h : ∀ text ∈ items, IsJson fromChars text) : IsJson fromChars (arrayText «open» gap close items) := by
  have hitem : ∀ text ∈ items, ∃ x : Value × Bytes, Printed fromChars x.1 x.2 ∧ x.2 = text := by
    intro text htext
    obtain ⟨v, hv⟩ := h text htext
    exact ⟨(v, text), hv, rfl⟩
  obtain ⟨pairs, hpairs, rfl⟩ := exists_map hitem
  exact ⟨_, .array hopen hgap hclose pairs hpairs⟩

/-- The members of an object: their texts are values, and their names are among `names`, in this order. -/
inductive Fields (fromChars : Bytes → Option ℚ) : List String → List (String × Bytes) → Prop where
  | nil : Fields fromChars [] []
  | cons {name : String} {text : Bytes} {names : List String} {members : List (String × Bytes)}
      (h : IsJson fromChars text) (rest : Fields fromChars names members) :
      Fields fromChars (name :: names) ((name, text) :: members)
  | skip {name : String} {names : List String} {members : List (String × Bytes)}
      (rest : Fields fromChars names members) : Fields fromChars (name :: names) members

theorem Fields.append {names names' : List String} {members members' : List (String × Bytes)}
    (h : Fields fromChars names members) (h' : Fields fromChars names' members') :
    Fields fromChars (names ++ names') (members ++ members') := by
  induction h with
  | nil => exact h'
  | cons htext _ ih => exact .cons htext ih
  | skip _ ih => exact .skip ih

theorem Fields.optional {c : Prop} [Decidable c] {name : String} {text : Bytes} (h : IsJson fromChars text) :
    Fields fromChars [name] (if c then [(name, text)] else []) := by
  split
  · exact .cons h .nil
  · exact .skip .nil

theorem Fields.sublist {names : List String} {members : List (String × Bytes)} (h : Fields fromChars names members) :
    (members.map (·.1)).Sublist names := by
  induction h with
  | nil => exact .slnil
  | cons _ _ ih => exact ih.cons_cons _
  | skip _ ih => exact ih.cons _

theorem Fields.values {names : List String} {members : List (String × Bytes)} (h : Fields fromChars names members) :
    ∃ values, List.Forall₂ (Printed fromChars) values (members.map (·.2)) := by
  induction h with
  | nil => exact ⟨[], .nil⟩
  | cons htext _ ih =>
    obtain ⟨v, hv⟩ := htext
    obtain ⟨values, hvalues⟩ := ih
    exact ⟨v :: values, .cons hv hvalues⟩
  | skip _ ih => exact ih

section Object
variable {names : List String} {members : List (String × Bytes)} (hfields : Fields fromChars names members)
  (hnames : (names.map lit).Nodup) (hne : members ≠ [])
include hfields hnames hne

/-- An object with distinct names. -/
theorem isJson_object {«open» gap close : Bytes} (hopen : ∀ c ∈ «open», isSpace c = true)
    (hgap : ∀ c ∈ gap, isSpace c = true) (hclose : ∀ c ∈ close, isSpace c = true) :
    IsJson fromChars (objectText «open» gap close (members.map member)) := by
  have hnodup : ((members.map (·.1)).map lit).Nodup := hnames.sublist (hfields.sublist.map lit)
  obtain ⟨values, hvalues⟩ := hfields.values
  have hlength := hvalues.length_eq
  rw [List.length_map] at hlength
  have hprinted := @Printed.objectOf fromChars ⟨members.map (·.1), hnodup⟩ values (members.map (·.2)) hvalues
    (by rw [List.length_map, hlength]) (by simpa using hne) «open» gap close hopen hgap hclose
  have hzip : (members.map (·.1)).zip (members.map (·.2)) = members := (List.zip_of_prod rfl rfl).symm
  rw [hzip] at hprinted
  exact ⟨_, hprinted⟩

end Object

/-! ## The layouts -/

/-- A text of white space. -/
def Blank (s : String) : Prop := (lit s).all isSpace = true

instance instDecidableBlank (s : String) : Decidable (Blank s) := inferInstanceAs (Decidable (_ = _))

theorem Blank.line {s : String} (h : Blank s) : ∀ c ∈ 10 :: lit s, isSpace c = true :=
  List.forall_mem_cons.2 ⟨by decide, List.all_eq_true.1 h⟩

theorem isJson_inlineArray {items : List Bytes} (h : ∀ text ∈ items, IsJson fromChars text) :
    IsJson fromChars (inlineArray items) :=
  @isJson_array fromChars [] [ch ' '] [] (by simp) (List.all_eq_true.1 (by decide)) (by simp) items h

theorem nestedArray_text (indent close : String) (item : Bytes) (items : List Bytes) :
    nestedArray indent close (item :: items) =
      arrayText (10 :: lit indent) (10 :: lit indent) (10 :: lit close) (item :: items) := by
  unfold nestedArray itemLines arrayText
  rw [if_neg (by simp), intercalate_prefix]
  simp only [List.append_assoc, List.cons_append]
  rfl

theorem isJson_nestedArray {indent close : String} (hindent : Blank indent) (hclose : Blank close) {items : List Bytes}
    (h : ∀ text ∈ items, IsJson fromChars text) : IsJson fromChars (nestedArray indent close items) := by
  cases items with
  | nil =>
    exact @isJson_array fromChars (lit close) [] [] (List.all_eq_true.1 hclose) (by simp) (by simp) [] (by simp)
  | cons item items =>
    rw [nestedArray_text]
    exact isJson_array hindent.line hindent.line hclose.line h

theorem isJson_compactArray {indent close : String} (hindent : Blank indent) (hclose : Blank close) {items : List Bytes}
    (h : ∀ text ∈ items, IsJson fromChars text) : IsJson fromChars (compactArray indent close items) := by
  by_cases hnil : items = []
  · subst hnil
    exact isJson_inlineArray h
  · have hnested := isJson_nestedArray hindent hclose h
    unfold compactArray
    rw [if_neg hnil, ← List.append_assoc]
    exact hnested

theorem isJson_blockArray {items : List Bytes} (h : ∀ text ∈ items, IsJson fromChars text) :
    IsJson fromChars (blockArray items) := by
  have hnested := @isJson_nestedArray fromChars "    " "  " (by decide) (by decide) items h
  unfold blockArray
  unfold nestedArray at hnested
  simpa [lit, itemLines] using hnested

theorem nestedObject_text (indent close : String) (m : String × Bytes) (members : List (String × Bytes)) :
    nestedObject indent close (m :: members) =
      objectText (10 :: lit indent) (10 :: lit indent) (10 :: lit close) ((m :: members).map member) := by
  have hlines : (m :: members).map (fun m => lit indent ++ member m) =
      ((m :: members).map member).map (lit indent ++ ·) := by rw [List.map_map]; rfl
  unfold nestedObject objectText
  rw [hlines, List.map_cons, intercalate_prefix]
  simp only [List.append_assoc, List.cons_append]
  rfl

section Object
variable {names : List String} {members : List (String × Bytes)} (hfields : Fields fromChars names members)
  (hnames : (names.map lit).Nodup) (hne : members ≠ [])
include hfields hnames hne

theorem isJson_inlineObject : IsJson fromChars (inlineObject members) :=
  @isJson_object fromChars names members hfields hnames hne [] [ch ' '] [] (by simp) (List.all_eq_true.1 (by decide))
    (by simp)

theorem isJson_nestedObject {indent close : String} (hindent : Blank indent) (hclose : Blank close) :
    IsJson fromChars (nestedObject indent close members) := by
  obtain ⟨m, members, rfl⟩ := List.exists_cons_of_ne_nil hne
  rw [nestedObject_text]
  exact isJson_object hfields hnames hne hindent.line hindent.line hclose.line

theorem isJson_blockObject {indent : String} (hindent : Blank indent) :
    IsJson fromChars (blockObject indent members) := by
  obtain ⟨m, members, rfl⟩ := List.exists_cons_of_ne_nil hne
  have hline : ∀ c ∈ 10 :: (lit indent ++ lit "  "), isSpace c = true := by
    refine List.forall_mem_cons.2 ⟨by decide, fun c hc => ?_⟩
    rcases List.mem_append.1 hc with hc | hc
    · exact List.all_eq_true.1 hindent c hc
    · exact List.all_eq_true.1 (by decide : (lit "  ").all isSpace = true) c hc
  rw [blockObject_text]
  exact isJson_object hfields hnames hne hline hline hindent.line

end Object

theorem isJson_items {α : Type} {l : List α} {write : α → Bytes} (h : ∀ a, IsJson fromChars (write a)) :
    ∀ text ∈ l.map write, IsJson fromChars text := by
  intro text htext
  obtain ⟨a, -, rfl⟩ := List.mem_map.1 htext
  exact h a

end Layouts

/-! ## The parts of a report -/

section Writers
variable {fromChars : Bytes → Option ℚ}

theorem isJson_evidence (evidence : Evidence) : IsJson fromChars (Artifact.writeEvidence evidence) :=
  ⟨_, printed_evidence evidence⟩

theorem isJson_memberKeys (g : Graph) (members : List AggregateMember) (disposition : AggregateMemberDisposition) :
    IsJson fromChars (writeMemberKeys g members disposition) :=
  isJson_inlineArray (isJson_items fun _ => isJson_quoted _)

theorem isJson_analysisContext (metadata : AnalysisMetadata) : IsJson fromChars (writeAnalysisContext metadata) := by
  refine isJson_blockObject (.cons ?configurationId <| .cons ?configuration <| .cons ?targetId <|
    .cons ?targetName <| .cons ?targetKind <| .cons ?closureTargets .nil) (by decide) (List.cons_ne_nil _ _)
    (by decide)
  case configurationId | configuration => exact isJson_quoted _
  case targetId | targetName | targetKind => exact isJson_nullableString _
  case closureTargets => exact isJson_inlineArray (isJson_items isJson_quoted)

section Numbers
variable (hconvert : ConvertsIntegers fromChars)
include hconvert

theorem isJson_translationUnit (unit : TranslationUnitDiagnostic) : IsJson fromChars (writeTranslationUnit unit) := by
  unfold writeTranslationUnit
  refine isJson_blockObject (.append (.append (.cons ?file <| .cons ?status <| .cons ?stage <| .cons ?message .nil)
    (?code : Fields fromChars ["exit_code"] _)) (?signal : Fields fromChars ["signal"] _)) (by decide) (by simp)
    (by decide)
  case file | status | stage | message => exact isJson_quoted _
  case code =>
    cases unit.exitCode with
    | none => exact .skip .nil
    | some code => exact .cons (isJson_int hconvert code) .nil
  case signal =>
    cases unit.signal with
    | none => exact .skip .nil
    | some signal =>
      dsimp only
      split
      · exact .cons (isJson_int hconvert signal) .nil
      · exact .skip .nil

theorem isJson_run (run : RunDiagnostics) : IsJson fromChars (writeJsonRun run) := by
  refine isJson_blockObject (.cons ?state <| .cons ?frontend <| .cons ?partialGraphDiscarded <|
    .cons ?translationUnits .nil) (by decide) (List.cons_ne_nil _ _) (by decide)
  case state | frontend => exact isJson_quoted _
  case partialGraphDiscarded => exact isJson_bool _
  case translationUnits =>
    exact isJson_nestedArray (by decide) (by decide) (isJson_items (isJson_translationUnit hconvert))

/-! ### Sources -/

theorem isJson_jsonSourcePoint (point : SourcePoint) : IsJson fromChars (writeJsonSourcePoint point) := by
  refine isJson_inlineObject (.cons ?file <| .cons ?line <| .cons ?column <| .cons ?offset <|
    .cons ?tokenLength .nil) (by decide) (List.cons_ne_nil _ _)
  case file => exact isJson_quoted _
  case line | column | offset | tokenLength => exact isJson_word hconvert _

theorem isJson_jsonSourceExtent (extent : SourceExtent) : IsJson fromChars (writeJsonSourceExtent extent) := by
  refine isJson_inlineObject (.cons ?location <| .cons ?range .nil) (by decide) (List.cons_ne_nil _ _)
  case location => exact isJson_jsonSourcePoint hconvert _
  case range =>
    refine isJson_inlineObject (.cons ?begin <| .cons ?«end» .nil) (by decide) (List.cons_ne_nil _ _)
    case begin | «end» => exact isJson_jsonSourcePoint hconvert _

theorem isJson_jsonSource (source : SymbolSource) : IsJson fromChars (writeJsonSource source) := by
  refine isJson_inlineObject (.cons ?spelling <| .cons ?expansion .nil) (by decide) (List.cons_ne_nil _ _)
  case spelling => exact isJson_jsonSourceExtent hconvert _
  case expansion => exact isJson_nullable (isJson_jsonSourceExtent hconvert) _

/-! ### Findings and components -/

variable (g : Graph)

omit hconvert in
theorem isJson_findingEvidence (item : FindingEvidence) : IsJson fromChars (writeFindingEvidence g item) := by
  unfold writeFindingEvidence
  refine isJson_blockObject (.append (.append (.cons ?kind <| .cons ?provider <| .cons ?reason .nil)
    (?escape : Fields fromChars ["escape_kind"] _)) (?«from» : Fields fromChars ["from_symbol", "from_signature"] _))
    (by decide) (by simp) (by decide)
  case kind | provider | reason => exact isJson_quoted _
  case escape =>
    cases item.escapeKind with
    | none => exact .skip .nil
    | some kind => exact .cons (isJson_quoted _) .nil
  case «from» =>
    cases item.from with
    | none => exact .skip (.skip .nil)
    | some id => exact .cons (isJson_quoted _) (.cons (isJson_quoted _) .nil)

theorem isJson_finding (component weakComponent : SymbolId → Int) (finding : Finding)
    (suppressions : Option (List Evidence)) :
    IsJson fromChars (writeFinding g component weakComponent finding suppressions) := by
  unfold writeFinding
  refine isJson_blockObject (.append (.cons ?symbol <| .cons ?signature <| .cons ?key <| .cons ?kind <| .cons ?scope <|
    .cons ?file <| .cons ?line <| .cons ?source <| .cons ?classification <| .cons ?component <| .cons ?weakComponent <|
    .cons ?evidence .nil) (?suppression : Fields fromChars ["suppression_evidence"] _)) (by decide) (by simp) (by decide)
  case symbol | signature | key | kind | scope | file | classification => exact isJson_quoted _
  case line => exact isJson_word hconvert _
  case source => exact isJson_jsonSource hconvert _
  case component | weakComponent => exact isJson_int hconvert _
  case evidence => exact isJson_nestedArray (by decide) (by decide) (isJson_items (isJson_findingEvidence g))
  case suppression =>
    cases suppressions with
    | none => exact .skip .nil
    | some suppressions => exact .cons (isJson_nestedArray (by decide) (by decide) (isJson_items isJson_evidence)) .nil

theorem isJson_reportRoot (root : Root) : IsJson fromChars (writeReportRoot g root) := by
  refine isJson_blockObject (.cons ?symbol <| .cons ?signature <| .cons ?key <| .cons ?kind <| .cons ?scope <|
    .cons ?source <| .cons ?evidence .nil) (by decide) (List.cons_ne_nil _ _) (by decide)
  case symbol | signature | key | kind | scope => exact isJson_quoted _
  case source => exact isJson_jsonSource hconvert _
  case evidence =>
    refine isJson_blockObject (.cons ?provider <| .cons ?reason .nil) (by decide) (List.cons_ne_nil _ _)
      (by decide)
    case provider | reason => exact isJson_quoted _

omit hconvert in
theorem isJson_publicApi (retained : ProviderReachability) : IsJson fromChars (writePublicApi g retained) := by
  refine isJson_blockObject (.cons ?symbol <| .cons ?signature <| .cons ?key <| .cons ?classification <|
    .cons ?evidence .nil) (by decide) (List.cons_ne_nil _ _) (by decide)
  case symbol | signature | key | classification => exact isJson_quoted _
  case evidence => exact isJson_evidence _

omit hconvert in
theorem isJson_providerReachable (retained : ProviderReachability) :
    IsJson fromChars (writeProviderReachable g retained) := by
  refine isJson_blockObject (.cons ?symbol <| .cons ?signature <| .cons ?key <| .cons ?fromSymbol <|
    .cons ?fromSignature <| .cons ?evidence .nil) (by decide) (List.cons_ne_nil _ _) (by decide)
  case symbol | signature | key => exact isJson_quoted _
  case fromSymbol | fromSignature => exact isJson_nullable (fun _ => isJson_quoted _) _
  case evidence => exact isJson_evidence _

theorem isJson_scc (component : SymbolId → Int) (members : List AggregateMember) (scc : Nat) :
    IsJson fromChars (writeScc g component members scc) := by
  refine isJson_blockObject (.cons ?id <| .cons ?findingKeys <| .cons ?suppressedFindingKeys .nil) (by decide)
    (List.cons_ne_nil _ _) (by decide)
  case id => exact isJson_size hconvert _
  case findingKeys | suppressedFindingKeys => exact isJson_memberKeys g _ _

theorem isJson_condensationEdge (edge : CondensationEdge) : IsJson fromChars (writeCondensationEdge edge) := by
  refine isJson_inlineObject (.cons ?fromScc <| .cons ?toScc .nil) (by decide) (List.cons_ne_nil _ _)
  case fromScc | toScc => exact isJson_size hconvert _

/-- The label's name is not one of the other members'. -/
theorem isJson_ownership (summaries : List OwnershipSummary) {labelName : String}
    (hlabel : ([labelName, "estimated_loc", "unmeasured_symbols", "finding_keys", "suppressed_finding_keys"].map
      lit).Nodup) : IsJson fromChars (writeOwnership g summaries labelName) := by
  refine isJson_compactArray (by decide) (by decide) (isJson_items fun summary => ?_)
  refine isJson_blockObject (.cons ?label <| .cons ?estimatedLoc <| .cons ?unmeasuredSymbols <| .cons ?findingKeys <|
    .cons ?suppressedFindingKeys .nil) hlabel (List.cons_ne_nil _ _) (by decide)
  case label => exact isJson_quoted _
  case estimatedLoc => exact isJson_word hconvert _
  case unmeasuredSymbols => exact isJson_size hconvert _
  case findingKeys | suppressedFindingKeys => exact isJson_memberKeys g _ _

theorem isJson_aggregate (componentOf : SymbolId → Int) (component : UnreachableAggregate) :
    IsJson fromChars (writeAggregate g componentOf component) := by
  refine isJson_blockObject (.cons ?id <| .cons ?estimatedLoc <| .cons ?unmeasuredSymbols <| .cons ?sccs <|
    .cons ?edges <| .cons ?findingKeys <| .cons ?suppressedFindingKeys <| .cons ?ownership .nil) (by decide)
    (List.cons_ne_nil _ _) (by decide)
  case id | unmeasuredSymbols => exact isJson_size hconvert _
  case estimatedLoc => exact isJson_word hconvert _
  case sccs => exact isJson_nestedArray (by decide) (by decide) (isJson_items (isJson_scc hconvert g _ _))
  case edges =>
    exact isJson_nestedArray (by decide) (by decide) (isJson_items (isJson_condensationEdge hconvert))
  case findingKeys | suppressedFindingKeys => exact isJson_memberKeys g _ _
  case ownership =>
    refine isJson_nestedObject (.cons ?types <| .cons ?files <| .cons ?directories .nil) (by decide)
      (List.cons_ne_nil _ _) (by decide) (by decide)
    case types | files | directories => exact isJson_ownership hconvert g _ (by decide)

omit g in
theorem isJson_summary (report : AnalysisReport) : IsJson fromChars (writeSummary report) := by
  refine isJson_blockObject (.cons ?defined <| .cons ?reachable <| .cons ?structurallyReachable <|
    .cons ?providerReachable <| .cons ?publicApi <| .cons ?internalLive <| .cons ?internalUnreachable <|
    .cons ?unreachable <| .cons ?components <| .cons ?actionable <| .cons ?suppressed <|
    .cons ?scopeCounts .nil) (by decide) (List.cons_ne_nil _ _) (by decide)
  case defined | reachable | structurallyReachable | providerReachable | publicApi | internalLive |
    internalUnreachable | unreachable | components | actionable | suppressed =>
    exact isJson_size hconvert _
  case scopeCounts =>
    refine isJson_blockObject (.cons ?reportable <| .cons ?indexed <| .cons ?externalOpaque .nil) (by decide)
      (List.cons_ne_nil _ _) (by decide)
    case reportable | indexed | externalOpaque => exact isJson_size hconvert _

/-! ### Artifacts, exact or not -/

omit g in
theorem isJson_sourcePoint (point : SourcePoint) : IsJson fromChars (writeSourcePoint point) := by
  refine isJson_inlineObject (.cons ?file <| .cons ?line <| .cons ?column <| .cons ?offset <|
    .cons ?tokenLength .nil) (by decide) (List.cons_ne_nil _ _)
  case file => exact isJson_quoted _
  case line | column | offset | tokenLength => exact isJson_word hconvert _

omit g in
theorem isJson_sourceExtent (extent : SourceExtent) : IsJson fromChars (writeSourceExtent extent) := by
  refine isJson_inlineObject (.cons ?location <| .cons ?range .nil) (by decide) (List.cons_ne_nil _ _)
  case location => exact isJson_sourcePoint hconvert _
  case range =>
    refine isJson_inlineObject (.cons ?begin <| .cons ?«end» .nil) (by decide) (List.cons_ne_nil _ _)
    case begin | «end» => exact isJson_sourcePoint hconvert _

omit g in
theorem isJson_source (source : SymbolSource) : IsJson fromChars (writeSource source) := by
  refine isJson_inlineObject (.cons ?spelling <| .cons ?expansion .nil) (by decide) (List.cons_ne_nil _ _)
  case spelling => exact isJson_sourceExtent hconvert _
  case expansion =>
    cases source.expansion with
    | none => exact isJson_null
    | some extent => exact isJson_sourceExtent hconvert extent

omit g in
theorem isJson_symbol (symbol : Symbol) : IsJson fromChars (Artifact.writeSymbol symbol) := by
  refine isJson_blockObject (.cons ?id <| .cons ?identity <| .cons ?name <| .cons ?qualifiedName <|
    .cons ?className <| .cons ?signature <| .cons ?kind <| .cons ?scope <| .cons ?defined <|
    .cons ?internalLinkage <| .cons ?virtual <| .cons ?source .nil) (by decide) (List.cons_ne_nil _ _)
    (by decide)
  case id | name | qualifiedName | className | signature | kind | scope => exact isJson_quoted _
  case identity => exact ⟨_, printed_identity _⟩
  case defined | internalLinkage | virtual => exact isJson_bool _
  case source => exact isJson_source hconvert _

/-! ### Changes -/

omit g in
theorem isJson_metadata (metadata : GraphArtifactMetadata) : IsJson fromChars (writeMetadata metadata) := by
  refine isJson_inlineObject (.cons ?configurationId <| .cons ?configuration <| .cons ?targetId <|
    .cons ?targetName <| .cons ?targetKind <| .cons ?frontend <| .cons ?translationUnits <|
    .cons ?closureTargets .nil) (by decide) (List.cons_ne_nil _ _)
  case configurationId | configuration | frontend => exact isJson_quoted _
  case targetId | targetName | targetKind => exact isJson_nullableString _
  case translationUnits => exact isJson_word hconvert _
  case closureTargets => exact isJson_inlineArray (isJson_items isJson_quoted)

omit g hconvert in
theorem isJson_differentialEvidence (item : DifferentialEvidence) :
    IsJson fromChars (writeDifferentialEvidence item) := by
  refine isJson_inlineObject (.cons ?kind <| .cons ?provider <| .cons ?reason <| .cons ?escapeKind <|
    .cons ?fromSymbol .nil) (by decide) (List.cons_ne_nil _ _)
  case kind | provider | reason => exact isJson_quoted _
  case escapeKind => exact isJson_nullable (fun _ => isJson_quoted _) _
  case fromSymbol => exact isJson_nullableString _

omit g hconvert in
theorem isJson_state (state : DifferentialSymbolState) : IsJson fromChars (writeState state) := by
  refine isJson_inlineObject (.cons ?present <| .cons ?reachable <| .cons ?suppressed <|
    .cons ?classification <| .cons ?evidence <| .cons ?suppressions .nil) (by decide) (List.cons_ne_nil _ _)
  case present | reachable | suppressed => exact isJson_bool _
  case classification => exact isJson_nullable (fun _ => isJson_quoted _) _
  case evidence => exact isJson_inlineArray (isJson_items isJson_differentialEvidence)
  case suppressions => exact isJson_inlineArray (isJson_items isJson_evidence)

omit g in
theorem isJson_change (change : DifferentialChange) : IsJson fromChars (writeChange change) := by
  refine isJson_inlineObject (.cons ?kind <| .cons ?policyMatch <| .cons ?symbol <| .cons ?baseline <|
    .cons ?current .nil) (by decide) (List.cons_ne_nil _ _)
  case kind => exact isJson_quoted _
  case policyMatch => exact isJson_bool _
  case symbol =>
    refine isJson_inlineObject (.cons ?id <| .cons ?qualifiedName <| .cons ?signature <| .cons ?symbolKind <|
      .cons ?location .nil) (by decide) (List.cons_ne_nil _ _)
    case id | qualifiedName | signature | symbolKind => exact isJson_quoted _
    case location => exact isJson_sourcePoint hconvert _
  case baseline | current => exact isJson_state _

/-! ### SARIF -/

omit g in
theorem isJson_sarifRegion (extent : SourceExtent) : IsJson fromChars (inlineObject (sarifRegion extent)) := by
  refine isJson_inlineObject (.cons ?startLine <| .append (.optional ?startColumn) <|
    .append (.optional ?endLine) (.optional ?endColumn)) (by decide) (List.cons_ne_nil _ _)
  case startLine | startColumn | endLine | endColumn => exact isJson_word hconvert _

omit g in
theorem isJson_sarifPlace (uri : Bytes) (extent : SourceExtent) : IsJson fromChars (sarifPlace uri extent) := by
  refine isJson_inlineObject (.cons ?physicalLocation .nil) (by decide) (List.cons_ne_nil _ _)
  case physicalLocation =>
    refine isJson_inlineObject (.cons ?artifactLocation <| .cons ?region .nil) (by decide)
      (List.cons_ne_nil _ _)
    case artifactLocation =>
      refine isJson_inlineObject (.cons ?uri .nil) (by decide) (List.cons_ne_nil _ _)
      case uri => exact isJson_quoted _
    case region => exact isJson_sarifRegion hconvert extent

omit g in
theorem isJson_sarifResult {targetName text : Bytes} {projectRoot : Path}
    (h : IsSarifResult targetName projectRoot text) : IsJson fromChars text := by
  obtain ⟨change, classification, rule, rfl⟩ := h
  have hplaces : Fields fromChars ["locations"] (sarifPlaces change.symbol projectRoot) :=
    .optional (isJson_inlineArray (List.forall_mem_singleton.2 (isJson_sarifPlace hconvert _ _)))
  unfold sarifMembers
  refine isJson_inlineObject (.append (.cons ?ruleId <| .cons ?level <| .cons ?message <| .cons ?fingerprints <|
    .cons ?properties .nil) hplaces) (by decide) (by simp)
  case ruleId | level => exact isJson_quoted _
  case message | fingerprints =>
    exact isJson_inlineObject (.cons (isJson_quoted _) .nil) (by decide) (List.cons_ne_nil _ _)
  case properties =>
    refine isJson_inlineObject (.cons ?change <| .cons ?classification <| .cons ?target .nil) (by decide)
      (List.cons_ne_nil _ _)
    case change | classification => exact isJson_quoted _
    case target => exact isJson_nullableString _

omit g hconvert in
theorem isJson_sarifRuleObject (rule : Bytes) : IsJson fromChars (sarifRuleObject rule) := by
  refine isJson_inlineObject (.cons ?id <| .cons ?shortDescription .nil) (by decide) (List.cons_ne_nil _ _)
  case id => exact isJson_quoted _
  case shortDescription =>
    refine isJson_inlineObject (.cons ?text .nil) (by decide) (List.cons_ne_nil _ _)
    case text => exact isJson_quoted _

omit g hconvert in
theorem isJson_sarifDriver (toolVersion : Bytes) (rules : List Bytes) :
    IsJson fromChars (sarifDriver toolVersion rules) := by
  refine isJson_inlineObject (.cons ?name <| .cons ?version <| .cons ?informationUri <| .cons ?rules .nil)
    (by decide) (List.cons_ne_nil _ _)
  case name | version | informationUri => exact isJson_quoted _
  case rules => exact isJson_inlineArray (isJson_items isJson_sarifRuleObject)

omit g hconvert in
theorem isJson_sarifLog (toolVersion : Bytes) (rules : List Bytes) {results : List Bytes}
    (h : ∀ result ∈ results, IsJson fromChars result) : IsJson fromChars (sarifLog toolVersion rules results) := by
  refine isJson_blockObject (.cons ?schema <| .cons ?version <| .cons ?runs .nil) (by decide)
    (List.cons_ne_nil _ _) (by decide)
  case schema | version => exact isJson_quoted _
  case runs =>
    refine isJson_inlineArray (List.forall_mem_singleton.2 ?_)
    refine isJson_blockObject (.cons ?tool <| .cons ?results .nil) (by decide) (List.cons_ne_nil _ _) (by decide)
    case tool => exact isJson_inlineObject (.cons (isJson_sarifDriver _ _) .nil) (by decide) (List.cons_ne_nil _ _)
    case results => exact isJson_nestedArray (by decide) (by decide) h

/-! ## The documents -/

omit g hconvert in
/-- A value and a line break are a document. -/
theorem IsJson.accepted {text : Bytes} (h : IsJson fromChars text) :
    ∃ v, Json.parse fromChars (text ++ lit "\n") = .ok v := by
  obtain ⟨v, hprinted⟩ := h
  exact ⟨v, hprinted.parse (List.all_eq_true.1 (by decide))⟩

theorem jsonReport_accepted (reachability : ReachabilityResult) (report : AnalysisReport) (diagnostics : List Bytes)
    (metadata : AnalysisMetadata) :
    ∃ v, Json.parse fromChars (writeJsonReport g reachability report diagnostics metadata) = .ok v := by
  apply IsJson.accepted
  refine isJson_blockObject (.cons ?schemaVersion <| .cons ?mode <| .cons ?run <| .cons ?analysisContext <|
    .cons ?summary <| .cons ?roots <| .cons ?publicApi <| .cons ?providerReachable <| .cons ?components <|
    .cons ?findings <| .cons ?suppressedFindings <| .cons ?diagnostics .nil) (by decide) (List.cons_ne_nil _ _)
    (by decide)
  case schemaVersion => exact isJson_decimal hconvert (by decide)
  case mode => exact isJson_quoted _
  case run => exact isJson_run hconvert _
  case analysisContext => exact isJson_analysisContext _
  case summary => exact isJson_summary hconvert _
  case roots => exact isJson_blockArray (isJson_items (isJson_reportRoot hconvert g))
  case publicApi => exact isJson_blockArray (isJson_items (isJson_publicApi g))
  case providerReachable => exact isJson_blockArray (isJson_items (isJson_providerReachable g))
  case components => exact isJson_blockArray (isJson_items (isJson_aggregate hconvert g _))
  case findings | suppressedFindings =>
    exact isJson_blockArray (isJson_items fun _ => isJson_finding hconvert g _ _ _ _)
  case diagnostics => exact isJson_blockArray (isJson_items isJson_quoted)

omit g in
theorem jsonRunDiagnostic_accepted (message : Bytes) (run : RunDiagnostics) (metadata : AnalysisMetadata) :
    ∃ v, Json.parse fromChars (writeJsonRunDiagnostic message run metadata) = .ok v := by
  apply IsJson.accepted
  refine isJson_blockObject (.cons ?schemaVersion <| .cons ?mode <| .cons ?run <| .cons ?analysisContext <|
    .cons ?diagnostics .nil) (by decide) (List.cons_ne_nil _ _) (by decide)
  case schemaVersion => exact isJson_decimal hconvert (by decide)
  case mode => exact isJson_quoted _
  case run => exact isJson_run hconvert _
  case analysisContext => exact isJson_analysisContext _
  case diagnostics => exact isJson_inlineArray (List.forall_mem_singleton.2 (isJson_quoted _))

theorem document_accepted (metadata : GraphArtifactMetadata) (diagnostics : List Bytes) :
    ∃ v, Json.parse fromChars (writeDocument g metadata diagnostics) = .ok v := by
  apply IsJson.accepted
  refine isJson_blockObject (.cons ?artifactSchema <| .cons ?identitySchema <| .cons ?configurationId <|
    .cons ?analysisContext <| .cons ?frontend <| .cons ?translationUnits <| .cons ?symbols <| .cons ?edges <|
    .cons ?roots <| .cons ?escapes <| .cons ?suppressions <| .cons ?diagnostics .nil) (by decide)
    (List.cons_ne_nil _ _) (by decide)
  case artifactSchema | identitySchema => exact isJson_decimal hconvert (by decide)
  case configurationId | frontend => exact isJson_quoted _
  case analysisContext => exact ⟨_, printed_context _⟩
  case translationUnits => exact isJson_word hconvert _
  case symbols => exact isJson_blockArray (isJson_items (isJson_symbol hconvert))
  case edges => exact isJson_blockArray (isJson_items fun _ => ⟨_, printed_edge g _⟩)
  case roots => exact isJson_blockArray (isJson_items fun _ => ⟨_, printed_root g _⟩)
  case escapes => exact isJson_blockArray (isJson_items fun _ => ⟨_, printed_escape g _⟩)
  case suppressions => exact isJson_blockArray (isJson_items fun _ => ⟨_, printed_suppression g _⟩)
  case diagnostics => exact isJson_blockArray (isJson_items isJson_quoted)

omit g in
theorem jsonDifferentialReport_accepted (report : DifferentialReport) :
    ∃ v, Json.parse fromChars (writeJsonDifferentialReport report) = .ok v := by
  apply IsJson.accepted
  refine isJson_blockObject (.cons ?schema <| .cons ?baseline <| .cons ?current <| .cons ?summary <|
    .cons ?changes .nil) (by decide) (List.cons_ne_nil _ _) (by decide)
  case schema => exact isJson_decimal hconvert (by decide)
  case baseline | current => exact isJson_metadata hconvert _
  case summary =>
    refine isJson_inlineObject (.cons ?newSymbols <| .cons ?newlyUnreachable <| .cons ?removed <|
      .cons ?becameReachable <| .cons ?policyMatches .nil) (by decide) (List.cons_ne_nil _ _)
    case newSymbols | newlyUnreachable | removed | becameReachable | policyMatches =>
      exact isJson_size hconvert _
  case changes => exact isJson_blockArray (isJson_items (isJson_change hconvert))

omit g in
theorem sarif_accepted {report : DifferentialReport} {projectRoot : Path} {toolVersion text : Bytes}
    (h : writeSarif report projectRoot toolVersion = some text) : ∃ v, Json.parse fromChars text = .ok v := by
  obtain ⟨rules, results, hresults, rfl⟩ := writeSarif_text h
  have hjson : ∀ result ∈ results, IsJson fromChars result := fun result hresult =>
    isJson_sarifResult hconvert (hresults result hresult)
  exact (isJson_sarifLog toolVersion rules hjson).accepted

/-- What the five writers print is accepted: the report of a graph, a run's diagnostic, the graph's
artifact, and a comparison of the graph with a baseline, as JSON and as SARIF. -/
theorem written_accepted (metadata : AnalysisMetadata) (diagnostics : List Bytes) :
    (∃ v, Json.parse fromChars (writeJsonReport g (analyzeReachability g) (buildReport g (analyzeReachability g))
      diagnostics metadata) = .ok v) ∧
    (∀ message run, ∃ v, Json.parse fromChars (writeJsonRunDiagnostic message run metadata) = .ok v) ∧
    (∀ artifact text, writeGraphArtifact g artifact diagnostics = .ok text →
      ∃ v, Json.parse fromChars text = .ok v) ∧
    ∀ baseline artifact policy report, differential baseline g artifact policy = .ok report →
      (∃ v, Json.parse fromChars (writeJsonDifferentialReport report) = .ok v) ∧
      ∀ projectRoot toolVersion, ∃ text v, writeSarif report projectRoot toolVersion = some text ∧
        Json.parse fromChars text = .ok v := by
  refine ⟨jsonReport_accepted hconvert g _ _ _ _, fun message run => jsonRunDiagnostic_accepted hconvert _ _ _,
    fun artifact text htext => ?_, fun baseline artifact policy report hreport =>
      ⟨jsonDifferentialReport_accepted hconvert report, fun projectRoot toolVersion => ?_⟩⟩
  · rw [(writeGraphArtifact_ok htext).2.2]
    exact document_accepted hconvert g artifact diagnostics
  · obtain ⟨text, htext⟩ := Option.isSome_iff_exists.1
      (writeSarif_isSome projectRoot toolVersion (differential_classified hreport))
    obtain ⟨v, hv⟩ := sarif_accepted hconvert htext
    exact ⟨text, v, htext, hv⟩

end Numbers

end Writers

/-! ## Two units -/

/-- A conversion that reads an integer with its sign. -/
def signedFromChars : Bytes → Option ℚ
  | [] => none
  | c :: rest => if c = ch '-' then (integerFromChars rest).map (-·) else integerFromChars (c :: rest)

theorem signedFromChars_converts : ConvertsIntegers signedFromChars := by
  refine ⟨fun n _ => ?_, fun n _ => rfl⟩
  cases hdigits : decimal n with
  | nil => exact absurd hdigits (decimal_ne_nil n)
  | cons c rest =>
    show (if c = ch '-' then (integerFromChars rest).map (-·) else integerFromChars (c :: rest)).isSome = true
    split <;> rfl

/-- The unit of `f`, and its comparison with the unit of `main`. -/
theorem calleeUnit_written :
    (∃ v, Json.parse signedFromChars (writeJsonReport calleeUnit (analyzeReachability calleeUnit)
      (buildReport calleeUnit (analyzeReachability calleeUnit)) [] {}) = .ok v) ∧
    ∃ report, differential ⟨mainUnit, {}, []⟩ calleeUnit {} (some {}) = .ok report ∧
      (∃ v, Json.parse signedFromChars (writeJsonDifferentialReport report) = .ok v) ∧
      ∃ text v, writeSarif report ⟨lit "/src"⟩ (lit "1") = some text ∧
        Json.parse signedFromChars text = .ok v :=
  have hall := written_accepted signedFromChars_converts calleeUnit {} []
  have hreport := hall.2.2.2 ⟨mainUnit, {}, []⟩ {} (some {}) _ rfl
  ⟨hall.1, _, rfl, hreport.1, hreport.2 _ _⟩

end CxxDead
