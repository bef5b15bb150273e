import CxxDead.ArtifactValue
/-!
# Reading a graph artifact back

- `readGraphArtifact_writeGraphArtifact`: the document of a graph gives its canonical
  form back, with its metadata and diagnostics, and writing that gives the same bytes.
-/

namespace CxxDead

open Lib

namespace Artifact

open Json

/-! ## Layouts as text -/

theorem intercalate_prefix («sep» indent : Bytes) (item : Bytes) (items : List Bytes) :
    «sep».intercalate ((item :: items).map (indent ++ ·)) = indent ++ («sep» ++ indent).intercalate (item :: items) := by
  induction items generalizing item with
  | nil => simp
  | cons other items ih =>
    have hrest := ih other
    rw [List.map_cons] at hrest
    rw [List.map_cons, List.map_cons, List.intercalate_cons_cons, hrest, List.intercalate_cons_cons]
    simp only [List.append_assoc]

theorem inlineObject_text (members : List (String × Bytes)) :
    inlineObject members = objectText [] [ch ' '] [] (members.map member) := rfl

theorem blockObject_text (indent : String) (m : String × Bytes) (members : List (String × Bytes)) :
    blockObject indent (m :: members) = objectText (10 :: (lit indent ++ lit "  ")) (10 :: (lit indent ++ lit "  "))
      (10 :: lit indent) ((m :: members).map member) := by
  have hlines : (m :: members).map (fun m => lit indent ++ lit "  " ++ member m) =
      ((m :: members).map member).map (lit indent ++ lit "  " ++ ·) := by rw [List.map_map]; rfl
  unfold blockObject objectText
  rw [hlines, List.map_cons, intercalate_prefix]
  simp only [List.append_assoc, List.cons_append]
  rfl

theorem blockArray_text (item : Bytes) (items : List Bytes) :
    blockArray (item :: items) = arrayText (10 :: lit "    ") (10 :: lit "    ") (10 :: lit "  ") (item :: items) := by
  unfold blockArray arrayText
  rw [if_neg (by simp), intercalate_prefix]
  simp only [List.append_assoc, List.cons_append]
  rfl

section Printed
variable {fromChars : Bytes → Option ℚ}

/-- The members of an object, from its names, values and texts. -/
theorem exists_members (names : List String) {values : List Value} {texts : List Bytes}
    (h : List.Forall₂ (Printed fromChars) values texts) (hlen : names.length = values.length) :
    ∃ members : List Member, (∀ m ∈ members, Printed fromChars m.value m.text) ∧
      (members.map fun m => (m.key, m.value)) = (names.map lit).zip values ∧
      members.map Member.line = (names.zip texts).map member := by
  induction h generalizing names with
  | nil => exact ⟨[], by simp, by simp, by simp⟩
  | @cons value text values texts hprinted _ ih =>
    cases names with
    | nil => cases hlen
    | cons name names =>
      obtain ⟨members, hmembers, hvalues, hlines⟩ := ih names (by simpa using hlen)
      refine ⟨⟨lit name, value, text⟩ :: members, fun m hm => ?_, ?_, ?_⟩
      · rcases List.mem_cons.1 hm with rfl | hm
        · exact hprinted
        · exact hmembers m hm
      · rw [List.map_cons, hvalues]
        rfl
      · rw [List.map_cons, hlines, List.zip_cons_cons, List.map_cons, Member.line, member, List.append_assoc]

theorem Printed.objectOf {layout : Layout} {values : List Value} {texts : List Bytes}
    (h : List.Forall₂ (Printed fromChars) values texts) (hlen : layout.names.length = values.length)
    (hne : layout.names ≠ []) {«open» gap close : Bytes} (hopen : ∀ c ∈ «open», isSpace c = true)
    (hgap : ∀ c ∈ gap, isSpace c = true) (hclose : ∀ c ∈ close, isSpace c = true) :
    Printed fromChars (objectOf layout values) (objectText «open» gap close ((layout.names.zip texts).map member)) := by
  obtain ⟨members, hmembers, hvalues, hlines⟩ := exists_members layout.names h hlen
  obtain ⟨final, hfinal, hobject, -⟩ := objectOf_eq hlen
  rw [hobject, ← hlines]
  cases members with
  | nil =>
    have hnil : ((layout.names.map lit).zip values).length = 0 := by rw [← hvalues]; rfl
    rw [List.length_zip, List.length_map, ← hlen, Nat.min_self] at hnil
    exact absurd (List.length_eq_zero_iff.1 hnil) hne
  | cons m members =>
    exact Printed.object hopen hgap hclose m members hmembers (by rw [hvalues]; exact hfinal)

theorem printed_inlineObject (layout : Layout) {values : List Value} {texts : List Bytes}
    (h : List.Forall₂ (Printed fromChars) values texts) (hlen : layout.names.length = values.length)
    (hne : layout.names ≠ []) :
    Printed fromChars (objectOf layout values) (inlineObject (layout.names.zip texts)) := by
  rw [inlineObject_text]
  exact Printed.objectOf h hlen hne (by simp) (List.all_eq_true.1 (by decide)) (by simp)

theorem printed_blockObject (layout : Layout) {values : List Value} {texts : List Bytes}
    (h : List.Forall₂ (Printed fromChars) values texts) (hlen : layout.names.length = values.length)
    (hne : layout.names ≠ []) {indent : String} (hindent : ∀ c ∈ lit indent, isSpace c = true) :
    Printed fromChars (objectOf layout values) (blockObject indent (layout.names.zip texts)) := by
  have hline : ∀ c ∈ 10 :: (lit indent ++ lit "  "), isSpace c = true := by
    simp only [List.mem_cons, List.mem_append]
    rintro c (rfl | hc | hc)
    · decide
    · exact hindent c hc
    · exact List.all_eq_true.1 (by decide : (lit "  ").all isSpace = true) c hc
  have hclose : ∀ c ∈ 10 :: lit indent, isSpace c = true := by
    simp only [List.mem_cons]
    rintro c (rfl | hc)
    · decide
    · exact hindent c hc
  have hprinted := Printed.objectOf h hlen hne hline hline hclose
  cases hzip : layout.names.zip texts with
  | nil =>
    have hnil : (layout.names.zip texts).length = 0 := by rw [hzip]; rfl
    rw [List.length_zip, ← h.length_eq, ← hlen, Nat.min_self] at hnil
    exact absurd (List.length_eq_zero_iff.1 hnil) hne
  | cons m members =>
    rw [hzip] at hprinted
    rw [blockObject_text]
    exact hprinted

/-- The items of an array, each with its own text. -/
theorem printed_inlineArray {α : Type} {value : α → Value} {text : α → Bytes} (l : List α)
    (h : ∀ a ∈ l, Printed fromChars (value a) (text a)) :
    Printed fromChars (.array (l.map value)) (inlineArray (l.map text)) := by
  have hprinted := @Printed.array fromChars [] [ch ' '] [] (by simp) (List.all_eq_true.1 (by decide)) (by simp)
    (l.map fun a => (value a, text a)) (by simpa using h)
  rwa [List.map_map, List.map_map] at hprinted

theorem printed_blockArray {α : Type} {value : α → Value} {text : α → Bytes} (l : List α)
    (h : ∀ a ∈ l, Printed fromChars (value a) (text a)) :
    Printed fromChars (.array (l.map value)) (blockArray (l.map text)) := by
  cases l with
  | nil => exact @Printed.array fromChars (lit "  ") [] [] (List.all_eq_true.1 (by decide)) (by simp) (by simp) [] (by simp)
  | cons a l =>
    have hprinted := @Printed.array fromChars (10 :: lit "    ") (10 :: lit "    ") (10 :: lit "  ") (List.all_eq_true.1 (by decide))
      (List.all_eq_true.1 (by decide)) (List.all_eq_true.1 (by decide)) ((a :: l).map fun a => (value a, text a)) (by simpa using h)
    rw [List.map_map, List.map_map] at hprinted
    rw [List.map_cons, List.map_cons, blockArray_text]
    exact hprinted

theorem printed_nullable (s : Bytes) : Printed fromChars (nullableValue s) (writeNullableString s) := by
  unfold nullableValue writeNullableString
  split
  · exact Printed.null
  · exact Printed.string s

/-! ## The parts -/

section Parts
variable (hconvert : ∀ n ≤ largestExactJsonInteger, fromChars (decimal n) = some (n : ℚ))
include hconvert

theorem printed_sourcePoint {point : SourcePoint} (h : point.Exact) :
    Printed fromChars (sourcePointValue point) (writeSourcePoint point) := by
  have hprinted := printed_inlineObject sourcePointLayout (.cons (Printed.string point.file.genericString) <|
    .cons (Printed.number (hconvert _ h.line)) <| .cons (Printed.number (hconvert _ h.column)) <|
    .cons (Printed.number (hconvert _ h.offset)) <| .cons (Printed.number (hconvert _ h.tokenLength)) .nil) rfl (by decide)
  exact hprinted

theorem printed_sourceExtent {extent : SourceExtent} (h : extent.Exact) :
    Printed fromChars (sourceExtentValue extent) (writeSourceExtent extent) := by
  have hrange := printed_inlineObject rangeLayout (.cons (printed_sourcePoint hconvert h.begin) <|
    .cons (printed_sourcePoint hconvert h.end) .nil) rfl (by decide)
  have hprinted := printed_inlineObject sourceExtentLayout (.cons (printed_sourcePoint hconvert h.location) <|
    .cons hrange .nil) rfl (by decide)
  exact hprinted

theorem printed_source {source : SymbolSource} (h : source.Exact) :
    Printed fromChars (sourceValue source) (writeSource source) := by
  cases hexpansion : source.expansion with
  | none =>
    have hprinted := printed_inlineObject sourceLayout (.cons (printed_sourceExtent hconvert h.spelling) <|
      .cons Printed.null .nil) rfl (by decide)
    unfold sourceValue writeSource
    rw [hexpansion]
    exact hprinted
  | some extent =>
    have hprinted := printed_inlineObject sourceLayout (.cons (printed_sourceExtent hconvert h.spelling) <|
      .cons (printed_sourceExtent hconvert (h.expansion extent hexpansion)) .nil) rfl (by decide)
    unfold sourceValue writeSource
    rw [hexpansion]
    exact hprinted

omit hconvert in
theorem printed_evidence (evidence : Evidence) :
    Printed fromChars (evidenceValue evidence) (writeEvidence evidence) := by
  have hprinted := @printed_inlineObject fromChars evidenceLayout _ _
    (.cons (Printed.string evidence.provider) <| .cons (Printed.string evidence.reason) .nil) rfl (by decide)
  exact hprinted

omit hconvert in
theorem printed_identity (identity : SymbolIdentity) :
    Printed fromChars (identityValue identity) (writeIdentity identity) := by
  have hprinted := @printed_inlineObject fromChars identityLayout _ _ (.cons (Printed.string identity.quality.toText) <|
    .cons (Printed.string identity.configurationId) <| .cons (Printed.string identity.usr) <|
    .cons (Printed.string identity.linkageName) <| .cons (Printed.string identity.translationUnit) <|
    .cons (Printed.string identity.fallbackAnchor) .nil) rfl (by decide)
  exact hprinted

theorem printed_symbol {symbol : Symbol} (h : symbol.source.Exact) :
    Printed fromChars (symbolValue symbol) (writeSymbol symbol) := by
  have hprinted := printed_blockObject symbolLayout (.cons (Printed.string symbol.key) <|
    .cons (printed_identity symbol.identity) <| .cons (Printed.string symbol.name) <|
    .cons (Printed.string symbol.qualifiedName) <| .cons (Printed.string symbol.className) <|
    .cons (Printed.string symbol.signature) <| .cons (Printed.string symbol.kind.toText) <|
    .cons (Printed.string symbol.scope.toText) <| .cons (Printed.bool symbol.defined) <|
    .cons (Printed.bool symbol.internalLinkage) <| .cons (Printed.bool symbol.isVirtual) <|
    .cons (printed_source hconvert h) .nil) rfl (by decide)
    (List.all_eq_true.1 (by decide : (lit "    ").all isSpace = true))
  exact hprinted

end Parts

section Facts
variable (g : Graph)

theorem printed_edge (edge : Edge) : Printed fromChars (edgeValue g edge) (writeEdge g edge) := by
  have hprinted := @printed_inlineObject fromChars edgeLayout _ _ (.cons (Printed.string (g.symbol edge.from).key) <|
    .cons (Printed.string (g.symbol edge.to).key) <| .cons (Printed.string edge.kind.toText) <|
    .cons (printed_evidence edge.evidence) .nil) rfl (by decide)
  exact hprinted

theorem printed_root (root : Root) : Printed fromChars (rootValue g root) (writeRoot g root) := by
  have hprinted := @printed_inlineObject fromChars rootLayout _ _ (.cons (Printed.string (g.symbol root.symbol).key) <|
    .cons (Printed.string root.kind.toText) <| .cons (printed_evidence root.evidence) .nil) rfl (by decide)
  exact hprinted

theorem printed_escape (escape : Escape) : Printed fromChars (escapeValue g escape) (writeEscape g escape) := by
  have hkey : Printed fromChars (keyValue g escape.symbol) (quoted (g.symbol escape.symbol).key) := Printed.string _
  have hkind : Printed fromChars (.string escape.kind.toText) (quoted escape.kind.toText) := Printed.string _
  have hrest := List.Forall₂.cons hkind <| .cons (printed_evidence escape.evidence) .nil
  unfold escapeValue writeEscape
  cases escape.from with
  | none =>
    have hprinted := printed_inlineObject escapeLayout (.cons hkey <| .cons Printed.null hrest) rfl (by decide)
    exact hprinted
  | some id =>
    have hprinted := printed_inlineObject escapeLayout (.cons hkey <| .cons (Printed.string (g.symbol id).key) hrest) rfl
      (by decide)
    exact hprinted

theorem printed_suppression (suppression : Suppression) :
    Printed fromChars (suppressionValue g suppression) (writeSuppression g suppression) := by
  have hprinted := @printed_inlineObject fromChars suppressionLayout _ _
    (.cons (Printed.string (g.symbol suppression.symbol).key) <| .cons (printed_evidence suppression.evidence) .nil) rfl
    (by decide)
  exact hprinted

end Facts

theorem printed_context (metadata : GraphArtifactMetadata) :
    Printed fromChars (contextValue metadata) (writeContext metadata) := by
  have hprinted := @printed_inlineObject fromChars contextLayout _ _ (.cons (Printed.string metadata.configuration) <|
    .cons (printed_nullable metadata.targetId) <| .cons (printed_nullable metadata.targetName) <|
    .cons (printed_nullable metadata.targetKind) <|
    .cons (printed_inlineArray metadata.closureTargets fun target _ => Printed.string target) .nil) rfl (by decide)
  exact hprinted

/-- The document without its last line break is the text of its value. -/
theorem printed_document (hconvert : ∀ n ≤ largestExactJsonInteger, fromChars (decimal n) = some (n : ℚ)) {g : Graph}
    {metadata : GraphArtifactMetadata} (hexact : ∀ s ∈ g.symbols, s.source.Exact)
    (hunits : fromChars (decimal metadata.translationUnits.toNat) = some (metadata.translationUnits.toNat : ℚ))
    (diagnostics : List Bytes) : ∃ text, Printed fromChars (documentValue g metadata diagnostics) text ∧
      writeDocument g metadata diagnostics = text ++ lit "\n" := by
  have hmem : ∀ s ∈ symbolsByKey g, s.source.Exact := fun s hs =>
    hexact s ((Graph.canonicalize_symbols_perm g).mem_iff.1 hs)
  have hprinted := @printed_blockObject fromChars documentLayout _ _
    (.cons (Printed.number (hconvert graphArtifactSchemaVersion (by decide))) <|
    .cons (Printed.number (hconvert symbolIdentitySchemaVersion (by decide))) <|
    .cons (Printed.string metadata.configurationId) <| .cons (printed_context metadata) <|
    .cons (Printed.string metadata.frontend.toText) <| .cons (Printed.number hunits) <|
    .cons (printed_blockArray (symbolsByKey g) fun s hs => printed_symbol hconvert (hmem s hs)) <|
    .cons (printed_blockArray (edgesByKey g) fun e _ => printed_edge g e) <|
    .cons (printed_blockArray (rootsByKey g) fun r _ => printed_root g r) <|
    .cons (printed_blockArray (escapesByKey g) fun e _ => printed_escape g e) <|
    .cons (printed_blockArray (suppressionsByKey g) fun s _ => printed_suppression g s) <|
    .cons (printed_blockArray (sortUnique diagnostics) fun d _ => Printed.string d) .nil) rfl (by decide) ""
    (List.all_eq_true.1 (by decide))
  exact ⟨_, hprinted, rfl⟩

end Printed

/-! ## Writing what was read -/

def edgeFactOrder (x : Bytes × Bytes × EdgeKind × Evidence) : Bytes ×ₗ Bytes ×ₗ Nat ×ₗ Bytes ×ₗ Bytes :=
  toLex (x.1, toLex (x.2.1, toLex (x.2.2.1.code, Graph.evidenceOrder x.2.2.2)))

def rootFactOrder (x : Bytes × RootKind × Evidence) : Bytes ×ₗ Nat ×ₗ Bytes ×ₗ Bytes :=
  toLex (x.1, toLex (x.2.1.code, Graph.evidenceOrder x.2.2))

def escapeFactOrder (x : Bytes × Option Bytes × EscapeKind × Evidence) : Bytes ×ₗ Bytes ×ₗ Nat ×ₗ Bytes ×ₗ Bytes :=
  toLex (x.1, toLex (x.2.1.getD [], toLex (x.2.2.1.code, Graph.evidenceOrder x.2.2.2)))

def suppressionFactOrder (x : Bytes × Evidence) : Bytes ×ₗ Bytes ×ₗ Bytes := toLex (x.1, Graph.evidenceOrder x.2)

/-- The text of an edge needs only its fact by key. -/
theorem edges_text (g : Graph) : (edgesByKey g).map (writeEdge g) = (sortOn edgeFactOrder g.edgeFacts).map fun x =>
    inlineObject [("from", quoted x.1), ("to", quoted x.2.1), ("kind", quoted x.2.2.1.toText),
      ("evidence", writeEvidence x.2.2.2)] := by
  rw [Graph.edgeFacts, sortOn_map, List.map_map]
  rfl

theorem roots_text (g : Graph) : (rootsByKey g).map (writeRoot g) = (sortOn rootFactOrder g.rootFacts).map fun x =>
    inlineObject [("symbol", quoted x.1), ("kind", quoted x.2.1.toText), ("evidence", writeEvidence x.2.2)] := by
  rw [Graph.rootFacts, sortOn_map, List.map_map]
  rfl

theorem escapes_text (g : Graph) :
    (escapesByKey g).map (writeEscape g) = (sortOn escapeFactOrder g.escapeFacts).map fun x =>
      inlineObject [("symbol", quoted x.1), ("from", (x.2.1.map quoted).getD (lit "null")),
        ("kind", quoted x.2.2.1.toText), ("evidence", writeEvidence x.2.2.2)] := by
  rw [Graph.escapeFacts, sortOn_map, List.map_map]
  refine List.map_congr_left fun e _ => ?_
  unfold writeEscape Function.comp Graph.escapeFact
  cases e.from <;> rfl

theorem suppressions_text (g : Graph) : (suppressionsByKey g).map (writeSuppression g) =
    (sortOn suppressionFactOrder g.suppressionFacts).map fun x =>
      inlineObject [("symbol", quoted x.1), ("evidence", writeEvidence x.2)] := by
  rw [Graph.suppressionFacts, sortOn_map, List.map_map]
  rfl

theorem edgeFactOrder_injective : Function.Injective edgeFactOrder := by
  rintro ⟨a, b, k, e⟩ ⟨a', b', k', e'⟩ h
  obtain ⟨ha, h⟩ := Prod.mk.inj (toLex_inj.1 h)
  obtain ⟨hb, h⟩ := Prod.mk.inj (toLex_inj.1 h)
  obtain ⟨hk, he⟩ := Prod.mk.inj (toLex_inj.1 h)
  exact Prod.ext ha (Prod.ext hb (Prod.ext (Graph.EdgeKind.code_injective hk) (Graph.evidenceOrder_injective he)))

theorem rootFactOrder_injective : Function.Injective rootFactOrder := by
  rintro ⟨a, k, e⟩ ⟨a', k', e'⟩ h
  obtain ⟨ha, h⟩ := Prod.mk.inj (toLex_inj.1 h)
  obtain ⟨hk, he⟩ := Prod.mk.inj (toLex_inj.1 h)
  exact Prod.ext ha (Prod.ext (Graph.RootKind.code_injective hk) (Graph.evidenceOrder_injective he))

/-- An absent origin sorts as an empty key, which no symbol has. -/
theorem escapeFactOrder_inj {x y : Bytes × Option Bytes × EscapeKind × Evidence} (hx : x.2.1 ≠ some [])
    (hy : y.2.1 ≠ some []) (h : escapeFactOrder x = escapeFactOrder y) : x = y := by
  obtain ⟨a, f, k, e⟩ := x
  obtain ⟨a', f', k', e'⟩ := y
  obtain ⟨ha, h⟩ := Prod.mk.inj (toLex_inj.1 h)
  obtain ⟨hf, h⟩ := Prod.mk.inj (toLex_inj.1 h)
  obtain ⟨hk, he⟩ := Prod.mk.inj (toLex_inj.1 h)
  have hfrom : f = f' := by
    have hf : f.getD [] = f'.getD [] := hf
    cases f with
    | none => cases f' with
      | none => rfl
      | some key => exact absurd (congrArg some hf.symm) hy
    | some key => cases f' with
      | none => exact absurd (congrArg some hf) hx
      | some key' => exact congrArg some hf
  exact Prod.ext ha (Prod.ext hfrom (Prod.ext (Graph.EscapeKind.code_injective hk) (Graph.evidenceOrder_injective he)))

theorem suppressionFactOrder_injective : Function.Injective suppressionFactOrder := by
  rintro ⟨a, e⟩ ⟨a', e'⟩ h
  obtain ⟨ha, he⟩ := Prod.mk.inj (toLex_inj.1 h)
  exact Prod.ext ha (Graph.evidenceOrder_injective he)

theorem origin_ne {g : Graph} (hg : g.Inv) : ∀ x ∈ g.escapeFacts, x.2.1 ≠ some [] := by
  rintro x hx heq
  obtain ⟨e, he, rfl⟩ := List.mem_map.1 hx
  obtain ⟨f, hf, hkey⟩ := Option.map_eq_some_iff.1 heq
  exact hg.keys_ne _ (Graph.symbol_mem ((hg.ids.escapes e he).2 f hf)) hkey

section Congr
variable {g h : Graph} {metadata : GraphArtifactMetadata} {diagnostics : List Bytes}

/-- The document depends on the facts by key only. -/
theorem writeDocument_congr (hg : g.Inv) (hh : h.Inv) (s : Graph.SameFacts g h) :
    writeDocument g metadata diagnostics = writeDocument h metadata diagnostics := by
  have hsymbols : symbolsByKey g = symbolsByKey h := congrArg Graph.symbols (Graph.canonicalize_congr hg hh s)
  have hedges := sortOn_perm_eq edgeFactOrder ((List.perm_ext_iff_of_nodup hg.edgeFacts_nodup hh.edgeFacts_nodup).2 s.edges)
    fun a _ b _ heq => edgeFactOrder_injective heq
  have hroots := sortOn_perm_eq rootFactOrder ((List.perm_ext_iff_of_nodup hg.rootFacts_nodup hh.rootFacts_nodup).2 s.roots)
    fun a _ b _ heq => rootFactOrder_injective heq
  have hescapes := sortOn_perm_eq escapeFactOrder
    ((List.perm_ext_iff_of_nodup hg.escapeFacts_nodup hh.escapeFacts_nodup).2 s.escapes)
    fun a ha b hb heq => escapeFactOrder_inj (origin_ne hg a ha) (origin_ne hg b hb) heq
  have hsuppressions := sortOn_perm_eq suppressionFactOrder
    ((List.perm_ext_iff_of_nodup hg.suppressionFacts_nodup hh.suppressionFacts_nodup).2 s.suppressions)
    fun a _ b _ heq => suppressionFactOrder_injective heq
  unfold writeDocument
  rw [hsymbols, edges_text, edges_text, hedges, roots_text, roots_text, hroots, escapes_text, escapes_text, hescapes,
    suppressions_text, suppressions_text, hsuppressions]

theorem writeSourceExtent_generic (extent : SourceExtent) :
    writeSourceExtent extent.generic = writeSourceExtent extent := by
  simp only [writeSourceExtent, writeSourcePoint, SourceExtent.generic, SourcePoint.generic, Path.genericString_generic]

theorem writeSymbol_generic (symbol : Symbol) : writeSymbol symbol.generic = writeSymbol symbol := by
  have hsource : writeSource symbol.source.generic = writeSource symbol.source := by
    unfold writeSource
    rw [show symbol.source.generic.spelling = symbol.source.spelling.generic from rfl, writeSourceExtent_generic,
      show symbol.source.generic.expansion = symbol.source.expansion.map SourceExtent.generic from rfl]
    cases symbol.source.expansion with
    | none => rfl
    | some extent => simp only [Option.map_some, writeSourceExtent_generic]
  unfold writeSymbol
  rw [show symbol.generic.source = symbol.source.generic from rfl, hsource]
  rfl

/-- The document spells paths generically already. -/
theorem writeDocument_generic (g : Graph) :
    writeDocument g.generic metadata diagnostics = writeDocument g metadata diagnostics := by
  have hsymbols : symbolsByKey g.generic = (symbolsByKey g).map Symbol.generic :=
    congrArg Graph.symbols (Graph.canonicalize_generic g)
  unfold writeDocument
  rw [hsymbols, List.map_map, show writeSymbol ∘ Symbol.generic = writeSymbol from funext writeSymbol_generic,
    edges_text, edges_text, Graph.edgeFacts_generic, roots_text, roots_text, Graph.rootFacts_generic, escapes_text,
    escapes_text, Graph.escapeFacts_generic, suppressions_text, suppressions_text, Graph.suppressionFacts_generic]

theorem writeDocument_sortUnique (g : Graph) :
    writeDocument g metadata (sortUnique diagnostics) = writeDocument g metadata diagnostics := by
  unfold writeDocument
  rw [sortUnique_congr fun _ => mem_sortUnique]

theorem writeGraphArtifact_ok {document : Bytes} (hwrite : writeGraphArtifact g metadata diagnostics = .ok document) :
    metadata.configurationId ≠ [] ∧ (∀ s ∈ g.symbols, s.identity.configurationId = metadata.configurationId) ∧
      document = writeDocument g metadata diagnostics := by
  unfold writeGraphArtifact at hwrite
  split at hwrite
  · cases hwrite
  · rename_i hne
    split at hwrite
    · cases hwrite
    · rename_i hnone
      refine ⟨hne, fun s hs => ?_, (Except.ok.inj hwrite).symm⟩
      simpa using List.find?_eq_none.1 hnone s hs

end Congr

theorem readGraphArtifact_writeDocument {fromChars : Bytes → Option ℚ} {g : Graph} (hg : g.Inv)
    {metadata : GraphArtifactMetadata} (hconvert : ∀ n ≤ largestExactJsonInteger, fromChars (decimal n) = some (n : ℚ))
    (hconfiguration : metadata.configurationId ≠ []) (hidentified : ∀ s ∈ g.symbols, Identified metadata.configurationId s)
    (hexact : ∀ s ∈ g.symbols, s.source.Exact) (htargets : ValidTargets metadata)
    (hunits : metadata.translationUnits.toNat ≤ largestExactJsonInteger) (diagnostics : List Bytes) :
    readGraphArtifact fromChars (writeDocument g metadata diagnostics) =
      .ok { graph := g.canonicalize.generic, metadata, diagnostics := sortUnique diagnostics } := by
  obtain ⟨text, hprinted, htext⟩ := printed_document hconvert hexact (hconvert _ hunits) diagnostics
  have hparse : Json.parse fromChars (writeDocument g metadata diagnostics) =
      .ok (documentValue g metadata diagnostics) := by
    rw [htext]
    exact hprinted.parse (List.all_eq_true.1 (by decide))
  unfold readGraphArtifact
  rw [hparse]
  exact readDocument_documentValue hg hconfiguration hidentified hexact htargets hunits

/-- The document of a graph gives the canonical graph back, its paths in generic spelling, and the same metadata and
diagnostics. Writing that gives the same bytes. -/
theorem readGraphArtifact_writeGraphArtifact {fromChars : Bytes → Option ℚ} {g : Graph} (hg : Built g)
    {metadata : GraphArtifactMetadata} {diagnostics : List Bytes} {document : Bytes}
    (hconvert : ∀ n ≤ largestExactJsonInteger, fromChars (decimal n) = some (n : ℚ))
    (hidentified : ∀ s ∈ g.symbols, Identified metadata.configurationId s)
    (hexact : ∀ s ∈ g.symbols, s.source.Exact) (htargets : ValidTargets metadata)
    (hunits : metadata.translationUnits.toNat ≤ largestExactJsonInteger)
    (hwrite : writeGraphArtifact g metadata diagnostics = .ok document) :
    readGraphArtifact fromChars document =
        .ok { graph := g.canonicalize.generic, metadata, diagnostics := sortUnique diagnostics } ∧
      writeGraphArtifact g.canonicalize.generic metadata (sortUnique diagnostics) = .ok document := by
  obtain ⟨hconfiguration, hsame, rfl⟩ := writeGraphArtifact_ok hwrite
  have hinv := hg.inv
  constructor
  · exact readGraphArtifact_writeDocument hinv hconvert hconfiguration hidentified hexact htargets hunits diagnostics
  · have hnone : g.canonicalize.generic.symbols.find?
        (fun symbol => symbol.identity.configurationId != metadata.configurationId) = none := by
      refine List.find?_eq_none.2 fun s hs => ?_
      obtain ⟨t, ht, rfl⟩ := List.mem_map.1 hs
      have hidentity : t.generic.identity.configurationId = metadata.configurationId :=
        hsame t ((Graph.canonicalize_symbols_perm g).mem_iff.1 ht)
      simpa using hidentity
    unfold writeGraphArtifact
    rw [if_neg hconfiguration, hnone]
    simp only
    rw [writeDocument_sortUnique, writeDocument_generic,
      writeDocument_congr (Graph.canonicalize_inv hinv) hinv (Graph.canonicalize_sameFacts hinv)]

/-! ## A symbol, a graph and their metadata -/

/-- A conversion that reads digits. -/
def integerFromChars (text : Bytes) : Option ℚ :=
  some ((text.foldl (fun n c => 10 * n + (c.toNat - 48)) 0 : Nat) : ℚ)

theorem integerFromChars_decimal (n : Nat) : integerFromChars (decimal n) = some (n : ℚ) := by
  unfold integerFromChars
  rw [decimal_value]

def entryIdentity : SymbolIdentity := { usr := lit "c:@F@main#", quality := .stable }

def entrySymbol : Symbol :=
  { key := stableSymbolKey entryIdentity, identity := entryIdentity, name := lit "main", scope := .reportable,
    defined := true }

def handlerIdentity : SymbolIdentity := { usr := lit "c:@F@handler#", quality := .stable }

def handlerPoint (line : UInt64) : SourcePoint := { file := ⟨lit "/p/a.cpp"⟩, line, column := 5, offset := 70, tokenLength := 7 }

def handlerExtent (line : UInt64) : SourceExtent := ⟨handlerPoint line, handlerPoint line, handlerPoint line⟩

/-- A function that a macro defines. -/
def handlerSymbol : Symbol :=
  { key := stableSymbolKey handlerIdentity, identity := handlerIdentity, name := lit "handler", scope := .indexed,
    defined := true, source := { spelling := handlerExtent 2, expansion := some (handlerExtent 9) } }

def entryEvidence : Evidence := ⟨lit "ast_json", lit "seen"⟩

def entrySymbols : Graph := endState (Graph.addOrMergeSymbol handlerSymbol) (endState (Graph.addOrMergeSymbol entrySymbol) {})

/-- The entry point calls a suppressed handler and takes its address. -/
def entryGraph : Graph :=
  endState (Graph.addSuppression 1 entryEvidence) (endState (Graph.addEscape 1 .addressTaken entryEvidence (some 0))
    (endState (Graph.addRoot 0 .applicationEntryPoint entryEvidence)
      (endState (Graph.addEdge 0 1 .directCall entryEvidence) entrySymbols)))

def entryMetadata : GraphArtifactMetadata :=
  { configuration := lit "Release", targetId := lit "app::@1", targetName := lit "app", targetKind := lit "executable",
    closureTargets := [lit "app::@1", lit "util::@1"], translationUnits := 2 }

theorem entryGraph_symbols : entryGraph.symbols = [entrySymbol, handlerSymbol] := by decide

theorem entryGraph_built : Built entryGraph :=
  .addSuppression _ _ (.addEscape _ _ _ _ (.addRoot _ _ _ (.addEdge _ _ _ _
    (.addOrMergeSymbol handlerSymbol (.addOrMergeSymbol entrySymbol .empty)))))

theorem entryGraph_identified : ∀ s ∈ entryGraph.symbols, Identified (lit "default") s := by
  rw [entryGraph_symbols]
  exact List.forall_mem_cons.2 ⟨⟨⟨lit "c:@F@main#", [], [], [], rfl⟩, rfl⟩,
    List.forall_mem_singleton.2 ⟨⟨lit "c:@F@handler#", [], [], [], rfl⟩, rfl⟩⟩

theorem handlerExtent_exact {line : UInt64} (h : line.toNat ≤ largestExactJsonInteger) : (handlerExtent line).Exact :=
  have hpoint : (handlerPoint line).Exact := ⟨h, show (5 : UInt64).toNat ≤ largestExactJsonInteger by decide,
    show (70 : UInt64).toNat ≤ largestExactJsonInteger by decide,
    show (7 : UInt64).toNat ≤ largestExactJsonInteger by decide⟩
  ⟨hpoint, hpoint, hpoint⟩

theorem entryGraph_exact : ∀ s ∈ entryGraph.symbols, s.source.Exact := by
  have hnowhere : SourcePoint.Exact {} := ⟨by decide, by decide, by decide, by decide⟩
  rw [entryGraph_symbols]
  refine List.forall_mem_cons.2 ⟨⟨⟨hnowhere, hnowhere, hnowhere⟩, fun _ h => nomatch h⟩, List.forall_mem_singleton.2 ?_⟩
  refine ⟨handlerExtent_exact (by decide), fun extent h => ?_⟩
  obtain rfl := Option.some.inj h
  exact handlerExtent_exact (by decide)

theorem entryMetadata_targets : ValidTargets entryMetadata := ⟨.inr ⟨by decide, by decide, by decide⟩, by decide⟩

/-- The document of a graph with a fact of each kind. -/
theorem entryGraph_roundTrip :
    readGraphArtifact integerFromChars (writeDocument entryGraph entryMetadata [lit "note"]) =
        .ok { graph := entryGraph.canonicalize.generic, metadata := entryMetadata,
              diagnostics := sortUnique [lit "note"] } ∧
      writeGraphArtifact entryGraph.canonicalize.generic entryMetadata (sortUnique [lit "note"]) =
        .ok (writeDocument entryGraph entryMetadata [lit "note"]) := by
  have hwrite : writeGraphArtifact entryGraph entryMetadata [lit "note"] =
      .ok (writeDocument entryGraph entryMetadata [lit "note"]) := by
    have hnone : entryGraph.symbols.find?
        (fun symbol => symbol.identity.configurationId != entryMetadata.configurationId) = none := by
      rw [entryGraph_symbols]
      rfl
    unfold writeGraphArtifact
    rw [if_neg (by decide), hnone]
  exact readGraphArtifact_writeGraphArtifact entryGraph_built (fun n _ => integerFromChars_decimal n)
    entryGraph_identified entryGraph_exact entryMetadata_targets (by decide) hwrite

/-! ## Too many translation units -/

section Units
variable {g : Graph} {metadata : GraphArtifactMetadata} {diagnostics : List Bytes}

/-- The reader refuses a count that a JSON number may not hold exactly. -/
theorem readDocument_units (hconfiguration : metadata.configurationId ≠ [])
    (hunits : largestExactJsonInteger < metadata.translationUnits.toNat) :
    readDocument (documentValue g metadata diagnostics) = invalidArtifact (lit "document")
      (aboutKey "" (lit "translation_units") "' must be a non-negative integer") := by
  have hfrontend : metadata.frontend.toText ≠ [] := by cases metadata.frontend <;> decide
  have hvalue : requireValue (documentValue g metadata diagnostics) "translation_units" (lit "document") =
      .ok (.number metadata.translationUnits.toNat) := requireValue_objectOf rfl rfl _
  have hlarge : (metadata.translationUnits.toNat : ℚ) > largestExactJsonInteger := Nat.cast_lt.2 hunits
  have hsize : requireSize (documentValue g metadata diagnostics) "translation_units" (lit "document") =
      invalidArtifact (lit "document") (aboutKey "" (lit "translation_units") "' must be a non-negative integer") := by
    refine except_bind_eq hvalue ?_
    show (if _ then _ else _) = _
    rw [if_pos (.inr (.inr hlarge))]
  have hmetadata : parseMetadata (documentValue g metadata diagnostics) =
      invalidArtifact (lit "document") (aboutKey "" (lit "translation_units") "' must be a non-negative integer") := by
    unfold parseMetadata
    refine except_bind_eq (requireString_nonempty (requireValue_objectOf rfl rfl _) hconfiguration) ?_
    refine except_bind_eq (requireString_nonempty (requireValue_objectOf rfl rfl _) hfrontend) ?_
    refine except_bind_eq (parseEnum_eq (a := metadata.frontend) (by cases metadata.frontend <;> rfl) _) ?_
    exact except_bind_error hsize
  unfold readDocument
  refine except_bind_eq (requireKeys_objectOf rfl _) ?_
  refine except_bind_eq (checkVersion_eq (by decide) (requireValue_objectOf rfl rfl _)) ?_
  refine except_bind_eq (checkVersion_eq (by decide) (requireValue_objectOf rfl rfl _)) ?_
  exact except_bind_error hmetadata

/-- An empty graph, its target absent, whose document does not come back. -/
theorem emptyGraph_refused : Built {} ∧ ValidTargets { translationUnits := 9007199254740992 } ∧
    writeGraphArtifact {} { translationUnits := 9007199254740992 } [] =
        .ok (writeDocument {} { translationUnits := 9007199254740992 } []) ∧
      ∃ e, readGraphArtifact integerFromChars (writeDocument {} { translationUnits := 9007199254740992 } []) = .error e := by
  refine ⟨.empty, ⟨.inl ⟨rfl, rfl, rfl⟩, by simp⟩, rfl, ?_⟩
  obtain ⟨text, hprinted, htext⟩ := @printed_document integerFromChars (fun n _ => integerFromChars_decimal n) {}
    { translationUnits := 9007199254740992 } (by simp) (integerFromChars_decimal _) []
  rw [htext]
  unfold readGraphArtifact
  rw [hprinted.parse (List.all_eq_true.1 (by decide))]
  exact ⟨_, readDocument_units (by decide) (by decide)⟩

end Units

end Artifact

end CxxDead
