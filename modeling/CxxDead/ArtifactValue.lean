import CxxDead.Artifact
import CxxDead.CacheRoundTrip
import CxxDead.Lib.Tables
/-!
# The document as a JSON value

- `documentValue`: the value whose text the writer writes.
- `readDocument_documentValue`: what the reader makes of it.
-/

namespace CxxDead

open Lib

namespace Artifact

open Json

/-! ## Objects -/

/-- The names of an object's members. -/
structure Layout where
  names : List String
  distinct : (names.map lit).Nodup

/-- The members with these values, name by name. -/
def Layout.members (layout : Layout) (values : List Value) : List (Bytes × Value) :=
  (layout.names.map lit).zip values

def objectOf (layout : Layout) (values : List Value) : Value :=
  .object ((emplaceMembers [] (layout.members values)).getD [])

section Objects
variable {layout : Layout} {values : List Value} (hlen : layout.names.length = values.length)
include hlen

theorem Layout.members_keys : (layout.members values).map (·.1) = layout.names.map lit :=
  List.map_fst_zip (by rw [List.length_map, hlen])

theorem objectOf_eq : ∃ members, emplaceMembers [] (layout.members values) = some members ∧
    objectOf layout values = .object members ∧ members.Perm (layout.members values) := by
  obtain ⟨members, hmembers, hperm⟩ := emplaceMembers_nodup (layout.members values) []
    (by rw [List.nil_append, Layout.members_keys hlen]; exact layout.distinct)
  exact ⟨members, hmembers, by rw [objectOf, hmembers]; rfl, hperm⟩

theorem requireKeys_objectOf (context : Bytes) : requireKeys (objectOf layout values) layout.names context = .ok () := by
  obtain ⟨members, -, hobject, hperm⟩ := objectOf_eq hlen
  have hkeys : (members.map (·.1)).Perm (layout.names.map lit) := by
    rw [← Layout.members_keys hlen]
    exact hperm.map _
  have hrequired : (layout.names.map lit).find? (fun key => (members.lookup key).isNone) = none := by
    refine List.find?_eq_none.2 fun key hkey => ?_
    rw [Option.isNone_iff_eq_none, ← Option.not_isSome_iff_eq_none, not_not]
    exact lookup_isSome_iff.2 (hkeys.mem_iff.2 hkey)
  have hknown : members.find? (fun m => !(layout.names.map lit).contains m.1) = none := by
    refine List.find?_eq_none.2 fun m hm => ?_
    simpa using hkeys.mem_iff.1 (List.mem_map_of_mem (f := fun x : Bytes × Value => x.1) hm)
  rw [hobject]
  refine @except_bind_eq _ _ _ _ _ members _ rfl ?_
  rw [hrequired, hknown]
  rfl

theorem requireValue_objectOf {name : String} {v : Value} (h : (layout.members values).lookup (lit name) = some v)
    (context : Bytes) : requireValue (objectOf layout values) name context = .ok v := by
  obtain ⟨members, -, hobject, hperm⟩ := objectOf_eq hlen
  have hnodup : ((layout.members values).map (·.1)).Nodup := by
    rw [Layout.members_keys hlen]
    exact layout.distinct
  rw [hobject]
  refine @except_bind_eq _ _ _ _ _ members _ rfl ?_
  rw [lookup_perm hnodup hperm.symm, h]
  rfl

end Objects

/-! ## Fields -/

section Fields
variable {value : Value} {key : String} {context : Bytes}

theorem requireString_eq {s : Bytes} (h : requireValue value key context = .ok (.string s)) :
    requireString value key context = .ok s :=
  except_bind_eq h rfl

theorem requireString_nonempty {s : Bytes} (h : requireValue value key context = .ok (.string s)) (hs : s ≠ []) :
    requireString value key context false = .ok s := by
  refine except_bind_eq h ?_
  show (if s.isEmpty then _ else _) = _
  rw [if_neg (by simpa using hs)]
  rfl

theorem requireBool_eq {b : Bool} (h : requireValue value key context = .ok (.bool b)) :
    requireBool value key context = .ok b :=
  except_bind_eq h rfl

theorem requireArray_eq {items : List Value} (h : requireValue value key context = .ok (.array items)) :
    requireArray value key context = .ok items :=
  except_bind_eq h rfl

theorem requireSize_eq {n : UInt64} (h : requireValue value key context = .ok (.number n.toNat))
    (hn : n.toNat ≤ largestExactJsonInteger) : requireSize value key context = .ok n := by
  have hfloor : (n.toNat : ℚ).floor = n.toNat := by simp [Rat.floor]
  refine except_bind_eq h ?_
  show (if _ then _ else _) = _
  rw [if_neg]
  · rw [hfloor]
    show Except.ok n.toNat.toUInt64 = _
    simp
  · rw [hfloor]
    simp only [Int.cast_natCast, ne_eq, not_true_eq_false, false_or, not_or, not_lt, gt_iff_lt]
    exact ⟨Nat.cast_nonneg _, Nat.cast_le.2 hn⟩

/-- A string, or null for the empty one. -/
def nullableValue (s : Bytes) : Value := if s = [] then .null else .string s

theorem nullableString_eq {s : Bytes} (h : requireValue value key context = .ok (nullableValue s)) :
    nullableString value key context = .ok s := by
  unfold nullableValue at h
  by_cases hs : s = []
  · rw [if_pos hs] at h
    rw [hs]
    exact except_bind_eq h rfl
  · rw [if_neg hs] at h
    refine except_bind_eq h ?_
    show (if s.isEmpty then _ else _) = _
    rw [if_neg (by simpa using hs)]
    rfl

/-- The text of an enumeration's value is read as that value. -/
theorem parseEnum_eq {α : Type} {map : List (String × α)} {text : Bytes} {a : α}
    (h : (map.find? fun item => lit item.1 == text).map (·.2) = some a) (context : Bytes) :
    parseEnum text map context = .ok a := by
  obtain ⟨item, hitem, rfl⟩ := Option.map_eq_some_iff.1 h
  unfold parseEnum
  rw [hitem]

end Fields

/-! ## The values of the parts -/

def sourcePointLayout : Layout := ⟨["file", "line", "column", "offset", "token_length"], by decide⟩

def sourcePointValue (point : SourcePoint) : Value := objectOf sourcePointLayout [.string point.file.genericString,
  .number point.line.toNat, .number point.column.toNat, .number point.offset.toNat, .number point.tokenLength.toNat]

def sourceExtentLayout : Layout := ⟨["location", "range"], by decide⟩

def rangeLayout : Layout := ⟨["begin", "end"], by decide⟩

def sourceExtentValue (extent : SourceExtent) : Value := objectOf sourceExtentLayout [sourcePointValue extent.location,
  objectOf rangeLayout [sourcePointValue extent.begin, sourcePointValue extent.end]]

def sourceLayout : Layout := ⟨["spelling", "expansion"], by decide⟩

def expansionValue (expansion : Option SourceExtent) : Value := (expansion.map sourceExtentValue).getD .null

def sourceValue (source : SymbolSource) : Value :=
  objectOf sourceLayout [sourceExtentValue source.spelling, expansionValue source.expansion]

def evidenceLayout : Layout := ⟨["provider", "reason"], by decide⟩

def evidenceValue (evidence : Evidence) : Value :=
  objectOf evidenceLayout [.string evidence.provider, .string evidence.reason]

def identityLayout : Layout :=
  ⟨["quality", "configuration_id", "usr", "linkage_name", "translation_unit", "fallback_anchor"], by decide⟩

def identityValue (identity : SymbolIdentity) : Value := objectOf identityLayout [.string identity.quality.toText,
  .string identity.configurationId, .string identity.usr, .string identity.linkageName,
  .string identity.translationUnit, .string identity.fallbackAnchor]

def symbolLayout : Layout := ⟨["id", "identity", "name", "qualified_name", "class_name", "signature", "kind", "scope",
  "defined", "internal_linkage", "virtual", "source"], by decide⟩

def symbolValue (symbol : Symbol) : Value := objectOf symbolLayout [.string symbol.key, identityValue symbol.identity,
  .string symbol.name, .string symbol.qualifiedName, .string symbol.className, .string symbol.signature,
  .string symbol.kind.toText, .string symbol.scope.toText, .bool symbol.defined, .bool symbol.internalLinkage,
  .bool symbol.isVirtual, sourceValue symbol.source]

section Facts
variable (g : Graph)

def keyValue (id : SymbolId) : Value := .string (g.symbol id).key

def edgeLayout : Layout := ⟨["from", "to", "kind", "evidence"], by decide⟩

def edgeValue (edge : Edge) : Value := objectOf edgeLayout
  [keyValue g edge.from, keyValue g edge.to, .string edge.kind.toText, evidenceValue edge.evidence]

def rootLayout : Layout := ⟨["symbol", "kind", "evidence"], by decide⟩

def rootValue (root : Root) : Value :=
  objectOf rootLayout [keyValue g root.symbol, .string root.kind.toText, evidenceValue root.evidence]

def escapeLayout : Layout := ⟨["symbol", "from", "kind", "evidence"], by decide⟩

def originValue («from» : Option SymbolId) : Value := («from».map (keyValue g)).getD .null

def escapeValue (escape : Escape) : Value := objectOf escapeLayout
  [keyValue g escape.symbol, originValue g escape.from, .string escape.kind.toText, evidenceValue escape.evidence]

def suppressionLayout : Layout := ⟨["symbol", "evidence"], by decide⟩

def suppressionValue (suppression : Suppression) : Value :=
  objectOf suppressionLayout [keyValue g suppression.symbol, evidenceValue suppression.evidence]

end Facts

def contextLayout : Layout :=
  ⟨["configuration", "target_id", "target_name", "target_kind", "closure_targets"], by decide⟩

def contextValue (metadata : GraphArtifactMetadata) : Value := objectOf contextLayout [.string metadata.configuration,
  nullableValue metadata.targetId, nullableValue metadata.targetName, nullableValue metadata.targetKind,
  .array (metadata.closureTargets.map .string)]

def documentLayout : Layout := ⟨["artifact_schema_version", "identity_schema_version", "configuration_id",
  "analysis_context", "frontend", "translation_units", "symbols", "edges", "roots", "escapes", "suppressions",
  "diagnostics"], by decide⟩

def documentValue (g : Graph) (metadata : GraphArtifactMetadata) (diagnostics : List Bytes) : Value :=
  objectOf documentLayout [.number graphArtifactSchemaVersion, .number symbolIdentitySchemaVersion,
    .string metadata.configurationId, contextValue metadata, .string metadata.frontend.toText,
    .number metadata.translationUnits.toNat, .array ((symbolsByKey g).map symbolValue),
    .array ((edgesByKey g).map (edgeValue g)), .array ((rootsByKey g).map (rootValue g)),
    .array ((escapesByKey g).map (escapeValue g)), .array ((suppressionsByKey g).map (suppressionValue g)),
    .array ((sortUnique diagnostics).map .string)]

end Artifact

/-! ## What the reader accepts -/

/-- The numbers are integers that a JSON number holds exactly. -/
structure SourcePoint.Exact (point : SourcePoint) : Prop where
  line : point.line.toNat ≤ Artifact.largestExactJsonInteger
  column : point.column.toNat ≤ Artifact.largestExactJsonInteger
  offset : point.offset.toNat ≤ Artifact.largestExactJsonInteger
  tokenLength : point.tokenLength.toNat ≤ Artifact.largestExactJsonInteger

structure SourceExtent.Exact (extent : SourceExtent) : Prop where
  location : extent.location.Exact
  begin : extent.begin.Exact
  «end» : extent.end.Exact

structure SymbolSource.Exact (source : SymbolSource) : Prop where
  spelling : source.spelling.Exact
  expansion : ∀ extent ∈ source.expansion, extent.Exact

namespace Artifact

open Json

theorem parseSourcePoint_value {point : SourcePoint} (h : point.Exact) (context : Bytes) :
    parseSourcePoint (sourcePointValue point) context = .ok point.generic := by
  unfold parseSourcePoint
  refine except_bind_eq (requireKeys_objectOf rfl context) ?_
  refine except_bind_eq (requireString_eq (requireValue_objectOf rfl rfl context)) ?_
  refine except_bind_eq (requireSize_eq (requireValue_objectOf rfl rfl context) h.line) ?_
  refine except_bind_eq (requireSize_eq (requireValue_objectOf rfl rfl context) h.column) ?_
  refine except_bind_eq (requireSize_eq (requireValue_objectOf rfl rfl context) h.offset) ?_
  exact except_bind_eq (requireSize_eq (requireValue_objectOf rfl rfl context) h.tokenLength) rfl

theorem parseSourceExtent_value {extent : SourceExtent} (h : extent.Exact) (context : Bytes) :
    parseSourceExtent (sourceExtentValue extent) context = .ok extent.generic := by
  unfold parseSourceExtent
  refine except_bind_eq (requireKeys_objectOf rfl context) ?_
  refine except_bind_eq (requireValue_objectOf rfl rfl context) ?_
  refine except_bind_eq (requireKeys_objectOf rfl _) ?_
  refine except_bind_eq (requireValue_objectOf rfl rfl context) ?_
  refine except_bind_eq (parseSourcePoint_value h.location _) ?_
  refine except_bind_eq (requireValue_objectOf rfl rfl context) ?_
  refine except_bind_eq (parseSourcePoint_value h.begin _) ?_
  refine except_bind_eq (requireValue_objectOf rfl rfl context) ?_
  exact except_bind_eq (parseSourcePoint_value h.end _) rfl

theorem parseExpansion_value {expansion : Option SourceExtent} (h : ∀ extent ∈ expansion, extent.Exact)
    (context : Bytes) : parseExpansion (expansionValue expansion) context = .ok (expansion.map SourceExtent.generic) := by
  cases expansion with
  | none => rfl
  | some extent =>
    show some <$> parseSourceExtent (sourceExtentValue extent) context = _
    rw [parseSourceExtent_value (h extent rfl)]
    rfl

theorem parseSource_value {source : SymbolSource} (h : source.Exact) (context : Bytes) :
    parseSource (sourceValue source) context = .ok source.generic := by
  unfold parseSource
  refine except_bind_eq (requireKeys_objectOf rfl context) ?_
  refine except_bind_eq (requireValue_objectOf rfl rfl context) ?_
  refine except_bind_eq (parseSourceExtent_value h.spelling _) ?_
  refine except_bind_eq (requireValue_objectOf rfl rfl context) ?_
  exact except_bind_eq (parseExpansion_value h.expansion _) rfl

theorem parseEvidence_value (evidence : Evidence) (context : Bytes) :
    parseEvidence (evidenceValue evidence) context = .ok evidence := by
  unfold parseEvidence
  refine except_bind_eq (requireKeys_objectOf rfl context) ?_
  refine except_bind_eq (requireString_eq (requireValue_objectOf rfl rfl context)) ?_
  exact except_bind_eq (requireString_eq (requireValue_objectOf rfl rfl context)) rfl

/-- The identity is one that `makeSymbolIdentity` builds with this configuration, and the key is its own. -/
structure Identified (configurationId : Bytes) (symbol : Symbol) : Prop where
  identity : ∃ usr linkageName translationUnit fallbackAnchor,
    makeSymbolIdentity configurationId usr linkageName translationUnit fallbackAnchor = .ok symbol.identity
  key : symbol.key = stableSymbolKey symbol.identity

theorem makeSymbolIdentity_ok {configurationId usr linkageName translationUnit fallbackAnchor : Bytes}
    {identity : SymbolIdentity}
    (h : makeSymbolIdentity configurationId usr linkageName translationUnit fallbackAnchor = .ok identity) :
    configurationId ≠ [] ∧ identity.configurationId = configurationId ∧
      makeSymbolIdentity identity.configurationId identity.usr identity.linkageName identity.translationUnit
        identity.fallbackAnchor = .ok identity := by
  have hsame := h
  unfold makeSymbolIdentity at h
  by_cases hne : configurationId = []
  · rw [if_pos hne] at h
    cases h
  · rw [if_neg hne] at h
    dsimp only at h
    split_ifs at h <;> cases h <;> exact ⟨hne, rfl, hsame⟩

theorem parseIdentity_value {identity : SymbolIdentity} (h : identity.configurationId ≠ []) (context : Bytes) :
    parseIdentity (identityValue identity) context = .ok identity := by
  have hquality : identity.quality.toText ≠ [] := by cases identity.quality <;> decide
  unfold parseIdentity
  refine except_bind_eq (requireKeys_objectOf rfl context) ?_
  refine except_bind_eq (requireString_nonempty (requireValue_objectOf rfl rfl context) h) ?_
  refine except_bind_eq (requireString_eq (requireValue_objectOf rfl rfl context)) ?_
  refine except_bind_eq (requireString_eq (requireValue_objectOf rfl rfl context)) ?_
  refine except_bind_eq (requireString_eq (requireValue_objectOf rfl rfl context)) ?_
  refine except_bind_eq (requireString_eq (requireValue_objectOf rfl rfl context)) ?_
  refine except_bind_eq (requireString_nonempty (requireValue_objectOf rfl rfl context) hquality) ?_
  refine except_bind_eq (parseEnum_eq (a := identity.quality) ?_ _) rfl
  cases identity.quality <;> rfl

theorem checkIdentity_eq {configurationId : Bytes} {symbol : Symbol} (h : Identified configurationId symbol)
    (context : Bytes) : checkIdentity symbol context = .ok symbol := by
  obtain ⟨usr, linkageName, translationUnit, fallbackAnchor, hmake⟩ := h.identity
  obtain ⟨-, -, hvalid⟩ := makeSymbolIdentity_ok hmake
  unfold checkIdentity
  simp only [hvalid, h.key, ne_eq, not_true_eq_false, if_false]

theorem parseSymbol_value {configurationId : Bytes} {symbol : Symbol} (h : Identified configurationId symbol)
    (hkey : symbol.key ≠ []) (hscope : symbol.scope ≠ .excluded) (hsource : symbol.source.Exact) (context : Bytes) :
    parseSymbol (symbolValue symbol) context = .ok symbol.generic := by
  obtain ⟨usr, linkageName, translationUnit, fallbackAnchor, hmake⟩ := h.identity
  obtain ⟨hne, hconfiguration, -⟩ := makeSymbolIdentity_ok hmake
  have hkind : symbol.kind.toText ≠ [] := by cases symbol.kind <;> decide
  have hscopeText : symbol.scope.toText ≠ [] := by cases symbol.scope <;> decide
  unfold parseSymbol
  refine except_bind_eq (requireKeys_objectOf rfl context) ?_
  refine except_bind_eq (requireValue_objectOf rfl rfl context) ?_
  refine except_bind_eq (parseIdentity_value (hconfiguration ▸ hne) _) ?_
  refine except_bind_eq (requireString_nonempty (requireValue_objectOf rfl rfl context) hkey) ?_
  refine except_bind_eq (requireString_eq (requireValue_objectOf rfl rfl context)) ?_
  refine except_bind_eq (requireString_eq (requireValue_objectOf rfl rfl context)) ?_
  refine except_bind_eq (requireString_eq (requireValue_objectOf rfl rfl context)) ?_
  refine except_bind_eq (requireString_eq (requireValue_objectOf rfl rfl context)) ?_
  refine except_bind_eq (requireValue_objectOf rfl rfl context) ?_
  refine except_bind_eq (parseSource_value hsource _) ?_
  refine except_bind_eq (requireString_nonempty (requireValue_objectOf rfl rfl context) hkind) ?_
  refine except_bind_eq (parseEnum_eq (a := symbol.kind) (by cases symbol.kind <;> rfl) _) ?_
  refine except_bind_eq (requireString_nonempty (requireValue_objectOf rfl rfl context) hscopeText) ?_
  refine except_bind_eq (parseEnum_eq (a := symbol.scope) ?_ _) ?_
  · cases hs : symbol.scope with
    | excluded => exact absurd hs hscope
    | _ => rfl
  refine except_bind_eq (requireBool_eq (requireValue_objectOf rfl rfl context)) ?_
  refine except_bind_eq (requireBool_eq (requireValue_objectOf rfl rfl context)) ?_
  refine except_bind_eq (requireBool_eq (requireValue_objectOf rfl rfl context)) ?_
  exact @checkIdentity_eq configurationId symbol.generic ⟨h.identity, h.key⟩ context

/-! ## Loading the symbols -/

/-- The reader's state once these symbols are loaded. -/
def loaded (symbols : List Symbol) : Loaded :=
  (ofSymbols (symbols.map Symbol.generic), Graph.indexKeys (symbols.map Symbol.generic))

theorem loadSymbol_value {configurationId : Bytes} {done : List Symbol} {symbol : Symbol}
    (h : Identified configurationId symbol) (hkey : symbol.key ≠ []) (hscope : symbol.scope ≠ .excluded)
    (hsource : symbol.source.Exact) (hnew : ∀ s ∈ done, s.key ≠ symbol.key) (i : Nat) :
    loadSymbol configurationId (loaded done) (symbolValue symbol, i) = .ok (loaded (done ++ [symbol])) := by
  have hnew' : ∀ s ∈ done.map Symbol.generic, s.key ≠ symbol.generic.key := by simpa [Symbol.generic] using hnew
  have hadd := addOrMergeSymbol_ofSymbols (show symbol.generic.key ≠ [] from hkey) hscope hnew'
  obtain ⟨usr, linkageName, translationUnit, fallbackAnchor, hmake⟩ := h.identity
  obtain ⟨-, hconfiguration, -⟩ := makeSymbolIdentity_ok hmake
  have hlookup : (loaded done).2.lookup symbol.generic.key = none := by
    show (Graph.indexKeys (done.map Symbol.generic)).lookup symbol.generic.key = none
    rw [Graph.lookup_indexKeys, List.findIdx?_eq_none_iff]
    simpa using hnew'
  have happly : applyTo (loaded done).1 (Graph.addOrMergeSymbol symbol.generic) =
      .ok ((done.map Symbol.generic).length, ofSymbols (done.map Symbol.generic ++ [symbol.generic])) := by
    unfold applyTo
    rw [show (loaded done).1 = ofSymbols (done.map Symbol.generic) from rfl, hadd]
  have hstep : loaded (done ++ [symbol]) = (ofSymbols (done.map Symbol.generic ++ [symbol.generic]),
      Graph.emplaceKey (loaded done).2 symbol.generic.key (done.map Symbol.generic).length) := by
    unfold loaded
    rw [List.map_append, List.map_singleton, indexKeys_concat]
  unfold loadSymbol
  refine except_bind_eq (parseSymbol_value h hkey hscope hsource _) ?_
  rw [if_neg (not_not.2 (show symbol.generic.identity.configurationId = configurationId from hconfiguration)), hlookup,
    if_neg (by simp)]
  refine except_bind_eq happly ?_
  rw [hstep]
  rfl

/-! ## Loading the facts -/

section Facts
variable {g : Graph} (hg : g.Inv)
include hg

theorem symbolId_eq {id : SymbolId} (hid : id < g.symbols.length) (context : Bytes) :
    symbolId g.canonicalize.keyToId (g.symbol id).key context = .ok (g.canonicalId id) := by
  have hfind : g.canonicalize.keyToId.lookup (g.symbol id).key = some (g.canonicalId id) := by
    refine ((Graph.canonicalize_inv hg).findByKey_iff _ _).2 ⟨?_, by rw [Graph.symbol_canonicalId hid]⟩
    rw [(Graph.canonicalize_symbols_perm g).length_eq]
    exact Graph.canonicalId_lt hid
  unfold symbolId
  rw [hfind]

theorem requireSymbol_eq {item : Value} {key : String} {context : Bytes} {id : SymbolId} (hid : id < g.symbols.length)
    (h : requireValue item key context = .ok (keyValue g id)) :
    requireSymbol g.canonicalize.keyToId item key context = .ok (g.canonicalId id) := by
  unfold requireSymbol
  exact except_bind_eq (requireString_nonempty h (hg.keys_ne _ (Graph.symbol_mem hid))) (symbolId_eq hg hid _)

theorem parseOrigin_value {origin : Option SymbolId} (h : ∀ id ∈ origin, id < g.symbols.length) (context : Bytes) :
    parseOrigin g.canonicalize.keyToId (originValue g origin) context = .ok (origin.map g.canonicalId) := by
  cases origin with
  | none => rfl
  | some id =>
    have hne : (g.symbol id).key ≠ [] := hg.keys_ne _ (Graph.symbol_mem (h id rfl))
    show (if (g.symbol id).key.isEmpty then _ else some <$> symbolId _ _ _) = _
    rw [if_neg (by simpa using hne), symbolId_eq hg (h id rfl)]
    rfl

omit hg in
theorem requireEvidence_eq {item : Value} {context : Bytes} {evidence : Evidence}
    (h : requireValue item "evidence" context = .ok (evidenceValue evidence)) :
    requireEvidence item context = .ok evidence := by
  unfold requireEvidence
  exact except_bind_eq h (parseEvidence_value evidence _)

omit hg in
/-- The graph after an operation that returns. -/
theorem applyTo_eq {g' : Graph} {operation : GraphM Unit} (h : operation g = .ok () g') :
    Prod.snd <$> applyTo g operation = .ok g' := by
  unfold applyTo
  rw [h]
  rfl

variable {target : Graph} (hlen : target.symbols.length = g.symbols.length)
include hlen

theorem loadEdge_value {edge : Edge} (hid : edge.from < g.symbols.length ∧ edge.to < g.symbols.length)
    (hnew : (⟨g.canonicalId edge.from, g.canonicalId edge.to, edge.kind, edge.evidence⟩ : Edge) ∉ target.edges) (i : Nat) :
    loadEdge g.canonicalize.keyToId target (edgeValue g edge, i) = .ok { target with
      edges := target.edges ++ [⟨g.canonicalId edge.from, g.canonicalId edge.to, edge.kind, edge.evidence⟩] } := by
  have hkind : edge.kind.toText ≠ [] := by cases edge.kind <;> decide
  have hmoved : g.canonicalId edge.from < target.symbols.length ∧ g.canonicalId edge.to < target.symbols.length := by
    rw [hlen]
    exact ⟨Graph.canonicalId_lt hid.1, Graph.canonicalId_lt hid.2⟩
  unfold loadEdge
  refine except_bind_eq (requireKeys_objectOf rfl _) ?_
  refine except_bind_eq (requireSymbol_eq hg hid.1 (requireValue_objectOf rfl rfl _)) ?_
  refine except_bind_eq (requireSymbol_eq hg hid.2 (requireValue_objectOf rfl rfl _)) ?_
  refine except_bind_eq (requireString_nonempty (requireValue_objectOf rfl rfl _) hkind) ?_
  refine except_bind_eq (parseEnum_eq (a := edge.kind) (by cases edge.kind <;> rfl) _) ?_
  refine except_bind_eq (requireEvidence_eq (requireValue_objectOf rfl rfl _)) ?_
  exact applyTo_eq (@Graph.addEdge_new target ⟨_, _, _, _⟩ hmoved hnew)

theorem loadRoot_value {root : Root} (hid : root.symbol < g.symbols.length)
    (hnew : (⟨g.canonicalId root.symbol, root.kind, root.evidence⟩ : Root) ∉ target.roots) (i : Nat) :
    loadRoot g.canonicalize.keyToId target (rootValue g root, i) = .ok { target with
      roots := target.roots ++ [⟨g.canonicalId root.symbol, root.kind, root.evidence⟩] } := by
  have hkind : root.kind.toText ≠ [] := by cases root.kind <;> decide
  have hmoved : g.canonicalId root.symbol < target.symbols.length := by
    rw [hlen]
    exact Graph.canonicalId_lt hid
  unfold loadRoot
  refine except_bind_eq (requireKeys_objectOf rfl _) ?_
  refine except_bind_eq (requireSymbol_eq hg hid (requireValue_objectOf rfl rfl _)) ?_
  refine except_bind_eq (requireString_nonempty (requireValue_objectOf rfl rfl _) hkind) ?_
  refine except_bind_eq (parseEnum_eq (a := root.kind) (by cases root.kind <;> rfl) _) ?_
  refine except_bind_eq (requireEvidence_eq (requireValue_objectOf rfl rfl _)) ?_
  exact applyTo_eq (@Graph.addRoot_new target ⟨_, _, _⟩ hmoved hnew)

theorem loadEscape_value {escape : Escape}
    (hid : escape.symbol < g.symbols.length ∧ ∀ f ∈ escape.from, f < g.symbols.length)
    (hnew : (⟨g.canonicalId escape.symbol, escape.from.map g.canonicalId, escape.kind, escape.evidence⟩ : Escape) ∉
      target.escapes) (i : Nat) :
    loadEscape g.canonicalize.keyToId target (escapeValue g escape, i) = .ok { target with
      escapes := target.escapes ++
        [⟨g.canonicalId escape.symbol, escape.from.map g.canonicalId, escape.kind, escape.evidence⟩] } := by
  have hkind : escape.kind.toText ≠ [] := by cases escape.kind <;> decide
  have hmoved : g.canonicalId escape.symbol < target.symbols.length ∧
      ∀ f ∈ escape.from.map g.canonicalId, f < target.symbols.length := by
    rw [hlen]
    refine ⟨Graph.canonicalId_lt hid.1, fun f hf => ?_⟩
    obtain ⟨f, hmem, rfl⟩ := Option.map_eq_some_iff.1 (Option.mem_def.1 hf)
    exact Graph.canonicalId_lt (hid.2 f hmem)
  unfold loadEscape
  refine except_bind_eq (requireKeys_objectOf rfl _) ?_
  refine except_bind_eq (requireValue_objectOf rfl rfl _) ?_
  refine except_bind_eq (parseOrigin_value hg hid.2 _) ?_
  refine except_bind_eq (requireSymbol_eq hg hid.1 (requireValue_objectOf rfl rfl _)) ?_
  refine except_bind_eq (requireString_nonempty (requireValue_objectOf rfl rfl _) hkind) ?_
  refine except_bind_eq (parseEnum_eq (a := escape.kind) (by cases escape.kind <;> rfl) _) ?_
  refine except_bind_eq (requireEvidence_eq (requireValue_objectOf rfl rfl _)) ?_
  exact applyTo_eq (@Graph.addEscape_new target ⟨_, _, _, _⟩ hmoved hnew)

theorem loadSuppression_value {suppression : Suppression} (hid : suppression.symbol < g.symbols.length)
    (hnew : (⟨g.canonicalId suppression.symbol, suppression.evidence⟩ : Suppression) ∉ target.suppressions) (i : Nat) :
    loadSuppression g.canonicalize.keyToId target (suppressionValue g suppression, i) = .ok { target with
      suppressions := target.suppressions ++ [⟨g.canonicalId suppression.symbol, suppression.evidence⟩] } := by
  have hmoved : g.canonicalId suppression.symbol < target.symbols.length := by
    rw [hlen]
    exact Graph.canonicalId_lt hid
  unfold loadSuppression
  refine except_bind_eq (requireKeys_objectOf rfl _) ?_
  refine except_bind_eq (requireSymbol_eq hg hid (requireValue_objectOf rfl rfl _)) ?_
  refine except_bind_eq (requireEvidence_eq (requireValue_objectOf rfl rfl _)) ?_
  exact applyTo_eq (@Graph.addSuppression_new target ⟨_, _⟩ hmoved hnew)

end Facts

/-! ## The metadata -/

/-- A target that is absent, or has all its fields and a known kind, and closure targets with names. -/
structure ValidTargets (metadata : GraphArtifactMetadata) : Prop where
  target : (metadata.targetId = [] ∧ metadata.targetName = [] ∧ metadata.targetKind = []) ∨
    (metadata.targetId ≠ [] ∧ metadata.targetName ≠ [] ∧ metadata.targetKind ∈ targetKinds)
  closureTargets : ∀ target ∈ metadata.closureTargets, target ≠ []

theorem checkTarget_eq {metadata : GraphArtifactMetadata} (h : ValidTargets metadata) :
    checkTarget metadata = .ok () := by
  have hkinds : [] ∉ targetKinds := by decide
  unfold checkTarget
  rcases h.target with ⟨hid, hname, hkind⟩ | ⟨hid, hname, hkind⟩
  · rw [hid, hname, hkind]
    rfl
  · have hne : metadata.targetKind ≠ [] := fun heq => hkinds (heq ▸ hkind)
    rw [List.isEmpty_eq_false_iff.2 hid, List.isEmpty_eq_false_iff.2 hname, List.isEmpty_eq_false_iff.2 hne]
    simp only [hkind, not_true_eq_false, and_false, if_false]
    rfl

theorem parseClosureTarget_value {target : Bytes} (h : target ≠ []) :
    parseClosureTarget (.string target) = .ok target := by
  show (if target.isEmpty then _ else _) = _
  rw [if_neg (by simpa using h)]

section Document
variable {g : Graph} {metadata : GraphArtifactMetadata} {diagnostics : List Bytes}

theorem parseMetadata_value (hconfiguration : metadata.configurationId ≠ []) (h : ValidTargets metadata)
    (hunits : metadata.translationUnits.toNat ≤ largestExactJsonInteger) :
    parseMetadata (documentValue g metadata diagnostics) = .ok metadata := by
  have hfrontend : metadata.frontend.toText ≠ [] := by cases metadata.frontend <;> decide
  unfold parseMetadata
  refine except_bind_eq (requireString_nonempty (requireValue_objectOf rfl rfl _) hconfiguration) ?_
  refine except_bind_eq (requireString_nonempty (requireValue_objectOf rfl rfl _) hfrontend) ?_
  refine except_bind_eq (parseEnum_eq (a := metadata.frontend) (by cases metadata.frontend <;> rfl) _) ?_
  refine except_bind_eq (requireSize_eq (requireValue_objectOf rfl rfl _) hunits) ?_
  refine except_bind_eq (requireValue_objectOf rfl rfl _) ?_
  refine except_bind_eq (requireKeys_objectOf rfl _) ?_
  refine except_bind_eq (requireString_eq (requireValue_objectOf rfl rfl _)) ?_
  refine except_bind_eq (nullableString_eq (requireValue_objectOf rfl rfl _)) ?_
  refine except_bind_eq (nullableString_eq (requireValue_objectOf rfl rfl _)) ?_
  refine except_bind_eq (nullableString_eq (requireValue_objectOf rfl rfl _)) ?_
  refine except_bind_eq (checkTarget_eq ⟨h.target, by simp⟩) ?_
  refine except_bind_eq (requireArray_eq (requireValue_objectOf rfl rfl _)) ?_
  exact except_bind_eq (mapM_ok _ fun target ht => parseClosureTarget_value (h.closureTargets target ht)) rfl

end Document

/-! ## The graph that is read -/

section Read
variable (g : Graph)

def movedEdges : List Edge :=
  (edgesByKey g).map fun e => ⟨g.canonicalId e.from, g.canonicalId e.to, e.kind, e.evidence⟩

def movedRoots : List Root := (rootsByKey g).map fun r => ⟨g.canonicalId r.symbol, r.kind, r.evidence⟩

def movedEscapes : List Escape :=
  (escapesByKey g).map fun e => ⟨g.canonicalId e.symbol, e.from.map g.canonicalId, e.kind, e.evidence⟩

def movedSuppressions : List Suppression :=
  (suppressionsByKey g).map fun s => ⟨g.canonicalId s.symbol, s.evidence⟩

/-- The graph that the reader has built before it canonicalizes it. -/
def loadedGraph : Graph :=
  { ofSymbols ((symbolsByKey g).map Symbol.generic) with
    edges := movedEdges g, roots := movedRoots g, escapes := movedEscapes g, suppressions := movedSuppressions g }

/-- Each list of facts is the canonical one in another order. -/
theorem moved_perm : (movedEdges g).Perm g.canonicalize.edges ∧ (movedRoots g).Perm g.canonicalize.roots ∧
    (movedEscapes g).Perm g.canonicalize.escapes ∧ (movedSuppressions g).Perm g.canonicalize.suppressions :=
  ⟨((sortOn_perm _ _).map _).trans (sortOn_perm _ _).symm, ((sortOn_perm _ _).map _).trans (sortOn_perm _ _).symm,
    ((sortOn_perm _ _).map _).trans (sortOn_perm _ _).symm, ((sortOn_perm _ _).map _).trans (sortOn_perm _ _).symm⟩

variable {g} (hg : g.Inv)
include hg

/-- The reader canonicalizes what it has built to the graph that was written. -/
theorem canonicalize_loadedGraph : (loadedGraph g).canonicalize = g.canonicalize.generic := by
  have hc : g.canonicalize.generic.Inv := (Graph.canonicalize_inv hg).generic
  have hindex : Graph.indexKeys ((symbolsByKey g).map Symbol.generic) = g.canonicalize.generic.keyToId :=
    Graph.indexKeys_generic _
  obtain ⟨hedges, hroots, hescapes, hsuppressions⟩ := moved_perm g
  have hfind : (loadedGraph g).findByKey = g.canonicalize.generic.findByKey := by
    funext key
    show (Graph.indexKeys ((symbolsByKey g).map Symbol.generic)).lookup key = _
    rw [hindex]
    rfl
  have hinv : (loadedGraph g).Inv :=
    ⟨hc.keys_nodup, hc.keys_ne, hc.not_excluded, fun key id => by rw [hfind]; exact hc.findByKey_iff key id,
      ⟨fun e he => hc.ids.edges e (hedges.mem_iff.1 he), fun r hr => hc.ids.roots r (hroots.mem_iff.1 hr),
        fun e he => hc.ids.escapes e (hescapes.mem_iff.1 he),
        fun s hs => hc.ids.suppressions s (hsuppressions.mem_iff.1 hs)⟩,
      hedges.nodup_iff.2 hc.edges_nodup, hroots.nodup_iff.2 hc.roots_nodup, hescapes.nodup_iff.2 hc.escapes_nodup,
      hsuppressions.nodup_iff.2 hc.suppressions_nodup⟩
  have hsame : Graph.SameFacts (loadedGraph g) g.canonicalize.generic :=
    ⟨fun key => by unfold Graph.record; rw [hfind]; rfl, fun x => (hedges.map _).mem_iff, fun x => (hroots.map _).mem_iff,
      fun x => (hescapes.map _).mem_iff, fun x => (hsuppressions.map _).mem_iff⟩
  rw [Graph.canonicalize_congr hinv hc hsame, Graph.canonicalize_generic,
    Graph.canonicalize_congr (Graph.canonicalize_inv hg) hg (Graph.canonicalize_sameFacts hg)]

theorem loadSymbols_value {configurationId : Bytes} (h : ∀ s ∈ g.symbols, Identified configurationId s)
    (hexact : ∀ s ∈ g.symbols, s.source.Exact) :
    ((symbolsByKey g).map symbolValue).zipIdx.foldlM (loadSymbol configurationId) ({}, []) =
      .ok (loaded (symbolsByKey g)) := by
  have hmem : ∀ s ∈ symbolsByKey g, s ∈ g.symbols := fun s hs => (Graph.canonicalize_symbols_perm g).mem_iff.1 hs
  have hnodup : ((symbolsByKey g).map (·.key)).Nodup := (Graph.canonicalize_inv hg).keys_nodup
  refine foldlM_zipIdx_ok loaded symbolValue (symbolsByKey g) fun done s hl i => ?_
  obtain ⟨rest, hl⟩ := hl
  have hs : s ∈ g.symbols := hmem s (by rw [← hl]; simp)
  refine loadSymbol_value (h s hs) (hg.keys_ne s hs) (hg.not_excluded s hs) (hexact s hs) (fun t ht hkey => ?_) i
  rw [← hl, List.map_append, List.map_cons] at hnodup
  exact (List.nodup_append'.1 hnodup).2.2 (List.mem_map.2 ⟨t, ht, hkey⟩) (by simp)

omit hg in
/-- A loop over facts that are all new. -/
theorem loadFacts_loop {α β : Type} {value : α → Value} {turn : Graph → Value × Nat → ReadM Graph} (move : α → β)
    (state : List β → Graph) (l : List α) (hnodup : (l.map move).Nodup)
    (h : ∀ done a, a ∈ l → move a ∉ done → ∀ i, turn (state done) (value a, i) = .ok (state (done ++ [move a]))) :
    (l.map value).zipIdx.foldlM turn (state []) = .ok (state (l.map move)) := by
  refine foldlM_zipIdx_ok (fun done => state (done.map move)) value l fun done a hl i => ?_
  obtain ⟨rest, hl⟩ := hl
  rw [List.map_append, List.map_singleton]
  refine h (done.map move) a (by rw [← hl]; simp) (fun hmem => ?_) i
  rw [← hl, List.map_append, List.map_cons] at hnodup
  exact (List.nodup_append'.1 hnodup).2.2 hmem List.mem_cons_self

theorem loadFacts_value {metadata : GraphArtifactMetadata} {diagnostics : List Bytes} :
    loadFacts (documentValue g metadata diagnostics) (loaded (symbolsByKey g)) = .ok (loadedGraph g) := by
  -- the graphs before each loop
  let g₀ : Graph := ofSymbols ((symbolsByKey g).map Symbol.generic)
  let g₁ : Graph := { g₀ with edges := movedEdges g }
  let g₂ : Graph := { g₁ with roots := movedRoots g }
  let g₃ : Graph := { g₂ with escapes := movedEscapes g }
  have hlen : g₀.symbols.length = g.symbols.length := by
    show ((symbolsByKey g).map Symbol.generic).length = _
    rw [List.length_map]
    exact (Graph.canonicalize_symbols_perm g).length_eq
  have hids : (loaded (symbolsByKey g)).2 = g.canonicalize.keyToId := Graph.indexKeys_generic _
  have hc := Graph.canonicalize_inv hg
  obtain ⟨hedges, hroots, hescapes, hsuppressions⟩ := moved_perm g
  have hedge := @loadFacts_loop Edge Edge (edgeValue g) _ _ (fun done => { g₀ with edges := done }) (edgesByKey g)
    (hedges.nodup_iff.2 hc.edges_nodup) fun done e he hnew i =>
      @loadEdge_value g hg { g₀ with edges := done } hlen e (hg.ids.edges e ((mem_sortOn _).1 he)) hnew i
  have hroot := @loadFacts_loop Root Root (rootValue g) _ _ (fun done => { g₁ with roots := done }) (rootsByKey g)
    (hroots.nodup_iff.2 hc.roots_nodup) fun done r hr hnew i =>
      @loadRoot_value g hg { g₁ with roots := done } hlen r (hg.ids.roots r ((mem_sortOn _).1 hr)) hnew i
  have hescape := @loadFacts_loop Escape Escape (escapeValue g) _ _ (fun done => { g₂ with escapes := done }) (escapesByKey g)
    (hescapes.nodup_iff.2 hc.escapes_nodup) fun done e he hnew i =>
      @loadEscape_value g hg { g₂ with escapes := done } hlen e (hg.ids.escapes e ((mem_sortOn _).1 he)) hnew i
  have hsuppression := @loadFacts_loop Suppression Suppression (suppressionValue g) _ _ (fun done => { g₃ with suppressions := done })
    (suppressionsByKey g) (hsuppressions.nodup_iff.2 hc.suppressions_nodup) fun done s hs hnew i =>
      @loadSuppression_value g hg { g₃ with suppressions := done } hlen s
        (hg.ids.suppressions s ((mem_sortOn _).1 hs)) hnew i
  unfold loadFacts
  rw [hids]
  refine except_bind_eq (requireArray_eq (requireValue_objectOf rfl rfl _)) ?_
  refine except_bind_eq hedge ?_
  refine except_bind_eq (requireArray_eq (requireValue_objectOf rfl rfl _)) ?_
  refine except_bind_eq hroot ?_
  refine except_bind_eq (requireArray_eq (requireValue_objectOf rfl rfl _)) ?_
  refine except_bind_eq hescape ?_
  refine except_bind_eq (requireArray_eq (requireValue_objectOf rfl rfl _)) ?_
  exact hsuppression

omit hg in
theorem checkVersion_eq {root : Value} {key : String} {version : Nat} (hversion : version < 2 ^ 32)
    (h : requireValue root key (lit "document") = .ok (.number version)) : checkVersion root key version = .ok () := by
  have hnat : version.toUInt64.toNat = version := by
    rw [Nat.toUInt64_eq, UInt64.toNat_ofNat_of_lt']
    exact lt_trans hversion (by norm_num)
  have hsize : requireSize root key (lit "document") = .ok version.toUInt64 :=
    requireSize_eq (by rw [hnat]; exact h) (by rw [hnat, largestExactJsonInteger]; omega)
  unfold checkVersion
  refine except_bind_eq hsize ?_
  rw [hnat, if_neg (by simp)]
  rfl

/-- What the reader makes of a written document. -/
theorem readDocument_documentValue {metadata : GraphArtifactMetadata} {diagnostics : List Bytes}
    (hconfiguration : metadata.configurationId ≠ []) (h : ∀ s ∈ g.symbols, Identified metadata.configurationId s)
    (hexact : ∀ s ∈ g.symbols, s.source.Exact) (htargets : ValidTargets metadata)
    (hunits : metadata.translationUnits.toNat ≤ largestExactJsonInteger) :
    readDocument (documentValue g metadata diagnostics) =
      .ok { graph := g.canonicalize.generic, metadata, diagnostics := sortUnique diagnostics } := by
  unfold readDocument
  refine except_bind_eq (requireKeys_objectOf rfl _) ?_
  refine except_bind_eq (checkVersion_eq (by decide) (requireValue_objectOf rfl rfl _)) ?_
  refine except_bind_eq (checkVersion_eq (by decide) (requireValue_objectOf rfl rfl _)) ?_
  refine except_bind_eq (parseMetadata_value hconfiguration htargets hunits) ?_
  refine except_bind_eq (requireArray_eq (requireValue_objectOf rfl rfl _)) ?_
  refine except_bind_eq (loadSymbols_value hg h hexact) ?_
  refine except_bind_eq (loadFacts_value hg) ?_
  refine except_bind_eq (requireArray_eq (requireValue_objectOf rfl rfl _)) ?_
  refine except_bind_eq (mapM_ok _ fun _ _ => rfl) ?_
  rw [canonicalize_loadedGraph hg]
  rfl

end Read

end Artifact

end CxxDead
