import CxxDead.ArtifactRoundTrip
import CxxDead.JsonParse
/-!
# What the artifact reader accepts

A document is read as the objects of a schema, each with exactly its members. The reader
accepts nothing else, and what it returns says what the document says.

- `SymbolAt`, `EdgeAt`, `RootAt`, `EscapeAt`, `SuppressionAt`: what a value of the document lists.
- `Accepted`: a document of the schema, with the graph that it lists.
- `readGraphArtifact_accepts`: the reader returns such graphs only, and throws otherwise.
-/

namespace CxxDead

open Lib

namespace Artifact

open Json

/-! ## Objects of the schema -/

/-- An object with these members and no others. -/
def Members (value : Value) (names : List String) : Prop :=
  ∃ members, value = .object members ∧ ∀ key, key ∈ members.map (·.1) ↔ key ∈ names.map lit

/-- A member of an object. -/
def Field (value : Value) (name : String) (P : Value → Prop) : Prop := ∃ field, value.find (lit name) = some field ∧ P field

def StringField (value : Value) (name : String) (s : Bytes) : Prop := Field value name (· = .string s)

def NumberField (value : Value) (name : String) (n : UInt64) : Prop := Field value name (· = .number n.toNat)

def BoolField (value : Value) (name : String) (b : Bool) : Prop := Field value name (· = .bool b)

structure PointAt (value : Value) (point : SourcePoint) : Prop where
  members : Members value ["file", "line", "column", "offset", "token_length"]
  file : StringField value "file" point.file.text
  line : NumberField value "line" point.line
  column : NumberField value "column" point.column
  offset : NumberField value "offset" point.offset
  tokenLength : NumberField value "token_length" point.tokenLength

structure RangeAt (value : Value) (extent : SourceExtent) : Prop where
  members : Members value ["begin", "end"]
  begin : Field value "begin" (PointAt · extent.begin)
  «end» : Field value "end" (PointAt · extent.end)

structure ExtentAt (value : Value) (extent : SourceExtent) : Prop where
  members : Members value ["location", "range"]
  location : Field value "location" (PointAt · extent.location)
  range : Field value "range" (RangeAt · extent)

def ExpansionAt (value : Value) : Option SourceExtent → Prop
  | none => value = .null
  | some extent => ExtentAt value extent

structure SourceAt (value : Value) (source : SymbolSource) : Prop where
  members : Members value ["spelling", "expansion"]
  spelling : Field value "spelling" (ExtentAt · source.spelling)
  expansion : Field value "expansion" (ExpansionAt · source.expansion)

structure EvidenceAt (value : Value) (evidence : Evidence) : Prop where
  members : Members value ["provider", "reason"]
  provider : StringField value "provider" evidence.provider
  reason : StringField value "reason" evidence.reason

structure IdentityAt (value : Value) (identity : SymbolIdentity) : Prop where
  members : Members value ["quality", "configuration_id", "usr", "linkage_name", "translation_unit", "fallback_anchor"]
  quality : StringField value "quality" identity.quality.toText
  configurationId : StringField value "configuration_id" identity.configurationId
  usr : StringField value "usr" identity.usr
  linkageName : StringField value "linkage_name" identity.linkageName
  translationUnit : StringField value "translation_unit" identity.translationUnit
  fallbackAnchor : StringField value "fallback_anchor" identity.fallbackAnchor

structure SymbolAt (value : Value) (symbol : Symbol) : Prop where
  members : Members value ["id", "identity", "name", "qualified_name", "class_name", "signature", "kind", "scope",
    "defined", "internal_linkage", "virtual", "source"]
  key : StringField value "id" symbol.key
  identity : Field value "identity" (IdentityAt · symbol.identity)
  name : StringField value "name" symbol.name
  qualifiedName : StringField value "qualified_name" symbol.qualifiedName
  className : StringField value "class_name" symbol.className
  signature : StringField value "signature" symbol.signature
  kind : StringField value "kind" symbol.kind.toText
  scope : StringField value "scope" symbol.scope.toText
  defined : BoolField value "defined" symbol.defined
  internalLinkage : BoolField value "internal_linkage" symbol.internalLinkage
  isVirtual : BoolField value "virtual" symbol.isVirtual
  source : Field value "source" (SourceAt · symbol.source)

/-! ### Facts by key -/

structure EdgeAt (value : Value) (fact : Bytes × Bytes × EdgeKind × Evidence) : Prop where
  members : Members value ["from", "to", "kind", "evidence"]
  «from» : StringField value "from" fact.1
  «to» : StringField value "to" fact.2.1
  kind : StringField value "kind" fact.2.2.1.toText
  evidence : Field value "evidence" (EvidenceAt · fact.2.2.2)

structure RootAt (value : Value) (fact : Bytes × RootKind × Evidence) : Prop where
  members : Members value ["symbol", "kind", "evidence"]
  symbol : StringField value "symbol" fact.1
  kind : StringField value "kind" fact.2.1.toText
  evidence : Field value "evidence" (EvidenceAt · fact.2.2)

def OriginAt (value : Value) : Option Bytes → Prop
  | none => value = .null
  | some key => value = .string key

structure EscapeAt (value : Value) (fact : Bytes × Option Bytes × EscapeKind × Evidence) : Prop where
  members : Members value ["symbol", "from", "kind", "evidence"]
  symbol : StringField value "symbol" fact.1
  «from» : Field value "from" (OriginAt · fact.2.1)
  kind : StringField value "kind" fact.2.2.1.toText
  evidence : Field value "evidence" (EvidenceAt · fact.2.2.2)

structure SuppressionAt (value : Value) (fact : Bytes × Evidence) : Prop where
  members : Members value ["symbol", "evidence"]
  symbol : StringField value "symbol" fact.1
  evidence : Field value "evidence" (EvidenceAt · fact.2)

/-! ### Documents -/

/-- Everything that a document lists. -/
structure Listing where
  symbols : List Symbol := []
  edges : List (Bytes × Bytes × EdgeKind × Evidence) := []
  roots : List (Bytes × RootKind × Evidence) := []
  escapes : List (Bytes × Option Bytes × EscapeKind × Evidence) := []
  suppressions : List (Bytes × Evidence) := []

def Listing.keys (listing : Listing) : List Bytes := listing.symbols.map (·.key)

/-- A member that is an array, item by item. -/
def ArrayField {α : Type} (value : Value) (name : String) (P : Value → α → Prop) (l : List α) : Prop :=
  Field value name fun field => ∃ items, field = .array items ∧ List.Forall₂ P items l

structure DocumentAt (root : Value) (configurationId : Bytes) (listing : Listing) : Prop where
  members : Members root ["artifact_schema_version", "identity_schema_version", "configuration_id", "analysis_context",
    "frontend", "translation_units", "symbols", "edges", "roots", "escapes", "suppressions", "diagnostics"]
  artifactVersion : Field root "artifact_schema_version" (· = .number graphArtifactSchemaVersion)
  identityVersion : Field root "identity_schema_version" (· = .number symbolIdentitySchemaVersion)
  configurationId : StringField root "configuration_id" configurationId
  context : Field root "analysis_context"
    (Members · ["configuration", "target_id", "target_name", "target_kind", "closure_targets"])
  symbols : ArrayField root "symbols" SymbolAt listing.symbols
  edges : ArrayField root "edges" EdgeAt listing.edges
  roots : ArrayField root "roots" RootAt listing.roots
  escapes : ArrayField root "escapes" EscapeAt listing.escapes
  suppressions : ArrayField root "suppressions" SuppressionAt listing.suppressions

/-- What must hold of a listing beyond the shape of its objects. -/
structure Listing.Valid (listing : Listing) (configurationId : Bytes) : Prop where
  distinct : listing.keys.Nodup
  key : ∀ symbol ∈ listing.symbols, symbol.key = stableSymbolKey symbol.identity
  identity : ∀ symbol ∈ listing.symbols, makeSymbolIdentity symbol.identity.configurationId symbol.identity.usr
    symbol.identity.linkageName symbol.identity.translationUnit symbol.identity.fallbackAnchor = .ok symbol.identity
  configuration : ∀ symbol ∈ listing.symbols, symbol.identity.configurationId = configurationId
  scope : ∀ symbol ∈ listing.symbols, symbol.scope ≠ .excluded
  edges : ∀ fact ∈ listing.edges, fact.1 ∈ listing.keys ∧ fact.2.1 ∈ listing.keys
  roots : ∀ fact ∈ listing.roots, fact.1 ∈ listing.keys
  escapes : ∀ fact ∈ listing.escapes, fact.1 ∈ listing.keys ∧ ∀ key ∈ fact.2.1, key ∈ listing.keys
  suppressions : ∀ fact ∈ listing.suppressions, fact.1 ∈ listing.keys

/-- A graph that says what is listed. -/
structure Listing.Describes (listing : Listing) (g : Graph) : Prop where
  inv : g.Inv
  symbols : g.symbols.Perm listing.symbols
  edges : ∀ fact, fact ∈ g.edgeFacts ↔ fact ∈ listing.edges
  roots : ∀ fact, fact ∈ g.rootFacts ↔ fact ∈ listing.roots
  escapes : ∀ fact, fact ∈ g.escapeFacts ↔ fact ∈ listing.escapes
  suppressions : ∀ fact, fact ∈ g.suppressionFacts ↔ fact ∈ listing.suppressions

/-- The document is the text of a value whose objects name no member twice, and the value is a document of the schema. -/
def Accepted (fromChars : Bytes → Option ℚ) (document : Bytes) (artifact : GraphArtifact) : Prop :=
  ∃ derivation : Json.Document, derivation.text = document ∧ derivation.Admitted fromChars ∧
    ∃ listing : Listing, DocumentAt (derivation.value fromChars) artifact.metadata.configurationId listing ∧
      listing.Valid artifact.metadata.configurationId ∧ listing.Describes artifact.graph

/-! ## Reading the members -/

section Fields
variable {value : Value} {name : String} {context : Bytes}

theorem requireObject_ok {members : List (Bytes × Value)} (h : requireObject value context = .ok members) :
    value = .object members := by
  unfold requireObject at h
  split at h
  · cases h
    rfl
  · exact nomatch h

theorem requireKeys_ok {required : List String} {u : Unit} (h : requireKeys value required context = .ok u) :
    Members value required := by
  obtain ⟨members, hobject, h⟩ := except_bind_ok_iff.1 h
  refine ⟨members, requireObject_ok hobject, fun key => ?_⟩
  split at h
  · exact nomatch h
  rename_i hrequired
  split at h
  · exact nomatch h
  rename_i hknown
  constructor
  · intro hkey
    obtain ⟨m, hm, rfl⟩ := List.mem_map.1 hkey
    simpa using List.find?_eq_none.1 hknown m hm
  · intro hkey
    have hpresent := List.find?_eq_none.1 hrequired key hkey
    rw [Option.isNone_iff_eq_none, ← Option.not_isSome_iff_eq_none, not_not] at hpresent
    exact lookup_isSome_iff.1 hpresent

theorem requireValue_ok {field : Value} (h : requireValue value name context = .ok field) :
    value.find (lit name) = some field := by
  obtain ⟨members, hobject, h⟩ := except_bind_ok_iff.1 h
  rw [requireObject_ok hobject]
  show members.lookup (lit name) = some field
  split at h
  · rename_i hfound
    cases h
    exact hfound
  · exact nomatch h

theorem requireString_ok {s : Bytes} {allowEmpty : Bool} (h : requireString value name context allowEmpty = .ok s) :
    StringField value name s ∧ (allowEmpty = false → s ≠ []) := by
  obtain ⟨field, hfield, h⟩ := except_bind_ok_iff.1 h
  split at h
  · split at h
    · exact nomatch h
    · rename_i hempty
      cases h
      refine ⟨⟨_, requireValue_ok hfield, rfl⟩, ?_⟩
      rintro rfl rfl
      exact hempty rfl
  · exact nomatch h

theorem requireBool_ok {b : Bool} (h : requireBool value name context = .ok b) : BoolField value name b := by
  obtain ⟨field, hfield, h⟩ := except_bind_ok_iff.1 h
  split at h
  · cases h
    exact ⟨_, requireValue_ok hfield, rfl⟩
  · exact nomatch h

theorem requireSize_ok {n : UInt64} (h : requireSize value name context = .ok n) : NumberField value name n := by
  obtain ⟨field, hfield, h⟩ := except_bind_ok_iff.1 h
  split at h
  · rename_i x
    split at h
    · exact nomatch h
    · rename_i hexact
      cases h
      refine ⟨_, requireValue_ok hfield, congrArg Value.number ?_⟩
      rw [not_or, not_or, not_lt, not_not, gt_iff_lt, not_lt] at hexact
      obtain ⟨hnonneg, hfloor, hlarge⟩ := hexact
      have hfloor' : 0 ≤ x.floor := by
        rw [← hfloor] at hnonneg
        exact_mod_cast hnonneg
      have hsmall : x.floor.toNat < 2 ^ 64 := by
        rw [← hfloor] at hlarge
        have hle : x.floor ≤ (largestExactJsonInteger : Int) := by exact_mod_cast hlarge
        rw [largestExactJsonInteger] at hle
        omega
      rw [Nat.toUInt64_eq, UInt64.toNat_ofNat_of_lt' hsmall]
      conv_lhs => rw [← hfloor]
      have hcast : ((x.floor.toNat : Int) : ℚ) = x.floor := by rw [Int.toNat_of_nonneg hfloor']
      exact hcast.symm
  · exact nomatch h

theorem requireArray_ok {items : List Value} (h : requireArray value name context = .ok items) :
    value.find (lit name) = some (.array items) := by
  obtain ⟨field, hfield, h⟩ := except_bind_ok_iff.1 h
  split at h
  · cases h
    exact requireValue_ok hfield
  · exact nomatch h

/-- An enumeration is read from the text of its value. -/
theorem parseEnum_ok {α : Type} (toText : α → Bytes) {map : List (String × α)} {text : Bytes} {a : α}
    (hmap : ∀ item ∈ map, toText item.2 = lit item.1) (h : parseEnum text map context = .ok a) : text = toText a := by
  unfold parseEnum at h
  split at h
  · rename_i item hitem
    cases h
    rw [hmap item (List.mem_of_find?_eq_some hitem)]
    exact (beq_iff_eq.1 (List.find?_some hitem :)).symm
  · exact nomatch h

theorem enumField_ok {α : Type} (toText : α → Bytes) {map : List (String × α)} {context' text : Bytes} {a : α}
    {allowEmpty : Bool} (hmap : ∀ item ∈ map, toText item.2 = lit item.1)
    (htext : requireString value name context allowEmpty = .ok text) (h : parseEnum text map context' = .ok a) :
    StringField value name (toText a) := by
  rw [← parseEnum_ok toText hmap h]
  exact (requireString_ok htext).1

end Fields

/-! ## Reading the objects -/

section Objects
variable {value : Value} {context : Bytes}

theorem parseSourcePoint_ok {point : SourcePoint} (h : parseSourcePoint value context = .ok point) :
    PointAt value point := by
  obtain ⟨_, hkeys, h⟩ := except_bind_ok_iff.1 h
  obtain ⟨file, hfile, h⟩ := except_bind_ok_iff.1 h
  obtain ⟨line, hline, h⟩ := except_bind_ok_iff.1 h
  obtain ⟨column, hcolumn, h⟩ := except_bind_ok_iff.1 h
  obtain ⟨offset, hoffset, h⟩ := except_bind_ok_iff.1 h
  obtain ⟨tokenLength, htokenLength, h⟩ := except_bind_ok_iff.1 h
  cases h
  exact ⟨requireKeys_ok hkeys, (requireString_ok hfile).1, requireSize_ok hline, requireSize_ok hcolumn,
    requireSize_ok hoffset, requireSize_ok htokenLength⟩

theorem parseSourceExtent_ok {extent : SourceExtent} (h : parseSourceExtent value context = .ok extent) :
    ExtentAt value extent := by
  obtain ⟨_, hkeys, h⟩ := except_bind_ok_iff.1 h
  obtain ⟨range, hrange, h⟩ := except_bind_ok_iff.1 h
  obtain ⟨_, hrangeKeys, h⟩ := except_bind_ok_iff.1 h
  obtain ⟨v, hv, h⟩ := except_bind_ok_iff.1 h
  obtain ⟨location, hlocation, h⟩ := except_bind_ok_iff.1 h
  obtain ⟨v', hv', h⟩ := except_bind_ok_iff.1 h
  obtain ⟨begin, hbegin, h⟩ := except_bind_ok_iff.1 h
  obtain ⟨v'', hv'', h⟩ := except_bind_ok_iff.1 h
  obtain ⟨«end», hend, h⟩ := except_bind_ok_iff.1 h
  cases h
  exact ⟨requireKeys_ok hkeys, ⟨v, requireValue_ok hv, parseSourcePoint_ok hlocation⟩,
    ⟨range, requireValue_ok hrange, requireKeys_ok hrangeKeys, ⟨v', requireValue_ok hv', parseSourcePoint_ok hbegin⟩,
      ⟨v'', requireValue_ok hv'', parseSourcePoint_ok hend⟩⟩⟩

theorem parseExpansion_ok {expansion : Option SourceExtent} (h : parseExpansion value context = .ok expansion) :
    ExpansionAt value expansion := by
  unfold parseExpansion at h
  split at h
  · cases h
    rfl
  · cases hextent : parseSourceExtent value context with
    | error e =>
      rw [hextent] at h
      exact nomatch h
    | ok extent =>
      rw [hextent] at h
      cases h
      exact parseSourceExtent_ok hextent

theorem parseSource_ok {source : SymbolSource} (h : parseSource value context = .ok source) : SourceAt value source := by
  obtain ⟨_, hkeys, h⟩ := except_bind_ok_iff.1 h
  obtain ⟨v, hv, h⟩ := except_bind_ok_iff.1 h
  obtain ⟨spelling, hspelling, h⟩ := except_bind_ok_iff.1 h
  obtain ⟨v', hv', h⟩ := except_bind_ok_iff.1 h
  obtain ⟨expansion, hexpansion, h⟩ := except_bind_ok_iff.1 h
  cases h
  exact ⟨requireKeys_ok hkeys, ⟨v, requireValue_ok hv, parseSourceExtent_ok hspelling⟩,
    ⟨v', requireValue_ok hv', parseExpansion_ok hexpansion⟩⟩

theorem parseEvidence_ok {evidence : Evidence} (h : parseEvidence value context = .ok evidence) :
    EvidenceAt value evidence := by
  obtain ⟨_, hkeys, h⟩ := except_bind_ok_iff.1 h
  obtain ⟨provider, hprovider, h⟩ := except_bind_ok_iff.1 h
  obtain ⟨reason, hreason, h⟩ := except_bind_ok_iff.1 h
  cases h
  exact ⟨requireKeys_ok hkeys, (requireString_ok hprovider).1, (requireString_ok hreason).1⟩

theorem parseIdentity_ok {identity : SymbolIdentity} (h : parseIdentity value context = .ok identity) :
    IdentityAt value identity := by
  obtain ⟨_, hkeys, h⟩ := except_bind_ok_iff.1 h
  obtain ⟨configurationId, hconfigurationId, h⟩ := except_bind_ok_iff.1 h
  obtain ⟨usr, husr, h⟩ := except_bind_ok_iff.1 h
  obtain ⟨linkageName, hlinkageName, h⟩ := except_bind_ok_iff.1 h
  obtain ⟨translationUnit, htranslationUnit, h⟩ := except_bind_ok_iff.1 h
  obtain ⟨fallbackAnchor, hfallbackAnchor, h⟩ := except_bind_ok_iff.1 h
  obtain ⟨text, htext, h⟩ := except_bind_ok_iff.1 h
  obtain ⟨quality, hquality, h⟩ := except_bind_ok_iff.1 h
  cases h
  have hqualityField := enumField_ok IdentityQuality.toText (by decide) htext hquality
  exact ⟨requireKeys_ok hkeys, hqualityField, (requireString_ok hconfigurationId).1,
    (requireString_ok husr).1, (requireString_ok hlinkageName).1, (requireString_ok htranslationUnit).1,
    (requireString_ok hfallbackAnchor).1⟩

theorem checkIdentity_ok {symbol symbol' : Symbol} (h : checkIdentity symbol context = .ok symbol') :
    symbol' = symbol ∧ makeSymbolIdentity symbol.identity.configurationId symbol.identity.usr symbol.identity.linkageName
      symbol.identity.translationUnit symbol.identity.fallbackAnchor = .ok symbol.identity ∧
      symbol.key = stableSymbolKey symbol.identity := by
  unfold checkIdentity at h
  dsimp only at h
  split at h
  · exact nomatch h
  rename_i validated hmake
  split at h
  · exact nomatch h
  rename_i hquality
  split at h
  · exact nomatch h
  rename_i hkey
  cases h
  refine ⟨rfl, ?_, (not_not.1 hkey).symm⟩
  have hsame : validated = symbol.identity := by
    have hfields := hmake
    have hquality : validated.quality = symbol.identity.quality := not_not.1 hquality
    unfold makeSymbolIdentity at hfields
    dsimp only at hfields
    split_ifs at hfields <;> cases hfields <;> dsimp only at hquality <;> rw [hquality]
  rw [hmake, hsame]

/-- What a symbol of a document has beyond the shape of its value. -/
structure Checked (symbol : Symbol) : Prop where
  key : symbol.key = stableSymbolKey symbol.identity
  identity : makeSymbolIdentity symbol.identity.configurationId symbol.identity.usr symbol.identity.linkageName
    symbol.identity.translationUnit symbol.identity.fallbackAnchor = .ok symbol.identity
  scope : symbol.scope ≠ .excluded

theorem parseSymbol_ok {symbol : Symbol} (h : parseSymbol value context = .ok symbol) :
    SymbolAt value symbol ∧ Checked symbol := by
  obtain ⟨_, hkeys, h⟩ := except_bind_ok_iff.1 h
  obtain ⟨v, hv, h⟩ := except_bind_ok_iff.1 h
  obtain ⟨identity, hidentity, h⟩ := except_bind_ok_iff.1 h
  obtain ⟨key, hkey, h⟩ := except_bind_ok_iff.1 h
  obtain ⟨name, hname, h⟩ := except_bind_ok_iff.1 h
  obtain ⟨qualifiedName, hqualifiedName, h⟩ := except_bind_ok_iff.1 h
  obtain ⟨className, hclassName, h⟩ := except_bind_ok_iff.1 h
  obtain ⟨signature, hsignature, h⟩ := except_bind_ok_iff.1 h
  obtain ⟨v', hv', h⟩ := except_bind_ok_iff.1 h
  obtain ⟨source, hsource, h⟩ := except_bind_ok_iff.1 h
  obtain ⟨kindText, hkindText, h⟩ := except_bind_ok_iff.1 h
  obtain ⟨kind, hkind, h⟩ := except_bind_ok_iff.1 h
  obtain ⟨scopeText, hscopeText, h⟩ := except_bind_ok_iff.1 h
  obtain ⟨scope, hscope, h⟩ := except_bind_ok_iff.1 h
  obtain ⟨defined, hdefined, h⟩ := except_bind_ok_iff.1 h
  obtain ⟨internalLinkage, hinternalLinkage, h⟩ := except_bind_ok_iff.1 h
  obtain ⟨isVirtual, hisVirtual, h⟩ := except_bind_ok_iff.1 h
  obtain ⟨rfl, hmake, hstable⟩ := checkIdentity_ok h
  have hkindField := enumField_ok SymbolKind.toText (by decide) hkindText hkind
  have hscopeField := enumField_ok SymbolScope.toText (by decide) hscopeText hscope
  have hincluded : scope ≠ .excluded := by
    unfold parseEnum at hscope
    split at hscope
    · rename_i item hitem
      cases hscope
      have hmap : ∀ item ∈ [("reportable", SymbolScope.reportable), ("indexed", .indexed),
          ("external_opaque", .externalOpaque)], item.2 ≠ .excluded := by decide
      exact hmap item (List.mem_of_find?_eq_some hitem)
    · exact nomatch hscope
  exact ⟨⟨requireKeys_ok hkeys, (requireString_ok hkey).1, ⟨v, requireValue_ok hv, parseIdentity_ok hidentity⟩,
    (requireString_ok hname).1, (requireString_ok hqualifiedName).1, (requireString_ok hclassName).1,
    (requireString_ok hsignature).1, hkindField, hscopeField,
    requireBool_ok hdefined, requireBool_ok hinternalLinkage, requireBool_ok hisVirtual,
    ⟨v', requireValue_ok hv', parseSource_ok hsource⟩⟩, hstable, hmake, hincluded⟩

end Objects

/-! ## Reading the symbols -/

/-- The symbols that are read are the graph, and nothing is in it yet. -/
structure SymbolsRead (configurationId : Bytes) (state : Loaded) (symbols : List Symbol) : Prop where
  graph : state.1 = { symbols, keyToId := state.2 }
  inv : state.1.Inv
  checked : ∀ symbol ∈ symbols, Checked symbol ∧ symbol.identity.configurationId = configurationId

theorem loadSymbol_ok {configurationId : Bytes} {state state' : Loaded} {done : List Symbol} {value : Value} {i : Nat}
    (hs : SymbolsRead configurationId state done) (h : loadSymbol configurationId state (value, i) = .ok state') :
    ∃ symbol, SymbolAt value symbol ∧ SymbolsRead configurationId state' (done ++ [symbol]) := by
  obtain ⟨symbol, hsymbol, h⟩ := except_bind_ok_iff.1 h
  obtain ⟨hat, hchecked⟩ := parseSymbol_ok hsymbol
  split at h
  · exact nomatch h
  rename_i hconfiguration
  split at h
  · exact nomatch h
  rename_i hnew
  obtain ⟨⟨id, graph⟩, happly, h⟩ := except_bind_ok_iff.1 h
  cases h
  have hadd : Graph.addOrMergeSymbol symbol state.1 = .ok id graph := by
    unfold applyTo at happly
    split at happly
    · rename_i a g hrun
      cases happly
      exact hrun
    · exact nomatch happly
  have hgraph := hs.graph
  have hnone : state.1.findByKey symbol.key = none := by
    rw [hgraph]
    exact Option.not_isSome_iff_eq_none.1 hnew
  have hinv := (Graph.addOrMergeSymbol_inv symbol).ok hs.inv hadd
  obtain ⟨-, -, ⟨merged, hfound, -⟩ | ⟨-, rfl, rfl⟩⟩ := Graph.addOrMergeSymbol_ok hadd
  · exact nomatch hnone.symm.trans hfound
  · refine ⟨symbol, hat, ?_, hinv, ?_⟩
    · dsimp only
      rw [hgraph]
    · rw [List.forall_mem_append, List.forall_mem_singleton]
      exact ⟨hs.checked, hchecked, not_not.1 hconfiguration⟩

theorem symbolsRead_start (configurationId : Bytes) : SymbolsRead configurationId ({}, []) [] :=
  ⟨rfl, Graph.inv_empty, List.forall_mem_nil _⟩

/-! ## Reading the facts -/

/-- The graph says what is listed, and its symbols are found by `ids`. -/
structure Says (ids : List (Bytes × SymbolId)) (g : Graph) (listing : Listing) : Prop where
  inv : g.Inv
  ids : g.keyToId = ids
  symbols : g.symbols = listing.symbols
  edges : ∀ fact, fact ∈ g.edgeFacts ↔ fact ∈ listing.edges
  roots : ∀ fact, fact ∈ g.rootFacts ↔ fact ∈ listing.roots
  escapes : ∀ fact, fact ∈ g.escapeFacts ↔ fact ∈ listing.escapes
  suppressions : ∀ fact, fact ∈ g.suppressionFacts ↔ fact ∈ listing.suppressions

section Facts
variable {ids : List (Bytes × SymbolId)} {g g' : Graph} {listing : Listing} {value : Value} {i : Nat}

theorem applyTo_ok {operation : GraphM Unit} (h : Prod.snd <$> applyTo g operation = .ok g') :
    operation g = .ok () g' := by
  unfold applyTo at h
  split at h
  · rename_i a g₁ hrun
    obtain rfl : g₁ = g' := Except.ok.inj h
    exact hrun
  · exact nomatch h

/-- A symbol that is named is found under its key. -/
theorem symbolId_ok (hs : Says ids g listing) {key context : Bytes} {id : SymbolId} (h : symbolId ids key context = .ok id) :
    g.keyOf id = key := by
  unfold symbolId at h
  split at h
  · rename_i found hfound
    cases h
    have hfind : g.findByKey key = some id := by
      rw [Graph.findByKey, hs.ids]
      exact hfound
    exact ((hs.inv.findByKey_iff key id).1 hfind).2
  · cases h

theorem requireSymbol_ok (hs : Says ids g listing) {name : String} {context : Bytes} {id : SymbolId}
    (h : requireSymbol ids value name context = .ok id) : StringField value name (g.keyOf id) := by
  obtain ⟨key, hkey, h⟩ := except_bind_ok_iff.1 h
  rw [symbolId_ok hs h]
  exact (requireString_ok hkey).1

theorem requireEvidence_ok {context : Bytes} {evidence : Evidence} (h : requireEvidence value context = .ok evidence) :
    Field value "evidence" (EvidenceAt · evidence) := by
  obtain ⟨v, hv, h⟩ := except_bind_ok_iff.1 h
  exact ⟨v, requireValue_ok hv, parseEvidence_ok h⟩

theorem mem_map_addFact {α β : Type} [DecidableEq α] {facts : List α} {fact : α} (f : α → β) {l : List β}
    (h : ∀ x, x ∈ facts.map f ↔ x ∈ l) (x : β) : x ∈ (Graph.addFact facts fact).map f ↔ x ∈ l ++ [f fact] := by
  rw [List.mem_append, ← h, List.mem_singleton, List.mem_map, List.mem_map]
  simp only [Graph.mem_addFact, or_and_right, exists_or, exists_eq_left]
  exact or_congr_right eq_comm

theorem loadEdge_ok (hs : Says ids g listing) (h : loadEdge ids g (value, i) = .ok g') :
    ∃ fact, EdgeAt value fact ∧ Says ids g' { listing with edges := listing.edges ++ [fact] } := by
  obtain ⟨_, hkeys, h⟩ := except_bind_ok_iff.1 h
  obtain ⟨«from», hfrom, h⟩ := except_bind_ok_iff.1 h
  obtain ⟨«to», hto, h⟩ := except_bind_ok_iff.1 h
  obtain ⟨text, htext, h⟩ := except_bind_ok_iff.1 h
  obtain ⟨kind, hkind, h⟩ := except_bind_ok_iff.1 h
  obtain ⟨evidence, hevidence, h⟩ := except_bind_ok_iff.1 h
  have hkindField := enumField_ok EdgeKind.toText (by decide) htext hkind
  have hadd := applyTo_ok h
  have hinv := (Graph.addEdge_inv «from» «to» kind evidence).ok hs.inv hadd
  unfold Graph.addEdge at hadd
  split at hadd
  · exact nomatch hadd
  cases hadd
  exact ⟨g.edgeFact ⟨«from», «to», kind, evidence⟩,
    ⟨requireKeys_ok hkeys, requireSymbol_ok hs hfrom, requireSymbol_ok hs hto, hkindField,
      requireEvidence_ok hevidence⟩,
    hinv, hs.ids, hs.symbols, mem_map_addFact g.edgeFact hs.edges, hs.roots, hs.escapes, hs.suppressions⟩

theorem loadRoot_ok (hs : Says ids g listing) (h : loadRoot ids g (value, i) = .ok g') :
    ∃ fact, RootAt value fact ∧ Says ids g' { listing with roots := listing.roots ++ [fact] } := by
  obtain ⟨_, hkeys, h⟩ := except_bind_ok_iff.1 h
  obtain ⟨symbol, hsymbol, h⟩ := except_bind_ok_iff.1 h
  obtain ⟨text, htext, h⟩ := except_bind_ok_iff.1 h
  obtain ⟨kind, hkind, h⟩ := except_bind_ok_iff.1 h
  obtain ⟨evidence, hevidence, h⟩ := except_bind_ok_iff.1 h
  have hkindField := enumField_ok RootKind.toText (by decide) htext hkind
  have hadd := applyTo_ok h
  have hinv := (Graph.addRoot_inv symbol kind evidence).ok hs.inv hadd
  unfold Graph.addRoot at hadd
  split at hadd
  · exact nomatch hadd
  cases hadd
  exact ⟨g.rootFact ⟨symbol, kind, evidence⟩,
    ⟨requireKeys_ok hkeys, requireSymbol_ok hs hsymbol, hkindField, requireEvidence_ok hevidence⟩,
    hinv, hs.ids, hs.symbols, hs.edges, mem_map_addFact g.rootFact hs.roots, hs.escapes, hs.suppressions⟩

theorem parseOrigin_ok (hs : Says ids g listing) {context : Bytes} {origin : Option SymbolId}
    (h : parseOrigin ids value context = .ok origin) : OriginAt value (origin.map g.keyOf) := by
  unfold parseOrigin at h
  split at h
  · cases h
    rfl
  · split at h
    · exact nomatch h
    · rename_i key _
      cases hid : symbolId ids key context with
      | error e =>
        rw [hid] at h
        exact nomatch h
      | ok id =>
        rw [hid] at h
        cases h
        exact congrArg Value.string (symbolId_ok hs hid).symm
  · exact nomatch h

theorem loadEscape_ok (hs : Says ids g listing) (h : loadEscape ids g (value, i) = .ok g') :
    ∃ fact, EscapeAt value fact ∧ Says ids g' { listing with escapes := listing.escapes ++ [fact] } := by
  obtain ⟨_, hkeys, h⟩ := except_bind_ok_iff.1 h
  obtain ⟨v, hv, h⟩ := except_bind_ok_iff.1 h
  obtain ⟨origin, horigin, h⟩ := except_bind_ok_iff.1 h
  obtain ⟨symbol, hsymbol, h⟩ := except_bind_ok_iff.1 h
  obtain ⟨text, htext, h⟩ := except_bind_ok_iff.1 h
  obtain ⟨kind, hkind, h⟩ := except_bind_ok_iff.1 h
  obtain ⟨evidence, hevidence, h⟩ := except_bind_ok_iff.1 h
  have hkindField := enumField_ok EscapeKind.toText (by decide) htext hkind
  have hadd := applyTo_ok h
  have hinv := (Graph.addEscape_inv symbol kind evidence origin).ok hs.inv hadd
  unfold Graph.addEscape at hadd
  split at hadd
  · exact nomatch hadd
  cases hadd
  exact ⟨g.escapeFact ⟨symbol, origin, kind, evidence⟩,
    ⟨requireKeys_ok hkeys, requireSymbol_ok hs hsymbol, ⟨v, requireValue_ok hv, parseOrigin_ok hs horigin⟩,
      hkindField, requireEvidence_ok hevidence⟩,
    hinv, hs.ids, hs.symbols, hs.edges, hs.roots, mem_map_addFact g.escapeFact hs.escapes, hs.suppressions⟩

theorem loadSuppression_ok (hs : Says ids g listing) (h : loadSuppression ids g (value, i) = .ok g') :
    ∃ fact, SuppressionAt value fact ∧ Says ids g' { listing with suppressions := listing.suppressions ++ [fact] } := by
  obtain ⟨_, hkeys, h⟩ := except_bind_ok_iff.1 h
  obtain ⟨symbol, hsymbol, h⟩ := except_bind_ok_iff.1 h
  obtain ⟨evidence, hevidence, h⟩ := except_bind_ok_iff.1 h
  have hadd := applyTo_ok h
  have hinv := (Graph.addSuppression_inv symbol evidence).ok hs.inv hadd
  unfold Graph.addSuppression at hadd
  split at hadd
  · exact nomatch hadd
  cases hadd
  exact ⟨g.suppressionFact ⟨symbol, evidence⟩,
    ⟨requireKeys_ok hkeys, requireSymbol_ok hs hsymbol, requireEvidence_ok hevidence⟩,
    hinv, hs.ids, hs.symbols, hs.edges, hs.roots, hs.escapes, mem_map_addFact g.suppressionFact hs.suppressions⟩

end Facts

/-! ## Reading the document -/

section Document
variable {root : Value}

theorem checkVersion_ok {name : String} {version : Nat} {u : Unit} (h : checkVersion root name version = .ok u) :
    Field root name (· = .number version) := by
  obtain ⟨n, hn, h⟩ := except_bind_ok_iff.1 h
  split at h
  · exact nomatch h
  · rename_i hversion
    rw [← not_not.1 hversion]
    exact requireSize_ok hn

theorem parseMetadata_ok {metadata : GraphArtifactMetadata} (h : parseMetadata root = .ok metadata) :
    StringField root "configuration_id" metadata.configurationId ∧ Field root "analysis_context"
      (Members · ["configuration", "target_id", "target_name", "target_kind", "closure_targets"]) := by
  obtain ⟨configurationId, hconfigurationId, h⟩ := except_bind_ok_iff.1 h
  obtain ⟨text, -, h⟩ := except_bind_ok_iff.1 h
  obtain ⟨frontend, -, h⟩ := except_bind_ok_iff.1 h
  obtain ⟨translationUnits, -, h⟩ := except_bind_ok_iff.1 h
  obtain ⟨value, hvalue, h⟩ := except_bind_ok_iff.1 h
  obtain ⟨_, hkeys, h⟩ := except_bind_ok_iff.1 h
  obtain ⟨configuration, -, h⟩ := except_bind_ok_iff.1 h
  obtain ⟨targetId, -, h⟩ := except_bind_ok_iff.1 h
  obtain ⟨targetName, -, h⟩ := except_bind_ok_iff.1 h
  obtain ⟨targetKind, -, h⟩ := except_bind_ok_iff.1 h
  obtain ⟨_, -, h⟩ := except_bind_ok_iff.1 h
  obtain ⟨items, -, h⟩ := except_bind_ok_iff.1 h
  obtain ⟨closureTargets, -, h⟩ := except_bind_ok_iff.1 h
  cases h
  exact ⟨(requireString_ok hconfigurationId).1, ⟨value, requireValue_ok hvalue, requireKeys_ok hkeys⟩⟩

theorem loadFacts_ok {configurationId : Bytes} {state : Loaded} {symbols : List Symbol} {g : Graph}
    (hs : SymbolsRead configurationId state symbols) (h : loadFacts root state = .ok g) :
    ∃ listing : Listing, listing.symbols = symbols ∧ Says state.2 g listing ∧
      ArrayField root "edges" EdgeAt listing.edges ∧ ArrayField root "roots" RootAt listing.roots ∧
      ArrayField root "escapes" EscapeAt listing.escapes ∧
      ArrayField root "suppressions" SuppressionAt listing.suppressions := by
  have hstart : Says state.2 state.1 { symbols } := by
    have hinv := hs.inv
    rw [hs.graph] at hinv ⊢
    have hempty : ∀ {α : Type} (fact : α), fact ∈ ([] : List α) ↔ fact ∈ ([] : List α) := fun _ => Iff.rfl
    exact ⟨hinv, rfl, rfl, hempty, hempty, hempty, hempty⟩
  obtain ⟨edgeItems, hedgeItems, h⟩ := except_bind_ok_iff.1 h
  obtain ⟨g₁, hedges, h⟩ := except_bind_ok_iff.1 h
  obtain ⟨rootItems, hrootItems, h⟩ := except_bind_ok_iff.1 h
  obtain ⟨g₂, hroots, h⟩ := except_bind_ok_iff.1 h
  obtain ⟨escapeItems, hescapeItems, h⟩ := except_bind_ok_iff.1 h
  obtain ⟨g₃, hescapes, h⟩ := except_bind_ok_iff.1 h
  obtain ⟨suppressionItems, hsuppressionItems, hsuppressions⟩ := except_bind_ok_iff.1 h
  have hedgeLoop := @foldlM_zipIdx_returned _ _ _ _ _ EdgeAt
    (fun g edges => Says state.2 g { symbols, edges }) (fun _ _ _ _ _ hs h => loadEdge_ok hs h) _ _ _ hstart hedges
  obtain ⟨edges, hedgesAt, hsays⟩ := hedgeLoop
  have hrootLoop := @foldlM_zipIdx_returned _ _ _ _ _ RootAt
    (fun g roots => Says state.2 g { symbols, edges, roots }) (fun _ _ _ _ _ hs h => loadRoot_ok hs h) _ _ _ hsays hroots
  obtain ⟨roots, hrootsAt, hsays⟩ := hrootLoop
  have hescapeLoop := @foldlM_zipIdx_returned _ _ _ _ _ EscapeAt
    (fun g escapes => Says state.2 g { symbols, edges, roots, escapes }) (fun _ _ _ _ _ hs h => loadEscape_ok hs h) _ _ _
    hsays hescapes
  obtain ⟨escapes, hescapesAt, hsays⟩ := hescapeLoop
  have hsuppressionLoop := @foldlM_zipIdx_returned _ _ _ _ _ SuppressionAt
    (fun g suppressions => Says state.2 g { symbols, edges, roots, escapes, suppressions })
    (fun _ _ _ _ _ hs h => loadSuppression_ok hs h) _ _ _ hsays hsuppressions
  obtain ⟨suppressions, hsuppressionsAt, hsays⟩ := hsuppressionLoop
  exact ⟨{ symbols, edges, roots, escapes, suppressions }, rfl, hsays,
    ⟨_, requireArray_ok hedgeItems, edgeItems, rfl, hedgesAt⟩, ⟨_, requireArray_ok hrootItems, rootItems, rfl, hrootsAt⟩,
    ⟨_, requireArray_ok hescapeItems, escapeItems, rfl, hescapesAt⟩,
    ⟨_, requireArray_ok hsuppressionItems, suppressionItems, rfl, hsuppressionsAt⟩⟩

/-- Facts refer to symbols that are listed. -/
theorem Says.named {ids : List (Bytes × SymbolId)} {g : Graph} {listing : Listing} (hs : Says ids g listing) {id : SymbolId}
    (hid : id < g.symbols.length) : g.keyOf id ∈ listing.keys := by
  rw [Listing.keys, ← hs.symbols]
  exact List.mem_map_of_mem (Graph.symbol_mem hid)

theorem Says.valid {configurationId : Bytes} {state : Loaded} {g : Graph} {listing : Listing}
    (hsymbols : SymbolsRead configurationId state listing.symbols) (hs : Says state.2 g listing) :
    listing.Valid configurationId := by
  have hnodup := hs.inv.keys_nodup
  rw [hs.symbols] at hnodup
  refine ⟨hnodup, fun symbol h => (hsymbols.checked symbol h).1.key, fun symbol h => (hsymbols.checked symbol h).1.identity,
    fun symbol h => (hsymbols.checked symbol h).2, fun symbol h => (hsymbols.checked symbol h).1.scope, ?_, ?_, ?_, ?_⟩
  · intro fact hfact
    obtain ⟨e, he, rfl⟩ := List.mem_map.1 ((hs.edges fact).2 hfact)
    exact ⟨hs.named (hs.inv.ids.edges e he).1, hs.named (hs.inv.ids.edges e he).2⟩
  · intro fact hfact
    obtain ⟨r, hr, rfl⟩ := List.mem_map.1 ((hs.roots fact).2 hfact)
    exact hs.named (hs.inv.ids.roots r hr)
  · intro fact hfact
    obtain ⟨e, he, rfl⟩ := List.mem_map.1 ((hs.escapes fact).2 hfact)
    refine ⟨hs.named (hs.inv.ids.escapes e he).1, fun key hkey => ?_⟩
    obtain ⟨id, hid, rfl⟩ := Option.map_eq_some_iff.1 hkey
    exact hs.named ((hs.inv.ids.escapes e he).2 id hid)
  · intro fact hfact
    obtain ⟨s, hs', rfl⟩ := List.mem_map.1 ((hs.suppressions fact).2 hfact)
    exact hs.named (hs.inv.ids.suppressions s hs')

theorem Says.describes {ids : List (Bytes × SymbolId)} {g : Graph} {listing : Listing} (hs : Says ids g listing) :
    listing.Describes g.canonicalize := by
  have hsame := Graph.canonicalize_sameFacts hs.inv
  refine ⟨Graph.canonicalize_inv hs.inv, ?_, fun fact => (hsame.edges fact).trans (hs.edges fact),
    fun fact => (hsame.roots fact).trans (hs.roots fact), fun fact => (hsame.escapes fact).trans (hs.escapes fact),
    fun fact => (hsame.suppressions fact).trans (hs.suppressions fact)⟩
  rw [← hs.symbols]
  exact Graph.canonicalize_symbols_perm g

theorem readDocument_ok {artifact : GraphArtifact} (h : readDocument root = .ok artifact) :
    ∃ listing : Listing, DocumentAt root artifact.metadata.configurationId listing ∧
      listing.Valid artifact.metadata.configurationId ∧ listing.Describes artifact.graph := by
  obtain ⟨_, hkeys, h⟩ := except_bind_ok_iff.1 h
  obtain ⟨_, hartifactVersion, h⟩ := except_bind_ok_iff.1 h
  obtain ⟨_, hidentityVersion, h⟩ := except_bind_ok_iff.1 h
  obtain ⟨metadata, hmetadata, h⟩ := except_bind_ok_iff.1 h
  obtain ⟨items, hitems, h⟩ := except_bind_ok_iff.1 h
  obtain ⟨state, hstate, h⟩ := except_bind_ok_iff.1 h
  obtain ⟨graph, hgraph, h⟩ := except_bind_ok_iff.1 h
  obtain ⟨diagnosticItems, -, h⟩ := except_bind_ok_iff.1 h
  obtain ⟨diagnostics, -, h⟩ := except_bind_ok_iff.1 h
  cases h
  obtain ⟨hconfiguration, hcontext⟩ := parseMetadata_ok hmetadata
  have hloop := @foldlM_zipIdx_returned _ _ _ _ _ SymbolAt (SymbolsRead metadata.configurationId)
    (fun _ _ _ _ _ hs h => loadSymbol_ok hs h) _ _ _ (symbolsRead_start metadata.configurationId) hstate
  obtain ⟨symbols, hsymbolsAt, hsymbols⟩ := hloop
  obtain ⟨listing, rfl, hsays, hedges, hroots, hescapes, hsuppressions⟩ := loadFacts_ok hsymbols hgraph
  exact ⟨listing, ⟨requireKeys_ok hkeys, checkVersion_ok hartifactVersion, checkVersion_ok hidentityVersion, hconfiguration,
    hcontext, ⟨_, requireArray_ok hitems, items, rfl, hsymbolsAt⟩, hedges, hroots, hescapes, hsuppressions⟩,
    hsays.valid hsymbols, hsays.describes⟩

end Document

/-- What the reader returns is the graph of a valid document of the schema. Whatever is not such a document makes it
throw. -/
theorem readGraphArtifact_accepts (fromChars : Bytes → Option ℚ) (document : Bytes) :
    (∀ artifact, readGraphArtifact fromChars document = .ok artifact → Accepted fromChars document artifact) ∧
      ((¬ ∃ artifact, Accepted fromChars document artifact) → ∃ e, readGraphArtifact fromChars document = .error e) := by
  have haccepted : ∀ artifact, readGraphArtifact fromChars document = .ok artifact →
      Accepted fromChars document artifact := by
    intro artifact h
    unfold readGraphArtifact at h
    split at h
    · exact nomatch h
    · rename_i root hparse
      obtain ⟨derivation, htext, hadmitted, rfl⟩ := document_of_parse hparse
      exact ⟨derivation, htext, hadmitted, readDocument_ok h⟩
  refine ⟨haccepted, fun hnone => ?_⟩
  cases hread : readGraphArtifact fromChars document with
  | error e => exact ⟨e, rfl⟩
  | ok artifact => exact absurd ⟨artifact, haccepted artifact hread⟩ hnone

/-- A document with a fact of each kind, for a target. -/
theorem entryGraph_accepted :
    ∃ artifact, Accepted integerFromChars (writeDocument entryGraph entryMetadata [lit "note"]) artifact := by
  have hread := readGraphArtifact_writeDocument entryGraph_built.inv (fun n _ => integerFromChars_decimal n) (by decide)
    entryGraph_identified entryGraph_exact entryMetadata_targets (by decide) [lit "note"]
  exact ⟨_, (readGraphArtifact_accepts integerFromChars _).1 _ hread⟩

end Artifact

end CxxDead
