import CxxDead.Files
import CxxDead.JsonText
import CxxDead.PolicyFacts
import CxxDead.Yaml
/-!
# Provider configurations

`loadProviderConfig` reads the YAML file of a provider.

- `loadProviderConfig_accepts`: it accepts exactly the documents that describe a
  configuration, and returns what they describe.
- `loadProviderConfig_document`: a configuration can be written exactly if its
  selectors and texts are well formed, and reading it gives it back.
- `applyProviderPolicies_attributed`: what loaded configurations add to a graph names
  a provider and a reason.
-/

namespace CxxDead

open Lib Yaml CxxDead.Graph

/-- A policy with the provider that its file names. -/
structure ProviderConfig extends ProviderPolicy where
  provider : Bytes := []

def providerConfigSchemaVersion : Int := 2

/-! ## The reader -/

namespace Provider

/-- A string of a selector, which may be absent. -/
def selectorText (node : Node) (key : String) (path : Path) (context : Bytes) : Except Exception Bytes :=
  if (node.find key).isSome then requireString node key path context else .ok []

def parseSelector (node : Node) (path : Path) (context : Bytes) : Except Exception SymbolSelector := do
  requireMapping node ["id", "linkage_name", "qualified_name", "signature"] path context
  let id ← selectorText node "id" path context
  let linkageName ← selectorText node "linkage_name" path context
  let qualifiedName ← selectorText node "qualified_name" path context
  let signature ← selectorText node "signature" path context
  let identities := (!id.isEmpty).toNat + (!linkageName.isEmpty).toNat + (!qualifiedName.isEmpty).toNat
  if identities ≠ 1 then
    .error (.runtimeError (contextAt path context ++
      lit " must set exactly one of id, linkage_name, or qualified_name"))
  else if signature ≠ [] ∧ qualifiedName = [] then
    .error (.runtimeError (contextAt path context ++ lit ".signature requires qualified_name"))
  else .ok { id, linkageName, qualifiedName, signature }

def parseEvidence (node : Node) (provider : Bytes) (path : Path) (context : Bytes) : Except Exception Evidence := do
  let reason ← requireString node "reason" path context
  pure { provider, reason }

/-- The selector under `key`. -/
def selectorAt (node : Node) (key : String) (path : Path) (context : Bytes) : Except Exception SymbolSelector := do
  let selector ← requireNode node key path context
  parseSelector selector path (context ++ lit "." ++ lit key)

def parseSequence {α : Type} (root : Node) (key : String) (path : Path)
    (parseItem : Node → Bytes → Except Exception α) : Except Exception (List α) :=
  match root.find key with
  | none => .ok []
  | some (.sequence items) => parseItems key parseItem items
  | some _ => .error (.runtimeError (contextAt path (lit key) ++ lit " must be a sequence"))

section Items
variable (provider : Bytes) (path : Path) (item : Node) (context : Bytes)

/-- An item that names a symbol and a reason. -/
def parseNamed : Except Exception (SymbolSelector × Evidence) := do
  requireMapping item ["symbol", "reason"] path context
  let symbol ← selectorAt item "symbol" path context
  let evidence ← parseEvidence item provider path context
  pure (symbol, evidence)

def parseRoot : Except Exception ProviderRootFact := do
  let (symbol, evidence) ← parseNamed provider path item context
  pure { symbol, evidence }

def parseSuppression : Except Exception ProviderSuppressionFact := do
  let (symbol, evidence) ← parseNamed provider path item context
  pure { symbol, evidence }

def parseEdge : Except Exception ProviderEdgeFact := do
  requireMapping item ["from", "to", "reason"] path context
  let «from» ← selectorAt item "from" path context
  let «to» ← selectorAt item "to" path context
  let evidence ← parseEvidence item provider path context
  pure { «from», «to», evidence }

def parseEscape : Except Exception ProviderEscapeFact := do
  requireMapping item ["symbol", "from", "reason"] path context
  let symbol ← selectorAt item "symbol" path context
  let evidence ← parseEvidence item provider path context
  match item.find "from" with
  | none => pure { symbol, «from» := none, evidence }
  | some origin => do
    let origin ← parseSelector origin path (context ++ lit ".from")
    pure { symbol, «from» := some origin, evidence }

def parseCallback (toSize : Bytes → Option UInt64) : Except Exception CallbackRegistrationRule := do
  requireMapping item ["callee", "argument_index", "reason"] path context
  let indexNode ← requireNode item "argument_index" path context
  match indexNode.convert toSize with
  | none =>
    .error (.runtimeError (contextAt path context ++ lit ".argument_index must be a non-negative integer"))
  | some argumentIndex => do
    let callee ← selectorAt item "callee" path context
    let evidence ← parseEvidence item provider path context
    pure { callee, argumentIndex, evidence, requireUnique := true }

end Items

end Provider

open Provider in
def loadProviderConfig (reader : Reader) (files : Files) (path : Path) : Except Exception ProviderConfig := do
  let root ← loadFile reader path
  requireMapping root ["schema_version", "provider", "roots", "edges", "escapes", "suppressions",
    "callback_registrations", "public_api_roots"] path (lit "document")
  let version ← schemaVersion reader root path
  if version ≠ 1 ∧ version ≠ providerConfigSchemaVersion then
    .error (.runtimeError (path.text ++ lit ": unsupported provider schema_version " ++ integerText version))
  else
    let source ← files.absoluteNormal path
    let provider ← requireString root "provider" path (lit "document")
    if version = 1 ∧ (root.find "public_api_roots").isSome then
      .error (.runtimeError (path.text ++ lit ": public_api_roots requires schema_version 2"))
    else
      let roots ← parseSequence root "roots" path (parseRoot provider path)
      let publicApiRoots ← parseSequence root "public_api_roots" path (parseRoot provider path)
      let edges ← parseSequence root "edges" path (parseEdge provider path)
      let escapes ← parseSequence root "escapes" path (parseEscape provider path)
      let suppressions ← parseSequence root "suppressions" path (parseSuppression provider path)
      let callbackRegistrations ← parseSequence root "callback_registrations" path fun item context =>
        parseCallback provider path item context reader.toSize
      pure { source, provider, roots, publicApiRoots, edges, escapes, suppressions, callbackRegistrations }

/-! ## Documents -/

/-- A string that is absent or not empty. -/
def OptionalText (node : Node) (key : String) (value : Bytes) : Prop :=
  (node.find key = none ∧ value = []) ∨ RequiredText node key value

/-- Exactly one of the identities is there, and a signature only with a qualified name. -/
structure SymbolSelector.Valid (selector : SymbolSelector) : Prop where
  one : (!selector.id.isEmpty).toNat + (!selector.linkageName.isEmpty).toNat +
    (!selector.qualifiedName.isEmpty).toNat = 1
  signature : selector.signature ≠ [] → selector.qualifiedName ≠ []

structure SelectorAt (node : Node) (selector : SymbolSelector) : Prop where
  mapping : IsMapping ["id", "linkage_name", "qualified_name", "signature"] node
  id : OptionalText node "id" selector.id
  linkageName : OptionalText node "linkage_name" selector.linkageName
  qualifiedName : OptionalText node "qualified_name" selector.qualifiedName
  signature : OptionalText node "signature" selector.signature
  valid : selector.Valid

/-- The node has a selector under the key. -/
def HasSelector (node : Node) (key : String) (selector : SymbolSelector) : Prop :=
  ∃ field, node.find key = some field ∧ SelectorAt field selector

/-- The node gives a reason, and the provider is the file's. -/
structure EvidenceOf (provider : Bytes) (node : Node) (evidence : Evidence) : Prop where
  reason : RequiredText node "reason" evidence.reason
  provider : evidence.provider = provider

structure NamedAt (provider : Bytes) (item : Node) (symbol : SymbolSelector) (evidence : Evidence) : Prop where
  mapping : IsMapping ["symbol", "reason"] item
  symbol : HasSelector item "symbol" symbol
  evidence : EvidenceOf provider item evidence

structure EdgeItem (provider : Bytes) (item : Node) (fact : ProviderEdgeFact) : Prop where
  mapping : IsMapping ["from", "to", "reason"] item
  «from» : HasSelector item "from" fact.from
  «to» : HasSelector item "to" fact.to
  evidence : EvidenceOf provider item fact.evidence

structure EscapeItem (provider : Bytes) (item : Node) (fact : ProviderEscapeFact) : Prop where
  mapping : IsMapping ["symbol", "from", "reason"] item
  symbol : HasSelector item "symbol" fact.symbol
  «from» : (item.find "from" = none ∧ fact.from = none) ∨ ∃ origin, fact.from = some origin ∧ HasSelector item "from" origin
  evidence : EvidenceOf provider item fact.evidence

structure CallbackItem (reader : Reader) (provider : Bytes) (item : Node) (rule : CallbackRegistrationRule) : Prop where
  mapping : IsMapping ["callee", "argument_index", "reason"] item
  callee : HasSelector item "callee" rule.callee
  argumentIndex : ∃ field, item.find "argument_index" = some field ∧ field.convert reader.toSize = some rule.argumentIndex
  evidence : EvidenceOf provider item rule.evidence
  requireUnique : rule.requireUnique = true

/-- A sequence that may be absent, item by item. -/
def ItemsAt {α : Type} (root : Node) (key : String) (P : Node → α → Prop) (l : List α) : Prop :=
  (root.find key = none ∧ l = []) ∨ ∃ items, root.find key = some (.sequence items) ∧ List.Forall₂ P items l

/-- The document describes the configuration. -/
structure ConfigAt (reader : Reader) (root : Node) (config : ProviderConfig) : Prop where
  mapping : IsMapping ["schema_version", "provider", "roots", "edges", "escapes", "suppressions",
    "callback_registrations", "public_api_roots"] root
  version : ∃ node version, root.find "schema_version" = some node ∧ node.convert reader.toInt = some version ∧
    (version = 2 ∨ (version = 1 ∧ root.find "public_api_roots" = none))
  provider : RequiredText root "provider" config.provider
  roots : ItemsAt root "roots" (fun item fact => NamedAt config.provider item fact.symbol fact.evidence) config.roots
  publicApiRoots : ItemsAt root "public_api_roots"
    (fun item fact => NamedAt config.provider item fact.symbol fact.evidence) config.publicApiRoots
  edges : ItemsAt root "edges" (EdgeItem config.provider) config.edges
  escapes : ItemsAt root "escapes" (EscapeItem config.provider) config.escapes
  suppressions : ItemsAt root "suppressions"
    (fun item fact => NamedAt config.provider item fact.symbol fact.evidence) config.suppressions
  callbackRegistrations : ItemsAt root "callback_registrations" (CallbackItem reader config.provider)
    config.callbackRegistrations

/-! ## What the reader accepts -/

namespace Provider

section Accepted
variable {node item root : Node} {key : String} {path : Path} {context provider : Bytes}

theorem selectorText_ok_iff {value : Bytes} :
    selectorText node key path context = .ok value ↔ OptionalText node key value := by
  unfold selectorText OptionalText
  cases hfind : node.find key with
  | none =>
    have hno : ¬ RequiredText node key value := fun h => by
      rw [RequiredText, hfind] at h
      cases h.1
    simp only [Option.isSome_none, Bool.false_eq_true, if_false, Except.ok.injEq, true_and, hno, or_false]
    exact eq_comm
  | some field =>
    simp only [Option.isSome_some, if_true, requireString_ok_iff, reduceCtorEq, false_and, false_or]

theorem parseSelector_ok_iff {selector : SymbolSelector} :
    parseSelector node path context = .ok selector ↔ SelectorAt node selector := by
  unfold parseSelector
  simp only [except_bind_ok_iff, requireMapping_ok_iff, selectorText_ok_iff, exists_const]
  constructor
  · rintro ⟨hmapping, id, hid, linkageName, hlinkage, qualifiedName, hqualified, signature, hsignature, h⟩
    split at h
    · cases h
    · rename_i hone
      split at h
      · cases h
      · rename_i hneeded
        cases h
        exact ⟨hmapping, hid, hlinkage, hqualified, hsignature, not_not.1 hone, fun hs hq => hneeded ⟨hs, hq⟩⟩
  · rintro ⟨hmapping, hid, hlinkage, hqualified, hsignature, hone, hneeded⟩
    refine ⟨hmapping, _, hid, _, hlinkage, _, hqualified, _, hsignature, ?_⟩
    rw [if_neg (not_not.2 hone), if_neg fun h => hneeded h.1 h.2]

theorem selectorAt_ok_iff {selector : SymbolSelector} :
    selectorAt node key path context = .ok selector ↔ HasSelector node key selector := by
  unfold selectorAt HasSelector
  simp only [except_bind_ok_iff, requireNode_ok_iff, parseSelector_ok_iff]

theorem parseEvidence_ok_iff {evidence : Evidence} :
    parseEvidence node provider path context = .ok evidence ↔ EvidenceOf provider node evidence := by
  unfold parseEvidence
  simp only [except_bind_ok_iff, requireString_ok_iff, pure, Except.pure, Except.ok.injEq]
  constructor
  · rintro ⟨reason, hreason, rfl⟩
    exact ⟨hreason, rfl⟩
  · rintro ⟨hreason, rfl⟩
    exact ⟨_, hreason, rfl⟩

theorem parseNamed_ok_iff {symbol : SymbolSelector} {evidence : Evidence} :
    parseNamed provider path item context = .ok (symbol, evidence) ↔ NamedAt provider item symbol evidence := by
  unfold parseNamed
  simp only [except_bind_ok_iff, requireMapping_ok_iff, selectorAt_ok_iff, parseEvidence_ok_iff, exists_const, pure,
    Except.pure, Except.ok.injEq, Prod.mk.injEq]
  constructor
  · rintro ⟨hmapping, _, hsymbol, _, hevidence, rfl, rfl⟩
    exact ⟨hmapping, hsymbol, hevidence⟩
  · rintro ⟨hmapping, hsymbol, hevidence⟩
    exact ⟨hmapping, _, hsymbol, _, hevidence, rfl, rfl⟩

theorem parseRoot_ok_iff {fact : ProviderRootFact} :
    parseRoot provider path item context = .ok fact ↔ NamedAt provider item fact.symbol fact.evidence := by
  unfold parseRoot
  simp only [except_bind_ok_iff, Prod.exists, parseNamed_ok_iff, pure, Except.pure, Except.ok.injEq]
  constructor
  · rintro ⟨symbol, evidence, hnamed, rfl⟩
    exact hnamed
  · exact fun h => ⟨_, _, h, rfl⟩

theorem parseSuppression_ok_iff {fact : ProviderSuppressionFact} :
    parseSuppression provider path item context = .ok fact ↔ NamedAt provider item fact.symbol fact.evidence := by
  unfold parseSuppression
  simp only [except_bind_ok_iff, Prod.exists, parseNamed_ok_iff, pure, Except.pure, Except.ok.injEq]
  constructor
  · rintro ⟨symbol, evidence, hnamed, rfl⟩
    exact hnamed
  · exact fun h => ⟨_, _, h, rfl⟩

theorem parseEdge_ok_iff {fact : ProviderEdgeFact} :
    parseEdge provider path item context = .ok fact ↔ EdgeItem provider item fact := by
  unfold parseEdge
  simp only [except_bind_ok_iff, requireMapping_ok_iff, selectorAt_ok_iff, parseEvidence_ok_iff, exists_const, pure,
    Except.pure, Except.ok.injEq]
  constructor
  · rintro ⟨hmapping, origin, hfrom, target, hto, evidence, hevidence, rfl⟩
    exact ⟨hmapping, hfrom, hto, hevidence⟩
  · rintro ⟨hmapping, hfrom, hto, hevidence⟩
    exact ⟨hmapping, _, hfrom, _, hto, _, hevidence, rfl⟩

theorem parseEscape_ok_iff {fact : ProviderEscapeFact} :
    parseEscape provider path item context = .ok fact ↔ EscapeItem provider item fact := by
  unfold parseEscape
  simp only [except_bind_ok_iff, requireMapping_ok_iff, selectorAt_ok_iff, parseEvidence_ok_iff, exists_const]
  cases hfind : item.find "from" with
  | none =>
    simp only [pure, Except.pure, Except.ok.injEq]
    constructor
    · rintro ⟨hmapping, symbol, hsymbol, evidence, hevidence, rfl⟩
      exact ⟨hmapping, hsymbol, .inl ⟨hfind, rfl⟩, hevidence⟩
    · rintro ⟨hmapping, hsymbol, ⟨-, hnone⟩ | ⟨origin, -, field, hfield, -⟩, hevidence⟩
      · refine ⟨hmapping, _, hsymbol, _, hevidence, ?_⟩
        cases fact
        simp_all
      · rw [hfind] at hfield
        cases hfield
  | some field =>
    simp only [except_bind_ok_iff, parseSelector_ok_iff, pure, Except.pure, Except.ok.injEq]
    constructor
    · rintro ⟨hmapping, symbol, hsymbol, evidence, hevidence, origin, horigin, rfl⟩
      exact ⟨hmapping, hsymbol, .inr ⟨origin, rfl, field, hfind, horigin⟩, hevidence⟩
    · rintro ⟨hmapping, hsymbol, ⟨hnone, -⟩ | ⟨origin, horigin, other, hother, hat⟩, hevidence⟩
      · rw [hfind] at hnone
        cases hnone
      · rw [hfind] at hother
        cases hother
        refine ⟨hmapping, _, hsymbol, _, hevidence, origin, hat, ?_⟩
        cases fact
        simp_all

theorem parseCallback_ok_iff {reader : Reader} {rule : CallbackRegistrationRule} :
    parseCallback provider path item context reader.toSize = .ok rule ↔ CallbackItem reader provider item rule := by
  unfold parseCallback
  simp only [except_bind_ok_iff, requireMapping_ok_iff, requireNode_ok_iff, exists_const]
  constructor
  · rintro ⟨hmapping, field, hfield, h⟩
    cases hconvert : field.convert reader.toSize with
    | none =>
      rw [hconvert] at h
      cases h
    | some argumentIndex =>
      rw [hconvert] at h
      simp only [except_bind_ok_iff, selectorAt_ok_iff, parseEvidence_ok_iff, pure, Except.pure, Except.ok.injEq] at h
      obtain ⟨callee, hcallee, evidence, hevidence, rfl⟩ := h
      exact ⟨hmapping, hcallee, ⟨field, hfield, hconvert⟩, hevidence, rfl⟩
  · rintro ⟨hmapping, hcallee, ⟨field, hfield, hconvert⟩, hevidence, hunique⟩
    refine ⟨hmapping, field, hfield, ?_⟩
    rw [hconvert]
    simp only [except_bind_ok_iff, selectorAt_ok_iff, parseEvidence_ok_iff, pure, Except.pure, Except.ok.injEq]
    refine ⟨_, hcallee, _, hevidence, ?_⟩
    rw [← hunique]

theorem parseSequence_ok_iff {α : Type} {parseItem : Node → Bytes → Except Exception α} {P : Node → α → Prop}
    (hitem : ∀ node context a, parseItem node context = .ok a ↔ P node a) {l : List α} :
    parseSequence root key path parseItem = .ok l ↔ ItemsAt root key P l := by
  unfold parseSequence ItemsAt
  cases hfind : root.find key with
  | none => simp [eq_comm]
  | some field =>
    cases field with
    | sequence items => simp [parseItems_ok_iff hitem]
    | null | scalar | mapping => simp

theorem parseRoots_ok_iff {l : List ProviderRootFact} : parseSequence root key path (parseRoot provider path) = .ok l ↔
    ItemsAt root key (fun item fact => NamedAt provider item fact.symbol fact.evidence) l :=
  parseSequence_ok_iff (by exact fun _ _ _ => parseRoot_ok_iff)

theorem parseEdges_ok_iff {l : List ProviderEdgeFact} :
    parseSequence root key path (parseEdge provider path) = .ok l ↔ ItemsAt root key (EdgeItem provider) l :=
  parseSequence_ok_iff (by exact fun _ _ _ => parseEdge_ok_iff)

theorem parseEscapes_ok_iff {l : List ProviderEscapeFact} :
    parseSequence root key path (parseEscape provider path) = .ok l ↔ ItemsAt root key (EscapeItem provider) l :=
  parseSequence_ok_iff (by exact fun _ _ _ => parseEscape_ok_iff)

theorem parseSuppressions_ok_iff {l : List ProviderSuppressionFact} :
    parseSequence root key path (parseSuppression provider path) = .ok l ↔
      ItemsAt root key (fun item fact => NamedAt provider item fact.symbol fact.evidence) l :=
  parseSequence_ok_iff (by exact fun _ _ _ => parseSuppression_ok_iff)

theorem parseCallbacks_ok_iff {reader : Reader} {l : List CallbackRegistrationRule} :
    (parseSequence root key path fun item context => parseCallback provider path item context reader.toSize) = .ok l ↔
      ItemsAt root key (CallbackItem reader provider) l :=
  parseSequence_ok_iff (by exact fun _ _ _ => parseCallback_ok_iff)

end Accepted

end Provider

open Provider in
theorem loadProviderConfig_ok_iff (reader : Reader) (files : Files) (path : Path) (config : ProviderConfig) :
    loadProviderConfig reader files path = .ok config ↔
      ∃ root, reader.loadFile path.text = .ok root ∧ ConfigAt reader root config ∧
        files.absoluteNormal path = .ok config.source := by
  unfold loadProviderConfig
  simp only [except_bind_ok_iff, loadFile_ok_iff, requireMapping_ok_iff, exists_const, schemaVersion_ok_iff]
  refine exists_congr fun root => and_congr_right fun _ => ?_
  constructor
  · rintro ⟨hmapping, version, ⟨field, hfield, hversion⟩, h⟩
    split at h
    · cases h
    rename_i hsupported
    simp only [except_bind_ok_iff, requireString_ok_iff] at h
    obtain ⟨source, hsource, provider, hprovider, h⟩ := h
    split at h
    · cases h
    rename_i hpublic
    simp only [except_bind_ok_iff, parseRoots_ok_iff, parseEdges_ok_iff, parseEscapes_ok_iff, parseSuppressions_ok_iff,
      parseCallbacks_ok_iff, pure, Except.pure, Except.ok.injEq] at h
    obtain ⟨roots, hroots, publicApiRoots, hapi, edges, hedges, escapes, hescapes, suppressions, hsuppressions,
      callbacks, hcallbacks, rfl⟩ := h
    refine ⟨⟨hmapping, ⟨field, version, hfield, hversion, ?_⟩, hprovider, hroots, hapi, hedges, hescapes,
      hsuppressions, hcallbacks⟩, hsource⟩
    have hnone : version = 1 → root.find "public_api_roots" = none := fun hone => by
      simpa using not_and.1 hpublic hone
    rcases not_and_or.1 hsupported with hone | htwo
    · exact .inr ⟨not_not.1 hone, hnone (not_not.1 hone)⟩
    · exact .inl (not_not.1 htwo)
  · rintro ⟨⟨hmapping, ⟨field, version, hfield, hversion, hsupported⟩, hprovider, hroots, hapi, hedges, hescapes,
      hsuppressions, hcallbacks⟩, hsource⟩
    refine ⟨hmapping, version, ⟨field, hfield, hversion⟩, ?_⟩
    rw [if_neg (by rcases hsupported with rfl | ⟨rfl, -⟩ <;> simp [providerConfigSchemaVersion])]
    simp only [except_bind_ok_iff, requireString_ok_iff]
    refine ⟨_, hsource, _, hprovider, ?_⟩
    rw [if_neg (by rcases hsupported with rfl | ⟨rfl, hnone⟩ <;> simp_all)]
    simp only [except_bind_ok_iff, parseRoots_ok_iff, parseEdges_ok_iff, parseEscapes_ok_iff, parseSuppressions_ok_iff,
      parseCallbacks_ok_iff, pure, Except.pure, Except.ok.injEq]
    exact ⟨_, hroots, _, hapi, _, hedges, _, hescapes, _, hsuppressions, _, hcallbacks, rfl⟩

/-! ## Valid configurations -/

/-- The evidence names the provider and a reason. -/
def EvidenceBy (provider : Bytes) (evidence : Evidence) : Prop := evidence.provider = provider ∧ evidence.reason ≠ []

/-- What every configuration that is read satisfies. -/
structure ProviderConfig.Valid (config : ProviderConfig) : Prop where
  provider : config.provider ≠ []
  roots : ∀ fact ∈ config.roots, fact.symbol.Valid ∧ EvidenceBy config.provider fact.evidence
  publicApiRoots : ∀ fact ∈ config.publicApiRoots, fact.symbol.Valid ∧ EvidenceBy config.provider fact.evidence
  edges : ∀ fact ∈ config.edges, fact.from.Valid ∧ fact.to.Valid ∧ EvidenceBy config.provider fact.evidence
  escapes : ∀ fact ∈ config.escapes, fact.symbol.Valid ∧ (∀ origin ∈ fact.from, origin.Valid) ∧
    EvidenceBy config.provider fact.evidence
  suppressions : ∀ fact ∈ config.suppressions, fact.symbol.Valid ∧ EvidenceBy config.provider fact.evidence
  callbackRegistrations : ∀ rule ∈ config.callbackRegistrations, rule.callee.Valid ∧
    EvidenceBy config.provider rule.evidence ∧ rule.requireUnique = true

theorem forall₂_right {α β : Type} {P : α → β → Prop} {l : List α} {l' : List β} (h : List.Forall₂ P l l') :
    ∀ b ∈ l', ∃ a, P a b := by
  induction h with
  | nil => exact List.forall_mem_nil _
  | cons hitem _ ih => exact List.forall_mem_cons.2 ⟨⟨_, hitem⟩, ih⟩

theorem ItemsAt.forall_mem {α : Type} {root : Node} {key : String} {P : Node → α → Prop} {l : List α}
    (h : ItemsAt root key P l) : ∀ a ∈ l, ∃ item, P item a := by
  rcases h with ⟨-, rfl⟩ | ⟨items, -, hall⟩
  · exact List.forall_mem_nil _
  · exact forall₂_right hall

theorem HasSelector.valid {node : Node} {key : String} {selector : SymbolSelector} (h : HasSelector node key selector) :
    selector.Valid := by
  obtain ⟨field, -, hat⟩ := h
  exact hat.valid

theorem EvidenceOf.by_provider {provider : Bytes} {node : Node} {evidence : Evidence}
    (h : EvidenceOf provider node evidence) : EvidenceBy provider evidence := ⟨h.provider, h.reason.2⟩

theorem ConfigAt.valid {reader : Reader} {root : Node} {config : ProviderConfig} (h : ConfigAt reader root config) :
    config.Valid := by
  refine ⟨h.provider.2, fun fact hfact => ?_, fun fact hfact => ?_, fun fact hfact => ?_, fun fact hfact => ?_,
    fun fact hfact => ?_, fun rule hrule => ?_⟩
  · obtain ⟨item, hitem⟩ := h.roots.forall_mem fact hfact
    exact ⟨hitem.symbol.valid, hitem.evidence.by_provider⟩
  · obtain ⟨item, hitem⟩ := h.publicApiRoots.forall_mem fact hfact
    exact ⟨hitem.symbol.valid, hitem.evidence.by_provider⟩
  · obtain ⟨item, hitem⟩ := h.edges.forall_mem fact hfact
    exact ⟨hitem.from.valid, hitem.to.valid, hitem.evidence.by_provider⟩
  · obtain ⟨item, hitem⟩ := h.escapes.forall_mem fact hfact
    refine ⟨hitem.symbol.valid, fun origin horigin => ?_, hitem.evidence.by_provider⟩
    rcases hitem.from with ⟨-, hnone⟩ | ⟨other, hother, hat⟩
    · rw [hnone] at horigin
      cases horigin
    · rw [hother] at horigin
      cases horigin
      exact hat.valid
  · obtain ⟨item, hitem⟩ := h.suppressions.forall_mem fact hfact
    exact ⟨hitem.symbol.valid, hitem.evidence.by_provider⟩
  · obtain ⟨item, hitem⟩ := h.callbackRegistrations.forall_mem rule hrule
    exact ⟨hitem.callee.valid, hitem.evidence.by_provider, hitem.requireUnique⟩

/-- Exactly the documents that describe a configuration are read, and as what they describe;
what is read is valid. -/
theorem loadProviderConfig_accepts (reader : Reader) (files : Files) (path : Path) (config : ProviderConfig) :
    (loadProviderConfig reader files path = .ok config ↔
      ∃ root, reader.loadFile path.text = .ok root ∧ ConfigAt reader root config ∧
        files.absoluteNormal path = .ok config.source) ∧
    (loadProviderConfig reader files path = .ok config → config.Valid) := by
  refine ⟨loadProviderConfig_ok_iff reader files path config, fun h => ?_⟩
  obtain ⟨root, -, hat, -⟩ := (loadProviderConfig_ok_iff reader files path config).1 h
  exact hat.valid

/-! ## Writing a configuration -/

def optionalField (key : String) (text : Bytes) : List (String × Node) :=
  if text = [] then [] else [(key, .scalar text)]

def selectorNode (selector : SymbolSelector) : Node :=
  fieldsNode (optionalField "id" selector.id ++ optionalField "linkage_name" selector.linkageName ++
    optionalField "qualified_name" selector.qualifiedName ++ optionalField "signature" selector.signature)

def namedNode (symbol : SymbolSelector) (evidence : Evidence) : Node :=
  fieldsNode [("symbol", selectorNode symbol), ("reason", .scalar evidence.reason)]

def edgeNode (fact : ProviderEdgeFact) : Node :=
  fieldsNode [("from", selectorNode fact.from), ("to", selectorNode fact.to), ("reason", .scalar fact.evidence.reason)]

def escapeNode (fact : ProviderEscapeFact) : Node :=
  fieldsNode (("symbol", selectorNode fact.symbol) :: (fact.from.toList.map fun origin => ("from", selectorNode origin)) ++
    [("reason", .scalar fact.evidence.reason)])

def callbackNode (rule : CallbackRegistrationRule) : Node :=
  fieldsNode [("callee", selectorNode rule.callee), ("argument_index", .scalar (decimal rule.argumentIndex.toNat)),
    ("reason", .scalar rule.evidence.reason)]

/-- The file of a configuration. -/
def configDocument (config : ProviderConfig) : Node :=
  fieldsNode [("schema_version", .scalar (lit "2")), ("provider", .scalar config.provider),
    ("roots", .sequence (config.roots.map fun fact => namedNode fact.symbol fact.evidence)),
    ("edges", .sequence (config.edges.map edgeNode)), ("escapes", .sequence (config.escapes.map escapeNode)),
    ("suppressions", .sequence (config.suppressions.map fun fact => namedNode fact.symbol fact.evidence)),
    ("callback_registrations", .sequence (config.callbackRegistrations.map callbackNode)),
    ("public_api_roots", .sequence (config.publicApiRoots.map fun fact => namedNode fact.symbol fact.evidence))]

/-! ### Reading what was written -/

theorem optionalField_find (name : String) (text : Bytes) (key : String) :
    (fieldsNode (optionalField name text)).find key =
      if lit name = lit key ∧ text ≠ [] then some (.scalar text) else none := by
  unfold optionalField
  by_cases h : text = []
  · simp [h, fieldsNode_find_nil]
  · simp [h, fieldsNode_find_cons, fieldsNode_find_nil]

theorem optionalField_sublist (name : String) (text : Bytes) : ((optionalField name text).map (·.1)).Sublist [name] := by
  unfold optionalField
  split
  · exact List.nil_sublist _
  · exact List.Sublist.refl _

theorem optionalText_iff {node : Node} {key : String} {text : Bytes}
    (h : node.find key = if text ≠ [] then some (.scalar text) else none) : OptionalText node key text := by
  by_cases hempty : text = []
  · exact .inl ⟨by rw [h, if_neg (not_not.2 hempty)], hempty⟩
  · exact .inr ⟨by rw [h, if_pos hempty], hempty⟩

theorem selectorAt_node {selector : SymbolSelector} (h : selector.Valid) : SelectorAt (selectorNode selector) selector := by
  refine ⟨isMapping_fields (by decide) ?_, optionalText_iff ?_, optionalText_iff ?_, optionalText_iff ?_,
    optionalText_iff ?_, h⟩
  · simp only [List.map_append]
    exact (((optionalField_sublist _ _).append (optionalField_sublist _ _)).append (optionalField_sublist _ _)).append
      (optionalField_sublist _ _)
  all_goals
    simp +decide only [selectorNode, fieldsNode_find_append, optionalField_find, false_and, true_and, if_false,
      Option.none_or, Option.or_none]

theorem namedAt_node {provider : Bytes} {symbol : SymbolSelector} {evidence : Evidence} (h : symbol.Valid)
    (he : EvidenceBy provider evidence) : NamedAt provider (namedNode symbol evidence) symbol evidence := by
  refine ⟨isMapping_fields (by decide) (List.Sublist.refl _), ⟨_, ?_, selectorAt_node h⟩, ⟨⟨?_, he.2⟩, he.1⟩⟩
  · rw [namedNode, fieldsNode_find_cons, if_pos rfl]
  · rw [namedNode, fieldsNode_find_cons, if_neg (by decide), fieldsNode_find_cons, if_pos rfl]

theorem edgeItem_node {provider : Bytes} {fact : ProviderEdgeFact} (hfrom : fact.from.Valid) (hto : fact.to.Valid)
    (he : EvidenceBy provider fact.evidence) : EdgeItem provider (edgeNode fact) fact := by
  refine ⟨isMapping_fields (by decide) (List.Sublist.refl _), ⟨_, ?_, selectorAt_node hfrom⟩,
    ⟨_, ?_, selectorAt_node hto⟩, ⟨⟨?_, he.2⟩, he.1⟩⟩
  · rw [edgeNode, fieldsNode_find_cons, if_pos rfl]
  · rw [edgeNode, fieldsNode_find_cons, if_neg (by decide), fieldsNode_find_cons, if_pos rfl]
  · rw [edgeNode, fieldsNode_find_cons, if_neg (by decide), fieldsNode_find_cons, if_neg (by decide),
      fieldsNode_find_cons, if_pos rfl]

theorem escapeItem_node {provider : Bytes} {fact : ProviderEscapeFact} (hsymbol : fact.symbol.Valid)
    (hfrom : ∀ origin ∈ fact.from, origin.Valid) (he : EvidenceBy provider fact.evidence) :
    EscapeItem provider (escapeNode fact) fact := by
  have hsub : ((fact.from.toList.map fun origin => ("from", selectorNode origin)).map (·.1)).Sublist ["from"] := by
    cases fact.from with
    | none => exact List.nil_sublist _
    | some origin => exact List.Sublist.refl _
  refine ⟨isMapping_fields (by decide) ?_, ⟨_, ?_, selectorAt_node hsymbol⟩, ?_, ⟨⟨?_, he.2⟩, he.1⟩⟩
  · rw [List.map_append, List.map_cons]
    exact (hsub.cons_cons "symbol").append (List.Sublist.refl _)
  · rw [escapeNode, List.cons_append, fieldsNode_find_cons, if_pos rfl]
  · cases hfact : fact.from with
    | none =>
      left
      rw [escapeNode, hfact]
      simp +decide only [Option.toList_none, List.map_nil, List.cons_append, List.nil_append, fieldsNode_find_cons,
        if_false, fieldsNode_find_nil, and_self]
    | some origin =>
      refine .inr ⟨origin, rfl, _, ?_, selectorAt_node (hfrom origin hfact)⟩
      rw [escapeNode, hfact]
      simp +decide only [Option.toList_some, List.map_cons, List.map_nil, List.cons_append, fieldsNode_find_cons,
        if_false, if_true]
  · rw [escapeNode]
    cases fact.from with
    | none => simp +decide only [Option.toList_none, List.map_nil, List.cons_append, List.nil_append,
        fieldsNode_find_cons, if_false, if_true]
    | some origin => simp +decide only [Option.toList_some, List.map_cons, List.map_nil, List.cons_append,
        List.nil_append, fieldsNode_find_cons, if_false, if_true]

theorem callbackItem_node {reader : Reader} {provider : Bytes} {rule : CallbackRegistrationRule}
    (hsize : ∀ n : UInt64, reader.toSize (decimal n.toNat) = some n) (hcallee : rule.callee.Valid)
    (he : EvidenceBy provider rule.evidence) (hunique : rule.requireUnique = true) :
    CallbackItem reader provider (callbackNode rule) rule := by
  refine ⟨isMapping_fields (by decide) (List.Sublist.refl _), ⟨_, ?_, selectorAt_node hcallee⟩,
    ⟨.scalar (decimal rule.argumentIndex.toNat), ?_, hsize rule.argumentIndex⟩, ⟨⟨?_, he.2⟩, he.1⟩, hunique⟩
  · rw [callbackNode, fieldsNode_find_cons, if_pos rfl]
  · rw [callbackNode, fieldsNode_find_cons, if_neg (by decide), fieldsNode_find_cons, if_pos rfl]
  · rw [callbackNode, fieldsNode_find_cons, if_neg (by decide), fieldsNode_find_cons, if_neg (by decide),
      fieldsNode_find_cons, if_pos rfl]

theorem itemsAt_sequence {α : Type} {root : Node} {key : String} {P : Node → α → Prop} {write : α → Node} {l : List α}
    (hfind : root.find key = some (.sequence (l.map write))) (h : ∀ a ∈ l, P (write a) a) : ItemsAt root key P l :=
  .inr ⟨_, hfind, List.forall₂_map_left_iff.2 (List.forall₂_same.2 h)⟩

theorem configAt_document {reader : Reader} {config : ProviderConfig} (hint : reader.toInt (lit "2") = some 2)
    (hsize : ∀ n : UInt64, reader.toSize (decimal n.toNat) = some n) (h : config.Valid) :
    ConfigAt reader (configDocument config) config := by
  constructor
  case mapping => exact isMapping_fields (by decide) (List.Sublist.refl _)
  case version =>
    refine ⟨.scalar (lit "2"), 2, ?_, hint, .inl rfl⟩
    rw [configDocument, fieldsNode_find_cons, if_pos rfl]
  case provider =>
    refine ⟨?_, h.provider⟩
    rw [configDocument, fieldsNode_find_cons, if_neg (by decide), fieldsNode_find_cons, if_pos rfl]
  case roots =>
    refine itemsAt_sequence ?_ fun fact hfact => namedAt_node (h.roots fact hfact).1 (h.roots fact hfact).2
    simp +decide only [configDocument, fieldsNode_find_cons, if_true, if_false]
  case publicApiRoots =>
    refine itemsAt_sequence ?_ fun fact hfact =>
      namedAt_node (h.publicApiRoots fact hfact).1 (h.publicApiRoots fact hfact).2
    simp +decide only [configDocument, fieldsNode_find_cons, if_true, if_false]
  case edges =>
    refine @itemsAt_sequence _ _ _ _ edgeNode _ ?_ fun fact hfact => ?_
    · simp +decide only [configDocument, fieldsNode_find_cons, if_true, if_false]
    · obtain ⟨hfrom, hto, he⟩ := h.edges fact hfact
      exact edgeItem_node hfrom hto he
  case escapes =>
    refine @itemsAt_sequence _ _ _ _ escapeNode _ ?_ fun fact hfact => ?_
    · simp +decide only [configDocument, fieldsNode_find_cons, if_true, if_false]
    · obtain ⟨hsymbol, hfrom, he⟩ := h.escapes fact hfact
      exact escapeItem_node hsymbol hfrom he
  case suppressions =>
    refine itemsAt_sequence ?_ fun fact hfact =>
      namedAt_node (h.suppressions fact hfact).1 (h.suppressions fact hfact).2
    simp +decide only [configDocument, fieldsNode_find_cons, if_true, if_false]
  case callbackRegistrations =>
    refine @itemsAt_sequence _ _ _ _ callbackNode _ ?_ fun rule hrule => ?_
    · simp +decide only [configDocument, fieldsNode_find_cons, if_true, if_false]
    · obtain ⟨hcallee, he, hunique⟩ := h.callbackRegistrations rule hrule
      exact callbackItem_node hsize hcallee he hunique

/-- The valid configurations are those that can be written: reading their file gives them back. -/
theorem loadProviderConfig_document (reader : Reader) (files : Files) (path : Path) (config : ProviderConfig)
    (hint : reader.toInt (lit "2") = some 2) (hsize : ∀ n : UInt64, reader.toSize (decimal n.toNat) = some n)
    (hsource : files.absoluteNormal path = .ok config.source) :
    (config.Valid ↔ ∃ document, loadProviderConfig { reader with loadFile := fun _ => .ok document } files path =
      .ok config) ∧
    (config.Valid ↔ loadProviderConfig { reader with loadFile := fun _ => .ok (configDocument config) } files path =
      .ok config) := by
  have hwritten : config.Valid → loadProviderConfig { reader with loadFile := fun _ => .ok (configDocument config) }
      files path = .ok config := fun h =>
    (loadProviderConfig_ok_iff _ files path config).2
      ⟨_, rfl, @configAt_document { reader with loadFile := fun _ => .ok (configDocument config) } config hint hsize h, hsource⟩
  have hread : ∀ document, loadProviderConfig { reader with loadFile := fun _ => .ok document } files path = .ok config →
      config.Valid := fun document h => by
    obtain ⟨root, -, hat, -⟩ := (loadProviderConfig_ok_iff _ files path config).1 h
    exact hat.valid
  refine ⟨⟨fun h => ⟨_, hwritten h⟩, ?_⟩, hwritten, hread _⟩
  rintro ⟨document, h⟩
  exact hread document h

/-- Conversions for texts without a sign or a leading zero. -/
def decimalReader : Reader where
  loadFile _ := .error []
  toInt text := some (text.foldl (fun n c => 10 * n + (c.toNat - 48)) 0 : Nat)
  toSize text :=
    let n := text.foldl (fun n c => 10 * n + (c.toNat - 48)) 0
    if n < 2 ^ 64 then some n.toUInt64 else none

theorem decimalReader_toSize (n : UInt64) : decimalReader.toSize (decimal n.toNat) = some n := by
  simp only [decimalReader, decimal_value, if_pos n.toNat_lt, Nat.toUInt64_eq, UInt64.ofNat_toNat]

/-- Files below a root directory, of which none can be opened. -/
def bareFiles : Files where
  currentPath := .ok ⟨lit "/"⟩
  contents _ := none
  isDirectory _ := .ok false
  entries _ := .ok ⟨[], List.nodup_nil⟩

def pluginPath : Path := ⟨lit "/p/plugin.yaml"⟩

/-- A plugin is loaded by name and calls back. -/
def pluginConfig : ProviderConfig where
  source := pluginPath
  provider := lit "plugin"
  roots := [⟨{ id := lit "a" }, ⟨lit "plugin", lit "loaded by name"⟩⟩]
  escapes := [⟨{ id := lit "b" }, some { id := lit "a" }, ⟨lit "plugin", lit "handed out"⟩⟩]

theorem pluginConfig_valid : pluginConfig.Valid := by
  constructor <;> simp +decide [pluginConfig, EvidenceBy]
  · exact ⟨by decide, by decide⟩
  · exact ⟨⟨by decide, by decide⟩, by decide, by decide⟩

theorem pluginConfig_document :
    loadProviderConfig { decimalReader with loadFile := fun _ => .ok (configDocument pluginConfig) } bareFiles pluginPath =
      .ok pluginConfig :=
  (loadProviderConfig_document decimalReader bareFiles pluginPath pluginConfig (by decide) decimalReader_toSize
    (by decide)).2.1 pluginConfig_valid

/-! ## What loaded configurations add -/

/-- A configuration's provider stands behind the evidence, and gives a reason. -/
def Attributed (configs : List ProviderConfig) (evidence : Evidence) : Prop :=
  ∃ config ∈ configs, EvidenceBy config.provider evidence

/-- Facts by key stay, and those that are new come from the configurations. -/
structure AddsAttributed (configs : List ProviderConfig) (g g' : Graph) : Prop where
  record : ∀ key, g'.record key = g.record key
  keptRoots : ∀ x ∈ g.rootFacts, x ∈ g'.rootFacts
  keptEdges : ∀ x ∈ g.edgeFacts, x ∈ g'.edgeFacts
  keptEscapes : ∀ x ∈ g.escapeFacts, x ∈ g'.escapeFacts
  keptSuppressions : ∀ x ∈ g.suppressionFacts, x ∈ g'.suppressionFacts
  roots : ∀ x ∈ g'.rootFacts, x ∈ g.rootFacts ∨ ((x.2.1 = .provider ∨ x.2.1 = .publicApi) ∧ Attributed configs x.2.2)
  edges : ∀ x ∈ g'.edgeFacts, x ∈ g.edgeFacts ∨ (x.2.2.1 = .provider ∧ Attributed configs x.2.2.2)
  escapes : ∀ x ∈ g'.escapeFacts, x ∈ g.escapeFacts ∨ (x.2.2.1 = .provider ∧ Attributed configs x.2.2.2)
  suppressions : ∀ x ∈ g'.suppressionFacts, x ∈ g.suppressionFacts ∨ Attributed configs x.2

/-- A fact of a provider's kind, with evidence of one of the configurations. -/
def Fact.Attributed (configs : List ProviderConfig) : Fact → Prop
  | .root r => (r.kind = .provider ∨ r.kind = .publicApi) ∧ CxxDead.Attributed configs r.evidence
  | .edge e => e.kind = .provider ∧ CxxDead.Attributed configs e.evidence
  | .escape e => e.kind = .provider ∧ CxxDead.Attributed configs e.evidence
  | .suppression s => CxxDead.Attributed configs s.evidence

section Attributed
variable {g g' : Graph} {configs : List ProviderConfig}

theorem names_attributed (hvalid : ∀ config ∈ configs, config.Valid) {policy : ProviderPolicy}
    (hpolicy : policy ∈ configs.map (·.toProviderPolicy)) {fact : Fact} (h : Names g policy fact) :
    fact.Attributed configs := by
  obtain ⟨config, hconfig, rfl⟩ := List.mem_map.1 hpolicy
  have hvalid := hvalid config hconfig
  cases h with
  | root hfact _ => exact ⟨.inl rfl, config, hconfig, (hvalid.roots _ hfact).2⟩
  | publicApiRoot hfact _ => exact ⟨.inr rfl, config, hconfig, (hvalid.publicApiRoots _ hfact).2⟩
  | edge hfact _ _ => exact ⟨rfl, config, hconfig, (hvalid.edges _ hfact).2.2⟩
  | escape hfact _ _ => exact ⟨rfl, config, hconfig, (hvalid.escapes _ hfact).2.2⟩
  | suppression hfact _ => exact ⟨config, hconfig, (hvalid.suppressions _ hfact).2⟩

/-- Every fact that loaded configurations add to a graph is of a provider's kind, and names
the provider of one of the files and a reason; the symbols and earlier facts stay. -/
theorem applyProviderPolicies_attributed {reader : Reader} {files : Files} {paths : List Path}
    (hload : List.Forall₂ (fun path config => loadProviderConfig reader files path = .ok config) paths configs)
    (hne : configs ≠ []) (hg : Built g)
    (h : applyProviderPolicies (configs.map (·.toProviderPolicy)) g = .ok ⟨⟩ g') : AddsAttributed configs g g' := by
  have hvalid : ∀ config ∈ configs, config.Valid := fun config hconfig => by
    obtain ⟨path, hpath⟩ := forall₂_right hload config hconfig
    obtain ⟨root, -, hat, -⟩ := (loadProviderConfig_ok_iff _ _ _ _).1 hpath
    exact hat.valid
  obtain ⟨g₁, rfl, hinv, hsymbols, hfacts⟩ := applyProviderPolicies_ok (by simpa using hne) hg.inv h
  -- the policies end with a canonical form, which keeps every fact by its key
  have hsame := canonicalize_sameFacts hinv
  have hsymbol : g₁.symbol = g.symbol := by
    unfold Graph.symbol
    rw [hsymbols.1]
  have hkey : g₁.keyOf = g.keyOf := by
    unfold keyOf
    rw [hsymbol]
  have hnew : ∀ fact, g₁.Has fact → g.Has fact ∨ fact.Attributed configs := fun fact hfact => by
    rcases (hfacts fact).1 hfact with hold | ⟨policy, hpolicy, hnames⟩
    · exact .inl hold
    · exact .inr (names_attributed hvalid hpolicy hnames)
  have hold : ∀ fact, g.Has fact → g₁.Has fact := fun fact hfact => (hfacts fact).2 (.inl hfact)
  refine ⟨fun key => ?_, fun x hx => ?_, fun x hx => ?_, fun x hx => ?_, fun x hx => ?_,
    fun x hx => ?_, fun x hx => ?_, fun x hx => ?_, fun x hx => ?_⟩
  · rw [hsame.record]
    unfold record findByKey
    rw [hsymbol, hsymbols.2]
  -- earlier facts are still there
  · obtain ⟨r, hr, rfl⟩ := List.mem_map.1 hx
    rw [rootFact, ← hkey]
    exact (hsame.roots _).2 (List.mem_map.2 ⟨r, hold (.root r) hr, rfl⟩)
  · obtain ⟨e, he, rfl⟩ := List.mem_map.1 hx
    rw [edgeFact, ← hkey]
    exact (hsame.edges _).2 (List.mem_map.2 ⟨e, hold (.edge e) he, rfl⟩)
  · obtain ⟨e, he, rfl⟩ := List.mem_map.1 hx
    rw [escapeFact, ← hkey]
    exact (hsame.escapes _).2 (List.mem_map.2 ⟨e, hold (.escape e) he, rfl⟩)
  · obtain ⟨s, hs, rfl⟩ := List.mem_map.1 hx
    rw [suppressionFact, ← hkey]
    exact (hsame.suppressions _).2 (List.mem_map.2 ⟨s, hold (.suppression s) hs, rfl⟩)
  -- and what is new is attributed
  · obtain ⟨r, hr, rfl⟩ := List.mem_map.1 ((hsame.roots x).1 hx)
    rw [rootFact, hkey]
    exact (hnew (.root r) hr).imp_left fun hold => List.mem_map.2 ⟨r, hold, rfl⟩
  · obtain ⟨e, he, rfl⟩ := List.mem_map.1 ((hsame.edges x).1 hx)
    rw [edgeFact, hkey]
    exact (hnew (.edge e) he).imp_left fun hold => List.mem_map.2 ⟨e, hold, rfl⟩
  · obtain ⟨e, he, rfl⟩ := List.mem_map.1 ((hsame.escapes x).1 hx)
    rw [escapeFact, hkey]
    exact (hnew (.escape e) he).imp_left fun hold => List.mem_map.2 ⟨e, hold, rfl⟩
  · obtain ⟨s, hs, rfl⟩ := List.mem_map.1 ((hsame.suppressions x).1 hx)
    rw [suppressionFact, hkey]
    exact (hnew (.suppression s) hs).imp_left fun hold => List.mem_map.2 ⟨s, hold, rfl⟩

end Attributed

/-- The plugin's file, applied to the graph of two symbols. -/
theorem pluginConfig_attributed : AddsAttributed [pluginConfig] Graph.unsorted
    (endState (applyProviderPolicies [pluginConfig.toProviderPolicy]) Graph.unsorted) := by
  have hbuilt : Built Graph.unsorted := .addEdge _ _ _ _ (.addOrMergeSymbol _ (.addOrMergeSymbol _ .empty))
  have hload : loadProviderConfig { decimalReader with loadFile := fun _ => .ok (configDocument pluginConfig) }
      bareFiles pluginPath = .ok pluginConfig :=
    (loadProviderConfig_ok_iff _ _ _ _).2 ⟨_, rfl, @configAt_document
      { decimalReader with loadFile := fun _ => .ok (configDocument pluginConfig) } _ (by decide) decimalReader_toSize
      pluginConfig_valid, by decide⟩
  exact @applyProviderPolicies_attributed _ _ _ _ _ [pluginPath] (.cons hload .nil) (List.cons_ne_nil _ _) hbuilt rfl

end CxxDead
