import CxxDead.ByKey
/-!
# Findings and report paths

Merging folds "defined" and the scope of a symbol apart from each other, so a symbol
may be reportable through one record and defined through another.

- `reportsOnlyDefinitions_iff`: every listed symbol was defined in a report path,
  exactly if the symbols that come together so are all reached.
-/

namespace CxxDead

open Lib Relation

/-! ## What is listed -/

/-- The report lists the symbol among its findings or its suppressed findings. -/
def Listed (g : Graph) (id : SymbolId) : Prop :=
  (∃ f ∈ (buildReport g (analyzeReachability g)).findings, f.symbol = id) ∨
    ∃ f ∈ (buildReport g (analyzeReachability g)).suppressedFindings, f.finding.symbol = id

section Sources
variable (sources : List Graph)

/-- Some source has a record of the key with this property. -/
def Contributes (key : Bytes) (p : Symbol → Prop) : Prop := ∃ source ∈ sources, ∃ x ∈ source.symbols, x.key = key ∧ p x

/-- Every listed symbol has a record that is itself defined and reportable. -/
def ReportsOnlyDefinitions (g : Graph) : Prop :=
  ∀ id < g.symbols.length, Listed g id →
    Contributes sources (g.keyOf id) fun x => x.defined = true ∧ x.scope = .reportable

/-- A live edge of some source. -/
def SourceStep (a b : Bytes) : Prop :=
  ∃ kind evidence, (∃ source ∈ sources, (a, b, kind, evidence) ∈ source.edgeFacts) ∧ isTraversable kind = true ∧
    Contributes sources a fun x => hasIndexedBody x.scope = true

/-- A root of some source reaches the key along edges of the sources. -/
def SourceReach (key : Bytes) : Prop :=
  ∃ root kind evidence, (∃ source ∈ sources, (root, kind, evidence) ∈ source.rootFacts) ∧
    ReflTransGen (SourceStep sources) root key

/-- One record defines the symbol, another is reportable, and none is both. -/
def ComesTogether (key : Bytes) : Prop :=
  (Contributes sources key fun x => x.defined = true) ∧ (Contributes sources key fun x => x.scope = .reportable) ∧
    ¬ Contributes sources key fun x => x.defined = true ∧ x.scope = .reportable

end Sources

variable {sources : List Graph} {g : Graph}

theorem listed_iff {id : SymbolId} (hid : id < g.symbols.length) :
    Listed g id ↔ isDeadSymbol g (analyzeReachability g) id = true := by
  unfold Listed
  constructor
  · rintro (⟨f, hf, rfl⟩ | ⟨f, hf, rfl⟩)
    · obtain ⟨other, -, hdead, rfl⟩ := (mem_findings g _ f).1 hf
      rw [classify_symbol]
      exact hdead.1
    · obtain ⟨other, -, hdead, rfl⟩ := (mem_suppressedFindings g _ f).1 hf
      rw [classify_symbol]
      exact hdead.1
  · intro hdead
    cases hs : isSuppressed g id with
    | false => exact .inl ⟨_, (mem_findings g _ _).2 ⟨id, hid, ⟨hdead, hs⟩, rfl⟩, classify_symbol _ _ _⟩
    | true => exact .inr ⟨_, (mem_suppressedFindings g _ _).2 ⟨id, hid, ⟨hdead, hs⟩, rfl⟩, classify_symbol _ _ _⟩

/-! ## The merged graph, from its sources -/

theorem IsUnion.hasIndexedBody_iff (h : IsUnion sources g) {s : Symbol} (hs : s ∈ g.symbols) :
    hasIndexedBody s.scope = true ↔ Contributes sources s.key fun x => hasIndexedBody x.scope = true := by
  have hrank : ∀ scope : SymbolScope, hasIndexedBody scope = true ↔ 2 ≤ scopeRank scope := by
    intro scope
    cases scope <;> simp [hasIndexedBody, scopeRank]
  constructor
  · intro hbody
    obtain ⟨source, hsource, x, hx, hkey, hscope⟩ := h.scope_mem s hs
    exact ⟨source, hsource, x, hx, hkey, show hasIndexedBody x.scope = true by rw [hscope]; exact hbody⟩
  · rintro ⟨source, hsource, x, hx, hkey, hbody⟩
    rw [hrank] at hbody ⊢
    exact le_trans hbody (h.scope_max s hs source hsource x hx hkey)

theorem IsUnion.reportable_iff (h : IsUnion sources g) {s : Symbol} (hs : s ∈ g.symbols) :
    s.scope = .reportable ↔ Contributes sources s.key fun x => x.scope = .reportable := by
  constructor
  · intro hscope
    obtain ⟨source, hsource, x, hx, hkey, hsame⟩ := h.scope_mem s hs
    exact ⟨source, hsource, x, hx, hkey, hsame.trans hscope⟩
  · rintro ⟨source, hsource, x, hx, hkey, hscope⟩
    have hmax := h.scope_max s hs source hsource x hx hkey
    rw [hscope] at hmax
    cases hs : s.scope <;> rw [hs] at hmax <;> first | rfl | exact absurd hmax (by decide)

theorem Collected.keyStep_iff (hl : ∀ source ∈ sources, source.Inv) (h : Collected sources g) {a b : Bytes} :
    KeyStep g (fun _ => True) a b ↔ SourceStep sources a b := by
  have hunion := h.isUnion hl
  have hbody : ∀ a b kind evidence, (a, b, kind, evidence) ∈ g.edgeFacts →
      ((∃ s, g.record a = some s ∧ hasIndexedBody s.scope = true) ↔
        Contributes sources a fun x => hasIndexedBody x.scope = true) := by
    intro a b kind evidence hmem
    obtain ⟨e, he, hfact⟩ := List.mem_map.1 hmem
    obtain ⟨rfl, -⟩ := Prod.mk.inj hfact
    have hid := (h.inv.ids.edges e he).1
    have hmerged := hunion.hasIndexedBody_iff (Graph.symbol_mem hid)
    rw [h.inv.record_keyOf hid]
    constructor
    · rintro ⟨s, hs, hbody⟩
      cases hs
      exact hmerged.1 hbody
    · exact fun hbody => ⟨_, rfl, hmerged.2 hbody⟩
  unfold KeyStep SourceStep
  refine exists_congr fun kind => exists_congr fun evidence => ?_
  rw [← h.edges]
  constructor
  · rintro ⟨hmem, htrav, hs, -⟩
    exact ⟨hmem, htrav, (hbody _ _ _ _ hmem).1 hs⟩
  · rintro ⟨hmem, htrav, hs⟩
    exact ⟨hmem, htrav, (hbody _ _ _ _ hmem).2 hs, trivial⟩

theorem Collected.keyReach_iff (hl : ∀ source ∈ sources, source.Inv) (h : Collected sources g) {key : Bytes} :
    KeyReach g (fun _ => True) (fun _ => True) key ↔ SourceReach sources key := by
  have hstep : KeyStep g (fun _ => True) = SourceStep sources :=
    funext fun a => funext fun b => propext (h.keyStep_iff hl)
  unfold KeyReach SourceReach
  rw [hstep]
  simp only [true_and, h.roots]

theorem Collected.kind_eq (hl : ∀ source ∈ sources, source.Inv) (h : Collected sources g) {s : Symbol}
    (hs : s ∈ g.symbols) {source : Graph} (hsource : source ∈ sources) {x : Symbol} (hx : x ∈ source.symbols)
    (hkey : x.key = s.key) : x.kind = s.kind := by
  have hmem := (mem_contributions hl).2 ⟨source, hsource, hx, hkey⟩
  rcases h.record s.key with ⟨hnone, -⟩ | ⟨t, ht, -, hjoined⟩
  · rw [h.inv.record_iff.2 ⟨hs, rfl⟩] at hnone
    cases hnone
  · rw [h.inv.record_iff.2 ⟨hs, rfl⟩] at ht
    cases ht
    exact hjoined.kind x hmem

/-- The merge of translation units has findings for their own definitions in report paths only, exactly if each symbol
that is defined in one record and reportable in another is synthetic or reached. -/
theorem reportsOnlyDefinitions_iff (hbuilt : ∀ source ∈ sources, Built source)
    (h : mergeGraphs sources {} = .ok ⟨⟩ g) :
    ReportsOnlyDefinitions sources g ↔ ∀ key, ComesTogether sources key →
      (Contributes sources key fun x => x.kind = .synthetic) ∨ SourceReach sources key := by
  have hl : ∀ source ∈ sources, source.Inv := fun source hs => (hbuilt source hs).inv
  have hc := mergeGraphs_collected hl h
  have hunion := hc.isUnion hl
  have hdead : ∀ id < g.symbols.length, Listed g id ↔
      ((Contributes sources (g.keyOf id) fun x => x.defined = true) ∧
        Contributes sources (g.keyOf id) fun x => x.scope = .reportable) ∧
      ¬ (Contributes sources (g.keyOf id) fun x => x.kind = .synthetic) ∧ ¬ SourceReach sources (g.keyOf id) := by
    intro id hid
    have hmem := Graph.symbol_mem hid
    have hkind : (g.symbol id).kind = .synthetic ↔ Contributes sources (g.keyOf id) fun x => x.kind = .synthetic := by
      constructor
      · intro hkind
        obtain ⟨source, hsource, x, hx, hkey, -⟩ := hunion.scope_mem _ hmem
        exact ⟨source, hsource, x, hx, hkey, (hc.kind_eq hl hmem hsource hx hkey).trans hkind⟩
      · rintro ⟨source, hsource, x, hx, hkey, hkind⟩
        exact (hc.kind_eq hl hmem hsource hx hkey).symm.trans hkind
    have hreach := (flag_reachable_iff_keyReach hc.inv hid).trans (hc.keyReach_iff hl)
    have hdefined := hunion.defined_iff _ hmem
    have hreportable := hunion.reportable_iff hmem
    rw [listed_iff hid, isDeadSymbol_iff hid, ← hkind, ← hreach]
    constructor
    · intro hcandidate
      exact ⟨⟨hdefined.1 hcandidate.defined, hreportable.1 hcandidate.scope⟩, hcandidate.kind,
        by rw [hcandidate.unreachable]; simp⟩
    · rintro ⟨⟨hdef, hscope⟩, hsynthetic, hunreached⟩
      exact ⟨hid, hdefined.2 hdef, hreportable.2 hscope, by simpa using hunreached, hsynthetic⟩
  constructor
  · rintro honly key ⟨hdef, hscope, hnone⟩
    by_contra hnot
    rw [not_or] at hnot
    have hsome := hdef
    obtain ⟨source, hsource, x, hx, hkey, -⟩ := hsome
    obtain ⟨s, hs, hskey⟩ := List.mem_map.1 ((hunion.keys_iff key).2 ⟨source, hsource, List.mem_map.2 ⟨x, hx, hkey⟩⟩)
    obtain ⟨id, hid, rfl⟩ := Graph.mem_symbols_iff.1 hs
    obtain rfl : g.keyOf id = key := hskey
    exact hnone (honly id hid ((hdead id hid).2 ⟨⟨hdef, hscope⟩, hnot⟩))
  · intro hcond id hid hlisted
    obtain ⟨⟨hdef, hscope⟩, hnot⟩ := (hdead id hid).1 hlisted
    by_contra hnone
    exact (not_or.2 hnot) (hcond _ ⟨hdef, hscope, hnone⟩)

/-! ## A header in a report path, its definition outside -/

/-- A translation unit that sees the declaration of `f` in a reported header. -/
def headerUnit : Graph := endState (Graph.addOrMergeSymbol { key := lit "f", scope := .reportable }) {}

/-- A translation unit that defines `f` outside the report paths. -/
def libraryUnit : Graph := endState (Graph.addOrMergeSymbol { key := lit "f", scope := .indexed, defined := true }) {}

theorem headerUnit_built : Built headerUnit := .addOrMergeSymbol _ .empty

theorem libraryUnit_built : Built libraryUnit := .addOrMergeSymbol _ .empty

theorem headerUnit_condition : ReportsOnlyDefinitions [headerUnit, libraryUnit]
      (endState (mergeGraphs [headerUnit, libraryUnit]) {}) ↔
    ∀ key, ComesTogether [headerUnit, libraryUnit] key →
      (Contributes [headerUnit, libraryUnit] key fun x => x.kind = .synthetic) ∨
        SourceReach [headerUnit, libraryUnit] key := by
  have hbuilt : ∀ source ∈ [headerUnit, libraryUnit], Built source := by
    intro source hs
    rcases List.mem_cons.1 hs with rfl | hs
    · exact headerUnit_built
    · exact List.mem_singleton.1 hs ▸ libraryUnit_built
  exact reportsOnlyDefinitions_iff hbuilt rfl

/-- The report lists `f`, although its only definition is outside the report paths. -/
theorem headerUnit_reported : mergeGraphs [headerUnit, libraryUnit] {} =
      .ok ⟨⟩ (endState (mergeGraphs [headerUnit, libraryUnit]) {}) ∧
    Listed (endState (mergeGraphs [headerUnit, libraryUnit]) {}) 0 ∧
    ¬ ReportsOnlyDefinitions [headerUnit, libraryUnit] (endState (mergeGraphs [headerUnit, libraryUnit]) {}) := by
  have hlisted : Listed (endState (mergeGraphs [headerUnit, libraryUnit]) {}) 0 := (listed_iff (by decide)).2 (by decide)
  refine ⟨rfl, hlisted, fun h => ?_⟩
  obtain ⟨source, hsource, x, hx, -, hdefined, hscope⟩ := h 0 (by decide) hlisted
  have hnone : ∀ source ∈ [headerUnit, libraryUnit], ∀ x ∈ source.symbols, ¬ (x.defined = true ∧ x.scope = .reportable) := by
    decide
  exact hnone source hsource x hx ⟨hdefined, hscope⟩

end CxxDead
