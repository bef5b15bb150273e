import CxxDead.Accounting
import CxxDead.MergeOrder
/-!
# The analysis by key

`analyzeReachability` and `buildReport` depend on the facts by key and on the
merged fields only, so they say the same about a key in whatever order the
translation units were merged.

- `flag_iff_keyReach`: the marks of a symbol in terms of its key.
- `mergeGraphs_order`: merging the same graphs in another order.
-/

namespace CxxDead

open Lib Relation

/-! ## Reachability of a key -/

/-- A live edge between keys, of a kind that `ok` admits. -/
def KeyStep (g : Graph) (ok : EdgeKind → Prop) (a b : Bytes) : Prop :=
  ∃ kind evidence, (a, b, kind, evidence) ∈ g.edgeFacts ∧ isTraversable kind = true ∧
    (∃ s, g.record a = some s ∧ hasIndexedBody s.scope = true) ∧ ok kind

/-- A root that `okRoot` admits reaches the key. -/
def KeyReach (g : Graph) (okRoot : RootKind → Prop) (ok : EdgeKind → Prop) (key : Bytes) : Prop :=
  ∃ root kind evidence, (root, kind, evidence) ∈ g.rootFacts ∧ okRoot kind ∧ ReflTransGen (KeyStep g ok) root key

variable {g g' : Graph}

theorem Graph.Inv.record_keyOf (hg : g.Inv) {id : SymbolId} (hid : id < g.symbols.length) :
    g.record (g.keyOf id) = some (g.symbol id) :=
  hg.record_iff.2 ⟨Graph.symbol_mem hid, rfl⟩

theorem keyStep_iff (hg : g.Inv) {ok : EdgeKind → Prop} {a : SymbolId} (ha : a < g.symbols.length) {key : Bytes} :
    KeyStep g ok (g.keyOf a) key ↔
      ∃ b, (∃ e ∈ g.edges, ((isTraversable e.kind = true ∧ hasIndexedBody (g.symbol e.from).scope = true) ∧
        ok e.kind) ∧ e.from = a ∧ e.to = b) ∧ g.keyOf b = key := by
  constructor
  · rintro ⟨kind, evidence, hmem, htrav, ⟨s, hs, hbody⟩, hok⟩
    obtain ⟨e, he, hfact⟩ := List.mem_map.1 hmem
    simp only [Graph.edgeFact, Prod.mk.injEq] at hfact
    obtain ⟨hfrom, rfl, rfl, rfl⟩ := hfact
    obtain rfl : e.from = a := hg.key_inj (hg.ids.edges e he).1 ha hfrom
    rw [hg.record_keyOf ha] at hs
    cases hs
    exact ⟨e.to, ⟨e, he, ⟨⟨htrav, hbody⟩, hok⟩, rfl, rfl⟩, rfl⟩
  · rintro ⟨_, ⟨e, he, ⟨⟨htrav, hbody⟩, hok⟩, rfl, rfl⟩, rfl⟩
    exact ⟨e.kind, e.evidence, List.mem_map.2 ⟨e, he, rfl⟩, htrav, ⟨_, hg.record_keyOf ha, hbody⟩, hok⟩

/-- Paths between ids are paths between their keys. -/
theorem keyPath_iff (hg : g.Inv) {ok : EdgeKind → Prop} {a b : SymbolId} (ha : a < g.symbols.length)
    (hb : b < g.symbols.length) :
    ReflTransGen (KeyStep g ok) (g.keyOf a) (g.keyOf b) ↔
      ∃ p, g.IsPath a p b ∧ ∀ e ∈ p,
        (isTraversable e.kind = true ∧ hasIndexedBody (g.symbol e.from).scope = true) ∧ ok e.kind := by
  rw [Graph.exists_path_iff]
  constructor
  · intro h
    suffices hkey : ∀ key, ReflTransGen (KeyStep g ok) (g.keyOf a) key →
        ∃ c, c < g.symbols.length ∧ g.keyOf c = key ∧
          ReflTransGen (fun a b => ∃ e ∈ g.edges, ((isTraversable e.kind = true ∧
            hasIndexedBody (g.symbol e.from).scope = true) ∧ ok e.kind) ∧ e.from = a ∧ e.to = b) a c by
      obtain ⟨c, hc, hkeyc, hpath⟩ := hkey _ h
      rwa [hg.key_inj hc hb hkeyc] at hpath
    intro key hpath
    induction hpath with
    | refl => exact ⟨a, ha, rfl, .refl⟩
    | tail _ hstep ih =>
      obtain ⟨c, hc, rfl, hac⟩ := ih
      obtain ⟨d, ⟨e, he, hok, rfl, rfl⟩, rfl⟩ := (keyStep_iff hg hc).1 hstep
      exact ⟨e.to, (hg.ids.edges e he).2, rfl, hac.tail ⟨e, he, hok, rfl, rfl⟩⟩
  · intro h
    induction h with
    | refl => exact .refl
    | tail _ hstep ih =>
      obtain ⟨e, he, hok, rfl, rfl⟩ := hstep
      have hfrom := (hg.ids.edges e he).1
      exact (ih hfrom).tail ((keyStep_iff hg hfrom).2 ⟨e.to, ⟨e, he, hok, rfl, rfl⟩, rfl⟩)

theorem keyReach_iff (hg : g.Inv) {okRoot : RootKind → Prop} {ok : EdgeKind → Prop} {id : SymbolId}
    (hid : id < g.symbols.length) :
    KeyReach g okRoot ok (g.keyOf id) ↔ ∃ r ∈ g.roots, okRoot r.kind ∧ ∃ p, g.IsPath r.symbol p id ∧ ∀ e ∈ p,
      (isTraversable e.kind = true ∧ hasIndexedBody (g.symbol e.from).scope = true) ∧ ok e.kind := by
  constructor
  · rintro ⟨_, _, _, hmem, hok, hpath⟩
    obtain ⟨r, hr, hfact⟩ := List.mem_map.1 hmem
    cases hfact
    exact ⟨r, hr, hok, (keyPath_iff hg (hg.ids.roots r hr) hid).1 hpath⟩
  · rintro ⟨r, hr, hok, hpath⟩
    exact ⟨_, _, _, List.mem_map.2 ⟨r, hr, rfl⟩, hok, (keyPath_iff hg (hg.ids.roots r hr) hid).2 hpath⟩

theorem flag_reachable_iff_keyReach (hg : g.Inv) {id : SymbolId} (hid : id < g.symbols.length) :
    flag (analyzeReachability g).reachable id = true ↔
      KeyReach g (fun _ => True) (fun _ => True) (g.keyOf id) := by
  rw [Graph.flag_reachable hg.ids, keyReach_iff hg hid]
  simp only [true_and, and_true]

theorem flag_structurallyReachable_iff_keyReach (hg : g.Inv) {id : SymbolId} (hid : id < g.symbols.length) :
    flag (analyzeReachability g).structurallyReachable id = true ↔
      KeyReach g (fun kind => kind.isProvider = false) (fun kind => kind.isProvider = false) (g.keyOf id) := by
  rw [Graph.flag_structurallyReachable hg.ids, keyReach_iff hg hid]

/-! ## Findings of a key -/

theorem mem_findings (g : Graph) (result : ReachabilityResult) (finding : Finding) :
    finding ∈ (buildReport g result).findings ↔
      ∃ id < g.symbols.length, (isDeadSymbol g result id = true ∧ isSuppressed g id = false) ∧
        classify g id (g.symbol id) = finding := by
  have hperm : (buildReport g result).findings.Perm (tallied g result).report.findings := sortWith_perm _ _
  rw [hperm.mem_iff, tallied_findings]
  simp [and_assoc]

theorem mem_suppressedFindings (g : Graph) (result : ReachabilityResult) (item : SuppressedFinding) :
    item ∈ (buildReport g result).suppressedFindings ↔
      ∃ id < g.symbols.length, (isDeadSymbol g result id = true ∧ isSuppressed g id = true) ∧
        ⟨classify g id (g.symbol id), suppressionsOf g id⟩ = item := by
  have hperm : (buildReport g result).suppressedFindings.Perm (tallied g result).report.suppressedFindings :=
    sortWith_perm _ _
  rw [hperm.mem_iff, tallied_suppressedFindings]
  simp [and_assoc]

theorem classify_classification (g : Graph) (id : SymbolId) (symbol : Symbol) :
    (classify g id symbol).classification =
      if ∃ e ∈ g.escapes, e.symbol = id then .dynamicallyReferenced
      else if symbol.isVirtual then .possiblyDead
      else if symbol.internalLinkage then .dead
      else .likelyDead := by
  have hescapes : (g.escapes.filter fun e => e.symbol == id) ≠ [] ↔ ∃ e ∈ g.escapes, e.symbol = id := by
    simp [List.filter_eq_nil_iff]
  unfold classify
  simp only [hescapes]
  split
  · rfl
  · split
    · rfl
    · split <;> rfl

/-! ## Graphs that say the same about every key -/

structure AgreeByKey (g g' : Graph) : Prop where
  record : ∀ key, (g.record key = none ∧ g'.record key = none) ∨
    ∃ s s', g.record key = some s ∧ g'.record key = some s' ∧ SameFields s s'
  edges : ∀ x, x ∈ g.edgeFacts ↔ x ∈ g'.edgeFacts
  roots : ∀ x, x ∈ g.rootFacts ↔ x ∈ g'.rootFacts
  escapes : ∀ x, x ∈ g.escapeFacts ↔ x ∈ g'.escapeFacts
  suppressions : ∀ x, x ∈ g.suppressionFacts ↔ x ∈ g'.suppressionFacts

theorem AgreeByKey.keyReach (h : AgreeByKey g g') {okRoot : RootKind → Prop} {ok : EdgeKind → Prop} {key : Bytes} :
    KeyReach g okRoot ok key ↔ KeyReach g' okRoot ok key := by
  have hstep : KeyStep g ok = KeyStep g' ok := by
    funext a b
    have hbody : (∃ s, g.record a = some s ∧ hasIndexedBody s.scope = true) ↔
        ∃ s, g'.record a = some s ∧ hasIndexedBody s.scope = true := by
      rcases h.record a with ⟨hnone, hnone'⟩ | ⟨s, s', hs, hs', hsame⟩
      · rw [hnone, hnone']
      · rw [hs, hs']
        simp only [Option.some.injEq, exists_eq_left', hsame.scope]
    simp only [KeyStep, h.edges, hbody]
  simp only [KeyReach, h.roots, hstep]

/-- What the analysis says about a key. -/
structure SameAnalysis (g g' : Graph) : Prop where
  reachable : ∀ id < g.symbols.length, ∀ id' < g'.symbols.length, g.keyOf id = g'.keyOf id' →
    flag (analyzeReachability g).reachable id = flag (analyzeReachability g').reachable id'
  structurallyReachable : ∀ id < g.symbols.length, ∀ id' < g'.symbols.length, g.keyOf id = g'.keyOf id' →
    flag (analyzeReachability g).structurallyReachable id = flag (analyzeReachability g').structurallyReachable id'
  providerReachable : ∀ id < g.symbols.length, ∀ id' < g'.symbols.length, g.keyOf id = g'.keyOf id' →
    flag (analyzeReachability g).providerReachable id = flag (analyzeReachability g').providerReachable id'
  findings : ∀ id < g.symbols.length, ∀ id' < g'.symbols.length, g.keyOf id = g'.keyOf id' → ∀ c,
    (∃ f ∈ (buildReport g (analyzeReachability g)).findings, f.symbol = id ∧ f.classification = c) ↔
      ∃ f ∈ (buildReport g' (analyzeReachability g')).findings, f.symbol = id' ∧ f.classification = c
  suppressedFindings : ∀ id < g.symbols.length, ∀ id' < g'.symbols.length, g.keyOf id = g'.keyOf id' → ∀ c,
    (∃ f ∈ (buildReport g (analyzeReachability g)).suppressedFindings,
      f.finding.symbol = id ∧ f.finding.classification = c) ↔
      ∃ f ∈ (buildReport g' (analyzeReachability g')).suppressedFindings,
        f.finding.symbol = id' ∧ f.finding.classification = c

section Agree
variable (hg : g.Inv) (hg' : g'.Inv) (h : AgreeByKey g g') {id id' : SymbolId} (hid : id < g.symbols.length)
  (hid' : id' < g'.symbols.length) (hkey : g.keyOf id = g'.keyOf id')
include hg hg' h hid hid' hkey

theorem AgreeByKey.symbol : SameFields (g.symbol id) (g'.symbol id') := by
  rcases h.record (g.keyOf id) with ⟨hnone, -⟩ | ⟨s, s', hs, hs', hsame⟩
  · rw [hg.record_keyOf hid] at hnone
    cases hnone
  · rw [hg.record_keyOf hid] at hs
    rw [hkey, hg'.record_keyOf hid'] at hs'
    cases hs
    cases hs'
    exact hsame

theorem AgreeByKey.flag_reachable :
    flag (analyzeReachability g).reachable id = flag (analyzeReachability g').reachable id' := by
  rw [Bool.eq_iff_iff, flag_reachable_iff_keyReach hg hid, flag_reachable_iff_keyReach hg' hid', hkey, h.keyReach]

theorem AgreeByKey.flag_structurallyReachable :
    flag (analyzeReachability g).structurallyReachable id =
      flag (analyzeReachability g').structurallyReachable id' := by
  rw [Bool.eq_iff_iff, flag_structurallyReachable_iff_keyReach hg hid,
    flag_structurallyReachable_iff_keyReach hg' hid', hkey, h.keyReach]

theorem AgreeByKey.flag_providerReachable :
    flag (analyzeReachability g).providerReachable id = flag (analyzeReachability g').providerReachable id' := by
  rw [Bool.eq_iff_iff, Graph.flag_providerReachable, Graph.flag_providerReachable,
    h.flag_reachable hg hg' hid hid' hkey, h.flag_structurallyReachable hg hg' hid hid' hkey]

theorem AgreeByKey.isDeadSymbol :
    isDeadSymbol g (analyzeReachability g) id = CxxDead.isDeadSymbol g' (analyzeReachability g') id' := by
  have hsame := h.symbol hg hg' hid hid' hkey
  simp only [CxxDead.isDeadSymbol, isReported, h.flag_reachable hg hg' hid hid' hkey, hsame.defined, hsame.scope,
    hsame.kind]

theorem AgreeByKey.isSuppressed : isSuppressed g id = CxxDead.isSuppressed g' id' := by
  have hex : ∀ {g : Graph} (_ : g.Inv) {id : SymbolId} (_ : id < g.symbols.length),
      (∃ s ∈ g.suppressions, s.symbol = id) ↔ ∃ x ∈ g.suppressionFacts, x.1 = g.keyOf id := fun {g} hg {id} hid => by
    simp only [Graph.suppressionFacts, List.mem_map, exists_exists_and_eq_and, Graph.suppressionFact]
    exact exists_congr fun s => and_congr_right fun hs => (hg.keyOf_inj (hg.ids.suppressions s hs) hid).symm
  rw [Bool.eq_iff_iff, isSuppressed_iff, isSuppressed_iff, hex hg hid, hex hg' hid', hkey]
  simp only [h.suppressions]

theorem AgreeByKey.classification :
    (classify g id (g.symbol id)).classification = (classify g' id' (g'.symbol id')).classification := by
  have hex : ∀ {g : Graph} (_ : g.Inv) {id : SymbolId} (_ : id < g.symbols.length),
      (∃ e ∈ g.escapes, e.symbol = id) ↔ ∃ x ∈ g.escapeFacts, x.1 = g.keyOf id := fun {g} hg {id} hid => by
    simp only [Graph.escapeFacts, List.mem_map, exists_exists_and_eq_and, Graph.escapeFact]
    exact exists_congr fun e => and_congr_right fun he => (hg.keyOf_inj (hg.ids.escapes e he).1 hid).symm
  have hsame := h.symbol hg hg' hid hid' hkey
  have hescape : (∃ e ∈ g.escapes, e.symbol = id) ↔ ∃ e ∈ g'.escapes, e.symbol = id' := by
    rw [hex hg hid, hex hg' hid', hkey]
    simp only [h.escapes]
  rw [classify_classification, classify_classification, hsame.isVirtual, hsame.internalLinkage]
  simp only [hescape]

end Agree

/-- A symbol's finding, if it has one. -/
theorem finding_at_iff (g : Graph) (result : ReachabilityResult) {id : SymbolId} (hid : id < g.symbols.length)
    (c : Classification) :
    (∃ f ∈ (buildReport g result).findings, f.symbol = id ∧ f.classification = c) ↔
      (isDeadSymbol g result id = true ∧ isSuppressed g id = false) ∧
        (classify g id (g.symbol id)).classification = c := by
  constructor
  · rintro ⟨f, hf, hsymbol, hc⟩
    obtain ⟨other, -, hdead, rfl⟩ := (mem_findings g result f).1 hf
    rw [classify_symbol] at hsymbol
    exact ⟨hsymbol ▸ hdead, hsymbol ▸ hc⟩
  · rintro ⟨hdead, hc⟩
    exact ⟨_, (mem_findings g result _).2 ⟨id, hid, hdead, rfl⟩, classify_symbol _ _ _, hc⟩

theorem suppressedFinding_at_iff (g : Graph) (result : ReachabilityResult) {id : SymbolId}
    (hid : id < g.symbols.length) (c : Classification) :
    (∃ f ∈ (buildReport g result).suppressedFindings, f.finding.symbol = id ∧ f.finding.classification = c) ↔
      (isDeadSymbol g result id = true ∧ isSuppressed g id = true) ∧
        (classify g id (g.symbol id)).classification = c := by
  constructor
  · rintro ⟨f, hf, hsymbol, hc⟩
    obtain ⟨other, -, hdead, rfl⟩ := (mem_suppressedFindings g result f).1 hf
    rw [classify_symbol] at hsymbol
    exact ⟨hsymbol ▸ hdead, hsymbol ▸ hc⟩
  · rintro ⟨hdead, hc⟩
    exact ⟨_, (mem_suppressedFindings g result _).2 ⟨id, hid, hdead, rfl⟩, classify_symbol _ _ _, hc⟩

theorem AgreeByKey.sameAnalysis (hg : g.Inv) (hg' : g'.Inv) (h : AgreeByKey g g') : SameAnalysis g g' := by
  refine ⟨fun _ hid _ hid' hkey => h.flag_reachable hg hg' hid hid' hkey,
    fun _ hid _ hid' hkey => h.flag_structurallyReachable hg hg' hid hid' hkey,
    fun _ hid _ hid' hkey => h.flag_providerReachable hg hg' hid hid' hkey,
    fun id hid id' hid' hkey c => ?_, fun id hid id' hid' hkey c => ?_⟩
  · rw [finding_at_iff _ _ hid, finding_at_iff _ _ hid', h.isDeadSymbol hg hg' hid hid' hkey,
      h.isSuppressed hg hg' hid hid' hkey, h.classification hg hg' hid hid' hkey]
  · rw [suppressedFinding_at_iff _ _ hid, suppressedFinding_at_iff _ _ hid', h.isDeadSymbol hg hg' hid hid' hkey,
      h.isSuppressed hg hg' hid hid' hkey, h.classification hg hg' hid hid' hkey]

/-! ## Merging in another order -/

/-- `g` holds the union of what `sources` hold: nothing is lost, nothing is there twice. -/
structure IsUnion (sources : List Graph) (g : Graph) : Prop where
  keys_nodup : (g.symbols.map (·.key)).Nodup
  keys_iff : ∀ key, key ∈ g.symbols.map (·.key) ↔ ∃ source ∈ sources, key ∈ source.symbols.map (·.key)
  defined_iff : ∀ s ∈ g.symbols,
    s.defined = true ↔ ∃ source ∈ sources, ∃ x ∈ source.symbols, x.key = s.key ∧ x.defined = true
  isVirtual_iff : ∀ s ∈ g.symbols,
    s.isVirtual = true ↔ ∃ source ∈ sources, ∃ x ∈ source.symbols, x.key = s.key ∧ x.isVirtual = true
  scope_mem : ∀ s ∈ g.symbols, ∃ source ∈ sources, ∃ x ∈ source.symbols, x.key = s.key ∧ x.scope = s.scope
  scope_max : ∀ s ∈ g.symbols, ∀ source ∈ sources, ∀ x ∈ source.symbols, x.key = s.key →
    scopeRank x.scope ≤ scopeRank s.scope
  edges_nodup : g.edgeFacts.Nodup
  edges_iff : ∀ x, x ∈ g.edgeFacts ↔ ∃ source ∈ sources, x ∈ source.edgeFacts
  roots_nodup : g.rootFacts.Nodup
  roots_iff : ∀ x, x ∈ g.rootFacts ↔ ∃ source ∈ sources, x ∈ source.rootFacts
  escapes_nodup : g.escapeFacts.Nodup
  escapes_iff : ∀ x, x ∈ g.escapeFacts ↔ ∃ source ∈ sources, x ∈ source.escapeFacts
  suppressions_nodup : g.suppressionFacts.Nodup
  suppressions_iff : ∀ x, x ∈ g.suppressionFacts ↔ ∃ source ∈ sources, x ∈ source.suppressionFacts

theorem mem_contributions {sources : List Graph} (hl : ∀ source ∈ sources, source.Inv) {key : Bytes} {x : Symbol} :
    x ∈ contributions sources key ↔ ∃ source ∈ sources, x ∈ source.symbols ∧ x.key = key := by
  unfold contributions
  rw [List.mem_filterMap]
  exact exists_congr fun source => and_congr_right fun hs => (hl source hs).record_iff

theorem Collected.isUnion {sources : List Graph} (hl : ∀ source ∈ sources, source.Inv) (h : Collected sources g) :
    IsUnion sources g := by
  have hjoined : ∀ s ∈ g.symbols, Joined (contributions sources s.key) s := fun s hs => by
    rcases h.record s.key with ⟨hnone, -⟩ | ⟨t, ht, -, hjoined⟩
    · rw [h.inv.record_iff.2 ⟨hs, rfl⟩] at hnone
      cases hnone
    · rw [h.inv.record_iff.2 ⟨hs, rfl⟩] at ht
      cases ht
      exact hjoined
  have hex : ∀ (s : Symbol) (p : Symbol → Prop), (∃ x ∈ contributions sources s.key, p x) ↔
      ∃ source ∈ sources, ∃ x ∈ source.symbols, x.key = s.key ∧ p x := fun s p => by
    simp only [mem_contributions hl]
    constructor
    · rintro ⟨x, ⟨source, hs, hx, hkey⟩, hp⟩
      exact ⟨source, hs, x, hx, hkey, hp⟩
    · rintro ⟨source, hs, x, hx, hkey, hp⟩
      exact ⟨x, ⟨source, hs, hx, hkey⟩, hp⟩
  refine ⟨h.inv.keys_nodup, fun key => ?_, fun s hs => ?_, fun s hs => ?_, fun s hs => ?_,
    fun s hs source hsource x hx hkey => ?_, h.inv.edgeFacts_nodup, h.edges, h.inv.rootFacts_nodup, h.roots,
    h.inv.escapeFacts_nodup, h.escapes, h.inv.suppressionFacts_nodup, h.suppressions⟩
  · constructor
    · intro hk
      obtain ⟨s, hs, rfl⟩ := List.mem_map.1 hk
      obtain ⟨source, hsource, x, hx, hkey, -⟩ := (hex s _).1 (hjoined s hs).scope.1
      exact ⟨source, hsource, List.mem_map.2 ⟨x, hx, hkey⟩⟩
    · rintro ⟨source, hsource, hk⟩
      obtain ⟨x, hx, hkey⟩ := List.mem_map.1 hk
      have hmem := (mem_contributions hl).2 ⟨source, hsource, hx, hkey⟩
      rcases h.record key with ⟨-, hnil⟩ | ⟨s, hs, -, -⟩
      · rw [hnil] at hmem
        cases hmem
      · obtain ⟨hs, hkey⟩ := h.inv.record_iff.1 hs
        exact List.mem_map.2 ⟨s, hs, hkey⟩
  · rw [(hjoined s hs).defined, hex]
  · rw [(hjoined s hs).isVirtual, hex]
  · exact (hex s _).1 (hjoined s hs).scope.1
  · exact (hjoined s hs).scope.2 x ((mem_contributions hl).2 ⟨source, hsource, hx, hkey⟩)

theorem Collected.agreeByKey {sources sources' : List Graph} (hp : sources.Perm sources')
    (h : Collected sources g) (h' : Collected sources' g') : AgreeByKey g g' := by
  have hex : ∀ p : Graph → Prop, (∃ s ∈ sources, p s) ↔ ∃ s ∈ sources', p s := fun p => by
    simp only [hp.mem_iff]
  exact ⟨h.agree hp h', fun x => by rw [h.edges, h'.edges, hex], fun x => by rw [h.roots, h'.roots, hex],
    fun x => by rw [h.escapes, h'.escapes, hex], fun x => by rw [h.suppressions, h'.suppressions, hex]⟩

/-- Merging the same translation units in two orders gives the union of their
facts both times, records that agree, and the same analysis of every key. -/
theorem mergeGraphs_order {sources sources' : List Graph} (hbuilt : ∀ source ∈ sources, Built source)
    (hp : sources.Perm sources') (h : mergeGraphs sources {} = .ok ⟨⟩ g) (h' : mergeGraphs sources' {} = .ok ⟨⟩ g') :
    IsUnion sources g ∧ IsUnion sources' g' ∧ AgreeByKey g g' ∧ SameAnalysis g g' := by
  have hl : ∀ source ∈ sources, source.Inv := fun source hs => (hbuilt source hs).inv
  have hl' : ∀ source ∈ sources', source.Inv := fun source hs => hl source (hp.mem_iff.2 hs)
  have hc := mergeGraphs_collected hl h
  have hc' := mergeGraphs_collected hl' h'
  have hagree := hc.agreeByKey hp hc'
  exact ⟨hc.isUnion hl, hc'.isUnion hl', hagree, hagree.sameAnalysis hc.inv hc'.inv⟩

/-- A translation unit that defines `main`, which calls `f`. -/
def mainUnit : Graph :=
  endState (Graph.addEdge 0 1 .directCall {})
    (endState (Graph.addRoot 0 .applicationEntryPoint {})
      (endState (Graph.addOrMergeSymbol { key := lit "f", scope := .externalOpaque })
        (endState (Graph.addOrMergeSymbol { key := lit "main", defined := true, scope := .reportable }) {})))

/-- A translation unit that defines `f`. -/
def calleeUnit : Graph :=
  endState (Graph.addOrMergeSymbol { key := lit "f", defined := true, scope := .reportable }) {}

theorem mainUnit_built : Built mainUnit :=
  .addEdge 0 1 .directCall {} (.addRoot 0 .applicationEntryPoint {} (.addOrMergeSymbol _ (.addOrMergeSymbol _ .empty)))

theorem calleeUnit_built : Built calleeUnit := .addOrMergeSymbol _ .empty

theorem mainUnit_order :
    SameAnalysis (endState (mergeGraphs [mainUnit, calleeUnit]) {}) (endState (mergeGraphs [calleeUnit, mainUnit]) {}) := by
  have hbuilt : ∀ source ∈ [mainUnit, calleeUnit], Built source := by
    intro source hs
    rcases List.mem_cons.1 hs with rfl | hs
    · exact mainUnit_built
    · exact List.mem_singleton.1 hs ▸ calleeUnit_built
  exact (mergeGraphs_order hbuilt (List.Perm.swap _ _ _) rfl rfl).2.2.2

end CxxDead
