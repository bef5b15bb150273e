import CxxDead.Invariant
import Mathlib.Data.List.GetD
/-!
# Facts by key, and the canonical form

A symbol's id depends on the order in which symbols were added. `record` and the
fact lists read a graph with keys in place of ids.

- `canonicalize_congr`: graphs with the same facts by key have the same canonical
  form.
- `canonicalize_sameFacts`: the canonical form keeps the facts.
- `Built.inv`: every graph that the operations build keeps the invariant.
-/

namespace CxxDead

open Lib

namespace Graph

/-! ## Facts by key -/

def keyOf (g : Graph) (id : SymbolId) : Bytes := (g.symbol id).key

/-- The symbol with a key. -/
def record (g : Graph) (key : Bytes) : Option Symbol := (g.findByKey key).map g.symbol

def edgeFact (g : Graph) (e : Edge) : Bytes × Bytes × EdgeKind × Evidence :=
  (g.keyOf e.from, g.keyOf e.to, e.kind, e.evidence)

def rootFact (g : Graph) (r : Root) : Bytes × RootKind × Evidence := (g.keyOf r.symbol, r.kind, r.evidence)

def escapeFact (g : Graph) (e : Escape) : Bytes × Option Bytes × EscapeKind × Evidence :=
  (g.keyOf e.symbol, e.from.map g.keyOf, e.kind, e.evidence)

def suppressionFact (g : Graph) (s : Suppression) : Bytes × Evidence := (g.keyOf s.symbol, s.evidence)

def edgeFacts (g : Graph) := g.edges.map g.edgeFact
def rootFacts (g : Graph) := g.roots.map g.rootFact
def escapeFacts (g : Graph) := g.escapes.map g.escapeFact
def suppressionFacts (g : Graph) := g.suppressions.map g.suppressionFact

/-- Two graphs say the same about every key. -/
structure SameFacts (g h : Graph) : Prop where
  record : ∀ key, g.record key = h.record key
  edges : ∀ x, x ∈ g.edgeFacts ↔ x ∈ h.edgeFacts
  roots : ∀ x, x ∈ g.rootFacts ↔ x ∈ h.rootFacts
  escapes : ∀ x, x ∈ g.escapeFacts ↔ x ∈ h.escapeFacts
  suppressions : ∀ x, x ∈ g.suppressionFacts ↔ x ∈ h.suppressionFacts

theorem SameFacts.refl (g : Graph) : SameFacts g g :=
  ⟨fun _ => rfl, fun _ => Iff.rfl, fun _ => Iff.rfl, fun _ => Iff.rfl, fun _ => Iff.rfl⟩

theorem SameFacts.symm {g h : Graph} (s : SameFacts g h) : SameFacts h g :=
  ⟨fun k => (s.record k).symm, fun x => (s.edges x).symm, fun x => (s.roots x).symm, fun x => (s.escapes x).symm,
    fun x => (s.suppressions x).symm⟩

theorem SameFacts.trans {g h k : Graph} (s : SameFacts g h) (t : SameFacts h k) : SameFacts g k :=
  ⟨fun x => (s.record x).trans (t.record x), fun x => (s.edges x).trans (t.edges x),
    fun x => (s.roots x).trans (t.roots x), fun x => (s.escapes x).trans (t.escapes x),
    fun x => (s.suppressions x).trans (t.suppressions x)⟩

variable {g h : Graph}

theorem Inv.record_iff (hg : g.Inv) {key : Bytes} {s : Symbol} :
    g.record key = some s ↔ s ∈ g.symbols ∧ s.key = key := by
  unfold record
  rw [Option.map_eq_some_iff]
  constructor
  · rintro ⟨id, hid, rfl⟩
    obtain ⟨hlt, hkey⟩ := (hg.findByKey_iff key id).1 hid
    exact ⟨symbol_mem hlt, hkey⟩
  · rintro ⟨hs, hkey⟩
    obtain ⟨id, hid, rfl⟩ := mem_symbols_iff.1 hs
    exact ⟨id, (hg.findByKey_iff key id).2 ⟨hid, hkey⟩, rfl⟩

theorem SameFacts.symbols_perm (hg : g.Inv) (hh : h.Inv) (s : SameFacts g h) : g.symbols.Perm h.symbols := by
  refine (List.perm_ext_iff_of_nodup (hg.keys_nodup.of_map _) (hh.keys_nodup.of_map _)).2 fun x => ?_
  have hx := s.record x.key
  constructor
  · intro hmem
    rw [hg.record_iff.2 ⟨hmem, rfl⟩] at hx
    exact (hh.record_iff.1 hx.symm).1
  · intro hmem
    rw [hh.record_iff.2 ⟨hmem, rfl⟩] at hx
    exact (hg.record_iff.1 hx).1

theorem Inv.keyOf_inj (hg : g.Inv) {a b : SymbolId} (ha : a < g.symbols.length) (hb : b < g.symbols.length) :
    g.keyOf a = g.keyOf b ↔ a = b :=
  ⟨hg.key_inj ha hb, fun h => h ▸ rfl⟩

theorem Inv.edgeFacts_nodup (hg : g.Inv) : g.edgeFacts.Nodup := by
  refine hg.edges_nodup.map_on fun e he e' he' heq => ?_
  simp only [edgeFact, Prod.mk.injEq, hg.keyOf_inj (hg.ids.edges e he).1 (hg.ids.edges e' he').1,
    hg.keyOf_inj (hg.ids.edges e he).2 (hg.ids.edges e' he').2] at heq
  cases e
  cases e'
  simpa using heq

theorem Inv.rootFacts_nodup (hg : g.Inv) : g.rootFacts.Nodup := by
  refine hg.roots_nodup.map_on fun r hr r' hr' heq => ?_
  simp only [rootFact, Prod.mk.injEq, hg.keyOf_inj (hg.ids.roots r hr) (hg.ids.roots r' hr')] at heq
  cases r
  cases r'
  simpa using heq

theorem option_map_inj {α β : Type} {f : α → β} {a b : Option α} (hinj : ∀ x ∈ a, ∀ y ∈ b, f x = f y → x = y)
    (h : a.map f = b.map f) : a = b := by
  cases a with
  | none => cases b with
    | none => rfl
    | some y => cases h
  | some x => cases b with
    | none => cases h
    | some y => rw [hinj x rfl y rfl (Option.some.inj h)]

theorem Inv.escapeFacts_nodup (hg : g.Inv) : g.escapeFacts.Nodup := by
  refine hg.escapes_nodup.map_on fun e he e' he' heq => ?_
  simp only [escapeFact, Prod.mk.injEq, hg.keyOf_inj (hg.ids.escapes e he).1 (hg.ids.escapes e' he').1] at heq
  obtain ⟨hsymbol, hfrom, hkind, hevidence⟩ := heq
  have hfrom : e.from = e'.from := option_map_inj (fun f hf f' hf' h =>
    (hg.keyOf_inj ((hg.ids.escapes e he).2 f hf) ((hg.ids.escapes e' he').2 f' hf')).1 h) hfrom
  cases e
  cases e'
  simp_all

theorem Inv.suppressionFacts_nodup (hg : g.Inv) : g.suppressionFacts.Nodup := by
  refine hg.suppressions_nodup.map_on fun s hs s' hs' heq => ?_
  simp only [suppressionFact, Prod.mk.injEq,
    hg.keyOf_inj (hg.ids.suppressions s hs) (hg.ids.suppressions s' hs')] at heq
  cases s
  cases s'
  simpa using heq

/-! ## The sort keys tell facts apart -/

theorem EdgeKind.code_injective : Function.Injective EdgeKind.code := by
  intro a b h; cases a <;> cases b <;> first | rfl | cases h

theorem RootKind.code_injective : Function.Injective RootKind.code := by
  intro a b h; cases a <;> cases b <;> first | rfl | cases h

theorem EscapeKind.code_injective : Function.Injective EscapeKind.code := by
  intro a b h; cases a <;> cases b <;> first | rfl | cases h

theorem evidenceOrder_injective : Function.Injective evidenceOrder := by
  rintro ⟨p, r⟩ ⟨p', r'⟩ h
  cases h
  rfl

theorem edgeOrder_injective : Function.Injective edgeOrder := by
  rintro ⟨a, b, k, e⟩ ⟨a', b', k', e'⟩ h
  simp only [edgeOrder, toLex_inj, Prod.mk.injEq, EdgeKind.code_injective.eq_iff,
    evidenceOrder_injective.eq_iff] at h
  obtain ⟨rfl, rfl, rfl, rfl⟩ := h
  rfl

theorem rootOrder_injective : Function.Injective rootOrder := by
  rintro ⟨a, k, e⟩ ⟨a', k', e'⟩ h
  simp only [rootOrder, toLex_inj, Prod.mk.injEq, RootKind.code_injective.eq_iff,
    evidenceOrder_injective.eq_iff] at h
  obtain ⟨rfl, rfl, rfl⟩ := h
  rfl

theorem escapeOrder_injective : Function.Injective escapeOrder := by
  rintro ⟨a, f, k, e⟩ ⟨a', f', k', e'⟩ h
  obtain ⟨hsymbol, h⟩ := Prod.mk.inj (toLex_inj.1 h)
  obtain ⟨hfrom, h⟩ := Prod.mk.inj (toLex_inj.1 h)
  obtain ⟨hkind, hevidence⟩ := Prod.mk.inj (toLex_inj.1 h)
  obtain rfl : a = a' := hsymbol
  obtain rfl : f = f' := hfrom
  obtain rfl : k = k' := EscapeKind.code_injective hkind
  obtain rfl : e = e' := evidenceOrder_injective hevidence
  rfl

theorem suppressionOrder_injective : Function.Injective suppressionOrder := by
  rintro ⟨a, e⟩ ⟨a', e'⟩ h
  simp only [suppressionOrder, toLex_inj, Prod.mk.injEq, evidenceOrder_injective.eq_iff] at h
  obtain ⟨rfl, rfl⟩ := h
  rfl

/-! ## The canonical form -/

/-- A graph from symbols and facts by key: a symbol's id is the place of its key. -/
def normalForm (symbols : List Symbol) (edges : List (Bytes × Bytes × EdgeKind × Evidence))
    (roots : List (Bytes × RootKind × Evidence)) (escapes : List (Bytes × Option Bytes × EscapeKind × Evidence))
    (suppressions : List (Bytes × Evidence)) : Graph :=
  let place := fun key => (symbols.map (·.key)).idxOf key
  { symbols
    keyToId := indexKeys symbols
    edges := sortOn edgeOrder (edges.map fun x => ⟨place x.1, place x.2.1, x.2.2.1, x.2.2.2⟩)
    roots := sortOn rootOrder (roots.map fun x => ⟨place x.1, x.2.1, x.2.2⟩)
    escapes := sortOn escapeOrder (escapes.map fun x => ⟨place x.1, x.2.1.map place, x.2.2.1, x.2.2.2⟩)
    suppressions := sortOn suppressionOrder (suppressions.map fun x => ⟨place x.1, x.2⟩) }

theorem keyOrder_perm (g : Graph) : g.keyOrder.Perm (List.range g.symbols.length) := sortOn_perm _ _

theorem map_keyOrder (g : Graph) : g.keyOrder.map g.symbol = sortOn (·.key) g.symbols := by
  conv_rhs => rw [← map_symbol_range g, sortOn_map]
  rfl

theorem idxOf_map_of_inj {α β : Type} [BEq α] [LawfulBEq α] [BEq β] [LawfulBEq β] {f : α → β} {a : α}
    (l : List α) (hinj : ∀ b ∈ l, f b = f a → b = a) : (l.map f).idxOf (f a) = l.idxOf a := by
  induction l with
  | nil => rfl
  | cons b l ih =>
    rw [List.map_cons, List.idxOf_cons, List.idxOf_cons, ih fun c hc => hinj c (List.mem_cons_of_mem _ hc)]
    have hbeq : (f b == f a) = (b == a) := by
      rw [Bool.eq_iff_iff, beq_iff_eq, beq_iff_eq]
      exact ⟨hinj b List.mem_cons_self, fun h => h ▸ rfl⟩
    rw [hbeq]

/-- A symbol moves to the place of its key among the sorted keys. -/
theorem Inv.canonicalId_eq (hg : g.Inv) {id : SymbolId} (hid : id < g.symbols.length) :
    g.canonicalId id = ((sortOn (·.key) g.symbols).map (·.key)).idxOf (g.keyOf id) := by
  rw [← map_keyOrder, List.map_map]
  refine (idxOf_map_of_inj (f := g.keyOf) g.keyOrder fun other hother heq => ?_).symm
  rw [(keyOrder_perm g).mem_iff, List.mem_range] at hother
  exact hg.key_inj hother hid heq

theorem Inv.canonicalize_eq (hg : g.Inv) :
    g.canonicalize =
      normalForm (sortOn (·.key) g.symbols) g.edgeFacts g.rootFacts g.escapeFacts g.suppressionFacts := by
  unfold canonicalize normalForm edgeFacts rootFacts escapeFacts suppressionFacts
  rw [map_keyOrder]
  simp only [List.map_map]
  congr 2
  · refine List.map_congr_left fun e he => ?_
    simp only [Function.comp, edgeFact]
    rw [hg.canonicalId_eq (hg.ids.edges e he).1, hg.canonicalId_eq (hg.ids.edges e he).2]
  · refine List.map_congr_left fun r hr => ?_
    simp only [Function.comp, rootFact]
    rw [hg.canonicalId_eq (hg.ids.roots r hr)]
  · refine List.map_congr_left fun e he => ?_
    simp only [Function.comp, escapeFact, Option.map_map]
    rw [hg.canonicalId_eq (hg.ids.escapes e he).1]
    congr 1
    cases hf : e.from with
    | none => rfl
    | some f => simp [hg.canonicalId_eq ((hg.ids.escapes e he).2 f hf)]
  · refine List.map_congr_left fun s hs => ?_
    simp only [Function.comp, suppressionFact]
    rw [hg.canonicalId_eq (hg.ids.suppressions s hs)]

/-- The canonical form depends on the facts by key only. -/
theorem canonicalize_congr (hg : g.Inv) (hh : h.Inv) (s : SameFacts g h) : g.canonicalize = h.canonicalize := by
  have hsymbols : sortOn (·.key) g.symbols = sortOn (·.key) h.symbols :=
    sortOn_perm_eq _ (s.symbols_perm hg hh) fun a ha b hb hkey => by
      have hb' := hg.record_iff.2 ⟨hb, rfl⟩
      rw [← hkey, hg.record_iff.2 ⟨ha, rfl⟩] at hb'
      exact Option.some.inj hb'
  have hedges := (List.perm_ext_iff_of_nodup hg.edgeFacts_nodup hh.edgeFacts_nodup).2 s.edges
  have hroots := (List.perm_ext_iff_of_nodup hg.rootFacts_nodup hh.rootFacts_nodup).2 s.roots
  have hescapes := (List.perm_ext_iff_of_nodup hg.escapeFacts_nodup hh.escapeFacts_nodup).2 s.escapes
  have hsuppressions := (List.perm_ext_iff_of_nodup hg.suppressionFacts_nodup hh.suppressionFacts_nodup).2 s.suppressions
  rw [hg.canonicalize_eq, hh.canonicalize_eq, hsymbols]
  unfold normalForm
  simp only
  congr 1
  · exact sortOn_perm_eq _ (hedges.map _) fun a _ b _ heq => edgeOrder_injective heq
  · exact sortOn_perm_eq _ (hroots.map _) fun a _ b _ heq => rootOrder_injective heq
  · exact sortOn_perm_eq _ (hescapes.map _) fun a _ b _ heq => escapeOrder_injective heq
  · exact sortOn_perm_eq _ (hsuppressions.map _) fun a _ b _ heq => suppressionOrder_injective heq

/-! ## The canonical form keeps the invariant and the facts -/

theorem canonicalId_lt {id : Nat} (hid : id < g.symbols.length) : g.canonicalId id < g.symbols.length := by
  have hmem : id ∈ g.keyOrder := (keyOrder_perm g).mem_iff.2 (List.mem_range.2 hid)
  have hlt := List.idxOf_lt_length_of_mem hmem
  rwa [(keyOrder_perm g).length_eq, List.length_range] at hlt

theorem canonicalId_inj {a b : SymbolId} (ha : a < g.symbols.length)
    (h : g.canonicalId a = g.canonicalId b) : a = b :=
  (List.idxOf_inj ((keyOrder_perm g).mem_iff.2 (List.mem_range.2 ha))).1 h

theorem canonicalize_symbols_perm (g : Graph) : g.canonicalize.symbols.Perm g.symbols := by
  show (g.keyOrder.map g.symbol).Perm g.symbols
  rw [map_keyOrder]
  exact sortOn_perm _ _

theorem symbol_canonicalId {id : SymbolId} (hid : id < g.symbols.length) :
    g.canonicalize.symbol (g.canonicalId id) = g.symbol id := by
  have hmem : id ∈ g.keyOrder := (keyOrder_perm g).mem_iff.2 (List.mem_range.2 hid)
  show (g.keyOrder.map g.symbol).getD (g.keyOrder.idxOf id) {} = g.symbol id
  rw [List.getD_eq_getElem _ _ (by rw [List.length_map]; exact List.idxOf_lt_length_of_mem hmem), List.getElem_map,
    List.getElem_idxOf]

theorem lookup_emplaceKey (index : List (Bytes × SymbolId)) (key : Bytes) (id : SymbolId) (other : Bytes) :
    (emplaceKey index key id).lookup other = (index.lookup other).or (if other = key then some id else none) := by
  unfold emplaceKey
  split
  · rename_i h
    by_cases hkey : other = key
    · subst hkey
      rw [if_pos rfl]
      obtain ⟨v, hv⟩ := Option.isSome_iff_exists.1 h
      rw [hv]
      rfl
    · rw [if_neg hkey, Option.or_none]
  · rw [List.lookup_append, List.lookup_cons]
    by_cases hkey : other = key
    · simp [hkey]
    · rw [show (other == key) = false by simpa using hkey]
      simp [hkey]

theorem lookup_indexKeys_from (symbols : List Symbol) (index : List (Bytes × SymbolId)) (k : Nat) (key : Bytes) :
    ((symbols.zipIdx k).foldl (fun index (symbol, id) => emplaceKey index symbol.key id) index).lookup key =
      (index.lookup key).or ((symbols.findIdx? fun s => s.key == key).map (k + ·)) := by
  induction symbols generalizing index k with
  | nil => simp
  | cons s symbols ih =>
    rw [List.zipIdx_cons, List.foldl_cons, ih, lookup_emplaceKey, List.findIdx?_cons]
    by_cases hkey : key = s.key
    · simp [hkey]
    · have hne : (s.key == key) = false := by simpa using Ne.symm hkey
      rw [if_neg hkey, hne, Option.or_none]
      congr 1
      simp only [Bool.false_eq_true, if_false, Option.map_map]
      congr 1
      funext i
      simp only [Function.comp]
      omega

/-- The rebuilt index finds the first symbol with a key. -/
theorem lookup_indexKeys (symbols : List Symbol) (key : Bytes) :
    (indexKeys symbols).lookup key = symbols.findIdx? fun s => s.key == key := by
  unfold indexKeys
  rw [lookup_indexKeys_from]
  simp

theorem lookup_indexKeys_iff {symbols : List Symbol} (hnodup : (symbols.map (·.key)).Nodup) (key : Bytes) (id : Nat) :
    (indexKeys symbols).lookup key = some id ↔ id < symbols.length ∧ (symbols.getD id {}).key = key := by
  rw [lookup_indexKeys, List.findIdx?_eq_some_iff_getElem]
  constructor
  · rintro ⟨hlt, hkey, -⟩
    refine ⟨hlt, ?_⟩
    rw [List.getD_eq_getElem _ _ hlt]
    simpa using hkey
  · rintro ⟨hlt, hkey⟩
    rw [List.getD_eq_getElem _ _ hlt] at hkey
    refine ⟨hlt, by simpa using hkey, fun j hj heq => ?_⟩
    have hjlt : j < (symbols.map (·.key)).length := by rw [List.length_map]; omega
    have hidlt : id < (symbols.map (·.key)).length := by rwa [List.length_map]
    have hsame : (symbols.map (·.key))[j] = (symbols.map (·.key))[id] := by simpa [hkey] using heq
    have := (List.Nodup.getElem_inj_iff hnodup).1 hsame
    omega

theorem canonicalize_inv (hg : g.Inv) : g.canonicalize.Inv := by
  have hperm := canonicalize_symbols_perm g
  have hlen : g.canonicalize.symbols.length = g.symbols.length := hperm.length_eq
  have hlt : ∀ {id}, id < g.symbols.length → g.canonicalId id < g.canonicalize.symbols.length := fun h => by
    rw [hlen]
    exact canonicalId_lt h
  have hkeys : (g.canonicalize.symbols.map (·.key)).Nodup := (hperm.map _).nodup_iff.2 hg.keys_nodup
  refine ⟨hkeys, fun s hs => hg.keys_ne s (hperm.mem_iff.1 hs), fun s hs => hg.not_excluded s (hperm.mem_iff.1 hs),
    lookup_indexKeys_iff hkeys, ⟨fun e he => ?_, fun r hr => ?_, fun e he => ?_, fun s hs => ?_⟩, ?_, ?_, ?_, ?_⟩
  · obtain ⟨e, hmem, rfl⟩ := List.mem_map.1 ((mem_sortOn _).1 he)
    exact ⟨hlt (hg.ids.edges e hmem).1, hlt (hg.ids.edges e hmem).2⟩
  · obtain ⟨r, hmem, rfl⟩ := List.mem_map.1 ((mem_sortOn _).1 hr)
    exact hlt (hg.ids.roots r hmem)
  · obtain ⟨e, hmem, rfl⟩ := List.mem_map.1 ((mem_sortOn _).1 he)
    refine ⟨hlt (hg.ids.escapes e hmem).1, fun f hf => ?_⟩
    obtain ⟨f, hmemf, rfl⟩ := Option.map_eq_some_iff.1 (Option.mem_def.1 hf)
    exact hlt ((hg.ids.escapes e hmem).2 f hmemf)
  · obtain ⟨s, hmem, rfl⟩ := List.mem_map.1 ((mem_sortOn _).1 hs)
    exact hlt (hg.ids.suppressions s hmem)
  · refine (sortOn_perm _ _).nodup_iff.2 (hg.edges_nodup.map_on fun e he e' _ heq => ?_)
    cases e
    cases e'
    simp only [Edge.mk.injEq] at heq
    simp only [Edge.mk.injEq]
    exact ⟨canonicalId_inj (hg.ids.edges _ he).1 heq.1, canonicalId_inj (hg.ids.edges _ he).2 heq.2.1, heq.2.2⟩
  · refine (sortOn_perm _ _).nodup_iff.2 (hg.roots_nodup.map_on fun r hr r' _ heq => ?_)
    cases r
    cases r'
    simp only [Root.mk.injEq] at heq
    simp only [Root.mk.injEq]
    exact ⟨canonicalId_inj (hg.ids.roots _ hr) heq.1, heq.2⟩
  · refine (sortOn_perm _ _).nodup_iff.2 (hg.escapes_nodup.map_on fun e he e' _ heq => ?_)
    obtain ⟨hsymbol, hfrom⟩ := hg.ids.escapes e he
    cases e
    cases e'
    simp only [Escape.mk.injEq] at heq
    simp only [Escape.mk.injEq]
    exact ⟨canonicalId_inj hsymbol heq.1,
      option_map_inj (fun f hf f' _ h => canonicalId_inj (hfrom f hf) h) heq.2.1, heq.2.2⟩
  · refine (sortOn_perm _ _).nodup_iff.2 (hg.suppressions_nodup.map_on fun s hs s' _ heq => ?_)
    cases s
    cases s'
    simp only [Suppression.mk.injEq] at heq
    simp only [Suppression.mk.injEq]
    exact ⟨canonicalId_inj (hg.ids.suppressions _ hs) heq.1, heq.2⟩

/-- Moving a fact with its symbols does not change it. -/
theorem keyOf_canonicalId {id : SymbolId} (hid : id < g.symbols.length) :
    g.canonicalize.keyOf (g.canonicalId id) = g.keyOf id := by
  unfold keyOf
  rw [symbol_canonicalId hid]

theorem canonicalize_sameFacts (hg : g.Inv) : SameFacts g.canonicalize g := by
  have hperm := canonicalize_symbols_perm g
  have hedges : g.canonicalize.edgeFacts.Perm g.edgeFacts := by
    refine ((sortOn_perm _ _).map _).trans (.of_eq ?_)
    rw [List.map_map]
    refine List.map_congr_left fun e he => ?_
    simp only [Function.comp, edgeFact, keyOf_canonicalId (hg.ids.edges e he).1,
      keyOf_canonicalId (hg.ids.edges e he).2]
  have hroots : g.canonicalize.rootFacts.Perm g.rootFacts := by
    refine ((sortOn_perm _ _).map _).trans (.of_eq ?_)
    rw [List.map_map]
    refine List.map_congr_left fun r hr => ?_
    simp only [Function.comp, rootFact, keyOf_canonicalId (hg.ids.roots r hr)]
  have hescapes : g.canonicalize.escapeFacts.Perm g.escapeFacts := by
    refine ((sortOn_perm _ _).map _).trans (.of_eq ?_)
    rw [List.map_map]
    refine List.map_congr_left fun e he => ?_
    have hfrom : (e.from.map g.canonicalId).map g.canonicalize.keyOf = e.from.map g.keyOf := by
      rw [Option.map_map]
      exact Option.map_congr fun f hf => keyOf_canonicalId ((hg.ids.escapes e he).2 f hf)
    simp only [Function.comp, escapeFact, keyOf_canonicalId (hg.ids.escapes e he).1, hfrom]
  have hsuppressions : g.canonicalize.suppressionFacts.Perm g.suppressionFacts := by
    refine ((sortOn_perm _ _).map _).trans (.of_eq ?_)
    rw [List.map_map]
    refine List.map_congr_left fun s hs => ?_
    simp only [Function.comp, suppressionFact, keyOf_canonicalId (hg.ids.suppressions s hs)]
  refine ⟨fun key => ?_, fun _ => hedges.mem_iff, fun _ => hroots.mem_iff, fun _ => hescapes.mem_iff,
    fun _ => hsuppressions.mem_iff⟩
  refine Option.ext fun s => ?_
  rw [(canonicalize_inv hg).record_iff, hg.record_iff, hperm.mem_iff]

end Graph

/-! ## The graphs that the operations build -/

/-- A graph that operations build from an empty one. An operation that throws
leaves what it had done. -/
inductive Built : Graph → Prop
  | empty : Built {}
  | addOrMergeSymbol {g : Graph} (s : Symbol) : Built g → Built (endState (Graph.addOrMergeSymbol s) g)
  | addEdge {g : Graph} («from» «to» : SymbolId) (kind : EdgeKind) (evidence : Evidence) :
      Built g → Built (endState (Graph.addEdge «from» «to» kind evidence) g)
  | addRoot {g : Graph} (id : SymbolId) (kind : RootKind) (evidence : Evidence) :
      Built g → Built (endState (Graph.addRoot id kind evidence) g)
  | addEscape {g : Graph} (id : SymbolId) (kind : EscapeKind) (evidence : Evidence) («from» : Option SymbolId) :
      Built g → Built (endState (Graph.addEscape id kind evidence «from») g)
  | addSuppression {g : Graph} (id : SymbolId) (evidence : Evidence) :
      Built g → Built (endState (Graph.addSuppression id evidence) g)
  | canonicalize {g : Graph} : Built g → Built g.canonicalize
  | mergeGraph {g : Graph} (source : Graph) : Built source → Built g → Built (endState (mergeGraph source) g)

theorem Built.inv {g : Graph} (h : Built g) : g.Inv := by
  induction h with
  | empty => exact Graph.inv_empty
  | addOrMergeSymbol s _ ih => exact Graph.addOrMergeSymbol_inv s _ ih
  | addEdge a b k e _ ih => exact Graph.addEdge_inv a b k e _ ih
  | addRoot id k e _ ih => exact Graph.addRoot_inv id k e _ ih
  | addEscape id k e f _ ih => exact Graph.addEscape_inv id k e f _ ih
  | addSuppression id e _ ih => exact Graph.addSuppression_inv id e _ ih
  | canonicalize _ ih => exact Graph.canonicalize_inv ih
  | mergeGraph source _ _ _ ih => exact mergeGraph_inv source _ ih

end CxxDead
