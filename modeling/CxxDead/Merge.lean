import CxxDead.Canonical
/-!
# Merging graphs

What `mergeGraph` does to the facts by key.

- `mergeGraph_ok`: each key's record is merged with the one that the source has,
  and the fact sets are united.
- `mergeGraph_completes`: merging returns if the records of common keys are
  compatible.
-/

namespace CxxDead

open Lib

namespace Graph

/-- The record of a key after merging. -/
def mergedRecord : Option Symbol → Option Symbol → Option Symbol
  | target, none => target
  | none, some source => some source
  | some target, some source => some (mergeFields target source)

/-- `mergeSymbol` accepts what both graphs say about a key. -/
def Compatible (target : Option Symbol) (source : Symbol) : Prop :=
  ∀ t, target = some t → ∀ check ∈ compatibility t source, check.1 = true

/-- `g'` has at least the symbols of `g`, under the same ids and keys, and the same facts. -/
structure Extends (g g' : Graph) : Prop where
  length_le : g.symbols.length ≤ g'.symbols.length
  keyOf_eq : ∀ id < g.symbols.length, g'.keyOf id = g.keyOf id
  edges_eq : g'.edges = g.edges
  roots_eq : g'.roots = g.roots
  escapes_eq : g'.escapes = g.escapes
  suppressions_eq : g'.suppressions = g.suppressions

variable {g g' g'' : Graph}

theorem Extends.refl (g : Graph) : Extends g g := ⟨Nat.le_refl _, fun _ _ => rfl, rfl, rfl, rfl, rfl⟩

theorem Extends.trans (h : Extends g g') (h' : Extends g' g'') : Extends g g'' :=
  ⟨Nat.le_trans h.length_le h'.length_le,
    fun id hid => (h'.keyOf_eq id (Nat.lt_of_lt_of_le hid h.length_le)).trans (h.keyOf_eq id hid),
    h'.edges_eq.trans h.edges_eq, h'.roots_eq.trans h.roots_eq, h'.escapes_eq.trans h.escapes_eq,
    h'.suppressions_eq.trans h.suppressions_eq⟩

theorem Extends.edgeFacts (h : Extends g g') (hg : g.Inv) : g'.edgeFacts = g.edgeFacts := by
  unfold Graph.edgeFacts
  rw [h.edges_eq]
  refine List.map_congr_left fun e he => ?_
  simp only [edgeFact, h.keyOf_eq _ (hg.ids.edges e he).1, h.keyOf_eq _ (hg.ids.edges e he).2]

theorem Extends.rootFacts (h : Extends g g') (hg : g.Inv) : g'.rootFacts = g.rootFacts := by
  unfold Graph.rootFacts
  rw [h.roots_eq]
  refine List.map_congr_left fun r hr => ?_
  simp only [rootFact, h.keyOf_eq _ (hg.ids.roots r hr)]

theorem Extends.escapeFacts (h : Extends g g') (hg : g.Inv) : g'.escapeFacts = g.escapeFacts := by
  unfold Graph.escapeFacts
  rw [h.escapes_eq]
  refine List.map_congr_left fun e he => ?_
  have hfrom : e.from.map g'.keyOf = e.from.map g.keyOf :=
    Option.map_congr fun f hf => h.keyOf_eq f ((hg.ids.escapes e he).2 f hf)
  simp only [escapeFact, h.keyOf_eq _ (hg.ids.escapes e he).1, hfrom]

theorem Extends.suppressionFacts (h : Extends g g') (hg : g.Inv) : g'.suppressionFacts = g.suppressionFacts := by
  unfold Graph.suppressionFacts
  rw [h.suppressions_eq]
  refine List.map_congr_left fun s hs => ?_
  simp only [suppressionFact, h.keyOf_eq _ (hg.ids.suppressions s hs)]

/-! ## One symbol -/

theorem record_eq_none {key : Bytes} (h : g.findByKey key = none) : g.record key = none := by
  unfold record
  rw [h]
  rfl

/-- What `addOrMergeSymbol` does to ids, keys and records when it returns. -/
theorem addOrMergeSymbol_spec (hg : g.Inv) {s : Symbol} {id : SymbolId} (h : addOrMergeSymbol s g = .ok id g') :
    Extends g g' ∧ id < g'.symbols.length ∧ g'.keyOf id = s.key ∧ Compatible (g.record s.key) s ∧
      ∀ key, g'.record key = if key = s.key then mergedRecord (g.record key) (some s) else g.record key := by
  have hg' : g'.Inv := Keeps.ok (addOrMergeSymbol_inv s) hg h
  obtain ⟨-, -, ⟨merged, hfound, hmerged, rfl⟩ | ⟨hnone, rfl, rfl⟩⟩ := addOrMergeSymbol_ok h
  · obtain ⟨hid, hkey⟩ := (hg.findByKey_iff _ _).1 hfound
    have hrecord : g.record s.key = some (g.symbol id) := by unfold record; rw [hfound]; rfl
    obtain ⟨hcompatible, rfl⟩ := mergeSymbol_ok hmerged
    have hsymbol := symbol_set hid (mergeFields (g.symbol id) s)
    refine ⟨⟨by simp, fun other hother => ?_, rfl, rfl, rfl, rfl⟩, by simpa using hid, ?_, fun t ht => ?_, fun key => ?_⟩
    · unfold keyOf
      rw [hsymbol]
      split
      · rename_i heq; rw [heq, mergeFields_key]
      · rfl
    · unfold keyOf
      rw [hsymbol, if_pos rfl, mergeFields_key, hkey]
    · rw [hrecord] at ht
      cases ht
      exact hcompatible
    · show (g.findByKey key).map _ = _
      split
      · rename_i heq
        rw [heq, hfound, hrecord, Option.map_some, hsymbol, if_pos rfl]
        rfl
      · rename_i hne
        unfold record
        refine Option.map_congr fun other hother => ?_
        rw [hsymbol, if_neg]
        rintro rfl
        exact hne (((hg.findByKey_iff _ _).1 hother).2.symm.trans hkey)
  · have hsymbol := fun other => symbol_append (g := g) (emplaceKey g.keyToId s.key g.symbols.length) s other
    refine ⟨⟨by simp, fun other hother => ?_, rfl, rfl, rfl, rfl⟩, by simp, ?_, fun t ht => ?_, fun key => ?_⟩
    · unfold keyOf
      rw [hsymbol, if_neg (Nat.ne_of_lt hother)]
    · unfold keyOf
      rw [hsymbol, if_pos rfl]
    · rw [record_eq_none hnone] at ht
      cases ht
    · show ((emplaceKey g.keyToId s.key g.symbols.length).lookup key).map _ = _
      rw [findByKey_append hnone]
      split
      · rename_i heq
        rw [heq, record_eq_none hnone, Option.map_some, hsymbol, if_pos rfl]
        rfl
      · unfold record
        refine Option.map_congr fun other hother => ?_
        rw [hsymbol, if_neg (Nat.ne_of_lt ((hg.findByKey_iff _ _).1 hother).1)]

theorem addOrMergeSymbol_completes {s : Symbol} (hkey : s.key ≠ []) (hscope : s.scope ≠ .excluded)
    (hc : Compatible (g.record s.key) s) : ∃ id g', addOrMergeSymbol s g = .ok id g' := by
  unfold addOrMergeSymbol
  rw [if_neg hkey, if_neg hscope]
  split
  · rename_i id hfound
    have hnone : (compatibility (g.symbol id) s).find? (fun check => !check.1) = none := by
      refine List.find?_eq_none.2 fun check hmem => ?_
      simpa using hc _ (by unfold record; rw [hfound]; rfl) check hmem
    unfold mergeSymbol
    rw [hnone]
    exact ⟨_, _, rfl⟩
  · exact ⟨_, _, rfl⟩

/-! ## All symbols of a source -/

/-- What adding a list of symbols with distinct keys does: `remap` gives the id of each. -/
structure SymbolsAdded (g : Graph) (l : List Symbol) (remap : List SymbolId) (g' : Graph) : Prop where
  inv : g'.Inv
  ext : Extends g g'
  remap_lt : ∀ i < l.length, remapped remap i < g'.symbols.length
  keyOf_remap : ∀ i < l.length, g'.keyOf (remapped remap i) = (l.getD i {}).key
  compatible : ∀ s ∈ l, Compatible (g.record s.key) s
  record : ∀ key, g'.record key = mergedRecord (g.record key) (l.find? fun s => s.key == key)

theorem addSymbols_spec (l : List Symbol) (hnodup : (l.map (·.key)).Nodup) (hg : g.Inv) {remap : List SymbolId}
    (h : l.mapM addOrMergeSymbol g = .ok remap g') : SymbolsAdded g l remap g' := by
  induction l generalizing g remap with
  | nil =>
    obtain ⟨rfl, rfl⟩ := pure_ok_iff.1 h
    exact ⟨hg, .refl g, by simp, by simp, by simp, fun key => by cases g.record key <;> rfl⟩
  | cons s l ih =>
    rw [List.mapM_cons] at h
    obtain ⟨id, g₁, hs, h⟩ := bind_ok_iff.1 h
    obtain ⟨ids, g₂, hl, h⟩ := bind_ok_iff.1 h
    obtain ⟨rfl, rfl⟩ := pure_ok_iff.1 h
    obtain ⟨hnot, hnodup⟩ := List.nodup_cons.1 hnodup
    obtain ⟨hext, hlt, hkey, hcompatible, hrecord⟩ := addOrMergeSymbol_spec hg hs
    have hrest := ih hnodup (Keeps.ok (addOrMergeSymbol_inv s) hg hs) hl
    have hother : ∀ t ∈ l, t.key ≠ s.key := fun t ht heq => hnot (List.mem_map.2 ⟨t, ht, heq⟩)
    refine ⟨hrest.inv, hext.trans hrest.ext, fun i hi => ?_, fun i hi => ?_, fun t ht => ?_, fun key => ?_⟩
    · cases i with
      | zero => exact Nat.lt_of_lt_of_le hlt hrest.ext.length_le
      | succ i => exact hrest.remap_lt i (by simpa using hi)
    · cases i with
      | zero => exact (hrest.ext.keyOf_eq id hlt).trans hkey
      | succ i => exact hrest.keyOf_remap i (by simpa using hi)
    · rcases List.mem_cons.1 ht with rfl | ht
      · exact hcompatible
      · have hc := hrest.compatible t ht
        rwa [hrecord, if_neg (hother t ht)] at hc
    · rw [hrest.record, hrecord, List.find?_cons]
      by_cases hk : key = s.key
      · have hnone : l.find? (fun t => t.key == key) = none :=
          List.find?_eq_none.2 fun t ht => by simpa [hk] using hother t ht
        rw [if_pos hk, hnone, show (s.key == key) = true by simp [hk]]
        cases g.record key <;> rfl
      · rw [if_neg hk, show (s.key == key) = false by simpa using Ne.symm hk]

theorem addSymbols_completes (l : List Symbol) (hnodup : (l.map (·.key)).Nodup) (hg : g.Inv)
    (hkey : ∀ s ∈ l, s.key ≠ []) (hscope : ∀ s ∈ l, s.scope ≠ .excluded)
    (hc : ∀ s ∈ l, Compatible (g.record s.key) s) : ∃ remap g', l.mapM addOrMergeSymbol g = .ok remap g' := by
  induction l generalizing g with
  | nil => exact ⟨[], g, rfl⟩
  | cons s l ih =>
    obtain ⟨hnot, hnodup⟩ := List.nodup_cons.1 hnodup
    obtain ⟨id, g₁, hs⟩ := addOrMergeSymbol_completes (hkey s List.mem_cons_self) (hscope s List.mem_cons_self)
      (hc s List.mem_cons_self)
    obtain ⟨-, -, -, -, hrecord⟩ := addOrMergeSymbol_spec hg hs
    obtain ⟨ids, g₂, hl⟩ := ih hnodup (Keeps.ok (addOrMergeSymbol_inv s) hg hs)
      (fun t ht => hkey t (List.mem_cons_of_mem _ ht)) (fun t ht => hscope t (List.mem_cons_of_mem _ ht))
      (fun t ht => by
        have hne : t.key ≠ s.key := fun heq => hnot (List.mem_map.2 ⟨t, ht, heq⟩)
        rw [hrecord, if_neg hne]
        exact hc t (List.mem_cons_of_mem _ ht))
    rw [List.mapM_cons]
    exact ⟨_, _, bind_ok_iff.2 ⟨id, g₁, hs, bind_ok_iff.2 ⟨ids, g₂, hl, rfl⟩⟩⟩

/-! ## All facts of a source -/

theorem mem_foldl_addFact {α β : Type} [DecidableEq β] (m : α → β) (l : List α) (facts : List β) (x : β) :
    x ∈ l.foldl (fun facts a => addFact facts (m a)) facts ↔ x ∈ facts ∨ x ∈ l.map m := by
  induction l generalizing facts with
  | nil => simp
  | cons a l ih => rw [List.foldl_cons, ih, mem_addFact, List.map_cons, List.mem_cons, or_assoc]

/-- A fact list after a loop of additions, with keys in place of ids. -/
theorem mem_facts_foldl {α β : Type} [DecidableEq α] [DecidableEq β] (toFact : α → β) (move : α → α)
    (facts l : List α) (x : β) :
    x ∈ (l.foldl (fun facts a => addFact facts (move a)) facts).map toFact ↔
      x ∈ facts.map toFact ∨ x ∈ l.map fun a => toFact (move a) := by
  simp only [List.mem_map, mem_foldl_addFact]
  constructor
  · rintro ⟨y, hy | ⟨a, ha, rfl⟩, rfl⟩
    · exact .inl ⟨y, hy, rfl⟩
    · exact .inr ⟨a, ha, rfl⟩
  · rintro (⟨y, hy, rfl⟩ | ⟨a, ha, rfl⟩)
    · exact ⟨y, .inl hy, rfl⟩
    · exact ⟨_, .inr ⟨a, ha, rfl⟩, rfl⟩

section Facts
variable {remap : SymbolId → SymbolId}

theorem forM_addEdge (l : List Edge)
    (h : ∀ e ∈ l, remap e.from < g.symbols.length ∧ remap e.to < g.symbols.length) :
    (l.forM fun e => addEdge (remap e.from) (remap e.to) e.kind e.evidence) g =
      .ok ⟨⟩ { g with
        edges := l.foldl (fun edges e => addFact edges ⟨remap e.from, remap e.to, e.kind, e.evidence⟩) g.edges } := by
  induction l generalizing g with
  | nil => rfl
  | cons e l ih =>
    refine bind_ok_iff.2 ⟨⟨⟩, _, guarded_ok_iff.2 ⟨?_, rfl, rfl⟩, ih fun e' he' => h e' (List.mem_cons_of_mem _ he')⟩
    obtain ⟨hfrom, hto⟩ := h e List.mem_cons_self
    exact not_or.2 ⟨Nat.not_le.2 hfrom, Nat.not_le.2 hto⟩

theorem forM_addRoot (l : List Root) (h : ∀ r ∈ l, remap r.symbol < g.symbols.length) :
    (l.forM fun r => addRoot (remap r.symbol) r.kind r.evidence) g =
      .ok ⟨⟩ { g with
        roots := l.foldl (fun roots r => addFact roots ⟨remap r.symbol, r.kind, r.evidence⟩) g.roots } := by
  induction l generalizing g with
  | nil => rfl
  | cons r l ih =>
    refine bind_ok_iff.2 ⟨⟨⟩, _, guarded_ok_iff.2 ⟨?_, rfl, rfl⟩, ih fun r' hr' => h r' (List.mem_cons_of_mem _ hr')⟩
    exact Nat.not_le.2 (h r List.mem_cons_self)

theorem forM_addEscape (l : List Escape)
    (h : ∀ e ∈ l, remap e.symbol < g.symbols.length ∧ ∀ f ∈ e.from, remap f < g.symbols.length) :
    (l.forM fun e => addEscape (remap e.symbol) e.kind e.evidence (e.from.map remap)) g =
      .ok ⟨⟩ { g with
        escapes := l.foldl (fun escapes e =>
          addFact escapes ⟨remap e.symbol, e.from.map remap, e.kind, e.evidence⟩) g.escapes } := by
  induction l generalizing g with
  | nil => rfl
  | cons e l ih =>
    refine bind_ok_iff.2 ⟨⟨⟩, _, guarded_ok_iff.2 ⟨?_, rfl, rfl⟩, ih fun e' he' => h e' (List.mem_cons_of_mem _ he')⟩
    obtain ⟨hsymbol, hfrom⟩ := h e List.mem_cons_self
    rw [not_or]
    refine ⟨Nat.not_le.2 hsymbol, ?_⟩
    cases hf : e.from with
    | none => simp
    | some f => simpa using hfrom f hf

theorem forM_addSuppression (l : List Suppression) (h : ∀ s ∈ l, remap s.symbol < g.symbols.length) :
    (l.forM fun s => addSuppression (remap s.symbol) s.evidence) g =
      .ok ⟨⟩ { g with
        suppressions := l.foldl (fun suppressions s =>
          addFact suppressions ⟨remap s.symbol, s.evidence⟩) g.suppressions } := by
  induction l generalizing g with
  | nil => rfl
  | cons s l ih =>
    refine bind_ok_iff.2 ⟨⟨⟩, _, guarded_ok_iff.2 ⟨?_, rfl, rfl⟩, ih fun s' hs' => h s' (List.mem_cons_of_mem _ hs')⟩
    exact Nat.not_le.2 (h s List.mem_cons_self)

end Facts

/-! ## A whole source -/

/-- What merging `source` into `g` does to the facts by key. -/
structure Merged (g source g' : Graph) : Prop where
  inv : g'.Inv
  record : ∀ key, g'.record key = mergedRecord (g.record key) (source.record key)
  edges : ∀ x, x ∈ g'.edgeFacts ↔ x ∈ g.edgeFacts ∨ x ∈ source.edgeFacts
  roots : ∀ x, x ∈ g'.rootFacts ↔ x ∈ g.rootFacts ∨ x ∈ source.rootFacts
  escapes : ∀ x, x ∈ g'.escapeFacts ↔ x ∈ g.escapeFacts ∨ x ∈ source.escapeFacts
  suppressions : ∀ x, x ∈ g'.suppressionFacts ↔ x ∈ g.suppressionFacts ∨ x ∈ source.suppressionFacts

theorem Inv.find_eq_record (hg : g.Inv) (key : Bytes) : g.symbols.find? (fun s => s.key == key) = g.record key := by
  cases hr : g.record key with
  | none =>
    refine List.find?_eq_none.2 fun s hs heq => ?_
    rw [hg.record_iff.2 ⟨hs, by simpa using heq⟩] at hr
    cases hr
  | some s =>
    obtain ⟨hs, hkey⟩ := hg.record_iff.1 hr
    cases hf : g.symbols.find? (fun s => s.key == key) with
    | none => exact absurd (by simpa using hkey) (List.find?_eq_none.1 hf s hs)
    | some t =>
      have ht := hg.record_iff.2 ⟨List.mem_of_find?_eq_some hf, by simpa using List.find?_some hf⟩
      rw [← hr, ht]

/-- The graph after the facts of `source`, whose symbols were added as `remap` says. -/
def withFacts (g source : Graph) (remap : SymbolId → SymbolId) : Graph :=
  { g with
    edges := source.edges.foldl
      (fun edges e => addFact edges ⟨remap e.from, remap e.to, e.kind, e.evidence⟩) g.edges
    roots := source.roots.foldl (fun roots r => addFact roots ⟨remap r.symbol, r.kind, r.evidence⟩) g.roots
    escapes := source.escapes.foldl (fun escapes e =>
      addFact escapes ⟨remap e.symbol, e.from.map remap, e.kind, e.evidence⟩) g.escapes
    suppressions := source.suppressions.foldl (fun suppressions s =>
      addFact suppressions ⟨remap s.symbol, s.evidence⟩) g.suppressions }

variable {source : Graph}

theorem mergeGraph_of_added {g₁ : Graph} {remap : List SymbolId} (hsource : source.Inv)
    (hmap : source.symbols.mapM addOrMergeSymbol g = .ok remap g₁)
    (hadded : SymbolsAdded g source.symbols remap g₁) :
    mergeGraph source g = .ok ⟨⟩ (g₁.withFacts source (remapped remap)) := by
  have hlt := hadded.remap_lt
  refine bind_ok_iff.2 ⟨remap, g₁, hmap, bind_ok_iff.2 ⟨⟨⟩, _, forM_addEdge source.edges fun e he => ?_,
    bind_ok_iff.2 ⟨⟨⟩, _, forM_addRoot source.roots fun r hr => ?_,
      bind_ok_iff.2 ⟨⟨⟩, _, forM_addEscape source.escapes fun e he => ?_,
        forM_addSuppression source.suppressions fun s hs => ?_⟩⟩⟩⟩
  · exact ⟨hlt _ (hsource.ids.edges e he).1, hlt _ (hsource.ids.edges e he).2⟩
  · exact hlt _ (hsource.ids.roots r hr)
  · exact ⟨hlt _ (hsource.ids.escapes e he).1, fun f hf => hlt _ ((hsource.ids.escapes e he).2 f hf)⟩
  · exact hlt _ (hsource.ids.suppressions s hs)

/-- Merging returns exactly when the records of common keys are compatible. -/
theorem mergeGraph_completes (hg : g.Inv) (hsource : source.Inv)
    (hc : ∀ s ∈ source.symbols, Compatible (g.record s.key) s) : ∃ g', mergeGraph source g = .ok ⟨⟩ g' := by
  obtain ⟨remap, g₁, hmap⟩ := addSymbols_completes source.symbols hsource.keys_nodup hg hsource.keys_ne
    hsource.not_excluded hc
  exact ⟨_, mergeGraph_of_added hsource hmap (addSymbols_spec _ hsource.keys_nodup hg hmap)⟩

theorem mergeGraph_ok (hg : g.Inv) (hsource : source.Inv) {u : Unit} (h : mergeGraph source g = .ok u g') :
    Merged g source g' ∧ ∀ s ∈ source.symbols, Compatible (g.record s.key) s := by
  obtain ⟨remap, g₁, hmap, -⟩ := bind_ok_iff.1 h
  have hadded := addSymbols_spec _ hsource.keys_nodup hg hmap
  have hg' : g'.Inv := Keeps.ok (mergeGraph_inv source) hg h
  rw [mergeGraph_of_added hsource hmap hadded] at h
  cases h
  have hkey : ∀ id < source.symbols.length, g₁.keyOf (remapped remap id) = source.keyOf id := hadded.keyOf_remap
  refine ⟨⟨hg', fun key => ?_, fun x => ?_, fun x => ?_, fun x => ?_, fun x => ?_⟩, hadded.compatible⟩
  · rw [← hsource.find_eq_record key]
    exact hadded.record key
  · rw [← hadded.ext.edgeFacts hg]
    refine (mem_facts_foldl _ _ g₁.edges source.edges x).trans (or_congr_right ?_)
    refine iff_of_eq (congrArg (x ∈ ·) (List.map_congr_left fun e he => ?_))
    show (g₁.keyOf _, g₁.keyOf _, _, _) = _
    rw [hkey _ (hsource.ids.edges e he).1, hkey _ (hsource.ids.edges e he).2]
    rfl
  · rw [← hadded.ext.rootFacts hg]
    refine (mem_facts_foldl _ _ g₁.roots source.roots x).trans (or_congr_right ?_)
    refine iff_of_eq (congrArg (x ∈ ·) (List.map_congr_left fun r hr => ?_))
    show (g₁.keyOf _, _, _) = _
    rw [hkey _ (hsource.ids.roots r hr)]
    rfl
  · rw [← hadded.ext.escapeFacts hg]
    refine (mem_facts_foldl _ _ g₁.escapes source.escapes x).trans (or_congr_right ?_)
    refine iff_of_eq (congrArg (x ∈ ·) (List.map_congr_left fun e he => ?_))
    show (g₁.keyOf _, Option.map g₁.keyOf _, _, _) = _
    have hfrom : (e.from.map (remapped remap)).map g₁.keyOf = e.from.map source.keyOf := by
      rw [Option.map_map]
      exact Option.map_congr fun f hf => hkey f ((hsource.ids.escapes e he).2 f hf)
    rw [hkey _ (hsource.ids.escapes e he).1, hfrom]
    rfl
  · rw [← hadded.ext.suppressionFacts hg]
    refine (mem_facts_foldl _ _ g₁.suppressions source.suppressions x).trans (or_congr_right ?_)
    refine iff_of_eq (congrArg (x ∈ ·) (List.map_congr_left fun s hs => ?_))
    show (g₁.keyOf _, _) = _
    rw [hkey _ (hsource.ids.suppressions s hs)]
    rfl

end Graph

end CxxDead
