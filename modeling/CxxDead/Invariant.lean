import CxxDead.Graph
/-!
# The graph invariant

- `Inv`: the key index is the inverse of the symbols' keys, keys are distinct and
  not empty, nothing is excluded, facts refer to symbols and none is repeated.
- `Built.inv`: every graph that the operations build keeps it, those that throw
  included.
-/

namespace CxxDead

open Lib

namespace Graph

/-- Every fact refers to a symbol of the graph. -/
structure ValidIds (g : Graph) : Prop where
  edges : ∀ e ∈ g.edges, e.from < g.symbols.length ∧ e.to < g.symbols.length
  roots : ∀ r ∈ g.roots, r.symbol < g.symbols.length
  escapes : ∀ e ∈ g.escapes, e.symbol < g.symbols.length ∧ ∀ f ∈ e.from, f < g.symbols.length
  suppressions : ∀ s ∈ g.suppressions, s.symbol < g.symbols.length

structure Inv (g : Graph) : Prop where
  keys_nodup : (g.symbols.map (·.key)).Nodup
  keys_ne : ∀ s ∈ g.symbols, s.key ≠ []
  not_excluded : ∀ s ∈ g.symbols, s.scope ≠ .excluded
  findByKey_iff : ∀ (key : Bytes) (id : Nat), g.findByKey key = some id ↔ id < g.symbols.length ∧ (g.symbol id).key = key
  ids : g.ValidIds
  edges_nodup : g.edges.Nodup
  roots_nodup : g.roots.Nodup
  escapes_nodup : g.escapes.Nodup
  suppressions_nodup : g.suppressions.Nodup

variable {g : Graph}

theorem inv_empty : Inv {} :=
  ⟨List.nodup_nil, by simp, by simp, by simp [findByKey], ⟨by simp, by simp, by simp, by simp⟩,
    List.nodup_nil, List.nodup_nil, List.nodup_nil, List.nodup_nil⟩

theorem symbol_eq {id : SymbolId} (h : id < g.symbols.length) : g.symbol id = g.symbols[id] := by
  simp [symbol, h]

theorem symbol_mem {id : SymbolId} (h : id < g.symbols.length) : g.symbol id ∈ g.symbols := by
  rw [symbol_eq h]
  exact List.getElem_mem h

theorem mem_symbols_iff {s : Symbol} : s ∈ g.symbols ↔ ∃ id < g.symbols.length, g.symbol id = s := by
  constructor
  · intro hs
    obtain ⟨id, hid, rfl⟩ := List.mem_iff_getElem.1 hs
    exact ⟨id, hid, symbol_eq hid⟩
  · rintro ⟨id, hid, rfl⟩
    exact symbol_mem hid

theorem map_symbol_range (g : Graph) : (List.range g.symbols.length).map g.symbol = g.symbols := by
  refine List.ext_getElem (by simp) fun i h _ => ?_
  rw [List.getElem_map, List.getElem_range, symbol_eq (by simpa using h)]

/-- A symbol is determined by its key. -/
theorem Inv.key_inj (h : g.Inv) {a b : SymbolId} (ha : a < g.symbols.length) (hb : b < g.symbols.length)
    (hkey : (g.symbol a).key = (g.symbol b).key) : a = b := by
  have := (h.findByKey_iff _ _).2 ⟨ha, hkey⟩
  rw [(h.findByKey_iff _ _).2 ⟨hb, rfl⟩] at this
  exact (Option.some.inj this).symm

theorem Inv.findByKey_none (h : g.Inv) {key : Bytes} (hnone : g.findByKey key = none) :
    ∀ s ∈ g.symbols, s.key ≠ key := by
  intro s hs hkey
  obtain ⟨id, hid, rfl⟩ := mem_symbols_iff.1 hs
  rw [(h.findByKey_iff key id).2 ⟨hid, hkey⟩] at hnone
  cases hnone

/-! ## Adding facts -/

theorem mem_addFact {α : Type} [DecidableEq α] {facts : List α} {fact x : α} :
    x ∈ addFact facts fact ↔ x ∈ facts ∨ x = fact := by
  unfold addFact
  split
  · rename_i h
    exact ⟨.inl, fun hx => hx.elim id fun hx => hx ▸ h⟩
  · simp

theorem addFact_nodup {α : Type} [DecidableEq α] {facts : List α} (h : facts.Nodup) (fact : α) :
    (addFact facts fact).Nodup := by
  unfold addFact
  split
  · exact h
  · rename_i hnot
    exact List.nodup_append'.2 ⟨h, List.nodup_singleton _, by simpa using hnot⟩

/-- Adding a fact that is not there appends it. -/
theorem addEdge_new {edge : Edge} (hid : edge.from < g.symbols.length ∧ edge.to < g.symbols.length)
    (hnew : edge ∉ g.edges) : addEdge edge.from edge.to edge.kind edge.evidence g =
      .ok () { g with edges := g.edges ++ [edge] } := by
  unfold addEdge addFact
  rw [if_neg (not_or.2 ⟨Nat.not_le.2 hid.1, Nat.not_le.2 hid.2⟩), if_neg hnew]

theorem addRoot_new {root : Root} (hid : root.symbol < g.symbols.length) (hnew : root ∉ g.roots) :
    addRoot root.symbol root.kind root.evidence g = .ok () { g with roots := g.roots ++ [root] } := by
  unfold addRoot addFact
  rw [if_neg (Nat.not_le.2 hid), if_neg hnew]

theorem addEscape_new {escape : Escape}
    (hid : escape.symbol < g.symbols.length ∧ ∀ f ∈ escape.from, f < g.symbols.length) (hnew : escape ∉ g.escapes) :
    addEscape escape.symbol escape.kind escape.evidence escape.from g =
      .ok () { g with escapes := g.escapes ++ [escape] } := by
  have hfrom : ¬ escape.from.any (fun f => decide (f ≥ g.symbols.length)) = true := by
    cases hf : escape.from with
    | none => simp
    | some f => simpa using hid.2 f hf
  unfold addEscape addFact
  rw [if_neg (not_or.2 ⟨Nat.not_le.2 hid.1, hfrom⟩), if_neg hnew]

theorem addSuppression_new {suppression : Suppression} (hid : suppression.symbol < g.symbols.length)
    (hnew : suppression ∉ g.suppressions) : addSuppression suppression.symbol suppression.evidence g =
      .ok () { g with suppressions := g.suppressions ++ [suppression] } := by
  unfold addSuppression addFact
  rw [if_neg (Nat.not_le.2 hid), if_neg hnew]

theorem addEdge_inv («from» «to» : SymbolId) (kind : EdgeKind) (evidence : Evidence) :
    Keeps Inv (addEdge «from» «to» kind evidence) := by
  refine Keeps.guarded fun g h hid => ?_
  push Not at hid
  refine ⟨h.keys_nodup, h.keys_ne, h.not_excluded, h.findByKey_iff,
    ⟨fun e he => ?_, h.ids.roots, h.ids.escapes, h.ids.suppressions⟩, addFact_nodup h.edges_nodup _,
    h.roots_nodup, h.escapes_nodup, h.suppressions_nodup⟩
  rcases mem_addFact.1 he with he | rfl
  · exact h.ids.edges e he
  · exact hid

theorem addRoot_inv (id : SymbolId) (kind : RootKind) (evidence : Evidence) :
    Keeps Inv (addRoot id kind evidence) := by
  refine Keeps.guarded fun g h hid => ?_
  refine ⟨h.keys_nodup, h.keys_ne, h.not_excluded, h.findByKey_iff,
    ⟨h.ids.edges, fun r hr => ?_, h.ids.escapes, h.ids.suppressions⟩, h.edges_nodup,
    addFact_nodup h.roots_nodup _, h.escapes_nodup, h.suppressions_nodup⟩
  rcases mem_addFact.1 hr with hr | rfl
  · exact h.ids.roots r hr
  · exact Nat.lt_of_not_le hid

theorem addEscape_inv (id : SymbolId) (kind : EscapeKind) (evidence : Evidence) («from» : Option SymbolId) :
    Keeps Inv (addEscape id kind evidence «from») := by
  refine Keeps.guarded fun g h hid => ?_
  rw [not_or] at hid
  refine ⟨h.keys_nodup, h.keys_ne, h.not_excluded, h.findByKey_iff,
    ⟨h.ids.edges, h.ids.roots, fun e he => ?_, h.ids.suppressions⟩, h.edges_nodup, h.roots_nodup,
    addFact_nodup h.escapes_nodup _, h.suppressions_nodup⟩
  rcases mem_addFact.1 he with he | rfl
  · exact h.ids.escapes e he
  · refine ⟨Nat.lt_of_not_le hid.1, fun f hf => ?_⟩
    have hnot := hid.2
    rw [show «from» = some f from hf] at hnot
    simpa using hnot

theorem addSuppression_inv (id : SymbolId) (evidence : Evidence) : Keeps Inv (addSuppression id evidence) := by
  refine Keeps.guarded fun g h hid => ?_
  refine ⟨h.keys_nodup, h.keys_ne, h.not_excluded, h.findByKey_iff,
    ⟨h.ids.edges, h.ids.roots, h.ids.escapes, fun s hs => ?_⟩, h.edges_nodup, h.roots_nodup,
    h.escapes_nodup, addFact_nodup h.suppressions_nodup _⟩
  rcases mem_addFact.1 hs with hs | rfl
  · exact h.ids.suppressions s hs
  · exact Nat.lt_of_not_le hid

/-! ## Adding symbols -/

theorem mergeSymbol_ok {target source merged : Symbol} (h : mergeSymbol target source = .ok merged) :
    (∀ check ∈ compatibility target source, check.1 = true) ∧ merged = mergeFields target source := by
  unfold mergeSymbol at h
  split at h
  · cases h
  · rename_i hnone
    refine ⟨fun check hc => ?_, by cases h; rfl⟩
    simpa using List.find?_eq_none.1 hnone check hc

theorem mergeFields_key (target source : Symbol) : (mergeFields target source).key = target.key := rfl

theorem mergeFields_scope (target source : Symbol) :
    (mergeFields target source).scope = target.scope ∨ (mergeFields target source).scope = source.scope := by
  unfold mergeFields
  dsimp only
  split
  · exact .inr rfl
  · exact .inl rfl

/-- What `addOrMergeSymbol` does when it returns: it merges into the symbol with
the same key, or appends. -/
theorem addOrMergeSymbol_ok {s : Symbol} {g g' : Graph} {id : SymbolId} (h : addOrMergeSymbol s g = .ok id g') :
    s.key ≠ [] ∧ s.scope ≠ .excluded ∧
      ((∃ merged, g.findByKey s.key = some id ∧ mergeSymbol (g.symbol id) s = .ok merged ∧
          g' = { g with symbols := g.symbols.set id merged }) ∨
        (g.findByKey s.key = none ∧ id = g.symbols.length ∧
          g' = { g with
            keyToId := emplaceKey g.keyToId s.key g.symbols.length
            symbols := g.symbols ++ [s] })) := by
  unfold addOrMergeSymbol at h
  split at h
  · cases h
  · rename_i hkey
    split at h
    · cases h
    · rename_i hscope
      refine ⟨hkey, hscope, ?_⟩
      split at h
      · rename_i found hfound
        split at h
        · cases h
        · rename_i merged hmerged
          cases h
          exact .inl ⟨merged, hfound, hmerged, rfl⟩
      · rename_i hnone
        cases h
        exact .inr ⟨hnone, rfl, rfl⟩

/-- A throw leaves the graph as it was. -/
theorem addOrMergeSymbol_error {s : Symbol} {g g' : Graph} {e : Exception}
    (h : addOrMergeSymbol s g = .error e g') : g' = g := by
  unfold addOrMergeSymbol at h
  repeat' split at h
  all_goals cases h
  all_goals rfl

theorem symbol_set {id : SymbolId} (hid : id < g.symbols.length) (s : Symbol) (other : Nat) :
    ({ g with symbols := g.symbols.set id s } : Graph).symbol other = if other = id then s else g.symbol other := by
  unfold symbol
  rw [List.getD_eq_getElem?_getD, List.getD_eq_getElem?_getD]
  by_cases h : other = id
  · subst h
    simp [hid]
  · rw [List.getElem?_set_ne (Ne.symm h), if_neg h]

theorem symbol_append (index : List (Bytes × SymbolId)) (s : Symbol) (other : Nat) :
    ({ g with keyToId := index, symbols := g.symbols ++ [s] } : Graph).symbol other =
      if other = g.symbols.length then s else g.symbol other := by
  unfold symbol
  rw [List.getD_eq_getElem?_getD, List.getD_eq_getElem?_getD]
  rcases lt_trichotomy other g.symbols.length with h | h | h
  · rw [List.getElem?_append_left h, if_neg (ne_of_lt h)]
  · simp [h]
  · have hout : (g.symbols ++ [s])[other]? = none :=
      List.getElem?_eq_none (by rw [List.length_append, List.length_singleton]; omega)
    rw [hout, List.getElem?_eq_none (le_of_lt h), if_neg (by omega)]

theorem Inv.set (h : g.Inv) {id : SymbolId} (hid : id < g.symbols.length) {s : Symbol}
    (hkey : s.key = (g.symbol id).key) (hscope : s.scope ≠ .excluded) :
    ({ g with symbols := g.symbols.set id s } : Graph).Inv := by
  have hlen : (g.symbols.set id s).length = g.symbols.length := List.length_set
  have hkeys : (g.symbols.set id s).map (·.key) = g.symbols.map (·.key) := by
    rw [List.map_set, hkey, symbol_eq hid]
    refine List.ext_getElem? fun i => ?_
    rw [List.getElem?_set]
    split
    · rename_i hi; subst hi; simp [hid]
    · rfl
  refine ⟨hkeys ▸ h.keys_nodup, fun t ht => ?_, fun t ht => ?_, fun key other => ?_,
    ⟨fun e he => ?_, fun r hr => ?_, fun e he => ?_, fun t ht => ?_⟩, h.edges_nodup, h.roots_nodup,
    h.escapes_nodup, h.suppressions_nodup⟩
  · rcases List.mem_or_eq_of_mem_set ht with ht | rfl
    · exact h.keys_ne t ht
    · rw [hkey]
      exact h.keys_ne _ (symbol_mem hid)
  · rcases List.mem_or_eq_of_mem_set ht with ht | rfl
    · exact h.not_excluded t ht
    · exact hscope
  · rw [symbol_set hid]
    show g.findByKey key = some other ↔ other < (g.symbols.set id s).length ∧ _
    rw [h.findByKey_iff, hlen]
    split
    · rename_i hother; rw [hother, hkey]
    · rfl
  · show _ < (g.symbols.set id s).length ∧ _ < (g.symbols.set id s).length
    rw [hlen]
    exact h.ids.edges e he
  · show _ < (g.symbols.set id s).length
    rw [hlen]
    exact h.ids.roots r hr
  · show _ < (g.symbols.set id s).length ∧ ∀ f ∈ e.from, f < (g.symbols.set id s).length
    rw [hlen]
    exact h.ids.escapes e he
  · show _ < (g.symbols.set id s).length
    rw [hlen]
    exact h.ids.suppressions t ht

theorem findByKey_append {s : Symbol} (hnone : g.findByKey s.key = none) (key : Bytes) :
    (emplaceKey g.keyToId s.key g.symbols.length).lookup key =
      if key = s.key then some g.symbols.length else g.findByKey key := by
  unfold emplaceKey
  rw [if_neg (by rw [show g.keyToId.lookup s.key = none from hnone]; simp), List.lookup_append]
  by_cases h : key = s.key
  · subst h
    rw [if_pos rfl, show g.keyToId.lookup s.key = none from hnone]
    simp
  · rw [if_neg h, List.lookup_cons, show (key == s.key) = false by simpa using h]
    simp [findByKey]

theorem Inv.append (h : g.Inv) {s : Symbol} (hnone : g.findByKey s.key = none) (hkey : s.key ≠ [])
    (hscope : s.scope ≠ .excluded) :
    ({ g with
      keyToId := emplaceKey g.keyToId s.key g.symbols.length
      symbols := g.symbols ++ [s] } : Graph).Inv := by
  have hlen : (g.symbols ++ [s]).length = g.symbols.length + 1 := by simp
  have hlt : ∀ {id}, id < g.symbols.length → id < (g.symbols ++ [s]).length := fun hid => by omega
  refine ⟨?_, fun t ht => ?_, fun t ht => ?_, fun key id => ?_,
    ⟨fun e he => ⟨hlt (h.ids.edges e he).1, hlt (h.ids.edges e he).2⟩, fun r hr => hlt (h.ids.roots r hr),
      fun e he => ⟨hlt (h.ids.escapes e he).1, fun f hf => hlt ((h.ids.escapes e he).2 f hf)⟩,
      fun t ht => hlt (h.ids.suppressions t ht)⟩, h.edges_nodup, h.roots_nodup,
    h.escapes_nodup, h.suppressions_nodup⟩
  · rw [List.map_append, List.nodup_append']
    refine ⟨h.keys_nodup, List.nodup_singleton _, fun k hk hk' => ?_⟩
    obtain ⟨t, ht, rfl⟩ := List.mem_map.1 hk
    exact h.findByKey_none hnone t ht (List.mem_singleton.1 hk')
  · rcases List.mem_append.1 ht with ht | ht
    · exact h.keys_ne t ht
    · rwa [List.mem_singleton.1 ht]
  · rcases List.mem_append.1 ht with ht | ht
    · exact h.not_excluded t ht
    · rwa [List.mem_singleton.1 ht]
  · rw [symbol_append]
    show (emplaceKey g.keyToId s.key g.symbols.length).lookup key = some id ↔ id < (g.symbols ++ [s]).length ∧ _
    rw [findByKey_append hnone, hlen]
    by_cases hk : key = s.key
    · rw [if_pos hk]
      constructor
      · intro hid
        cases hid
        exact ⟨by omega, by rw [if_pos rfl, hk]⟩
      · rintro ⟨hid, hkid⟩
        split at hkid
        · rename_i heq; rw [heq]
        · have hlt : id < g.symbols.length := by omega
          exact absurd (hkid.trans hk) (h.findByKey_none hnone _ (symbol_mem hlt))
    · rw [if_neg hk, h.findByKey_iff]
      constructor
      · rintro ⟨hid, hkid⟩
        exact ⟨by omega, by rw [if_neg (by omega)]; exact hkid⟩
      · rintro ⟨hid, hkid⟩
        split at hkid
        · exact absurd hkid.symm hk
        · exact ⟨by omega, hkid⟩

theorem addOrMergeSymbol_inv (s : Symbol) : Keeps Inv (addOrMergeSymbol s) := by
  intro g h
  unfold endState
  split
  · rename_i id g' hok
    obtain ⟨hkey, hscope, ⟨merged, hfound, hmerged, rfl⟩ | ⟨hnone, rfl, rfl⟩⟩ := addOrMergeSymbol_ok hok
    · obtain ⟨hid, hkid⟩ := (h.findByKey_iff _ _).1 hfound
      obtain ⟨-, rfl⟩ := mergeSymbol_ok hmerged
      refine h.set hid rfl ?_
      rcases mergeFields_scope (g.symbol id) s with heq | heq
      · rw [heq]; exact h.not_excluded _ (symbol_mem hid)
      · rw [heq]; exact hscope
    · exact h.append hnone hkey hscope
  · rename_i hbad
    rw [addOrMergeSymbol_error hbad]
    exact h

end Graph

theorem mergeGraph_inv (source : Graph) : Keeps Graph.Inv (mergeGraph source) := by
  unfold mergeGraph
  refine (Keeps.mapM Graph.addOrMergeSymbol_inv _).bind fun remap => ?_
  refine (Keeps.forM (fun e => Graph.addEdge_inv _ _ _ _) _).bind fun _ => ?_
  refine (Keeps.forM (fun r => Graph.addRoot_inv _ _ _) _).bind fun _ => ?_
  refine (Keeps.forM (fun e => Graph.addEscape_inv _ _ _ _) _).bind fun _ => ?_
  exact Keeps.forM (fun s => Graph.addSuppression_inv _ _) _

end CxxDead
