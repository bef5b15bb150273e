import CxxDead.Merge
/-!
# Paths in generic spelling

Stored graphs spell their paths generically. `Path.same_iff` says that this loses
nothing that comparing paths can see, and `mergeFields_generic` that merging does
not see it either.
-/

namespace CxxDead

open Lib

namespace Path

/-! ## The generic spelling of a path -/

/-- What the file names of a path look like. -/
structure IsNames (ns : List Bytes) : Prop where
  no_slash : ∀ n ∈ ns, slash ∉ n
  ne_nil : ∀ n ∈ ns.dropLast, n ≠ []
  head_ne : ns.head? ≠ some []

theorem not_mem_splitOn {α : Type} [BEq α] [LawfulBEq α] (a : α) (l : List α) : ∀ part ∈ l.splitOn a, a ∉ part := by
  induction l with
  | nil => simp
  | cons x l ih =>
    rw [List.splitOn_cons_eq_if_modifyHead]
    split
    · simpa using ih
    · rename_i hx
      have hne : a ≠ x := by rintro rfl; simp at hx
      cases hs : l.splitOn a with
      | nil => exact absurd hs (List.splitOn_ne_nil a l)
      | cons part parts =>
        rw [hs] at ih
        simp only [List.modifyHead_cons, List.mem_cons, forall_eq_or_imp] at ih ⊢
        exact ⟨by simp [hne, ih.1], ih.2⟩

theorem dropWhile_slash (s : Bytes) :
    s.dropWhile (· == slash) = [] ∨ ∃ c rest, s.dropWhile (· == slash) = c :: rest ∧ c ≠ slash := by
  induction s with
  | nil => exact .inl rfl
  | cons c s ih =>
    by_cases hc : c = slash
    · rwa [List.dropWhile_cons_of_pos (by simp [hc])]
    · exact .inr ⟨c, s, List.dropWhile_cons_of_neg (by simp [hc]), hc⟩

theorem names_isNames (s : Bytes) : IsNames (names s) := by
  unfold names
  rcases dropWhile_slash s with hnil | ⟨c, rest, hcons, hc⟩
  · rw [hnil]
    exact ⟨by simp, by simp, by simp⟩
  · have hsplit : ∃ first parts, (c :: rest).splitOn slash = (c :: first) :: parts := by
      rw [List.splitOn_cons_eq_if_modifyHead, if_neg (by simpa using hc)]
      cases hs : rest.splitOn slash with
      | nil => exact absurd hs (List.splitOn_ne_nil slash rest)
      | cons first parts => exact ⟨first, parts, rfl⟩
    have hno := not_mem_splitOn slash (c :: rest)
    obtain ⟨first, parts, hparts⟩ := hsplit
    rw [hparts] at hno
    rw [hcons, hparts]
    simp only [List.cons.injEq, reduceCtorEq, false_and, if_false]
    refine ⟨fun n hn => ?_, fun n hn => ?_, ?_⟩
    · rcases List.mem_append.1 hn with hn | hn
      · exact hno n (List.mem_of_mem_dropLast (List.mem_of_mem_filter hn))
      · rw [List.mem_singleton.1 hn, List.getLast?_eq_some_getLast (List.cons_ne_nil _ _), Option.getD_some]
        exact hno _ (List.getLast_mem _)
    · rw [List.dropLast_concat] at hn
      simpa using List.of_mem_filter hn
    · cases parts with
      | nil => simp
      | cons part parts => simp

theorem intercalate_head {ns : List Bytes} (h : IsNames ns) :
    ([slash].intercalate ns).dropWhile (· == slash) = [slash].intercalate ns := by
  cases ns with
  | nil => rfl
  | cons n ns =>
    cases n with
    | nil => exact absurd rfl h.head_ne
    | cons c n =>
      have hc : c ≠ slash := by
        rintro rfl
        exact h.no_slash _ List.mem_cons_self List.mem_cons_self
      have hhead : ∃ rest, [slash].intercalate ((c :: n) :: ns) = c :: rest := by
        cases ns with
        | nil => exact ⟨n, by simp⟩
        | cons m ns => exact ⟨_, by rw [List.intercalate_cons_cons, List.cons_append, List.cons_append]⟩
      obtain ⟨rest, hrest⟩ := hhead
      rw [hrest, List.dropWhile_cons_of_neg (by simpa using hc)]

theorem names_joinNames {ns : List Bytes} (h : IsNames ns) (abs : Bool) : names (joinNames abs ns) = ns := by
  have hdrop : (joinNames abs ns).dropWhile (· == slash) = [slash].intercalate ns := by
    unfold joinNames
    cases abs with
    | true =>
      rw [if_pos rfl, List.singleton_append, List.dropWhile_cons_of_pos (by simp)]
      exact intercalate_head h
    | false => exact intercalate_head h
  unfold names
  rw [hdrop]
  by_cases hnil : ns = []
  · rw [hnil]
    rfl
  · rw [List.splitOn_intercalate slash h.no_slash hnil]
    have hne : ns ≠ [[]] := by
      rintro rfl
      exact h.head_ne rfl
    have hfilter : ns.dropLast.filter (· ≠ []) = ns.dropLast := List.filter_eq_self.2 (by simpa using h.ne_nil)
    simp only [if_neg hne]
    rw [hfilter, List.getLast?_eq_some_getLast hnil, Option.getD_some, List.dropLast_append_getLast]

theorem isAbsolute_joinNames {ns : List Bytes} (h : IsNames ns) (abs : Bool) :
    (Path.mk (joinNames abs ns)).isAbsolute = abs := by
  unfold isAbsolute joinNames
  cases abs with
  | true => simp
  | false =>
    have hhead := intercalate_head h
    simp only [Bool.false_eq_true, if_false, List.nil_append]
    cases hs : [slash].intercalate ns with
    | nil => rfl
    | cons c rest =>
      rw [hs] at hhead
      have hc : c ≠ slash := by
        rintro rfl
        rw [List.dropWhile_cons_of_pos (by simp)] at hhead
        have hle := (List.dropWhile_sublist (fun x => x == slash) (l := rest)).length_le
        rw [hhead] at hle
        simp at hle
      simpa using hc

theorem names_generic (p : Path) : names p.generic.text = names p.text := names_joinNames (names_isNames _) _

theorem isAbsolute_generic (p : Path) : p.generic.isAbsolute = p.isAbsolute := isAbsolute_joinNames (names_isNames _) _

theorem genericString_generic (p : Path) : p.generic.genericString = p.genericString := by
  unfold genericString
  rw [names_generic, isAbsolute_generic]

theorem generic_generic (p : Path) : p.generic.generic = p.generic := congrArg Path.mk (genericString_generic p)

theorem isEmpty_generic (p : Path) : p.generic.isEmpty = p.isEmpty := by
  cases hp : p.text with
  | nil => simp [generic, genericString, isEmpty, isAbsolute, names, joinNames, hp]
  | cons c rest =>
    rw [show p.isEmpty = false by simp [isEmpty, hp]]
    by_contra hempty
    have htext : p.generic.text = [] := by simpa [isEmpty] using hempty
    have habs := isAbsolute_generic p
    have hnames := names_generic p
    rw [htext] at hnames
    have hc : c ≠ slash := by
      rintro rfl
      simp [isAbsolute, htext, hp] at habs
    rw [hp] at hnames
    unfold names at hnames
    rw [List.dropWhile_cons_of_neg (by simpa using hc)] at hnames
    have hnil : (c :: rest).splitOn slash ≠ [[]] := by
      intro heq
      have hback : [slash].intercalate ((c :: rest).splitOn slash) = c :: rest := List.intercalate_splitOn slash
      rw [heq] at hback
      simp at hback
    simp [hnil] at hnames

/-- Equal paths are those with one generic spelling. -/
theorem same_iff {p q : Path} : p.same q = true ↔ p.generic = q.generic := by
  have hroot : ∀ p q : Path, p.isAbsolute = true → q.isAbsolute = false → p.components ≠ q.components := by
    intro p q hp hq heq
    have hmem : [slash] ∈ names q.text := by
      have hroot : [slash] ∈ p.components := by simp [components, hp]
      rwa [heq, components, hq] at hroot
    exact (names_isNames q.text).no_slash _ hmem (by simp)
  unfold same
  rw [beq_iff_eq]
  constructor
  · intro heq
    have habs : p.isAbsolute = q.isAbsolute := by
      cases hp : p.isAbsolute <;> cases hq : q.isAbsolute
      · rfl
      · exact absurd heq.symm (hroot q p hq hp)
      · exact absurd heq (hroot p q hp hq)
      · rfl
    have hnames : names p.text = names q.text := by
      unfold components at heq
      rw [habs] at heq
      cases hq : q.isAbsolute <;> simpa [hq] using heq
    unfold generic genericString
    rw [habs, hnames]
  · intro heq
    have habs := isAbsolute_generic p
    have hnames := names_generic p
    rw [heq, isAbsolute_generic] at habs
    rw [heq, names_generic] at hnames
    unfold components
    rw [habs, hnames]

end Path

/-! ## Graphs with generic paths -/

def SourcePoint.generic (point : SourcePoint) : SourcePoint := { point with file := point.file.generic }

def SourceExtent.generic (extent : SourceExtent) : SourceExtent :=
  { location := extent.location.generic, begin := extent.begin.generic, «end» := extent.end.generic }

def SymbolSource.generic (source : SymbolSource) : SymbolSource :=
  { spelling := source.spelling.generic, expansion := source.expansion.map SourceExtent.generic }

def Symbol.generic (symbol : Symbol) : Symbol := { symbol with source := symbol.source.generic }

theorem SourceExtent.generic_generic (extent : SourceExtent) : extent.generic.generic = extent.generic := by
  simp only [SourceExtent.generic, SourcePoint.generic, Path.generic_generic]

theorem Symbol.generic_generic (symbol : Symbol) : symbol.generic.generic = symbol.generic := by
  have hexpansion : (symbol.source.expansion.map SourceExtent.generic).map SourceExtent.generic =
      symbol.source.expansion.map SourceExtent.generic := by
    rw [Option.map_map]
    exact Option.map_congr fun extent _ => extent.generic_generic
  simp only [Symbol.generic, SymbolSource.generic, SourceExtent.generic_generic, hexpansion]

namespace Graph

def generic (g : Graph) : Graph := { g with symbols := g.symbols.map Symbol.generic }

variable {g : Graph}

theorem generic_generic (g : Graph) : g.generic.generic = g.generic := by
  unfold generic
  rw [List.map_map]
  congr 1
  exact List.map_congr_left fun s _ => s.generic_generic

theorem symbol_generic (g : Graph) (id : SymbolId) : g.generic.symbol id = (g.symbol id).generic := by
  show (g.symbols.map Symbol.generic).getD id {} = (g.symbols.getD id {}).generic
  rw [List.getD_eq_getElem?_getD, List.getD_eq_getElem?_getD, List.getElem?_map]
  cases g.symbols[id]? <;> rfl

theorem keyOf_generic (g : Graph) (id : SymbolId) : g.generic.keyOf id = g.keyOf id := by
  unfold keyOf
  rw [symbol_generic]
  rfl

theorem Inv.generic (hg : g.Inv) : g.generic.Inv := by
  have hlen : g.generic.symbols.length = g.symbols.length := List.length_map _
  have hkeys : g.generic.symbols.map (·.key) = g.symbols.map (·.key) := List.map_map
  refine ⟨hkeys ▸ hg.keys_nodup, fun s hs => ?_, fun s hs => ?_, fun key id => ?_, ⟨fun e he => ?_, fun r hr => ?_,
    fun e he => ?_, fun s hs => ?_⟩, hg.edges_nodup, hg.roots_nodup, hg.escapes_nodup, hg.suppressions_nodup⟩
  · obtain ⟨s, hmem, rfl⟩ := List.mem_map.1 hs
    exact hg.keys_ne s hmem
  · obtain ⟨s, hmem, rfl⟩ := List.mem_map.1 hs
    exact hg.not_excluded s hmem
  · rw [hlen, symbol_generic]
    exact hg.findByKey_iff key id
  · rw [hlen]
    exact hg.ids.edges e he
  · rw [hlen]
    exact hg.ids.roots r hr
  · rw [hlen]
    exact hg.ids.escapes e he
  · rw [hlen]
    exact hg.ids.suppressions s hs

theorem record_generic (g : Graph) (key : Bytes) : g.generic.record key = (g.record key).map Symbol.generic := by
  unfold record
  rw [Option.map_map, show g.generic.symbol = Symbol.generic ∘ g.symbol from funext fun id => symbol_generic g id]
  rfl

theorem edgeFacts_generic (g : Graph) : g.generic.edgeFacts = g.edgeFacts :=
  List.map_congr_left fun e _ => by simp only [edgeFact, keyOf_generic]

theorem rootFacts_generic (g : Graph) : g.generic.rootFacts = g.rootFacts :=
  List.map_congr_left fun r _ => by simp only [rootFact, keyOf_generic]

theorem escapeFacts_generic (g : Graph) : g.generic.escapeFacts = g.escapeFacts :=
  List.map_congr_left fun e _ => by
    simp only [escapeFact, keyOf_generic, show g.generic.keyOf = g.keyOf from funext fun id => keyOf_generic g id]

theorem suppressionFacts_generic (g : Graph) : g.generic.suppressionFacts = g.suppressionFacts :=
  List.map_congr_left fun s _ => by simp only [suppressionFact, keyOf_generic]

theorem indexKeys_generic (symbols : List Symbol) : indexKeys (symbols.map Symbol.generic) = indexKeys symbols := by
  unfold indexKeys
  rw [List.zipIdx_map, List.foldl_map]
  rfl

theorem canonicalize_generic (g : Graph) : g.generic.canonicalize = g.canonicalize.generic := by
  have horder : g.generic.keyOrder = g.keyOrder := by
    unfold keyOrder
    rw [show (fun id => (g.generic.symbol id).key) = fun id => (g.symbol id).key from
      funext fun id => keyOf_generic g id, show g.generic.symbols.length = g.symbols.length from List.length_map _]
  have hid : g.generic.canonicalId = g.canonicalId := by
    funext id
    unfold canonicalId
    rw [horder]
  have hsymbols : g.keyOrder.map g.generic.symbol = (g.keyOrder.map g.symbol).map Symbol.generic := by
    rw [List.map_map]
    exact List.map_congr_left fun id _ => symbol_generic g id
  unfold canonicalize
  rw [horder, hid, hsymbols]
  simp only [indexKeys_generic]
  rfl

end Graph

/-! ## Records that are equal where paths are equal by components -/

theorem Path.same_generic (p : Path) : p.generic.same p = true := Path.same_iff.2 p.generic_generic

structure SourcePoint.Same (p q : SourcePoint) : Prop where
  file : p.file.same q.file = true
  rest : { p with file := q.file } = q

structure SourceExtent.Same (p q : SourceExtent) : Prop where
  location : p.location.Same q.location
  begin : p.begin.Same q.begin
  «end» : p.end.Same q.end

structure Symbol.Same (p q : Symbol) : Prop where
  spelling : p.source.spelling.Same q.source.spelling
  expansion : Option.Rel SourceExtent.Same p.source.expansion q.source.expansion
  rest : { p with source := q.source } = q

structure Graph.Same (g h : Graph) : Prop where
  symbols : List.Forall₂ Symbol.Same g.symbols h.symbols
  rest : { g with symbols := h.symbols } = h

theorem SourcePoint.same_generic (point : SourcePoint) : point.generic.Same point :=
  ⟨point.file.same_generic, rfl⟩

theorem SourceExtent.same_generic (extent : SourceExtent) : extent.generic.Same extent :=
  ⟨extent.location.same_generic, extent.begin.same_generic, extent.end.same_generic⟩

theorem Symbol.same_generic (symbol : Symbol) : symbol.generic.Same symbol := by
  refine ⟨symbol.source.spelling.same_generic, ?_, rfl⟩
  show Option.Rel _ (symbol.source.expansion.map SourceExtent.generic) symbol.source.expansion
  cases symbol.source.expansion with
  | none => exact .none
  | some extent => exact .some extent.same_generic

/-- The generic spelling changes nothing that `operator==` on paths sees. -/
theorem Graph.same_generic (g : Graph) : g.generic.Same g :=
  ⟨List.forall₂_map_left_iff.2 (List.forall₂_same.2 fun symbol _ => symbol.same_generic), rfl⟩

/-! ## Merging does not see the spelling -/

theorem sourceOrder_generic (source : SymbolSource) : sourceOrder source.generic = sourceOrder source := by
  cases hexpansion : source.expansion with
  | none =>
    simp only [sourceOrder, SymbolSource.generic, hexpansion, Option.map_none, Option.getD_none, SourceExtent.generic,
      SourcePoint.generic, Path.genericString_generic]
  | some extent =>
    simp only [sourceOrder, SymbolSource.generic, hexpansion, Option.map_some, Option.getD_some, SourceExtent.generic,
      SourcePoint.generic, Path.genericString_generic]

theorem primarySourceExtent_generic (symbol : Symbol) :
    primarySourceExtent symbol.generic = (primarySourceExtent symbol).generic := by
  simp only [primarySourceExtent, Symbol.generic, SymbolSource.generic]
  cases symbol.source.expansion <;> rfl

theorem compatibility_generic (target source : Symbol) :
    compatibility target.generic source.generic = compatibility target source := rfl

theorem mergeFields_generic (target source : Symbol) :
    mergeFields target.generic source.generic = (mergeFields target source).generic := by
  have hpeer : canonicalPeer target.generic source.generic = canonicalPeer target source := by
    unfold canonicalPeer
    rw [show target.generic.source = target.source.generic from rfl,
      show source.generic.source = source.source.generic from rfl, sourceOrder_generic, sourceOrder_generic]
    rfl
  have hempty : ∀ symbol : Symbol, (primarySourceExtent symbol.generic).location.file.isEmpty =
      (primarySourceExtent symbol).location.file.isEmpty := fun symbol => by
    rw [primarySourceExtent_generic]
    exact Path.isEmpty_generic _
  unfold mergeFields
  rw [hpeer, hempty, hempty]
  simp only [Symbol.generic, apply_ite SymbolSource.generic]
  rfl

namespace Graph

theorem mergedRecord_generic (target source : Option Symbol) :
    mergedRecord (target.map Symbol.generic) (source.map Symbol.generic) =
      (mergedRecord target source).map Symbol.generic := by
  cases source with
  | none => cases target <;> rfl
  | some s =>
    cases target with
    | none => rfl
    | some t => exact congrArg some (mergeFields_generic t s)

variable {g h s t g' : Graph}

/-- The facts of a merge, paths generic. -/
theorem Merged.generic (hm : Merged g s g') : Merged g.generic s.generic g'.generic := by
  refine ⟨hm.inv.generic, fun key => ?_, fun x => ?_, fun x => ?_, fun x => ?_, fun x => ?_⟩
  · rw [record_generic, record_generic, record_generic, hm.record, mergedRecord_generic]
  · simpa only [edgeFacts_generic] using hm.edges x
  · simpa only [rootFacts_generic] using hm.roots x
  · simpa only [escapeFacts_generic] using hm.escapes x
  · simpa only [suppressionFacts_generic] using hm.suppressions x

theorem Merged.sameFacts {h' : Graph} (hm : Merged g s g') (hm' : Merged h t h') (hg : SameFacts g h)
    (hs : SameFacts s t) : SameFacts g' h' :=
  ⟨fun key => by rw [hm.record, hm'.record, hg.record, hs.record],
    fun x => by rw [hm.edges, hm'.edges, hg.edges, hs.edges], fun x => by rw [hm.roots, hm'.roots, hg.roots, hs.roots],
    fun x => by rw [hm.escapes, hm'.escapes, hg.escapes, hs.escapes],
    fun x => by rw [hm.suppressions, hm'.suppressions, hg.suppressions, hs.suppressions]⟩

/-- Records that look alike in generic spelling. -/
theorem SameFacts.record_some (hgh : SameFacts g.generic h.generic) {key : Bytes} {x : Symbol}
    (hx : h.record key = some x) : ∃ y, g.record key = some y ∧ y.generic = x.generic := by
  have hrecord := hgh.record key
  rw [record_generic, record_generic, hx, Option.map_some, Option.map_eq_some_iff] at hrecord
  exact hrecord

/-- Merging sources with the same facts into graphs with the same facts: both return or neither does, and
the results have the same facts. -/
theorem mergeGraph_congr (hg : g.Inv) (hh : h.Inv) (hs : s.Inv) (ht : t.Inv)
    (hgh : SameFacts g.generic h.generic) (hst : SameFacts s.generic t.generic)
    (hm : mergeGraph s g = .ok ⟨⟩ g') :
    ∃ h', mergeGraph t h = .ok ⟨⟩ h' ∧ h'.Inv ∧ SameFacts g'.generic h'.generic := by
  obtain ⟨hmerged, hcompatible⟩ := mergeGraph_ok hg hs hm
  have hcompatible' : ∀ y ∈ t.symbols, Compatible (h.record y.key) y := by
    intro y hy target htarget check hcheck
    obtain ⟨x, hx, hxy⟩ := hst.record_some (ht.record_iff.2 ⟨hy, rfl⟩)
    obtain ⟨target', htarget', heq⟩ := hgh.record_some htarget
    obtain ⟨hxmem, hxkey⟩ := hs.record_iff.1 hx
    rw [← compatibility_generic, ← heq, ← hxy, compatibility_generic] at hcheck
    exact hcompatible x hxmem target' (by rw [hxkey]; exact htarget') check hcheck
  obtain ⟨h', hm'⟩ := mergeGraph_completes hh ht hcompatible'
  have hmerged' := (mergeGraph_ok hh ht hm').1
  exact ⟨h', hm', hmerged'.inv, hmerged.generic.sameFacts hmerged'.generic hgh hst⟩

end Graph

end CxxDead
