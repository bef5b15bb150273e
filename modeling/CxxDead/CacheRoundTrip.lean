import CxxDead.Cache
import CxxDead.Generic
import CxxDead.JsonText
/-!
# Reading a cache entry back

- `readEntry_writeEntry`: an entry within the reader's limits comes back with its
  graph canonical and its paths generic, and one beyond them is refused.
- `readEntry_writeEntry_same`: what comes back is equal to the canonical entry.
-/

namespace CxxDead

open Lib Text

/-! ## Tokens -/

theorem isSpace_not_digit {c : UInt8} (h : Text.isSpace c = true) : Json.isDigit c = false := by
  simp only [Text.isSpace, Bool.or_eq_true, Bool.and_eq_true, beq_iff_eq, decide_eq_true_eq] at h
  rcases h with rfl | ⟨-, h⟩
  · decide
  · have hlt : c < ch '0' := lt_of_le_of_lt h (by decide)
    simp [Json.isDigit, not_le.2 hlt]

/-- The token in front of a separator. -/
theorem reads_extract {α : Type} (what : Bytes) {f : Bytes → Option (α × Bytes)} {token : Bytes} {a : α} {p : Prop}
    {after : Char} (hafter : Text.isSpace (ch after) = true) (hhead : ∃ c rest, token = c :: rest ∧ Text.isSpace c = false)
    (hsome : p → ∀ rest, f (token ++ ch after :: rest) = some (a, ch after :: rest))
    (hnone : ¬ p → ∀ rest, f (token ++ ch after :: rest) = none) :
    Reads Text.isSpace (Text.extract what f) (put token after) p a := by
  obtain ⟨c, more, rfl, hc⟩ := hhead
  intro s rest hs
  have hskip : s.dropWhile Text.isSpace = c :: more ++ ch after :: rest := by
    rw [hs, put, List.append_assoc, List.cons_append, List.dropWhile_cons_of_neg (by simp [hc])]
    rfl
  constructor
  · intro hp
    have hrun : (Text.extract what f).run s = .ok (a, ch after :: rest) := by
      simp only [StateT.run, Text.extract, hskip, hsome hp]
    exact ⟨_, hrun, List.dropWhile_cons_of_pos hafter⟩
  · intro hp
    have hrun : (Text.extract what f).run s = .error (.runtimeError what) := by
      simp only [StateT.run, Text.extract, hskip, hnone hp]
    exact ⟨_, hrun⟩

theorem quotedBody_quoted (s rest : Bytes) :
    quotedBody false
        ((s.flatMap fun c => if c = ch '"' ∨ c = ch '\\' then [ch '\\', c] else [c]) ++ ch '"' :: rest) =
      some (s, rest) := by
  induction s with
  | nil =>
    have hquote : ch '"' ≠ ch '\\' := by decide
    rw [List.flatMap_nil, List.nil_append, quotedBody, if_neg hquote, if_pos rfl]
  | cons c s ih =>
    rw [List.flatMap_cons, List.append_assoc]
    split
    · rw [List.cons_append, List.singleton_append, quotedBody, if_pos rfl, quotedBody, ih]
      rfl
    · rename_i hc
      rw [not_or] at hc
      rw [List.singleton_append, quotedBody, if_neg hc.2, if_neg hc.1, ih]
      rfl

variable {after : Char}

theorem reads_text (what s : Bytes) (hafter : Text.isSpace (ch after) = true) :
    Reads Text.isSpace (Text.extract what Text.text) (putText s after) True s := by
  refine reads_extract what hafter ⟨_, _, rfl, by decide⟩ (fun _ rest => ?_) fun h => absurd trivial h
  have hbody := quotedBody_quoted s (ch after :: rest)
  rw [← List.singleton_append, ← List.append_assoc] at hbody
  exact hbody

theorem reads_word (what : Bytes) {w : Bytes} (hw : ∀ c ∈ w, Text.isSpace c = false) (hne : w ≠ [])
    (hafter : Text.isSpace (ch after) = true) :
    Reads Text.isSpace (Text.extract what Text.word) (put w after) True w := by
  obtain ⟨c, rest, rfl⟩ := List.exists_cons_of_ne_nil hne
  refine reads_extract what hafter ⟨c, rest, rfl, hw c (by simp)⟩ (fun _ rest => ?_) fun h => absurd trivial h
  unfold Text.word
  rw [takeWhile_append_of_stop (by simpa using hw) (by simp [hafter])]
  simp only [if_neg hne, List.drop_left]

/-! ### Numbers -/

theorem signedDigits_decimal (n : Nat) (hafter : Text.isSpace (ch after) = true) (rest : Bytes) :
    signedDigits (decimal n ++ ch after :: rest) = some ((false, n), ch after :: rest) := by
  obtain ⟨c, more, hc⟩ := List.exists_cons_of_ne_nil (decimal_ne_nil n)
  have hdigit : Json.isDigit c = true := decimal_digits n c (by simp [hc])
  have hplus : c ≠ ch '-' ∧ c ≠ ch '+' := by
    constructor <;> rintro rfl <;> exact absurd hdigit (by decide)
  have htake := takeWhile_append_of_stop (decimal_digits n) (isSpace_not_digit hafter) rest
  unfold signedDigits
  rw [hc, List.cons_append]
  simp only [if_neg hplus.1, if_neg hplus.2]
  rw [← List.cons_append, ← hc, htake, if_neg (decimal_ne_nil n), decimal_value, List.drop_left]

theorem decimal_head (n : Nat) : ∃ c rest, decimal n = c :: rest ∧ Text.isSpace c = false := by
  obtain ⟨c, more, hc⟩ := List.exists_cons_of_ne_nil (decimal_ne_nil n)
  refine ⟨c, more, hc, ?_⟩
  by_contra hspace
  have hdigit : Json.isDigit c = true := decimal_digits n c (by simp [hc])
  rw [isSpace_not_digit (by simpa using hspace)] at hdigit
  cases hdigit

theorem reads_size (what : Bytes) (n : Nat) (hafter : Text.isSpace (ch after) = true) :
    Reads Text.isSpace (Text.extract what Text.size) (putNumber n after) (n < 2 ^ 64) n := by
  refine reads_extract what hafter (decimal_head n) (fun hn rest => ?_) fun hn rest => ?_
  · unfold Text.size
    rw [signedDigits_decimal n hafter]
    simp only [Option.bind_eq_bind, Option.bind_some, if_pos hn, Bool.false_eq_true, if_false]
  · unfold Text.size
    rw [signedDigits_decimal n hafter]
    simp only [Option.bind_eq_bind, Option.bind_some, if_neg hn]

theorem reads_int (what : Bytes) {n : Nat} (hn : n < 2 ^ 31) (hafter : Text.isSpace (ch after) = true) :
    Reads Text.isSpace (Text.extract what Text.int) (putNumber n after) True (n : Int) := by
  refine reads_extract what hafter (decimal_head n) (fun _ rest => ?_) fun h => absurd trivial h
  unfold Text.int
  rw [signedDigits_decimal n hafter]
  simp only [Option.bind_eq_bind, Option.bind_some, if_pos (Or.inl hn), Bool.false_eq_true, if_false]

theorem reads_flag (what : Bytes) (b : Bool) (hafter : Text.isSpace (ch after) = true) :
    Reads Text.isSpace (Text.extract what Text.flag) (putFlag b after) True b := by
  refine reads_extract what hafter (decimal_head _) (fun _ rest => ?_) fun h => absurd trivial h
  unfold Text.flag
  rw [signedDigits_decimal _ hafter]
  cases b <;> rfl

theorem reads_word64 (what : Bytes) (n : UInt64) (hafter : Text.isSpace (ch after) = true) :
    Reads Text.isSpace (Text.word64 what) (putNumber n.toNat after) True n := by
  have h := ((reads_size what n.toNat hafter).map (·.toUInt64)).congr (iff_true_intro n.toNat_lt)
  rwa [show n.toNat.toUInt64 = n by simp] at h

/-! ## Records of fields -/

theorem reads_point (point : SourcePoint) : Reads Text.isSpace readPoint (writePoint point) True point.generic := by
  unfold readPoint writePoint
  exact (reads_text _ _ (by decide)).next <| (reads_word64 _ _ (by decide)).next <|
    (reads_word64 _ _ (by decide)).next <| (reads_word64 _ _ (by decide)).next <|
    (reads_word64 _ _ (by decide)).done _

theorem reads_extent (extent : SourceExtent) :
    Reads Text.isSpace readExtent (writeExtent extent) True extent.generic :=
  (reads_point extent.location).next <| (reads_point extent.begin).next <| (reads_point extent.end).done _

theorem reads_evidence (evidence : Evidence) : Reads Text.isSpace readEvidence (writeEvidence evidence) True evidence :=
  (reads_text _ _ (by decide)).next <| (reads_text _ _ (by decide)).done _

theorem reads_checkedEnum {α : Type} {values : List α} (field : String) {code : Nat} {a : α}
    (h : values[code]? = some a) : Reads Text.isSpace (checkedEnum values field code) [] True a := by
  have heq : checkedEnum values field code = (pure a : CacheReader α) := by
    unfold checkedEnum
    rw [if_neg (by omega), Int.toNat_natCast, h]
  rw [heq]
  exact .pure a

theorem reads_modifyGraph {α : Type} {operation : GraphM α} {g g' : Graph} {a : α} (h : operation g = .ok a g') :
    Reads Text.isSpace (modifyGraph operation g) [] True g' := by
  have heq : modifyGraph operation g = (pure g' : CacheReader Graph) := by
    unfold modifyGraph
    rw [h]
  rw [heq]
  exact .pure g'

theorem reads_checkedCount (field : String) (n : Nat) :
    Reads Text.isSpace (checkedCount field) (putNumber n '\n') (n ≤ 10000000) n := by
  refine ((reads_size _ n (by decide)).last fun _ => (Reads.pure n).check).congr ?_
  simp only [and_true]
  omega

/-- A list with its count in front. -/
theorem reads_counted {α σ : Type} (field : String) {turn : σ → CacheReader σ} {item : α → Bytes} {l : List α}
    {s s' : σ} {p : Prop} (h : Reads Text.isSpace (readLoop turn l.length s) (l.flatMap item) p s') :
    Reads Text.isSpace (readCounted field turn s) (putList item l) (l.length ≤ 10000000 ∧ p) s' :=
  (reads_checkedCount field l.length).bind fun _ => h

theorem reads_expansion (expansion : Option SourceExtent) :
    Reads Text.isSpace readExpansion (writeExpansion expansion) True (expansion.map SourceExtent.generic) := by
  refine (reads_flag _ _ (by decide)).next ?_
  cases expansion with
  | none => exact .pure none
  | some extent => exact (reads_extent extent).map some

/-! ## Lists of records -/

theorem reads_dependency (dependency : CacheDependency) (l : List CacheDependency) :
    Reads Text.isSpace (readDependency l) (writeDependency dependency) True
      (l ++ [⟨dependency.path.generic, dependency.digest⟩]) :=
  (reads_text _ _ (by decide)).next <| (reads_text _ _ (by decide)).done _

theorem reads_registrationMatch (matched : Bool) (l : List Bool) :
    Reads Text.isSpace (readMatch l) (putFlag matched '\n') True (l ++ [matched]) := by
  have hlt : matched.toNat < 2 ^ 31 := lt_of_le_of_lt (Bool.toNat_le matched) (by norm_num)
  have hread : Reads Text.isSpace (readMatch l) (putFlag matched '\n') _ (l ++ [decide ((matched.toNat : Int) ≠ 0)]) :=
    (reads_int _ hlt (by decide)).last fun _ => (Reads.pure _).check
  have hvalue : decide ((matched.toNat : Int) ≠ 0) = matched := by cases matched <;> rfl
  rw [hvalue] at hread
  exact hread.congr (by cases matched <;> simp)

theorem reads_base (name : Bytes) (l : List Bytes) :
    Reads Text.isSpace (readBase l) (putText name '\n') True (l ++ [name]) :=
  (reads_text _ _ (by decide)).done _

theorem reads_diagnostic (diagnostic : Bytes) (l : List Bytes) :
    Reads Text.isSpace (readDiagnostic l) (putText diagnostic '\n') True (l ++ [diagnostic]) :=
  (reads_text _ _ (by decide)).done _

theorem reads_record (record : CachedRecordHierarchy) (l : List CachedRecordHierarchy) :
    Reads Text.isSpace (readRecord l) (writeRecord record) (record.bases.length ≤ 1000000) (l ++ [record]) := by
  have hbases : Reads Text.isSpace (readLoop readBase record.bases.length [])
      (record.bases.flatMap (putText · '\n')) (∀ a ∈ record.bases, True) (record.bases.map id) :=
    Reads.collect id record.bases fun name _ l => reads_base name l
  rw [List.map_id] at hbases
  refine ((reads_text _ _ (by decide)).next <| (reads_size _ _ (by decide)).bind fun _ =>
    (hbases.done _).check).congr ?_
  simp only [implies_true, and_true]
  omega

/-! ## The graph -/

/-- The graph with these symbols and no facts. -/
def ofSymbols (symbols : List Symbol) : Graph := { symbols, keyToId := Graph.indexKeys symbols }

theorem indexKeys_concat (symbols : List Symbol) (symbol : Symbol) :
    Graph.indexKeys (symbols ++ [symbol]) =
      Graph.emplaceKey (Graph.indexKeys symbols) symbol.key symbols.length := by
  unfold Graph.indexKeys
  rw [List.zipIdx_append, List.foldl_append, Nat.zero_add]
  rfl

theorem addOrMergeSymbol_ofSymbols {init : List Symbol} {symbol : Symbol} (hkey : symbol.key ≠ [])
    (hscope : symbol.scope ≠ .excluded) (hnew : ∀ s ∈ init, s.key ≠ symbol.key) :
    Graph.addOrMergeSymbol symbol (ofSymbols init) = .ok init.length (ofSymbols (init ++ [symbol])) := by
  have hnone : (ofSymbols init).findByKey symbol.key = none := by
    show (Graph.indexKeys init).lookup symbol.key = none
    rw [Graph.lookup_indexKeys, List.findIdx?_eq_none_iff]
    simpa using hnew
  unfold Graph.addOrMergeSymbol
  rw [if_neg hkey, if_neg hscope, hnone]
  simp only [ofSymbols, indexKeys_concat]

theorem reads_symbol {init : List Symbol} {symbol : Symbol} (hkey : symbol.key ≠ [])
    (hscope : symbol.scope ≠ .excluded) (hnew : ∀ s ∈ init, s.key ≠ symbol.key) :
    Reads Text.isSpace (readSymbol (ofSymbols (init.map Symbol.generic))) (writeSymbol symbol) True
      (ofSymbols ((init ++ [symbol]).map Symbol.generic)) := by
  have hnew' : ∀ s ∈ init.map Symbol.generic, s.key ≠ symbol.generic.key := by simpa [Symbol.generic] using hnew
  have hadd := addOrMergeSymbol_ofSymbols (show symbol.generic.key ≠ [] from hkey) hscope hnew'
  have hquality : [IdentityQuality.stable, .fallback][symbol.identity.quality.code]? =
      some symbol.identity.quality := by cases symbol.identity.quality <;> rfl
  have hkind : [SymbolKind.function, .method, .constructor, .destructor, .synthetic][symbol.kind.code]? =
      some symbol.kind := by cases symbol.kind <;> rfl
  have hscopes : [SymbolScope.reportable, .indexed, .externalOpaque, .excluded][symbol.scope.code]? =
      some symbol.scope := by cases symbol.scope <;> rfl
  have hlt : symbol.identity.quality.code < 2 ^ 31 ∧ symbol.kind.code < 2 ^ 31 ∧ symbol.scope.code < 2 ^ 31 := by
    refine ⟨?_, ?_, ?_⟩
    · cases symbol.identity.quality <;> decide
    · cases symbol.kind <;> decide
    · cases symbol.scope <;> decide
  rw [List.map_append, List.map_singleton]
  unfold readSymbol writeSymbol
  exact (reads_text _ _ (by decide)).next <| (reads_text _ _ (by decide)).next <|
    (reads_text _ _ (by decide)).next <| (reads_text _ _ (by decide)).next <|
    (reads_text _ _ (by decide)).next <| (reads_text _ _ (by decide)).next <|
    (reads_int _ hlt.1 (by decide)).next <| (reads_text _ _ (by decide)).next <|
    (reads_text _ _ (by decide)).next <| (reads_text _ _ (by decide)).next <|
    (reads_text _ _ (by decide)).next <| (reads_int _ hlt.2.1 (by decide)).next <|
    (reads_int _ hlt.2.2 (by decide)).next <| (reads_flag _ _ (by decide)).next <|
    (reads_flag _ _ (by decide)).next <| (reads_flag _ _ (by decide)).next <|
    (reads_checkedEnum _ hquality).next <| (reads_checkedEnum _ hkind).next <| (reads_checkedEnum _ hscopes).next <|
    (reads_extent _).next <| ((reads_expansion _).last fun _ => reads_modifyGraph hadd).congr (iff_of_eq (and_true _))

section Facts
variable {g : Graph} (hlen : g.symbols.length < 2 ^ 64)
include hlen

theorem reads_edge {init : List Edge} {edge : Edge}
    (hid : edge.from < g.symbols.length ∧ edge.to < g.symbols.length) (hnew : edge ∉ init) :
    Reads Text.isSpace (readEdge { g with edges := init }) (writeEdge edge) True { g with edges := init ++ [edge] } := by
  have hadd := @Graph.addEdge_new { g with edges := init } edge hid hnew
  have hkind : [EdgeKind.directCall, .constructs, .virtualDispatch, .callbackRegistration, .provider][edge.kind.code]? =
      some edge.kind := by cases edge.kind <;> rfl
  have hcode : edge.kind.code < 2 ^ 31 := by cases edge.kind <;> decide
  have hbound : ∀ {id : Nat}, id < g.symbols.length → id < 2 ^ 64 := fun h => lt_trans h hlen
  unfold readEdge writeEdge
  exact ((reads_size _ _ (by decide)).congr (iff_true_intro (hbound hid.1))).next <|
    ((reads_size _ _ (by decide)).congr (iff_true_intro (hbound hid.2))).next <|
    (reads_int _ hcode (by decide)).next <| (reads_checkedEnum _ hkind).next <|
    ((reads_evidence _).last fun _ => reads_modifyGraph hadd).congr (iff_of_eq (and_true _))

theorem reads_root {init : List Root} {root : Root} (hid : root.symbol < g.symbols.length) (hnew : root ∉ init) :
    Reads Text.isSpace (readRoot { g with roots := init }) (writeRoot root) True { g with roots := init ++ [root] } := by
  have hadd := @Graph.addRoot_new { g with roots := init } root hid hnew
  have hkind : [RootKind.applicationEntryPoint, .globalInitializer, .manual, .callbackRegistration, .provider,
      .publicApi][root.kind.code]? = some root.kind := by cases root.kind <;> rfl
  have hcode : root.kind.code < 2 ^ 31 := by cases root.kind <;> decide
  unfold readRoot writeRoot
  exact ((reads_size _ _ (by decide)).congr (iff_true_intro (lt_trans hid hlen))).next <|
    (reads_int _ hcode (by decide)).next <| (reads_checkedEnum _ hkind).next <|
    ((reads_evidence _).last fun _ => reads_modifyGraph hadd).congr (iff_of_eq (and_true _))

theorem reads_escape {init : List Escape} {escape : Escape}
    (hid : escape.symbol < g.symbols.length ∧ ∀ f ∈ escape.from, f < g.symbols.length) (hnew : escape ∉ init) :
    Reads Text.isSpace (readEscape { g with escapes := init }) (writeEscape escape) True
      { g with escapes := init ++ [escape] } := by
  have horigin : (if escape.from.isSome = true then some (escape.from.getD 0) else none) = escape.from := by
    cases escape.from <;> rfl
  have hadd := @Graph.addEscape_new { g with escapes := init } escape hid hnew
  rw [← horigin] at hadd
  have hkind : [EscapeKind.addressTaken, .callableObject, .provider][escape.kind.code]? = some escape.kind := by
    cases escape.kind <;> rfl
  have hcode : escape.kind.code < 2 ^ 31 := by cases escape.kind <;> decide
  have hfrom : escape.from.getD 0 < 2 ^ 64 := by
    cases hf : escape.from with
    | none => simp
    | some f => exact lt_trans (hid.2 f hf) hlen
  unfold readEscape writeEscape
  exact ((reads_size _ _ (by decide)).congr (iff_true_intro (lt_trans hid.1 hlen))).next <|
    (reads_flag _ _ (by decide)).next <| ((reads_size _ _ (by decide)).congr (iff_true_intro hfrom)).next <|
    (reads_int _ hcode (by decide)).next <| (reads_checkedEnum _ hkind).next <|
    ((reads_evidence _).last fun _ => reads_modifyGraph hadd).congr (iff_of_eq (and_true _))

theorem reads_suppression {init : List Suppression} {suppression : Suppression}
    (hid : suppression.symbol < g.symbols.length) (hnew : suppression ∉ init) :
    Reads Text.isSpace (readSuppression { g with suppressions := init }) (writeSuppression suppression) True
      { g with suppressions := init ++ [suppression] } := by
  have hadd := @Graph.addSuppression_new { g with suppressions := init } suppression hid hnew
  unfold readSuppression writeSuppression
  exact ((reads_size _ _ (by decide)).congr (iff_true_intro (lt_trans hid hlen))).next <|
    ((reads_evidence _).last fun _ => reads_modifyGraph hadd).congr (iff_of_eq (and_true _))

end Facts

/-- A loop over facts without repetition. -/
theorem reads_facts {α : Type} {turn : Graph → CacheReader Graph} {item : α → Bytes} (state : List α → Graph)
    {l : List α} (hnodup : l.Nodup)
    (h : ∀ init a, a ∈ l → a ∉ init → Reads Text.isSpace (turn (state init)) (item a) True (state (init ++ [a]))) :
    Reads Text.isSpace (readLoop turn l.length (state [])) (l.flatMap item) True (state l) := by
  refine (Reads.loop state l fun init a rest hl => h init a (by rw [← hl]; simp) fun hmem => ?_).congr (by simp)
  rw [← hl] at hnodup
  exact (List.nodup_append'.1 hnodup).2.2 hmem (by simp)

theorem reads_symbols {g : Graph} (hg : g.Inv) :
    Reads Text.isSpace (readLoop readSymbol g.symbols.length {}) (g.symbols.flatMap writeSymbol) True
      (ofSymbols (g.symbols.map Symbol.generic)) := by
  have hloop : Reads Text.isSpace (readLoop readSymbol g.symbols.length {}) (g.symbols.flatMap writeSymbol)
      (∀ s ∈ g.symbols, True) (ofSymbols (g.symbols.map Symbol.generic)) := by
    refine Reads.loop (fun init => ofSymbols (init.map Symbol.generic)) g.symbols fun init a rest hl => ?_
    have hmem : a ∈ g.symbols := by rw [← hl]; simp
    refine reads_symbol (hg.keys_ne a hmem) (hg.not_excluded a hmem) fun s hs hkey => ?_
    have hnodup := hg.keys_nodup
    rw [← hl, List.map_append, List.map_cons] at hnodup
    exact (List.nodup_append'.1 hnodup).2.2 (List.mem_map.2 ⟨s, hs, hkey⟩) (by simp)
  exact hloop.congr (by simp)

/-! ## The entry -/

/-- What the reader gives back for an entry. -/
def stored (entry : TranslationUnitCacheEntry) : TranslationUnitCacheEntry :=
  { entry with
    graph := entry.graph.canonicalize.generic
    dependencies := entry.dependencies.map fun d => ⟨d.path.generic, d.digest⟩ }

/-- The counts that the reader accepts. -/
structure WithinLimits (entry : TranslationUnitCacheEntry) : Prop where
  dependencies : entry.dependencies.length ≤ 10000000
  registrationRuleMatches : entry.registrationRuleMatches.length ≤ 10000000
  recordHierarchy : entry.recordHierarchy.length ≤ 10000000
  bases : ∀ record ∈ entry.recordHierarchy, record.bases.length ≤ 1000000
  diagnostics : entry.diagnostics.length ≤ 10000000
  symbols : entry.graph.symbols.length ≤ 10000000
  edges : entry.graph.edges.length ≤ 10000000
  roots : entry.graph.roots.length ≤ 10000000
  escapes : entry.graph.escapes.length ≤ 10000000
  suppressions : entry.graph.suppressions.length ≤ 10000000

/-! ### The five loops -/

def afterSymbols (g : Graph) : Graph := ofSymbols (g.symbols.map Symbol.generic)

def afterEdges (g : Graph) : Graph := { afterSymbols g with edges := g.edges }

def afterRoots (g : Graph) : Graph := { afterEdges g with roots := g.roots }

def afterEscapes (g : Graph) : Graph := { afterRoots g with escapes := g.escapes }

theorem afterSymbols_length (g : Graph) : (afterSymbols g).symbols.length = g.symbols.length := List.length_map _

section Sections
variable {g : Graph} (hg : g.Inv) (hlen : g.symbols.length < 2 ^ 64)
include hg

theorem reads_symbolSection :
    Reads Text.isSpace (readCounted "symbol" readSymbol {}) (putList writeSymbol g.symbols)
      (g.symbols.length ≤ 10000000) (afterSymbols g) :=
  (reads_counted "symbol" (reads_symbols hg)).congr (iff_of_eq (and_true _))

include hlen

theorem reads_edgeSection :
    Reads Text.isSpace (readCounted "edge" readEdge (afterSymbols g)) (putList writeEdge g.edges)
      (g.edges.length ≤ 10000000) (afterEdges g) := by
  rw [← afterSymbols_length] at hlen
  have hloop := reads_facts (fun init => { afterSymbols g with edges := init }) hg.edges_nodup fun init e he hnew =>
    reads_edge hlen (by rw [afterSymbols_length]; exact hg.ids.edges e he) hnew
  exact (reads_counted "edge" hloop).congr (iff_of_eq (and_true _))

theorem reads_rootSection :
    Reads Text.isSpace (readCounted "root" readRoot (afterEdges g)) (putList writeRoot g.roots)
      (g.roots.length ≤ 10000000) (afterRoots g) := by
  have hsymbols : (afterEdges g).symbols.length = g.symbols.length := afterSymbols_length g
  rw [← hsymbols] at hlen
  have hloop := reads_facts (fun init => { afterEdges g with roots := init }) hg.roots_nodup fun init r hr hnew =>
    reads_root hlen (by rw [hsymbols]; exact hg.ids.roots r hr) hnew
  exact (reads_counted "root" hloop).congr (iff_of_eq (and_true _))

theorem reads_escapeSection :
    Reads Text.isSpace (readCounted "escape" readEscape (afterRoots g)) (putList writeEscape g.escapes)
      (g.escapes.length ≤ 10000000) (afterEscapes g) := by
  have hsymbols : (afterRoots g).symbols.length = g.symbols.length := afterSymbols_length g
  rw [← hsymbols] at hlen
  have hloop := reads_facts (fun init => { afterRoots g with escapes := init }) hg.escapes_nodup fun init e he hnew =>
    reads_escape hlen (by rw [hsymbols]; exact hg.ids.escapes e he) hnew
  exact (reads_counted "escape" hloop).congr (iff_of_eq (and_true _))

/-- A turn of the last loop. -/
theorem reads_suppressionTurn {init : List Suppression} {suppression : Suppression}
    (hmem : suppression ∈ g.suppressions) (hnew : suppression ∉ init) :
    Reads Text.isSpace (readSuppression { afterEscapes g with suppressions := init }) (writeSuppression suppression) True
      { afterEscapes g with suppressions := init ++ [suppression] } := by
  have hsymbols : (afterEscapes g).symbols.length = g.symbols.length := afterSymbols_length g
  rw [← hsymbols] at hlen
  exact reads_suppression hlen (by rw [hsymbols]; exact hg.ids.suppressions suppression hmem) hnew

theorem reads_suppressionSection :
    Reads Text.isSpace (readCounted "suppression" readSuppression (afterEscapes g))
      (putList writeSuppression g.suppressions) (g.suppressions.length ≤ 10000000)
      { afterEscapes g with suppressions := g.suppressions } := by
  have hloop := reads_facts (fun init => { afterEscapes g with suppressions := init }) hg.suppressions_nodup
    fun init s hs hnew => reads_suppressionTurn hg hlen hs hnew
  exact (reads_counted "suppression" hloop).congr (iff_of_eq (and_true _))

end Sections

/-- The graph that the five loops build. -/
theorem reads_graph {g : Graph} (hg : g.Inv) (hindex : g.keyToId = Graph.indexKeys g.symbols) :
    Reads Text.isSpace readGraph (writeGraph g)
      (g.symbols.length ≤ 10000000 ∧ g.edges.length ≤ 10000000 ∧ g.roots.length ≤ 10000000 ∧
        g.escapes.length ≤ 10000000 ∧ g.suppressions.length ≤ 10000000) g.generic := by
  have hend : { afterEscapes g with suppressions := g.suppressions } = g.generic := by
    show Graph.mk _ _ (Graph.indexKeys (g.symbols.map Symbol.generic)) _ _ _ = Graph.mk _ _ g.keyToId _ _ _
    rw [Graph.indexKeys_generic, hindex]
    rfl
  rw [← hend]
  refine (reads_symbolSection hg).bind fun hsymbols => ?_
  have hlen : g.symbols.length < 2 ^ 64 := lt_of_le_of_lt hsymbols (by norm_num)
  exact (reads_edgeSection hg hlen).bind fun _ => (reads_rootSection hg hlen).bind fun _ =>
    (reads_escapeSection hg hlen).bind fun _ => reads_suppressionSection hg hlen

theorem reads_header (expected key : Bytes) :
    Reads Text.isSpace (readHeader expected) (writeHeader key) (key = expected) () := by
  have hmagic : ∀ c ∈ lit "cxx-dead-tu-cache", Text.isSpace c = false := by
    simpa using List.any_eq_false.1 (by decide : (lit "cxx-dead-tu-cache").any Text.isSpace = false)
  unfold readHeader writeHeader
  exact (reads_word _ hmagic (by decide) (by decide)).next <|
    (reads_int _ (show translationUnitCacheSchemaVersion < 2 ^ 31 by decide) (by decide)).next <|
    ((reads_text _ _ (by decide)).last fun _ => (Reads.pure ()).check).congr (by simp)

/-- The facts of an entry whose graph is canonical. -/
theorem reads_entryFacts {entry : TranslationUnitCacheEntry} (hg : entry.graph.Inv)
    (hindex : entry.graph.keyToId = Graph.indexKeys entry.graph.symbols) :
    Reads Text.isSpace readFacts (writeFacts entry) (WithinLimits entry)
      { entry with
        graph := entry.graph.generic
        dependencies := entry.dependencies.map fun d => ⟨d.path.generic, d.digest⟩ } := by
  have hdependencies := reads_counted "dependency"
    (Reads.collect (fun d : CacheDependency => ⟨d.path.generic, d.digest⟩) entry.dependencies
      fun d _ l => reads_dependency d l)
  have hmatches := reads_counted "callback match"
    (Reads.collect id entry.registrationRuleMatches fun m _ l => reads_registrationMatch m l)
  have hrecords := reads_counted "record hierarchy"
    (Reads.collect id entry.recordHierarchy fun record _ l => reads_record record l)
  have hdiagnostics := reads_counted "diagnostic"
    (Reads.collect id entry.diagnostics fun d _ l => reads_diagnostic d l)
  rw [List.map_id] at hmatches hrecords hdiagnostics
  refine ((reads_word64 _ entry.astBytes (by decide)).next <| (reads_word64 _ entry.factBytes (by decide)).next <|
    hdependencies.bind fun _ => hmatches.bind fun _ => hrecords.bind fun _ => hdiagnostics.bind fun _ =>
    (reads_graph hg hindex).done _).congr ?_
  simp only [implies_true, and_true]
  constructor
  · rintro ⟨h₁, h₂, ⟨h₃, h₄⟩, h₅, h₆, h₇, h₈, h₉, h₁₀⟩
    exact ⟨h₁, h₂, h₃, h₄, h₅, h₆, h₇, h₈, h₉, h₁₀⟩
  · rintro ⟨h₁, h₂, h₃, h₄, h₅, h₆, h₇, h₈, h₉, h₁₀⟩
    exact ⟨h₁, h₂, ⟨h₃, h₄⟩, h₅, h₆, h₇, h₈, h₉, h₁₀⟩

theorem withinLimits_canonicalize (entry : TranslationUnitCacheEntry) :
    WithinLimits { entry with graph := entry.graph.canonicalize } ↔ WithinLimits entry := by
  have hsymbols : entry.graph.canonicalize.symbols.length = entry.graph.symbols.length :=
    (Graph.canonicalize_symbols_perm entry.graph).length_eq
  have hedges : entry.graph.canonicalize.edges.length = entry.graph.edges.length := by
    simp [Graph.canonicalize, length_sortOn]
  have hroots : entry.graph.canonicalize.roots.length = entry.graph.roots.length := by
    simp [Graph.canonicalize, length_sortOn]
  have hescapes : entry.graph.canonicalize.escapes.length = entry.graph.escapes.length := by
    simp [Graph.canonicalize, length_sortOn]
  have hsuppressions : entry.graph.canonicalize.suppressions.length = entry.graph.suppressions.length := by
    simp [Graph.canonicalize, length_sortOn]
  constructor
  · intro h
    exact ⟨h.dependencies, h.registrationRuleMatches, h.recordHierarchy, h.bases, h.diagnostics, hsymbols ▸ h.symbols,
      hedges ▸ h.edges, hroots ▸ h.roots, hescapes ▸ h.escapes, hsuppressions ▸ h.suppressions⟩
  · intro h
    exact ⟨h.dependencies, h.registrationRuleMatches, h.recordHierarchy, h.bases, h.diagnostics, hsymbols ▸ h.symbols,
      hedges ▸ h.edges, hroots ▸ h.roots, hescapes ▸ h.escapes, hsuppressions ▸ h.suppressions⟩

/-- An entry within the limits comes back as `stored` says; any other is refused. -/
theorem readEntry_writeEntry (key : Bytes) {entry : TranslationUnitCacheEntry} (hg : entry.graph.Inv) :
    (WithinLimits entry → readEntry key (writeEntry key entry) = .ok (stored entry)) ∧
    (¬ WithinLimits entry → ∃ e, readEntry key (writeEntry key entry) = .error e) := by
  have hcanonical : ({ entry with graph := entry.graph.canonicalize } : TranslationUnitCacheEntry).graph.Inv :=
    Graph.canonicalize_inv hg
  have hread := ((reads_header key key).congr (iff_true_intro rfl)).next (f := fun _ => readFacts)
    (reads_entryFacts hcanonical rfl)
  obtain ⟨hok, herror⟩ := hread (writeEntry key entry) [] (by rw [List.append_nil]; rfl)
  rw [withinLimits_canonicalize] at hok herror
  unfold readEntry
  constructor
  · intro h
    obtain ⟨s', hrun, hend⟩ := hok h
    rw [hrun]
    show (if s'.dropWhile Text.isSpace ≠ [] then _ else _) = _
    rw [hend]
    rfl
  · intro h
    obtain ⟨e, hrun⟩ := herror h
    rw [hrun]
    exact ⟨e, rfl⟩

/-! ## Equal entries -/

structure CacheDependency.Same (d d' : CacheDependency) : Prop where
  path : d.path.same d'.path = true
  digest : d.digest = d'.digest

/-- Equal entries, where paths are equal by components. -/
structure TranslationUnitCacheEntry.Same (entry entry' : TranslationUnitCacheEntry) : Prop where
  graph : entry.graph.Same entry'.graph
  dependencies : List.Forall₂ CacheDependency.Same entry.dependencies entry'.dependencies
  rest : { entry with graph := entry'.graph, dependencies := entry'.dependencies } = entry'

theorem stored_same (entry : TranslationUnitCacheEntry) :
    (stored entry).Same { entry with graph := entry.graph.canonicalize } :=
  ⟨entry.graph.canonicalize.same_generic,
    List.forall₂_map_left_iff.2 (List.forall₂_same.2 fun d _ => ⟨d.path.same_generic, rfl⟩), rfl⟩

theorem readEntry_writeEntry_same (key : Bytes) {entry : TranslationUnitCacheEntry} (hg : Built entry.graph)
    (hlimits : WithinLimits entry) :
    ∃ entry', readEntry key (writeEntry key entry) = .ok entry' ∧
      entry'.Same { entry with graph := entry.graph.canonicalize } :=
  ⟨stored entry, (readEntry_writeEntry key hg.inv).1 hlimits, stored_same entry⟩

def awkwardSymbol : Symbol :=
  { key := lit "f key", name := lit "\\f", defined := true, scope := .reportable
    source := { spelling := { location := { file := ⟨lit "/p//a.cpp"⟩, line := 3 } } } }

def awkwardGraph : Graph :=
  endState (Graph.addRoot 0 .manual ⟨[], lit "a \"root\""⟩) (endState (Graph.addOrMergeSymbol awkwardSymbol) {})

/-- An entry with quotes, backslashes, newlines, empty strings and paths that are not generic. -/
def awkwardEntry : TranslationUnitCacheEntry :=
  { graph := awkwardGraph
    diagnostics := [lit "a \"quoted\"\nline", [], lit "back\\slash"]
    registrationRuleMatches := [true, false]
    recordHierarchy := [⟨lit "Derived", [lit "Base one", []]⟩]
    dependencies := [⟨⟨lit "/p//a.h"⟩, lit "digest"⟩]
    astBytes := 7 }

theorem awkwardEntry_read : ∃ entry', readEntry (lit "k 1") (writeEntry (lit "k 1") awkwardEntry) = .ok entry' ∧
    entry'.Same { awkwardEntry with graph := awkwardGraph.canonicalize } :=
  readEntry_writeEntry_same _
    (show Built awkwardGraph from .addRoot 0 .manual _ (.addOrMergeSymbol awkwardSymbol .empty))
    ⟨by decide, by decide, by decide, by decide, by decide, by decide, by decide, by decide, by decide, by decide⟩

end CxxDead
