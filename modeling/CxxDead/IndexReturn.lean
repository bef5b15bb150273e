import CxxDead.CacheLookup
import CxxDead.Growth
import CxxDead.RunOutcome
/-!
# What an index run returns

A run that returns has indexed every command and answers the whole command line: the
graph is canonical and rooted, each manual root is a root or has a diagnostic, and each
public header has been seen. A run that fails never claims to be complete.

- `indexUnits_counted`: what the loop counts, unit by unit.
- `finishIndex_answers`: what is checked after the last unit.
- `index_returns`: what each outcome of a run guarantees.
-/

namespace CxxDead

open Lib CxxDead.Graph

namespace Indexer

/-! ## What is kept of a graph -/

/-- The symbols of `g`, and at least its roots. -/
structure KeepsRoots (g g' : Graph) : Prop where
  built : Built g'
  symbols : g'.symbols.Perm g.symbols
  roots : g.rootFacts ⊆ g'.rootFacts

theorem KeepsRoots.refl {g : Graph} (hg : Built g) : KeepsRoots g g := ⟨hg, .refl _, List.Subset.refl _⟩

section Operations
variable {g : Graph}

theorem keepsRoots_operation {m : GraphM Unit} (hbuilt : ∀ g₁, Built g₁ → Built (endState m g₁))
    (hgrown : ∀ g, Keeps (GrownFrom g) m) (hsymbols : ∀ g₁, (endState m g₁).symbols = g₁.symbols) :
    Keeps (KeepsRoots g) m := by
  intro g₁ h
  refine ⟨hbuilt g₁ h.built, ?_, fun x hx => ?_⟩
  · rw [hsymbols]
    exact h.symbols
  · exact (hgrown g₁ g₁ ⟨h.built.inv, .refl _⟩).2.roots x (h.roots hx)

theorem symbols_guarded {c : Graph → Prop} [DecidablePred c] {e : Exception} {change : Graph → Graph}
    (h : ∀ g, (change g).symbols = g.symbols) (g : Graph) :
    (endState (fun g₁ => if c g₁ then EStateM.Result.error e g₁ else .ok () (change g₁)) g).symbols = g.symbols := by
  unfold endState
  dsimp only
  by_cases hc : c g
  · rw [if_pos hc]
  · rw [if_neg hc]
    exact h g

theorem addEdge_keepsRoots (a b : SymbolId) (kind : EdgeKind) (evidence : Evidence) :
    Keeps (KeepsRoots g) (addEdge a b kind evidence) :=
  keepsRoots_operation (fun _ => .addEdge a b kind evidence) (fun _ => addEdge_grown a b kind evidence)
    (symbols_guarded fun _ => rfl)

theorem addRoot_keepsRoots (id : SymbolId) (kind : RootKind) (evidence : Evidence) :
    Keeps (KeepsRoots g) (addRoot id kind evidence) :=
  keepsRoots_operation (fun _ => .addRoot id kind evidence) (fun _ => addRoot_grown id kind evidence)
    (symbols_guarded fun _ => rfl)

theorem addEscape_keepsRoots (id : SymbolId) (kind : EscapeKind) (evidence : Evidence) (origin : Option SymbolId) :
    Keeps (KeepsRoots g) (addEscape id kind evidence origin) :=
  keepsRoots_operation (fun _ => .addEscape id kind evidence origin) (fun _ => addEscape_grown id kind evidence origin)
    (symbols_guarded fun _ => rfl)

theorem addSuppression_keepsRoots (id : SymbolId) (evidence : Evidence) :
    Keeps (KeepsRoots g) (addSuppression id evidence) :=
  keepsRoots_operation (fun _ => .addSuppression id evidence) (fun _ => addSuppression_grown id evidence)
    (symbols_guarded fun _ => rfl)

theorem KeepsRoots.canonicalize {g₁ : Graph} (h : KeepsRoots g g₁) : KeepsRoots g g₁.canonicalize :=
  ⟨.canonicalize h.built, (canonicalize_symbols_perm g₁).trans h.symbols,
    fun x hx => ((canonicalize_sameFacts h.built.inv).roots x).2 (h.roots hx)⟩

theorem applyProviderPolicies_keepsRoots (policies : List ProviderPolicy) :
    Keeps (KeepsRoots g) (applyProviderPolicies policies) :=
  applyProviderPolicies_keeps addEdge_keepsRoots addRoot_keepsRoots addEscape_keepsRoots addSuppression_keepsRoots
    (fun _ => KeepsRoots.canonicalize) policies

theorem addVirtualDispatchEdges_keepsRoots (records : RecordMap) (methods : List (Bytes × List SymbolId)) :
    Keeps (KeepsRoots g) (addVirtualDispatchEdges records methods) := by
  refine Keeps.forM (fun method => Keeps.ite (Keeps.forM (fun base => ?_) _) (Keeps.pure _)) methods
  cases methods.lookup base with
  | none => exact Keeps.pure _
  | some baseMethods =>
    exact Keeps.forM (fun derived => Keeps.forM (fun base => Keeps.get_bind fun g₁ h =>
      Keeps.ite (addEdge_keepsRoots _ _ _ _) (Keeps.pure _) g₁ h) _) _

/-- Roots that are added all at once. -/
theorem addManualRoots_rooted (hg : Built g) (ids : List SymbolId) (evidence : Evidence) :
    Triple (fun g' => g' = g) (ids.forM fun id => addRoot id .manual evidence)
      (fun _ g' => KeepsRoots g g' ∧ ∀ id ∈ ids, (g.keyOf id, .manual, evidence) ∈ g'.rootFacts) fun _ _ => True := by
  have hturn : ∀ done, ∀ id ∈ ids, Triple
      (fun g' => (KeepsRoots g g' ∧ g'.symbols = g.symbols) ∧
        ∀ other ∈ done, (g.keyOf other, .manual, evidence) ∈ g'.rootFacts)
      (addRoot id .manual evidence)
      (fun _ g' => (KeepsRoots g g' ∧ g'.symbols = g.symbols) ∧
        ∀ other ∈ done ++ [id], (g.keyOf other, .manual, evidence) ∈ g'.rootFacts) fun _ _ => True := by
    rintro done id - g₁ ⟨⟨hkeeps, hsymbols⟩, hdone⟩
    have hkeeps' := addRoot_keepsRoots id .manual evidence g₁ hkeeps
    have hself := addRoot_keepsRoots id .manual evidence g₁ (KeepsRoots.refl hkeeps.built)
    unfold endState addRoot at hkeeps' hself
    unfold addRoot
    by_cases hid : id ≥ g₁.symbols.length
    · rw [if_pos hid]
      trivial
    · rw [if_neg hid] at hkeeps' hself ⊢
      refine ⟨⟨hkeeps', hsymbols⟩, fun other hother => ?_⟩
      rcases List.mem_append.1 hother with hother | hother
      · exact hself.roots (hdone other hother)
      · obtain rfl := List.mem_singleton.1 hother
        refine List.mem_map.2 ⟨⟨other, .manual, evidence⟩, mem_addFact.2 (.inr rfl), ?_⟩
        simp only [rootFact, keyOf, Graph.symbol, hsymbols]
  refine (Triple.forM_done ids [] hturn).imp ?_ (fun _ g' h => ⟨h.1.1, h.2⟩) fun _ _ h => h
  rintro g' rfl
  exact ⟨⟨.refl hg, rfl⟩, fun _ hother => by cases hother⟩

end Operations

/-! ## Results -/

/-- A failure does not claim a complete run. -/
def Failure.IsIncomplete : Failure → Prop
  | .indexingError _ diagnostics => diagnostics.state = .incomplete
  | .exception _ => True

/-- The symbols that a manual root names. -/
def isRequested (requested : Bytes) (symbol : Symbol) : Bool :=
  symbol.qualifiedName == requested || symbol.identity.linkageName == requested || symbol.key == requested

def matchedRoot (requested : Bytes) : Evidence := ⟨lit "command_line", lit "matched configured root: " ++ requested⟩

def unmatchedRoot (requested : Bytes) : Bytes := lit "configured root did not match a symbol: " ++ requested

def filterNote (options : IndexOptions) : Bytes := lit "Clang AST name filter active: " ++ options.astFilter

/-- A manual root makes roots of the symbols that it names, or is reported. -/
structure Answered (requested : Bytes) (g : Graph) (diagnostics : List Bytes) : Prop where
  rooted : ∀ symbol ∈ g.symbols, isRequested requested symbol = true →
    (symbol.key, .manual, matchedRoot requested) ∈ g.rootFacts
  unmatched : (∀ symbol ∈ g.symbols, isRequested requested symbol = false) → unmatchedRoot requested ∈ diagnostics

theorem Answered.kept {requested : Bytes} {g g' : Graph} {diagnostics diagnostics' : List Bytes}
    (h : Answered requested g diagnostics) (hg : KeepsRoots g g') (hdiagnostics : diagnostics ⊆ diagnostics') :
    Answered requested g' diagnostics' := by
  refine ⟨fun symbol hsymbol hrequested => ?_, fun hnone => ?_⟩
  · exact hg.roots (h.rooted symbol (hg.symbols.mem_iff.1 hsymbol) hrequested)
  · exact hdiagnostics (h.unmatched fun symbol hsymbol => hnone symbol (hg.symbols.mem_iff.2 hsymbol))

/-- What a result says of the commands and the options. -/
structure Answers (disk : Nat → Disk) (options : IndexOptions) (commands : List CompileCommand)
    (result : IndexResult) : Prop where
  built : Built result.graph
  canonical : result.graph.canonicalize = result.graph
  rooted : result.graph.roots ≠ []
  diagnostics_sorted : sortUnique result.diagnostics = result.diagnostics
  /-- One entry for each command, in the order of the files. -/
  units : ∃ normalized, Resolves disk commands normalized ∧ result.translationUnitDiagnostics =
    sortOn (fun unit => pathOrder unit.file) (normalized.map fun command => indexedDiagnostic command.toCompileCommand)
  translationUnits : result.translationUnits = commands.length
  frontend : result.frontend = .astJson
  /-- Each command is looked up once in the cache. -/
  lookups : result.metrics.cacheHits + result.metrics.cacheMisses =
    if options.cacheDirectory.isSome then commands.length else 0
  manualRoots : ∀ requested ∈ options.manualRoots, Answered requested result.graph result.diagnostics
  publicHeaders : ∀ header ∈ options.publicHeaders, isObserved result.graph header = true
  astFilter : options.astFilter ≠ [] → filterNote options ∈ result.diagnostics
  fallbacks : ∀ symbol ∈ result.graph.symbols, symbol.identity.quality = .fallback →
    fallbackDiagnostic symbol ∈ result.diagnostics

/-- What an outcome guarantees. -/
def Guarantees (disk : Nat → Disk) (options : IndexOptions) (commands : List CompileCommand) : Outcome → Prop
  | .returned result => libraryApiDeclared options = true ∧ commands ≠ [] ∧ Answers disk options commands result
  | .threw failure => failure.IsIncomplete

/-! ## The units -/

/-- `units` units are recorded and `merged` merged, after `lookups` lookups in the cache. -/
structure Counted (i : Invocation) (units merged lookups : Nat) (s : IndexRun) : Prop where
  built : Built s.index.graph
  units : s.translationUnitDiagnostics = (i.resolved.take units).map indexedDiagnostic
  merged : s.index.translationUnits = merged
  lookups : s.metrics.cacheHits + s.metrics.cacheMisses = lookups

/-- How a run throws. -/
abbrev Incomplete : Failure → IndexRun → Prop := fun failure _ => failure.IsIncomplete

section Units
variable {i : Invocation} {n units merged lookups : Nat} {α : Type} {P : IndexRun → Prop} {Q : α → IndexRun → Prop}

theorem failIndexing_incomplete (commands : List CompileCommand) (current : Nat) (status : TranslationUnitStatus)
    (stage message : Bytes) (exitCode signal : Option Int) :
    Triple P (failIndexing commands current status stage message exitCode signal) Q Incomplete := fun _ _ => rfl

theorem failIndex_incomplete (message : Bytes) : Triple P (failIndex message) Q Incomplete := fun _ _ => rfl

theorem rethrow_incomplete (e : Exception) : Triple P (rethrow e) Q Incomplete := fun _ _ => trivial

theorem stopIf_incomplete {condition : Bool} {failure : RunM Unit} {rest : Unit → RunM α}
    (h : Triple P failure (fun _ _ => False) Incomplete) (hrest : Triple P (rest ()) Q Incomplete) :
    Triple P (stopIf condition failure >>= rest) Q Incomplete :=
  stopIf_bind h fun _ => hrest

/-- A change of what is not counted. -/
theorem modify_counted {f : IndexRun → IndexRun} (hindex : ∀ s, (f s).index = s.index)
    (hunits : ∀ s, (f s).translationUnitDiagnostics = s.translationUnitDiagnostics)
    (hlookups : ∀ s, (f s).metrics.cacheHits + (f s).metrics.cacheMisses =
      s.metrics.cacheHits + s.metrics.cacheMisses) :
    Triple (Counted i units merged lookups) (modify f) (fun _ => Counted i units merged lookups) Incomplete := by
  refine Triple.modify fun s hs => ⟨?_, (hunits s).trans hs.units, ?_, (hlookups s).trans hs.lookups⟩
  · rw [hindex]
    exact hs.built
  · rw [hindex]
    exact hs.merged

theorem mergeGraph_built {source g g' : Graph} (hsource : Built source) (hg : Built g)
    (h : mergeGraph source g = .ok () g') : Built g' := by
  have hbuilt := Built.mergeGraph source hsource hg
  unfold endState at hbuilt
  rw [h] at hbuilt
  exact hbuilt

theorem mergeCached_counts {entry : TranslationUnitCacheEntry} (hentry : Built entry.graph) {s t : IndexState}
    (hs : Built s.graph) (h : mergeCached entry s = .ok () t) :
    Built t.graph ∧ t.translationUnits = s.translationUnits + 1 := by
  rw [mergeCached_run] at h
  cases hmerge : mergeGraph entry.graph s.graph with
  | ok a g =>
    rw [hmerge] at h
    cases h
    exact ⟨mergeGraph_built hentry hs hmerge, rfl⟩
  | error e g =>
    rw [hmerge] at h
    cases h

theorem mergeFresh_counts {rules : Nat} {unit : TranslationUnit rules} {s t : IndexState} (hs : Built s.graph)
    (h : mergeFresh unit s = .ok () t) : Built t.graph ∧ t.translationUnits = s.translationUnits + 1 := by
  rw [mergeFresh_run] at h
  cases hmerge : mergeGraph unit.graph s.graph with
  | ok a g =>
    rw [hmerge] at h
    cases h
    exact ⟨mergeGraph_built unit.built hs hmerge, rfl⟩
  | error e g =>
    rw [hmerge] at h
    cases h

theorem merging_counted {m : IndexM Unit} (hm : Keeps NamedOnce m)
    (hcounts : ∀ s t, Built s.graph → m s = .ok () t → Built t.graph ∧ t.translationUnits = s.translationUnits + 1) :
    Triple (Counted i units merged lookups) (merging m hm) (fun _ => Counted i units (merged + 1) lookups)
      fun _ _ => True := by
  intro s hs
  unfold merging
  cases hrun : m s.index with
  | ok a t =>
    obtain ⟨hbuilt, hmerged⟩ := hcounts s.index t hs.built hrun
    have hend : endState m s.index = t := by
      unfold endState
      rw [hrun]
    refine ⟨?_, hs.units, ?_, hs.lookups⟩
    · show Built (endState m s.index).graph
      rw [hend]
      exact hbuilt
    · show (endState m s.index).translationUnits = merged + 1
      rw [hend, hmerged, hs.merged]
  | error e t => trivial

theorem recordIndexed_counted {command : NormalizedCommand} (hn : i.normalized[n]? = some command) :
    Triple (Counted i n merged lookups) (recordIndexed command) (fun _ => Counted i (n + 1) merged lookups)
      Incomplete := by
  refine Triple.modify fun s hs => ⟨hs.built, ?_, hs.merged, hs.lookups⟩
  simp only [hs.units, List.take_add_one, getElem?_resolved hn, List.map_append]
  rfl

theorem indexCached_counted {command : NormalizedCommand} (hn : i.normalized[n]? = some command)
    {entry : TranslationUnitCacheEntry} (hentry : Built entry.graph) :
    Triple (Counted i n merged lookups) (indexCached command entry)
      (fun _ => Counted i (n + 1) (merged + 1) (lookups + 1)) Incomplete := by
  unfold indexCached
  refine Triple.bind (attempt_ends (merging_counted _ fun _ _ => mergeCached_counts hentry) fun _ =>
    rethrow_incomplete _) fun _ => ?_
  refine Triple.bind (R := fun _ => Counted i n (merged + 1) (lookups + 1)) ?_ fun _ => recordIndexed_counted hn
  refine Triple.modify fun s hs => ⟨hs.built, hs.units, hs.merged, ?_⟩
  rw [← hs.lookups]
  exact Nat.add_right_comm _ _ _

theorem validateCached_counted (command : NormalizedCommand) (events : UnitEvents i.rules) (cached : CacheLookupResult) :
    Triple (Counted i units merged lookups) (validateCached i n command events cached)
      (fun entry s => entry = compatibleEntry i.rules cached ∧ Counted i units merged lookups s) Incomplete := by
  unfold validateCached
  refine Triple.bind (modify_counted (fun _ => rfl) (fun _ => rfl) fun _ => rfl) fun _ => ?_
  refine stopIf_incomplete (failIndexing_incomplete _ _ _ _ _ _ _) ?_
  refine stopIf_incomplete (failIndexing_incomplete _ _ _ _ _ _ _) ?_
  refine stopIf_incomplete (failIndexing_incomplete _ _ _ _ _ _ _) ?_
  refine Triple.bind (modify_counted (warnIncompatible_graph _ _ _) ?_ ?_) fun _ => Triple.pure fun s hs => ⟨rfl, hs⟩
  all_goals
    intro s
    unfold warnIncompatible
    split <;> rfl

/-- Whatever the cache holds, the graph of an entry has been built. -/
theorem loadTranslationUnitCache_built {cwd directory requiredSource : Path} {key : Bytes} {file : CacheFile}
    {hash : Path → Except Exception Bytes} {entry : TranslationUnitCacheEntry}
    (h : (loadTranslationUnitCache cwd directory key requiredSource file hash).entry = some entry) :
    Built entry.graph := by
  unfold loadTranslationUnitCache at h
  cases file with
  | missing => cases h
  | cannotOpen => cases h
  | cannotRead => cases h
  | text contents =>
    dsimp only at h
    split at h
    · rename_i found hfound
      rw [show found = some entry from h] at hfound
      exact (readEntry_ok (usableEntry_eq_some.1 hfound).1).2
    · cases h

theorem compatibleEntry_built {rules : Nat} {directory : Path} {key : Bytes} {command : NormalizedCommand}
    {events : UnitEvents rules} {entry : TranslationUnitCacheEntry}
    (h : compatibleEntry rules (lookupCached directory key command events) = some entry) : Built entry.graph :=
  loadTranslationUnitCache_built (Option.filter_eq_some_iff.1 h).1

theorem runClang_counted (command : NormalizedCommand) (events : UnitEvents i.rules) (invocation : List Bytes) :
    Triple (Counted i units merged lookups) (runClang i n command events invocation)
      (fun _ => Counted i units merged lookups) Incomplete := by
  unfold runClang
  refine Triple.bind (attempt_ends (compute_keeps _) fun _ => failIndexing_incomplete _ _ _ _ _ _ _) fun process => ?_
  refine stopIf_incomplete (failIndexing_incomplete _ _ _ _ _ _ _) ?_
  refine stopIf_incomplete (failIndexing_incomplete _ _ _ _ _ _ _) ?_
  refine stopIf_incomplete (failIndexing_incomplete _ _ _ _ _ _ _) ?_
  refine stopIf_incomplete (failIndexing_incomplete _ _ _ _ _ _ _) ?_
  exact Triple.bind (modify_counted (fun _ => rfl) (fun _ => rfl) fun _ => rfl) fun _ => Triple.pure fun s hs => hs

theorem collectUnit_counted (command : NormalizedCommand) (events : UnitEvents i.rules) (key : Bytes)
    (process : ProcessResult) :
    Triple (Counted i units merged lookups) (collectUnit i n command events key process)
      (fun _ => Counted i units merged lookups) Incomplete := by
  unfold collectUnit
  refine Triple.bind (attempt_ends (compute_keeps _) fun _ => failIndexing_incomplete _ _ _ _ _ _ _) fun documents => ?_
  refine Triple.bind (attempt_ends (compute_keeps _) fun _ => failIndexing_incomplete _ _ _ _ _ _ _) fun facts => ?_
  refine stopIf_incomplete (failIndexing_incomplete _ _ _ _ _ _ _) ?_
  refine stopIf_incomplete (failIndexing_incomplete _ _ _ _ _ _ _) ?_
  refine stopIf_incomplete (failIndexing_incomplete _ _ _ _ _ _ _) ?_
  exact Triple.pure fun s hs => hs

theorem stageUnit_counted {rules : Nat} (pid : Nat) (directory : Path) (command : NormalizedCommand)
    (events : UnitEvents rules) (dependencyFile : Path) (unit : TranslationUnit rules) :
    Triple (Counted i units merged lookups) (stageUnit pid directory command events dependencyFile unit)
      (fun _ => Counted i units merged lookups) Incomplete := by
  unfold stageUnit
  cases entryToStage command events dependencyFile unit with
  | error error => exact modify_counted (fun _ => rfl) (fun _ => rfl) fun _ => rfl
  | ok entry =>
    refine modify_counted ?_ ?_ ?_
    all_goals
      intro s
      unfold stageEntry
      cases events.stage <;> rfl

theorem mergeUnit_counted {command : NormalizedCommand} (hn : i.normalized[n]? = some command)
    (unit : TranslationUnit i.rules) :
    Triple (Counted i n merged lookups) (mergeUnit i n command unit) (fun _ => Counted i (n + 1) (merged + 1) lookups)
      Incomplete :=
  Triple.bind (attempt_ends (merging_counted _ fun _ _ => mergeFresh_counts) fun _ =>
    failIndexing_incomplete _ _ _ _ _ _ _) fun _ => recordIndexed_counted hn

theorem dependencyFile_counted {rules : Nat} (pid : Nat) (events : UnitEvents rules) (cache : Option (Path × Bytes)) :
    Triple (Counted i units merged lookups) (dependencyFile pid events cache)
      (fun _ => Counted i units merged lookups) Incomplete := by
  unfold dependencyFile
  cases cache with
  | none => exact Triple.pure fun s hs => hs
  | some place =>
    exact Triple.bind (attempt_ends (compute_keeps _) rethrow_incomplete) fun file => Triple.pure fun s hs => hs

theorem indexFresh_counted {command : NormalizedCommand} (hn : i.normalized[n]? = some command)
    (events : UnitEvents i.rules) (cache : Option (Path × Bytes)) :
    Triple (Counted i n merged lookups) (indexFresh i n command events cache)
      (fun _ => Counted i (n + 1) (merged + 1) lookups) Incomplete := by
  unfold indexFresh
  refine stopIf_incomplete (failIndexing_incomplete _ _ _ _ _ _ _) ?_
  refine Triple.bind (dependencyFile_counted _ events cache) fun cache => ?_
  refine Triple.bind (attempt_ends (compute_keeps _) rethrow_incomplete) fun invocation => ?_
  refine Triple.bind (runClang_counted command events invocation) fun process => ?_
  refine Triple.bind (collectUnit_counted command events _ process) fun unit => ?_
  cases cache with
  | none => exact mergeUnit_counted hn unit
  | some place => exact Triple.bind (stageUnit_counted _ _ _ _ _ _) fun _ => mergeUnit_counted hn unit

/-- The lookups of `n` units. -/
def lookupsOf (options : IndexOptions) (n : Nat) : Nat := if options.cacheDirectory.isSome then n else 0

theorem indexUnit_counted {command : NormalizedCommand} (hn : i.normalized[n]? = some command)
    (events : UnitEvents i.rules) :
    Triple (Counted i n n (lookupsOf i.options n)) (indexUnit i n command events)
      (fun _ => Counted i (n + 1) (n + 1) (lookupsOf i.options (n + 1))) Incomplete := by
  unfold indexUnit lookupsOf
  refine stopIf_incomplete (failIndexing_incomplete _ _ _ _ _ _ _) ?_
  cases i.options.cacheDirectory with
  | none => exact indexFresh_counted hn events none
  | some directory =>
    simp only [Option.isSome_some, if_true]
    refine Triple.bind (attempt_ends (compute_keeps _) rethrow_incomplete) fun key => ?_
    refine Triple.bind (validateCached_counted command events _) fun entry => ?_
    rintro s ⟨hentry, hs⟩
    cases entry with
    | some entry => exact indexCached_counted hn (compatibleEntry_built hentry.symm) s hs
    | none =>
      have hmiss : Triple (Counted i n n n)
          (do modify countMiss; indexFresh i n command events (some (directory, key)))
          (fun _ => Counted i (n + 1) (n + 1) (n + 1)) Incomplete := by
        -- a miss is counted before the unit is compiled, a hit only after it has been merged
        refine Triple.bind (R := fun _ => Counted i n n (n + 1)) ?_ fun _ => indexFresh_counted hn events _
        refine Triple.modify fun s hs => ⟨hs.built, hs.units, hs.merged, ?_⟩
        rw [← hs.lookups]
        rfl
      exact hmiss s hs

theorem indexUnits_counted (rest : List NormalizedCommand) (hrest : i.normalized.drop n = rest)
    (hn : n ≤ i.normalized.length) :
    Triple (Counted i n n (lookupsOf i.options n)) (indexUnits i n rest)
      (fun _ => Counted i i.normalized.length i.normalized.length (lookupsOf i.options i.normalized.length))
      Incomplete := by
  induction rest generalizing n with
  | nil =>
    have hend : n = i.normalized.length := Nat.le_antisymm hn (List.drop_eq_nil_iff.1 hrest)
    subst hend
    exact Triple.pure fun s hs => hs
  | cons command rest ih =>
    obtain ⟨hlt, hget, hrest⟩ := drop_cons hrest
    exact Triple.bind (indexUnit_counted hget (i.environment.unitEvents n)) fun _ => ih hrest hlt

end Units

/-! ## After the last unit -/

theorem isObserved_kept {g g' : Graph} (h : KeepsRoots g g') {header : Path} (hobserved : isObserved g header = true) :
    isObserved g' header = true := by
  unfold isObserved at hobserved ⊢
  obtain ⟨root, hroot, hpublic⟩ := List.any_eq_true.1 hobserved
  obtain ⟨root', hroot', hfact⟩ := List.mem_map.1 (h.roots (List.mem_map_of_mem hroot))
  obtain ⟨-, hkind, hevidence⟩ := Prod.ext_iff.1 hfact |>.imp id Prod.ext_iff.1
  refine List.any_eq_true.2 ⟨root', hroot', ?_⟩
  rw [show root'.kind = root.kind from hkind, show root'.evidence = root.evidence from hevidence]
  exact hpublic

/-- Only facts and diagnostics are added. -/
structure Adds (s t : IndexRun) : Prop where
  graph : KeepsRoots s.index.graph t.index.graph
  diagnostics : s.index.diagnostics ⊆ t.index.diagnostics
  units : t.translationUnitDiagnostics = s.translationUnitDiagnostics
  merged : t.index.translationUnits = s.index.translationUnits
  metrics : t.metrics = s.metrics

theorem Adds.pushDiagnostic (diagnostic : Bytes) {s : IndexRun} (hs : Built s.index.graph) :
    Adds s (pushDiagnostic diagnostic s) :=
  ⟨.refl hs, List.subset_append_left _ _, rfl, rfl, rfl⟩

/-- All units are counted, the manual roots up to here answered and the public headers up to here observed. -/
structure Satisfied (i : Invocation) (requested : List Bytes) (headers : List Path) (s : IndexRun) : Prop where
  counted : Counted i i.normalized.length i.normalized.length (lookupsOf i.options i.normalized.length) s
  manualRoots : ∀ root ∈ requested, Answered root s.index.graph s.index.diagnostics
  publicHeaders : ∀ header ∈ headers, isObserved s.index.graph header = true

section Finish
variable {i : Invocation} {requested : List Bytes} {headers : List Path}

theorem Satisfied.adds {s t : IndexRun} (h : Satisfied i requested headers s) (ht : Adds s t) :
    Satisfied i requested headers t where
  counted := ⟨ht.graph.built, ht.units.trans h.counted.units, ht.merged.trans h.counted.merged,
    by rw [ht.metrics]; exact h.counted.lookups⟩
  manualRoots root hroot := (h.manualRoots root hroot).kept ht.graph ht.diagnostics
  publicHeaders header hheader := isObserved_kept ht.graph (h.publicHeaders header hheader)

theorem onGraph_adds {m : GraphM Unit} (hm : ∀ g, Keeps (KeepsRoots g) m) {s : IndexRun} (hs : Built s.index.graph) :
    Triple (fun t => t = s) (onGraph m) (fun _ t => Adds s t) fun _ _ => True := by
  rintro t rfl
  have hkeeps := hm t.index.graph t.index.graph (.refl hs)
  unfold endState at hkeeps
  unfold onGraph
  cases hrun : m t.index.graph with
  | ok a g =>
    rw [hrun] at hkeeps
    exact ⟨hkeeps, List.Subset.refl _, rfl, rfl, rfl⟩
  | error e g => trivial

theorem dispatchVirtually_satisfied :
    Triple (Satisfied i requested headers) (dispatchVirtually i.environment)
      (fun _ => Satisfied i requested headers) Incomplete := by
  refine Triple.get_bind fun s hs => ?_
  refine (attempt_ends (onGraph_adds (fun _ => addVirtualDispatchEdges_keepsRoots _ _) hs.counted.built) fun e =>
    rethrow_incomplete e).imp (fun _ h => h) (fun _ _ ht => hs.adds ht) fun _ _ h => h

theorem checkRules_satisfied (rules : List (CallbackRegistrationRule × Bool)) :
    Triple (Satisfied i requested headers) (checkRules rules) (fun _ => Satisfied i requested headers) Incomplete := by
  induction rules with
  | nil => exact Triple.pure fun s hs => hs
  | cons rule rules ih => exact stopIf_incomplete (failIndex_incomplete _) ih

theorem mem_requestedSymbols {g : Graph} {root : Bytes} {id : SymbolId} :
    id ∈ requestedSymbols g root ↔ id < g.symbols.length ∧ isRequested root (g.symbol id) = true := by
  unfold requestedSymbols isRequested
  rw [List.mem_filter, List.mem_range]

theorem exists_requested {g : Graph} {root : Bytes} {symbol : Symbol} (hsymbol : symbol ∈ g.symbols)
    (hrequested : isRequested root symbol = true) : ∃ id ∈ requestedSymbols g root, g.symbol id = symbol := by
  obtain ⟨id, hid, rfl⟩ := List.getElem_of_mem hsymbol
  have heq := symbol_eq hid
  exact ⟨id, mem_requestedSymbols.2 ⟨hid, by rw [heq]; exact hrequested⟩, heq⟩

theorem addManualRoots_adds (root : Bytes) {s : IndexRun} (hs : Built s.index.graph) :
    Triple (fun t => t = s)
      (onGraph ((requestedSymbols s.index.graph root).forM fun id => addRoot id .manual (matchedRoot root)))
      (fun _ t => Adds s t ∧ ∀ id ∈ requestedSymbols s.index.graph root,
        (s.index.graph.keyOf id, .manual, matchedRoot root) ∈ t.index.graph.rootFacts) fun _ _ => True := by
  rintro t rfl
  have hrooted := addManualRoots_rooted hs (requestedSymbols t.index.graph root) (matchedRoot root) t.index.graph rfl
  unfold onGraph
  cases hrun : ((requestedSymbols t.index.graph root).forM fun id => addRoot id .manual (matchedRoot root))
      t.index.graph with
  | ok a g =>
    rw [hrun] at hrooted
    exact ⟨⟨hrooted.1, List.Subset.refl _, rfl, rfl, rfl⟩, hrooted.2⟩
  | error e g => trivial

/-- The symbols that a manual root names have become roots, or there are none and this is reported. -/
theorem answered_of_rooted {root : Bytes} {g : Graph} {t : IndexRun} (ht : KeepsRoots g t.index.graph)
    (hrooted : ∀ id ∈ requestedSymbols g root, (g.keyOf id, .manual, matchedRoot root) ∈ t.index.graph.rootFacts)
    (hreported : requestedSymbols g root = [] → unmatchedRoot root ∈ t.index.diagnostics) :
    Answered root t.index.graph t.index.diagnostics := by
  refine ⟨fun symbol hsymbol hrequested => ?_, fun hnone => hreported ?_⟩
  · obtain ⟨id, hid, rfl⟩ := exists_requested (ht.symbols.mem_iff.1 hsymbol) hrequested
    exact hrooted id hid
  · refine List.eq_nil_iff_forall_not_mem.2 fun id hid => ?_
    obtain ⟨hlt, hrequested⟩ := mem_requestedSymbols.1 hid
    rw [hnone _ (ht.symbols.mem_iff.2 (symbol_mem hlt))] at hrequested
    cases hrequested

theorem Satisfied.answer {s t : IndexRun} {root : Bytes} (hs : Satisfied i requested headers s) (ht : Adds s t)
    (hroot : Answered root t.index.graph t.index.diagnostics) : Satisfied i (requested ++ [root]) headers t := by
  refine ⟨(hs.adds ht).counted, fun other hother => ?_, (hs.adds ht).publicHeaders⟩
  rcases List.mem_append.1 hother with hother | hother
  · exact (hs.adds ht).manualRoots other hother
  · obtain rfl := List.mem_singleton.1 hother
    exact hroot

theorem addManualRoot_satisfied (root : Bytes) :
    Triple (Satisfied i requested headers) (addManualRoot root)
      (fun _ => Satisfied i (requested ++ [root]) headers) Incomplete := by
  refine Triple.get_bind fun s hs => Triple.bind
    (attempt_ends (addManualRoots_adds root hs.counted.built) fun e => rethrow_incomplete e) fun _ => Triple.modify ?_
  rintro t ⟨ht, hrooted⟩
  by_cases hnone : requestedSymbols s.index.graph root = []
  · have hadds : Adds s (pushDiagnostic (unmatchedRoot root) t) :=
      ⟨ht.graph, fun _ h => List.mem_append_left _ (ht.diagnostics h), ht.units, ht.merged, ht.metrics⟩
    rw [if_pos (by rw [hnone]; rfl)]
    exact hs.answer hadds (answered_of_rooted ht.graph hrooted fun _ => List.mem_append_right _ List.mem_cons_self)
  · rw [if_neg (by rw [List.isEmpty_iff]; exact hnone)]
    exact hs.answer ht (answered_of_rooted ht.graph hrooted fun h => absurd h hnone)

theorem applyProviderPolicies_satisfied (policies : List ProviderPolicy) :
    Triple (Satisfied i requested headers)
      (attempt (onGraph (applyProviderPolicies policies))
        fun error => failIndex (lit "could not apply reachability provider: " ++ Artifact.what error))
      (fun _ => Satisfied i requested headers) Incomplete := by
  intro s hs
  exact ((attempt_ends (onGraph_adds (fun _ => applyProviderPolicies_keepsRoots policies) hs.counted.built) fun _ =>
    failIndex_incomplete _).imp (fun _ h => h) (fun _ _ ht => hs.adds ht) fun _ _ h => h) s rfl

theorem checkPublicHeader_satisfied (header : Path) :
    Triple (Satisfied i requested headers) (checkPublicHeader header)
      (fun _ => Satisfied i requested (headers ++ [header])) Incomplete := by
  refine Triple.get_bind fun s hs => Triple.ite (fun _ => failIndex_incomplete _) fun hobserved => Triple.pure ?_
  rintro t rfl
  refine ⟨hs.counted, hs.manualRoots, fun other hother => ?_⟩
  rcases List.mem_append.1 hother with hother | hother
  · exact hs.publicHeaders other hother
  · obtain rfl := List.mem_singleton.1 hother
    simpa using hobserved

theorem noteAstFilter_adds (options : IndexOptions) {s : IndexRun} (hs : Built s.index.graph) :
    Adds s (noteAstFilter options s) := by
  unfold noteAstFilter
  split
  · exact ⟨.refl hs, List.Subset.refl _, rfl, rfl, rfl⟩
  · exact .pushDiagnostic _ hs

theorem noteAstFilter_notes {options : IndexOptions} (h : options.astFilter ≠ []) (s : IndexRun) :
    filterNote options ∈ (noteAstFilter options s).index.diagnostics := by
  unfold noteAstFilter
  rw [if_neg (by rw [List.isEmpty_iff]; exact h)]
  exact List.mem_append_right _ (List.mem_singleton.2 rfl)

theorem foldl_pushDiagnostic (text : Symbol → Bytes) (symbols : List Symbol) (s : IndexRun) :
    (symbols.foldl (fun s symbol => pushDiagnostic (text symbol) s) s).index.diagnostics =
      s.index.diagnostics ++ symbols.map text := by
  induction symbols generalizing s with
  | nil => rw [List.foldl_nil, List.map_nil, List.append_nil]
  | cons symbol symbols ih =>
    rw [List.foldl_cons, ih, List.map_cons, List.append_cons]
    rfl

theorem addFallbackIdentityDiagnostics_adds {s : IndexRun} (hs : Built s.index.graph) :
    Adds s (addFallbackIdentityDiagnostics s) := by
  have hgraph := addFallbackIdentityDiagnostics_keep (fun s => s.index.graph) (fun _ _ => rfl) s
  refine ⟨?_, ?_, addFallbackIdentityDiagnostics_keep (·.translationUnitDiagnostics) (fun _ _ => rfl) s,
    addFallbackIdentityDiagnostics_keep (fun s => s.index.translationUnits) (fun _ _ => rfl) s,
    addFallbackIdentityDiagnostics_keep (·.metrics) (fun _ _ => rfl) s⟩
  · rw [show (addFallbackIdentityDiagnostics s).index.graph = s.index.graph from hgraph]
    exact .refl hs
  · unfold addFallbackIdentityDiagnostics
    rw [foldl_pushDiagnostic]
    exact List.subset_append_left _ _

theorem addFallbackIdentityDiagnostics_warns (s : IndexRun) {symbol : Symbol} (hsymbol : symbol ∈ s.index.graph.symbols)
    (hquality : symbol.identity.quality = .fallback) :
    fallbackDiagnostic symbol ∈ (addFallbackIdentityDiagnostics s).index.diagnostics := by
  unfold addFallbackIdentityDiagnostics
  rw [foldl_pushDiagnostic]
  refine List.mem_append_right _ (List.mem_map_of_mem (List.mem_filter.2 ⟨hsymbol, ?_⟩))
  rw [hquality]
  rfl

/-- The end of a run, before the results are sorted. -/
structure Finished (i : Invocation) (s : IndexRun) : Prop where
  satisfied : Satisfied i i.options.manualRoots i.options.publicHeaders s
  rooted : s.index.graph.roots ≠ []
  astFilter : i.options.astFilter ≠ [] → filterNote i.options ∈ s.index.diagnostics
  fallbacks : ∀ symbol ∈ s.index.graph.symbols, symbol.identity.quality = .fallback →
    fallbackDiagnostic symbol ∈ s.index.diagnostics

theorem KeepsRoots.rooted {g g' : Graph} (h : KeepsRoots g g') (hg : g.roots ≠ []) : g'.roots ≠ [] := by
  obtain ⟨root, hroot⟩ := List.exists_mem_of_ne_nil _ hg
  obtain ⟨root', hroot', -⟩ := List.mem_map.1 (h.roots (List.mem_map_of_mem hroot))
  exact List.ne_nil_of_mem hroot'

theorem Finished.answers (hi : Resolves i.environment.disk i.commands i.normalized) {s : IndexRun} (h : Finished i s)
    (cacheWarnings : List Bytes) :
    Answers i.environment.disk i.options i.commands (resultOf (sortResult s) cacheWarnings) := by
  have hcounted := h.satisfied.counted
  have hinv := hcounted.built.inv
  have hkept : KeepsRoots s.index.graph s.index.graph.canonicalize := (KeepsRoots.refl hcounted.built).canonicalize
  have hdiagnostics : s.index.diagnostics ⊆ sortUnique s.index.diagnostics := fun _ => mem_sortUnique.2
  exact {
    built := hkept.built
    canonical := canonicalize_congr (canonicalize_inv hinv) hinv (canonicalize_sameFacts hinv)
    rooted := hkept.rooted h.rooted
    diagnostics_sorted := sortUnique_congr fun _ => mem_sortUnique
    units := by
      refine ⟨i.normalized, hi, ?_⟩
      show sortOn _ s.translationUnitDiagnostics = _
      rw [hcounted.units, ← resolved_length, List.take_length, Invocation.resolved, List.map_map]
      rfl
    translationUnits := hcounted.merged.trans hi.length
    frontend := rfl
    lookups := by
      show s.metrics.cacheHits + s.metrics.cacheMisses = _
      rw [hcounted.lookups, hi.length, lookupsOf]
    manualRoots := fun root hroot => (h.satisfied.manualRoots root hroot).kept hkept hdiagnostics
    publicHeaders := fun header hheader => isObserved_kept hkept (h.satisfied.publicHeaders header hheader)
    astFilter := fun hfilter => hdiagnostics (h.astFilter hfilter)
    fallbacks := fun symbol hsymbol hquality =>
      hdiagnostics (h.fallbacks symbol (hkept.symbols.mem_iff.1 hsymbol) hquality) }

theorem finishIndex_answers (hi : Resolves i.environment.disk i.commands i.normalized) :
    Triple (Satisfied i [] []) (finishIndex i)
      (fun _ s => ∀ cacheWarnings, Answers i.environment.disk i.options i.commands (resultOf s cacheWarnings))
      Incomplete := by
  refine Triple.bind dispatchVirtually_satisfied fun _ => ?_
  refine Triple.get_bind fun s hs => Triple.imp (P := Satisfied i [] []) ?_ (fun t ht => by rw [ht]; exact hs)
    (fun _ _ h => h) fun _ _ h => h
  refine Triple.bind (checkRules_satisfied _) fun _ => ?_
  refine Triple.bind (R := fun _ => Satisfied i i.options.manualRoots [])
    (Triple.forM_done (P := fun requested => Satisfied i requested []) _ [] fun _ root _ => addManualRoot_satisfied root)
    fun _ => ?_
  refine Triple.bind (applyProviderPolicies_satisfied _) fun _ => ?_
  refine Triple.bind (R := fun _ => Satisfied i i.options.manualRoots i.options.publicHeaders)
    (Triple.forM_done (P := Satisfied i i.options.manualRoots) _ [] fun _ header _ => checkPublicHeader_satisfied header)
    fun _ => ?_
  refine Triple.bind (R := fun _ s => Satisfied i i.options.manualRoots i.options.publicHeaders s ∧
      (i.options.astFilter ≠ [] → filterNote i.options ∈ s.index.diagnostics))
    (Triple.modify fun s hs => ⟨hs.adds (noteAstFilter_adds _ hs.counted.built), fun h => noteAstFilter_notes h s⟩)
    fun _ => ?_
  refine Triple.get_bind ?_
  rintro s ⟨hs, hfilter⟩
  -- what follows adds no facts, so the roots found here stay
  refine stopIf_bind (failIndex_incomplete _) fun hroots => ?_
  refine Triple.bind (R := fun _ => Finished i) (Triple.modify ?_) fun _ => Triple.modify fun t ht => ht.answers hi
  rintro t rfl
  have hadds := addFallbackIdentityDiagnostics_adds hs.counted.built
  have hgraph := addFallbackIdentityDiagnostics_keep (fun s => s.index.graph) (fun _ _ => rfl) t
  refine ⟨hs.adds hadds, hadds.graph.rooted ?_, fun h => hadds.diagnostics (hfilter h), fun symbol hsymbol hquality => ?_⟩
  · rintro hnil
    rw [hnil] at hroots
    cases hroots
  · rw [show (addFallbackIdentityDiagnostics t).index.graph = t.index.graph from hgraph] at hsymbol
    exact addFallbackIdentityDiagnostics_warns t hsymbol hquality

end Finish

/-! ## Whole runs -/

theorem normalizeCommands_incomplete {commands rest : List CompileCommand} {disk : Nat → Disk} {current : Nat}
    {failure : Failure} (h : normalizeCommands commands disk current rest = .error failure) : failure.IsIncomplete := by
  induction rest generalizing current with
  | nil => cases h
  | cons command rest ih =>
    unfold normalizeCommands at h
    cases hnormal : normalizeCompileCommand (disk current) command with
    | error error =>
      rw [hnormal] at h
      cases h
      rfl
    | ok normal =>
      rw [hnormal] at h
      cases hloop : normalizeCommands commands disk (current + 1) rest with
      | error failure' =>
        rw [hloop] at h
        cases h
        exact ih hloop
      | ok normalized =>
        rw [hloop] at h
        cases h

theorem startRun_counted (i : Invocation) (cache : CacheDirectory) :
    Counted i 0 0 (lookupsOf i.options 0) (startRun i.rules cache) := by
  refine ⟨.empty, rfl, rfl, ?_⟩
  unfold lookupsOf
  split <;> rfl

theorem runIndex_guarantees {i : Invocation} (hdeclared : libraryApiDeclared i.options = true)
    (hcommands : i.commands ≠ []) (hi : Resolves i.environment.disk i.commands i.normalized) (cache : CacheDirectory) :
    Guarantees i.environment.disk i.options i.commands (runIndex i cache).1 := by
  have hrun := Triple.bind (indexUnits_counted i.normalized rfl (Nat.zero_le _))
    (fun _ => (finishIndex_answers hi).imp (fun s hs => ⟨hs, by simp, by simp⟩) (fun _ _ h => h) fun _ _ h => h)
    (startRun i.rules cache) (startRun_counted i cache)
  unfold runIndex runUnits
  split
  · rename_i failure s hfailed
    rw [hfailed] at hrun
    exact hrun
  · rename_i s hreturned
    rw [hreturned] at hrun
    exact ⟨hdeclared, hcommands, hrun _⟩

theorem index_guarantees (options : IndexOptions) (environment : Environment options.callbackRegistrationRules.length)
    (commands : List CompileCommand) (cache : CacheDirectory) :
    Guarantees environment.disk options commands (index options environment commands cache).1 := by
  unfold index
  split
  · exact rfl
  · rename_i hdeclared
    split
    · exact rfl
    · rename_i hcommands
      have hspec := normalizeCommands_all commands environment.disk
      cases hnormal : normalizeCommands commands environment.disk 0 commands with
      | error failure => exact normalizeCommands_incomplete hnormal
      | ok normalized =>
        rw [hnormal] at hspec
        exact runIndex_guarantees (i := { options, commands, normalized, environment }) (by simpa using hdeclared)
          (fun hnil => hcommands (List.isEmpty_iff.2 hnil)) hspec cache

/-- A run that returns has indexed every command, looked each up once and answered the whole command line; a run
that throws does not claim to be complete. -/
theorem index_returns (options : IndexOptions) (environment : Environment options.callbackRegistrationRules.length)
    (commands : List CompileCommand) (cache : CacheDirectory) :
    (∀ result, (index options environment commands cache).1 = .returned result →
      libraryApiDeclared options = true ∧ commands ≠ [] ∧ Answers environment.disk options commands result) ∧
    ∀ failure, (index options environment commands cache).1 = .threw failure → failure.IsIncomplete := by
  have hguarantees := index_guarantees options environment commands cache
  refine ⟨fun result hresult => ?_, fun failure hfailure => ?_⟩
  · rw [hresult] at hguarantees
    exact hguarantees
  · rw [hfailure] at hguarantees
    exact hguarantees

end Indexer

end CxxDead
