import CxxDead.ByKey
import CxxDead.Differential
import CxxDead.Lib.Folds
import CxxDead.Lib.Tables
import Mathlib.Data.Set.Card
/-!
# What a differential report says

- `buildDifferentialReport_changes`: one change for each key whose status
  differs, and the mirror image when the sides are swapped.
- `policyMatches_gate`: the gate counts the new, unsuppressed, unreachable symbols
  that the policy names, and the SARIF writer finds every classification it reads.
-/

namespace CxxDead

open Lib

variable {g : Graph}

/-! ## Looking up an eligible symbol -/

theorem lookup_emplaceKey_foldl (key : SymbolId → Bytes) (ids : List SymbolId) (index : List (Bytes × SymbolId))
    (k : Bytes) :
    (ids.foldl (fun index id => Graph.emplaceKey index (key id) id) index).lookup k =
      (index.lookup k).or (ids.find? fun id => key id == k) := by
  induction ids generalizing index with
  | nil => simp
  | cons id ids ih =>
    rw [List.foldl_cons, ih, Graph.lookup_emplaceKey, List.find?_cons, Option.or_assoc]
    by_cases hk : k = key id
    · simp [hk]
    · rw [if_neg hk, show (key id == k) = false by simpa using Ne.symm hk]
      rfl

/-- A graph with its own reachability and report. -/
def sideOf (g : Graph) : Side := ⟨g, analyzeReachability g, buildReport g (analyzeReachability g)⟩

theorem idOf_iff (hg : g.Inv) {key : Bytes} {id : Nat} :
    (sideOf g).idOf key = some id ↔
      id < g.symbols.length ∧ eligibleSymbol (g.symbol id) = true ∧ g.keyOf id = key := by
  unfold Side.idOf eligibleIds sideOf
  rw [lookup_emplaceKey_foldl]
  simp only [List.lookup_nil, Option.none_or]
  constructor
  · intro h
    have hmem := List.mem_of_find?_eq_some h
    have hkey := List.find?_some h
    rw [List.mem_filter, List.mem_range] at hmem
    exact ⟨hmem.1, hmem.2, by simpa [Graph.keyOf] using hkey⟩
  · rintro ⟨hid, helig, rfl⟩
    cases hf : List.find? (fun other => (g.symbol other).key == g.keyOf id)
        ((List.range g.symbols.length).filter fun other => eligibleSymbol (g.symbol other)) with
    | none =>
      have := List.find?_eq_none.1 hf id (List.mem_filter.2 ⟨List.mem_range.2 hid, helig⟩)
      exact absurd (by simp [Graph.keyOf]) this
    | some other =>
      have hmem := List.mem_of_find?_eq_some hf
      have hkey := List.find?_some hf
      rw [List.mem_filter, List.mem_range] at hmem
      rw [hg.key_inj hmem.1 hid (by simpa [Graph.keyOf] using hkey)]

/-! ## The state of an eligible symbol -/

theorem eligibleSymbol_eq_isReported (symbol : Symbol) : eligibleSymbol symbol = isReported symbol := rfl

theorem findFinding_dead {id : SymbolId} (hid : id < g.symbols.length) (result : ReachabilityResult)
    (hdead : isDeadSymbol g result id = true) :
    (findFinding (buildReport g result) id).finding = some (classify g id (g.symbol id)) ∧
      ((findFinding (buildReport g result) id).suppressed.isSome = isSuppressed g id) := by
  unfold findFinding
  cases hsupp : isSuppressed g id with
  | false =>
    have hmem := (mem_findings g result _).2 ⟨id, hid, ⟨hdead, hsupp⟩, rfl⟩
    cases hf : (buildReport g result).findings.find? (·.symbol == id) with
    | none => exact absurd (by simp [classify_symbol]) (List.find?_eq_none.1 hf _ hmem)
    | some finding =>
      obtain ⟨other, -, -, rfl⟩ := (mem_findings g result finding).1 (List.mem_of_find?_eq_some hf)
      have hother : other = id := by simpa [classify_symbol] using List.find?_some hf
      subst hother
      exact ⟨rfl, rfl⟩
  | true =>
    have hnone : (buildReport g result).findings.find? (·.symbol == id) = none := by
      refine List.find?_eq_none.2 fun finding hmem heq => ?_
      obtain ⟨other, -, ⟨-, hother⟩, rfl⟩ := (mem_findings g result finding).1 hmem
      rw [show other = id by simpa [classify_symbol] using heq, hsupp] at hother
      cases hother
    rw [hnone]
    have hmem := (mem_suppressedFindings g result _).2 ⟨id, hid, ⟨hdead, hsupp⟩, rfl⟩
    cases hf : (buildReport g result).suppressedFindings.find? (·.finding.symbol == id) with
    | none => exact absurd (by simp [classify_symbol]) (List.find?_eq_none.1 hf _ hmem)
    | some item =>
      obtain ⟨other, -, -, rfl⟩ := (mem_suppressedFindings g result item).1 (List.mem_of_find?_eq_some hf)
      have hother : other = id := by simpa [classify_symbol] using List.find?_some hf
      subst hother
      exact ⟨rfl, rfl⟩

theorem findFinding_live {id : SymbolId} (result : ReachabilityResult) (hlive : isDeadSymbol g result id = false) :
    findFinding (buildReport g result) id = {} := by
  have hnone : (buildReport g result).findings.find? (·.symbol == id) = none := by
    refine List.find?_eq_none.2 fun finding hmem heq => ?_
    obtain ⟨other, -, ⟨hdead, -⟩, rfl⟩ := (mem_findings g result finding).1 hmem
    rw [show other = id by simpa [classify_symbol] using heq, hlive] at hdead
    cases hdead
  have hnone' : (buildReport g result).suppressedFindings.find? (·.finding.symbol == id) = none := by
    refine List.find?_eq_none.2 fun item hmem heq => ?_
    obtain ⟨other, -, ⟨hdead, -⟩, rfl⟩ := (mem_suppressedFindings g result item).1 hmem
    rw [show other = id by simpa [classify_symbol] using heq, hlive] at hdead
    cases hdead
  unfold findFinding
  rw [hnone, hnone']

/-- What is read off one side for a key. -/
structure StateSpec (g : Graph) (id : SymbolId) (state : DifferentialSymbolState) : Prop where
  present : state.present = true
  reachable : state.reachable = flag (analyzeReachability g).reachable id
  classification : state.classification =
    if flag (analyzeReachability g).reachable id then none else some (classify g id (g.symbol id)).classification
  suppressed : state.suppressed = (!flag (analyzeReachability g).reachable id && isSuppressed g id)

theorem symbolState_spec {id : SymbolId} (hid : id < g.symbols.length) (helig : eligibleSymbol (g.symbol id) = true) :
    StateSpec g id
      (symbolState g (analyzeReachability g) (buildReport g (analyzeReachability g)) (some id)) := by
  unfold symbolState
  cases hreach : flag (analyzeReachability g).reachable id with
  | true =>
    have hlive : isDeadSymbol g (analyzeReachability g) id = false := by simp [isDeadSymbol, hreach]
    simp only [findFinding_live _ hlive]
    exact ⟨rfl, rfl, by rw [hreach]; rfl, by rw [hreach]; rfl⟩
  | false =>
    have hdead : isDeadSymbol g (analyzeReachability g) id = true := by
      rw [eligibleSymbol_eq_isReported] at helig
      simp [isDeadSymbol, hreach, helig]
    obtain ⟨hfinding, hsuppressed⟩ := findFinding_dead hid _ hdead
    simp only [hfinding]
    exact ⟨rfl, rfl, by rw [hreach]; rfl, by rw [hreach]; simpa using hsuppressed⟩

/-! ## Status of a key -/

/-- An eligible symbol has the key. -/
def EligibleAt (g : Graph) (key : Bytes) : Prop :=
  ∃ id < g.symbols.length, g.keyOf id = key ∧ eligibleSymbol (g.symbol id) = true

/-- The symbol with the key is reachable. -/
def ReachableAt (g : Graph) (key : Bytes) : Prop :=
  ∃ id < g.symbols.length, g.keyOf id = key ∧ flag (analyzeReachability g).reachable id = true

/-- The status of the key differs in the way that `kind` says. -/
def Changed (baseline current : Graph) (key : Bytes) : ChangeKind → Prop
  | .newSymbol => ¬ EligibleAt baseline key ∧ EligibleAt current key
  | .removed => EligibleAt baseline key ∧ ¬ EligibleAt current key
  | .newlyUnreachable =>
    (EligibleAt baseline key ∧ ReachableAt baseline key) ∧ EligibleAt current key ∧ ¬ ReachableAt current key
  | .becameReachable =>
    (EligibleAt baseline key ∧ ¬ ReachableAt baseline key) ∧ EligibleAt current key ∧ ReachableAt current key

theorem eligibleAt_iff (hg : g.Inv) {key : Bytes} : EligibleAt g key ↔ ∃ id, (sideOf g).idOf key = some id := by
  simp only [idOf_iff hg]
  constructor
  · rintro ⟨id, hid, hkey, helig⟩
    exact ⟨id, hid, helig, hkey⟩
  · rintro ⟨id, hid, helig, hkey⟩
    exact ⟨id, hid, hkey, helig⟩

theorem not_eligibleAt_iff (hg : g.Inv) {key : Bytes} : ¬ EligibleAt g key ↔ (sideOf g).idOf key = none := by
  rw [eligibleAt_iff hg]
  cases (sideOf g).idOf key <;> simp

theorem reachableAt_iff (hg : g.Inv) {id : SymbolId} (hid : id < g.symbols.length) :
    ReachableAt g (g.keyOf id) ↔ flag (analyzeReachability g).reachable id = true := by
  constructor
  · rintro ⟨other, hother, hkey, hreach⟩
    rwa [hg.key_inj hother hid hkey] at hreach
  · exact fun h => ⟨id, hid, rfl, h⟩

/-- The side's state of a key, in terms of the key's status. -/
theorem state_iff (hg : g.Inv) (key : Bytes) :
    (((sideOf g).state key).present = true ↔ EligibleAt g key) ∧
    (((sideOf g).state key).reachable = true ↔ EligibleAt g key ∧ ReachableAt g key) ∧
    (((sideOf g).state key).classification.isSome = true ↔ EligibleAt g key ∧ ¬ ReachableAt g key) := by
  cases hid : (sideOf g).idOf key with
  | none =>
    have hnot := (not_eligibleAt_iff hg).2 hid
    have hstate : (sideOf g).state key = {} := by unfold Side.state; rw [hid]; rfl
    rw [hstate]
    simp [hnot]
  | some id =>
    have helig := (eligibleAt_iff hg).2 ⟨id, hid⟩
    obtain ⟨hlt, hsym, rfl⟩ := (idOf_iff hg).1 hid
    have hspec := symbolState_spec hlt hsym
    have hstate : (sideOf g).state (g.keyOf id) =
        symbolState g (analyzeReachability g) (buildReport g (analyzeReachability g)) (some id) := by
      unfold Side.state; rw [hid]; rfl
    rw [hstate, hspec.present, hspec.reachable, hspec.classification, reachableAt_iff hg hlt]
    cases flag (analyzeReachability g).reachable id <;> simp [helig]

section Change
variable {baseline current : Graph} (hb : baseline.Inv) (hc : current.Inv)
include hb hc

theorem changeAt_iff {key : Bytes} (kind : ChangeKind)
    (hkey : EligibleAt baseline key ∨ EligibleAt current key) :
    (∃ change, changeAt (sideOf baseline) (sideOf current) key = some change ∧ change.kind = kind) ↔
      Changed baseline current key kind := by
  have hex : (∃ change, changeAt (sideOf baseline) (sideOf current) key = some change ∧ change.kind = kind) ↔
      changeKind (analyzeReachability baseline) (analyzeReachability current) ((sideOf baseline).idOf key)
        ((sideOf current).idOf key) = some kind := by
    simp only [changeAt, Option.map_eq_some_iff]
    constructor
    · rintro ⟨_, ⟨k, hk, rfl⟩, rfl⟩
      exact hk
    · intro h
      exact ⟨_, ⟨kind, h, rfl⟩, rfl⟩
  rw [hex]
  cases hbid : (sideOf baseline).idOf key with
  | none =>
    have hnb := (not_eligibleAt_iff hb).2 hbid
    have hec := hkey.resolve_left hnb
    cases kind <;> simp [changeKind, Changed, hnb, hec]
  | some b =>
    have heb := (eligibleAt_iff hb).2 ⟨b, hbid⟩
    obtain ⟨hblt, -, hbkey⟩ := (idOf_iff hb).1 hbid
    cases hcid : (sideOf current).idOf key with
    | none =>
      have hnc := (not_eligibleAt_iff hc).2 hcid
      cases kind <;> simp [changeKind, Changed, heb, hnc]
    | some c =>
      have hec := (eligibleAt_iff hc).2 ⟨c, hcid⟩
      obtain ⟨hclt, -, hckey⟩ := (idOf_iff hc).1 hcid
      have hrb := reachableAt_iff hb hblt
      have hrc := reachableAt_iff hc hclt
      rw [hbkey] at hrb
      rw [hckey] at hrc
      cases kind <;> simp only [changeKind, Changed, heb, hec, hrb, hrc] <;>
        cases flag (analyzeReachability baseline).reachable b <;>
        cases flag (analyzeReachability current).reachable c <;> simp

theorem changeAt_symbol {key : Bytes} {change : DifferentialChange}
    (hkey : EligibleAt baseline key ∨ EligibleAt current key)
    (h : changeAt (sideOf baseline) (sideOf current) key = some change) :
    change.symbol.key = key ∧ change.baseline = (sideOf baseline).state key ∧
      change.current = (sideOf current).state key := by
  simp only [changeAt, Option.map_eq_some_iff] at h
  obtain ⟨kind, -, rfl⟩ := h
  refine ⟨?_, rfl, rfl⟩
  cases hcid : (sideOf current).idOf key with
  | some c => exact ((idOf_iff hc).1 hcid).2.2
  | none =>
    obtain ⟨b, hbid⟩ := (eligibleAt_iff hb).1 (hkey.resolve_right ((not_eligibleAt_iff hc).2 hcid))
    rw [hbid]
    exact ((idOf_iff hb).1 hbid).2.2

end Change

/-! ## The loop over the keys -/

/-- The comparison of a baseline with a graph, its own reachability and its own report. -/
def differential (baseline : GraphArtifact) (current : Graph) (metadata : GraphArtifactMetadata)
    (policy : Option DifferentialPolicy) : Except Exception DifferentialReport :=
  buildDifferentialReport baseline current (analyzeReachability current)
    (buildReport current (analyzeReachability current)) metadata policy

/-- The keys that the loop visits. -/
def comparedKeys (baseline current : Graph) : List Bytes :=
  sortUnique ((eligibleIds baseline).map (·.1) ++ (eligibleIds current).map (·.1))

/-- The change that the loop records for a key. -/
def recordedChange (baseline current : Graph) (metadata : GraphArtifactMetadata)
    (policy : Option DifferentialPolicy) (key : Bytes) : Option DifferentialChange :=
  (changeAt (sideOf baseline) (sideOf current) key).map fun change =>
    { change with policyMatch := (policy.map fun p => policyMatches p metadata change).getD false }

theorem mem_comparedKeys {baseline current : Graph} (hb : baseline.Inv) (hc : current.Inv) {key : Bytes} :
    key ∈ comparedKeys baseline current ↔ EligibleAt baseline key ∨ EligibleAt current key := by
  have hside : ∀ {g : Graph} (_ : g.Inv), key ∈ (eligibleIds g).map (·.1) ↔ EligibleAt g key := fun {g} hg => by
    rw [← lookup_isSome_iff, eligibleAt_iff hg, Option.isSome_iff_exists]
    rfl
  rw [comparedKeys, mem_sortUnique, List.mem_append, hside hb, hside hc]

theorem comparedKeys_comm (baseline current : Graph) : comparedKeys baseline current = comparedKeys current baseline :=
  sortUnique_congr fun x => by rw [List.mem_append, List.mem_append, or_comm]

/-- The report of a loop that recorded `changes`. -/
structure Recorded (changes : List DifferentialChange) (report : DifferentialReport) : Prop where
  changes_eq : report.changes = changes
  newSymbols : report.newSymbols = changes.countP (·.kind == .newSymbol)
  newlyUnreachable : report.newlyUnreachable = changes.countP (·.kind == .newlyUnreachable)
  removed : report.removed = changes.countP (·.kind == .removed)
  becameReachable : report.becameReachable = changes.countP (·.kind == .becameReachable)
  policyMatches : report.policyMatches = changes.countP (·.policyMatch)

theorem visitKey_foldl (baseline current : Graph) (metadata : GraphArtifactMetadata)
    (policy : Option DifferentialPolicy) (keys : List Bytes) (report : DifferentialReport) :
    keys.foldl (visitKey (sideOf baseline) (sideOf current) metadata policy) report =
      (keys.filterMap (recordedChange baseline current metadata policy)).foldl countChange report := by
  rw [List.foldl_filterMap]
  congr 1
  funext report key
  unfold visitKey recordedChange
  cases changeAt (sideOf baseline) (sideOf current) key <;> rfl

theorem countChange_foldl (changes : List DifferentialChange) (before after : GraphArtifactMetadata) :
    Recorded changes (changes.foldl countChange { baseline := before, current := after }) := by
  have hcount := fun (f : DifferentialReport → Nat) (p : DifferentialChange → Bool)
      (h : ∀ report change, f (countChange report change) = f report + (p change).toNat) =>
    foldl_count countChange f p h changes { baseline := before, current := after }
  have hchanges := foldl_collect countChange (·.changes) (fun _ => true) id (fun _ _ => rfl) changes
    { baseline := before, current := after }
  refine ⟨by simpa using hchanges, ?_, ?_, ?_, ?_, ?_⟩
  · simpa using hcount (·.newSymbols) (·.kind == .newSymbol) (fun _ _ => rfl)
  · simpa using hcount (·.newlyUnreachable) (·.kind == .newlyUnreachable) (fun _ _ => rfl)
  · simpa using hcount (·.removed) (·.kind == .removed) (fun _ _ => rfl)
  · simpa using hcount (·.becameReachable) (·.kind == .becameReachable) (fun _ _ => rfl)
  · simpa using hcount (·.policyMatches) (·.policyMatch) (fun _ _ => rfl)

/-- An accepted comparison records the change of every compared key. -/
theorem differential_ok {baseline : GraphArtifact} {current : Graph} {metadata : GraphArtifactMetadata}
    {policy : Option DifferentialPolicy} {report : DifferentialReport}
    (h : differential baseline current metadata policy = .ok report) :
    requireTarget metadata policy = .ok () ∧
      Recorded ((comparedKeys baseline.graph current).filterMap
        (recordedChange baseline.graph current metadata policy)) report := by
  unfold differential buildDifferentialReport at h
  cases hcontext : requireCompatibleContext baseline.metadata metadata with
  | error e => rw [hcontext] at h; cases h
  | ok u =>
    rw [hcontext] at h
    cases htarget : requireTarget metadata policy with
    | error e => rw [htarget] at h; cases h
    | ok v =>
      rw [htarget] at h
      refine ⟨rfl, ?_⟩
      cases h
      rw [show Side.mk baseline.graph _ _ = sideOf baseline.graph from rfl,
        show Side.mk current _ _ = sideOf current from rfl, visitKey_foldl]
      exact countChange_foldl _ _ _

theorem differential_accepts (baseline : GraphArtifact) (current : Graph) {metadata : GraphArtifactMetadata}
    (h : requireCompatibleContext baseline.metadata metadata = .ok ()) :
    ∃ report, differential baseline current metadata none = .ok report := by
  unfold differential buildDifferentialReport
  rw [h]
  exact ⟨_, rfl⟩

theorem requireCompatibleContext_symm {baseline current : GraphArtifactMetadata}
    (h : requireCompatibleContext baseline current = .ok ()) : requireCompatibleContext current baseline = .ok () := by
  unfold requireCompatibleContext at *
  split at h
  · cases h
  · rename_i hconfiguration
    split at h
    · cases h
    · rename_i hfrontend
      split at h
      · cases h
      · rename_i htarget
        rw [if_neg (fun hne => hconfiguration (Ne.symm hne)), if_neg (fun hne => hfrontend (Ne.symm hne)), if_neg]
        rintro (hne | hne | hne)
        · exact htarget (.inl (Ne.symm hne))
        · exact htarget (.inr (.inl (Ne.symm hne)))
        · exact htarget (.inr (.inr (Ne.symm hne)))

/-! ## The changes -/

/-- The kind of a change seen from the other side. -/
def ChangeKind.swap : ChangeKind → ChangeKind
  | .newSymbol => .removed | .removed => .newSymbol
  | .newlyUnreachable => .becameReachable | .becameReachable => .newlyUnreachable

/-- One change for each key whose status differs, and nothing else. -/
structure ListsChanges (baseline current : Graph) (report : DifferentialReport) : Prop where
  keys_nodup : (report.changes.map (·.symbol.key)).Nodup
  changed_iff : ∀ key kind,
    (∃ change ∈ report.changes, change.symbol.key = key ∧ change.kind = kind) ↔ Changed baseline current key kind
  newSymbols : report.newSymbols = report.changes.countP (·.kind == .newSymbol)
  newlyUnreachable : report.newlyUnreachable = report.changes.countP (·.kind == .newlyUnreachable)
  removed : report.removed = report.changes.countP (·.kind == .removed)
  becameReachable : report.becameReachable = report.changes.countP (·.kind == .becameReachable)
  baseline_state : ∀ change ∈ report.changes,
    (change.baseline.present = true ↔ EligibleAt baseline change.symbol.key) ∧
    (change.baseline.classification.isSome = true ↔
      EligibleAt baseline change.symbol.key ∧ ¬ ReachableAt baseline change.symbol.key)
  current_state : ∀ change ∈ report.changes,
    (change.current.present = true ↔ EligibleAt current change.symbol.key) ∧
    (change.current.classification.isSome = true ↔
      EligibleAt current change.symbol.key ∧ ¬ ReachableAt current change.symbol.key)

theorem changed_eligible {baseline current : Graph} {key : Bytes} {kind : ChangeKind}
    (h : Changed baseline current key kind) : EligibleAt baseline key ∨ EligibleAt current key := by
  cases kind with
  | newSymbol => exact .inr h.2
  | removed => exact .inl h.1
  | newlyUnreachable => exact .inl h.1.1
  | becameReachable => exact .inl h.1.1

section Recorded
variable {baseline current : Graph} (hb : baseline.Inv) (hc : current.Inv) {metadata : GraphArtifactMetadata}
  {policy : Option DifferentialPolicy} {report : DifferentialReport}
include hb hc

/-- What is recorded for a compared key. -/
theorem recordedChange_spec {key : Bytes} (hkey : key ∈ comparedKeys baseline current) {change : DifferentialChange}
    (h : recordedChange baseline current metadata policy key = some change) :
    change.symbol.key = key ∧ Changed baseline current key change.kind ∧
      change.baseline = (sideOf baseline).state key ∧ change.current = (sideOf current).state key ∧
      change.policyMatch = (policy.map fun p => policyMatches p metadata change).getD false := by
  have helig := (mem_comparedKeys hb hc).1 hkey
  obtain ⟨base, hbase, rfl⟩ := Option.map_eq_some_iff.1 h
  obtain ⟨hsymbol, hbefore, hafter⟩ := changeAt_symbol hb hc helig hbase
  exact ⟨hsymbol, (changeAt_iff hb hc base.kind helig).1 ⟨base, hbase, rfl⟩, hbefore, hafter, rfl⟩

theorem recordedChange_exists (metadata : GraphArtifactMetadata) (policy : Option DifferentialPolicy) {key : Bytes} (hkey : key ∈ comparedKeys baseline current) {kind : ChangeKind}
    (h : Changed baseline current key kind) :
    ∃ change, recordedChange baseline current metadata policy key = some change ∧ change.kind = kind := by
  obtain ⟨base, hbase, hkind⟩ := (changeAt_iff hb hc kind ((mem_comparedKeys hb hc).1 hkey)).2 h
  exact ⟨{ base with policyMatch := (policy.map fun p => policyMatches p metadata base).getD false },
    by rw [recordedChange, hbase]; rfl, hkind⟩

theorem recorded_keys :
    ((comparedKeys baseline current).filterMap (recordedChange baseline current metadata policy)).map
        (·.symbol.key) =
      (comparedKeys baseline current).filter
        fun key => (recordedChange baseline current metadata policy key).isSome := by
  rw [List.map_filterMap, ← List.filterMap_eq_filter]
  refine List.filterMap_congr fun key hkey => ?_
  cases h : recordedChange baseline current metadata policy key with
  | none => simp [Option.guard, h]
  | some change => simp [Option.guard, h, (recordedChange_spec hb hc hkey h).1]

theorem Recorded.listsChanges
    (h : Recorded ((comparedKeys baseline current).filterMap (recordedChange baseline current metadata policy)) report) :
    ListsChanges baseline current report := by
  have hmem : ∀ change ∈ report.changes, ∃ key ∈ comparedKeys baseline current,
      recordedChange baseline current metadata policy key = some change := fun change hchange => by
    rw [h.changes_eq] at hchange
    exact List.mem_filterMap.1 hchange
  refine ⟨?_, fun key kind => ?_, by rw [h.changes_eq]; exact h.newSymbols,
    by rw [h.changes_eq]; exact h.newlyUnreachable, by rw [h.changes_eq]; exact h.removed,
    by rw [h.changes_eq]; exact h.becameReachable, fun change hchange => ?_, fun change hchange => ?_⟩
  · rw [h.changes_eq, recorded_keys hb hc]
    exact (sortUnique_nodup _).filter _
  · constructor
    · rintro ⟨change, hchange, rfl, rfl⟩
      obtain ⟨key, hkey, hrec⟩ := hmem change hchange
      obtain ⟨hsymbol, hchanged, -⟩ := recordedChange_spec hb hc hkey hrec
      rwa [hsymbol]
    · intro hchanged
      have hkey := (mem_comparedKeys hb hc).2 (changed_eligible hchanged)
      obtain ⟨change, hrec, hkind⟩ := recordedChange_exists hb hc metadata policy hkey hchanged
      refine ⟨change, ?_, (recordedChange_spec hb hc hkey hrec).1, hkind⟩
      rw [h.changes_eq]
      exact List.mem_filterMap.2 ⟨key, hkey, hrec⟩
  · obtain ⟨key, hkey, hrec⟩ := hmem change hchange
    obtain ⟨hsymbol, -, hbefore, -⟩ := recordedChange_spec hb hc hkey hrec
    rw [hbefore, hsymbol]
    exact ⟨(state_iff hb key).1, (state_iff hb key).2.2⟩
  · obtain ⟨key, hkey, hrec⟩ := hmem change hchange
    obtain ⟨hsymbol, -, -, hafter, -⟩ := recordedChange_spec hb hc hkey hrec
    rw [hafter, hsymbol]
    exact ⟨(state_iff hc key).1, (state_iff hc key).2.2⟩

end Recorded

/-- A graph does not differ from itself. -/
theorem not_changed_self {g : Graph} {key : Bytes} {kind : ChangeKind} : ¬ Changed g g key kind := by
  cases kind with
  | newSymbol => exact fun h => h.1 h.2
  | removed => exact fun h => h.2 h.1
  | newlyUnreachable => exact fun h => h.2.2 h.1.2
  | becameReachable => exact fun h => h.1.2 h.2.2

theorem changed_swap {baseline current : Graph} {key : Bytes} {kind : ChangeKind} :
    Changed current baseline key kind.swap ↔ Changed baseline current key kind := by
  cases kind <;> simp only [ChangeKind.swap, Changed] <;> tauto

/-- The keys and kinds that a report lists, in the order of the keys. -/
theorem recorded_kinds {baseline current : Graph} (hb : baseline.Inv) (hc : current.Inv)
    {metadata metadata' : GraphArtifactMetadata} {policy policy' : Option DifferentialPolicy} :
    ((comparedKeys current baseline).filterMap (recordedChange current baseline metadata' policy')).map
        (fun change => (change.symbol.key, change.kind)) =
      ((comparedKeys baseline current).filterMap (recordedChange baseline current metadata policy)).map
        (fun change => (change.symbol.key, change.kind.swap)) := by
  rw [List.map_filterMap, List.map_filterMap, comparedKeys_comm current baseline]
  refine List.filterMap_congr fun key hkey => ?_
  have hkey' : key ∈ comparedKeys current baseline := by rwa [comparedKeys_comm]
  cases h : recordedChange baseline current metadata policy key with
  | none =>
    cases h' : recordedChange current baseline metadata' policy' key with
    | none => rfl
    | some change =>
      obtain ⟨-, hchanged, -⟩ := recordedChange_spec hc hb hkey' h'
      obtain ⟨change', hrec, -⟩ := recordedChange_exists hb hc metadata policy hkey
        (changed_swap.2 hchanged)
      rw [hrec] at h
      cases h
  | some change =>
    obtain ⟨hsymbol, hchanged, -⟩ := recordedChange_spec hb hc hkey h
    obtain ⟨change', hrec, hkind⟩ := recordedChange_exists hc hb metadata' policy' hkey'
      (changed_swap.2 hchanged)
    obtain ⟨hsymbol', -⟩ := recordedChange_spec hc hb hkey' hrec
    rw [hrec]
    simp only [Option.map_some, hsymbol, hsymbol', hkind]

/-- Without a policy, a report lists exactly the changes of status; a graph has
none against itself, and swapping the sides turns each change around. -/
theorem buildDifferentialReport_changes {baseline : GraphArtifact} {current : Graph}
    {metadata : GraphArtifactMetadata} (diagnostics : List Bytes) (hb : Built baseline.graph) (hc : Built current)
    (hm : requireCompatibleContext baseline.metadata metadata = .ok ()) :
    ∃ report swapped, differential baseline current metadata none = .ok report ∧
      differential ⟨current, metadata, diagnostics⟩ baseline.graph baseline.metadata none = .ok swapped ∧
      ListsChanges baseline.graph current report ∧
      (baseline.graph = current → report.changes = []) ∧
      swapped.changes.map (fun change => (change.symbol.key, change.kind)) =
        report.changes.map (fun change => (change.symbol.key, change.kind.swap)) := by
  obtain ⟨report, hreport⟩ := differential_accepts baseline current hm
  obtain ⟨swapped, hswapped⟩ := differential_accepts ⟨current, metadata, diagnostics⟩ baseline.graph
    (requireCompatibleContext_symm hm)
  have hrecorded := (differential_ok hreport).2
  have hlists := hrecorded.listsChanges hb.inv hc.inv
  refine ⟨report, swapped, hreport, hswapped, hlists, fun heq => ?_, ?_⟩
  · refine List.eq_nil_iff_forall_not_mem.2 fun change hchange => ?_
    have hchanged := (hlists.changed_iff change.symbol.key change.kind).1 ⟨change, hchange, rfl, rfl⟩
    rw [heq] at hchanged
    exact not_changed_self hchanged
  · rw [(differential_ok hswapped).2.changes_eq, hrecorded.changes_eq]
    exact recorded_kinds hb.inv hc.inv

/-- `main` is removed and `f` is new between the two units. -/
theorem calleeUnit_changes : ∃ report, differential ⟨mainUnit, {}, []⟩ calleeUnit {} none = .ok report ∧
    ListsChanges mainUnit calleeUnit report := by
  obtain ⟨report, -, hreport, -, hlists, -⟩ :=
    @buildDifferentialReport_changes ⟨mainUnit, {}, []⟩ calleeUnit {} [] mainUnit_built calleeUnit_built rfl
  exact ⟨report, hreport, hlists⟩

/-! ## The gate -/

/-- The current symbol is unreachable, nothing suppresses it, and it is debt that
the policy names: new, or reachable in the baseline. -/
structure NewDebt (baseline current : Graph) (policy : DifferentialPolicy) (id : SymbolId) : Prop where
  valid : id < current.symbols.length
  eligible : eligibleSymbol (current.symbol id) = true
  unreachable : flag (analyzeReachability current).reachable id = false
  unsuppressed : ∀ s ∈ current.suppressions, s.symbol ≠ id
  classified : (classify current id (current.symbol id)).classification ∈ policy.classifications
  changed : (.newSymbol ∈ policy.changes ∧ ¬ EligibleAt baseline (current.keyOf id)) ∨
    (.newlyUnreachable ∈ policy.changes ∧ EligibleAt baseline (current.keyOf id) ∧
      ReachableAt baseline (current.keyOf id))

/-- What the gate counts. -/
structure GatesNewDebt (baseline current : Graph) (policy : DifferentialPolicy) (report : DifferentialReport) :
    Prop where
  matches_eq : report.policyMatches = {id | NewDebt baseline current policy id}.ncard
  match_iff : ∀ change ∈ report.changes, change.policyMatch = true ↔
    ∃ id, NewDebt baseline current policy id ∧ current.keyOf id = change.symbol.key
  match_kind : ∀ change ∈ report.changes, change.policyMatch = true →
    change.kind = .newSymbol ∨ change.kind = .newlyUnreachable
  match_state : ∀ change ∈ report.changes, change.policyMatch = true →
    change.current.present = true ∧ change.current.reachable = false ∧ change.current.suppressed = false

section Gate
variable {baseline current : Graph} {metadata : GraphArtifactMetadata} {policy : DifferentialPolicy}

/-- The policy's test of a recorded change, in terms of the current graph. -/
theorem policyMatches_iff (hc : current.Inv) (htarget : requireTarget metadata (some policy) = .ok ()) {change : DifferentialChange}
    {id : SymbolId} (hid : id < current.symbols.length) (helig : eligibleSymbol (current.symbol id) = true)
    (hstate : StateSpec current id change.current)
    (hchanged : Changed baseline current (current.keyOf id) change.kind) :
    policyMatches policy metadata change = true ↔ NewDebt baseline current policy id := by
  have htargets : (policy.targets.isEmpty || decide (metadata.targetName ∈ policy.targets)) = true := by
    simp only [requireTarget] at htarget
    split at htarget
    · cases htarget
    · rename_i h
      by_cases hempty : policy.targets = []
      · simp [hempty]
      · have hname : metadata.targetName ∈ policy.targets := by
          by_contra hout
          exact h ⟨hempty, .inr hout⟩
        simp [hname]
  have helig' : EligibleAt current (current.keyOf id) := ⟨id, hid, rfl, helig⟩
  have hreach := reachableAt_iff hc hid
  unfold policyMatches
  rw [hstate.classification, hstate.suppressed, htargets]
  cases hflag : flag (analyzeReachability current).reachable id with
  | true => exact ⟨nofun, fun h => absurd h.unreachable (by simp [hflag])⟩
  | false =>
    have hdead : ¬ ReachableAt current (current.keyOf id) := by rw [hreach, hflag]; decide
    have hkind : change.kind ∈ policy.changes ↔
        (.newSymbol ∈ policy.changes ∧ ¬ EligibleAt baseline (current.keyOf id)) ∨
        (.newlyUnreachable ∈ policy.changes ∧ EligibleAt baseline (current.keyOf id) ∧
          ReachableAt baseline (current.keyOf id)) := by
      cases hk : change.kind with
      | newSymbol =>
        rw [hk] at hchanged
        simp [hchanged.1]
      | removed =>
        rw [hk] at hchanged
        exact absurd helig' hchanged.2
      | newlyUnreachable =>
        rw [hk] at hchanged
        simp [hchanged.1.1, hchanged.1.2]
      | becameReachable =>
        rw [hk] at hchanged
        exact absurd hchanged.2.2 hdead
    have hsuppressed : isSuppressed current id = false ↔ ∀ s ∈ current.suppressions, s.symbol ≠ id := by
      rw [← Bool.not_eq_true, isSuppressed_iff]
      simp only [not_exists, not_and, ne_eq]
    simp only [Bool.false_eq_true, if_false, Bool.not_false, Bool.true_and, Bool.and_true, Bool.and_eq_true,
      decide_eq_true_eq, Bool.not_eq_true', hsuppressed, hkind]
    constructor
    · rintro ⟨⟨hchange, hunsuppressed⟩, hclassified⟩
      exact ⟨hid, helig, hflag, hunsuppressed, hclassified, hchange⟩
    · exact fun h => ⟨⟨h.changed, h.unsuppressed⟩, h.classified⟩

variable (hb : baseline.Inv) (hc : current.Inv)
include hb hc

/-- A recorded change matches exactly where its symbol is new debt. -/
theorem recordedChange_match (htarget : requireTarget metadata (some policy) = .ok ()) {key : Bytes}
    (hkey : key ∈ comparedKeys baseline current) {change : DifferentialChange}
    (h : recordedChange baseline current metadata (some policy) key = some change) :
    (change.policyMatch = true ↔ ∃ id, NewDebt baseline current policy id ∧ current.keyOf id = key) ∧
    (change.policyMatch = true → change.current.present = true ∧ change.current.reachable = false ∧
      change.current.suppressed = false) := by
  obtain ⟨-, hchanged, -, hafter, hmatch⟩ := recordedChange_spec hb hc hkey h
  rw [show change.policyMatch = policyMatches policy metadata change from hmatch]
  cases hcid : (sideOf current).idOf key with
  | none =>
    have hnot := (not_eligibleAt_iff hc).2 hcid
    have hstate : change.current = {} := by rw [hafter]; unfold Side.state; rw [hcid]; rfl
    have hfalse : policyMatches policy metadata change = false := by unfold policyMatches; rw [hstate]
    rw [hfalse]
    refine ⟨⟨nofun, ?_⟩, nofun⟩
    rintro ⟨id, hdebt, hid⟩
    exact absurd ⟨id, hdebt.valid, hid, hdebt.eligible⟩ hnot
  | some id =>
    obtain ⟨hid, helig, rfl⟩ := (idOf_iff hc).1 hcid
    have hstate : StateSpec current id change.current := by
      rw [hafter]
      unfold Side.state
      rw [hcid]
      exact symbolState_spec hid helig
    have hiff := policyMatches_iff hc htarget hid helig hstate hchanged
    constructor
    · rw [hiff]
      constructor
      · exact fun hdebt => ⟨id, hdebt, rfl⟩
      · rintro ⟨other, hdebt, hother⟩
        rwa [← hc.key_inj hdebt.valid hid hother]
    · intro hmatch
      have hdebt := hiff.1 hmatch
      refine ⟨hstate.present, hstate.reachable.trans hdebt.unreachable, ?_⟩
      rw [hstate.suppressed, Bool.and_eq_false_iff]
      right
      rw [← Bool.not_eq_true, isSuppressed_iff]
      rintro ⟨s, hs, hname⟩
      exact hdebt.unsuppressed s hs hname

/-- New debt changes the status of its key. -/
theorem NewDebt.recorded (htarget : requireTarget metadata (some policy) = .ok ()) {id : SymbolId}
    (h : NewDebt baseline current policy id) :
    ∃ change, recordedChange baseline current metadata (some policy) (current.keyOf id) = some change ∧
      change.policyMatch = true := by
  have helig : EligibleAt current (current.keyOf id) := ⟨id, h.valid, rfl, h.eligible⟩
  have hdead : ¬ ReachableAt current (current.keyOf id) := by
    rw [reachableAt_iff hc h.valid, h.unreachable]
    decide
  have hkey := (mem_comparedKeys hb hc).2 (.inr helig : EligibleAt baseline _ ∨ _)
  have hchanged : ∃ kind, Changed baseline current (current.keyOf id) kind := by
    rcases h.changed with ⟨-, hnew⟩ | ⟨-, hbefore⟩
    · exact ⟨.newSymbol, hnew, helig⟩
    · exact ⟨.newlyUnreachable, hbefore, helig, hdead⟩
  obtain ⟨kind, hchanged⟩ := hchanged
  obtain ⟨change, hrec, -⟩ := recordedChange_exists hb hc metadata (some policy) hkey hchanged
  exact ⟨change, hrec, (recordedChange_match hb hc htarget hkey hrec).1.2 ⟨id, h, rfl⟩⟩

/-- The matching keys are the keys of the new debt. -/
theorem matchingKeys (htarget : requireTarget metadata (some policy) = .ok ()) {changes : List DifferentialChange}
    (h : changes = (comparedKeys baseline current).filterMap
      (recordedChange baseline current metadata (some policy))) :
    (((changes.filter (·.policyMatch)).map (·.symbol.key)).toFinset : Set Bytes) =
      current.keyOf '' {id | NewDebt baseline current policy id} := by
  ext key
  simp only [List.coe_toFinset, Set.mem_ofPred_eq, List.mem_map, List.mem_filter, Set.mem_image, h]
  constructor
  · rintro ⟨change, ⟨hchange, hmatch⟩, rfl⟩
    obtain ⟨key, hkey, hrec⟩ := List.mem_filterMap.1 hchange
    rw [(recordedChange_spec hb hc hkey hrec).1]
    exact (recordedChange_match hb hc htarget hkey hrec).1.1 hmatch
  · rintro ⟨id, hdebt, rfl⟩
    obtain ⟨change, hrec, hmatch⟩ := hdebt.recorded hb hc htarget
    have hkey := (mem_comparedKeys hb hc).2
      (.inr ⟨id, hdebt.valid, rfl, hdebt.eligible⟩ : EligibleAt baseline (current.keyOf id) ∨ _)
    exact ⟨change, ⟨List.mem_filterMap.2 ⟨_, hkey, hrec⟩, hmatch⟩, (recordedChange_spec hb hc hkey hrec).1⟩

end Gate

theorem policyMatches_classified {policy : DifferentialPolicy} {metadata : GraphArtifactMetadata}
    {change : DifferentialChange} (h : policyMatches policy metadata change = true) :
    change.current.classification.isSome = true := by
  unfold policyMatches at h
  split at h
  · cases h
  · rename_i hsome
    rw [hsome]
    rfl

theorem recordedChange_classified {baseline current : Graph} {metadata : GraphArtifactMetadata}
    {policy : Option DifferentialPolicy} {key : Bytes} {change : DifferentialChange}
    (h : recordedChange baseline current metadata policy key = some change) (hmatch : change.policyMatch = true) :
    change.current.classification.isSome = true := by
  obtain ⟨base, -, rfl⟩ := Option.map_eq_some_iff.1 h
  cases policy with
  | none => cases hmatch
  | some policy => exact @policyMatches_classified policy metadata base hmatch

/-- An accepted comparison matches no change without a classification. -/
theorem differential_classified {baseline : GraphArtifact} {current : Graph} {metadata : GraphArtifactMetadata}
    {policy : Option DifferentialPolicy} {report : DifferentialReport}
    (h : differential baseline current metadata policy = .ok report) :
    ∀ change ∈ report.changes, change.policyMatch = true → change.current.classification.isSome = true := by
  obtain ⟨-, hrecorded⟩ := differential_ok h
  intro change hchange hmatch
  rw [hrecorded.changes_eq] at hchange
  obtain ⟨key, -, hrec⟩ := List.mem_filterMap.1 hchange
  exact recordedChange_classified hrec hmatch

/-- The writer succeeds where every selected change has a classification. -/
theorem writeSarif_isSome {report : DifferentialReport} (projectRoot : Path) (toolVersion : Bytes)
    (h : ∀ change ∈ report.changes, change.policyMatch = true → change.current.classification.isSome = true) :
    (writeSarif report projectRoot toolVersion).isSome = true := by
  have hselected : ∀ change ∈ report.changes.filter (·.policyMatch), ∃ classification,
      change.current.classification = some classification := fun change hchange => by
    obtain ⟨hmem, hmatch⟩ := List.mem_filter.1 hchange
    exact Option.isSome_iff_exists.1 (h change hmem hmatch)
  have hrule : ((report.changes.filter (·.policyMatch)).mapM sarifRule).isSome = true :=
    mapM_isSome fun change hchange => by
      obtain ⟨classification, hc⟩ := hselected change hchange
      unfold sarifRule
      rw [hc]
      rfl
  have hresult : ((report.changes.filter (·.policyMatch)).mapM
      (sarifResult report.current.targetName projectRoot)).isSome = true :=
    mapM_isSome fun change hchange => by
      obtain ⟨classification, hc⟩ := hselected change hchange
      unfold sarifResult sarifRule
      rw [hc]
      rfl
  obtain ⟨rules, hrules⟩ := Option.isSome_iff_exists.1 hrule
  obtain ⟨results, hresults⟩ := Option.isSome_iff_exists.1 hresult
  simp only [writeSarif, hrules, hresults]
  rfl

/-- An accepted comparison with a policy counts the new debt, matches nothing
else, and the SARIF writer reads no absent classification. -/
theorem policyMatches_gate {baseline : GraphArtifact} {current : Graph} {metadata : GraphArtifactMetadata}
    {policy : DifferentialPolicy} {report : DifferentialReport} (hb : Built baseline.graph) (hc : Built current)
    (h : differential baseline current metadata (some policy) = .ok report) :
    GatesNewDebt baseline.graph current policy report ∧
      ∀ projectRoot toolVersion, (writeSarif report projectRoot toolVersion).isSome = true := by
  obtain ⟨htarget, hrecorded⟩ := differential_ok h
  have hlists := hrecorded.listsChanges hb.inv hc.inv
  have hmem : ∀ change ∈ report.changes, ∃ key ∈ comparedKeys baseline.graph current,
      recordedChange baseline.graph current metadata (some policy) key = some change := fun change hchange => by
    rw [hrecorded.changes_eq] at hchange
    exact List.mem_filterMap.1 hchange
  refine ⟨⟨?_, fun change hchange => ?_, fun change hchange hmatch => ?_, fun change hchange => ?_⟩,
    fun projectRoot toolVersion => writeSarif_isSome _ _ (differential_classified h)⟩
  · have hinj : Set.InjOn current.keyOf {id | NewDebt baseline.graph current policy id} :=
      fun a ha b hb => hc.inv.key_inj ha.valid hb.valid
    rw [← hinj.ncard_image, ← matchingKeys hb.inv hc.inv htarget hrecorded.changes_eq, Set.ncard_coe_finset, List.toFinset_card_of_nodup,
      List.length_map, hrecorded.policyMatches, ← hrecorded.changes_eq, List.countP_eq_length_filter]
    exact hlists.keys_nodup.sublist (List.filter_sublist.map _)
  · obtain ⟨key, hkey, hrec⟩ := hmem change hchange
    rw [(recordedChange_spec hb.inv hc.inv hkey hrec).1]
    exact (recordedChange_match hb.inv hc.inv htarget hkey hrec).1
  · obtain ⟨key, hkey, hrec⟩ := hmem change hchange
    obtain ⟨id, hdebt, rfl⟩ := (recordedChange_match hb.inv hc.inv htarget hkey hrec).1.1 hmatch
    obtain ⟨-, hchanged, -⟩ := recordedChange_spec hb.inv hc.inv hkey hrec
    cases hkind : change.kind with
    | newSymbol => exact .inl rfl
    | newlyUnreachable => exact .inr rfl
    | removed =>
      rw [hkind] at hchanged
      exact absurd ⟨id, hdebt.valid, rfl, hdebt.eligible⟩ hchanged.2
    | becameReachable =>
      rw [hkind] at hchanged
      have hdead := (reachableAt_iff hc.inv hdebt.valid).1 hchanged.2.2
      rw [hdebt.unreachable] at hdead
      cases hdead
  · obtain ⟨key, hkey, hrec⟩ := hmem change hchange
    exact (recordedChange_match hb.inv hc.inv htarget hkey hrec).2

/-- `f` is new debt when its unit is compared with the unit of `main`. -/
theorem calleeUnit_gate : ∃ report, differential ⟨mainUnit, {}, []⟩ calleeUnit {} (some {}) = .ok report ∧
    report.policyMatches = {id | NewDebt mainUnit calleeUnit {} id}.ncard :=
  ⟨_, rfl, (@policyMatches_gate ⟨mainUnit, {}, []⟩ calleeUnit {} {} _ mainUnit_built calleeUnit_built rfl).1.matches_eq⟩

end CxxDead
