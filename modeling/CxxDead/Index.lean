import CxxDead.CacheRoundTrip
import CxxDead.Lib.Tables
/-!
# The merge loop of the indexer

Each translation unit's facts are merged into the result, either as they were
collected or as the cache gives them back.

- `indexUnits_warm_cold`: with any of the units served from the cache, the loop
  ends as it does with none, and says the same.
-/

namespace CxxDead

open Lib

/-! ## The loop -/

/-- What is collected from a translation unit, by an indexer with `rules` callback rules. -/
structure TranslationUnit (rules : Nat) where
  cacheKey : Bytes
  graph : Graph
  diagnostics : List Bytes
  ruleMatches : List Bool
  /-- The bases of each record, by the record's name. -/
  records : List (Bytes × List Bytes)
  dependencies : List CacheDependency
  astBytes : UInt64
  factBytes : UInt64
  built : Built graph
  matches_length : ruleMatches.length = rules
  names_nodup : (records.map (·.1)).Nodup

/-- The entry that the indexer stores for a unit. -/
def cacheEntry {rules : Nat} (unit : TranslationUnit rules) : TranslationUnitCacheEntry :=
  { graph := unit.graph
    diagnostics := unit.diagnostics
    registrationRuleMatches := unit.ruleMatches
    recordHierarchy := sortOn (·.name) (unit.records.map fun r => ⟨r.1, sortUnique r.2⟩)
    dependencies := unit.dependencies
    astBytes := unit.astBytes
    factBytes := unit.factBytes }

structure IndexState where
  graph : Graph := {}
  diagnostics : List Bytes := []
  ruleMatches : List Bool := []
  records : List (Bytes × List Bytes) := []
  factBytes : UInt64 := 0
  translationUnits : Nat := 0

abbrev IndexM := EStateM Exception IndexState

/-- `records[name]`, to which the bases are added; then they are sorted and made unique. -/
def addRecord (records : List (Bytes × List Bytes)) (name : Bytes) (bases : List Bytes) : List (Bytes × List Bytes) :=
  match records with
  | [] => [(name, sortUnique bases)]
  | (n, b) :: rest =>
    if n = name then (n, sortUnique (b ++ bases)) :: rest else (n, b) :: addRecord rest name bases

/-- `merge_graph` on the result's graph. -/
def mergeInto (source : Graph) : IndexM Unit := fun s =>
  match mergeGraph source s.graph with
  | .ok _ g => .ok () { s with graph := g }
  | .error e g => .error e { s with graph := g }

def appendDiagnostics (diagnostics : List Bytes) (s : IndexState) : IndexState :=
  { s with diagnostics := s.diagnostics ++ diagnostics }

def orMatches (ruleMatches : List Bool) (s : IndexState) : IndexState :=
  { s with ruleMatches := List.zipWith (· || ·) s.ruleMatches ruleMatches }

def addRecords (records : List (Bytes × List Bytes)) (s : IndexState) : IndexState :=
  { s with records := records.foldl (fun records r => addRecord records r.1 r.2) s.records }

/-- The path of a cache hit. -/
def mergeCached (entry : TranslationUnitCacheEntry) : IndexM Unit := do
  mergeInto entry.graph
  modify fun s => { s with factBytes := s.factBytes + entry.factBytes }
  modify (appendDiagnostics entry.diagnostics)
  modify (orMatches entry.registrationRuleMatches)
  modify (addRecords (entry.recordHierarchy.map fun record => (record.name, record.bases)))
  modify fun s => { s with translationUnits := s.translationUnits + 1 }

/-- The path of a unit that has just been collected. -/
def mergeFresh {rules : Nat} (unit : TranslationUnit rules) : IndexM Unit := do
  modify fun s => { s with factBytes := s.factBytes + unit.factBytes }
  mergeInto unit.graph
  modify (appendDiagnostics unit.diagnostics)
  modify (orMatches unit.ruleMatches)
  modify (addRecords unit.records)
  modify fun s => { s with translationUnits := s.translationUnits + 1 }

/-- The entry in a cache file, if there is one that can be read and fits the rules. -/
def loadEntry (key : Bytes) (rules : Nat) (contents : Option Bytes) : Option TranslationUnitCacheEntry := do
  let contents ← contents
  let entry ← (readEntry key contents).toOption
  if entry.registrationRuleMatches.length ≠ rules then none else some entry

def indexUnit {rules : Nat} (unit : TranslationUnit rules) (contents : Option Bytes) : IndexM Unit :=
  match loadEntry unit.cacheKey rules contents with
  | some entry => mergeCached entry
  | none => mergeFresh unit

/-- The loop; each unit comes with what its cache file holds. -/
def indexUnits {rules : Nat} (units : List (TranslationUnit rules × Option Bytes)) : IndexM Unit :=
  units.forM fun (unit, contents) => indexUnit unit contents

/-- The unit's cache file, as an earlier run has written it. -/
def cacheFile {rules : Nat} (unit : TranslationUnit rules) : Bytes := writeEntry unit.cacheKey (cacheEntry unit)

/-- The units, those marked with their cache files. -/
def withCache {rules : Nat} (units : List (TranslationUnit rules × Bool)) :
    List (TranslationUnit rules × Option Bytes) :=
  units.map fun (unit, served) => (unit, if served then some (cacheFile unit) else none)

/-- The units, none of them cached. -/
def withoutCache {rules : Nat} (units : List (TranslationUnit rules × Bool)) :
    List (TranslationUnit rules × Option Bytes) :=
  units.map fun (unit, _) => (unit, none)

/-! ## Records -/

theorem lookup_addRecord (records : List (Bytes × List Bytes)) (name : Bytes) (bases : List Bytes) (other : Bytes) :
    (addRecord records name bases).lookup other =
      if other = name then some (sortUnique ((records.lookup name).getD [] ++ bases)) else records.lookup other := by
  induction records with
  | nil =>
    unfold addRecord
    rw [List.lookup_cons]
    by_cases h : other = name
    · simp [h]
    · rw [if_neg h, show (other == name) = false by simpa using h]
  | cons r records ih =>
    obtain ⟨n, b⟩ := r
    unfold addRecord
    by_cases hn : n = name
    · subst hn
      rw [if_pos rfl, List.lookup_cons, List.lookup_cons, List.lookup_cons]
      by_cases h : other = n
      · simp [h]
      · rw [if_neg h, show (other == n) = false by simpa using h]
    · rw [if_neg hn, List.lookup_cons, List.lookup_cons, List.lookup_cons, ih,
        show (name == n) = false by simpa using Ne.symm hn]
      by_cases h : other = n
      · subst h
        simp [hn]
      · rw [show (other == n) = false by simpa using h]

/-- What a loop over distinct names does to each name. -/
theorem lookup_addRecords (l : List (Bytes × List Bytes)) (hnodup : (l.map (·.1)).Nodup)
    (records : List (Bytes × List Bytes)) (name : Bytes) :
    (l.foldl (fun records r => addRecord records r.1 r.2) records).lookup name =
      match l.lookup name with
      | some bases => some (sortUnique ((records.lookup name).getD [] ++ bases))
      | none => records.lookup name := by
  induction l generalizing records with
  | nil => rfl
  | cons r l ih =>
    obtain ⟨hnot, hnodup⟩ := List.nodup_cons.1 hnodup
    rw [List.foldl_cons, ih hnodup, lookup_addRecord, List.lookup_cons]
    by_cases h : name = r.1
    · subst h
      have hnone : l.lookup r.1 = none := by
        rw [List.lookup_eq_none_iff]
        intro p hp
        rw [bne_iff_ne]
        exact fun heq => hnot (List.mem_map.2 ⟨p, hp, heq.symm⟩)
      rw [hnone, beq_self_eq_true, if_pos rfl]
    · rw [if_neg h, show (name == r.1) = false by simpa using h]

/-- The names that a cache entry lists, with their bases. -/
theorem lookup_recordHierarchy {rules : Nat} (unit : TranslationUnit rules) (name : Bytes) :
    ((cacheEntry unit).recordHierarchy.map fun record => (record.name, record.bases)).lookup name =
      (unit.records.lookup name).map sortUnique := by
  have hperm : ((cacheEntry unit).recordHierarchy.map fun record => (record.name, record.bases)).Perm
      (unit.records.map fun r => (r.1, sortUnique r.2)) := by
    refine ((sortOn_perm _ _).map _).trans (.of_eq ?_)
    rw [List.map_map]
    rfl
  have hnodup : ((unit.records.map fun r => (r.1, sortUnique r.2)).map (·.1)).Nodup := by
    rw [List.map_map]
    exact unit.names_nodup
  have hnodup' := (hperm.map (·.1)).nodup_iff.2 hnodup
  have hlookup : (unit.records.map fun r => (r.1, sortUnique r.2)).lookup name =
      (unit.records.lookup name).map sortUnique := by
    induction unit.records with
    | nil => rfl
    | cons r records ih =>
      rw [List.map_cons, List.lookup_cons, List.lookup_cons, ih]
      cases name == r.1 <;> rfl
  rw [← hlookup]
  refine Option.ext fun bases => ?_
  rw [lookup_eq_some_iff hnodup', lookup_eq_some_iff hnodup, hperm.mem_iff]

/-- Adding a unit's records, or the ones that its cache entry lists. -/
theorem lookup_addRecords_cached {rules : Nat} (unit : TranslationUnit rules) {records records' : List (Bytes × List Bytes)}
    (h : ∀ name, records.lookup name = records'.lookup name) (name : Bytes) :
    (((cacheEntry unit).recordHierarchy.map fun record => (record.name, record.bases)).foldl
        (fun records r => addRecord records r.1 r.2) records).lookup name =
      (unit.records.foldl (fun records r => addRecord records r.1 r.2) records').lookup name := by
  have hnodup : (((cacheEntry unit).recordHierarchy.map fun record => (record.name, record.bases)).map (·.1)).Nodup := by
    have hperm : ((cacheEntry unit).recordHierarchy.map (·.name)).Perm (unit.records.map (·.1)) := by
      refine ((sortOn_perm _ _).map _).trans (.of_eq ?_)
      rw [List.map_map]
      rfl
    rw [List.map_map]
    exact hperm.nodup_iff.2 unit.names_nodup
  rw [lookup_addRecords _ hnodup, lookup_addRecords _ unit.names_nodup, lookup_recordHierarchy, h]
  cases unit.records.lookup name with
  | none => rfl
  | some bases =>
    have hbases : ∀ before : List Bytes, sortUnique (before ++ sortUnique bases) = sortUnique (before ++ bases) :=
      fun before => sortUnique_congr fun x => by rw [List.mem_append, List.mem_append, mem_sortUnique]
    exact congrArg some (hbases _)

/-! ## The simulation -/

/-- Two states that say the same, paths read as paths and records by name. -/
structure SameIndex (s t : IndexState) : Prop where
  inv : s.graph.Inv
  inv' : t.graph.Inv
  graph : Graph.SameFacts s.graph.generic t.graph.generic
  diagnostics : s.diagnostics = t.diagnostics
  ruleMatches : s.ruleMatches = t.ruleMatches
  records : ∀ name, s.records.lookup name = t.records.lookup name
  factBytes : s.factBytes = t.factBytes
  translationUnits : s.translationUnits = t.translationUnits

/-- What both paths do when the merge returns. -/
def merged (g : Graph) (factBytes : UInt64) (diagnostics : List Bytes) (ruleMatches : List Bool)
    (records : List (Bytes × List Bytes)) (s : IndexState) : IndexState :=
  { graph := g
    diagnostics := s.diagnostics ++ diagnostics
    ruleMatches := List.zipWith (· || ·) s.ruleMatches ruleMatches
    records := records.foldl (fun records r => addRecord records r.1 r.2) s.records
    factBytes := s.factBytes + factBytes
    translationUnits := s.translationUnits + 1 }

theorem mergeCached_run (entry : TranslationUnitCacheEntry) (s : IndexState) :
    mergeCached entry s =
      match mergeGraph entry.graph s.graph with
      | .ok _ g => .ok () (merged g entry.factBytes entry.diagnostics entry.registrationRuleMatches
          (entry.recordHierarchy.map fun record => (record.name, record.bases)) s)
      | .error e g => .error e { s with graph := g } := by
  show EStateM.bind (mergeInto entry.graph) _ s = _
  unfold EStateM.bind mergeInto
  cases mergeGraph entry.graph s.graph <;> rfl

theorem mergeFresh_run {rules : Nat} (unit : TranslationUnit rules) (s : IndexState) :
    mergeFresh unit s =
      match mergeGraph unit.graph s.graph with
      | .ok _ g => .ok () (merged g unit.factBytes unit.diagnostics unit.ruleMatches unit.records s)
      | .error e g => .error e { s with graph := g, factBytes := s.factBytes + unit.factBytes } := by
  show EStateM.bind (mergeInto unit.graph) _ { s with factBytes := s.factBytes + unit.factBytes } = _
  unfold EStateM.bind mergeInto
  cases mergeGraph unit.graph s.graph <;> rfl

section Turn
variable {rules : Nat} {s t : IndexState} (hst : SameIndex s t)
include hst

theorem mergeGraph_alike {source source' : Graph} (hs : source.Inv) (hs' : source'.Inv)
    (hsame : Graph.SameFacts source.generic source'.generic) :
    Alike (fun g h => g.Inv ∧ h.Inv ∧ Graph.SameFacts g.generic h.generic) (mergeGraph source s.graph)
      (mergeGraph source' t.graph) := by
  cases hm : mergeGraph source s.graph with
  | ok u g =>
    obtain ⟨h, hm', hinv, hfacts⟩ := Graph.mergeGraph_congr hst.inv hst.inv' hs hs' hst.graph hsame hm
    rw [hm']
    exact ⟨Keeps.ok (mergeGraph_inv source) hst.inv hm, hinv, hfacts⟩
  | error e g =>
    cases hm' : mergeGraph source' t.graph with
    | ok u h =>
      obtain ⟨g', hm'', -⟩ := Graph.mergeGraph_congr hst.inv' hst.inv hs' hs hst.graph.symm hsame.symm hm'
      rw [hm] at hm''
      cases hm''
    | error e' h => trivial

/-- Collecting a unit twice. -/
theorem mergeFresh_alike (unit : TranslationUnit rules) : Alike SameIndex (mergeFresh unit s) (mergeFresh unit t) := by
  have halike := mergeGraph_alike hst unit.built.inv unit.built.inv (.refl _)
  rw [mergeFresh_run, mergeFresh_run]
  cases hm : mergeGraph unit.graph s.graph <;> cases hm' : mergeGraph unit.graph t.graph <;>
    rw [hm, hm'] at halike
  · obtain ⟨hinv, hinv', hfacts⟩ := halike
    refine ⟨hinv, hinv', hfacts, ?_, ?_, fun name => ?_, ?_, ?_⟩
    · simp only [merged, hst.diagnostics]
    · simp only [merged, hst.ruleMatches]
    · simp only [merged]
      rw [lookup_addRecords _ unit.names_nodup, lookup_addRecords _ unit.names_nodup, hst.records]
    · simp only [merged, hst.factBytes]
    · simp only [merged, hst.translationUnits]
  · exact halike
  · exact halike
  · trivial

/-- Serving a unit from the cache, or collecting it. -/
theorem mergeCached_alike (unit : TranslationUnit rules) :
    Alike SameIndex (mergeCached (stored (cacheEntry unit)) s) (mergeFresh unit t) := by
  have hsource : Graph.SameFacts (stored (cacheEntry unit)).graph.generic unit.graph.generic := by
    have hgeneric : (stored (cacheEntry unit)).graph.generic = unit.graph.generic.canonicalize := by
      rw [Graph.canonicalize_generic]
      exact Graph.generic_generic _
    rw [hgeneric]
    exact Graph.canonicalize_sameFacts unit.built.inv.generic
  have hinv : (stored (cacheEntry unit)).graph.Inv := (Graph.canonicalize_inv unit.built.inv).generic
  have halike := mergeGraph_alike hst hinv unit.built.inv hsource
  rw [mergeCached_run, mergeFresh_run]
  cases hm : mergeGraph (stored (cacheEntry unit)).graph s.graph <;> cases hm' : mergeGraph unit.graph t.graph <;>
    rw [hm, hm'] at halike
  · obtain ⟨hinv, hinv', hfacts⟩ := halike
    refine ⟨hinv, hinv', hfacts, ?_, ?_, fun name => ?_, ?_, ?_⟩
    · simp only [merged, stored, cacheEntry, hst.diagnostics]
    · simp only [merged, stored, cacheEntry, hst.ruleMatches]
    · exact lookup_addRecords_cached unit hst.records name
    · simp only [merged, stored, cacheEntry, hst.factBytes]
    · simp only [merged, hst.translationUnits]
  · exact halike
  · exact halike
  · trivial

end Turn

/-! ## Warm and cold runs -/

/-- A cache file serves its unit if the counts are within the limits, and is a miss otherwise. -/
theorem loadEntry_cacheFile {rules : Nat} (unit : TranslationUnit rules) :
    (WithinLimits (cacheEntry unit) →
      loadEntry unit.cacheKey rules (some (cacheFile unit)) = some (stored (cacheEntry unit))) ∧
    (¬ WithinLimits (cacheEntry unit) → loadEntry unit.cacheKey rules (some (cacheFile unit)) = none) := by
  have hinv : (cacheEntry unit).graph.Inv := unit.built.inv
  obtain ⟨hok, herror⟩ := readEntry_writeEntry unit.cacheKey hinv
  unfold loadEntry cacheFile
  constructor
  · intro h
    have hlength : (stored (cacheEntry unit)).registrationRuleMatches.length = rules := unit.matches_length
    rw [Option.bind_eq_bind, Option.bind_some, hok h]
    show (if _ then _ else _) = _
    rw [if_neg (not_not_intro hlength)]
  · intro h
    obtain ⟨e, he⟩ := herror h
    rw [Option.bind_eq_bind, Option.bind_some, he]
    rfl

theorem indexUnit_alike {rules : Nat} {s t : IndexState} (hst : SameIndex s t) (unit : TranslationUnit rules)
    (served : Bool) :
    Alike SameIndex (indexUnit unit (if served then some (cacheFile unit) else none) s) (indexUnit unit none t) := by
  have hcold : indexUnit unit none = mergeFresh unit := rfl
  rw [hcold]
  cases served with
  | false => exact mergeFresh_alike hst unit
  | true =>
    unfold indexUnit
    by_cases h : WithinLimits (cacheEntry unit)
    · rw [if_pos rfl, (loadEntry_cacheFile unit).1 h]
      exact mergeCached_alike hst unit
    · rw [if_pos rfl, (loadEntry_cacheFile unit).2 h]
      exact mergeFresh_alike hst unit

/-- The state before the first unit. -/
def initialState (rules : Nat) : IndexState := { ruleMatches := List.replicate rules false }

/-- What the indexer reports of a loop that returned: the canonical graph up to the spelling of its paths,
the matches, the records by name and the sorted diagnostics. -/
structure SameResult (s t : IndexState) : Prop where
  graph : s.graph.canonicalize.generic = t.graph.canonicalize.generic
  ruleMatches : s.ruleMatches = t.ruleMatches
  records : ∀ name, s.records.lookup name = t.records.lookup name
  diagnostics : sortUnique s.diagnostics = sortUnique t.diagnostics

theorem SameIndex.sameResult {s t : IndexState} (h : SameIndex s t) : SameResult s t := by
  refine ⟨?_, h.ruleMatches, h.records, by rw [h.diagnostics]⟩
  rw [← Graph.canonicalize_generic, ← Graph.canonicalize_generic]
  exact Graph.canonicalize_congr h.inv.generic h.inv'.generic h.graph

/-- Whichever units the cache serves, the loop returns if and only if it returns without the cache, with the
same result. A unit whose counts are within the reader's limits is really served. -/
theorem indexUnits_warm_cold {rules : Nat} (units : List (TranslationUnit rules × Bool)) :
    Alike SameResult (indexUnits (withCache units) (initialState rules))
      (indexUnits (withoutCache units) (initialState rules)) ∧
    ∀ unit ∈ units.map (·.1), WithinLimits (cacheEntry unit) →
      loadEntry unit.cacheKey rules (some (cacheFile unit)) = some (stored (cacheEntry unit)) := by
  refine ⟨?_, fun unit _ h => (loadEntry_cacheFile unit).1 h⟩
  have hinitial : SameIndex (initialState rules) (initialState rules) :=
    ⟨Graph.inv_empty, Graph.inv_empty, .refl _, rfl, rfl, fun _ => rfl, rfl, rfl⟩
  have hwarm : indexUnits (withCache units) =
      units.forM fun p => indexUnit p.1 (if p.2 then some (cacheFile p.1) else none) := by
    unfold indexUnits withCache
    rw [List.forM_eq_forM, List.forM_map]
    rfl
  have hcold : indexUnits (withoutCache units) = units.forM fun p => indexUnit p.1 none := by
    unfold indexUnits withoutCache
    rw [List.forM_eq_forM, List.forM_map]
    rfl
  have halike := Alike.forM units (fun p _ s t hst => indexUnit_alike hst p.1 p.2) hinitial
  rw [hwarm, hcold]
  exact halike.imp SameIndex.sameResult

end CxxDead
