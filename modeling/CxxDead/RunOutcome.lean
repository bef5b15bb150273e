import CxxDead.CacheLookup
import CxxDead.IndexRun
import CxxDead.Lib.Folds
import CxxDead.Lib.Triple
/-!
# How a run of the indexer ends

- `indexUnits_underway`: the loop keeps one entry for each unit behind it, and one
  owner for each staged temporary, also when it throws.
- `index_reportsAll_iff`: when a run that does not return reports every command.
- `index_allOrNothing`: what a run leaves in the cache.
-/

namespace CxxDead

open Lib CxxDead.Graph Relation

namespace Indexer

/-! ## What a failure has to say -/

def isFailing : TranslationUnitStatus → Bool
  | .indexed | .skipped => false
  | .failed | .timedOut | .unsupported | .cancelled => true

/-- An entry is about the command: it has its file, as it was given or as `disk` normalizes it. -/
def Names (disk : Disk) (command : CompileCommand) (unit : TranslationUnitDiagnostic) : Prop :=
  unit.file = command.file ∨ ∃ normalized, normalizeCompileCommand disk command = .ok normalized ∧ unit.file = normalized.file

structure OnePerCommand (disk : Nat → Disk) (commands : List CompileCommand) (units : List TranslationUnitDiagnostic) :
    Prop where
  length : units.length = commands.length
  names : ∀ n command unit, commands[n]? = some command → units[n]? = some unit → Names (disk n) command unit

/-- All units were indexed; or the units before a failing one were, and those after it skipped; or
normalizing one command failed, and all others were skipped. -/
def Structured (units : List TranslationUnitDiagnostic) : Prop :=
  (∀ unit ∈ units, unit.status = .indexed) ∨
  (∃ n < units.length, ∀ k unit, units[k]? = some unit →
    (k < n → unit.status = .indexed) ∧ (k = n → isFailing unit.status = true) ∧ (n < k → unit.status = .skipped)) ∨
  (∃ n < units.length, ∀ k unit, units[k]? = some unit →
    unit.status = (if k = n then .failed else .skipped) ∧ unit.stage = lit "command_normalization")

/-- The failure is an `IndexingError`, and complete. -/
def Complete (disk : Nat → Disk) (commands : List CompileCommand) : Failure → Prop
  | .indexingError _ diagnostics =>
    OnePerCommand disk commands diagnostics.translationUnits ∧ Structured diagnostics.translationUnits
  | .exception _ => False

/-! ## Normalization -/

/-- The normalized commands are those of the given ones, each with the file system as it was then. -/
structure Resolves (disk : Nat → Disk) (commands : List CompileCommand) (normalized : List NormalizedCommand) : Prop where
  length : normalized.length = commands.length
  command : ∀ n command normal, commands[n]? = some command → normalized[n]? = some normal →
    normalizeCompileCommand (disk n) command = .ok normal

theorem normalizationFailure_complete (disk : Nat → Disk) (commands : List CompileCommand) {current : Nat}
    (hcurrent : current < commands.length) (command : CompileCommand) (error : Exception) :
    Complete disk commands (normalizationFailure commands current command error) := by
  refine ⟨⟨by simp, fun n command unit hc hu => .inl ?_⟩, .inr (.inr ⟨current, by simpa using hcurrent, fun k unit hu => ?_⟩)⟩
  · simp only [List.getElem?_map, List.getElem?_zipIdx, hc, Option.map_some, Option.some.injEq] at hu
    rw [← hu]
  · rw [List.getElem?_map, List.getElem?_zipIdx, Option.map_map, Option.map_eq_some_iff] at hu
    obtain ⟨other, -, rfl⟩ := hu
    simp

/-- Either all commands are normalized, or the run reports the first that is not. -/
theorem normalizeCommands_spec (disk : Nat → Disk) (commands done rest : List CompileCommand)
    (hcommands : commands = done ++ rest) :
    match normalizeCommands commands disk done.length rest with
    | .error failure => Complete disk commands failure
    | .ok normalized => Resolves (fun n => disk (done.length + n)) rest normalized := by
  induction rest generalizing done with
  | nil => exact ⟨rfl, fun n command normal hc _ => by simp at hc⟩
  | cons command rest ih =>
    have hrest := ih (done ++ [command]) (by simp [hcommands])
    rw [List.length_append, List.length_singleton] at hrest
    unfold normalizeCommands
    cases hnormal : normalizeCompileCommand (disk done.length) command with
    | error error => exact normalizationFailure_complete disk commands (by simp [hcommands]) command error
    | ok normal =>
      cases hloop : normalizeCommands commands disk (done.length + 1) rest with
      | error failure =>
        rw [hloop] at hrest
        exact hrest
      | ok normalized =>
        rw [hloop] at hrest
        refine ⟨congrArg Nat.succ hrest.length, fun n other normal' hc hn => ?_⟩
        cases n with
        | zero =>
          cases hc
          cases hn
          exact hnormal
        | succ n =>
          have hn' := hrest.command n other normal' hc hn
          rwa [Nat.add_right_comm] at hn'

/-! ## The loop's invariant -/

/-- Each temporary has one owner, the staged writes are in the vector, and none has been committed. -/
structure Tidy (before : CacheDirectory) (s : IndexRun) : Prop where
  owned : Owned before s.stagedCacheWrites s.cache
  held : s.cache.staged = s.stagedCacheWrites.map fun o => (o.temporary, o.destination)
  uncommitted : s.cache.committed = []

/-- `n` units are behind, and have given the graph. -/
structure Underway (i : Invocation) (before : CacheDirectory) (n : Nat) (graph : Graph) (s : IndexRun) : Prop where
  units : s.translationUnitDiagnostics = (i.resolved.take n).map indexedDiagnostic
  graph : s.index.graph = graph
  tidy : Tidy before s

/-- How a run throws: with a complete report, unless a condition `G` did not hold. -/
def Ends (i : Invocation) (before : CacheDirectory) (G : Prop) (failure : Failure) (s : IndexRun) : Prop :=
  Tidy before s ∧
    (Complete i.environment.disk i.commands failure ∨ (¬ G ∧ ∃ e, failure = .exception e))

theorem resolved_length (i : Invocation) : i.resolved.length = i.normalized.length := List.length_map _

theorem getElem?_resolved {i : Invocation} {n : Nat} {command : NormalizedCommand} (hn : i.normalized[n]? = some command) :
    i.resolved[n]? = some command.toCompileCommand := by
  unfold Invocation.resolved
  rw [List.getElem?_map, hn]
  rfl

section Rules
variable {i : Invocation} {before : CacheDirectory} {n : Nat} {graph : Graph} {G : Prop} {α : Type}
  {P : IndexRun → Prop} {Q : α → IndexRun → Prop}

/-- The files of the entries when the unit at `n` fails. -/
theorem onePerCommand_of_files (hi : Resolves i.environment.disk i.commands i.normalized) (hn : n ≤ i.normalized.length)
    {commands : List CompileCommand} (hcommands : commands = i.resolved ∨ commands = i.commands)
    {units : List TranslationUnitDiagnostic}
    (hfiles : units.map (·.file) = (i.resolved.take n).map (·.file) ++ (commands.drop n).map (·.file)) :
    OnePerCommand i.environment.disk i.commands units := by
  have hlength : commands.length = i.commands.length := by
    rcases hcommands with rfl | rfl
    · rw [resolved_length, hi.length]
    · rfl
  have hresolved := resolved_length i
  refine ⟨?_, fun k command unit hc hu => ?_⟩
  · have hcount := congrArg List.length hfiles
    simp only [List.length_map, List.length_append, List.length_take, List.length_drop, hresolved] at hcount
    have := hi.length
    omega
  · have hfile : (units.map (·.file))[k]? = some unit.file := by rw [List.getElem?_map, hu]; rfl
    have hname : ∀ other, i.resolved[k]? = some other → unit.file = other.file →
        Names (i.environment.disk k) command unit := by
      intro other hother hfile
      unfold Invocation.resolved at hother
      rw [List.getElem?_map, Option.map_eq_some_iff] at hother
      obtain ⟨normal, hnormal, rfl⟩ := hother
      exact .inr ⟨normal, hi.command k command normal hc hnormal, hfile⟩
    rw [hfiles] at hfile
    by_cases hk : k < n
    · rw [List.getElem?_append_left (by simp; omega), List.getElem?_map, List.getElem?_take_of_lt hk,
        Option.map_eq_some_iff] at hfile
      obtain ⟨other, hother, hfile⟩ := hfile
      exact hname other hother hfile.symm
    · rw [List.getElem?_append_right (by simp; omega), List.getElem?_map, List.getElem?_drop,
        Option.map_eq_some_iff] at hfile
      obtain ⟨other, hother, hfile⟩ := hfile
      have hindex : n + (k - ((i.resolved.take n).map (·.file)).length) = k := by simp; omega
      rw [hindex] at hother
      rcases hcommands with rfl | rfl
      · exact hname other hother hfile.symm
      · rw [hc] at hother
        cases hother
        exact .inl hfile.symm

/-- `fail_indexing` tells of all units. -/
theorem failIndexing_ends (hi : Resolves i.environment.disk i.commands i.normalized) (hn : n < i.normalized.length)
    {commands : List CompileCommand} (hcommands : commands = i.resolved ∨ commands = i.commands)
    {status : TranslationUnitStatus} (hstatus : isFailing status = true) (stage message : Bytes)
    (exitCode signal : Option Int) :
    Triple (Underway i before n graph) (failIndexing commands n status stage message exitCode signal) Q
      (Ends i before G) := by
  intro s hs
  refine ⟨hs.tidy, .inl ?_⟩
  have hlength : n < commands.length := by
    rcases hcommands with rfl | rfl
    · rwa [resolved_length]
    · rwa [← hi.length]
  obtain ⟨command, rest, hdrop⟩ := List.exists_cons_of_ne_nil (l := commands.drop n) (by
    intro hnil
    rw [List.drop_eq_nil_iff] at hnil
    omega)
  simp only [Complete, indexingDiagnostics, hs.units, hdrop]
  refine ⟨onePerCommand_of_files hi hn.le hcommands ?_, .inr (.inl ⟨n, ?_, fun k unit hu => ?_⟩)⟩
  · rw [hdrop]
    simp [indexedDiagnostic, skippedDiagnostic, Function.comp_def]
  · simp only [List.length_append, List.length_map, List.length_take, List.length_cons, resolved_length]
    omega
  · have hdone : ((i.resolved.take n).map indexedDiagnostic).length = n := by
      rw [List.length_map, List.length_take, resolved_length]
      omega
    refine ⟨fun hk => ?_, fun hk => ?_, fun hk => ?_⟩
    · rw [List.getElem?_append_left (by omega)] at hu
      obtain ⟨other, -, rfl⟩ := List.mem_map.1 (List.mem_of_getElem? hu)
      rfl
    · rw [List.getElem?_append_right (by omega), hdone, hk, Nat.sub_self] at hu
      cases hu
      exact hstatus
    · obtain ⟨m, rfl⟩ : ∃ m, k = n + (m + 1) := ⟨k - n - 1, by omega⟩
      rw [List.getElem?_append_right (by omega), hdone, Nat.add_sub_cancel_left, List.getElem?_cons_succ] at hu
      obtain ⟨other, -, rfl⟩ := List.mem_map.1 (List.mem_of_getElem? hu)
      rfl

/-- A check of the whole index tells of all units when all are behind. -/
theorem failIndex_ends (hi : Resolves i.environment.disk i.commands i.normalized) (message : Bytes) :
    Triple (fun s => ∃ graph, Underway i before i.normalized.length graph s) (failIndex message) Q (Ends i before G) := by
  rintro s ⟨graph, hs⟩
  have hunits : s.translationUnitDiagnostics = i.resolved.map indexedDiagnostic := by
    rw [hs.units, ← resolved_length, List.take_length]
  refine ⟨hs.tidy, .inl ⟨onePerCommand_of_files hi (Nat.le_refl _) (.inl rfl) ?_, .inl fun unit hunit => ?_⟩⟩
  · simp only [hunits]
    rw [← resolved_length, List.take_length, List.drop_length]
    simp [indexedDiagnostic, Function.comp_def]
  · simp only [hunits] at hunit
    obtain ⟨other, -, rfl⟩ := List.mem_map.1 hunit
    rfl

theorem stopIf_false (failure : RunM Unit) : stopIf false failure = pure () := rfl

/-- A check that has passed. -/
theorem stopIf_bind {condition : Bool} {failure : RunM Unit} {rest : Unit → RunM α} {E : Failure → IndexRun → Prop}
    (h : Triple P failure (fun _ _ => False) E) (hrest : condition = false → Triple P (rest ()) Q E) :
    Triple P (stopIf condition failure >>= rest) Q E := by
  cases condition with
  | true => exact Triple.bind h fun _ _ hs => hs.elim
  | false => exact hrest rfl

theorem attempt_ends {m : EStateM Exception IndexRun α} {handler : Exception → RunM α}
    {R : Exception → IndexRun → Prop} {E : Failure → IndexRun → Prop} (hm : Triple P m Q R)
    (hhandler : ∀ e, Triple (R e) (handler e) Q E) : Triple P (attempt m handler) Q E := by
  intro s hs
  have hrun := hm s hs
  unfold attempt
  cases h : m s with
  | ok a s' =>
    rw [h] at hrun
    exact hrun
  | error e s' =>
    rw [h] at hrun
    exact hhandler e s' hrun

theorem compute_keeps (m : Except Exception α) : Triple P (compute m) (fun _ => P) fun _ => P := by
  intro s hs
  unfold compute
  cases m <;> exact hs

/-- A computation that nothing guards. -/
theorem compute_ends {m : Except Exception α} (hP : ∀ s, P s → Tidy before s) (hG : G → Succeeds m) :
    Triple P (attempt (compute m) rethrow) (fun a s => m = .ok a ∧ P s) (Ends i before G) := by
  intro s hs
  unfold attempt compute rethrow
  cases m with
  | ok a => exact ⟨rfl, hs⟩
  | error e =>
    refine ⟨hP s hs, .inr ⟨fun hg => ?_, e, rfl⟩⟩
    obtain ⟨a, ha⟩ := hG hg
    cases ha

end Rules

/-! ## The phases of a unit -/

section Phases
variable {i : Invocation} {before : CacheDirectory} {n : Nat} {graph : Graph} {G : Prop}

/-- A change of what the invariant does not speak of. -/
theorem modify_keeps {f : IndexRun → IndexRun}
    (hunits : ∀ s, (f s).translationUnitDiagnostics = s.translationUnitDiagnostics)
    (hgraph : ∀ s, (f s).index.graph = s.index.graph) (hstaged : ∀ s, (f s).stagedCacheWrites = s.stagedCacheWrites)
    (hcache : ∀ s, (f s).cache = s.cache) :
    Triple (Underway i before n graph) (modify f) (fun _ => Underway i before n graph) (Ends i before G) := by
  refine Triple.modify fun s hs => ⟨(hunits s).trans hs.units, (hgraph s).trans hs.graph, ?_, ?_, ?_⟩
  · rw [hstaged, hcache]
    exact hs.tidy.owned
  · rw [hstaged, hcache]
    exact hs.tidy.held
  · rw [hcache]
    exact hs.tidy.uncommitted

/-- Whatever becomes of the state of the merge loop, the entries and the staged writes stay. -/
theorem merging_keeps (m : IndexM Unit) (hm : Keeps NamedOnce m) :
    Triple (Underway i before n graph) (merging m hm) (fun _ s => ∃ graph, Underway i before n graph s)
      fun _ s => ∃ graph, Underway i before n graph s := by
  intro s hs
  unfold merging
  cases m s.index <;> exact ⟨_, hs.units, rfl, hs.tidy.owned, hs.tidy.held, hs.tidy.uncommitted⟩

/-- The unit at `n` is behind. -/
theorem recordIndexed_next {command : NormalizedCommand} (hn : i.normalized[n]? = some command) :
    Triple (fun s => ∃ graph, Underway i before n graph s) (recordIndexed command)
      (fun _ s => ∃ graph, Underway i before (n + 1) graph s) (Ends i before G) := by
  refine Triple.modify ?_
  rintro s ⟨graph, hs⟩
  refine ⟨graph, ?_, hs.graph, hs.tidy.owned, hs.tidy.held, hs.tidy.uncommitted⟩
  simp only [hs.units, List.take_add_one, getElem?_resolved hn, List.map_append]
  rfl

theorem mergeCached_ok {entry : TranslationUnitCacheEntry} {s : IndexState}
    (h : ∃ merged, mergeGraph entry.graph s.graph = .ok () merged) : ∃ t, mergeCached entry s = .ok () t := by
  obtain ⟨merged, hmerged⟩ := h
  rw [mergeCached_run, hmerged]
  exact ⟨_, rfl⟩

theorem indexCached_next {command : NormalizedCommand} (hn : i.normalized[n]? = some command)
    {entry : TranslationUnitCacheEntry} (hG : G → ∃ merged, mergeGraph entry.graph graph = .ok () merged) :
    Triple (Underway i before n graph) (indexCached command entry)
      (fun _ s => ∃ graph, Underway i before (n + 1) graph s) (Ends i before G) := by
  refine Triple.bind (R := fun _ s => ∃ graph, Underway i before n graph s) ?_ fun _ =>
    Triple.exists fun graph' => Triple.bind (R := fun _ => Underway i before n graph')
      (modify_keeps (fun _ => rfl) (fun _ => rfl) (fun _ => rfl) fun _ => rfl)
      fun _ => (recordIndexed_next hn).imp (fun _ hs => ⟨graph', hs⟩) (fun _ _ h => h) fun _ _ h => h
  intro s hs
  have hkeeps := merging_keeps (mergeCached entry) (mergeCached_namedOnce entry) s hs
  unfold attempt rethrow
  cases hm : merging (mergeCached entry) (mergeCached_namedOnce entry) s with
  | ok a t =>
    rw [hm] at hkeeps
    exact hkeeps
  | error e t =>
    rw [hm] at hkeeps
    obtain ⟨graph', ht⟩ := hkeeps
    refine ⟨ht.tidy, .inr ⟨fun hg => ?_, e, rfl⟩⟩
    obtain ⟨t', hok⟩ := mergeCached_ok (s := s.index) (by rw [hs.graph]; exact hG hg)
    unfold merging at hm
    rw [hok] at hm
    cases hm

variable (hi : Resolves i.environment.disk i.commands i.normalized)
include hi

theorem validateCached_ends (hn : n < i.normalized.length) (command : NormalizedCommand) (events : UnitEvents i.rules)
    (cached : CacheLookupResult) :
    Triple (Underway i before n graph) (validateCached i n command events cached)
      (fun entry s => entry = compatibleEntry i.rules cached ∧ interruptedValidating i events = false ∧
        Underway i before n graph s) (Ends i before G) := by
  unfold validateCached
  refine Triple.bind (modify_keeps (fun _ => rfl) (fun _ => rfl) (fun _ => rfl) fun _ => rfl) fun _ => ?_
  refine stopIf_bind (failIndexing_ends hi hn (.inl rfl) rfl _ _ _ _) fun hcancelled => ?_
  refine stopIf_bind (failIndexing_ends hi hn (.inl rfl) rfl _ _ _ _) fun hunit => ?_
  refine stopIf_bind (failIndexing_ends hi hn (.inl rfl) rfl _ _ _ _) fun hindex => ?_
  have hnot : interruptedValidating i events = false := by
    unfold interruptedValidating
    rw [hcancelled, hunit, hindex]
    rfl
  refine Triple.bind (modify_keeps ?_ ?_ ?_ ?_) fun _ => Triple.pure fun s hs => ⟨rfl, hnot, hs⟩
  all_goals
    intro s
    unfold warnIncompatible
    split <;> rfl

/-- The result of Clang does not matter to the invariant. -/
theorem runClang_ends (hn : n < i.normalized.length) (command : NormalizedCommand) (events : UnitEvents i.rules)
    (invocation : List Bytes) :
    Triple (Underway i before n graph) (runClang i n command events invocation) (fun _ => Underway i before n graph)
      (Ends i before G) := by
  unfold runClang
  refine Triple.bind (R := fun _ => Underway i before n graph)
    (attempt_ends (compute_keeps _) fun _ => failIndexing_ends hi hn (.inl rfl) rfl _ _ _ _) fun process => ?_
  refine stopIf_bind (failIndexing_ends hi hn (.inl rfl) rfl _ _ _ _) fun _ => ?_
  refine stopIf_bind (failIndexing_ends hi hn (.inl rfl) rfl _ _ _ _) fun _ => ?_
  refine stopIf_bind (failIndexing_ends hi hn (.inl rfl) rfl _ _ _ _) fun _ => ?_
  refine stopIf_bind (failIndexing_ends hi hn (.inl rfl) rfl _ _ _ _) fun _ => ?_
  exact Triple.bind (modify_keeps (fun _ => rfl) (fun _ => rfl) (fun _ => rfl) fun _ => rfl)
    fun _ => Triple.pure fun s hs => hs

theorem collectUnit_ends (hn : n < i.normalized.length) (command : NormalizedCommand) (events : UnitEvents i.rules)
    (key : Bytes) (process : ProcessResult) :
    Triple (Underway i before n graph) (collectUnit i n command events key process)
      (fun _ => Underway i before n graph) (Ends i before G) := by
  unfold collectUnit
  refine Triple.bind (R := fun _ => Underway i before n graph)
    (attempt_ends (compute_keeps _) fun _ => failIndexing_ends hi hn (.inr rfl) rfl _ _ _ _) fun documents => ?_
  refine Triple.bind (R := fun _ => Underway i before n graph)
    (attempt_ends (compute_keeps _) fun _ => failIndexing_ends hi hn (.inl rfl) rfl _ _ _ _) fun facts => ?_
  refine stopIf_bind (failIndexing_ends hi hn (.inl rfl) rfl _ _ _ _) fun _ => ?_
  refine stopIf_bind (failIndexing_ends hi hn (.inl rfl) rfl _ _ _ _) fun _ => ?_
  refine stopIf_bind (failIndexing_ends hi hn (.inl rfl) rfl _ _ _ _) fun _ => ?_
  exact Triple.pure fun s hs => hs

omit hi in
theorem stageEntry_tidy {rules : Nat} (pid : Nat) (directory : Path) (events : UnitEvents rules) (key : Bytes)
    (entry : TranslationUnitCacheEntry) {s : IndexRun} (hs : Tidy before s) :
    Tidy before (stageEntry pid directory events key entry s) := by
  have howned := hs.owned.stage events.stage pid directory key entry s.cacheWarnings
  unfold stageEntry
  cases hevents : events.stage with
  | noDirectory what => exact ⟨hs.owned, hs.held, hs.uncommitted⟩
  | failed what left =>
    rw [hevents] at howned
    refine ⟨howned, ?_, ?_⟩
    · cases left <;> exact hs.held
    · cases left <;> exact hs.uncommitted
  | written =>
    rw [hevents] at howned
    simp only [stageTranslationUnitCache, pushBack_eq]
    refine ⟨howned.perm (List.perm_append_singleton _ _).symm, ?_, hs.uncommitted⟩
    show s.cache.staged ++ [_] = _
    rw [hs.held, List.map_append]
    rfl

omit hi in
theorem stageUnit_ends {rules : Nat} (pid : Nat) (directory : Path) (command : NormalizedCommand)
    (events : UnitEvents rules) (dependencyFile : Path) (unit : TranslationUnit rules) :
    Triple (Underway i before n graph) (stageUnit pid directory command events dependencyFile unit)
      (fun _ => Underway i before n graph) (Ends i before G) := by
  unfold stageUnit
  cases entryToStage command events dependencyFile unit with
  | error error => exact modify_keeps (fun _ => rfl) (fun _ => rfl) (fun _ => rfl) fun _ => rfl
  | ok entry =>
    refine Triple.modify fun s hs => ⟨?_, ?_, stageEntry_tidy _ _ _ _ _ hs.tidy⟩
    · rw [← hs.units]
      unfold stageEntry
      cases events.stage <;> rfl
    · rw [← hs.graph]
      unfold stageEntry
      cases events.stage <;> rfl

theorem mergeUnit_next {command : NormalizedCommand} (hn : i.normalized[n]? = some command)
    (unit : TranslationUnit i.rules) :
    Triple (Underway i before n graph) (mergeUnit i n command unit)
      (fun _ s => ∃ graph, Underway i before (n + 1) graph s) (Ends i before G) := by
  obtain ⟨hlt, -⟩ := List.getElem?_eq_some_iff.1 hn
  exact Triple.bind (attempt_ends (merging_keeps _ _) fun _ => Triple.exists fun graph' =>
    failIndexing_ends hi hlt (.inl rfl) rfl _ _ _ _) fun _ => recordIndexed_next hn

omit hi in
theorem astCommand_succeeds (command : NormalizedCommand) (options : IndexOptions) (dependencyFile : Option Path) :
    Succeeds (astCommand command.toCompileCommand options dependencyFile) := by
  unfold astCommand
  rw [if_neg (by have := command.compiler_first; omega)]
  exact succeeds_ok _

omit hi in
theorem dependencyFile_ends (events : UnitEvents i.rules) (cache : Option (Path × Bytes))
    (hG : G → cache.isSome = true → Succeeds events.temporaryDirectory) :
    Triple (Underway i before n graph) (dependencyFile i.environment.pid events cache)
      (fun _ => Underway i before n graph) (Ends i before G) := by
  unfold dependencyFile
  cases cache with
  | none => exact Triple.pure fun s hs => hs
  | some place =>
    refine Triple.bind (compute_ends (fun s hs => hs.tidy) fun hg => ?_) fun file => Triple.pure fun s hs => hs.2
    exact succeeds_map_iff.2 (hG hg rfl)

theorem indexFresh_next {command : NormalizedCommand} (hn : i.normalized[n]? = some command)
    (events : UnitEvents i.rules) (cache : Option (Path × Bytes))
    (hG : G → cache.isSome = true → lateForProcess i events = false → Succeeds events.temporaryDirectory) :
    Triple (Underway i before n graph) (indexFresh i n command events cache)
      (fun _ s => ∃ graph, Underway i before (n + 1) graph s) (Ends i before G) := by
  obtain ⟨hlt, -⟩ := List.getElem?_eq_some_iff.1 hn
  unfold indexFresh
  refine stopIf_bind (failIndexing_ends hi hlt (.inl rfl) rfl _ _ _ _) fun hlate => ?_
  refine Triple.bind (dependencyFile_ends events cache fun hg hcache => hG hg hcache hlate) fun cache => ?_
  refine Triple.bind (compute_ends (fun s hs => hs.tidy) fun _ => astCommand_succeeds _ _ _) fun invocation => ?_
  refine Triple.bind (R := fun _ => Underway i before n graph)
    ((runClang_ends hi hlt command events invocation).imp (fun s hs => hs.2) (fun _ _ h => h) fun _ _ h => h)
    fun process => ?_
  refine Triple.bind (collectUnit_ends hi hlt command events _ process) fun unit => ?_
  cases cache with
  | none => exact mergeUnit_next hi hn unit
  | some place => exact Triple.bind (stageUnit_ends _ _ _ _ _ _) fun _ => mergeUnit_next hi hn unit

end Phases

/-! ## The units -/

/-- What nothing guards succeeds at this unit: the key is computed, an entry that serves the unit merges
with the graph so far, and there is a place for the compiler's dependencies. -/
def Guarded (i : Invocation) (command : NormalizedCommand) (events : UnitEvents i.rules) (graph : Graph) : Prop :=
  ∀ directory, i.options.cacheDirectory = some directory → i.cancelled events.cancelledBefore = false →
    ∃ key, translationUnitCacheKey events.host command.toCompileCommand i.options .astJson = .ok key ∧
      (interruptedValidating i events = false →
        match compatibleEntry i.rules (lookupCached directory key command events) with
        | some entry => ∃ merged, mergeGraph entry.graph graph = .ok () merged
        | none => lateForProcess i events = false → Succeeds events.temporaryDirectory)

section Units
variable {i : Invocation} {before : CacheDirectory} {n : Nat} {graph : Graph}

theorem indexUnit_next (hi : Resolves i.environment.disk i.commands i.normalized) {command : NormalizedCommand}
    (hn : i.normalized[n]? = some command) (events : UnitEvents i.rules) :
    Triple (Underway i before n graph) (indexUnit i n command events)
      (fun _ s => ∃ graph, Underway i before (n + 1) graph s) (Ends i before (Guarded i command events graph)) := by
  obtain ⟨hlt, -⟩ := List.getElem?_eq_some_iff.1 hn
  unfold indexUnit
  refine stopIf_bind (failIndexing_ends hi hlt (.inl rfl) rfl _ _ _ _) fun hcancelled => ?_
  cases hdirectory : i.options.cacheDirectory with
  | none => exact indexFresh_next hi hn events none fun _ hnone => by cases hnone
  | some directory =>
    refine Triple.bind (compute_ends (fun s hs => hs.tidy) fun hg => ?_) fun key => ?_
    · obtain ⟨key, hkey, -⟩ := hg directory hdirectory hcancelled
      exact ⟨key, hkey⟩
    intro s ⟨hkey, hs⟩
    have hguard : Guarded i command events graph → interruptedValidating i events = false →
        match compatibleEntry i.rules (lookupCached directory key command events) with
        | some entry => ∃ merged, mergeGraph entry.graph graph = .ok () merged
        | none => lateForProcess i events = false → Succeeds events.temporaryDirectory := by
      intro hg
      obtain ⟨key', hkey', hrest⟩ := hg directory hdirectory hcancelled
      rw [hkey] at hkey'
      cases hkey'
      exact hrest
    refine Triple.bind (validateCached_ends hi hlt command events _) (fun entry => ?_) s hs
    intro s ⟨hentry, hvalid, hs⟩
    rw [← hentry] at hguard
    cases entry with
    | some entry => exact indexCached_next hn (fun hg => hguard hg hvalid) s hs
    | none =>
      have hmiss : Triple (Underway i before n graph)
          (do modify countMiss; indexFresh i n command events (some (directory, key)))
          (fun _ s => ∃ graph, Underway i before (n + 1) graph s) (Ends i before (Guarded i command events graph)) :=
        Triple.bind (modify_keeps (fun _ => rfl) (fun _ => rfl) (fun _ => rfl) fun _ => rfl) fun _ =>
          indexFresh_next hi hn events _ fun hg _ hlate => hguard hg hvalid hlate
      exact hmiss s hs

theorem validateCached_run {command : NormalizedCommand} {events : UnitEvents i.rules} {cached : CacheLookupResult}
    (h : interruptedValidating i events = false) (s : IndexRun) :
    validateCached i n command events cached s = .ok (compatibleEntry i.rules cached)
      (warnIncompatible i.rules command.toCompileCommand cached (recordLookup cached s)) := by
  unfold interruptedValidating at h
  simp only [Bool.or_eq_false_iff] at h
  obtain ⟨hcancelled, hunit, hindex⟩ := h
  unfold validateCached
  rw [hcancelled, hunit, hindex]
  rfl

theorem warnIncompatible_graph (rules : Nat) (command : CompileCommand) (cached : CacheLookupResult) (s : IndexRun) :
    (warnIncompatible rules command cached s).index = s.index := by
  unfold warnIncompatible
  split <;> rfl

theorem indexCached_throws {command : NormalizedCommand} {entry : TranslationUnitCacheEntry} {s : IndexRun}
    (h : ¬ ∃ merged, mergeGraph entry.graph s.index.graph = .ok () merged) :
    ∃ e t, indexCached command entry s = .error (.exception e) t := by
  cases hm : mergeGraph entry.graph s.index.graph with
  | ok a merged => exact absurd ⟨merged, hm⟩ h
  | error e merged =>
    have hattempt : ∃ t, attempt (merging (mergeCached entry) (mergeCached_namedOnce entry)) rethrow s =
        .error (.exception e) t := by
      unfold attempt merging rethrow
      rw [mergeCached_run, hm]
      exact ⟨_, rfl⟩
    obtain ⟨t, ht⟩ := hattempt
    exact ⟨e, t, bind_of_error ht⟩

theorem indexFresh_throws {command : NormalizedCommand} {events : UnitEvents i.rules} {directory : Path} {key : Bytes}
    {s : IndexRun} (hlate : lateForProcess i events = false) (h : ¬ Succeeds events.temporaryDirectory) :
    ∃ e t, indexFresh i n command events (some (directory, key)) s = .error (.exception e) t := by
  cases hdirectory : events.temporaryDirectory with
  | ok path => exact absurd ⟨path, hdirectory⟩ h
  | error e =>
    have hfile : dependencyFile i.environment.pid events (some (directory, key)) s = .error (.exception e) s := by
      unfold dependencyFile
      rw [hdirectory]
      rfl
    unfold indexFresh
    rw [hlate, stopIf_false, pure_bind]
    exact ⟨e, s, bind_of_error hfile⟩

/-- Where the condition fails, the run throws something else than an `IndexingError`. -/
theorem indexUnit_throws {command : NormalizedCommand} {events : UnitEvents i.rules} {s : IndexRun}
    (h : ¬ Guarded i command events s.index.graph) : ∃ e t, indexUnit i n command events s = .error (.exception e) t := by
  unfold Guarded at h
  push Not at h
  obtain ⟨directory, hdirectory, hcancelled, h⟩ := h
  unfold indexUnit
  rw [hcancelled, hdirectory]
  cases hkey : translationUnitCacheKey events.host command.toCompileCommand i.options .astJson with
  | error e => exact ⟨e, s, rfl⟩
  | ok key =>
    obtain ⟨hvalid, h⟩ := h key hkey
    show ∃ e t, (validateCached i n command events (lookupCached directory key command events) >>= _) s = _
    rw [bind_of_ok (validateCached_run hvalid s)]
    cases hentry : compatibleEntry i.rules (lookupCached directory key command events) with
    | some entry =>
      rw [hentry] at h
      refine indexCached_throws ?_
      rw [warnIncompatible_graph]
      exact h
    | none =>
      rw [hentry] at h
      obtain ⟨hlate, h⟩ := Classical.not_imp.1 h
      exact indexFresh_throws hlate h

/-- The loop has come to unit `n`, in state `s`. -/
def Reaches (i : Invocation) (cache : CacheDirectory) (n : Nat) (s : IndexRun) : Prop :=
  indexUnits i 0 (i.normalized.take n) (startRun i.rules cache) = .ok () s

/-- Every unit that the loop comes to is guarded. -/
def AllGuarded (i : Invocation) (cache : CacheDirectory) : Prop :=
  ∀ n command s, i.normalized[n]? = some command → Reaches i cache n s →
    Guarded i command (i.environment.unitEvents n) s.index.graph

theorem indexUnits_append (i : Invocation) (n : Nat) (l l' : List NormalizedCommand) :
    indexUnits i n (l ++ l') = (do indexUnits i n l; indexUnits i (n + l.length) l') := by
  induction l generalizing n with
  | nil =>
    show _ = (pure () >>= _)
    rw [pure_bind]
    rfl
  | cons command l ih =>
    show (indexUnit i n command _ >>= fun _ => indexUnits i (n + 1) (l ++ l')) = ((indexUnit i n command _ >>= _) >>= _)
    rw [bind_assoc, List.length_cons, ← Nat.add_assoc, Nat.add_right_comm]
    exact congrArg _ (funext fun _ => ih (n + 1))

theorem Reaches.next {cache : CacheDirectory} {command : NormalizedCommand} {s t : IndexRun} (h : Reaches i cache n s)
    (hn : i.normalized[n]? = some command)
    (hunit : indexUnit i n command (i.environment.unitEvents n) s = .ok () t) : Reaches i cache (n + 1) t := by
  obtain ⟨hlt, -⟩ := List.getElem?_eq_some_iff.1 hn
  have hlength : 0 + (i.normalized.take n).length = n := by
    rw [List.length_take]
    omega
  unfold Reaches
  rw [List.take_add_one, hn, indexUnits_append, hlength]
  refine bind_ok_iff.2 ⟨(), s, h, ?_⟩
  show (indexUnit i n command _ >>= fun _ => pure ()) s = _
  exact bind_ok_iff.2 ⟨(), t, hunit, rfl⟩

theorem drop_cons {α : Type} {l rest : List α} {a : α} (h : l.drop n = a :: rest) :
    n < l.length ∧ l[n]? = some a ∧ l.drop (n + 1) = rest := by
  have hget : l[n]? = some a := by rw [← List.head?_drop, h, List.head?_cons]
  have hrest : l.drop (n + 1) = rest := by rw [← List.tail_drop, h, List.tail_cons]
  exact ⟨(List.getElem?_eq_some_iff.1 hget).1, hget, hrest⟩

/-- The invariant holds wherever the loop comes to, and a failure is reported unless a unit was not guarded. -/
theorem indexUnits_underway (hi : Resolves i.environment.disk i.commands i.normalized) {cache : CacheDirectory}
    (rest : List NormalizedCommand) (hrest : i.normalized.drop n = rest) (hn : n ≤ i.normalized.length) :
    Triple (fun s => Reaches i cache n s ∧ ∃ graph, Underway i before n graph s) (indexUnits i n rest)
      (fun _ s => ∃ graph, Underway i before i.normalized.length graph s) (Ends i before (AllGuarded i cache)) := by
  induction rest generalizing n with
  | nil =>
    have hend : n = i.normalized.length := Nat.le_antisymm hn (List.drop_eq_nil_iff.1 hrest)
    subst hend
    exact Triple.pure fun s hs => hs.2
  | cons command rest ih =>
    obtain ⟨hlt, hget, hrest⟩ := drop_cons hrest
    rintro s ⟨hreach, graph, hs⟩
    have hunit := indexUnit_next hi hget (i.environment.unitEvents n) s hs
    have hunfold : indexUnits i n (command :: rest) =
        (indexUnit i n command (i.environment.unitEvents n) >>= fun _ => indexUnits i (n + 1) rest) := rfl
    rw [hunfold]
    cases hrun : indexUnit i n command (i.environment.unitEvents n) s with
    | ok a t =>
      rw [hrun] at hunit
      rw [bind_of_ok hrun]
      exact ih hrest hlt t ⟨hreach.next hget hrun, hunit⟩
    | error e t =>
      rw [hrun] at hunit
      rw [bind_of_error hrun]
      refine ⟨hunit.1, hunit.2.imp id fun ⟨hnot, hexception⟩ => ⟨fun hall => hnot ?_, hexception⟩⟩
      rw [← hs.graph]
      exact hall n command s hget hreach

/-- Where a unit is not guarded, the loop throws something else than an `IndexingError`. -/
theorem indexUnits_throws {cache : CacheDirectory} (h : ¬ AllGuarded i cache) :
    ∃ e t, indexUnits i 0 i.normalized (startRun i.rules cache) = .error (.exception e) t := by
  unfold AllGuarded at h
  push Not at h
  obtain ⟨n, command, s, hn, hreach, hnot⟩ := h
  obtain ⟨e, t, ht⟩ := indexUnit_throws hnot
  obtain ⟨hlt, hcommand⟩ := List.getElem?_eq_some_iff.1 hn
  have hsplit : i.normalized = i.normalized.take n ++ command :: i.normalized.drop (n + 1) := by
    rw [← hcommand, List.getElem_cons_drop, List.take_append_drop]
  have hlength : 0 + (i.normalized.take n).length = n := by
    rw [List.length_take]
    omega
  refine ⟨e, t, ?_⟩
  rw [hsplit, indexUnits_append, hlength, bind_of_ok hreach]
  exact bind_of_error ht

end Units

/-! ## After the last unit -/

section Finish
variable {i : Invocation} {before : CacheDirectory} {n : Nat} {graph : Graph} {G : Prop}

theorem onGraph_keeps (m : GraphM Unit) :
    Triple (Underway i before n graph) (onGraph m) (fun _ s => ∃ graph, Underway i before n graph s)
      fun _ s => ∃ graph, Underway i before n graph s := by
  intro s hs
  unfold onGraph
  cases m s.index.graph <;> exact ⟨_, hs.units, rfl, hs.tidy.owned, hs.tidy.held, hs.tidy.uncommitted⟩

/-- An operation that does not throw needs no guard. -/
theorem onGraph_ends {m : GraphM Unit} (hm : ∃ graph', m graph = .ok () graph') :
    Triple (Underway i before n graph) (attempt (onGraph m) rethrow)
      (fun _ s => ∃ graph, Underway i before n graph s) (Ends i before G) := by
  intro s hs
  obtain ⟨graph', hm⟩ := hm
  unfold attempt onGraph
  rw [hs.graph, hm]
  exact ⟨graph', hs.units, rfl, hs.tidy.owned, hs.tidy.held, hs.tidy.uncommitted⟩

theorem addManualRoots_ok (ids : List SymbolId) (hids : ∀ id ∈ ids, id < graph.symbols.length) (evidence : Evidence) :
    ∃ graph', (ids.forM fun id => addRoot id .manual evidence) graph = .ok () graph' := by
  have hturn : ∀ id ∈ ids, ∀ g : Graph, g.symbols = graph.symbols →
      addRoot id .manual evidence g = .ok ⟨⟩ { g with roots := addFact g.roots ⟨id, .manual, evidence⟩ } ∧
        ({ g with roots := addFact g.roots ⟨id, .manual, evidence⟩ } : Graph).symbols = graph.symbols := by
    intro id hid g hg
    refine ⟨?_, hg⟩
    unfold addRoot
    rw [if_neg (by rw [hg]; exact Nat.not_le_of_lt (hids id hid))]
  exact ⟨_, (forM_ok ids hturn graph rfl).1⟩

theorem modify_graph {f : IndexRun → IndexRun}
    (hunits : ∀ s, (f s).translationUnitDiagnostics = s.translationUnitDiagnostics)
    (hstaged : ∀ s, (f s).stagedCacheWrites = s.stagedCacheWrites) (hcache : ∀ s, (f s).cache = s.cache) :
    Triple (fun s => ∃ graph, Underway i before n graph s) (modify f) (fun _ s => ∃ graph, Underway i before n graph s)
      (Ends i before G) := by
  refine Triple.modify ?_
  rintro s ⟨graph, hs⟩
  refine ⟨_, (hunits s).trans hs.units, rfl, ?_, ?_, ?_⟩
  · rw [hstaged, hcache]
    exact hs.tidy.owned
  · rw [hstaged, hcache]
    exact hs.tidy.held
  · rw [hcache]
    exact hs.tidy.uncommitted

theorem addFallbackIdentityDiagnostics_keep {β : Type} (f : IndexRun → β)
    (h : ∀ diagnostic s, f (pushDiagnostic diagnostic s) = f s) (s : IndexRun) :
    f (addFallbackIdentityDiagnostics s) = f s :=
  foldl_keep _ f (fun _ _ => h _ _) _ s

theorem addManualRoot_ends (requested : Bytes) :
    Triple (fun s => ∃ graph, Underway i before n graph s) (addManualRoot requested)
      (fun _ s => ∃ graph, Underway i before n graph s) (Ends i before G) := by
  unfold addManualRoot
  refine Triple.get_bind fun s ⟨graph, hs⟩ => ?_
  have hids : ∀ id ∈ requestedSymbols s.index.graph requested, id < graph.symbols.length := by
    intro id hid
    rw [← hs.graph]
    exact List.mem_range.1 (List.mem_filter.1 hid).1
  refine Triple.bind ((onGraph_ends (addManualRoots_ok _ hids _)).imp (fun t ht => by rw [ht]; exact hs)
    (fun _ _ h => h) fun _ _ h => h) fun _ => modify_graph ?_ ?_ ?_
  all_goals
    intro s
    split <;> rfl

theorem dispatchVirtually_ends :
    Triple (fun s => ∃ graph, Underway i before n graph s) (dispatchVirtually i.environment)
      (fun _ s => ∃ graph, Underway i before n graph s) (Ends i before G) := by
  unfold dispatchVirtually
  refine Triple.get_bind fun s ⟨graph, hs⟩ => ?_
  obtain ⟨edges, hok, -⟩ := addVirtualDispatchEdges_spec (recordMap i.environment s)
    (i.environment.methodOrder_perm (methodsByClass s.index.graph)) s.index.graph rfl
  rw [hs.graph] at hok
  exact (onGraph_ends ⟨_, by rw [hs.graph]; exact hok⟩).imp (fun t ht => by rw [ht]; exact hs)
    (fun _ _ h => h) fun _ _ h => h

variable (hi : Resolves i.environment.disk i.commands i.normalized)
include hi

theorem checkRules_ends (rules : List (CallbackRegistrationRule × Bool)) :
    Triple (fun s => ∃ graph, Underway i before i.normalized.length graph s) (checkRules rules)
      (fun _ s => ∃ graph, Underway i before i.normalized.length graph s) (Ends i before G) := by
  induction rules with
  | nil => exact Triple.pure fun s hs => hs
  | cons rule rules ih => exact stopIf_bind (failIndex_ends hi _) fun _ => ih

theorem checkPublicHeader_ends (header : Path) :
    Triple (fun s => ∃ graph, Underway i before i.normalized.length graph s) (checkPublicHeader header)
      (fun _ s => ∃ graph, Underway i before i.normalized.length graph s) (Ends i before G) := by
  unfold checkPublicHeader
  refine Triple.get_bind fun s hs => ?_
  refine Triple.imp (P := fun s => ∃ graph, Underway i before i.normalized.length graph s) ?_
    (fun t ht => by rw [ht]; exact hs) (fun _ _ h => h) fun _ _ h => h
  exact Triple.ite (fun _ => failIndex_ends hi _) fun _ => Triple.pure fun s hs => hs

theorem finishIndex_ends :
    Triple (fun s => ∃ graph, Underway i before i.normalized.length graph s) (finishIndex i) (fun _ => Tidy before)
      (Ends i before G) := by
  have hkeep : ∀ {m : RunM Unit} {f : Unit → RunM Unit},
      Triple (fun s => ∃ graph, Underway i before i.normalized.length graph s) m
        (fun _ s => ∃ graph, Underway i before i.normalized.length graph s) (Ends i before G) →
      Triple (fun s => ∃ graph, Underway i before i.normalized.length graph s) (f ()) (fun _ => Tidy before)
        (Ends i before G) →
      Triple (fun s => ∃ graph, Underway i before i.normalized.length graph s) (m >>= f) (fun _ => Tidy before)
        (Ends i before G) := fun hm hf => Triple.bind hm fun _ => hf
  have hget : ∀ {f : IndexRun → RunM Unit},
      (∀ s, Triple (fun s => ∃ graph, Underway i before i.normalized.length graph s) (f s) (fun _ => Tidy before)
        (Ends i before G)) →
      Triple (fun s => ∃ graph, Underway i before i.normalized.length graph s) (get >>= f) (fun _ => Tidy before)
        (Ends i before G) := fun hf => Triple.get_bind fun s hs => (hf s).imp (fun t ht => by rw [ht]; exact hs)
          (fun _ _ h => h) fun _ _ h => h
  unfold finishIndex
  refine hkeep dispatchVirtually_ends ?_
  refine hget fun s => ?_
  refine hkeep (checkRules_ends hi _) ?_
  refine hkeep (Triple.forM _ fun requested _ => addManualRoot_ends requested) ?_
  refine hkeep (Triple.exists fun graph => attempt_ends (onGraph_keeps _) fun _ => failIndex_ends hi _) ?_
  refine hkeep (Triple.forM _ fun header _ => checkPublicHeader_ends hi header) ?_
  refine hkeep (modify_graph ?_ ?_ ?_) ?_
  iterate 3
    intro s
    unfold noteAstFilter
    split <;> rfl
  refine hget fun s => ?_
  refine stopIf_bind (failIndex_ends hi _) fun _ => ?_
  refine hkeep (modify_graph ?_ ?_ ?_) (Triple.modify ?_)
  · exact addFallbackIdentityDiagnostics_keep (·.translationUnitDiagnostics) fun _ _ => rfl
  · exact addFallbackIdentityDiagnostics_keep (·.stagedCacheWrites) fun _ _ => rfl
  · exact addFallbackIdentityDiagnostics_keep (·.cache) fun _ _ => rfl
  rintro s ⟨graph, hs⟩
  exact ⟨hs.tidy.owned, hs.tidy.held, hs.tidy.uncommitted⟩

end Finish

/-! ## Commits -/

/-- What the loop of commits leaves: the objects own nothing, and each write is published or warned about. -/
structure Settled (before : CacheDirectory) (vector : List StagedCacheWrite) (d : CacheDirectory)
    (warnings : List Bytes) (result : List StagedCacheWrite × CacheDirectory × List Bytes) : Prop where
  owned : Owned before [] result.2.1
  empty : ∀ o ∈ result.1, o.temporary.isEmpty = true
  created : result.2.1.created = d.created
  staged : result.2.1.staged = d.staged
  published : d.published ⊆ result.2.1.published
  warnings : warnings ⊆ result.2.2
  settled : ∀ o ∈ vector, o.temporary.isEmpty = false → (o.temporary, o.destination) ∈ result.2.1.published ∨
    ∃ message, publishWarning o.destination message ∈ result.2.2

theorem commitFrom_settled {before : CacheDirectory} (events : Nat → CommitEvents) (n : Nat)
    (vector : List StagedCacheWrite) {d : CacheDirectory} {warnings : List Bytes} (h : Owned before vector d) :
    Settled before vector d warnings (commitFrom events n vector d warnings) := by
  induction vector generalizing n d warnings with
  | nil =>
    exact ⟨h, by simp [commitFrom], rfl, rfl, List.Subset.refl _, List.Subset.refl _, by simp⟩
  | cons o vector ih =>
    have hcommit := commit_commits (events n) o d warnings
    have hrest : Settled before vector _ (o.commit (events n) d warnings).2.2 _ :=
      ih (n + 1) (h.commit (events n) warnings)
    refine ⟨hrest.owned, ?_, hrest.created.trans hcommit.created, hrest.staged.trans hcommit.staged,
      List.Subset.trans hcommit.published hrest.published, List.Subset.trans hcommit.warnings hrest.warnings, ?_⟩
    · intro x hx
      rcases List.mem_cons.1 hx with rfl | hx
      · exact hcommit.empty
      · exact hrest.empty x hx
    · intro x hx hne
      rcases List.mem_cons.1 hx with rfl | hx
      · rcases hcommit.settled hne with hpublished | ⟨message, hwarned⟩
        · exact .inl (hrest.published hpublished)
        · exact .inr ⟨message, hrest.warnings hwarned⟩
      · exact hrest.settled x hx hne

/-! ## Runs -/

section Runs
variable {i : Invocation} {files : Path → Option Bytes} {counter : Nat} {refuses : Nat → Path → Bool}

theorem run_ends (hi : Resolves i.environment.disk i.commands i.normalized) :
    Triple (fun s => s = startRun i.rules (cacheBefore files counter refuses))
      (runUnits i) (fun _ => Tidy (cacheBefore files counter refuses))
      (Ends i (cacheBefore files counter refuses) (AllGuarded i (cacheBefore files counter refuses))) := by
  refine Triple.bind
    (R := fun _ s => ∃ graph, Underway i (cacheBefore files counter refuses) i.normalized.length graph s) ?_
    fun _ => finishIndex_ends hi
  refine (indexUnits_underway hi i.normalized (List.drop_zero) (Nat.zero_le _)).imp ?_ (fun _ _ h => h) fun _ _ h => h
  rintro s rfl
  exact ⟨rfl, _, rfl, rfl, owned_start files counter refuses, rfl, rfl⟩

/-- A throw leaves the cache as it was, and is reported unless a unit was not guarded. -/
theorem runIndex_threw (hi : Resolves i.environment.disk i.commands i.normalized) {failure : Failure} {d : CacheDirectory}
    (h : runIndex i (cacheBefore files counter refuses) = (.threw failure, d)) :
    Withdrawn (cacheBefore files counter refuses) d ∧ (Complete i.environment.disk i.commands failure ∨
      (¬ AllGuarded i (cacheBefore files counter refuses) ∧ ∃ e, failure = .exception e)) := by
  unfold runIndex at h
  split at h
  · rename_i failure' s hrun
    cases h
    obtain ⟨htidy, hends⟩ := (run_ends hi).error rfl hrun
    refine ⟨Owned.withdrawn (Owned.destroyAll _ ?_) ?_, hends⟩
    · rw [List.append_nil]
      exact htidy.owned
    · rw [destroyAll_committed, htidy.uncommitted]
  · cases h

/-- A return has settled every staged write. -/
theorem runIndex_returned (hi : Resolves i.environment.disk i.commands i.normalized) {result : IndexResult}
    {d : CacheDirectory} (h : runIndex i (cacheBefore files counter refuses) = (.returned result, d)) :
    Published (cacheBefore files counter refuses) result.cacheWarnings d := by
  unfold runIndex at h
  split at h
  · cases h
  · rename_i s hrun
    cases h
    have htidy := (run_ends hi).ok rfl hrun
    have hcommits : Settled (cacheBefore files counter refuses) s.stagedCacheWrites s.cache s.cacheWarnings _ :=
      commitFrom_settled i.environment.commitEvents 0 s.stagedCacheWrites htidy.owned
    rw [destroyAll_empty hcommits.empty]
    refine hcommits.owned.published fun x hx => ?_
    rw [hcommits.staged, htidy.held] at hx
    obtain ⟨o, ho, rfl⟩ := List.mem_map.1 hx
    refine hcommits.settled o ho (htidy.owned.created_ne (htidy.owned.staged_created (o.temporary, o.destination) ?_))
    rw [htidy.held]
    exact hx

theorem runIndex_throws (h : ¬ AllGuarded i (cacheBefore files counter refuses)) :
    ∃ e d, runIndex i (cacheBefore files counter refuses) = (.threw (.exception e), d) := by
  obtain ⟨e, t, ht⟩ := indexUnits_throws h
  refine ⟨e, destroyAll t.stagedCacheWrites t.cache, ?_⟩
  have hrun : runUnits i (startRun i.rules (cacheBefore files counter refuses)) = .error (.exception e) t := bind_of_error ht
  unfold runIndex
  rw [hrun]

end Runs

/-! ## The whole indexer -/

/-- If the run does not return, its failure tells of every command. -/
def ReportsAll (disk : Nat → Disk) (commands : List CompileCommand) : Outcome → Prop
  | .returned _ => True
  | .threw failure => Complete disk commands failure

section Index
variable {options : IndexOptions} {environment : Environment options.callbackRegistrationRules.length}
  {commands : List CompileCommand} {cache : CacheDirectory}

theorem normalizeCommands_all (commands : List CompileCommand) (disk : Nat → Disk) :
    match normalizeCommands commands disk 0 commands with
    | .error failure => Complete disk commands failure
    | .ok normalized => Resolves disk commands normalized := by
  have hspec := normalizeCommands_spec disk commands [] commands rfl
  simp only [List.length_nil, Nat.zero_add] at hspec
  exact hspec

theorem index_normalized (hdeclared : libraryApiDeclared options = true) (hcommands : commands ≠ [])
    {normalized : List NormalizedCommand} (h : normalizeCommands commands environment.disk 0 commands = .ok normalized) :
    index options environment commands cache = runIndex { options, commands, normalized, environment } cache := by
  unfold index
  rw [hdeclared, if_neg (by simp), if_neg (by simp [hcommands]), h]

theorem index_notNormalized (hdeclared : libraryApiDeclared options = true) (hcommands : commands ≠ [])
    {failure : Failure} (h : normalizeCommands commands environment.disk 0 commands = .error failure) :
    index options environment commands cache = (.threw failure, cache) := by
  unfold index
  rw [hdeclared, if_neg (by simp), if_neg (by simp [hcommands]), h]

end Index

/-- A run that does not return throws an `IndexingError` with one entry for each command, if and only if nothing
unguarded fails: at each unit that the loop comes to, the cache key can be computed, an entry that serves the unit
merges with the graph so far, and otherwise there is a directory for temporary files. -/
theorem index_reportsAll_iff (options : IndexOptions) (environment : Environment options.callbackRegistrationRules.length)
    (commands : List CompileCommand) (files : Path → Option Bytes) (counter : Nat) (refuses : Nat → Path → Bool)
    (hdeclared : libraryApiDeclared options = true) (hcommands : commands ≠ []) :
    ReportsAll environment.disk commands (index options environment commands (cacheBefore files counter refuses)).1 ↔
      ∀ normalized, normalizeCommands commands environment.disk 0 commands = .ok normalized →
        AllGuarded { options, commands, normalized, environment } (cacheBefore files counter refuses) := by
  have hspec := normalizeCommands_all commands environment.disk
  cases hnormal : normalizeCommands commands environment.disk 0 commands with
  | error failure =>
    rw [hnormal] at hspec
    rw [index_notNormalized hdeclared hcommands hnormal]
    exact ⟨fun _ normalized h => (by cases h), fun _ => hspec⟩
  | ok normalized =>
    rw [hnormal] at hspec
    rw [index_normalized hdeclared hcommands hnormal]
    constructor
    · -- a step that nothing guards makes the run throw, and a run that throws reports no command
      intro hreports other hother
      cases hother
      by_contra hnot
      obtain ⟨e, d, hthrew⟩ := runIndex_throws hnot
      rw [hthrew] at hreports
      exact hreports
    · intro hall
      cases hrun : runIndex { options, commands, normalized, environment } (cacheBefore files counter refuses) with
      | mk outcome d =>
        cases outcome with
        | returned result => exact trivial
        | threw failure => exact (runIndex_threw hspec hrun).2.resolve_right fun hnot => hnot.1 (hall normalized rfl)

/-! A command whose precompiled header vanishes between its normalization and the computation of its key. -/

def calmDisk : Disk :=
  { currentPath := .ok ⟨lit "/"⟩, responseFile := fun _ => .cannotOpen, commandInput := fun _ => .readable }

def vanishedInput : Host :=
  { currentPath := .ok ⟨lit "/"⟩
    «exists» := fun _ => .ok false
    binary := .ok []
    fingerprint := fun _ => .ok []
    sha256File := fun path => .error (.runtimeError (lit "cannot hash cache dependency: " ++ path.text))
    sha256 := id
    environment := fun _ => none }

def environmentWith (rules : Nat) (host : Host) : Environment rules :=
  { disk := fun _ => calmDisk
    unitEvents := fun _ =>
      { host
        currentPath := ⟨lit "/"⟩
        cacheFile := .missing
        dependencyDigest := fun _ => .ok []
        temporaryDirectory := .ok ⟨lit "/tmp"⟩
        runProcess := fun _ _ _ => .ok { exitCode := 1 }
        fromChars := fun _ => none
        collect := fun _ => .error (.runtimeError [])
        parseMakeDependencies := fun _ _ => .ok []
        hostAfter := host
        stage := .written }
    recordOrder := id
    methodOrder := id
    recordOrder_perm := fun _ => .refl _
    methodOrder_perm := fun _ => .refl _ }

def pchCommand : CompileCommand :=
  { directory := ⟨lit "/p"⟩
    file := ⟨lit "/p/a.cpp"⟩
    arguments := [lit "c++", lit "-include-pch", lit "a.pch", lit "a.cpp"] }

/-- With a cache, nothing is reported: the run throws what hashing the input throws. -/
theorem vanishedInput_unreported :
    libraryApiDeclared { cacheDirectory := some ⟨lit "/cache"⟩ } = true ∧
      ¬ ReportsAll (environmentWith 0 vanishedInput).disk [pchCommand]
        (index { cacheDirectory := some ⟨lit "/cache"⟩ } (environmentWith 0 vanishedInput) [pchCommand]
          (cacheBefore (fun _ => none) 0 fun _ _ => false)).1 := by
  have hthrew : (index { cacheDirectory := some ⟨lit "/cache"⟩ } (environmentWith 0 vanishedInput) [pchCommand]
      (cacheBefore (fun _ => none) 0 fun _ _ => false)).1 =
        .threw (.exception (.runtimeError (lit "cannot hash cache dependency: /p/a.pch"))) := by rfl
  refine ⟨rfl, fun hreports => ?_⟩
  rw [hthrew] at hreports
  exact hreports

/-! A command that works, of which the cache holds the facts. -/

def calmHost : Host :=
  { currentPath := .ok ⟨lit "/"⟩
    «exists» := fun _ => .ok false
    binary := .ok []
    fingerprint := fun _ => .ok []
    sha256File := fun _ => .ok (List.replicate 64 (ch '0'))
    sha256 := fun _ => lit "ab"
    environment := fun _ => none }

/-- A unit that compiles to an AST without declarations. -/
def calmUnit (cacheFile : CacheFile) : UnitEvents 0 :=
  { host := calmHost
    currentPath := ⟨lit "/"⟩
    cacheFile
    dependencyDigest := fun _ => .ok (List.replicate 64 (ch '0'))
    temporaryDirectory := .ok ⟨lit "/tmp"⟩
    runProcess := fun _ _ _ => .ok { exitCode := 0 }
    fromChars := fun _ => none
    collect := fun _ => .ok
      { graph := {}, diagnostics := [], ruleMatches := [], records := [], built := .empty
        matches_length := rfl, names_nodup := List.nodup_nil }
    parseMakeDependencies := fun _ _ => .ok []
    hostAfter := calmHost
    stage := .written }

def calmEnvironment (cacheFile : CacheFile) : Environment 0 :=
  { disk := fun _ => calmDisk
    unitEvents := fun _ => calmUnit cacheFile
    recordOrder := id
    methodOrder := id
    recordOrder_perm := fun _ => .refl _
    methodOrder_perm := fun _ => .refl _ }

def plainCommand : CompileCommand :=
  { directory := ⟨lit "/p"⟩
    file := ⟨lit "/p/a.cpp"⟩
    arguments := [lit "c++", lit "a.cpp"] }

def cachedOptions : IndexOptions := { cacheDirectory := some ⟨lit "/cache"⟩ }

def storedGraph : Graph := endState (Graph.addOrMergeSymbol awkwardSymbol) {}

theorem storedGraph_inv : storedGraph.Inv := Graph.addOrMergeSymbol_inv _ _ Graph.inv_empty

/-- What an earlier run has stored of the command: a function, and nothing that calls it. -/
def storedEntry : TranslationUnitCacheEntry :=
  { graph := storedGraph
    dependencies := [⟨⟨lit "/p/a.cpp"⟩, List.replicate 64 (ch '0')⟩] }

def storedFile : CacheFile := .text (writeEntry (lit "ab") storedEntry)

theorem storedEntry_read : readEntry (lit "ab") (writeEntry (lit "ab") storedEntry) = .ok (stored storedEntry) :=
  (readEntry_writeEntry (lit "ab") storedGraph_inv).1
    ⟨by decide, by decide, by decide, by decide, by decide, by decide, by decide, by decide, by decide, by decide⟩

theorem lookupCached_stored {command : NormalizedCommand} (h : command.file = ⟨lit "/p/a.cpp"⟩) :
    (lookupCached ⟨lit "/cache"⟩ (lit "ab") command (calmUnit storedFile)).entry = some (stored storedEntry) := by
  have husable : usableEntry (lit "ab") (writeEntry (lit "ab") storedEntry) ⟨lit "/"⟩ ⟨lit "/p/a.cpp"⟩
      (fun _ => .ok (List.replicate 64 (ch '0'))) = .ok (some (stored storedEntry)) := by
    refine usableEntry_eq_some.2 ⟨storedEntry_read, ⟨_, rfl, _, List.mem_singleton_self _, by decide⟩, fun d hd => ?_⟩
    rw [List.mem_singleton.1 hd]
    exact ⟨by decide, rfl⟩
  unfold lookupCached loadTranslationUnitCache
  simp only [calmUnit, storedFile, h, husable]

theorem storedEntry_merges : ∃ g, mergeGraph (stored storedEntry).graph {} = .ok () g :=
  Graph.mergeGraph_completes Graph.inv_empty (Graph.canonicalize_inv storedGraph_inv).generic fun s _ t ht => by cases ht

theorem plain_normalized : ∃ normal,
    normalizeCommands [plainCommand] (fun _ => calmDisk) 0 [plainCommand] = .ok [normal] ∧
    normal.file = ⟨lit "/p/a.cpp"⟩ ∧
    translationUnitCacheKey calmHost normal.toCompileCommand cachedOptions .astJson = .ok (lit "ab") :=
  ⟨_, rfl, rfl, rfl⟩

theorem guarded_of_entry {i : Invocation} {command : NormalizedCommand} {events : UnitEvents i.rules} {graph : Graph}
    {directory : Path} {key : Bytes} {entry : TranslationUnitCacheEntry}
    (hdirectory : i.options.cacheDirectory = some directory)
    (hkey : translationUnitCacheKey events.host command.toCompileCommand i.options .astJson = .ok key)
    (hentry : compatibleEntry i.rules (lookupCached directory key command events) = some entry)
    (hmerges : ∃ merged, mergeGraph entry.graph graph = .ok () merged) : Guarded i command events graph := by
  intro directory' hdirectory' _
  obtain rfl := Option.some.inj (hdirectory.symm.trans hdirectory')
  refine ⟨key, hkey, fun _ => ?_⟩
  rw [hentry]
  exact hmerges

def plainInvocation (normal : NormalizedCommand) : Invocation :=
  { options := cachedOptions
    commands := [plainCommand]
    normalized := [normal]
    environment := calmEnvironment storedFile }

theorem plain_guarded {normal : NormalizedCommand} (hfile : normal.file = ⟨lit "/p/a.cpp"⟩)
    (hkey : translationUnitCacheKey calmHost normal.toCompileCommand cachedOptions .astJson = .ok (lit "ab")) :
    Guarded (plainInvocation normal) normal (calmUnit storedFile) {} := by
  have hentry : compatibleEntry 0 (lookupCached ⟨lit "/cache"⟩ (lit "ab") normal (calmUnit storedFile)) =
      some (stored storedEntry) := by
    unfold compatibleEntry
    rw [lookupCached_stored hfile]
    rfl
  exact guarded_of_entry (i := plainInvocation normal) rfl hkey hentry storedEntry_merges

theorem plain_allGuarded (normalized : List NormalizedCommand)
    (h : normalizeCommands [plainCommand] (calmEnvironment storedFile).disk 0 [plainCommand] = .ok normalized) :
    AllGuarded { options := cachedOptions, commands := [plainCommand], normalized, environment := calmEnvironment storedFile }
      (cacheBefore (fun _ => none) 0 fun _ _ => false) := by
  intro n command s hcommand hreaches
  obtain ⟨normal, hnormal, hfile, hkey⟩ := plain_normalized
  obtain rfl : normalized = [normal] := Except.ok.inj (h.symm.trans hnormal)
  obtain rfl : n = 0 := by
    obtain ⟨hlt, -⟩ := List.getElem?_eq_some_iff.1 hcommand
    exact Nat.lt_one_iff.1 hlt
  obtain rfl : normal = command := Option.some.inj hcommand
  obtain rfl : startRun 0 (cacheBefore (fun _ => none) 0 fun _ _ => false) = s := (EStateM.Result.ok.inj hreaches).2
  exact plain_guarded hfile hkey

section
attribute [local irreducible] ReportsAll

theorem served_reportsAll :
    ∃ run, run = index cachedOptions (calmEnvironment storedFile) [plainCommand]
        (cacheBefore (fun _ => none) 0 fun _ _ => false) ∧
      ReportsAll (calmEnvironment storedFile).disk [plainCommand] run.1 :=
  ⟨_, rfl, (index_reportsAll_iff cachedOptions (calmEnvironment storedFile) [plainCommand] (fun _ => none) 0
    (fun _ _ => false) rfl (List.cons_ne_nil _ _)).2 plain_allGuarded⟩
end

/-- Whatever fails in a run: if it throws, the cache is as it was before, and if it returns, every staged write has
been published exactly once or warned about; no temporary is left but one that the file system refused to remove.
And whatever is done with the objects that own the temporaries, each other temporary that is left belongs to exactly
one of them. -/
theorem index_allOrNothing (options : IndexOptions) (environment : Environment options.callbackRegistrationRules.length)
    (commands : List CompileCommand) (files : Path → Option Bytes) (counter : Nat) (refuses : Nat → Path → Bool) :
    (match index options environment commands (cacheBefore files counter refuses) with
      | (.threw _, d) => Withdrawn (cacheBefore files counter refuses) d
      | (.returned result, d) => Published (cacheBefore files counter refuses) result.cacheWarnings d) ∧
    ∀ live d, ReflTransGen ObjectStep ([], cacheBefore files counter refuses) (live, d) →
      (∀ p ∈ d.created, (d.files p).isSome = true →
        live.countP (fun o => o.temporary = p) = 1 ∨ (p ∈ d.refused ∧ ∃ n, refuses n p = true)) ∧
      (∀ x ∈ d.published, x ∈ d.staged ∧ d.published.count x = 1) ∧
      ∀ p, p ∉ d.created → p ∉ d.committed → d.files p = files p := by
  have hstart : Withdrawn (cacheBefore files counter refuses) (cacheBefore files counter refuses) :=
    (owned_start files counter refuses).withdrawn rfl
  constructor
  · unfold index
    split
    · -- thrown before the run begins, or by the run
      rename_i h
      split at h
      · cases h
        exact hstart
      · split at h
        · cases h
          exact hstart
        · split at h
          · cases h
            exact hstart
          · rename_i normalized hnormal
            have hspec := normalizeCommands_all commands environment.disk
            rw [hnormal] at hspec
            exact (runIndex_threw hspec h).1
    · rename_i h
      split at h
      · cases h
      · split at h
        · cases h
        · split at h
          · cases h
          · rename_i normalized hnormal
            have hspec := normalizeCommands_all commands environment.disk
            rw [hnormal] at hspec
            exact runIndex_returned hspec h
  · intro live d hrun
    have howned : Owned (cacheBefore files counter refuses) live d := objects_run hrun
    exact ⟨fun p => howned.countP_eq_one, fun x hx =>
      ⟨howned.published_staged x hx, List.count_eq_one_of_mem howned.published_nodup hx⟩, howned.outside⟩

/-- The file system refuses to remove a staged entry when the run throws for lack of roots, and the entry stays. -/
theorem refused_remains :
    ∃ run, run = index cachedOptions (calmEnvironment .missing) [plainCommand]
        (cacheBefore (fun _ => none) 0 fun _ _ => true) ∧
      (∃ failure, run.1 = .threw failure) ∧ ¬ ∀ p ∈ run.2.created, run.2.files p = none := by
  refine ⟨_, rfl, ⟨_, rfl⟩, fun h => ?_⟩
  have hleft := h (temporaryPath (entryPath ⟨lit "/cache"⟩ (lit "ab")) 0 0) (List.mem_singleton.2 rfl)
  cases hleft

end Indexer

end CxxDead
