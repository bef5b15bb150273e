import CxxDead.BuildModel
import CxxDead.Lib.Tables
import CxxDead.Lib.Throwing
/-!
# The closure of a target, and its commands

- `visitTarget_returns`: the visit of a target ends, also where dependencies form cycles.
- `chooseCommand_ok_iff`: the command that is chosen for a source, and when there is one.
- `selectTargetCommands_spec`: what is selected, when, and that the order in which a
  model lists targets, sources and dependencies does not matter.
-/

namespace CxxDead

open Lib Relation

/-! ## Selecting a target -/

/-- The loop ends with the only target that matches, and does not end well if there are two. -/
theorem onlyTarget_loop {p : BuildTarget → Bool} {several : Bytes} (l : List BuildTarget) {found r : Option BuildTarget} :
    (l.foldlM (fun found target =>
      if !p target then pure found
      else if found.isSome then throw (Exception.runtimeError several)
      else pure (some target)) found : Except Exception (Option BuildTarget)) = .ok r ↔
      found.toList ++ l.filter p = r.toList := by
  induction l generalizing found with
  | nil =>
    rw [List.foldlM_nil, List.filter_nil, List.append_nil]
    refine ⟨fun h => congrArg Option.toList (Except.ok.inj h), fun h => congrArg Except.ok ?_⟩
    cases found with
    | none =>
      cases r with
      | none => rfl
      | some r => cases h
    | some found =>
      cases r with
      | none => cases h
      | some r => exact congrArg some (List.head_eq_of_cons_eq h)
  | cons t l ih =>
    rw [List.foldlM_cons, except_bind_ok_iff]
    cases hp : p t with
    | false =>
      rw [List.filter_cons_of_neg (by simp [hp])]
      constructor
      · rintro ⟨mid, hmid, hrest⟩
        cases hmid
        exact ih.1 hrest
      · exact fun h => ⟨found, rfl, ih.2 h⟩
    | true =>
      rw [List.filter_cons_of_pos hp]
      cases found with
      | none =>
        constructor
        · rintro ⟨mid, hmid, hrest⟩
          cases hmid
          exact ih.1 hrest
        · exact fun h => ⟨some t, rfl, ih.2 h⟩
      | some first =>
        constructor
        · rintro ⟨mid, hmid, -⟩
          cases hmid
        · intro h
          cases r with
          | none => cases h
          | some r => simp at h

theorem onlyTarget_ok_iff {p : BuildTarget → Bool} {several none : Bytes} {l : List BuildTarget} {t : BuildTarget} :
    onlyTarget p several none l = .ok t ↔ l.filter p = [t] := by
  unfold onlyTarget
  rw [except_bind_ok_iff]
  constructor
  · rintro ⟨found, hfound, hend⟩
    cases found with
    | none => cases hend
    | some found =>
      cases hend
      exact (onlyTarget_loop l).1 hfound
  · exact fun h => ⟨some t, (onlyTarget_loop l).2 h, rfl⟩

/-- What a requested name selects. -/
def isRequested (requested : Bytes) (target : BuildTarget) : Bool :=
  if requested ≠ [] then target.name == requested || target.id == requested else target.kind == .executable

theorem selectTarget_ok_iff {configuration : BuildConfiguration} {requested : Bytes} {t : BuildTarget} :
    selectTarget configuration requested = .ok t ↔ configuration.targets.filter (isRequested requested) = [t] := by
  unfold selectTarget isRequested
  split
  · exact onlyTarget_ok_iff
  · exact onlyTarget_ok_iff

theorem indexTargets_loop (l done : List BuildTarget) (hdone : (done.map (·.id)).Nodup)
    {index : List (Bytes × BuildTarget)} :
    (l.foldlM (fun index target =>
      if (index.lookup target.id).isSome then
        throw (Exception.runtimeError (lit "duplicate target id in build configuration: " ++ target.id))
      else pure (index ++ [(target.id, target)])) (done.map fun t => (t.id, t)) : Except Exception _) = .ok index ↔
      ((done ++ l).map (·.id)).Nodup ∧ index = (done ++ l).map fun t => (t.id, t) := by
  induction l generalizing done with
  | nil =>
    rw [List.foldlM_nil, List.append_nil]
    exact ⟨fun h => ⟨hdone, (Except.ok.inj h).symm⟩, fun h => congrArg Except.ok h.2.symm⟩
  | cons t l ih =>
    have hlookup : ((done.map fun t => (t.id, t)).lookup t.id).isSome = true ↔ t.id ∈ done.map (·.id) := by
      rw [lookup_isSome_iff, List.map_map]
      rfl
    rw [List.foldlM_cons, except_bind_ok_iff]
    by_cases ht : t.id ∈ done.map (·.id)
    · rw [if_pos (hlookup.2 ht)]
      refine iff_of_false (fun ⟨mid, hmid, _⟩ => nomatch hmid) fun ⟨hnodup, _⟩ => ?_
      rw [List.map_append, List.nodup_append'] at hnodup
      exact hnodup.2.2 ht List.mem_cons_self
    · rw [if_neg (fun h => ht (hlookup.1 h))]
      have hsnoc : ((done ++ [t]).map (·.id)).Nodup := by
        rw [List.map_append, List.nodup_append']
        refine ⟨hdone, List.nodup_singleton _, fun id hid hid' => ?_⟩
        obtain rfl : id = t.id := List.mem_singleton.1 hid'
        exact ht hid
      have hstep := ih (done ++ [t]) hsnoc
      rw [List.append_assoc, List.singleton_append] at hstep
      rw [← hstep, List.map_append]
      exact ⟨fun ⟨mid, hmid, hrest⟩ => Except.ok.inj hmid ▸ hrest, fun h => ⟨_, rfl, h⟩⟩

theorem indexTargets_ok_iff {targets : List BuildTarget} {index : List (Bytes × BuildTarget)} :
    indexTargets targets = .ok index ↔ (targets.map (·.id)).Nodup ∧ index = targets.map fun t => (t.id, t) :=
  indexTargets_loop targets [] List.nodup_nil

/-! ## The closure -/

/-- A target lists the id of another target of the configuration. -/
def DependsOn (configuration : BuildConfiguration) (t t' : BuildTarget) : Prop :=
  t' ∈ configuration.targets ∧ t'.id ∈ t.dependencies

def InClosure (configuration : BuildConfiguration) (selected t : BuildTarget) : Prop :=
  ReflTransGen (DependsOn configuration) selected t

/-- What is reported about a target's dependencies that the configuration omits. -/
def missingDependencies (configuration : BuildConfiguration) (t : BuildTarget) : List Bytes :=
  (t.dependencies.filter fun id => id ∉ configuration.targets.map (·.id)).map (missingDependency t)

section Closure
variable {configuration : BuildConfiguration} {selected t t' : BuildTarget}

/-- `by_id`, when no id is listed twice. -/
def byId (configuration : BuildConfiguration) : List (Bytes × BuildTarget) :=
  configuration.targets.map fun t => (t.id, t)

theorem byId_lookup (hnodup : (configuration.targets.map (·.id)).Nodup) {id : Bytes} :
    (byId configuration).lookup id = some t ↔ t ∈ configuration.targets ∧ t.id = id := by
  rw [lookup_eq_some_iff (by rw [byId, List.map_map]; exact hnodup), byId, List.mem_map]
  constructor
  · rintro ⟨t', ht', heq⟩
    cases heq
    exact ⟨ht', rfl⟩
  · rintro ⟨ht, rfl⟩
    exact ⟨t, ht, rfl⟩

theorem byId_lookup_none {id : Bytes} :
    (byId configuration).lookup id = none ↔ id ∉ configuration.targets.map (·.id) := by
  rw [← Option.not_isSome_iff_eq_none, lookup_isSome_iff, byId, List.map_map]
  rfl

theorem step_iff (hnodup : (configuration.targets.map (·.id)).Nodup) :
    DepthFirst.Step (dependencySteps (byId configuration)) t t' ↔ DependsOn configuration t t' := by
  simp only [DepthFirst.Step, dependencySteps, List.mem_map]
  constructor
  · rintro ⟨id, hid, hstep⟩
    cases hlookup : (byId configuration).lookup id with
    | none =>
      rw [hlookup] at hstep
      cases hstep
    | some found =>
      rw [hlookup] at hstep
      cases hstep
      obtain ⟨hmem, rfl⟩ := (byId_lookup hnodup).1 hlookup
      exact ⟨hmem, hid⟩
  · rintro ⟨hmem, hid⟩
    refine ⟨t'.id, hid, ?_⟩
    rw [(byId_lookup hnodup).2 ⟨hmem, rfl⟩]

theorem notesOf_eq (t : BuildTarget) :
    DepthFirst.notesOf (dependencySteps (byId configuration)) t = missingDependencies configuration t := by
  unfold DepthFirst.notesOf dependencySteps missingDependencies
  rw [List.filterMap_map, ← List.filterMap_eq_map, ← List.filterMap_eq_filter, List.filterMap_filterMap]
  refine List.filterMap_congr fun id _ => ?_
  by_cases hid : id ∈ configuration.targets.map (·.id)
  · have hsome : ((byId configuration).lookup id).isSome = true := by
      rw [lookup_isSome_iff, byId, List.map_map]
      exact hid
    obtain ⟨found, hfound⟩ := Option.isSome_iff_exists.1 hsome
    simp [hfound, hid, Option.guard]
  · simp [byId_lookup_none.2 hid, hid, Option.guard]

theorem InClosure.mem (h : InClosure configuration selected t) (hselected : selected ∈ configuration.targets) :
    t ∈ configuration.targets := by
  cases h with
  | refl => exact hselected
  | tail _ hstep => exact hstep.1

/-- However the dependencies run, the recursion comes back from a depth of one more than there are targets, and
does nothing else when it may go deeper. -/
theorem visitTarget_returns (hnodup : (configuration.targets.map (·.id)).Nodup)
    (hselected : selected ∈ configuration.targets) :
    ∃ visited, ∀ depth > configuration.targets.length, visitTarget (byId configuration) depth selected = some visited := by
  have hkeys : ∀ t, ReflTransGen (DepthFirst.Step (dependencySteps (byId configuration))) selected t →
      t.id ∈ configuration.targets.map (·.id) := by
    intro t ht
    have hstep : DepthFirst.Step (dependencySteps (byId configuration)) = DependsOn configuration :=
      funext fun t => funext fun t' => propext (step_iff hnodup)
    rw [hstep] at ht
    exact List.mem_map_of_mem (InClosure.mem ht hselected)
  have hfuel : DepthFirst.unvisited (configuration.targets.map (·.id))
      ({} : DepthFirst.State BuildTarget Bytes Bytes) < configuration.targets.length + 1 := by
    refine Nat.lt_succ_of_le (List.countP_le_length.trans_eq ?_)
    rw [List.length_map]
  obtain ⟨visited, hvisited⟩ := DepthFirst.visit_returns hkeys hfuel
  exact ⟨visited, fun depth hdepth => DepthFirst.visit_mono hdepth hvisited⟩

theorem visitTarget_spec (hnodup : (configuration.targets.map (·.id)).Nodup)
    (hselected : selected ∈ configuration.targets) {depth : Nat} {visited : DepthFirst.State BuildTarget Bytes Bytes}
    (h : visitTarget (byId configuration) depth selected = some visited) :
    (visited.order.map (·.id)).Nodup ∧ (∀ t, t ∈ visited.order ↔ InClosure configuration selected t) ∧
      visited.notes.Perm (visited.order.flatMap (missingDependencies configuration)) := by
  have hstep : DepthFirst.Step (dependencySteps (byId configuration)) = DependsOn configuration :=
    funext fun t => funext fun t' => propext (step_iff hnodup)
  have hspec := DepthFirst.visit_spec (fun t t' ht ht' hid => ?_) h
  · rw [hstep, show DepthFirst.notesOf (dependencySteps (byId configuration)) = missingDependencies configuration from
      funext notesOf_eq] at hspec
    exact hspec
  · rw [hstep] at ht ht'
    exact List.inj_on_of_nodup_map hnodup (InClosure.mem ht hselected) (InClosure.mem ht' hselected) hid

end Closure

/-! ## The command for a source -/

section Commands
variable (commands : List CompileCommand) (configuration targetName : Bytes) (source : Path)

/-- The command at this index compiles the source. -/
def CompilesSource (i : Nat) : Prop := i < commands.length ∧ (commandAt commands i).file.same source = true

/-- And is marked for the target. -/
def IsOwned (i : Nat) : Prop :=
  CompilesSource commands source i ∧ commandMatchesTarget (commandAt commands i) targetName = true

/-- And for the configuration. -/
def IsConfigured (i : Nat) : Prop :=
  IsOwned commands targetName source i ∧
    commandMatchesConfiguration (commandAt commands i) targetName configuration = true

/-- Marked for target and configuration, or for the target if no command is, or any if no command is. -/
def IsPreferred (i : Nat) : Prop :=
  IsConfigured commands configuration targetName source i ∨
    ((¬ ∃ j, IsConfigured commands configuration targetName source j) ∧ IsOwned commands targetName source i) ∨
    ((¬ ∃ j, IsOwned commands targetName source j) ∧ CompilesSource commands source i)

/-- The same directory, file and arguments. -/
def SameCommand (left right : CompileCommand) : Prop :=
  left.directory.same right.directory = true ∧ left.file.same right.file = true ∧ left.arguments = right.arguments

/-- The first of the preferred commands, which are all alike. -/
def IsChosen (i : Nat) : Prop :=
  IsPreferred commands configuration targetName source i ∧
    (∀ j, IsPreferred commands configuration targetName source j → i ≤ j) ∧
    ∀ j, IsPreferred commands configuration targetName source j →
      SameCommand (commandAt commands i) (commandAt commands j)

variable {commands configuration targetName source} {i j : Nat}

theorem equivalentCommands_iff {left right : CompileCommand} :
    equivalentCommands left right = true ↔ SameCommand left right := by
  simp only [equivalentCommands, SameCommand, Bool.and_eq_true, beq_iff_eq, and_assoc]

theorem SameCommand.trans {a b c : CompileCommand} (h : SameCommand a b) (h' : SameCommand a c) : SameCommand b c := by
  simp only [SameCommand, Path.same, beq_iff_eq] at h h' ⊢
  exact ⟨h.1.symm.trans h'.1, h.2.1.symm.trans h'.2.1, h.2.2.symm.trans h'.2.2⟩

theorem mem_candidateCommands : i ∈ candidateCommands commands source ↔ CompilesSource commands source i := by
  rw [candidateCommands, List.mem_filter, List.mem_range]
  rfl

theorem mem_ownedCommands : i ∈ ownedCommands commands targetName source ↔ IsOwned commands targetName source i := by
  rw [ownedCommands, List.mem_filter, mem_candidateCommands]
  rfl

theorem mem_configuredCommands : i ∈ configuredCommands commands configuration targetName source ↔
    IsConfigured commands configuration targetName source i := by
  rw [configuredCommands, List.mem_filter, mem_ownedCommands]
  rfl

theorem configuredCommands_ne_nil : configuredCommands commands configuration targetName source ≠ [] ↔
    ∃ i, IsConfigured commands configuration targetName source i := by
  rw [ne_eq, List.eq_nil_iff_forall_not_mem, not_forall]
  simp only [not_not, mem_configuredCommands]

theorem ownedCommands_eq_nil : ownedCommands commands targetName source = [] ↔
    ¬ ∃ i, IsOwned commands targetName source i := by
  simp only [List.eq_nil_iff_forall_not_mem, mem_ownedCommands, not_exists]

theorem mem_usableCommands :
    i ∈ usableCommands commands configuration targetName source ↔
      IsPreferred commands configuration targetName source i := by
  unfold usableCommands IsPreferred
  split
  · rename_i hconfigured
    rw [configuredCommands_ne_nil] at hconfigured
    have howned : ∃ j, IsOwned commands targetName source j := hconfigured.imp fun _ h => h.1
    rw [mem_configuredCommands]
    exact ⟨.inl, fun h => h.resolve_right fun h => h.elim (fun h => h.1 hconfigured) fun h => h.1 howned⟩
  · rename_i hconfigured
    rw [configuredCommands_ne_nil] at hconfigured
    split
    · rename_i howned
      rw [ownedCommands_eq_nil] at howned
      rw [mem_candidateCommands]
      refine ⟨fun h => .inr (.inr ⟨howned, h⟩), fun h => ?_⟩
      rcases h with h | ⟨-, h⟩ | ⟨-, h⟩
      · exact absurd ⟨i, h⟩ hconfigured
      · exact absurd ⟨i, h⟩ howned
      · exact h
    · rename_i howned
      rw [ownedCommands_eq_nil, not_not] at howned
      rw [mem_ownedCommands]
      refine ⟨fun h => .inr (.inl ⟨hconfigured, h⟩), fun h => ?_⟩
      rcases h with h | ⟨-, h⟩ | ⟨hnone, -⟩
      · exact absurd ⟨i, h⟩ hconfigured
      · exact h
      · exact absurd howned hnone

theorem usableCommands_sorted : (usableCommands commands configuration targetName source).Pairwise (· < ·) := by
  have hrange : (List.range commands.length).Pairwise (· < ·) := List.pairwise_lt_range
  unfold usableCommands
  split
  · exact ((hrange.filter _).filter _).filter _
  · split
    · exact hrange.filter _
    · exact (hrange.filter _).filter _

theorem chooseCommand_ok_iff :
    chooseCommand commands configuration targetName source = .ok i ↔
      IsChosen commands configuration targetName source i := by
  have hsorted : (usableCommands commands configuration targetName source).Pairwise (· < ·) := usableCommands_sorted
  have hmem : ∀ j, j ∈ usableCommands commands configuration targetName source ↔
      IsPreferred commands configuration targetName source j := fun _ => mem_usableCommands
  unfold chooseCommand IsChosen
  simp only [← hmem]
  cases husable : usableCommands commands configuration targetName source with
  | nil => simp
  | cons first rest =>
    rw [husable] at hsorted
    have hleast : ∀ j ∈ first :: rest, first ≤ j := by
      rw [List.forall_mem_cons]
      exact ⟨le_refl _, fun j hj => le_of_lt ((List.pairwise_cons.1 hsorted).1 j hj)⟩
    have hself : ∀ c, SameCommand c c := fun c => by simp [SameCommand, Path.same]
    have hfirst : i ∈ first :: rest ∧ (∀ j ∈ first :: rest, i ≤ j) ↔ i = first := by
      constructor
      · rintro ⟨hi, hall⟩
        exact le_antisymm (hall first List.mem_cons_self) (hleast i hi)
      · rintro rfl
        exact ⟨List.mem_cons_self, hleast⟩
    rw [← and_assoc, hfirst]
    have halike : ((first :: rest).all fun i => equivalentCommands (commandAt commands first) (commandAt commands i)) =
        false ↔ ¬ ∀ j ∈ first :: rest, SameCommand (commandAt commands first) (commandAt commands j) := by
      rw [← Bool.not_eq_true, List.all_eq_true]
      simp only [equivalentCommands_iff]
    dsimp only
    split
    · rename_i hbad
      refine iff_of_false (fun h => nomatch h) ?_
      rintro ⟨rfl, hall⟩
      exact halike.1 hbad.2 hall
    · rename_i hgood
      have hall : ∀ j ∈ first :: rest, SameCommand (commandAt commands first) (commandAt commands j) := by
        by_contra hno
        refine hgood ⟨?_, halike.2 hno⟩
        rintro rfl
        exact hno fun j hj => List.mem_singleton.1 hj ▸ hself _
      constructor
      · intro h
        cases h
        exact ⟨rfl, hall⟩
      · rintro ⟨rfl, -⟩
        rfl

/-- A source has a chosen command exactly if a command compiles it and the preferred ones are alike. -/
theorem exists_isChosen :
    (∃ i, IsChosen commands configuration targetName source i) ↔
      (∃ i, CompilesSource commands source i) ∧
        ∀ i j, IsPreferred commands configuration targetName source i →
          IsPreferred commands configuration targetName source j →
            SameCommand (commandAt commands i) (commandAt commands j) := by
  constructor
  · rintro ⟨i, hi, -, hall⟩
    refine ⟨⟨i, ?_⟩, fun j k hj hk => (hall j hj).trans (hall k hk)⟩
    rcases hi with hi | ⟨-, hi⟩ | ⟨-, hi⟩
    · exact hi.1.1
    · exact hi.1
    · exact hi
  · rintro ⟨⟨k, hk⟩, hall⟩
    have hsome : ∃ i, IsPreferred commands configuration targetName source i := by
      by_cases hconfigured : ∃ j, IsConfigured commands configuration targetName source j
      · exact hconfigured.imp fun _ h => .inl h
      · by_cases howned : ∃ j, IsOwned commands targetName source j
        · exact howned.imp fun _ h => .inr (.inl ⟨hconfigured, h⟩)
        · exact ⟨k, .inr (.inr ⟨howned, hk⟩)⟩
    classical
    exact ⟨Nat.find hsome, Nat.find_spec hsome, fun j hj => Nat.find_min' hsome hj,
      fun j hj => hall _ j (Nat.find_spec hsome) hj⟩

end Commands

/-! ## What is selected -/

section Selection
variable (configuration : BuildConfiguration) (selected : BuildTarget) (commands : List CompileCommand)

/-- `closure` and `indexes` are the targets and the commands of the selection. -/
structure IsSelection (closure : List BuildTarget) (indexes : List Nat) (selection : TargetSelection) : Prop where
  closure_nodup : (closure.map (·.id)).Nodup
  closure_iff : ∀ t, t ∈ closure ↔ InClosure configuration selected t
  names : selection.context.closureTargets = sortOn id (closure.map (·.name))
  diagnostics : selection.diagnostics.Perm (closure.flatMap (missingDependencies configuration) ++
    (closure.filter (·.kind = .staticLibrary)).map staticLibraryNote)
  indexes_sorted : indexes.Pairwise (· < ·)
  indexes_lt : ∀ i ∈ indexes, i < commands.length
  indexes_iff : ∀ i, i ∈ indexes ↔ ∃ t ∈ closure, isCompiled t = true ∧
    ∃ source ∈ t.sources, IsChosen commands configuration.name t.name source i
  commands : selection.commands = indexes.map (commandAt commands)

/-- Everything that has to hold for the commands of a target to be selected. -/
structure Selectable (model : BuildModel) (configurationName targetName : Bytes) : Prop where
  configured : selectConfiguration model configurationName = .ok configuration
  targeted : selectTarget configuration targetName = .ok selected
  not_utility : selected.kind ≠ .utility
  nodup : (configuration.targets.map (·.id)).Nodup
  chosen : ∀ t, InClosure configuration selected t → isCompiled t = true →
    ∀ source ∈ t.sources, ∃ i, IsChosen commands configuration.name t.name source i
  nonempty : selected.kind = .interfaceLibrary ∨
    ∃ t, InClosure configuration selected t ∧ isCompiled t = true ∧ t.sources ≠ []

end Selection

section Outcome
variable {configuration : BuildConfiguration} {selected : BuildTarget} {commands : List CompileCommand}
  {model : BuildModel} {configurationName targetName : Bytes}

theorem IsPreferred.lt {name targetName : Bytes} {source : Path} {i : Nat}
    (h : IsPreferred commands name targetName source i) : i < commands.length := by
  rcases h with h | ⟨-, h⟩ | ⟨-, h⟩
  · exact h.1.1.1
  · exact h.1.1
  · exact h.1

theorem selectedIndexes_ok {name : Bytes} {closure : List BuildTarget} {indexes : List Nat}
    (h : selectedIndexes commands name closure = .ok indexes) :
    (∀ t ∈ closure, isCompiled t = true → ∀ source ∈ t.sources, ∃ i, IsChosen commands name t.name source i) ∧
      indexes.Pairwise (· < ·) ∧
      ∀ i, i ∈ indexes ↔ ∃ t ∈ closure, isCompiled t = true ∧
        ∃ source ∈ t.sources, IsChosen commands name t.name source i := by
  obtain ⟨chosen, hchosen, hindexes⟩ := except_bind_ok_iff.1 h
  cases hindexes
  obtain ⟨hall, hmem⟩ := mapM_returned hchosen
  refine ⟨fun t ht hcompiled source hsource => ?_, sortUnique_lt _, fun i => ?_⟩
  · obtain ⟨out, hout⟩ := hall t (List.mem_filter.2 ⟨ht, hcompiled⟩)
    obtain ⟨i, hi⟩ := (mapM_returned hout).1 source hsource
    exact ⟨i, chooseCommand_ok_iff.1 hi⟩
  · rw [mem_sortUnique, List.mem_flatten]
    constructor
    · rintro ⟨out, hout, hi⟩
      obtain ⟨t, ht, hrun⟩ := (hmem out).1 hout
      obtain ⟨source, hsource, hchoose⟩ := ((mapM_returned hrun).2 i).1 hi
      obtain ⟨ht, hcompiled⟩ := List.mem_filter.1 ht
      exact ⟨t, ht, hcompiled, source, hsource, chooseCommand_ok_iff.1 hchoose⟩
    · rintro ⟨t, ht, hcompiled, source, hsource, hchoose⟩
      have ht := List.mem_filter.2 ⟨ht, hcompiled⟩
      obtain ⟨out, hout⟩ := hall t ht
      exact ⟨out, (hmem out).2 ⟨t, ht, hout⟩,
        ((mapM_returned hout).2 i).2 ⟨source, hsource, chooseCommand_ok_iff.2 hchoose⟩⟩

theorem selectedIndexes_returns {name : Bytes} {closure : List BuildTarget}
    (h : ∀ t ∈ closure, isCompiled t = true → ∀ source ∈ t.sources, ∃ i, IsChosen commands name t.name source i) :
    ∃ indexes, selectedIndexes commands name closure = .ok indexes := by
  obtain ⟨chosen, hchosen⟩ := mapM_returns (l := closure.filter isCompiled)
    (f := fun target => target.sources.mapM fun source => chooseCommand commands name target.name source)
    fun t ht => by
      obtain ⟨ht, hcompiled⟩ := List.mem_filter.1 ht
      exact mapM_returns fun source hsource => (h t ht hcompiled source hsource).imp fun _ => chooseCommand_ok_iff.2
  exact ⟨_, except_bind_eq hchosen rfl⟩

theorem selectTarget_mem {t : BuildTarget} (h : selectTarget configuration targetName = .ok t) :
    t ∈ configuration.targets := by
  have hmem : t ∈ configuration.targets.filter (isRequested targetName) := by
    rw [selectTarget_ok_iff.1 h]
    exact List.mem_singleton_self t
  exact (List.mem_filter.1 hmem).1

/-- A command is selected, unless no target of the closure has a source that is compiled. -/
theorem IsSelection.commands_eq_nil {closure : List BuildTarget} {indexes : List Nat} {selection : TargetSelection}
    (h : IsSelection configuration selected commands closure indexes selection)
    (hchosen : ∀ t, InClosure configuration selected t → isCompiled t = true →
      ∀ source ∈ t.sources, ∃ i, IsChosen commands configuration.name t.name source i) :
    indexes.map (commandAt commands) = [] ↔
      ¬ ∃ t, InClosure configuration selected t ∧ isCompiled t = true ∧ t.sources ≠ [] := by
  rw [List.map_eq_nil_iff, List.eq_nil_iff_forall_not_mem]
  simp only [h.indexes_iff, h.closure_iff]
  constructor
  · rintro hnone ⟨t, ht, hcompiled, hsources⟩
    obtain ⟨source, hsource⟩ := List.exists_mem_of_ne_nil _ hsources
    obtain ⟨i, hi⟩ := hchosen t ht hcompiled source hsource
    exact hnone i ⟨t, ht, hcompiled, source, hsource, hi⟩
  · rintro hnone i ⟨t, ht, hcompiled, source, hsource, -⟩
    exact hnone ⟨t, ht, hcompiled, List.ne_nil_of_mem hsource⟩

theorem isSelection (hnodup : (configuration.targets.map (·.id)).Nodup) (hselected : selected ∈ configuration.targets)
    {depth : Nat} {visited : DepthFirst.State BuildTarget Bytes Bytes}
    (hvisited : visitTarget (byId configuration) depth selected = some visited) {indexes : List Nat}
    (hindexes : selectedIndexes commands configuration.name (sortOn (·.name) visited.order) = .ok indexes) :
    IsSelection configuration selected commands (sortOn (·.name) visited.order) indexes
      (targetSelection configuration selected (sortOn (·.name) visited.order) visited.notes
        (indexes.map (commandAt commands))) := by
  obtain ⟨hids, hclosure, hnotes⟩ := visitTarget_spec hnodup hselected hvisited
  obtain ⟨-, hsorted, hmem⟩ := selectedIndexes_ok hindexes
  have hperm : (sortOn (·.name) visited.order).Perm visited.order := sortOn_perm _ _
  refine ⟨(hperm.map _).nodup_iff.2 hids, fun t => by rw [mem_sortOn, hclosure], ?_, ?_, hsorted, fun i hi => ?_, hmem,
    rfl⟩
  · exact (sortOn_of_pairwise id (List.pairwise_map.2 (sortOn_pairwise _ _))).symm
  · refine (sortOn_perm _ _).trans ?_
    exact ((hnotes.trans (hperm.symm.flatMap_right _)).append_right _)
  · obtain ⟨t, -, -, source, -, hchosen⟩ := (hmem i).1 hi
    exact hchosen.1.lt

theorem selectTargetCommands_ok {selection : TargetSelection}
    (h : selectTargetCommands model configurationName targetName commands = .ok selection) :
    ∃ configuration selected closure indexes,
      Selectable configuration selected commands model configurationName targetName ∧
        IsSelection configuration selected commands closure indexes selection := by
  obtain ⟨configuration, hconfiguration, h⟩ := except_bind_ok_iff.1 h
  obtain ⟨selected, hselected, h⟩ := except_bind_ok_iff.1 h
  split at h
  · cases h
  · rename_i hkind
    obtain ⟨index, hindex, h⟩ := except_bind_ok_iff.1 h
    obtain ⟨hnodup, rfl⟩ := indexTargets_ok_iff.1 hindex
    split at h
    · cases h
    · rename_i visited hvisited
      obtain ⟨indexes, hindexes, h⟩ := except_bind_ok_iff.1 h
      have hselection := isSelection hnodup (selectTarget_mem hselected) hvisited hindexes
      have hchosen := (selectedIndexes_ok hindexes).1
      simp only [hselection.closure_iff] at hchosen
      split at h
      · cases h
      · rename_i hcommands
        cases h
        refine ⟨configuration, selected, _, indexes,
          ⟨hconfiguration, hselected, hkind, hnodup, hchosen, ?_⟩, hselection⟩
        rw [hselection.commands_eq_nil hchosen, not_and_or, not_not, not_not] at hcommands
        exact hcommands.symm

theorem Selectable.returns (h : Selectable configuration selected commands model configurationName targetName) :
    ∃ selection, selectTargetCommands model configurationName targetName commands = .ok selection := by
  have hmem := selectTarget_mem h.targeted
  obtain ⟨visited, hvisited⟩ := visitTarget_returns h.nodup hmem
  have hvisited := hvisited _ (Nat.lt_succ_self _)
  obtain ⟨-, hclosure, -⟩ := visitTarget_spec h.nodup hmem hvisited
  obtain ⟨indexes, hindexes⟩ : ∃ indexes,
      selectedIndexes commands configuration.name (sortOn (·.name) visited.order) = .ok indexes :=
    selectedIndexes_returns fun t ht => h.chosen t ((hclosure t).1 ((mem_sortOn _).1 ht))
  have hselection := isSelection h.nodup hmem hvisited hindexes
  have hcommands : ¬ (indexes.map (commandAt commands) = [] ∧ selected.kind ≠ .interfaceLibrary) := by
    rw [hselection.commands_eq_nil h.chosen, not_and_or, not_not, not_not]
    exact h.nonempty.symm
  refine ⟨targetSelection configuration selected (sortOn (·.name) visited.order) visited.notes
    (indexes.map (commandAt commands)), except_bind_eq h.configured (except_bind_eq h.targeted ?_)⟩
  have hindexed : indexTargets configuration.targets = .ok (byId configuration) := indexTargets_ok_iff.2 ⟨h.nodup, rfl⟩
  rw [if_neg h.not_utility]
  refine except_bind_eq hindexed ?_
  simp only [hvisited]
  refine except_bind_eq hindexes ?_
  rw [if_neg hcommands]
  rfl

end Outcome

/-! ## Other orders of the same model -/

structure RearrangedTarget (t t' : BuildTarget) : Prop where
  id : t.id = t'.id
  name : t.name = t'.name
  kind : t.kind = t'.kind
  publicHeaders : t.publicHeaders = t'.publicHeaders
  sources : ∀ source, source ∈ t.sources ↔ source ∈ t'.sources
  dependencies : ∀ dependencyId, dependencyId ∈ t.dependencies ↔ dependencyId ∈ t'.dependencies

/-- Targets permuted, sources and dependencies permuted and repeated. -/
structure RearrangedConfiguration (c c' : BuildConfiguration) : Prop where
  name : c.name = c'.name
  targets : ∃ targets, List.Forall₂ RearrangedTarget c.targets targets ∧ targets.Perm c'.targets

def Rearranged (model model' : BuildModel) : Prop :=
  List.Forall₂ RearrangedConfiguration model.configurations model'.configurations

/-- Both return, with the same commands, closure names and set of diagnostics, or both throw. -/
def SameSelection : Except Exception TargetSelection → Except Exception TargetSelection → Prop
  | .ok s, .ok s' =>
    s.commands = s'.commands ∧ s.context.closureTargets = s'.context.closureTargets ∧
      ∀ diagnostic, diagnostic ∈ s.diagnostics ↔ diagnostic ∈ s'.diagnostics
  | .error _, .error _ => True
  | _, _ => False

section Rearranged
variable {c c' : BuildConfiguration} {selected selected' t t' : BuildTarget} {model model' : BuildModel}
  {commands : List CompileCommand} {configurationName targetName : Bytes}

theorem RearrangedTarget.symm (h : RearrangedTarget t t') : RearrangedTarget t' t :=
  ⟨h.id.symm, h.name.symm, h.kind.symm, h.publicHeaders.symm, fun s => (h.sources s).symm,
    fun d => (h.dependencies d).symm⟩

theorem RearrangedConfiguration.symm (h : RearrangedConfiguration c c') : RearrangedConfiguration c' c := by
  obtain ⟨targets, htargets, hperm⟩ := h.targets
  have hback : List.Forall₂ RearrangedTarget targets c.targets :=
    (List.Forall₂.flip htargets).imp fun _ _ h => h.symm
  obtain ⟨targets', hfirst, hsecond⟩ := List.perm_comp_forall₂ hperm.symm hback
  exact ⟨h.name.symm, targets', hfirst, hsecond⟩

theorem Rearranged.symm (h : Rearranged model model') : Rearranged model' model :=
  (List.Forall₂.flip h).imp fun _ _ h => h.symm

/-- Every target stands in the other configuration too. -/
theorem RearrangedConfiguration.target (h : RearrangedConfiguration c c') (ht : t ∈ c.targets) :
    ∃ t' ∈ c'.targets, RearrangedTarget t t' := by
  obtain ⟨targets, htargets, hperm⟩ := h.targets
  obtain ⟨i, hi, rfl⟩ := List.mem_iff_getElem.1 ht
  have hlt : i < targets.length := htargets.length_eq ▸ hi
  exact ⟨targets[i], hperm.mem_iff.1 (List.getElem_mem hlt), htargets.get hi hlt⟩

theorem RearrangedConfiguration.ids (h : RearrangedConfiguration c c') :
    (c.targets.map (·.id)).Perm (c'.targets.map (·.id)) := by
  obtain ⟨targets, htargets, hperm⟩ := h.targets
  have heq : c.targets.map (·.id) = targets.map (·.id) := by
    rw [← List.forall₂_eq_eq_eq, List.forall₂_map_left_iff, List.forall₂_map_right_iff]
    exact htargets.imp fun _ _ h => h.id
  rw [heq]
  exact hperm.map _

theorem Rearranged.selectConfiguration (h : Rearranged model model')
    (hc : selectConfiguration model configurationName = .ok c) :
    ∃ c', CxxDead.selectConfiguration model' configurationName = .ok c' ∧ RearrangedConfiguration c c' := by
  unfold Rearranged at h
  unfold CxxDead.selectConfiguration at hc ⊢
  split at hc
  · rename_i hname
    rw [if_pos hname]
    generalize model.configurations = l at h hc
    generalize model'.configurations = l' at h
    induction h with
    | nil => cases hc
    | @cons a b l l' hab _ ih =>
      by_cases ha : a.name = configurationName
      · have hb : b.name = configurationName := hab.name ▸ ha
        simp only [List.find?_cons, ha, beq_self_eq_true] at hc
        cases hc
        exact ⟨b, by simp only [List.find?_cons, hb, beq_self_eq_true], hab⟩
      · have hb : ¬ b.name = configurationName := hab.name ▸ ha
        simp only [List.find?_cons, beq_eq_false_iff_ne.2 ha] at hc
        simp only [List.find?_cons, beq_eq_false_iff_ne.2 hb]
        exact ih hc
  · rename_i hname
    rw [if_neg hname]
    generalize model.configurations = l at h hc
    generalize model'.configurations = l' at h
    cases h with
    | nil => cases hc
    | @cons a b l l' hab hrest =>
      cases hrest with
      | nil =>
        cases hc
        exact ⟨b, rfl, hab⟩
      | cons _ _ => cases hc

theorem RearrangedConfiguration.selectTarget (h : RearrangedConfiguration c c')
    (ht : selectTarget c targetName = .ok t) :
    ∃ t', CxxDead.selectTarget c' targetName = .ok t' ∧ RearrangedTarget t t' := by
  obtain ⟨targets, htargets, hperm⟩ := h.targets
  rw [selectTarget_ok_iff] at ht
  have hfilter := List.rel_filter (p := isRequested targetName) (q := isRequested targetName)
    (fun a b hab => by simp only [isRequested, hab.id, hab.name, hab.kind]) htargets
  rw [ht] at hfilter
  obtain ⟨t', rest, htt', hrest, hl⟩ := List.forall₂_cons_left_iff.1 hfilter
  rw [List.forall₂_nil_left_iff.1 hrest] at hl
  refine ⟨t', selectTarget_ok_iff.2 (List.perm_singleton.1 ?_), htt'⟩
  rw [← hl]
  exact (hperm.filter _).symm

theorem InClosure.rearranged (h : InClosure c selected t) (hc : RearrangedConfiguration c c')
    (hselected : RearrangedTarget selected selected') : ∃ t', InClosure c' selected' t' ∧ RearrangedTarget t t' := by
  induction h with
  | refl => exact ⟨selected', .refl, hselected⟩
  | tail _ hstep ih =>
    obtain ⟨a', ha', haa'⟩ := ih
    obtain ⟨b', hb', hbb'⟩ := hc.target hstep.1
    exact ⟨b', ha'.tail ⟨hb', hbb'.id ▸ (haa'.dependencies _).1 hstep.2⟩, hbb'⟩

theorem Selectable.rearranged (h : Selectable c selected commands model configurationName targetName)
    (hmodel : Rearranged model model') :
    ∃ c' selected', Selectable c' selected' commands model' configurationName targetName ∧
      RearrangedConfiguration c c' ∧ RearrangedTarget selected selected' := by
  obtain ⟨c', hc', hcc'⟩ := hmodel.selectConfiguration h.configured
  obtain ⟨selected', hselected', hss'⟩ := hcc'.selectTarget h.targeted
  refine ⟨c', selected', ⟨hc', hselected', hss'.kind ▸ h.not_utility, hcc'.ids.nodup_iff.1 h.nodup, ?_, ?_⟩, hcc', hss'⟩
  · intro t' ht' hcompiled source hsource
    obtain ⟨t, ht, htt'⟩ := ht'.rearranged hcc'.symm hss'.symm
    have hcompiled : isCompiled t = true := by rwa [isCompiled, ← htt'.kind]
    obtain ⟨i, hi⟩ := h.chosen t ht hcompiled source ((htt'.sources source).1 hsource)
    exact ⟨i, by rwa [← hcc'.name, htt'.name]⟩
  · rcases h.nonempty with hkind | ⟨t, ht, hcompiled, hsources⟩
    · exact .inl (hss'.kind ▸ hkind)
    · obtain ⟨t', ht', htt'⟩ := ht.rearranged hcc' hss'
      obtain ⟨source, hsource⟩ := List.exists_mem_of_ne_nil _ hsources
      exact .inr ⟨t', ht', by rwa [isCompiled, ← htt'.kind], List.ne_nil_of_mem ((htt'.sources source).1 hsource)⟩

section Agree
variable {closure closure' : List BuildTarget} {indexes indexes' : List Nat} {selection selection' : TargetSelection}

theorem IsSelection.mem_diagnostics (h : IsSelection c selected commands closure indexes selection) {d : Bytes} :
    d ∈ selection.diagnostics ↔
      (∃ t ∈ closure, ∃ id ∈ t.dependencies, id ∉ c.targets.map (·.id) ∧ missingDependency t id = d) ∨
        ∃ t ∈ closure, t.kind = .staticLibrary ∧ staticLibraryNote t = d := by
  rw [h.diagnostics.mem_iff, List.mem_append, List.mem_flatMap]
  simp only [missingDependencies, List.mem_map, List.mem_filter, decide_eq_true_eq, and_assoc]

/-- Everything of one selection is in that of the rearranged model. -/
theorem IsSelection.subset (h : IsSelection c selected commands closure indexes selection)
    (h' : IsSelection c' selected' commands closure' indexes' selection') (hc : RearrangedConfiguration c c')
    (hselected : RearrangedTarget selected selected') :
    indexes ⊆ indexes' ∧ selection.diagnostics ⊆ selection'.diagnostics ∧
      closure.map (fun t => (t.id, t.name)) ⊆ closure'.map (fun t => (t.id, t.name)) := by
  have hclosure : ∀ t ∈ closure, ∃ t' ∈ closure', RearrangedTarget t t' := fun t ht => by
    obtain ⟨t', ht', htt'⟩ := ((h.closure_iff t).1 ht).rearranged hc hselected
    exact ⟨t', (h'.closure_iff t').2 ht', htt'⟩
  refine ⟨fun i hi => ?_, fun d hd => ?_, fun p hp => ?_⟩
  · obtain ⟨t, ht, hcompiled, source, hsource, hchosen⟩ := (h.indexes_iff i).1 hi
    obtain ⟨t', ht', htt'⟩ := hclosure t ht
    exact (h'.indexes_iff i).2 ⟨t', ht', by rwa [isCompiled, ← htt'.kind], source, (htt'.sources source).1 hsource,
      by rwa [← hc.name, ← htt'.name]⟩
  · rcases h.mem_diagnostics.1 hd with ⟨t, ht, id, hid, hmissing, rfl⟩ | ⟨t, ht, hkind, rfl⟩
    · obtain ⟨t', ht', htt'⟩ := hclosure t ht
      refine h'.mem_diagnostics.2 (.inl ⟨t', ht', id, (htt'.dependencies id).1 hid, ?_, ?_⟩)
      · rwa [← hc.ids.mem_iff]
      · rw [missingDependency, missingDependency, htt'.name]
    · obtain ⟨t', ht', htt'⟩ := hclosure t ht
      exact h'.mem_diagnostics.2 (.inr ⟨t', ht', htt'.kind ▸ hkind, by rw [staticLibraryNote, staticLibraryNote, htt'.name]⟩)
  · obtain ⟨t, ht, rfl⟩ := List.mem_map.1 hp
    obtain ⟨t', ht', htt'⟩ := hclosure t ht
    exact List.mem_map.2 ⟨t', ht', by rw [htt'.id, htt'.name]⟩

theorem IsSelection.sameSelection (h : IsSelection c selected commands closure indexes selection)
    (h' : IsSelection c' selected' commands closure' indexes' selection') (hc : RearrangedConfiguration c c')
    (hselected : RearrangedTarget selected selected') : SameSelection (.ok selection) (.ok selection') := by
  obtain ⟨hindexes, hdiagnostics, hnames⟩ := h.subset h' hc hselected
  obtain ⟨hindexes', hdiagnostics', hnames'⟩ := h'.subset h hc.symm hselected.symm
  have heq : indexes = indexes' :=
    eq_of_lt_of_mem h.indexes_sorted h'.indexes_sorted fun i => ⟨fun hi => hindexes hi, fun hi => hindexes' hi⟩
  have hnodup : ∀ {l : List BuildTarget}, (l.map (·.id)).Nodup → (l.map fun t => (t.id, t.name)).Nodup := fun hl =>
    List.Nodup.of_map Prod.fst (by rwa [List.map_map])
  have hperm : (closure.map (·.name)).Perm (closure'.map (·.name)) := by
    have hpairs := (List.perm_ext_iff_of_nodup (hnodup h.closure_nodup) (hnodup h'.closure_nodup)).2 fun p =>
      ⟨fun hp => hnames hp, fun hp => hnames' hp⟩
    simpa only [List.map_map, Function.comp_def] using hpairs.map Prod.snd
  refine ⟨by rw [h.commands, h'.commands, heq], ?_, fun d => ⟨fun hd => hdiagnostics hd, fun hd => hdiagnostics' hd⟩⟩
  rw [h.names, h'.names]
  exact sortOn_perm_eq id hperm fun _ _ _ _ h => h

end Agree

theorem selectTargetCommands_rearranged (hmodel : Rearranged model model') :
    SameSelection (selectTargetCommands model configurationName targetName commands)
      (selectTargetCommands model' configurationName targetName commands) := by
  cases h : selectTargetCommands model configurationName targetName commands with
  | ok selection =>
    obtain ⟨c, selected, closure, indexes, hselectable, hselection⟩ := selectTargetCommands_ok h
    obtain ⟨c', selected', hselectable', hc, hselected⟩ := hselectable.rearranged hmodel
    obtain ⟨selection', h'⟩ := hselectable'.returns
    obtain ⟨d', other', closure', indexes', hother, hselection'⟩ := selectTargetCommands_ok h'
    obtain rfl : c' = d' := Except.ok.inj (hselectable'.configured.symm.trans hother.configured)
    obtain rfl : selected' = other' := Except.ok.inj (hselectable'.targeted.symm.trans hother.targeted)
    rw [h']
    exact hselection.sameSelection hselection' hc hselected
  | error e =>
    cases h' : selectTargetCommands model' configurationName targetName commands with
    | ok selection' =>
      obtain ⟨c', selected', _, _, hselectable', -⟩ := selectTargetCommands_ok h'
      obtain ⟨c, selected, hselectable, -, -⟩ := hselectable'.rearranged hmodel.symm
      obtain ⟨selection, hok⟩ := hselectable.returns
      rw [h] at hok
      cases hok
    | error e' => trivial

end Rearranged

/-! ## The whole function -/

/-- A source of the closure has no command, or preferred commands that differ. -/
def HasUnusableSource (configuration : BuildConfiguration) (selected : BuildTarget) (commands : List CompileCommand) : Prop :=
  ∃ t, InClosure configuration selected t ∧ isCompiled t = true ∧ ∃ source ∈ t.sources,
    (¬ ∃ i, CompilesSource commands source i) ∨
      ∃ i j, IsPreferred commands configuration.name t.name source i ∧
        IsPreferred commands configuration.name t.name source j ∧
          ¬ SameCommand (commandAt commands i) (commandAt commands j)

/-- What `select_target_commands` returns, when it throws over a source, that it does not depend on the order of
targets, sources and dependencies, and that its recursion ends. -/
theorem selectTargetCommands_spec (model : BuildModel) (configurationName targetName : Bytes)
    (commands : List CompileCommand) :
    (∀ selection, selectTargetCommands model configurationName targetName commands = .ok selection →
      ∃ configuration selected closure indexes, selectConfiguration model configurationName = .ok configuration ∧
        selectTarget configuration targetName = .ok selected ∧
          IsSelection configuration selected commands closure indexes selection) ∧
    (∀ configuration selected, selectConfiguration model configurationName = .ok configuration →
      selectTarget configuration targetName = .ok selected → HasUnusableSource configuration selected commands →
        ∃ e, selectTargetCommands model configurationName targetName commands = .error e) ∧
    (∀ model', Rearranged model model' →
      SameSelection (selectTargetCommands model configurationName targetName commands)
        (selectTargetCommands model' configurationName targetName commands)) ∧
    (∀ configuration selected, selectTarget configuration targetName = .ok selected →
      (configuration.targets.map (·.id)).Nodup →
        ∃ visited, ∀ depth > configuration.targets.length,
          visitTarget (byId configuration) depth selected = some visited) := by
  refine ⟨fun selection h => ?_, fun configuration selected hconfiguration hselected hunusable => ?_,
    fun model' => selectTargetCommands_rearranged, fun configuration selected hselected hnodup =>
      visitTarget_returns hnodup (selectTarget_mem hselected)⟩
  · obtain ⟨configuration, selected, closure, indexes, hselectable, hselection⟩ := selectTargetCommands_ok h
    exact ⟨configuration, selected, closure, indexes, hselectable.configured, hselectable.targeted, hselection⟩
  · cases h : selectTargetCommands model configurationName targetName commands with
    | error e => exact ⟨e, rfl⟩
    | ok selection =>
      obtain ⟨c, other, _, _, hselectable, -⟩ := selectTargetCommands_ok h
      obtain rfl : c = configuration := Except.ok.inj (hselectable.configured.symm.trans hconfiguration)
      obtain rfl : other = selected := Except.ok.inj (hselectable.targeted.symm.trans hselected)
      obtain ⟨t, ht, hcompiled, source, hsource, hbad⟩ := hunusable
      obtain ⟨hsome, halike⟩ := exists_isChosen.1 (hselectable.chosen t ht hcompiled source hsource)
      rcases hbad with hnone | ⟨i, j, hi, hj, hdiffer⟩
      · exact absurd hsome hnone
      · exact absurd (halike i j hi hj) hdiffer

/-- Two libraries that depend on each other and on one that is missing. -/
def cyclicModel : BuildModel :=
  { configurations := [
      { targets := [
          { id := lit "1", name := lit "app", kind := .executable, sources := [⟨lit "/a.cpp"⟩], dependencies := [lit "2"] },
          { id := lit "2", name := lit "lib", kind := .sharedLibrary, sources := [⟨lit "/b.cpp"⟩]
            dependencies := [lit "1", lit "3"] }] }] }

example : (selectTargetCommands cyclicModel [] [] [{ file := ⟨lit "/b.cpp"⟩ }, {}, { file := ⟨lit "//a.cpp"⟩ }]).map
    (fun s => (s.context.closureTargets, s.commands.map (·.file.text), s.diagnostics)) =
      .ok ([lit "app", lit "lib"], [lit "/b.cpp", lit "//a.cpp"],
        [lit "build metadata omits dependency target 3 referenced by lib"]) := by decide

end CxxDead
