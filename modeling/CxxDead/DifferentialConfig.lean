import CxxDead.Files
import CxxDead.Differential
import CxxDead.Yaml
/-!
# Differential policy files

`loadDifferentialPolicy` reads the YAML file that configures the gate.

- `loadDifferentialPolicy_accepts`: it accepts exactly the documents that describe
  a policy, and returns what they describe.
-/

namespace CxxDead

open Lib Yaml

/-- A policy with the file that it was read from. -/
structure DifferentialConfig extends DifferentialPolicy where
  source : Path := {}

def differentialPolicySchemaVersion : Int := 2

/-! ## The reader -/

namespace Differential

/-- One turn of the loop of `parse_policy_enum_list`; `result` are the values before. -/
def parseEnumItem {α : Type} [DecidableEq α] (key : String) (path : Path) (parse : Bytes → Except Exception α)
    (result : List α) (item : Node × Nat) : Except Exception (List α) :=
  match item.1 with
  | .scalar value => do
    let parsed ← parse value
    if parsed ∈ result then
      .error (.runtimeError (contextAt path (lit key) ++ lit " contains duplicate value '" ++ value ++ lit "'"))
    else .ok (result ++ [parsed])
  | _ => .error (.runtimeError (contextAt path (itemContext key item.2 ++ lit " must be a string")))

def parseEnumList {α : Type} [DecidableEq α] (root : Node) (key : String) (path : Path)
    (parse : Bytes → Except Exception α) : Except Exception (List α) :=
  match root.find key with
  | none => .ok []
  | some (.sequence items) =>
    if items = [] then .error (.runtimeError (contextAt path (lit key) ++ lit " must be a non-empty sequence"))
    else items.zipIdx.foldlM (parseEnumItem key path parse) []
  | some _ => .error (.runtimeError (contextAt path (lit key) ++ lit " must be a non-empty sequence"))

def parseClassification (path : Path) (value : Bytes) : Except Exception Classification :=
  if value = lit "dead" then .ok .dead
  else if value = lit "likely_dead" then .ok .likelyDead
  else if value = lit "possibly_dead" then .ok .possiblyDead
  else if value = lit "dynamically_referenced" then .ok .dynamicallyReferenced
  else .error (.runtimeError (contextAt path (lit "classifications") ++ lit " contains unsupported value '" ++ value ++
    lit "'"))

def parsePolicyChange (path : Path) (value : Bytes) : Except Exception ChangeKind :=
  if value = lit "new_symbol" then .ok .newSymbol
  else if value = lit "newly_unreachable" then .ok .newlyUnreachable
  else .error (.runtimeError (contextAt path (lit "changes") ++ lit " contains unsupported value '" ++ value ++ lit "'"))

/-- One turn of the loop over the targets. -/
def parseTarget (path : Path) (targets : List Bytes) (item : Node) : Except Exception (List Bytes) :=
  match item with
  | .scalar target =>
    if target = [] then .error (.runtimeError (contextAt path (lit "targets") ++ lit " entries cannot be empty"))
    else if target ∈ targets then
      .error (.runtimeError (contextAt path (lit "targets") ++ lit " contains duplicate value '" ++ target ++ lit "'"))
    else .ok (targets ++ [target])
  | _ => .error (.runtimeError (contextAt path (lit "targets") ++ lit " entries must be strings"))

def parseTargets (root : Node) (path : Path) : Except Exception (List Bytes) :=
  match root.find "targets" with
  | none => .ok []
  | some (.sequence items) =>
    if items = [] then .error (.runtimeError (contextAt path (lit "targets") ++ lit " must be a non-empty sequence"))
    else items.foldlM (parseTarget path) []
  | some _ => .error (.runtimeError (contextAt path (lit "targets") ++ lit " must be a non-empty sequence"))

/-- A list that keeps its default where the document does not give it. -/
def orDefault {α : Type} (root : Node) (key : String) (default : List α) (parse : Except Exception (List α)) :
    Except Exception (List α) :=
  if (root.find key).isSome then parse else .ok default

end Differential

open CxxDead.Differential in
def loadDifferentialPolicy (reader : Reader) (files : Files) (path : Path) : Except Exception DifferentialConfig := do
  let root ← loadFile reader path
  requireMapping root ["schema_version", "changes", "classifications", "targets"] path (lit "document")
  let version ← schemaVersion reader root path
  if version ≠ differentialPolicySchemaVersion then
    .error (.runtimeError (path.text ++ lit ": unsupported differential schema_version " ++ integerText version))
  else
    let source ← files.absoluteNormal path
    let defaults : DifferentialPolicy := {}
    let changes ← orDefault root "changes" defaults.changes (parseEnumList root "changes" path (parsePolicyChange path))
    let classifications ← orDefault root "classifications" defaults.classifications
      (parseEnumList root "classifications" path (parseClassification path))
    let targets ← parseTargets root path
    pure { source, changes, classifications, targets }

/-! ## Documents -/

/-- The list is its default where the document does not give it, and otherwise the
different values of a nonempty sequence. -/
def ChosenAt {α : Type} (root : Node) (key : String) (toText : α → Bytes) (default l : List α) : Prop :=
  (root.find key = none ∧ l = default) ∨
    (root.find key = some (.sequence (l.map fun a => .scalar (toText a))) ∧ l ≠ [] ∧ l.Nodup)

/-- The changes that a policy may name. -/
def ChangeKind.IsDebt (kind : ChangeKind) : Prop := kind = .newSymbol ∨ kind = .newlyUnreachable

structure PolicyAt (reader : Reader) (root : Node) (policy : DifferentialPolicy) : Prop where
  mapping : IsMapping ["schema_version", "changes", "classifications", "targets"] root
  version : ∃ field, root.find "schema_version" = some field ∧ field.convert reader.toInt = some 2
  changes : ChosenAt root "changes" ChangeKind.toText [.newSymbol, .newlyUnreachable] policy.changes
  debt : ∀ kind ∈ policy.changes, kind.IsDebt
  classifications : ChosenAt root "classifications" Classification.toText
    [.dead, .likelyDead, .possiblyDead, .dynamicallyReferenced] policy.classifications
  targets : ChosenAt root "targets" id [] policy.targets
  named : ∀ target ∈ policy.targets, target ≠ []

/-! ## What the reader accepts -/

namespace Differential

variable {root : Node} {path : Path} {key : String}

theorem parseClassification_ok_iff {value : Bytes} {classification : Classification} :
    parseClassification path value = .ok classification ↔ value = classification.toText := by
  unfold parseClassification
  constructor
  · intro h
    split at h
    · cases h
      assumption
    split at h
    · cases h
      assumption
    split at h
    · cases h
      assumption
    split at h
    · cases h
      assumption
    · cases h
  · rintro rfl
    cases classification <;> rfl

theorem parsePolicyChange_ok_iff {value : Bytes} {kind : ChangeKind} :
    parsePolicyChange path value = .ok kind ↔ value = kind.toText ∧ kind.IsDebt := by
  unfold parsePolicyChange ChangeKind.IsDebt
  constructor
  · intro h
    split at h
    · cases h
      exact ⟨by assumption, .inl rfl⟩
    split at h
    · cases h
      exact ⟨by assumption, .inr rfl⟩
    · cases h
  · rintro ⟨rfl, rfl | rfl⟩ <;> rfl

theorem parseEnumItem_ok_iff {α : Type} [DecidableEq α] {parse : Bytes → Except Exception α} {toText : α → Bytes}
    {ok : α → Prop} (hparse : ∀ value a, parse value = .ok a ↔ value = toText a ∧ ok a) {result l : List α}
    {item : Node × Nat} :
    parseEnumItem key path parse result item = .ok l ↔
      ∃ a, (item.1 = .scalar (toText a) ∧ ok a) ∧ a ∉ result ∧ l = result ++ [a] := by
  obtain ⟨node, i⟩ := item
  unfold parseEnumItem
  cases node with
  | scalar value =>
    simp only [except_bind_ok_iff, hparse, Node.scalar.injEq]
    refine exists_congr fun a => and_congr_right fun _ => ?_
    split
    · rename_i hseen
      simp [hseen]
    · rename_i hnew
      simp [hnew, eq_comm]
  | null | sequence | mapping => simp

theorem parseEnumList_ok_iff {α : Type} [DecidableEq α] {parse : Bytes → Except Exception α} {toText : α → Bytes}
    {ok : α → Prop} (hparse : ∀ value a, parse value = .ok a ↔ value = toText a ∧ ok a) {default l : List α}
    (hdefault : ∀ a ∈ default, ok a) :
    orDefault root key default (parseEnumList root key path parse) = .ok l ↔
      ChosenAt root key toText default l ∧ ∀ a ∈ l, ok a := by
  unfold orDefault parseEnumList ChosenAt
  cases hfind : root.find key with
  | none =>
    simp only [Option.isSome_none, Bool.false_eq_true, if_false, Except.ok.injEq, true_and, reduceCtorEq, false_and,
      or_false]
    constructor
    · rintro rfl
      exact ⟨rfl, hdefault⟩
    · rintro ⟨rfl, -⟩
      rfl
  | some field =>
    cases field with
    | sequence items =>
      simp only [Option.isSome_some, if_true, reduceCtorEq, false_and, false_or, Option.some.injEq, Node.sequence.injEq]
      -- an empty list is refused before the loop
      by_cases hempty : items = []
      · rw [if_pos hempty, hempty]
        constructor
        · exact fun h => absurd h (by simp)
        · rintro ⟨⟨hnil, hne, -⟩, -⟩
          exact absurd (List.map_eq_nil_iff.1 hnil.symm) hne
      · rw [if_neg hempty, foldlM_distinct_ok_iff (by exact fun _ _ _ => parseEnumItem_ok_iff hparse)]
        simp only [List.not_mem_nil, not_false_eq_true, implies_true, true_and, List.nil_append]
        have hnumbered : ∀ more, List.Forall₂ (fun item a => item.1 = Node.scalar (toText a) ∧ ok a) items.zipIdx more ↔
            items = more.map (fun a => .scalar (toText a)) ∧ ∀ a ∈ more, ok a := fun more =>
          (@forall₂_zipIdx_iff _ _ (fun node a => node = Node.scalar (toText a) ∧ ok a) _ _ 0).trans forall₂_eq_map
        simp only [hnumbered]
        constructor
        · rintro ⟨_, ⟨hitems, hok⟩, hnodup, rfl⟩
          refine ⟨⟨hitems, ?_, hnodup⟩, hok⟩
          rintro rfl
          exact hempty hitems
        · rintro ⟨⟨hitems, -, hnodup⟩, hok⟩
          exact ⟨_, ⟨hitems, hok⟩, hnodup, rfl⟩
    | null | scalar | mapping => simp

theorem parseTarget_ok_iff {targets l : List Bytes} {item : Node} :
    parseTarget path targets item = .ok l ↔
      ∃ target, (item = .scalar target ∧ target ≠ []) ∧ target ∉ targets ∧ l = targets ++ [target] := by
  unfold parseTarget
  cases item with
  | scalar text =>
    simp only [Node.scalar.injEq]
    by_cases hempty : text = []
    · simp [hempty]
    · by_cases hseen : text ∈ targets
      · simp [hempty, hseen]
      · simp [hempty, hseen, eq_comm]
  | null | sequence | mapping => simp

theorem parseTargets_ok_iff {l : List Bytes} :
    parseTargets root path = .ok l ↔ ChosenAt root "targets" id [] l ∧ ∀ target ∈ l, target ≠ [] := by
  unfold parseTargets ChosenAt
  cases hfind : root.find "targets" with
  | none =>
    simp only [Except.ok.injEq, true_and, reduceCtorEq, false_and, or_false]
    constructor
    · rintro rfl
      exact ⟨rfl, List.forall_mem_nil _⟩
    · rintro ⟨rfl, -⟩
      rfl
  | some field =>
    cases field with
    | sequence items =>
      simp only [reduceCtorEq, false_and, false_or, Option.some.injEq, Node.sequence.injEq, id]
      by_cases hempty : items = []
      · rw [if_pos hempty, hempty]
        constructor
        · exact fun h => absurd h (by simp)
        · rintro ⟨⟨hnil, hne, -⟩, -⟩
          exact absurd (List.map_eq_nil_iff.1 hnil.symm) hne
      · rw [if_neg hempty, foldlM_distinct_ok_iff (by exact fun _ _ _ => parseTarget_ok_iff)]
        simp only [List.not_mem_nil, not_false_eq_true, implies_true, true_and, List.nil_append, forall₂_eq_map]
        constructor
        · rintro ⟨_, ⟨hitems, hnamed⟩, hnodup, rfl⟩
          refine ⟨⟨hitems, ?_, hnodup⟩, hnamed⟩
          rintro rfl
          exact hempty hitems
        · rintro ⟨⟨hitems, -, hnodup⟩, hnamed⟩
          exact ⟨_, ⟨hitems, hnamed⟩, hnodup, rfl⟩
    | null | scalar | mapping => simp

end Differential

/-- The lists of a policy: what a policy that is read satisfies. -/
structure DifferentialPolicy.Valid (policy : DifferentialPolicy) : Prop where
  changes : policy.changes ≠ [] ∧ policy.changes.Nodup ∧ ∀ kind ∈ policy.changes, kind.IsDebt
  classifications : policy.classifications ≠ [] ∧ policy.classifications.Nodup
  targets : policy.targets.Nodup ∧ ∀ target ∈ policy.targets, target ≠ []

theorem PolicyAt.valid {reader : Reader} {root : Node} {policy : DifferentialPolicy} (h : PolicyAt reader root policy) :
    policy.Valid := by
  refine ⟨?_, ?_, ?_, h.named⟩
  · rcases h.changes with ⟨-, heq⟩ | ⟨-, hne, hnodup⟩
    · rw [heq]
      exact ⟨by decide, by decide, heq ▸ h.debt⟩
    · exact ⟨hne, hnodup, h.debt⟩
  · rcases h.classifications with ⟨-, heq⟩ | ⟨-, hchosen⟩
    · rw [heq]
      exact ⟨by decide, by decide⟩
    · exact hchosen
  · rcases h.targets with ⟨-, heq⟩ | ⟨-, -, hnodup⟩
    · rw [heq]
      exact List.nodup_nil
    · exact hnodup

open CxxDead.Differential in
theorem loadDifferentialPolicy_ok_iff (reader : Reader) (files : Files) (path : Path) (config : DifferentialConfig) :
    loadDifferentialPolicy reader files path = .ok config ↔
      ∃ root, reader.loadFile path.text = .ok root ∧ PolicyAt reader root config.toDifferentialPolicy ∧
        files.absoluteNormal path = .ok config.source := by
  unfold loadDifferentialPolicy
  simp only [except_bind_ok_iff, loadFile_ok_iff, requireMapping_ok_iff, exists_const, schemaVersion_ok_iff]
  refine exists_congr fun root => and_congr_right fun _ => ?_
  have hchanges := fun l => @parseEnumList_ok_iff root path "changes" _ _ (parsePolicyChange path) ChangeKind.toText
    ChangeKind.IsDebt (fun _ _ => parsePolicyChange_ok_iff) [.newSymbol, .newlyUnreachable] l
    (by simp [ChangeKind.IsDebt])
  have hclassifications := fun l => @parseEnumList_ok_iff root path "classifications" _ _ (parseClassification path)
    Classification.toText (fun _ => True) (fun _ _ => parseClassification_ok_iff.trans (and_iff_left trivial).symm)
    [.dead, .likelyDead, .possiblyDead, .dynamicallyReferenced] l (fun _ _ => trivial)
  constructor
  · rintro ⟨hmapping, version, ⟨field, hfield, hversion⟩, h⟩
    split at h
    · cases h
    rename_i hsupported
    simp only [except_bind_ok_iff, hchanges, hclassifications, parseTargets_ok_iff, pure, Except.pure,
      Except.ok.injEq] at h
    obtain ⟨source, hsource, changes, ⟨hchanges, hdebt⟩, classifications, ⟨hclassifications, -⟩, targets,
      ⟨htargets, hnamed⟩, rfl⟩ := h
    rw [not_not.1 hsupported] at hversion
    exact ⟨⟨hmapping, ⟨field, hfield, hversion⟩, hchanges, hdebt, hclassifications, htargets, hnamed⟩, hsource⟩
  · rintro ⟨⟨hmapping, ⟨field, hfield, hversion⟩, hchanges', hdebt, hclassifications', htargets, hnamed⟩, hsource⟩
    refine ⟨hmapping, 2, ⟨field, hfield, hversion⟩, ?_⟩
    rw [if_neg (by decide)]
    simp only [except_bind_ok_iff, hchanges, hclassifications, parseTargets_ok_iff, pure, Except.pure,
      Except.ok.injEq]
    exact ⟨_, hsource, _, ⟨hchanges', hdebt⟩, _, ⟨hclassifications', fun _ _ => trivial⟩, _, ⟨htargets, hnamed⟩, rfl⟩

/-- Exactly the documents that describe a policy are read, and as what they describe;
what is read is valid. -/
theorem loadDifferentialPolicy_accepts (reader : Reader) (files : Files) (path : Path) (config : DifferentialConfig) :
    (loadDifferentialPolicy reader files path = .ok config ↔
      ∃ root, reader.loadFile path.text = .ok root ∧ PolicyAt reader root config.toDifferentialPolicy ∧
        files.absoluteNormal path = .ok config.source) ∧
    (loadDifferentialPolicy reader files path = .ok config → config.toDifferentialPolicy.Valid) := by
  have hiff := loadDifferentialPolicy_ok_iff reader files path config
  refine ⟨hiff, fun h => ?_⟩
  obtain ⟨root, -, hat, -⟩ := hiff.1 h
  exact hat.valid

end CxxDead
