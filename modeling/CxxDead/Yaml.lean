import CxxDead.Graph
import CxxDead.Path
import CxxDead.Lib.Distinct
/-!
# YAML documents

The nodes of a parsed document, and the checks that the readers of provider
configurations and differential policies share. Reading a file and converting a
scalar to an integer are the library's and left open; how it finds a key in a
mapping, and which nodes it converts at all, is assumed in `Node.find` and `Node.convert`.

- `requireMapping_ok_iff`: a checked mapping names each of its keys once, and only known ones.
- `parseItems_ok_iff`: a checked sequence is read item by item.
-/

namespace CxxDead.Yaml

open Lib

/-- A node of a document. An absent node is `none`. -/
inductive Node where
  | null
  | scalar (text : Bytes)
  | sequence (items : List Node)
  | mapping (entries : List (Node × Node))

/-- What the readers use of the YAML library: `LoadFile`, with the text of its
exception, and the conversions of a scalar. -/
structure Reader where
  loadFile : Bytes → Except Bytes Node
  toInt : Bytes → Option Int
  toSize : Bytes → Option UInt64

namespace Node

def isKey (key : Bytes) : Node → Bool
  | scalar text => text == key
  | _ => false

/-- `node[key]` of a mapping. That the library takes the first scalar key with these
bytes, and finds nothing where there is none, is an assumption about it. -/
def find (node : Node) (key : String) : Option Node :=
  match node with
  | mapping entries => (entries.find? fun entry => entry.1.isKey (lit key)).map (·.2)
  | _ => none

/-- `node.as<T>()` for an integer type. That the library converts the text of a scalar
and refuses every other node is an assumption about it. -/
def convert {α : Type} (parse : Bytes → Option α) : Node → Option α
  | scalar text => parse text
  | _ => none

end Node

/-! ## Checks -/

/-- `context_at` and `policy_context`. -/
def contextAt (path : Path) (context : Bytes) : Bytes := path.text ++ lit ": " ++ context

/-- One turn of the loop over the keys of a mapping; `seen` are the keys before. -/
def checkKey (allowed : List String) (about : Bytes) (seen : List Bytes) (key : Node) : Except Exception (List Bytes) :=
  match key with
  | .scalar key =>
    if key ∉ allowed.map lit then
      .error (.runtimeError (about ++ lit " contains unknown key '" ++ key ++ lit "'"))
    else if key ∈ seen then
      .error (.runtimeError (about ++ lit " contains duplicate key '" ++ key ++ lit "'"))
    else .ok (seen ++ [key])
  | _ => .error (.runtimeError (about ++ lit " contains a non-scalar key"))

/-- `require_mapping` and `require_policy_mapping`. -/
def requireMapping (node : Node) (allowed : List String) (path : Path) (context : Bytes) : Except Exception Unit :=
  match node with
  | .mapping entries => do
    let _ ← (entries.map (·.1)).foldlM (checkKey allowed (contextAt path context)) []
  | _ => .error (.runtimeError (contextAt path context ++ lit " must be a mapping"))

def requireNode (mapping : Node) (key : String) (path : Path) (context : Bytes) : Except Exception Node :=
  match mapping.find key with
  | some node => .ok node
  | none => .error (.runtimeError (contextAt path context ++ lit " requires '" ++ lit key ++ lit "'"))

def requireString (mapping : Node) (key : String) (path : Path) (context : Bytes) : Except Exception Bytes := do
  match ← requireNode mapping key path context with
  | .scalar value =>
    if value = [] then
      .error (.runtimeError (contextAt path context ++ lit "." ++ lit key ++ lit " cannot be empty"))
    else .ok value
  | _ => .error (.runtimeError (contextAt path context ++ lit "." ++ lit key ++ lit " must be a string"))

/-- `key[index]`. -/
def itemContext (key : String) (index : Nat) : Bytes := lit key ++ lit "[" ++ decimal index ++ lit "]"

/-- The items of a sequence in turn, each under its own context. -/
def parseItems {α : Type} (key : String) (parseItem : Node → Bytes → Except Exception α) (items : List Node) :
    Except Exception (List α) :=
  items.zipIdx.mapM fun item => parseItem item.1 (itemContext key item.2)

/-- The integer under `schema_version`. -/
def schemaVersion (reader : Reader) (root : Node) (path : Path) : Except Exception Int := do
  let node ← requireNode root "schema_version" path (lit "document")
  match node.convert reader.toInt with
  | none => .error (.runtimeError (path.text ++ lit ": schema_version must be an integer"))
  | some version => .ok version

/-- `YAML::LoadFile`, whose exceptions are reported as invalid YAML. -/
def loadFile (reader : Reader) (path : Path) : Except Exception Node :=
  match reader.loadFile path.text with
  | .ok root => .ok root
  | .error what => .error (.runtimeError (path.text ++ lit ": invalid YAML: " ++ what))

/-- `std::to_string` of an `int`. -/
def integerText (n : Int) : Bytes := if n < 0 then ch '-' :: decimal n.natAbs else decimal n.natAbs

/-! ## What they accept -/

/-- The node is a mapping whose keys are scalars, all different and all known. -/
def IsMapping (allowed : List String) (node : Node) : Prop :=
  ∃ fields : List (Bytes × Node), node = .mapping (fields.map fun field => (.scalar field.1, field.2)) ∧
    (fields.map (·.1)).Nodup ∧ ∀ key ∈ fields.map (·.1), key ∈ allowed.map lit

/-- The mapping has a nonempty scalar under the key. -/
def RequiredText (node : Node) (key : String) (value : Bytes) : Prop := node.find key = some (.scalar value) ∧ value ≠ []

theorem checkKey_ok_iff {allowed : List String} {about : Bytes} {seen seen' : List Bytes} {key : Node} :
    checkKey allowed about seen key = .ok seen' ↔
      ∃ text, key = .scalar text ∧ text ∈ allowed.map lit ∧ text ∉ seen ∧ seen' = seen ++ [text] := by
  cases key with
  | scalar text =>
    unfold checkKey
    dsimp only
    split
    · rename_i hunknown
      constructor
      · exact fun h => absurd h (by simp)
      · rintro ⟨_, heq, hknown, -⟩
        cases heq
        exact absurd hknown hunknown
    · rename_i hknown
      rw [not_not] at hknown
      split
      · rename_i hseen
        simp [hseen]
      · rename_i hnew
        simp only [Except.ok.injEq, Node.scalar.injEq, exists_eq_left', hknown, hnew, not_false_eq_true, true_and]
        exact eq_comm
  | null | sequence | mapping => simp [checkKey]

theorem checkKeys_ok_iff {allowed : List String} {about : Bytes} {keys : List Node} {seen : List Bytes} :
    keys.foldlM (checkKey allowed about) [] = .ok seen ↔
      keys = seen.map .scalar ∧ (∀ text ∈ seen, text ∈ allowed.map lit) ∧ seen.Nodup := by
  rw [@foldlM_distinct_ok_iff _ _ _ _ (fun key text => key = .scalar text ∧ text ∈ allowed.map lit)
    fun done key l => checkKey_ok_iff.trans (exists_congr fun text => and_assoc.symm)]
  simp only [forall₂_eq_map, List.not_mem_nil, not_false_eq_true, implies_true, true_and, List.nil_append]
  constructor
  · rintro ⟨_, ⟨hkeys, hallowed⟩, hnodup, rfl⟩
    exact ⟨hkeys, hallowed, hnodup⟩
  · rintro ⟨hkeys, hallowed, hnodup⟩
    exact ⟨_, ⟨hkeys, hallowed⟩, hnodup, rfl⟩

/-- Entries under scalar keys. -/
theorem exists_fields (entries : List (Node × Node)) {texts : List Bytes} (h : entries.map (·.1) = texts.map .scalar) :
    ∃ fields : List (Bytes × Node), entries = fields.map (fun field => (.scalar field.1, field.2)) ∧
      texts = fields.map (·.1) := by
  induction entries generalizing texts with
  | nil => exact ⟨[], rfl, List.map_eq_nil_iff.1 h.symm⟩
  | cons entry entries ih =>
    cases texts with
    | nil => cases h
    | cons text texts =>
      obtain ⟨hkey, hrest⟩ := List.cons.inj h
      obtain ⟨fields, rfl, rfl⟩ := ih hrest
      exact ⟨(text, entry.2) :: fields, by rw [List.map_cons, ← hkey], rfl⟩

theorem requireMapping_ok_iff {node : Node} {allowed : List String} {path : Path} {context : Bytes} {u : Unit} :
    requireMapping node allowed path context = .ok u ↔ IsMapping allowed node := by
  cases node with
  | mapping entries =>
    have hrun : requireMapping (.mapping entries) allowed path context = .ok u ↔
        ∃ seen, (entries.map (·.1)).foldlM (checkKey allowed (contextAt path context)) [] = .ok seen := by
      show ((entries.map (·.1)).foldlM (checkKey allowed (contextAt path context)) [] >>= fun _ => .ok ()) = .ok u ↔ _
      rw [except_bind_ok_iff]
      simp
    rw [hrun]
    simp only [checkKeys_ok_iff]
    constructor
    · rintro ⟨texts, htexts, hallowed, hnodup⟩
      obtain ⟨fields, rfl, rfl⟩ := exists_fields entries htexts
      exact ⟨fields, rfl, hnodup, hallowed⟩
    · rintro ⟨fields, hfields, hnodup, hallowed⟩
      cases hfields
      exact ⟨fields.map (·.1), by simp, hallowed, hnodup⟩
  | null | scalar | sequence =>
    constructor
    · exact fun h => absurd h (by simp [requireMapping])
    · rintro ⟨fields, hfields, -⟩
      cases hfields

theorem requireNode_ok_iff {mapping node : Node} {key : String} {path : Path} {context : Bytes} :
    requireNode mapping key path context = .ok node ↔ mapping.find key = some node := by
  unfold requireNode
  cases mapping.find key <;> simp

theorem requireString_ok_iff {mapping : Node} {key : String} {path : Path} {context value : Bytes} :
    requireString mapping key path context = .ok value ↔ RequiredText mapping key value := by
  unfold requireString RequiredText
  rw [except_bind_ok_iff]
  simp only [requireNode_ok_iff]
  constructor
  · rintro ⟨node, hnode, h⟩
    cases node with
    | scalar text =>
      dsimp only at h
      split at h
      · cases h
      · rename_i hne
        cases h
        exact ⟨hnode, hne⟩
    | null | sequence | mapping => cases h
  · rintro ⟨hnode, hne⟩
    exact ⟨_, hnode, if_neg hne⟩

theorem parseItems_ok_iff {α : Type} {key : String} {parseItem : Node → Bytes → Except Exception α} {P : Node → α → Prop}
    (hitem : ∀ node context a, parseItem node context = .ok a ↔ P node a) {items : List Node} {made : List α} :
    parseItems key parseItem items = .ok made ↔ List.Forall₂ P items made := by
  have hrun : ∀ (items : List Node) (i : Nat) (made : List α),
      ((items.zipIdx i).mapM fun item => parseItem item.1 (itemContext key item.2)) = .ok made ↔
        List.Forall₂ P items made := by
    intro items
    induction items with
    | nil =>
      intro i made
      rw [List.zipIdx_nil, List.mapM_nil, List.forall₂_nil_left_iff]
      simp only [pure, Except.pure, Except.ok.injEq]
      exact eq_comm
    | cons item items ih =>
      intro i made
      rw [List.zipIdx_cons, List.mapM_cons, except_bind_ok_iff, List.forall₂_cons_left_iff]
      simp only [hitem, except_bind_ok_iff, ih, pure, Except.pure, Except.ok.injEq]
      constructor
      · rintro ⟨a, ha, rest, hrest, rfl⟩
        exact ⟨a, rest, ha, hrest, rfl⟩
      · rintro ⟨a, rest, ha, hrest, rfl⟩
        exact ⟨a, ha, rest, hrest, rfl⟩
  exact hrun items 0 made

variable {root : Node} {path : Path}

theorem schemaVersion_ok_iff {reader : Reader} {version : Int} :
    schemaVersion reader root path = .ok version ↔
      ∃ field, root.find "schema_version" = some field ∧ field.convert reader.toInt = some version := by
  unfold schemaVersion
  simp only [except_bind_ok_iff, requireNode_ok_iff]
  refine exists_congr fun field => and_congr_right fun _ => ?_
  cases field.convert reader.toInt <;> simp

theorem loadFile_ok_iff {reader : Reader} : loadFile reader path = .ok root ↔ reader.loadFile path.text = .ok root := by
  unfold loadFile
  cases reader.loadFile path.text <;> simp

/-! ## Written mappings -/

/-- A mapping with these fields. -/
def fieldsNode (fields : List (String × Node)) : Node :=
  .mapping (fields.map fun field => (.scalar (lit field.1), field.2))

theorem fieldsNode_find_nil (key : String) : (fieldsNode []).find key = none := rfl

theorem fieldsNode_find_cons (name : String) (value : Node) (fields : List (String × Node)) (key : String) :
    (fieldsNode ((name, value) :: fields)).find key =
      if lit name = lit key then some value else (fieldsNode fields).find key := by
  simp only [fieldsNode, Node.find, List.map_cons, List.find?_cons, Node.isKey]
  by_cases h : lit name = lit key
  · rw [if_pos h, h, beq_self_eq_true]
    rfl
  · rw [if_neg h, beq_false_of_ne h]

theorem fieldsNode_find_append (fields fields' : List (String × Node)) (key : String) :
    (fieldsNode (fields ++ fields')).find key = ((fieldsNode fields).find key).or ((fieldsNode fields').find key) := by
  induction fields with
  | nil => rfl
  | cons field fields ih =>
    obtain ⟨name, value⟩ := field
    rw [List.cons_append, fieldsNode_find_cons, fieldsNode_find_cons, ih]
    split <;> rfl

theorem isMapping_fields {allowed : List String} (hnodup : (allowed.map lit).Nodup) {fields : List (String × Node)}
    (h : (fields.map (·.1)).Sublist allowed) : IsMapping allowed (fieldsNode fields) := by
  have hsub : ((fields.map fun field => (lit field.1, field.2)).map (·.1)).Sublist (allowed.map lit) := by
    rw [List.map_map, show (Prod.fst ∘ fun field : String × Node => (lit field.1, field.2)) = lit ∘ Prod.fst from rfl,
      ← List.map_map]
    exact h.map lit
  refine ⟨fields.map fun field => (lit field.1, field.2), ?_, hnodup.sublist hsub, fun key hkey => hsub.subset hkey⟩
  rw [fieldsNode, List.map_map]
  rfl

end CxxDead.Yaml
