import CxxDead.BuildMetadata
/-!
# Target replies

What the reply of CMake for one target means: which of its sources are compiled as
C++, which are public headers, and on which targets it depends for more than order.

- `loadCmakeFileApi_says`: the targets that are loaded are the ones that the replies describe.
-/

namespace CxxDead

open Lib

namespace BuildMetadata

open Json

/-! ## Replies -/

/-- The items of an array that may be missing. -/
def itemsOf (object : Value) (key : String) : List Value :=
  match object.find (lit key) with
  | some (.array items) => items
  | _ => []

/-- The number is an index, which is kept in 64 bits: a larger one stands for 0. -/
def IndexOf (value : Value) (n : Nat) : Prop :=
  ∃ m : Nat, value = .number m ∧ (m < 2 ^ 64 ∧ n = m ∨ 2 ^ 64 ≤ m ∧ n = 0)

def IndexAt (object : Value) (key : String) (n : Nat) : Prop :=
  ∃ value, object.find (lit key) = some value ∧ IndexOf value n

/-- An index into the items that has a property. -/
def RefersTo (source : Value) (key : String) (items : List Value) (p : Value → Bool) : Prop :=
  ∃ (n : Nat) (item : Value), IndexAt source key n ∧ items[n]? = some item ∧ p item = true

/-- A text that is not empty. -/
def TextAt (object : Value) (key : String) (text : Bytes) : Prop := object.find (lit key) = some (.string text) ∧ text ≠ []

def PathAt (files : Files) (object : Value) (base path : Path) : Prop :=
  ∃ text, TextAt object "path" text ∧ normalizedPath files ⟨text⟩ base = .ok path

/-- A dependency that comes from `add_dependencies`. -/
def OnlyOrders (target dependency : Value) : Prop :=
  ∃ (n m : Nat) (graph node : Value), IndexAt dependency "backtrace" n ∧
    target.find (lit "backtraceGraph") = some graph ∧ (itemsOf graph "nodes")[n]? = some node ∧
    IndexAt node "command" m ∧
    (itemsOf graph "commands")[m]? = some (.string (lit "add_dependencies"))

structure TargetReply (files : Files) (document : Value) (sourceRoot buildRoot : Path) (target : LoadedTarget) : Prop where
  id : TextAt document "id" target.id
  name : TextAt document "name" target.name
  kind : ∃ type, TextAt document "type" type ∧ parseTargetKind type = .ok target.kind
  sources : ∀ p, p ∈ target.sources ↔ ∃ source ∈ itemsOf document "sources",
    RefersTo source "compileGroupIndex" (itemsOf document "compileGroups") isCxxGroup ∧ PathAt files source sourceRoot p
  publicHeaders : ∀ p, p ∈ target.publicHeaders ↔ ∃ source ∈ itemsOf document "sources",
    RefersTo source "fileSetIndex" (itemsOf document "fileSets") isPublicHeaderSet ∧ PathAt files source sourceRoot p
  dependencies : ∀ d, d ∈ target.dependencies ↔ ∃ dependency ∈ itemsOf document "dependencies",
    ¬OnlyOrders document dependency ∧ TextAt dependency "id" d
  artifacts : ∀ p, p ∈ target.artifacts ↔ ∃ artifact ∈ itemsOf document "artifacts", PathAt files artifact buildRoot p
  sortedSources : target.sources.Pairwise fun p q => pathOrder p < pathOrder q
  sortedHeaders : target.publicHeaders.Pairwise fun p q => pathOrder p < pathOrder q
  sortedDependencies : target.dependencies.Pairwise (· < ·)

/-! ## Values -/

theorem requireMember_ok_iff {object value : Value} {key context : String} :
    requireMember object key context = .ok value ↔ object.find (lit key) = some value := by
  unfold requireMember
  split
  · rename_i v hv
    rw [hv, Except.ok.injEq, Option.some.injEq]
  · rename_i hnone
    exact iff_of_false (by rintro ⟨⟩) (by simp [hnone])

theorem requireString_ok_iff {object : Value} {key context : String} {s : Bytes} :
    requireString object key context = .ok s ↔ TextAt object key s := by
  unfold requireString TextAt
  rw [except_bind_ok_iff]
  constructor
  · rintro ⟨value, hvalue, h⟩
    split at h
    · split at h
      · cases h
      · rename_i hne
        rw [← Except.ok.inj h]
        exact ⟨requireMember_ok_iff.1 hvalue, hne⟩
    · cases h
  · rintro ⟨hfind, hne⟩
    exact ⟨.string s, requireMember_ok_iff.2 hfind, if_neg hne⟩

theorem toIndex_natCast (m : Nat) : toIndex m = if m < 2 ^ 64 then m else 0 := by
  have hfloor : ((m : ℚ)).floor = m := by simp [Rat.floor]
  have hcast : ((m : ℚ) < 2 ^ 64) ↔ m < 2 ^ 64 := by exact_mod_cast Iff.rfl
  unfold toIndex
  rw [hfloor, Int.toNat_natCast]
  simp only [hcast]

theorem requireIndex_ok_iff {value : Value} {context : String} {n : Nat} :
    requireIndex value context = .ok n ↔ IndexOf value n := by
  unfold requireIndex IndexOf
  split
  · rename_i x
    constructor
    · intro h
      split at h
      · cases h
      · rename_i hx
        rw [not_or, not_lt, not_not] at hx
        have hfloor : 0 ≤ x.floor := Rat.le_floor_iff.2 (by exact_mod_cast hx.1)
        obtain ⟨m, hm⟩ := Int.eq_ofNat_of_zero_le hfloor
        obtain rfl : x = m := by
          rw [← hx.2, hm]
          rfl
        refine ⟨m, rfl, ?_⟩
        rw [← Except.ok.inj h, toIndex_natCast]
        split
        · exact .inl ⟨‹_›, rfl⟩
        · exact .inr ⟨by omega, rfl⟩
    · rintro ⟨m, hm, hn⟩
      obtain rfl := Value.number.inj hm
      have hfloor : ((m : ℚ)).floor = m := by simp [Rat.floor]
      rw [if_neg (by simp [hfloor]), toIndex_natCast]
      rcases hn with ⟨hlt, rfl⟩ | ⟨hle, rfl⟩
      · rw [if_pos hlt]
      · rw [if_neg (by omega)]
  · rename_i hnumber
    exact iff_of_false (by rintro ⟨⟩) fun ⟨m, hm, _⟩ => hnumber _ hm

theorem IndexOf.unique {value : Value} {n m : Nat} (hn : IndexOf value n) (hm : IndexOf value m) : n = m :=
  Except.ok.inj (((@requireIndex_ok_iff value "" n).2 hn).symm.trans (requireIndex_ok_iff.2 hm))

theorem IndexAt.unique {object : Value} {key : String} {n m : Nat} (hn : IndexAt object key n)
    (hm : IndexAt object key m) : n = m := by
  obtain ⟨v, hv, hn⟩ := hn
  obtain ⟨w, hw, hm⟩ := hm
  rw [hv] at hw
  obtain rfl := Option.some.inj hw
  exact hn.unique hm

theorem optionalArray_ok {object : Value} {key message : String} {items : List Value}
    (h : optionalArray object key message = .ok items) : items = itemsOf object key := by
  unfold optionalArray at h
  unfold itemsOf
  split at h
  · rename_i hnone
    rw [hnone, ← Except.ok.inj h]
  · rename_i l hl
    rw [hl, ← Except.ok.inj h]
  · cases h

theorem memberPath_ok {files : Files} {object : Value} {context : String} {base path : Path}
    (h : memberPath files object "path" context base = .ok path) (p : Path) : p = path ↔ PathAt files object base p := by
  obtain ⟨text, htext, hpath⟩ := except_bind_ok_iff.1 h
  have hfind := requireString_ok_iff.1 htext
  constructor
  · rintro rfl
    exact ⟨text, hfind, hpath⟩
  · rintro ⟨text', hfind', hpath'⟩
    obtain rfl := Value.string.inj (Option.some.inj (hfind.1.symm.trans hfind'.1))
    exact Except.ok.inj (hpath'.symm.trans hpath)

theorem mem_indexesOf {p : Value → Bool} {items : List Value} {n : Nat} :
    n ∈ indexesOf p items ↔ ∃ item, items[n]? = some item ∧ p item = true := by
  unfold indexesOf
  rw [List.mem_filter, List.mem_range]
  constructor
  · rintro ⟨hn, hp⟩
    rw [List.getD_eq_getElem _ _ hn] at hp
    exact ⟨_, List.getElem?_eq_getElem hn, hp⟩
  · rintro ⟨item, hitem, hp⟩
    obtain ⟨hn, rfl⟩ := List.getElem?_eq_some_iff.1 hitem
    rw [List.getD_eq_getElem _ _ hn]
    exact ⟨hn, hp⟩

/-! ## What the parts of a reply say -/

section Parts
variable {files : Files} {document source dependency : Value} {base : Path}

/-- Both paths of a source are read by an index into items that have a property. -/
theorem indexed_ok {key context about : String} {items : List Value} {p : Value → Bool} {n : ℚ} {paths : List Path}
    (hkey : source.find (lit key) = some (.number n))
    (h : (do
      let index ← requireIndex (.number n) about
      if index ∈ indexesOf p items then
        let path ← memberPath files source "path" context base
        .ok [path]
      else .ok []) = (.ok paths : Except Exception (List Path))) (path : Path) :
    path ∈ paths ↔ RefersTo source key items p ∧ PathAt files source base path := by
  obtain ⟨index, hindex, h⟩ := except_bind_ok_iff.1 h
  have hn : IndexAt source key index := ⟨_, hkey, requireIndex_ok_iff.1 hindex⟩
  have hrefers : RefersTo source key items p ↔ index ∈ indexesOf p items := by
    rw [mem_indexesOf]
    constructor
    · rintro ⟨m, item, hm, hitem, hp⟩
      obtain rfl := hn.unique hm
      exact ⟨item, hitem, hp⟩
    · rintro ⟨item, hitem, hp⟩
      exact ⟨index, item, hn, hitem, hp⟩
  rw [hrefers]
  split at h
  · rename_i hmem
    obtain ⟨found, hfound, h⟩ := except_bind_ok_iff.1 h
    rw [← Except.ok.inj h, List.mem_singleton, and_iff_right hmem]
    exact memberPath_ok hfound path
  · rename_i hmem
    rw [← Except.ok.inj h]
    exact iff_of_false List.not_mem_nil fun h => hmem h.1

theorem publicHeader_ok {fileSets : List Value} {paths : List Path}
    (h : publicHeader files (indexesOf isPublicHeaderSet fileSets) base source = .ok paths) (path : Path) :
    path ∈ paths ↔ RefersTo source "fileSetIndex" fileSets isPublicHeaderSet ∧ PathAt files source base path := by
  unfold publicHeader at h
  split at h
  · rename_i hnone
    rw [← Except.ok.inj h]
    refine iff_of_false List.not_mem_nil ?_
    rintro ⟨⟨n, item, ⟨value, hvalue, -⟩, -⟩, -⟩
    rw [hnone] at hvalue
    cases hvalue
  · rename_i index hkey
    obtain ⟨n, hn, -⟩ := except_bind_ok_iff.1 h
    obtain ⟨m, rfl, -⟩ := requireIndex_ok_iff.1 hn
    exact indexed_ok hkey h path

theorem compiledSource_ok {groups : List Value} {paths : List Path}
    (h : compiledSource files (indexesOf isCxxGroup groups) base source = .ok paths) (path : Path) :
    path ∈ paths ↔ RefersTo source "compileGroupIndex" groups isCxxGroup ∧ PathAt files source base path := by
  unfold compiledSource at h
  split at h
  · rename_i n hkey
    exact indexed_ok hkey h path
  · rename_i hother
    rw [← Except.ok.inj h]
    refine iff_of_false List.not_mem_nil ?_
    rintro ⟨⟨n, item, ⟨value, hvalue, m, rfl, -⟩, -⟩, -⟩
    exact hother m hvalue

theorem itemsOf_array {object : Value} {key : String} {items : List Value} (h : object.find (lit key) = some (.array items)) :
    itemsOf object key = items := by
  unfold itemsOf
  rw [h]

theorem commandName_ok {nodes commands : List Value} {n : Nat} {name : Option Bytes}
    (h : commandName nodes commands n = .ok name) :
    name = some (lit "add_dependencies") ↔ ∃ (m : Nat) (node : Value), nodes[n]? = some node ∧
      IndexAt node "command" m ∧ commands[m]? = some (.string (lit "add_dependencies")) := by
  unfold commandName at h
  split at h
  · rename_i hnone
    rw [← Except.ok.inj h]
    refine iff_of_false (by rintro ⟨⟩) ?_
    rintro ⟨m, node, hnode, -⟩
    rw [hnone] at hnode
    cases hnode
  · rename_i node hnode
    rw [hnode]
    split at h
    · rename_i x hx
      obtain ⟨m, hm, h⟩ := except_bind_ok_iff.1 h
      have hxm : IndexAt node "command" m := ⟨_, hx, requireIndex_ok_iff.1 hm⟩
      have hcommand : name = some (lit "add_dependencies") ↔ commands[m]? = some (.string (lit "add_dependencies")) := by
        split at h
        · rename_i s hs
          rw [hs, ← Except.ok.inj h, Option.some.injEq, Option.some.injEq, Value.string.injEq]
        · rename_i hother
          rw [← Except.ok.inj h]
          exact iff_of_false (by rintro ⟨⟩) (hother _)
      rw [hcommand]
      constructor
      · exact fun h => ⟨m, node, rfl, hxm, h⟩
      · rintro ⟨m', node', hnode', hm', h'⟩
        obtain rfl := Option.some.inj hnode'
        obtain rfl := hxm.unique hm'
        exact h'
    · rename_i hother
      rw [← Except.ok.inj h]
      refine iff_of_false (by rintro ⟨⟩) ?_
      rintro ⟨m, node', hnode', ⟨value, hvalue, x, rfl, -⟩, -⟩
      obtain rfl := Option.some.inj hnode'
      exact hother x hvalue

theorem itemsOf_getElem {object item : Value} {key : String} {n : Nat} (h : (itemsOf object key)[n]? = some item) :
    ∃ items, object.find (lit key) = some (.array items) ∧ items[n]? = some item := by
  unfold itemsOf at h
  split at h
  · rename_i items hitems
    exact ⟨items, hitems, h⟩
  · simp at h

theorem dependencyIsLinked_ok {linked : Bool} (h : dependencyIsLinked document dependency = .ok linked) :
    linked = true ↔ ¬OnlyOrders document dependency := by
  unfold dependencyIsLinked at h
  split at h
  · rename_i x graph hbacktrace hgraph
    split at h
    · rename_i nodes commands hnodes hcommands
      obtain ⟨n, hn, h⟩ := except_bind_ok_iff.1 h
      obtain ⟨name, hname, h⟩ := except_bind_ok_iff.1 h
      have hxn : IndexAt dependency "backtrace" n := ⟨_, hbacktrace, requireIndex_ok_iff.1 hn⟩
      have horders : OnlyOrders document dependency ↔ name = some (lit "add_dependencies") := by
        rw [commandName_ok hname]
        constructor
        · rintro ⟨n', m, graph', node, hn', hgraph', hnode, hcommand, hlast⟩
          obtain rfl := hxn.unique hn'
          rw [hgraph] at hgraph'
          obtain rfl := Option.some.inj hgraph'
          rw [itemsOf_array hnodes] at hnode
          rw [itemsOf_array hcommands] at hlast
          exact ⟨m, node, hnode, hcommand, hlast⟩
        · rintro ⟨m, node, hnode, hcommand, hlast⟩
          refine ⟨n, m, graph, node, hxn, hgraph, ?_, hcommand, ?_⟩
          · rwa [itemsOf_array hnodes]
          · rwa [itemsOf_array hcommands]
      rw [horders, ← Except.ok.inj h, bne_iff_ne]
    · rename_i hother
      rw [← Except.ok.inj h]
      refine iff_of_true rfl ?_
      rintro ⟨n, m, graph', node, -, hgraph', hnode, -, hlast⟩
      rw [hgraph] at hgraph'
      obtain rfl := Option.some.inj hgraph'
      obtain ⟨nodes, hnodes, -⟩ := itemsOf_getElem hnode
      obtain ⟨commands, hcommands, -⟩ := itemsOf_getElem hlast
      exact hother nodes commands hnodes hcommands
  · rename_i hother
    rw [← Except.ok.inj h]
    refine iff_of_true rfl ?_
    rintro ⟨n, m, graph, node, ⟨value, hvalue, x, rfl, -⟩, hgraph, -⟩
    exact hother x graph hvalue hgraph

theorem readDependency_ok {ids : List Bytes} (h : readDependency document dependency = .ok ids) (d : Bytes) :
    d ∈ ids ↔ ¬OnlyOrders document dependency ∧ TextAt dependency "id" d := by
  obtain ⟨linked, hlinked, h⟩ := except_bind_ok_iff.1 h
  rw [← dependencyIsLinked_ok hlinked]
  split at h
  · rename_i htrue
    obtain ⟨id, hid, h⟩ := except_bind_ok_iff.1 h
    have hid := requireString_ok_iff.1 hid
    rw [← Except.ok.inj h, List.mem_singleton, and_iff_right htrue]
    constructor
    · rintro rfl
      exact hid
    · exact fun hd => Value.string.inj (Option.some.inj (hd.1.symm.trans hid.1))
  · rename_i hfalse
    rw [← Except.ok.inj h]
    exact iff_of_false List.not_mem_nil fun h => hfalse h.1

theorem readSource_ok {fileSets groups : List Value} {made : List Path × List Path}
    (h : readSource files (indexesOf isPublicHeaderSet fileSets) (indexesOf isCxxGroup groups) base source = .ok made)
    (path : Path) :
    (path ∈ made.1 ↔ RefersTo source "fileSetIndex" fileSets isPublicHeaderSet ∧ PathAt files source base path) ∧
      (path ∈ made.2 ↔ RefersTo source "compileGroupIndex" groups isCxxGroup ∧ PathAt files source base path) := by
  obtain ⟨headers, hheaders, h⟩ := except_bind_ok_iff.1 h
  obtain ⟨sources, hsources, h⟩ := except_bind_ok_iff.1 h
  rw [← Except.ok.inj h]
  exact ⟨publicHeader_ok hheaders path, compiledSource_ok hsources path⟩

/-- What the turns of a loop make of the items, put together. -/
theorem flatten_ok {α β : Type} {f : α → Except Exception β} {l : List α} {out : List β} (h : l.mapM f = .ok out)
    {γ : Type} {part : β → List γ} {P : α → γ → Prop} (hf : ∀ a b, f a = .ok b → ∀ c, c ∈ part b ↔ P a c) (c : γ) :
    c ∈ (out.map part).flatten ↔ ∃ a ∈ l, P a c := by
  obtain ⟨hall, hmem⟩ := mapM_returned h
  rw [← List.flatMap_def, List.mem_flatMap]
  constructor
  · rintro ⟨b, hb, hc⟩
    obtain ⟨a, ha, hab⟩ := (hmem b).1 hb
    exact ⟨a, ha, (hf a b hab c).1 hc⟩
  · rintro ⟨a, ha, hc⟩
    obtain ⟨b, hab⟩ := hall a ha
    exact ⟨b, (hmem b).2 ⟨a, ha, hab⟩, (hf a b hab c).2 hc⟩

end Parts

/-! ## Whole replies -/

theorem absoluteNormal_ok {files : Files} (hcwd : ∀ cwd, files.currentPath = .ok cwd → cwd.isAbsolute = true)
    {path full : Path} (h : files.absoluteNormal path = .ok full) :
    ∃ p : Path, p.isAbsolute = true ∧ full = p.lexicallyNormal := by
  obtain ⟨p, hp, rfl⟩ := CommandLine.except_map_ok_iff.1 h
  exact ⟨p, Path.isAbsolute_absolute hcwd hp, rfl⟩

theorem absoluteNormal_generic {files : Files} (hcwd : ∀ cwd, files.currentPath = .ok cwd → cwd.isAbsolute = true)
    {path full : Path} (h : files.absoluteNormal path = .ok full) : full.generic = full := by
  obtain ⟨p, hp, rfl⟩ := absoluteNormal_ok hcwd h
  exact CommandLine.lexicallyNormal_generic hp

theorem mem_sortPaths_iff {paths : List Path} (hgeneric : ∀ p ∈ paths, p.generic = p) {p : Path} :
    p ∈ sortPaths paths ↔ p ∈ paths := by
  refine ⟨mem_sortPaths, fun hp => ?_⟩
  obtain ⟨q, hq, hsame⟩ := same_mem_sortPaths hp
  have hgen := Path.same_iff.1 hsame
  rw [hgeneric q (mem_sortPaths hq), hgeneric p hp] at hgen
  rwa [← hgen]

/-- A target that is read says what its reply says. -/
theorem parseCmakeTarget_says {fromChars : Bytes → Option ℚ} {files : Files}
    (hcwd : ∀ cwd, files.currentPath = .ok cwd → cwd.isAbsolute = true) {file sourceRoot buildRoot : Path}
    {target : LoadedTarget} (h : parseCmakeTarget fromChars files file sourceRoot buildRoot = .ok target) :
    ∃ document, readJson fromChars files file = .ok document ∧ TargetReply files document sourceRoot buildRoot target := by
  obtain ⟨document, hdocument, h⟩ := except_bind_ok_iff.1 h
  refine ⟨document, hdocument, ?_⟩
  split at h
  · obtain ⟨id, hid, h⟩ := except_bind_ok_iff.1 h
    obtain ⟨name, hname, h⟩ := except_bind_ok_iff.1 h
    obtain ⟨type, htype, h⟩ := except_bind_ok_iff.1 h
    obtain ⟨kind, hkind, h⟩ := except_bind_ok_iff.1 h
    obtain ⟨fileSets, hfileSets, h⟩ := except_bind_ok_iff.1 h
    obtain ⟨groups, hgroups, h⟩ := except_bind_ok_iff.1 h
    obtain ⟨sources, hsources, h⟩ := except_bind_ok_iff.1 h
    obtain ⟨read, hread, h⟩ := except_bind_ok_iff.1 h
    obtain ⟨dependencies, hdependencies, h⟩ := except_bind_ok_iff.1 h
    obtain ⟨linked, hlinked, h⟩ := except_bind_ok_iff.1 h
    obtain ⟨artifacts, hartifacts, h⟩ := except_bind_ok_iff.1 h
    obtain ⟨made, hmade, h⟩ := except_bind_ok_iff.1 h
    obtain rfl := Except.ok.inj h
    obtain rfl := optionalArray_ok hfileSets
    obtain rfl := optionalArray_ok hgroups
    obtain rfl := optionalArray_ok hsources
    obtain rfl := optionalArray_ok hdependencies
    obtain rfl := optionalArray_ok hartifacts
    have hcompiled := fun p => flatten_ok hread (fun source made hmade path => (readSource_ok hmade path).2) p
    have hheaders := fun p => flatten_ok hread (fun source made hmade path => (readSource_ok hmade path).1) p
    -- sorting keeps one spelling of paths that are the same, and resolved ones are spelled generically
    have hgeneric : ∀ source p, PathAt files source sourceRoot p → p.generic = p := fun source p hp => by
      obtain ⟨text, -, hp⟩ := hp
      exact absoluteNormal_generic hcwd hp
    refine ⟨requireString_ok_iff.1 hid, requireString_ok_iff.1 hname, ⟨type, requireString_ok_iff.1 htype, hkind⟩,
      fun p => ?_, fun p => ?_, fun d => ?_, fun p => ?_, sortPaths_sorted _, sortPaths_sorted _, sortUnique_lt _⟩
    · rw [mem_sortPaths_iff, hcompiled]
      intro q hq
      obtain ⟨source, -, -, hpath⟩ := (hcompiled q).1 hq
      exact hgeneric source q hpath
    · rw [mem_sortPaths_iff, hheaders]
      intro q hq
      obtain ⟨source, -, -, hpath⟩ := (hheaders q).1 hq
      exact hgeneric source q hpath
    · rw [mem_sortUnique, ← List.map_id linked]
      exact flatten_ok hlinked (fun dependency ids hids id => readDependency_ok hids id) d
    · rw [(mapM_returned hmade).2]
      refine exists_congr fun artifact => and_congr_right fun hmem => ?_
      obtain ⟨found, hfound⟩ := (mapM_returned hmade).1 artifact hmem
      rw [← memberPath_ok hfound p, hfound, Except.ok.injEq, eq_comm]
  · cases h

section Replies
variable {fromChars : Bytes → Option ℚ} {files : Files}

theorem loadTarget_ok {directory sourceRoot buildRoot : Path} {reference : Value} {target : LoadedTarget}
    (h : loadTarget fromChars files directory sourceRoot buildRoot reference = .ok target) :
    ∃ file, replyFile directory reference "CMake target reference" = .ok file ∧
      parseCmakeTarget fromChars files file sourceRoot buildRoot = .ok target := by
  obtain ⟨file, hfile, h⟩ := except_bind_ok_iff.1 h
  obtain ⟨t, ht, h⟩ := except_bind_ok_iff.1 h
  obtain ⟨matching, -, h⟩ := except_bind_ok_iff.1 h
  split at h
  · rw [← Except.ok.inj h]
    exact ⟨file, hfile, ht⟩
  · cases h

/-- How the model of a reply directory was read. -/
structure LoadedFrom (fromChars : Bytes → Option ℚ) (files : Files) (directory : Path) (m : LoadedModel) : Prop where
  sourceRoot : ∃ paths base, memberPath files paths "source" "CMake codemodel paths" base = .ok m.sourceRoot
  buildRoot : ∃ paths base, memberPath files paths "build" "CMake codemodel paths" base = .ok m.buildRoot
  nonempty : m.configurations ≠ []
  targets : ∀ c ∈ m.configurations, ∀ t ∈ c.targets, ∃ reference,
    loadTarget fromChars files directory m.sourceRoot m.buildRoot reference = .ok t

theorem loadCodemodel_ok {directory file : Path} {m : LoadedModel}
    (h : loadCodemodel fromChars files directory file = .ok m) : LoadedFrom fromChars files directory m := by
  obtain ⟨codemodel, -, h⟩ := except_bind_ok_iff.1 h
  obtain ⟨paths, -, h⟩ := except_bind_ok_iff.1 h
  obtain ⟨sourceRoot, hsource, h⟩ := except_bind_ok_iff.1 h
  obtain ⟨buildRoot, hbuild, h⟩ := except_bind_ok_iff.1 h
  obtain ⟨values, -, h⟩ := except_bind_ok_iff.1 h
  obtain ⟨configurations, hconfigurations, h⟩ := except_bind_ok_iff.1 h
  split at h
  · cases h
  · rename_i hne
    obtain rfl := Except.ok.inj h
    refine ⟨⟨paths, _, hsource⟩, ⟨paths, _, hbuild⟩, hne, fun c hc t ht => ?_⟩
    obtain ⟨value, -, hvalue⟩ := ((mapM_returned hconfigurations).2 c).1 hc
    obtain ⟨references, -, hvalue⟩ := except_bind_ok_iff.1 hvalue
    obtain ⟨targets, htargets, hvalue⟩ := except_bind_ok_iff.1 hvalue
    obtain rfl := Except.ok.inj hvalue
    obtain ⟨reference, -, hreference⟩ := ((mapM_returned htargets).2 t).1 ht
    exact ⟨reference, hreference⟩

theorem loadCmakeFileApi_ok {buildDirectory : Path} {m : LoadedModel}
    (h : loadCmakeFileApi fromChars files buildDirectory = .ok m) :
    ∃ directory, replyDirectory files.disk buildDirectory = .ok directory ∧ LoadedFrom fromChars files directory m := by
  obtain ⟨directory, hdirectory, h⟩ := except_bind_ok_iff.1 h
  refine ⟨directory, hdirectory, ?_⟩
  obtain ⟨isDirectory, -, h⟩ := except_bind_ok_iff.1 h
  split at h
  · cases h
  · obtain ⟨listing, -, h⟩ := except_bind_ok_iff.1 h
    obtain ⟨indexFile, -, h⟩ := except_bind_ok_iff.1 h
    obtain ⟨index, -, h⟩ := except_bind_ok_iff.1 h
    obtain ⟨objects, -, h⟩ := except_bind_ok_iff.1 h
    split at h
    · cases h
    · obtain ⟨file, -, h⟩ := except_bind_ok_iff.1 h
      exact loadCodemodel_ok h

/-- Every target of the model says what a file in the reply directory says about it: its
C++ sources, its public headers, the dependencies that are linked and its artifacts. -/
theorem loadCmakeFileApi_says (hcwd : ∀ cwd, files.currentPath = .ok cwd → cwd.isAbsolute = true) {buildDirectory : Path}
    {m : LoadedModel} (h : loadCmakeFileApi fromChars files buildDirectory = .ok m) :
    ∃ directory, replyDirectory files.disk buildDirectory = .ok directory ∧
      ∀ c ∈ m.configurations, ∀ t ∈ c.targets, ∃ file document, directory.components <+: file.components ∧
        readJson fromChars files file = .ok document ∧ TargetReply files document m.sourceRoot m.buildRoot t := by
  obtain ⟨directory, hdirectory, hloaded⟩ := loadCmakeFileApi_ok h
  obtain ⟨hnormal, hcomponents⟩ := replyDirectory_normal hcwd hdirectory
  refine ⟨directory, hdirectory, fun c hc t ht => ?_⟩
  obtain ⟨reference, hreference⟩ := hloaded.targets c hc t ht
  obtain ⟨file, hfile, htarget⟩ := loadTarget_ok hreference
  obtain ⟨document, hdocument, htold⟩ := parseCmakeTarget_says hcwd htarget
  exact ⟨file, document, replyFile_inside hnormal hcomponents hfile, hdocument, htold⟩

end Replies

/-! ## A build with one target -/

theorem appModel_says :
    ∃ directory, replyDirectory appFiles.disk ⟨lit "build"⟩ = .ok directory ∧
      ∀ c ∈ appModel.configurations, ∀ t ∈ c.targets, ∃ file document, directory.components <+: file.components ∧
        readJson Artifact.integerFromChars appFiles file = .ok document ∧
        TargetReply appFiles document appModel.sourceRoot appModel.buildRoot t :=
  loadCmakeFileApi_says appFiles_absolute appModel_loaded

end BuildMetadata

end CxxDead
