import CxxDead.ArtifactRoundTrip
import CxxDead.Files
import CxxDead.Options
import CxxDead.TargetClosure
/-!
# Build metadata

The two sources of a build model: the replies of CMake's file API, and a manifest.

- `loadCmakeFileApi`: the model in a reply directory, whose files name each other.
- `loadTargetManifest`: the model in one document.
-/

namespace CxxDead

open Lib

namespace BuildMetadata

open Json

structure LoadedTarget extends BuildTarget where
  artifacts : List Path := []
deriving DecidableEq

structure LoadedConfiguration where
  name : Bytes
  targets : List LoadedTarget
deriving DecidableEq

structure LoadedModel where
  sourceRoot : Path
  buildRoot : Path
  configurations : List LoadedConfiguration
deriving DecidableEq

def LoadedConfiguration.configuration (c : LoadedConfiguration) : BuildConfiguration :=
  { name := c.name, targets := c.targets.map (·.toBuildTarget) }

/-- What the selection of a target uses. -/
def LoadedModel.model (m : LoadedModel) : BuildModel := { configurations := m.configurations.map (·.configuration) }

/-! ## Values -/

def invalid {α : Type} (message : Bytes) : Except Exception α := .error (.runtimeError message)

/-- `context 'key'`. -/
def about (context : String) (key : String) : Bytes := lit context ++ lit " '" ++ lit key ++ lit "'"

def requireMember (object : Value) (key context : String) : Except Exception Value :=
  match object.find (lit key) with
  | some value => .ok value
  | none => invalid (lit context ++ lit " is missing '" ++ lit key ++ lit "'")

def requireArray (object : Value) (key context : String) : Except Exception (List Value) := do
  match ← requireMember object key context with
  | .array items => .ok items
  | _ => invalid (about context key ++ lit " must be an array")

def requireString (object : Value) (key context : String) : Except Exception Bytes := do
  match ← requireMember object key context with
  | .string s => if s = [] then invalid (about context key ++ lit " must be a non-empty string") else .ok s
  | _ => invalid (about context key ++ lit " must be a non-empty string")

/-- `static_cast<std::size_t>` of a whole number. From 2^64 on the cast is undefined, and code for
x86-64 gives 0. -/
def toIndex (x : ℚ) : Nat := if x < 2 ^ 64 then x.floor.toNat else 0

def requireIndex (value : Value) (context : String) : Except Exception Nat :=
  match value with
  | .number x =>
    if x < 0 ∨ (x.floor : ℚ) ≠ x then invalid (lit context ++ lit " must be a non-negative integer")
    else .ok (toIndex x)
  | _ => invalid (lit context ++ lit " must be a non-negative integer")

/-- An array that may be missing. -/
def optionalArray (object : Value) (key message : String) : Except Exception (List Value) :=
  match object.find (lit key) with
  | none => .ok []
  | some (.array items) => .ok items
  | some _ => invalid (lit message)

def parseTargetKind (kind : Bytes) : Except Exception BuildTargetKind :=
  if kind = lit "EXECUTABLE" ∨ kind = lit "executable" then .ok .executable
  else if kind = lit "STATIC_LIBRARY" ∨ kind = lit "static_library" then .ok .staticLibrary
  else if kind = lit "SHARED_LIBRARY" ∨ kind = lit "shared_library" then .ok .sharedLibrary
  else if kind = lit "MODULE_LIBRARY" ∨ kind = lit "module_library" then .ok .moduleLibrary
  else if kind = lit "OBJECT_LIBRARY" ∨ kind = lit "object_library" then .ok .objectLibrary
  else if kind = lit "INTERFACE_LIBRARY" ∨ kind = lit "interface_library" then .ok .interfaceLibrary
  else if kind = lit "UTILITY" ∨ kind = lit "utility" then .ok .utility
  else invalid (lit "unsupported build target type: " ++ kind)

section Load
variable (fromChars : Bytes → Option ℚ) (files : Files)

def readJson (path : Path) : Except Exception Value :=
  match files.contents path with
  | none => invalid (lit "cannot open build metadata: " ++ path.text)
  | some contents =>
    match Json.parse fromChars contents with
    | .ok value => .ok value
    | .error e => invalid (lit "invalid build metadata " ++ path.text ++ lit ": JSON parse error at byte " ++
        decimal e.offset ++ lit ": " ++ e.message)

def normalizedPath (path base : Path) : Except Exception Path :=
  files.absoluteNormal (if path.isAbsolute then path else base.append path)

/-- The path of a member, below `base`. -/
def memberPath (object : Value) (key context : String) (base : Path) : Except Exception Path := do
  let path ← requireString object key context
  normalizedPath files ⟨path⟩ base

/-! ## Target replies -/

def isPublicHeaderSet (fileSet : Value) : Bool :=
  fileSet.stringOr (lit "type") [] == lit "HEADERS" &&
    (fileSet.stringOr (lit "visibility") [] == lit "PUBLIC" || fileSet.stringOr (lit "visibility") [] == lit "INTERFACE")

def isCxxGroup (group : Value) : Bool := group.stringOr (lit "language") [] == lit "CXX"

/-- The indexes of the items with a property. -/
def indexesOf (p : Value → Bool) (items : List Value) : List Nat :=
  (List.range items.length).filter fun i => p (items.getD i .null)

/-- The path of a source in a public file set. -/
def publicHeader (publicSets : List Nat) (sourceRoot : Path) (source : Value) : Except Exception (List Path) :=
  match source.find (lit "fileSetIndex") with
  | none => .ok []
  | some index => do
    let index ← requireIndex index "fileSetIndex"
    if index ∈ publicSets then
      let path ← memberPath files source "path" "CMake target source" sourceRoot
      .ok [path]
    else .ok []

/-- The path of a source that is compiled as C++. -/
def compiledSource (cxxGroups : List Nat) (sourceRoot : Path) (source : Value) : Except Exception (List Path) :=
  match source.find (lit "compileGroupIndex") with
  | some (.number n) => do
    let index ← requireIndex (.number n) "compileGroupIndex"
    if index ∈ cxxGroups then
      let path ← memberPath files source "path" "CMake target source" sourceRoot
      .ok [path]
    else .ok []
  | _ => .ok []

/-- A turn of the loop over the sources: public headers, and C++ sources. -/
def readSource (publicSets cxxGroups : List Nat) (sourceRoot : Path) (source : Value) :
    Except Exception (List Path × List Path) := do
  let headers ← publicHeader files publicSets sourceRoot source
  let sources ← compiledSource files cxxGroups sourceRoot source
  .ok (headers, sources)

/-- The command at a node of the backtrace graph, where the reply has one. -/
def commandName (nodes commands : List Value) (node : Nat) : Except Exception (Option Bytes) :=
  match nodes[node]? with
  | none => .ok none
  | some node =>
    match node.find (lit "command") with
    | some (.number n) => do
      let index ← requireIndex (.number n) "backtrace command"
      match commands[index]? with
      | some (.string name) => .ok (some name)
      | _ => .ok none
    | _ => .ok none

def dependencyIsLinked (target dependency : Value) : Except Exception Bool :=
  match dependency.find (lit "backtrace"), target.find (lit "backtraceGraph") with
  | some (.number n), some graph =>
    match graph.find (lit "nodes"), graph.find (lit "commands") with
    | some (.array nodes), some (.array commands) => do
      let node ← requireIndex (.number n) "dependency backtrace"
      let name ← commandName nodes commands node
      .ok (name != some (lit "add_dependencies"))
    | _, _ => .ok true
  | _, _ => .ok true

def readDependency (target dependency : Value) : Except Exception (List Bytes) := do
  if ← dependencyIsLinked target dependency then
    let id ← requireString dependency "id" "CMake target dependency"
    .ok [id]
  else .ok []

def parseCmakeTarget (targetFile sourceRoot buildRoot : Path) : Except Exception LoadedTarget := do
  let document ← readJson fromChars files targetFile
  match document with
  | .object _ =>
    let id ← requireString document "id" "CMake target"
    let name ← requireString document "name" "CMake target"
    let type ← requireString document "type" "CMake target"
    let kind ← parseTargetKind type
    let fileSets ← optionalArray document "fileSets" "CMake target fileSets must be an array"
    let groups ← optionalArray document "compileGroups" "CMake target compileGroups must be an array"
    let sources ← optionalArray document "sources" "CMake target sources must be an array"
    let read ← sources.mapM
      (readSource files (indexesOf isPublicHeaderSet fileSets) (indexesOf isCxxGroup groups) sourceRoot)
    let dependencies ← optionalArray document "dependencies" "CMake target dependencies must be an array"
    let linked ← dependencies.mapM (readDependency document)
    let artifacts ← optionalArray document "artifacts" "CMake target artifacts must be an array"
    let artifacts ← artifacts.mapM fun artifact => memberPath files artifact "path" "CMake target artifact" buildRoot
    .ok
      { id, name, kind, artifacts
        sources := sortPaths (read.map (·.2)).flatten
        dependencies := sortUnique linked.flatten
        publicHeaders := sortPaths (read.map (·.1)).flatten }
  | _ => invalid (lit "CMake target reply must be an object: " ++ targetFile.text)

/-! ## Replies of the file API -/

/-- `extension`, of a file name. -/
def extension (name : Bytes) : Bytes :=
  if name = Path.dotDot then []
  else
    match splitLast (ch '.') name with
    | some (_ :: _, rest) => ch '.' :: rest
    | _ => []

def isIndex (entry : DirectoryEntry) : Bool :=
  entry.isRegular && (lit "index-").isPrefixOf entry.name && extension entry.name == lit ".json"

/-- A turn of the loop over the directory. -/
def newer (selected : Option DirectoryEntry) (entry : DirectoryEntry) : Option DirectoryEntry :=
  if !isIndex entry then selected
  else
    match selected with
    | none => some entry
    | some s =>
      if s.modified < entry.modified ∨ entry.modified = s.modified ∧ s.name < entry.name then some entry else some s

def newestIndex (replyDirectory : Path) (listing : Listing) : Except Exception Path :=
  match listing.entries.foldl newer none with
  | some entry => .ok (replyDirectory.append ⟨entry.name⟩)
  | none => invalid (lit "no CMake File API index reply found in " ++ replyDirectory.text)

/-- The reference to a codemodel of version 2. -/
def isCodemodel (object : Value) : Bool :=
  object.stringOr (lit "kind") [] == lit "codemodel" &&
    match (object.find (lit "version")).bind (·.find (lit "major")) with
    | some (.number n) => n == 2
    | _ => false

/-- The file that a reference names. -/
def replyFile (directory : Path) (reference : Value) (context : String) : Except Exception Path := do
  let name ← requireString reference "jsonFile" context
  referencedFile directory name

/-- A reference names the target of its reply; the name is looked at only where the identifiers agree. -/
def isReferenced (target : LoadedTarget) (reference : Value) : Except Exception Bool := do
  let id ← requireString reference "id" "CMake target reference"
  if target.id ≠ id then .ok false
  else
    let name ← requireString reference "name" "CMake target reference"
    .ok (target.name == name)

def loadTarget (directory sourceRoot buildRoot : Path) (reference : Value) : Except Exception LoadedTarget := do
  let file ← replyFile directory reference "CMake target reference"
  let target ← parseCmakeTarget fromChars files file sourceRoot buildRoot
  let matching ← isReferenced target reference
  if matching then .ok target
  else invalid (lit "CMake target reference does not match target reply: " ++ file.text)

def loadConfiguration (directory sourceRoot buildRoot : Path) (value : Value) : Except Exception LoadedConfiguration := do
  let targets ← requireArray value "targets" "CMake configuration"
  let targets ← targets.mapM (loadTarget fromChars files directory sourceRoot buildRoot)
  .ok { name := value.stringOr (lit "name") [], targets }

def loadCodemodel (directory file : Path) : Except Exception LoadedModel := do
  let codemodel ← readJson fromChars files file
  let paths ← requireMember codemodel "paths" "CMake codemodel"
  let sourceRoot ← memberPath files paths "source" "CMake codemodel paths" file.parentPath
  let buildRoot ← memberPath files paths "build" "CMake codemodel paths" file.parentPath
  let configurations ← requireArray codemodel "configurations" "CMake codemodel"
  let configurations ← configurations.mapM (loadConfiguration fromChars files directory sourceRoot buildRoot)
  if configurations = [] then invalid (lit "CMake codemodel has no configurations")
  else .ok { sourceRoot, buildRoot, configurations }

def loadReplies (directory : Path) (listing : Listing) : Except Exception LoadedModel := do
  let indexFile ← newestIndex directory listing
  let index ← readJson fromChars files indexFile
  let objects ← requireArray index "objects" "CMake File API index"
  match objects.find? isCodemodel with
  | none => invalid (lit "CMake File API index has no codemodel-v2 reply")
  | some reference =>
    let file ← replyFile directory reference "CMake codemodel reference"
    loadCodemodel fromChars files directory file

def loadCmakeFileApi (buildDirectory : Path) : Except Exception LoadedModel := do
  let directory ← replyDirectory files.disk buildDirectory
  if !(← files.isDirectory directory) then
    invalid (lit "CMake File API reply directory does not exist: " ++ directory.text)
  else
    let listing ← files.entries directory
    loadReplies fromChars files directory listing

/-! ## Manifests -/

def manifestString (message : String) (value : Value) : Except Exception Bytes :=
  match value with
  | .string s => .ok s
  | _ => invalid (lit message)

def manifestNonempty (message : String) (value : Value) : Except Exception Bytes :=
  match value with
  | .string s => if s = [] then invalid (lit message) else .ok s
  | _ => invalid (lit message)

def manifestPath (message : String) (base : Path) (value : Value) : Except Exception Path := do
  let path ← manifestString message value
  normalizedPath files ⟨path⟩ base

def manifestHeader (sourceRoot : Path) (value : Value) : Except Exception Path := do
  let path ← manifestNonempty "manifest public header must be a string" value
  normalizedPath files ⟨path⟩ sourceRoot

def manifestHeaders (version : ℚ) (sourceRoot : Path) (target : Value) : Except Exception (List Path) :=
  match target.find (lit "public_headers") with
  | none => .ok []
  | some headers =>
    if version < 2 then invalid (lit "manifest target public_headers requires schema_version 2")
    else
      match headers with
      | .array items => sortPaths <$> items.mapM (manifestHeader files sourceRoot)
      | _ => invalid (lit "manifest target public_headers must be an array")

def manifestTarget (version : ℚ) (sourceRoot buildRoot : Path) (target : Value) : Except Exception LoadedTarget := do
  let id ← requireString target "id" "manifest target"
  let name ← requireString target "name" "manifest target"
  let type ← requireString target "type" "manifest target"
  let kind ← parseTargetKind type
  let sources ← requireArray target "sources" "manifest target"
  let sources ← sources.mapM (manifestPath files "manifest target source must be a string" sourceRoot)
  let dependencies ← optionalArray target "dependencies" "manifest target dependencies must be an array"
  let dependencies ← dependencies.mapM (manifestNonempty "manifest target dependency must be a string")
  let artifacts ← optionalArray target "artifacts" "manifest target artifacts must be an array"
  let artifacts ← artifacts.mapM (manifestPath files "manifest target artifact must be a string" buildRoot)
  let publicHeaders ← manifestHeaders files version sourceRoot target
  .ok { id, name, kind, sources, dependencies, artifacts, publicHeaders }

def manifestConfiguration (version : ℚ) (sourceRoot buildRoot : Path) (value : Value) :
    Except Exception LoadedConfiguration := do
  let name ← requireString value "name" "manifest configuration"
  let targets ← requireArray value "targets" "manifest configuration"
  let targets ← targets.mapM (manifestTarget files version sourceRoot buildRoot)
  .ok { name, targets }

def manifestVersion (document : Value) : Except Exception ℚ := do
  match ← requireMember document "schema_version" "target manifest" with
  | .number n => if n ≠ 1 ∧ n ≠ 2 then invalid (lit "target manifest schema_version must be 1 or 2") else .ok n
  | _ => invalid (lit "target manifest schema_version must be 1 or 2")

def loadTargetManifest (manifest : Path) : Except Exception LoadedModel := do
  let path ← files.absoluteNormal manifest
  let document ← readJson fromChars files path
  let version ← manifestVersion document
  let sourceRoot ← memberPath files document "source_root" "target manifest" path.parentPath
  let buildRoot ← memberPath files document "build_root" "target manifest" path.parentPath
  let configurations ← requireArray document "configurations" "target manifest"
  let configurations ← configurations.mapM (manifestConfiguration files version sourceRoot buildRoot)
  if configurations = [] then invalid (lit "target manifest has no configurations")
  else .ok { sourceRoot, buildRoot, configurations }

end Load

/-! ## The newest index -/

/-- The order in which indexes are preferred. -/
def newestKey (entry : DirectoryEntry) : Int ×ₗ Bytes := toLex (entry.modified, entry.name)

theorem newer_some {s entry : DirectoryEntry} (h : isIndex entry = true) :
    newer (some s) entry = if newestKey s < newestKey entry then some entry else some s := by
  have hkey : newestKey s < newestKey entry ↔
      s.modified < entry.modified ∨ entry.modified = s.modified ∧ s.name < entry.name := by
    rw [newestKey, newestKey, Prod.Lex.toLex_lt_toLex, eq_comm]
  unfold newer
  rw [h, if_neg (by decide)]
  simp only [hkey]

theorem newer_none {entry : DirectoryEntry} (h : isIndex entry = true) : newer none entry = some entry := by
  unfold newer
  rw [h, if_neg (by decide)]

theorem newer_skipped {entry : DirectoryEntry} (h : isIndex entry ≠ true) (selected : Option DirectoryEntry) :
    newer selected entry = selected := by
  unfold newer
  rw [Bool.eq_false_iff.2 h, if_pos (by decide)]

/-- Entries of different names are looked at in any order. -/
theorem newer_comm {a b : DirectoryEntry} (hname : a.name ≠ b.name) (selected : Option DirectoryEntry) :
    newer (newer selected a) b = newer (newer selected b) a := by
  by_cases ha : isIndex a = true
  · by_cases hb : isIndex b = true
    · have hkey : newestKey a ≠ newestKey b := fun h => hname (congrArg (fun k => (ofLex k).2) h)
      cases selected with
      | none =>
        rw [newer_none ha, newer_none hb, newer_some hb, newer_some ha]
        rcases lt_or_gt_of_ne hkey with h | h
        · rw [if_pos h, if_neg h.not_gt]
        · rw [if_neg h.not_gt, if_pos h]
      | some s =>
        rw [newer_some ha, newer_some hb]
        by_cases hsa : newestKey s < newestKey a
        · by_cases hsb : newestKey s < newestKey b
          · rw [if_pos hsa, if_pos hsb, newer_some hb, newer_some ha]
            rcases lt_or_gt_of_ne hkey with h | h
            · rw [if_pos h, if_neg h.not_gt]
            · rw [if_neg h.not_gt, if_pos h]
          · have hba : ¬newestKey a < newestKey b := fun h => hsb (hsa.trans h)
            rw [if_pos hsa, if_neg hsb, newer_some hb, newer_some ha, if_neg hba, if_pos hsa]
        · by_cases hsb : newestKey s < newestKey b
          · have hab : ¬newestKey b < newestKey a := fun h => hsa (hsb.trans h)
            rw [if_neg hsa, if_pos hsb, newer_some hb, newer_some ha, if_pos hsb, if_neg hab]
          · rw [if_neg hsa, if_neg hsb, newer_some hb, newer_some ha, if_neg hsa, if_neg hsb]
    · rw [newer_skipped hb, newer_skipped hb]
  · rw [newer_skipped ha, newer_skipped ha]

theorem newestIndex_perm {listing listing' : Listing} (h : listing.entries.Perm listing'.entries) (directory : Path) :
    newestIndex directory listing = newestIndex directory listing' := by
  have hfold : listing.entries.foldl newer none = listing'.entries.foldl newer none := by
    refine h.foldl_eq' (fun a ha b hb selected => ?_) none
    -- two entries have different names, so one of them is newer
    by_cases hab : a = b
    · rw [hab]
    · exact newer_comm (fun hname => hab (List.inj_on_of_nodup_map listing.distinct ha hb hname)) selected
  unfold newestIndex
  rw [hfold]

theorem newestIndex_mem {listing : Listing} {directory file : Path} (h : newestIndex directory listing = .ok file) :
    ∃ entry ∈ listing.entries, file = directory.append ⟨entry.name⟩ := by
  have hmem : ∀ (entries : List DirectoryEntry) (selected : Option DirectoryEntry),
      ∀ entry ∈ entries.foldl newer selected, entry ∈ selected ∨ entry ∈ entries := by
    intro entries
    induction entries with
    | nil => exact fun selected entry hentry => .inl hentry
    | cons next entries ih =>
      intro selected entry hentry
      rcases ih (newer selected next) entry hentry with hmem | hmem
      · unfold newer at hmem
        split at hmem
        · exact .inl hmem
        · split at hmem
          · obtain rfl := Option.some.inj hmem
            exact .inr List.mem_cons_self
          · split at hmem
            · obtain rfl := Option.some.inj hmem
              exact .inr List.mem_cons_self
            · exact .inl hmem
      · exact .inr (List.mem_cons_of_mem _ hmem)
  unfold newestIndex at h
  split at h
  · rename_i entry hentry
    rcases hmem listing.entries none entry hentry with hnone | hentries
    · cases hnone
    · exact ⟨entry, hentries, (Except.ok.inj h).symm⟩
  · cases h

/-! ## What the loader reads -/

/-- The same entries, perhaps listed in another order. -/
inductive SameListing : Except Exception Listing → Except Exception Listing → Prop where
  | listed {l l' : Listing} (h : l.entries.Perm l'.entries) : SameListing (.ok l) (.ok l')
  | failed (e : Exception) : SameListing (.error e) (.error e)

/-- Two file systems with the same reply directory. -/
structure SameReplies (directory : Path) (files files' : Files) : Prop where
  isDirectory : files.isDirectory directory = files'.isDirectory directory
  entries : SameListing (files.entries directory) (files'.entries directory)
  contents : ∀ path, directory.components <+: path.components → files.contents path = files'.contents path

theorem replyDirectory_joinNames {disk : Disk} (hcwd : ∀ cwd, disk.currentPath = .ok cwd → cwd.isAbsolute = true)
    {buildDirectory directory : Path} (h : replyDirectory disk buildDirectory = .ok directory) :
    ∃ kept, (∀ n ∈ kept, Path.Plain n) ∧ directory = ⟨Path.joinNames true kept⟩ := by
  obtain ⟨hnormal, hcomponents⟩ := replyDirectory_normal hcwd h
  obtain ⟨full, hfull, hdirectory⟩ := except_bind_ok_iff.1 h
  have hreply : Path.Plain (lit "reply") := ⟨by decide, by decide, by decide, by decide⟩
  have hv1 : Path.Plain (lit "v1") := ⟨by decide, by decide, by decide, by decide⟩
  have hapi : Path.Plain (lit "api") := ⟨by decide, by decide, by decide, by decide⟩
  have hcmake : Path.Plain (lit ".cmake") := ⟨by decide, by decide, by decide, by decide⟩
  obtain ⟨kept, hkept, heq⟩ := Path.lexicallyNormal_append (Path.isAbsolute_absolute hcwd hfull) hcmake
  refine ⟨kept ++ [lit "api"] ++ [lit "v1"] ++ [lit "reply"],
    Path.plain_concat (Path.plain_concat (Path.plain_concat hkept hapi) hv1) hreply, ?_⟩
  rw [← Except.ok.inj hdirectory, heq, Path.append_joinNames hkept hapi,
    Path.append_joinNames (Path.plain_concat hkept hapi) hv1,
    Path.append_joinNames (Path.plain_concat (Path.plain_concat hkept hapi) hv1) hreply]

theorem except_bind_congr {α β : Type} {m m' : Except Exception α} {f g : α → Except Exception β} (hm : m = m')
    (hf : ∀ a, m = .ok a → f a = g a) : m >>= f = m' >>= g := by
  subst hm
  cases m with
  | error e => rfl
  | ok a => exact hf a rfl

theorem except_ok_bind {α β : Type} (a : α) (f : α → Except Exception β) : (Except.ok a >>= f) = f a := rfl

theorem except_error_bind {α β : Type} (e : Exception) (f : α → Except Exception β) :
    ((Except.error e : Except Exception α) >>= f) = .error e := rfl

section Contained
variable {fromChars : Bytes → Option ℚ} {files files' : Files} {directory : Path}

theorem replyFile_inside (hdirectory : directory.IsAbsoluteNormal)
    (hcomponents : directory.directoryComponents = directory.components) {reference : Value} {context : String} {file : Path}
    (h : replyFile directory reference context = .ok file) : directory.components <+: file.components := by
  obtain ⟨name, -, hfile⟩ := except_bind_ok_iff.1 h
  rw [← hcomponents]
  exact ((referencedFile_eq_ok hdirectory name).1 hfile).2.2

theorem memberPath_congr (hcurrent : files.currentPath = files'.currentPath) : memberPath files = memberPath files' := by
  funext object key context base
  simp only [memberPath, normalizedPath, Files.absoluteNormal, hcurrent]

theorem readJson_congr {path : Path} (h : files.contents path = files'.contents path) :
    readJson fromChars files path = readJson fromChars files' path := by
  unfold readJson
  rw [h]

theorem parseCmakeTarget_congr (hcurrent : files.currentPath = files'.currentPath) {path : Path}
    (h : files.contents path = files'.contents path) (sourceRoot buildRoot : Path) :
    parseCmakeTarget fromChars files path sourceRoot buildRoot =
      parseCmakeTarget fromChars files' path sourceRoot buildRoot := by
  have hsource : readSource files = readSource files' := by
    funext publicSets cxxGroups root source
    simp only [readSource, publicHeader, compiledSource, memberPath_congr hcurrent]
  unfold parseCmakeTarget
  rw [readJson_congr h, hsource, memberPath_congr hcurrent]

theorem loadTarget_congr (hcurrent : files.currentPath = files'.currentPath)
    (h : SameReplies directory files files') (hdirectory : directory.IsAbsoluteNormal)
    (hcomponents : directory.directoryComponents = directory.components) (sourceRoot buildRoot : Path) :
    loadTarget fromChars files directory sourceRoot buildRoot =
      loadTarget fromChars files' directory sourceRoot buildRoot := by
  funext reference
  refine except_bind_congr rfl fun file hfile => ?_
  rw [parseCmakeTarget_congr hcurrent (h.contents file (replyFile_inside hdirectory hcomponents hfile))]

theorem loadCodemodel_congr (hcurrent : files.currentPath = files'.currentPath)
    (h : SameReplies directory files files') (hdirectory : directory.IsAbsoluteNormal)
    (hcomponents : directory.directoryComponents = directory.components) {file : Path}
    (hfile : directory.components <+: file.components) :
    loadCodemodel fromChars files directory file = loadCodemodel fromChars files' directory file := by
  have hconfiguration : ∀ sourceRoot buildRoot, loadConfiguration fromChars files directory sourceRoot buildRoot =
      loadConfiguration fromChars files' directory sourceRoot buildRoot := by
    intro sourceRoot buildRoot
    funext value
    unfold loadConfiguration
    rw [loadTarget_congr hcurrent h hdirectory hcomponents]
  unfold loadCodemodel
  simp only [readJson_congr (h.contents file hfile), memberPath_congr hcurrent, hconfiguration]

theorem loadReplies_congr (hcurrent : files.currentPath = files'.currentPath)
    (h : SameReplies directory files files') (hdirectory : directory.IsAbsoluteNormal)
    (hcomponents : directory.directoryComponents = directory.components) {listing listing' : Listing}
    (hlisting : listing.entries.Perm listing'.entries)
    (hinside : ∀ n, Path.Plain n → directory.components <+: (directory.append ⟨n⟩).components) :
    loadReplies fromChars files directory listing = loadReplies fromChars files' directory listing' := by
  unfold loadReplies
  refine except_bind_congr (newestIndex_perm hlisting directory) fun indexFile hindex => ?_
  obtain ⟨entry, -, rfl⟩ := newestIndex_mem hindex
  refine except_bind_congr (readJson_congr (h.contents _ (hinside entry.name entry.plain))) fun index _ => ?_
  refine except_bind_congr rfl fun objects _ => ?_
  split
  · rfl
  · refine except_bind_congr rfl fun file hfile => ?_
    exact loadCodemodel_congr hcurrent h hdirectory hcomponents (replyFile_inside hdirectory hcomponents hfile)

theorem components_append_joinNames {kept : List Bytes} (hkept : ∀ n ∈ kept, Path.Plain n) {n : Bytes} (hn : Path.Plain n) :
    (Path.mk (Path.joinNames true kept)).components <+: ((Path.mk (Path.joinNames true kept)).append ⟨n⟩).components := by
  have hcomponents : ∀ names : List Bytes, (∀ n ∈ names, Path.Plain n) →
      (Path.mk (Path.joinNames true names)).components = [Path.slash] :: names := fun names hnames => by
    rw [Path.components_eq (Path.isAbsolute_joinNames (Path.isNames_plain hnames) true),
      Path.names_joinNames (Path.isNames_plain hnames)]
  rw [Path.append_joinNames hkept hn, hcomponents kept hkept, hcomponents _ (Path.plain_concat hkept hn)]
  exact ⟨[n], rfl⟩

/-- The loader depends on nothing outside of the reply directory, and not on the order
in which the directory is listed. -/
theorem loadCmakeFileApi_contained (hcwd : ∀ cwd, files.currentPath = .ok cwd → cwd.isAbsolute = true)
    (hcurrent : files.currentPath = files'.currentPath) (buildDirectory : Path)
    (h : ∀ directory, replyDirectory files.disk buildDirectory = .ok directory → SameReplies directory files files') :
    loadCmakeFileApi fromChars files buildDirectory = loadCmakeFileApi fromChars files' buildDirectory := by
  have hdisk : files.disk = files'.disk := by rw [Files.disk, Files.disk, hcurrent]
  unfold loadCmakeFileApi
  refine except_bind_congr (by rw [hdisk]) fun directory hreply => ?_
  have hsame := h directory hreply
  obtain ⟨hdirectory, hcomponents⟩ := replyDirectory_normal hcwd hreply
  have hinside : ∀ n, Path.Plain n → directory.components <+: (directory.append ⟨n⟩).components := by
    obtain ⟨kept, hkept, rfl⟩ := replyDirectory_joinNames hcwd hreply
    exact fun n hn => components_append_joinNames hkept hn
  refine except_bind_congr hsame.isDirectory fun isDirectory _ => ?_
  split
  · rfl
  · have hentries := hsame.entries
    generalize files.entries directory = listing at hentries
    generalize files'.entries directory = listing' at hentries
    cases hentries with
    | failed e => rw [except_error_bind, except_error_bind]
    | listed hperm =>
      rw [except_ok_bind, except_ok_bind]
      exact loadReplies_congr hcurrent hsame hdirectory hcomponents hperm hinside

end Contained

def firstIndex : DirectoryEntry := ⟨lit "index-1.json", true, 1, ⟨by decide, by decide, by decide, by decide⟩⟩

def secondIndex : DirectoryEntry := ⟨lit "index-2.json", true, 2, ⟨by decide, by decide, by decide, by decide⟩⟩

def listedForward : Listing := ⟨[firstIndex, secondIndex], by decide⟩

def listedBackward : Listing := ⟨[secondIndex, firstIndex], by decide⟩

def indexReply : Bytes :=
  lit "\x7b\"objects\":[\x7b\"kind\":\"codemodel\",\"version\":\x7b\"major\":2\x7d,\"jsonFile\":\"m.json\"\x7d]\x7d"

def codemodelReply : Bytes :=
  lit "\x7b\"paths\":\x7b\"source\":\"/w\",\"build\":\"/w/build\"\x7d,\"configurations\":[\x7b\"name\":\"Debug\"," ++
    lit "\"targets\":[\x7b\"jsonFile\":\"t.json\",\"id\":\"app::1\",\"name\":\"app\"\x7d]\x7d]\x7d"

def targetReply : Bytes :=
  lit "\x7b\"id\":\"app::1\",\"name\":\"app\",\"type\":\"EXECUTABLE\",\"compileGroups\":[\x7b\"language\":\"CXX\"\x7d]," ++
    lit "\"sources\":[\x7b\"path\":\"main.cpp\",\"compileGroupIndex\":0\x7d]\x7d"

/-- The replies to a build of `/w` in `/w/build`, and a file outside of them. -/
def replyFiles (listing : Listing) (outside : Option Bytes) : Files where
  currentPath := .ok ⟨lit "/w"⟩
  contents path :=
    if path = ⟨lit "/etc/codemodel.json"⟩ then outside
    else if path.text = lit "/w/build/.cmake/api/v1/reply/index-2.json" then some indexReply
    else if path.text = lit "/w/build/.cmake/api/v1/reply/m.json" then some codemodelReply
    else if path.text = lit "/w/build/.cmake/api/v1/reply/t.json" then some targetReply
    else none
  isDirectory _ := .ok true
  entries _ := .ok listing

def appFiles : Files := replyFiles listedForward none

theorem appFiles_absolute : ∀ cwd, appFiles.currentPath = .ok cwd → cwd.isAbsolute = true :=
  fun _ hcwd => Except.ok.inj hcwd ▸ rfl

def appModel : LoadedModel where
  sourceRoot := ⟨lit "/w"⟩
  buildRoot := ⟨lit "/w/build"⟩
  configurations :=
    [{ name := lit "Debug"
       targets := [{ id := lit "app::1", name := lit "app", kind := .executable, sources := [⟨lit "/w/main.cpp"⟩] }] }]

theorem ok_of_toOption {α : Type} {m : Except Exception α} {a : α} (h : m.toOption = some a) : m = .ok a := by
  cases m with
  | error e => cases h
  | ok b => exact congrArg Except.ok (Option.some.inj h)

theorem appModel_loaded : loadCmakeFileApi Artifact.integerFromChars appFiles ⟨lit "build"⟩ = .ok appModel :=
  ok_of_toOption (by decide +kernel)

theorem replyFiles_same {directory : Path} (h : replyDirectory workDisk ⟨lit "build"⟩ = .ok directory)
    (outside : Option Bytes) : SameReplies directory appFiles (replyFiles listedBackward outside) := by
  refine ⟨rfl, .listed (List.Perm.swap _ _ _), fun path hpath => ?_⟩
  have hdirectory : (⟨lit "/w/build/.cmake/api/v1/reply"⟩ : Path) = directory := Except.ok.inj h
  have hne : path ≠ ⟨lit "/etc/codemodel.json"⟩ := by
    rintro rfl
    rw [← hdirectory] at hpath
    exact absurd hpath (by decide)
  exact (if_neg hne).trans (if_neg hne).symm

theorem appFiles_currentPath : appFiles.currentPath = .ok ⟨lit "/w"⟩ := rfl

theorem appFiles_disk : appFiles.disk = workDisk := rfl

theorem replyFiles_currentPath (listing : Listing) (outside : Option Bytes) :
    (replyFiles listing outside).currentPath = .ok ⟨lit "/w"⟩ := rfl

/-- The model is the one of the target, also with a file outside and the entries listed backward. -/
theorem replyFiles_contained :
    loadCmakeFileApi Artifact.integerFromChars appFiles ⟨lit "build"⟩ =
      loadCmakeFileApi Artifact.integerFromChars (replyFiles listedBackward (some (lit "[]"))) ⟨lit "build"⟩ ∧
    loadCmakeFileApi Artifact.integerFromChars (replyFiles listedBackward (some (lit "[]"))) ⟨lit "build"⟩ =
      .ok appModel := by
  have hsame : loadCmakeFileApi Artifact.integerFromChars appFiles ⟨lit "build"⟩ =
      loadCmakeFileApi Artifact.integerFromChars (replyFiles listedBackward (some (lit "[]"))) ⟨lit "build"⟩ := by
    apply loadCmakeFileApi_contained
    · exact appFiles_absolute
    · rw [appFiles_currentPath, replyFiles_currentPath]
    · intro directory hreply
      rw [appFiles_disk] at hreply
      exact replyFiles_same hreply (some (lit "[]"))
  exact ⟨hsame, hsame.symm.trans appModel_loaded⟩

end BuildMetadata

end CxxDead
