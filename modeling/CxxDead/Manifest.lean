import CxxDead.TargetReplies
/-!
# Manifests

A model in normal form can be written as a manifest, and what the loader reads from
there is the model again. The replies of CMake are models in normal form.

- `loadTargetManifest_value`: writing a model and loading it gives it back.
- `manifest_of_replies`: a manifest can stand in for the replies of CMake.
-/

namespace CxxDead

open Lib

def BuildTargetKind.toText : BuildTargetKind → Bytes
  | executable => lit "executable" | staticLibrary => lit "static_library" | sharedLibrary => lit "shared_library"
  | moduleLibrary => lit "module_library" | objectLibrary => lit "object_library"
  | interfaceLibrary => lit "interface_library" | utility => lit "utility"

namespace BuildMetadata

open Json Artifact

/-! ## Models in normal form -/

structure Settled (p : Path) : Prop where
  isAbsolute : p.isAbsolute = true
  normal : p.lexicallyNormal = p

structure LoadedTarget.Normal (t : LoadedTarget) : Prop where
  id : t.id ≠ []
  name : t.name ≠ []
  sources : ∀ p ∈ t.sources, Settled p
  dependencies : ∀ d ∈ t.dependencies, d ≠ []
  artifacts : ∀ p ∈ t.artifacts, Settled p
  publicHeaders : ∀ p ∈ t.publicHeaders, Settled p
  sortedHeaders : t.publicHeaders.Pairwise fun p q => pathOrder p < pathOrder q

structure LoadedModel.Normal (m : LoadedModel) : Prop where
  sourceRoot : Settled m.sourceRoot
  buildRoot : Settled m.buildRoot
  nonempty : m.configurations ≠ []
  targets : ∀ c ∈ m.configurations, ∀ t ∈ c.targets, t.Normal

/-! ## Writing a manifest -/

def pathValue (p : Path) : Value := .string p.text

def targetLayout : Layout := ⟨["id", "name", "type", "sources", "dependencies", "artifacts", "public_headers"], by decide⟩

def targetValues (t : LoadedTarget) : List Value :=
  [.string t.id, .string t.name, .string t.kind.toText, .array (t.sources.map pathValue),
    .array (t.dependencies.map .string), .array (t.artifacts.map pathValue), .array (t.publicHeaders.map pathValue)]

def targetValue (t : LoadedTarget) : Value := objectOf targetLayout (targetValues t)

def pathText (p : Path) : Bytes := quoted p.text

def targetText (t : LoadedTarget) : Bytes :=
  inlineObject (targetLayout.names.zip
    [quoted t.id, quoted t.name, quoted t.kind.toText, inlineArray (t.sources.map pathText),
      inlineArray (t.dependencies.map quoted), inlineArray (t.artifacts.map pathText),
      inlineArray (t.publicHeaders.map pathText)])

def configurationLayout : Layout := ⟨["name", "targets"], by decide⟩

def configurationValues (c : LoadedConfiguration) : List Value := [.string c.name, .array (c.targets.map targetValue)]

def configurationValue (c : LoadedConfiguration) : Value := objectOf configurationLayout (configurationValues c)

def configurationText (c : LoadedConfiguration) : Bytes :=
  inlineObject (configurationLayout.names.zip [quoted c.name, inlineArray (c.targets.map targetText)])

def manifestLayout : Layout := ⟨["schema_version", "source_root", "build_root", "configurations"], by decide⟩

def manifestValues (m : LoadedModel) : List Value :=
  [.number (2 : Nat), pathValue m.sourceRoot, pathValue m.buildRoot, .array (m.configurations.map configurationValue)]

def manifestValue (m : LoadedModel) : Value := objectOf manifestLayout (manifestValues m)

/-- A manifest for a model, in the newest schema. -/
def manifestText (m : LoadedModel) : Bytes :=
  inlineObject (manifestLayout.names.zip
    [decimal 2, pathText m.sourceRoot, pathText m.buildRoot, inlineArray (m.configurations.map configurationText)])

section Printed
variable {fromChars : Bytes → Option ℚ}

theorem printed_path (p : Path) : Printed fromChars (pathValue p) (pathText p) := .string p.text

theorem printed_target (t : LoadedTarget) : Printed fromChars (targetValue t) (targetText t) :=
  printed_inlineObject targetLayout (.cons (.string t.id) <| .cons (.string t.name) <| .cons (.string t.kind.toText) <|
    .cons (printed_inlineArray t.sources fun p _ => printed_path p) <|
    .cons (printed_inlineArray t.dependencies fun d _ => .string d) <|
    .cons (printed_inlineArray t.artifacts fun p _ => printed_path p) <|
    .cons (printed_inlineArray t.publicHeaders fun p _ => printed_path p) .nil) rfl (by decide)

theorem printed_configuration (c : LoadedConfiguration) : Printed fromChars (configurationValue c) (configurationText c) :=
  printed_inlineObject configurationLayout (.cons (.string c.name) <|
    .cons (printed_inlineArray c.targets fun t _ => printed_target t) .nil) rfl (by decide)

theorem printed_manifest (hnumber : fromChars (decimal 2) = some (2 : Nat)) (m : LoadedModel) :
    Printed fromChars (manifestValue m) (manifestText m) :=
  printed_inlineObject manifestLayout (.cons (.number hnumber) <| .cons (printed_path m.sourceRoot) <|
    .cons (printed_path m.buildRoot) <|
    .cons (printed_inlineArray m.configurations fun c _ => printed_configuration c) .nil) rfl (by decide)

end Printed

/-! ## Reading a manifest -/

theorem find_objectOf {layout : Layout} {values : List Value} (hlen : layout.names.length = values.length) {name : String}
    {v : Value} (h : (layout.members values).lookup (lit name) = some v) :
    (objectOf layout values).find (lit name) = some v := by
  obtain ⟨members, -, hobject, hperm⟩ := objectOf_eq hlen
  have hnodup : ((layout.members values).map (·.1)).Nodup := by
    rw [Layout.members_keys hlen]
    exact layout.distinct
  rw [hobject]
  show members.lookup (lit name) = some v
  rw [lookup_perm hnodup hperm.symm, h]

theorem requireArray_of_find {object : Value} {key context : String} {items : List Value}
    (h : object.find (lit key) = some (.array items)) : requireArray object key context = .ok items :=
  except_bind_eq (requireMember_ok_iff.2 h) rfl

theorem optionalArray_of_find {object : Value} {key message : String} {items : List Value}
    (h : object.find (lit key) = some (.array items)) : optionalArray object key message = .ok items := by
  unfold optionalArray
  rw [h]

theorem parseTargetKind_toText (kind : BuildTargetKind) : parseTargetKind kind.toText = .ok kind := by
  cases kind <;> decide

section Read
variable {files : Files}

theorem Settled.nonempty {p : Path} (hp : Settled p) : p.text ≠ [] := by
  intro h
  have habsolute := hp.isAbsolute
  rw [Path.isAbsolute, h] at habsolute
  cases habsolute

theorem normalizedPath_settled {p : Path} (hp : Settled p) (base : Path) : normalizedPath files p base = .ok p := by
  have hne : ¬ p.isEmpty = true := fun h => hp.nonempty (List.isEmpty_iff.1 h)
  unfold normalizedPath Files.absoluteNormal Path.absolute
  rw [if_pos hp.isAbsolute, if_neg hne, if_pos hp.isAbsolute]
  exact congrArg _ hp.normal

theorem memberPath_settled {object : Value} {key context : String} {p : Path} (hp : Settled p)
    (h : object.find (lit key) = some (pathValue p)) (base : Path) : memberPath files object key context base = .ok p :=
  except_bind_eq (requireString_ok_iff.2 ⟨h, hp.nonempty⟩) (normalizedPath_settled hp base)

theorem sortPaths_of_sorted {paths : List Path} (h : paths.Pairwise fun p q => pathOrder p < pathOrder q) :
    sortPaths paths = paths := by
  rw [sortPaths, sortOn_of_pairwise pathOrder (h.imp le_of_lt)]
  exact uniqueOn_of_pairwise (h.imp fun hlt heq => hlt.ne (pathOrder_eq_iff.2 heq))

theorem manifestTarget_value {t : LoadedTarget} (ht : t.Normal) (sourceRoot buildRoot : Path) :
    manifestTarget files (2 : Nat) sourceRoot buildRoot (targetValue t) = .ok t := by
  have hfind : ∀ {name : String} {v : Value}, (targetLayout.members (targetValues t)).lookup (lit name) = some v →
      (targetValue t).find (lit name) = some v := find_objectOf rfl
  have hpath : ∀ (message : String) (base p : Path), Settled p → manifestPath files message base (pathValue p) = .ok p :=
    fun message base p hp => normalizedPath_settled hp base
  have hheader : ∀ p, Settled p → manifestHeader files sourceRoot (pathValue p) = .ok p := fun p hp =>
    except_bind_eq (if_neg hp.nonempty) (normalizedPath_settled hp sourceRoot)
  have hheaders : manifestHeaders files (2 : Nat) sourceRoot (targetValue t) = .ok t.publicHeaders := by
    unfold manifestHeaders
    rw [@hfind "public_headers" (.array (t.publicHeaders.map pathValue)) rfl]
    show (if _ then _ else sortPaths <$> (t.publicHeaders.map pathValue).mapM (manifestHeader files sourceRoot)) = _
    rw [if_neg (by norm_num), mapM_ok t.publicHeaders fun p hp => hheader p (ht.publicHeaders p hp)]
    exact congrArg Except.ok (sortPaths_of_sorted ht.sortedHeaders)
  refine except_bind_eq (requireString_ok_iff.2 ⟨hfind rfl, ht.id⟩) ?_
  refine except_bind_eq (requireString_ok_iff.2 ⟨hfind rfl, ht.name⟩) ?_
  refine except_bind_eq (requireString_ok_iff.2 ⟨@hfind "type" (.string t.kind.toText) rfl, ?_⟩) ?_
  · cases t.kind <;> decide
  refine except_bind_eq (parseTargetKind_toText t.kind) ?_
  refine except_bind_eq (requireArray_of_find (@hfind "sources" (.array (t.sources.map pathValue)) rfl)) ?_
  refine except_bind_eq (mapM_ok t.sources fun p hp => hpath _ _ p (ht.sources p hp)) ?_
  refine except_bind_eq (optionalArray_of_find (@hfind "dependencies" (.array (t.dependencies.map .string)) rfl)) ?_
  refine except_bind_eq (mapM_ok t.dependencies fun d hd => if_neg (ht.dependencies d hd)) ?_
  refine except_bind_eq (optionalArray_of_find (@hfind "artifacts" (.array (t.artifacts.map pathValue)) rfl)) ?_
  refine except_bind_eq (mapM_ok t.artifacts fun p hp => hpath _ _ p (ht.artifacts p hp)) ?_
  exact except_bind_eq hheaders rfl

theorem manifestConfiguration_value {c : LoadedConfiguration} (hname : c.name ≠ []) (hc : ∀ t ∈ c.targets, t.Normal)
    (sourceRoot buildRoot : Path) :
    manifestConfiguration files (2 : Nat) sourceRoot buildRoot (configurationValue c) = .ok c := by
  have hfind : ∀ {name : String} {v : Value},
      (configurationLayout.members (configurationValues c)).lookup (lit name) = some v →
      (configurationValue c).find (lit name) = some v := find_objectOf rfl
  refine except_bind_eq (requireString_ok_iff.2 ⟨hfind rfl, hname⟩) ?_
  refine except_bind_eq (requireArray_of_find (@hfind "targets" (.array (c.targets.map targetValue)) rfl)) ?_
  exact except_bind_eq (mapM_ok c.targets fun t ht => manifestTarget_value (hc t ht) sourceRoot buildRoot) rfl

/-- A model in normal form is what the loader reads from the manifest written for it. -/
theorem loadTargetManifest_value {fromChars : Bytes → Option ℚ} (hnumber : fromChars (decimal 2) = some (2 : Nat))
    {m : LoadedModel} (hm : m.Normal) (hnames : ∀ c ∈ m.configurations, c.name ≠ []) {manifest path : Path}
    (hpath : files.absoluteNormal manifest = .ok path) (hcontents : files.contents path = some (manifestText m)) :
    loadTargetManifest fromChars files manifest = .ok m := by
  have hfind : ∀ {name : String} {v : Value}, (manifestLayout.members (manifestValues m)).lookup (lit name) = some v →
      (manifestValue m).find (lit name) = some v := find_objectOf rfl
  have hread : readJson fromChars files path = .ok (manifestValue m) := by
    have hparse := (printed_manifest hnumber m).parse (List.forall_mem_nil _)
    rw [List.append_nil] at hparse
    unfold readJson
    rw [hcontents]
    dsimp only
    rw [hparse]
  have hversion : manifestVersion (manifestValue m) = .ok ((2 : Nat) : ℚ) :=
    except_bind_eq (requireMember_ok_iff.2 (@hfind "schema_version" (.number (2 : Nat)) rfl)) (if_neg (by norm_num))
  refine except_bind_eq hpath ?_
  refine except_bind_eq hread ?_
  refine except_bind_eq hversion ?_
  refine except_bind_eq (memberPath_settled hm.sourceRoot (@hfind "source_root" (pathValue m.sourceRoot) rfl) _) ?_
  refine except_bind_eq (memberPath_settled hm.buildRoot (@hfind "build_root" (pathValue m.buildRoot) rfl) _) ?_
  refine except_bind_eq (requireArray_of_find
    (@hfind "configurations" (.array (m.configurations.map configurationValue)) rfl)) ?_
  refine except_bind_eq (mapM_ok m.configurations fun c hc =>
    manifestConfiguration_value (hnames c hc) (hm.targets c hc) m.sourceRoot m.buildRoot) ?_
  exact if_neg hm.nonempty

end Read

/-! ## Replies as manifests -/

theorem settled_lexicallyNormal {p : Path} (hp : p.isAbsolute = true) : Settled p.lexicallyNormal := by
  refine ⟨(Path.lexicallyNormal_isAbsoluteNormal hp).isAbsolute, ?_⟩
  obtain ⟨kept, hkept, heq | ⟨hne, heq⟩⟩ := Path.lexicallyNormal_eq hp
  · rw [heq, Path.lexicallyNormal_joinNames hkept]
  · rw [heq, Path.lexicallyNormal_trailing hkept hne]

section Replies
variable {fromChars : Bytes → Option ℚ} {files : Files}
  (hcwd : ∀ cwd, files.currentPath = .ok cwd → cwd.isAbsolute = true)
include hcwd

theorem settled_absoluteNormal {path full : Path} (h : files.absoluteNormal path = .ok full) : Settled full := by
  obtain ⟨p, hp, rfl⟩ := absoluteNormal_ok hcwd h
  exact settled_lexicallyNormal hp

theorem settled_memberPath {object : Value} {key context : String} {base p : Path}
    (h : memberPath files object key context base = .ok p) : Settled p := by
  obtain ⟨text, -, hp⟩ := except_bind_ok_iff.1 h
  exact settled_absoluteNormal hcwd hp

theorem parseCmakeTarget_normal {file sourceRoot buildRoot : Path} {target : LoadedTarget}
    (h : parseCmakeTarget fromChars files file sourceRoot buildRoot = .ok target) : target.Normal := by
  obtain ⟨document, -, htold⟩ := parseCmakeTarget_says hcwd h
  have hsettled : ∀ object base p, PathAt files object base p → Settled p := fun object base p hp => by
    obtain ⟨text, -, hp⟩ := hp
    exact settled_absoluteNormal hcwd hp
  refine ⟨htold.id.2, htold.name.2, fun p hp => ?_, fun d hd => ?_, fun p hp => ?_, fun p hp => ?_, htold.sortedHeaders⟩
  · obtain ⟨source, -, -, hpath⟩ := (htold.sources p).1 hp
    exact hsettled source sourceRoot p hpath
  · obtain ⟨dependency, -, -, hid⟩ := (htold.dependencies d).1 hd
    exact hid.2
  · obtain ⟨artifact, -, hpath⟩ := (htold.artifacts p).1 hp
    exact hsettled artifact buildRoot p hpath
  · obtain ⟨source, -, -, hpath⟩ := (htold.publicHeaders p).1 hp
    exact hsettled source sourceRoot p hpath

theorem loadCmakeFileApi_normal {buildDirectory : Path} {m : LoadedModel}
    (h : loadCmakeFileApi fromChars files buildDirectory = .ok m) : m.Normal := by
  obtain ⟨directory, -, hloaded⟩ := loadCmakeFileApi_ok h
  obtain ⟨paths, base, hsource⟩ := hloaded.sourceRoot
  obtain ⟨paths', base', hbuild⟩ := hloaded.buildRoot
  refine ⟨settled_memberPath hcwd hsource, settled_memberPath hcwd hbuild, hloaded.nonempty, fun c hc t ht => ?_⟩
  obtain ⟨reference, hreference⟩ := hloaded.targets c hc t ht
  obtain ⟨file, -, htarget⟩ := loadTarget_ok hreference
  exact parseCmakeTarget_normal hcwd htarget

end Replies

/-- What CMake replies can be written down as a manifest: the model that is loaded from
there, wherever it lies, is the one that the replies give. -/
theorem manifest_of_replies {fromChars : Bytes → Option ℚ} (hnumber : fromChars (decimal 2) = some (2 : Nat))
    {files files' : Files} (hcwd : ∀ cwd, files.currentPath = .ok cwd → cwd.isAbsolute = true) {buildDirectory : Path}
    {m : LoadedModel} (hm : loadCmakeFileApi fromChars files buildDirectory = .ok m)
    (hnames : ∀ c ∈ m.configurations, c.name ≠ []) {manifest path : Path}
    (hpath : files'.absoluteNormal manifest = .ok path) (hcontents : files'.contents path = some (manifestText m)) :
    loadTargetManifest fromChars files' manifest = .ok m :=
  loadTargetManifest_value hnumber (loadCmakeFileApi_normal hcwd hm) hnames hpath hcontents

/-- A manifest of `appModel`, in another place. -/
def manifestFiles : Files where
  currentPath := .ok ⟨lit "/elsewhere"⟩
  contents _ := some (manifestText appModel)
  isDirectory _ := .ok false
  entries _ := .ok ⟨[], List.nodup_nil⟩

theorem appModel_manifest : loadTargetManifest integerFromChars manifestFiles ⟨lit "app.json"⟩ = .ok appModel :=
  manifest_of_replies (integerFromChars_decimal 2) appFiles_absolute appModel_loaded (by decide) rfl rfl

end BuildMetadata

end CxxDead
