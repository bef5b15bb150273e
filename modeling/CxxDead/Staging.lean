import CxxDead.Artifact
import CxxDead.Cache
import CxxDead.StableKey
import Mathlib.Logic.Relation
/-!
# Looking up and staging cache entries

A cache entry is looked up by its key. A new entry is written to a temporary
file, which a `StagedCacheWrite` owns until it is renamed onto its destination
or removed. A path that has been moved from is empty. Nobody looks at whether a
file could be removed, so that a temporary stays where the file system refuses.

- `Owned.step`: whatever is done with such objects, every temporary file belongs
  to exactly one of them, unless its removal was refused.
- `objects_run`: what a run of such steps leaves on the disk.
-/

namespace CxxDead

open Lib Relation

/-! ## Entries -/

def entryPath (directory : Path) (key : Bytes) : Path :=
  ((directory.append ⟨lit "v" ++ decimal translationUnitCacheSchemaVersion⟩).append ⟨key.take 2⟩).append
    ⟨key ++ lit ".cache"⟩

/-- What opening and reading a cache file finds. -/
inductive CacheFile where
  | missing | cannotOpen | cannotRead
  | text (contents : Bytes)

structure CacheLookupResult where
  entry : Option TranslationUnitCacheEntry := none
  bytesRead : Nat := 0
  warnings : List Bytes := []

def isDigest (digest : Bytes) : Bool :=
  digest.length == 64 && digest.all fun c => (ch '0' ≤ c && c ≤ ch '9') || (ch 'a' ≤ c && c ≤ ch 'f')

/-- Whether all dependencies have the digests that the entry says. -/
def dependenciesMatch (sha256File : Path → Except Exception Bytes) : List CacheDependency → Except Exception Bool
  | [] => .ok true
  | dependency :: rest => do
    if !isDigest dependency.digest then throw (.runtimeError (lit "invalid cache dependency digest"))
    let digest ← sha256File dependency.path
    if digest ≠ dependency.digest then pure false else dependenciesMatch sha256File rest

/-- The entry in a text that could be read, unless a dependency has changed. -/
def usableEntry (key contents : Bytes) (cwd requiredSource : Path) (sha256File : Path → Except Exception Bytes) :
    Except Exception (Option TranslationUnitCacheEntry) := do
  let entry ← readEntry key contents
  let normalizedSource := (← requiredSource.absolute (.ok cwd)).lexicallyNormal
  if !entry.dependencies.any fun dependency => dependency.path.same normalizedSource then
    throw (.runtimeError (lit "cache dependency manifest omitted the primary source"))
  if ← dependenciesMatch sha256File entry.dependencies then pure (some entry) else pure none

/-- `cwd` is the current directory, and `sha256File` hashes files as they are at the time. -/
def loadTranslationUnitCache (cwd directory : Path) (key : Bytes) (requiredSource : Path) (file : CacheFile)
    (sha256File : Path → Except Exception Bytes) : CacheLookupResult :=
  let ignored := fun (e : Exception) =>
    lit "ignored unusable translation-unit cache entry " ++ (entryPath directory key).text ++ lit ": " ++ Artifact.what e
  match file with
  | .missing => {}
  | .cannotOpen => { warnings := [ignored (.runtimeError (lit "cannot open cache entry"))] }
  | .cannotRead => { warnings := [ignored (.runtimeError (lit "cannot read cache entry"))] }
  | .text contents =>
    match usableEntry key contents cwd requiredSource sha256File with
    | .ok entry => { entry, bytesRead := contents.length }
    | .error e => { bytesRead := contents.length, warnings := [ignored e] }

/-! ## The cache directory -/

/-- The files of the cache directory, the counter that numbers temporaries, and
which removals the file system refuses (the `n`-th one, of a path). The other
fields only record what a run has done: the files it could not remove, the
temporaries it has created, the writes it has staged, the destinations it has tried
to replace, and the renames that succeeded. -/
structure CacheDirectory where
  files : Path → Option Bytes
  stageCounter : Nat := 0
  refuses : Nat → Path → Bool := fun _ _ => false
  removals : Nat := 0
  refused : List Path := []
  created : List Path := []
  staged : List (Path × Path) := []
  committed : List Path := []
  published : List (Path × Path) := []

namespace CacheDirectory

def write (d : CacheDirectory) (path : Path) (contents : Bytes) : CacheDirectory :=
  { d with files := Function.update d.files path (some contents) }

/-- `std::filesystem::remove` with an error code that nobody reads. -/
def remove (d : CacheDirectory) (path : Path) : CacheDirectory :=
  { d with
    files := if d.refuses d.removals path then d.files else Function.update d.files path none
    removals := d.removals + 1
    refused := if d.refuses d.removals path then d.refused ++ [path] else d.refused }

def rename (d : CacheDirectory) («from» «to» : Path) : CacheDirectory :=
  { d with
    files := Function.update (Function.update d.files «to» (d.files «from»)) «from» none
    published := d.published ++ [(«from», «to»)] }

/-- The path was to be removed, and the file system refused. -/
def Refused (d : CacheDirectory) (path : Path) : Prop := path ∈ d.refused ∧ ∃ n, d.refuses n path = true

section Remove
variable {d : CacheDirectory} {p path : Path}

theorem remove_files_of_ne (h : p ≠ path) : (d.remove path).files p = d.files p := by
  unfold remove
  dsimp only
  split
  · rfl
  · exact Function.update_of_ne h _ _

/-- A file is gone that was removed, unless the removal was refused. -/
theorem remove_files_self (h : ((d.remove path).files path).isSome = true) : (d.remove path).Refused path := by
  unfold remove at h ⊢
  unfold Refused
  dsimp only at h ⊢
  split at h
  · rename_i hrefuses
    rw [if_pos hrefuses]
    exact ⟨List.mem_append_right _ List.mem_cons_self, _, hrefuses⟩
  · simp at h

theorem remove_files_none (h : d.files p = none) : (d.remove path).files p = none := by
  by_cases hp : p = path
  · subst hp
    unfold remove
    dsimp only
    split
    · exact h
    · exact Function.update_self _ _ _
  · rw [remove_files_of_ne hp, h]

theorem Refused.remove (h : d.Refused p) (path : Path) : (d.remove path).Refused p := by
  obtain ⟨hrefused, hrefuses⟩ := h
  refine ⟨?_, hrefuses⟩
  unfold CacheDirectory.remove
  dsimp only
  split
  · exact List.mem_append_left _ hrefused
  · exact hrefused

end Remove

end CacheDirectory

structure StagedCacheWrite where
  temporary : Path := {}
  destination : Path := {}
  bytes : Nat := 0
deriving DecidableEq

namespace StagedCacheWrite

/-- The new object, and what is left of the other one. -/
def moveConstruct (other : StagedCacheWrite) : StagedCacheWrite × StagedCacheWrite := (other, {})

def discard (w : StagedCacheWrite) (d : CacheDirectory) : StagedCacheWrite × CacheDirectory :=
  if w.temporary.isEmpty then (w, d) else ({ w with temporary := {} }, d.remove w.temporary)

/-- The object assigned to, what is left of the other one, and the disk. -/
def moveAssign (w other : StagedCacheWrite) (d : CacheDirectory) :
    StagedCacheWrite × StagedCacheWrite × CacheDirectory :=
  (other, {}, (w.discard d).2)

/-- The destructor. -/
def destroy (w : StagedCacheWrite) (d : CacheDirectory) : CacheDirectory := (w.discard d).2

end StagedCacheWrite

/-- Which of the renames of a commit fail, and with which message. -/
structure CommitEvents where
  firstRenameFails : Bool := false
  secondRenameFails : Bool := false
  message : Bytes := []

def publishWarning (destination : Path) (message : Bytes) : Bytes :=
  lit "could not publish translation-unit cache entry " ++ destination.text ++ lit ": " ++ message

namespace StagedCacheWrite

def commit (events : CommitEvents) (w : StagedCacheWrite) (d : CacheDirectory) (warnings : List Bytes) :
    StagedCacheWrite × CacheDirectory × List Bytes :=
  if w.temporary.isEmpty then (w, d, warnings)
  else
    let d := { d with committed := d.committed ++ [w.destination] }
    if !events.firstRenameFails then
      ({ w with temporary := {} }, d.rename w.temporary w.destination, warnings)
    else
      let d := d.remove w.destination
      if !events.secondRenameFails then
        ({ w with temporary := {} }, d.rename w.temporary w.destination, warnings)
      else
        let (w', d') := w.discard d
        (w', d', warnings ++ [publishWarning w.destination events.message])

end StagedCacheWrite

/-- How writing a temporary goes: it may fail before the file has a name, or later, leaving a part of it. -/
inductive StageEvents where
  | noDirectory (what : Bytes)
  | failed (what : Bytes) (left : Option Bytes)
  | written

def temporaryPath (destination : Path) (pid counter : Nat) : Path :=
  ⟨destination.text ++ lit ".tmp." ++ decimal pid ++ ch '.' :: decimal counter⟩

def stageTranslationUnitCache (events : StageEvents) (pid : Nat) (directory : Path) (key : Bytes)
    (entry : TranslationUnitCacheEntry) (d : CacheDirectory) (warnings : List Bytes) :
    Option StagedCacheWrite × CacheDirectory × List Bytes :=
  let destination := entryPath directory key
  let temporary := temporaryPath destination pid d.stageCounter
  let warning := fun (what : Bytes) => lit "could not stage translation-unit cache entry: " ++ what
  let named := { d with stageCounter := d.stageCounter + 1, created := d.created ++ [temporary] }
  match events with
  | .noDirectory what => (none, d, warnings ++ [warning what])
  | .failed what left =>
    let d' := match left with
      | some contents => named.write temporary contents
      | none => named
    (none, d'.remove temporary, warnings ++ [warning what])
  | .written =>
    let contents := writeEntry key entry
    (some { temporary, destination, bytes := contents.length },
      { named.write temporary contents with staged := d.staged ++ [(temporary, destination)] }, warnings)

/-- `push_back` of a moved object. When the vector grows, its objects are moved to
new ones, and the old ones are destroyed. -/
def pushBack (grows : Bool) (vector : List StagedCacheWrite) (w : StagedCacheWrite) (d : CacheDirectory) :
    List StagedCacheWrite × StagedCacheWrite × CacheDirectory :=
  let new := w.moveConstruct
  if grows then
    let moved := vector.map StagedCacheWrite.moveConstruct
    (moved.map (·.1) ++ [new.1], new.2, (moved.map (·.2)).foldl (fun d old => old.destroy d) d)
  else (vector ++ [new.1], new.2, d)

/-- The vector's destructor. -/
def destroyAll (vector : List StagedCacheWrite) (d : CacheDirectory) : CacheDirectory :=
  vector.foldl (fun d w => w.destroy d) d

/-! ## Names of files -/

theorem append_suffix (p q : Path) : q.text <:+ (p.append q).text := by
  unfold Path.append
  split
  · exact List.suffix_rfl
  · split
    · exact List.suffix_append _ _
    · exact (List.suffix_cons _ _).trans (List.suffix_append _ _)

theorem entryPath_getLast? (directory : Path) (key : Bytes) : (entryPath directory key).text.getLast? = some (ch 'e') := by
  have hsuffix : lit ".cache" <:+ (entryPath directory key).text :=
    (List.suffix_append key _).trans (append_suffix _ ⟨key ++ lit ".cache"⟩)
  obtain ⟨front, hfront⟩ := hsuffix
  rw [← hfront, List.getLast?_append]
  rfl

theorem temporaryPath_text (destination : Path) (pid counter : Nat) :
    (temporaryPath destination pid counter).text =
      (destination.text ++ lit ".tmp." ++ decimal pid ++ [ch '.']) ++ decimal counter := by
  simp [temporaryPath]

theorem temporaryPath_getLast? (destination : Path) (pid counter : Nat) :
    ∃ c, Json.isDigit c = true ∧ (temporaryPath destination pid counter).text.getLast? = some c := by
  have hne := decimal_ne_nil counter
  refine ⟨(decimal counter).getLast hne, decimal_digits _ _ (List.getLast_mem hne), ?_⟩
  rw [temporaryPath_text, List.getLast?_append, List.getLast?_eq_some_getLast hne]
  rfl

/-- A temporary is no entry. -/
theorem temporaryPath_ne_entryPath (destination directory : Path) (pid counter : Nat) (key : Bytes) :
    temporaryPath destination pid counter ≠ entryPath directory key := by
  intro heq
  obtain ⟨c, hdigit, hlast⟩ := temporaryPath_getLast? destination pid counter
  rw [heq, entryPath_getLast?] at hlast
  rw [← Option.some.inj hlast] at hdigit
  exact absurd hdigit (by decide)

/-- The last part of a temporary's name is its number. -/
theorem temporaryPath_counter {destination destination' : Path} {pid pid' counter counter' : Nat}
    (h : temporaryPath destination pid counter = temporaryPath destination' pid' counter') : counter = counter' := by
  have hreverse : ∀ (destination : Path) (pid counter : Nat),
      (temporaryPath destination pid counter).text.reverse =
        (decimal counter).reverse ++ ch '.' :: (destination.text ++ lit ".tmp." ++ decimal pid).reverse := by
    intro destination pid counter
    rw [temporaryPath_text]
    simp
  have hdot : ∀ n, ch '.' ∉ (decimal n).reverse := fun n hmem =>
    absurd (decimal_digits n _ (List.mem_reverse.1 hmem)) (by decide)
  have htext := congrArg (fun p : Path => p.text.reverse) h
  simp only [hreverse] at htext
  obtain ⟨hcounter, -⟩ := (append_sep_inj (hdot _) (hdot _)).1 htext
  exact decimal_injective (List.reverse_injective hcounter)

/-! ## Owners of temporaries -/

/-- Every temporary on the disk belongs to exactly one of the objects `live` or could not be removed,
and nothing else differs from `before` but destinations that a commit has tried to replace. -/
structure Owned (before : CacheDirectory) (live : List StagedCacheWrite) (d : CacheDirectory) : Prop where
  numbered : ∀ p ∈ d.created, ∃ destination pid counter,
    counter < d.stageCounter ∧ p = temporaryPath destination pid counter
  entries : ∀ x ∈ d.staged, ∃ directory key, x.2 = entryPath directory key
  staged_created : ∀ x ∈ d.staged, x.1 ∈ d.created
  staged_nodup : (d.staged.map (·.1)).Nodup
  held : ∀ o ∈ live, o.temporary.isEmpty = false →
    (o.temporary, o.destination) ∈ d.staged ∧ (d.files o.temporary).isSome = true
  once : ((live.map (·.temporary)).filter fun p => !p.isEmpty).Nodup
  owner : ∀ p ∈ d.created, (d.files p).isSome = true → (∃ o ∈ live, o.temporary = p) ∨ d.Refused p
  published_staged : ∀ x ∈ d.published, x ∈ d.staged
  published_gone : ∀ x ∈ d.published, d.files x.1 = none
  published_nodup : d.published.Nodup
  committed_staged : ∀ p ∈ d.committed, ∃ x ∈ d.staged, p = x.2
  refuses : d.refuses = before.refuses
  outside : ∀ p, p ∉ d.created → p ∉ d.committed → d.files p = before.files p

/-- No temporary is left whose removal was not refused. -/
def Cleared (before d : CacheDirectory) : Prop :=
  ∀ p ∈ d.created, (d.files p).isSome = true → p ∈ d.refused ∧ ∃ n, before.refuses n p = true

/-- What a throw leaves: temporaries that could not be removed, and every other file as it was. -/
structure Withdrawn (before d : CacheDirectory) : Prop where
  cleared : Cleared before d
  unchanged : ∀ p, p ∉ d.created → d.files p = before.files p
  entries : ∀ directory key, d.files (entryPath directory key) = before.files (entryPath directory key)

/-- What a return leaves: temporaries that could not be removed, and every staged write published exactly once
or warned about. -/
structure Published (before : CacheDirectory) (warnings : List Bytes) (d : CacheDirectory) : Prop where
  cleared : Cleared before d
  settled : ∀ x ∈ d.staged, d.published.count x = 1 ∨ ∃ message, publishWarning x.2 message ∈ warnings
  only : ∀ x ∈ d.published, x ∈ d.staged ∧ d.published.count x = 1
  unchanged : ∀ p, p ∉ d.created → p ∉ d.staged.map (·.2) → d.files p = before.files p

section Owned
variable {before : CacheDirectory} {live live' : List StagedCacheWrite} {d : CacheDirectory}
  {o other : StagedCacheWrite}

/-- A cache directory before a run, none of whose temporaries exist yet. -/
def cacheBefore (files : Path → Option Bytes) (counter : Nat) (refuses : Nat → Path → Bool) : CacheDirectory :=
  { files, stageCounter := counter, refuses }

theorem owned_start (files : Path → Option Bytes) (counter : Nat) (refuses : Nat → Path → Bool) :
    Owned (cacheBefore files counter refuses) [] (cacheBefore files counter refuses) := by
  constructor
  case outside => exact fun _ _ _ => rfl
  case refuses => rfl
  all_goals simp [cacheBefore]

theorem Owned.created_ne (h : Owned before live d) {p : Path} (hp : p ∈ d.created) : p.isEmpty = false := by
  obtain ⟨destination, pid, counter, -, rfl⟩ := h.numbered p hp
  obtain ⟨c, -, hlast⟩ := temporaryPath_getLast? destination pid counter
  unfold Path.isEmpty
  rw [List.isEmpty_eq_false_iff]
  intro hnil
  rw [hnil] at hlast
  cases hlast

/-- No temporary is the destination of a staged write. -/
theorem Owned.apart (h : Owned before live d) {p : Path} (hp : p ∈ d.created) {x : Path × Path} (hx : x ∈ d.staged) :
    p ≠ x.2 := by
  obtain ⟨destination, pid, counter, -, rfl⟩ := h.numbered p hp
  obtain ⟨directory, key, hentry⟩ := h.entries x hx
  rw [hentry]
  exact temporaryPath_ne_entryPath _ _ _ _ _

/-- The next number is in no temporary's name. -/
theorem Owned.fresh (h : Owned before live d) (destination : Path) (pid : Nat) :
    temporaryPath destination pid d.stageCounter ∉ d.created := by
  intro hmem
  obtain ⟨destination', pid', counter, hlt, heq⟩ := h.numbered _ hmem
  exact absurd (temporaryPath_counter heq) (Nat.ne_of_gt hlt)

theorem Owned.perm (h : Owned before live d) (hp : live.Perm live') : Owned before live' d :=
  { h with
    held := fun o ho => h.held o (hp.mem_iff.2 ho)
    once := ((hp.map _).filter _).nodup_iff.1 h.once
    owner := fun p hp' hsome => (h.owner p hp' hsome).imp_left fun ⟨o, ho, heq⟩ => ⟨o, hp.mem_iff.1 ho, heq⟩ }

/-- An object that owns nothing, such as one that has been moved from, does not count. -/
theorem Owned.cons_empty (ho : o.temporary.isEmpty = true) : Owned before (o :: live) d ↔ Owned before live d := by
  constructor
  · intro h
    refine { h with held := fun x hx => h.held x (List.mem_cons_of_mem _ hx), once := ?_, owner := fun p hp hsome => ?_ }
    · simpa [ho] using h.once
    · refine (h.owner p hp hsome).imp_left ?_
      rintro ⟨x, hx, rfl⟩
      rcases List.mem_cons.1 hx with rfl | hx
      · rw [h.created_ne hp] at ho
        cases ho
      · exact ⟨x, hx, rfl⟩
  · intro h
    refine { h with held := fun x hx hne => ?_, once := ?_, owner := fun p hp hsome => ?_ }
    · rcases List.mem_cons.1 hx with rfl | hx
      · rw [ho] at hne
        cases hne
      · exact h.held x hx hne
    · simpa [ho] using h.once
    · exact (h.owner p hp hsome).imp_left fun ⟨x, hx, heq⟩ => ⟨x, List.mem_cons_of_mem _ hx, heq⟩

/-- Two objects do not own the same temporary. -/
theorem Owned.temporary_ne (h : Owned before (o :: live) d) (ho : o.temporary.isEmpty = false) {x : StagedCacheWrite}
    (hx : x ∈ live) : x.temporary ≠ o.temporary := by
  intro heq
  have honce := h.once
  rw [List.map_cons, List.filter_cons_of_pos (by simp [ho])] at honce
  refine (List.nodup_cons.1 honce).1 (List.mem_filter.2 ⟨List.mem_map.2 ⟨x, hx, heq⟩, by simp [ho]⟩)

theorem Owned.once_tail (h : Owned before (o :: live) d) :
    ((live.map (·.temporary)).filter fun p => !p.isEmpty).Nodup :=
  h.once.sublist ((List.sublist_cons_self _ _).filter _)

/-- Letting go of an object removes its temporary, or tries to. -/
theorem Owned.destroy (h : Owned before (o :: live) d) : Owned before live (o.destroy d) := by
  unfold StagedCacheWrite.destroy StagedCacheWrite.discard
  split
  · rename_i ho
    exact (Owned.cons_empty ho).1 h
  · rename_i ho
    have ho := Bool.eq_false_iff.2 ho
    obtain ⟨hstaged, -⟩ := h.held o List.mem_cons_self ho
    have hcreated : o.temporary ∈ d.created := h.staged_created _ hstaged
    refine { h with held := fun x hx hne => ?_, once := h.once_tail, owner := fun p hp hsome => ?_,
                    published_gone := fun x hx => CacheDirectory.remove_files_none (h.published_gone x hx),
                    outside := fun p hp hc => ?_ }
    · obtain ⟨hx', hsome⟩ := h.held x (List.mem_cons_of_mem _ hx) hne
      rw [CacheDirectory.remove_files_of_ne (h.temporary_ne ho hx)]
      exact ⟨hx', hsome⟩
    · by_cases hp' : p = o.temporary
      · subst hp'
        exact .inr (CacheDirectory.remove_files_self hsome)
      · rw [CacheDirectory.remove_files_of_ne hp'] at hsome
        refine (h.owner p hp hsome).imp ?_ fun hrefused => hrefused.remove _
        rintro ⟨x, hx, rfl⟩
        exact ⟨x, (List.mem_cons.1 hx).resolve_left fun heq => hp' (by rw [heq]), rfl⟩
    · have hne : p ≠ o.temporary := by
        rintro rfl
        exact hp hcreated
      exact (CacheDirectory.remove_files_of_ne hne).trans (h.outside p hp hc)

theorem Owned.destroyAll (vector : List StagedCacheWrite) (h : Owned before (vector ++ live) d) :
    Owned before live (CxxDead.destroyAll vector d) := by
  induction vector generalizing d with
  | nil => exact h
  | cons o vector ih => exact ih h.destroy

/-- A commit may begin. -/
theorem Owned.begin (h : Owned before (o :: live) d) (ho : o.temporary.isEmpty = false) :
    Owned before (o :: live) { d with committed := d.committed ++ [o.destination] } := by
  obtain ⟨hstaged, -⟩ := h.held o List.mem_cons_self ho
  refine { h with committed_staged := fun p hp => ?_,
                  outside := fun p hp hc => h.outside p hp fun hc' => hc (List.mem_append_left _ hc') }
  rcases List.mem_append.1 hp with hp | hp
  · exact h.committed_staged p hp
  · exact ⟨_, hstaged, List.mem_singleton.1 hp⟩

/-- A destination may be removed once its commit has begun. -/
theorem Owned.remove (h : Owned before (o :: live) d) (ho : o.temporary.isEmpty = false)
    (hc : o.destination ∈ d.committed) : Owned before (o :: live) (d.remove o.destination) := by
  obtain ⟨hstaged, -⟩ := h.held o List.mem_cons_self ho
  have hkeep : ∀ p ∈ d.created, (d.remove o.destination).files p = d.files p := fun p hp =>
    CacheDirectory.remove_files_of_ne (h.apart hp hstaged)
  refine { h with held := fun x hx hne => ?_, owner := fun p hp hsome => ?_, published_gone := fun x hx => ?_,
                  outside := fun p hp hc' => ?_ }
  · obtain ⟨hx', hsome⟩ := h.held x hx hne
    exact ⟨hx', (congrArg Option.isSome (hkeep _ (h.staged_created _ hx'))).trans hsome⟩
  · exact (h.owner p hp ((congrArg Option.isSome (hkeep p hp)).symm.trans hsome)).imp_right fun hrefused => hrefused.remove _
  · exact (hkeep _ (h.staged_created _ (h.published_staged x hx))).trans (h.published_gone x hx)
  · have hne : p ≠ o.destination := by
      rintro rfl
      exact hc' hc
    exact (CacheDirectory.remove_files_of_ne hne).trans (h.outside p hp hc')

/-- Renaming the temporary of an object whose commit has begun publishes it. -/
theorem Owned.rename (h : Owned before (o :: live) d) (ho : o.temporary.isEmpty = false)
    (hc : o.destination ∈ d.committed) : Owned before live (d.rename o.temporary o.destination) := by
  obtain ⟨hstaged, hsome⟩ := h.held o List.mem_cons_self ho
  have hcreated : o.temporary ∈ d.created := h.staged_created _ hstaged
  -- the destination is an entry, so only the object's own temporary changes among those created
  have hkeep : ∀ p ∈ d.created, p ≠ o.temporary → (d.rename o.temporary o.destination).files p = d.files p := by
    intro p hp hne
    simp [CacheDirectory.rename, Function.update_of_ne hne, Function.update_of_ne (h.apart hp hstaged)]
  have hgone : (d.rename o.temporary o.destination).files o.temporary = none := by simp [CacheDirectory.rename]
  -- what has been published is gone, so this object has not published yet
  have hnew : (o.temporary, o.destination) ∉ d.published := fun hmem => by
    rw [h.published_gone _ hmem] at hsome
    cases hsome
  refine { h with held := fun x hx hne => ?_, once := h.once_tail, owner := fun p hp hsome => ?_,
                  published_staged := fun x hx => ?_, published_gone := fun x hx => ?_, published_nodup := ?_,
                  outside := fun p hp hcom => ?_ }
  · obtain ⟨hx', hsome⟩ := h.held x (List.mem_cons_of_mem _ hx) hne
    exact ⟨hx', by rwa [hkeep _ (h.staged_created _ hx') (h.temporary_ne ho hx)]⟩
  · have hne : p ≠ o.temporary := by
      rintro rfl
      rw [hgone] at hsome
      cases hsome
    rw [hkeep p hp hne] at hsome
    refine (h.owner p hp hsome).imp_left ?_
    rintro ⟨x, hx, rfl⟩
    exact ⟨x, (List.mem_cons.1 hx).resolve_left fun heq => hne (by rw [heq]), rfl⟩
  · rcases List.mem_append.1 hx with hx | hx
    · exact h.published_staged x hx
    · exact List.mem_singleton.1 hx ▸ hstaged
  · rcases List.mem_append.1 hx with hx | hx
    · by_cases hne : x.1 = o.temporary
      · rw [hne]
        exact hgone
      · rw [hkeep _ (h.staged_created _ (h.published_staged x hx)) hne]
        exact h.published_gone x hx
    · rw [List.mem_singleton.1 hx]
      exact hgone
  · exact List.nodup_append.2 ⟨h.published_nodup, by simp, fun x hx y hy heq => by
      rw [List.mem_singleton.1 hy] at heq
      exact hnew (heq ▸ hx)⟩
  · have hne : p ≠ o.temporary := fun heq => hp (heq ▸ hcreated)
    have hdest : p ≠ o.destination := fun heq => hcom (heq ▸ hc)
    simpa [CacheDirectory.rename, Function.update_of_ne hne, Function.update_of_ne hdest] using h.outside p hp hcom

/-! ### Commits -/

theorem commit_empty (events : CommitEvents) (ho : o.temporary.isEmpty = true) (warnings : List Bytes) :
    o.commit events d warnings = (o, d, warnings) := by
  unfold StagedCacheWrite.commit
  rw [if_pos ho]

/-- A commit lets go of the temporary: it is published, or removed with a warning. -/
structure Commits (o : StagedCacheWrite) (d : CacheDirectory) (warnings : List Bytes)
    (result : StagedCacheWrite × CacheDirectory × List Bytes) : Prop where
  empty : result.1.temporary.isEmpty = true
  created : result.2.1.created = d.created
  staged : result.2.1.staged = d.staged
  published : d.published ⊆ result.2.1.published
  warnings : warnings ⊆ result.2.2
  settled : o.temporary.isEmpty = false → (o.temporary, o.destination) ∈ result.2.1.published ∨
    ∃ message, publishWarning o.destination message ∈ result.2.2

theorem commit_commits (events : CommitEvents) (o : StagedCacheWrite) (d : CacheDirectory) (warnings : List Bytes) :
    Commits o d warnings (o.commit events d warnings) := by
  by_cases ho : o.temporary.isEmpty = true
  · rw [commit_empty events ho]
    exact ⟨ho, rfl, rfl, List.Subset.refl _, List.Subset.refl _, fun h => by rw [ho] at h; cases h⟩
  · unfold StagedCacheWrite.commit
    rw [if_neg ho]
    dsimp only
    split
    · exact ⟨rfl, rfl, rfl, List.subset_append_left _ _, List.Subset.refl _, fun _ => .inl (by simp [CacheDirectory.rename])⟩
    · split
      · exact ⟨rfl, rfl, rfl, List.subset_append_left _ _, List.Subset.refl _, fun _ => .inl (by simp [CacheDirectory.rename])⟩
      · simp only [StagedCacheWrite.discard, if_neg ho]
        exact ⟨rfl, rfl, rfl, List.Subset.refl _, List.subset_append_left _ _, fun _ => .inr ⟨events.message, by simp⟩⟩

theorem Owned.commit (h : Owned before (o :: live) d) (events : CommitEvents) (warnings : List Bytes) :
    Owned before live (o.commit events d warnings).2.1 := by
  by_cases ho : o.temporary.isEmpty = true
  · rw [commit_empty events ho]
    exact (Owned.cons_empty ho).1 h
  · have ho' := Bool.eq_false_iff.2 ho
    have hbegun := h.begin ho'
    have hmem : o.destination ∈ d.committed ++ [o.destination] := by simp
    unfold StagedCacheWrite.commit
    rw [if_neg ho]
    dsimp only
    split
    · exact hbegun.rename ho' hmem
    · split
      · exact (hbegun.remove ho' hmem).rename ho' hmem
      · exact (hbegun.remove ho' hmem).destroy

/-! ### Staging -/

/-- Writing a temporary under a new name and removing it, when nobody owns it yet. -/
theorem Owned.scratch (h : Owned before live d) (destination : Path) (pid : Nat) (contents : Option Bytes) :
    Owned before live
      (CacheDirectory.remove
        { d with
          stageCounter := d.stageCounter + 1
          created := d.created ++ [temporaryPath destination pid d.stageCounter]
          files := Function.update d.files (temporaryPath destination pid d.stageCounter) contents }
        (temporaryPath destination pid d.stageCounter)) := by
  have hfresh := h.fresh destination pid
  have hkeep : ∀ p ≠ temporaryPath destination pid d.stageCounter, (CacheDirectory.remove
      { d with
        stageCounter := d.stageCounter + 1
        created := d.created ++ [temporaryPath destination pid d.stageCounter]
        files := Function.update d.files (temporaryPath destination pid d.stageCounter) contents }
      (temporaryPath destination pid d.stageCounter)).files p = d.files p := by
    intro p hp
    rw [CacheDirectory.remove_files_of_ne hp]
    exact Function.update_of_ne hp _ _
  -- the counter makes the name a new one
  have hold : ∀ p ∈ d.created, p ≠ temporaryPath destination pid d.stageCounter := fun p hp heq => hfresh (heq ▸ hp)
  refine { h with numbered := fun p hp => ?_, staged_created := fun x hx => ?_, held := fun x hx hne => ?_,
                  owner := fun p hp hsome => ?_, published_gone := fun x hx => ?_, outside := fun p hp hc => ?_ }
  · rcases List.mem_append.1 hp with hp | hp
    · obtain ⟨destination', pid', counter, hlt, heq⟩ := h.numbered p hp
      exact ⟨destination', pid', counter, Nat.lt_succ_of_lt hlt, heq⟩
    · exact ⟨destination, pid, d.stageCounter, Nat.lt_succ_self _, List.mem_singleton.1 hp⟩
  · exact List.mem_append_left _ (h.staged_created x hx)
  · obtain ⟨hx', hsome⟩ := h.held x hx hne
    exact ⟨hx', (congrArg Option.isSome (hkeep _ (hold _ (h.staged_created _ hx')))).trans hsome⟩
  · rcases List.mem_append.1 hp with hp | hp
    · refine (h.owner p hp ((congrArg Option.isSome (hkeep p (hold p hp))).symm.trans hsome)).imp_right ?_
      exact fun hrefused => CacheDirectory.Refused.remove (d := { d with
        stageCounter := d.stageCounter + 1
        created := d.created ++ [temporaryPath destination pid d.stageCounter]
        files := Function.update d.files (temporaryPath destination pid d.stageCounter) contents }) hrefused _
    · -- a file that is still there has not let itself be removed
      obtain rfl := List.mem_singleton.1 hp
      exact .inr (CacheDirectory.remove_files_self hsome)
  · exact (hkeep _ (hold _ (h.staged_created _ (h.published_staged x hx)))).trans (h.published_gone x hx)
  · have hne : p ≠ temporaryPath destination pid d.stageCounter := by
      rintro rfl
      exact hp (List.mem_append_right _ List.mem_cons_self)
    exact (hkeep p hne).trans (h.outside p (fun hp' => hp (List.mem_append_left _ hp')) hc)

/-- A new object owns the temporary that has just been written. -/
theorem Owned.staged (h : Owned before live d) (directory : Path) (key : Bytes) (pid bytes : Nat) (contents : Bytes) :
    Owned before
      (⟨temporaryPath (entryPath directory key) pid d.stageCounter, entryPath directory key, bytes⟩ :: live)
      { d with
        stageCounter := d.stageCounter + 1
        created := d.created ++ [temporaryPath (entryPath directory key) pid d.stageCounter]
        staged := d.staged ++ [(temporaryPath (entryPath directory key) pid d.stageCounter, entryPath directory key)]
        files := Function.update d.files (temporaryPath (entryPath directory key) pid d.stageCounter) (some contents) } := by
  have hfresh := h.fresh (entryPath directory key) pid
  generalize htemporary : temporaryPath (entryPath directory key) pid d.stageCounter = temporary at hfresh
  -- the name is new, so nothing that is known of the other files changes
  have hold : ∀ p ∈ d.created, Function.update d.files temporary (some contents) p = d.files p := fun p hp =>
    Function.update_of_ne (fun heq : p = temporary => hfresh (heq ▸ hp)) _ _
  have hnotheld : ∀ o ∈ live, o.temporary.isEmpty = false → o.temporary ≠ temporary := by
    intro o ho hne heq
    rw [← heq] at hfresh
    exact hfresh (h.staged_created _ (h.held o ho hne).1)
  refine { h with numbered := fun p hp => ?_, entries := fun x hx => ?_, staged_created := fun x hx => ?_, staged_nodup := ?_,
                  held := fun x hx hne => ?_, once := ?_, owner := fun p hp hsome => ?_,
                  published_staged := fun x hx => ?_, published_gone := fun x hx => ?_,
                  committed_staged := fun p hp => ?_, outside := fun p hp hc => ?_ }
  · rcases List.mem_append.1 hp with hp | hp
    · obtain ⟨destination', pid', counter, hlt, heq⟩ := h.numbered p hp
      exact ⟨destination', pid', counter, Nat.lt_succ_of_lt hlt, heq⟩
    · exact ⟨entryPath directory key, pid, d.stageCounter, Nat.lt_succ_self _, (List.mem_singleton.1 hp).trans htemporary.symm⟩
  · rcases List.mem_append.1 hx with hx | hx
    · exact h.entries x hx
    · exact ⟨directory, key, by rw [List.mem_singleton.1 hx]⟩
  · rcases List.mem_append.1 hx with hx | hx
    · exact List.mem_append_left _ (h.staged_created x hx)
    · rw [List.mem_singleton.1 hx]
      exact List.mem_append_right _ List.mem_cons_self
  · rw [List.map_append]
    refine List.nodup_append.2 ⟨h.staged_nodup, by simp, fun p hp q hq heq => ?_⟩
    obtain ⟨x, hx, rfl⟩ := List.mem_map.1 hp
    have heq : x.1 = temporary := heq.trans (List.mem_singleton.1 hq)
    rw [← heq] at hfresh
    exact hfresh (h.staged_created x hx)
  · rcases List.mem_cons.1 hx with rfl | hx
    · exact ⟨List.mem_append_right _ List.mem_cons_self, by simp⟩
    · obtain ⟨hx', hsome⟩ := h.held x hx hne
      exact ⟨List.mem_append_left _ hx', (congrArg Option.isSome (hold _ (h.staged_created _ hx'))).trans hsome⟩
  · rw [List.map_cons]
    by_cases hempty : temporary.isEmpty = true
    · rw [List.filter_cons_of_neg (by simp [hempty])]
      exact h.once
    · rw [List.filter_cons_of_pos (by simp [hempty])]
      refine List.nodup_cons.2 ⟨fun hmem => ?_, h.once⟩
      obtain ⟨hmem, hne⟩ := List.mem_filter.1 hmem
      obtain ⟨o, ho, heq⟩ := List.mem_map.1 hmem
      refine hnotheld o ho ?_ heq
      rw [heq]
      exact Bool.eq_false_iff.2 hempty
  · rcases List.mem_append.1 hp with hp | hp
    · refine (h.owner p hp ((congrArg Option.isSome (hold p hp)).symm.trans hsome)).imp_left ?_
      exact fun ⟨o, ho, heq⟩ => ⟨o, List.mem_cons_of_mem _ ho, heq⟩
    · exact .inl ⟨_, List.mem_cons_self, (List.mem_singleton.1 hp).symm⟩
  · exact List.mem_append_left _ (h.published_staged x hx)
  · exact (hold _ (h.staged_created _ (h.published_staged x hx))).trans (h.published_gone x hx)
  · obtain ⟨x, hx, heq⟩ := h.committed_staged p hp
    exact ⟨x, List.mem_append_left _ hx, heq⟩
  · have hne : p ≠ temporary := fun heq => hp (by simp [heq])
    exact (Function.update_of_ne hne _ _).trans (h.outside p (fun hp' => hp (List.mem_append_left _ hp')) hc)

theorem Owned.stage (h : Owned before live d) (events : StageEvents) (pid : Nat) (directory : Path) (key : Bytes)
    (entry : TranslationUnitCacheEntry) (warnings : List Bytes) :
    Owned before ((stageTranslationUnitCache events pid directory key entry d warnings).1.toList ++ live)
      (stageTranslationUnitCache events pid directory key entry d warnings).2.1 := by
  cases events with
  | noDirectory what => exact h
  | failed what left =>
    cases left with
    | none =>
      have hscratch := h.scratch (entryPath directory key) pid (d.files (temporaryPath (entryPath directory key) pid d.stageCounter))
      rwa [Function.update_eq_self] at hscratch
    | some contents => exact h.scratch (entryPath directory key) pid (some contents)
  | written => exact h.staged directory key pid _ _

/-! ### Moves -/

theorem destroyAll_moved (moved : List StagedCacheWrite) (d : CacheDirectory) :
    ((moved.map StagedCacheWrite.moveConstruct).map (·.2)).foldl (fun d old => old.destroy d) d = d := by
  induction moved with
  | nil => rfl
  | cons o moved ih => exact ih

/-- Whether or not the vector grows, it holds the new object after the old ones, and the disk is as it was. -/
theorem pushBack_eq (grows : Bool) (vector : List StagedCacheWrite) (w : StagedCacheWrite) (d : CacheDirectory) :
    pushBack grows vector w d = (vector ++ [w], {}, d) := by
  unfold pushBack
  cases grows with
  | false => rfl
  | true =>
    have hnew : (vector.map StagedCacheWrite.moveConstruct).map (·.1) = vector := by
      rw [List.map_map]
      exact List.map_id _
    dsimp only
    rw [if_pos rfl, hnew, destroyAll_moved]
    rfl

theorem Owned.refused (h : Owned before live d) {p : Path} (hp : d.Refused p) :
    p ∈ d.refused ∧ ∃ n, before.refuses n p = true := by
  rw [← h.refuses]
  exact hp

/-- A temporary that is on the disk has one owner, unless it could not be removed. -/
theorem Owned.countP_eq_one (h : Owned before live d) {p : Path} (hp : p ∈ d.created)
    (hsome : (d.files p).isSome = true) :
    live.countP (fun o => o.temporary = p) = 1 ∨ (p ∈ d.refused ∧ ∃ n, before.refuses n p = true) := by
  have hne := h.created_ne hp
  refine (h.owner p hp hsome).imp ?_ h.refused
  rintro ⟨o, ho, heq⟩
  have hcount : ((live.map (·.temporary)).filter fun p => !p.isEmpty).count p = (live.map (·.temporary)).count p :=
    List.count_filter (by simp [hne])
  have hmem : p ∈ live.map (·.temporary) := List.mem_map.2 ⟨o, ho, heq⟩
  have hone : (live.map (·.temporary)).count p = 1 := by
    rw [← hcount]
    exact List.count_eq_one_of_mem h.once (List.mem_filter.2 ⟨hmem, by simp [hne]⟩)
  rw [List.count, List.countP_map] at hone
  rw [← hone]
  exact List.countP_congr fun x _ => by simp

theorem Owned.cleared (h : Owned before [] d) : Cleared before d := by
  intro p hp hsome
  refine (h.owner p hp hsome).elim ?_ h.refused
  rintro ⟨o, ho, -⟩
  cases ho

theorem Owned.withdrawn (h : Owned before [] d) (hcommitted : d.committed = []) : Withdrawn before d := by
  have hunchanged : ∀ p, p ∉ d.created → d.files p = before.files p := fun p hp => h.outside p hp (by simp [hcommitted])
  refine ⟨h.cleared, hunchanged, fun directory key => hunchanged _ fun hmem => ?_⟩
  obtain ⟨destination, pid, n, -, heq⟩ := h.numbered _ hmem
  exact temporaryPath_ne_entryPath _ _ _ _ _ heq.symm

theorem Owned.published {warnings : List Bytes} (h : Owned before [] d)
    (hsettled : ∀ x ∈ d.staged, x ∈ d.published ∨ ∃ message, publishWarning x.2 message ∈ warnings) :
    Published before warnings d := by
  have hone : ∀ x ∈ d.published, d.published.count x = 1 := fun x hx => List.count_eq_one_of_mem h.published_nodup hx
  refine ⟨h.cleared, fun x hx => (hsettled x hx).imp (hone x) id, fun x hx => ⟨h.published_staged x hx, hone x hx⟩,
    fun p hp hdestination => h.outside p hp fun hc => ?_⟩
  obtain ⟨x, hx, rfl⟩ := h.committed_staged p hc
  exact hdestination (List.mem_map.2 ⟨x, hx, rfl⟩)

theorem destroyAll_committed (vector : List StagedCacheWrite) (d : CacheDirectory) :
    (destroyAll vector d).committed = d.committed := by
  have hone : ∀ (o : StagedCacheWrite) (d : CacheDirectory), (o.destroy d).committed = d.committed := by
    intro o d
    unfold StagedCacheWrite.destroy StagedCacheWrite.discard
    split <;> rfl
  induction vector generalizing d with
  | nil => rfl
  | cons o vector ih => exact (ih _).trans (hone o d)

theorem destroyAll_empty {vector : List StagedCacheWrite} (h : ∀ o ∈ vector, o.temporary.isEmpty = true)
    (d : CacheDirectory) : destroyAll vector d = d := by
  induction vector with
  | nil => rfl
  | cons o vector ih =>
    have ho : o.destroy d = d := by
      unfold StagedCacheWrite.destroy StagedCacheWrite.discard
      rw [if_pos (h o List.mem_cons_self)]
    show destroyAll vector (o.destroy d) = d
    rw [ho]
    exact ih fun x hx => h x (List.mem_cons_of_mem _ hx)

end Owned

/-! ## Runs of steps on objects -/

/-- What can be done with objects that own temporaries, besides reordering the list of them. -/
inductive ObjectStep : List StagedCacheWrite × CacheDirectory → List StagedCacheWrite × CacheDirectory → Prop
  | reorder {live live' : List StagedCacheWrite} (d : CacheDirectory) (h : live.Perm live') : ObjectStep (live, d) (live', d)
  | create (live : List StagedCacheWrite) (d : CacheDirectory) : ObjectStep (live, d) ({} :: live, d)
  | stage (events : StageEvents) (pid : Nat) (directory : Path) (key : Bytes) (entry : TranslationUnitCacheEntry)
      (warnings : List Bytes) (live : List StagedCacheWrite) (d : CacheDirectory) :
      ObjectStep (live, d)
        ((stageTranslationUnitCache events pid directory key entry d warnings).1.toList ++ live,
          (stageTranslationUnitCache events pid directory key entry d warnings).2.1)
  | moveConstruct (o : StagedCacheWrite) (live : List StagedCacheWrite) (d : CacheDirectory) :
      ObjectStep (o :: live, d) (o.moveConstruct.1 :: o.moveConstruct.2 :: live, d)
  | moveAssign (o other : StagedCacheWrite) (live : List StagedCacheWrite) (d : CacheDirectory) :
      ObjectStep (o :: other :: live, d)
        ((o.moveAssign other d).1 :: (o.moveAssign other d).2.1 :: live, (o.moveAssign other d).2.2)
  | pushBack (grows : Bool) (vector : List StagedCacheWrite) (o : StagedCacheWrite) (live : List StagedCacheWrite)
      (d : CacheDirectory) :
      ObjectStep (vector ++ o :: live, d)
        ((pushBack grows vector o d).1 ++ (pushBack grows vector o d).2.1 :: live, (pushBack grows vector o d).2.2)
  | commit (events : CommitEvents) (warnings : List Bytes) (o : StagedCacheWrite) (live : List StagedCacheWrite)
      (d : CacheDirectory) :
      ObjectStep (o :: live, d) ((o.commit events d warnings).1 :: live, (o.commit events d warnings).2.1)
  | destroy (o : StagedCacheWrite) (live : List StagedCacheWrite) (d : CacheDirectory) :
      ObjectStep (o :: live, d) (live, o.destroy d)

theorem Owned.step {before : CacheDirectory} {live live' : List StagedCacheWrite} {d d' : CacheDirectory}
    (h : Owned before live d) (hstep : ObjectStep (live, d) (live', d')) : Owned before live' d' := by
  cases hstep with
  | reorder _ hperm => exact h.perm hperm
  | create => exact (Owned.cons_empty rfl).2 h
  | stage events pid directory key entry warnings => exact h.stage events pid directory key entry warnings
  | moveConstruct o live =>
    exact ((Owned.cons_empty (o := {}) rfl).2 h).perm (List.Perm.swap _ _ _)
  | moveAssign o other live => exact ((Owned.cons_empty (o := {}) rfl).2 h.destroy).perm (List.Perm.swap _ _ _)
  | pushBack grows vector o live =>
    rw [pushBack_eq]
    rw [List.append_cons] at h
    exact ((Owned.cons_empty (o := {}) rfl).2 h).perm List.perm_middle.symm
  | commit events warnings o live =>
    exact (Owned.cons_empty (commit_commits events o d warnings).empty).2 (h.commit events warnings)
  | destroy o => exact h.destroy

/-- Whatever is done with the objects, in any order, each temporary keeps exactly one owner. -/
theorem objects_run {files : Path → Option Bytes} {counter : Nat} {refuses : Nat → Path → Bool}
    {live : List StagedCacheWrite} {d : CacheDirectory}
    (h : ReflTransGen ObjectStep ([], cacheBefore files counter refuses) (live, d)) :
    Owned (cacheBefore files counter refuses) live d := by
  have hrun : ∀ {x : List StagedCacheWrite × CacheDirectory},
      ReflTransGen ObjectStep ([], cacheBefore files counter refuses) x →
        Owned (cacheBefore files counter refuses) x.1 x.2 := by
    intro x hx
    induction hx with
    | refl => exact owned_start files counter refuses
    | tail _ hstep ih => exact ih.step hstep
  exact hrun h

end CxxDead
