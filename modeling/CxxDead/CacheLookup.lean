import CxxDead.CacheTruncation
import CxxDead.Sha256
import CxxDead.Staging
/-!
# Cache lookups fail closed

Whatever a cache file holds, a lookup gives an entry only if the text could be read
under the key and nothing that the entry depends on has changed since.

- `built_readEntry`: the graph of an entry has been built by the graph's operations.
- `loadTranslationUnitCache_eq_some`: when a lookup gives which entry.
-/

namespace CxxDead

open Lib Text

/-! ## Files -/

/-- The pieces that `sha256_file` reads, the last one short. -/
def filePieces (contents : Bytes) : List Bytes :=
  if contents.length < 64 * 1024 then [contents]
  else contents.take (64 * 1024) :: filePieces (contents.drop (64 * 1024))
termination_by contents.length

/-- `disk` is what opening and reading files finds. -/
def sha256File (disk : Path → CacheFile) (path : Path) : Except Exception Bytes :=
  match disk path with
  | .missing => .error (.runtimeError (lit "cannot hash cache dependency: " ++ path.text))
  | .cannotOpen => .error (.runtimeError (lit "cannot hash cache dependency: " ++ path.text))
  | .cannotRead => .error (.runtimeError (lit "cannot read cache dependency: " ++ path.text))
  | .text contents => .ok ((filePieces contents).foldl Sha256.update .start).finish

theorem filePieces_flatten (contents : Bytes) : (filePieces contents).flatten = contents := by
  fun_induction filePieces contents with
  | case1 => rw [List.flatten_singleton]
  | case2 contents _ ih => rw [List.flatten_cons, ih, List.take_append_drop]

theorem sha256File_eq_ok {disk : Path → CacheFile} {path : Path} {digest : Bytes} :
    sha256File disk path = .ok digest ↔
      ∃ contents, disk path = .text contents ∧ digest = Lib.Sha256.hexDigest contents := by
  unfold sha256File
  cases hfile : disk path with
  | missing => simp
  | cannotOpen => simp
  | cannotRead => simp
  | text contents =>
    have hdigest : ((filePieces contents).foldl Sha256.update .start).finish =
        Lib.Sha256.hexDigest ([] ++ (filePieces contents).flatten) :=
      (Sha256.represents_empty.updates (filePieces contents)).finish
    rw [List.nil_append, filePieces_flatten] at hdigest
    simp only [hdigest, Except.ok.injEq, CacheFile.text.injEq, exists_eq_left', eq_comm]

/-! ## What the reader builds -/

theorem built_modifyGraph {α : Type} {operation : GraphM α} {g : Graph} (h : Built (endState operation g)) :
    Lib.Yields (modifyGraph operation g) Built := by
  unfold modifyGraph endState at *
  cases hrun : operation g with
  | ok a g' =>
    rw [hrun] at h
    exact .pure h
  | error e g' => exact .throw e

theorem built_readCounted (field : String) {turn : Graph → CacheReader Graph}
    (h : ∀ g, Built g → Lib.Yields (turn g) Built) {g : Graph} (hg : Built g) : Lib.Yields (readCounted field turn g) Built :=
  .skip fun n => .loop h n g hg

theorem built_readSymbol (g : Graph) (hg : Built g) : Lib.Yields (readSymbol g) Built := by
  unfold readSymbol
  iterate 21 refine .skip fun _ => ?_
  exact built_modifyGraph (.addOrMergeSymbol _ hg)

theorem built_readEdge (g : Graph) (hg : Built g) : Lib.Yields (readEdge g) Built :=
  .skip fun _ => .skip fun _ => .skip fun _ => .skip fun _ => .skip fun _ =>
    built_modifyGraph (.addEdge _ _ _ _ hg)

theorem built_readRoot (g : Graph) (hg : Built g) : Lib.Yields (readRoot g) Built :=
  .skip fun _ => .skip fun _ => .skip fun _ => .skip fun _ => built_modifyGraph (.addRoot _ _ _ hg)

theorem built_readEscape (g : Graph) (hg : Built g) : Lib.Yields (readEscape g) Built :=
  .skip fun _ => .skip fun _ => .skip fun _ => .skip fun _ => .skip fun _ => .skip fun _ =>
    built_modifyGraph (.addEscape _ _ _ _ hg)

theorem built_readSuppression (g : Graph) (hg : Built g) : Lib.Yields (readSuppression g) Built :=
  .skip fun _ => .skip fun _ => built_modifyGraph (.addSuppression _ _ hg)

theorem built_readGraph : Lib.Yields readGraph Built :=
  (built_readCounted "symbol" built_readSymbol .empty).bind fun _ hsymbols =>
    (built_readCounted "edge" built_readEdge hsymbols).bind fun _ hedges =>
    (built_readCounted "root" built_readRoot hedges).bind fun _ hroots =>
    (built_readCounted "escape" built_readEscape hroots).bind fun _ hescapes =>
    built_readCounted "suppression" built_readSuppression hescapes

theorem built_readFacts : Lib.Yields readFacts fun entry => Built entry.graph :=
  .skip fun _ => .skip fun _ => .skip fun _ => .skip fun _ => .skip fun _ => .skip fun _ =>
    built_readGraph.bind fun _ hg => .pure hg

/-- The text starts with the word, the schema version and the key of an entry. -/
def Headed (key text : Bytes) : Prop :=
  ∃ afterMagic afterSchema afterKey,
    Text.word (text.dropWhile Text.isSpace) = some (lit "cxx-dead-tu-cache", afterMagic) ∧
    Text.int (afterMagic.dropWhile Text.isSpace) = some ((translationUnitCacheSchemaVersion : Int), afterSchema) ∧
    Text.text (afterSchema.dropWhile Text.isSpace) = some (key, afterKey)

theorem headed_of_readHeader {key text rest : Bytes} (h : (readHeader key).run text = .ok ((), rest)) :
    Headed key text := by
  obtain ⟨magic, afterMagic, hmagic, h⟩ := run_bind_ok.1 h
  obtain ⟨schema, afterSchema, hschema, h⟩ := run_bind_ok.1 h
  obtain ⟨written, afterKey, hkey, h⟩ := run_bind_ok.1 h
  split at h
  · cases h
  · rename_i hsame
    rw [not_or, not_or, not_not, not_not, not_not] at hsame
    obtain ⟨rfl, rfl, rfl⟩ := hsame
    exact ⟨afterMagic, afterSchema, afterKey, run_extract_ok.1 hmagic, run_extract_ok.1 hschema, run_extract_ok.1 hkey⟩

theorem readEntry_ok {key text : Bytes} {entry : TranslationUnitCacheEntry} (h : readEntry key text = .ok entry) :
    Headed key text ∧ Built entry.graph := by
  rw [readEntry_eq] at h
  cases hrun : (readHeader key >>= fun _ => readFacts).run text with
  | error e =>
    rw [hrun] at h
    cases h
  | ok p =>
    rw [hrun] at h
    have hentry : p.1 = entry := by
      dsimp only at h
      split at h
      · cases h
      · exact Except.ok.inj h
    subst hentry
    obtain ⟨_, rest, hheader, hfacts⟩ := run_bind_ok.1 hrun
    exact ⟨headed_of_readHeader hheader, built_readFacts _ _ _ hfacts⟩

/-! ## The lookup -/

theorem dependenciesMatch_eq_true {hash : Path → Except Exception Bytes} {dependencies : List CacheDependency} :
    dependenciesMatch hash dependencies = .ok true ↔
      ∀ d ∈ dependencies, isDigest d.digest = true ∧ hash d.path = .ok d.digest := by
  induction dependencies with
  | nil => exact iff_of_true rfl (by simp)
  | cons d rest ih =>
    rw [List.forall_mem_cons, ← ih, dependenciesMatch]
    cases hdigest : isDigest d.digest with
    | false => exact iff_of_false (fun h => nomatch h) (fun h => nomatch h.1.1)
    | true =>
      cases hhash : hash d.path with
      | error e => exact iff_of_false (fun h => nomatch h) (fun h => nomatch h.1.2)
      | ok digest =>
        by_cases hsame : digest = d.digest
        · subst hsame
          simp [bind, Except.bind]
        · simp [bind, Except.bind, hsame, pure, Except.pure]

/-- The source, made absolute, is one of the dependencies. -/
def HasSource (cwd requiredSource : Path) (entry : TranslationUnitCacheEntry) : Prop :=
  ∃ source, requiredSource.absolute (.ok cwd) = .ok source ∧
    ∃ d ∈ entry.dependencies, d.path.same source.lexicallyNormal = true

theorem usableEntry_eq_some {key contents : Bytes} {cwd requiredSource : Path} {hash : Path → Except Exception Bytes}
    {entry : TranslationUnitCacheEntry} :
    usableEntry key contents cwd requiredSource hash = .ok (some entry) ↔
      readEntry key contents = .ok entry ∧ HasSource cwd requiredSource entry ∧
        ∀ d ∈ entry.dependencies, isDigest d.digest = true ∧ hash d.path = .ok d.digest := by
  rw [← dependenciesMatch_eq_true]
  unfold usableEntry HasSource
  cases hread : readEntry key contents with
  | error e => exact iff_of_false (fun h => nomatch h) (fun h => nomatch h.1)
  | ok entry' =>
  cases habsolute : requiredSource.absolute (.ok cwd) with
  | error e => exact iff_of_false (fun h => nomatch h) (fun h => nomatch h.2.1)
  | ok full =>
    simp only [bind, Except.bind, Except.ok.injEq, exists_eq_left']
    generalize full.lexicallyNormal = source
    have hany : (!entry'.dependencies.any fun d => d.path.same source) = true ↔
        ¬ ∃ d ∈ entry'.dependencies, d.path.same source = true := by simp
    by_cases hsource : ∃ d ∈ entry'.dependencies, d.path.same source = true
    · have hskip : ((!entry'.dependencies.any fun d => d.path.same source) = true) = False :=
        eq_false fun h => hany.1 h hsource
      simp only [hskip, if_false, pure, Except.pure]
      cases hmatch : dependenciesMatch hash entry'.dependencies with
      | error e =>
        refine iff_of_false (fun h => nomatch h) ?_
        rintro ⟨heq, -, hall⟩
        cases heq
        rw [hmatch] at hall
        cases hall
      | ok matched =>
        constructor
        · intro h
          cases matched with
          | false => cases h
          | true =>
            cases h
            exact ⟨rfl, hsource, hmatch⟩
        · rintro ⟨heq, -, hall⟩
          cases heq
          rw [hmatch] at hall
          cases hall
          rfl
    · refine iff_of_false ?_ ?_
      · simp only [hany.2 hsource, if_true]
        exact fun h => nomatch h
      · rintro ⟨heq, hmem, -⟩
        cases heq
        exact hsource hmem

/-- A digest as it is written into an entry. -/
theorem isDigest_iff {digest : Bytes} :
    isDigest digest = true ↔
      digest.length = 64 ∧ ∀ c ∈ digest, (ch '0' ≤ c ∧ c ≤ ch '9') ∨ (ch 'a' ≤ c ∧ c ≤ ch 'f') := by
  simp [isDigest]

/-- A lookup gives an entry only if the text under the key has it, with the primary source among
the dependencies and no dependency changed, and then its graph is well formed; otherwise it gives none. -/
theorem loadTranslationUnitCache_eq_some (cwd directory requiredSource : Path) (key : Bytes) (disk : Path → CacheFile)
    (entry : TranslationUnitCacheEntry) :
    (loadTranslationUnitCache cwd directory key requiredSource (disk (entryPath directory key))
      (sha256File disk)).entry = some entry ↔
      ∃ contents, disk (entryPath directory key) = .text contents ∧ Headed key contents ∧
        readEntry key contents = .ok entry ∧
        (∃ source, requiredSource.absolute (.ok cwd) = .ok source ∧
          ∃ d ∈ entry.dependencies, d.path.same source.lexicallyNormal = true) ∧
        (∀ d ∈ entry.dependencies,
          (d.digest.length = 64 ∧ ∀ c ∈ d.digest, (ch '0' ≤ c ∧ c ≤ ch '9') ∨ (ch 'a' ≤ c ∧ c ≤ ch 'f')) ∧
            ∃ text, disk d.path = .text text ∧ d.digest = Lib.Sha256.hexDigest text) ∧
        entry.graph.Inv := by
  simp only [← isDigest_iff, ← sha256File_eq_ok]
  unfold loadTranslationUnitCache
  cases hfile : disk (entryPath directory key) with
  | missing => simp
  | cannotOpen => simp
  | cannotRead => simp
  | text contents =>
    have husable := @usableEntry_eq_some key contents cwd requiredSource (sha256File disk) entry
    constructor
    · intro h
      have hentry : usableEntry key contents cwd requiredSource (sha256File disk) = .ok (some entry) := by
        dsimp only at h
        split at h
        · rename_i entry' hresult
          rw [hresult, show entry' = some entry from h]
        · cases h
      obtain ⟨hread, hsource, hdigests⟩ := husable.1 hentry
      obtain ⟨hheaded, hbuilt⟩ := readEntry_ok hread
      exact ⟨contents, rfl, hheaded, hread, hsource, hdigests, hbuilt.inv⟩
    · rintro ⟨contents', heq, -, hread, hsource, hdigests, -⟩
      cases heq
      dsimp only
      rw [husable.2 ⟨hread, hsource, hdigests⟩]

end CxxDead
