import CxxDead.ArtifactRoundTrip
import CxxDead.Files
import CxxDead.IndexRun
import CxxDead.Lib.Distinct
import CxxDead.ShellWords
/-!
# The compilation database

One command for each entry of a JSON array. `weaklyCanonical` is what resolves the
symbolic links of a path.

- `loadCompilationDatabase_accepts`: exactly which documents are read, and as which commands.
- `loadCompilationDatabase_quoted`: arguments may as well be written as one shell command.
-/

namespace CxxDead

open Lib Indexer

namespace Database

open Json

/-- A path, below `base` if it is relative. -/
def below (base path : Path) : Path := if path.isAbsolute then path else base.append path

def invalid {α : Type} (message : Bytes) : Except Exception α := .error (.runtimeError message)

def argumentText (value : Value) : Except Exception Bytes :=
  match value with
  | .string argument => .ok argument
  | _ => invalid (lit "compilation database argument must be a string")

def entryArguments (item : Value) : Except Exception (List Bytes) :=
  match item.find (lit "arguments") with
  | some (.array items) => items.mapM argumentText
  | some _ => invalid (lit "compilation database 'arguments' must be an array")
  | none =>
    match item.find (lit "command") with
    | some (.string command) => splitShellCommand command
    | _ => invalid (lit "compilation database entry needs 'arguments' or 'command'")

section Load
variable (weaklyCanonical : Path → Except Exception Path) (files : Files)

def entryOutput (directory : Path) (item : Value) : Except Exception Path :=
  let output : Path := ⟨item.stringOr (lit "output") []⟩
  if output.isEmpty then .ok output else files.absoluteNormal (below directory output)

/-- A turn of the loop over the entries. -/
def readEntry (databaseDirectory : Path) (item : Value) : Except Exception CompileCommand :=
  match item with
  | .object _ => do
    let directory : Path := ⟨item.stringOr (lit "directory") []⟩
    let file : Path := ⟨item.stringOr (lit "file") []⟩
    if directory.isEmpty || file.isEmpty then
      invalid (lit "compilation database entry is missing directory or file")
    else
      let directory ← weaklyCanonical (below databaseDirectory directory)
      let file ← weaklyCanonical (below directory file)
      let output ← entryOutput files directory item
      let arguments ← entryArguments item
      if arguments = [] then invalid (lit "empty compilation command for " ++ file.text)
      else .ok { directory, file, arguments, output }
  | _ => invalid (lit "each compilation database entry must be an object")

def readEntries (path : Path) (items : List Value) : Except Exception (List CompileCommand) := do
  let full ← files.disk.absolute path
  items.mapM (readEntry weaklyCanonical files full.parentPath)

def loadCompilationDatabase (fromChars : Bytes → Option ℚ) (path : Path) : Except Exception (List CompileCommand) :=
  match files.contents path with
  | none => invalid (lit "cannot open compilation database: " ++ path.text)
  | some contents => do
    match ← Indexer.parseDocument fromChars contents with
    | .array items => readEntries weaklyCanonical files path items
    | _ => invalid (lit "compilation database must contain a JSON array")

end Load

/-! ## Entries -/

/-- The arguments of an entry: as they are, or in a shell command. -/
def SaysArguments (item : Value) (arguments : List Bytes) : Prop :=
  item.find (lit "arguments") = some (.array (arguments.map .string)) ∨
    item.find (lit "arguments") = none ∧ ∃ command, item.find (lit "command") = some (.string command) ∧
      splitShellCommand command = .ok arguments

structure EntryAt (weaklyCanonical : Path → Except Exception Path) (files : Files) (databaseDirectory : Path) (item : Value)
    (command : CompileCommand) : Prop where
  directory : ∃ text, item.find (lit "directory") = some (.string text) ∧ text ≠ [] ∧
    weaklyCanonical (below databaseDirectory ⟨text⟩) = .ok command.directory
  file : ∃ text, item.find (lit "file") = some (.string text) ∧ text ≠ [] ∧
    weaklyCanonical (below command.directory ⟨text⟩) = .ok command.file
  output : entryOutput files command.directory item = .ok command.output
  arguments : SaysArguments item command.arguments
  nonempty : command.arguments ≠ []
  commandInputs : command.commandInputs = []

theorem argumentText_ok_iff {value : Value} {argument : Bytes} : argumentText value = .ok argument ↔ value = .string argument := by
  unfold argumentText
  split
  · rw [Except.ok.injEq, Value.string.injEq]
  · rename_i hother
    exact iff_of_false (by rintro ⟨⟩) (hother argument)

theorem mapM_argumentText_ok_iff {items : List Value} {arguments : List Bytes} :
    items.mapM argumentText = .ok arguments ↔ items = arguments.map .string := by
  rw [mapM_ok_iff (fun _ _ => argumentText_ok_iff) items arguments, ← List.forall₂_eq_eq_eq, List.forall₂_map_right_iff]

theorem entryArguments_ok_iff {item : Value} {arguments : List Bytes} :
    entryArguments item = .ok arguments ↔ SaysArguments item arguments := by
  unfold entryArguments SaysArguments
  split
  · rename_i items hitems
    rw [hitems]
    rw [mapM_argumentText_ok_iff]
    simp
  · rename_i value hvalue hother
    rw [hother]
    refine iff_of_false (by rintro ⟨⟩) ?_
    rintro (h | ⟨h, -⟩)
    · exact hvalue _ (Option.some.inj h)
    · cases h
  · rename_i hnone
    rw [hnone]
    split
    · rename_i command hcommand
      rw [hcommand]
      simp
    · rename_i hother
      refine iff_of_false (by rintro ⟨⟩) ?_
      rintro (h | ⟨-, command, hcommand, -⟩)
      · cases h
      · exact hother command hcommand

theorem stringOr_ne_nil {item : Value} {key : String} :
    item.stringOr (lit key) [] ≠ [] ↔ ∃ text, item.find (lit key) = some (.string text) ∧ text ≠ [] := by
  unfold Value.stringOr
  split
  · rename_i s hs
    rw [hs]
    simp
  · rename_i hother
    refine iff_of_false (fun h => h rfl) ?_
    rintro ⟨text, htext, -⟩
    exact hother text htext

theorem stringOr_of_find {item : Value} {key : String} {text : Bytes} (h : item.find (lit key) = some (.string text)) :
    item.stringOr (lit key) [] = text := by
  unfold Value.stringOr
  rw [h]

theorem parseDocument_ok_iff {fromChars : Bytes → Option ℚ} {document : Bytes} {value : Value} :
    Indexer.parseDocument fromChars document = .ok value ↔ Json.parse fromChars document = .ok value := by
  unfold Indexer.parseDocument
  split
  · rename_i v hv
    rw [hv, Except.ok.injEq, Except.ok.injEq]
  · rename_i e he
    rw [he]
    exact iff_of_false (by rintro ⟨⟩) (by rintro ⟨⟩)

section Entries
variable {weaklyCanonical : Path → Except Exception Path} {files : Files} {databaseDirectory : Path}

theorem entryAt_of_ok {item : Value} {command : CompileCommand}
    (h : readEntry weaklyCanonical files databaseDirectory item = .ok command) :
    EntryAt weaklyCanonical files databaseDirectory item command := by
  unfold readEntry at h
  split at h
  · rename_i members
    generalize Value.object members = item at h
    dsimp only at h
    split at h
    · cases h
    · rename_i hgiven
      rw [Bool.or_eq_true, not_or] at hgiven
      obtain ⟨directory, hdirectory, h⟩ := except_bind_ok_iff.1 h
      obtain ⟨file, hfile, h⟩ := except_bind_ok_iff.1 h
      obtain ⟨output, houtput, h⟩ := except_bind_ok_iff.1 h
      obtain ⟨arguments, harguments, h⟩ := except_bind_ok_iff.1 h
      split at h
      · cases h
      · rename_i hne
        obtain rfl := Except.ok.inj h
        -- a missing directory or file reads as an empty text, which is refused
        obtain ⟨text, htext, hnonempty⟩ := stringOr_ne_nil.1 fun h => hgiven.1 (List.isEmpty_iff.2 h)
        obtain ⟨text', htext', hnonempty'⟩ := stringOr_ne_nil.1 fun h => hgiven.2 (List.isEmpty_iff.2 h)
        rw [stringOr_of_find htext] at hdirectory
        rw [stringOr_of_find htext'] at hfile
        exact ⟨⟨text, htext, hnonempty, hdirectory⟩, ⟨text', htext', hnonempty', hfile⟩, houtput,
          entryArguments_ok_iff.1 harguments, hne, rfl⟩
  · cases h

theorem EntryAt.read {item : Value} {command : CompileCommand}
    (h : EntryAt weaklyCanonical files databaseDirectory item command) :
    readEntry weaklyCanonical files databaseDirectory item = .ok command := by
  obtain ⟨⟨text, htext, hnonempty, hdirectory⟩, ⟨text', htext', hnonempty', hfile⟩, houtput, harguments, hne, hinputs⟩ := h
  unfold readEntry
  split
  · rename_i members
    generalize Value.object members = item at *
    have hgiven : ¬((Path.mk text).isEmpty || (Path.mk text').isEmpty) = true := by
      rw [Bool.or_eq_true, not_or]
      exact ⟨fun h => hnonempty (List.isEmpty_iff.1 h), fun h => hnonempty' (List.isEmpty_iff.1 h)⟩
    dsimp only
    rw [stringOr_of_find htext, stringOr_of_find htext', if_neg hgiven]
    refine except_bind_eq hdirectory (except_bind_eq hfile (except_bind_eq houtput ?_))
    refine except_bind_eq (entryArguments_ok_iff.2 harguments) ?_
    rw [if_neg hne, ← hinputs]
  · -- only objects have members
    rename_i hother
    unfold Value.find at htext
    split at htext
    · rename_i members
      exact absurd rfl (hother members)
    · cases htext

theorem readEntry_ok_iff {item : Value} {command : CompileCommand} :
    readEntry weaklyCanonical files databaseDirectory item = .ok command ↔
      EntryAt weaklyCanonical files databaseDirectory item command :=
  ⟨entryAt_of_ok, EntryAt.read⟩

theorem readEntries_ok_iff (path : Path) (items : List Value) (commands : List CompileCommand) :
    readEntries weaklyCanonical files path items = .ok commands ↔ ∃ full, files.disk.absolute path = .ok full ∧
      List.Forall₂ (EntryAt weaklyCanonical files full.parentPath) items commands := by
  unfold readEntries
  rw [except_bind_ok_iff]
  exact exists_congr fun full => and_congr_right fun _ => mapM_ok_iff (fun _ _ => readEntry_ok_iff) items commands

/-- A database is loaded exactly if it is an array of which each entry says where and on
what file a command runs, and which one; the commands are those of the entries in turn. -/
theorem loadCompilationDatabase_accepts (weaklyCanonical : Path → Except Exception Path) (files : Files)
    (fromChars : Bytes → Option ℚ) (path : Path) (commands : List CompileCommand) :
    loadCompilationDatabase weaklyCanonical files fromChars path = .ok commands ↔
      ∃ contents items full, files.contents path = some contents ∧ Json.parse fromChars contents = .ok (.array items) ∧
        files.disk.absolute path = .ok full ∧
        List.Forall₂ (EntryAt weaklyCanonical files full.parentPath) items commands := by
  unfold loadCompilationDatabase
  split
  · rename_i hnone
    refine iff_of_false (by rintro ⟨⟩) ?_
    rintro ⟨contents, items, full, hcontents, -⟩
    rw [hnone] at hcontents
    cases hcontents
  · rename_i contents hcontents
    rw [except_bind_ok_iff]
    constructor
    · rintro ⟨value, hvalue, h⟩
      split at h
      · rename_i items
        obtain ⟨full, hfull, hitems⟩ := (readEntries_ok_iff path items commands).1 h
        exact ⟨contents, items, full, hcontents, parseDocument_ok_iff.1 hvalue, hfull, hitems⟩
      · cases h
    · rintro ⟨contents', items, full, hcontents', hparse, hfull, hitems⟩
      rw [hcontents] at hcontents'
      obtain rfl := Option.some.inj hcontents'
      exact ⟨.array items, parseDocument_ok_iff.2 hparse, (readEntries_ok_iff path items commands).2 ⟨full, hfull, hitems⟩⟩

end Entries

/-! ## Shell commands -/

/-- An entry that is written with a shell command in place of the arguments. The quotes,
the escapes and the blanks between the words are free. -/
structure Quoted (item item' : Value) : Prop where
  directory : item'.find (lit "directory") = item.find (lit "directory")
  file : item'.find (lit "file") = item.find (lit "file")
  output : item'.find (lit "output") = item.find (lit "output")
  arguments : ∃ words : List (ShellWords.Gap × ShellWords.Word),
    item.find (lit "arguments") = some (.array (words.map fun word => .string word.2.argument)) ∧
    item'.find (lit "arguments") = none ∧ item'.find (lit "command") = some (.string (ShellWords.written words))

section Quoted
variable {weaklyCanonical : Path → Except Exception Path} {files : Files} {databaseDirectory : Path}

theorem Quoted.saysArguments {item item' : Value} (h : Quoted item item') (arguments : List Bytes) :
    SaysArguments item' arguments ↔ SaysArguments item arguments := by
  obtain ⟨words, hwords, hnone, hcommand⟩ := h.arguments
  have hmap : words.map (fun word => Value.string word.2.argument) = (words.map fun word => word.2.argument).map .string := by
    rw [List.map_map]
    rfl
  have hsplit := ShellWords.splitShellCommand_written words
  rw [hmap] at hwords
  unfold SaysArguments
  rw [hwords, hnone, hcommand]
  simp only [reduceCtorEq, false_or, true_and, false_and, or_false, Option.some.injEq, Value.string.injEq,
    exists_eq_left', hsplit, Except.ok.injEq, Value.array.injEq]
  constructor
  · rintro rfl
    rfl
  · exact fun h => List.map_injective_iff.2 (fun _ _ => Value.string.inj) h

theorem Quoted.entryAt {item item' : Value} (h : Quoted item item') (command : CompileCommand) :
    EntryAt weaklyCanonical files databaseDirectory item' command ↔
      EntryAt weaklyCanonical files databaseDirectory item command := by
  have houtput : item'.stringOr (lit "output") [] = item.stringOr (lit "output") [] := by
    unfold Value.stringOr
    rw [h.output]
  constructor
  · intro hentry
    refine ⟨h.directory ▸ hentry.directory, h.file ▸ hentry.file, ?_, (h.saysArguments _).1 hentry.arguments,
      hentry.nonempty, hentry.commandInputs⟩
    have hout := hentry.output
    rwa [entryOutput, houtput] at hout
  · intro hentry
    refine ⟨h.directory ▸ hentry.directory, h.file ▸ hentry.file, ?_, (h.saysArguments _).2 hentry.arguments,
      hentry.nonempty, hentry.commandInputs⟩
    rw [entryOutput, houtput]
    exact hentry.output

theorem load_ok_iff {fromChars : Bytes → Option ℚ} {path : Path} {contents : Bytes} {items : List Value}
    (hcontents : files.contents path = some contents) (hitems : Json.parse fromChars contents = .ok (.array items))
    (commands : List CompileCommand) :
    loadCompilationDatabase weaklyCanonical files fromChars path = .ok commands ↔
      ∃ full, files.disk.absolute path = .ok full ∧
        List.Forall₂ (EntryAt weaklyCanonical files full.parentPath) items commands := by
  unfold loadCompilationDatabase
  rw [hcontents]
  dsimp only
  rw [parseDocument_ok_iff.2 hitems]
  exact readEntries_ok_iff path items commands

/-- An entry says the same whatever the files hold. -/
theorem entryAt_contents (rewritten : Path → Option Bytes) (item : Value) (command : CompileCommand) :
    EntryAt weaklyCanonical { files with contents := rewritten } databaseDirectory item command ↔
      EntryAt weaklyCanonical files databaseDirectory item command :=
  ⟨fun h => ⟨h.directory, h.file, h.output, h.arguments, h.nonempty, h.commandInputs⟩,
    fun h => ⟨h.directory, h.file, h.output, h.arguments, h.nonempty, h.commandInputs⟩⟩

theorem forall₂_quoted (rewritten : Path → Option Bytes) {items items' : List Value}
    (h : List.Forall₂ (fun item item' => item' = item ∨ Quoted item item') items items') (commands : List CompileCommand) :
    List.Forall₂ (EntryAt weaklyCanonical { files with contents := rewritten } databaseDirectory) items' commands ↔
      List.Forall₂ (EntryAt weaklyCanonical files databaseDirectory) items commands := by
  induction h generalizing commands with
  | nil => rw [List.forall₂_nil_left_iff, List.forall₂_nil_left_iff]
  | @cons item item' items items' hitem _ ih =>
    have hentry : ∀ command,
        EntryAt weaklyCanonical { files with contents := rewritten } databaseDirectory item' command ↔
          EntryAt weaklyCanonical files databaseDirectory item command := by
      intro command
      rw [entryAt_contents]
      rcases hitem with rfl | hquoted
      · exact Iff.rfl
      · exact hquoted.entryAt command
    simp only [List.forall₂_cons_left_iff, hentry, ih]

/-- The commands of a database stay the same when arguments are written as shell
commands, in any entries and with any quoting. -/
theorem loadCompilationDatabase_quoted {fromChars : Bytes → Option ℚ} {path : Path} {rewritten : Path → Option Bytes}
    {contents contents' : Bytes} {items items' : List Value}
    (hcontents : files.contents path = some contents) (hcontents' : rewritten path = some contents')
    (hitems : Json.parse fromChars contents = .ok (.array items))
    (hitems' : Json.parse fromChars contents' = .ok (.array items'))
    (hquoted : List.Forall₂ (fun item item' => item' = item ∨ Quoted item item') items items')
    (commands : List CompileCommand) :
    loadCompilationDatabase weaklyCanonical { files with contents := rewritten } fromChars path = .ok commands ↔
      loadCompilationDatabase weaklyCanonical files fromChars path = .ok commands := by
  rw [load_ok_iff hcontents hitems, @load_ok_iff _ { files with contents := rewritten } _ _ _ _ hcontents' hitems']
  exact exists_congr fun full => and_congr_right fun _ => forall₂_quoted rewritten hquoted commands

end Quoted

/-! ## One command, written in two ways -/

def argumentsLayout : Artifact.Layout := ⟨["directory", "file", "arguments"], by decide⟩

def commandLayout : Artifact.Layout := ⟨["directory", "file", "command"], by decide⟩

/-- `c++ 'a b'`. -/
def quotedWords : List (ShellWords.Gap × ShellWords.Word) :=
  [(⟨lit " ", by decide, by decide⟩, ⟨.unquoted fun _ => false, lit "c++", fun _ _ => by decide⟩),
    (⟨lit " ", by decide, by decide⟩, ⟨.single, lit "a b", by rintro _ ⟨⟩⟩)]

def argumentsItem : Value :=
  Artifact.objectOf argumentsLayout
    [.string (lit "/w"), .string (lit "a.cpp"), .array ([lit "c++", lit "a b"].map .string)]

def argumentsText : Bytes :=
  Artifact.inlineObject (argumentsLayout.names.zip
    [quoted (lit "/w"), quoted (lit "a.cpp"), Artifact.inlineArray ([lit "c++", lit "a b"].map quoted)])

def commandItem : Value :=
  Artifact.objectOf commandLayout [.string (lit "/w"), .string (lit "a.cpp"), .string (ShellWords.written quotedWords)]

def commandText : Bytes :=
  Artifact.inlineObject (commandLayout.names.zip
    [quoted (lit "/w"), quoted (lit "a.cpp"), quoted (ShellWords.written quotedWords)])

theorem printed_argumentsItem {fromChars : Bytes → Option ℚ} : Printed fromChars argumentsItem argumentsText :=
  Artifact.printed_inlineObject argumentsLayout (.cons (.string _) <| .cons (.string _) <|
    .cons (Artifact.printed_inlineArray _ fun _ _ => .string _) .nil) rfl (by decide)

theorem printed_commandItem {fromChars : Bytes → Option ℚ} : Printed fromChars commandItem commandText :=
  Artifact.printed_inlineObject commandLayout (.cons (.string _) <| .cons (.string _) <| .cons (.string _) .nil) rfl
    (by decide)

/-- A database with one entry. -/
theorem parse_oneEntry {fromChars : Bytes → Option ℚ} {item : Value} {text : Bytes} (h : Printed fromChars item text) :
    Json.parse fromChars (Artifact.inlineArray [text]) = .ok (.array [item]) := by
  have hprinted := @Artifact.printed_inlineArray fromChars Unit (fun _ => item) (fun _ => text) [()] fun _ _ => h
  have hparse := hprinted.parse (List.forall_mem_nil _)
  rwa [List.append_nil] at hparse

theorem commandItem_quoted : Quoted argumentsItem commandItem :=
  ⟨rfl, rfl, rfl, quotedWords, rfl, rfl, rfl⟩

def databaseFiles : Files where
  currentPath := .ok ⟨lit "/w"⟩
  contents _ := some (Artifact.inlineArray [argumentsText])
  isDirectory _ := .ok false
  entries _ := .ok ⟨[], List.nodup_nil⟩

/-- What both texts are loaded as. -/
def loadedCommand : CompileCommand :=
  { directory := ⟨lit "/w"⟩, file := ⟨lit "/w/a.cpp"⟩, arguments := [lit "c++", lit "a b"] }

theorem argumentsItem_loaded :
    loadCompilationDatabase .ok databaseFiles Artifact.integerFromChars ⟨lit "/w/compile_commands.json"⟩ =
      .ok [loadedCommand] :=
  (load_ok_iff rfl (parse_oneEntry printed_argumentsItem) _).2 ⟨_, rfl, .cons
    ⟨⟨lit "/w", rfl, by decide, rfl⟩, ⟨lit "a.cpp", rfl, by decide, rfl⟩, rfl, .inl rfl, by decide, rfl⟩ .nil⟩

theorem commandItem_loaded :
    loadCompilationDatabase .ok { databaseFiles with contents := fun _ => some (Artifact.inlineArray [commandText]) }
      Artifact.integerFromChars ⟨lit "/w/compile_commands.json"⟩ = .ok [loadedCommand] :=
  (loadCompilationDatabase_quoted rfl rfl (parse_oneEntry printed_argumentsItem) (parse_oneEntry printed_commandItem)
    (.cons (.inr commandItem_quoted) .nil) _).2 argumentsItem_loaded

end Database

end CxxDead
