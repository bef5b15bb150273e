import CxxDead.CompileDatabase
import CxxDead.Generic
import CxxDead.Lib.Inclusion
import CxxDead.Lib.Throwing
/-!
# Response files

- `lexicallyNormal_generic`: a normalized path is spelled generically, so that the keys of
  the active files tell them apart.
- `spec_argument`: expanding an argument inside of some files is checked substitution.
- `expanded_spec`: when expansion succeeds, and what it gives.
-/

namespace CxxDead

open Lib

namespace Path

/-! ## Normalized paths are spelled generically -/

theorem normalNames_mem (abs : Bool) (ns kept : List Bytes) (trail : Bool) (hns : ∀ n ∈ ns, slash ∉ n)
    (hkept : ∀ n ∈ kept, slash ∉ n ∧ n ≠ []) : ∀ n ∈ (normalNames abs ns kept trail).1, slash ∉ n ∧ n ≠ [] := by
  have hdots : slash ∉ dotDot ∧ dotDot ≠ [] := by decide
  induction ns generalizing kept trail with
  | nil => simpa [normalNames] using hkept
  | cons n ns ih =>
    obtain ⟨hn, hns⟩ := List.forall_mem_cons.1 hns
    unfold normalNames
    split
    · exact ih kept true hns hkept
    · rename_i hname
      have hpush : ∀ m ∈ n :: kept, slash ∉ m ∧ m ≠ [] :=
        List.forall_mem_cons.2 ⟨⟨hn, fun hnil => hname (.inl hnil)⟩, hkept⟩
      split
      · cases kept with
        | nil =>
          dsimp only
          split
          · exact ih [] true hns hkept
          · exact ih [n] false hns hpush
        | cons k kept =>
          dsimp only
          split
          · exact ih (n :: k :: kept) false hns hpush
          · exact ih kept true hns (List.forall_mem_cons.1 hkept).2
      · exact ih (n :: kept) false hns hpush

theorem lexicallyNormal_generic (p : Path) : p.lexicallyNormal.genericString = p.lexicallyNormal.text := by
  have hjoin : ∀ abs ns, IsNames ns → (Path.mk (joinNames abs ns)).genericString = joinNames abs ns := by
    intro abs ns hns
    rw [genericString, isAbsolute_joinNames hns, names_joinNames hns]
  have hkept := normalNames_mem p.isAbsolute (names p.text) [] false (names_isNames p.text).no_slash
    (List.forall_mem_nil _)
  unfold lexicallyNormal
  split
  · rename_i hempty
    have htext : p.text = [] := by simpa [isEmpty] using hempty
    rw [genericString, isAbsolute, htext]
    rfl
  · split
    rename_i kept trail heq
    rw [heq] at hkept
    dsimp only at hkept
    split
    · split <;> rfl
    · rename_i hne
      obtain ⟨n, ns, rfl⟩ := List.exists_cons_of_ne_nil hne
      have hnil : n ≠ [] := (hkept n List.mem_cons_self).2
      split
      · refine hjoin _ _ ⟨?_, ?_, ?_⟩
        · exact List.forall_mem_append.2 ⟨fun m hm => (hkept m hm).1, by simp⟩
        · rw [List.dropLast_concat]
          exact fun m hm => (hkept m hm).2
        · simpa using hnil
      · refine hjoin _ _ ⟨fun m hm => (hkept m hm).1, fun m hm => (hkept m (List.mem_of_mem_dropLast hm)).2, ?_⟩
        simpa using hnil

end Path

namespace ResponseFiles

section Expansion
variable (files : Path → Option Bytes) (cwd directory : Path)

/-! ## Files -/

/-- Files with these contents. -/
def disk : Disk where
  currentPath := .ok cwd
  responseFile path := match files path with
    | none => .cannotOpen
    | some text => .text text.length text
  commandInput _ := .irregular

/-- The file that a response argument names. -/
def target (argument : Bytes) : Path :=
  let path : Path := ⟨argument.tail⟩
  (cwd.append (if path.isAbsolute then path else directory.append path)).lexicallyNormal

def refers (argument : Bytes) : Option Path :=
  if isResponse argument then some (target cwd directory argument) else none

/-- The words of a file that exists and can be split. -/
def tokens (path : Path) : Option (List Bytes) := (files path).bind fun text => (splitShellCommand text).toOption

def size (path : Path) : Nat := ((files path).getD []).length

/-- The bytes of these files, as often as they are read. -/
def total (paths : List Path) : Nat := (paths.map (size files)).sum

/-- The arguments, expanded one after the other. -/
def expanded (arguments : List Bytes) : EStateM.Result Exception ResponseExpansion Unit :=
  arguments.forM (expandResponseArgument (disk files cwd) directory maxResponseDepth) {}

variable {files cwd directory}

theorem normalizedPath_disk {argument : Bytes} (h : isResponse argument = true) :
    normalizedPath (disk files cwd) argument.tail directory = .ok (target cwd directory argument) := by
  have hname : (Path.mk argument.tail).isEmpty = false := by
    cases argument with
    | nil => cases h
    | cons c name =>
      cases name with
      | nil => simp [isResponse] at h
      | cons d name => rfl
  unfold normalizedPath target Disk.absolute
  dsimp only
  generalize Path.mk argument.tail = path at hname
  have hpath : (if path.isAbsolute then path else directory.append path).isEmpty = false := by
    split
    · exact hname
    · exact Path.isEmpty_append directory hname
  rw [show (disk files cwd).currentPath = .ok cwd from rfl, Path.absolute_ok_iff.2 ⟨hpath, rfl⟩]
  rfl

theorem refers_eq_none {argument : Bytes} : refers cwd directory argument = none ↔ isResponse argument = false := by
  unfold refers
  split <;> simp_all

/-! ## One file -/

/-- What has been expanded when `out` is put out and `names` are read. -/
def after (files : Path → Option Bytes) (e : ResponseExpansion) (out : List Bytes) (names : List Path) :
    ResponseExpansion :=
  { bytes := e.bytes + total files names, active := e.active, inputs := e.inputs ++ names, output := e.output ++ out }

theorem readResponseFile_ok_iff {path : Path} {e : ResponseExpansion} {text : Bytes}
    (hbytes : e.bytes ≤ maxResponseBytes) :
    readResponseFile (disk files cwd) path e = .ok text ↔
      files path = some text ∧ e.bytes + text.length ≤ maxResponseBytes := by
  have hfile : (disk files cwd).responseFile path = match files path with
      | none => .cannotOpen
      | some text => .text text.length text := rfl
  unfold readResponseFile
  rw [hfile, Nat.min_eq_left hbytes]
  cases files path with
  | none => exact iff_of_false (fun h => nomatch h) fun h => nomatch h.1
  | some contents =>
    simp only [or_self]
    split
    · rename_i hsize
      refine iff_of_false (fun h => nomatch h) fun ⟨heq, hfits⟩ => ?_
      cases heq
      omega
    · rename_i hsize
      constructor
      · rintro ⟨⟩
        exact ⟨rfl, by omega⟩
      · rintro ⟨⟨⟩, -⟩
        rfl

theorem openResponseFile_ok_iff {argument : Bytes} (h : isResponse argument = true) {e e' : ResponseExpansion}
    {words : List Bytes} (hbytes : e.bytes ≤ maxResponseBytes) :
    openResponseFile (disk files cwd) directory argument e = .ok words e' ↔
      (target cwd directory argument).genericString ∉ e.active ∧
        tokens files (target cwd directory argument) = some words ∧
        e.bytes + size files (target cwd directory argument) ≤ maxResponseBytes ∧
        e' = { after files e [] [target cwd directory argument] with
          active := (target cwd directory argument).genericString :: e.active } := by
  unfold openResponseFile
  simp only [normalizedPath_disk h, bind, Except.bind]
  generalize target cwd directory argument = path
  by_cases hactive : path.genericString ∈ e.active
  · rw [if_pos (by simpa using hactive)]
    exact iff_of_false (fun h => nomatch h) fun h => absurd hactive h.1
  rw [if_neg (by simpa using hactive)]
  have hopened : ∀ text, files path = some text → { e with
      bytes := e.bytes + text.length
      active := path.genericString :: e.active
      inputs := e.inputs ++ [path] } =
        { after files e [] [path] with active := path.genericString :: e.active } := by
    intro text hfile
    simp [after, total, size, hfile]
  cases hread : readResponseFile (disk files cwd) path e with
  | error error =>
    refine iff_of_false (fun h => nomatch h) fun ⟨_, htokens, hfits, _⟩ => ?_
    obtain ⟨text, hfile, -⟩ := Option.bind_eq_some_iff.1 htokens
    rw [size, hfile] at hfits
    rw [(readResponseFile_ok_iff hbytes).2 ⟨hfile, hfits⟩] at hread
    exact nomatch hread
  | ok text =>
    obtain ⟨hfile, hfits⟩ := (readResponseFile_ok_iff hbytes).1 hread
    have hsize : size files path = text.length := by rw [size, hfile]; rfl
    have htokens : tokens files path = (splitShellCommand text).toOption := by rw [tokens, hfile]; rfl
    rw [htokens, hsize, ← hopened text hfile]
    dsimp only
    cases splitShellCommand text with
    | error error => exact iff_of_false (fun h => nomatch h) fun h => nomatch h.2.1
    | ok arguments =>
      constructor
      · rintro ⟨⟩
        exact ⟨hactive, rfl, hfits, rfl⟩
      · rintro ⟨-, ⟨⟩, -, rfl⟩
        rfl

/-! ## Arguments inside of files -/

theorem expand_plain {argument : Bytes} (h : isResponse argument = false) (disk : Disk) (levels : Nat)
    (e : ResponseExpansion) : expandResponseArgument disk directory levels argument e =
      .ok () { e with output := e.output ++ [argument] } := by
  cases levels <;>
  · rw [expandResponseArgument, h]
    rfl

theorem expand_response_ok_iff {argument : Bytes} (h : isResponse argument = true) (disk : Disk) (levels : Nat)
    (e e' : ResponseExpansion) : expandResponseArgument disk directory (levels + 1) argument e = .ok () e' ↔
      ∃ words e₁ e₂, openResponseFile disk directory argument e = .ok words e₁ ∧
        words.forM (expandResponseArgument disk directory levels) e₁ = .ok () e₂ ∧
        e' = { e₂ with active := e.active } := by
  have hexpand : expandResponseArgument disk directory (levels + 1) argument e =
      (openResponseFile disk directory argument >>= fun words =>
        words.forM (expandResponseArgument disk directory levels) >>= fun _ =>
          modify fun expansion => { expansion with active := e.active }) e := by
    rw [expandResponseArgument, h]
    rfl
  rw [hexpand, bind_ok_iff]
  constructor
  · rintro ⟨words, e₁, hopen, hrest⟩
    obtain ⟨_, e₂, hwords, hactive⟩ := bind_ok_iff.1 hrest
    cases hactive
    exact ⟨words, e₁, e₂, hopen, hwords, rfl⟩
  · rintro ⟨words, e₁, e₂, hopen, hwords, rfl⟩
    exact ⟨words, e₁, hopen, bind_ok_iff.2 ⟨(), e₂, hwords, rfl⟩⟩

theorem after_after (e : ResponseExpansion) (out out' : List Bytes) (names names' : List Path) :
    after files (after files e out names) out' names' = after files e (out ++ out') (names ++ names') := by
  simp [after, total, Nat.add_assoc]

/-- The chain holds normalized files. -/
def Normal (chain : List Path) : Prop := ∀ path ∈ chain, path.genericString = path.text

/-- What a command that expands inside of `chain` returns with. -/
def Spec (files : Path → Option Bytes) (cwd directory : Path) (chain : List Path) (arguments : List Bytes)
    (command : ExpansionM Unit) : Prop :=
  ∀ {e e' : ResponseExpansion}, e.active = chain.map Path.genericString → e.bytes ≤ maxResponseBytes →
    (command e = .ok () e' ↔
      ∃ out names, Expands (refers cwd directory) (tokens files) maxResponseDepth chain arguments out names ∧
        e.bytes + total files names ≤ maxResponseBytes ∧ e' = after files e out names)

theorem total_append (names names' : List Path) :
    total files (names ++ names') = total files names + total files names' := by
  rw [total, List.map_append, List.sum_append]
  rfl

theorem Spec.forM {chain : List Path} {expand : Bytes → ExpansionM Unit}
    (h : ∀ a, Spec files cwd directory chain [a] (expand a)) (arguments : List Bytes) :
    Spec files cwd directory chain arguments (arguments.forM expand) := by
  intro e e' hactive hbytes
  induction arguments generalizing e with
  | nil =>
    have hafter : after files e [] [] = e := by simp [after, total]
    constructor
    · rintro ⟨⟩
      exact ⟨[], [], .nil, hbytes, hafter.symm⟩
    · rintro ⟨out, names, hexpands, -, rfl⟩
      obtain ⟨rfl, rfl⟩ := expands_nil.1 hexpands
      rw [hafter]
      rfl
  | cons a rest ih =>
    have hcons : (a :: rest).forM expand e = (expand a >>= fun _ => rest.forM expand) e := rfl
    rw [hcons, bind_ok_iff]
    constructor
    · rintro ⟨_, e₁, ha, hrest⟩
      obtain ⟨out₁, names₁, hfirst, hfits, rfl⟩ := (h a hactive hbytes).1 ha
      obtain ⟨out₂, names₂, hothers, hfits', rfl⟩ := (ih (e := after files e out₁ names₁) hactive hfits).1 hrest
      refine ⟨out₁ ++ out₂, names₁ ++ names₂, expands_cons.2 ⟨_, _, _, _, hfirst, hothers, rfl, rfl⟩, ?_,
        after_after e _ _ _ _⟩
      rwa [total_append, ← Nat.add_assoc]
    · rintro ⟨out, names, hexpands, hfits, rfl⟩
      obtain ⟨out₁, names₁, out₂, names₂, hfirst, hothers, rfl, rfl⟩ := expands_cons.1 hexpands
      rw [total_append, ← Nat.add_assoc] at hfits
      have hfirstFits : e.bytes + total files names₁ ≤ maxResponseBytes := Nat.le_trans (Nat.le_add_right _ _) hfits
      refine ⟨(), after files e out₁ names₁, (h a hactive hbytes).2 ⟨_, _, hfirst, hfirstFits, rfl⟩, ?_⟩
      exact (ih (e := after files e out₁ names₁) hactive hfirstFits).2
        ⟨_, _, hothers, hfits, (after_after e _ _ _ _).symm⟩

/-- The keys of normalized files tell them apart. -/
theorem mem_keys {chain : List Path} (hchain : Normal chain) (argument : Bytes) :
    (target cwd directory argument).genericString ∈ chain.map Path.genericString ↔
      target cwd directory argument ∈ chain := by
  refine ⟨fun h => ?_, List.mem_map_of_mem⟩
  obtain ⟨path, hpath, heq⟩ := List.mem_map.1 h
  have htext : path.text = (target cwd directory argument).text := by
    rw [← hchain path hpath, heq]
    exact Path.lexicallyNormal_generic _
  obtain rfl : path = target cwd directory argument := congrArg Path.mk htext
  exact hpath

theorem spec_plain {argument : Bytes} (hresponse : isResponse argument = false) (levels : Nat) (chain : List Path) :
    Spec files cwd directory chain [argument]
      (expandResponseArgument (disk files cwd) directory levels argument) := by
  intro e e' _ hbytes
  have hafter : after files e [argument] [] = { e with output := e.output ++ [argument] } := by
    simp [after, total]
  rw [expand_plain hresponse]
  constructor
  · rintro ⟨⟩
    exact ⟨[argument], [], .plain (refers_eq_none.2 hresponse) .nil, hbytes, hafter.symm⟩
  · rintro ⟨out, names, hexpands, -, rfl⟩
    obtain ⟨rfl, rfl⟩ := (expands_plain (refers_eq_none.2 hresponse)).1 hexpands
    rw [hafter]

/-- The key of the file is taken back when its words have been expanded. -/
theorem after_inside (e : ResponseExpansion) (path : Path) (active : List Bytes) (out : List Bytes)
    (names : List Path) :
    { after files { after files e [] [path] with active } out names with active := e.active } =
      after files e out (path :: names) := by
  simp [after, total, Nat.add_assoc]

theorem spec_argument {levels : Nat} {chain : List Path} (hlevels : chain.length + levels = maxResponseDepth)
    (hchain : Normal chain) (argument : Bytes) : Spec files cwd directory chain [argument]
      (expandResponseArgument (disk files cwd) directory levels argument) := by
  induction levels generalizing chain argument with
  | zero =>
    cases hresponse : isResponse argument with
    | false => exact spec_plain hresponse 0 chain
    | true =>
      intro e e' _ _
      have hrefers : refers cwd directory argument = some (target cwd directory argument) := if_pos hresponse
      rw [expandResponseArgument, hresponse]
      refine iff_of_false (fun h => nomatch h) ?_
      rintro ⟨out, names, hexpands, -⟩
      have hlimit := ((expands_refer hrefers).1 hexpands).2.1
      omega
  | succ levels ih =>
    cases hresponse : isResponse argument with
    | false => exact spec_plain hresponse (levels + 1) chain
    | true =>
      intro e e' hactive hbytes
      have hrefers : refers cwd directory argument = some (target cwd directory argument) := if_pos hresponse
      have hinside : Normal (target cwd directory argument :: chain) :=
        List.forall_mem_cons.2 ⟨Path.lexicallyNormal_generic _, hchain⟩
      have hwords : ∀ words : List Bytes, Spec files cwd directory (target cwd directory argument :: chain) words
          (words.forM (expandResponseArgument (disk files cwd) directory levels)) :=
        Spec.forM fun a => ih (by rw [List.length_cons]; omega) hinside a
      have hkeys : (target cwd directory argument).genericString ∈ e.active ↔
          target cwd directory argument ∈ chain := by
        rw [hactive]
        exact mem_keys hchain argument
      have hactive' : (target cwd directory argument).genericString :: e.active =
          (target cwd directory argument :: chain).map Path.genericString := by
        rw [hactive]
        rfl
      rw [expand_response_ok_iff hresponse]
      constructor
      · rintro ⟨words, e₁, e₂, hopen, hrun, rfl⟩
        obtain ⟨hfresh, htokens, hfits, rfl⟩ := (openResponseFile_ok_iff hresponse hbytes).1 hopen
        obtain ⟨out, names, hexpands, hfits', rfl⟩ := (hwords words hactive' hfits).1 hrun
        refine ⟨out, target cwd directory argument :: names, (expands_refer hrefers).2
          ⟨fun hmem => hfresh (hkeys.2 hmem), by omega, words, names, htokens, hexpands, rfl⟩, ?_, after_inside e _ _ _ _⟩
        exact (Nat.add_assoc _ _ _).symm.trans_le hfits'
      · rintro ⟨out, names, hexpands, hfits, rfl⟩
        obtain ⟨hfresh, -, words, names', htokens, hinner, rfl⟩ := (expands_refer hrefers).1 hexpands
        have hfits' := (Nat.add_assoc _ _ _).trans_le hfits
        have hfirst : e.bytes + size files (target cwd directory argument) ≤ maxResponseBytes :=
          Nat.le_trans (Nat.le_add_right _ _) hfits'
        refine ⟨words, _, _, (openResponseFile_ok_iff hresponse hbytes).2
          ⟨fun hmem => hfresh (hkeys.1 hmem), htokens, hfirst, rfl⟩, ?_,
          (after_inside e _ ((target cwd directory argument).genericString :: e.active) _ _).symm⟩
        exact (hwords words hactive' hfirst).2 ⟨out, names', hinner, hfits', rfl⟩

/-! ## All arguments -/

/-- Inside of no file, from nothing. -/
theorem expanded_ok_iff {arguments : List Bytes} {e : ResponseExpansion} :
    expanded files cwd directory arguments = .ok () e ↔
      ∃ out names, Expands (refers cwd directory) (tokens files) maxResponseDepth [] arguments out names ∧
        total files names ≤ maxResponseBytes ∧ e = { bytes := total files names, inputs := names, output := out } := by
  have hnone : Normal [] := fun _ h => absurd h List.not_mem_nil
  have hspec : Spec files cwd directory [] arguments
      (arguments.forM (expandResponseArgument (disk files cwd) directory maxResponseDepth)) :=
    Spec.forM (fun a => spec_argument (Nat.zero_add _) hnone a) arguments
  have hafter : ∀ out names, after files {} out names =
      { bytes := total files names, inputs := names, output := out } := by
    intro out names
    simp [after]
  have hrun := @hspec {} e rfl (Nat.zero_le _)
  simp only [hafter, Nat.zero_add] at hrun
  exact hrun

/-- Expansion succeeds if every file that is reached exists and can be split, is not inside of itself and not 16 files
deep, and all of them have at most 16 MiB. It then puts the words of each file in place of the argument that names it,
and forgets which files were active. What comes twice is read twice. -/
theorem expanded_spec (files : Path → Option Bytes) (cwd directory : Path) (arguments : List Bytes) :
    ((∃ e, expanded files cwd directory arguments = .ok () e) ↔
      Sound (refers cwd directory) (tokens files) maxResponseDepth [] arguments ∧
        ∀ out names, Substituted (refers cwd directory) (tokens files) arguments out names →
          total files names ≤ maxResponseBytes) ∧
    (∀ e, expanded files cwd directory arguments = .ok () e →
      Substituted (refers cwd directory) (tokens files) arguments e.output e.inputs ∧
        (∀ a ∈ e.output, isResponse a = false) ∧
        (∀ path, path ∈ e.inputs ↔
          ∃ chain, Reached (refers cwd directory) (tokens files) [] arguments chain path) ∧
        e.bytes = total files e.inputs ∧ e.active = []) ∧
    ∀ e, expanded files cwd directory arguments = .ok () e → 2 * e.bytes ≤ maxResponseBytes →
      ∃ e', expanded files cwd directory (arguments ++ arguments) = .ok () e' ∧ e'.output = e.output ++ e.output := by
  refine ⟨⟨?_, ?_⟩, ?_, ?_⟩
  · rintro ⟨e, he⟩
    obtain ⟨out, names, hexpands, hfits, -⟩ := expanded_ok_iff.1 he
    refine ⟨hexpands.sound, fun out' names' h => ?_⟩
    rwa [(h.unique hexpands.substituted).2]
  · rintro ⟨hsound, hfits⟩
    obtain ⟨out, names, hexpands⟩ := hsound.expands
    exact ⟨_, expanded_ok_iff.2 ⟨out, names, hexpands, hfits out names hexpands.substituted, rfl⟩⟩
  · intro e he
    obtain ⟨out, names, hexpands, -, rfl⟩ := expanded_ok_iff.1 he
    exact ⟨hexpands.substituted, fun a ha => refers_eq_none.1 (hexpands.substituted.plain_out a ha),
      hexpands.substituted.mem_names [], rfl, rfl⟩
  · intro e he htwice
    obtain ⟨out, names, hexpands, -, rfl⟩ := expanded_ok_iff.1 he
    have hboth := hexpands.substituted.append hexpands.substituted
    refine ⟨_, expanded_ok_iff.2 ⟨_, _, hboth.expands (hexpands.sound.append hexpands.sound), ?_, rfl⟩, rfl⟩
    rw [total_append, ← Nat.two_mul]
    exact htwice

end Expansion

end ResponseFiles

end CxxDead
