import CxxDead.Generic
import CxxDead.Graph
/-!
# Dependency files of the compiler

`parseMakeDependencies` reads the makefile rule that the compiler writes: continued
lines are joined, and then a scanner takes off one backslash in front of a character.
The compiler doubles backslashes only in front of a space, so what it wrote does not
always come back.

- `run_entry`: what the scanner makes of one written path.
- `finish_rest`: what it makes of all that follow.
- `run_flattened_target`: whether the colon of the rule is seen.
-/

namespace CxxDead

open Lib

namespace MakeDependencies

/-- Continued lines joined with a space. -/
def flattened : Bytes → Bytes
  | [] => []
  | [c] => [c]
  | c :: d :: rest =>
    if c = ch '\\' ∧ d = ch '\n' then ch ' ' :: flattened rest else c :: flattened (d :: rest)

structure Scan where
  escaped : Bool := false
  afterTarget : Bool := false
  token : Bytes := []
  result : List Path := []

/-- The path of a token, which is not empty. -/
def resolve (cwd workingDirectory : Path) (token : Bytes) : Path :=
  let path : Path := ⟨token⟩
  let path := if path.isAbsolute then path else workingDirectory.append path
  (cwd.append path).lexicallyNormal

def Scan.flush (cwd workingDirectory : Path) (s : Scan) : Scan :=
  if !s.afterTarget || s.token.isEmpty then { s with token := [] }
  else { s with token := [], result := s.result ++ [resolve cwd workingDirectory s.token] }

def Scan.step (cwd workingDirectory : Path) (s : Scan) (c : UInt8) : Scan :=
  if s.escaped then { s with token := s.token ++ [c], escaped := false }
  else if c = ch '\\' then { s with escaped := true }
  else if !s.afterTarget && c == ch ':' then { s with token := [], afterTarget := true }
  else if c = ch ' ' ∨ c = ch '\t' ∨ c = ch '\r' ∨ c = ch '\n' then s.flush cwd workingDirectory
  else { s with token := s.token ++ [c] }

/-- What is done when the text has ended. -/
def Scan.finish (cwd workingDirectory : Path) (s : Scan) : Scan :=
  let s := if s.escaped then { s with token := s.token ++ [ch '\\'] } else s
  s.flush cwd workingDirectory

end MakeDependencies

open MakeDependencies in
/-- `contents` is what could be read of the file. -/
def parseMakeDependencies (cwd depfile : Path) (contents : Option Bytes) (workingDirectory : Path) :
    Except Exception (List Path) :=
  match contents with
  | none => .error (.runtimeError (lit "cannot read compiler dependency file: " ++ depfile.text))
  | some text =>
    let s := ((flattened text).foldl (Scan.step cwd workingDirectory) {}).finish cwd workingDirectory
    if !s.afterTarget || s.result.isEmpty then
      .error (.runtimeError (lit "compiler dependency file contained no dependencies"))
    else .ok s.result

namespace MakeDependencies

/-! ## What the compiler writes -/

/-- A path, where `slashes` backslashes are in front. -/
def encode : Nat → Bytes → Bytes
  | _, [] => []
  | slashes, c :: rest =>
    if c = ch '\\' then c :: encode (slashes + 1) rest
    else if c = ch ' ' then List.replicate (slashes + 1) (ch '\\') ++ c :: encode 0 rest
    else if c = ch '#' then ch '\\' :: c :: encode 0 rest
    else if c = ch '$' then ch '$' :: c :: encode 0 rest
    else c :: encode 0 rest

/-- What stands between entries. -/
inductive Blank where
  | space | continuation
deriving DecidableEq

def Blank.text : Blank → Bytes
  | .space => [ch ' ']
  | .continuation => [ch '\\', ch '\n']

/-- How the entries of a rule are set. -/
structure Layout where
  first : List Blank
  between : Nat → Blank × List Blank
  ending : List Blank
  newline : Bool

def Layout.rest (layout : Layout) : Nat → List Path → Bytes
  | _, [] => layout.ending.flatMap Blank.text ++ if layout.newline then [ch '\n'] else []
  | i, path :: paths =>
    let gap := layout.between i
    gap.1.text ++ (gap.2.flatMap Blank.text ++ (encode 0 path.text ++ layout.rest (i + 1) paths))

/-- The rule for `target` with these dependencies. -/
def Layout.file (layout : Layout) (target : Bytes) : List Path → Bytes
  | [] => target ++ [ch ':']
  | path :: paths =>
    target ++ ch ':' :: (layout.first.flatMap Blank.text ++ (encode 0 path.text ++ layout.rest 0 paths))

/-- A path as the compiler reports it. -/
structure Reported (path : Path) : Prop where
  isAbsolute : path.isAbsolute = true
  normal : path.lexicallyNormal = path
  printable : ∀ c ∈ path.text, ch ' ' ≤ c ∧ c ≠ 127

/-! ## Joined lines -/

theorem flattened_cons {c : UInt8} {s : Bytes} (h : c ≠ ch '\\' ∨ s.head? ≠ some (ch '\n')) :
    flattened (c :: s) = c :: flattened s := by
  cases s with
  | nil => rfl
  | cons d s =>
    rw [flattened, if_neg]
    rintro ⟨rfl, rfl⟩
    rcases h with h | h
    · exact h rfl
    · exact h rfl

theorem flattened_continuation (s : Bytes) : flattened (ch '\\' :: ch '\n' :: s) = ch ' ' :: flattened s :=
  if_pos ⟨rfl, rfl⟩

/-- No line is continued from the first part into the second. -/
theorem flattened_append {s t : Bytes} (h : s.getLast? ≠ some (ch '\\') ∨ t.head? ≠ some (ch '\n')) :
    flattened (s ++ t) = flattened s ++ flattened t := by
  fun_induction flattened s with
  | case1 => rfl
  | case2 c =>
    refine flattened_cons ?_
    rcases h with h | h
    · exact .inl fun hc => h (by rw [hc]; rfl)
    · exact .inr h
  | case3 c d s hcontinued ih =>
    obtain ⟨rfl, rfl⟩ := hcontinued
    rw [List.cons_append, List.cons_append, flattened_continuation, List.cons_append, ih]
    rcases h with h | h
    · cases s with
      | nil => exact .inl (by simp)
      | cons e s => exact .inl (by simpa [List.getLast?_cons_cons] using h)
    · exact .inr h
  | case4 c d s hcontinued ih =>
    rw [List.cons_append, flattened_cons, ih, List.cons_append]
    · rw [List.getLast?_cons_cons] at h
      exact h
    · rw [List.cons_append, List.head?_cons]
      exact (not_and_or.1 hcontinued).imp id fun hd heq => hd (Option.some.inj heq)

theorem flattened_eq {s : Bytes} (h : ch '\n' ∉ s) : flattened s = s := by
  induction s with
  | nil => rfl
  | cons c s ih =>
    rw [flattened_cons, ih fun hmem => h (List.mem_cons_of_mem _ hmem)]
    refine .inr fun hhead => h (List.mem_cons_of_mem _ ?_)
    exact List.mem_of_mem_head? hhead

theorem flattened_blanks (blanks : List Blank) (s : Bytes) :
    flattened (blanks.flatMap Blank.text ++ s) = List.replicate blanks.length (ch ' ') ++ flattened s := by
  induction blanks with
  | nil => rfl
  | cons blank blanks ih =>
    rw [List.flatMap_cons, List.append_assoc, List.length_cons, List.replicate_succ, List.cons_append, ← ih]
    cases blank with
    | space => exact flattened_cons (.inl (by decide))
    | continuation => exact flattened_continuation _

theorem flattened_ne_nil (c : UInt8) (s : Bytes) : flattened (c :: s) ≠ [] := by
  cases s with
  | nil => exact List.cons_ne_nil _ _
  | cons d s =>
    rw [flattened]
    split <;> exact List.cons_ne_nil _ _

theorem getLast_cons_ne {c : UInt8} {l : Bytes} (hc : c = ch '\\' → l ≠ []) (hl : l.getLast? ≠ some (ch '\\')) :
    (c :: l).getLast? ≠ some (ch '\\') := by
  cases l with
  | nil => exact fun heq => hc (Option.some.inj heq) rfl
  | cons d l => rwa [List.getLast?_cons_cons]

/-- Joined lines end in a backslash only if the text does. -/
theorem flattened_getLast {s : Bytes} (h : s.getLast? ≠ some (ch '\\')) :
    (flattened s).getLast? ≠ some (ch '\\') := by
  fun_induction flattened s with
  | case1 => exact h
  | case2 c => exact h
  | case3 c d s hcontinued ih =>
    refine getLast_cons_ne (fun heq => absurd heq (by decide)) (ih ?_)
    cases s with
    | nil => exact fun heq => nomatch heq
    | cons e s => rwa [List.getLast?_cons_cons, List.getLast?_cons_cons] at h
  | case4 c d s hcontinued ih =>
    rw [List.getLast?_cons_cons] at h
    exact getLast_cons_ne (fun _ => flattened_ne_nil d s) (ih h)

theorem mem_flattened {s : Bytes} {c : UInt8} (h : c ∈ flattened s) : c ∈ s ∨ c = ch ' ' := by
  fun_induction flattened s with
  | case1 => exact .inl h
  | case2 d => exact .inl h
  | case3 d e s _ ih =>
    rcases List.mem_cons.1 h with rfl | h
    · exact .inr rfl
    · exact (ih h).imp (fun h => List.mem_cons_of_mem _ (List.mem_cons_of_mem _ h)) id
  | case4 d e s _ ih =>
    rcases List.mem_cons.1 h with rfl | h
    · exact .inl List.mem_cons_self
    · exact (ih h).imp (fun h => List.mem_cons_of_mem _ h) id

/-! ## The scanner -/

section Scan
variable (cwd workingDirectory : Path)

/-- The scanner on a text. -/
def run (s : Scan) (text : Bytes) : Scan := text.foldl (Scan.step cwd workingDirectory) s

variable {cwd workingDirectory}

theorem run_append (s : Scan) (text text' : Bytes) :
    run cwd workingDirectory s (text ++ text') = run cwd workingDirectory (run cwd workingDirectory s text) text' :=
  List.foldl_append

theorem run_cons (s : Scan) (c : UInt8) (text : Bytes) :
    run cwd workingDirectory s (c :: text) = run cwd workingDirectory (s.step cwd workingDirectory c) text := rfl

theorem step_escaped {s : Scan} (h : s.escaped = true) (c : UInt8) :
    s.step cwd workingDirectory c = { s with token := s.token ++ [c], escaped := false } := if_pos h

theorem step_slash {s : Scan} (h : s.escaped = false) :
    s.step cwd workingDirectory (ch '\\') = { s with escaped := true } := by
  rw [Scan.step, if_neg (by simp [h]), if_pos rfl]

/-- Characters that the scanner takes as they are, when the target has been read. -/
def plain (c : UInt8) : Bool := ch ' ' < c && c ≠ ch '\\'

theorem step_plain {s : Scan} (htarget : s.afterTarget = true) {c : UInt8} (hc : plain c = true) :
    s.step cwd workingDirectory c = { s with token := s.token ++ [c], escaped := false } := by
  rw [plain, Bool.and_eq_true, decide_eq_true_eq, decide_eq_true_eq] at hc
  obtain ⟨hvisible, hslash⟩ := hc
  have hblank : ¬ (c = ch ' ' ∨ c = ch '\t' ∨ c = ch '\r' ∨ c = ch '\n') := by
    rintro (rfl | rfl | rfl | rfl) <;> exact absurd hvisible (by decide)
  cases hescaped : s.escaped with
  | true => exact step_escaped hescaped c
  | false =>
    rw [Scan.step, if_neg (by simp [hescaped]), if_neg hslash, if_neg (by simp [htarget]), if_neg hblank, hescaped]

/-- A run of backslashes leaves half of them, and the last one open if their number is odd. -/
theorem run_slashes (n : Nat) {s : Scan} (h : s.escaped = false) :
    run cwd workingDirectory s (List.replicate n (ch '\\')) =
      { s with token := s.token ++ List.replicate (n / 2) (ch '\\'), escaped := decide (n % 2 = 1) } := by
  induction n using Nat.twoStepInduction generalizing s with
  | zero =>
    cases s
    cases h
    exact congrArg (Scan.mk false _ · _) (List.append_nil _).symm
  | one =>
    show s.step cwd workingDirectory (ch '\\') = _
    rw [step_slash h, Nat.div_eq_of_lt (by decide), List.replicate_zero, List.append_nil]
    rfl
  | more n ih _ =>
    have htwo : run cwd workingDirectory s (List.replicate (n + 2) (ch '\\')) =
        run cwd workingDirectory { s with token := s.token ++ [ch '\\'] } (List.replicate n (ch '\\')) := by
      rw [List.replicate_succ, List.replicate_succ, run_cons, run_cons, step_slash h, step_escaped rfl, ← h]
    rw [htwo, ih (s := { s with token := s.token ++ [ch '\\'] }) h, Nat.add_div_right n (by decide), Nat.add_mod_right,
      List.replicate_succ, List.append_assoc, List.singleton_append]

/-! ### Written paths -/

/-- The text with each `$` doubled. -/
def dollars (text : Bytes) : Bytes := text.flatMap fun c => if c = ch '$' then [c, c] else [c]

/-- Backslashes come back if a space follows them, or a `#` that is behind only one; `slashes` are in front. -/
def Escapable : Nat → Bytes → Prop
  | slashes, [] => slashes = 0
  | slashes, c :: rest =>
    if c = ch '\\' then Escapable (slashes + 1) rest
    else if c = ch ' ' then Escapable 0 rest
    else if c = ch '#' then slashes ≤ 1 ∧ Escapable 0 rest
    else slashes = 0 ∧ Escapable 0 rest

variable (cwd workingDirectory) in
theorem run_entry {text : Bytes} (hprintable : ∀ c ∈ text, ch ' ' ≤ c) {slashes : Nat} (h : Escapable slashes text)
    {s : Scan} (htarget : s.afterTarget = true) (hescaped : s.escaped = false) :
    run cwd workingDirectory s (List.replicate slashes (ch '\\') ++ encode slashes text) =
      { s with token := s.token ++ (List.replicate slashes (ch '\\') ++ dollars text) } := by
  induction text generalizing slashes s with
  | nil =>
    obtain rfl : slashes = 0 := h
    cases s
    exact congrArg (Scan.mk _ _ · _) (List.append_nil _).symm
  | cons c rest ih =>
    have hrest : ∀ c ∈ rest, ch ' ' ≤ c := fun c hc => hprintable c (List.mem_cons_of_mem _ hc)
    unfold Escapable at h
    unfold encode
    by_cases hslash : c = ch '\\'
    · rw [if_pos hslash] at h ⊢
      have hmove : ∀ l : Bytes, List.replicate slashes (ch '\\') ++ c :: l =
          List.replicate (slashes + 1) (ch '\\') ++ l := by
        intro l
        rw [hslash, List.replicate_succ', List.append_assoc, List.singleton_append]
      have hdollars : dollars (c :: rest) = c :: dollars rest := by
        rw [hslash]
        rfl
      rw [hmove, ih hrest h htarget hescaped, hdollars, hmove]
    rw [if_neg hslash] at h ⊢
    have hdollars : c ≠ ch '$' → dollars (c :: rest) = c :: dollars rest := by
      intro hdollar
      rw [dollars, List.flatMap_cons, if_neg hdollar]
      rfl
    have hnext : ∀ s : Scan, Escapable 0 rest → s.afterTarget = true → s.escaped = false →
        run cwd workingDirectory s (encode 0 rest) = { s with token := s.token ++ dollars rest } := by
      intro s h htarget hescaped
      exact ih hrest h htarget hescaped
    by_cases hspace : c = ch ' '
    · rw [if_pos hspace] at h ⊢
      have hhalf : (slashes + (slashes + 1)) / 2 = slashes ∧ (slashes + (slashes + 1)) % 2 = 1 := by omega
      rw [← List.append_assoc, ← List.replicate_add, run_append, run_slashes _ hescaped, hhalf.1, hhalf.2, run_cons,
        step_escaped (by simp)]
      rw [hnext _ h]
      · rw [hdollars (by rw [hspace]; decide)]
        simp only [List.nil_append, List.append_assoc, List.cons_append, hescaped]
      · exact htarget
      · rfl
    rw [if_neg hspace] at h ⊢
    have hplain : plain c = true := by
      rw [plain, Bool.and_eq_true, decide_eq_true_eq, decide_eq_true_eq]
      exact ⟨lt_of_le_of_ne (hprintable c List.mem_cons_self) (Ne.symm hspace), hslash⟩
    by_cases hhash : c = ch '#'
    · rw [if_pos hhash] at h ⊢
      have hmove : ∀ l : Bytes, List.replicate slashes (ch '\\') ++ ch '\\' :: l =
          List.replicate (slashes + 1) (ch '\\') ++ l := by
        intro l
        rw [List.replicate_succ', List.append_assoc, List.singleton_append]
      have hhalf : (slashes + 1) / 2 = slashes := by omega
      rw [hmove, run_append, run_slashes _ hescaped, hhalf, run_cons, step_plain (by exact htarget) hplain]
      rw [hnext _ h.2]
      · rw [hdollars (by rw [hhash]; decide)]
        simp only [List.nil_append, List.append_assoc, List.cons_append, hescaped]
      · exact htarget
      · rfl
    · rw [if_neg hhash] at h ⊢
      obtain ⟨rfl, h⟩ := h
      by_cases hdollar : c = ch '$'
      · subst hdollar
        rw [if_pos rfl, List.replicate_zero, List.nil_append, run_cons, run_cons, step_plain htarget hplain,
          step_plain (by exact htarget) hplain]
        rw [hnext _ h]
        · have hdouble : dollars (ch '$' :: rest) = ch '$' :: ch '$' :: dollars rest := rfl
          rw [hdouble]
          simp only [List.nil_append, List.append_assoc, List.cons_append, hescaped]
        · exact htarget
        · rfl
      · rw [if_neg hdollar, List.replicate_zero, List.nil_append, run_cons, step_plain htarget hplain]
        rw [hnext _ h]
        · rw [hdollars hdollar]
          simp only [List.nil_append, List.append_assoc, List.cons_append, hescaped]
        · exact htarget
        · rfl

theorem encode_ne_nil (slashes : Nat) (c : UInt8) (rest : Bytes) : encode slashes (c :: rest) ≠ [] := by
  unfold encode
  split
  · exact List.cons_ne_nil _ _
  · split
    · exact List.append_ne_nil_of_right_ne_nil _ (List.cons_ne_nil _ _)
    · split
      · exact List.cons_ne_nil _ _
      · split <;> exact List.cons_ne_nil _ _

/-- A written path ends in a backslash only if the path does. -/
theorem encode_getLast {text : Bytes} (h : text.getLast? ≠ some (ch '\\')) (slashes : Nat) :
    (encode slashes text).getLast? ≠ some (ch '\\') := by
  induction text generalizing slashes with
  | nil => exact h
  | cons c rest ih =>
    have hrest : rest.getLast? ≠ some (ch '\\') := by
      cases rest with
      | nil => exact fun heq => nomatch heq
      | cons d rest => rwa [List.getLast?_cons_cons] at h
    unfold encode
    by_cases hslash : c = ch '\\'
    · rw [if_pos hslash]
      refine getLast_cons_ne (fun _ hnil => ?_) (ih hrest _)
      cases rest with
      | nil => exact h (congrArg some hslash)
      | cons d rest => exact encode_ne_nil _ _ _ hnil
    have hlast : (c :: encode 0 rest).getLast? ≠ some (ch '\\') :=
      getLast_cons_ne (fun heq => absurd heq hslash) (ih hrest 0)
    rw [if_neg hslash]
    split
    · rwa [List.getLast?_append_of_ne_nil _ (List.cons_ne_nil _ _)]
    · split
      · rwa [List.getLast?_cons_cons]
      · split
        · rwa [List.getLast?_cons_cons]
        · exact hlast

theorem Escapable.getLast {text : Bytes} {slashes : Nat} (h : Escapable slashes text) :
    text.getLast? ≠ some (ch '\\') := by
  induction text generalizing slashes with
  | nil => exact fun heq => nomatch heq
  | cons c rest ih =>
    unfold Escapable at h
    by_cases hslash : c = ch '\\'
    · rw [if_pos hslash] at h
      refine getLast_cons_ne (fun _ hnil => ?_) (ih h)
      rw [hnil] at h
      exact nomatch h
    · rw [if_neg hslash] at h
      refine getLast_cons_ne (fun heq => absurd heq hslash) ?_
      split at h
      · exact ih h
      · split at h
        · exact ih h.2
        · exact ih h.2

theorem encode_noNewline {text : Bytes} (h : ch '\n' ∉ text) (slashes : Nat) : ch '\n' ∉ encode slashes text := by
  induction text generalizing slashes with
  | nil => exact h
  | cons c rest ih =>
    rw [List.mem_cons, not_or] at h
    have hrest := ih h.2
    have hslash : ch '\n' ≠ ch '\\' := by decide
    have hdollar : ch '\n' ≠ ch '$' := by decide
    unfold encode
    split
    · exact List.not_mem_cons_of_ne_of_not_mem h.1 (hrest _)
    · split
      · rw [List.mem_append, not_or]
        exact ⟨fun hmem => hslash (List.eq_of_mem_replicate hmem), List.not_mem_cons_of_ne_of_not_mem h.1 (hrest _)⟩
      · split
        · exact List.not_mem_cons_of_ne_of_not_mem hslash (List.not_mem_cons_of_ne_of_not_mem h.1 (hrest _))
        · split
          · exact List.not_mem_cons_of_ne_of_not_mem hdollar (List.not_mem_cons_of_ne_of_not_mem h.1 (hrest _))
          · exact List.not_mem_cons_of_ne_of_not_mem h.1 (hrest _)

theorem flush_token {s : Scan} (htarget : s.afterTarget = true) (htoken : s.token ≠ []) :
    s.flush cwd workingDirectory =
      { s with token := [], result := s.result ++ [resolve cwd workingDirectory s.token] } := by
  rw [Scan.flush, if_neg (by simp [htarget, htoken])]

theorem flush_empty {s : Scan} (htoken : s.token = []) : s.flush cwd workingDirectory = s := by
  rw [Scan.flush, if_pos (by simp [htoken])]
  cases s
  cases htoken
  rfl

variable (cwd workingDirectory) in
theorem flush_neutral {s : Scan} (hescaped : s.escaped = false) :
    (s.flush cwd workingDirectory).escaped = false ∧ (s.flush cwd workingDirectory).token = [] := by
  unfold Scan.flush
  split <;> exact ⟨hescaped, rfl⟩

theorem step_blank {s : Scan} (hescaped : s.escaped = false) {c : UInt8} (hc : c = ch ' ' ∨ c = ch '\n') :
    s.step cwd workingDirectory c = s.flush cwd workingDirectory := by
  have hslash : c ≠ ch '\\' := by rcases hc with rfl | rfl <;> decide
  have hcolon : c ≠ ch ':' := by rcases hc with rfl | rfl <;> decide
  have hblank : c = ch ' ' ∨ c = ch '\t' ∨ c = ch '\r' ∨ c = ch '\n' :=
    hc.elim .inl fun hc => .inr (.inr (.inr hc))
  rw [Scan.step, if_neg (by simp [hescaped]), if_neg hslash, if_neg (by simp [hcolon]), if_pos hblank]

/-- Between entries nothing is left over. -/
theorem run_blanks {s : Scan} (hescaped : s.escaped = false) (htoken : s.token = []) {blanks : Bytes}
    (hblanks : ∀ c ∈ blanks, c = ch ' ' ∨ c = ch '\n') : run cwd workingDirectory s blanks = s := by
  induction blanks with
  | nil => rfl
  | cons c blanks ih =>
    rw [run_cons, step_blank hescaped (hblanks c List.mem_cons_self), flush_empty htoken]
    exact ih fun c hc => hblanks c (List.mem_cons_of_mem _ hc)

/-- The token is read when the text ends or the first blank comes. -/
theorem finish_blanks {s : Scan} (hescaped : s.escaped = false) {blanks : Bytes}
    (hblanks : ∀ c ∈ blanks, c = ch ' ' ∨ c = ch '\n') :
    (run cwd workingDirectory s blanks).finish cwd workingDirectory = s.flush cwd workingDirectory := by
  have hfinish : ∀ s : Scan, s.escaped = false →
      s.finish cwd workingDirectory = s.flush cwd workingDirectory := by
    intro s h
    rw [Scan.finish, if_neg (by simp [h])]
  cases blanks with
  | nil => exact hfinish s hescaped
  | cons c blanks =>
    have hflushed := flush_neutral cwd workingDirectory hescaped
    rw [run_cons, step_blank hescaped (hblanks c List.mem_cons_self),
      run_blanks hflushed.1 hflushed.2 fun c hc => hblanks c (List.mem_cons_of_mem _ hc), hfinish _ hflushed.1,
      flush_empty hflushed.2]

theorem Reported.text_ne_nil {p : Path} (h : Reported p) : p.text ≠ [] := by
  intro hnil
  have habsolute := h.isAbsolute
  rw [Path.isAbsolute, hnil] at habsolute
  exact absurd habsolute Bool.false_ne_true

theorem Reported.noNewline {p : Path} (h : Reported p) : ch '\n' ∉ p.text :=
  fun hmem => absurd (h.printable _ hmem).1 (by decide)

theorem dollars_ne_nil {text : Bytes} (h : text ≠ []) : dollars text ≠ [] := by
  cases text with
  | nil => exact absurd rfl h
  | cons c rest =>
    rw [dollars, List.flatMap_cons]
    split <;> exact List.cons_ne_nil _ _

/-- One entry, with the blanks in front of it. -/
theorem run_path {p : Path} (hp : Reported p) (hescapable : Escapable 0 p.text) (blanks : List Blank) (tail : Bytes)
    {s : Scan} (hescaped : s.escaped = false) (htarget : s.afterTarget = true) (htoken : s.token = []) :
    run cwd workingDirectory s (flattened (blanks.flatMap Blank.text ++ (encode 0 p.text ++ tail))) =
      run cwd workingDirectory { s with token := dollars p.text } (flattened tail) := by
  have hblanks : ∀ c ∈ List.replicate blanks.length (ch ' '), c = ch ' ' ∨ c = ch '\n' :=
    fun c hc => .inl (List.eq_of_mem_replicate hc)
  have hentry := run_entry cwd workingDirectory (fun c hc => (hp.printable c hc).1) hescapable htarget hescaped
  rw [List.replicate_zero, List.nil_append, List.nil_append, htoken, List.nil_append] at hentry
  rw [flattened_blanks, flattened_append (.inl (encode_getLast hescapable.getLast 0)),
    flattened_eq (encode_noNewline hp.noNewline 0), run_append, run_blanks hescaped htoken hblanks, run_append, hentry]

/-- What the whole text gives when a token has been read and entries follow. -/
theorem finish_rest (layout : Layout) {paths : List Path} (hpaths : ∀ p ∈ paths, Reported p)
    (hescapable : ∀ p ∈ paths, Escapable 0 p.text) (i : Nat) {s : Scan} (hescaped : s.escaped = false)
    (htarget : s.afterTarget = true) (htoken : s.token ≠ []) :
    (run cwd workingDirectory s (flattened (layout.rest i paths))).finish cwd workingDirectory =
      { s with
        token := []
        result := s.result ++ resolve cwd workingDirectory s.token ::
          paths.map fun p => resolve cwd workingDirectory (dollars p.text) } := by
  induction paths generalizing i s with
  | nil =>
    have hending : flattened (layout.rest i []) =
        List.replicate layout.ending.length (ch ' ') ++ if layout.newline then [ch '\n'] else [] := by
      rw [Layout.rest, flattened_blanks]
      split <;> rfl
    rw [hending, finish_blanks hescaped, flush_token htarget htoken]
    · rfl
    · intro c hc
      rcases List.mem_append.1 hc with hc | hc
      · exact .inl (List.eq_of_mem_replicate hc)
      · split at hc
        · exact .inr (List.mem_singleton.1 hc)
        · exact absurd hc List.not_mem_nil
  | cons p paths ih =>
    obtain ⟨hp, hpaths⟩ := List.forall_mem_cons.1 hpaths
    obtain ⟨hentry, hescapable⟩ := List.forall_mem_cons.1 hescapable
    have hgap : ∀ text : Bytes, run cwd workingDirectory s (flattened ((layout.between i).1.text ++ text)) =
        run cwd workingDirectory
          { s with token := [], result := s.result ++ [resolve cwd workingDirectory s.token] } (flattened text) := by
      intro text
      have hone := flattened_blanks [(layout.between i).1] text
      rw [List.flatMap_cons, List.flatMap_nil, List.append_nil] at hone
      rw [hone, run_append, ← flush_token htarget htoken, ← step_blank hescaped (.inl rfl)]
      rfl
    rw [Layout.rest, hgap, run_path hp hentry]
    · rw [ih hpaths hescapable]
      · simp only [List.map_cons, List.append_assoc, List.cons_append, List.nil_append]
      · exact hescaped
      · exact htarget
      · exact dollars_ne_nil hp.text_ne_nil
    · exact hescaped
    · exact htarget
    · rfl

/-! ### The target -/

variable (cwd workingDirectory) in
theorem step_target {s : Scan} (htarget : s.afterTarget = false) {c : UInt8} (hcolon : c ≠ ch ':') :
    (s.step cwd workingDirectory c).afterTarget = false ∧
      (s.step cwd workingDirectory c).result = s.result := by
  unfold Scan.step
  split
  · exact ⟨htarget, rfl⟩
  · split
    · exact ⟨htarget, rfl⟩
    · rw [if_neg (by simp [hcolon])]
      split
      · rw [Scan.flush, if_pos (by simp [htarget])]
        exact ⟨htarget, rfl⟩
      · exact ⟨htarget, rfl⟩

variable (cwd workingDirectory) in
theorem run_target {text : Bytes} (hcolon : ch ':' ∉ text) {s : Scan} (htarget : s.afterTarget = false) :
    (run cwd workingDirectory s text).afterTarget = false ∧
      (run cwd workingDirectory s text).result = s.result := by
  induction text generalizing s with
  | nil => exact ⟨htarget, rfl⟩
  | cons c text ih =>
    rw [List.mem_cons, not_or] at hcolon
    have hstep := step_target cwd workingDirectory htarget (Ne.symm hcolon.1)
    rw [run_cons, ← hstep.2]
    exact ih hcolon.2 hstep.1

theorem step_unescaped {s : Scan} {c : UInt8} (hc : c ≠ ch '\\') :
    (s.step cwd workingDirectory c).escaped = false := by
  unfold Scan.step
  split
  · rfl
  · rename_i hescaped
    have hfree : s.escaped = false := Bool.not_eq_true _ ▸ hescaped
    split
    · exact hfree
    · split
      · exact (flush_neutral cwd workingDirectory hfree).1
      · exact hfree

theorem run_unescaped {text : Bytes} (h : text.getLast? ≠ some (ch '\\')) {s : Scan} (hescaped : s.escaped = false) :
    (run cwd workingDirectory s text).escaped = false := by
  rcases List.eq_nil_or_concat text with rfl | ⟨front, c, rfl⟩
  · exact hescaped
  · rw [List.concat_eq_append, List.getLast?_concat] at h
    rw [List.concat_eq_append, run_append]
    exact step_unescaped fun heq => h (congrArg some heq)

/-- The number of backslashes that a text ends in. -/
def lastSlashes (text : Bytes) : Nat := (text.reverse.takeWhile (· == ch '\\')).length

theorem eq_append_lastSlashes (text : Bytes) :
    ∃ front : Bytes, front.getLast? ≠ some (ch '\\') ∧
      text = front ++ List.replicate (lastSlashes text) (ch '\\') := by
  refine ⟨(text.reverse.dropWhile (· == ch '\\')).reverse, ?_, ?_⟩
  · rw [List.getLast?_reverse]
    intro hhead
    have hnot := List.head?_dropWhile_not (· == ch '\\') text.reverse
    rw [hhead] at hnot
    simp at hnot
  · have hall : text.reverse.takeWhile (· == ch '\\') = List.replicate (lastSlashes text) (ch '\\') := by
      refine List.eq_replicate_iff.2 ⟨rfl, fun c hc => ?_⟩
      exact eq_of_beq (List.all_eq_true.1 List.all_takeWhile c hc)
    have hsplit : text.reverse.takeWhile (· == ch '\\') ++ text.reverse.dropWhile (· == ch '\\') = text.reverse :=
      List.takeWhile_append_dropWhile
    rw [hall] at hsplit
    rw [← List.reverse_replicate, ← List.reverse_append, hsplit, List.reverse_reverse]

variable (cwd workingDirectory) in
/-- Where the colon of the rule is reached: it is escaped if an odd number of backslashes is in front. -/
theorem run_flattened_target {target : Bytes} (hcolon : ch ':' ∉ target) :
    (run cwd workingDirectory {} (flattened target)).afterTarget = false ∧
      (run cwd workingDirectory {} (flattened target)).result = [] ∧
      (run cwd workingDirectory {} (flattened target)).escaped = decide (lastSlashes target % 2 = 1) := by
  have hflattened : ch ':' ∉ flattened target :=
    fun hmem => (mem_flattened hmem).elim hcolon fun heq => absurd heq (by decide)
  have htarget := run_target cwd workingDirectory hflattened (s := {}) rfl
  refine ⟨htarget.1, htarget.2, ?_⟩
  obtain ⟨front, hlast, hsplit⟩ := eq_append_lastSlashes target
  have hslashes : flattened target = flattened front ++ List.replicate (lastSlashes target) (ch '\\') := by
    conv_lhs => rw [hsplit]
    rw [flattened_append (.inl hlast), flattened_eq (s := List.replicate _ _)]
    intro hmem
    exact absurd (List.eq_of_mem_replicate hmem) (by decide)
  rw [hslashes, run_append, run_slashes _ (run_unescaped (flattened_getLast hlast) rfl)]

/-- The scanner behind the colon, when it sees it. -/
theorem run_colon {target : Bytes} (hcolon : ch ':' ∉ target) (heven : lastSlashes target % 2 = 0) :
    run cwd workingDirectory {} (flattened target ++ [ch ':']) = { afterTarget := true } := by
  obtain ⟨htarget, hresult, hescaped⟩ := run_flattened_target cwd workingDirectory hcolon
  rw [heven] at hescaped
  rw [run_append]
  show Scan.step _ _ _ _ = _
  rw [Scan.step, if_neg (by simp [hescaped]), if_neg (show ch ':' ≠ ch '\\' by decide), if_pos (by simp [htarget]), hescaped, hresult]
  rfl

end Scan

end MakeDependencies

end CxxDead
