import CxxDead.CompileDatabase
/-!
# Splitting a command

- `run_word`: the scanner reads a written argument, however it is quoted.
- `scanned`: what a text is when the scanner has read it: finished parts, and one that is open.
- `splitShellCommand_spec`: written arguments come back, and only open parts are refused.
-/

namespace CxxDead

open Lib

namespace ShellWords

/-- What separates arguments. -/
def blank (c : UInt8) : Bool := c = ch ' ' ∨ c = 9 ∨ c = 10 ∨ c = 13

/-- Characters that mean something outside of quotes. -/
def special (c : UInt8) : Bool := blank c || c == ch '\\' || c == ch '\'' || c == ch '"'

/-! ## Written arguments -/

/-- How an argument is written. Without quotes, more than the special characters may be escaped. -/
inductive Rendering where
  | single
  | double
  | unquoted (also : UInt8 → Bool)

/-- One character of an argument. -/
def Rendering.char : Rendering → UInt8 → Bytes
  | .single, c => if c = ch '\'' then [ch '\'', ch '\\', ch '\'', ch '\''] else [c]
  | .double, c => if c = ch '"' ∨ c = ch '\\' then [ch '\\', c] else [c]
  | .unquoted also, c => if special c || also c then [ch '\\', c] else [c]

structure Word where
  rendering : Rendering
  argument : Bytes
  /-- An empty argument is written with quotes. -/
  visible : ∀ also, rendering = .unquoted also → argument ≠ []

def Word.text (word : Word) : Bytes :=
  let body := word.argument.flatMap word.rendering.char
  match word.rendering with
  | .single => ch '\'' :: (body ++ [ch '\''])
  | .double => ch '"' :: (body ++ [ch '"'])
  | .unquoted _ => body

structure Gap where
  text : Bytes
  ne_nil : text ≠ []
  blanks : ∀ c ∈ text, blank c = true

/-- Arguments on one line, each with the gap in front of it; nothing is in front of the first one. -/
def written : List (Gap × Word) → Bytes
  | [] => []
  | (_, word) :: rest => word.text ++ rest.flatMap fun next => next.1.text ++ next.2.text

/-! ## The scanner -/

def run (s : ShellWords) (text : Bytes) : ShellWords := text.foldl step s

theorem run_append (s : ShellWords) (text text' : Bytes) : run s (text ++ text') = run (run s text) text' :=
  List.foldl_append

theorem run_cons (s : ShellWords) (c : UInt8) (text : Bytes) : run s (c :: text) = run (s.step c) text := rfl

theorem run_concat (s : ShellWords) (text : Bytes) (c : UInt8) : run s (text ++ [c]) = (run s text).step c :=
  run_append s text [c]

/-- Outside of quotes, behind no backslash. -/
def Neutral (s : ShellWords) : Prop := s.quote = .none ∧ s.escaped = false

section Step
variable {s : ShellWords} {c : UInt8}

theorem step_escaped (h : s.escaped = true) : s.step c = { s.push c with escaped := false } := if_pos h

theorem step_backslash (h : Neutral s) : s.step (ch '\\') = { s with escaped := true, tokenStarted := true } := by
  rw [step, if_neg (by simp [h.2]), h.1]
  rfl

theorem step_quote (h : Neutral s) : s.step (ch '\'') = { s with quote := .single, tokenStarted := true } := by
  rw [step, if_neg (by simp [h.2]), h.1]
  rfl

theorem step_doubleQuote (h : Neutral s) : s.step (ch '"') = { s with quote := .double, tokenStarted := true } := by
  rw [step, if_neg (by simp [h.2]), h.1]
  rfl

theorem step_blank (h : Neutral s) (hc : blank c = true) : s.step c = s.flush := by
  rw [blank, decide_eq_true_eq] at hc
  rw [step, if_neg (by simp [h.2]), h.1]
  dsimp only
  rw [if_neg, if_neg, if_neg, if_pos hc]
  all_goals
    rintro rfl
    revert hc
    decide

theorem step_plain (h : Neutral s) (hc : special c = false) : s.step c = s.push c := by
  simp only [special, blank, Bool.or_eq_false_iff, decide_eq_false_iff_not, beq_eq_false_iff_ne] at hc
  obtain ⟨⟨⟨hblank, hslash⟩, hquote⟩, hdouble⟩ := hc
  rw [step, if_neg (by simp [h.2]), h.1]
  dsimp only
  rw [if_neg hslash, if_neg hquote, if_neg hdouble, if_neg hblank]

theorem step_single (hquote : s.quote = .single) (hescaped : s.escaped = false) :
    s.step c = if c = ch '\'' then { s with quote := .none, tokenStarted := true } else s.push c := by
  rw [step, if_neg (by simp [hescaped]), hquote]

theorem step_double (hquote : s.quote = .double) (hescaped : s.escaped = false) :
    s.step c = if c = ch '"' then { s with quote := .none, tokenStarted := true }
      else if c = ch '\\' then { s with escaped := true, tokenStarted := true } else s.push c := by
  rw [step, if_neg (by simp [hescaped]), hquote]

end Step

/-! ### Reading an argument -/

theorem run_single (argument : Bytes) {s : ShellWords} (hquote : s.quote = .single) (hescaped : s.escaped = false)
    (hstarted : s.tokenStarted = true) :
    run s (argument.flatMap (Rendering.char .single)) = { s with token := s.token ++ argument } := by
  induction argument generalizing s with
  | nil =>
    cases s
    exact congrArg (ShellWords.mk _ _ _ · _) (List.append_nil _).symm
  | cons c argument ih =>
    have hchar : run s (Rendering.char .single c) = { s with token := s.token ++ [c] } := by
      simp only [Rendering.char]
      by_cases hc : c = ch '\''
      · obtain ⟨quote, escaped, tokenStarted, token, result⟩ := s
        cases hquote
        cases hescaped
        cases hstarted
        rw [if_pos hc, hc]
        rfl
      · rw [if_neg hc, run_cons, step_single hquote hescaped, if_neg hc, push, hstarted]
        rfl
    rw [List.flatMap_cons, run_append, hchar, ih (by exact hquote) (by exact hescaped) (by exact hstarted)]
    simp only [List.append_assoc, List.singleton_append]

theorem run_double (argument : Bytes) {s : ShellWords} (hquote : s.quote = .double) (hescaped : s.escaped = false)
    (hstarted : s.tokenStarted = true) :
    run s (argument.flatMap (Rendering.char .double)) = { s with token := s.token ++ argument } := by
  induction argument generalizing s with
  | nil =>
    cases s
    exact congrArg (ShellWords.mk _ _ _ · _) (List.append_nil _).symm
  | cons c argument ih =>
    have hchar : run s (Rendering.char .double c) = { s with token := s.token ++ [c] } := by
      simp only [Rendering.char]
      by_cases hc : c = ch '"' ∨ c = ch '\\'
      · rw [if_pos hc, run_cons, step_double hquote hescaped, if_neg (show ch '\\' ≠ ch '"' by decide),
          if_pos rfl, run_cons, step_escaped rfl, push, hstarted, hescaped]
        rfl
      · obtain ⟨hdouble, hslash⟩ := not_or.1 hc
        rw [if_neg hc, run_cons, step_double hquote hescaped, if_neg hdouble, if_neg hslash, push, hstarted]
        rfl
    rw [List.flatMap_cons, run_append, hchar, ih (by exact hquote) (by exact hescaped) (by exact hstarted)]
    simp only [List.append_assoc, List.singleton_append]

theorem run_unquoted (also : UInt8 → Bool) (argument : Bytes) {s : ShellWords} (h : Neutral s) :
    run s (argument.flatMap (Rendering.char (.unquoted also))) =
      { s with token := s.token ++ argument, tokenStarted := s.tokenStarted || !argument.isEmpty } := by
  induction argument generalizing s with
  | nil => simp [run]
  | cons c argument ih =>
    have hchar : run s (Rendering.char (.unquoted also) c) = s.push c := by
      simp only [Rendering.char]
      by_cases hc : (special c || also c) = true
      · rw [if_pos hc, run_cons, step_backslash h, run_cons, step_escaped rfl, push, push, h.2]
        rfl
      · rw [if_neg hc]
        exact step_plain h (Bool.or_eq_false_iff.1 (Bool.not_eq_true _ ▸ hc)).1
    rw [List.flatMap_cons, run_append, hchar, ih (s := s.push c) h]
    simp [push]

/-- Between arguments. -/
def between (result : List Bytes) : ShellWords := { result }

theorem run_word (word : Word) (result : List Bytes) :
    run (between result) word.text = { token := word.argument, tokenStarted := true, result } := by
  obtain ⟨rendering, argument, hvisible⟩ := word
  unfold Word.text
  cases rendering with
  | single =>
    dsimp only
    rw [run_cons, step_quote ⟨rfl, rfl⟩, run_append, run_single argument rfl rfl rfl, run_cons,
      step_single rfl rfl, if_pos rfl]
    rfl
  | double =>
    dsimp only
    rw [run_cons, step_doubleQuote ⟨rfl, rfl⟩, run_append, run_double argument rfl rfl rfl, run_cons,
      step_double rfl rfl, if_pos rfl]
    rfl
  | unquoted also =>
    dsimp only
    rw [run_unquoted also argument ⟨rfl, rfl⟩]
    simp [between, hvisible also rfl]

theorem run_gap (gap : Gap) (token : Bytes) (result : List Bytes) :
    run { token, tokenStarted := true, result } gap.text = between (result ++ [token]) := by
  obtain ⟨text, hne, hblanks⟩ := gap
  obtain ⟨c, text, rfl⟩ := List.exists_cons_of_ne_nil hne
  obtain ⟨hc, hblanks⟩ := List.forall_mem_cons.1 hblanks
  have hrest : ∀ text : Bytes, (∀ c ∈ text, blank c = true) →
      run (between (result ++ [token])) text = between (result ++ [token]) := by
    intro text hblanks
    induction text with
    | nil => rfl
    | cons c text ih =>
      obtain ⟨hc, hblanks⟩ := List.forall_mem_cons.1 hblanks
      rw [run_cons, step_blank ⟨rfl, rfl⟩ hc]
      exact ih hblanks
  rw [run_cons, step_blank ⟨rfl, rfl⟩ hc]
  exact hrest text hblanks

theorem run_words (words : List (Gap × Word)) (token : Bytes) (result : List Bytes) :
    (run { token, tokenStarted := true, result } (words.flatMap fun next => next.1.text ++ next.2.text)).quote = .none ∧
      (run { token, tokenStarted := true, result }
        (words.flatMap fun next => next.1.text ++ next.2.text)).escaped = false ∧
      (run { token, tokenStarted := true, result }
        (words.flatMap fun next => next.1.text ++ next.2.text)).flush.result =
          result ++ token :: words.map (·.2.argument) := by
  induction words generalizing token result with
  | nil => exact ⟨rfl, rfl, rfl⟩
  | cons next words ih =>
    have hnext := ih next.2.argument (result ++ [token])
    rw [List.flatMap_cons, run_append, run_append, run_gap, run_word]
    rwa [List.append_assoc, List.singleton_append] at hnext

theorem splitShellCommand_written (words : List (Gap × Word)) :
    splitShellCommand (written words) = .ok (words.map (·.2.argument)) := by
  cases words with
  | nil => rfl
  | cons first words =>
    obtain ⟨hquote, hescaped, hresult⟩ := run_words words first.2.argument []
    have hrun : (written (first :: words)).foldl step {} =
        run { token := first.2.argument, tokenStarted := true }
          (words.flatMap fun next => next.1.text ++ next.2.text) := by
      rw [← run_word first.2 [], ← run_append]
      rfl
    unfold splitShellCommand
    dsimp only
    rw [hrun, if_neg (by simp [hquote, hescaped]), hresult]
    rfl

/-! ## Finished and open texts -/

/-- What may stand between double quotes. -/
inductive DoubleText : Bytes → Prop
  | nil : DoubleText []
  | char {text : Bytes} {c : UInt8} : DoubleText text → c ≠ ch '"' → c ≠ ch '\\' → DoubleText (text ++ [c])
  | escaped {text : Bytes} (c : UInt8) : DoubleText text → DoubleText (text ++ [ch '\\', c])

/-- Texts whose quotes are closed and whose backslashes are in front of something. -/
inductive Complete : Bytes → Prop
  | nil : Complete []
  | char {text : Bytes} {c : UInt8} : Complete text → c ≠ ch '\\' → c ≠ ch '\'' → c ≠ ch '"' → Complete (text ++ [c])
  | escaped {text : Bytes} (c : UInt8) : Complete text → Complete (text ++ [ch '\\', c])
  | single {text body : Bytes} : Complete text → ch '\'' ∉ body → Complete (text ++ ch '\'' :: (body ++ [ch '\'']))
  | double {text body : Bytes} : Complete text → DoubleText body → Complete (text ++ ch '"' :: (body ++ [ch '"']))

/-- Texts that end inside of a quote or behind a backslash. -/
inductive Open : Quote → Bool → Bytes → Prop
  | backslash : Open .none true [ch '\\']
  | single {body : Bytes} : ch '\'' ∉ body → Open .single false (ch '\'' :: body)
  | double {body : Bytes} : DoubleText body → Open .double false (ch '"' :: body)
  | doubleBackslash {body : Bytes} : DoubleText body → Open .double true (ch '"' :: (body ++ [ch '\\']))

/-- The text ends inside of a quote or behind a backslash that nothing follows. -/
def Unfinished (command : Bytes) : Prop :=
  ∃ front tail quote escaped, Complete front ∧ Open quote escaped tail ∧ command = front ++ tail

/-- Inside of this quote, behind a backslash or not. -/
def At (quote : Quote) (escaped : Bool) (s : ShellWords) : Prop := s.quote = quote ∧ s.escaped = escaped

section Step
variable {s : ShellWords} {c : UInt8}

theorem At.single (h : At .single false s) : At (if c = ch '\'' then .none else .single) false (s.step c) := by
  rw [step_single h.1 h.2]
  split
  · exact ⟨rfl, h.2⟩
  · exact h

theorem At.double (h : At .double false s) :
    At (if c = ch '"' then .none else .double) (decide (c = ch '\\')) (s.step c) := by
  rw [step_double h.1 h.2]
  by_cases hquote : c = ch '"'
  · rw [if_pos hquote, if_pos hquote, hquote]
    exact ⟨rfl, h.2⟩
  rw [if_neg hquote, if_neg hquote]
  by_cases hslash : c = ch '\\'
  · rw [if_pos hslash, decide_eq_true hslash]
    exact ⟨h.1, rfl⟩
  · rw [if_neg hslash, decide_eq_false hslash]
    exact h

theorem At.escaped {quote : Quote} (h : At quote true s) : At quote false (s.step c) := by
  rw [step_escaped h.2]
  exact ⟨h.1, rfl⟩

theorem At.char (h : Neutral s) (hslash : c ≠ ch '\\') (hquote : c ≠ ch '\'') (hdouble : c ≠ ch '"') :
    Neutral (s.step c) := by
  cases hblank : blank c with
  | true =>
    rw [step_blank h hblank]
    unfold flush
    split
    · exact h
    · exact h
  | false =>
    rw [step_plain h (by simp [special, hblank, hslash, hquote, hdouble])]
    exact h

end Step

theorem run_singleBody {body : Bytes} (hbody : ch '\'' ∉ body) {s : ShellWords} (h : At .single false s) :
    At .single false (run s body) := by
  induction body generalizing s with
  | nil => exact h
  | cons c body ih =>
    rw [List.mem_cons, not_or] at hbody
    have hstep := h.single (c := c)
    rw [if_neg (Ne.symm hbody.1)] at hstep
    exact ih hbody.2 hstep

theorem DoubleText.run {body : Bytes} (hbody : DoubleText body) {s : ShellWords} (h : At .double false s) :
    At .double false (s.run body) := by
  induction hbody with
  | nil => exact h
  | @char text c _ hquote hslash ih =>
    have hstep := ih.double (c := c)
    rw [if_neg hquote, decide_eq_false hslash] at hstep
    rwa [run_concat]
  | escaped c _ ih =>
    rw [run_append, run_cons]
    exact (ih.double (c := ch '\\')).escaped

theorem Open.run {quote : Quote} {escaped : Bool} {tail : Bytes} (htail : Open quote escaped tail) {s : ShellWords}
    (h : Neutral s) : At quote escaped (s.run tail) := by
  cases htail with
  | backslash =>
    rw [run_cons, step_backslash h]
    exact ⟨h.1, rfl⟩
  | single hbody =>
    rw [run_cons, step_quote h]
    exact run_singleBody hbody ⟨rfl, h.2⟩
  | double hbody =>
    rw [run_cons, step_doubleQuote h]
    exact hbody.run ⟨rfl, h.2⟩
  | doubleBackslash hbody =>
    have hquoted : At .double false { s with quote := .double, tokenStarted := true } := ⟨rfl, h.2⟩
    rw [run_cons, step_doubleQuote h, run_concat]
    exact (hbody.run hquoted).double

theorem Complete.run {text : Bytes} (htext : Complete text) : Neutral (run {} text) := by
  induction htext with
  | nil => exact ⟨rfl, rfl⟩
  | char _ hslash hquote hdouble ih =>
    rw [run_concat]
    exact At.char ih hslash hquote hdouble
  | escaped c _ ih =>
    rw [run_append]
    exact (Open.backslash.run ih).escaped
  | single _ hbody ih =>
    rw [run_append, ← List.cons_append, run_concat]
    exact ((Open.single hbody).run ih).single
  | double _ hbody ih =>
    rw [run_append, ← List.cons_append, run_concat]
    exact ((Open.double hbody).run ih).double

/-- Every text is finished, or open in the way that the scanner says. -/
theorem scanned (command : Bytes) : (Neutral (run {} command) ∧ Complete command) ∨
    ∃ front tail, Complete front ∧ Open (run {} command).quote (run {} command).escaped tail ∧
      command = front ++ tail := by
  induction command using List.reverseRecOn with
  | nil => exact .inl ⟨⟨rfl, rfl⟩, .nil⟩
  | append_singleton command c ih =>
    have hstep := run_concat {} command c
    rcases ih with ⟨hneutral, hcomplete⟩ | ⟨front, tail, hfront, htail, hcommand⟩
    · have hopened : ∀ {quote escaped}, Open quote escaped [c] →
          ∃ front tail, Complete front ∧ Open (run {} (command ++ [c])).quote (run {} (command ++ [c])).escaped tail ∧
            command ++ [c] = front ++ tail := by
        intro quote escaped hopen
        obtain ⟨hquote, hescaped⟩ := hopen.run hneutral
        rw [run_append, hquote, hescaped]
        exact ⟨command, [c], hcomplete, hopen, rfl⟩
      by_cases hslash : c = ch '\\'
      · subst hslash
        exact .inr (hopened .backslash)
      by_cases hquote : c = ch '\''
      · subst hquote
        exact .inr (hopened (.single List.not_mem_nil))
      by_cases hdouble : c = ch '"'
      · subst hdouble
        exact .inr (hopened (.double .nil))
      · exact .inl ⟨hstep ▸ At.char hneutral hslash hquote hdouble, .char hcomplete hslash hquote hdouble⟩
    · rw [hstep]
      clear hstep
      generalize run {} command = s at htail
      have hat : At s.quote s.escaped s := ⟨rfl, rfl⟩
      generalize s.quote = quote at htail hat
      generalize s.escaped = escaped at htail hat
      rw [hcommand, List.append_assoc]
      cases htail with
      | backslash => exact .inl ⟨hat.escaped, .escaped c hfront⟩
      | @single body hbody =>
        by_cases hc : c = ch '\''
        · subst hc
          exact .inl ⟨hat.single, .single hfront hbody⟩
        · obtain ⟨hq, he⟩ := hat.single (c := c)
          rw [hq, he, if_neg hc]
          have hbody' : ch '\'' ∉ body ++ [c] := by simp [hbody, Ne.symm hc]
          exact .inr ⟨front, _, hfront, .single hbody', rfl⟩
      | @double body hbody =>
        obtain ⟨hq, he⟩ := hat.double (c := c)
        by_cases hc : c = ch '"'
        · subst hc
          exact .inl ⟨⟨hq, he⟩, .double hfront hbody⟩
        by_cases hslash : c = ch '\\'
        · subst hslash
          rw [hq, he]
          exact .inr ⟨front, _, hfront, .doubleBackslash hbody, rfl⟩
        · rw [hq, he, if_neg hc, decide_eq_false hslash]
          exact .inr ⟨front, _, hfront, .double (hbody.char hc hslash), rfl⟩
      | @doubleBackslash body hbody =>
        obtain ⟨hq, he⟩ := hat.escaped (c := c)
        rw [hq, he]
        refine .inr ⟨front, _, hfront, .double (hbody.escaped c), ?_⟩
        simp

theorem splitShellCommand_error_iff (command : Bytes) :
    (∃ e, splitShellCommand command = .error e) ↔ Unfinished command := by
  have hrun : splitShellCommand command =
      if (run {} command).escaped = true ∨ (run {} command).quote ≠ .none then
        .error (.runtimeError (lit "unterminated quote or escape in compilation command"))
      else .ok (run {} command).flush.result := rfl
  rw [hrun]
  constructor
  · rintro ⟨e, he⟩
    rcases scanned command with ⟨hneutral, -⟩ | ⟨front, tail, hfront, htail, hcommand⟩
    · rw [if_neg (by simp [hneutral.1, hneutral.2])] at he
      exact nomatch he
    · exact ⟨front, tail, _, _, hfront, htail, hcommand⟩
  · rintro ⟨front, tail, quote, escaped, hfront, htail, rfl⟩
    have hat := htail.run hfront.run
    rw [← run_append] at hat
    refine ⟨_, if_pos ?_⟩
    rw [hat.1, hat.2]
    cases htail with
    | backslash => exact .inl rfl
    | single _ => exact .inr (by decide)
    | double _ => exact .inr (by decide)
    | doubleBackslash _ => exact .inl rfl

/-- Written arguments come back, and only a text that ends inside of a quote or behind a backslash is refused. -/
theorem splitShellCommand_spec :
    (∀ words : List (Gap × Word), splitShellCommand (written words) = .ok (words.map (·.2.argument))) ∧
      ∀ command : Bytes, (∃ e, splitShellCommand command = .error e) ↔ Unfinished command :=
  ⟨splitShellCommand_written, splitShellCommand_error_iff⟩

/-- The three ways to write an argument, with a tab between. -/
example :
    let gap : Gap := ⟨[9, ch ' '], by decide, by decide⟩
    written [(gap, ⟨.single, lit "it's", fun _ h => nomatch h⟩), (gap, ⟨.double, [], fun _ h => nomatch h⟩),
      (gap, ⟨.unquoted fun _ => false, lit "a b", fun _ _ => by decide⟩)] = lit "'it'\\''s'\t \"\"\t a\\ b" := by
  decide

end ShellWords

end CxxDead
