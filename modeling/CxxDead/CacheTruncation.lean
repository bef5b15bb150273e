import CxxDead.CacheRoundTrip
import CxxDead.Lib.Cut
/-!
# Cache entries that break off

A cache entry has no end marker. That a part of an entry is never taken for an entry
follows from the grammar: what the reader has still to read is never nothing.

- `readEntry_spaces`: white space behind an entry does not matter.
- `readEntry_part`: the reader throws on every proper prefix of an entry, the one that
  lacks only the last newline apart, and on an entry with more behind it.
-/

namespace CxxDead

open Lib Text

/-! ## Tokens -/

/-- As `Lib.Scans`, for a token. -/
structure Token {α : Type} (f : Bytes → Option (α × Bytes)) : Prop where
  nil : f [] = none
  shorter : ∀ {s a r}, f s = some (a, r) → r.length ≤ s.length
  longer : ∀ {s a r}, f s = some (a, r) → r ≠ [] → ∀ v, f (s ++ v) = some (a, r ++ v)
  spaces : ∀ s w, s ≠ [] → (∀ c ∈ w, Text.isSpace c = true) → f (s ++ w) = (f s).map fun p => (p.1, p.2 ++ w)

variable {α β : Type}

theorem run_extract {f : Bytes → Option (α × Bytes)} {what s : Bytes} :
    (Text.extract what f).run s =
      match f (s.dropWhile Text.isSpace) with
      | some p => .ok p
      | none => .error (.runtimeError what) := rfl

theorem run_extract_ok {f : Bytes → Option (α × Bytes)} {what s r : Bytes} {a : α} :
    (Text.extract what f).run s = .ok (a, r) ↔ f (s.dropWhile Text.isSpace) = some (a, r) := by
  rw [run_extract]
  cases f (s.dropWhile Text.isSpace) with
  | none => simp
  | some p => simp

theorem dropWhile_append_spaces {s w : Bytes} (hw : ∀ c ∈ w, Text.isSpace c = true) :
    (s ++ w).dropWhile Text.isSpace =
      if s.dropWhile Text.isSpace = [] then [] else s.dropWhile Text.isSpace ++ w := by
  rw [List.dropWhile_append]
  simp only [List.isEmpty_iff, List.dropWhile_eq_nil_iff.2 hw]

theorem Token.extract {f : Bytes → Option (α × Bytes)} (h : Token f) (what : Bytes) :
    Scans Text.isSpace (Text.extract what f) := by
  refine ⟨?_, ?_, ?_⟩
  · intro s a r hrun
    exact Nat.le_trans (h.shorter (run_extract_ok.1 hrun)) (List.dropWhile_suffix _).length_le
  · intro s a r hrun hr v
    rw [run_extract_ok] at hrun ⊢
    have hne : s.dropWhile Text.isSpace ≠ [] := by
      intro hnil
      rw [hnil, h.nil] at hrun
      cases hrun
    rw [List.dropWhile_append, if_neg (by simpa only [List.isEmpty_iff] using hne), h.longer hrun hr v]
  · intro s w hw
    rw [run_extract, run_extract, dropWhile_append_spaces hw]
    by_cases hnil : s.dropWhile Text.isSpace = []
    · rw [if_pos hnil, hnil, h.nil]
      rfl
    · rw [if_neg hnil, h.spaces _ w hnil hw]
      cases f (s.dropWhile Text.isSpace) with
      | none => rfl
      | some p => rfl

theorem Token.starves {f : Bytes → Option (α × Bytes)} (h : Token f) (what : Bytes) :
    Starves (Text.extract what f) := by
  refine ⟨.runtimeError what, ?_⟩
  rw [run_extract, List.dropWhile_nil, h.nil]

/-- A token that is looked at further. -/
theorem Token.refine {f : Bytes → Option (α × Bytes)} {f' : Bytes → Option (β × Bytes)} (h : Token f) (g : α → Option β)
    (hf' : ∀ s, f' s = (f s).bind fun p => (g p.1).map fun b => (b, p.2)) : Token f' := by
  have hsome : ∀ {s b r}, f' s = some (b, r) ↔ ∃ a, f s = some (a, r) ∧ g a = some b := by
    intro s b r
    rw [hf']
    cases f s with
    | none => simp
    | some p => cases hg : g p.1 <;> simp [hg, Prod.ext_iff, and_comm]
  refine ⟨?_, ?_, ?_, ?_⟩
  · rw [hf', h.nil]
    rfl
  · intro s b r hs
    obtain ⟨a, ha, -⟩ := hsome.1 hs
    exact h.shorter ha
  · intro s b r hs hr v
    obtain ⟨a, ha, hg⟩ := hsome.1 hs
    exact hsome.2 ⟨a, h.longer ha hr v, hg⟩
  · intro s w hne hw
    rw [hf', hf', h.spaces s w hne hw]
    cases f s with
    | none => rfl
    | some p => cases hg : g p.1 <;> simp [hg]

/-! ### Words and texts -/

/-- Where a run of bytes ends with the text, it goes on with what follows. -/
theorem takeWhile_append_of_drop {p : UInt8 → Bool} {s : Bytes} (h : s.drop (s.takeWhile p).length ≠ []) (v : Bytes) :
    (s ++ v).takeWhile p = s.takeWhile p := by
  rw [List.takeWhile_append, if_neg]
  intro hlength
  rw [hlength, List.drop_length] at h
  exact h rfl

theorem takeWhile_append_of_not {p : UInt8 → Bool} {w : Bytes} (hw : ∀ c ∈ w, p c = false) (s : Bytes) :
    (s ++ w).takeWhile p = s.takeWhile p := by
  rw [List.takeWhile_append]
  split
  · rename_i hlength
    have hwhole : s.takeWhile p = s := (List.takeWhile_prefix p).eq_of_length hlength
    cases w with
    | nil => rw [List.takeWhile_nil, List.append_nil, hwhole]
    | cons c w => rw [List.takeWhile_cons_of_neg (by simp [hw c]), List.append_nil, hwhole]
  · rfl

theorem drop_takeWhile_append (p : UInt8 → Bool) (s v : Bytes) :
    (s ++ v).drop (s.takeWhile p).length = s.drop (s.takeWhile p).length ++ v :=
  List.drop_append_of_le_length (List.takeWhile_prefix p).length_le

theorem token_word : Token Text.word := by
  refine ⟨rfl, ?_, ?_, ?_⟩
  · intro s a r h
    unfold Text.word at h
    dsimp only at h
    split at h
    · cases h
    · cases h
      simp
  · intro s a r h hr v
    unfold Text.word at h ⊢
    dsimp only at h ⊢
    split at h
    · cases h
    · rename_i hne
      cases h
      rw [takeWhile_append_of_drop hr, if_neg hne, drop_takeWhile_append]
  · intro s w _ hw
    unfold Text.word
    dsimp only
    rw [takeWhile_append_of_not (by simpa using hw), drop_takeWhile_append]
    split <;> rfl

theorem quotedBody_shorter {escaped : Bool} {s r a : Bytes} (h : quotedBody escaped s = some (a, r)) :
    r.length ≤ s.length := by
  induction s generalizing escaped a with
  | nil => cases escaped <;> cases h
  | cons c s ih =>
    have hmap : ∀ {e : Bool} {f : Bytes → Bytes}, ((quotedBody e s).map fun p => (f p.1, p.2)) = some (a, r) →
        r.length ≤ (c :: s).length := by
      intro e f hs
      obtain ⟨q, hq, heq⟩ := Option.map_eq_some_iff.1 hs
      cases heq
      exact Nat.le_succ_of_le (ih hq)
    cases escaped with
    | true => exact hmap h
    | false =>
      unfold quotedBody at h
      split at h
      · exact Nat.le_succ_of_le (ih h)
      · split at h
        · cases h
          exact Nat.le_succ _
        · exact hmap h

/-- The closing quote ends the text, whatever follows. -/
theorem quotedBody_append {escaped : Bool} {s r a : Bytes} (h : quotedBody escaped s = some (a, r)) (v : Bytes) :
    quotedBody escaped (s ++ v) = some (a, r ++ v) := by
  induction s generalizing escaped a with
  | nil => cases escaped <;> cases h
  | cons c s ih =>
    have hmap : ∀ {e : Bool} {f : Bytes → Bytes}, ((quotedBody e s).map fun p => (f p.1, p.2)) = some (a, r) →
        ((quotedBody e (s ++ v)).map fun p => (f p.1, p.2)) = some (a, r ++ v) := by
      intro e f hs
      obtain ⟨q, hq, heq⟩ := Option.map_eq_some_iff.1 hs
      cases heq
      rw [ih hq]
      rfl
    cases escaped with
    | true => exact hmap h
    | false =>
      rw [List.cons_append]
      unfold quotedBody at h ⊢
      split at h
      · rename_i hslash
        rw [if_pos hslash]
        exact ih h
      · rename_i hslash
        rw [if_neg hslash]
        split at h
        · rename_i hquote
          cases h
          rw [if_pos hquote]
        · rename_i hquote
          rw [if_neg hquote]
          exact hmap h

/-- White space does not close a text. -/
theorem quotedBody_spaces {w : Bytes} (hw : ∀ c ∈ w, Text.isSpace c = true) (escaped : Bool) :
    quotedBody escaped w = none := by
  induction w generalizing escaped with
  | nil => cases escaped <;> rfl
  | cons c w ih =>
    have htail := ih fun c hc => hw c (List.mem_cons_of_mem _ hc)
    have hc := hw c (by simp)
    cases escaped with
    | true => rw [quotedBody, htail, Option.map_none]
    | false =>
      have hquote : c ≠ ch '"' := by
        rintro rfl
        exact absurd hc (by decide)
      rw [quotedBody, htail, htail, if_neg hquote, Option.map_none, ite_self]

theorem quotedBody_none_spaces {s w : Bytes} (hw : ∀ c ∈ w, Text.isSpace c = true) {escaped : Bool}
    (h : quotedBody escaped s = none) : quotedBody escaped (s ++ w) = none := by
  induction s generalizing escaped with
  | nil => exact quotedBody_spaces hw escaped
  | cons c s ih =>
    cases escaped with
    | true =>
      rw [List.cons_append, quotedBody, ih (by simpa [quotedBody] using h)]
      rfl
    | false =>
      rw [List.cons_append]
      unfold quotedBody at h ⊢
      split at h
      · rename_i hslash
        rw [if_pos hslash]
        exact ih h
      · rename_i hslash
        rw [if_neg hslash]
        split at h
        · cases h
        · rename_i hquote
          rw [if_neg hquote, ih (by simpa using h)]
          rfl

theorem token_text : Token Text.text := by
  have hcons : ∀ c s, Text.text (c :: s) = if c = ch '"' then quotedBody false s else Text.word (c :: s) :=
    fun _ _ => rfl
  refine ⟨rfl, ?_, ?_, ?_⟩
  · intro s a r h
    cases s with
    | nil => cases h
    | cons c s =>
      rw [hcons] at h
      split at h
      · exact Nat.le_succ_of_le (quotedBody_shorter h)
      · exact token_word.shorter h
  · intro s a r h hr v
    cases s with
    | nil => cases h
    | cons c s =>
      rw [List.cons_append, hcons]
      rw [hcons] at h
      by_cases hquote : c = ch '"'
      · rw [if_pos hquote] at h ⊢
        exact quotedBody_append h v
      · rw [if_neg hquote] at h ⊢
        exact token_word.longer h hr v
  · intro s w hne hw
    obtain ⟨c, s, rfl⟩ := List.exists_cons_of_ne_nil hne
    rw [List.cons_append, hcons, hcons]
    split
    · cases hbody : quotedBody false s with
      | none => exact quotedBody_none_spaces hw hbody
      | some p => exact quotedBody_append hbody w
    · exact token_word.spaces (c :: s) w hne hw

/-! ### Numbers -/

/-- The digits after a sign. -/
def digits (negative : Bool) (s : Bytes) : Option ((Bool × Nat) × Bytes) :=
  if s.takeWhile Json.isDigit = [] then none
  else some ((negative, (s.takeWhile Json.isDigit).foldl (fun n c => 10 * n + (c.toNat - 48)) 0),
    s.drop (s.takeWhile Json.isDigit).length)

theorem signedDigits_cons (c : UInt8) (s : Bytes) :
    signedDigits (c :: s) =
      if c = ch '-' then digits true s else if c = ch '+' then digits false s else digits false (c :: s) := by
  unfold signedDigits digits
  by_cases hminus : c = ch '-'
  · simp only [if_pos hminus]
  · by_cases hplus : c = ch '+'
    · simp only [if_neg hminus, if_pos hplus]
    · simp only [if_neg hminus, if_neg hplus]

theorem digits_spaces (negative : Bool) (s : Bytes) {w : Bytes} (hw : ∀ c ∈ w, Text.isSpace c = true) :
    digits negative (s ++ w) = (digits negative s).map fun p => (p.1, p.2 ++ w) := by
  unfold digits
  rw [takeWhile_append_of_not (fun c hc => isSpace_not_digit (hw c hc)), drop_takeWhile_append]
  split <;> rfl

theorem token_digits (negative : Bool) : Token (digits negative) := by
  refine ⟨rfl, ?_, ?_, fun s w _ hw => digits_spaces negative s hw⟩
  · intro s a r h
    unfold digits at h
    split at h
    · cases h
    · cases h
      simp
  · intro s a r h hr v
    unfold digits at h ⊢
    split at h
    · cases h
    · rename_i hne
      cases h
      rw [takeWhile_append_of_drop hr, if_neg hne, drop_takeWhile_append]

theorem token_signedDigits : Token signedDigits := by
  refine ⟨rfl, ?_, ?_, ?_⟩
  · intro s a r h
    cases s with
    | nil => cases h
    | cons c s =>
      rw [signedDigits_cons] at h
      split at h
      · exact Nat.le_succ_of_le ((token_digits true).shorter h)
      · split at h
        · exact Nat.le_succ_of_le ((token_digits false).shorter h)
        · exact (token_digits false).shorter h
  · intro s a r h hr v
    cases s with
    | nil => cases h
    | cons c s =>
      rw [signedDigits_cons] at h
      rw [List.cons_append, signedDigits_cons]
      split at h
      · rename_i hminus
        rw [if_pos hminus]
        exact (token_digits true).longer h hr v
      · rename_i hminus
        rw [if_neg hminus]
        split at h
        · rename_i hplus
          rw [if_pos hplus]
          exact (token_digits false).longer h hr v
        · rename_i hplus
          rw [if_neg hplus]
          exact (token_digits false).longer h hr v
  · intro s w hne hw
    obtain ⟨c, s, rfl⟩ := List.exists_cons_of_ne_nil hne
    rw [List.cons_append, signedDigits_cons, signedDigits_cons]
    split
    · exact digits_spaces true s hw
    · split
      · exact digits_spaces false s hw
      · exact digits_spaces false (c :: s) hw

theorem token_size : Token Text.size := by
  refine token_signedDigits.refine
    (fun p => if p.2 < 2 ^ 64 then some (if p.1 then (2 ^ 64 - p.2) % 2 ^ 64 else p.2) else none) fun s => ?_
  unfold Text.size
  cases signedDigits s with
  | none => rfl
  | some q =>
    simp only [Option.bind_eq_bind, Option.bind_some]
    split <;> rfl

theorem token_int : Token Text.int := by
  refine token_signedDigits.refine
    (fun p => if p.2 < 2 ^ 31 ∨ (p.1 = true ∧ p.2 = 2 ^ 31) then some (if p.1 then -(p.2 : Int) else p.2) else none)
    fun s => ?_
  unfold Text.int
  cases signedDigits s with
  | none => rfl
  | some q =>
    simp only [Option.bind_eq_bind, Option.bind_some]
    split <;> rfl

theorem token_flag : Token Text.flag := by
  refine token_signedDigits.refine
    (fun p => if p.2 = 0 then some false else if p.2 = 1 ∧ p.1 = false then some true else none) fun s => ?_
  unfold Text.flag
  cases signedDigits s with
  | none => rfl
  | some q =>
    simp only [Option.bind_eq_bind, Option.bind_some]
    split
    · rfl
    · split <;> rfl

/-! ## Records of fields -/

theorem scans_text (what : Bytes) : Scans Text.isSpace (Text.extract what Text.text) := token_text.extract what

theorem scans_size (what : Bytes) : Scans Text.isSpace (Text.extract what Text.size) := token_size.extract what

theorem scans_int (what : Bytes) : Scans Text.isSpace (Text.extract what Text.int) := token_int.extract what

theorem scans_flag (what : Bytes) : Scans Text.isSpace (Text.extract what Text.flag) := token_flag.extract what

theorem scans_word64 (what : Bytes) : Scans Text.isSpace (Text.word64 what) := (scans_size what).map _

theorem scans_point : Scans Text.isSpace readPoint :=
  (scans_text _).bind fun _ => (scans_word64 _).bind fun _ => (scans_word64 _).bind fun _ =>
    (scans_word64 _).bind fun _ => (scans_word64 _).bind fun _ => .pure _

theorem scans_extent : Scans Text.isSpace readExtent :=
  scans_point.bind fun _ => scans_point.bind fun _ => scans_point.bind fun _ => .pure _

theorem scans_evidence : Scans Text.isSpace readEvidence :=
  (scans_text _).bind fun _ => (scans_text _).bind fun _ => .pure _

theorem scans_checkedCount (field : String) : Scans Text.isSpace (checkedCount field) :=
  (scans_size _).bind fun _ => .ite (.throw _) (.pure _)

theorem scans_checkedEnum (values : List α) (field : String) (value : Int) :
    Scans Text.isSpace (checkedEnum values field value) := by
  refine .ite (.throw _) ?_
  split
  · exact .pure _
  · exact .throw _

theorem scans_modifyGraph (operation : GraphM α) (g : Graph) : Scans Text.isSpace (modifyGraph operation g) := by
  unfold modifyGraph
  split
  · exact .pure _
  · exact .throw _

theorem scans_counted {σ : Type} (field : String) {turn : σ → CacheReader σ} (h : ∀ s, Scans Text.isSpace (turn s))
    (s : σ) : Scans Text.isSpace (readCounted field turn s) :=
  (scans_checkedCount field).bind fun n => .loop h n s

theorem scans_dependency (l : List CacheDependency) : Scans Text.isSpace (readDependency l) :=
  (scans_text _).bind fun _ => (scans_text _).bind fun _ => .pure _

theorem scans_match (l : List Bool) : Scans Text.isSpace (readMatch l) :=
  (scans_int _).bind fun _ => .ite (.throw _) (.pure _)

theorem scans_base (l : List Bytes) : Scans Text.isSpace (readBase l) := (scans_text _).bind fun _ => .pure _

theorem scans_record (l : List CachedRecordHierarchy) : Scans Text.isSpace (readRecord l) :=
  (scans_text _).bind fun _ => (scans_size _).bind fun n => .ite (.throw _) <| (Scans.loop scans_base n _).bind fun _ =>
    .pure _

theorem scans_diagnostic (l : List Bytes) : Scans Text.isSpace (readDiagnostic l) :=
  (scans_text _).bind fun _ => .pure _

theorem scans_expansion : Scans Text.isSpace readExpansion :=
  (scans_flag _).bind fun _ => .ite (scans_extent.map _) (.pure _)

theorem scans_symbol (g : Graph) : Scans Text.isSpace (readSymbol g) :=
  (scans_text _).bind fun _ => (scans_text _).bind fun _ => (scans_text _).bind fun _ => (scans_text _).bind fun _ =>
    (scans_text _).bind fun _ => (scans_text _).bind fun _ => (scans_int _).bind fun _ => (scans_text _).bind fun _ =>
    (scans_text _).bind fun _ => (scans_text _).bind fun _ => (scans_text _).bind fun _ => (scans_int _).bind fun _ =>
    (scans_int _).bind fun _ => (scans_flag _).bind fun _ => (scans_flag _).bind fun _ => (scans_flag _).bind fun _ =>
    (scans_checkedEnum _ _ _).bind fun _ => (scans_checkedEnum _ _ _).bind fun _ =>
    (scans_checkedEnum _ _ _).bind fun _ => scans_extent.bind fun _ => scans_expansion.bind fun _ =>
    scans_modifyGraph _ g

theorem scans_edge (g : Graph) : Scans Text.isSpace (readEdge g) :=
  (scans_size _).bind fun _ => (scans_size _).bind fun _ => (scans_int _).bind fun _ =>
    (scans_checkedEnum _ _ _).bind fun _ => scans_evidence.bind fun _ => scans_modifyGraph _ g

theorem scans_root (g : Graph) : Scans Text.isSpace (readRoot g) :=
  (scans_size _).bind fun _ => (scans_int _).bind fun _ => (scans_checkedEnum _ _ _).bind fun _ =>
    scans_evidence.bind fun _ => scans_modifyGraph _ g

theorem scans_escape (g : Graph) : Scans Text.isSpace (readEscape g) :=
  (scans_size _).bind fun _ => (scans_flag _).bind fun _ => (scans_size _).bind fun _ => (scans_int _).bind fun _ =>
    (scans_checkedEnum _ _ _).bind fun _ => scans_evidence.bind fun _ => scans_modifyGraph _ g

theorem scans_suppression (g : Graph) : Scans Text.isSpace (readSuppression g) :=
  (scans_size _).bind fun _ => scans_evidence.bind fun _ => scans_modifyGraph _ g

theorem scans_header (key : Bytes) : Scans Text.isSpace (readHeader key) :=
  (token_word.extract _).bind fun _ => (scans_int _).bind fun _ => (scans_text _).bind fun _ =>
    .ite (.throw _) (.pure _)

theorem scans_graph : Scans Text.isSpace readGraph :=
  (scans_counted _ scans_symbol _).bind fun _ => (scans_counted _ scans_edge _).bind fun _ =>
    (scans_counted _ scans_root _).bind fun _ => (scans_counted _ scans_escape _).bind fun _ =>
    scans_counted _ scans_suppression _

theorem scans_facts : Scans Text.isSpace readFacts :=
  (scans_word64 _).bind fun _ => (scans_word64 _).bind fun _ => (scans_counted _ scans_dependency _).bind fun _ =>
    (scans_counted _ scans_match _).bind fun _ => (scans_counted _ scans_record _).bind fun _ =>
    (scans_counted _ scans_diagnostic _).bind fun _ => scans_graph.bind fun _ => .pure _

/-! ## Cuts -/

variable {isSpace : UInt8 → Bool}

/-- A text that ends in a line break, with a visible character in front. -/
def Closes (text : Bytes) : Prop := ∃ front c, text = front ++ [c, ch '\n'] ∧ Text.isSpace c = false

theorem Closes.append {text : Bytes} (h : Closes text) (front : Bytes) : Closes (front ++ text) := by
  obtain ⟨more, c, rfl, hc⟩ := h
  exact ⟨front ++ more, c, (List.append_assoc _ _ _).symm, hc⟩

theorem closes_text (s : Bytes) : Closes (putText s '\n') :=
  ⟨_, ch '"', List.append_assoc _ [ch '"'] [ch '\n'], by decide⟩

theorem closes_number (n : Nat) : Closes (putNumber n '\n') := by
  refine ⟨(decimal n).dropLast, (decimal n).getLast (decimal_ne_nil n), ?_, ?_⟩
  · rw [putNumber, put, List.append_cons (List.dropLast _), List.dropLast_append_getLast]
  · cases hspace : Text.isSpace ((decimal n).getLast (decimal_ne_nil n)) with
    | false => rfl
    | true =>
      have hdigit := decimal_digits n _ (List.getLast_mem (decimal_ne_nil n))
      rw [isSpace_not_digit hspace] at hdigit
      cases hdigit

theorem closes_list {item : α → Bytes} (h : ∀ a, Closes (item a)) (l : List α) : Closes (putList item l) := by
  rcases List.eq_nil_or_concat l with rfl | ⟨init, a, rfl⟩
  · rw [putList, List.flatMap_nil, List.append_nil]
    exact closes_number 0
  · rw [putList, List.concat_eq_append, List.flatMap_append, List.flatMap_singleton]
    exact ((h a).append _).append _

theorem closes_suppression (suppression : Suppression) : Closes (writeSuppression suppression) :=
  ((closes_text _).append _).append _

theorem closes_entry (key : Bytes) (entry : TranslationUnitCacheEntry) : Closes (writeEntry key entry) := by
  have hgraph : Closes (writeGraph entry.graph.canonicalize) :=
    ((((closes_list closes_suppression _).append _).append _).append _).append _
  exact ((((((hgraph.append _).append _).append _).append _).append _).append _).append _

/-! ### The last text -/

theorem refuses_text (what s : Bytes) : Refuses Text.isSpace (Text.extract what Text.text) (putText s '\n') := by
  intro front v hv hcut
  obtain ⟨c, hc, hvisible⟩ := hv
  rw [run_extract]
  by_cases hnil : front.dropWhile Text.isSpace = []
  · rw [hnil, token_text.nil]
    exact ⟨_, rfl⟩
  -- the cut is inside the quotes
  rw [List.dropWhile_append, if_neg (by simpa only [List.isEmpty_iff] using hnil)] at hcut
  obtain ⟨q, part, hpart⟩ := List.exists_cons_of_ne_nil hnil
  rw [hpart] at hcut ⊢
  have hwhole : q :: part ++ v = ch '"' ::
      ((s.flatMap fun c => if c = ch '"' ∨ c = ch '\\' then [ch '\\', c] else [c]) ++ ch '"' :: [ch '\n']) := by
    rw [hcut, List.append_cons _ (ch '"') [ch '\n']]
    rfl
  rw [List.cons_append] at hwhole
  obtain ⟨rfl, htail⟩ := List.cons.inj hwhole
  have htext : Text.text (ch '"' :: part) = quotedBody false part := by rw [Text.text, if_pos rfl]
  rw [htext]
  cases hbody : quotedBody false part with
  | none => exact ⟨_, rfl⟩
  | some p =>
    have hread := quotedBody_append hbody v
    rw [htail, quotedBody_quoted] at hread
    have hrest : [ch '\n'] = p.2 ++ v := congrArg Prod.snd (Option.some.inj hread)
    have hmem : c ∈ [ch '\n'] := by
      rw [hrest]
      exact List.mem_append_right _ hc
    obtain rfl := List.mem_singleton.1 hmem
    exact absurd hvisible (by decide)

theorem refuses_evidence (evidence : Evidence) : Refuses Text.isSpace readEvidence (writeEvidence evidence) :=
  Refuses.bind (reads_text _ _ (by decide)) (scans_text _) (fun _ => (token_text.starves _).bind) fun _ =>
    (refuses_text _ _).before _

theorem refuses_suppression (g : Graph) (suppression : Suppression) :
    Refuses Text.isSpace (readSuppression g) (writeSuppression suppression) :=
  Refuses.bind (reads_size _ _ (by decide)) (scans_size _) (fun _ => ((token_text.starves _).bind).bind) fun _ =>
    (refuses_evidence _).before _

/-! ### Counts -/

/-- A digit that is not zero, in front, makes a number that is not zero. -/
theorem size_ne_zero {c : UInt8} {s r : Bytes} {n : Nat} (hdigit : Json.isDigit c = true) (hzero : c ≠ ch '0')
    (h : Text.size (c :: s) = some (n, r)) : n ≠ 0 := by
  have hminus : c ≠ ch '-' := by
    rintro rfl
    exact absurd hdigit (by decide)
  have hplus : c ≠ ch '+' := by
    rintro rfl
    exact absurd hdigit (by decide)
  have hgrows : ∀ (l : Bytes) (m : Nat), 0 < m → 0 < l.foldl (fun n c => 10 * n + (c.toNat - 48)) m := by
    intro l
    induction l with
    | nil => exact fun m hm => hm
    | cons d l ih =>
      intro m hm
      exact ih _ (Nat.add_pos_left (Nat.mul_pos (by decide) hm) _)
  have hvalue : 0 < c.toNat - 48 := by
    simp only [Json.isDigit, Bool.and_eq_true, decide_eq_true_eq] at hdigit
    have hge : 48 ≤ c.toNat := UInt8.le_iff_toNat_le.1 hdigit.1
    have hne : c.toNat ≠ 48 := fun heq => hzero (UInt8.toNat_inj.1 heq)
    omega
  unfold Text.size at h
  rw [signedDigits_cons, if_neg hminus, if_neg hplus, digits, List.takeWhile_cons_of_pos hdigit] at h
  simp only [reduceCtorEq, if_false, List.foldl_cons, Option.bind_eq_bind, Option.bind_some, Bool.false_eq_true] at h
  split at h
  · cases h
    exact Nat.ne_of_gt (hgrows _ _ (by omega))
  · cases h

theorem starves_checkedCount (field : String) : Starves (checkedCount field) := (token_size.starves _).bind

theorem starves_counted {σ : Type} (field : String) (turn : σ → CacheReader σ) (s : σ) :
    Starves (readCounted field turn s) := (starves_checkedCount field).bind

/-- A count that is cut short still asks for a turn. -/
theorem refuses_counted {σ : Type} (field : String) {turn : σ → CacheReader σ} {item : α → Bytes} {l : List α} {s : σ}
    (hturn : ∀ s, Starves (turn s))
    (h : l ≠ [] → Refuses Text.isSpace (readLoop turn l.length s) (l.flatMap item)) :
    Refuses Text.isSpace (readCounted field turn s) (putList item l) := by
  refine Refuses.bind_of (reads_checkedCount field l.length) (scans_checkedCount field) ?_ fun _ => ?_
  · intro front v n hv hcut hrun
    obtain ⟨c, hc, hvisible⟩ := hv
    obtain ⟨m, r, hsize, hcheck⟩ := run_bind_ok.1 hrun
    rw [run_extract_ok] at hsize
    have hn : n = m := by
      split at hcheck
      · cases hcheck
      · cases hcheck
        rfl
    subst hn
    have hne : front.dropWhile Text.isSpace ≠ [] := by
      intro hnil
      rw [hnil, token_size.nil] at hsize
      cases hsize
    rw [List.dropWhile_append, if_neg (by simpa only [List.isEmpty_iff] using hne)] at hcut
    obtain ⟨d, part, hpart⟩ := List.exists_cons_of_ne_nil hne
    obtain ⟨d', more, hdecimal, hspace⟩ := decimal_head l.length
    rw [hpart, putNumber, put, hdecimal, List.cons_append, List.cons_append, List.cons_append,
      List.dropWhile_cons_of_neg (by simp [hspace])] at hcut
    obtain ⟨rfl, htail⟩ := List.cons.inj hcut
    rw [hpart] at hsize
    cases l with
    | nil =>
      -- `0` and the line break: only the line break can be missing
      have hzero : d :: more = [ch '0'] := by rw [← hdecimal]; rfl
      obtain ⟨-, rfl⟩ := List.cons.inj hzero
      have hmem : c ∈ [ch '\n'] := by
        have hmem := List.mem_append_right part hc
        rwa [htail] at hmem
      obtain rfl := List.mem_singleton.1 hmem
      exact absurd hvisible (by decide)
    | cons a l =>
      have hdigit : Json.isDigit d = true := decimal_digits _ d (by rw [hdecimal]; simp)
      have hzero : d ≠ ch '0' :=
        Json.decimal_head_ne_zero (show (a :: l).length ≠ 0 from Nat.succ_ne_zero _) d (by rw [hdecimal]; rfl)
      obtain ⟨k, rfl⟩ := Nat.exists_eq_succ_of_ne_zero (size_ne_zero hdigit hzero hsize)
      exact (hturn s).bind
  · cases l with
    | nil =>
      intro front v hv hcut
      obtain ⟨c, hc, hvisible⟩ := hv
      rw [List.flatMap_nil, List.dropWhile_nil, List.dropWhile_eq_nil_iff] at hcut
      rw [hcut c (List.mem_append_right _ hc)] at hvisible
      cases hvisible
    | cons a l => exact h (List.cons_ne_nil a l)

/-! ## The entry -/

theorem refuses_suppressions {g : Graph} (hg : g.Inv) (hlen : g.symbols.length < 2 ^ 64) :
    Refuses Text.isSpace (readCounted "suppression" readSuppression (afterEscapes g))
      (putList writeSuppression g.suppressions) := by
  have hstarves : ∀ s, Starves (readSuppression s) := fun s => (token_size.starves _).bind
  refine refuses_counted "suppression" hstarves fun hne => ?_
  refine @Refuses.loop _ _ _ _ _ _ _ (fun _ => True) (fun init => { afterEscapes g with suppressions := init })
    g.suppressions hne scans_suppression hstarves (fun init a rest hl => ?_) fun init a _ => refuses_suppression _ a
  refine reads_suppressionTurn hg hlen (by rw [← hl]; simp) fun hmem => ?_
  have hnodup := hg.suppressions_nodup
  rw [← hl] at hnodup
  exact (List.nodup_append'.1 hnodup).2.2 hmem (by simp)

theorem refuses_graph {g : Graph} (hg : g.Inv) : Refuses Text.isSpace readGraph (writeGraph g) := by
  refine Refuses.bind (reads_symbolSection hg) (scans_counted _ scans_symbol _) (fun _ => (starves_counted _ _ _).bind)
    fun hsymbols => ?_
  have hlen : g.symbols.length < 2 ^ 64 := lt_of_le_of_lt hsymbols (by norm_num)
  refine Refuses.bind (reads_edgeSection hg hlen) (scans_counted _ scans_edge _) (fun _ => (starves_counted _ _ _).bind)
    fun _ => ?_
  refine Refuses.bind (reads_rootSection hg hlen) (scans_counted _ scans_root _) (fun _ => (starves_counted _ _ _).bind)
    fun _ => ?_
  exact Refuses.bind (reads_escapeSection hg hlen) (scans_counted _ scans_escape _) (fun _ => starves_counted _ _ _)
    fun _ => refuses_suppressions hg hlen

theorem refuses_facts {entry : TranslationUnitCacheEntry} (hg : entry.graph.Inv) :
    Refuses Text.isSpace readFacts (writeFacts entry) := by
  have hdependencies := reads_counted "dependency"
    (Reads.collect (fun d : CacheDependency => ⟨d.path.generic, d.digest⟩) entry.dependencies
      fun d _ l => reads_dependency d l)
  have hmatches := reads_counted "callback match"
    (Reads.collect id entry.registrationRuleMatches fun m _ l => reads_registrationMatch m l)
  have hrecords := reads_counted "record hierarchy"
    (Reads.collect id entry.recordHierarchy fun record _ l => reads_record record l)
  have hdiagnostics := reads_counted "diagnostic"
    (Reads.collect id entry.diagnostics fun d _ l => reads_diagnostic d l)
  refine Refuses.bind (reads_word64 _ _ (by decide)) (scans_word64 _) (fun _ => ?_) fun _ => ?_
  · exact (Starves.map _ (token_size.starves _)).bind
  refine Refuses.bind (reads_word64 _ _ (by decide)) (scans_word64 _) (fun _ => (starves_counted _ _ _).bind) fun _ => ?_
  refine Refuses.bind hdependencies (scans_counted _ scans_dependency _) (fun _ => (starves_counted _ _ _).bind)
    fun _ => ?_
  refine Refuses.bind hmatches (scans_counted _ scans_match _) (fun _ => (starves_counted _ _ _).bind) fun _ => ?_
  refine Refuses.bind hrecords (scans_counted _ scans_record _) (fun _ => (starves_counted _ _ _).bind) fun _ => ?_
  refine Refuses.bind hdiagnostics (scans_counted _ scans_diagnostic _) (fun _ => ?_) fun _ => ?_
  · exact (Starves.bind (starves_counted _ _ _)).bind
  · exact (refuses_graph hg).before _

/-- The entry as `readEntry` reads it, before it looks at what is left. -/
theorem readEntry_eq (key input : Bytes) :
    readEntry key input =
      match (readHeader key >>= fun _ => readFacts).run input with
      | .ok (entry, rest) =>
        if rest.dropWhile Text.isSpace ≠ [] then
          .error (.runtimeError (lit "unexpected trailing cache data"))
        else .ok entry
      | .error e => .error e := by
  unfold readEntry
  show ((readHeader key >>= fun _ => readFacts).run input >>= _) = _
  cases (readHeader key >>= fun _ => readFacts).run input with
  | error e => rfl
  | ok p => rfl

theorem readEntry_error {key input : Bytes} {e : Exception}
    (h : (readHeader key >>= fun _ => readFacts).run input = .error e) : readEntry key input = .error e := by
  rw [readEntry_eq, h]

/-- White space behind an entry does not matter. -/
theorem readEntry_spaces (key input : Bytes) {w : Bytes} (hw : ∀ c ∈ w, Text.isSpace c = true) :
    readEntry key (input ++ w) = readEntry key input := by
  have hscans : Scans Text.isSpace (readHeader key >>= fun _ => readFacts) := (scans_header key).bind fun _ => scans_facts
  rw [readEntry_eq, readEntry_eq, hscans.spaces input w hw]
  cases (readHeader key >>= fun _ => readFacts).run input with
  | error e => rfl
  | ok p =>
    have hiff : (p.2 ++ w).dropWhile Text.isSpace = [] ↔ p.2.dropWhile Text.isSpace = [] := by
      rw [dropWhile_append_spaces hw]
      split
      · rename_i hnil
        exact iff_of_true rfl hnil
      · rename_i hne
        exact iff_of_false (fun h => hne (List.append_eq_nil_iff.1 h).1) hne
    show (if (p.2 ++ w).dropWhile Text.isSpace ≠ [] then _ else _) = if p.2.dropWhile Text.isSpace ≠ [] then _ else _
    simp only [Ne, hiff]

/-- Nothing but an entry, or an entry without its last line break, is read; a part of an
entry is refused, and so is an entry with more behind it. -/
theorem readEntry_part (expectedKey key : Bytes) {entry : TranslationUnitCacheEntry} (hg : Built entry.graph) :
    (∃ front, writeEntry key entry = front ++ [ch '\n'] ∧
      readEntry expectedKey front = readEntry expectedKey (writeEntry key entry) ∧
      ∀ s v, s ++ v = front → v ≠ [] → ∃ e, readEntry expectedKey s = .error e) ∧
    ∀ w, (∃ c ∈ w, Text.isSpace c = false) → ∃ e, readEntry expectedKey (writeEntry key entry ++ w) = .error e := by
  have hcanonical : ({ entry with graph := entry.graph.canonicalize } : TranslationUnitCacheEntry).graph.Inv :=
    Graph.canonicalize_inv hg.inv
  constructor
  · obtain ⟨front, c, hfront, hc⟩ := closes_entry key entry
    have hwhole : writeEntry key entry = front ++ [c] ++ [ch '\n'] := by
      rw [hfront, List.append_assoc]
      rfl
    refine ⟨front ++ [c], hwhole, ?_, fun s v hs hv => ?_⟩
    · have hspace : ∀ d ∈ [ch '\n'], Text.isSpace d = true := by decide
      rw [hwhole]
      exact (readEntry_spaces _ _ hspace).symm
    · -- the visible character in front of the last line break is cut off
      have hcut : s ++ (v ++ [ch '\n']) = writeEntry key entry := by
        rw [← List.append_assoc, hs, hfront, List.append_assoc]
        rfl
      have hvisible : c ∈ v := by
        have hlast : v.getLast hv = c := by
          have h := congrArg List.getLast? hs
          rw [List.getLast?_append_of_ne_nil _ hv, List.getLast?_concat, List.getLast?_eq_some_getLast hv] at h
          exact Option.some.inj h
        rw [← hlast]
        exact List.getLast_mem hv
      have hrefuses : Refuses Text.isSpace (readHeader expectedKey >>= fun _ => readFacts) (writeEntry key entry) :=
        Refuses.bind (reads_header expectedKey key) (scans_header _)
          (fun _ => (Starves.map _ (token_size.starves _)).bind) fun _ => refuses_facts hcanonical
      obtain ⟨e, he⟩ := hrefuses s (v ++ [ch '\n']) ⟨c, List.mem_append_left _ hvisible, hc⟩ (by rw [hcut])
      exact ⟨e, readEntry_error he⟩
  · rintro w ⟨c, hc, hvisible⟩
    have hread := (reads_header expectedKey key).bind (f := fun _ => readFacts)
      fun _ => reads_entryFacts hcanonical rfl
    obtain ⟨hok, herror⟩ := hread (writeEntry key entry ++ w) w rfl
    by_cases hp : key = expectedKey ∧ WithinLimits { entry with graph := entry.graph.canonicalize }
    · obtain ⟨s', hrun, hend⟩ := hok hp
      refine ⟨.runtimeError (lit "unexpected trailing cache data"), ?_⟩
      rw [readEntry_eq, hrun]
      refine if_pos ?_
      rw [hend, Ne, List.dropWhile_eq_nil_iff]
      intro hall
      rw [hall c hc] at hvisible
      cases hvisible
    · obtain ⟨e, he⟩ := herror hp
      exact ⟨e, readEntry_error he⟩

/-- The entry with quotes and newlines, under its own key. -/
theorem awkwardEntry_part :
    (∃ front, writeEntry (lit "k 1") awkwardEntry = front ++ [ch '\n'] ∧
      readEntry (lit "k 1") front = readEntry (lit "k 1") (writeEntry (lit "k 1") awkwardEntry) ∧
      ∀ s v, s ++ v = front → v ≠ [] → ∃ e, readEntry (lit "k 1") s = .error e) ∧
    ∀ w, (∃ c ∈ w, Text.isSpace c = false) →
      ∃ e, readEntry (lit "k 1") (writeEntry (lit "k 1") awkwardEntry ++ w) = .error e :=
  readEntry_part _ _ (show Built awkwardGraph from .addRoot 0 .manual _ (.addOrMergeSymbol awkwardSymbol .empty))

end CxxDead
