import CxxDead.IndexRun
import CxxDead.JsonParse
import Mathlib.Data.List.DropRight
/-!
# The documents of an AST

`splitJsonDocuments` cuts the output of Clang into documents by the depth of brackets outside
of strings. A string outside of every bracket is passed over without a word.

- `run_scanned`: what a state says of the text in front of it.
- `Tree.scans`: the scanner passes over a value inside of a document.
- `splitJsonDocuments_accounts`: when every byte is accounted for, and that documents are found.
-/

namespace CxxDead

open Lib Json

namespace Indexer

namespace JsonDocuments

/-! ## Positions in a text -/

structure Position where
  depth : Nat := 0
  inString : Bool := false
  escaped : Bool := false

def isOpening (c : UInt8) : Bool := c == ch '\x7b' || c == ch '['

def isClosing (c : UInt8) : Bool := c == ch '\x7d' || c == ch ']'

def Position.advance (p : Position) (c : UInt8) : Position :=
  if p.inString then
    if p.escaped then { p with escaped := false }
    else if c = ch '\\' then { p with escaped := true }
    else if c = ch '"' then { p with inString := false }
    else p
  else if c = ch '"' then { p with inString := true }
  else if isOpening c then { p with depth := p.depth + 1 }
  else if isClosing c then { p with depth := p.depth - 1 }
  else p

def positionIn (text : Bytes) : Position := text.foldl Position.advance {}

/-- A quotation mark opens a string outside of every bracket. -/
def strayQuote (p : Position) : Bytes → Bool
  | [] => false
  | c :: rest => (p.depth == 0 && !p.inString && c == ch '"') || strayQuote (p.advance c) rest

theorem strayQuote_concat (p : Position) (text : Bytes) (c : UInt8) :
    strayQuote p (text ++ [c]) =
      (strayQuote p text || ((text.foldl Position.advance p).depth == 0 &&
        !(text.foldl Position.advance p).inString && c == ch '"')) := by
  induction text generalizing p with
  | nil => exact Bool.or_false _
  | cons d text ih => rw [List.cons_append, strayQuote, strayQuote, ih, Bool.or_assoc, List.foldl_cons]

def position (s : JsonDocuments) : Position := ⟨s.depth, s.inString, s.escaped⟩

/-! ## One character -/

/-- What a character does with the documents. -/
inductive Move (s : JsonDocuments) (c : UInt8) (s' : JsonDocuments) : Prop
  /-- Nothing outside of the documents, but a string may stand here. -/
  | skip (hdepth : s.depth = 0) (hdepth' : s'.depth = 0) (hdocuments : s'.documents = s.documents)
    (hcurrent : s'.current = s.current) (hwhite : s.inString = true ∨ c = ch '"' ∨ Text.isSpace c = true)
    (hstring : s'.inString = true → s.inString = true ∨ c = ch '"')
  | start (hdepth : s.depth = 0) (hdepth' : s'.depth = 1) (hdocuments : s'.documents = s.documents)
    (hcurrent : s'.current = [c]) (hstring : s.inString = false) (hquote : c ≠ ch '"')
  | inside (hdepth : s.depth ≠ 0) (hdepth' : s'.depth ≠ 0) (hdocuments : s'.documents = s.documents)
    (hcurrent : s'.current = s.current ++ [c])
  | finish (hdepth : s.depth = 1) (hdepth' : s'.depth = 0) (hdocuments : s'.documents = s.documents ++ [s.current ++ [c]])
    (hcurrent : s'.current = []) (hstring : s'.inString = false)

/-- A character that opens and closes nothing. -/
theorem Move.push {s s' : JsonDocuments} {c : UInt8} (hdepth : s'.depth = s.depth) (hdocuments : s'.documents = s.documents)
    (hcurrent : s'.current = (s.push c).current)
    (hwhite : s.depth = 0 → s.inString = true ∨ c = ch '"' ∨ Text.isSpace c = true)
    (hstring : s'.inString = true → s.inString = true ∨ c = ch '"') : Move s c s' := by
  by_cases hzero : s.depth = 0
  · rw [JsonDocuments.push, if_pos hzero] at hcurrent
    exact .skip hzero (hdepth.trans hzero) hdocuments hcurrent (hwhite hzero) hstring
  · rw [JsonDocuments.push, if_neg hzero] at hcurrent
    exact .inside hzero (fun h => hzero (hdepth.symm.trans h)) hdocuments hcurrent

theorem push_fields (s : JsonDocuments) (c : UInt8) :
    (s.push c).depth = s.depth ∧ (s.push c).documents = s.documents ∧ (s.push c).inString = s.inString ∧
      (s.push c).escaped = s.escaped := by
  unfold push
  split <;> exact ⟨rfl, rfl, rfl, rfl⟩

theorem step_move {s s' : JsonDocuments} {c : UInt8} (h : s.step c = .ok s') :
    s'.position = s.position.advance c ∧ Move s c s' := by
  obtain ⟨hdepth, hdocuments, hinString, hescaped⟩ := push_fields s c
  unfold step at h
  unfold position Position.advance
  dsimp only
  split at h
  · rename_i hstring
    rw [if_pos hstring]
    split at h
    · rename_i hesc
      cases h
      rw [if_pos hesc]
      refine ⟨by rw [hdepth, hinString], .push hdepth hdocuments rfl (fun _ => .inl hstring) fun _ => .inl hstring⟩
    · rename_i hesc
      rw [if_neg hesc]
      split at h
      · rename_i hslash
        cases h
        rw [if_pos hslash]
        exact ⟨by rw [hdepth, hinString], .push hdepth hdocuments rfl (fun _ => .inl hstring) fun _ => .inl hstring⟩
      · rename_i hslash
        rw [if_neg hslash]
        split at h
        · rename_i hquote
          cases h
          rw [if_pos hquote]
          exact ⟨by rw [hdepth, hescaped], .push hdepth hdocuments rfl (fun _ => .inl hstring) fun _ => .inl hstring⟩
        · rename_i hquote
          cases h
          rw [if_neg hquote]
          exact ⟨by rw [hdepth, hinString, hescaped], .push hdepth hdocuments rfl (fun _ => .inl hstring)
            fun _ => .inl hstring⟩
  rename_i hstring
  rw [if_neg hstring]
  split at h
  · rename_i hquote
    cases h
    rw [if_pos hquote]
    exact ⟨by rw [hdepth, hescaped], .push hdepth hdocuments rfl (fun _ => .inr (.inl hquote)) fun _ => .inr hquote⟩
  rename_i hquote
  rw [if_neg hquote]
  split at h
  · rename_i hopening
    have hopen : isOpening c = true := by simpa [isOpening] using hopening
    rw [if_pos hopen]
    split at h
    · rename_i hzero
      cases h
      exact ⟨by rw [hzero], .start hzero rfl rfl rfl (by simpa using hstring) hquote⟩
    · rename_i hzero
      cases h
      exact ⟨by rw [hinString, hescaped], .inside hzero (Nat.succ_ne_zero _) hdocuments (by rw [push, if_neg hzero])⟩
  rename_i hopening
  have hopen : ¬ isOpening c = true := by simpa [isOpening] using hopening
  rw [if_neg hopen]
  split at h
  · rename_i hclosing
    have hclose : isClosing c = true := by simpa [isClosing] using hclosing
    rw [if_pos hclose]
    split at h
    · cases h
    · rename_i hzero
      split at h
      · rename_i hone
        cases h
        exact ⟨by rw [hone], .finish hone rfl rfl rfl (by simpa using hstring)⟩
      · rename_i hone
        cases h
        refine ⟨by rw [hinString, hescaped], .inside hzero ?_ hdocuments (by rw [push, if_neg hzero])⟩
        show s.depth - 1 ≠ 0
        omega
  rename_i hclosing
  have hclose : ¬ isClosing c = true := by simpa [isClosing] using hclosing
  rw [if_neg hclose]
  split at h
  · cases h
  · rename_i hcontent
    cases h
    refine ⟨by rw [hdepth, hinString, hescaped], .push hdepth hdocuments rfl (fun hzero => .inr (.inr ?_)) ?_⟩
    · simpa using fun hspace => hcontent ⟨hzero, hspace⟩
    · exact fun h => absurd (hinString.symm.trans h) hstring

/-! ## What is accounted for -/

/-- The text is the documents with white space in front, between and behind. -/
def Accounts (documents : List Bytes) (text : Bytes) : Prop :=
  ∃ (gap : Bytes) (parts : List (Bytes × Bytes)), (∀ c ∈ gap, Text.isSpace c = true) ∧
    (∀ part ∈ parts, ∀ c ∈ part.2, Text.isSpace c = true) ∧ documents = parts.map (·.1) ∧
    text = gap ++ parts.flatMap fun part => part.1 ++ part.2

theorem Accounts.nil : Accounts [] [] :=
  ⟨[], [], List.forall_mem_nil _, List.forall_mem_nil _, rfl, rfl⟩

theorem Accounts.document {documents : List Bytes} {text : Bytes} (h : Accounts documents text) (document : Bytes) :
    Accounts (documents ++ [document]) (text ++ document) := by
  obtain ⟨gap, parts, hgap, hparts, rfl, rfl⟩ := h
  refine ⟨gap, parts ++ [(document, [])], hgap, ?_, by simp, by simp⟩
  rw [List.forall_mem_append]
  exact ⟨hparts, List.forall_mem_singleton.2 fun _ h => nomatch h⟩

theorem Accounts.space {documents : List Bytes} {text : Bytes} (h : Accounts documents text) {c : UInt8}
    (hc : Text.isSpace c = true) : Accounts documents (text ++ [c]) := by
  obtain ⟨gap, parts, hgap, hparts, rfl, rfl⟩ := h
  rcases List.eq_nil_or_concat parts with rfl | ⟨front, ⟨document, white⟩, rfl⟩
  · refine ⟨gap ++ [c], [], ?_, List.forall_mem_nil _, rfl, by simp⟩
    rw [List.forall_mem_append]
    exact ⟨hgap, List.forall_mem_singleton.2 hc⟩
  · rw [List.concat_eq_append, List.forall_mem_append, List.forall_mem_singleton] at hparts
    refine ⟨gap, front ++ [(document, white ++ [c])], hgap, ?_, by simp, by simp⟩
    rw [List.forall_mem_append, List.forall_mem_singleton]
    refine ⟨hparts.1, ?_⟩
    rw [List.forall_mem_append]
    exact ⟨hparts.2, List.forall_mem_singleton.2 hc⟩

/-- How many characters are not white space. -/
def visible (text : Bytes) : Nat := text.countP fun c => !Text.isSpace c

theorem visible_append (text text' : Bytes) : visible (text ++ text') = visible text + visible text' :=
  List.countP_append

theorem visible_white {text : Bytes} (h : ∀ c ∈ text, Text.isSpace c = true) : visible text = 0 := by
  refine List.countP_eq_zero.2 fun c hc => ?_
  rw [h c hc]
  exact Bool.false_ne_true

theorem Accounts.visible {documents : List Bytes} {text : Bytes} (h : Accounts documents text) :
    visible documents.flatten = visible text := by
  obtain ⟨gap, parts, hgap, hparts, rfl, rfl⟩ := h
  rw [visible_append, visible_white hgap, Nat.zero_add]
  induction parts with
  | nil => rfl
  | cons part parts ih =>
    obtain ⟨hpart, hrest⟩ := List.forall_mem_cons.1 hparts
    rw [List.map_cons, List.flatten_cons, List.flatMap_cons, visible_append, visible_append, visible_append,
      visible_white hpart, ih hrest, Nat.add_zero]

/-! ## Runs -/

/-- What a state says of the text in front of it: which documents are done, and whether anything is lost. -/
structure Scanned (text : Bytes) (s : JsonDocuments) : Prop where
  position : s.position = positionIn text
  idle : s.depth = 0 → s.current = []
  stray : s.depth = 0 → s.inString = true → strayQuote {} text = true
  done : ∃ done, text = done ++ s.current ∧ (strayQuote {} text = false → Accounts s.documents done) ∧
    (strayQuote {} text = true → visible s.documents.flatten < visible done)

theorem Scanned.step {text : Bytes} {s s' : JsonDocuments} {c : UInt8} (hs : Scanned text s) (h : s.step c = .ok s') :
    Scanned (text ++ [c]) s' := by
  obtain ⟨hposition, hmove⟩ := step_move h
  have hat : s'.position = positionIn (text ++ [c]) := by
    rw [hposition, hs.position, positionIn, positionIn, List.foldl_append, List.foldl_cons, List.foldl_nil]
  have hstray : strayQuote {} (text ++ [c]) =
      (strayQuote {} text || (s.depth == 0 && !s.inString && c == ch '"')) := by
    rw [strayQuote_concat, ← positionIn, ← hs.position]
    rfl
  obtain ⟨done, rfl, haccounts, hlost⟩ := hs.done
  have hweak : visible s.documents.flatten ≤ visible done := by
    cases hquote : strayQuote {} (done ++ s.current) with
    | true => exact (hlost hquote).le
    | false => exact (haccounts hquote).visible.le
  cases hmove with
  | skip hdepth hdepth' hdocuments hcurrent hwhite hstring =>
    have hidle := hs.idle hdepth
    have hcurrent' : s'.current = [] := hcurrent.trans hidle
    rw [hidle, List.append_nil] at hstray haccounts hlost hat
    rw [hidle, List.append_nil]
    have hopens : s.inString = true → strayQuote {} done = true := by
      intro hin
      have := hs.stray hdepth hin
      rwa [hidle, List.append_nil] at this
    refine ⟨hat, fun _ => hcurrent', fun _ hin => ?_, done ++ [c], by rw [hcurrent', List.append_nil], fun hquote => ?_,
      fun hquote => ?_⟩
    · rw [hstray]
      by_cases hin' : s.inString = true
      · rw [hopens hin', Bool.true_or]
      · rcases hstring hin with hin' | rfl
        · rw [hopens hin', Bool.true_or]
        · rw [hdepth, Bool.eq_false_iff.2 hin']
          exact Bool.or_true _
    · rw [hstray, Bool.or_eq_false_iff] at hquote
      rw [hdocuments]
      refine (haccounts hquote.1).space ?_
      rcases hwhite with hin | rfl | hspace
      · exact absurd (hquote.1.symm.trans (hopens hin)) Bool.false_ne_true
      · rw [hdepth, Bool.eq_false_iff.2 fun hin => Bool.false_ne_true (hquote.1.symm.trans (hopens hin))] at hquote
        exact absurd hquote.2 (by decide)
      · exact hspace
    · rw [hstray, Bool.or_eq_true] at hquote
      rw [hdocuments, visible_append]
      rcases hquote with hquote | hquote
      · exact (hlost hquote).trans_le (Nat.le_add_right _ _)
      · obtain rfl : c = ch '"' := beq_iff_eq.1 (Bool.and_eq_true_iff.1 hquote).2
        have hone : visible [ch '"'] = 1 := by decide
        rw [hone]
        exact Nat.lt_succ_of_le hweak
  | start hdepth hdepth' hdocuments hcurrent hstring hquote =>
    have hidle := hs.idle hdepth
    rw [hidle, List.append_nil] at hstray haccounts hlost hat
    rw [hidle, List.append_nil]
    have hsame : strayQuote {} (done ++ [c]) = strayQuote {} done := by
      rw [hstray, beq_eq_false_iff_ne.2 hquote, Bool.and_false, Bool.or_false]
    refine ⟨hat, fun hzero => absurd (hdepth'.symm.trans hzero) Nat.one_ne_zero,
      fun hzero => absurd (hdepth'.symm.trans hzero) Nat.one_ne_zero, done, by rw [hcurrent], ?_, ?_⟩
    · rw [hsame, hdocuments]
      exact haccounts
    · rw [hsame, hdocuments]
      exact hlost
  | inside hdepth hdepth' hdocuments hcurrent =>
    have hsame : strayQuote {} (done ++ s.current ++ [c]) = strayQuote {} (done ++ s.current) := by
      rw [hstray, beq_eq_false_iff_ne.2 hdepth, Bool.false_and, Bool.false_and, Bool.or_false]
    refine ⟨hat, fun hzero => absurd hzero hdepth', fun hzero => absurd hzero hdepth', done,
      by rw [hcurrent, List.append_assoc], ?_, ?_⟩
    · rw [hsame, hdocuments]
      exact haccounts
    · rw [hsame, hdocuments]
      exact hlost
  | finish hdepth hdepth' hdocuments hcurrent hstring =>
    have hsame : strayQuote {} (done ++ s.current ++ [c]) = strayQuote {} (done ++ s.current) := by
      rw [hstray, hdepth]
      exact Bool.or_false _
    refine ⟨hat, fun _ => hcurrent, fun _ hin => absurd (hstring.symm.trans hin) Bool.false_ne_true,
      done ++ (s.current ++ [c]), by rw [hcurrent, List.append_nil, List.append_assoc], fun hquote => ?_, fun hquote => ?_⟩
    · rw [hdocuments]
      exact (haccounts (hsame.symm.trans hquote)).document _
    · rw [hdocuments, List.flatten_append, List.flatten_singleton, visible_append, visible_append done]
      exact Nat.add_lt_add_right (hlost (hsame.symm.trans hquote)) _

theorem run_scanned {text rest : Bytes} {s s' : JsonDocuments} (hs : Scanned text s)
    (h : rest.foldlM step s = .ok s') : Scanned (text ++ rest) s' := by
  induction rest generalizing text s with
  | nil =>
    cases h
    rwa [List.append_nil]
  | cons c rest ih =>
    rw [List.foldlM_cons] at h
    cases hstep : s.step c with
    | error e =>
      rw [hstep] at h
      exact nomatch h
    | ok s₁ =>
      rw [hstep] at h
      have hrest := ih (hs.step hstep) h
      rwa [List.append_assoc, List.singleton_append] at hrest

theorem scanned_start : Scanned [] {} :=
  ⟨rfl, fun _ => rfl, fun _ h => (nomatch h), [], rfl, fun _ => Accounts.nil, fun h => nomatch h⟩

/-! ## Values inside of a document -/

def Passes (s : JsonDocuments) (text : Bytes) (s' : JsonDocuments) : Prop := text.foldlM step s = .ok s'

theorem Passes.nil (s : JsonDocuments) : Passes s [] s := rfl

theorem Passes.append {s s₁ s₂ : JsonDocuments} {text text' : Bytes} (h : Passes s text s₁) (h' : Passes s₁ text' s₂) :
    Passes s (text ++ text') s₂ := by
  rw [Passes, List.foldlM_append, h]
  exact h'

theorem Passes.single {s s' : JsonDocuments} {c : UInt8} (h : s.step c = .ok s') : Passes s [c] s' := by
  rw [Passes, List.foldlM_cons, h]
  rfl

theorem Passes.cons {s s₁ s₂ : JsonDocuments} {c : UInt8} {text : Bytes} (h : s.step c = .ok s₁)
    (h' : Passes s₁ text s₂) : Passes s (c :: text) s₂ :=
  (Passes.single h).append h'

/-- The state `text` later in the same document. -/
def later (s : JsonDocuments) (text : Bytes) (inString escaped : Bool) : JsonDocuments :=
  { s with current := s.current ++ text, inString, escaped }

/-- A character that is not special outside of strings. -/
def plain (c : UInt8) : Bool := c != ch '"' && !isOpening c && !isClosing c

@[simp] theorem later_inString (s : JsonDocuments) (text : Bytes) (inString escaped : Bool) :
    (s.later text inString escaped).inString = inString := rfl

@[simp] theorem later_escaped (s : JsonDocuments) (text : Bytes) (inString escaped : Bool) :
    (s.later text inString escaped).escaped = escaped := rfl

@[simp] theorem later_depth (s : JsonDocuments) (text : Bytes) (inString escaped : Bool) :
    (s.later text inString escaped).depth = s.depth := rfl

section Steps
variable {s : JsonDocuments} {text : Bytes}

theorem push_later (hdepth : s.depth ≠ 0) (inString escaped : Bool) (c : UInt8) :
    (s.later text inString escaped).push c = s.later (text ++ [c]) inString escaped := by
  rw [push, later_depth, if_neg hdepth]
  simp only [later, List.append_assoc]

theorem step_escaped (hdepth : s.depth ≠ 0) (c : UInt8) :
    (s.later text true true).step c = .ok (s.later (text ++ [c]) true false) := by
  rw [step, later_inString, later_escaped, push_later hdepth]
  rfl

theorem step_slash (hdepth : s.depth ≠ 0) :
    (s.later text true false).step (ch '\\') = .ok (s.later (text ++ [ch '\\']) true true) := by
  rw [step, later_inString, later_escaped, push_later hdepth]
  rfl

theorem step_close (hdepth : s.depth ≠ 0) :
    (s.later text true false).step (ch '"') = .ok (s.later (text ++ [ch '"']) false false) := by
  rw [step, later_inString, later_escaped, push_later hdepth]
  rfl

theorem step_unescaped (hdepth : s.depth ≠ 0) {c : UInt8} (hquote : c ≠ ch '"') (hslash : c ≠ ch '\\') :
    (s.later text true false).step c = .ok (s.later (text ++ [c]) true false) := by
  rw [step, later_inString, later_escaped, if_pos rfl, push_later hdepth]
  dsimp only
  rw [if_neg Bool.false_ne_true, if_neg hslash, if_neg hquote]

theorem step_open (hdepth : s.depth ≠ 0) :
    (s.later text false false).step (ch '"') = .ok (s.later (text ++ [ch '"']) true false) := by
  rw [step, later_inString, push_later hdepth]
  rfl

theorem step_plain (hdepth : s.depth ≠ 0) {c : UInt8} (h : plain c = true) :
    (s.later text false false).step c = .ok (s.later (text ++ [c]) false false) := by
  simp only [plain, isOpening, isClosing, Bool.and_eq_true, bne_iff_ne, Bool.not_eq_true', Bool.or_eq_false_iff,
    beq_eq_false_iff_ne] at h
  obtain ⟨⟨hquote, hopening⟩, hclosing⟩ := h
  rw [step, later_inString, if_neg Bool.false_ne_true, if_neg hquote, if_neg (not_or.2 hopening),
    if_neg (not_or.2 hclosing), if_neg fun h => hdepth h.1, push_later hdepth]

theorem step_nested (hdepth : s.depth ≠ 0) {c : UInt8} (h : isOpening c = true) :
    (s.later text false false).step c =
      .ok (({ s with depth := s.depth + 1 } : JsonDocuments).later (text ++ [c]) false false) := by
  have hopening : c = ch '\x7b' ∨ c = ch '[' := by simpa [isOpening] using h
  have hquote : c ≠ ch '"' := by rcases hopening with rfl | rfl <;> decide
  rw [step, later_inString, if_neg Bool.false_ne_true, if_neg hquote, if_pos hopening, later_depth, if_neg hdepth,
    push_later hdepth]
  rfl

theorem step_unnested (hdepth : s.depth ≠ 0) {c : UInt8} (h : isClosing c = true) :
    (({ s with depth := s.depth + 1 } : JsonDocuments).later text false false).step c =
      .ok (s.later (text ++ [c]) false false) := by
  have hclosing : c = ch '\x7d' ∨ c = ch ']' := by simpa [isClosing] using h
  have hquote : c ≠ ch '"' := by rcases hclosing with rfl | rfl <;> decide
  have hopening : ¬ (c = ch '\x7b' ∨ c = ch '[') := by rcases hclosing with rfl | rfl <;> decide
  have hone : s.depth + 1 ≠ 1 := fun h => hdepth (Nat.succ_injective h)
  rw [step, later_inString, if_neg Bool.false_ne_true, if_neg hquote, if_neg hopening, if_pos hclosing, later_depth,
    if_neg (Nat.succ_ne_zero _), if_neg hone, push_later (Nat.succ_ne_zero _)]
  rfl

end Steps

/-- Inside of a document, the scanner adds the text to it and stands as before. -/
def Scans (text : Bytes) : Prop :=
  ∀ (s : JsonDocuments) (front : Bytes), s.depth ≠ 0 →
    Passes (s.later front false false) text (s.later (front ++ text) false false)

theorem Scans.nil : Scans [] := by
  intro s front _
  rw [List.append_nil]
  exact .nil _

theorem Scans.append {text text' : Bytes} (h : Scans text) (h' : Scans text') : Scans (text ++ text') := by
  intro s front hdepth
  rw [← List.append_assoc]
  exact (h s front hdepth).append (h' s _ hdepth)

theorem Scans.cons {c : UInt8} {text : Bytes} (hc : plain c = true) (h : Scans text) : Scans (c :: text) := by
  have hsingle : Scans [c] := fun s front hdepth => .single (step_plain hdepth hc)
  exact hsingle.append h

theorem Scans.plain {text : Bytes} (h : ∀ c ∈ text, plain c = true) : Scans text := by
  induction text with
  | nil => exact .nil
  | cons c text ih =>
    obtain ⟨hc, hrest⟩ := List.forall_mem_cons.1 h
    exact .cons hc (ih hrest)

theorem Scans.white (w : List White) : Scans (whiteText w) := by
  refine .plain fun c hc => ?_
  obtain ⟨white, -, rfl⟩ := List.mem_map.1 hc
  cases white <;> decide

theorem Scans.bracketed {«open» close : UInt8} (hopen : isOpening «open» = true) (hclose : isClosing close = true)
    {body : Bytes} (h : Scans body) : Scans («open» :: (body ++ [close])) := by
  intro s front hdepth
  have hbody := h { s with depth := s.depth + 1 } (front ++ [«open»]) (Nat.succ_ne_zero _)
  have hend := hbody.append (.single (step_unnested hdepth hclose))
  rw [List.append_assoc, List.append_assoc] at hend
  exact .cons (step_nested hdepth hopen) hend

/-! ### Strings -/

theorem passes_unescaped {text : Bytes} (h : ∀ c ∈ text, c ≠ ch '"' ∧ c ≠ ch '\\') {s : JsonDocuments}
    (hdepth : s.depth ≠ 0) (front : Bytes) :
    Passes (s.later front true false) text (s.later (front ++ text) true false) := by
  induction text generalizing front with
  | nil =>
    rw [List.append_nil]
    exact .nil _
  | cons c text ih =>
    obtain ⟨⟨hquote, hslash⟩, hrest⟩ := List.forall_mem_cons.1 h
    have hnext := ih hrest (front ++ [c])
    rw [List.append_assoc] at hnext
    exact .cons (step_unescaped hdepth hquote hslash) hnext

theorem HexDigit.byte_ne (d : HexDigit) : d.byte ≠ ch '"' ∧ d.byte ≠ ch '\\' := by
  obtain ⟨digit, upper⟩ := d
  revert digit
  cases upper <;> decide

theorem passes_char (c : StringChar) {s : JsonDocuments} (hdepth : s.depth ≠ 0) (front : Bytes) :
    Passes (s.later front true false) c.text (s.later (front ++ c.text) true false) := by
  have hpair : ∀ escaped, Passes (s.later front true false) [ch '\\', escaped]
      (s.later (front ++ [ch '\\', escaped]) true false) := by
    intro escaped
    have hlast : Passes (s.later (front ++ [ch '\\']) true true) [escaped] _ := .single (step_escaped hdepth escaped)
    rw [List.append_assoc] at hlast
    exact .cons (step_slash hdepth) hlast
  cases c with
  | unescaped c h => exact .single (step_unescaped hdepth h.2.1 h.2.2)
  | escape e => exact hpair e.letter
  | unicode q =>
    have hquad : ∀ c ∈ q.text, c ≠ ch '"' ∧ c ≠ ch '\\' := by
      have hmap : q.text = [q.first, q.second, q.third, q.fourth].map HexDigit.byte := rfl
      rw [hmap, List.forall_mem_map]
      exact fun d _ => HexDigit.byte_ne d
    have hpasses := (hpair (ch 'u')).append (passes_unescaped hquad hdepth _)
    rw [List.append_assoc] at hpasses
    exact hpasses

theorem passes_chars (chars : List StringChar) {s : JsonDocuments} (hdepth : s.depth ≠ 0) (front : Bytes) :
    Passes (s.later front true false) (chars.flatMap StringChar.text)
      (s.later (front ++ chars.flatMap StringChar.text) true false) := by
  induction chars generalizing front with
  | nil =>
    rw [List.flatMap_nil, List.append_nil]
    exact .nil _
  | cons c chars ih =>
    rw [List.flatMap_cons, ← List.append_assoc]
    exact (passes_char c hdepth front).append (ih _)

theorem Scans.string (chars : List StringChar) : Scans (stringText chars) := by
  intro s front hdepth
  have hchars := (passes_chars chars hdepth (front ++ [ch '"'])).append (.single (step_close hdepth))
  rw [List.append_assoc, List.append_assoc] at hchars
  exact .cons (step_open hdepth) hchars

/-! ### Values -/

theorem plain_digit (d : Fin 10) : plain (digitByte d) = true := by
  revert d
  decide

theorem plain_digits (l : List (Fin 10)) : ∀ c ∈ l.map digitByte, plain c = true :=
  List.forall_mem_map.2 fun d _ => plain_digit d

theorem plain_number (n : NumberToken) : ∀ c ∈ n.text, plain c = true := by
  have hcons : ∀ {c : UInt8} {l : Bytes}, plain c = true → (∀ c ∈ l, plain c = true) → ∀ d ∈ c :: l, plain d = true :=
    fun hc hl => List.forall_mem_cons.2 ⟨hc, hl⟩
  have happend : ∀ {l l' : Bytes}, (∀ c ∈ l, plain c = true) → (∀ c ∈ l', plain c = true) →
      ∀ c ∈ l ++ l', plain c = true := fun hl hl' => List.forall_mem_append.2 ⟨hl, hl'⟩
  have hsign : ∀ c ∈ [(0x2D : UInt8)], plain c = true := by decide
  have hletter : ∀ upper : Bool, plain (if upper then 0x45 else 0x65) = true := by decide
  obtain ⟨negative, integer, fraction, exponent⟩ := n
  refine happend (happend (happend ?_ ?_) ?_) ?_
  · cases negative with
    | false => exact List.forall_mem_nil _
    | true => exact hsign
  · cases integer with
    | zero => exact (by decide : ∀ c ∈ IntPart.zero.text, plain c = true)
    | digits first rest => exact plain_digits _
  · cases fraction with
    | none => exact List.forall_mem_nil _
    | some digits => exact hcons (by decide) (plain_digits _)
  · cases exponent with
    | none => exact List.forall_mem_nil _
    | some e =>
      obtain ⟨upper, sign, digits⟩ := e
      refine hcons (hletter upper) (happend (List.forall_mem_map.2 fun sign _ => ?_) (plain_digits _))
      cases sign <;> decide

theorem plain_literal (l : Literal) : ∀ c ∈ l.text, plain c = true := by
  rcases l with _ | ⟨_ | _⟩ <;> decide

mutual

theorem Tree.scans : ∀ t : Tree, Scans t.text
  | .literal l => .plain (plain_literal l)
  | .number n => .plain (plain_number n)
  | .string chars => .string chars
  | .emptyArray w => (Scans.white w).bracketed (by decide) (by decide)
  | .array w elements => by
    have hbody := ((Scans.white w).append (Elements.scans elements)).bracketed (show isOpening 0x5B = true by decide)
      (show isClosing 0x5D = true by decide)
    rwa [List.append_assoc] at hbody
  | .emptyObject w => (Scans.white w).bracketed (by decide) (by decide)
  | .object w members => by
    have hbody := ((Scans.white w).append (Members.scans members)).bracketed (show isOpening 0x7B = true by decide)
      (show isClosing 0x7D = true by decide)
    rwa [List.append_assoc] at hbody

theorem Elements.scans : ∀ elements : Elements, Scans elements.text
  | .last t w => (Tree.scans t).append (.white w)
  | .more t before after rest =>
    (Tree.scans t).append ((Scans.white before).append (.cons (by decide) ((Scans.white after).append (Elements.scans rest))))

theorem Members.scans : ∀ members : Members, Scans members.text
  | .last key colon value t w =>
    (Scans.string key).append ((Scans.white colon).append (.cons (by decide) ((Scans.white value).append
      ((Tree.scans t).append (.white w)))))
  | .more key colon value t before after rest =>
    (Scans.string key).append ((Scans.white colon).append (.cons (by decide) ((Scans.white value).append
      ((Tree.scans t).append ((Scans.white before).append (.cons (by decide) ((Scans.white after).append
        (Members.scans rest))))))))

end

/-! ## Documents -/

/-- Between two documents. -/
def between (documents : List Bytes) : JsonDocuments := { documents }

theorem passes_white {text : Bytes} (h : ∀ c ∈ text, Text.isSpace c = true) (documents : List Bytes) :
    Passes (between documents) text (between documents) := by
  induction text with
  | nil => exact .nil _
  | cons c text ih =>
    obtain ⟨hc, hrest⟩ := List.forall_mem_cons.1 h
    have hspecial : ∀ c, Text.isSpace c = true → c ≠ ch '"' ∧ ¬ (c = ch '\x7b' ∨ c = ch '[') ∧ ¬ (c = ch '\x7d' ∨ c = ch ']') := by
      intro c hc
      refine ⟨?_, ?_, ?_⟩
      · rintro rfl
        exact absurd hc (by decide)
      · rintro (rfl | rfl) <;> exact absurd hc (by decide)
      · rintro (rfl | rfl) <;> exact absurd hc (by decide)
    obtain ⟨hquote, hopening, hclosing⟩ := hspecial c hc
    refine .cons ?_ (ih hrest)
    rw [step, if_neg (show ¬ (between documents).inString = true from Bool.false_ne_true), if_neg hquote, if_neg hopening,
      if_neg hclosing, if_neg fun h => Bool.false_ne_true (h.2.symm.trans hc)]
    rfl

theorem passes_document {«open» close : UInt8} (hopen : isOpening «open» = true) (hclose : isClosing close = true)
    {body : Bytes} (h : Scans body) (documents : List Bytes) :
    Passes (between documents) («open» :: (body ++ [close])) (between (documents ++ [«open» :: (body ++ [close])])) := by
  have hopening : «open» = ch '\x7b' ∨ «open» = ch '[' := by simpa [isOpening] using hopen
  have hclosing : close = ch '\x7d' ∨ close = ch ']' := by simpa [isClosing] using hclose
  have hstart : (between documents).step «open» = .ok { documents, current := [«open»], depth := 1 } := by
    rcases hopening with rfl | rfl <;> rfl
  have hbody := h { documents, depth := 1 } [«open»] Nat.one_ne_zero
  refine .cons hstart (hbody.append (.single ?_))
  rcases hclosing with rfl | rfl <;> rfl

/-- A value with brackets around it. -/
def container : Value → Bool
  | .array _ | .object _ => true
  | _ => false

/-- A text without the white space around it. -/
def trim (text : Bytes) : Bytes := (text.dropWhile Json.isSpace).rdropWhile Json.isSpace

theorem trim_bracketed {before after : Bytes} (hbefore : ∀ c ∈ before, Json.isSpace c = true)
    (hafter : ∀ c ∈ after, Json.isSpace c = true) {«open» close : UInt8} (hopen : isOpening «open» = true)
    (hclose : isClosing close = true) (body : Bytes) :
    trim (before ++ («open» :: (body ++ [close]) ++ after)) = «open» :: (body ++ [close]) := by
  have hspace : ∀ c, isOpening c = true ∨ isClosing c = true → ¬ Json.isSpace c = true := by
    rintro c (h | h)
    · simp only [isOpening, Bool.or_eq_true, beq_iff_eq] at h
      rcases h with rfl | rfl <;> decide
    · simp only [isClosing, Bool.or_eq_true, beq_iff_eq] at h
      rcases h with rfl | rfl <;> decide
  have hfront : (before ++ («open» :: (body ++ [close]) ++ after)).dropWhile Json.isSpace =
      «open» :: (body ++ [close]) ++ after := by
    rw [List.dropWhile_append_of_pos hbefore, List.cons_append, List.dropWhile_cons_of_neg (hspace _ (.inl hopen))]
  have hlast : (after.reverse ++ («open» :: (body ++ [close])).reverse).dropWhile Json.isSpace =
      («open» :: (body ++ [close])).reverse := by
    rw [List.dropWhile_append_of_pos fun c hc => hafter c (List.mem_reverse.1 hc), List.reverse_cons, List.reverse_concat,
      List.cons_append, List.dropWhile_cons_of_neg (hspace _ (.inr hclose))]
  rw [trim, hfront, List.rdropWhile, List.reverse_append, hlast, List.reverse_reverse]

theorem passes_accepted {fromChars : Bytes → Option ℚ} {text : Bytes} {v : Value} (h : parse fromChars text = .ok v)
    (hv : container v = true) (documents : List Bytes) :
    Passes (between documents) text (between (documents ++ [trim text])) := by
  have hspace : ∀ w : List White, ∀ c ∈ whiteText w, Text.isSpace c = true ∧ Json.isSpace c = true := by
    intro w c hc
    obtain ⟨white, -, rfl⟩ := List.mem_map.1 hc
    cases white <;> decide
  obtain ⟨⟨before, t, after⟩, rfl, -, rfl⟩ := document_of_parse h
  have hbracketed : ∀ {«open» close : UInt8} {body : Bytes}, isOpening «open» = true → isClosing close = true →
      Scans body → t.text = «open» :: (body ++ [close]) →
      Passes (between documents) (Document.text ⟨before, t, after⟩)
        (between (documents ++ [trim (Document.text ⟨before, t, after⟩)])) := by
    intro «open» close body hopen hclose hbody htext
    rw [Document.text, htext, trim_bracketed (fun c hc => (hspace before c hc).2) (fun c hc => (hspace after c hc).2)
      hopen hclose]
    exact (passes_white (fun c hc => (hspace before c hc).1) _).append
      ((passes_document hopen hclose hbody _).append (passes_white (fun c hc => (hspace after c hc).1) _))
  cases t with
  | literal l => cases l <;> exact absurd hv Bool.false_ne_true
  | number n => exact absurd hv Bool.false_ne_true
  | string chars => exact absurd hv Bool.false_ne_true
  | emptyArray w => exact hbracketed (by decide) (by decide) (.white w) rfl
  | array w elements =>
    refine hbracketed (show isOpening 0x5B = true by decide) (show isClosing 0x5D = true by decide)
      ((Scans.white w).append (Elements.scans elements)) ?_
    rw [List.append_assoc]
    rfl
  | emptyObject w => exact hbracketed (by decide) (by decide) (.white w) rfl
  | object w members =>
    refine hbracketed (show isOpening 0x7B = true by decide) (show isClosing 0x7D = true by decide)
      ((Scans.white w).append (Members.scans members)) ?_
    rw [List.append_assoc]
    rfl

theorem passes_parts {fromChars : Bytes → Option ℚ} {parts : List (Bytes × Bytes)}
    (h : ∀ part ∈ parts, (∃ v, parse fromChars part.1 = .ok v ∧ container v = true) ∧ ∀ c ∈ part.2, Text.isSpace c = true)
    (documents : List Bytes) :
    Passes (between documents) (parts.flatMap fun part => part.1 ++ part.2)
      (between (documents ++ parts.map fun part => trim part.1)) := by
  induction parts generalizing documents with
  | nil =>
    rw [List.map_nil, List.append_nil]
    exact .nil _
  | cons part parts ih =>
    obtain ⟨⟨⟨v, hparse, hv⟩, hwhite⟩, hrest⟩ := List.forall_mem_cons.1 h
    have hnext := ih hrest (documents ++ [trim part.1])
    rw [List.append_assoc] at hnext
    rw [List.flatMap_cons]
    exact ((passes_accepted hparse hv documents).append (passes_white hwhite _)).append hnext

end JsonDocuments

open JsonDocuments

/-- The documents that are returned account for every byte of the input if and only if no string stands outside of the
brackets. And objects and arrays that the parser accepts are found with any white space in front, between and behind. -/
theorem splitJsonDocuments_accounts (input gap : Bytes) (fromChars : Bytes → Option ℚ) (parts : List (Bytes × Bytes)) :
    (∀ documents : List Bytes, splitJsonDocuments input = .ok documents →
      (JsonDocuments.Accounts documents input ↔ strayQuote {} input = false)) ∧
    ((∀ c ∈ gap, Text.isSpace c = true) →
      (∀ part ∈ parts, (∃ v, parse fromChars part.1 = .ok v ∧ container v = true) ∧
        ∀ c ∈ part.2, Text.isSpace c = true) →
      splitJsonDocuments (gap ++ parts.flatMap fun part => part.1 ++ part.2) =
        .ok (parts.map fun part => trim part.1)) := by
  constructor
  · intro documents h
    rw [splitJsonDocuments] at h
    cases hrun : input.foldlM JsonDocuments.step {} with
    | error e =>
      rw [hrun] at h
      exact nomatch h
    | ok s =>
      have hscanned := run_scanned scanned_start hrun
      rw [List.nil_append] at hscanned
      simp only [hrun, bind, Except.bind, pure, Except.pure] at h
      split at h
      · exact nomatch h
      · rename_i hend
        obtain rfl : s.documents = documents := Except.ok.inj h
        have hdepth : s.depth = 0 := by
          by_contra hne
          exact hend (.inl hne)
        obtain ⟨done, hdone, haccounts, hlost⟩ := hscanned.done
        rw [hscanned.idle hdepth, List.append_nil] at hdone
        subst hdone
        cases hquote : strayQuote {} input with
        | true => exact iff_of_false (fun h => (hlost hquote).ne h.visible) (fun h => nomatch h)
        | false => exact iff_of_true (haccounts hquote) rfl
  · intro hgap hparts
    have hrun : Passes {} _ _ := (passes_white hgap []).append (passes_parts hparts [])
    rw [splitJsonDocuments, hrun]
    rfl

/-- Two documents with a blank between them. -/
theorem two_documents : splitJsonDocuments (lit "[\"]\"] [1]") = .ok [lit "[\"]\"]", lit "[1]"] ∧
    JsonDocuments.Accounts [lit "[\"]\"]", lit "[1]"] (lit "[\"]\"] [1]") := by
  have hsplit : splitJsonDocuments (lit "[\"]\"] [1]") = .ok [lit "[\"]\"]", lit "[1]"] := by rfl
  exact ⟨hsplit, ((splitJsonDocuments_accounts _ [] (fun _ => none) []).1 _ hsplit).2 (by decide)⟩

/-- A string alone is passed over. -/
theorem stray_string : splitJsonDocuments (lit "\"abc\"") = .ok [] ∧ ¬ JsonDocuments.Accounts [] (lit "\"abc\"") := by
  refine ⟨by rfl, fun h => absurd h.visible (by decide)⟩

end Indexer

end CxxDead
