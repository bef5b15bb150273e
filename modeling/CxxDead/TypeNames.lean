import CxxDead.Ast
/-!
# Type names

`normalize_type` erases the keywords in front of a type's name wherever their letters
stand in front of a blank, and then trims the end.

- `findText_name`: where a keyword is found in a name with its suffix.
- `eraseAll_word`: a word in front that does not end with the keyword stays.
- `normalizeType_eq_iff`: the names that come out unchanged.
-/

namespace CxxDead

open Lib

namespace Ast

/-! ## Erasing -/

section Erase
variable {needle text : Bytes}

theorem findText_eq_some {front back : Bytes} (h : findText needle text = some (front, back)) :
    text = front ++ (needle ++ back) := by
  induction text generalizing front with
  | nil => cases h
  | cons c rest ih =>
    unfold findText at h
    split at h
    · rename_i hprefix
      obtain ⟨rfl, rfl⟩ := Prod.mk.inj (Option.some.inj h)
      exact List.prefix_iff_eq_append.1 (List.isPrefixOf_iff_prefix.1 hprefix) |>.symm
    · obtain ⟨⟨front', back'⟩, hfound, heq⟩ := Option.map_eq_some_iff.1 h
      obtain ⟨rfl, rfl⟩ := Prod.mk.inj heq
      rw [List.cons_append, ← ih hfound]

theorem eraseTurns_of_none (h : findText needle text = none) (turns : Nat) : eraseTurns needle turns text = text := by
  cases turns with
  | zero => rfl
  | succ turns => rw [eraseTurns, h]

/-- More turns than the text is long change nothing. -/
theorem eraseTurns_eq (hne : needle ≠ []) {turns turns' : Nat} (h : text.length ≤ turns) (h' : text.length ≤ turns') :
    eraseTurns needle turns text = eraseTurns needle turns' text := by
  induction turns generalizing text turns' with
  | zero =>
    obtain rfl := List.length_eq_zero_iff.1 (Nat.le_zero.1 h)
    rw [eraseTurns_of_none rfl, eraseTurns_of_none rfl]
  | succ turns ih =>
    cases hfound : findText needle text with
    | none => rw [eraseTurns_of_none hfound, eraseTurns_of_none hfound]
    | some found =>
      obtain ⟨front, back⟩ := found
      have hshort := findText_length hfound
      have hpos := List.length_pos_iff.2 hne
      obtain ⟨turns', rfl⟩ : ∃ n, turns' = n + 1 := Nat.exists_eq_succ_of_ne_zero (by omega)
      rw [eraseTurns, eraseTurns, hfound]
      exact ih (by omega) (by omega)

theorem eraseAll_of_none (h : findText needle text = none) : eraseAll needle text = text := eraseTurns_of_none h _

theorem eraseAll_of_some {front back : Bytes} (hne : needle ≠ []) (h : findText needle text = some (front, back)) :
    eraseAll needle text = eraseAll needle (front ++ back) := by
  have hshort := findText_length h
  have hpos := List.length_pos_iff.2 hne
  unfold eraseAll
  obtain ⟨turns, hturns⟩ : ∃ n, text.length = n + 1 := Nat.exists_eq_succ_of_ne_zero (by omega)
  rw [hturns, eraseTurns, h]
  exact eraseTurns_eq hne (by omega) (Nat.le_refl _)

end Erase

/-! ## Keywords, names and suffixes -/

/-- What is trimmed off the end of a type. -/
def trimmed (c : UInt8) : Bool := c == ch '&' || c == ch '*' || Text.isSpace c

/-- A name has none of the characters that are trimmed. -/
def IsName (name : Bytes) : Prop := ∀ c ∈ name, trimmed c = false

/-- Stars, ampersands and blanks. -/
def IsIndirection (suffix : Bytes) : Prop := ∀ c ∈ suffix, c = ch '*' ∨ c = ch '&' ∨ c = ch ' '

def keywords : List Bytes := [lit "const", lit "volatile", lit "struct", lit "class"]

/-- Words with a blank behind each. -/
def qualifiers (words : List Bytes) : Bytes := words.flatMap fun word => word ++ [ch ' ']

/-- The text that is erased for a keyword. -/
def erased (word : Bytes) : Bytes := word ++ [ch ' ']

theorem erased_ne_nil (word : Bytes) : erased word ≠ [] := List.append_ne_nil_of_right_ne_nil _ (List.cons_ne_nil _ _)

theorem keywords_names : ∀ word ∈ keywords, word ≠ [] ∧ IsName word := by
  unfold IsName
  decide

/-- No keyword ends with another one. -/
theorem keywords_apart : ∀ word ∈ keywords, ∀ other ∈ keywords, word <:+ other → word = other := by decide

theorem trimmed_indirection {suffix : Bytes} (h : IsIndirection suffix) : ∀ c ∈ suffix, trimmed c = true := by
  intro c hc
  rcases h c hc with rfl | rfl | rfl <;> decide

theorem IsName.no_blank {name : Bytes} (h : IsName name) : ch ' ' ∉ name := by
  intro hmem
  exact absurd (h _ hmem) (by decide)

/-- The text up to the first blank. -/
theorem eq_of_blank {a b rest rest' : Bytes} (ha : ch ' ' ∉ a) (hb : ch ' ' ∉ b)
    (h : a ++ ch ' ' :: rest = b ++ ch ' ' :: rest') : a = b := by
  induction a generalizing b with
  | nil =>
    cases b with
    | nil => rfl
    | cons c b => exact absurd (List.mem_cons.2 (.inl (List.cons.inj h).1)) hb
  | cons c a ih =>
    cases b with
    | nil => exact absurd (List.mem_cons.2 (.inl (List.cons.inj h).1.symm)) ha
    | cons d b =>
      obtain ⟨rfl, hrest⟩ := List.cons.inj h
      rw [ih (fun hmem => ha (List.mem_cons_of_mem _ hmem)) (fun hmem => hb (List.mem_cons_of_mem _ hmem)) hrest]

/-! ## The keywords in front -/

section Front
variable {word : Bytes}

theorem findText_word (hne : word ≠ []) (hword : IsName word) {other : Bytes} (hother : IsName other)
    (h : ¬ word <:+ other) (rest : Bytes) :
    findText (erased word) (other ++ ch ' ' :: rest) =
      (findText (erased word) rest).map fun found => (other ++ ch ' ' :: found.1, found.2) := by
  induction other with
  | nil =>
    obtain ⟨c, more, rfl⟩ := List.exists_cons_of_ne_nil hne
    have hc : c ≠ ch ' ' := fun hblank => hword.no_blank (hblank ▸ List.mem_cons_self)
    have hprefix : ¬ (erased (c :: more)).isPrefixOf (ch ' ' :: rest) = true := by
      rw [erased, List.cons_append, List.isPrefixOf, beq_false_of_ne hc, Bool.false_and]
      exact Bool.false_ne_true
    rw [List.nil_append, findText, if_neg hprefix]
    rfl
  | cons d other ih =>
    have hprefix : ¬ (erased word).isPrefixOf (d :: (other ++ ch ' ' :: rest)) = true := by
      rw [List.isPrefixOf_iff_prefix]
      rintro ⟨back, hback⟩
      rw [erased, List.append_assoc, List.singleton_append, ← List.cons_append] at hback
      have hsame := eq_of_blank hword.no_blank hother.no_blank hback
      exact h (hsame ▸ List.suffix_refl _)
    have hrest := ih (fun c hc => hother c (List.mem_cons_of_mem _ hc)) fun hsuffix => h (hsuffix.trans (List.suffix_cons _ _))
    rw [List.cons_append, findText, if_neg hprefix, hrest, Option.map_map]
    rfl

/-- A word that does not end with the keyword stays, and what is behind it is erased on its own. -/
theorem eraseAll_word (hne : word ≠ []) (hword : IsName word) {other : Bytes} (hother : IsName other)
    (h : ¬ word <:+ other) (rest : Bytes) :
    eraseAll (erased word) (other ++ ch ' ' :: rest) = other ++ ch ' ' :: eraseAll (erased word) rest := by
  induction hlength : rest.length using Nat.strongRecOn generalizing rest with
  | _ n ih =>
    have hfound := findText_word hne hword hother h rest
    cases hrest : findText (erased word) rest with
    | none =>
      rw [hrest] at hfound
      rw [eraseAll_of_none hfound, eraseAll_of_none hrest]
    | some found =>
      obtain ⟨front, back⟩ := found
      rw [hrest] at hfound
      have hshort := findText_length hrest
      have hpos := List.length_pos_iff.2 (erased_ne_nil word)
      rw [eraseAll_of_some (erased_ne_nil word) hfound, eraseAll_of_some (erased_ne_nil word) hrest]
      have hstep := ih _ (by omega) (front ++ back) rfl
      rw [← hstep, List.append_assoc, List.cons_append]

theorem eraseAll_keyword (hne : word ≠ []) (rest : Bytes) :
    eraseAll (erased word) (word ++ ch ' ' :: rest) = eraseAll (erased word) rest := by
  have hfound : findText (erased word) (word ++ ch ' ' :: rest) = some ([], rest) := by
    have htext : word ++ ch ' ' :: rest = erased word ++ rest := by
      rw [erased, List.append_assoc, List.singleton_append]
    obtain ⟨c, more, rfl⟩ := List.exists_cons_of_ne_nil hne
    have hprefix : (erased (c :: more)).isPrefixOf (c :: (more ++ ch ' ' :: rest)) = true := by
      rw [List.isPrefixOf_iff_prefix, ← List.cons_append, htext]
      exact List.prefix_append _ _
    rw [List.cons_append, findText, if_pos hprefix, ← List.cons_append, htext, List.drop_left]
  exact eraseAll_of_some (erased_ne_nil word) hfound

/-- A pass drops its keyword from the qualifiers. -/
theorem eraseAll_qualifiers (hword : word ∈ keywords) {words : List Bytes} (hwords : ∀ w ∈ words, w ∈ keywords)
    (rest : Bytes) :
    eraseAll (erased word) (qualifiers words ++ rest) =
      qualifiers (words.filter (· ≠ word)) ++ eraseAll (erased word) rest := by
  obtain ⟨hne, hname⟩ := keywords_names word hword
  induction words with
  | nil => rfl
  | cons w words ih =>
    obtain ⟨hw, hwords⟩ := List.forall_mem_cons.1 hwords
    have htext : qualifiers (w :: words) ++ rest = w ++ ch ' ' :: (qualifiers words ++ rest) := by
      rw [qualifiers, List.flatMap_cons, List.append_assoc, List.append_assoc, List.singleton_append]
      rfl
    by_cases hsame : w = word
    · subst hsame
      rw [htext, eraseAll_keyword hne, ih hwords, List.filter_cons_of_neg (by simp)]
    · have hapart : ¬ word <:+ w := fun hsuffix => hsame (keywords_apart word hword w hw hsuffix).symm
      rw [htext, eraseAll_word hne hname (keywords_names w hw).2 hapart, ih hwords, List.filter_cons_of_pos (by simpa using hsame)]
      show _ = (w ++ [ch ' '] ++ qualifiers _) ++ _
      rw [List.append_assoc, List.append_assoc, List.singleton_append]

end Front

/-! ## The name and what is behind it -/

section Behind
variable {word name suffix : Bytes}

/-- A keyword is found only at the end of the name, in front of a blank. -/
theorem findText_name (hne : word ≠ []) (hword : IsName word) (hname : IsName name) (hsuffix : IsIndirection suffix)
    {front back : Bytes} (h : findText (erased word) (name ++ suffix) = some (front, back)) :
    name = front ++ word ∧ suffix = ch ' ' :: back := by
  have htext := findText_eq_some h
  rw [erased, List.append_assoc, List.singleton_append, ← List.append_assoc] at htext
  rcases List.append_eq_append_iff.1 htext with ⟨middle, hfront, hback⟩ | ⟨middle, hfront, hback⟩
  · rcases List.eq_nil_or_concat middle with rfl | ⟨middle, c, rfl⟩
    · rw [List.append_nil] at hfront
      exact ⟨hfront.symm, hback⟩
    · -- the last letter of the keyword would be one of the suffix
      obtain ⟨start, last, rfl⟩ := (List.eq_nil_or_concat word).resolve_left hne
      rw [List.concat_eq_append, List.concat_eq_append, ← List.append_assoc, ← List.append_assoc] at hfront
      obtain ⟨-, hlast⟩ := List.append_inj' hfront rfl
      obtain rfl := List.singleton_inj.1 hlast
      have hletter : trimmed last = false := hword last (by simp)
      have hblank : trimmed last = true := trimmed_indirection hsuffix last (by simp [hback])
      exact absurd (hletter.symm.trans hblank) (by decide)
  · cases middle with
    | nil =>
      rw [List.append_nil] at hfront
      exact ⟨hfront, hback.symm⟩
    | cons c middle =>
      obtain ⟨rfl, -⟩ := List.cons.inj hback
      refine absurd ?_ hname.no_blank
      rw [hfront]
      exact List.mem_append_right _ List.mem_cons_self

theorem findText_some_of_infix {needle : Bytes} (hne : needle ≠ []) (front back : Bytes) :
    ∃ found, findText needle (front ++ (needle ++ back)) = some found := by
  induction front with
  | nil =>
    obtain ⟨c, more, rfl⟩ := List.exists_cons_of_ne_nil hne
    have hprefix : (c :: more).isPrefixOf (c :: (more ++ back)) = true := by
      rw [List.isPrefixOf_iff_prefix]
      exact List.prefix_append _ _
    rw [List.nil_append, List.cons_append, findText, if_pos hprefix]
    exact ⟨_, rfl⟩
  | cons c front ih =>
    obtain ⟨found, hfound⟩ := ih
    rw [List.cons_append, findText, hfound]
    split
    · exact ⟨_, rfl⟩
    · exact ⟨_, rfl⟩

/-- A name cut short, with some indirection behind it. -/
def Shorter (n : Nat) (text : Bytes) : Prop :=
  ∃ name suffix, text = name ++ suffix ∧ IsName name ∧ IsIndirection suffix ∧ name.length < n

theorem shorter_erase (hne : word ≠ []) (hword : IsName word) (hname : IsName name) (hsuffix : IsIndirection suffix)
    {front back : Bytes} (h : findText (erased word) (name ++ suffix) = some (front, back)) :
    IsName front ∧ IsIndirection back ∧ front.length < name.length := by
  obtain ⟨rfl, rfl⟩ := findText_name hne hword hname hsuffix h
  refine ⟨fun c hc => hname c (List.mem_append_left _ hc), fun c hc => hsuffix c (List.mem_cons_of_mem _ hc), ?_⟩
  have hpos := List.length_pos_iff.2 hne
  rw [List.length_append]
  omega

theorem Shorter.eraseAll {n : Nat} {text : Bytes} (hne : word ≠ []) (hword : IsName word) (h : Shorter n text) :
    Shorter n (eraseAll (erased word) text) := by
  induction hlength : text.length using Nat.strongRecOn generalizing text with
  | _ m ih =>
    obtain ⟨name, suffix, rfl, hname, hsuffix, hshort⟩ := h
    cases hfound : findText (erased word) (name ++ suffix) with
    | none =>
      rw [eraseAll_of_none hfound]
      exact ⟨name, suffix, rfl, hname, hsuffix, hshort⟩
    | some found =>
      obtain ⟨front, back⟩ := found
      obtain ⟨hfront, hback, hless⟩ := shorter_erase hne hword hname hsuffix hfound
      have hdrop := findText_length hfound
      have hpos := List.length_pos_iff.2 (erased_ne_nil word)
      rw [eraseAll_of_some (erased_ne_nil word) hfound]
      exact ih _ (by omega) ⟨front, back, rfl, hfront, hback, by omega⟩ rfl

theorem eraseAll_name (hne : word ≠ []) (hword : IsName word) (hname : IsName name) (hsuffix : IsIndirection suffix) :
    (word <:+ name ∧ suffix.head? = some (ch ' ') → Shorter name.length (eraseAll (erased word) (name ++ suffix))) ∧
      (¬ (word <:+ name ∧ suffix.head? = some (ch ' ')) → eraseAll (erased word) (name ++ suffix) = name ++ suffix) := by
  constructor
  · rintro ⟨⟨front, rfl⟩, hblank⟩
    obtain ⟨back, rfl⟩ : ∃ back, suffix = ch ' ' :: back := by
      cases suffix with
      | nil => cases hblank
      | cons c back =>
        obtain rfl := Option.some.inj hblank
        exact ⟨back, rfl⟩
    have htext : front ++ word ++ ch ' ' :: back = front ++ (erased word ++ back) := by
      rw [erased, List.append_assoc, List.append_assoc, List.singleton_append]
    obtain ⟨⟨front', back'⟩, hfound⟩ := findText_some_of_infix (erased_ne_nil word) front back
    rw [← htext] at hfound
    obtain ⟨hfront, hback, hless⟩ := shorter_erase hne hword hname hsuffix hfound
    rw [eraseAll_of_some (erased_ne_nil word) hfound]
    exact Shorter.eraseAll hne hword ⟨front', back', rfl, hfront, hback, hless⟩
  · intro hno
    cases hfound : findText (erased word) (name ++ suffix) with
    | none => exact eraseAll_of_none hfound
    | some found =>
      obtain ⟨rfl, rfl⟩ := findText_name hne hword hname hsuffix hfound
      exact absurd ⟨List.suffix_append _ _, rfl⟩ hno

end Behind

/-! ## All passes -/

def passes (words : List Bytes) (text : Bytes) : Bytes := words.foldl (fun text word => eraseAll (erased word) text) text

def trimType (text : Bytes) : Bytes := (trimEnd trimmed text).dropWhile Text.isSpace

theorem normalizeType_eq (text : Bytes) : normalizeType text = trimType (passes keywords text) := by
  have hwords : [lit "const ", lit "volatile ", lit "struct ", lit "class "] = keywords.map erased := by decide
  unfold normalizeType passes
  rw [hwords, List.foldl_map]
  rfl

theorem passes_qualifiers {ks : List Bytes} (hks : ∀ k ∈ ks, k ∈ keywords) {words : List Bytes}
    (hwords : ∀ w ∈ words, w ∈ keywords) (text : Bytes) :
    passes ks (qualifiers words ++ text) = qualifiers (words.filter (· ∉ ks)) ++ passes ks text := by
  induction ks generalizing words text with
  | nil =>
    have hall : words.filter (· ∉ ([] : List Bytes)) = words := List.filter_eq_self.2 fun w _ => by simp
    rw [hall]
    rfl
  | cons k ks ih =>
    obtain ⟨hk, hks⟩ := List.forall_mem_cons.1 hks
    have hfilter : ∀ w ∈ words.filter (· ≠ k), w ∈ keywords := fun w hw => hwords w (List.mem_filter.1 hw).1
    have hboth : (words.filter (· ≠ k)).filter (· ∉ ks) = words.filter (· ∉ k :: ks) := by
      rw [List.filter_filter]
      refine List.filter_congr fun w _ => ?_
      simp [not_or, Bool.and_comm]
    show passes ks (eraseAll (erased k) (qualifiers words ++ text)) = _
    rw [eraseAll_qualifiers hk hwords, ih hks hfilter, hboth]
    rfl

theorem passes_name {name suffix : Bytes} (hname : IsName name) (hsuffix : IsIndirection suffix) {ks : List Bytes}
    (hks : ∀ k ∈ ks, k ∈ keywords)
    (h : ∀ k ∈ ks, ¬ (k <:+ name ∧ suffix.head? = some (ch ' '))) : passes ks (name ++ suffix) = name ++ suffix := by
  induction ks with
  | nil => rfl
  | cons k ks ih =>
    obtain ⟨hk, hks⟩ := List.forall_mem_cons.1 hks
    obtain ⟨hno, h⟩ := List.forall_mem_cons.1 h
    obtain ⟨hne, hword⟩ := keywords_names k hk
    show passes ks (eraseAll (erased k) (name ++ suffix)) = _
    rw [(eraseAll_name hne hword hname hsuffix).2 hno]
    exact ih hks h

theorem passes_shorter {n : Nat} {ks : List Bytes} (hks : ∀ k ∈ ks, k ∈ keywords) {text : Bytes} (h : Shorter n text) :
    Shorter n (passes ks text) := by
  induction ks generalizing text with
  | nil => exact h
  | cons k ks ih =>
    obtain ⟨hk, hks⟩ := List.forall_mem_cons.1 hks
    obtain ⟨hne, hword⟩ := keywords_names k hk
    exact ih hks (h.eraseAll hne hword)

/-- The pass of a keyword that the name ends with cuts it off. -/
theorem passes_cut {name suffix : Bytes} (hname : IsName name) (hsuffix : IsIndirection suffix) {ks : List Bytes}
    (hks : ∀ k ∈ ks, k ∈ keywords) (h : ∃ k ∈ ks, k <:+ name ∧ suffix.head? = some (ch ' ')) :
    Shorter name.length (passes ks (name ++ suffix)) := by
  induction ks with
  | nil =>
    obtain ⟨k, hk, -⟩ := h
    exact absurd hk List.not_mem_nil
  | cons k ks ih =>
    obtain ⟨hk, hks⟩ := List.forall_mem_cons.1 hks
    obtain ⟨hne, hword⟩ := keywords_names k hk
    obtain ⟨hcut, hkeep⟩ := eraseAll_name hne hword hname hsuffix
    show Shorter _ (passes ks (eraseAll (erased k) (name ++ suffix)))
    by_cases hhere : k <:+ name ∧ suffix.head? = some (ch ' ')
    · exact passes_shorter hks (hcut hhere)
    · rw [hkeep hhere]
      obtain ⟨k', hk', hends⟩ := h
      rcases List.mem_cons.1 hk' with rfl | hk'
      · exact absurd hends hhere
      · exact ih hks ⟨k', hk', hends⟩

theorem trimType_name {name suffix : Bytes} (hname : IsName name) (hsuffix : IsIndirection suffix) :
    trimType (name ++ suffix) = name := by
  have hend : trimEnd trimmed (name ++ suffix) = name := by
    have hall : ∀ c ∈ suffix.reverse, trimmed c = true := fun c hc =>
      trimmed_indirection hsuffix c (List.mem_reverse.1 hc)
    have hnone : name.reverse.dropWhile trimmed = name.reverse := by
      rcases List.eq_nil_or_concat name with rfl | ⟨start, last, rfl⟩
      · rfl
      · rw [List.concat_eq_append, List.reverse_append, List.reverse_singleton, List.singleton_append]
        exact List.dropWhile_cons_of_neg (by simp [hname last (by simp)])
    rw [trimEnd, List.reverse_append, List.dropWhile_append_of_pos hall, hnone, List.reverse_reverse]
  rw [trimType, hend]
  cases name with
  | nil => rfl
  | cons c name =>
    have hc := hname c List.mem_cons_self
    refine List.dropWhile_cons_of_neg ?_
    simp only [trimmed, Bool.or_eq_false_iff] at hc
    rw [hc.2]
    exact Bool.false_ne_true

/-- A name comes out unchanged unless it ends with a keyword and a blank follows it. -/
theorem normalizeType_eq_iff {words : List Bytes} (hwords : ∀ w ∈ words, w ∈ keywords) {name suffix : Bytes}
    (hname : IsName name) (hsuffix : IsIndirection suffix) :
    normalizeType (qualifiers words ++ (name ++ suffix)) = name ↔
      ¬ ∃ k ∈ keywords, k <:+ name ∧ suffix.head? = some (ch ' ') := by
  have hall : words.filter (· ∉ keywords) = [] := List.filter_eq_nil_iff.2 fun w hw => by simp [hwords w hw]
  rw [normalizeType_eq, passes_qualifiers (fun _ h => h) hwords, hall]
  show trimType (passes keywords (name ++ suffix)) = name ↔ _
  by_cases hcut : ∃ k ∈ keywords, k <:+ name ∧ suffix.head? = some (ch ' ')
  · obtain ⟨name', suffix', htext, hname', hsuffix', hless⟩ := passes_cut hname hsuffix (fun _ h => h) hcut
    rw [htext, trimType_name hname' hsuffix']
    refine iff_of_false ?_ (not_not.2 hcut)
    rintro rfl
    exact Nat.lt_irrefl _ hless
  · rw [passes_name hname hsuffix (fun _ h => h) fun k hk hends => hcut ⟨k, hk, hends⟩, trimType_name hname hsuffix]
    exact iff_of_true rfl hcut

theorem qualifiedPointer_normalized : (¬ ∃ k ∈ keywords, k <:+ lit "geo::Point" ∧ (lit " * &").head? = some (ch ' ')) ∧
    (normalizeType (qualifiers [lit "const", lit "struct"] ++ (lit "geo::Point" ++ lit " * &")) = lit "geo::Point" ↔
      ¬ ∃ k ∈ keywords, k <:+ lit "geo::Point" ∧ (lit " * &").head? = some (ch ' ')) := by
  have hwords : ∀ w ∈ [lit "const", lit "struct"], w ∈ keywords := by decide
  have hname : IsName (lit "geo::Point") := by
    unfold IsName
    decide
  have hsuffix : IsIndirection (lit " * &") := by
    unfold IsIndirection
    decide
  exact ⟨by decide, normalizeType_eq_iff hwords hname hsuffix⟩

/-- The class `Subclass` loses the end of its name where a pointer to it is normalized. -/
theorem subclassPointer_cut : IsName (lit "Subclass") ∧ IsIndirection (lit " *") ∧
    normalizeType (qualifiers [] ++ (lit "Subclass" ++ lit " *")) = lit "Sub" := by
  unfold IsName IsIndirection
  decide

end Ast

end CxxDead
