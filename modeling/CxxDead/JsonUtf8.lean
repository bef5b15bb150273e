import CxxDead.JsonParse
import CxxDead.Lib.Utf8
/-!
# The encoding of JSON strings

The strings of an accepted text are made of its raw bytes and of encoded escapes. Where the
text is well-formed UTF-8 they are too, unless a low surrogate is escaped on its own.

- `utf8_decode_iff`: one string.
- `Tree.strings_utf8`: the strings of a well-formed text.
- `parse_utf8_iff`: all strings and keys of a value.
-/

namespace CxxDead

open Lib

namespace Json

/-! ## Strings and keys -/

mutual

/-- The strings and the keys of a value. -/
def Value.strings : Value → List Bytes
  | .string s => [s]
  | .array values => stringsOfValues values
  | .object members => stringsOfMembers members
  | .null | .bool _ | .number _ => []

def stringsOfValues : List Value → List Bytes
  | [] => []
  | value :: values => value.strings ++ stringsOfValues values

def stringsOfMembers : List (Bytes × Value) → List Bytes
  | [] => []
  | (key, value) :: members => key :: value.strings ++ stringsOfMembers members

end

mutual

/-- The strings and the keys of a tree, as they are written. -/
def Tree.strings : Tree → List (List StringChar)
  | .string chars => [chars]
  | .array _ elements => elements.strings
  | .object _ members => members.strings
  | .literal _ | .number _ | .emptyArray _ | .emptyObject _ => []

def Elements.strings : Elements → List (List StringChar)
  | .last t _ => t.strings
  | .more t _ _ rest => t.strings ++ rest.strings

def Members.strings : Members → List (List StringChar)
  | .last key _ _ t _ => key :: t.strings
  | .more key _ _ t _ _ rest => key :: t.strings ++ rest.strings

end

theorem stringsOfMembers_eq (members : List (Bytes × Value)) :
    stringsOfMembers members = members.flatMap fun m => m.1 :: m.2.strings := by
  induction members with
  | nil => rfl
  | cons m members ih => rw [stringsOfMembers, ih, List.flatMap_cons]

section Convert
variable (fromChars : Bytes → Option ℚ)

mutual

theorem Tree.strings_value : ∀ t : Tree, (t.value fromChars).strings.Perm (t.strings.map decode)
  | .literal l => by cases l <;> exact .nil
  | .number n => .nil
  | .string chars => .refl _
  | .emptyArray w => .nil
  | .array w elements => Elements.strings_values elements
  | .emptyObject w => .nil
  | .object w members => by
    have hsorted : (sortOn (·.1) (members.pairs fromChars)).Perm (members.pairs fromChars) := sortOn_perm _ _
    rw [Tree.value, Value.strings, stringsOfMembers_eq]
    refine (hsorted.flatMap_right _).trans ?_
    rw [← stringsOfMembers_eq]
    exact Members.strings_pairs members

theorem Elements.strings_values : ∀ elements : Elements,
    (stringsOfValues (elements.values fromChars)).Perm (elements.strings.map decode)
  | .last t w => by
    rw [Elements.values, stringsOfValues, stringsOfValues, List.append_nil]
    exact Tree.strings_value t
  | .more t before after rest => by
    rw [Elements.values, stringsOfValues, Elements.strings, List.map_append]
    exact (Tree.strings_value t).append (Elements.strings_values rest)

theorem Members.strings_pairs : ∀ members : Members,
    (stringsOfMembers (members.pairs fromChars)).Perm (members.strings.map decode)
  | .last key colon value t w => by
    rw [Members.pairs, stringsOfMembers, stringsOfMembers, List.append_nil]
    exact (Tree.strings_value t).cons _
  | .more key colon value t before after rest => by
    rw [Members.pairs, stringsOfMembers, Members.strings, List.map_append]
    exact ((Tree.strings_value t).cons _).append (Members.strings_pairs rest)

end

end Convert

/-! ## One string -/

/-- A low surrogate is escaped with no high one in front of it. -/
def loneLow : List StringChar → Bool
  | [] => false
  | .unescaped _ _ :: s => loneLow s
  | .escape _ :: s => loneLow s
  | .unicode high :: .unicode low :: s =>
    if high.IsHigh ∧ low.IsLow then loneLow s else decide high.IsLow || loneLow (.unicode low :: s)
  | .unicode q :: s => decide q.IsLow || loneLow s

theorem loneLow_unicode {q : HexQuad} (h : ¬ q.IsHigh) (s : List StringChar) :
    loneLow (.unicode q :: s) = (decide q.IsLow || loneLow s) := by
  rcases s with _ | ⟨c, s⟩
  · rfl
  cases c with
  | unescaped c hc => rfl
  | escape e => rfl
  | unicode low => rw [loneLow, if_neg fun hpair => h hpair.1]

theorem utf8_scalar_append_iff {n : Nat} (h : n.isValidChar) {rest : Bytes} : Utf8 (utf8 n ++ rest) ↔ Utf8 rest := by
  have hchar : utf8 n = String.utf8EncodeChar (Char.ofNatAux n h) := utf8_char (Char.ofNatAux n h)
  rw [hchar, utf8_char_append_iff]

/-- A surrogate makes a text ill-formed. -/
theorem not_utf8_low {q : HexQuad} (h : q.IsLow) (rest : Bytes) : ¬ Utf8 (utf8 q.codePoint ++ rest) := by
  obtain ⟨hlow, hhigh⟩ := h
  have htext : utf8 q.codePoint =
      [0xED, (0x80 + q.codePoint / 2 ^ 6 % 2 ^ 6).toUInt8, (0x80 + q.codePoint % 2 ^ 6).toUInt8] := by
    rw [utf8, if_pos ⟨by omega, hhigh⟩]
  have hsecond : 0xA0 ≤ (0x80 + q.codePoint / 2 ^ 6 % 2 ^ 6).toUInt8 := by
    have hbyte : 0x80 + q.codePoint / 2 ^ 6 % 2 ^ 6 < UInt8.size := by
      show _ < 256
      omega
    rw [UInt8.le_iff_toNat_le, Nat.toUInt8_eq, UInt8.toNat_ofNat_of_lt' hbyte]
    show 160 ≤ _
    omega
  rw [htext]
  exact not_utf8_surrogate hsecond _

theorem ascii_byte (d : HexDigit) : d.byte < 0x80 := by
  obtain ⟨digit, upper⟩ := d
  revert digit
  cases upper <;> decide

theorem ascii_quad (q : HexQuad) : ∀ x ∈ q.text, x < 0x80 := by
  have hmap : q.text = [q.first, q.second, q.third, q.fourth].map HexDigit.byte := rfl
  rw [hmap, List.forall_mem_map]
  exact fun d _ => ascii_byte d

/-- What a string denotes, behind some of its raw bytes. -/
theorem utf8_decode_iff : ∀ {chars : List StringChar}, SurrogatesPaired chars → ∀ {front : Bytes},
    Utf8 (front ++ chars.flatMap StringChar.text) → (Utf8 (front ++ decode chars) ↔ loneLow chars = false)
  | [], _, front, h => iff_of_true h rfl
  | .unescaped c hc :: s, hpaired, front, h => by
    have hrest := (surrogatesPaired_cons_iff.1 hpaired).2
    have hassoc : ∀ rest : Bytes, front ++ c :: rest = front ++ [c] ++ rest := fun rest => by simp
    rw [List.flatMap_cons, StringChar.text, List.singleton_append, hassoc] at h
    rw [decode, loneLow, hassoc]
    exact utf8_decode_iff hrest h
  | .escape e :: s, hpaired, front, h => by
    have hrest := (surrogatesPaired_cons_iff.1 hpaired).2
    have hletter : e.letter < 0x80 := by cases e <;> decide
    have hcharacter : e.character < 0x80 := by cases e <;> decide
    rw [List.flatMap_cons] at h
    obtain ⟨hfront, htext⟩ := (utf8_split_iff (by decide)).1 h
    have htext : Utf8 ([] ++ s.flatMap StringChar.text) := (utf8_ascii_cons_iff hletter).1 htext
    rw [decode, loneLow, utf8_split_iff hcharacter, and_iff_right hfront]
    exact utf8_decode_iff hrest htext
  | .unicode q :: s, hpaired, front, h => by
    obtain ⟨hpair, hrest⟩ := surrogatesPaired_cons_iff.1 hpaired
    rw [List.flatMap_cons] at h
    obtain ⟨hfront, htext⟩ := (utf8_split_iff (by decide)).1 h
    have hquad : ∀ (q : HexQuad) (rest : Bytes), Utf8 (0x75 :: (q.text ++ rest)) → Utf8 ([] ++ rest) := by
      intro q rest h
      exact (utf8_ascii_append_iff (ascii_quad q)).1 ((utf8_ascii_cons_iff (by decide)).1 h)
    have htext := hquad q _ htext
    by_cases hhigh : q.IsHigh
    · obtain ⟨low, s, rfl, hlow⟩ := hpair q rfl hhigh
      have hrest := (surrogatesPaired_cons_iff.1 hrest).2
      rw [List.flatMap_cons, List.nil_append] at htext
      have htext := hquad low _ ((utf8_ascii_cons_iff (by decide)).1 htext)
      have hvalid : (combined q low).isValidChar := by
        right
        obtain ⟨h₁, h₂⟩ := hhigh
        obtain ⟨h₃, h₄⟩ := hlow
        unfold combined
        omega
      rw [decode_pair hhigh hlow, loneLow, if_pos ⟨hhigh, hlow⟩, utf8_append_iff hfront, utf8_scalar_append_iff hvalid]
      exact utf8_decode_iff hrest htext
    · rw [decode_unicode hhigh, loneLow_unicode hhigh, utf8_append_iff hfront]
      by_cases hlow : q.IsLow
      · rw [decide_eq_true hlow, Bool.true_or]
        exact iff_of_false (not_utf8_low hlow _) (by decide)
      · have hvalid : q.codePoint.isValidChar := by
          have hmax := q.codePoint_lt
          unfold HexQuad.IsHigh at hhigh
          unfold HexQuad.IsLow at hlow
          unfold Nat.isValidChar
          omega
        rw [decide_eq_false hlow, Bool.false_or, utf8_scalar_append_iff hvalid]
        exact utf8_decode_iff hrest htext
  termination_by chars => chars.length

/-! ## The strings of a text -/

theorem ascii_white (w : List White) : ∀ x ∈ whiteText w, x < 0x80 := by
  intro x hx
  obtain ⟨c, -, rfl⟩ := List.mem_map.1 hx
  cases c <;> decide

theorem ascii_digits (ds : List (Fin 10)) : ∀ x ∈ ds.map digitByte, x < 0x80 := by
  rw [List.forall_mem_map]
  have hdigit : ∀ d, digitByte d < 0x80 := by decide
  exact fun d _ => hdigit d

theorem ascii_number (n : NumberToken) : ∀ x ∈ n.text, x < 0x80 := by
  have hinteger : ∀ x ∈ n.integer.text, x < 0x80 := by
    cases n.integer with
    | zero => decide
    | digits first rest => exact ascii_digits (first.succ :: rest)
  have hfraction : ∀ x ∈ fractionText n.fraction, x < 0x80 := by
    cases n.fraction with
    | none => exact List.forall_mem_nil _
    | some digits => exact List.forall_mem_cons.2 ⟨by decide, ascii_digits (digits.first :: digits.rest)⟩
  have hexponent : ∀ x ∈ exponentText n.exponent, x < 0x80 := by
    cases n.exponent with
    | none => exact List.forall_mem_nil _
    | some e =>
      obtain ⟨upper, sign, digits⟩ := e
      have hletter : ∀ upper : Bool, (if upper then 0x45 else 0x65 : UInt8) < 0x80 := by decide
      have hsign : ∀ x ∈ sign.toList.map Sign.byte, x < 0x80 := by
        rcases sign with _ | sign
        · exact List.forall_mem_nil _
        · cases sign <;> decide
      have hdigits := ascii_digits (digits.first :: digits.rest)
      exact List.forall_mem_cons.2 ⟨hletter upper, List.forall_mem_append.2 ⟨hsign, hdigits⟩⟩
  have hminus : ∀ x ∈ (if n.negative then [0x2D] else [] : Bytes), x < 0x80 := by
    cases n.negative <;> decide
  simp only [NumberToken.text, List.forall_mem_append]
  exact ⟨⟨⟨hminus, hinteger⟩, hfraction⟩, hexponent⟩

theorem ascii_literal (l : Literal) : ∀ x ∈ l.text, x < 0x80 := by
  rcases l with _ | b
  · decide
  · cases b <;> decide

theorem utf8_white_iff (w : List White) {rest : Bytes} : Utf8 (whiteText w ++ rest) ↔ Utf8 rest :=
  utf8_ascii_append_iff (ascii_white w)

theorem utf8_stringText_iff {s : List StringChar} {rest : Bytes} :
    Utf8 (stringText s ++ rest) ↔ Utf8 (s.flatMap StringChar.text) ∧ Utf8 rest := by
  rw [stringText, List.cons_append, List.append_assoc, List.singleton_append, utf8_ascii_cons_iff (by decide),
    utf8_split_iff (by decide)]

mutual

/-- What stands between the quotation marks is well-formed where the whole text is. -/
theorem Tree.strings_utf8 : ∀ (t : Tree) {rest : Bytes}, Utf8 (t.text ++ rest) →
    (∀ chars ∈ t.strings, Utf8 (chars.flatMap StringChar.text)) ∧ Utf8 rest
  | .literal l, rest, h => ⟨List.forall_mem_nil _, (utf8_ascii_append_iff (ascii_literal l)).1 h⟩
  | .number n, rest, h => ⟨List.forall_mem_nil _, (utf8_ascii_append_iff (ascii_number n)).1 h⟩
  | .string s, rest, h => by
    obtain ⟨hs, hrest⟩ := utf8_stringText_iff.1 h
    exact ⟨List.forall_mem_singleton.2 hs, hrest⟩
  | .emptyArray w, rest, h => by
    rw [Tree.text, List.cons_append, List.append_assoc, utf8_ascii_cons_iff (by decide), utf8_white_iff] at h
    exact ⟨List.forall_mem_nil _, (utf8_ascii_cons_iff (by decide)).1 h⟩
  | .array w elements, rest, h => by
    rw [Tree.text, List.cons_append, List.append_assoc, utf8_ascii_cons_iff (by decide), utf8_white_iff,
      List.append_assoc] at h
    obtain ⟨hstrings, hrest⟩ := elements.strings_utf8 h
    exact ⟨hstrings, (utf8_ascii_cons_iff (by decide)).1 hrest⟩
  | .emptyObject w, rest, h => by
    rw [Tree.text, List.cons_append, List.append_assoc, utf8_ascii_cons_iff (by decide), utf8_white_iff] at h
    exact ⟨List.forall_mem_nil _, (utf8_ascii_cons_iff (by decide)).1 h⟩
  | .object w members, rest, h => by
    rw [Tree.text, List.cons_append, List.append_assoc, utf8_ascii_cons_iff (by decide), utf8_white_iff,
      List.append_assoc] at h
    obtain ⟨hstrings, hrest⟩ := members.strings_utf8 h
    exact ⟨hstrings, (utf8_ascii_cons_iff (by decide)).1 hrest⟩

theorem Elements.strings_utf8 : ∀ (elements : Elements) {rest : Bytes}, Utf8 (elements.text ++ rest) →
    (∀ chars ∈ elements.strings, Utf8 (chars.flatMap StringChar.text)) ∧ Utf8 rest
  | .last t w, rest, h => by
    rw [Elements.text, List.append_assoc] at h
    obtain ⟨hstrings, hrest⟩ := t.strings_utf8 h
    exact ⟨hstrings, (utf8_white_iff w).1 hrest⟩
  | .more t before after elements, rest, h => by
    rw [Elements.text, List.append_assoc, List.append_assoc, List.cons_append, List.append_assoc] at h
    obtain ⟨hstrings, hrest⟩ := t.strings_utf8 h
    rw [utf8_white_iff, utf8_ascii_cons_iff (by decide), utf8_white_iff] at hrest
    obtain ⟨hmore, hrest⟩ := elements.strings_utf8 hrest
    rw [Elements.strings, List.forall_mem_append]
    exact ⟨⟨hstrings, hmore⟩, hrest⟩

theorem Members.strings_utf8 : ∀ (members : Members) {rest : Bytes}, Utf8 (members.text ++ rest) →
    (∀ chars ∈ members.strings, Utf8 (chars.flatMap StringChar.text)) ∧ Utf8 rest
  | .last key colon value t w, rest, h => by
    rw [Members.text, List.append_assoc, utf8_stringText_iff, List.append_assoc, utf8_white_iff, List.cons_append,
      utf8_ascii_cons_iff (by decide), List.append_assoc, utf8_white_iff, List.append_assoc] at h
    obtain ⟨hstrings, hrest⟩ := t.strings_utf8 h.2
    exact ⟨List.forall_mem_cons.2 ⟨h.1, hstrings⟩, (utf8_white_iff w).1 hrest⟩
  | .more key colon value t before after members, rest, h => by
    rw [Members.text, List.append_assoc, utf8_stringText_iff, List.append_assoc, utf8_white_iff, List.cons_append,
      utf8_ascii_cons_iff (by decide), List.append_assoc, utf8_white_iff, List.append_assoc] at h
    obtain ⟨hstrings, hrest⟩ := t.strings_utf8 h.2
    rw [List.append_assoc, utf8_white_iff, List.cons_append, utf8_ascii_cons_iff (by decide), List.append_assoc,
      utf8_white_iff] at hrest
    obtain ⟨hmore, hrest⟩ := members.strings_utf8 hrest
    rw [Members.strings, List.cons_append, List.forall_mem_cons, List.forall_mem_append]
    exact ⟨⟨h.1, hstrings, hmore⟩, hrest⟩

end

section Convert
variable {fromChars : Bytes → Option ℚ}

mutual

theorem Tree.strings_paired : ∀ t : Tree, t.Admitted fromChars → ∀ chars ∈ t.strings, SurrogatesPaired chars
  | .literal l, _ => List.forall_mem_nil _
  | .number n, _ => List.forall_mem_nil _
  | .string s, h => by
    rw [Tree.Admitted] at h
    exact List.forall_mem_singleton.2 h
  | .emptyArray w, _ => List.forall_mem_nil _
  | .array w elements, h => by
    rw [Tree.Admitted] at h
    exact elements.strings_paired h
  | .emptyObject w, _ => List.forall_mem_nil _
  | .object w members, h => by
    rw [Tree.Admitted] at h
    exact members.strings_paired h.2

theorem Elements.strings_paired : ∀ elements : Elements, elements.Admitted fromChars →
    ∀ chars ∈ elements.strings, SurrogatesPaired chars
  | .last t w, h => by
    rw [Elements.Admitted] at h
    exact t.strings_paired h
  | .more t before after elements, h => by
    rw [Elements.Admitted] at h
    exact List.forall_mem_append.2 ⟨t.strings_paired h.1, elements.strings_paired h.2⟩

theorem Members.strings_paired : ∀ members : Members, members.Admitted fromChars →
    ∀ chars ∈ members.strings, SurrogatesPaired chars
  | .last key colon value t w, h => by
    rw [Members.Admitted] at h
    exact List.forall_mem_cons.2 ⟨h.1, t.strings_paired h.2⟩
  | .more key colon value t before after members, h => by
    rw [Members.Admitted] at h
    have hrest := List.forall_mem_append.2 ⟨t.strings_paired h.2.1, members.strings_paired h.2.2⟩
    exact List.forall_mem_cons.2 ⟨h.1, hrest⟩

end

/-! ## All strings of a value -/

/-- The strings and keys of an accepted well-formed text are well-formed where each escaped low
surrogate has the escape of a high one in front of it, and only there. -/
theorem parse_utf8_iff {input : Bytes} {v : Value} (h : parse fromChars input = .ok v) (hinput : Utf8 input) :
    ∃ d : Document, d.text = input ∧ d.Admitted fromChars ∧
      ((∀ s ∈ v.strings, Utf8 s) ↔ ∀ chars ∈ d.tree.strings, loneLow chars = false) := by
  obtain ⟨d, rfl, hd, rfl⟩ := document_of_parse h
  refine ⟨d, rfl, hd, ?_⟩
  have htext : Utf8 (d.tree.text ++ whiteText d.after) := (utf8_white_iff d.before).1 hinput
  have hraw := (d.tree.strings_utf8 htext).1
  have hpaired := d.tree.strings_paired hd
  have hstrings : ∀ s, s ∈ (d.value fromChars).strings ↔ s ∈ d.tree.strings.map decode := fun s =>
    (d.tree.strings_value fromChars).mem_iff
  simp only [hstrings, List.forall_mem_map]
  have hone : ∀ chars ∈ d.tree.strings, (Utf8 (decode chars) ↔ loneLow chars = false) := fun chars hchars =>
    @utf8_decode_iff chars (hpaired chars hchars) [] (hraw chars hchars)
  exact forall₂_congr hone

end Convert

/-- A string that is a whole document. -/
def stringDocument (chars : List StringChar) : Document := ⟨[], .string chars, []⟩

theorem parse_stringDocument {fromChars : Bytes → Option ℚ} {chars : List StringChar} (h : SurrogatesPaired chars) :
    parse fromChars (stringDocument chars).text = .ok (.string (decode chars)) :=
  @Document.parse_text fromChars (stringDocument chars) h

def hexDigitOf (n : Fin 16) : HexDigit := ⟨n, false⟩

/-- The two halves of `U+1D11E`. -/
def clefHigh : HexQuad := ⟨hexDigitOf 0xd, hexDigitOf 8, hexDigitOf 3, hexDigitOf 4⟩

def clefLow : HexQuad := ⟨hexDigitOf 0xd, hexDigitOf 0xd, hexDigitOf 1, hexDigitOf 0xe⟩

/-- A letter written raw in front of a character written as two escapes. -/
def clefChars : List StringChar :=
  [.unescaped 0xC3 (by decide), .unescaped 0xA9 (by decide), .unicode clefHigh, .unicode clefLow]

theorem clefChars_paired : SurrogatesPaired clefChars := by
  have hpair : ∃ low s', [StringChar.unicode clefLow] = .unicode low :: s' ∧ low.IsLow := ⟨clefLow, [], rfl, by decide⟩
  have hlow : ¬ clefLow.IsHigh := by decide
  unfold clefChars
  simp only [surrogatesPaired_cons_iff, surrogatesPaired_nil, reduceCtorEq, StringChar.unicode.injEq, forall_eq',
    IsEmpty.forall_iff, implies_true, true_and, and_true]
  exact ⟨fun _ => hpair, fun h => absurd h hlow⟩

theorem clef_utf8 : parse (fun _ => none) (lit "\"" ++ [0xC3, 0xA9] ++ lit "\\ud834\\udd1e\"") =
      .ok (.string [0xC3, 0xA9, 0xF0, 0x9D, 0x84, 0x9E]) ∧
    ∃ d : Document, d.text = lit "\"" ++ [0xC3, 0xA9] ++ lit "\\ud834\\udd1e\"" ∧ d.Admitted (fun _ => none) ∧
      ((∀ s ∈ (Value.string [0xC3, 0xA9, 0xF0, 0x9D, 0x84, 0x9E]).strings, Utf8 s) ↔
        ∀ chars ∈ d.tree.strings, loneLow chars = false) := by
  have htext : (stringDocument clefChars).text = lit "\"" ++ [0xC3, 0xA9] ++ lit "\\ud834\\udd1e\"" := by decide
  have hdecode : decode clefChars = [0xC3, 0xA9, 0xF0, 0x9D, 0x84, 0x9E] := by decide
  have hparse : parse (fun _ => none) (lit "\"" ++ [0xC3, 0xA9] ++ lit "\\ud834\\udd1e\"") =
      .ok (.string [0xC3, 0xA9, 0xF0, 0x9D, 0x84, 0x9E]) := by
    rw [← htext, ← hdecode]
    exact parse_stringDocument clefChars_paired
  have hinput : Utf8 (lit "\"" ++ [0xC3, 0xA9] ++ lit "\\ud834\\udd1e\"") :=
    ⟨['"', 'é', '\\', 'u', 'd', '8', '3', '4', '\\', 'u', 'd', 'd', '1', 'e', '"'], by decide⟩
  exact ⟨hparse, parse_utf8_iff hparse hinput⟩

/-- The first of the low surrogates. -/
def firstLow : HexQuad := ⟨hexDigitOf 0xd, hexDigitOf 0xc, hexDigitOf 0, hexDigitOf 0⟩

/-- The escape of a low surrogate alone becomes three bytes that encode no character. -/
theorem loneEscape_not_utf8 : parse (fun _ => none) (lit "\"\\udc00\"") = .ok (.string [0xED, 0xB0, 0x80]) ∧
    Utf8 (lit "\"\\udc00\"") ∧ ¬ ∀ s ∈ (Value.string [0xED, 0xB0, 0x80]).strings, Utf8 s := by
  have htext : (stringDocument [.unicode firstLow]).text = lit "\"\\udc00\"" := by decide
  have hdecode : decode [.unicode firstLow] = [0xED, 0xB0, 0x80] := by decide
  have hpaired : SurrogatesPaired [.unicode firstLow] := by
    have hlow : ¬ firstLow.IsHigh := by decide
    simp only [surrogatesPaired_cons_iff, surrogatesPaired_nil, StringChar.unicode.injEq, forall_eq', and_true]
    exact fun h => absurd h hlow
  refine ⟨?_, ⟨['"', '\\', 'u', 'd', 'c', '0', '0', '"'], by decide⟩, fun h => ?_⟩
  · rw [← htext, ← hdecode]
    exact parse_stringDocument hpaired
  · exact not_utf8_surrogate (by decide) [0x80] (h _ List.mem_cons_self)

end Json

end CxxDead
