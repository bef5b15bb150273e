import CxxDead.Json
import Mathlib.Data.List.TakeWhile
import Mathlib.Tactic.IntervalCases
/-!
# What the parser makes of printed JSON

- `parseString_quoted`: an escaped string comes back, whatever its bytes.
- `Printed`: a text that the parser reads as a value, wherever it stands. Strings,
  numbers, literals, arrays and objects are printed, with any white space between
  the parts.
- `escape_escapesTo`: an escaped string is printable, and nothing in it ends the literal.
-/

namespace CxxDead

open Lib

/-! ## Decimal numbers -/

theorem takeWhile_append_of_stop {α : Type} {p : α → Bool} {l : List α} {c : α} (hl : ∀ x ∈ l, p x = true)
    (hc : p c = false) (rest : List α) : (l ++ c :: rest).takeWhile p = l := by
  rw [List.takeWhile_append_of_pos hl, List.takeWhile_cons_of_neg (by simp [hc]), List.append_nil]

theorem decimal_digits (n : Nat) : ∀ c ∈ decimal n, Json.isDigit c = true := by
  unfold decimal
  split
  · exact List.all_eq_true.1 (by decide)
  · intro c hc
    obtain ⟨d, hd, rfl⟩ := List.mem_map.1 hc
    have hlt : d < 10 := Nat.digits_lt_base (by decide) (List.mem_reverse.1 hd)
    interval_cases d <;> decide

theorem decimal_ne_nil (n : Nat) : decimal n ≠ [] := by
  unfold decimal
  split
  · decide
  · rename_i hn
    simpa using Nat.digits_ne_nil_iff_ne_zero.2 hn

/-- The digits, read left to right, give the number back. -/
theorem decimal_value (n : Nat) : (decimal n).foldl (fun n c => 10 * n + (c.toNat - 48)) 0 = n := by
  unfold decimal
  split
  · rename_i hn
    rw [hn]
    rfl
  · rw [List.foldl_map, List.foldl_reverse]
    have hdigits : ∀ l : List Nat, (∀ d ∈ l, d < 10) →
        l.foldr (fun d n => 10 * n + ((ch '0' + d.toUInt8).toNat - 48)) 0 = Nat.ofDigits 10 l := by
      intro l hl
      induction l with
      | nil => rfl
      | cons d l ih =>
        have hd : (ch '0' + d.toUInt8).toNat - 48 = d := by
          have hlt := hl d (by simp)
          interval_cases d <;> rfl
        rw [List.foldr_cons, ih fun x hx => hl x (by simp [hx]), hd, Nat.ofDigits_cons]
        omega
    rw [hdigits _ fun d hd => Nat.digits_lt_base (by decide) hd, Nat.ofDigits_digits]

namespace Json

/-! ## Strings -/

theorem hexDigit_hexCharacter {d : Nat} (h : d < 16) : hexDigit (hexCharacter d) = some d := by
  interval_cases d <;> rfl

theorem parseHexQuad_low {c : Nat} (h : c < 32) (rest : Bytes) :
    parseHexQuad (ch '0' :: ch '0' :: hexCharacter (c / 16) :: hexCharacter (c % 16) :: rest) = .ok c rest := by
  have hhigh : hexDigit (hexCharacter (c / 16)) = some (c / 16) := hexDigit_hexCharacter (by omega)
  have hlow : hexDigit (hexCharacter (c % 16)) = some (c % 16) := hexDigit_hexCharacter (by omega)
  have hzero : hexDigit (ch '0') = some 0 := by decide
  have hdigits : parseHexDigits 4 0 (ch '0' :: ch '0' :: hexCharacter (c / 16) :: hexCharacter (c % 16) :: rest) =
      .ok c rest := by
    simp only [parseHexDigits, hzero, hhigh, hlow]
    show EStateM.Result.ok _ rest = _
    congr 1
    omega
  unfold parseHexQuad
  refine bind_ok_iff.2 ⟨_, _, rfl, ?_⟩
  rw [if_neg (by simp)]
  exact hdigits

theorem parseUnicode_low {c : Nat} (h : c < 32) (rest : Bytes) :
    parseUnicode (ch '0' :: ch '0' :: hexCharacter (c / 16) :: hexCharacter (c % 16) :: rest) = .ok c rest := by
  unfold parseUnicode
  refine bind_ok_iff.2 ⟨c, rest, parseHexQuad_low h rest, ?_⟩
  rw [if_neg (by omega)]
  rfl

/-- The parser's turn on a backslash and a letter. -/
theorem parseCharacters_simple (n : Nat) (result rest : Bytes) {letter c : UInt8} (hletter : letter ≠ ch 'u')
    (hc : simpleEscape letter = some c) :
    parseCharacters (n + 1) result (ch '\\' :: letter :: rest) = parseCharacters n (result ++ [c]) rest := by
  rw [parseCharacters]
  simp only [show ch '\\' ≠ ch '"' by decide, show ¬ ch '\\' < 0x20 by decide, ne_eq, not_true_eq_false, if_false,
    hletter, hc]

/-- One byte of an escaped string takes one turn. -/
theorem parseCharacters_escapeByte (n : Nat) (result rest : Bytes) (c : UInt8) :
    parseCharacters (n + 1) result (escapeByte c ++ rest) = parseCharacters n (result ++ [c]) rest := by
  unfold escapeByte
  split
  · rename_i h; rw [h]; exact parseCharacters_simple n result rest (by decide) (by decide)
  split
  · rename_i h; rw [h]; exact parseCharacters_simple n result rest (by decide) (by decide)
  split
  · rename_i h; rw [h]; exact parseCharacters_simple n result rest (by decide) (by decide)
  split
  · rename_i h; rw [h]; exact parseCharacters_simple n result rest (by decide) (by decide)
  split
  · rename_i h; rw [h]; exact parseCharacters_simple n result rest (by decide) (by decide)
  split
  · rename_i h; rw [h]; exact parseCharacters_simple n result rest (by decide) (by decide)
  split
  · rename_i h; rw [h]; exact parseCharacters_simple n result rest (by decide) (by decide)
  rename_i hquote hbackslash _ _ _ _ _
  split
  · rename_i hlow
    have hlt : c.toNat < 32 := UInt8.lt_iff_toNat_lt.1 hlow
    have hutf8 : appendUtf8 result c.toNat = result ++ [c] := by
      unfold appendUtf8
      rw [if_pos (by omega)]
      simp
    show parseCharacters (n + 1) result
      (ch '\\' :: ch 'u' :: ch '0' :: ch '0' :: hexCharacter (c.toNat / 16) :: hexCharacter (c.toNat % 16) :: rest) = _
    rw [parseCharacters]
    simp only [show ch '\\' ≠ ch '"' by decide, show ¬ ch '\\' < 0x20 by decide, ne_eq, not_true_eq_false, if_false,
      if_true]
    show EStateM.bind parseUnicode _ _ = _
    unfold EStateM.bind
    rw [parseUnicode_low hlt]
    simp only [hutf8]
  · rename_i hlow
    rw [List.singleton_append, parseCharacters]
    simp only [hquote, hlow, if_false, ne_eq, hbackslash, not_false_eq_true, if_true]

theorem parseCharacters_escape (s : Bytes) {n : Nat} (hn : s.length < n) (result rest : Bytes) :
    parseCharacters n result (escape s ++ ch '"' :: rest) = .ok (result ++ s) rest := by
  induction s generalizing n result with
  | nil =>
    obtain ⟨m, rfl⟩ := Nat.exists_eq_succ_of_ne_zero (Nat.ne_of_gt hn)
    rw [List.append_nil]
    rfl
  | cons c s ih =>
    obtain ⟨m, rfl⟩ := Nat.exists_eq_succ_of_ne_zero (Nat.ne_of_gt (Nat.lt_of_le_of_lt (Nat.zero_le _) hn))
    show parseCharacters (m + 1) result ((escapeByte c ++ escape s) ++ ch '"' :: rest) = _
    rw [List.append_assoc, parseCharacters_escapeByte, ih (by simpa using hn), List.append_assoc]
    rfl

theorem length_le_escape (s : Bytes) : s.length ≤ (escape s).length := by
  induction s with
  | nil => exact Nat.le_refl _
  | cons c s ih =>
    have hpos : 1 ≤ (escapeByte c).length := by
      unfold escapeByte
      repeat' split
      all_goals simp [lit]
    show s.length + 1 ≤ (escapeByte c ++ escape s).length
    rw [List.length_append]
    omega

/-- The parser reads an escaped string back. -/
theorem parseString_quoted (s rest : Bytes) : parseString (quoted s ++ rest) = .ok s rest := by
  have hopen : expect '"' (quoted s ++ rest) = .ok () (escape s ++ ch '"' :: rest) := by
    show expect '"' (ch '"' :: ((escape s ++ [ch '"']) ++ rest)) = _
    rw [List.append_assoc]
    rfl
  refine bind_ok_iff.2 ⟨(), _, hopen, bind_ok_iff.2 ⟨_, _, rfl, ?_⟩⟩
  refine parseCharacters_escape s ?_ [] rest
  have hle := length_le_escape s
  rw [List.length_append]
  omega

/-! ## Printed values -/

section Printed
variable (fromChars : Bytes → Option ℚ)

/-- What may follow a number. -/
def Stops (rest : Bytes) : Prop :=
  ∀ c ∈ rest.head?, isDigit c = false ∧ c ≠ ch '.' ∧ c ≠ ch 'e' ∧ c ≠ ch 'E'

/-- The parser reads `text` as `v` wherever it stands. -/
structure Printed (v : Value) (text : Bytes) : Prop where
  head : ∃ c rest, text = c :: rest ∧ isSpace c = false ∧ c ≠ ch ']'
  run : ∀ fuel rest, text.length < fuel → Stops rest → parseValue fromChars fuel (text ++ rest) = .ok v rest

variable {fromChars}

theorem skipSpace_run {w : Bytes} (hw : ∀ c ∈ w, isSpace c = true) {c : UInt8} (hc : isSpace c = false) (rest : Bytes) :
    skipSpace (w ++ c :: rest) = .ok () (c :: rest) := by
  show EStateM.Result.ok () ((w ++ c :: rest).dropWhile isSpace) = _
  rw [List.dropWhile_append_of_pos hw, List.dropWhile_cons_of_neg (by simp [hc])]

/-- The parser's first step on a text. -/
theorem parseValue_head {text rest : Bytes} {c : UInt8} (hc : isSpace c = false) (n : Nat) {v : Value}
    (h : (do
      match (← (get : Parser Bytes)) with
      | [] => fail "expected a value"
      | c :: _ =>
        if c = ch 'n' then parseLiteral "null" .null
        else if c = ch 't' then parseLiteral "true" (.bool true)
        else if c = ch 'f' then parseLiteral "false" (.bool false)
        else if c = ch '"' then
          let s ← parseString
          pure (.string s)
        else if c = ch '[' then
          expect '['
          skipSpace
          if ← consume ']' then pure (.array []) else parseElements fromChars n []
        else if c = 123 then
          expect (Char.ofNat 123)
          skipSpace
          if ← consume (Char.ofNat 125) then pure (.object []) else parseMembers fromChars n []
        else if c = ch '-' ∨ isDigit c = true then parseNumber fromChars
        else fail "invalid value" : Parser Value) (c :: text) = .ok v rest) :
    parseValue fromChars (n + 1) (c :: text) = .ok v rest := by
  rw [parseValue]
  exact bind_ok_iff.2 ⟨(), c :: text, skipSpace_run (w := []) (by simp) hc text, h⟩

theorem Printed.literal {literal : String} {v : Value} (h : ∀ rest, ∃ c more, lit literal = c :: more ∧
    isSpace c = false ∧ c ≠ ch ']' ∧ ∀ n, parseValue fromChars (n + 1) (lit literal ++ rest) = .ok v rest) :
    Printed fromChars v (lit literal) := by
  obtain ⟨c, more, hlit, hspace, hne, -⟩ := h []
  refine ⟨⟨c, more, hlit, hspace, hne⟩, fun fuel rest hfuel _ => ?_⟩
  obtain ⟨n, rfl⟩ := Nat.exists_eq_succ_of_ne_zero (Nat.ne_of_gt (Nat.lt_of_le_of_lt (Nat.zero_le _) hfuel))
  obtain ⟨-, -, -, -, -, hrun⟩ := h rest
  exact hrun n

theorem Printed.null : Printed fromChars .null (lit "null") :=
  .literal fun _ => ⟨_, _, rfl, by decide, by decide, fun n => parseValue_head (by decide) n rfl⟩

theorem Printed.bool (b : Bool) : Printed fromChars (.bool b) (if b then lit "true" else lit "false") := by
  cases b with
  | false => exact .literal fun _ => ⟨_, _, rfl, by decide, by decide, fun n => parseValue_head (by decide) n rfl⟩
  | true => exact .literal fun _ => ⟨_, _, rfl, by decide, by decide, fun n => parseValue_head (by decide) n rfl⟩

theorem Printed.string (s : Bytes) : Printed fromChars (.string s) (quoted s) := by
  refine ⟨⟨_, _, rfl, by decide, by decide⟩, fun fuel rest hfuel _ => ?_⟩
  obtain ⟨n, rfl⟩ := Nat.exists_eq_succ_of_ne_zero (Nat.ne_of_gt (Nat.lt_of_le_of_lt (Nat.zero_le _) hfuel))
  refine parseValue_head (by decide) n ?_
  refine bind_ok_iff.2 ⟨_, _, rfl, ?_⟩
  have hparse : parseString (ch '"' :: (escape s ++ [ch '"']) ++ rest) = .ok s rest := parseString_quoted s rest
  show (parseString >>= fun s => pure (Value.string s)) _ = _
  exact bind_ok_iff.2 ⟨s, rest, hparse, rfl⟩

/-! ### Numbers -/

theorem consume_other {expected : Char} {input : Bytes} (h : ∀ c ∈ input.head?, c ≠ ch expected) :
    consume expected input = .ok false input := by
  cases input with
  | nil => rfl
  | cons c rest =>
    show (if c = ch expected then _ else _) = _
    rw [if_neg (h c rfl)]

theorem parseFraction_none {rest : Bytes} (h : Stops rest) : parseFraction rest = .ok [] rest :=
  bind_ok_iff.2 ⟨false, rest, consume_other fun c hc => (h c hc).2.1, rfl⟩

theorem parseExponent_none {rest : Bytes} (h : Stops rest) : parseExponent rest = .ok [] rest := by
  cases rest with
  | nil => rfl
  | cons c rest =>
    obtain ⟨-, -, hlower, hupper⟩ := h c rfl
    show (if c = ch 'e' ∨ c = ch 'E' then _ else _) = _
    rw [if_neg (not_or.2 ⟨hlower, hupper⟩)]

theorem takeWhile_digits {digits rest : Bytes} (hdigits : ∀ c ∈ digits, isDigit c = true)
    (h : ∀ c ∈ rest.head?, isDigit c = false) : (digits ++ rest).takeWhile isDigit = digits := by
  cases rest with
  | nil => rw [List.append_nil, List.takeWhile_eq_self_iff.2 hdigits]
  | cons c rest => exact takeWhile_append_of_stop hdigits (h c rfl) rest

/-- A number that is not zero starts with another digit. -/
theorem decimal_head_ne_zero {n : Nat} (hn : n ≠ 0) : ∀ c ∈ (decimal n).head?, c ≠ ch '0' := by
  intro c hc
  have hne : Nat.digits 10 n ≠ [] := Nat.digits_ne_nil_iff_ne_zero.2 hn
  unfold decimal at hc
  rw [if_neg hn, List.head?_map, List.head?_reverse, List.getLast?_eq_some_getLast hne] at hc
  obtain rfl : ch '0' + ((Nat.digits 10 n).getLast hne).toUInt8 = c := by simpa using hc
  have hlt : (Nat.digits 10 n).getLast hne < 10 := Nat.digits_lt_base (by decide) (List.getLast_mem hne)
  have hlast := Nat.getLast_digit_ne_zero 10 hn
  generalize (Nat.digits 10 n).getLast hne = d at hlt hlast
  interval_cases d
  · exact absurd rfl hlast
  all_goals decide

theorem parseInteger_decimal (n : Nat) {rest : Bytes} (h : Stops rest) :
    parseInteger (decimal n ++ rest) = .ok (decimal n) rest := by
  by_cases hn : n = 0
  · subst hn
    exact bind_ok_iff.2 ⟨true, rest, rfl, rfl⟩
  · obtain ⟨c, more, hc⟩ := List.exists_cons_of_ne_nil (decimal_ne_nil n)
    have hzero := decimal_head_ne_zero hn
    refine bind_ok_iff.2 ⟨false, decimal n ++ rest, consume_other ?_, ?_⟩
    · rw [hc] at hzero ⊢
      exact hzero
    · show (if ((decimal n ++ rest).takeWhile isDigit) = [] then _ else _) = _
      rw [takeWhile_digits (decimal_digits n) fun c hc => (h c hc).1, if_neg (decimal_ne_nil n), List.drop_left]

theorem Printed.number {n : Nat} (hconvert : fromChars (decimal n) = some n) :
    Printed fromChars (.number n) (decimal n) := by
  obtain ⟨c, more, hc⟩ := List.exists_cons_of_ne_nil (decimal_ne_nil n)
  have hdigit : isDigit c = true := decimal_digits n c (by simp [hc])
  have hother : ∀ d : UInt8, isDigit d = false → c ≠ d := by
    rintro d hd rfl
    rw [hdigit] at hd
    cases hd
  have hspace : isSpace c = false := by
    by_contra h
    simp only [isSpace, Bool.not_eq_false, Bool.or_eq_true, beq_iff_eq] at h
    rcases h with ((rfl | rfl) | rfl) | rfl <;> exact absurd hdigit (by decide)
  refine ⟨⟨c, more, hc, hspace, hother _ (by decide)⟩, fun fuel rest hfuel hrest => ?_⟩
  obtain ⟨m, rfl⟩ := Nat.exists_eq_succ_of_ne_zero (Nat.ne_of_gt (Nat.lt_of_le_of_lt (Nat.zero_le _) hfuel))
  have hnumber : parseNumber fromChars (decimal n ++ rest) = .ok (.number n) rest := by
    refine bind_ok_iff.2 ⟨[], decimal n ++ rest, ?_, ?_⟩
    · refine bind_ok_iff.2 ⟨false, _, consume_other fun d hd => ?_, rfl⟩
      rw [hc, List.cons_append, List.head?_cons, Option.mem_def, Option.some.injEq] at hd
      exact hd ▸ hother _ (by decide)
    · refine bind_ok_iff.2 ⟨_, _, parseInteger_decimal n hrest, bind_ok_iff.2 ⟨_, _, parseFraction_none hrest,
        bind_ok_iff.2 ⟨_, _, parseExponent_none hrest, ?_⟩⟩⟩
      rw [List.nil_append, List.append_nil, List.append_nil, hconvert]
      rfl
  rw [hc, List.cons_append] at hnumber ⊢
  refine parseValue_head hspace m (bind_ok_iff.2 ⟨_, _, rfl, ?_⟩)
  simp only [hother (ch 'n') (by decide), hother (ch 't') (by decide), hother (ch 'f') (by decide),
    hother (ch '"') (by decide), hother (ch '[') (by decide), hother 123 (by decide), if_false, hdigit, or_true, if_true]
  exact hnumber

/-! ### Arrays -/

theorem stops_of {c : UInt8} (hdigit : isDigit c = false) (hdot : c ≠ ch '.') (hlower : c ≠ ch 'e') (hupper : c ≠ ch 'E')
    (rest : Bytes) : Stops (c :: rest) := by
  rintro d hd
  obtain rfl : c = d := by simpa using hd
  exact ⟨hdigit, hdot, hlower, hupper⟩

/-- A number stops at white space and at the character behind it. -/
theorem stops_white {close : Bytes} (hclose : ∀ c ∈ close, isSpace c = true) {rest : Bytes} (hrest : Stops rest) :
    Stops (close ++ rest) := by
  cases close with
  | nil => exact hrest
  | cons c close =>
    have hc : isSpace c = true := hclose c List.mem_cons_self
    simp only [isSpace, Bool.or_eq_true, beq_iff_eq] at hc
    rcases hc with ((rfl | rfl) | rfl) | rfl <;>
      exact stops_of (by decide) (by decide) (by decide) (by decide) _

theorem consume_same (expected : Char) (rest : Bytes) : consume expected (ch expected :: rest) = .ok true rest := by
  show (if ch expected = ch expected then _ else _) = _
  rw [if_pos rfl]

theorem expect_same (expected : Char) (rest : Bytes) : expect expected (ch expected :: rest) = .ok () rest :=
  bind_ok_iff.2 ⟨true, rest, consume_same expected rest, rfl⟩

/-- The turn of `parse_array` on its last element. -/
theorem parseElements_last {v : Value} {text close : Bytes} (h : Printed fromChars v text)
    (hclose : ∀ c ∈ close, isSpace c = true) {n : Nat} (hn : text.length < n) (result : List Value) (rest : Bytes) :
    parseElements fromChars (n + 1) result (text ++ (close ++ ch ']' :: rest)) = .ok (.array (result ++ [v])) rest := by
  rw [parseElements]
  exact bind_ok_iff.2 ⟨_, _, h.run n _ hn (stops_white hclose (stops_of (by decide) (by decide) (by decide) (by decide) _)),
    bind_ok_iff.2 ⟨_, _, skipSpace_run hclose (by decide) rest, bind_ok_iff.2 ⟨_, _, consume_same ']' rest, rfl⟩⟩⟩

/-- The turn of `parse_array` on an element with others behind it. -/
theorem parseElements_next {v : Value} {text close gap : Bytes} (h : Printed fromChars v text)
    (hclose : ∀ c ∈ close, isSpace c = true) (hgap : ∀ c ∈ gap, isSpace c = true) {n : Nat} (hn : text.length < n)
    (result : List Value) {c : UInt8} (hc : isSpace c = false) (rest : Bytes) :
    parseElements fromChars (n + 1) result (text ++ (close ++ ch ',' :: (gap ++ c :: rest))) =
      parseElements fromChars n (result ++ [v]) (c :: rest) := by
  have hstops : Stops (ch ',' :: (gap ++ c :: rest)) := stops_of (by decide) (by decide) (by decide) (by decide) _
  have hvalue := h.run n _ hn (stops_white hclose hstops)
  have hspace : skipSpace (close ++ ch ',' :: (gap ++ c :: rest)) = .ok () (ch ',' :: (gap ++ c :: rest)) :=
    skipSpace_run hclose (by decide) _
  have hconsume : consume ']' (ch ',' :: (gap ++ c :: rest)) = .ok false (ch ',' :: (gap ++ c :: rest)) := rfl
  have hexpect := expect_same ',' (gap ++ c :: rest)
  have hskip := skipSpace_run hgap hc rest
  rw [parseElements]
  exact (bind_of_ok hvalue).trans <| (bind_of_ok hspace).trans <| (bind_of_ok hconsume).trans <|
    (bind_of_ok hexpect).trans (bind_of_ok hskip)

/-- A list's text starts as its first part does. -/
theorem intercalate_cons_head («sep» : Bytes) (c : UInt8) (part : Bytes) (parts : List Bytes) (rest : Bytes) :
    ∃ more, «sep».intercalate ((c :: part) :: parts) ++ rest = c :: more := by
  cases parts with
  | nil => exact ⟨part ++ rest, by simp⟩
  | cons other parts => exact ⟨_, by rw [List.intercalate_cons_cons, List.cons_append, List.cons_append, List.cons_append]⟩

theorem Printed.intercalate_head {v : Value} {text : Bytes} (h : Printed fromChars v text) («sep» : Bytes)
    (texts : List Bytes) (rest : Bytes) :
    ∃ c more, «sep».intercalate (text :: texts) ++ rest = c :: more ∧ isSpace c = false ∧ c ≠ ch ']' := by
  obtain ⟨c, more, rfl, hspace, hne⟩ := h.head
  obtain ⟨more', hmore⟩ := intercalate_cons_head «sep» c more texts rest
  exact ⟨c, more', hmore, hspace, hne⟩

/-- The elements of an array, with `gap` behind the commas. -/
theorem parseElements_run {gap close : Bytes} (hgap : ∀ c ∈ gap, isSpace c = true) (hclose : ∀ c ∈ close, isSpace c = true)
    (item : Value × Bytes) (items : List (Value × Bytes)) (h : ∀ x ∈ item :: items, Printed fromChars x.1 x.2) {n : Nat}
    (hn : ((ch ',' :: gap).intercalate ((item :: items).map (·.2))).length < n) (result : List Value) (rest : Bytes) :
    parseElements fromChars (n + 1) result
        ((ch ',' :: gap).intercalate ((item :: items).map (·.2)) ++ (close ++ ch ']' :: rest)) =
      .ok (.array (result ++ (item :: items).map (·.1))) rest := by
  induction items generalizing item result n with
  | nil =>
    simp only [List.map_cons, List.map_nil, List.intercalate_singleton] at hn ⊢
    exact parseElements_last (h item (by simp)) hclose hn result rest
  | cons next items ih =>
    obtain ⟨c, more, hc, hspace, -⟩ := (h next (by simp)).intercalate_head (ch ',' :: gap) (items.map (·.2))
      (close ++ ch ']' :: rest)
    simp only [List.map_cons, List.intercalate_cons_cons, List.length_append, List.length_cons] at hn
    obtain ⟨m, rfl⟩ := Nat.exists_eq_succ_of_ne_zero (show n ≠ 0 by omega)
    have hrest := @ih next (fun x hx => h x (List.mem_cons_of_mem _ hx)) m
      (by simp only [List.map_cons]; omega) (result ++ [item.1])
    have hnext := @parseElements_next fromChars item.1 item.2 [] gap (h item (by simp)) (by simp) hgap (m + 1) (by omega)
      result c hspace more
    rw [List.map_cons, List.map_cons, List.intercalate_cons_cons, List.append_assoc, List.append_assoc, List.cons_append,
      hc]
    refine hnext.trans ?_
    rw [List.map_cons] at hrest
    rw [← hc, hrest, List.append_assoc]
    rfl

/-- An array's text: white space after the bracket, behind the commas and before the other bracket. -/
def arrayText («open» gap close : Bytes) (items : List Bytes) : Bytes :=
  ch '[' :: («open» ++ ((ch ',' :: gap).intercalate items ++ (close ++ [ch ']'])))

theorem Printed.array {«open» gap close : Bytes} (hopen : ∀ c ∈ «open», isSpace c = true)
    (hgap : ∀ c ∈ gap, isSpace c = true) (hclose : ∀ c ∈ close, isSpace c = true) (items : List (Value × Bytes))
    (h : ∀ x ∈ items, Printed fromChars x.1 x.2) :
    Printed fromChars (.array (items.map (·.1))) (arrayText «open» gap close (items.map (·.2))) := by
  refine ⟨⟨_, _, rfl, by decide, by decide⟩, fun fuel rest hfuel _ => ?_⟩
  obtain ⟨n, rfl⟩ := Nat.exists_eq_succ_of_ne_zero (Nat.ne_of_gt (Nat.lt_of_le_of_lt (Nat.zero_le _) hfuel))
  unfold arrayText at hfuel ⊢
  simp only [List.cons_append, List.append_assoc, List.length_cons, List.length_append, List.length_nil,
    List.nil_append] at hfuel ⊢
  refine parseValue_head (by decide) n ((bind_of_ok rfl).trans ?_)
  refine (bind_of_ok (expect_same '[' _)).trans ?_
  cases items with
  | nil =>
    have hskip : skipSpace («open» ++ (close ++ ch ']' :: rest)) = .ok () (ch ']' :: rest) := by
      rw [← List.append_assoc]
      exact skipSpace_run (fun c hc => (List.mem_append.1 hc).elim (hopen c) (hclose c)) (by decide) rest
    exact (bind_of_ok hskip).trans (bind_of_ok (consume_same ']' rest))
  | cons item items =>
    obtain ⟨c, more, hc, hspace, hne⟩ := (h item (by simp)).intercalate_head (ch ',' :: gap) (items.map (·.2))
      (close ++ ch ']' :: rest)
    obtain ⟨m, rfl⟩ := Nat.exists_eq_succ_of_ne_zero (show n ≠ 0 by omega)
    have hconsume : consume ']' (c :: more) = .ok false (c :: more) :=
      consume_other fun d hd => by simpa [← show c = d by simpa using hd] using hne
    have hrun := parseElements_run hgap hclose item items h (n := m) (by omega) [] rest
    rw [List.map_cons, hc] at hrun
    rw [List.map_cons, hc]
    exact (bind_of_ok (skipSpace_run hopen hspace more)).trans ((bind_of_ok hconsume).trans hrun)

/-! ### Objects -/

/-- A member of an object: its key, its value and the value's text. -/
structure Member where
  key : Bytes
  value : Value
  text : Bytes

def Member.line (m : Member) : Bytes := quoted m.key ++ (lit ": " ++ m.text)

/-- The members that `parse_object` collects. -/
def emplaceMembers (result : List (Bytes × Value)) (members : List (Bytes × Value)) : Option (List (Bytes × Value)) :=
  members.foldlM (fun result m => emplaceMember result m.1 m.2) result

/-- `parse_object` on a member, up to the white space behind the value. -/
theorem parseMembers_member {key keyText before after text : Bytes} {v : Value}
    (hkey : ∀ rest, parseString (keyText ++ rest) = .ok key rest) (hhead : ∃ more, keyText = ch '"' :: more)
    (hbefore : ∀ c ∈ before, isSpace c = true) (hafter : ∀ c ∈ after, isSpace c = true) (h : Printed fromChars v text)
    {n : Nat} (hn : text.length < n) {result result' : List (Bytes × Value)}
    (hm : emplaceMember result key v = some result') {rest : Bytes} (hrest : Stops rest) :
    parseMembers fromChars (n + 1) result (keyText ++ (before ++ ch ':' :: (after ++ (text ++ rest)))) =
      (do
        skipSpace
        if ← consume (Char.ofNat 125) then pure (.object result')
        else
          expect ','
          skipSpace
          parseMembers fromChars n result' : Parser Value) rest := by
  have hcolon := expect_same ':' (after ++ (text ++ rest))
  obtain ⟨c, more, hc, hspace, -⟩ := h.head
  have hvalue := h.run n rest hn hrest
  have hskip : skipSpace (after ++ (text ++ rest)) = .ok () (text ++ rest) := by
    rw [hc]
    exact skipSpace_run hafter hspace (more ++ rest)
  have hquote : ¬ (keyText ++ (before ++ ch ':' :: (after ++ (text ++ rest)))).head? ≠ some (ch '"') := by
    obtain ⟨more', hmore'⟩ := hhead
    rw [hmore']
    simp
  rw [parseMembers]
  refine (bind_of_ok rfl).trans ?_
  rw [if_neg hquote]
  refine (bind_of_ok (hkey _)).trans ?_
  refine (bind_of_ok (skipSpace_run hbefore (by decide) _)).trans ((bind_of_ok hcolon).trans ?_)
  refine (bind_of_ok hskip).trans ((bind_of_ok hvalue).trans ?_)
  rw [hm]

theorem parseMembers_value {m : Member} (h : Printed fromChars m.value m.text) {n : Nat} (hn : m.text.length < n)
    {result result' : List (Bytes × Value)} (hm : emplaceMember result m.key m.value = some result') {rest : Bytes}
    (hrest : Stops rest) :
    parseMembers fromChars (n + 1) result (m.line ++ rest) =
      (do
        skipSpace
        if ← consume (Char.ofNat 125) then pure (.object result')
        else
          expect ','
          skipSpace
          parseMembers fromChars n result' : Parser Value) rest := by
  unfold Member.line
  rw [List.append_assoc, List.append_assoc]
  exact @parseMembers_member fromChars m.key (quoted m.key) [] [ch ' '] m.text m.value (parseString_quoted m.key)
    ⟨_, rfl⟩ (by simp) (List.all_eq_true.1 (by decide)) h n hn _ _ hm rest hrest

theorem Member.line_head (m : Member) («sep» : Bytes) (texts : List Bytes) (rest : Bytes) :
    ∃ more, «sep».intercalate (m.line :: texts) ++ rest = ch '"' :: more :=
  intercalate_cons_head «sep» (ch '"') _ texts rest

/-- The members of an object, with `gap` behind the commas. -/
theorem parseMembers_run {gap close : Bytes} (hgap : ∀ c ∈ gap, isSpace c = true) (hclose : ∀ c ∈ close, isSpace c = true)
    (m : Member) (members : List Member) (h : ∀ x ∈ m :: members, Printed fromChars x.value x.text) {n : Nat}
    (hn : ((ch ',' :: gap).intercalate ((m :: members).map Member.line)).length < n) {result final : List (Bytes × Value)}
    (hfinal : emplaceMembers result ((m :: members).map fun x => (x.key, x.value)) = some final) (rest : Bytes) :
    parseMembers fromChars (n + 1) result
        ((ch ',' :: gap).intercalate ((m :: members).map Member.line) ++ (close ++ ch (Char.ofNat 125) :: rest)) =
      .ok (.object final) rest := by
  induction members generalizing m result n with
  | nil =>
    obtain ⟨result', hresult, hfinal⟩ := Option.bind_eq_some_iff.1 hfinal
    obtain rfl : result' = final := by simpa using hfinal
    simp only [List.map_cons, List.map_nil, List.intercalate_singleton, Member.line, List.length_append] at hn
    rw [List.map_cons, List.map_nil, List.intercalate_singleton, parseMembers_value (h m (by simp)) (by omega) hresult
      (stops_white hclose (stops_of (by decide) (by decide) (by decide) (by decide) _))]
    exact (bind_of_ok (skipSpace_run hclose (by decide) rest)).trans (bind_of_ok (consume_same _ rest))
  | cons next members ih =>
    obtain ⟨result', hresult, hfinal⟩ := Option.bind_eq_some_iff.1 hfinal
    obtain ⟨more, hmore⟩ := next.line_head (ch ',' :: gap) (members.map Member.line) (close ++ ch (Char.ofNat 125) :: rest)
    simp only [List.map_cons, List.intercalate_cons_cons, List.length_append, List.length_cons] at hn
    have hline : m.text.length ≤ m.line.length := by simp only [Member.line, List.length_append]; omega
    have hskip : skipSpace (ch ',' :: (gap ++ ch '"' :: more)) = .ok () (ch ',' :: (gap ++ ch '"' :: more)) :=
      skipSpace_run (w := []) (by simp) (by decide) _
    have hconsume : consume (Char.ofNat 125) (ch ',' :: (gap ++ ch '"' :: more)) =
        .ok false (ch ',' :: (gap ++ ch '"' :: more)) := rfl
    obtain ⟨k, rfl⟩ := Nat.exists_eq_succ_of_ne_zero (show n ≠ 0 by omega)
    have hrest := @ih next (fun x hx => h x (List.mem_cons_of_mem _ hx)) k (by simp only [List.map_cons]; omega)
      result' hfinal
    rw [List.map_cons, hmore] at hrest
    rw [List.map_cons, List.map_cons, List.intercalate_cons_cons, List.append_assoc, List.append_assoc, List.cons_append,
      hmore, parseMembers_value (h m (by simp)) (by omega) hresult
        (stops_of (by decide) (by decide) (by decide) (by decide) _)]
    exact (bind_of_ok hskip).trans <| (bind_of_ok hconsume).trans <| (bind_of_ok (expect_same ',' _)).trans <|
      (bind_of_ok (skipSpace_run hgap (by decide) more)).trans hrest

/-- An object's text, with white space as in `arrayText`. -/
def objectText («open» gap close : Bytes) (members : List Bytes) : Bytes :=
  ch (Char.ofNat 123) :: («open» ++ ((ch ',' :: gap).intercalate members ++ (close ++ [ch (Char.ofNat 125)])))

theorem Printed.object {«open» gap close : Bytes} (hopen : ∀ c ∈ «open», isSpace c = true)
    (hgap : ∀ c ∈ gap, isSpace c = true) (hclose : ∀ c ∈ close, isSpace c = true) (m : Member) (members : List Member)
    (h : ∀ x ∈ m :: members, Printed fromChars x.value x.text) {final : List (Bytes × Value)}
    (hfinal : emplaceMembers [] ((m :: members).map fun x => (x.key, x.value)) = some final) :
    Printed fromChars (.object final) (objectText «open» gap close ((m :: members).map Member.line)) := by
  refine ⟨⟨_, _, rfl, by decide, by decide⟩, fun fuel rest hfuel _ => ?_⟩
  obtain ⟨n, rfl⟩ := Nat.exists_eq_succ_of_ne_zero (Nat.ne_of_gt (Nat.lt_of_le_of_lt (Nat.zero_le _) hfuel))
  unfold objectText at hfuel ⊢
  simp only [List.cons_append, List.append_assoc, List.length_cons, List.length_append, List.length_nil,
    List.nil_append] at hfuel ⊢
  refine parseValue_head (by decide) n ((bind_of_ok rfl).trans ?_)
  refine (bind_of_ok (expect_same (Char.ofNat 123) _)).trans ?_
  obtain ⟨more, hmore⟩ := m.line_head (ch ',' :: gap) (members.map Member.line) (close ++ ch (Char.ofNat 125) :: rest)
  obtain ⟨k, rfl⟩ := Nat.exists_eq_succ_of_ne_zero (show n ≠ 0 by omega)
  have hconsume : consume (Char.ofNat 125) (ch '"' :: more) = .ok false (ch '"' :: more) := rfl
  have hrun := parseMembers_run hgap hclose m members h (n := k) (by omega) hfinal rest
  rw [List.map_cons, hmore] at hrun
  rw [List.map_cons, hmore]
  exact (bind_of_ok (skipSpace_run hopen (by decide) more)).trans ((bind_of_ok hconsume).trans hrun)

/-- A printed value, white space around it, is a document. -/
theorem Printed.parse_between {v : Value} {before text after : Bytes} (h : Printed fromChars v text)
    (hbefore : ∀ c ∈ before, isSpace c = true) (hafter : ∀ c ∈ after, isSpace c = true) :
    Json.parse fromChars (before ++ (text ++ after)) = .ok v := by
  obtain ⟨c, more, hc, hspace, -⟩ := h.head
  have hnothing : Stops [] := by simp [Stops]
  have hstops : Stops after := by simpa using stops_white hafter hnothing
  have hskip : skipSpace (before ++ (text ++ after)) = .ok () (text ++ after) := by
    rw [hc]
    exact skipSpace_run hbefore hspace (more ++ after)
  have hend : skipSpace after = .ok () [] := by
    show EStateM.Result.ok () (after.dropWhile isSpace) = _
    rw [List.dropWhile_eq_nil_iff.2 hafter]
  have hrun : parseDocument fromChars (2 * (before ++ (text ++ after)).length + 2) (before ++ (text ++ after)) = .ok v [] :=
    (bind_of_ok hskip).trans <|
      (bind_of_ok (h.run _ after (by rw [List.length_append, List.length_append]; omega) hstops)).trans <|
      (bind_of_ok hend).trans rfl
  unfold Json.parse
  rw [hrun]

theorem Printed.parse {v : Value} {text white : Bytes} (h : Printed fromChars v text)
    (hwhite : ∀ c ∈ white, isSpace c = true) : Json.parse fromChars (text ++ white) = .ok v :=
  @Printed.parse_between fromChars v [] text white h (by simp) hwhite

end Printed

/-! ## Escaped strings -/

/-- A quotation mark that no reverse solidus escapes; `escaped` says whether one does so in front of the text. -/
def hasQuote (escaped : Bool) : Bytes → Bool
  | [] => false
  | c :: rest =>
    if escaped then hasQuote false rest
    else if c = ch '\\' then hasQuote true rest
    else c == ch '"' || hasQuote false rest

theorem hasQuote_simple (letter : UInt8) (rest : Bytes) :
    hasQuote false (ch '\\' :: letter :: rest) = hasQuote false rest := by
  rw [hasQuote, if_neg Bool.false_ne_true, if_pos rfl, hasQuote, if_pos rfl]

theorem hasQuote_plain {c : UInt8} (hsolidus : c ≠ ch '\\') (hquote : c ≠ ch '"') (rest : Bytes) :
    hasQuote false (c :: rest) = hasQuote false rest := by
  rw [hasQuote, if_neg Bool.false_ne_true, if_neg hsolidus, beq_false_of_ne hquote, Bool.false_or]

theorem hexCharacter_plain {d : Nat} (h : d < 16) :
    hexCharacter d ≠ ch '\\' ∧ hexCharacter d ≠ ch '"' ∧ 0x20 ≤ hexCharacter d := by
  interval_cases d <;> decide

/-- The three kinds of what stands for a byte. -/
theorem escapeByte_cases (c : UInt8) :
    (∃ letter, escapeByte c = [ch '\\', letter] ∧ 0x20 ≤ letter) ∨
      (∃ high low, high < 16 ∧ low < 16 ∧ escapeByte c = lit "\\u00" ++ [hexCharacter high, hexCharacter low]) ∨
      (escapeByte c = [c] ∧ c ≠ ch '\\' ∧ c ≠ ch '"' ∧ 0x20 ≤ c) := by
  unfold escapeByte
  split
  · exact .inl ⟨_, rfl, by decide⟩
  split
  · exact .inl ⟨_, rfl, by decide⟩
  split
  · exact .inl ⟨_, rfl, by decide⟩
  split
  · exact .inl ⟨_, rfl, by decide⟩
  split
  · exact .inl ⟨_, rfl, by decide⟩
  split
  · exact .inl ⟨_, rfl, by decide⟩
  split
  · exact .inl ⟨_, rfl, by decide⟩
  rename_i hquote hsolidus _ _ _ _ _
  split
  · rename_i hlow
    have hlt : c.toNat < 32 := UInt8.lt_iff_toNat_lt.1 hlow
    exact .inr (.inl ⟨c.toNat / 16, c.toNat % 16, by omega, by omega, rfl⟩)
  · rename_i hlow
    exact .inr (.inr ⟨rfl, hsolidus, hquote, UInt8.not_lt.1 hlow⟩)

theorem hasQuote_escapeByte (c : UInt8) (rest : Bytes) : hasQuote false (escapeByte c ++ rest) = hasQuote false rest := by
  rcases escapeByte_cases c with ⟨letter, h, -⟩ | ⟨high, low, hhigh, hlow, h⟩ | ⟨h, hsolidus, hquote, -⟩
  · rw [h]
    exact hasQuote_simple letter rest
  · obtain ⟨hhs, hhq, -⟩ := hexCharacter_plain hhigh
    obtain ⟨hls, hlq, -⟩ := hexCharacter_plain hlow
    have hzero : ∀ rest, hasQuote false (ch '0' :: rest) = hasQuote false rest :=
      hasQuote_plain (by decide) (by decide)
    rw [h]
    show hasQuote false (ch '\\' :: ch 'u' :: ch '0' :: ch '0' :: hexCharacter high :: hexCharacter low :: rest) = _
    rw [hasQuote_simple, hzero, hzero, hasQuote_plain hhs hhq, hasQuote_plain hls hlq]
  · rw [h]
    exact hasQuote_plain hsolidus hquote rest

theorem hasQuote_escape (s : Bytes) : hasQuote false (escape s) = false := by
  induction s with
  | nil => rfl
  | cons c s ih =>
    show hasQuote false (escapeByte c ++ escape s) = false
    rw [hasQuote_escapeByte, ih]

theorem escapeByte_printable (c : UInt8) : ∀ x ∈ escapeByte c, 0x20 ≤ x := by
  rcases escapeByte_cases c with ⟨letter, h, hletter⟩ | ⟨high, low, hhigh, hlow, h⟩ | ⟨h, -, -, hc⟩
  · rw [h]
    exact List.forall_mem_cons.2 ⟨by decide, List.forall_mem_singleton.2 hletter⟩
  · rw [h, List.forall_mem_append]
    have hhex := List.forall_mem_cons.2 ⟨(hexCharacter_plain hhigh).2.2,
      List.forall_mem_singleton.2 (hexCharacter_plain hlow).2.2⟩
    exact ⟨by decide, hhex⟩
  · rw [h]
    exact List.forall_mem_singleton.2 hc

/-- What `json::escape` is for: between quotation marks its text is the string again, whatever the bytes. -/
structure EscapesTo (fromChars : Bytes → Option ℚ) (s text : Bytes) : Prop where
  parsed : Json.parse fromChars (ch '"' :: text ++ [ch '"']) = .ok (.string s)
  printable : ∀ c ∈ text, 0x20 ≤ c
  noQuote : hasQuote false text = false

theorem escape_escapesTo (fromChars : Bytes → Option ℚ) (s : Bytes) : EscapesTo fromChars s (escape s) := by
  refine ⟨?_, ?_, hasQuote_escape s⟩
  · have hprinted : Printed fromChars (.string s) (quoted s) := .string s
    have hparse := hprinted.parse (List.forall_mem_nil _)
    rwa [List.append_nil] at hparse
  · intro c hc
    obtain ⟨x, -, hmem⟩ := List.mem_flatMap.1 hc
    exact escapeByte_printable x c hmem

example : hasQuote false (lit "say \\\"hi\\\"") = false ∧ hasQuote false (lit "\\\\\"") = true := by decide

/-! ## Members by key -/

theorem emplaceMember_new {members : List (Bytes × Value)} {key : Bytes} (value : Value)
    (hnew : key ∉ members.map (·.1)) : ∃ result, emplaceMember members key value = some result ∧
      result.Perm ((key, value) :: members) := by
  induction members with
  | nil => exact ⟨_, rfl, .refl _⟩
  | cons m members ih =>
    obtain ⟨k, v⟩ := m
    simp only [List.map_cons, List.mem_cons, not_or] at hnew
    unfold emplaceMember
    split
    · exact ⟨_, rfl, .refl _⟩
    · rw [if_neg hnew.1]
      obtain ⟨result, hresult, hperm⟩ := ih hnew.2
      exact ⟨_, by rw [hresult]; rfl, (hperm.cons _).trans (.swap _ _ _)⟩

/-- Members with distinct keys are all kept. -/
theorem emplaceMembers_nodup (members result : List (Bytes × Value))
    (hnodup : ((result ++ members).map (·.1)).Nodup) :
    ∃ final, emplaceMembers result members = some final ∧ final.Perm (result ++ members) := by
  induction members generalizing result with
  | nil => exact ⟨result, rfl, by simp⟩
  | cons m members ih =>
    have hnew : m.1 ∉ result.map (·.1) := by
      rw [List.map_append, List.map_cons] at hnodup
      exact fun hmem => (List.nodup_append'.1 hnodup).2.2 hmem List.mem_cons_self
    obtain ⟨result', hresult, hperm⟩ := emplaceMember_new m.2 hnew
    have hswap : (result' ++ members).Perm (result ++ m :: members) :=
      (hperm.append_right members).trans List.perm_middle.symm
    obtain ⟨final, hfinal, hperm'⟩ := ih result' ((hswap.map _).nodup_iff.2 hnodup)
    exact ⟨final, Option.bind_eq_some_iff.2 ⟨result', hresult, hfinal⟩, hperm'.trans hswap⟩

end Json

end CxxDead
