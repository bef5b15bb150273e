import CxxDead.JsonGrammar
import CxxDead.JsonText
import Mathlib.Data.Set.List
/-!
# The tokens that the parser reads

For white space, numbers and strings: what the parser has read is a token of the
grammar, and a token of the grammar is read whole.

- `parseString_ok_iff`: strings, their escapes and their surrogates.
- `parseNumber_ok`, `parseNumber_text`: number tokens, up to what may follow one.
- `appendUtf8_eq`: what is appended for a code point is its UTF-8.
-/

namespace CxxDead

open Lib

namespace Json

/-! ## White space and single characters -/

theorem whiteText_isSpace (w : List White) : ∀ c ∈ whiteText w, isSpace c = true := by
  intro c hc
  obtain ⟨x, -, rfl⟩ := List.mem_map.1 hc
  cases x <;> rfl

theorem exists_white {c : UInt8} (h : isSpace c = true) : ∃ x : White, x.byte = c := by
  simp only [isSpace, Bool.or_eq_true, beq_iff_eq] at h
  rcases h with ((rfl | rfl) | rfl) | rfl
  · exact ⟨.space, rfl⟩
  · exact ⟨.tab, rfl⟩
  · exact ⟨.lineFeed, rfl⟩
  · exact ⟨.carriageReturn, rfl⟩

/-- A list whose members are all values of `f`. -/
theorem exists_map {α : Type} {f : α → UInt8} {l : Bytes} (h : ∀ c ∈ l, ∃ a, f a = c) :
    ∃ l' : List α, l'.map f = l := by
  have hrange : l ∈ Set.range (List.map f) := by
    rw [Set.range_list_map]
    exact h
  exact hrange

theorem skipSpace_ok {input rest : Bytes} (h : skipSpace input = .ok () rest) : ∃ w, input = whiteText w ++ rest := by
  obtain rfl : input.dropWhile isSpace = rest := (EStateM.Result.ok.inj h).2
  obtain ⟨w, hw⟩ := exists_map (l := input.takeWhile isSpace) fun c hc => exists_white (List.mem_takeWhile_imp hc)
  exact ⟨w, by rw [whiteText, hw, List.takeWhile_append_dropWhile]⟩

theorem consume_ok {expected : Char} {input rest : Bytes} {b : Bool} (h : consume expected input = .ok b rest) :
    (b = true ∧ input = ch expected :: rest) ∨ (b = false ∧ input = rest ∧ ∀ c ∈ rest.head?, c ≠ ch expected) := by
  cases input with
  | nil =>
    cases h
    exact .inr ⟨rfl, rfl, by simp⟩
  | cons c input =>
    change (if c = ch expected then EStateM.Result.ok true input else .ok false (c :: input)) = _ at h
    split at h
    · rename_i hc
      cases h
      exact .inl ⟨rfl, by rw [hc]⟩
    · rename_i hc
      cases h
      refine .inr ⟨rfl, rfl, fun d hd => ?_⟩
      obtain rfl : c = d := by simpa using hd
      exact hc

theorem expect_ok {expected : Char} {input rest : Bytes} (h : expect expected input = .ok () rest) :
    input = ch expected :: rest := by
  obtain ⟨b, s, hconsume, hrest⟩ := bind_ok_iff.1 h
  rcases consume_ok hconsume with ⟨rfl, rfl⟩ | ⟨rfl, -, -⟩
  · obtain rfl : s = rest := (EStateM.Result.ok.inj hrest).2
    rfl
  · cases hrest

/-! ## Numbers -/

/-- What `m` returns is the text of some token, and is what it has read. -/
def Spells {τ : Type} (m : Parser Bytes) (text : τ → Bytes) : Prop :=
  ∀ ⦃input s rest⦄, m input = .ok s rest → ∃ t, s = text t ∧ input = text t ++ rest

/-- What may follow a run of digits. -/
def NoDigit (rest : Bytes) : Prop := ∀ c ∈ rest.head?, isDigit c = false

theorem digitByte_isDigit (d : Fin 10) : isDigit (digitByte d) = true := by
  revert d
  decide

theorem exists_digitByte {c : UInt8} (h : isDigit c = true) : ∃ d, digitByte d = c := by
  simp only [isDigit, Bool.and_eq_true, decide_eq_true_eq, UInt8.le_iff_toNat_le] at h
  have hlow : 48 ≤ c.toNat := h.1
  have hhigh : c.toNat ≤ 57 := h.2
  refine ⟨⟨c.toNat - 48, by omega⟩, UInt8.toNat_inj.1 ?_⟩
  simp only [digitByte, UInt8.toNat_add, UInt8.toNat_ofNat', Nat.toUInt8]
  show (48 + (c.toNat - 48) % 256) % 256 = c.toNat
  omega

theorem digits_isDigit (ds : List (Fin 10)) : ∀ c ∈ ds.map digitByte, isDigit c = true := by
  intro c hc
  obtain ⟨d, -, rfl⟩ := List.mem_map.1 hc
  exact digitByte_isDigit d

theorem exists_digits {l : Bytes} (h : ∀ c ∈ l, isDigit c = true) : ∃ ds : List (Fin 10), ds.map digitByte = l :=
  exists_map fun c hc => exists_digitByte (h c hc)

theorem parseDigits_ok {message : String} {input s rest : Bytes} (h : parseDigits message input = .ok s rest) :
    ∃ first ds, s = (first :: ds).map digitByte ∧ input = s ++ rest := by
  obtain ⟨ds, hds⟩ := exists_digits fun c (hc : c ∈ input.takeWhile isDigit) => List.mem_takeWhile_imp hc
  change (if input.takeWhile isDigit = [] then _ else _) = _ at h
  split at h
  · cases h
  · rename_i hne
    cases h
    have hds' : ds ≠ [] := by
      rintro rfl
      exact hne hds.symm
    obtain ⟨first, ds', rfl⟩ := List.exists_cons_of_ne_nil hds'
    refine ⟨first, ds', hds.symm, ?_⟩
    exact (List.prefix_iff_eq_append.1 (List.takeWhile_prefix isDigit)).symm

theorem parseDigits_spells (message : String) : Spells (parseDigits message) Digits.text := by
  intro input s rest h
  obtain ⟨first, ds, rfl, rfl⟩ := parseDigits_ok h
  exact ⟨⟨first, ds⟩, rfl, rfl⟩

theorem parseDigits_run (message : String) (first : Fin 10) (ds : List (Fin 10)) {rest : Bytes} (hrest : NoDigit rest) :
    parseDigits message ((first :: ds).map digitByte ++ rest) = .ok ((first :: ds).map digitByte) rest := by
  show (if ((first :: ds).map digitByte ++ rest).takeWhile isDigit = [] then _ else _) = _
  rw [takeWhile_digits (digits_isDigit _) hrest, if_neg (by simp), List.drop_left]

theorem parseInteger_spells : Spells parseInteger IntPart.text := by
  intro input s rest h
  obtain ⟨b, input', hconsume, hnext⟩ := bind_ok_iff.1 h
  rcases consume_ok hconsume with ⟨rfl, rfl⟩ | ⟨rfl, rfl, hhead⟩
  · cases hnext
    exact ⟨.zero, rfl, rfl⟩
  · obtain ⟨first, ds, rfl, rfl⟩ := parseDigits_ok hnext
    have hfirst : first ≠ 0 := by
      rintro rfl
      exact hhead _ rfl rfl
    obtain ⟨nonzero, rfl⟩ := Fin.exists_succ_eq.2 hfirst
    exact ⟨.digits nonzero ds, rfl, rfl⟩

theorem parseInteger_run (i : IntPart) {rest : Bytes} (hrest : NoDigit rest) :
    parseInteger (i.text ++ rest) = .ok i.text rest := by
  cases i with
  | zero => rfl
  | digits first ds =>
    refine (bind_of_ok (consume_other fun c hc => ?_)).trans (parseDigits_run _ first.succ ds hrest)
    have hne : ∀ d : Fin 9, digitByte d.succ ≠ ch '0' := by decide
    obtain rfl : digitByte first.succ = c := by simpa [IntPart.text] using hc
    exact hne first

theorem parseFraction_spells : Spells parseFraction fractionText := by
  intro input s rest h
  obtain ⟨b, input', hconsume, hnext⟩ := bind_ok_iff.1 h
  rcases consume_ok hconsume with ⟨rfl, rfl⟩ | ⟨rfl, rfl, -⟩
  · obtain ⟨ds, rest', hdigits, hend⟩ := bind_ok_iff.1 hnext
    obtain ⟨d, rfl, rfl⟩ := parseDigits_spells _ hdigits
    cases hend
    exact ⟨some d, rfl, rfl⟩
  · cases hnext
    exact ⟨none, rfl, rfl⟩

theorem parseFraction_run (f : Option Digits) {rest : Bytes} (hrest : NoDigit rest)
    (hdot : ∀ c ∈ rest.head?, c ≠ ch '.') : parseFraction (fractionText f ++ rest) = .ok (fractionText f) rest := by
  cases f with
  | none => exact (bind_of_ok (consume_other hdot)).trans rfl
  | some d =>
    have hdigits := parseDigits_run "invalid fractional part" d.first d.rest hrest
    exact (bind_of_ok (consume_same '.' _)).trans ((bind_of_ok hdigits).trans rfl)

theorem parseSign_spells : Spells parseSign fun sign : Option Sign => sign.toList.map Sign.byte := by
  intro input s rest h
  cases input with
  | nil =>
    cases h
    exact ⟨none, rfl, rfl⟩
  | cons c input =>
    change (if c = ch '+' ∨ c = ch '-' then EStateM.Result.ok [c] input else .ok [] (c :: input)) = _ at h
    split at h
    · rename_i hc
      cases h
      rcases hc with rfl | rfl
      · exact ⟨some .plus, rfl, rfl⟩
      · exact ⟨some .minus, rfl, rfl⟩
    · cases h
      exact ⟨none, rfl, rfl⟩

theorem parseSign_run (sign : Option Sign) (d : Digits) (rest : Bytes) :
    parseSign (sign.toList.map Sign.byte ++ (d.text ++ rest)) = .ok (sign.toList.map Sign.byte) (d.text ++ rest) := by
  cases sign with
  | some sign => cases sign <;> rfl
  | none =>
    have hfirst : ∀ first : Fin 10, ¬ (digitByte first = ch '+' ∨ digitByte first = ch '-') := by decide
    show (if digitByte d.first = ch '+' ∨ digitByte d.first = ch '-' then _ else _) = _
    rw [if_neg (hfirst _)]
    rfl

theorem parseExponent_spells : Spells parseExponent exponentText := by
  intro input s rest h
  cases input with
  | nil =>
    cases h
    exact ⟨none, rfl, rfl⟩
  | cons c input =>
    change (if c = ch 'e' ∨ c = ch 'E' then (do
        let sign ← parseSign
        let digits ← parseDigits "invalid exponent"
        pure (c :: sign ++ digits) : Parser Bytes) input else .ok [] (c :: input)) = _ at h
    split at h
    · rename_i hc
      obtain ⟨sign, input', hsign, hnext⟩ := bind_ok_iff.1 h
      obtain ⟨ds, rest', hdigits, hend⟩ := bind_ok_iff.1 hnext
      obtain ⟨sign, rfl, rfl⟩ := parseSign_spells hsign
      obtain ⟨d, rfl, rfl⟩ := parseDigits_spells _ hdigits
      cases hend
      rcases hc with rfl | rfl
      · exact ⟨some ⟨false, sign, d⟩, rfl, by simp [exponentText, Exponent.text]; rfl⟩
      · exact ⟨some ⟨true, sign, d⟩, rfl, by simp [exponentText, Exponent.text]; rfl⟩
    · cases h
      exact ⟨none, rfl, rfl⟩

theorem parseExponent_run (e : Option Exponent) {rest : Bytes} (hrest : Stops rest) :
    parseExponent (exponentText e ++ rest) = .ok (exponentText e) rest := by
  cases e with
  | none => exact parseExponent_none hrest
  | some e =>
    obtain ⟨upper, sign, d⟩ := e
    have hletter : (if upper then 0x45 else 0x65 : UInt8) = ch 'e' ∨ (if upper then 0x45 else 0x65 : UInt8) = ch 'E' := by
      cases upper
      · exact .inl rfl
      · exact .inr rfl
    have hdigits := parseDigits_run "invalid exponent" d.first d.rest fun c hc => (hrest c hc).1
    rw [exponentText, Exponent.text, List.cons_append, List.append_assoc]
    show (if _ then _ else _) = _
    rw [if_pos hletter]
    exact (bind_of_ok (parseSign_run sign d rest)).trans ((bind_of_ok hdigits).trans rfl)

def minusText (negative : Bool) : Bytes := if negative then [0x2D] else []

theorem parseMinus_spells : Spells parseMinus minusText := by
  intro input s rest h
  obtain ⟨b, input', hconsume, hnext⟩ := bind_ok_iff.1 h
  rcases consume_ok hconsume with ⟨rfl, rfl⟩ | ⟨rfl, rfl, -⟩
  · obtain ⟨left, input'', hget, hend⟩ := bind_ok_iff.1 hnext
    cases hget
    split at hend
    · cases hend
    · cases hend
      exact ⟨true, rfl, rfl⟩
  · cases hnext
    exact ⟨false, rfl, rfl⟩

theorem parseMinus_run (negative : Bool) {rest : Bytes} (hrest : ∃ c more, rest = c :: more ∧ c ≠ ch '-') :
    parseMinus (minusText negative ++ rest) = .ok (minusText negative) rest := by
  obtain ⟨c, more, rfl, hc⟩ := hrest
  cases negative with
  | true => rfl
  | false => exact (bind_of_ok (consume_other fun d hd => by simpa [← show c = d by simpa [minusText] using hd])).trans rfl

theorem IntPart.head (i : IntPart) : ∃ d more, i.text = digitByte d :: more := by
  cases i with
  | zero => exact ⟨0, [], rfl⟩
  | digits first ds => exact ⟨first.succ, _, rfl⟩

theorem exponentText_stops (e : Option Exponent) {rest : Bytes} (hrest : Stops rest) :
    ∀ c ∈ (exponentText e ++ rest).head?, isDigit c = false ∧ c ≠ ch '.' := by
  intro c hc
  cases e with
  | none => exact ⟨(hrest c hc).1, (hrest c hc).2.1⟩
  | some e =>
    obtain ⟨upper, sign, d⟩ := e
    obtain rfl : (if upper then 0x45 else 0x65) = c := by simpa [exponentText, Exponent.text] using hc
    cases upper <;> decide

theorem fractionText_noDigit (f : Option Digits) {rest : Bytes} (hrest : NoDigit rest) :
    NoDigit (fractionText f ++ rest) := by
  cases f with
  | none => exact hrest
  | some d =>
    intro c hc
    obtain rfl : (0x2E : UInt8) = c := by simpa [fractionText] using hc
    decide

section Convert
variable {fromChars : Bytes → Option ℚ}

theorem parseNumber_ok {input rest : Bytes} {v : Value} (h : parseNumber fromChars input = .ok v rest) :
    ∃ n : NumberToken, ∃ number, input = n.text ++ rest ∧ fromChars n.text = some number ∧ v = .number number := by
  obtain ⟨minus, input₁, hminus, h₁⟩ := bind_ok_iff.1 h
  obtain ⟨integer, input₂, hinteger, h₂⟩ := bind_ok_iff.1 h₁
  obtain ⟨fraction, input₃, hfraction, h₃⟩ := bind_ok_iff.1 h₂
  obtain ⟨exponent, input₄, hexponent, h₄⟩ := bind_ok_iff.1 h₃
  obtain ⟨negative, rfl, rfl⟩ := parseMinus_spells hminus
  obtain ⟨i, rfl, rfl⟩ := parseInteger_spells hinteger
  obtain ⟨f, rfl, rfl⟩ := parseFraction_spells hfraction
  obtain ⟨e, rfl, rfl⟩ := parseExponent_spells hexponent
  cases hnumber : fromChars (minusText negative ++ i.text ++ fractionText f ++ exponentText e) with
  | none =>
    rw [hnumber] at h₄
    cases h₄
  | some number =>
    rw [hnumber] at h₄
    cases h₄
    exact ⟨⟨negative, i, f, e⟩, number, by simp [NumberToken.text, minusText], hnumber, rfl⟩

theorem parseNumber_run {n : NumberToken} {number : ℚ} (hn : fromChars n.text = some number) {rest : Bytes}
    (hrest : Stops rest) : parseNumber fromChars (n.text ++ rest) = .ok (.number number) rest := by
  obtain ⟨negative, i, f, e⟩ := n
  have hexponent := exponentText_stops e hrest
  have hfraction : NoDigit (fractionText f ++ (exponentText e ++ rest)) :=
    fractionText_noDigit f fun c hc => (hexponent c hc).1
  obtain ⟨d, more, hd⟩ := i.head
  have hminus : ∀ d : Fin 10, digitByte d ≠ ch '-' := by decide
  show parseNumber fromChars (minusText negative ++ i.text ++ fractionText f ++ exponentText e ++ rest) = _
  rw [List.append_assoc, List.append_assoc, List.append_assoc]
  refine (bind_of_ok (parseMinus_run negative ⟨_, _, by rw [hd, List.cons_append], hminus d⟩)).trans ?_
  refine (bind_of_ok (parseInteger_run i hfraction)).trans ?_
  refine (bind_of_ok (parseFraction_run f (fun c hc => (hexponent c hc).1) fun c hc => (hexponent c hc).2)).trans ?_
  refine (bind_of_ok (parseExponent_run e hrest)).trans ?_
  change fromChars (minusText negative ++ i.text ++ fractionText f ++ exponentText e) = _ at hn
  rw [hn]
  rfl

end Convert

/-! ## Strings -/

theorem HexDigit.hexDigit_byte (d : HexDigit) : hexDigit d.byte = some d.digit.val := by
  have h : ∀ (digit : Fin 16) (upper : Bool), hexDigit (HexDigit.byte ⟨digit, upper⟩) = some digit.val := by decide
  exact h d.digit d.upper

theorem exists_hexDigit {c : UInt8} {n : Nat} (h : hexDigit c = some n) : ∃ d : HexDigit, d.byte = c ∧ d.digit.val = n := by
  unfold hexDigit at h
  split at h
  · rename_i hdigit
    obtain ⟨d, rfl⟩ := exists_digitByte hdigit
    obtain rfl : (digitByte d).toNat - 48 = n := by simpa using h
    refine ⟨⟨d.castLE (by decide), false⟩, ?_⟩
    revert d
    decide
  split at h
  · rename_i hletter
    have hlow : 97 ≤ c.toNat := UInt8.le_iff_toNat_le.1 hletter.1
    have hhigh : c.toNat ≤ 102 := UInt8.le_iff_toNat_le.1 hletter.2
    obtain rfl : c.toNat - 97 + 10 = n := by simpa using h
    refine ⟨⟨⟨c.toNat - 97 + 10, by omega⟩, false⟩, UInt8.toNat_inj.1 ?_, rfl⟩
    simp only [HexDigit.byte, UInt8.toNat_add, Nat.toUInt8, UInt8.toNat_ofNat', show ¬ c.toNat - 97 + 10 < 10 by omega,
      if_false, Bool.false_eq_true]
    show (97 + (c.toNat - 97 + 10 - 10) % 256) % 256 = c.toNat
    omega
  split at h
  · rename_i hletter
    have hlow : 65 ≤ c.toNat := UInt8.le_iff_toNat_le.1 hletter.1
    have hhigh : c.toNat ≤ 70 := UInt8.le_iff_toNat_le.1 hletter.2
    obtain rfl : c.toNat - 65 + 10 = n := by simpa using h
    refine ⟨⟨⟨c.toNat - 65 + 10, by omega⟩, true⟩, UInt8.toNat_inj.1 ?_, rfl⟩
    simp only [HexDigit.byte, UInt8.toNat_add, Nat.toUInt8, UInt8.toNat_ofNat', show ¬ c.toNat - 65 + 10 < 10 by omega,
      if_false, if_true]
    show (65 + (c.toNat - 65 + 10 - 10) % 256) % 256 = c.toNat
    omega
  · cases h

theorem parseHexDigits_ok {n result value : Nat} {input rest : Bytes} (h : parseHexDigits n result input = .ok value rest) :
    ∃ ds : List HexDigit, ds.length = n ∧ input = ds.map HexDigit.byte ++ rest ∧
      value = ds.foldl (fun result d => 16 * result + d.digit.val) result := by
  induction n generalizing result input with
  | zero =>
    cases h
    exact ⟨[], rfl, rfl, rfl⟩
  | succ n ih =>
    cases input with
    | nil => cases h
    | cons c input =>
      cases hc : hexDigit c with
      | none =>
        simp only [parseHexDigits, hc] at h
        cases h
      | some m =>
        simp only [parseHexDigits, hc] at h
        obtain ⟨d, rfl, rfl⟩ := exists_hexDigit hc
        obtain ⟨ds, hlength, rfl, rfl⟩ := ih h
        exact ⟨d :: ds, by rw [List.length_cons, hlength], rfl, rfl⟩

theorem parseHexDigits_run (ds : List HexDigit) (result : Nat) (rest : Bytes) :
    parseHexDigits ds.length result (ds.map HexDigit.byte ++ rest) =
      .ok (ds.foldl (fun result d => 16 * result + d.digit.val) result) rest := by
  induction ds generalizing result with
  | nil => rfl
  | cons d ds ih =>
    simp only [List.length_cons, List.map_cons, List.cons_append, parseHexDigits, d.hexDigit_byte, List.foldl_cons]
    exact ih _

theorem parseHexQuad_ok_iff {input rest : Bytes} {codePoint : Nat} :
    parseHexQuad input = .ok codePoint rest ↔ ∃ q : HexQuad, input = q.text ++ rest ∧ q.codePoint = codePoint := by
  have hfold : ∀ q : HexQuad, [q.first, q.second, q.third, q.fourth].foldl
      (fun result d => 16 * result + d.digit.val) 0 = q.codePoint := by
    intro q
    simp [HexQuad.codePoint]
  constructor
  · intro h
    obtain ⟨left, input', hget, hnext⟩ := bind_ok_iff.1 h
    cases hget
    split at hnext
    · cases hnext
    · obtain ⟨ds, hlength, rfl, rfl⟩ := parseHexDigits_ok hnext
      match ds, hlength with
      | [a, b, c, d], _ => exact ⟨⟨a, b, c, d⟩, rfl, (hfold _).symm⟩
  · rintro ⟨q, rfl, rfl⟩
    refine (bind_of_ok rfl).trans ?_
    rw [if_neg (by simp [HexQuad.text])]
    exact (parseHexDigits_run [q.first, q.second, q.third, q.fourth] 0 rest).trans (by rw [hfold])

theorem parseUnicode_ok {input rest : Bytes} {codePoint : Nat} (h : parseUnicode input = .ok codePoint rest) :
    ∃ q : HexQuad, (¬ q.IsHigh ∧ input = q.text ++ rest ∧ codePoint = q.codePoint) ∨
      (q.IsHigh ∧ ∃ low : HexQuad, low.IsLow ∧ input = q.text ++ 0x5C :: 0x75 :: (low.text ++ rest) ∧
        codePoint = combined q low) := by
  obtain ⟨value, input', hquad, hnext⟩ := bind_ok_iff.1 h
  obtain ⟨q, rfl, rfl⟩ := parseHexQuad_ok_iff.1 hquad
  refine ⟨q, ?_⟩
  split at hnext
  · rename_i hhigh
    obtain ⟨left, input'', hget, hpair⟩ := bind_ok_iff.1 hnext
    cases hget
    split at hpair
    · cases hpair
    · rename_i hprefix
      obtain ⟨tail, rfl⟩ : [ch '\\', ch 'u'] <+: input' := by simpa using hprefix
      obtain ⟨⟨⟩, input₃, hset, hrest⟩ := bind_ok_iff.1 hpair
      cases hset
      obtain ⟨low, input₄, hlow, hend⟩ := bind_ok_iff.1 hrest
      obtain ⟨lowQuad, hinput, rfl⟩ := parseHexQuad_ok_iff.1 hlow
      split at hend
      · cases hend
      · rename_i hlowRange
        rw [not_or, not_lt, not_lt] at hlowRange
        obtain ⟨hvalue, rfl⟩ := pure_ok_iff.1 hend
        obtain rfl : tail = lowQuad.text ++ input₄ := hinput
        exact .inr ⟨hhigh, lowQuad, hlowRange, rfl, hvalue.symm⟩
  · rename_i hhigh
    cases hnext
    exact .inl ⟨hhigh, rfl, rfl⟩

theorem parseUnicode_single {q : HexQuad} (h : ¬ q.IsHigh) (rest : Bytes) :
    parseUnicode (q.text ++ rest) = .ok q.codePoint rest := by
  refine (bind_of_ok (parseHexQuad_ok_iff.2 ⟨q, rfl, rfl⟩)).trans ?_
  rw [if_neg (show ¬ (0xD800 ≤ q.codePoint ∧ q.codePoint ≤ 0xDBFF) from h)]
  rfl

theorem parseUnicode_pair {high low : HexQuad} (hhigh : high.IsHigh) (hlow : low.IsLow) (rest : Bytes) :
    parseUnicode (high.text ++ 0x5C :: 0x75 :: (low.text ++ rest)) = .ok (combined high low) rest := by
  have hquad : parseHexQuad (low.text ++ rest) = .ok low.codePoint rest := parseHexQuad_ok_iff.2 ⟨low, rfl, rfl⟩
  have hrange : ¬ (low.codePoint < 0xDC00 ∨ low.codePoint > 0xDFFF) := by
    rw [not_or, not_lt, not_lt]
    exact hlow
  refine (bind_of_ok (parseHexQuad_ok_iff.2 ⟨high, rfl, rfl⟩)).trans ?_
  rw [if_pos (show 0xD800 ≤ high.codePoint ∧ high.codePoint ≤ 0xDBFF from hhigh)]
  refine (bind_of_ok rfl).trans ?_
  rw [if_neg (by simp [show ch '\\' = 0x5C from rfl, show ch 'u' = 0x75 from rfl])]
  refine (bind_of_ok rfl).trans ((bind_of_ok hquad).trans ?_)
  rw [if_neg hrange]
  rfl

/-- A decoded character has the encoding of its scalar value. -/
theorem utf8_char (c : Char) : utf8 c.toNat = String.utf8EncodeChar c := by
  have hvalid : ¬ (0xD800 ≤ c.toNat ∧ c.toNat ≤ 0xDFFF) := by
    rcases c.valid with h | h
    · have hlow : c.toNat < 0xd800 := h
      omega
    · have hhigh : 0xdfff < c.toNat := h.1
      omega
  rw [utf8, if_neg hvalid, Char.ofNat_toNat]

/-- `append_utf8` of a scalar value appends the UTF-8 of its character. -/
theorem appendUtf8_char (output : Bytes) (c : Char) : appendUtf8 output c.toNat = output ++ String.utf8EncodeChar c := by
  have hmax : c.toNat < 0x110000 := by
    rcases c.valid with h | h
    · exact lt_trans h (by decide)
    · exact h.2
  unfold appendUtf8 String.utf8EncodeChar
  simp only [show c.val.toNat = c.toNat from rfl]
  generalize c.toNat = v at hmax
  split
  · rfl
  split
  · rw [show v / 64 % 0x20 = v / 2 ^ 6 by omega, Nat.add_comm 0xc0, Nat.add_comm 0x80]
    rfl
  split
  · rw [show v / 4096 % 0x10 = v / 2 ^ 12 by omega, Nat.add_comm 0xe0, Nat.add_comm 0x80, Nat.add_comm 0x80]
    rfl
  · rw [show v / 262144 % 0x08 = v / 2 ^ 18 by omega, Nat.add_comm 0xf0, Nat.add_comm 0x80, Nat.add_comm 0x80,
      Nat.add_comm 0x80]
    rfl

theorem appendUtf8_eq (output : Bytes) {codePoint : Nat} (h : codePoint < 0x110000) :
    appendUtf8 output codePoint = output ++ utf8 codePoint := by
  by_cases hsurrogate : 0xD800 ≤ codePoint ∧ codePoint ≤ 0xDFFF
  · rw [utf8, if_pos hsurrogate, appendUtf8, if_neg (by omega), if_neg (by omega), if_pos (by omega),
      show 0xe0 + codePoint / 2 ^ 12 = 0xED by omega]
    rfl
  · have hvalid : codePoint.isValidChar := by
      unfold Nat.isValidChar
      omega
    have hnat : (Char.ofNat codePoint).toNat = codePoint := by
      rw [Char.ofNat, dif_pos hvalid]
      rfl
    rw [utf8, if_neg hsurrogate, ← appendUtf8_char, hnat]

theorem HexQuad.codePoint_lt (q : HexQuad) : q.codePoint < 0x10000 := by
  have h₁ := q.first.digit.isLt
  have h₂ := q.second.digit.isLt
  have h₃ := q.third.digit.isLt
  have h₄ := q.fourth.digit.isLt
  unfold HexQuad.codePoint
  omega

theorem combined_lt {high low : HexQuad} (hhigh : high.IsHigh) (hlow : low.IsLow) : combined high low < 0x110000 := by
  have hh := hhigh.2
  have hl := hlow.2
  unfold combined
  omega

theorem parseUnicode_lt {codePoint : Nat} {text rest : Bytes} (h : parseUnicode text = .ok codePoint rest) :
    codePoint < 0x110000 := by
  rcases parseUnicode_ok h with ⟨q, ⟨-, -, hvalue⟩ | ⟨hhigh, low, hlow, -, hvalue⟩⟩
  · exact hvalue ▸ Nat.lt_of_lt_of_le q.codePoint_lt (Nat.le_of_ble_eq_true rfl)
  · exact hvalue ▸ combined_lt hhigh hlow

theorem decode_unicode {q : HexQuad} (h : ¬ q.IsHigh) (s : List StringChar) :
    decode (.unicode q :: s) = utf8 q.codePoint ++ decode s := by
  rcases s with _ | ⟨c, s⟩
  · rfl
  cases c with
  | unescaped c hc => rfl
  | escape e => rfl
  | unicode low => rw [decode, if_neg fun hpair => h hpair.1]

theorem decode_pair {high low : HexQuad} (hhigh : high.IsHigh) (hlow : low.IsLow) (s : List StringChar) :
    decode (.unicode high :: .unicode low :: s) = utf8 (combined high low) ++ decode s := by
  rw [decode, if_pos ⟨hhigh, hlow⟩]

theorem surrogatesPaired_cons_iff {c : StringChar} {s : List StringChar} :
    SurrogatesPaired (c :: s) ↔
      (∀ high, c = .unicode high → high.IsHigh → ∃ low s', s = .unicode low :: s' ∧ low.IsLow) ∧ SurrogatesPaired s := by
  constructor
  · intro h
    refine ⟨fun high hc => h [] high s (by rw [hc]; rfl), fun before high after hs => ?_⟩
    exact h (c :: before) high after (by rw [hs]; rfl)
  · rintro ⟨hfirst, hrest⟩ before high after hs
    cases before with
    | nil =>
      obtain ⟨hc, rfl⟩ := List.cons.inj hs
      exact hfirst high hc
    | cons b before => exact hrest before high after (List.cons.inj hs).2

theorem surrogatesPaired_nil : SurrogatesPaired [] := by
  intro before high after h
  simp at h

theorem HexQuad.IsLow.not_high {q : HexQuad} (h : q.IsLow) : ¬ q.IsHigh := by
  intro hhigh
  have hlow := h.1
  have hup := hhigh.2
  omega

theorem exists_simpleEscape {letter c : UInt8} (h : simpleEscape letter = some c) :
    ∃ e : SimpleEscape, e.letter = letter ∧ e.character = c := by
  unfold simpleEscape at h
  split at h
  · rename_i hletter; cases h; exact ⟨.quotationMark, hletter.symm, rfl⟩
  split at h
  · rename_i hletter; cases h; exact ⟨.reverseSolidus, hletter.symm, rfl⟩
  split at h
  · rename_i hletter; cases h; exact ⟨.solidus, hletter.symm, rfl⟩
  split at h
  · rename_i hletter; cases h; exact ⟨.backspace, hletter.symm, rfl⟩
  split at h
  · rename_i hletter; cases h; exact ⟨.formFeed, hletter.symm, rfl⟩
  split at h
  · rename_i hletter; cases h; exact ⟨.lineFeed, hletter.symm, rfl⟩
  split at h
  · rename_i hletter; cases h; exact ⟨.carriageReturn, hletter.symm, rfl⟩
  split at h
  · rename_i hletter; cases h; exact ⟨.tab, hletter.symm, rfl⟩
  · cases h

theorem SimpleEscape.letter_ne (e : SimpleEscape) : e.letter ≠ ch 'u' := by cases e <;> decide

theorem SimpleEscape.simpleEscape_letter (e : SimpleEscape) : simpleEscape e.letter = some e.character := by
  cases e <;> rfl

/-- The loop of `parse_string` has read characters and the closing quotation mark. -/
theorem parseCharacters_ok {n : Nat} {result input s rest : Bytes} (h : parseCharacters n result input = .ok s rest) :
    ∃ chars, input = chars.flatMap StringChar.text ++ 0x22 :: rest ∧ SurrogatesPaired chars ∧
      s = result ++ decode chars := by
  induction n generalizing result input with
  | zero => cases h
  | succ n ih =>
    cases input with
    | nil => cases h
    | cons c input =>
      rw [parseCharacters] at h
      dsimp only at h
      split at h
      · rename_i hquote
        cases h
        exact ⟨[], by rw [hquote]; rfl, surrogatesPaired_nil, (List.append_nil _).symm⟩
      rename_i hquote
      split at h
      · cases h
      rename_i hcontrol
      split at h
      · rename_i hbackslash
        obtain ⟨chars, rfl, hpaired, rfl⟩ := ih h
        refine ⟨.unescaped c ⟨not_lt.1 hcontrol, hquote, hbackslash⟩ :: chars, rfl, ?_, ?_⟩
        · exact surrogatesPaired_cons_iff.2 ⟨fun _ hc => (by cases hc), hpaired⟩
        · rw [List.append_assoc]
          rfl
      rename_i hbackslash
      obtain rfl : c = ch '\\' := by simpa using hbackslash
      cases input with
      | nil => cases h
      | cons letter input =>
        dsimp only at h
        split at h
        · rename_i hletter
          obtain ⟨codePoint, input', hunicode, hnext⟩ := bind_ok_iff.1 h
          obtain ⟨chars, rfl, hpaired, rfl⟩ := ih hnext
          rw [appendUtf8_eq _ (parseUnicode_lt hunicode), List.append_assoc]
          rcases parseUnicode_ok hunicode with ⟨q, ⟨hhigh, rfl, hvalue⟩ | ⟨hhigh, low, hlow, rfl, hvalue⟩⟩
          · refine ⟨.unicode q :: chars, ?_, ?_, by rw [decode_unicode hhigh, hvalue]⟩
            · rw [hletter, List.flatMap_cons, List.append_assoc]
              rfl
            · refine surrogatesPaired_cons_iff.2 ⟨fun high hc hhigh' => ?_, hpaired⟩
              cases hc
              exact absurd hhigh' hhigh
          · refine ⟨.unicode q :: .unicode low :: chars, ?_, ?_, by rw [decode_pair hhigh hlow, hvalue]⟩
            · rw [hletter, List.flatMap_cons, List.flatMap_cons, List.append_assoc, List.append_assoc]
              rfl
            · refine surrogatesPaired_cons_iff.2 ⟨fun _ _ _ => ⟨low, chars, rfl, hlow⟩, ?_⟩
              refine surrogatesPaired_cons_iff.2 ⟨fun high hc hhigh' => ?_, hpaired⟩
              cases hc
              exact absurd hhigh' hlow.not_high
        · cases hescape : simpleEscape letter with
          | none =>
            rw [hescape] at h
            cases h
          | some character =>
            rw [hescape] at h
            obtain ⟨chars, rfl, hpaired, rfl⟩ := ih h
            obtain ⟨e, rfl, rfl⟩ := exists_simpleEscape hescape
            refine ⟨.escape e :: chars, rfl, ?_, ?_⟩
            · exact surrogatesPaired_cons_iff.2 ⟨fun _ hc => (by cases hc), hpaired⟩
            · rw [List.append_assoc]
              rfl

/-- A turn of the loop on `\u`. -/
theorem parseCharacters_unicode {n codePoint : Nat} {result text rest : Bytes}
    (h : parseUnicode text = .ok codePoint rest) :
    parseCharacters (n + 1) result (0x5C :: 0x75 :: text) = parseCharacters n (result ++ utf8 codePoint) rest := by
  rw [parseCharacters]
  simp only [show ¬ ((0x5C : UInt8) = ch '"') by decide, show ¬ (0x5C : UInt8) < 0x20 by decide, if_false, ne_eq,
    show ch '\\' = 0x5C from rfl, not_true_eq_false, show ch 'u' = 0x75 from rfl, if_true]
  refine (bind_of_ok h).trans ?_
  rw [appendUtf8_eq _ (parseUnicode_lt h)]

theorem parseCharacters_run {chars : List StringChar} (h : SurrogatesPaired chars) {n : Nat} (hn : chars.length < n)
    (result rest : Bytes) :
    parseCharacters n result (chars.flatMap StringChar.text ++ 0x22 :: rest) = .ok (result ++ decode chars) rest := by
  -- two surrogates are one turn, so the induction is the one of `decode`
  induction chars using decode.induct generalizing n result with
  | case1 =>
    obtain ⟨m, rfl⟩ := Nat.exists_eq_succ_of_ne_zero (Nat.ne_of_gt hn)
    rw [show decode [] = [] from rfl, List.append_nil]
    rfl
  | case2 c hc chars ih =>
    obtain ⟨m, rfl⟩ := Nat.exists_eq_succ_of_ne_zero (Nat.ne_of_gt (Nat.lt_of_le_of_lt (Nat.zero_le _) hn))
    have hrest := ih (surrogatesPaired_cons_iff.1 h).2 (Nat.lt_of_succ_lt_succ hn) (result ++ [c])
    rw [List.append_assoc] at hrest
    rw [List.flatMap_cons]
    show parseCharacters (m + 1) result (c :: (chars.flatMap StringChar.text ++ 0x22 :: rest)) = _
    rw [parseCharacters]
    simp only [show ¬ (c = ch '"') from hc.2.1, not_lt.2 hc.1, if_false]
    rw [if_pos (show c ≠ ch '\\' from hc.2.2)]
    exact hrest
  | case3 e chars ih =>
    obtain ⟨m, rfl⟩ := Nat.exists_eq_succ_of_ne_zero (Nat.ne_of_gt (Nat.lt_of_le_of_lt (Nat.zero_le _) hn))
    have hrest := ih (surrogatesPaired_cons_iff.1 h).2 (Nat.lt_of_succ_lt_succ hn) (result ++ [e.character])
    rw [List.append_assoc] at hrest
    exact (parseCharacters_simple m result _ e.letter_ne e.simpleEscape_letter).trans hrest
  | case4 high low chars hpair ih =>
    obtain ⟨m, rfl⟩ := Nat.exists_eq_succ_of_ne_zero (Nat.ne_of_gt (Nat.lt_of_le_of_lt (Nat.zero_le _) hn))
    have hpaired := (surrogatesPaired_cons_iff.1 (surrogatesPaired_cons_iff.1 h).2).2
    have hlength : chars.length < m := Nat.lt_of_succ_lt (Nat.lt_of_succ_lt_succ hn)
    have hrest := ih hpaired hlength (result ++ utf8 (combined high low))
    rw [List.append_assoc] at hrest
    rw [decode_pair hpair.1 hpair.2, List.flatMap_cons, List.flatMap_cons, List.append_assoc, List.append_assoc]
    exact (parseCharacters_unicode (parseUnicode_pair hpair.1 hpair.2 _)).trans hrest
  | case5 high low chars hpair ih =>
    obtain ⟨m, rfl⟩ := Nat.exists_eq_succ_of_ne_zero (Nat.ne_of_gt (Nat.lt_of_le_of_lt (Nat.zero_le _) hn))
    obtain ⟨hnext, hpaired⟩ := surrogatesPaired_cons_iff.1 h
    have hhigh : ¬ high.IsHigh := by
      intro hhigh
      obtain ⟨low', chars', heq, hlow⟩ := hnext high rfl hhigh
      cases heq
      exact hpair ⟨hhigh, hlow⟩
    have hrest := ih hpaired (Nat.lt_of_succ_lt_succ hn) (result ++ utf8 high.codePoint)
    rw [List.append_assoc] at hrest
    rw [decode_unicode hhigh, List.flatMap_cons, List.append_assoc]
    exact (parseCharacters_unicode (parseUnicode_single hhigh _)).trans hrest
  | case6 q chars hother ih =>
    obtain ⟨m, rfl⟩ := Nat.exists_eq_succ_of_ne_zero (Nat.ne_of_gt (Nat.lt_of_le_of_lt (Nat.zero_le _) hn))
    obtain ⟨hnext, hpaired⟩ := surrogatesPaired_cons_iff.1 h
    have hhigh : ¬ q.IsHigh := by
      intro hhigh
      obtain ⟨low, chars', heq, -⟩ := hnext q rfl hhigh
      exact hother low chars' heq
    have hrest := ih hpaired (Nat.lt_of_succ_lt_succ hn) (result ++ utf8 q.codePoint)
    rw [List.append_assoc] at hrest
    rw [decode_unicode hhigh, List.flatMap_cons, List.append_assoc]
    exact (parseCharacters_unicode (parseUnicode_single hhigh _)).trans hrest

theorem length_le_text (chars : List StringChar) : chars.length ≤ (chars.flatMap StringChar.text).length := by
  induction chars with
  | nil => exact Nat.le_refl _
  | cons c chars ih =>
    have hpos : 1 ≤ c.text.length := by cases c <;> simp [StringChar.text]
    rw [List.flatMap_cons, List.length_append, List.length_cons]
    omega

/-- `parse_string` reads the strings of the grammar, and nothing else. -/
theorem parseString_ok_iff {input s rest : Bytes} :
    parseString input = .ok s rest ↔
      ∃ chars, input = stringText chars ++ rest ∧ SurrogatesPaired chars ∧ decode chars = s := by
  have htext : ∀ chars, stringText chars ++ rest = ch '"' :: (chars.flatMap StringChar.text ++ 0x22 :: rest) := by
    intro chars
    rw [stringText, List.cons_append, List.append_assoc]
    rfl
  constructor
  · intro h
    obtain ⟨⟨⟩, input', hopen, hnext⟩ := bind_ok_iff.1 h
    obtain rfl := expect_ok hopen
    obtain ⟨left, input'', hget, hloop⟩ := bind_ok_iff.1 hnext
    cases hget
    obtain ⟨chars, rfl, hpaired, rfl⟩ := parseCharacters_ok hloop
    exact ⟨chars, (htext chars).symm, hpaired, rfl⟩
  · rintro ⟨chars, rfl, hpaired, rfl⟩
    rw [htext]
    refine (bind_of_ok (expect_same '"' _)).trans ((bind_of_ok rfl).trans ?_)
    refine parseCharacters_run hpaired ?_ [] rest
    have hlength := length_le_text chars
    rw [List.length_append]
    omega

end Json

end CxxDead
