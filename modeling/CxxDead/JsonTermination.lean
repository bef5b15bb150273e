import CxxDead.JsonTokens
/-!
# The parser stays inside its input and stops

- `parseDocument_keeps`: what is left is a suffix of the input, however the parser ends.
- `parseHexDigits_inside`: the four digits of a `\u` escape, the one read without a
  check of its own, are all there.
- `parseDocument_fuel`, `parseCharacters_fuel`: more fuel changes nothing, so no
  recursion and no loop runs out of it.
-/

namespace CxxDead

open Lib

namespace Json

variable {fromChars : Bytes → Option ℚ} {input : Bytes}

/-! ## Inside the input -/

theorem skipSpace_keeps : Keeps (· <:+ input) skipSpace := fun _ hs => (List.dropWhile_suffix _).trans hs

theorem fail_keeps {α : Type} (message : String) : Keeps (· <:+ input) (fail message : Parser α) := fun _ hs => hs

theorem consume_keeps (expected : Char) : Keeps (· <:+ input) (consume expected) := by
  intro s hs
  cases s with
  | nil => exact hs
  | cons c rest =>
    by_cases hc : c = ch expected
    · simp only [endState, consume, if_pos hc]
      exact (List.suffix_cons c rest).trans hs
    · simpa only [endState, consume, if_neg hc] using hs

theorem expect_keeps (expected : Char) : Keeps (· <:+ input) (expect expected) :=
  (consume_keeps expected).bind fun _ => .ite (fun _ hs => hs) (.pure _)

theorem parseLiteral_keeps (literal : String) (v : Value) : Keeps (· <:+ input) (parseLiteral literal v) := by
  intro s hs
  by_cases hprefix : (lit literal).isPrefixOf s = true
  · simp only [endState, parseLiteral, if_pos hprefix]
    exact (List.drop_suffix _ _).trans hs
  · simpa only [endState, parseLiteral, if_neg hprefix] using hs

theorem parseHexDigits_keeps (n result : Nat) : Keeps (· <:+ input) (parseHexDigits n result) := by
  induction n generalizing result with
  | zero => exact .pure _
  | succ n ih =>
    intro s hs
    cases s with
    | nil => exact hs
    | cons c rest =>
      have hrest : rest <:+ input := (List.suffix_cons c rest).trans hs
      cases hc : hexDigit c with
      | none => simpa only [endState, parseHexDigits, hc] using hrest
      | some d => simpa only [endState, parseHexDigits, hc] using ih (16 * result + d) rest hrest

theorem parseHexQuad_keeps : Keeps (· <:+ input) parseHexQuad :=
  .get_bind fun s hs => by
    split
    · exact hs
    · exact parseHexDigits_keeps 4 0 s hs

theorem parseUnicode_keeps : Keeps (· <:+ input) parseUnicode := by
  refine parseHexQuad_keeps.bind fun codePoint => .ite (.get_bind fun s hs => ?_) (.pure _)
  split
  · exact hs
  · have hlow : Keeps (· <:+ input) (do
        let low ← parseHexQuad
        if low < 0xdc00 ∨ low > 0xdfff then fail "invalid low unicode surrogate"
        pure (0x10000 + (codePoint - 0xd800) * 2 ^ 10 + (low - 0xdc00)) : Parser Nat) :=
      parseHexQuad_keeps.bind fun low => .ite (fail_keeps _) (.pure _)
    exact hlow (s.drop 2) ((List.drop_suffix 2 s).trans hs)

theorem parseCharacters_keeps (n : Nat) (result : Bytes) : Keeps (· <:+ input) (parseCharacters n result) := by
  induction n generalizing result with
  | zero => exact fail_keeps _
  | succ n ih =>
    intro s hs
    cases s with
    | nil => exact hs
    | cons c rest =>
      have hrest : rest <:+ input := (List.suffix_cons c rest).trans hs
      by_cases hquote : c = ch '"'
      · simpa only [endState, parseCharacters, if_pos hquote] using hrest
      by_cases hcontrol : c < 0x20
      · simpa only [endState, parseCharacters, if_neg hquote, if_pos hcontrol] using hrest
      by_cases hbackslash : c ≠ ch '\\'
      · simpa only [endState, parseCharacters, if_neg hquote, if_neg hcontrol, if_pos hbackslash] using ih _ rest hrest
      cases rest with
      | nil =>
        simp only [endState, parseCharacters, if_neg hquote, if_neg hcontrol, if_neg hbackslash]
        exact List.nil_suffix
      | cons letter rest =>
        have hrest' : rest <:+ input := (List.suffix_cons letter rest).trans hrest
        by_cases hletter : letter = ch 'u'
        · have hloop : Keeps (· <:+ input) (do
              let codePoint ← parseUnicode
              parseCharacters n (appendUtf8 result codePoint) : Parser Bytes) := parseUnicode_keeps.bind fun _ => ih _
          simpa only [endState, parseCharacters, if_neg hquote, if_neg hcontrol, if_neg hbackslash, if_pos hletter]
            using hloop rest hrest'
        cases hescape : simpleEscape letter with
        | none =>
          simpa only [endState, parseCharacters, if_neg hquote, if_neg hcontrol, if_neg hbackslash, if_neg hletter,
            hescape] using hrest'
        | some character =>
          simpa only [endState, parseCharacters, if_neg hquote, if_neg hcontrol, if_neg hbackslash, if_neg hletter,
            hescape] using ih (result ++ [character]) rest hrest'

theorem parseString_keeps : Keeps (· <:+ input) parseString :=
  (expect_keeps '"').bind fun _ => .get_bind fun s hs => parseCharacters_keeps (s.length + 1) [] s hs

theorem parseDigits_keeps (message : String) : Keeps (· <:+ input) (parseDigits message) := by
  intro s hs
  by_cases hnone : s.takeWhile isDigit = []
  · simpa only [endState, parseDigits, if_pos hnone] using hs
  · simp only [endState, parseDigits, if_neg hnone]
    exact (List.drop_suffix _ _).trans hs

theorem parseSign_keeps : Keeps (· <:+ input) parseSign := by
  intro s hs
  cases s with
  | nil => exact hs
  | cons c rest =>
    by_cases hc : c = ch '+' ∨ c = ch '-'
    · simp only [endState, parseSign, if_pos hc]
      exact (List.suffix_cons c rest).trans hs
    · simpa only [endState, parseSign, if_neg hc] using hs

theorem parseExponent_keeps : Keeps (· <:+ input) parseExponent := by
  intro s hs
  cases s with
  | nil => exact hs
  | cons c rest =>
    by_cases hc : c = ch 'e' ∨ c = ch 'E'
    · have hdigits : Keeps (· <:+ input) (do
          let sign ← parseSign
          let digits ← parseDigits "invalid exponent"
          pure (c :: sign ++ digits) : Parser Bytes) :=
        parseSign_keeps.bind fun _ => (parseDigits_keeps _).bind fun _ => .pure _
      simpa only [endState, parseExponent, if_pos hc] using hdigits rest ((List.suffix_cons c rest).trans hs)
    · simpa only [endState, parseExponent, if_neg hc] using hs

theorem parseNumber_keeps : Keeps (· <:+ input) (parseNumber fromChars) := by
  have hminus : Keeps (· <:+ input) parseMinus :=
    (consume_keeps '-').bind fun _ => .ite (.get_bind fun s hs => by split <;> exact hs) (.pure _)
  have hinteger : Keeps (· <:+ input) parseInteger :=
    (consume_keeps '0').bind fun _ => .ite (.pure _) (parseDigits_keeps _)
  have hfraction : Keeps (· <:+ input) parseFraction :=
    (consume_keeps '.').bind fun _ => .ite ((parseDigits_keeps _).bind fun _ => .pure _) (.pure _)
  refine hminus.bind fun _ => hinteger.bind fun _ => hfraction.bind fun _ => parseExponent_keeps.bind fun _ => ?_
  split
  · exact .pure _
  · exact fail_keeps _

theorem parse_keeps (n : Nat) :
    Keeps (· <:+ input) (parseValue fromChars n) ∧
      (∀ result, Keeps (· <:+ input) (parseElements fromChars n result)) ∧
      ∀ result, Keeps (· <:+ input) (parseMembers fromChars n result) := by
  induction n with
  | zero =>
    refine ⟨?_, fun _ => ?_, fun _ => ?_⟩
    all_goals
      intro s hs
      first
      | rw [parseValue]; exact hs
      | rw [parseElements]; exact hs
      | rw [parseMembers]; exact hs
  | succ n ih =>
    obtain ⟨hvalue, helements, hmembers⟩ := ih
    refine ⟨?_, fun result => ?_, fun result => ?_⟩
    · rw [parseValue]
      refine skipSpace_keeps.bind fun _ => .get_bind fun s hs => ?_
      cases s with
      | nil => exact hs
      | cons c rest =>
        refine (Keeps.ite (parseLiteral_keeps _ _) <| .ite (parseLiteral_keeps _ _) <| .ite (parseLiteral_keeps _ _) <|
          .ite (parseString_keeps.bind fun _ => .pure _) <| .ite ?_ <| .ite ?_ <|
          .ite parseNumber_keeps (fail_keeps _)) _ hs
        · exact (expect_keeps _).bind fun _ => skipSpace_keeps.bind fun _ => (consume_keeps _).bind fun _ =>
            .ite (.pure _) (helements _)
        · exact (expect_keeps _).bind fun _ => skipSpace_keeps.bind fun _ => (consume_keeps _).bind fun _ =>
            .ite (.pure _) (hmembers _)
    · rw [parseElements]
      exact hvalue.bind fun _ => skipSpace_keeps.bind fun _ => (consume_keeps _).bind fun _ => .ite (.pure _)
        ((expect_keeps _).bind fun _ => skipSpace_keeps.bind fun _ => helements _)
    · rw [parseMembers]
      refine .get_bind fun s hs => ?_
      split
      · exact hs
      · refine (parseString_keeps.bind fun key => skipSpace_keeps.bind fun _ => (expect_keeps _).bind fun _ =>
          skipSpace_keeps.bind fun _ => hvalue.bind fun value => ?_) s hs
        cases emplaceMember result key value with
        | none => exact fail_keeps _
        | some result' =>
          exact skipSpace_keeps.bind fun _ => (consume_keeps _).bind fun _ => .ite (.pure _)
            ((expect_keeps _).bind fun _ => skipSpace_keeps.bind fun _ => hmembers _)

/-- The position never leaves the input, whether `parse` returns or throws. -/
theorem parseDocument_keeps (n : Nat) : Keeps (· <:+ input) (parseDocument fromChars n) :=
  skipSpace_keeps.bind fun _ => (parse_keeps n).1.bind fun _ => skipSpace_keeps.bind fun _ => .get_bind fun s hs => by
    split
    · exact hs
    · exact hs

/-- The digits of a quad are read without looking at the length again. -/
theorem parseHexDigits_inside {n : Nat} (result : Nat) {s : Bytes} (h : n ≤ s.length) (rest : Bytes) :
    parseHexDigits n result s ≠ .error (lit "incomplete unicode escape") rest := by
  have hmessage : lit "invalid unicode escape" ≠ lit "incomplete unicode escape" := by decide
  induction n generalizing result s with
  | zero => exact fun hrun => nomatch hrun
  | succ n ih =>
    cases s with
    | nil => exact absurd h (by simp)
    | cons c s =>
      cases hc : hexDigit c with
      | none =>
        simp only [parseHexDigits, hc, ne_eq, EStateM.Result.error.injEq, not_and]
        exact fun hsame => absurd hsame hmessage
      | some d =>
        simp only [parseHexDigits, hc]
        exact ih _ (Nat.le_of_succ_le_succ h)

/-! ## Enough fuel -/

theorem length_le_of_ok {α : Type} {m : Parser α} (hm : ∀ input, Keeps (· <:+ input) m) {s rest : Bytes} {a : α}
    (h : m s = .ok a rest) : rest.length ≤ s.length :=
  ((hm s).ok (List.suffix_refl s) h).length_le

/-- More turns than characters are left are as good as one more. -/
theorem parseCharacters_fuel {n m : Nat} {s : Bytes} (hn : s.length < n) (hm : s.length < m) (result : Bytes) :
    parseCharacters n result s = parseCharacters m result s := by
  induction n generalizing m s result with
  | zero => exact absurd hn (Nat.not_lt_zero _)
  | succ n ih =>
    obtain ⟨m, rfl⟩ := Nat.exists_eq_succ_of_ne_zero (Nat.ne_of_gt (Nat.lt_of_le_of_lt (Nat.zero_le _) hm))
    cases s with
    | nil => rfl
    | cons c rest =>
      simp only [List.length_cons] at hn hm
      simp only [parseCharacters]
      split
      · rfl
      split
      · rfl
      split
      · exact ih (by omega) (by omega) _
      cases rest with
      | nil => rfl
      | cons letter rest =>
        simp only [List.length_cons] at hn hm
        dsimp only
        split
        · refine bind_congr_run rfl fun codePoint s' hunicode => ?_
          have hle := length_le_of_ok (fun _ => parseUnicode_keeps) hunicode
          exact ih (by omega) (by omega) _
        · split
          · exact ih (by omega) (by omega) _
          · rfl

theorem ite_run {α : Type} {c : Prop} [Decidable c] {a a' b b' : Parser α} {s : Bytes} (h : a s = a' s)
    (h' : b s = b' s) : (if c then a else b) s = (if c then a' else b') s := by
  split
  · exact h
  · exact h'

theorem parse_fuel (n m : Nat) (s : Bytes) :
    (2 * s.length + 1 ≤ n → 2 * s.length + 1 ≤ m → parseValue fromChars n s = parseValue fromChars m s) ∧
      (∀ result, 2 * s.length + 2 ≤ n → 2 * s.length + 2 ≤ m →
        parseElements fromChars n result s = parseElements fromChars m result s) ∧
      ∀ result, 2 * s.length + 2 ≤ n → 2 * s.length + 2 ≤ m →
        parseMembers fromChars n result s = parseMembers fromChars m result s := by
  induction n generalizing m s with
  | zero => exact ⟨fun h => by omega, fun _ h => by omega, fun _ h => by omega⟩
  | succ n ih =>
    cases m with
    | zero => exact ⟨fun _ h => by omega, fun _ _ h => by omega, fun _ _ h => by omega⟩
    | succ m =>
      refine ⟨fun hn hm => ?_, fun result hn hm => ?_, fun result hn hm => ?_⟩
      · rw [parseValue, parseValue]
        refine bind_congr_run rfl fun _ s₁ hspace => bind_congr_run rfl fun left s₂ hget => ?_
        cases hget
        have h₁ := length_le_of_ok (fun _ => skipSpace_keeps) hspace
        cases s₁ with
        | nil => rfl
        | cons c rest =>
          -- a bracket has been read before the loops start
          have hafter : ∀ {bracket s₂ s₃ s₄ b}, expect bracket (c :: rest) = .ok () s₂ → skipSpace s₂ = .ok () s₃ →
              consume b s₃ = .ok false s₄ → s₄.length + 1 ≤ s.length := by
            intro bracket s₂ s₃ s₄ b hexpect hspace' hconsume
            have h₃ := length_le_of_ok (fun _ => skipSpace_keeps) hspace'
            have h₄ := length_le_of_ok (fun _ => consume_keeps _) hconsume
            rw [expect_ok hexpect, List.length_cons] at h₁
            omega
          dsimp only
          refine ite_run rfl <| ite_run rfl <| ite_run rfl <| ite_run rfl <| ite_run ?_ <| ite_run ?_ rfl
          · refine bind_congr_run rfl fun _ s₂ hexpect => bind_congr_run rfl fun _ s₃ hspace' =>
              bind_congr_run rfl fun closed s₄ hconsume => ?_
            cases closed with
            | true => rfl
            | false =>
              have hlength := hafter hexpect hspace' hconsume
              exact (ih m s₄).2.1 _ (by omega) (by omega)
          · refine bind_congr_run rfl fun _ s₂ hexpect => bind_congr_run rfl fun _ s₃ hspace' =>
              bind_congr_run rfl fun closed s₄ hconsume => ?_
            cases closed with
            | true => rfl
            | false =>
              have hlength := hafter hexpect hspace' hconsume
              exact (ih m s₄).2.2 _ (by omega) (by omega)
      · rw [parseElements, parseElements]
        refine bind_congr_run ((ih m s).1 (by omega) (by omega)) fun value s₁ hvalue =>
          bind_congr_run rfl fun _ s₂ hspace => bind_congr_run rfl fun closed s₃ hconsume => ?_
        have h₁ := length_le_of_ok (fun _ => (parse_keeps n).1) hvalue
        have h₂ := length_le_of_ok (fun _ => skipSpace_keeps) hspace
        have h₃ := length_le_of_ok (fun _ => consume_keeps _) hconsume
        split
        · rfl
        · refine bind_congr_run rfl fun _ s₄ hexpect => bind_congr_run rfl fun _ s₅ hspace' => ?_
          have h₅ := length_le_of_ok (fun _ => skipSpace_keeps) hspace'
          rw [expect_ok hexpect, List.length_cons] at h₃
          exact (ih m s₅).2.1 _ (by omega) (by omega)
      · rw [parseMembers, parseMembers]
        refine bind_congr_run rfl fun left s₀ hget => ?_
        cases hget
        refine ite_run rfl <| bind_congr_run rfl fun key s₁ hkey => bind_congr_run rfl fun _ s₂ hspace =>
          bind_congr_run rfl fun _ s₃ hcolon => bind_congr_run rfl fun _ s₄ hspace' => ?_
        have h₁ := length_le_of_ok (fun _ => parseString_keeps) hkey
        have h₂ := length_le_of_ok (fun _ => skipSpace_keeps) hspace
        have h₃ := length_le_of_ok (fun _ => expect_keeps _) hcolon
        have h₄ := length_le_of_ok (fun _ => skipSpace_keeps) hspace'
        refine bind_congr_run ((ih m s₄).1 (by omega) (by omega)) fun value s₅ hvalue => ?_
        have h₅ := length_le_of_ok (fun _ => (parse_keeps n).1) hvalue
        cases emplaceMember result key value with
        | none => rfl
        | some result' =>
          refine bind_congr_run rfl fun _ s₆ hspace'' => bind_congr_run rfl fun closed s₇ hconsume => ?_
          have h₆ := length_le_of_ok (fun _ => skipSpace_keeps) hspace''
          have h₇ := length_le_of_ok (fun _ => consume_keeps _) hconsume
          refine ite_run rfl <| bind_congr_run rfl fun _ s₈ hexpect => bind_congr_run rfl fun _ s₉ hspace₃ => ?_
          have h₉ := length_le_of_ok (fun _ => skipSpace_keeps) hspace₃
          rw [expect_ok hexpect, List.length_cons] at h₇
          exact (ih m s₉).2.2 _ (by omega) (by omega)

/-- The fuel of `parse` is as good as any more. -/
theorem parseDocument_fuel {n : Nat} {s : Bytes} (h : 2 * s.length + 2 ≤ n) :
    parseDocument fromChars n s = parseDocument fromChars (2 * s.length + 2) s := by
  refine bind_congr_run rfl fun _ s₁ hspace => ?_
  have h₁ := length_le_of_ok (fun _ => skipSpace_keeps) hspace
  exact bind_congr_run ((parse_fuel _ _ s₁).1 (by omega) (by omega)) fun _ _ _ => rfl

end Json

end CxxDead
