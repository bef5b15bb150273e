import Mathlib.Data.List.Basic
import Mathlib.Tactic.Ring
/-!
# Well-formed UTF-8

Lists of bytes that are the encoding of some characters, and how they come apart.

- `utf8_append_iff`: behind a well-formed text.
- `utf8_split_iff`: at an ASCII byte.
- `not_utf8_surrogate`: no well-formed text starts with a surrogate.
-/

namespace Lib

/-- The bytes encode characters. -/
def Utf8 (text : List UInt8) : Prop := ∃ chars : List Char, text = chars.flatMap String.utf8EncodeChar

theorem Utf8.nil : Utf8 [] := ⟨[], rfl⟩

theorem Utf8.char_append (c : Char) {rest : List UInt8} (h : Utf8 rest) : Utf8 (String.utf8EncodeChar c ++ rest) := by
  obtain ⟨chars, rfl⟩ := h
  exact ⟨c :: chars, rfl⟩

/-! ## One character -/

/-- The encoding of a character is not the start of another one. -/
theorem utf8EncodeChar_append_inj {c d : Char} {rest rest' : List UInt8}
    (h : String.utf8EncodeChar c ++ rest = String.utf8EncodeChar d ++ rest') : c = d ∧ rest = rest' := by
  have hdecode : ∀ (c : Char) (rest : List UInt8),
      (String.utf8EncodeChar c ++ rest).toByteArray.utf8DecodeChar? 0 = some c := by
    intro c rest
    rw [List.toByteArray_append]
    exact ByteArray.utf8DecodeChar?_utf8EncodeChar_append
  have hsame : c = d := by
    have hc := hdecode c rest
    rw [h, hdecode d rest'] at hc
    exact (Option.some.inj hc).symm
  subst hsame
  exact ⟨rfl, List.append_cancel_left h⟩

theorem utf8_char_append_iff (c : Char) {rest : List UInt8} : Utf8 (String.utf8EncodeChar c ++ rest) ↔ Utf8 rest := by
  refine ⟨?_, Utf8.char_append c⟩
  rintro ⟨chars, h⟩
  cases chars with
  | nil =>
    have hnil := (List.append_eq_nil_iff.1 h).1
    exact absurd hnil String.utf8EncodeChar_ne_nil
  | cons d chars => exact ⟨chars, (utf8EncodeChar_append_inj h).2⟩

theorem utf8EncodeChar_ascii {x : UInt8} (h : x < 0x80) : String.utf8EncodeChar (Char.ofUInt8 x) = [x] := by
  have hsmall : x.toNat ≤ 0x7f := Nat.le_of_lt_succ (UInt8.lt_iff_toNat_lt.1 h)
  have hvalue : (Char.ofUInt8 x).val.toNat = x.toNat := rfl
  unfold String.utf8EncodeChar
  rw [hvalue, if_pos hsmall, UInt8.ofNat_toNat]

/-- An ASCII byte is only in its own encoding. -/
theorem eq_singleton_of_ascii {c : Char} {x : UInt8} (hx : x < 0x80) (h : x ∈ String.utf8EncodeChar c) :
    String.utf8EncodeChar c = [x] := by
  have hnot : ∀ n : Nat, 0x80 ≤ n → n < 256 → x ≠ UInt8.ofNat n := by
    rintro n hlow hhigh rfl
    rw [UInt8.lt_iff_toNat_lt, UInt8.toNat_ofNat_of_lt' hhigh] at hx
    have hn : n < 0x80 := hx
    omega
  unfold String.utf8EncodeChar at h ⊢
  dsimp only at h ⊢
  split at h
  · rename_i hsmall
    rw [if_pos hsmall, List.mem_singleton.1 h]
  · exfalso
    split at h
    · simp only [List.mem_cons, List.not_mem_nil, or_false] at h
      rcases h with h | h <;> exact hnot _ (by omega) (by omega) h
    · split at h
      · simp only [List.mem_cons, List.not_mem_nil, or_false] at h
        rcases h with h | h | h <;> exact hnot _ (by omega) (by omega) h
      · simp only [List.mem_cons, List.not_mem_nil, or_false] at h
        rcases h with h | h | h | h <;> exact hnot _ (by omega) (by omega) h

/-! ## Texts -/

theorem utf8_append_iff {front rest : List UInt8} (h : Utf8 front) : Utf8 (front ++ rest) ↔ Utf8 rest := by
  obtain ⟨chars, rfl⟩ := h
  induction chars with
  | nil => rfl
  | cons c chars ih => rw [List.flatMap_cons, List.append_assoc, utf8_char_append_iff, ih]

theorem utf8_ascii_cons_iff {x : UInt8} (hx : x < 0x80) {rest : List UInt8} : Utf8 (x :: rest) ↔ Utf8 rest := by
  have h := @utf8_char_append_iff (Char.ofUInt8 x) rest
  rwa [utf8EncodeChar_ascii hx] at h

theorem utf8_ascii_append_iff {front : List UInt8} (h : ∀ x ∈ front, x < 0x80) {rest : List UInt8} :
    Utf8 (front ++ rest) ↔ Utf8 rest := by
  induction front with
  | nil => rfl
  | cons x front ih =>
    obtain ⟨hx, hfront⟩ := List.forall_mem_cons.1 h
    rw [List.cons_append, utf8_ascii_cons_iff hx, ih hfront]

/-- An ASCII byte ends what is in front of it. -/
theorem utf8_split_iff {front rest : List UInt8} {x : UInt8} (hx : x < 0x80) :
    Utf8 (front ++ x :: rest) ↔ Utf8 front ∧ Utf8 rest := by
  constructor
  · rintro ⟨chars, h⟩
    induction chars generalizing front with
    | nil => exact absurd h (List.append_ne_nil_of_right_ne_nil _ (List.cons_ne_nil _ _))
    | cons c chars ih =>
      rw [List.flatMap_cons] at h
      rcases List.append_eq_append_iff.1 h with ⟨inside, hc, hrest⟩ | ⟨behind, rfl, hrest⟩
      · cases inside with
        | nil =>
          rw [List.append_nil] at hc
          rw [List.nil_append] at hrest
          have htext : Utf8 (x :: rest) := ⟨chars, hrest⟩
          have hfront : Utf8 (String.utf8EncodeChar c ++ []) := Utf8.nil.char_append c
          rw [List.append_nil, hc] at hfront
          exact ⟨hfront, (utf8_ascii_cons_iff hx).1 htext⟩
        | cons y inside =>
          obtain ⟨rfl, hrest⟩ := List.cons.inj hrest
          have hmem : x ∈ String.utf8EncodeChar c := by
            rw [hc]
            exact List.mem_append_right _ List.mem_cons_self
          have hsingle := eq_singleton_of_ascii hx hmem
          rw [hc, List.append_eq_singleton_iff] at hsingle
          rcases hsingle with ⟨rfl, hinside⟩ | ⟨-, hinside⟩
          · obtain ⟨-, rfl⟩ := List.cons.inj hinside
            exact ⟨.nil, chars, (List.cons.inj hrest).2⟩
          · exact absurd hinside (List.cons_ne_nil _ _)
      · obtain ⟨hbehind, htail⟩ := ih hrest.symm
        exact ⟨hbehind.char_append c, htail⟩
  · rintro ⟨hfront, hrest⟩
    rw [utf8_append_iff hfront]
    exact (utf8_ascii_cons_iff hx).2 hrest

/-- No character has the number of a surrogate. -/
theorem not_utf8_surrogate {b : UInt8} (hb : 0xA0 ≤ b) (rest : List UInt8) : ¬ Utf8 (0xED :: b :: rest) := by
  rintro ⟨chars, h⟩
  cases chars with
  | nil => exact absurd h (List.cons_ne_nil _ _)
  | cons c chars =>
    have hnat : ∀ {n : Nat} {x : UInt8}, n < 256 → x = UInt8.ofNat n → x.toNat = n := by
      rintro n _ hn rfl
      exact UInt8.toNat_ofNat_of_lt' hn
    have hlow : 0xA0 ≤ b.toNat := UInt8.le_iff_toNat_le.1 hb
    have hvalid : c.val.toNat < 0xD800 ∨ 0xDFFF < c.val.toNat := by
      rcases c.valid with hvalid | hvalid
      · exact .inl hvalid
      · exact .inr hvalid.1
    rw [List.flatMap_cons] at h
    unfold String.utf8EncodeChar at h
    dsimp only at h
    split at h
    · have hfirst : (0xED : UInt8).toNat = _ := hnat (by omega) (List.cons.inj h).1
      have : (0xED : UInt8).toNat = 0xED := rfl
      omega
    · split at h
      · have hfirst : (0xED : UInt8).toNat = _ := hnat (by omega) (List.cons.inj h).1
        have : (0xED : UInt8).toNat = 0xED := rfl
        omega
      · split at h
        · obtain ⟨hfirst, hrest⟩ := List.cons.inj h
          have hfirst : (0xED : UInt8).toNat = _ := hnat (by omega) hfirst
          have hsecond : b.toNat = _ := hnat (by omega) (List.cons.inj hrest).1
          have : (0xED : UInt8).toNat = 0xED := rfl
          omega
        · have hfirst : (0xED : UInt8).toNat = _ := hnat (by omega) (List.cons.inj h).1
          have : (0xED : UInt8).toNat = 0xED := rfl
          omega

end Lib
