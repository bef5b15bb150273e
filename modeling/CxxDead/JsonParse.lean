import CxxDead.JsonTermination
/-!
# The parser and the grammar

- `parse_sound`: what the parser accepts is a text of the grammar, and it returns
  what the derivation denotes.
- `Tree.printed`: every admitted tree is read back.
- `parse_spec`: both together, with termination and the bounds of the input.
-/

namespace CxxDead

open Lib

namespace Json

/-! ## Members by key -/

/-- The keys of a map, in order. -/
def KeySorted (members : List (Bytes × Value)) : Prop := members.Pairwise fun a b => a.1 < b.1

theorem emplaceMember_sorted {members result : List (Bytes × Value)} {key : Bytes} {v : Value} (h : KeySorted members)
    (hresult : emplaceMember members key v = some result) :
    KeySorted result ∧ result.Perm ((key, v) :: members) ∧ key ∉ members.map (·.1) := by
  induction members generalizing result with
  | nil =>
    cases hresult
    exact ⟨List.pairwise_singleton _ _, .refl _, by simp⟩
  | cons m members ih =>
    obtain ⟨hfirst, hrest⟩ := List.pairwise_cons.1 h
    unfold emplaceMember at hresult
    split at hresult
    · rename_i hlt
      cases hresult
      have hless : ∀ b ∈ m :: members, key < b.1 :=
        List.forall_mem_cons.2 ⟨hlt, fun b hb => lt_trans hlt (hfirst b hb)⟩
      refine ⟨List.pairwise_cons.2 ⟨hless, h⟩, .refl _, fun hmem => ?_⟩
      obtain ⟨b, hb, rfl⟩ := List.mem_map.1 hmem
      exact lt_irrefl _ (hless b hb)
    split at hresult
    · cases hresult
    · rename_i hlt hne
      obtain ⟨tail, htail, rfl⟩ := Option.map_eq_some_iff.1 hresult
      obtain ⟨hsorted, hperm, hnew⟩ := ih hrest htail
      refine ⟨List.pairwise_cons.2 ⟨fun b hb => ?_, hsorted⟩, (hperm.cons _).trans (.swap _ _ _), ?_⟩
      · rcases List.mem_cons.1 (hperm.mem_iff.1 hb) with rfl | hb
        · exact lt_of_le_of_ne (not_lt.1 hlt) fun heq => hne heq.symm
        · exact hfirst b hb
      · rw [List.map_cons, List.mem_cons, not_or]
        exact ⟨hne, hnew⟩

theorem eq_of_key {members : List (Bytes × Value)} (h : (members.map (·.1)).Nodup) :
    ∀ a ∈ members, ∀ b ∈ members, a.1 = b.1 → a = b := fun _ ha _ hb hab => List.inj_on_of_nodup_map h ha hb hab

/-- `parse_object` collects its members if their keys are distinct, ordered by key. -/
theorem emplaceMembers_iff {members result final : List (Bytes × Value)} (h : KeySorted result) :
    emplaceMembers result members = some final ↔
      ((result ++ members).map (·.1)).Nodup ∧ final = sortOn (·.1) (result ++ members) := by
  have hforward : ∀ final, emplaceMembers result members = some final →
      ((result ++ members).map (·.1)).Nodup ∧ final = sortOn (·.1) (result ++ members) := by
    intro final hfinal
    induction members generalizing result with
    | nil =>
      obtain rfl : result = final := Option.some.inj hfinal
      rw [List.append_nil]
      refine ⟨List.Pairwise.map _ (fun _ _ hab => ne_of_lt hab) h, ?_⟩
      exact (sortOn_of_pairwise _ (h.imp fun hab => le_of_lt hab)).symm
    | cons m members ih =>
      obtain ⟨result', hresult, hrest⟩ := Option.bind_eq_some_iff.1 hfinal
      obtain ⟨hsorted, hperm, -⟩ := emplaceMember_sorted h hresult
      obtain ⟨hnodup, rfl⟩ := ih hsorted hrest
      have hswap : (result' ++ members).Perm (result ++ m :: members) :=
        (hperm.append_right members).trans List.perm_middle.symm
      exact ⟨(hswap.map _).nodup_iff.1 hnodup, sortOn_perm_eq _ hswap (eq_of_key hnodup)⟩
  constructor
  · exact hforward final
  · rintro ⟨hnodup, rfl⟩
    obtain ⟨final, hfinal, -⟩ := emplaceMembers_nodup members result hnodup
    rw [hfinal, (hforward final hfinal).2]

/-! ## What the parser accepts -/

section Convert
variable {fromChars : Bytes → Option ℚ}

theorem whiteText_append (w w' : List White) : whiteText (w ++ w') = whiteText w ++ whiteText w' := List.map_append

theorem parseLiteral_ok {literal : String} {v v' : Value} {s rest : Bytes} (h : parseLiteral literal v s = .ok v' rest) :
    s = lit literal ++ rest ∧ v' = v := by
  unfold parseLiteral at h
  split at h
  · rename_i hprefix
    obtain ⟨tail, rfl⟩ := List.isPrefixOf_iff_prefix.1 hprefix
    cases h
    rw [List.drop_left]
    exact ⟨rfl, rfl⟩
  · cases h

theorem Members.keys_eq : ∀ members : Members, members.keys = (members.pairs fromChars).map (·.1)
  | .last .. => by simp [Members.keys, Members.pairs]
  | .more _ _ _ _ _ _ rest => by simp [Members.keys, Members.pairs, rest.keys_eq]

/-- What `parse_value` has read, with so much fuel. -/
def ValueSound (fromChars : Bytes → Option ℚ) (n : Nat) : Prop :=
  ∀ ⦃s v rest⦄, parseValue fromChars n s = .ok v rest →
    ∃ w, ∃ t : Tree, s = whiteText w ++ (t.text ++ rest) ∧ t.Admitted fromChars ∧ v = t.value fromChars

def ElementsSound (fromChars : Bytes → Option ℚ) (n : Nat) : Prop :=
  ∀ ⦃result s v rest⦄, parseElements fromChars n result s = .ok v rest →
    ∃ w, ∃ e : Elements, s = whiteText w ++ (e.text ++ 0x5D :: rest) ∧ e.Admitted fromChars ∧
      v = .array (result ++ e.values fromChars)

def MembersSound (fromChars : Bytes → Option ℚ) (n : Nat) : Prop :=
  ∀ ⦃result s v rest⦄, parseMembers fromChars n result s = .ok v rest →
    ∃ m : Members, ∃ final, s = m.text ++ 0x7D :: rest ∧ m.Admitted fromChars ∧
      emplaceMembers result (m.pairs fromChars) = some final ∧ v = .object final

theorem ElementsSound.succ {n : Nat} (hvalue : ValueSound fromChars n) (helements : ElementsSound fromChars n) :
    ElementsSound fromChars (n + 1) := by
  intro result s v rest h
  rw [parseElements] at h
  obtain ⟨first, s₁, hfirst, h₁⟩ := bind_ok_iff.1 h
  obtain ⟨_, s₂, hspace, h₂⟩ := bind_ok_iff.1 h₁
  obtain ⟨closed, s₃, hconsume, h₃⟩ := bind_ok_iff.1 h₂
  obtain ⟨w, t, rfl, ht, rfl⟩ := hvalue hfirst
  obtain ⟨before, rfl⟩ := skipSpace_ok hspace
  rcases consume_ok hconsume with ⟨rfl, rfl⟩ | ⟨rfl, rfl, -⟩
  · cases h₃
    refine ⟨w, .last t before, ?_, ?_, ?_⟩
    · rw [Elements.text, List.append_assoc]
      rfl
    · rwa [Elements.Admitted]
    · rw [Elements.values]
  · obtain ⟨_, s₄, hexpect, h₄⟩ := bind_ok_iff.1 h₃
    obtain ⟨_, s₅, hspace', h₅⟩ := bind_ok_iff.1 h₄
    obtain rfl := expect_ok hexpect
    obtain ⟨after, rfl⟩ := skipSpace_ok hspace'
    obtain ⟨w', e, rfl, he, rfl⟩ := helements h₅
    refine ⟨w, .more t before (after ++ w') e, ?_, ?_, ?_⟩
    · rw [Elements.text, whiteText_append]
      simp only [List.append_assoc, List.cons_append]
      rfl
    · rw [Elements.Admitted]
      exact ⟨ht, he⟩
    · rw [Elements.values, List.append_assoc]
      rfl

theorem MembersSound.succ {n : Nat} (hvalue : ValueSound fromChars n) (hmembers : MembersSound fromChars n) :
    MembersSound fromChars (n + 1) := by
  intro result s v rest h
  rw [parseMembers] at h
  obtain ⟨left, s₀, hget, h₀⟩ := bind_ok_iff.1 h
  cases hget
  split at h₀
  · cases h₀
  obtain ⟨key, s₁, hkey, h₁⟩ := bind_ok_iff.1 h₀
  obtain ⟨_, s₂, hspace, h₂⟩ := bind_ok_iff.1 h₁
  obtain ⟨_, s₃, hcolon, h₃⟩ := bind_ok_iff.1 h₂
  obtain ⟨_, s₄, hspace', h₄⟩ := bind_ok_iff.1 h₃
  obtain ⟨value, s₅, hfirst, h₅⟩ := bind_ok_iff.1 h₄
  obtain ⟨chars, rfl, hpaired, rfl⟩ := parseString_ok_iff.1 hkey
  obtain ⟨colon, rfl⟩ := skipSpace_ok hspace
  obtain rfl := expect_ok hcolon
  obtain ⟨gap, rfl⟩ := skipSpace_ok hspace'
  obtain ⟨w, t, rfl, ht, rfl⟩ := hvalue hfirst
  cases hplaced : emplaceMember result (decode chars) (t.value fromChars) with
  | none =>
    rw [hplaced] at h₅
    cases h₅
  | some result' =>
    rw [hplaced] at h₅
    obtain ⟨_, s₆, hspace₂, h₆⟩ := bind_ok_iff.1 h₅
    obtain ⟨closed, s₇, hconsume, h₇⟩ := bind_ok_iff.1 h₆
    obtain ⟨before, rfl⟩ := skipSpace_ok hspace₂
    rcases consume_ok hconsume with ⟨rfl, rfl⟩ | ⟨rfl, rfl, -⟩
    · cases h₇
      refine ⟨.last chars colon (gap ++ w) t before, result', ?_, ?_, ?_, rfl⟩
      · rw [Members.text, whiteText_append]
        simp only [List.append_assoc, List.cons_append]
        rfl
      · rw [Members.Admitted]
        exact ⟨hpaired, ht⟩
      · rw [Members.pairs]
        exact Option.bind_eq_some_iff.2 ⟨result', hplaced, rfl⟩
    · obtain ⟨_, s₈, hexpect, h₈⟩ := bind_ok_iff.1 h₇
      obtain ⟨_, s₉, hspace₃, h₉⟩ := bind_ok_iff.1 h₈
      obtain rfl := expect_ok hexpect
      obtain ⟨after, rfl⟩ := skipSpace_ok hspace₃
      obtain ⟨m, final, rfl, hm, hfinal, rfl⟩ := hmembers h₉
      refine ⟨.more chars colon (gap ++ w) t before after m, final, ?_, ?_, ?_, rfl⟩
      · rw [Members.text, whiteText_append]
        simp only [List.append_assoc, List.cons_append]
        rfl
      · rw [Members.Admitted]
        exact ⟨hpaired, ht, hm⟩
      · rw [Members.pairs]
        exact Option.bind_eq_some_iff.2 ⟨result', hplaced, hfinal⟩

theorem ValueSound.succ {n : Nat} (helements : ElementsSound fromChars n) (hmembers : MembersSound fromChars n) :
    ValueSound fromChars (n + 1) := by
  intro s v rest h
  rw [parseValue] at h
  obtain ⟨_, s₁, hspace, h₁⟩ := bind_ok_iff.1 h
  obtain ⟨left, s₂, hget, h₂⟩ := bind_ok_iff.1 h₁
  cases hget
  obtain ⟨w, rfl⟩ := skipSpace_ok hspace
  -- the white space apart, what was read is a tree
  suffices hsuff : ∃ t : Tree, s₁ = t.text ++ rest ∧ t.Admitted fromChars ∧ v = t.value fromChars by
    obtain ⟨t, rfl, ht, hv⟩ := hsuff
    exact ⟨w, t, rfl, ht, hv⟩
  cases s₁ with
  | nil => cases h₂
  | cons c input =>
    dsimp only at h₂
    split at h₂
    · obtain ⟨hs, rfl⟩ := parseLiteral_ok h₂
      exact ⟨.literal .null, hs, by rw [Tree.Admitted]; trivial, by rw [Tree.value]; rfl⟩
    split at h₂
    · obtain ⟨hs, rfl⟩ := parseLiteral_ok h₂
      exact ⟨.literal (.bool true), hs, by rw [Tree.Admitted]; trivial, by rw [Tree.value]; rfl⟩
    split at h₂
    · obtain ⟨hs, rfl⟩ := parseLiteral_ok h₂
      exact ⟨.literal (.bool false), hs, by rw [Tree.Admitted]; trivial, by rw [Tree.value]; rfl⟩
    split at h₂
    · obtain ⟨str, s₃, hstring, h₃⟩ := bind_ok_iff.1 h₂
      cases h₃
      obtain ⟨chars, hs, hpaired, rfl⟩ := parseString_ok_iff.1 hstring
      exact ⟨.string chars, by rw [Tree.text, hs], by rwa [Tree.Admitted], by rw [Tree.value]⟩
    split at h₂
    · obtain ⟨_, s₃, hexpect, h₃⟩ := bind_ok_iff.1 h₂
      obtain ⟨_, s₄, hspace', h₄⟩ := bind_ok_iff.1 h₃
      obtain ⟨closed, s₅, hconsume, h₅⟩ := bind_ok_iff.1 h₄
      rw [expect_ok hexpect]
      obtain ⟨gap, rfl⟩ := skipSpace_ok hspace'
      rcases consume_ok hconsume with ⟨rfl, rfl⟩ | ⟨rfl, rfl, -⟩
      · cases h₅
        refine ⟨.emptyArray gap, ?_, by rw [Tree.Admitted]; trivial, by rw [Tree.value]⟩
        rw [Tree.text, List.cons_append, List.append_assoc]
        rfl
      · obtain ⟨w', e, rfl, he, rfl⟩ := helements h₅
        refine ⟨.array (gap ++ w') e, ?_, by rwa [Tree.Admitted], by rw [Tree.value]; rfl⟩
        rw [Tree.text, whiteText_append]
        simp only [List.append_assoc, List.cons_append]
        rfl
    split at h₂
    · obtain ⟨_, s₃, hexpect, h₃⟩ := bind_ok_iff.1 h₂
      obtain ⟨_, s₄, hspace', h₄⟩ := bind_ok_iff.1 h₃
      obtain ⟨closed, s₅, hconsume, h₅⟩ := bind_ok_iff.1 h₄
      rw [expect_ok hexpect]
      obtain ⟨gap, rfl⟩ := skipSpace_ok hspace'
      rcases consume_ok hconsume with ⟨rfl, rfl⟩ | ⟨rfl, rfl, -⟩
      · cases h₅
        refine ⟨.emptyObject gap, ?_, by rw [Tree.Admitted]; trivial, by rw [Tree.value]⟩
        rw [Tree.text, List.cons_append, List.append_assoc]
        rfl
      · obtain ⟨m, final, rfl, hm, hfinal, rfl⟩ := hmembers h₅
        obtain ⟨hnodup, rfl⟩ := (emplaceMembers_iff List.Pairwise.nil).1 hfinal
        refine ⟨.object gap m, ?_, ?_, by rw [Tree.value]; rfl⟩
        · rw [Tree.text]
          simp only [List.append_assoc, List.cons_append]
          rfl
        · rw [Tree.Admitted, m.keys_eq]
          exact ⟨hnodup, hm⟩
    split at h₂
    · obtain ⟨token, number, hs, hnumber, rfl⟩ := parseNumber_ok h₂
      refine ⟨.number token, by rw [Tree.text, hs], by rw [Tree.Admitted]; exact ⟨number, hnumber⟩, ?_⟩
      rw [Tree.value, hnumber]
      rfl
    · cases h₂

/-- What the parser accepts is a text of the grammar, and it returns what that denotes. -/
theorem parse_sound (n : Nat) : ValueSound fromChars n ∧ ElementsSound fromChars n ∧ MembersSound fromChars n := by
  induction n with
  | zero =>
    refine ⟨fun _ _ _ h => ?_, fun _ _ _ _ h => ?_, fun _ _ _ _ h => ?_⟩
    · rw [parseValue] at h
      cases h
    · rw [parseElements] at h
      cases h
    · rw [parseMembers] at h
      cases h
  | succ n ih =>
    obtain ⟨hvalue, helements, hmembers⟩ := ih
    exact ⟨.succ helements hmembers, .succ hvalue helements, .succ hvalue hmembers⟩

/-! ## Every admitted tree is read -/

theorem Literal.printed (l : Literal) : Printed fromChars l.value l.text := by
  cases l with
  | null => exact .null
  | bool b => cases b <;> exact .bool _

theorem Printed.token {n : NumberToken} {number : ℚ} (hn : fromChars n.text = some number) :
    Printed fromChars (.number number) n.text := by
  obtain ⟨c, more, hc, hnumber, hspace, hother⟩ : ∃ c more, n.text = c :: more ∧ (c = ch '-' ∨ isDigit c = true) ∧
      isSpace c = false ∧ c ∉ lit "]ntf\"[\x7b" := by
    obtain ⟨negative, i, f, e⟩ := n
    have hdigit : ∀ d : Fin 10, isSpace (digitByte d) = false ∧ digitByte d ∉ lit "]ntf\"[\x7b" := by decide
    cases negative with
    | true => exact ⟨ch '-', _, rfl, .inl rfl, rfl, by decide⟩
    | false =>
      obtain ⟨d, more, hd⟩ := i.head
      refine ⟨digitByte d, more ++ fractionText f ++ exponentText e, ?_, .inr (digitByte_isDigit d), hdigit d⟩
      show [] ++ i.text ++ fractionText f ++ exponentText e = _
      rw [hd]
      rfl
  simp only [lit, List.mem_map, not_exists, not_and] at hother
  refine ⟨⟨c, more, hc, hspace, fun h => hother ']' (by decide) h.symm⟩, fun fuel rest hfuel hrest => ?_⟩
  obtain ⟨m, rfl⟩ := Nat.exists_eq_succ_of_ne_zero (Nat.ne_of_gt (Nat.lt_of_le_of_lt (Nat.zero_le _) hfuel))
  have hrun := parseNumber_run hn hrest
  rw [hc, List.cons_append] at hrun ⊢
  refine parseValue_head hspace m ((bind_of_ok rfl).trans ?_)
  have hne : ∀ d ∈ "]ntf\"[\x7b".toList, c ≠ ch d := fun d hd h => hother d hd h.symm
  simp only [hne 'n' (by decide), hne 't' (by decide), hne 'f' (by decide), hne '"' (by decide), hne '[' (by decide),
    show c ≠ 123 from hne (Char.ofNat 123) (by decide), if_false, hnumber, if_true]
  exact hrun

theorem Printed.chars {chars : List StringChar} (h : SurrogatesPaired chars) :
    Printed fromChars (.string (decode chars)) (stringText chars) := by
  refine ⟨⟨_, _, rfl, by decide, by decide⟩, fun fuel rest hfuel _ => ?_⟩
  obtain ⟨n, rfl⟩ := Nat.exists_eq_succ_of_ne_zero (Nat.ne_of_gt (Nat.lt_of_le_of_lt (Nat.zero_le _) hfuel))
  have hstring : parseString (stringText chars ++ rest) = .ok (decode chars) rest :=
    parseString_ok_iff.2 ⟨chars, rfl, h, rfl⟩
  refine parseValue_head (by decide) n ((bind_of_ok rfl).trans ?_)
  exact (bind_of_ok hstring).trans rfl

theorem parseString_text {chars : List StringChar} (h : SurrogatesPaired chars) (rest : Bytes) :
    parseString (stringText chars ++ rest) = .ok (decode chars) rest :=
  parseString_ok_iff.2 ⟨chars, rfl, h, rfl⟩

/-- Text that starts a value. -/
def StartsValue (text : Bytes) : Prop := ∃ c more, text = c :: more ∧ isSpace c = false ∧ c ≠ ch ']'

theorem StartsValue.append {text : Bytes} (h : StartsValue text) (rest : Bytes) : StartsValue (text ++ rest) := by
  obtain ⟨c, more, rfl, hc⟩ := h
  exact ⟨c, more ++ rest, rfl, hc⟩

theorem Printed.emptyArray (w : List White) : Printed fromChars (.array []) (0x5B :: (whiteText w ++ [0x5D])) := by
  have h : Printed fromChars _ (arrayText (whiteText w) [] [] _) :=
    Printed.array (whiteText_isSpace w) (by simp) (by simp) [] (by simp)
  rwa [arrayText, List.map_nil, List.map_nil, List.intercalate_nil, List.nil_append, List.nil_append] at h

/-- An array whose elements are read. -/
theorem Printed.arrayBody (w : List White) {text : Bytes} {values : List Value} (hstart : StartsValue text)
    (h : ∀ n result rest, text.length < n →
      parseElements fromChars (n + 1) result (text ++ ch ']' :: rest) = .ok (.array (result ++ values)) rest) :
    Printed fromChars (.array values) (0x5B :: (whiteText w ++ (text ++ [0x5D]))) := by
  refine ⟨⟨_, _, rfl, by decide, by decide⟩, fun fuel rest hfuel _ => ?_⟩
  obtain ⟨n, rfl⟩ := Nat.exists_eq_succ_of_ne_zero (Nat.ne_of_gt (Nat.lt_of_le_of_lt (Nat.zero_le _) hfuel))
  simp only [List.length_cons, List.length_append, List.length_nil] at hfuel
  obtain ⟨m, rfl⟩ := Nat.exists_eq_succ_of_ne_zero (show n ≠ 0 by omega)
  obtain ⟨c, more, hc, hspace, hne⟩ := hstart.append (ch ']' :: rest)
  have hconsume : consume ']' (c :: more) = .ok false (c :: more) :=
    consume_other fun d hd => by simpa [← show c = d by simpa using hd] using hne
  have hrun := h m [] rest (by omega)
  rw [List.nil_append, hc] at hrun
  rw [List.cons_append, List.append_assoc, List.append_assoc, List.singleton_append]
  refine parseValue_head (by decide) (m + 1) ((bind_of_ok rfl).trans ?_)
  refine (bind_of_ok (expect_same '[' _)).trans ?_
  rw [show text ++ 0x5D :: rest = c :: more from hc]
  refine (bind_of_ok (skipSpace_run (whiteText_isSpace w) hspace more)).trans ?_
  exact (bind_of_ok hconsume).trans hrun

theorem Printed.emptyObject (w : List White) : Printed fromChars (.object []) (0x7B :: (whiteText w ++ [0x7D])) := by
  refine ⟨⟨_, _, rfl, by decide, by decide⟩, fun fuel rest hfuel _ => ?_⟩
  obtain ⟨n, rfl⟩ := Nat.exists_eq_succ_of_ne_zero (Nat.ne_of_gt (Nat.lt_of_le_of_lt (Nat.zero_le _) hfuel))
  rw [List.cons_append, List.append_assoc, List.singleton_append]
  refine parseValue_head (by decide) n ((bind_of_ok rfl).trans ?_)
  refine (bind_of_ok (expect_same (Char.ofNat 123) _)).trans ?_
  refine (bind_of_ok (skipSpace_run (whiteText_isSpace w) (by decide) rest)).trans ?_
  exact (bind_of_ok (consume_same (Char.ofNat 125) rest)).trans rfl

/-- An object whose members are read. -/
theorem Printed.objectBody (w : List White) {text : Bytes} {members : List (Bytes × Value)}
    (hstart : ∃ more, text = ch '"' :: more)
    (h : ∀ n rest, text.length < n →
      parseMembers fromChars (n + 1) [] (text ++ ch (Char.ofNat 125) :: rest) = .ok (.object members) rest) :
    Printed fromChars (.object members) (0x7B :: (whiteText w ++ (text ++ [0x7D]))) := by
  refine ⟨⟨_, _, rfl, by decide, by decide⟩, fun fuel rest hfuel _ => ?_⟩
  obtain ⟨n, rfl⟩ := Nat.exists_eq_succ_of_ne_zero (Nat.ne_of_gt (Nat.lt_of_le_of_lt (Nat.zero_le _) hfuel))
  simp only [List.length_cons, List.length_append, List.length_nil] at hfuel
  obtain ⟨m, rfl⟩ := Nat.exists_eq_succ_of_ne_zero (show n ≠ 0 by omega)
  obtain ⟨more, rfl⟩ := hstart
  have hrun := h m rest (by omega)
  rw [List.cons_append, List.append_assoc, List.append_assoc, List.singleton_append]
  refine parseValue_head (by decide) (m + 1) ((bind_of_ok rfl).trans ?_)
  refine (bind_of_ok (expect_same (Char.ofNat 123) _)).trans ?_
  refine (bind_of_ok (skipSpace_run (whiteText_isSpace w) (by decide) _)).trans ?_
  exact (bind_of_ok rfl).trans hrun

mutual

theorem Tree.printed : ∀ t : Tree, t.Admitted fromChars → Printed fromChars (t.value fromChars) t.text
  | .literal l, _ => by
    rw [Tree.value, Tree.text]
    exact l.printed
  | .number n, h => by
    rw [Tree.Admitted] at h
    obtain ⟨number, hn⟩ := h
    rw [Tree.value, Tree.text, hn]
    exact .token hn
  | .string s, h => by
    rw [Tree.Admitted] at h
    rw [Tree.value, Tree.text]
    exact .chars h
  | .emptyArray w, _ => by
    rw [Tree.value, Tree.text]
    exact .emptyArray w
  | .array w e, h => by
    rw [Tree.Admitted] at h
    obtain ⟨hstart, hrun⟩ := e.run h
    rw [Tree.value, Tree.text]
    exact .arrayBody w hstart hrun
  | .emptyObject w, _ => by
    rw [Tree.value, Tree.text]
    exact .emptyObject w
  | .object w m, h => by
    rw [Tree.Admitted, m.keys_eq] at h
    obtain ⟨hstart, hrun⟩ := m.run h.2
    have hplaced : emplaceMembers [] (m.pairs fromChars) = some (sortOn (·.1) (m.pairs fromChars)) :=
      (emplaceMembers_iff List.Pairwise.nil).2 ⟨h.1, rfl⟩
    rw [Tree.value, Tree.text]
    exact .objectBody w hstart fun n rest hn => hrun n [] _ rest hn hplaced

theorem Elements.run : ∀ e : Elements, e.Admitted fromChars → StartsValue e.text ∧
    ∀ n result rest, e.text.length < n → parseElements fromChars (n + 1) result (e.text ++ ch ']' :: rest) =
      .ok (.array (result ++ e.values fromChars)) rest
  | .last t w, h => by
    rw [Elements.Admitted] at h
    have ht := t.printed h
    rw [Elements.text, Elements.values]
    refine ⟨StartsValue.append ht.head _, fun n result rest hn => ?_⟩
    rw [List.length_append] at hn
    rw [List.append_assoc]
    exact parseElements_last ht (whiteText_isSpace w) (by omega) result rest
  | .more t before after e, h => by
    rw [Elements.Admitted] at h
    have ht := t.printed h.1
    obtain ⟨hstart, hrun⟩ := e.run h.2
    rw [Elements.text, Elements.values]
    refine ⟨StartsValue.append ht.head _, fun n result rest hn => ?_⟩
    simp only [List.length_append, List.length_cons] at hn
    obtain ⟨m, rfl⟩ := Nat.exists_eq_succ_of_ne_zero (show n ≠ 0 by omega)
    obtain ⟨c, more, hc, hspace, -⟩ := hstart.append (ch ']' :: rest)
    have hnext := parseElements_next ht (whiteText_isSpace before) (whiteText_isSpace after) (n := m + 1) (by omega)
      result hspace more
    have hrest := hrun m (result ++ [t.value fromChars]) rest (by omega)
    simp only [List.append_assoc, List.cons_append]
    rw [hc] at hrest ⊢
    refine hnext.trans (hrest.trans ?_)
    rw [List.append_assoc]
    rfl

theorem Members.run : ∀ m : Members, m.Admitted fromChars → (∃ more, m.text = ch '"' :: more) ∧
    ∀ n result final rest, m.text.length < n → emplaceMembers result (m.pairs fromChars) = some final →
      parseMembers fromChars (n + 1) result (m.text ++ ch (Char.ofNat 125) :: rest) = .ok (.object final) rest
  | .last key colon gap t w, h => by
    rw [Members.Admitted] at h
    have ht := t.printed h.2
    rw [Members.text, Members.pairs]
    refine ⟨⟨_, rfl⟩, fun n result final rest hn hfinal => ?_⟩
    simp only [List.length_append, List.length_cons] at hn
    obtain ⟨result', hresult, hend⟩ := Option.bind_eq_some_iff.1 hfinal
    obtain rfl : result' = final := Option.some.inj hend
    have hmember := parseMembers_member (parseString_text h.1) ⟨_, rfl⟩ (whiteText_isSpace colon) (whiteText_isSpace gap)
      ht (n := n) (by omega) hresult (stops_white (whiteText_isSpace w)
        (stops_of (c := ch (Char.ofNat 125)) (by decide) (by decide) (by decide) (by decide) rest))
    simp only [List.append_assoc, List.cons_append]
    refine hmember.trans ?_
    exact (bind_of_ok (skipSpace_run (whiteText_isSpace w) (by decide) rest)).trans (bind_of_ok (consume_same _ rest))
  | .more key colon gap t before after m, h => by
    rw [Members.Admitted] at h
    have ht := t.printed h.2.1
    obtain ⟨⟨more, hmore⟩, hrun⟩ := m.run h.2.2
    rw [Members.text, Members.pairs]
    refine ⟨⟨_, rfl⟩, fun n result final rest hn hfinal => ?_⟩
    simp only [List.length_append, List.length_cons] at hn
    obtain ⟨k, rfl⟩ := Nat.exists_eq_succ_of_ne_zero (show n ≠ 0 by omega)
    obtain ⟨result', hresult, hrest⟩ := Option.bind_eq_some_iff.1 hfinal
    have hnext := hrun k result' final rest (by omega) hrest
    have hcomma : ∀ rest, consume (Char.ofNat 125) (ch ',' :: rest) = .ok false (ch ',' :: rest) := fun _ => rfl
    have hmember := parseMembers_member (parseString_text h.1) ⟨_, rfl⟩ (whiteText_isSpace colon) (whiteText_isSpace gap)
      ht (n := k + 1) (by omega) hresult (stops_white (whiteText_isSpace before) (stops_of (c := ch ',') (by decide)
        (by decide) (by decide) (by decide) (whiteText after ++ (m.text ++ ch (Char.ofNat 125) :: rest))))
    simp only [List.append_assoc, List.cons_append]
    refine hmember.trans ?_
    refine (bind_of_ok (skipSpace_run (whiteText_isSpace before) (by decide) _)).trans ?_
    refine (bind_of_ok (hcomma _)).trans ((bind_of_ok (expect_same ',' _)).trans ?_)
    rw [hmore] at hnext ⊢
    exact (bind_of_ok (skipSpace_run (whiteText_isSpace after) (by decide) _)).trans hnext

end

/-! ## The grammar decides -/

theorem document_of_parse {fromChars : Bytes → Option ℚ} {input : Bytes} {v : Value} (h : parse fromChars input = .ok v) :
    ∃ d : Document, d.text = input ∧ d.Admitted fromChars ∧ d.value fromChars = v := by
  obtain ⟨rest, hrun⟩ : ∃ rest, parseDocument fromChars (2 * input.length + 2) input = .ok v rest := by
    unfold parse at h
    split at h
    · rename_i value rest hrun
      cases h
      exact ⟨rest, hrun⟩
    · cases h
  obtain ⟨_, s₁, hspace, h₁⟩ := bind_ok_iff.1 hrun
  obtain ⟨value, s₂, hvalue, h₂⟩ := bind_ok_iff.1 h₁
  obtain ⟨_, s₃, hspace', h₃⟩ := bind_ok_iff.1 h₂
  obtain ⟨left, s₄, hget, h₄⟩ := bind_ok_iff.1 h₃
  cases hget
  split at h₄
  · cases h₄
  · rename_i hend
    cases h₄
    obtain ⟨before, hbefore⟩ := skipSpace_ok hspace
    obtain ⟨w, t, hread, ht, rfl⟩ := (parse_sound _).1 hvalue
    obtain ⟨after, hafter⟩ := skipSpace_ok hspace'
    refine ⟨⟨before ++ w, t, after⟩, ?_, ht, rfl⟩
    rw [Document.text, whiteText_append, List.append_assoc, hbefore, hread, hafter, not_not.1 hend, List.append_nil]

theorem Document.parse_text {fromChars : Bytes → Option ℚ} {d : Document} (h : d.Admitted fromChars) :
    parse fromChars d.text = .ok (d.value fromChars) :=
  (d.tree.printed h).parse_between (whiteText_isSpace d.before) (whiteText_isSpace d.after)

/-- A parser for the grammar, that stops and stays inside its input. -/
structure ParsesGrammar (fromChars : Bytes → Option ℚ) (input : Bytes) : Prop where
  accepts : ∀ v, parse fromChars input = .ok v ↔
    ∃ d : Document, d.text = input ∧ d.Admitted fromChars ∧ d.value fromChars = v
  /-- More recursion or more turns of the loop change nothing. -/
  terminates : ∀ fuel, 2 * input.length + 2 ≤ fuel →
    parseDocument fromChars fuel input = parseDocument fromChars (2 * input.length + 2) input
  loopTerminates : ∀ n result, input.length < n →
    parseCharacters n result input = parseCharacters (input.length + 1) result input
  /-- What is left is an end of the input, and the reads without a check find what they read. -/
  stays : ∀ fuel, endState (parseDocument fromChars fuel) input <:+ input
  readsInside : 4 ≤ input.length → ∀ rest, parseHexDigits 4 0 input ≠ .error (lit "incomplete unicode escape") rest

theorem parse_spec (fromChars : Bytes → Option ℚ) (input : Bytes) : ParsesGrammar fromChars input := by
  refine ⟨fun v => ⟨document_of_parse, ?_⟩, fun fuel h => parseDocument_fuel h, fun n result h => parseCharacters_fuel h
    (Nat.lt_succ_self _) result, fun fuel => parseDocument_keeps fuel input (List.suffix_refl _), parseHexDigits_inside 0⟩
  rintro ⟨d, rfl, hd, rfl⟩
  exact Document.parse_text hd

end Convert

end Json

end CxxDead
