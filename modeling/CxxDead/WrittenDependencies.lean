import CxxDead.MakeDependencies
/-!
# Which dependency files come back

- `text_resolve_count`: a resolved path has no more of any character than its token.
- `lexicallyNormal_dollars`: a doubled `$` stays in the path.
- `parseMakeDependencies_file_iff`: when the paths come back from every such file.
-/

namespace CxxDead

open Lib

namespace MakeDependencies

open CxxDead.Path (slash dot dotDot names joinNames normalNames)

/-! ## Counting a character -/

/-- How often `c` is in the names. -/
def total (c : UInt8) (ns : List Bytes) : Nat := (ns.map (List.count c)).sum

section Count
variable {c : UInt8}

theorem total_cons (n : Bytes) (ns : List Bytes) : total c (n :: ns) = n.count c + total c ns := rfl

theorem total_append (ns ns' : List Bytes) : total c (ns ++ ns') = total c ns + total c ns' := by
  rw [total, List.map_append, List.sum_append]
  rfl

theorem total_perm {ns ns' : List Bytes} (h : ns.Perm ns') : total c ns = total c ns' := (h.map _).sum_eq

theorem total_filter (p : Bytes → Bool) (ns : List Bytes) : total c (ns.filter p) ≤ total c ns := by
  induction ns with
  | nil => exact Nat.le_refl _
  | cons n ns ih =>
    rw [List.filter_cons]
    split
    · exact Nat.add_le_add_left ih _
    · exact Nat.le_trans ih (Nat.le_add_left _ _)

theorem count_intercalate (hslash : c ≠ slash) (ns : List Bytes) : ([slash].intercalate ns).count c = total c ns := by
  induction ns with
  | nil => rfl
  | cons n ns ih =>
    cases ns with
    | nil => simp [total]
    | cons m ns =>
      rw [List.intercalate_cons_cons, List.count_append, List.count_append, List.count_singleton, ih, total_cons n,
        if_neg (by simpa using Ne.symm hslash)]
      omega

theorem total_names (hslash : c ≠ slash) (s : Bytes) : total c (names s) ≤ s.count c := by
  have hdrop := (List.dropWhile_sublist (· == slash) (l := s)).count_le c
  have hparts : total c ((s.dropWhile (· == slash)).splitOn slash) = (s.dropWhile (· == slash)).count c := by
    rw [← count_intercalate hslash, List.intercalate_splitOn]
  unfold names
  dsimp only
  split
  · exact Nat.zero_le _
  · have hne := List.splitOn_ne_nil slash (s.dropWhile (· == slash))
    rw [List.getLast?_eq_some_getLast hne, Option.getD_some]
    have hlast := congrArg (total c) (List.dropLast_append_getLast hne)
    rw [total_append] at hlast ⊢
    refine Nat.le_trans (Nat.add_le_add_right (total_filter _ _) _) ?_
    omega

theorem total_normalNames (abs : Bool) (ns kept : List Bytes) (trail : Bool) :
    total c (normalNames abs ns kept trail).1 ≤ total c ns + total c kept := by
  fun_induction normalNames abs ns kept trail with
  | case1 kept trail =>
    rw [total_perm (List.reverse_perm kept)]
    exact Nat.le_add_left _ _
  | _ => simp only [total_cons] at *; omega

theorem text_lexicallyNormal_count (hslash : c ≠ slash) (hdot : c ≠ ch '.') (p : Path) :
    p.lexicallyNormal.text.count c ≤ p.text.count c := by
  have hjoin : ∀ abs ns, (joinNames abs ns).count c = total c ns := by
    intro abs ns
    rw [joinNames, List.count_append, count_intercalate hslash]
    cases abs
    · exact Nat.zero_add _
    · rw [if_pos rfl, List.count_singleton, if_neg (by simpa using Ne.symm hslash), Nat.zero_add]
  have hnames := total_names hslash p.text
  have hnormal := total_normalNames (c := c) p.isAbsolute (names p.text) [] false
  have hnil : total c [] = 0 := rfl
  unfold Path.lexicallyNormal
  split
  · exact Nat.le_refl _
  · split
    rename_i kept trail heq
    rw [heq, hnil] at hnormal
    dsimp only at hnormal
    split
    · refine le_of_eq_of_le (List.count_eq_zero.2 fun hmem => ?_) (Nat.zero_le _)
      split at hmem
      · exact hslash (List.mem_singleton.1 hmem)
      · exact hdot (List.mem_singleton.1 hmem)
    · split
      · have hempty : total c [([] : Bytes)] = 0 := rfl
        rw [hjoin, total_append, hempty]
        omega
      · rw [hjoin]
        omega

end Count

/-! ## Doubled dollars -/

theorem dollars_cons (c : UInt8) (t : Bytes) :
    dollars (c :: t) = (if c = ch '$' then [c, c] else [c]) ++ dollars t := rfl

theorem dollars_append (t t' : Bytes) : dollars (t ++ t') = dollars t ++ dollars t' := List.flatMap_append

theorem dollars_plain {c : UInt8} (hc : c ≠ ch '$') (t : Bytes) : dollars (c :: t) = c :: dollars t := by
  rw [dollars_cons, if_neg hc]
  rfl

theorem length_dollars (t : Bytes) : (dollars t).length = t.length + t.count (ch '$') := by
  induction t with
  | nil => rfl
  | cons c t ih =>
    rw [dollars_cons, List.length_append, ih, List.length_cons, List.count_cons]
    by_cases hc : c = ch '$'
    · rw [if_pos hc, if_pos (beq_iff_eq.2 hc)]
      simp only [List.length_cons, List.length_nil]
      omega
    · rw [if_neg hc, if_neg (by simpa using hc)]
      simp only [List.length_cons, List.length_nil]
      omega

theorem dollars_eq {t : Bytes} (h : ch '$' ∉ t) : dollars t = t := by
  induction t with
  | nil => rfl
  | cons c t ih =>
    rw [List.mem_cons, not_or] at h
    rw [dollars_plain (Ne.symm h.1), ih h.2]

theorem dollars_eq_self {t : Bytes} : dollars t = t ↔ ch '$' ∉ t := by
  refine ⟨fun heq => List.count_eq_zero.1 ?_, dollars_eq⟩
  have hlength := congrArg List.length heq
  rw [length_dollars] at hlength
  omega

theorem mem_dollars {c : UInt8} {t : Bytes} : c ∈ dollars t ↔ c ∈ t := by
  rw [dollars, List.mem_flatMap]
  constructor
  · rintro ⟨d, hd, hc⟩
    split at hc
    · rcases List.mem_cons.1 hc with rfl | hc
      · exact hd
      · exact List.mem_singleton.1 hc ▸ hd
    · exact List.mem_singleton.1 hc ▸ hd
  · intro hc
    refine ⟨c, hc, ?_⟩
    split <;> exact List.mem_cons_self

/-- A text without a dollar is found again. -/
theorem dollars_eq_iff {t u : Bytes} (hu : ch '$' ∉ u) : dollars t = u ↔ t = u := by
  constructor
  · rintro rfl
    exact (dollars_eq fun hmem => hu (mem_dollars.2 hmem)).symm
  · rintro rfl
    exact dollars_eq hu

theorem slash_ne_dollar : slash ≠ ch '$' := by decide

theorem dropWhile_dollars (t : Bytes) :
    (dollars t).dropWhile (· == slash) = dollars (t.dropWhile (· == slash)) := by
  induction t with
  | nil => rfl
  | cons c t ih =>
    by_cases hc : c = slash
    · subst hc
      rw [dollars_plain slash_ne_dollar, List.dropWhile_cons_of_pos (by simp), ih,
        List.dropWhile_cons_of_pos (by simp)]
    · rw [List.dropWhile_cons_of_neg (by simpa using hc), dollars_cons]
      split <;> exact List.dropWhile_cons_of_neg (by simpa using hc)

theorem splitOn_dollars (t : Bytes) : (dollars t).splitOn slash = (t.splitOn slash).map dollars := by
  induction t with
  | nil => rfl
  | cons c t ih =>
    by_cases hc : c = slash
    · subst hc
      rw [dollars_plain slash_ne_dollar, List.splitOn_cons_eq_if_modifyHead, List.splitOn_cons_eq_if_modifyHead,
        if_pos (by simp), if_pos (by simp), ih]
      rfl
    · have hsplit : ∀ l : Bytes, (c :: l).splitOn slash = (l.splitOn slash).modifyHead (c :: ·) := by
        intro l
        rw [List.splitOn_cons_eq_if_modifyHead, if_neg (by simpa using hc)]
      cases hparts : t.splitOn slash with
      | nil => exact absurd hparts (List.splitOn_ne_nil slash t)
      | cons part parts =>
        rw [hparts, List.map_cons] at ih
        rw [dollars_cons, hsplit t, hparts]
        by_cases hdollar : c = ch '$'
        · rw [if_pos hdollar, List.cons_append, List.singleton_append, hsplit, hsplit, ih]
          simp only [List.modifyHead_cons, List.map_cons, dollars_cons, if_pos hdollar]
          rfl
        · rw [if_neg hdollar, List.singleton_append, hsplit, ih]
          simp only [List.modifyHead_cons, List.map_cons, dollars_cons, if_neg hdollar]
          rfl

theorem names_dollars (t : Bytes) : names (dollars t) = (names t).map dollars := by
  have hnil : ∀ n : Bytes, decide (dollars n ≠ []) = decide (n ≠ []) := by
    intro n
    rw [decide_eq_decide, ne_eq, ne_eq, dollars_eq_iff List.not_mem_nil]
  unfold names
  rw [dropWhile_dollars, splitOn_dollars]
  dsimp only
  cases hparts : (t.dropWhile (· == slash)).splitOn slash with
  | nil => exact absurd hparts (List.splitOn_ne_nil slash _)
  | cons part parts =>
    have hiff : (part :: parts).map dollars = [[]] ↔ part :: parts = [[]] := by
      rw [List.map_cons, List.cons.injEq, List.cons.injEq, dollars_eq_iff List.not_mem_nil, List.map_eq_nil_iff]
    by_cases hempty : part :: parts = [[]]
    · rw [if_pos (hiff.2 hempty), if_pos hempty]
      rfl
    · rw [if_neg (fun h => hempty (hiff.1 h)), if_neg hempty, List.map_append, ← List.map_dropLast, List.filter_map,
        List.getLast?_map, List.getLast?_eq_some_getLast (List.cons_ne_nil _ _)]
      simp only [Function.comp_def, hnil]
      rfl

theorem joinNames_dollars (abs : Bool) (ns : List Bytes) :
    joinNames abs (ns.map dollars) = dollars (joinNames abs ns) := by
  have hslash : dollars [slash] = [slash] := rfl
  have hintercalate : [slash].intercalate (ns.map dollars) = dollars ([slash].intercalate ns) := by
    induction ns with
    | nil => rfl
    | cons n ns ih =>
      cases ns with
      | nil => simp
      | cons m ns =>
        rw [List.map_cons, List.map_cons, List.intercalate_cons_cons, ← List.map_cons, ih,
          List.intercalate_cons_cons, dollars_append, dollars_append, hslash]
  unfold joinNames
  rw [hintercalate, dollars_append]
  cases abs <;> rfl

theorem normalNames_dollars (abs : Bool) (ns kept : List Bytes) (trail : Bool) :
    normalNames abs (ns.map dollars) (kept.map dollars) trail =
      ((normalNames abs ns kept trail).1.map dollars, (normalNames abs ns kept trail).2) := by
  have hempty : ∀ n : Bytes, dollars n = [] ↔ n = [] := fun n => dollars_eq_iff List.not_mem_nil
  have hdot : ∀ n : Bytes, dollars n = dot ↔ n = dot := fun n => dollars_eq_iff (by decide)
  have hdotDot : ∀ n : Bytes, dollars n = dotDot ↔ n = dotDot := fun n => dollars_eq_iff (by decide)
  induction ns generalizing kept trail with
  | nil => simp only [List.map_nil, normalNames, List.map_reverse]
  | cons n ns ih =>
    cases kept with
    | nil =>
      simp only [List.map_cons, List.map_nil, normalNames, hempty, hdot, hdotDot]
      split
      · exact ih [] true
      · split
        · split
          · exact ih [] true
          · exact ih [n] false
        · exact ih [n] false
    | cons k kept =>
      simp only [List.map_cons, normalNames, hempty, hdot, hdotDot]
      split
      · exact ih (k :: kept) true
      · split
        · split
          · exact ih (n :: k :: kept) false
          · exact ih kept true
        · exact ih (n :: k :: kept) false

theorem lexicallyNormal_dollars (p : Path) :
    (Path.mk (dollars p.text)).lexicallyNormal = ⟨dollars p.lexicallyNormal.text⟩ := by
  have habsolute : (Path.mk (dollars p.text)).isAbsolute = p.isAbsolute := by
    unfold Path.isAbsolute
    cases p.text with
    | nil => rfl
    | cons c t =>
      rw [dollars_cons]
      split <;> rfl
  have hempty : (Path.mk (dollars p.text)).isEmpty = p.isEmpty := by
    rw [Bool.eq_iff_iff, Path.isEmpty, Path.isEmpty, List.isEmpty_iff, List.isEmpty_iff]
    exact dollars_eq_iff List.not_mem_nil
  have hnormal := normalNames_dollars p.isAbsolute (names p.text) [] false
  rw [List.map_nil] at hnormal
  unfold Path.lexicallyNormal
  rw [hempty, habsolute, names_dollars, hnormal]
  by_cases h : p.isEmpty = true
  · rw [if_pos h, if_pos h]
  rw [if_neg h, if_neg h]
  simp only [List.map_eq_nil_iff]
  split
  · cases p.isAbsolute <;> rfl
  · have hlast : ((normalNames p.isAbsolute (names p.text) [] false).1.map dollars).getLast? ≠ some dotDot ↔
        (normalNames p.isAbsolute (names p.text) [] false).1.getLast? ≠ some dotDot := by
      rw [List.getLast?_map, ne_eq, ne_eq, not_iff_not, Option.map_eq_some_iff]
      constructor
      · rintro ⟨n, hn, hdots⟩
        rw [hn, (dollars_eq_iff (by decide)).1 hdots]
      · exact fun hn => ⟨dotDot, hn, rfl⟩
    simp only [hlast]
    split
    · rw [← joinNames_dollars, List.map_append]
      rfl
    · rw [joinNames_dollars]

/-! ## What is read is not more than what is written -/

def root : Path := ⟨[slash]⟩

section Held
variable {c : UInt8} (hslash : c ≠ slash) (hdot : c ≠ ch '.')

/-- How often `c` is in what the scanner holds. -/
def held (c : UInt8) (s : Scan) : Nat := s.token.count c + (s.result.map (·.text.count c)).sum

include hslash hdot

theorem text_resolve_count (token : Bytes) : (resolve root root token).text.count c ≤ token.count c := by
  have happend : (root.append ⟨token⟩).isAbsolute = true ∧ (root.append ⟨token⟩).text.count c ≤ token.count c := by
    unfold Path.append
    by_cases habsolute : (Path.mk token).isAbsolute = true
    · rw [if_pos (by simp [habsolute])]
      exact ⟨habsolute, Nat.le_refl _⟩
    · rw [if_neg (by simpa [root, Path.isEmpty] using habsolute), if_pos (by rfl)]
      refine ⟨rfl, ?_⟩
      rw [root, List.count_append, List.count_singleton, if_neg (by simpa using Ne.symm hslash), Nat.zero_add]
  unfold resolve
  refine Nat.le_trans (text_lexicallyNormal_count hslash hdot _) ?_
  by_cases habsolute : (Path.mk token).isAbsolute = true
  · rw [if_pos habsolute]
    exact happend.2
  · rw [if_neg habsolute, Path.append, happend.1, Bool.true_or, if_pos rfl]
    exact happend.2

theorem held_flush (s : Scan) : held c (s.flush root root) ≤ held c s := by
  unfold Scan.flush held
  split
  · exact Nat.add_le_add_right (Nat.zero_le _) _
  · have hresolve := text_resolve_count hslash hdot s.token
    rw [List.map_append, List.sum_append]
    simp only [List.map_cons, List.map_nil, List.sum_cons, List.sum_nil, List.count_nil]
    omega

theorem held_step (s : Scan) (d : UInt8) : held c (s.step root root d) ≤ held c s + [d].count c := by
  have htoken : ∀ token result, (List.count c (token ++ [d])) + result = List.count c token + result + [d].count c := by
    intro token result
    rw [List.count_append]
    omega
  unfold Scan.step
  split
  · exact Nat.le_of_eq (htoken _ _)
  · split
    · exact Nat.le_add_right _ _
    · split
      · refine Nat.le_trans (Nat.le_trans ?_ (Nat.le_add_left _ (s.token.count c))) (Nat.le_add_right _ _)
        exact Nat.le_of_eq (Nat.zero_add _)
      · split
        · exact Nat.le_trans (held_flush hslash hdot s) (Nat.le_add_right _ _)
        · exact Nat.le_of_eq (htoken _ _)

theorem held_run (s : Scan) (text : Bytes) : held c (run root root s text) ≤ held c s + text.count c := by
  induction text generalizing s with
  | nil => exact Nat.le_refl _
  | cons d text ih =>
    have hstep := held_step hslash hdot s d
    have hcount : (d :: text).count c = [d].count c + text.count c := by
      rw [← List.count_append, List.singleton_append]
    rw [run_cons, hcount]
    exact Nat.le_trans (ih _) (by omega)

theorem held_finish (hplain : c ≠ ch '\\') (s : Scan) : held c (s.finish root root) ≤ held c s := by
  unfold Scan.finish
  refine Nat.le_trans (held_flush hslash hdot _) ?_
  split
  · unfold held
    rw [List.count_append, List.count_singleton, if_neg (by simpa using Ne.symm hplain)]
    exact Nat.le_refl _
  · exact Nat.le_refl _

end Held

/-! ### A colon behind an escaped one -/

theorem count_flattened {c : UInt8} (hc : c ≠ ch ' ') (s : Bytes) : (flattened s).count c ≤ s.count c := by
  fun_induction flattened s with
  | case1 => exact Nat.le_refl _
  | case2 d => exact Nat.le_refl _
  | case3 d e s _ ih =>
    simp only [List.count_cons, beq_iff_eq, if_neg (Ne.symm hc)]
    omega
  | case4 d e s _ ih =>
    simp only [List.count_cons] at ih ⊢
    omega

theorem colons_encode (slashes : Nat) (text : Bytes) : (encode slashes text).count (ch ':') = text.count (ch ':') := by
  have hslash : (ch '\\' == ch ':') = false := by decide
  have hdollar : (ch '$' == ch ':') = false := by decide
  induction text generalizing slashes with
  | nil => rfl
  | cons c text ih =>
    unfold encode
    split
    · rw [List.count_cons, List.count_cons, ih]
    · split
      · rw [List.count_append, List.count_replicate, hslash, List.count_cons, List.count_cons, ih]
        simp
      · split
        · rw [List.count_cons, List.count_cons, List.count_cons, ih, hslash]
          rfl
        · split
          · rw [List.count_cons, List.count_cons, List.count_cons, ih, hdollar]
            rfl
          · rw [List.count_cons, List.count_cons, ih]

/-- Entries with one space between them, and a newline at the end. -/
def oneLine : Layout := ⟨[.space], fun _ => (.space, []), [], true⟩

theorem colons_rest (i : Nat) (paths : List Path) :
    (oneLine.rest i paths).count (ch ':') = (paths.map (·.text.count (ch ':'))).sum := by
  induction paths generalizing i with
  | nil => rfl
  | cons p paths ih =>
    have hgap : (Blank.text .space).count (ch ':') = 0 := rfl
    have hrest : oneLine.rest i (p :: paths) = Blank.text .space ++ (encode 0 p.text ++ oneLine.rest (i + 1) paths) :=
      rfl
    rw [hrest, List.count_append, List.count_append, colons_encode, ih, hgap, Nat.zero_add]
    rfl

theorem run_hidden (text : Bytes) {s : Scan} (htarget : s.afterTarget = false) :
    (run root root s text).afterTarget = false ∨
      held (ch ':') (run root root s text) + 1 ≤ (s.result.map (·.text.count (ch ':'))).sum + text.count (ch ':') := by
  induction text generalizing s with
  | nil => exact .inl htarget
  | cons c text ih =>
    rw [run_cons, List.count_cons]
    by_cases hcolon : s.escaped = false ∧ c = ch ':'
    · obtain ⟨hescaped, rfl⟩ := hcolon
      have hstep : s.step root root (ch ':') = { s with token := [], afterTarget := true } := by
        rw [Scan.step, if_neg (by simp [hescaped]), if_neg (show ch ':' ≠ ch '\\' by decide),
          if_pos (by simp [htarget])]
      have hheld : held (ch ':') { s with token := [], afterTarget := true } =
          (s.result.map (·.text.count (ch ':'))).sum := Nat.zero_add _
      have hrun := held_run (c := ch ':') (by decide) (by decide) { s with token := [], afterTarget := true } text
      refine .inr ?_
      rw [hstep, if_pos (beq_self_eq_true _)]
      omega
    · have hstep : (s.step root root c).afterTarget = false ∧ (s.step root root c).result = s.result := by
        by_cases hc : c = ch ':'
        · have hescaped : s.escaped = true := by
            cases h : s.escaped with
            | false => exact absurd ⟨h, hc⟩ hcolon
            | true => rfl
          rw [step_escaped hescaped]
          exact ⟨htarget, rfl⟩
        · exact step_target root root htarget hc
      refine (ih hstep.1).imp id fun hheld => ?_
      rw [hstep.2] at hheld
      omega

/-! ### Backslashes that get lost -/

/-- What an entry with `n` backslashes may add, and less if it does not come back. -/
structure Taken (s s' : Scan) (n : Nat) (whole : Prop) : Prop where
  escaped : s'.escaped = false
  afterTarget : s'.afterTarget = true
  le : held (ch '\\') s' ≤ held (ch '\\') s + n
  lt : ¬ whole → held (ch '\\') s' < held (ch '\\') s + n

/-- Backslashes and then other characters are put on the token. -/
def taken (s : Scan) (n : Nat) (text : Bytes) : Scan :=
  { s with token := s.token ++ (List.replicate n (ch '\\') ++ text), escaped := false }

theorem held_taken (s : Scan) (n : Nat) {text : Bytes} (htext : ch '\\' ∉ text) :
    held (ch '\\') (taken s n text) = held (ch '\\') s + n := by
  unfold held taken
  rw [List.count_append, List.count_append, List.count_replicate_self, List.count_eq_zero.2 htext]
  exact Nat.add_right_comm _ _ _

theorem taken_entry {text : Bytes} (hprintable : ∀ c ∈ text, ch ' ' ≤ c) (slashes : Nat) {blank : UInt8}
    (hblank : blank = ch ' ' ∨ blank = ch '\n') {s : Scan} (hescaped : s.escaped = false)
    (htarget : s.afterTarget = true) :
    Taken s (run root root s (List.replicate slashes (ch '\\') ++ (encode slashes text ++ [blank])))
      (slashes + text.count (ch '\\')) (Escapable slashes text) := by
  induction text generalizing slashes s with
  | nil =>
    have hslash : ch '\\' ∉ [blank] := by rcases hblank with rfl | rfl <;> decide
    rw [encode, List.nil_append, run_append, run_slashes _ hescaped]
    show Taken s (Scan.step _ _ _ blank) _ _
    rcases Nat.mod_two_eq_zero_or_one slashes with heven | hodd
    · have hopen : decide (slashes % 2 = 1) = false := by simp [heven]
      have hflush := held_flush (c := ch '\\') (by decide) (by decide) (taken s (slashes / 2) [])
      rw [held_taken s _ List.not_mem_nil] at hflush
      rw [hopen, step_blank rfl hblank, ← List.append_nil (List.replicate _ _)]
      refine ⟨(flush_neutral root root rfl).1, ?_, Nat.le_trans hflush (by omega), fun hlost => ?_⟩
      · unfold Scan.flush
        split <;> exact htarget
      · have hpos : slashes ≠ 0 := hlost
        exact Nat.lt_of_le_of_lt hflush (by omega)
    · have hheld := held_taken s (slashes / 2) hslash
      rw [step_escaped (by simp [hodd]), List.append_assoc]
      refine ⟨rfl, htarget, ?_, fun _ => ?_⟩
      · exact Nat.le_trans (Nat.le_of_eq hheld) (by omega)
      · exact Nat.lt_of_le_of_lt (Nat.le_of_eq hheld) (by omega)
  | cons c rest ih =>
    have hrest : ∀ c ∈ rest, ch ' ' ≤ c := fun c hc => hprintable c (List.mem_cons_of_mem _ hc)
    unfold encode
    by_cases hslash : c = ch '\\'
    · have hmove : ∀ l : Bytes, List.replicate slashes (ch '\\') ++ (c :: l ++ [blank]) =
          List.replicate (slashes + 1) (ch '\\') ++ (l ++ [blank]) := by
        intro l
        rw [hslash, List.replicate_succ', List.append_assoc, List.singleton_append, List.cons_append]
      have hnext := ih hrest (slashes + 1) hescaped htarget
      have hescapable : Escapable slashes (c :: rest) = Escapable (slashes + 1) rest := if_pos hslash
      rw [if_pos hslash, hmove, hescapable, List.count_cons, if_pos (by simpa using hslash)]
      rwa [Nat.add_comm (List.count _ _) 1, ← Nat.add_assoc]
    have hcount : (c :: rest).count (ch '\\') = rest.count (ch '\\') := List.count_cons_of_ne hslash
    have hnext : ∀ {n : Nat} {text : Bytes}, ch '\\' ∉ text → n ≤ slashes →
        (¬ Escapable slashes (c :: rest) → Escapable 0 rest → n < slashes) →
        Taken s (run root root (taken s n text) (encode 0 rest ++ [blank]))
          (slashes + (c :: rest).count (ch '\\')) (Escapable slashes (c :: rest)) := by
      intro n text htext hle hlt
      have htaken := ih hrest 0 (s := taken s n text) rfl htarget
      rw [List.replicate_zero, List.nil_append] at htaken
      have hbound := htaken.le
      have hheld := held_taken s n htext
      refine ⟨htaken.escaped, htaken.afterTarget, by omega, fun hlost => ?_⟩
      by_cases hwhole : Escapable 0 rest
      · have hless := hlt hlost hwhole
        omega
      · have hless := htaken.lt hwhole
        omega
    have hsingle : ch '\\' ∉ [c] := by simpa using Ne.symm hslash
    have hescapable : Escapable slashes (c :: rest) = if c = ch ' ' then Escapable 0 rest
        else if c = ch '#' then slashes ≤ 1 ∧ Escapable 0 rest else slashes = 0 ∧ Escapable 0 rest := if_neg hslash
    rw [if_neg hslash]
    by_cases hspace : c = ch ' '
    · have hhalf : (slashes + (slashes + 1)) / 2 = slashes ∧ (slashes + (slashes + 1)) % 2 = 1 := by omega
      have hlost : ¬ Escapable slashes (c :: rest) → Escapable 0 rest → slashes < slashes := by
        rw [hescapable, if_pos hspace]
        exact fun hlost hwhole => absurd hwhole hlost
      rw [if_pos hspace, List.append_assoc, ← List.append_assoc (List.replicate slashes _), ← List.replicate_add,
        run_append, run_slashes _ hescaped, hhalf.1, hhalf.2, List.cons_append, run_cons, step_escaped (by simp),
        List.append_assoc]
      exact hnext hsingle (Nat.le_refl _) hlost
    rw [if_neg hspace] at hescapable ⊢
    have hplain : plain c = true := by
      rw [plain, Bool.and_eq_true, decide_eq_true_eq, decide_eq_true_eq]
      exact ⟨lt_of_le_of_ne (hprintable c List.mem_cons_self) (Ne.symm hspace), hslash⟩
    by_cases hhash : c = ch '#'
    · have hmove : ∀ l : Bytes, List.replicate slashes (ch '\\') ++ (ch '\\' :: c :: l ++ [blank]) =
          List.replicate (slashes + 1) (ch '\\') ++ (c :: (l ++ [blank])) := by
        intro l
        rw [List.replicate_succ', List.append_assoc, List.singleton_append, List.cons_append, List.cons_append]
      have hlost : ¬ Escapable slashes (c :: rest) → Escapable 0 rest → (slashes + 1) / 2 < slashes := by
        rw [hescapable, if_pos hhash]
        intro hlost hwhole
        have hmany : ¬ slashes ≤ 1 := fun hle => hlost ⟨hle, hwhole⟩
        omega
      rw [if_pos hhash, hmove, run_append, run_slashes _ hescaped, run_cons, step_plain (by exact htarget) hplain,
        List.append_assoc]
      exact hnext hsingle (by omega) hlost
    rw [if_neg hhash] at hescapable ⊢
    have hlost : ¬ Escapable slashes (c :: rest) → Escapable 0 rest → slashes / 2 < slashes := by
      rw [hescapable]
      intro hlost hwhole
      have hsome : slashes ≠ 0 := fun hzero => hlost ⟨hzero, hwhole⟩
      omega
    by_cases hdollar : c = ch '$'
    · subst hdollar
      have htwice : ch '\\' ∉ [ch '$', ch '$'] := by decide
      rw [if_pos rfl, run_append, run_slashes _ hescaped, List.cons_append, List.cons_append, run_cons,
        step_plain (by exact htarget) hplain, run_cons, step_plain (by exact htarget) hplain, List.append_assoc,
        List.append_assoc, List.append_assoc]
      exact hnext htwice (by omega) hlost
    · rw [if_neg hdollar, run_append, run_slashes _ hescaped, List.cons_append, run_cons,
        step_plain (by exact htarget) hplain, List.append_assoc]
      exact hnext hsingle (by omega) hlost

theorem encode_concat (slashes : Nat) (text : Bytes) :
    encode slashes (text ++ [ch '\\']) = encode slashes text ++ [ch '\\'] := by
  induction text generalizing slashes with
  | nil => rfl
  | cons c text ih =>
    rw [List.cons_append]
    unfold encode
    simp only [ih]
    split
    · rfl
    · split
      · rw [List.append_assoc]
        rfl
      · split
        · rfl
        · split <;> rfl

theorem Taken.trans {s s' s'' : Scan} {n m : Nat} {whole whole' : Prop} (h : Taken s s' n whole)
    (h' : Taken s' s'' m whole') : Taken s s'' (n + m) (whole ∧ whole') := by
  have hle := h.le
  have hle' := h'.le
  refine ⟨h'.escaped, h'.afterTarget, by omega, fun hlost => ?_⟩
  rcases not_and_or.1 hlost with hlost | hlost
  · have hlt := h.lt hlost
    omega
  · have hlt := h'.lt hlost
    omega

/-- The last entry, whose backslash at the end continues the line. -/
theorem taken_last {p : Path} (hp : Reported p) {s : Scan} (hescaped : s.escaped = false)
    (htarget : s.afterTarget = true) :
    Taken s (run root root s (flattened (encode 0 p.text ++ [ch '\n']))) (p.text.count (ch '\\'))
      (Escapable 0 p.text) := by
  have hnewline := encode_noNewline hp.noNewline 0
  by_cases hlast : p.text.getLast? = some (ch '\\')
  · obtain ⟨text, htext⟩ : ∃ text : Bytes, p.text = text ++ [ch '\\'] := by
      rcases List.eq_nil_or_concat p.text with hnil | ⟨text, c, htext⟩
      · exact absurd hnil hp.text_ne_nil
      · rw [htext, List.concat_eq_append, List.getLast?_concat] at hlast
        exact ⟨text, by rw [htext, List.concat_eq_append, Option.some.inj hlast]⟩
    rw [htext, encode_concat, List.mem_append, not_or] at hnewline
    have hflattened : flattened (encode 0 p.text ++ [ch '\n']) = encode 0 text ++ [ch ' '] := by
      rw [htext, encode_concat, List.append_assoc, flattened_append (.inr (by decide)), flattened_eq hnewline.1]
      rfl
    have hentry := taken_entry
      (fun c hc => (hp.printable c (by rw [htext]; exact List.mem_append_left _ hc)).1) 0 (.inl rfl) hescaped htarget
    rw [List.replicate_zero, List.nil_append] at hentry
    have hle := hentry.le
    rw [hflattened, htext, List.count_append, List.count_singleton_self]
    exact ⟨hentry.escaped, hentry.afterTarget, by omega, fun _ => by omega⟩
  · have hentry := taken_entry (fun c hc => (hp.printable c hc).1) 0 (.inr rfl) hescaped htarget
    rw [List.replicate_zero, List.nil_append, Nat.zero_add] at hentry
    rwa [flattened_append (.inl (encode_getLast hlast 0)), flattened_eq hnewline]

theorem taken_rest {p : Path} {paths : List Path} (hpaths : ∀ q ∈ p :: paths, Reported q) (i : Nat) {s : Scan}
    (hescaped : s.escaped = false) (htarget : s.afterTarget = true) :
    Taken s (run root root s (flattened (encode 0 p.text ++ oneLine.rest i paths)))
      ((p :: paths).map (·.text.count (ch '\\'))).sum (∀ q ∈ p :: paths, Escapable 0 q.text) := by
  obtain ⟨hp, hrest⟩ := List.forall_mem_cons.1 hpaths
  induction paths generalizing p s i with
  | nil =>
    have hlast := taken_last hp hescaped htarget
    exact ⟨hlast.escaped, hlast.afterTarget, hlast.le,
      fun hlost => hlast.lt fun h => hlost (List.forall_mem_singleton.2 h)⟩
  | cons q paths ih =>
    have hentry := taken_entry (fun c hc => (hp.printable c hc).1) 0 (.inl rfl) hescaped htarget
    rw [List.replicate_zero, List.nil_append, Nat.zero_add] at hentry
    obtain ⟨hq, hrest'⟩ := List.forall_mem_cons.1 hrest
    have hspace : flattened (encode 0 p.text ++ oneLine.rest i (q :: paths)) =
        (encode 0 p.text ++ [ch ' ']) ++ flattened (encode 0 q.text ++ oneLine.rest (i + 1) paths) := by
      rw [List.append_assoc, List.singleton_append, ← flattened_cons (.inl (by decide)), ←
        flattened_eq (encode_noNewline hp.noNewline 0), ← flattened_append (.inr (by rw [List.head?_cons]; decide)),
        flattened_eq (encode_noNewline hp.noNewline 0)]
      rfl
    have hboth := hentry.trans (ih hrest (i + 1) hentry.escaped hentry.afterTarget hq hrest')
    rw [hspace, run_append]
    refine ⟨hboth.escaped, hboth.afterTarget, hboth.le, fun hlost => hboth.lt fun h => hlost ?_⟩
    exact List.forall_mem_cons.2 h

/-! ## The whole file -/

section File
variable {cwd workingDirectory : Path}

/-- What the scanner has at the end of a rule. -/
def atEnd (cwd workingDirectory : Path) (layout : Layout) (target : Bytes) (p : Path) (paths : List Path) : Scan :=
  (run cwd workingDirectory (run cwd workingDirectory {} (flattened target ++ [ch ':']))
    (flattened (layout.first.flatMap Blank.text ++ (encode 0 p.text ++ layout.rest 0 paths)))).finish cwd workingDirectory

theorem parseMakeDependencies_file (depfile : Path) (layout : Layout) (target : Bytes) (p : Path) (paths found : List Path)
    (hfound : found ≠ []) :
    parseMakeDependencies cwd depfile (some (layout.file target (p :: paths))) workingDirectory = .ok found ↔
      (atEnd cwd workingDirectory layout target p paths).afterTarget = true ∧
        (atEnd cwd workingDirectory layout target p paths).result = found := by
  have hscan : ((flattened (layout.file target (p :: paths))).foldl (Scan.step cwd workingDirectory) {}).finish cwd
      workingDirectory = atEnd cwd workingDirectory layout target p paths := by
    rw [Layout.file, flattened_append (.inr (by rw [List.head?_cons]; decide)), flattened_cons (.inl (by decide)),
      atEnd, ← run_append, List.append_assoc]
    rfl
  unfold parseMakeDependencies
  dsimp only
  rw [hscan]
  constructor
  · intro h
    split at h
    · exact nomatch h
    · rename_i hsome
      have hsome := Bool.or_eq_false_iff.1 (Bool.eq_false_iff.2 hsome)
      exact ⟨by simpa using hsome.1, Except.ok.inj h⟩
  · rintro ⟨htarget, hresult⟩
    rw [if_neg (by simp [htarget, hresult, hfound]), hresult]

theorem resolve_absolute {text : Bytes} (h : (Path.mk text).isAbsolute = true) :
    resolve cwd workingDirectory text = (Path.mk text).lexicallyNormal := by
  simp only [resolve, Path.append, h, Bool.true_or, if_true]

theorem isAbsolute_dollars {p : Path} (h : p.isAbsolute = true) : (Path.mk (dollars p.text)).isAbsolute = true := by
  unfold Path.isAbsolute at h ⊢
  cases htext : p.text with
  | nil => rw [htext] at h; exact nomatch h
  | cons c t =>
    rw [htext] at h
    rw [dollars_cons]
    split <;> exact h

theorem resolve_dollars {p : Path} (hp : Reported p) :
    resolve cwd workingDirectory (dollars p.text) = ⟨dollars p.text⟩ := by
  rw [resolve_absolute (isAbsolute_dollars hp.isAbsolute), lexicallyNormal_dollars, hp.normal]

/-- The paths that are read from a rule whose backslashes come back. -/
theorem atEnd_eq {target : Bytes} (hcolon : ch ':' ∉ target) (heven : lastSlashes target % 2 = 0) (layout : Layout)
    {p : Path} {paths : List Path} (hpaths : ∀ q ∈ p :: paths, Reported q)
    (hescapable : ∀ q ∈ p :: paths, Escapable 0 q.text) :
    atEnd cwd workingDirectory layout target p paths =
      { afterTarget := true, result := (p :: paths).map fun q => ⟨dollars q.text⟩ } := by
  obtain ⟨hp, hrest⟩ := List.forall_mem_cons.1 hpaths
  obtain ⟨hentry, hescapable⟩ := List.forall_mem_cons.1 hescapable
  have hresolve : (p :: paths).map (fun q => resolve cwd workingDirectory (dollars q.text)) =
      (p :: paths).map fun q => ⟨dollars q.text⟩ := List.map_congr_left fun q hq => resolve_dollars (hpaths q hq)
  unfold atEnd
  rw [run_colon hcolon heven, run_path hp hentry, finish_rest layout hrest hescapable, ← hresolve]
  · rfl
  · rfl
  · rfl
  · exact dollars_ne_nil hp.text_ne_nil
  · rfl
  · rfl
  · rfl

theorem finish_afterTarget (s : Scan) : (s.finish cwd workingDirectory).afterTarget = s.afterTarget := by
  have hflush : ∀ s : Scan, (s.flush cwd workingDirectory).afterTarget = s.afterTarget := by
    intro s
    unfold Scan.flush
    split <;> rfl
  unfold Scan.finish
  rw [hflush]
  split <;> rfl

end File

/-- An escaped colon is not seen, and another one is lost. -/
theorem atEnd_odd {target : Bytes} (hcolon : ch ':' ∉ target) (hodd : lastSlashes target % 2 = 1) (p : Path)
    (paths : List Path) : (atEnd root root oneLine target p paths).afterTarget = false ∨
      (atEnd root root oneLine target p paths).result ≠ p :: paths := by
  obtain ⟨htarget, hresult, hescaped⟩ := run_flattened_target root root hcolon
  rw [hodd] at hescaped
  have hstep : run root root (run root root {} (flattened target)) [ch ':'] = _ := step_escaped hescaped (ch ':')
  have hhidden := run_hidden
    (flattened (oneLine.first.flatMap Blank.text ++ (encode 0 p.text ++ oneLine.rest 0 paths)))
    (s := run root root {} (flattened target ++ [ch ':'])) (by rw [run_append, hstep]; exact htarget)
  have hcount := count_flattened (c := ch ':') (by decide)
    (oneLine.first.flatMap Blank.text ++ (encode 0 p.text ++ oneLine.rest 0 paths))
  have hfirst : (oneLine.first.flatMap Blank.text).count (ch ':') = 0 := rfl
  rw [List.count_append, List.count_append, hfirst, colons_encode, colons_rest] at hcount
  rcases hhidden with hhidden | hhidden
  · exact .inl ((finish_afterTarget _).trans hhidden)
  · refine .inr fun hfound => ?_
    have hresult' : (run root root {} (flattened target ++ [ch ':'])).result = [] := by
      rw [run_append, hstep]
      exact hresult
    have hend := held_finish (c := ch ':') (by decide) (by decide) (by decide)
      (run root root (run root root {} (flattened target ++ [ch ':']))
        (flattened (oneLine.first.flatMap Blank.text ++ (encode 0 p.text ++ oneLine.rest 0 paths))))
    have hheld : ((p :: paths).map (·.text.count (ch ':'))).sum ≤
        held (ch ':') (atEnd root root oneLine target p paths) := by
      rw [held, hfound]
      exact Nat.le_add_left _ _
    rw [hresult', List.map_nil, List.sum_nil] at hhidden
    rw [List.map_cons, List.sum_cons] at hheld
    unfold atEnd at hheld
    omega

/-- Some backslash is lost. -/
theorem atEnd_lost {target : Bytes} (hcolon : ch ':' ∉ target) (heven : lastSlashes target % 2 = 0) {p : Path}
    {paths : List Path} (hpaths : ∀ q ∈ p :: paths, Reported q) (hlost : ¬ ∀ q ∈ p :: paths, Escapable 0 q.text) :
    (atEnd root root oneLine target p paths).result ≠ p :: paths := by
  intro hfound
  have htaken := taken_rest hpaths 0 (s := { afterTarget := true }) rfl rfl
  have hlt := htaken.lt hlost
  have hspace : run root root { afterTarget := true }
      (flattened (oneLine.first.flatMap Blank.text ++ (encode 0 p.text ++ oneLine.rest 0 paths))) =
      run root root { afterTarget := true } (flattened (encode 0 p.text ++ oneLine.rest 0 paths)) := by
    rw [flattened_blanks, run_append, run_blanks rfl rfl fun c hc => .inl (List.eq_of_mem_replicate hc)]
  have hend : atEnd root root oneLine target p paths =
      (run root root { afterTarget := true } (flattened (encode 0 p.text ++ oneLine.rest 0 paths))).flush root root := by
    unfold atEnd
    rw [run_colon hcolon heven, hspace, Scan.finish, if_neg (by simp [htaken.escaped])]
  have hflush := held_flush (c := ch '\\') (by decide) (by decide)
    (run root root { afterTarget := true } (flattened (encode 0 p.text ++ oneLine.rest 0 paths)))
  have hheld : ((p :: paths).map (·.text.count (ch '\\'))).sum ≤
      held (ch '\\') (atEnd root root oneLine target p paths) := by
    rw [held, hfound]
    exact Nat.le_add_left _ _
  have hstart : held (ch '\\') { afterTarget := true } = 0 := rfl
  rw [hend] at hheld
  omega

/-- The paths come back from every rule if no `$` is in them, their backslashes are in front of spaces (or one is in
front of a `#`), and the target does not escape the colon. -/
theorem parseMakeDependencies_file_iff {target : Bytes} (hcolon : ch ':' ∉ target) {paths : List Path}
    (hsome : paths ≠ []) (hpaths : ∀ p ∈ paths, Reported p) :
    (∀ (layout : Layout) (cwd depfile workingDirectory : Path),
      parseMakeDependencies cwd depfile (some (layout.file target paths)) workingDirectory = .ok paths) ↔
      lastSlashes target % 2 = 0 ∧ ∀ p ∈ paths, ch '$' ∉ p.text ∧ Escapable 0 p.text := by
  obtain ⟨p, paths, rfl⟩ := List.exists_cons_of_ne_nil hsome
  constructor
  · intro h
    obtain ⟨htarget, hresult⟩ := (parseMakeDependencies_file _ oneLine target p paths _ hsome).1
      (h oneLine root root root)
    have heven : lastSlashes target % 2 = 0 := by
      rcases Nat.mod_two_eq_zero_or_one (lastSlashes target) with heven | hodd
      · exact heven
      · rcases atEnd_odd hcolon hodd p paths with hhidden | hother
        · exact absurd (hhidden.symm.trans htarget) (by decide)
        · exact absurd hresult hother
    have hescapable : ∀ q ∈ p :: paths, Escapable 0 q.text := by
      by_contra hlost
      exact atEnd_lost hcolon heven hpaths hlost hresult
    rw [atEnd_eq hcolon heven oneLine hpaths hescapable] at hresult
    refine ⟨heven, fun q hq => ⟨dollars_eq_self.1 ?_, hescapable q hq⟩⟩
    exact congrArg Path.text (List.map_inj_left.1 (hresult.trans (List.map_id _).symm) q hq)
  · rintro ⟨heven, hpath⟩ layout cwd depfile workingDirectory
    rw [parseMakeDependencies_file _ _ _ _ _ _ hsome,
      atEnd_eq hcolon heven layout hpaths fun q hq => (hpath q hq).2]
    refine ⟨rfl, (List.map_congr_left fun q hq => ?_).trans (List.map_id _)⟩
    exact congrArg Path.mk (dollars_eq (hpath q hq).1)

/-- A path with a space and one with a `#`. -/
def escapedPaths : List Path := [⟨lit "/p/a b.h"⟩, ⟨lit "/p/c\\#.h"⟩]

theorem escapedPaths_file : parseMakeDependencies root ⟨lit "d"⟩ (some (oneLine.file (lit "a.o") escapedPaths)) root =
    .ok escapedPaths := by
  have hreported : ∀ p ∈ escapedPaths, Reported p := by
    have hall : ∀ p ∈ escapedPaths, p.isAbsolute = true ∧ p.lexicallyNormal = p ∧
        ∀ c ∈ p.text, ch ' ' ≤ c ∧ c ≠ 127 := by decide
    exact fun p hp => ⟨(hall p hp).1, (hall p hp).2.1, (hall p hp).2.2⟩
  have hescapable : ∀ p ∈ escapedPaths, ch '$' ∉ p.text ∧ Escapable 0 p.text := by
    refine List.forall_mem_cons.2 ⟨⟨by decide, ?_⟩, List.forall_mem_singleton.2 ⟨by decide, ?_⟩⟩
    · simp [Escapable, lit, ch]
    · simp [Escapable, lit, ch]
  exact (parseMakeDependencies_file_iff (by decide) (by decide) hreported).2 ⟨by decide, hescapable⟩ oneLine root
    ⟨lit "d"⟩ root

/-- A doubled `$` is kept, and a single backslash is dropped: another file is meant. -/
theorem parseMakeDependencies_other :
    (ch ':' ∉ lit "a.o" ∧ Reported ⟨lit "/p/a$b.h"⟩ ∧ Reported ⟨lit "/p/a\\b.h"⟩) ∧
      parseMakeDependencies root ⟨lit "d"⟩ (some (oneLine.file (lit "a.o") [⟨lit "/p/a$b.h"⟩])) root =
        .ok [⟨lit "/p/a$$b.h"⟩] ∧
      parseMakeDependencies root ⟨lit "d"⟩ (some (oneLine.file (lit "a.o") [⟨lit "/p/a\\b.h"⟩])) root =
        .ok [⟨lit "/p/ab.h"⟩] :=
  ⟨⟨by decide, ⟨by decide, by decide, by decide⟩, ⟨by decide, by decide, by decide⟩⟩, by decide, by decide⟩

end MakeDependencies

end CxxDead
