import CxxDead.BuildModel
import CxxDead.Generic
import CxxDead.Location
/-!
# Containment of paths

Whether a path lies in a directory is read off the first name of the path
relative to the directory. On absolute paths in normal form this compares names:

- `Path.lexicallyRelative_eq`: the relative path starts with `..` unless the
  directory's components come first in the path's.
- `lexicallyNormal_isAbsoluteNormal`, `replyDirectory_normal`: the paths that the
  program compares are in normal form.
- `containment_by_components`: both forms of `pathIsWithin`, and `referencedFile`.
-/

namespace CxxDead

open Lib

namespace Path

/-- An absolute path that equals its normal form. -/
structure IsAbsoluteNormal (p : Path) : Prop where
  isAbsolute : p.isAbsolute = true
  normal : p.lexicallyNormal.same p = true

/-- The components up to the empty name that a trailing slash leaves. -/
def directoryComponents (p : Path) : List Bytes := p.components.takeWhile (· ≠ [])

end Path

/-! ## The functions of the program -/

/-- `path_is_within` of the command line. -/
def CommandLine.pathIsWithin (child parent : Path) : Bool :=
  let relative := child.lexicallyRelative parent
  if relative.isEmpty then child.same parent
  else !relative.isAbsolute && relative.components.head? != some Path.dotDot

/-- Where CMake leaves its replies in a build directory. -/
def replyDirectory (disk : Disk) (buildDirectory : Path) : Except Exception Path := do
  let buildRoot := (← disk.absolute buildDirectory).lexicallyNormal
  pure ((((buildRoot.append ⟨lit ".cmake"⟩).append ⟨lit "api"⟩).append ⟨lit "v1"⟩).append ⟨lit "reply"⟩)

def referencedFile (directory : Path) (name : Bytes) : Except Exception Path :=
  let relative : Path := ⟨name⟩
  if relative.isEmpty || relative.isAbsolute then
    .error (.runtimeError (lit "CMake File API reply contains an invalid jsonFile path"))
  else
    let result := (directory.append relative).lexicallyNormal
    let relation := result.lexicallyRelative directory
    if relation.isEmpty || relation.isAbsolute || relation.components.head? == some Path.dotDot then
      .error (.runtimeError (lit "CMake File API jsonFile escapes the reply directory"))
    else .ok result

namespace Path

/-! ## Names in normal form -/

/-- A name that stands for itself. -/
structure Plain (n : Bytes) : Prop where
  ne_nil : n ≠ []
  ne_dot : n ≠ dot
  ne_dotDot : n ≠ dotDot
  no_slash : slash ∉ n

variable {kept ns : List Bytes} {p base : Path}

theorem isNames_plain (h : ∀ n ∈ kept, Plain n) : IsNames kept :=
  ⟨fun n hn => (h n hn).no_slash, fun n hn => (h n (List.mem_of_mem_dropLast hn)).ne_nil,
    fun hhead => (h [] (List.mem_of_head? hhead)).ne_nil rfl⟩

theorem isNames_trailing (h : ∀ n ∈ kept, Plain n) (hne : kept ≠ []) : IsNames (kept ++ [[]]) := by
  refine ⟨fun n hn => ?_, fun n hn => ?_, fun hhead => ?_⟩
  · rcases List.mem_append.1 hn with hn | hn
    · exact (h n hn).no_slash
    · rw [List.mem_singleton.1 hn]
      exact List.not_mem_nil
  · rw [List.dropLast_concat] at hn
    exact (h n hn).ne_nil
  · rw [List.head?_append_of_ne_nil kept hne] at hhead
    exact (isNames_plain h).head_ne hhead

theorem normalNames_plain (hns : ∀ n ∈ ns, slash ∉ n) (hkept : ∀ n ∈ kept, Plain n) (trail : Bool) :
    ∀ n ∈ (normalNames true ns kept trail).1, Plain n := by
  induction ns generalizing kept trail with
  | nil => exact fun n hn => hkept n (List.mem_reverse.1 hn)
  | cons m ns ih =>
    have hrest : ∀ n ∈ ns, slash ∉ n := fun n hn => hns n (List.mem_cons_of_mem m hn)
    unfold normalNames
    split
    · exact ih hrest hkept true
    · rename_i hm
      split
      · rename_i hup
        cases kept with
        | nil => exact ih hrest hkept true
        | cons k ks =>
          -- no kept name is `..`, so one goes up
          simp only [if_neg (hkept k List.mem_cons_self).ne_dotDot]
          exact ih hrest (fun n hn => hkept n (List.mem_cons_of_mem k hn)) true
      · rename_i hup
        refine ih hrest (fun n hn => ?_) false
        rcases List.mem_cons.1 hn with rfl | hn
        · exact ⟨fun h => hm (.inl h), fun h => hm (.inr h), hup, hns _ List.mem_cons_self⟩
        · exact hkept n hn

theorem normalNames_nil (abs : Bool) (kept : List Bytes) (trail : Bool) :
    normalNames abs [] kept trail = (kept.reverse, trail) := by
  unfold normalNames
  rfl

/-- A trailing slash. -/
theorem normalNames_empty (abs : Bool) (kept : List Bytes) (trail : Bool) :
    normalNames abs [[]] kept trail = (kept.reverse, true) := by
  unfold normalNames
  rw [if_pos (.inl rfl), normalNames_nil]

theorem normalNames_cons {m : Bytes} (hm : Plain m) (abs : Bool) (ns kept : List Bytes) (trail : Bool) :
    normalNames abs (m :: ns) kept trail = normalNames abs ns (m :: kept) false := by
  conv_lhs => unfold normalNames
  rw [if_neg (by simp [hm.ne_nil, hm.ne_dot]), if_neg hm.ne_dotDot]

theorem normalNames_append (hns : ∀ n ∈ ns, Plain n) (kept rest : List Bytes) (trail : Bool) :
    normalNames true (ns ++ rest) kept trail =
      normalNames true rest (ns.reverse ++ kept) (if ns = [] then trail else false) := by
  induction ns generalizing kept trail with
  | nil => rfl
  | cons m ns ih =>
    rw [List.cons_append, normalNames_cons (hns m List.mem_cons_self),
      ih (fun n hn => hns n (List.mem_cons_of_mem m hn)), if_neg (List.cons_ne_nil m ns), List.reverse_cons,
      List.append_assoc, List.singleton_append, ite_self]

/-! ## Absolute paths in normal form -/

/-- The normal form of an absolute path: plain names, and perhaps a trailing slash. -/
theorem lexicallyNormal_eq (hp : p.isAbsolute = true) :
    ∃ kept, (∀ n ∈ kept, Plain n) ∧ (p.lexicallyNormal = ⟨joinNames true kept⟩ ∨
      kept ≠ [] ∧ p.lexicallyNormal = ⟨joinNames true (kept ++ [[]])⟩) := by
  have hnonempty : p.isEmpty = false := by
    cases htext : p.text with
    | nil => simp [isAbsolute, htext] at hp
    | cons c rest => simp [isEmpty, htext]
  have hplain := normalNames_plain (names_isNames p.text).no_slash (List.forall_mem_nil Plain) false
  unfold lexicallyNormal
  rw [hnonempty, hp]
  refine ⟨_, hplain, ?_⟩
  simp only [Bool.false_eq_true, if_false, if_true]
  split
  · rename_i hnil
    rw [hnil]
    exact .inl rfl
  · rename_i hne
    split
    · exact .inr ⟨hne, rfl⟩
    · exact .inl rfl

theorem lexicallyNormal_joinNames (h : ∀ n ∈ kept, Plain n) :
    (Path.mk (joinNames true kept)).lexicallyNormal = ⟨joinNames true kept⟩ := by
  have hnormal := normalNames_append h [] [] false
  rw [List.append_nil, List.append_nil, ite_self, normalNames_nil, List.reverse_reverse] at hnormal
  have hnonempty : (Path.mk (joinNames true kept)).isEmpty = false := rfl
  unfold lexicallyNormal
  rw [hnonempty, isAbsolute_joinNames (isNames_plain h), names_joinNames (isNames_plain h), hnormal]
  by_cases hnil : kept = []
  · rw [hnil]
    rfl
  · simp [hnil]

theorem lexicallyNormal_trailing (h : ∀ n ∈ kept, Plain n) (hne : kept ≠ []) :
    (Path.mk (joinNames true (kept ++ [[]]))).lexicallyNormal = ⟨joinNames true (kept ++ [[]])⟩ := by
  have hnormal := normalNames_append h [] [[]] false
  rw [List.append_nil, normalNames_empty, List.reverse_reverse] at hnormal
  have hnonempty : (Path.mk (joinNames true (kept ++ [[]]))).isEmpty = false := rfl
  have hlast : kept.getLast? ≠ some dotDot := fun hlast => (h _ (List.mem_of_getLast? hlast)).ne_dotDot rfl
  unfold lexicallyNormal
  rw [hnonempty, isAbsolute_joinNames (isNames_trailing h hne), names_joinNames (isNames_trailing h hne), hnormal]
  simp [hne, hlast]

theorem same_self (p : Path) : p.same p = true := by
  unfold same
  rw [beq_self_eq_true]

theorem isAbsoluteNormal_joinNames (h : ∀ n ∈ kept, Plain n) : (Path.mk (joinNames true kept)).IsAbsoluteNormal :=
  ⟨isAbsolute_joinNames (isNames_plain h) true, by rw [lexicallyNormal_joinNames h]; exact same_self _⟩

theorem isAbsoluteNormal_trailing (h : ∀ n ∈ kept, Plain n) (hne : kept ≠ []) :
    (Path.mk (joinNames true (kept ++ [[]]))).IsAbsoluteNormal :=
  ⟨isAbsolute_joinNames (isNames_trailing h hne) true, by rw [lexicallyNormal_trailing h hne]; exact same_self _⟩

theorem lexicallyNormal_isAbsoluteNormal (hp : p.isAbsolute = true) : p.lexicallyNormal.IsAbsoluteNormal := by
  obtain ⟨kept, hkept, heq | ⟨hne, heq⟩⟩ := lexicallyNormal_eq hp
  · rw [heq]
    exact isAbsoluteNormal_joinNames hkept
  · rw [heq]
    exact isAbsoluteNormal_trailing hkept hne

/-- The names of an absolute path in normal form, perhaps before an empty one. -/
theorem IsAbsoluteNormal.names_eq (hp : p.IsAbsoluteNormal) :
    ∃ kept t, (∀ n ∈ kept, Plain n) ∧ (∀ n ∈ t, n = []) ∧ names p.text = kept ++ t := by
  have hnames : names p.text = names p.lexicallyNormal.text := by
    rw [← names_generic p, ← same_iff.1 hp.normal, names_generic]
  obtain ⟨kept, hkept, heq | ⟨hne, heq⟩⟩ := lexicallyNormal_eq hp.isAbsolute
  · refine ⟨kept, [], hkept, List.forall_mem_nil _, ?_⟩
    rw [hnames, heq, List.append_nil, names_joinNames (isNames_plain hkept)]
  · refine ⟨kept, [[]], hkept, fun n hn => List.mem_singleton.1 hn, ?_⟩
    rw [hnames, heq, names_joinNames (isNames_trailing hkept hne)]

theorem takeWhile_plain {t : List Bytes} (h : ∀ n ∈ kept, Plain n) (ht : ∀ n ∈ t, n = []) :
    (kept ++ t).takeWhile (· ≠ []) = kept := by
  rw [List.takeWhile_append_of_pos fun n hn => decide_eq_true (h n hn).ne_nil]
  cases t with
  | nil => exact List.append_nil kept
  | cons n t => rw [ht n List.mem_cons_self, List.takeWhile_cons_of_neg (by simp), List.append_nil]

theorem components_eq (hp : p.isAbsolute = true) : p.components = [slash] :: names p.text := if_pos hp

theorem directoryComponents_eq (hp : p.isAbsolute = true) :
    p.directoryComponents = [slash] :: (names p.text).takeWhile (· ≠ []) := by
  unfold directoryComponents
  rw [components_eq hp, List.takeWhile_cons_of_pos (by simp)]

theorem directoryComponents_joinNames (h : ∀ n ∈ kept, Plain n) :
    (Path.mk (joinNames true kept)).directoryComponents = (Path.mk (joinNames true kept)).components := by
  have habs := isAbsolute_joinNames (isNames_plain h) true
  have hall := takeWhile_plain h (List.forall_mem_nil _)
  rw [List.append_nil] at hall
  rw [directoryComponents_eq habs, components_eq habs, names_joinNames (isNames_plain h), hall]

/-! ## Relative paths -/

/-- Both lists begin with what they have in common, and then differ. -/
theorem mismatch_spec (as bs : List Bytes) :
    ∃ common, as = common ++ (mismatch as bs).1 ∧ bs = common ++ (mismatch as bs).2 ∧
      ∀ n, (mismatch as bs).1.head? = some n → (mismatch as bs).2.head? ≠ some n := by
  induction as generalizing bs with
  | nil => exact ⟨[], rfl, rfl, fun n hn => absurd hn (by simp [mismatch])⟩
  | cons a as ih =>
    cases bs with
    | nil => exact ⟨[], rfl, rfl, fun n _ => by simp [mismatch]⟩
    | cons b bs =>
      by_cases hab : a = b
      · obtain ⟨common, has, hbs, hhead⟩ := ih bs
        rw [mismatch, if_pos hab]
        exact ⟨a :: common, congrArg (a :: ·) has, by rw [← hab]; exact congrArg (a :: ·) hbs, hhead⟩
      · rw [mismatch, if_neg hab]
        refine ⟨[], rfl, rfl, fun n hn hn' => hab ?_⟩
        exact (Option.some.inj hn).trans (Option.some.inj hn').symm

/-- Without empty names before the last, what is left of the second list is empty
exactly if its names come first in the first list. -/
theorem prefix_iff_rest_empty {common a b : List Bytes} {t : List Bytes} (hkept : ∀ n ∈ kept, Plain n)
    (ht : ∀ n ∈ t, n = []) (heq : kept ++ t = common ++ b)
    (hhead : ∀ n, a.head? = some n → b.head? ≠ some n) :
    kept <+: common ++ a ↔ ∀ n ∈ b, n = [] := by
  rcases List.append_eq_append_iff.1 heq with ⟨c, hcommon, htb⟩ | ⟨d, hd, hb⟩
  · -- the common names reach past the kept ones
    refine iff_of_true ?_ fun n hn => ht n (by rw [htb]; exact List.mem_append_right c hn)
    rw [hcommon, List.append_assoc]
    exact List.prefix_append kept (c ++ a)
  · rw [hd, List.prefix_append_right_inj]
    cases d with
    | nil => exact iff_of_true (List.nil_prefix) (by rw [hb]; exact ht)
    | cons n d =>
      refine iff_of_false (fun hprefix => ?_) fun hempty => ?_
      · obtain ⟨rest, rfl⟩ := hprefix
        exact hhead n rfl (by rw [hb]; rfl)
      · have hn : n ∈ kept := by rw [hd]; exact List.mem_append_right common List.mem_cons_self
        exact (hkept n hn).ne_nil (hempty n (by rw [hb]; exact List.mem_cons_self))

theorem isNames_rest {common a : List Bytes} (h : IsNames (common ++ a)) (front : List Bytes)
    (hfront : ∀ n ∈ front, n ≠ [] ∧ slash ∉ n) (hhead : (front ++ a).head? ≠ some []) : IsNames (front ++ a) := by
  refine ⟨fun n hn => ?_, fun n hn => ?_, hhead⟩
  · rcases List.mem_append.1 hn with hn | hn
    · exact (hfront n hn).2
    · exact h.no_slash n (List.mem_append_right common hn)
  · by_cases ha : a = []
    · rw [ha, List.append_nil] at hn
      exact (hfront n (List.mem_of_mem_dropLast hn)).1
    · rw [List.dropLast_append_of_ne_nil ha] at hn
      rcases List.mem_append.1 hn with hn | hn
      · exact (hfront n hn).1
      · exact h.ne_nil n (by rw [List.dropLast_append_of_ne_nil ha]; exact List.mem_append_right common hn)

theorem isNames_dot : IsNames [dot] :=
  @isNames_rest [] [] (isNames_plain (List.forall_mem_nil _)) [dot] (by decide) (by decide)

theorem IsAbsoluteNormal.rest_names (hp : p.IsAbsoluteNormal) {common a : List Bytes}
    (hnames : names p.text = common ++ a) : ∀ n ∈ a, n = [] ∨ Plain n := by
  obtain ⟨kept, t, hkept, ht, heq⟩ := hp.names_eq
  intro n hn
  have hmem : n ∈ kept ++ t := by
    rw [← heq, hnames]
    exact List.mem_append_right common hn
  exact (List.mem_append.1 hmem).symm.imp (ht n) (hkept n)

theorem ne_dotDot_of_rest {a : List Bytes} (ha : ∀ n ∈ a, n = [] ∨ Plain n) : ∀ n ∈ a, n ≠ dotDot := by
  intro n hn
  rcases ha n hn with rfl | hplain
  · decide
  · exact hplain.ne_dotDot

/-- Only plain names of the base count as steps up. -/
theorem downs_eq_zero {b : List Bytes} (hb : ∀ n ∈ b, n = [] ∨ Plain n) :
    b.countP (fun n => n ≠ [] ∧ n ≠ dot ∧ n ≠ dotDot) = 0 ↔ ∀ n ∈ b, n = [] := by
  rw [List.countP_eq_zero]
  refine forall₂_congr fun n hn => ?_
  rcases hb n hn with rfl | hplain
  · simp
  · simp [hplain.ne_nil, hplain.ne_dot, hplain.ne_dotDot]

/-- The directory's names come first in the path's exactly if nothing of them is left. -/
theorem directoryComponents_prefix_iff (hp : p.IsAbsoluteNormal) (hbase : base.IsAbsoluteNormal)
    {common a b : List Bytes} (hpnames : names p.text = common ++ a) (hnames : names base.text = common ++ b)
    (hhead : ∀ n, a.head? = some n → b.head? ≠ some n) :
    base.directoryComponents <+: p.components ↔ ∀ n ∈ b, n = [] := by
  obtain ⟨kept, t, hkept, ht, heq⟩ := hbase.names_eq
  rw [directoryComponents_eq hbase.isAbsolute, components_eq hp.isAbsolute, List.cons_prefix_cons, heq,
    takeWhile_plain hkept ht, hpnames, ← prefix_iff_rest_empty hkept ht (heq.symm.trans hnames) hhead]
  exact and_iff_right rfl

theorem ups_head {a : List Bytes} {n : Nat} (hn : n ≠ 0) : (List.replicate n dotDot ++ a).head? = some dotDot := by
  cases n with
  | zero => exact absurd rfl hn
  | succ n => rfl

/-- The relative path of two absolute paths in normal form leads up unless the
base's components come first. -/
theorem lexicallyRelative_eq (hp : p.IsAbsoluteNormal) (hbase : base.IsAbsoluteNormal) :
    ∃ ns, IsNames ns ∧ ns ≠ [] ∧ p.lexicallyRelative base = ⟨joinNames false ns⟩ ∧
      (ns.head? = some dotDot ↔ ¬base.directoryComponents <+: p.components) := by
  have hmismatch : mismatch p.components base.components = mismatch (names p.text) (names base.text) := by
    rw [components_eq hp.isAbsolute, components_eq hbase.isAbsolute, mismatch, if_pos rfl]
  obtain ⟨common, hpnames, hnames, hhead⟩ := mismatch_spec (names p.text) (names base.text)
  unfold lexicallyRelative
  rw [if_neg (by rw [hp.isAbsolute, hbase.isAbsolute]; simp), hmismatch]
  revert hpnames hnames hhead
  generalize mismatch (names p.text) (names base.text) = rest
  obtain ⟨a, b⟩ := rest
  intro hpnames hnames hhead
  have ha := ne_dotDot_of_rest (hp.rest_names hpnames)
  have hb := hbase.rest_names hnames
  have hups : b.countP (· = dotDot) = 0 :=
    List.countP_eq_zero.2 fun n hn => by simpa using ne_dotDot_of_rest hb n hn
  simp only
  rw [hups, directoryComponents_prefix_iff hp hbase hpnames hnames hhead, ← downs_eq_zero hb, Nat.sub_zero,
    if_neg (Nat.not_lt_zero _)]
  have hrest : IsNames (common ++ a) := hpnames ▸ names_isNames p.text
  by_cases hdowns : b.countP (fun n => n ≠ [] ∧ n ≠ dot ∧ n ≠ dotDot) = 0
  · rw [hdowns]
    by_cases hstop : a = [] ∨ a.head? = some []
    · refine ⟨[dot], isNames_dot, List.cons_ne_nil _ _, ?_, by decide⟩
      have hthen : 0 = 0 ∧ (a = [] ∨ a.head? = some []) := ⟨rfl, hstop⟩
      rw [if_pos hthen, ite_self]
      rfl
    · obtain ⟨hne, hstop⟩ := not_or.1 hstop
      refine ⟨a, isNames_rest hrest [] (List.forall_mem_nil _) hstop, hne, ?_, ?_⟩
      · rw [if_neg (fun h => hne h.1), if_neg (fun h => h.2.elim hne hstop)]
        rfl
      · exact iff_of_false (fun h => ha _ (List.mem_of_head? h) rfl) (fun h => h rfl)
  · have hhead := ups_head (a := a) hdowns
    refine ⟨_, isNames_rest hrest _ (fun n hn => ?_) (by rw [hhead]; decide), List.ne_nil_of_mem (List.mem_of_head? hhead),
      ?_, iff_of_true hhead hdowns⟩
    · rw [List.eq_of_mem_replicate hn]
      decide
    · rw [if_neg (fun h => hdowns (by rw [h.2]; rfl)), if_neg (fun h => hdowns h.1)]

/-- What the program reads off a relative path of names. -/
theorem joinNames_read (h : IsNames ns) (hne : ns ≠ []) :
    (Path.mk (joinNames false ns)).isEmpty = false ∧ (Path.mk (joinNames false ns)).isAbsolute = false ∧
      (Path.mk (joinNames false ns)).components = ns := by
  have habs := isAbsolute_joinNames h false
  have hnames := names_joinNames h false
  refine ⟨Bool.eq_false_iff.2 fun hempty => hne ?_, habs, ?_⟩
  · rw [← hnames, show joinNames false ns = [] from List.isEmpty_iff.1 hempty]
    rfl
  · unfold components
    rw [habs, if_neg Bool.false_ne_true, hnames]

/-- All that the program asks about a relative path. -/
theorem lexicallyRelative_read (hp : p.IsAbsoluteNormal) (hbase : base.IsAbsoluteNormal) :
    (p.lexicallyRelative base).isEmpty = false ∧ (p.lexicallyRelative base).isAbsolute = false ∧
      ((p.lexicallyRelative base).components.head? = some dotDot ↔ ¬base.directoryComponents <+: p.components) := by
  obtain ⟨ns, hnames, hne, heq, hhead⟩ := lexicallyRelative_eq hp hbase
  obtain ⟨hempty, habs, hcomponents⟩ := joinNames_read hnames hne
  rw [heq, hcomponents]
  exact ⟨hempty, habs, hhead⟩

/-! ## Appended names -/

theorem intercalate_concat (hne : ns ≠ []) (n : Bytes) :
    [slash].intercalate (ns ++ [n]) = [slash].intercalate ns ++ slash :: n := by
  induction ns with
  | nil => exact absurd rfl hne
  | cons m ns ih =>
    cases ns with
    | nil => simp
    | cons m' ns =>
      have hrest := ih (List.cons_ne_nil m' ns)
      rw [List.cons_append, List.cons_append, List.intercalate_cons_cons, ← List.cons_append, hrest,
        List.intercalate_cons_cons, List.append_assoc, List.append_assoc, List.append_assoc]

theorem Plain.isAbsolute {n : Bytes} (hn : Plain n) : (Path.mk n).isAbsolute = false := by
  refine beq_eq_false_iff_ne.2 fun hhead => hn.no_slash (List.mem_of_head? hhead)

theorem Plain.getLast?_ne {n : Bytes} (hn : Plain n) (front : Bytes) : (front ++ n).getLast? ≠ some slash := by
  rw [List.getLast?_append_of_ne_nil front hn.ne_nil]
  exact fun hlast => hn.no_slash (List.mem_of_getLast? hlast)

theorem plain_concat (h : ∀ n ∈ kept, Plain n) {m : Bytes} (hm : Plain m) : ∀ n ∈ kept ++ [m], Plain n := by
  intro n hn
  rcases List.mem_append.1 hn with hn | hn
  · exact h n hn
  · rw [List.mem_singleton.1 hn]
    exact hm

theorem joinNames_concat (hne : ns ≠ []) (n : Bytes) :
    joinNames true (ns ++ [n]) = joinNames true ns ++ slash :: n := by
  unfold joinNames
  rw [intercalate_concat hne, List.append_assoc]

theorem joinNames_getLast? (h : ∀ n ∈ kept, Plain n) (hne : kept ≠ []) :
    (joinNames true kept).getLast? ≠ some slash := by
  have hlast := h _ (List.getLast_mem hne)
  rw [← List.dropLast_append_getLast hne]
  by_cases hfirst : kept.dropLast = []
  · have hroot : joinNames true [kept.getLast hne] = [slash] ++ kept.getLast hne := by simp [joinNames]
    rw [hfirst, List.nil_append, hroot]
    exact hlast.getLast?_ne [slash]
  · rw [joinNames_concat hfirst, List.append_cons]
    exact hlast.getLast?_ne _

theorem append_joinNames (h : ∀ n ∈ kept, Plain n) {n : Bytes} (hn : Plain n) :
    (Path.mk (joinNames true kept)).append ⟨n⟩ = ⟨joinNames true (kept ++ [n])⟩ := by
  have hnonempty : (Path.mk (joinNames true kept)).isEmpty = false := rfl
  unfold append
  rw [hn.isAbsolute, hnonempty, if_neg (by decide)]
  by_cases hnil : kept = []
  · rw [hnil, if_pos (by decide)]
    simp [joinNames]
  · rw [if_neg (by simpa using joinNames_getLast? h hnil), joinNames_concat hnil]

theorem append_trailing {n : Bytes} (hne : kept ≠ []) (hn : Plain n) :
    (Path.mk (joinNames true (kept ++ [[]]))).append ⟨n⟩ = ⟨joinNames true (kept ++ [n])⟩ := by
  have hnonempty : (Path.mk (joinNames true (kept ++ [[]]))).isEmpty = false := rfl
  unfold append
  rw [hn.isAbsolute, hnonempty, if_neg (by decide), joinNames_concat hne, joinNames_concat hne,
    if_pos (by simp), List.append_assoc]
  rfl

theorem isAbsolute_append {q : Path} (hp : p.isAbsolute = true) : (p.append q).isAbsolute = true := by
  cases htext : p.text with
  | nil => simp [isAbsolute, htext] at hp
  | cons c rest =>
    unfold append
    by_cases hq : q.isAbsolute = true
    · rw [hq, Bool.true_or, if_pos rfl]
      exact hq
    · have hc : c = slash := by simpa [isAbsolute, htext] using hp
      rw [Bool.eq_false_iff.2 hq, Bool.false_or, if_neg (by simp [isEmpty, htext])]
      split
      · simp [isAbsolute, htext, hc]
      · simp [isAbsolute, htext, hc]

theorem lexicallyNormal_append (hp : p.isAbsolute = true) {n : Bytes} (hn : Plain n) :
    ∃ kept, (∀ m ∈ kept, Plain m) ∧ p.lexicallyNormal.append ⟨n⟩ = ⟨joinNames true kept⟩ := by
  obtain ⟨kept, hkept, hnormal⟩ := lexicallyNormal_eq hp
  refine ⟨kept ++ [n], plain_concat hkept hn, ?_⟩
  rcases hnormal with heq | ⟨hne, heq⟩
  · rw [heq, append_joinNames hkept hn]
  · rw [heq, append_trailing hne hn]

end Path

/-! ## Reply directories -/

theorem Path.isAbsolute_absolute {currentPath : Except Exception Path}
    (hcwd : ∀ cwd, currentPath = .ok cwd → cwd.isAbsolute = true) {path full : Path}
    (h : path.absolute currentPath = .ok full) : full.isAbsolute = true := by
  unfold Path.absolute at h
  split at h
  · cases h
  · split at h
    · rename_i habsolute
      rwa [← Except.ok.inj h]
    · cases currentPath with
      | error e => cases h
      | ok cwd =>
        rw [← Except.ok.inj h]
        exact Path.isAbsolute_append (hcwd cwd rfl)

/-- A reply directory is in normal form and has no trailing slash. -/
theorem replyDirectory_normal {disk : Disk} (hcwd : ∀ cwd, disk.currentPath = .ok cwd → cwd.isAbsolute = true)
    {buildDirectory directory : Path} (h : replyDirectory disk buildDirectory = .ok directory) :
    directory.IsAbsoluteNormal ∧ directory.directoryComponents = directory.components := by
  have hcmake : Path.Plain (lit ".cmake") := ⟨by decide, by decide, by decide, by decide⟩
  have hapi : Path.Plain (lit "api") := ⟨by decide, by decide, by decide, by decide⟩
  have hv1 : Path.Plain (lit "v1") := ⟨by decide, by decide, by decide, by decide⟩
  have hreply : Path.Plain (lit "reply") := ⟨by decide, by decide, by decide, by decide⟩
  cases hfull : disk.absolute buildDirectory with
  | error e =>
    rw [replyDirectory, hfull] at h
    cases h
  | ok full =>
    rw [replyDirectory, hfull] at h
    obtain ⟨kept, hkept, heq⟩ := Path.lexicallyNormal_append (Path.isAbsolute_absolute hcwd hfull) hcmake
    have hdirectory : (((full.lexicallyNormal.append ⟨lit ".cmake"⟩).append ⟨lit "api"⟩).append ⟨lit "v1"⟩).append
        ⟨lit "reply"⟩ = directory := Except.ok.inj h
    have hkept₁ := Path.plain_concat hkept hapi
    have hkept₂ := Path.plain_concat hkept₁ hv1
    have hkept₃ := Path.plain_concat hkept₂ hreply
    rw [heq, Path.append_joinNames hkept hapi, Path.append_joinNames hkept₁ hv1, Path.append_joinNames hkept₂ hreply]
      at hdirectory
    rw [← hdirectory]
    exact ⟨Path.isAbsoluteNormal_joinNames hkept₃, Path.directoryComponents_joinNames hkept₃⟩

/-! ## What the functions decide -/

theorem Path.IsAbsoluteNormal.nonempty {p : Path} (hp : p.IsAbsoluteNormal) : p.isEmpty = false := by
  cases htext : p.text with
  | nil => exact absurd hp.isAbsolute (by simp [Path.isAbsolute, htext])
  | cons c rest => simp [Path.isEmpty, htext]

theorem Ast.pathIsWithin_eq {child parent : Path} (hchild : child.IsAbsoluteNormal)
    (hparent : parent.IsAbsoluteNormal) :
    Ast.pathIsWithin child parent = decide (parent.directoryComponents <+: child.components) := by
  obtain ⟨hempty, habs, hhead⟩ := Path.lexicallyRelative_read hchild hparent
  unfold Ast.pathIsWithin
  rw [hchild.nonempty, hparent.nonempty]
  simp only [hempty, habs, Bool.or_self, Bool.false_eq_true, if_false, Bool.not_false, Bool.and_true]
  rw [Bool.eq_iff_iff, bne_iff_ne, decide_eq_true_iff, Ne, hhead, not_not]

theorem CommandLine.pathIsWithin_eq {child parent : Path} (hchild : child.IsAbsoluteNormal)
    (hparent : parent.IsAbsoluteNormal) :
    CommandLine.pathIsWithin child parent = decide (parent.directoryComponents <+: child.components) := by
  obtain ⟨hempty, habs, hhead⟩ := Path.lexicallyRelative_read hchild hparent
  unfold CommandLine.pathIsWithin
  simp only [hempty, habs, Bool.false_eq_true, if_false, Bool.not_false, Bool.true_and]
  rw [Bool.eq_iff_iff, bne_iff_ne, decide_eq_true_iff, Ne, hhead, not_not]

/-- A scope is a matter of which directories' components come first in the file's. -/
theorem Ast.symbolScope_eq (tu : UnitContext) {file : Path} (hfile : file.IsAbsoluteNormal)
    (hroot : tu.options.projectRoot.IsAbsoluteNormal)
    (hexcluded : ∀ path ∈ tu.options.excludedPaths, path.IsAbsoluteNormal)
    (hreport : ∀ path ∈ tu.options.reportPaths, path.IsAbsoluteNormal) :
    Ast.symbolScope tu file =
      if ∃ path ∈ tu.options.excludedPaths, path.directoryComponents <+: file.components then .excluded
      else if ¬tu.options.projectRoot.directoryComponents <+: file.components then .externalOpaque
      else if ∃ path ∈ tu.options.reportPaths, path.directoryComponents <+: file.components then .reportable
      else .indexed := by
  have hany : ∀ paths : List Path, (∀ path ∈ paths, path.IsAbsoluteNormal) →
      (paths.any (Ast.pathIsWithin file) = true ↔ ∃ path ∈ paths, path.directoryComponents <+: file.components) := by
    intro paths hpaths
    rw [List.any_eq_true]
    refine exists_congr fun path => and_congr_right fun hpath => ?_
    rw [Ast.pathIsWithin_eq hfile (hpaths path hpath), decide_eq_true_iff]
  unfold Ast.symbolScope
  refine if_congr (hany _ hexcluded) rfl (if_congr ?_ rfl (if_congr (hany _ hreport) rfl rfl))
  rw [Ast.pathIsWithin_eq hfile hroot, Bool.not_eq_true', decide_eq_false_iff_not]

/-- A reply file is returned if its name is relative and leads into the directory. -/
theorem referencedFile_eq_ok {directory result : Path} (hdirectory : directory.IsAbsoluteNormal) (name : Bytes) :
    referencedFile directory name = .ok result ↔
      ((Path.mk name).isEmpty = false ∧ (Path.mk name).isAbsolute = false) ∧
        (directory.append ⟨name⟩).lexicallyNormal = result ∧
        directory.directoryComponents <+: result.components := by
  have habsolute : (directory.append ⟨name⟩).isAbsolute = true := Path.isAbsolute_append hdirectory.isAbsolute
  obtain ⟨hempty, habs, hhead⟩ :=
    Path.lexicallyRelative_read (Path.lexicallyNormal_isAbsoluteNormal habsolute) hdirectory
  unfold referencedFile
  simp only [hempty, habs, Bool.false_or, Bool.or_eq_true, beq_iff_eq, hhead]
  split
  · rename_i hname
    refine iff_of_false (fun h => nomatch h) fun h => ?_
    rcases hname with hname | hname
    · exact absurd hname (Bool.eq_false_iff.1 h.1.1)
    · exact absurd hname (Bool.eq_false_iff.1 h.1.2)
  · rename_i hname
    obtain ⟨hnonempty, hrelative⟩ := not_or.1 hname
    rw [and_iff_right ⟨Bool.eq_false_iff.2 hnonempty, Bool.eq_false_iff.2 hrelative⟩]
    split
    · rename_i hescapes
      exact iff_of_false (fun h => nomatch h) fun h => hescapes (h.1 ▸ h.2)
    · rename_i hextends
      refine ⟨fun h => ?_, fun h => congrArg Except.ok h.1⟩
      rw [← Except.ok.inj h]
      exact ⟨rfl, not_not.1 hextends⟩

/-- A reply file lies in the directory component by component. -/
theorem referencedFile_prefix {directory : Path} (hdirectory : directory.IsAbsoluteNormal) (name : Bytes) :
    (∃ e, referencedFile directory name = .error e) ∨
      ∃ result, referencedFile directory name = .ok result ∧
        directory.directoryComponents <+: result.components := by
  cases hresult : referencedFile directory name with
  | error e => exact .inl ⟨e, rfl⟩
  | ok result => exact .inr ⟨result, rfl, ((referencedFile_eq_ok hdirectory name).1 hresult).2.2⟩

example : referencedFile ⟨lit "/b/reply"⟩ (lit "./sub//../t.json") = .ok ⟨lit "/b/reply/t.json"⟩ := by rfl
example : referencedFile ⟨lit "/b/reply"⟩ (lit "../reply2/t.json") =
    .error (.runtimeError (lit "CMake File API jsonFile escapes the reply directory")) := by rfl

/-- Containment compares components: for both forms of `pathIsWithin`, for any
directory in normal form, and for the reply directories that the program forms. -/
theorem containment_by_components :
    (∀ child parent : Path, child.IsAbsoluteNormal → parent.IsAbsoluteNormal →
      (Ast.pathIsWithin child parent = true ↔ parent.directoryComponents <+: child.components) ∧
      (CommandLine.pathIsWithin child parent = true ↔ parent.directoryComponents <+: child.components)) ∧
    (∀ (directory : Path) (name : Bytes), directory.IsAbsoluteNormal →
      (∃ e, referencedFile directory name = .error e) ∨
        ∃ result, referencedFile directory name = .ok result ∧
          directory.directoryComponents <+: result.components) ∧
    ∀ (disk : Disk) (buildDirectory directory : Path),
      (∀ cwd, disk.currentPath = .ok cwd → cwd.isAbsolute = true) →
      replyDirectory disk buildDirectory = .ok directory →
      ∀ name : Bytes, (∃ e, referencedFile directory name = .error e) ∨
        ∃ result, referencedFile directory name = .ok result ∧ directory.components <+: result.components := by
  refine ⟨fun child parent hchild hparent => ⟨?_, ?_⟩, fun directory name hdirectory =>
    referencedFile_prefix hdirectory name, fun disk buildDirectory directory hcwd hreply name => ?_⟩
  · rw [Ast.pathIsWithin_eq hchild hparent, decide_eq_true_iff]
  · rw [CommandLine.pathIsWithin_eq hchild hparent, decide_eq_true_iff]
  · obtain ⟨hdirectory, hcomponents⟩ := replyDirectory_normal hcwd hreply
    rw [← hcomponents]
    exact referencedFile_prefix hdirectory name

/-- A process that runs in `/w`. -/
def workDisk : Disk := ⟨.ok ⟨lit "/w"⟩, fun _ => .cannotOpen, fun _ => .irregular⟩

/-- The sibling `/p/src2` of `/p/src/`, a reply name with a detour, and one that leaves `/w/build`'s replies. -/
theorem sibling_containment :
    ((Ast.pathIsWithin ⟨lit "/p/src2"⟩ ⟨lit "/p/src/"⟩ = true ↔
        (Path.mk (lit "/p/src/")).directoryComponents <+: (Path.mk (lit "/p/src2")).components) ∧
      (CommandLine.pathIsWithin ⟨lit "/p/src2"⟩ ⟨lit "/p/src/"⟩ = true ↔
        (Path.mk (lit "/p/src/")).directoryComponents <+: (Path.mk (lit "/p/src2")).components)) ∧
    ((∃ e, referencedFile ⟨lit "/b/reply/"⟩ (lit "./sub//../t.json") = .error e) ∨
      ∃ result, referencedFile ⟨lit "/b/reply/"⟩ (lit "./sub//../t.json") = .ok result ∧
        (Path.mk (lit "/b/reply/")).directoryComponents <+: result.components) ∧
    ((∃ e, referencedFile ⟨lit "/w/build/.cmake/api/v1/reply"⟩ (lit "../t.json") = .error e) ∨
      ∃ result, referencedFile ⟨lit "/w/build/.cmake/api/v1/reply"⟩ (lit "../t.json") = .ok result ∧
        (Path.mk (lit "/w/build/.cmake/api/v1/reply")).components <+: result.components) :=
  ⟨containment_by_components.1 ⟨lit "/p/src2"⟩ ⟨lit "/p/src/"⟩ ⟨by decide, by decide⟩ ⟨by decide, by decide⟩,
    containment_by_components.2.1 ⟨lit "/b/reply/"⟩ (lit "./sub//../t.json") ⟨by decide, by decide⟩,
    containment_by_components.2.2 workDisk ⟨lit "build"⟩ ⟨lit "/w/build/.cmake/api/v1/reply"⟩
      (fun cwd hcwd => Except.ok.inj hcwd ▸ rfl) rfl (lit "../t.json")⟩

end CxxDead
