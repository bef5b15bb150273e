import CxxDead.Accounting
/-!
# The comparator of findings

`findingBefore` takes findings of equal paths by line and name, and findings of
different paths by the text of their paths, while equal paths may differ in text.

- `findingBefore_strictWeak_iff`: when it is the strict weak order that sorting asks for.
-/

namespace CxxDead

open Lib

variable {g : Graph}

/-! ## What is compared -/

def fileOf (g : Graph) (id : SymbolId) : Path := (primarySourceExtent (g.symbol id)).location.file

/-- The order of two findings of one file. -/
def rankInFile (g : Graph) (id : SymbolId) : UInt64 ×ₗ Bytes ×ₗ Bytes :=
  toLex ((primarySourceExtent (g.symbol id)).location.line,
    toLex ((g.symbol id).qualifiedName, (g.symbol id).signature))

theorem findingBefore_iff (g : Graph) (left right : Finding) :
    findingBefore g left right = true ↔
      mixedBefore (fun f : Finding => (fileOf g f.symbol).components) (fun f => (fileOf g f.symbol).text)
        (fun f => rankInFile g f.symbol) left right := by
  unfold findingBefore mixedBefore
  by_cases hfile : (fileOf g left.symbol).components = (fileOf g right.symbol).components
  · have hsame : (fileOf g left.symbol).same (fileOf g right.symbol) = true := beq_iff_eq.2 hfile
    rw [if_pos hfile]
    simp only [← fileOf.eq_1, hsame, Bool.not_true, Bool.false_eq_true, if_false, rankInFile, Prod.Lex.toLex_lt_toLex]
    split
    · rename_i hline
      simp [hline]
    · rename_i hline
      split
      · rename_i hname
        simp [not_not.1 hline, hname]
      · rename_i hname
        simp [not_not.1 hline, not_not.1 hname]
  · have hsame : (fileOf g left.symbol).same (fileOf g right.symbol) = false := beq_eq_false_iff_ne.2 hfile
    rw [if_neg hfile]
    simp only [← fileOf.eq_1, hsame, Bool.not_false, if_true, decide_eq_true_eq]

/-! ## The condition -/

/-- A symbol that a report lists among its findings. -/
def IsActionable (g : Graph) (id : SymbolId) : Prop := g.IsCandidate id ∧ ¬ ∃ s ∈ g.suppressions, s.symbol = id

/-- Where the text of another file stands between two texts of one file, the
findings of that file are in the order of their texts. -/
def SpellingsApart (g : Graph) : Prop :=
  ∀ a b c, IsActionable g a → IsActionable g b → IsActionable g c → (fileOf g a).same (fileOf g c) = true →
    (fileOf g a).same (fileOf g b) = false → (fileOf g a).text < (fileOf g b).text →
      (fileOf g b).text < (fileOf g c).text → rankInFile g a < rankInFile g c

theorem isActionable_iff {id : SymbolId} :
    IsActionable g id ↔ ∃ f ∈ (buildReport g (analyzeReachability g)).findings, f.symbol = id := by
  rw [← List.mem_map, (buildReport_findings_perm g (analyzeReachability g)).mem_iff, mem_dead_filter,
    Bool.not_eq_true', ← Bool.not_eq_true, isSuppressed_iff]
  rfl

/-- The comparator of findings, on the findings of a graph. -/
theorem findingBefore_strictWeak_iff (g : Graph) :
    IsStrictWeakOrder { f : Finding // f ∈ (buildReport g (analyzeReachability g)).findings }
      (fun left right => findingBefore g left right = true) ↔ SpellingsApart g := by
  have hbefore : (fun left right : { f : Finding // f ∈ (buildReport g (analyzeReachability g)).findings } =>
      findingBefore g left right = true) =
        mixedBefore (fun f => (fileOf g f.1.symbol).components) (fun f => (fileOf g f.1.symbol).text)
          (fun f => rankInFile g f.1.symbol) :=
    funext fun left => funext fun right => propext (findingBefore_iff g left right)
  rw [hbefore, mixedBefore_strictWeak_iff fun a b htext => by
    rw [show fileOf g a.1.symbol = fileOf g b.1.symbol from congrArg Path.mk htext]]
  constructor
  · intro h a b c ha hb hc hac hab
    obtain ⟨x, hx, rfl⟩ := isActionable_iff.1 ha
    obtain ⟨y, hy, rfl⟩ := isActionable_iff.1 hb
    obtain ⟨z, hz, rfl⟩ := isActionable_iff.1 hc
    exact h ⟨x, hx⟩ ⟨y, hy⟩ ⟨z, hz⟩ (beq_iff_eq.1 hac) (beq_eq_false_iff_ne.1 hab)
  · intro h x y z hac hab
    exact h _ _ _ (isActionable_iff.2 ⟨_, x.2, rfl⟩) (isActionable_iff.2 ⟨_, y.2, rfl⟩)
      (isActionable_iff.2 ⟨_, z.2, rfl⟩) (beq_iff_eq.2 hac) (beq_eq_false_iff_ne.2 hab)

/-- Three dead functions, the first and the last of one file in two spellings. -/
def slashedFiles : Graph :=
  { symbols := [("f", "a//b", 2), ("g", "a/Z", 1), ("h", "a/b", 1)].map fun (key, file, line) =>
      { key := lit key, defined := true, scope := .reportable
        source := { spelling := { location := { file := ⟨lit file⟩, line := line } } } } }

/-- `f` comes before `g` and `g` before `h`, but `h` before `f`. -/
theorem slashedFiles_cycle :
    ¬ IsStrictWeakOrder { f : Finding // f ∈ (buildReport slashedFiles (analyzeReachability slashedFiles)).findings }
      (fun left right => findingBefore slashedFiles left right = true) := by
  intro horder
  have hactionable : ∀ id < 3, IsActionable slashedFiles id := fun id hid => by
    refine ⟨⟨hid, ?_, ?_, ?_, ?_⟩, fun ⟨s, hs, _⟩ => absurd hs List.not_mem_nil⟩ <;> revert id <;> decide
  obtain ⟨f, hf, hf₀⟩ := isActionable_iff.1 (hactionable 0 (by decide))
  obtain ⟨g, hg, hg₁⟩ := isActionable_iff.1 (hactionable 1 (by decide))
  obtain ⟨h, hh, hh₂⟩ := isActionable_iff.1 (hactionable 2 (by decide))
  have hfg : findingBefore slashedFiles f g = true := by
    unfold findingBefore
    rw [hf₀, hg₁]
    decide
  have hgh : findingBefore slashedFiles g h = true := by
    unfold findingBefore
    rw [hg₁, hh₂]
    decide
  have hfh : findingBefore slashedFiles f h = false := by
    unfold findingBefore
    rw [hf₀, hh₂]
    decide
  have htrans : findingBefore slashedFiles f h = true := horder.trans ⟨f, hf⟩ ⟨g, hg⟩ ⟨h, hh⟩ hfg hgh
  rw [hfh] at htrans
  cases htrans

end CxxDead
