import CxxDead.Lib.Intervals
import CxxDead.Report
/-!
# Line estimates

`estimate_lines` merges the line ranges of each file in one sweep.

- `coveredLines_toNat`: the lines of one file, each counted once.
- `coverFrom_subtracts`: no subtraction of the sweep wraps.
- `estimateLines_counts`: all files, with a sum that wraps at 2^64.
-/

namespace CxxDead

open Lib

/-! ## One file -/

/-- The numbers of a range of lines. -/
def lineNumbers (range : UInt64 × UInt64) : ℕ × ℕ := (range.1.toNat, range.2.toNat)

/-- A range of lines as `estimate_lines` keeps it. -/
def ValidRange (range : UInt64 × UInt64) : Prop := 1 ≤ range.1.toNat ∧ range.1.toNat ≤ range.2.toNat

theorem toNat_max (a b : UInt64) : (max a b).toNat = max a.toNat b.toNat := by
  rcases le_total a b with h | h
  · rw [max_eq_right h, max_eq_right (UInt64.le_iff_toNat_le.1 h)]
  · rw [max_eq_left h, max_eq_left (UInt64.le_iff_toNat_le.1 h)]

/-- The code's test for a range that overlaps or follows. -/
theorem touches_iff {last first : UInt64} (hfirst : 1 ≤ first.toNat) :
    (first ≤ last ∨ first - 1 = last) ↔ first.toNat ≤ last.toNat + 1 := by
  have hone : (1 : UInt64) ≤ first := UInt64.le_iff_toNat_le.2 hfirst
  rw [UInt64.le_iff_toNat_le, ← UInt64.toNat_inj, UInt64.toNat_sub_of_le _ _ hone, UInt64.toNat_one]
  omega

theorem span_toNat {first last : UInt64} (h : ValidRange (first, last)) :
    (last - first + 1).toNat = last.toNat - first.toNat + 1 := by
  have hlast := last.toNat_lt
  have hone : 1 ≤ first.toNat := h.1
  have hle : first.toNat ≤ last.toNat := h.2
  rw [UInt64.toNat_add, UInt64.toNat_sub_of_le _ _ (UInt64.le_iff_toNat_le.2 hle), UInt64.toNat_one]
  omega

section Sweep
variable {ranges : List (UInt64 × UInt64)} {first last : UInt64}

/-- What the sweep counts in one file fits. -/
theorem sweep_lt (hranges : ∀ range ∈ ranges, ValidRange range) (hsorted : ranges.Pairwise fun a b => a.1 ≤ b.1)
    (hfirst : ValidRange (first, last)) (hle : ∀ range ∈ ranges, first ≤ range.1) :
    sweep first.toNat last.toNat (ranges.map lineNumbers) =
        (rangePoints (((first, last) :: ranges).map lineNumbers)).card ∧
      sweep first.toNat last.toNat (ranges.map lineNumbers) < 2 ^ 64 := by
  have hpairwise : (ranges.map lineNumbers).Pairwise fun a b => a.1 ≤ b.1 :=
    List.pairwise_map.2 (hsorted.imp fun h => UInt64.le_iff_toNat_le.1 h)
  have hcard : sweep first.toNat last.toNat (ranges.map lineNumbers) =
      (rangePoints (((first, last) :: ranges).map lineNumbers)).card := by
    refine sweep_eq_card hpairwise hfirst.2 ?_
    rw [List.forall_mem_map]
    exact fun range hrange => ⟨UInt64.le_iff_toNat_le.1 (hle range hrange), (hranges range hrange).2⟩
  refine ⟨hcard, hcard.trans_lt (Nat.lt_of_le_of_lt (card_rangePoints_le (n := 2 ^ 64 - 1) ?_) (by decide))⟩
  rw [List.forall_mem_map, List.forall_mem_cons]
  refine ⟨⟨hfirst.1, Nat.le_sub_one_of_lt last.toNat_lt⟩, fun range hrange => ⟨(hranges range hrange).1, ?_⟩⟩
  exact Nat.le_sub_one_of_lt range.2.toNat_lt

theorem coverFrom_toNat (hranges : ∀ range ∈ ranges, ValidRange range) (hsorted : ranges.Pairwise fun a b => a.1 ≤ b.1)
    (hfirst : ValidRange (first, last)) (hle : ∀ range ∈ ranges, first ≤ range.1) :
    (coverFrom first last ranges).toNat = sweep first.toNat last.toNat (ranges.map lineNumbers) := by
  induction ranges generalizing first last with
  | nil => exact span_toNat hfirst
  | cons range ranges ih =>
    have hfits := (sweep_lt hranges hsorted hfirst hle).2
    obtain ⟨hrange, hranges⟩ := List.forall_mem_cons.1 hranges
    obtain ⟨hhead, hsorted⟩ := List.pairwise_cons.1 hsorted
    obtain ⟨hnext, hle⟩ := List.forall_mem_cons.1 hle
    rw [List.map_cons, sweep] at hfits ⊢
    rw [coverFrom]
    by_cases htouch : (lineNumbers range).1 ≤ last.toNat + 1
    · have hmerged : ValidRange (first, max last range.2) := by
        refine ⟨hfirst.1, ?_⟩
        dsimp only
        rw [toNat_max]
        exact le_max_of_le_left hfirst.2
      rw [if_pos ((touches_iff hrange.1).2 htouch), if_pos htouch, ih hranges hsorted hmerged hle, toNat_max]
      rfl
    · have hrest := ih hranges hsorted hrange hhead
      rw [if_neg htouch] at hfits
      rw [if_neg fun h => htouch ((touches_iff hrange.1).1 h), if_neg htouch, UInt64.toNat_add, span_toNat hfirst, hrest]
      exact Nat.mod_eq_of_lt hfits

/-- Each subtraction of the sweep takes a number from one that is no smaller. -/
def Subtracts (first last : UInt64) : List (UInt64 × UInt64) → Prop
  | [] => first ≤ last
  | range :: ranges =>
    1 ≤ range.1 ∧
      if range.1 ≤ last ∨ range.1 - 1 = last then Subtracts first (max last range.2) ranges
      else first ≤ last ∧ Subtracts range.1 range.2 ranges

theorem coverFrom_subtracts (hranges : ∀ range ∈ ranges, ValidRange range) (hfirst : first ≤ last) :
    Subtracts first last ranges := by
  induction ranges generalizing first last with
  | nil => exact hfirst
  | cons range ranges ih =>
    obtain ⟨hrange, hranges⟩ := List.forall_mem_cons.1 hranges
    refine ⟨UInt64.le_iff_toNat_le.2 hrange.1, ?_⟩
    split
    · exact ih hranges (hfirst.trans (le_max_left _ _))
    · exact ⟨hfirst, ih hranges (UInt64.le_iff_toNat_le.2 hrange.2)⟩

end Sweep

/-- The sweep over the sorted ranges of a file. -/
def FileSubtracts (ranges : List (UInt64 × UInt64)) : Prop :=
  match sortOn toLex ranges with
  | [] => True
  | range :: ranges => Subtracts range.1 range.2 ranges

theorem sortOn_toLex_first (ranges : List (UInt64 × UInt64)) :
    (sortOn toLex ranges).Pairwise fun a b => a.1 ≤ b.1 :=
  (sortOn_pairwise toLex ranges).imp fun h => Prod.Lex.monotone_fst _ _ h

theorem coveredLines_toNat {ranges : List (UInt64 × UInt64)} (hranges : ∀ range ∈ ranges, ValidRange range) :
    (coveredLines ranges).toNat = (rangePoints (ranges.map lineNumbers)).card ∧ FileSubtracts ranges := by
  have hsorted := sortOn_toLex_first ranges
  have hmem : ∀ range, range ∈ sortOn toLex ranges ↔ range ∈ ranges := fun range => mem_sortOn toLex
  have hvalid : ∀ range ∈ sortOn toLex ranges, ValidRange range := fun range h => hranges range ((hmem range).1 h)
  have hpoints : rangePoints (ranges.map lineNumbers) = rangePoints ((sortOn toLex ranges).map lineNumbers) :=
    rangePoints_congr fun range => by simp only [List.mem_map, hmem]
  rw [hpoints]
  unfold coveredLines FileSubtracts
  generalize sortOn toLex ranges = sorted at hsorted hvalid
  cases sorted with
  | nil => exact ⟨rfl, trivial⟩
  | cons range sorted =>
    obtain ⟨hrange, hvalid⟩ := List.forall_mem_cons.1 hvalid
    obtain ⟨hhead, hsorted⟩ := List.pairwise_cons.1 hsorted
    refine ⟨?_, coverFrom_subtracts hvalid (UInt64.le_iff_toNat_le.2 hrange.2)⟩
    exact (coverFrom_toNat hvalid hsorted hrange hhead).trans (sweep_lt hvalid hsorted hrange hhead).1

/-! ## All files -/

def memberExtent (g : Graph) (member : AggregateMember) : SourceExtent := primarySourceExtent (g.symbol member.symbol)

structure MeasurableExtent (extent : SourceExtent) : Prop where
  file : extent.begin.file.text ≠ []
  sameFile : extent.begin.file.components = extent.end.file.components
  line : 1 ≤ extent.begin.line
  ordered : extent.begin.line ≤ extent.end.line

theorem isMeasurable_iff {extent : SourceExtent} : isMeasurable extent = true ↔ MeasurableExtent extent := by
  have hline : ¬ extent.begin.line = 0 ↔ 1 ≤ extent.begin.line := by
    rw [UInt64.le_iff_toNat_le, UInt64.toNat_one, ← UInt64.toNat_inj, UInt64.toNat_zero]
    omega
  simp only [isMeasurable, Path.isEmpty, Path.same, Bool.not_eq_true', Bool.or_eq_false_iff, Bool.not_eq_false',
    List.isEmpty_eq_false_iff, beq_eq_false_iff_ne, beq_iff_eq, decide_eq_false_iff_not, not_lt, ne_eq, hline]
  exact ⟨fun ⟨⟨⟨hfile, hsame⟩, hone⟩, hle⟩ => ⟨hfile, hsame, hone, hle⟩,
    fun ⟨hfile, hsame, hone, hle⟩ => ⟨⟨⟨hfile, hsame⟩, hone⟩, hle⟩⟩

instance instDecidableMeasurableExtent (extent : SourceExtent) : Decidable (MeasurableExtent extent) :=
  decidable_of_iff _ isMeasurable_iff

/-- The file and line pairs that the members' measurable extents cover. -/
def coveredPairs (g : Graph) (members : List AggregateMember) : Set (Bytes × ℕ) :=
  {p | ∃ member ∈ members, MeasurableExtent (memberExtent g member) ∧
    p.1 = (memberExtent g member).begin.file.genericString ∧
    (memberExtent g member).begin.line.toNat ≤ p.2 ∧ p.2 ≤ (memberExtent g member).end.line.toNat}

def measuredExtents (g : Graph) (members : List AggregateMember) : List SourceExtent :=
  (members.map (memberExtent g)).filter isMeasurable

/-- The ranges that are kept for a file. -/
def fileRanges (g : Graph) (members : List AggregateMember) (file : Bytes) : List (UInt64 × UInt64) :=
  ((measuredExtents g members).filter fun extent => extent.begin.file.genericString = file).map
    fun extent => (extent.begin.line, extent.end.line)

def measuredFiles (g : Graph) (members : List AggregateMember) : List Bytes :=
  sortUnique ((measuredExtents g members).map fun extent => extent.begin.file.genericString)

theorem fileRanges_valid (g : Graph) (members : List AggregateMember) (file : Bytes) :
    ∀ range ∈ fileRanges g members file, ValidRange range := by
  intro range hrange
  obtain ⟨extent, hextent, rfl⟩ := List.mem_map.1 hrange
  have hmeasured := isMeasurable_iff.1 (List.mem_filter.1 (List.mem_filter.1 hextent).1).2
  exact ⟨UInt64.le_iff_toNat_le.1 hmeasured.line, UInt64.le_iff_toNat_le.1 hmeasured.ordered⟩

theorem estimatedLoc_eq (g : Graph) (members : List AggregateMember) :
    (estimateLines g members).estimatedLoc =
      ((measuredFiles g members).map fun file => coveredLines (fileRanges g members file)).sum := by
  show (List.map _ (groupOn _ _)).sum = _
  rw [groupOn, List.map_map]
  refine congrArg List.sum (List.map_congr_left fun file _ => ?_)
  rw [Function.comp_apply, fileRanges]
  congr!

theorem mem_coveredPairs {g : Graph} {members : List AggregateMember} {p : Bytes × ℕ} :
    p ∈ coveredPairs g members ↔
      p.1 ∈ measuredFiles g members ∧ p.2 ∈ rangePoints ((fileRanges g members p.1).map lineNumbers) := by
  simp only [coveredPairs, Set.mem_ofPred_eq, measuredFiles, mem_sortUnique, List.mem_map, mem_rangePoints, fileRanges,
    measuredExtents, List.mem_filter, decide_eq_true_eq, isMeasurable_iff, lineNumbers]
  constructor
  · rintro ⟨member, hmember, hmeasured, hfile, hline⟩
    have hextent : (∃ m ∈ members, memberExtent g m = memberExtent g member) ∧
        MeasurableExtent (memberExtent g member) := ⟨⟨member, hmember, rfl⟩, hmeasured⟩
    exact ⟨⟨_, hextent, hfile.symm⟩, _, ⟨_, ⟨_, ⟨hextent, hfile.symm⟩, rfl⟩, rfl⟩, hline⟩
  · rintro ⟨-, _, ⟨_, ⟨_, ⟨⟨⟨member, hmember, rfl⟩, hmeasured⟩, hfile⟩, rfl⟩, rfl⟩, hline⟩
    exact ⟨member, hmember, hmeasured, hfile.symm, hline⟩

theorem coveredPairs_ncard (g : Graph) (members : List AggregateMember) :
    (coveredPairs g members).ncard =
      ((measuredFiles g members).map fun file => (coveredLines (fileRanges g members file)).toNat).sum := by
  have hset : coveredPairs g members = {p : Bytes × ℕ | p.1 ∈ measuredFiles g members ∧
      p.2 ∈ rangePoints ((fileRanges g members p.1).map lineNumbers)} := Set.ext fun p => mem_coveredPairs
  have hnodup : (measuredFiles g members).Nodup := sortUnique_nodup _
  rw [hset, ncard_fibres hnodup fun file => rangePoints ((fileRanges g members file).map lineNumbers)]
  congr 1
  exact List.map_congr_left fun file _ => (coveredLines_toNat (fileRanges_valid g members file)).1.symm

theorem sum_toNat (l : List UInt64) : l.sum.toNat = (l.map UInt64.toNat).sum % 2 ^ 64 := by
  induction l with
  | nil => rfl
  | cons a l ih => rw [List.sum_cons, List.map_cons, List.sum_cons, UInt64.toNat_add, ih, Nat.add_mod_mod]

structure Counted (g : Graph) (members : List AggregateMember) (lines : SourceLineEstimate) : Prop where
  estimated : lines.estimatedLoc.toNat = (coveredPairs g members).ncard % 2 ^ 64
  unmeasured : lines.unmeasuredSymbols = members.countP fun member => decide (¬ MeasurableExtent (memberExtent g member))
  subtracts : ∀ file, FileSubtracts (fileRanges g members file)

/-- Every line is counted once, up to the width of the count. -/
theorem estimateLines_counts (g : Graph) (members : List AggregateMember) :
    Counted g members (estimateLines g members) := by
  refine ⟨?_, ?_, fun file => (coveredLines_toNat (fileRanges_valid g members file)).2⟩
  · rw [estimatedLoc_eq, sum_toNat, List.map_map, coveredPairs_ncard]
    rfl
  · show List.countP _ (members.map _) = _
    rw [List.countP_map]
    refine List.countP_congr fun member _ => ?_
    rw [decide_eq_true_iff, ← isMeasurable_iff, Function.comp_apply, Bool.not_eq_true', Bool.not_eq_true]
    rfl

/-- All lines of a file that has as many as can be numbered. -/
def wholeFile (file : Bytes) : Symbol :=
  { source := { spelling := { begin := { file := ⟨file⟩, line := 1 }, «end» := { file := ⟨file⟩, line := 18446744073709551615 } } } }

def twoWholeFiles : Graph := { symbols := [wholeFile (lit "a"), wholeFile (lit "b")] }

def bothMembers : List AggregateMember := [⟨0, .actionable⟩, ⟨1, .actionable⟩]

/-- Two such files have more lines than the count can hold. -/
theorem wholeFiles_overflow : (estimateLines twoWholeFiles bothMembers).estimatedLoc.toNat = 2 ^ 64 - 2 ∧
    (coveredPairs twoWholeFiles bothMembers).ncard = 2 * (2 ^ 64 - 1) ∧
    (estimateLines twoWholeFiles bothMembers).estimatedLoc.toNat ≠ (coveredPairs twoWholeFiles bothMembers).ncard := by
  rw [coveredPairs_ncard]
  decide +kernel

end CxxDead
