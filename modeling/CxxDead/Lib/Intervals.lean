import Mathlib.Algebra.BigOperators.Group.Finset.Basic
import Mathlib.Data.Set.Card
import Mathlib.Order.Interval.Finset.Nat
/-!
# Ranges that are merged in one sweep

Ranges with both ends, sorted by the first. The sweep keeps one range and adds to it each
range that overlaps it or follows without a gap.

- `sweep_eq_card`: the sweep counts every point once.
- `ncard_fibres`: pairs, counted key by key.
-/

namespace Lib

def rangePoints : List (ℕ × ℕ) → Finset ℕ
  | [] => ∅
  | range :: ranges => Finset.Icc range.1 range.2 ∪ rangePoints ranges

theorem mem_rangePoints {ranges : List (ℕ × ℕ)} {n : ℕ} :
    n ∈ rangePoints ranges ↔ ∃ range ∈ ranges, range.1 ≤ n ∧ n ≤ range.2 := by
  induction ranges with
  | nil => simp [rangePoints]
  | cons range ranges ih => simp [rangePoints, ih]

theorem rangePoints_congr {ranges ranges' : List (ℕ × ℕ)} (h : ∀ range, range ∈ ranges ↔ range ∈ ranges') :
    rangePoints ranges = rangePoints ranges' := by
  ext n
  simp only [mem_rangePoints, h]

/-- The points of `first … last` and of the later ranges. -/
def sweep (first last : ℕ) : List (ℕ × ℕ) → ℕ
  | [] => last - first + 1
  | range :: ranges =>
    if range.1 ≤ last + 1 then sweep first (max last range.2) ranges
    else (last - first + 1) + sweep range.1 range.2 ranges

/-- A range that starts inside another one, or right behind it, extends it. -/
theorem rangePoints_merge {first last : ℕ} {range : ℕ × ℕ} {ranges : List (ℕ × ℕ)} (hfirst : first ≤ range.1)
    (htouch : range.1 ≤ last + 1) :
    rangePoints ((first, last) :: range :: ranges) = rangePoints ((first, max last range.2) :: ranges) := by
  ext n
  have hboth : (first ≤ n ∧ n ≤ last) ∨ (range.1 ≤ n ∧ n ≤ range.2) ↔ first ≤ n ∧ n ≤ max last range.2 := by omega
  simp only [mem_rangePoints, List.exists_mem_cons_iff, ← hboth, or_assoc]

theorem sweep_eq_card {ranges : List (ℕ × ℕ)} (hsorted : ranges.Pairwise fun a b => a.1 ≤ b.1) {first last : ℕ}
    (hlast : first ≤ last) (hranges : ∀ range ∈ ranges, first ≤ range.1 ∧ range.1 ≤ range.2) :
    sweep first last ranges = (rangePoints ((first, last) :: ranges)).card := by
  induction ranges generalizing first last with
  | nil =>
    rw [sweep, rangePoints, rangePoints, Finset.union_empty, Nat.card_Icc]
    omega
  | cons range ranges ih =>
    obtain ⟨hhead, hsorted⟩ := List.pairwise_cons.1 hsorted
    obtain ⟨hrange, hranges⟩ := List.forall_mem_cons.1 hranges
    rw [sweep]
    split
    · rename_i htouch
      rw [rangePoints_merge hrange.1 htouch]
      exact ih hsorted (by omega) hranges
    · rename_i hgap
      have hdisjoint : Disjoint (Finset.Icc first last) (rangePoints (range :: ranges)) := by
        rw [Finset.disjoint_left]
        intro n hn hpoint
        have hstart : range.1 ≤ n := by
          obtain ⟨other, hother, hle, -⟩ := mem_rangePoints.1 hpoint
          rcases List.mem_cons.1 hother with rfl | hother
          · exact hle
          · exact (hhead other hother).trans hle
        have hend := (Finset.mem_Icc.1 hn).2
        omega
      have hrest := ih hsorted hrange.2 fun other hother => ⟨hhead other hother, (hranges other hother).2⟩
      have hcard := Finset.card_union_of_disjoint hdisjoint
      rw [Nat.card_Icc] at hcard
      rw [hrest]
      show _ + (rangePoints (range :: ranges)).card = (Finset.Icc first last ∪ rangePoints (range :: ranges)).card
      omega

/-- Ranges inside `1 … n` have at most `n` points. -/
theorem card_rangePoints_le {ranges : List (ℕ × ℕ)} {n : ℕ} (h : ∀ range ∈ ranges, 1 ≤ range.1 ∧ range.2 ≤ n) :
    (rangePoints ranges).card ≤ n := by
  have hsubset : rangePoints ranges ⊆ Finset.Icc 1 n := by
    intro point hpoint
    obtain ⟨range, hrange, hstart, hend⟩ := mem_rangePoints.1 hpoint
    obtain ⟨hone, hn⟩ := h range hrange
    exact Finset.mem_Icc.2 ⟨by omega, by omega⟩
  have hcard := Finset.card_le_card hsubset
  rwa [Nat.card_Icc, Nat.add_sub_cancel] at hcard

theorem ncard_fibres {α β : Type} [DecidableEq α] [DecidableEq β] {keys : List α} (hkeys : keys.Nodup)
    (fibre : α → Finset β) :
    {p : α × β | p.1 ∈ keys ∧ p.2 ∈ fibre p.1}.ncard = (keys.map fun key => (fibre key).card).sum := by
  have hset : {p : α × β | p.1 ∈ keys ∧ p.2 ∈ fibre p.1} =
      ↑(keys.toFinset.biUnion fun key => (fibre key).map ⟨Prod.mk key, Prod.mk_right_injective key⟩) := by
    ext ⟨key, b⟩
    simp [and_comm]
  have hdisjoint : ∀ a ∈ keys.toFinset, ∀ b ∈ keys.toFinset, a ≠ b →
      Disjoint ((fibre a).map ⟨Prod.mk a, Prod.mk_right_injective a⟩)
        ((fibre b).map ⟨Prod.mk b, Prod.mk_right_injective b⟩) := by
    intro a _ b _ hne
    rw [Finset.disjoint_left]
    rintro p hp hp'
    obtain ⟨x, -, rfl⟩ := Finset.mem_map.1 hp
    obtain ⟨y, -, hpair⟩ := Finset.mem_map.1 hp'
    exact hne (congrArg Prod.fst hpair).symm
  rw [hset, Set.ncard_coe_finset, Finset.card_biUnion hdisjoint, ← List.sum_toFinset _ hkeys]
  exact Finset.sum_congr rfl fun key _ => Finset.card_map _

end Lib
