import Mathlib.Data.List.Basic
import Mathlib.Data.Nat.Init
/-!
# Messages in blocks

A function that works on blocks of `n` elements is run over a message by folding it over
the blocks. Elements that come one at a time are collected until a block is full:
`Absorbed` is what holds meanwhile.

- `Absorbed.wait`, `Absorbed.full`: one more element.
- `Absorbed.finish`: the fold over the whole, from what has been collected.
-/

namespace Lib

variable {α σ : Type}

/-- The full blocks of `n` elements. -/
def blocks (n : Nat) (l : List α) : List (List α) := (List.range (l.length / n)).map fun i => (l.drop (n * i)).take n

variable {n : Nat}

theorem blocks_nil : blocks n ([] : List α) = [] := by
  rw [blocks, List.length_nil, Nat.zero_div]
  rfl

/-- Blocks in front are not disturbed by what follows. -/
theorem blocks_append (hn : 0 < n) {l : List α} (hl : n ∣ l.length) (l' : List α) :
    blocks n (l ++ l') = blocks n l ++ blocks n l' := by
  obtain ⟨k, hk⟩ := hl
  have hcount : (l ++ l').length / n = k + l'.length / n := by
    rw [List.length_append, hk, Nat.mul_add_div hn]
  have hfront : l.length / n = k := by rw [hk, Nat.mul_div_cancel_left _ hn]
  unfold blocks
  rw [hcount, hfront, List.range_add, List.map_append, List.map_map]
  congr 1
  · refine List.map_congr_left fun i hi => ?_
    have hle : n * i + n ≤ l.length := by
      rw [hk, ← Nat.mul_succ]
      exact Nat.mul_le_mul_left n (List.mem_range.1 hi)
    rw [List.drop_append_of_le_length (by omega), List.take_append_of_le_length (by rw [List.length_drop]; omega)]
  · refine List.map_congr_left fun i _ => ?_
    show (List.drop (n * (k + i)) (l ++ l')).take n = _
    rw [Nat.mul_add, ← hk, List.drop_append, List.drop_eq_nil_of_le (Nat.le_add_right _ _), List.nil_append,
      Nat.add_sub_cancel_left]

theorem blocks_block (hn : 0 < n) {l : List α} (hl : l.length = n) : blocks n l = [l] := by
  rw [blocks, hl, Nat.div_self hn, List.range_one, List.map_singleton, Nat.mul_zero, List.drop_zero, ← hl,
    List.take_length]

/-- What is left of the message `m` is `pending`, and the blocks in front have made `state` out of `start`. -/
structure Absorbed (n : Nat) (compress : σ → List α → σ) (start : σ) (m : List α) (state : σ) (pending : List α) :
    Prop where
  split : ∃ front, m = front ++ pending ∧ n ∣ front.length ∧ state = (blocks n front).foldl compress start
  room : pending.length < n

namespace Absorbed

variable {compress : σ → List α → σ} {start state : σ} {m pending : List α}

theorem nil (hn : 0 < n) : Absorbed n compress start [] start [] :=
  ⟨⟨[], rfl, Nat.dvd_zero n, by rw [blocks_nil]; rfl⟩, hn⟩

theorem wait (h : Absorbed n compress start m state pending) (a : α) (hroom : pending.length + 1 < n) :
    Absorbed n compress start (m ++ [a]) state (pending ++ [a]) := by
  obtain ⟨front, rfl, hdvd, hstate⟩ := h.split
  exact ⟨⟨front, List.append_assoc _ _ _, hdvd, hstate⟩, by rwa [List.length_append]⟩

/-- The block is full. -/
theorem full (h : Absorbed n compress start m state pending) (a : α) (hfull : pending.length + 1 = n) :
    Absorbed n compress start (m ++ [a]) (compress state (pending ++ [a])) [] := by
  obtain ⟨front, rfl, hdvd, hstate⟩ := h.split
  have hn : 0 < n := by omega
  have hblock : (pending ++ [a]).length = n := by rw [List.length_append]; exact hfull
  refine ⟨⟨front ++ (pending ++ [a]), ?_, ?_, ?_⟩, hn⟩
  · rw [List.append_nil, List.append_assoc]
  · rw [List.length_append, hblock]
    exact Nat.dvd_add hdvd (Nat.dvd_refl n)
  · rw [blocks_append hn hdvd, blocks_block hn hblock, List.foldl_append, ← hstate]
    rfl

theorem finish (h : Absorbed n compress start m state pending) (tail : List α) :
    (blocks n (m ++ tail)).foldl compress start = (blocks n (pending ++ tail)).foldl compress state := by
  obtain ⟨front, rfl, hdvd, hstate⟩ := h.split
  rw [List.append_assoc, blocks_append (Nat.zero_lt_of_lt h.room) hdvd, List.foldl_append, ← hstate]

end Absorbed

end Lib
