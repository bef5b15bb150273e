import Mathlib.Data.List.Nodup
import Mathlib.Data.List.Perm.Basic
import Mathlib.Data.List.Range
/-!
# Loops that accumulate

What a loop leaves in one part of its state, from what one turn adds to it.

- `foldl_count`, `foldl_collect`, `foldl_any`: a counter, a list, a mark.
- `flatMap_modify`: appending to one of several lists.
- `mapM_isSome`, `mem_of_mapM`: a list built from optional results.
-/

namespace Lib

section Fold
variable {σ α β : Type} (step : σ → α → σ)

theorem foldl_count (f : σ → Nat) (p : α → Bool) (h : ∀ s a, f (step s a) = f s + (p a).toNat)
    (l : List α) (s : σ) : f (l.foldl step s) = f s + l.countP p := by
  induction l generalizing s with
  | nil => rfl
  | cons a l ih =>
    rw [List.foldl_cons, ih, h, List.countP_cons]
    cases p a
    · simp
    · simp only [Bool.toNat_true, if_true]; omega

theorem foldl_collect (f : σ → List β) (p : α → Bool) (q : α → β)
    (h : ∀ s a, f (step s a) = f s ++ if p a then [q a] else [])
    (l : List α) (s : σ) : f (l.foldl step s) = f s ++ (l.filter p).map q := by
  induction l generalizing s with
  | nil => simp
  | cons a l ih =>
    rw [List.foldl_cons, ih, h]
    cases hp : p a <;> simp [hp]

theorem foldl_any (f : σ → Bool) (p : α → Bool) (h : ∀ s a, f (step s a) = (f s || p a))
    (l : List α) (s : σ) : f (l.foldl step s) = (f s || l.any p) := by
  induction l generalizing s with
  | nil => simp
  | cons a l ih => rw [List.foldl_cons, ih, h, List.any_cons, Bool.or_assoc]

theorem foldl_keep (f : σ → β) (h : ∀ s a, f (step s a) = f s) (l : List α) (s : σ) :
    f (l.foldl step s) = f s := by
  induction l generalizing s with
  | nil => rfl
  | cons a l ih => rw [List.foldl_cons, ih, h]

end Fold

/-- A count splits in two by any second test. -/
theorem countP_split {α : Type} (p q : α → Bool) (l : List α) :
    l.countP (fun a => p a && q a) + l.countP (fun a => p a && !q a) = l.countP p := by
  rw [List.countP_eq_countP_filter_add l p q, List.countP_filter, List.countP_filter]

section Modify
variable {α β : Type} {f : α → α} {items : α → List β} {x : β}

/-- Appending `x` to the items of one element. -/
theorem flatMap_modify (h : ∀ a, items (f a) = items a ++ [x]) (l : List α) {i : Nat} (hi : i < l.length) :
    ((l.modify i f).flatMap items).Perm (l.flatMap items ++ [x]) := by
  induction l generalizing i with
  | nil => cases hi
  | cons a l ih =>
    cases i with
    | zero =>
      rw [List.modify_zero_cons, List.flatMap_cons, List.flatMap_cons, h, List.append_assoc, List.append_assoc]
      exact List.Perm.append_left _ (@List.perm_append_comm _ [x] _)
    | succ i =>
      rw [List.modify_succ_cons, List.flatMap_cons, List.flatMap_cons, List.append_assoc]
      exact (ih (by simpa using hi)).append_left _

end Modify

/-- Looking up every index of `l` in turn. -/
theorem range_flatMap_getD {α β : Type} (l : List (List α)) (f : α → β) :
    (List.range l.length).flatMap (fun i => (l.getD i []).map f) = l.flatten.map f := by
  have hmap : (List.range l.length).map (fun i => l.getD i []) = l := by
    refine List.ext_getElem (by simp) fun i h _ => ?_
    simp only [List.length_map, List.length_range] at h
    simp [h]
  rw [List.map_flatten, ← List.flatMap_id, List.flatMap_map]
  conv_rhs => rw [← hmap, List.flatMap_map]
  rfl

/-! ## Lists built element by element -/

section Built
variable {α β : Type}

theorem mapM_isSome {f : α → Option β} {l : List α} (h : ∀ x ∈ l, (f x).isSome = true) :
    (l.mapM f).isSome = true := by
  induction l with
  | nil => rfl
  | cons x l ih =>
    obtain ⟨y, hy⟩ := Option.isSome_iff_exists.1 (h x (by simp))
    obtain ⟨ys, hys⟩ := Option.isSome_iff_exists.1 (ih fun z hz => h z (by simp [hz]))
    rw [List.mapM_cons, hy, hys]
    rfl

theorem mem_of_mapM {f : α → Option β} {l : List α} {out : List β} (h : l.mapM f = some out) :
    ∀ y ∈ out, ∃ x ∈ l, f x = some y := by
  induction l generalizing out with
  | nil =>
    rw [List.mapM_nil] at h
    cases h
    simp
  | cons x l ih =>
    rw [List.mapM_cons] at h
    obtain ⟨y, hy, h⟩ := Option.bind_eq_some_iff.1 h
    obtain ⟨ys, hys, h⟩ := Option.bind_eq_some_iff.1 h
    cases h
    refine List.forall_mem_cons.2 ⟨⟨x, List.mem_cons_self, hy⟩, fun z hz => ?_⟩
    obtain ⟨w, hw, hz⟩ := ih hys z hz
    exact ⟨w, List.mem_cons_of_mem _ hw, hz⟩

/-- A list of values of `f`, with a property of the arguments. -/
theorem exists_map {f : α → β} {P : α → Prop} {l : List β} (h : ∀ y ∈ l, ∃ x, P x ∧ f x = y) :
    ∃ xs : List α, (∀ x ∈ xs, P x) ∧ xs.map f = l := by
  induction l with
  | nil => exact ⟨[], by simp, rfl⟩
  | cons y l ih =>
    obtain ⟨x, hx, hy⟩ := h y List.mem_cons_self
    obtain ⟨xs, hxs, hl⟩ := ih fun y hy => h y (List.mem_cons_of_mem _ hy)
    exact ⟨x :: xs, List.forall_mem_cons.2 ⟨hx, hxs⟩, by rw [List.map_cons, hy, hl]⟩

end Built

end Lib
