import CxxDead.Lib.Sorting
import Mathlib.Logic.Function.Basic
import Mathlib.Data.List.Nodup
/-!
# Groups

A table from elements to the number of their group, filled group by group, and a
map of vectors filled by appending each element under its key.

- `groupTable_of_mem`: in disjoint groups the table gives the number of the group
  that an element is in.
-/

namespace Lib

/-! ## The number of a group -/

section Table
variable {κ : Type} (value : Nat → κ)

/-- Enter group number `entry.2`. -/
def writeGroup (table : Nat → κ) (entry : List Nat × Nat) : Nat → κ :=
  entry.1.foldl (fun table x => Function.update table x (value entry.2)) table

def groupTable (default : κ) (groups : List (List Nat)) : Nat → κ :=
  groups.zipIdx.foldl (writeGroup value) fun _ => default

theorem writeGroup_apply (table : Nat → κ) (group : List Nat) (i x : Nat) :
    writeGroup value table (group, i) x = if x ∈ group then value i else table x := by
  unfold writeGroup
  induction group generalizing table with
  | nil => simp
  | cons a group ih =>
    simp only [List.foldl_cons, ih, Function.update_apply]
    by_cases hx : x = a
    · simp [hx]
    · simp [hx]

theorem writeGroup_foldl (groups : List (List Nat)) (k : Nat) (table : Nat → κ) (x : Nat)
    (hnodup : groups.flatten.Nodup) :
    (x ∉ groups.flatten → (groups.zipIdx k).foldl (writeGroup value) table x = table x) ∧
    ∀ i c, groups[i]? = some c → x ∈ c → (groups.zipIdx k).foldl (writeGroup value) table x = value (k + i) := by
  induction groups generalizing k table with
  | nil => simp
  | cons c groups ih =>
    rw [List.flatten_cons, List.nodup_append'] at hnodup
    simp only [List.zipIdx_cons, List.foldl_cons]
    obtain ⟨ihout, ihin⟩ := ih (k + 1) (writeGroup value table (c, k)) hnodup.2.1
    refine ⟨fun hx => ?_, fun i c' hi hmem => ?_⟩
    · rw [List.flatten_cons, List.mem_append, not_or] at hx
      rw [ihout hx.2, writeGroup_apply, if_neg hx.1]
    · cases i with
      | zero =>
        rw [List.getElem?_cons_zero, Option.some.injEq] at hi
        subst hi
        rw [ihout (hnodup.2.2 hmem), writeGroup_apply, if_pos hmem, Nat.add_zero]
      | succ i =>
        rw [List.getElem?_cons_succ] at hi
        rw [ihin i c' hi hmem]
        congr 1
        omega

variable {value} {groups : List (List Nat)} {default : κ} (hnodup : groups.flatten.Nodup)
include hnodup

theorem groupTable_of_not_mem {x : Nat} (hx : x ∉ groups.flatten) : groupTable value default groups x = default :=
  (writeGroup_foldl value groups 0 _ x hnodup).1 hx

theorem groupTable_of_mem {x i : Nat} {c : List Nat} (hi : groups[i]? = some c) (hx : x ∈ c) :
    groupTable value default groups x = value i := by
  have := (writeGroup_foldl value groups 0 (fun _ => default) x hnodup).2 i c hi hx
  rwa [Nat.zero_add] at this

/-- With a default that no group has, the table tells the groups apart. -/
theorem groupTable_iff (hvalue : Function.Injective value) (hdefault : ∀ i, value i ≠ default) {x i : Nat} :
    groupTable value default groups x = value i ↔ ∃ c, groups[i]? = some c ∧ x ∈ c := by
  constructor
  · intro h
    have hmem : x ∈ groups.flatten := by
      by_contra hnot
      rw [groupTable_of_not_mem hnodup hnot] at h
      exact hdefault i h.symm
    obtain ⟨c, hc, hx⟩ := List.mem_flatten.1 hmem
    obtain ⟨j, hj⟩ := List.mem_iff_getElem?.1 hc
    rw [groupTable_of_mem hnodup hj hx] at h
    exact ⟨c, hvalue h ▸ hj, hx⟩
  · rintro ⟨c, hc, hx⟩
    exact groupTable_of_mem hnodup hc hx

end Table

/-! ## A map of vectors -/

/-- The elements with each key, in their order, by increasing key. -/
def groupOn {α κ : Type} [LinearOrder κ] (key : α → κ) (l : List α) : List (κ × List α) :=
  (sortUnique (l.map key)).map fun k => (k, l.filter fun a => key a = k)

end Lib
