import Mathlib.Data.List.Nodup
import Mathlib.Data.List.Perm.Basic
/-!
# Lists of keys and values

- `lookup_eq_some_iff`: with distinct keys, a lookup finds what the list has.
- `lookup_perm`: and then the order does not matter.
-/

namespace Lib

variable {κ β : Type} [BEq κ] [LawfulBEq κ] {l l' : List (κ × β)} {k : κ}

theorem lookup_isSome_iff : (l.lookup k).isSome = true ↔ k ∈ l.map (·.1) := by
  induction l with
  | nil => simp
  | cons x l ih =>
    rw [List.lookup_cons, List.map_cons, List.mem_cons]
    by_cases hk : k = x.1
    · simp [hk]
    · rw [show (k == x.1) = false by simpa using hk]
      simp [ih, hk]

/-- What a lookup finds is in the list, whether or not its key is there once. -/
theorem mem_of_lookup {v : β} (h : l.lookup k = some v) : (k, v) ∈ l := by
  obtain ⟨before, after, rfl, -⟩ := List.lookup_eq_some_iff.1 h
  exact List.mem_append.2 (.inr List.mem_cons_self)

theorem lookup_eq_some_iff (hnodup : (l.map (·.1)).Nodup) {v : β} : l.lookup k = some v ↔ (k, v) ∈ l := by
  induction l with
  | nil => simp
  | cons x l ih =>
    obtain ⟨hnot, hnodup⟩ := List.nodup_cons.1 hnodup
    rw [List.lookup_cons, List.mem_cons]
    by_cases hk : k = x.1
    · subst hk
      have hout : (x.1, v) ∉ l := fun hmem => hnot (List.mem_map.2 ⟨_, hmem, rfl⟩)
      rw [beq_self_eq_true]
      simp [hout, Prod.ext_iff, eq_comm]
    · rw [show (k == x.1) = false by simpa using hk]
      simp [ih hnodup, Prod.ext_iff, hk]

theorem lookup_perm (hnodup : (l.map (·.1)).Nodup) (hperm : l.Perm l') : l'.lookup k = l.lookup k := by
  refine Option.ext fun v => ?_
  rw [lookup_eq_some_iff hnodup, lookup_eq_some_iff ((hperm.map _).nodup_iff.1 hnodup), hperm.mem_iff]

end Lib
