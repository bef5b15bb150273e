import Mathlib.Data.List.Basic
/-!
# Lists with their length in front

- `append_sep_inj`: a separator splits a text in one way.
- `prefixed_inj`: so does a length in front of a part, whatever the part holds.
-/

namespace Lib

variable {α : Type}

/-- The first separator ends the first part. -/
theorem append_sep_inj {«sep» : α} {l l' rest rest' : List α} (hl : «sep» ∉ l) (hl' : «sep» ∉ l') :
    l ++ «sep» :: rest = l' ++ «sep» :: rest' ↔ l = l' ∧ rest = rest' := by
  constructor
  · intro h
    induction l generalizing l' with
    | nil =>
      cases l' with
      | nil => exact ⟨rfl, (List.cons.inj h).2⟩
      | cons b l' =>
        obtain ⟨rfl, -⟩ := List.cons.inj h
        exact absurd List.mem_cons_self hl'
    | cons a l ih =>
      cases l' with
      | nil =>
        obtain ⟨rfl, -⟩ := List.cons.inj h
        exact absurd List.mem_cons_self hl
      | cons b l' =>
        obtain ⟨rfl, htail⟩ := List.cons.inj h
        obtain ⟨rfl, hrest⟩ := ih (fun hm => hl (List.mem_cons_of_mem _ hm))
          (fun hm => hl' (List.mem_cons_of_mem _ hm)) htail
        exact ⟨rfl, hrest⟩
  · rintro ⟨rfl, rfl⟩
    rfl

/-- A part with its length and a separator in front. -/
def prefixed (number : Nat → List α) («sep» : α) (part : List α) : List α := number part.length ++ «sep» :: part

theorem prefixed_inj {number : Nat → List α} {«sep» : α} (hnumber : Function.Injective number)
    (hsep : ∀ n, «sep» ∉ number n) {part part' rest rest' : List α} :
    prefixed number «sep» part ++ rest = prefixed number «sep» part' ++ rest' ↔ part = part' ∧ rest = rest' := by
  constructor
  · intro h
    unfold prefixed at h
    rw [List.append_assoc, List.append_assoc, List.cons_append, List.cons_append] at h
    obtain ⟨hlength, htail⟩ := (append_sep_inj (hsep _) (hsep _)).1 h
    exact List.append_inj htail (hnumber hlength)
  · rintro ⟨rfl, rfl⟩
    rfl

end Lib
