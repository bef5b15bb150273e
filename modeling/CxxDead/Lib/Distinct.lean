import Mathlib.Data.List.Forall2
import CxxDead.Lib.Sorting
import CxxDead.Lib.Throwing
/-!
# Collecting different values

A loop that reads items one after the other, and fails on an item that it cannot
read or whose value it has met before.
-/

namespace Lib

variable {ε α β : Type}

/-- Such a loop succeeds exactly if every item has a value and the values all differ. -/
theorem foldlM_distinct_ok_iff {f : List α → β → Except ε (List α)} {P : β → α → Prop}
    (hstep : ∀ done b l, f done b = .ok l ↔ ∃ a, P b a ∧ a ∉ done ∧ l = done ++ [a]) (bs : List β) (done l : List α) :
    bs.foldlM f done = .ok l ↔
      ∃ more, List.Forall₂ P bs more ∧ more.Nodup ∧ (∀ a ∈ more, a ∉ done) ∧ l = done ++ more := by
  induction bs generalizing done with
  | nil =>
    simp only [List.foldlM_nil, pure, Except.pure, Except.ok.injEq, List.forall₂_nil_left_iff]
    constructor
    · rintro rfl
      exact ⟨[], rfl, List.nodup_nil, List.forall_mem_nil _, (List.append_nil _).symm⟩
    · rintro ⟨_, rfl, -, -, rfl⟩
      exact (List.append_nil _).symm
  | cons b bs ih =>
    rw [List.foldlM_cons, except_bind_ok_iff]
    simp only [hstep, ih, List.forall₂_cons_left_iff]
    constructor
    · rintro ⟨_, ⟨a, ha, hnew, rfl⟩, more, hmore, hnodup, hapart, rfl⟩
      refine ⟨a :: more, ⟨a, more, ha, hmore, rfl⟩, List.nodup_cons.2 ⟨fun hmem => ?_, hnodup⟩, ?_, by simp⟩
      · exact hapart a hmem (List.mem_append_right _ (List.mem_singleton_self a))
      · exact List.forall_mem_cons.2 ⟨hnew, fun x hx hdone => hapart x hx (List.mem_append_left _ hdone)⟩
    · rintro ⟨_, ⟨a, more, ha, hmore, rfl⟩, hnodup, hapart, rfl⟩
      rw [List.forall_mem_cons] at hapart
      obtain ⟨hnot, hnodup⟩ := List.nodup_cons.1 hnodup
      refine ⟨_, ⟨a, ha, hapart.1, rfl⟩, more, hmore, hnodup, fun x hx => ?_, by simp⟩
      rw [List.mem_append, List.mem_singleton, not_or]
      exact ⟨hapart.2 x hx, fun heq => hnot (heq ▸ hx)⟩

/-- A loop that makes one value of each item. -/
theorem mapM_ok_iff {f : β → Except ε α} {P : β → α → Prop} (hf : ∀ b a, f b = .ok a ↔ P b a) (bs : List β)
    (l : List α) : bs.mapM f = .ok l ↔ List.Forall₂ P bs l := by
  induction bs generalizing l with
  | nil =>
    rw [List.mapM_nil, List.forall₂_nil_left_iff]
    exact ⟨fun h => (Except.ok.inj h).symm, fun h => congrArg Except.ok h.symm⟩
  | cons b bs ih =>
    rw [List.mapM_cons, except_bind_ok_iff, List.forall₂_cons_left_iff]
    simp only [except_bind_ok_iff, hf, ih]
    constructor
    · rintro ⟨a, ha, rest, hrest, h⟩
      exact ⟨a, rest, ha, hrest, (Except.ok.inj h).symm⟩
    · rintro ⟨a, rest, ha, hrest, rfl⟩
      exact ⟨a, ha, rest, hrest, rfl⟩

/-- Numbering the items does not matter to what is read off them. -/
theorem forall₂_zipIdx_iff {P : β → α → Prop} {bs : List β} {l : List α} (i : Nat) :
    List.Forall₂ (fun item a => P item.1 a) (bs.zipIdx i) l ↔ List.Forall₂ P bs l := by
  induction bs generalizing l i with
  | nil => rw [List.zipIdx_nil, List.forall₂_nil_left_iff, List.forall₂_nil_left_iff]
  | cons b bs ih => simp only [List.zipIdx_cons, List.forall₂_cons_left_iff, ih]

theorem forall₂_eq_map {P : α → Prop} {write : α → β} {bs : List β} {l : List α} :
    List.Forall₂ (fun b a => b = write a ∧ P a) bs l ↔ bs = l.map write ∧ ∀ a ∈ l, P a := by
  induction l generalizing bs with
  | nil => simp
  | cons a l ih =>
    simp only [List.forall₂_cons_right_iff, ih, List.map_cons, List.forall_mem_cons]
    constructor
    · rintro ⟨_, _, ⟨rfl, ha⟩, ⟨rfl, hl⟩, rfl⟩
      exact ⟨rfl, ha, hl⟩
    · rintro ⟨rfl, ha, hl⟩
      exact ⟨_, _, ⟨rfl, ha⟩, ⟨rfl, hl⟩, rfl⟩

theorem eq_of_map_eq {f : α → β} {l l' : List α} (h : l.map f = l'.map f)
    (hinj : ∀ a ∈ l, ∀ b ∈ l', f a = f b → a = b) : l = l' := by
  induction l generalizing l' with
  | nil => exact (List.map_eq_nil_iff.1 h.symm).symm
  | cons a l ih =>
    obtain ⟨b, l', rfl, hb, hl⟩ := List.map_eq_cons_iff.1 h.symm
    obtain rfl := hinj a List.mem_cons_self b List.mem_cons_self hb.symm
    rw [ih hl.symm fun x hx y hy => hinj x (List.mem_cons_of_mem _ hx) y (List.mem_cons_of_mem _ hy)]

/-- A list without repetition stays as it is. -/
theorem uniqueOn_of_pairwise {κ : Type} [DecidableEq κ] {key : α → κ} {l : List α}
    (h : l.Pairwise fun a b => key a ≠ key b) : uniqueOn key l = l := by
  cases l with
  | nil => rfl
  | cons a l =>
    show uniqueFrom key a l = a :: l
    induction l generalizing a with
    | nil => rfl
    | cons b l ih =>
      obtain ⟨ha, hl⟩ := List.pairwise_cons.1 h
      rw [uniqueFrom, if_neg (ha b List.mem_cons_self), ih b hl]

/-- Sorting by a key that tells the elements apart, and dropping repetitions, forgets
everything but which elements there are. -/
theorem uniqueOn_sortOn_congr {κ κ' : Type} [LinearOrder κ] [DecidableEq κ'] {key : α → κ} {key' : α → κ'}
    (hkey : ∀ a b, key' a = key' b ↔ key a = key b) {l l' : List α} (hmem : ∀ a, a ∈ l ↔ a ∈ l')
    (hinj : ∀ a ∈ l, ∀ b ∈ l, key a = key b → a = b) : uniqueOn key' (sortOn key l) = uniqueOn key' (sortOn key l') := by
  have hpart : ∀ m a, a ∈ uniqueOn key (sortOn key m) → a ∈ m := fun m a ha =>
    (mem_sortOn key).1 ((uniqueOn_sublist key _).subset ha)
  have hkeys : ∀ m, (∀ a, a ∈ m ↔ a ∈ l) → ∀ k, k ∈ (uniqueOn key (sortOn key m)).map key ↔ ∃ a ∈ l, key a = k := by
    intro m hm k
    rw [List.mem_map]
    constructor
    · rintro ⟨a, ha, rfl⟩
      exact ⟨a, (hm a).1 (hpart m a ha), rfl⟩
    · rintro ⟨a, ha, rfl⟩
      exact key_mem_uniqueOn key ((mem_sortOn key).2 ((hm a).2 ha))
  have hsorted : ∀ m, ((uniqueOn key (sortOn key m)).map key).Pairwise (· < ·) := fun m =>
    List.pairwise_map.2 (uniqueOn_sorted key (sortOn_pairwise key m))
  have hmap : (uniqueOn key (sortOn key l)).map key = (uniqueOn key (sortOn key l')).map key :=
    eq_of_lt_of_mem (hsorted l) (hsorted l') fun k => by
      rw [hkeys l (fun _ => Iff.rfl), hkeys l' (fun a => (hmem a).symm)]
  rw [uniqueOn_congr hkey, uniqueOn_congr hkey]
  exact eq_of_map_eq hmap fun a ha b hb => hinj a (hpart l a ha) b ((hmem b).2 (hpart l' b hb))

end Lib
