import Mathlib.Data.List.Sort
import Mathlib.Data.Prod.Lex
import Mathlib.Order.WithBot
/-!
# Sorting with a comparator, and dropping repeats

`sortWith lt` is what a comparison sort does for a comparator `lt` that answers
"strictly before". Elements that neither come before the other keep their
order, which is one of the results an unstable sort may give. `sortOn key` sorts
by a key in a linear order.

- `sortOn_perm_eq`: two orders of the same elements sort to the same list, when
  the key tells them apart.
- `uniqueOn_sorted`: dropping neighbours with equal keys from a sorted list
  leaves each key once.
- `mixedBefore_strictWeak_iff`: when a comparator that takes members of one class
  by rank and others by name is a strict weak order.
-/

namespace Lib

variable {α β κ : Type}

/-- Sort by a strict comparator. -/
def sortWith (lt : α → α → Bool) (l : List α) : List α :=
  l.insertionSort (fun a b => lt b a = false)

/-- Sort by a key. -/
def sortOn [LinearOrder κ] (key : α → κ) (l : List α) : List α :=
  sortWith (fun a b => decide (key a < key b)) l

theorem sortWith_perm (lt : α → α → Bool) (l : List α) : (sortWith lt l).Perm l :=
  List.perm_insertionSort _ l

section Key
variable [LinearOrder κ] (key : α → κ)

theorem sortOn_perm (l : List α) : (sortOn key l).Perm l := sortWith_perm _ l

@[simp]
theorem mem_sortOn {l : List α} {x : α} : x ∈ sortOn key l ↔ x ∈ l := (sortOn_perm key l).mem_iff

@[simp]
theorem length_sortOn (l : List α) : (sortOn key l).length = l.length := (sortOn_perm key l).length_eq

theorem sortOn_eq (l : List α) : sortOn key l = l.insertionSort (fun a b => key a ≤ key b) := by
  unfold sortOn sortWith
  congr 1
  funext a b
  simp

theorem sortOn_pairwise (l : List α) : (sortOn key l).Pairwise (fun a b => key a ≤ key b) := by
  rw [sortOn_eq]
  have : Std.Total (fun a b : α => key a ≤ key b) := ⟨fun a b => le_total (key a) (key b)⟩
  have : IsTrans α (fun a b : α => key a ≤ key b) := ⟨fun _ _ _ h h' => le_trans h h'⟩
  exact List.pairwise_insertionSort _ l

theorem sortOn_of_pairwise {l : List α} (h : l.Pairwise (fun a b => key a ≤ key b)) :
    sortOn key l = l := by
  rw [sortOn_eq]
  exact h.insertionSort_eq

/-- The order of the input does not matter, as long as the key tells the
elements apart. -/
theorem sortOn_perm_eq {l l' : List α} (hp : l.Perm l')
    (hk : ∀ a ∈ l, ∀ b ∈ l, key a = key b → a = b) : sortOn key l = sortOn key l' := by
  refine List.Perm.eq_of_pairwise ?_ (sortOn_pairwise key l) (sortOn_pairwise key l')
    (((sortOn_perm key l).trans hp).trans (sortOn_perm key l').symm)
  intro a b ha hb hab hba
  rw [mem_sortOn] at ha hb
  exact hk a ha b (hp.mem_iff.2 hb) (le_antisymm hab hba)

/-- Sorting an image is the image of sorting by the composed key. -/
theorem sortOn_map (f : β → α) (l : List β) : sortOn key (l.map f) = (sortOn (key ∘ f) l).map f := by
  rw [sortOn_eq, sortOn_eq]
  exact (List.map_insertionSort _ _ f l (fun _ _ _ _ => Iff.rfl)).symm

end Key

/-! ## Dropping repeats -/

section Unique
variable [DecidableEq κ] (key : α → κ)

/-- Keep `a`, then every element whose key differs from the last one kept. -/
def uniqueFrom (a : α) : List α → List α
  | [] => [a]
  | b :: l => if key a = key b then uniqueFrom a l else a :: uniqueFrom b l

/-- `std::unique` with a projection: of each run of equal keys, the first. -/
def uniqueOn : List α → List α
  | [] => []
  | a :: l => uniqueFrom key a l

theorem uniqueFrom_sublist (a : α) (l : List α) : (uniqueFrom key a l).Sublist (a :: l) := by
  induction l generalizing a with
  | nil => exact List.Sublist.refl _
  | cons b l ih =>
    rw [uniqueFrom]
    split
    · exact (ih a).trans (List.Sublist.cons_cons a (List.sublist_cons_self b l))
    · exact List.Sublist.cons_cons a (ih b)

theorem uniqueOn_sublist (l : List α) : (uniqueOn key l).Sublist l := by
  cases l with
  | nil => exact List.Sublist.refl _
  | cons a l => exact uniqueFrom_sublist key a l

theorem key_mem_uniqueFrom (a : α) (l : List α) :
    ∀ x ∈ a :: l, ∃ y ∈ uniqueFrom key a l, key y = key x := by
  induction l generalizing a with
  | nil => intro x hx; exact ⟨x, hx, rfl⟩
  | cons b l ih =>
    intro x hx
    rw [uniqueFrom]
    split
    · rename_i hab
      rcases List.mem_cons.1 hx with rfl | hx
      · exact ih x x List.mem_cons_self
      · rcases List.mem_cons.1 hx with rfl | hx
        · obtain ⟨y, hy, hyk⟩ := ih a a List.mem_cons_self
          exact ⟨y, hy, hyk.trans hab⟩
        · exact ih a x (List.mem_cons_of_mem _ hx)
    · rcases List.mem_cons.1 hx with rfl | hx
      · exact ⟨x, List.mem_cons_self, rfl⟩
      · obtain ⟨y, hy, hyk⟩ := ih b x hx
        exact ⟨y, List.mem_cons_of_mem _ hy, hyk⟩

/-- Every element is represented by a kept one with its key. -/
theorem key_mem_uniqueOn {l : List α} {x : α} (hx : x ∈ l) : ∃ y ∈ uniqueOn key l, key y = key x := by
  cases l with
  | nil => cases hx
  | cons a l => exact key_mem_uniqueFrom key a l x hx

theorem uniqueFrom_lt {κ : Type} [LinearOrder κ] (key : α → κ) (a : α) (l : List α)
    (h : (a :: l).Pairwise (fun x y => key x ≤ key y)) :
    (uniqueFrom key a l).Pairwise (fun x y => key x < key y) := by
  induction l generalizing a with
  | nil => simp [uniqueFrom]
  | cons b l ih =>
    obtain ⟨hab, hl⟩ := List.pairwise_cons.1 h
    rw [uniqueFrom]
    split
    · exact ih a (List.pairwise_cons.2 ⟨fun x hx => hab x (List.mem_cons_of_mem _ hx), (List.pairwise_cons.1 hl).2⟩)
    · rename_i hne
      refine List.pairwise_cons.2 ⟨fun x hx => ?_, ih b hl⟩
      have hlt : key a < key b := lt_of_le_of_ne (hab b List.mem_cons_self) hne
      rcases List.mem_cons.1 ((uniqueFrom_sublist key b l).subset hx) with rfl | hx
      · exact hlt
      · exact lt_of_lt_of_le hlt ((List.pairwise_cons.1 hl).1 x hx)

/-- Keys that tell the same elements apart. -/
theorem uniqueOn_congr {κ' : Type} [DecidableEq κ'] {key : α → κ} {key' : α → κ'}
    (h : ∀ a b, key a = key b ↔ key' a = key' b) (l : List α) : uniqueOn key l = uniqueOn key' l := by
  cases l with
  | nil => rfl
  | cons a l =>
    show uniqueFrom key a l = uniqueFrom key' a l
    induction l generalizing a with
    | nil => rfl
    | cons b l ih =>
      rw [uniqueFrom, uniqueFrom, ih a, ih b]
      simp only [h]

/-- On a sorted list the kept keys strictly increase, so none repeats. -/
theorem uniqueOn_sorted {κ : Type} [LinearOrder κ] (key : α → κ) {l : List α}
    (h : l.Pairwise (fun x y => key x ≤ key y)) :
    (uniqueOn key l).Pairwise (fun x y => key x < key y) := by
  cases l with
  | nil => exact List.Pairwise.nil
  | cons a l => exact uniqueFrom_lt key a l h

end Unique

/-- `std::ranges::sort` followed by `std::unique` and `erase`. -/
def sortUnique [LinearOrder α] (l : List α) : List α := uniqueOn id (sortOn id l)

section SortUnique
variable [LinearOrder α]

@[simp]
theorem mem_sortUnique {l : List α} {x : α} : x ∈ sortUnique l ↔ x ∈ l := by
  constructor
  · intro h
    exact (mem_sortOn id).1 ((uniqueOn_sublist id _).subset h)
  · intro h
    obtain ⟨y, hy, hyx⟩ := key_mem_uniqueOn id ((mem_sortOn id).2 h)
    exact (show y = x from hyx) ▸ hy

theorem sortUnique_lt (l : List α) : (sortUnique l).Pairwise (· < ·) :=
  uniqueOn_sorted id (sortOn_pairwise id l)

theorem sortUnique_nodup (l : List α) : (sortUnique l).Nodup :=
  (sortUnique_lt l).imp (fun h => ne_of_lt h)

/-- A strictly increasing list is determined by its elements. -/
theorem eq_of_lt_of_mem {l l' : List α} (h : l.Pairwise (· < ·)) (h' : l'.Pairwise (· < ·))
    (hm : ∀ x, x ∈ l ↔ x ∈ l') : l = l' := by
  have hle : l.Pairwise (fun a b => a ≤ b) := h.imp le_of_lt
  have hle' : l'.Pairwise (fun a b => a ≤ b) := h'.imp le_of_lt
  refine List.Perm.eq_of_pairwise (fun a b _ _ hab hba => le_antisymm hab hba) hle hle' ?_
  exact (List.perm_ext_iff_of_nodup (h.imp (fun h => ne_of_lt h)) (h'.imp (fun h => ne_of_lt h))).2 hm

theorem sortUnique_congr {l l' : List α} (h : ∀ x, x ∈ l ↔ x ∈ l') : sortUnique l = sortUnique l' :=
  eq_of_lt_of_mem (sortUnique_lt l) (sortUnique_lt l') (fun x => by rw [mem_sortUnique, mem_sortUnique, h])

end SortUnique

/-! ## Two orders in one comparator

`mixedBefore` ranks the members of a class, and takes members of different
classes by their name, though one class may have several names. -/

section Mixed
variable {γ τ : Type} [DecidableEq γ] [LinearOrder τ] [LinearOrder κ] (cls : α → γ) (name : α → τ) (rank : α → κ)

def mixedBefore (a b : α) : Prop := if cls a = cls b then rank a < rank b else name a < name b

variable {cls name rank} {a b : α}

theorem mixedBefore_same (h : cls a = cls b) : mixedBefore cls name rank a b ↔ rank a < rank b := by
  rw [mixedBefore, if_pos h]

theorem mixedBefore_other (h : cls a ≠ cls b) : mixedBefore cls name rank a b ↔ name a < name b := by
  rw [mixedBefore, if_neg h]

/-- Neither comes first only within a class, at one rank. -/
theorem mixedBefore_incomparable (hname : ∀ a b, name a = name b → cls a = cls b) :
    (¬ mixedBefore cls name rank a b ∧ ¬ mixedBefore cls name rank b a) ↔ cls a = cls b ∧ rank a = rank b := by
  by_cases h : cls a = cls b
  · rw [mixedBefore_same h, mixedBefore_same h.symm, not_lt, not_lt]
    exact ⟨fun ⟨hba, hab⟩ => ⟨h, le_antisymm hab hba⟩, fun ⟨_, hrank⟩ => ⟨hrank.ge, hrank.le⟩⟩
  · rw [mixedBefore_other h, mixedBefore_other (Ne.symm h), not_lt, not_lt]
    exact ⟨fun ⟨hba, hab⟩ => absurd (hname a b (le_antisymm hab hba)) h, fun ⟨hab, _⟩ => absurd hab h⟩

/-- The comparator is transitive unless a name of another class stands between
two names of one class whose ranks do not agree with that. -/
theorem mixedBefore_trans (hname : ∀ a b, name a = name b → cls a = cls b)
    (hapart : ∀ a b c, cls a = cls c → cls a ≠ cls b → name a < name b → name b < name c → rank a < rank c)
    {a b c : α} (hab : mixedBefore cls name rank a b) (hbc : mixedBefore cls name rank b c) :
    mixedBefore cls name rank a c := by
  have hlt : ∀ {x y : α}, cls x ≠ cls y → ¬ name y < name x → name x < name y := fun hne hle =>
    lt_of_le_of_ne (not_lt.1 hle) fun heq => hne (hname _ _ heq)
  by_cases h₁ : cls a = cls b
  · rw [mixedBefore_same h₁] at hab
    by_cases h₂ : cls b = cls c
    · rw [mixedBefore_same h₂] at hbc
      exact (mixedBefore_same (h₁.trans h₂)).2 (hab.trans hbc)
    · rw [mixedBefore_other h₂] at hbc
      have h₃ : cls a ≠ cls c := fun h => h₂ (h₁.symm.trans h)
      -- else `b`, `c`, `a` have their names in this order, and `b` ranks first
      exact (mixedBefore_other h₃).2 (hlt h₃ fun hca => lt_asymm hab (hapart b c a h₁.symm h₂ hbc hca))
  · rw [mixedBefore_other h₁] at hab
    by_cases h₂ : cls b = cls c
    · rw [mixedBefore_same h₂] at hbc
      have h₃ : cls a ≠ cls c := fun h => h₁ (h.trans h₂.symm)
      -- else `c`, `a`, `b` have their names in this order, and `c` ranks first
      exact (mixedBefore_other h₃).2 (hlt h₃ fun hca => lt_asymm hbc (hapart c a b h₂.symm (Ne.symm h₃) hca hab))
    · rw [mixedBefore_other h₂] at hbc
      by_cases h₃ : cls a = cls c
      · exact (mixedBefore_same h₃).2 (hapart a b c h₃ h₁ hab hbc)
      · exact (mixedBefore_other h₃).2 (hab.trans hbc)

theorem mixedBefore_strictWeak_iff (hname : ∀ a b, name a = name b → cls a = cls b) :
    IsStrictWeakOrder α (mixedBefore cls name rank) ↔
      ∀ a b c, cls a = cls c → cls a ≠ cls b → name a < name b → name b < name c → rank a < rank c := by
  constructor
  · intro h a b c hac hne hab hbc
    have hne' : cls b ≠ cls c := fun hbc => hne (hac.trans hbc.symm)
    exact (mixedBefore_same hac).1
      (h.trans a b c ((mixedBefore_other hne).2 hab) ((mixedBefore_other hne').2 hbc))
  · intro hapart
    refine { irrefl := fun a h => ?_, trans := fun a b c => mixedBefore_trans hname hapart, incomp_trans := ?_ }
    · exact lt_irrefl _ ((mixedBefore_same rfl).1 h)
    · intro a b c hab hbc
      rw [mixedBefore_incomparable hname] at hab hbc ⊢
      exact ⟨hab.1.trans hbc.1, hab.2.trans hbc.2⟩

end Mixed

end Lib
