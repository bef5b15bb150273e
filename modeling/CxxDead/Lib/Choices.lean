import CxxDead.Lib.Worklist
import Mathlib.Data.List.Basic
/-!
# Items that may stand for several vertices

A listing of the vertices takes an item for the first vertex listed that the
item may stand for (`pick`). With the right listings a search finds everything
that some listing finds, or only what all of them find.

- `leads_of_closest`: with the closest vertices first, an item leads to the
  target if it may.
- `mustLead_of_unforced`: with the vertices first from which the target can be
  missed, an item leads to the target only if it must.
-/

namespace Lib

open Relation

/-- In a list ordered by `R`, the first element with a property is below all others that have it. -/
theorem find?_below {α : Type} {R : α → α → Prop} {p : α → Bool} {l : List α} {x y : α} (hl : l.Pairwise R)
    (hrefl : R x x) (hx : l.find? p = some x) (hy : y ∈ l) (hpy : p y = true) : R x y := by
  obtain ⟨-, before, after, rfl, hbefore⟩ := List.find?_eq_some_iff_append.1 hx
  rcases List.mem_append.1 hy with hy | hy
  · have hno := hbefore y hy
    rw [hpy] at hno
    cases hno
  · rcases List.mem_cons.1 hy with rfl | hy
    · exact hrefl
    · exact List.rel_of_pairwise_cons (List.pairwise_append.1 hl).2.1 hy

namespace Choices

open Classical in
/-- The first vertex listed that `b` may stand for. -/
noncomputable def pick {β ν : Type} (means : β → ν → Prop) (names : List ν) (b : β) : Option ν :=
  names.find? fun w => decide (means b w)

variable {β ν : Type} (means : β → ν → Prop) (items : ν → List β) (target : ν)

/-- Some item of `v` may stand for `w`. -/
def MayNext (v w : ν) : Prop := ∃ b ∈ items v, means b w

/-- The target is reached from a vertex, whatever the items on the way are taken for. -/
inductive Forced : ν → Prop
  | here : Forced target
  | step {v : ν} {b : β} (hb : b ∈ items v) (hsome : ∃ w, means b w) (hall : ∀ w, means b w → Forced w) : Forced v

def MayLead (b : β) : Prop := ∃ w, means b w ∧ ReflTransGen (MayNext means items) w target

def MustLead (b : β) : Prop := (∃ w, means b w) ∧ ∀ w, means b w → Forced means items target w

/-- The target can be reached in at most `n` steps. -/
inductive Within : Nat → ν → Prop
  | here (n : Nat) : Within n target
  | step {n : Nat} {v w : ν} (hnext : MayNext means items v w) (hw : Within n w) : Within (n + 1) v

/-- The target is at most as far from `v` as from `w`. -/
def Closer (v w : ν) : Prop := ∀ n, Within means items target n w → Within means items target n v

/-- The target is missed from `v` if it can be missed from `w`. -/
def Safer (v w : ν) : Prop := Forced means items target v → Forced means items target w

variable {means items target} {names : List ν} {b : β} {v w : ν} {n m : Nat}

theorem pick_means (h : pick means names b = some w) : means b w := by
  simpa using List.find?_some h

theorem pick_some (hnames : ∀ b w, means b w → w ∈ names) (h : means b w) : ∃ x, pick means names b = some x := by
  refine Option.isSome_iff_exists.1 ?_
  rw [pick, List.find?_isSome]
  exact ⟨w, hnames b w h, by simpa using h⟩

/-! ## Steps -/

theorem Within.mono (h : Within means items target n v) (hnm : n ≤ m) : Within means items target m v := by
  induction h generalizing m with
  | here => exact .here m
  | step hnext _ ih =>
    obtain ⟨k, rfl⟩ : ∃ k, m = k + 1 := ⟨m - 1, by omega⟩
    exact .step hnext (ih (by omega))

theorem exists_within (h : ReflTransGen (MayNext means items) v target) : ∃ n, Within means items target n v := by
  induction h using ReflTransGen.head_induction_on with
  | refl => exact ⟨0, .here 0⟩
  | head hnext _ ih =>
    obtain ⟨n, hn⟩ := ih
    exact ⟨n + 1, .step hnext hn⟩

theorem Closer.total (v w : ν) : Closer means items target v w ∨ Closer means items target w v := by
  by_contra h
  simp only [Closer, not_or, not_forall] at h
  obtain ⟨⟨n, hw, hv⟩, m, hv', hw'⟩ := h
  rcases Nat.le_total n m with hnm | hmn
  · exact hw' (hw.mono hnm)
  · exact hv (hv'.mono hmn)

theorem Safer.total (v w : ν) : Safer means items target v w ∨ Safer means items target w v := by
  unfold Safer
  tauto

/-! ## What a listing finds -/

/-- A search finds only what it may. -/
theorem mayLead_of_leads (h : Worklist.Leads (pick means names) items b target) : MayLead means items target b := by
  obtain ⟨w, hw, hpath⟩ := h
  refine ⟨w, pick_means hw, ReflTransGen.mono ?_ _ _ hpath⟩
  rintro u v ⟨c, hc, hc'⟩
  exact ⟨c, hc, pick_means hc'⟩

/-- What is forced is found from every listing. -/
theorem Forced.path (hnames : ∀ b w, means b w → w ∈ names) (h : Forced means items target v) :
    ReflTransGen (Worklist.Next (pick means names) items) v target := by
  induction h with
  | here => exact .refl
  | step hb hsome _ ih =>
    obtain ⟨w, hw⟩ := hsome
    obtain ⟨x, hx⟩ := pick_some hnames hw
    exact (ih x (pick_means hx)).head ⟨_, hb, hx⟩

theorem leads_of_mustLead (hnames : ∀ b w, means b w → w ∈ names) (h : MustLead means items target b) :
    Worklist.Leads (pick means names) items b target := by
  obtain ⟨⟨w, hw⟩, hall⟩ := h
  obtain ⟨x, hx⟩ := pick_some hnames hw
  exact ⟨x, hx, (hall x (pick_means hx)).path hnames⟩

/-- With the closest vertices first, an item leads to the target if it may. -/
theorem leads_of_closest (hnames : ∀ b w, means b w → w ∈ names) (hsorted : names.Pairwise (Closer means items target))
    (h : MayLead means items target b) : Worklist.Leads (pick means names) items b target := by
  have hpick : ∀ {n c w}, means c w → Within means items target n w →
      ∃ x, pick means names c = some x ∧ Within means items target n x := by
    intro n c w hw hn
    obtain ⟨x, hx⟩ := pick_some hnames hw
    exact ⟨x, hx, find?_below hsorted (fun _ => id) hx (hnames c w hw) (by simpa using hw) n hn⟩
  have hpath : ∀ n v, Within means items target n v → ReflTransGen (Worklist.Next (pick means names) items) v target := by
    intro n
    induction n with
    | zero =>
      rintro v ⟨⟩
      exact .refl
    | succ n ih =>
      intro v hv
      cases hv with
      | here => exact .refl
      | step hnext hw =>
        obtain ⟨c, hc, hmeans⟩ := hnext
        obtain ⟨x, hx, hn⟩ := hpick hmeans hw
        exact (ih x hn).head ⟨c, hc, hx⟩
  obtain ⟨w, hw, hmay⟩ := h
  obtain ⟨n, hn⟩ := exists_within hmay
  obtain ⟨x, hx, hxn⟩ := hpick hw hn
  exact ⟨x, hx, hpath n x hxn⟩

/-- With the vertices first from which the target can be missed, an item leads there only if it must. -/
theorem mustLead_of_unforced (hnames : ∀ b w, means b w → w ∈ names)
    (hsorted : names.Pairwise (Safer means items target)) (h : Worklist.Leads (pick means names) items b target) :
    MustLead means items target b := by
  have hpick : ∀ {c x}, pick means names c = some x → Forced means items target x → MustLead means items target c := by
    intro c x hx hforced
    exact ⟨⟨x, pick_means hx⟩, fun w hw =>
      find?_below hsorted (fun h => h) hx (hnames c w hw) (by simpa using hw) hforced⟩
  obtain ⟨w, hw, hpath⟩ := h
  refine hpick hw ?_
  clear hw
  induction hpath using ReflTransGen.head_induction_on with
  | refl => exact .here
  | head hnext _ ih =>
    obtain ⟨c, hc, hx⟩ := hnext
    obtain ⟨hsome, hall⟩ := hpick hx ih
    exact .step hc hsome hall

end Choices

end Lib
