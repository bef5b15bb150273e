import Mathlib.Algebra.Ring.Nat
import Mathlib.Data.List.Nodup
import Mathlib.Logic.Relation
/-!
# A worklist over names that have to be resolved

`drain` takes an item off the list, resolves it to a vertex, and unless it has
been there stacks the items of that vertex. Edges may form cycles.

- `drain_pending`: as much fuel as there are pending items, and items of
  vertices not visited, empties the list.
- `visited_iff`: a drained list has visited what some seed leads to.
-/

namespace Lib

open Relation

structure Worklist (β ν : Type) where
  pending : List β
  visited : List ν := []

namespace Worklist

variable {β ν : Type} (resolve : β → Option ν) (items : ν → List β)

section Loop
variable [DecidableEq ν]

/-- Take one item off the list. -/
def step (s : Worklist β ν) : Worklist β ν :=
  match s.pending with
  | [] => s
  | b :: rest =>
    match resolve b with
    | none => { s with pending := rest }
    | some v =>
      if v ∈ s.visited then { s with pending := rest }
      else { pending := (items v).reverse ++ rest, visited := s.visited ++ [v] }

def drain : Nat → Worklist β ν → Worklist β ν
  | 0, s => s
  | n + 1, s => if s.pending.isEmpty then s else drain n (s.step resolve items)

/-! ## Termination -/

/-- Items still to be taken at most, if `names` are all vertices. -/
def left (names : List ν) (s : Worklist β ν) : Nat :=
  s.pending.length + ((names.filter (· ∉ s.visited)).map fun v => (items v).length).sum

theorem sum_filter_visit (f : ν → Nat) {names visited : List ν} {v : ν} (hnodup : names.Nodup) (hv : v ∈ names)
    (hnew : v ∉ visited) :
    ((names.filter (· ∉ visited ++ [v])).map f).sum + f v = ((names.filter (· ∉ visited)).map f).sum := by
  have hperm : (names.filter (· ∉ visited)).Perm (v :: names.filter (· ∉ visited ++ [v])) := by
    refine (List.perm_ext_iff_of_nodup (hnodup.filter _) (List.nodup_cons.2 ⟨by simp, hnodup.filter _⟩)).2 fun w => ?_
    by_cases hw : w = v
    · subst hw; simp [hv, hnew]
    · simp [hw]
  rw [(hperm.map f).sum_nat, List.map_cons, List.sum_cons, Nat.add_comm]

variable {resolve items} in
/-- What a step does: it drops the item, or it visits the vertex that the item leads to. -/
theorem step_cases {s : Worklist β ν} {b : β} {rest : List β} (hs : s.pending = b :: rest) :
    ((∀ w, resolve b = some w → w ∈ s.visited) ∧ s.step resolve items = { s with pending := rest }) ∨
      ∃ v, resolve b = some v ∧ v ∉ s.visited ∧
        s.step resolve items = { pending := (items v).reverse ++ rest, visited := s.visited ++ [v] } := by
  unfold step
  rw [hs]
  dsimp only
  split
  · rename_i hnone
    exact .inl ⟨fun w hw => absurd (hnone.symm.trans hw) (by simp), rfl⟩
  · rename_i v hv
    split
    · rename_i hmem
      exact .inl ⟨fun w hw => by rwa [← Option.some.inj (hv.symm.trans hw)], rfl⟩
    · rename_i hnew
      exact .inr ⟨v, hv, hnew, rfl⟩

theorem left_step {names : List ν} (hnodup : names.Nodup) (hnames : ∀ b v, resolve b = some v → v ∈ names)
    {s : Worklist β ν} (hs : s.pending ≠ []) : (s.step resolve items).left items names + 1 = s.left items names := by
  obtain ⟨b, rest, hpending⟩ := List.exists_cons_of_ne_nil hs
  rcases @step_cases _ _ resolve items _ _ _ _ hpending with ⟨-, heq⟩ | ⟨v, hv, hnew, heq⟩
  · simp only [heq, left, hpending, List.length_cons]
    omega
  · have hsum := sum_filter_visit (fun v => (items v).length) hnodup (hnames b v hv) hnew
    simp only [heq, left, hpending, List.length_append, List.length_reverse, List.length_cons]
    omega

theorem drain_pending {names : List ν} (hnodup : names.Nodup) (hnames : ∀ b v, resolve b = some v → v ∈ names)
    (n : Nat) (s : Worklist β ν) (h : s.left items names ≤ n) : (drain resolve items n s).pending = [] := by
  induction n generalizing s with
  | zero =>
    have : s.pending.length = 0 := by unfold left at h; omega
    exact List.eq_nil_of_length_eq_zero this
  | succ n ih =>
    rw [drain]
    split
    · rename_i hs; exact List.isEmpty_iff.1 hs
    · rename_i hs
      have := left_step resolve items hnodup hnames (s := s) fun hnil => hs (List.isEmpty_iff.2 hnil)
      exact ih _ (by omega)

end Loop

/-! ## What is visited -/

/-- Some item of `v` is resolved to `w`. -/
def Next (v w : ν) : Prop := ∃ b ∈ items v, resolve b = some w

/-- Resolving `b`, and then items of what was found, ends at `v`. -/
def Leads (b : β) (v : ν) : Prop := ∃ w, resolve b = some w ∧ ReflTransGen (Next resolve items) w v

/-- What the loop knows of its state. -/
structure Inv (seeds : List β) (s : Worklist β ν) : Prop where
  sound : ∀ v ∈ s.visited, ∃ b ∈ seeds, Leads resolve items b v
  pending : ∀ b ∈ s.pending, b ∈ seeds ∨ ∃ v ∈ s.visited, b ∈ items v
  covered : ∀ b, (b ∈ seeds ∨ ∃ v ∈ s.visited, b ∈ items v) →
    b ∈ s.pending ∨ ∀ w, resolve b = some w → w ∈ s.visited

theorem Inv.start (seeds : List β) : Inv resolve items seeds { pending := seeds.reverse } :=
  ⟨by simp, fun b hb => .inl (List.mem_reverse.1 hb), fun b hb => .inl (by simpa using hb)⟩

variable {resolve items} {seeds : List β} {s : Worklist β ν}

/-- An item that leads to nothing new is dropped. -/
theorem Inv.drop {b : β} {rest : List β} (h : Inv resolve items seeds s) (hs : s.pending = b :: rest)
    (hb : ∀ w, resolve b = some w → w ∈ s.visited) : Inv resolve items seeds { s with pending := rest } := by
  refine ⟨h.sound, fun c hc => h.pending c (hs ▸ List.mem_cons_of_mem _ hc), fun c hc => ?_⟩
  rcases h.covered c hc with hmem | hdone
  · rcases List.mem_cons.1 (hs ▸ hmem) with rfl | hmem
    · exact .inr hb
    · exact .inl hmem
  · exact .inr hdone

/-- An item that leads to a new vertex makes way for that vertex' items. -/
theorem Inv.visit {b : β} {rest : List β} {v : ν} (h : Inv resolve items seeds s) (hs : s.pending = b :: rest)
    (hv : resolve b = some v) :
    Inv resolve items seeds { pending := (items v).reverse ++ rest, visited := s.visited ++ [v] } := by
  have hold : ∀ w ∈ s.visited, w ∈ s.visited ++ [v] := fun w hw => List.mem_append_left _ hw
  refine ⟨fun w hw => ?_, fun c hc => ?_, fun c hc => ?_⟩
  · rcases List.mem_append.1 hw with hw | hw
    · exact h.sound w hw
    · obtain rfl := List.mem_singleton.1 hw
      rcases h.pending b (by simp [hs]) with hseed | ⟨u, hu, hbu⟩
      · exact ⟨b, hseed, w, hv, .refl⟩
      · obtain ⟨c, hc, x, hx, hpath⟩ := h.sound u hu
        exact ⟨c, hc, x, hx, hpath.tail ⟨b, hbu, hv⟩⟩
  · rcases List.mem_append.1 hc with hc | hc
    · exact .inr ⟨v, by simp, List.mem_reverse.1 hc⟩
    · exact (h.pending c (by simp [hs, hc])).imp id fun ⟨u, hu, hcu⟩ => ⟨u, hold u hu, hcu⟩
  · have hcases : (c ∈ seeds ∨ ∃ u ∈ s.visited, c ∈ items u) ∨ c ∈ items v := by
      rcases hc with hc | ⟨u, hu, hcu⟩
      · exact .inl (.inl hc)
      · rcases List.mem_append.1 hu with hu | hu
        · exact .inl (.inr ⟨u, hu, hcu⟩)
        · exact .inr (List.mem_singleton.1 hu ▸ hcu)
    rcases hcases with hc | hc
    · rcases h.covered c hc with hmem | hdone
      · rcases List.mem_cons.1 (hs ▸ hmem) with rfl | hmem
        · refine .inr fun w hw => ?_
          obtain rfl := Option.some.inj (hv.symm.trans hw)
          simp
        · exact .inl (List.mem_append_right _ hmem)
      · exact .inr fun w hw => hold w (hdone w hw)
    · exact .inl (List.mem_append_left _ (List.mem_reverse.2 hc))

/-- A drained worklist has visited exactly what some seed leads to. -/
theorem Inv.visited_iff (h : Inv resolve items seeds s) (hs : s.pending = []) {v : ν} :
    v ∈ s.visited ↔ ∃ b ∈ seeds, Leads resolve items b v := by
  have hclosed : ∀ b w, (b ∈ seeds ∨ ∃ v ∈ s.visited, b ∈ items v) → resolve b = some w → w ∈ s.visited := by
    intro b w hb hw
    rcases h.covered b hb with hmem | hdone
    · rw [hs] at hmem
      cases hmem
    · exact hdone w hw
  refine ⟨h.sound v, ?_⟩
  rintro ⟨b, hb, w, hw, hpath⟩
  induction hpath with
  | refl => exact hclosed b w (.inl hb) hw
  | tail _ hnext ih =>
    obtain ⟨c, hc, hres⟩ := hnext
    exact hclosed c _ (.inr ⟨_, ih, hc⟩) hres

variable [DecidableEq ν]

theorem Inv.step (h : Inv resolve items seeds s) : Inv resolve items seeds (s.step resolve items) := by
  cases hs : s.pending with
  | nil =>
    unfold Worklist.step
    rw [hs]
    exact h
  | cons b rest =>
    rcases @step_cases _ _ resolve items _ _ _ _ hs with ⟨hdone, heq⟩ | ⟨v, hv, -, heq⟩
    · rw [heq]
      exact h.drop hs hdone
    · rw [heq]
      exact h.visit hs hv

theorem Inv.drain (n : Nat) (h : Inv resolve items seeds s) : Inv resolve items seeds (drain resolve items n s) := by
  induction n generalizing s with
  | zero => exact h
  | succ n ih =>
    rw [Worklist.drain]
    split
    · exact h
    · exact ih h.step

end Worklist

end Lib
