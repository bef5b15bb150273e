import Mathlib.Data.List.Nodup
import Mathlib.Logic.Relation
/-!
# Depth-first search with mark bits and a stack

Vertices are `0 … n-1`, one mark bit each. `push` marks and stacks an unmarked
vertex, `pop` takes the top vertex and pushes its neighbours, `drain` pops until
the stack is empty or the fuel is used up.

- `drain_stack`: as much fuel as there are stacked and unmarked vertices empties
  the stack, whatever the edges are.
- `Inv.drain`: what a drained search knows, from an invariant of one `pop`.
- `search_iff`: a vertex ends up marked exactly when some seed reaches it.
- `components_spec`: searching from every vertex in turn yields the connected
  components, when every edge can be taken both ways.
-/

namespace Lib

open Relation

/-- `popped` lists the vertices taken off the stack, in that order. -/
structure Search where
  marks : List Bool
  stack : List Nat
  popped : List Nat := []

namespace Search

/-- Mark and stack `v`, unless it is marked already. -/
def push (s : Search) (v : Nat) : Search :=
  if s.marks[v]? = some false then { s with marks := s.marks.set v true, stack := v :: s.stack } else s

variable (adj : Nat → List Nat)

def pop (s : Search) : Search :=
  match s.stack with
  | [] => s
  | v :: rest => (adj v).foldl push { s with stack := rest, popped := s.popped ++ [v] }

def drain : Nat → Search → Search
  | 0, s => s
  | n + 1, s => if s.stack = [] then s else drain n (s.pop adj)

/-- A search of `n` vertices with nothing marked. -/
def start (n : Nat) : Search := { marks := List.replicate n false, stack := [] }

/-- The mark bits after searching from `seeds`. -/
def search (n : Nat) (seeds : List Nat) : List Bool := (drain adj n (seeds.foldl push (start n))).marks

def Marked (s : Search) (v : Nat) : Prop := s.marks[v]? = some true

instance (s : Search) (v : Nat) : Decidable (s.Marked v) := inferInstanceAs (Decidable (_ = _))

/-! ## One push -/

theorem push_length (s : Search) (v : Nat) : (s.push v).marks.length = s.marks.length := by
  unfold push; split <;> simp

@[simp]
theorem push_popped (s : Search) (v : Nat) : (s.push v).popped = s.popped := by
  unfold push; split <;> rfl

theorem foldl_push_length (l : List Nat) (s : Search) : (l.foldl push s).marks.length = s.marks.length := by
  induction l generalizing s with
  | nil => rfl
  | cons v l ih => rw [List.foldl_cons, ih, push_length]

@[simp]
theorem foldl_push_popped (l : List Nat) (s : Search) : (l.foldl push s).popped = s.popped := by
  induction l generalizing s with
  | nil => rfl
  | cons v l ih => rw [List.foldl_cons, ih, push_popped]

theorem marked_push {s : Search} {v w : Nat} :
    (s.push v).Marked w ↔ s.Marked w ∨ (w = v ∧ v < s.marks.length) := by
  unfold push Marked
  split
  · rename_i h
    obtain ⟨hv, -⟩ := List.getElem?_eq_some_iff.1 h
    rw [List.getElem?_set]
    split
    · rename_i hvw; subst hvw; simp [hv]
    · rename_i hvw; simp [Ne.symm hvw]
  · rename_i h
    refine ⟨.inl, ?_⟩
    rintro (hw | ⟨rfl, hv⟩)
    · exact hw
    · rw [List.getElem?_eq_getElem hv] at h ⊢
      simpa using h

theorem marked_foldl_push {l : List Nat} {s : Search} {w : Nat} :
    (l.foldl push s).Marked w ↔ s.Marked w ∨ (w ∈ l ∧ w < s.marks.length) := by
  induction l generalizing s with
  | nil => simp
  | cons v l ih =>
    rw [List.foldl_cons, ih, marked_push, push_length, List.mem_cons]
    constructor
    · rintro ((h | ⟨rfl, h⟩) | ⟨h, h'⟩)
      · exact .inl h
      · exact .inr ⟨.inl rfl, h⟩
      · exact .inr ⟨.inr h, h'⟩
    · rintro (h | ⟨rfl | h, h'⟩)
      · exact .inl (.inl h)
      · exact .inl (.inr ⟨rfl, h'⟩)
      · exact .inr ⟨h, h'⟩

/-! ## Termination -/

/-- Stacked and unmarked vertices: how many pops are still to come at most. -/
def pending (s : Search) : Nat := s.stack.length + s.marks.count false

theorem pending_push (s : Search) (v : Nat) : (s.push v).pending = s.pending := by
  unfold push pending
  split
  · rename_i h
    obtain ⟨hv, hf⟩ := List.getElem?_eq_some_iff.1 h
    have hpos : 0 < s.marks.count false := List.count_pos_iff.2 (hf ▸ List.getElem_mem hv)
    rw [List.count_set hv, hf]
    simp only [List.length_cons, beq_self_eq_true, if_true, show (true == false) = false from rfl,
      Bool.false_eq_true, if_false, Nat.add_zero]
    omega
  · rfl

theorem pending_foldl_push (l : List Nat) (s : Search) : (l.foldl push s).pending = s.pending := by
  induction l generalizing s with
  | nil => rfl
  | cons v l ih => rw [List.foldl_cons, ih, pending_push]

theorem pending_pop {s : Search} (h : s.stack ≠ []) : (s.pop adj).pending + 1 = s.pending := by
  unfold pop
  cases hs : s.stack with
  | nil => exact absurd hs h
  | cons v rest =>
    simp only [pending_foldl_push]
    simp only [pending, hs, List.length_cons]
    omega

theorem drain_stack (n : Nat) (s : Search) (h : s.pending ≤ n) : (drain adj n s).stack = [] := by
  induction n generalizing s with
  | zero =>
    have : s.stack.length = 0 := by simp only [pending] at h; omega
    exact List.eq_nil_of_length_eq_zero this
  | succ n ih =>
    rw [drain]
    split
    · rename_i hs; exact hs
    · rename_i hs
      have := pending_pop adj hs
      exact ih _ (by omega)

theorem pending_start (n : Nat) : (start n).pending = n := by
  simp [pending, start]

/-- Searching from any seeds empties the stack within `n` pops. -/
theorem search_stack (n : Nat) (seeds : List Nat) :
    (drain adj n (seeds.foldl push (start n))).stack = [] :=
  drain_stack adj n _ (Nat.le_of_eq (by rw [pending_foldl_push, pending_start]))

/-! ## The invariant -/

/-- `base` is what was marked before, `Q` holds of every vertex found since, and
the neighbours of `done` are marked. -/
structure Inv (base Q : Nat → Prop) (done : List Nat) (s : Search) : Prop where
  nodup : (s.stack ++ s.popped).Nodup
  marked_iff : ∀ v, s.Marked v ↔ base v ∨ v ∈ s.stack ∨ v ∈ s.popped
  fresh : ∀ v, v ∈ s.stack ∨ v ∈ s.popped → ¬ base v
  found : ∀ v, v ∈ s.stack ∨ v ∈ s.popped → Q v
  closed : ∀ v ∈ done, ∀ w ∈ adj v, w < s.marks.length → s.Marked w

variable {adj} {base Q : Nat → Prop} {done : List Nat} {s : Search}

theorem Inv.push (h : Inv adj base Q done s) {v : Nat} (hv : Q v) : Inv adj base Q done (s.push v) := by
  unfold Search.push
  split
  · rename_i hf
    obtain ⟨hlt, -⟩ := List.getElem?_eq_some_iff.1 hf
    have hnot : ¬ s.Marked v := by unfold Marked; rw [hf]; simp
    have hnew : ∀ w, Marked { s with marks := s.marks.set v true, stack := v :: s.stack } w ↔
        s.Marked w ∨ (w = v ∧ v < s.marks.length) := by
      intro w
      have := marked_push (s := s) (v := v) (w := w)
      rwa [Search.push, if_pos hf] at this
    rw [h.marked_iff] at hnot
    push Not at hnot
    refine ⟨?_, fun w => ?_, ?_, ?_, ?_⟩
    · rw [List.cons_append, List.nodup_cons]
      exact ⟨by simp [hnot], h.nodup⟩
    · rw [hnew, h.marked_iff, List.mem_cons]
      constructor
      · rintro ((hb | hs | hp) | ⟨hw, -⟩)
        · exact .inl hb
        · exact .inr (.inl (.inr hs))
        · exact .inr (.inr hp)
        · exact .inr (.inl (.inl hw))
      · rintro (hb | (hw | hs) | hp)
        · exact .inl (.inl hb)
        · exact .inr ⟨hw, hlt⟩
        · exact .inl (.inr (.inl hs))
        · exact .inl (.inr (.inr hp))
    · rintro w (hw | hw)
      · rcases List.mem_cons.1 hw with rfl | hw
        · exact hnot.1
        · exact h.fresh w (.inl hw)
      · exact h.fresh w (.inr hw)
    · rintro w (hw | hw)
      · rcases List.mem_cons.1 hw with rfl | hw
        · exact hv
        · exact h.found w (.inl hw)
      · exact h.found w (.inr hw)
    · intro u hu w hw hlen
      rw [hnew]
      exact .inl (h.closed u hu w hw (by simpa using hlen))
  · exact h

theorem Inv.foldl_push {l : List Nat} (h : Inv adj base Q done s) (hl : ∀ v ∈ l, Q v) :
    Inv adj base Q done (l.foldl Search.push s) := by
  induction l generalizing s with
  | nil => exact h
  | cons v l ih =>
    exact ih (h.push (hl v List.mem_cons_self)) (fun w hw => hl w (List.mem_cons_of_mem _ hw))

/-- A popped vertex joins the vertices whose neighbours are marked. -/
theorem Inv.pop (hQ : ∀ v, Q v → ∀ w ∈ adj v, Q w) (h : Inv adj base Q s.popped s) (hne : s.stack ≠ []) :
    Inv adj base Q (s.pop adj).popped (s.pop adj) := by
  unfold Search.pop
  cases hs : s.stack with
  | nil => exact absurd hs hne
  | cons v rest =>
    have hmem : ∀ w, w ∈ rest ∨ w ∈ s.popped ++ [v] ↔ w ∈ s.stack ∨ w ∈ s.popped := by
      intro w
      simp only [hs, List.mem_cons, List.mem_append, List.not_mem_nil, or_false]
      tauto
    have hmoved : Inv adj base Q s.popped { s with stack := rest, popped := s.popped ++ [v] } := by
      refine ⟨?_, fun w => ?_, fun w hw => h.fresh w ((hmem w).1 hw), fun w hw => h.found w ((hmem w).1 hw), h.closed⟩
      · have hn := h.nodup
        rw [hs] at hn
        refine List.Perm.nodup_iff ?_ |>.1 hn
        rw [List.cons_append, ← List.append_assoc]
        exact (List.perm_append_singleton v (rest ++ s.popped)).symm
      · rw [hmem]; exact h.marked_iff w
    have hfold := hmoved.foldl_push (hQ v (h.found v (.inl (by rw [hs]; exact List.mem_cons_self))))
    refine ⟨hfold.nodup, hfold.marked_iff, hfold.fresh, hfold.found, ?_⟩
    intro u hu w hw hlen
    simp only [foldl_push_popped, List.mem_append, List.mem_singleton] at hu
    rcases hu with hu | rfl
    · exact hfold.closed u hu w hw hlen
    · rw [marked_foldl_push]
      exact .inr ⟨hw, by rwa [foldl_push_length] at hlen⟩

theorem Inv.drain (hQ : ∀ v, Q v → ∀ w ∈ adj v, Q w) (n : Nat) (h : Inv adj base Q s.popped s) :
    Inv adj base Q (Search.drain adj n s).popped (Search.drain adj n s) := by
  induction n generalizing s with
  | zero => exact h
  | succ n ih =>
    rw [Search.drain]
    split
    · exact h
    · rename_i hs; exact ih (h.pop hQ hs)

theorem drain_length (n : Nat) (s : Search) : (Search.drain adj n s).marks.length = s.marks.length := by
  induction n generalizing s with
  | zero => rfl
  | succ n ih =>
    rw [Search.drain]
    split
    · rfl
    · rw [ih]
      unfold Search.pop
      split
      · rfl
      · rw [foldl_push_length]

/-- Marks are never taken back. -/
theorem marked_drain (n : Nat) {s : Search} {v : Nat} (h : s.Marked v) : (Search.drain adj n s).Marked v := by
  induction n generalizing s with
  | zero => exact h
  | succ n ih =>
    rw [Search.drain]
    split
    · exact h
    · refine ih ?_
      unfold Search.pop
      split
      · exact h
      · exact marked_foldl_push.2 (.inl h)

/-! ## A search from nothing -/

theorem start_inv (n : Nat) (Q : Nat → Prop) : Inv adj (fun _ => False) Q (start n).popped (start n) := by
  refine ⟨by simp [start], fun v => ?_, by simp [start], by simp [start], by simp [start]⟩
  simp [Marked, start, List.getElem?_replicate]

@[simp]
theorem length_search (n : Nat) (seeds : List Nat) : (search adj n seeds).length = n := by
  unfold search
  rw [drain_length, foldl_push_length]
  simp [start]

/-- A vertex ends up marked exactly when some seed reaches it. -/
theorem search_iff {n : Nat} {seeds : List Nat} (hseeds : ∀ r ∈ seeds, r < n)
    (hadj : ∀ v, ∀ w ∈ adj v, w < n) (v : Nat) :
    (search adj n seeds)[v]? = some true ↔ ∃ r ∈ seeds, ReflTransGen (fun a b => b ∈ adj a) r v := by
  have hinv : Inv adj (fun _ => False) (fun v => ∃ r ∈ seeds, ReflTransGen (fun a b => b ∈ adj a) r v)
      (start n).popped (start n) := start_inv n _
  have hend := (hinv.foldl_push (l := seeds) (fun r hr => ⟨r, hr, .refl⟩))
  rw [show (start n).popped = (seeds.foldl Search.push (start n)).popped by simp] at hend
  replace hend := hend.drain (fun u ⟨r, hr, hru⟩ w hw => ⟨r, hr, hru.tail hw⟩) n
  have hstack := search_stack adj n seeds
  have hiff : ∀ v, (search adj n seeds)[v]? = some true ↔ v ∈ (Search.drain adj n (seeds.foldl Search.push (start n))).popped := by
    intro v
    have := hend.marked_iff v
    rw [hstack] at this
    simpa [Marked, search] using this
  constructor
  · intro h
    exact hend.found v (.inr ((hiff v).1 h))
  · rintro ⟨r, hr, hrv⟩
    have hlen : (Search.drain adj n (seeds.foldl Search.push (start n))).marks.length = n := length_search n seeds
    induction hrv with
    | refl => exact marked_drain n (marked_foldl_push.2 (.inr ⟨hr, by simpa [start] using hseeds r hr⟩))
    | tail _ hbc ih => exact hend.closed _ ((hiff _).1 ih) _ hbc (by rw [hlen]; exact hadj _ _ hbc)

/-! ## Searching from every vertex -/

/-- Search from `first` unless it is marked, and record what was found. -/
def explore (adj : Nat → List Nat) (n : Nat) (state : List Bool × List (List Nat)) (first : Nat) :
    List Bool × List (List Nat) :=
  if state.1[first]? = some false then
    let s := Search.drain adj n (Search.push { marks := state.1, stack := [] } first)
    (s.marks, state.2 ++ [s.popped])
  else state

/-- The vertices `0 … n-1`, grouped by the search that found them. -/
def components (adj : Nat → List Nat) (n : Nat) : List (List Nat) :=
  ((List.range n).foldl (explore adj n) (List.replicate n false, [])).2

/-- Each search stops within `n` pops. -/
theorem explore_stack (adj : Nat → List Nat) {n : Nat} {marks : List Bool} (h : marks.length = n) (first : Nat) :
    (Search.drain adj n (Search.push { marks, stack := [] } first)).stack = [] := by
  refine drain_stack adj n _ ?_
  rw [pending_push]
  have := List.count_le_length (a := false) (l := marks)
  simp only [pending, List.length_nil, Nat.zero_add]
  omega

/-- What is known between two searches, when every edge can be taken both ways. -/
structure Explored (adj : Nat → List Nat) (n : Nat) (marks : List Bool) (groups : List (List Nat)) : Prop where
  length : marks.length = n
  marked_iff : ∀ v, marks[v]? = some true ↔ v ∈ groups.flatten
  nodup : groups.flatten.Nodup
  ne_nil : ∀ c ∈ groups, c ≠ []
  closed : ∀ c ∈ groups, ∀ v ∈ c, ∀ w ∈ adj v, w ∈ c
  found : ∀ c ∈ groups, ∃ r, ∀ v ∈ c, ReflTransGen (fun a b => b ∈ adj a) r v

theorem Explored.step {adj : Nat → List Nat} {n : Nat} {marks : List Bool} {groups : List (List Nat)}
    (hrange : ∀ v, ∀ w ∈ adj v, w < n) (hsymm : ∀ v, ∀ w ∈ adj v, v ∈ adj w)
    (h : Explored adj n marks groups) (first : Nat) :
    Explored adj n (explore adj n (marks, groups) first).1 (explore adj n (marks, groups) first).2 := by
  unfold explore
  split
  case isFalse => exact h
  case isTrue hfirst =>
    have hinit : Inv adj (fun v => marks[v]? = some true) (ReflTransGen (fun a b => b ∈ adj a) first) []
        { marks, stack := [] } :=
      ⟨by simp, fun v => by simp [Marked], by simp, by simp, by simp⟩
    have hpushed : Inv adj (fun v => marks[v]? = some true) (ReflTransGen (fun a b => b ∈ adj a) first)
        (Search.push { marks, stack := [] } first).popped (Search.push { marks, stack := [] } first) := by
      rw [push_popped]
      exact hinit.push .refl
    have hend := hpushed.drain (fun v hv w hw => ReflTransGen.tail hv hw) n
    have hstack := explore_stack adj h.length first
    have hmarked : (Search.drain adj n (Search.push { marks, stack := [] } first)).Marked first := by
      refine marked_drain n (marked_push.2 (.inr ⟨rfl, ?_⟩))
      exact (List.getElem?_eq_some_iff.1 hfirst).1
    have hlen : (Search.drain adj n (Search.push { marks, stack := [] } first)).marks.length = n := by
      rw [drain_length, push_length]; exact h.length
    generalize Search.drain adj n (Search.push { marks, stack := [] } first) = s at *
    have hiff := hend.marked_iff
    have hfresh := hend.fresh
    have hfound := hend.found
    rw [hstack] at hiff hfresh hfound
    simp only [List.not_mem_nil, false_or] at hiff hfresh hfound
    refine ⟨hlen, fun v => ?_, ?_, fun c hc => ?_, fun c hc v hv w hw => ?_, fun c hc => ?_⟩
    · rw [List.flatten_append, List.mem_append, ← h.marked_iff]
      simpa [Marked] using hiff v
    · rw [List.flatten_append, List.nodup_append']
      refine ⟨h.nodup, by simpa [hstack] using hend.nodup, fun v hv hv' => ?_⟩
      exact hfresh v (by simpa using hv') ((h.marked_iff v).2 hv)
    · rcases List.mem_append.1 hc with hc | hc
      · exact h.ne_nil c hc
      · rw [List.mem_singleton.1 hc]
        rcases (hiff first).1 hmarked with hb | hp
        · rw [hfirst] at hb; cases hb
        · exact List.ne_nil_of_mem hp
    · rcases List.mem_append.1 hc with hc | hc
      · exact h.closed c hc v hv w hw
      · rw [List.mem_singleton.1 hc] at hv ⊢
        refine ((hiff w).1 (hend.closed v hv w hw (by rw [hlen]; exact hrange v w hw))).resolve_left fun hb => ?_
        -- `w` belongs to an earlier group, which is closed, so `v` would too
        obtain ⟨c', hc', hwc⟩ := List.mem_flatten.1 ((h.marked_iff w).1 hb)
        exact hfresh v hv ((h.marked_iff v).2 (List.mem_flatten.2 ⟨c', hc', h.closed c' hc' w hwc v (hsymm v w hw)⟩))
    · rcases List.mem_append.1 hc with hc | hc
      · exact h.found c hc
      · rw [List.mem_singleton.1 hc]
        exact ⟨first, hfound⟩

theorem marked_explore {adj : Nat → List Nat} {n : Nat} (state : List Bool × List (List Nat)) {first v : Nat}
    (h : state.1[v]? = some true) : (explore adj n state first).1[v]? = some true := by
  unfold explore
  split
  · exact marked_drain n (marked_push.2 (.inl h))
  · exact h

theorem marked_explore_self {adj : Nat → List Nat} {n : Nat} (state : List Bool × List (List Nat)) {first : Nat}
    (h : first < state.1.length) : (explore adj n state first).1[first]? = some true := by
  unfold explore
  split
  · exact marked_drain n (marked_push.2 (.inr ⟨rfl, h⟩))
  · rename_i hf
    rw [List.getElem?_eq_getElem h] at hf ⊢
    simpa using hf

theorem Explored.foldl {adj : Nat → List Nat} {n : Nat} (hrange : ∀ v, ∀ w ∈ adj v, w < n)
    (hsymm : ∀ v, ∀ w ∈ adj v, v ∈ adj w) (l : List Nat) (hl : ∀ v ∈ l, v < n)
    (state : List Bool × List (List Nat)) (h : Explored adj n state.1 state.2) :
    Explored adj n (l.foldl (explore adj n) state).1 (l.foldl (explore adj n) state).2 ∧
      (∀ v : Nat, state.1[v]? = some true → (l.foldl (explore adj n) state).1[v]? = some true) ∧
      ∀ v ∈ l, (l.foldl (explore adj n) state).1[v]? = some true := by
  induction l generalizing state with
  | nil => exact ⟨h, fun _ hv => hv, by simp⟩
  | cons first l ih =>
    obtain ⟨hend, hkeep, hall⟩ := ih (fun v hv => hl v (List.mem_cons_of_mem _ hv)) _ (h.step hrange hsymm first)
    refine ⟨hend, fun v hv => hkeep v (marked_explore state hv), fun v hv => ?_⟩
    rcases List.mem_cons.1 hv with rfl | hv
    · exact hkeep v (marked_explore_self state (by rw [h.length]; exact hl v List.mem_cons_self))
    · exact hall v hv

/-- Groups of connected vertices: nonempty, disjoint, complete, and two vertices
share a group exactly when a path joins them. -/
structure Connected (adj : Nat → List Nat) (n : Nat) (groups : List (List Nat)) : Prop where
  ne_nil : ∀ c ∈ groups, c ≠ []
  nodup : groups.flatten.Nodup
  mem_iff : ∀ v, v ∈ groups.flatten ↔ v < n
  joined_iff : ∀ c ∈ groups, ∀ v ∈ c, ∀ w, w ∈ c ↔ ReflTransGen (fun a b => b ∈ adj a) v w

theorem components_spec {adj : Nat → List Nat} {n : Nat} (hrange : ∀ v, ∀ w ∈ adj v, w < n)
    (hsymm : ∀ v, ∀ w ∈ adj v, v ∈ adj w) : Connected adj n (components adj n) := by
  have hinit : Explored adj n (List.replicate n false) [] :=
    ⟨List.length_replicate, fun v => by simp [List.getElem?_replicate], List.nodup_nil, by simp, by simp, by simp⟩
  obtain ⟨h, -, hall⟩ := Explored.foldl hrange hsymm (List.range n) (fun v hv => List.mem_range.1 hv)
    (List.replicate n false, []) hinit
  have hback : ∀ {v w}, ReflTransGen (fun a b => b ∈ adj a) v w → ReflTransGen (fun a b => b ∈ adj a) w v := by
    intro v w hvw
    induction hvw with
    | refl => exact .refl
    | tail _ hstep ih => exact .head (hsymm _ _ hstep) ih
  have hclosed : ∀ c ∈ components adj n, ∀ v ∈ c, ∀ w, ReflTransGen (fun a b => b ∈ adj a) v w → w ∈ c := by
    intro c hc v hv w hvw
    induction hvw with
    | refl => exact hv
    | tail _ hstep ih => exact h.closed c hc _ ih _ hstep
  refine ⟨h.ne_nil, h.nodup, fun v => ⟨fun hv => ?_, fun hv => (h.marked_iff v).1 (hall v (List.mem_range.2 hv))⟩,
    fun c hc v hv w => ⟨fun hw => ?_, hclosed c hc v hv w⟩⟩
  · have := (List.getElem?_eq_some_iff.1 ((h.marked_iff v).2 hv)).1
    rwa [h.length] at this
  · obtain ⟨r, hr⟩ := h.found c hc
    exact (hback (hr v hv)).trans (hr w hw)

end Search

end Lib
