import Mathlib.Data.List.Nodup
import Mathlib.Data.List.Count
import Mathlib.Logic.Function.Basic
import Mathlib.Logic.Relation
import Mathlib.Order.Basic
/-!
# Tarjan's strongly connected components

The recursive algorithm on vertices `0 … n-1`, restricted on the fly to the
vertices that `cand` accepts. An index of `-1` means not visited. `arrange` is
whatever the caller does with a finished component, as long as it permutes it.

- `strongConnect_spec`: one call, from any state that keeps `Inv`. Fuel beyond
  the number of vertices still to visit changes nothing.
- `run_spec`: the components are the classes of mutual reachability of the
  accepted vertices, each once.
- `runWith_eq`: fuel beyond the number of vertices makes no difference.
-/

namespace Lib

open Relation

/-- The stack lists its top first. -/
structure Tarjan where
  index : Nat → Int
  lowLink : Nat → Int
  onStack : Nat → Bool
  stack : List Nat
  nextIndex : Int
  components : List (List Nat)

namespace Tarjan

variable (adj : Nat → List Nat) (cand : Nat → Bool) (arrange : List Nat → List Nat)

def start : Tarjan :=
  { index := fun _ => -1, lowLink := fun _ => -1, onStack := fun _ => false, stack := []
    nextIndex := 0, components := [] }

def enter (s : Tarjan) (v : Nat) : Tarjan :=
  { s with
    index := Function.update s.index v s.nextIndex
    lowLink := Function.update s.lowLink v s.nextIndex
    nextIndex := s.nextIndex + 1
    stack := v :: s.stack
    onStack := Function.update s.onStack v true }

def lower (s : Tarjan) (v : Nat) (bound : Int) : Tarjan :=
  { s with lowLink := Function.update s.lowLink v (min (s.lowLink v) bound) }

/-- Pop down to `v`: the popped vertices, and what stays. -/
def popUntil (v : Nat) : List Nat → List Nat × List Nat
  | [] => ([], [])
  | w :: rest => if w = v then ([w], rest) else (w :: (popUntil v rest).1, (popUntil v rest).2)

/-- Take `members` off the stack, down to `rest`, and emit them as a component. -/
def emit (s : Tarjan) (members rest : List Nat) : Tarjan :=
  { s with
    stack := rest
    onStack := members.foldl (fun on m => Function.update on m false) s.onStack
    components := s.components ++ [arrange members] }

/-- Emit the component of `v` if `v` is its root. -/
def leave (s : Tarjan) (v : Nat) : Tarjan :=
  if s.lowLink v = s.index v then s.emit arrange (popUntil v s.stack).1 (popUntil v s.stack).2 else s

def strongConnect : Nat → Nat → Tarjan → Tarjan
  | 0, _, s => s
  | n + 1, v, s =>
    ((adj v).foldl
      (fun s w =>
        if !cand w then s
        else if s.index w = -1 then
          let s := strongConnect n w s
          s.lower v (s.lowLink w)
        else if s.onStack w then s.lower v (s.index w)
        else s)
      (s.enter v)).leave arrange v

/-- One neighbour `w` of `v`, with the recursive calls given `n` fuel. -/
def visit (n : Nat) (v : Nat) (s : Tarjan) (w : Nat) : Tarjan :=
  if !cand w then s
  else if s.index w = -1 then
    let s := strongConnect adj cand arrange n w s
    s.lower v (s.lowLink w)
  else if s.onStack w then s.lower v (s.index w)
  else s

theorem strongConnect_succ (n v : Nat) (s : Tarjan) :
    strongConnect adj cand arrange (n + 1) v s =
      ((adj v).foldl (visit adj cand arrange n v) (s.enter v)).leave arrange v := rfl

/-- One turn of the outer loop: a call at an accepted vertex that is not visited yet. -/
def turn (fuel : Nat) (s : Tarjan) (v : Nat) : Tarjan :=
  if cand v && s.index v == -1 then strongConnect adj cand arrange fuel v s else s

def runWith (fuel n : Nat) : Tarjan := (List.range n).foldl (turn adj cand arrange fuel) start

def run (n : Nat) : Tarjan := runWith adj cand arrange n n

/-! ## Popping a component -/

theorem popUntil_append {v : Nat} {l rest : List Nat} (h : v ∉ l) :
    popUntil v (l ++ v :: rest) = (l ++ [v], rest) := by
  induction l with
  | nil => simp [popUntil]
  | cons w l ih =>
    rw [List.mem_cons, not_or] at h
    rw [List.cons_append, popUntil, if_neg (Ne.symm h.1), ih h.2]
    rfl

theorem foldl_update_false (l : List Nat) (on : Nat → Bool) (x : Nat) :
    l.foldl (fun on m => Function.update on m false) on x = true ↔ on x = true ∧ x ∉ l := by
  induction l generalizing on with
  | nil => simp
  | cons m l ih =>
    rw [List.foldl_cons, ih, Function.update_apply, List.mem_cons]
    by_cases hx : x = m
    · simp [hx]
    · simp [hx]

/-! ## The invariant -/

def Visited (s : Tarjan) (v : Nat) : Prop := 0 ≤ s.index v

def Finished (s : Tarjan) (v : Nat) : Prop := ∃ c ∈ s.components, v ∈ c

/-- An edge between accepted vertices. -/
def Step (v w : Nat) : Prop := w ∈ adj v ∧ cand w = true

abbrev Reach : Nat → Nat → Prop := ReflTransGen (Step adj cand)

/-- What holds between any two statements of the algorithm: the stack is in
order of decreasing index, a visited vertex is on the stack or finished, no edge
leaves the finished vertices, and the emitted components are whole classes. -/
structure Inv (n : Nat) (s : Tarjan) : Prop where
  next_nonneg : 0 ≤ s.nextIndex
  index_range : ∀ v, s.index v = -1 ∨ (0 ≤ s.index v ∧ s.index v < s.nextIndex)
  visited_cand : ∀ v, s.Visited v → cand v = true ∧ v < n
  stack_sorted : s.stack.Pairwise (fun a b => s.index b < s.index a)
  onStack_iff : ∀ v, s.onStack v = true ↔ v ∈ s.stack
  visited_iff : ∀ v, s.Visited v ↔ v ∈ s.stack ∨ s.Finished v
  stack_not_finished : ∀ v ∈ s.stack, ¬ s.Finished v
  finished_closed : ∀ v, s.Finished v → ∀ w, Step adj cand v w → s.Finished w
  component_ne : ∀ c ∈ s.components, c ≠ []
  component_iff : ∀ c ∈ s.components, ∀ a ∈ c, ∀ b, b ∈ c ↔ Reach adj cand a b ∧ Reach adj cand b a
  components_nodup : s.components.flatten.Nodup

/-- Accepted vertices still to visit. -/
def fresh (n : Nat) (s : Tarjan) : Nat := (List.range n).countP (fun v => cand v && s.index v == -1)

/-- From `s` to `s'` visited vertices keep their index and low link, and later
ones get a later index. -/
structure Frame (s s' : Tarjan) : Prop where
  index_eq : ∀ v, s.Visited v → s'.index v = s.index v
  lowLink_eq : ∀ v, s.Visited v → s'.lowLink v = s.lowLink v
  next_le : s.nextIndex ≤ s'.nextIndex
  later : ∀ v, ¬ s.Visited v → s'.Visited v → s.nextIndex ≤ s'.index v

variable {adj cand arrange} {n : Nat} {s s' s'' : Tarjan}

theorem Frame.visited (h : Frame s s') {v : Nat} (hv : s.Visited v) : s'.Visited v := by
  unfold Visited; rw [h.index_eq v hv]; exact hv

theorem Frame.refl (s : Tarjan) : Frame s s :=
  ⟨fun _ _ => rfl, fun _ _ => rfl, Int.le_refl _, fun _ hn hv => absurd hv hn⟩

theorem Frame.trans (h : Frame s s') (h' : Frame s' s'') : Frame s s'' := by
  refine ⟨fun v hv => ?_, fun v hv => ?_, Int.le_trans h.next_le h'.next_le, fun v hn hv => ?_⟩
  · rw [h'.index_eq v (h.visited hv), h.index_eq v hv]
  · rw [h'.lowLink_eq v (h.visited hv), h.lowLink_eq v hv]
  · by_cases hv' : s'.Visited v
    · rw [h'.index_eq v hv']; exact h.later v hn hv'
    · exact Int.le_trans h.next_le (h'.later v hv' hv)

theorem Inv.index_of_not_visited (h : Inv adj cand n s) {v : Nat} (hv : ¬ s.Visited v) : s.index v = -1 := by
  rcases h.index_range v with h | ⟨h, -⟩
  · exact h
  · exact absurd h hv

theorem Inv.not_visited_iff (h : Inv adj cand n s) {v : Nat} : s.index v = -1 ↔ ¬ s.Visited v := by
  refine ⟨fun hv => ?_, h.index_of_not_visited⟩
  unfold Visited; omega

theorem Inv.index_lt (h : Inv adj cand n s) {v : Nat} (hv : s.Visited v) : s.index v < s.nextIndex := by
  rcases h.index_range v with hi | ⟨-, hi⟩
  · exact absurd hv (h.not_visited_iff.1 hi)
  · exact hi

theorem Inv.stack_visited (h : Inv adj cand n s) {v : Nat} (hv : v ∈ s.stack) : s.Visited v :=
  (h.visited_iff v).2 (.inl hv)

theorem Inv.finished_reach (h : Inv adj cand n s) {v w : Nat} (hv : s.Finished v) (hr : Reach adj cand v w) :
    s.Finished w := by
  induction hr with
  | refl => exact hv
  | tail _ hstep ih => exact h.finished_closed _ ih _ hstep

/-- A vertex that got visited is one fewer to visit. -/
theorem fresh_lt (h : Frame s s') (hi : Inv adj cand n s) {v : Nat} (hv : v < n) (hc : cand v = true)
    (hnot : ¬ s.Visited v) (hvis : s'.Visited v) : fresh cand n s' < fresh cand n s := by
  unfold fresh
  have hsplit : List.countP (fun w => cand w && s.index w == -1) (List.range n) =
      List.countP (fun w => (cand w && s.index w == -1) && w != v) (List.range n) +
        List.countP (fun w => (cand w && s.index w == -1) && !(w != v)) (List.range n) := by
    rw [List.countP_eq_countP_filter_add _ _ (fun w => w != v), List.countP_filter, List.countP_filter]
  have hone : 0 < List.countP (fun w => (cand w && s.index w == -1) && !(w != v)) (List.range n) := by
    refine List.countP_pos_iff.2 ⟨v, List.mem_range.2 hv, ?_⟩
    simp [hc, hi.index_of_not_visited hnot]
  have hle : List.countP (fun w => cand w && s'.index w == -1) (List.range n) ≤
      List.countP (fun w => (cand w && s.index w == -1) && w != v) (List.range n) := by
    refine List.countP_mono_left fun w _ hw => ?_
    simp only [Bool.and_eq_true, beq_iff_eq, bne_iff_ne] at hw ⊢
    refine ⟨⟨hw.1, hi.index_of_not_visited fun hwv => ?_⟩, ?_⟩
    · have := h.visited hwv
      unfold Visited at this
      omega
    · rintro rfl
      unfold Visited at hvis
      omega
  omega

/-! ## Entering and lowering -/

theorem Inv.lower (h : Inv adj cand n s) (v : Nat) (b : Int) : Inv adj cand n (s.lower v b) :=
  ⟨h.next_nonneg, h.index_range, h.visited_cand, h.stack_sorted, h.onStack_iff, h.visited_iff,
    h.stack_not_finished, h.finished_closed, h.component_ne, h.component_iff, h.components_nodup⟩

theorem visited_enter (h : Inv adj cand n s) (v w : Nat) : (s.enter v).Visited w ↔ w = v ∨ s.Visited w := by
  have := h.next_nonneg
  unfold Visited enter
  simp only [Function.update_apply]
  split
  · rename_i hw; simp [hw, this]
  · rename_i hw; simp [hw]

theorem Inv.enter (h : Inv adj cand n s) {v : Nat} (hnot : ¬ s.Visited v) (hc : cand v = true) (hv : v < n) :
    Inv adj cand n (s.enter v) := by
  have hnext := h.next_nonneg
  have hindex : ∀ w, (s.enter v).index w = if w = v then s.nextIndex else s.index w := fun w => by
    simp [Tarjan.enter, Function.update_apply]
  have hmem : ∀ w ∈ s.stack, w ≠ v := by
    rintro w hw rfl
    exact hnot (h.stack_visited hw)
  refine ⟨by show (0 : Int) ≤ s.nextIndex + 1; omega, fun w => ?_, fun w hw => ?_, ?_, fun w => ?_, fun w => ?_,
    fun w hw => ?_, h.finished_closed, h.component_ne, h.component_iff, h.components_nodup⟩
  · rw [hindex]
    show _ ∨ (_ ∧ _ < s.nextIndex + 1)
    split
    · exact .inr ⟨hnext, by omega⟩
    · rcases h.index_range w with hw | hw
      · exact .inl hw
      · exact .inr ⟨hw.1, by omega⟩
  · rcases (visited_enter h v w).1 hw with rfl | hw
    · exact ⟨hc, hv⟩
    · exact h.visited_cand w hw
  · refine List.pairwise_cons.2 ⟨fun w hw => ?_, h.stack_sorted.imp_of_mem fun {a b} ha hb hab => ?_⟩
    · rw [hindex, hindex, if_pos rfl, if_neg (hmem w hw)]
      exact h.index_lt (h.stack_visited hw)
    · rw [hindex, hindex, if_neg (hmem a ha), if_neg (hmem b hb)]
      exact hab
  · show Function.update s.onStack v true w = true ↔ w ∈ v :: s.stack
    rw [Function.update_apply, List.mem_cons]
    split
    · rename_i hw; simp [hw]
    · rename_i hw; simp [hw, h.onStack_iff]
  · rw [visited_enter h v w, h.visited_iff, ← or_assoc]
    show _ ↔ w ∈ v :: s.stack ∨ s.Finished w
    rw [List.mem_cons]
  · show ¬ s.Finished w
    rcases List.mem_cons.1 hw with rfl | hw
    · exact fun hf => hnot ((h.visited_iff _).2 (.inr hf))
    · exact h.stack_not_finished w hw

theorem frame_enter {v : Nat} (hnot : ¬ s.Visited v) : Frame s (s.enter v) := by
  have hne : ∀ w, s.Visited w → w ≠ v := by rintro w hw rfl; exact hnot hw
  refine ⟨fun w hw => ?_, fun w hw => ?_, by show s.nextIndex ≤ s.nextIndex + 1; omega, fun w hn hw => ?_⟩
  · exact Function.update_of_ne (hne w hw) _ _
  · exact Function.update_of_ne (hne w hw) _ _
  · by_cases hwv : w = v
    · subst hwv
      exact Int.le_of_eq (show (s.enter w).index w = s.nextIndex from Function.update_self _ _ _).symm
    · refine absurd ?_ hn
      unfold Visited at hw ⊢
      rwa [show (s.enter v).index w = s.index w from Function.update_of_ne hwv _ _] at hw

/-! ## One call -/

/-- The vertices `T` that a call of `v` has put above `base` on the stack: `v`
reaches each, each reaches `base`, their edges are all explored, and none leads
to a vertex of `old` with an index less than `low`. -/
structure Above (adj : Nat → List Nat) (cand : Nat → Bool) (v : Nat) (base old : List Nat) (low : Int)
    (T : List Nat) (s : Tarjan) : Prop where
  reached : ∀ x ∈ T, Reach adj cand v x
  returns : ∀ x ∈ T, ∃ w ∈ base, Reach adj cand x w
  explored : ∀ x ∈ T, ∀ y, Step adj cand x y → s.Visited y
  low_le : ∀ x ∈ T, ∀ y ∈ old, Step adj cand x y → low ≤ s.index y

/-- What the call of `v` from `s₀` knows after its neighbours `done`. -/
structure Loop (adj : Nat → List Nat) (cand : Nat → Bool) (n v : Nat) (s₀ : Tarjan) (done : List Nat)
    (s : Tarjan) : Prop where
  inv : Inv adj cand n s
  frame : Frame s₀ s
  index_self : s.index v = s₀.nextIndex
  low_le : s.lowLink v ≤ s₀.nextIndex
  low_eq : s.lowLink v = s₀.nextIndex ∨ ∃ w ∈ s₀.stack, s₀.index w = s.lowLink v ∧ Reach adj cand v w
  stack : ∃ T, s.stack = T ++ v :: s₀.stack ∧ Above adj cand v (v :: s₀.stack) s₀.stack (s.lowLink v) T s
  edges : ∀ w ∈ done, cand w = true → s.Visited w ∧ (w ∈ s₀.stack → s.lowLink v ≤ s₀.index w)

/-- What the call of `v` from `s` has done when it returns: it left vertices on
the stack exactly if `v` reaches an older one. -/
structure Post (adj : Nat → List Nat) (cand : Nat → Bool) (n v : Nat) (s s' : Tarjan) : Prop where
  inv : Inv adj cand n s'
  frame : Frame s s'
  visited : s'.Visited v
  stack : ∃ T, s'.stack = T ++ s.stack ∧ Above adj cand v s.stack s.stack (s'.lowLink v) T s' ∧
    ((T = [] ∧ s.nextIndex ≤ s'.lowLink v) ∨ ∃ w ∈ s.stack, s.index w = s'.lowLink v ∧ Reach adj cand v w)

theorem Loop.enter {v : Nat} (h : Inv adj cand n s) (hnot : ¬ s.Visited v) (hc : cand v = true) (hv : v < n) :
    Loop adj cand n v s [] (s.enter v) := by
  have hlow : (s.enter v).lowLink v = s.nextIndex := Function.update_self _ _ _
  refine ⟨h.enter hnot hc hv, frame_enter hnot, Function.update_self _ _ _, Int.le_of_eq hlow, .inl hlow,
    ⟨[], rfl, ?_⟩, by simp⟩
  exact ⟨by simp, by simp, by simp, by simp⟩

section Loop
variable {v : Nat} {s₀ : Tarjan} {done : List Nat}

theorem Loop.not_visited (h : Loop adj cand n v s₀ done s) (h₀ : Inv adj cand n s₀) : ¬ s₀.Visited v := by
  intro hv
  have := h₀.index_lt hv
  have := h.frame.index_eq v hv
  have := h.index_self
  omega

theorem Loop.visited (h : Loop adj cand n v s₀ done s) (h₀ : Inv adj cand n s₀) : s.Visited v := by
  have := h.index_self
  have := h₀.next_nonneg
  unfold Visited; omega

/-- One more neighbour is explored. -/
theorem Loop.extend (h : Loop adj cand n v s₀ done s) {w : Nat}
    (hw : cand w = true → s.Visited w ∧ (w ∈ s₀.stack → s.lowLink v ≤ s₀.index w)) :
    Loop adj cand n v s₀ (done ++ [w]) s := by
  refine ⟨h.inv, h.frame, h.index_self, h.low_le, h.low_eq, h.stack, fun u hu => ?_⟩
  rcases List.mem_append.1 hu with hu | hu
  · exact h.edges u hu
  · rw [List.mem_singleton.1 hu]; exact hw

/-- Lowering to the index of an older vertex that `v` reaches, or to no lower
than the own index, keeps what the call knows. -/
theorem Loop.lower (h : Loop adj cand n v s₀ done s) (h₀ : Inv adj cand n s₀) {b : Int}
    (hb : s₀.nextIndex ≤ b ∨ ∃ w ∈ s₀.stack, s₀.index w = b ∧ Reach adj cand v w) :
    Loop adj cand n v s₀ done (s.lower v b) := by
  have hlow : (s.lower v b).lowLink v = min (s.lowLink v) b := Function.update_self _ _ _
  have hle := h.low_le
  have hmin : min (s.lowLink v) b ≤ s.lowLink v := Int.min_le_left _ _
  obtain ⟨T, hT, habove⟩ := h.stack
  refine ⟨h.inv.lower v b, ⟨h.frame.index_eq, fun u hu => ?_, h.frame.next_le, h.frame.later⟩, h.index_self,
    ?_, ?_, ⟨T, hT, habove.reached, habove.returns, habove.explored, fun x hx y hy hxy => ?_⟩, fun w hw hc => ?_⟩
  · have hne : u ≠ v := by rintro rfl; exact h.not_visited h₀ hu
    rw [← h.frame.lowLink_eq u hu]
    exact Function.update_of_ne hne _ _
  · rw [hlow]; omega
  · rw [hlow]
    rcases hb with hb | ⟨w, hw, hwb, hreach⟩
    · rw [Int.min_eq_left (by omega)]
      exact h.low_eq
    · by_cases hlt : b < s.lowLink v
      · exact .inr ⟨w, hw, by rw [Int.min_eq_right (by omega)]; exact hwb, hreach⟩
      · rw [Int.min_eq_left (by omega)]
        exact h.low_eq
  · rw [hlow]
    exact Int.le_trans hmin (habove.low_le x hx y hy hxy)
  · refine ⟨(h.edges w hw hc).1, fun hold => ?_⟩
    rw [hlow]
    exact Int.le_trans hmin ((h.edges w hw hc).2 hold)

/-- Vertices above `v` on the stack have a later index. -/
theorem Loop.above_index (h : Loop adj cand n v s₀ done s) {T : List Nat} (hT : s.stack = T ++ v :: s₀.stack) :
    ∀ x ∈ T, s₀.nextIndex < s.index x := by
  intro x hx
  have hsorted := h.inv.stack_sorted
  rw [hT] at hsorted
  have := (List.pairwise_append.1 hsorted).2.2 x hx v List.mem_cons_self
  rwa [h.index_self] at this

theorem Loop.old_index (h : Loop adj cand n v s₀ done s) (h₀ : Inv adj cand n s₀) {y : Nat} (hy : y ∈ s₀.stack) :
    s.index y = s₀.index y ∧ s.index y < s₀.nextIndex := by
  have hvis := h₀.stack_visited hy
  rw [h.frame.index_eq y hvis]
  exact ⟨rfl, h₀.index_lt hvis⟩

/-- A neighbour that is visited already. -/
theorem Loop.visit_old (h : Loop adj cand n v s₀ done s) (h₀ : Inv adj cand n s₀) {w : Nat}
    (hvw : Step adj cand v w) (hvis : s.Visited w) :
    Loop adj cand n v s₀ (done ++ [w]) (if s.onStack w then s.lower v (s.index w) else s) := by
  split
  · rename_i hon
    obtain ⟨T, hT, -⟩ := h.stack
    have hmem := (h.inv.onStack_iff w).1 hon
    rw [hT, List.mem_append, List.mem_cons] at hmem
    have hb : s₀.nextIndex ≤ s.index w ∨ ∃ u ∈ s₀.stack, s₀.index u = s.index w ∧ Reach adj cand v u := by
      rcases hmem with hw | rfl | hw
      · exact .inl (Int.le_of_lt (h.above_index hT w hw))
      · exact .inl (Int.le_of_eq h.index_self.symm)
      · exact .inr ⟨w, hw, (h.old_index h₀ hw).1.symm, .single hvw⟩
    refine (h.lower h₀ hb).extend fun _ => ⟨hvis, fun hold => ?_⟩
    rw [show (s.lower v (s.index w)).lowLink v = min (s.lowLink v) (s.index w) from Function.update_self _ _ _,
      (h.old_index h₀ hold).1]
    exact Int.min_le_right _ _
  · rename_i hon
    refine h.extend fun _ => ⟨hvis, fun hold => absurd ?_ hon⟩
    obtain ⟨T, hT, -⟩ := h.stack
    rw [h.inv.onStack_iff, hT]
    exact List.mem_append_right _ (List.mem_cons_of_mem _ hold)

/-- A neighbour that the recursive call explores. -/
theorem Loop.visit_new (h : Loop adj cand n v s₀ done s) (h₀ : Inv adj cand n s₀) {w : Nat}
    (hvw : Step adj cand v w) (hnot : ¬ s.Visited w) (hpost : Post adj cand n w s s') :
    Loop adj cand n v s₀ (done ++ [w]) (s'.lower v (s'.lowLink w)) := by
  obtain ⟨T, hT, habove⟩ := h.stack
  obtain ⟨T', hT', habove', hlow'⟩ := hpost.stack
  have hvis := h.visited h₀
  have hself : s'.index v = s₀.nextIndex := by rw [hpost.frame.index_eq v hvis]; exact h.index_self
  have hlowv : s'.lowLink v = s.lowLink v := hpost.frame.lowLink_eq v hvis
  have hlow : (s'.lower v (s'.lowLink w)).lowLink v = min (s.lowLink v) (s'.lowLink w) := by
    rw [← hlowv]; exact Function.update_self _ _ _
  have hleft : min (s.lowLink v) (s'.lowLink w) ≤ s.lowLink v := Int.min_le_left _ _
  have hright : min (s.lowLink v) (s'.lowLink w) ≤ s'.lowLink w := Int.min_le_right _ _
  have hle := h.low_le
  have hframe := h.frame.trans hpost.frame
  have hold : ∀ y ∈ s₀.stack, s.Visited y := fun y hy => h.frame.visited (h₀.stack_visited hy)
  refine ⟨hpost.inv.lower v _, ⟨hframe.index_eq, fun u hu => ?_, hframe.next_le, hframe.later⟩, hself, ?_, ?_,
    ⟨T' ++ T, ?_, fun x hx => ?_, fun x hx => ?_, fun x hx y hxy => ?_, fun x hx y hy hxy => ?_⟩, fun u hu hc => ?_⟩
  · have hne : u ≠ v := by rintro rfl; exact h.not_visited h₀ hu
    rw [← hframe.lowLink_eq u hu]
    exact Function.update_of_ne hne _ _
  · rw [hlow]; omega
  · rw [hlow]
    by_cases hlt : s'.lowLink w < s.lowLink v
    · rw [Int.min_eq_right (by omega)]
      -- the call found something older than itself; it is older than `v` too, or lowering would do nothing
      rcases hlow' with ⟨-, hge⟩ | ⟨u, hu, huw, hreach⟩
      · have := h.inv.index_lt hvis
        have := h.index_self
        omega
      · rw [hT, List.mem_append, List.mem_cons] at hu
        rcases hu with hu | rfl | hu
        · have := h.above_index hT u hu
          omega
        · have := h.index_self
          omega
        · exact .inr ⟨u, hu, by rw [← (h.old_index h₀ hu).1]; exact huw, .head hvw hreach⟩
    · rw [Int.min_eq_left (by omega)]
      exact h.low_eq
  · show s'.stack = _
    rw [hT', hT, List.append_assoc]
  · rcases List.mem_append.1 hx with hx | hx
    · exact .head hvw (habove'.reached x hx)
    · exact habove.reached x hx
  · rcases List.mem_append.1 hx with hx | hx
    · obtain ⟨u, hu, hreach⟩ := habove'.returns x hx
      rw [hT] at hu
      rcases List.mem_append.1 hu with hu | hu
      · obtain ⟨r, hr, hur⟩ := habove.returns u hu
        exact ⟨r, hr, hreach.trans hur⟩
      · exact ⟨u, hu, hreach⟩
    · exact habove.returns x hx
  · rcases List.mem_append.1 hx with hx | hx
    · exact habove'.explored x hx y hxy
    · exact hpost.frame.visited (habove.explored x hx y hxy)
  · show _ ≤ s'.index y
    rw [hlow]
    rcases List.mem_append.1 hx with hx | hx
    · refine Int.le_trans hright (habove'.low_le x hx y ?_ hxy)
      rw [hT]
      exact List.mem_append_right _ (List.mem_cons_of_mem _ hy)
    · rw [hpost.frame.index_eq y (hold y hy)]
      exact Int.le_trans hleft (habove.low_le x hx y hy hxy)
  · rw [hlow]
    rcases List.mem_append.1 hu with hu | hu
    · exact ⟨hpost.frame.visited (h.edges u hu hc).1, fun hy => Int.le_trans hleft ((h.edges u hu hc).2 hy)⟩
    · rw [List.mem_singleton.1 hu]
      exact ⟨hpost.visited, fun hy => absurd (hold w hy) hnot⟩

/-- Returning without emitting: an older vertex is reached. -/
theorem Loop.keep (h : Loop adj cand n v s₀ (adj v) s) (h₀ : Inv adj cand n s₀) (hne : s.lowLink v ≠ s.index v) :
    Post adj cand n v s₀ s := by
  obtain ⟨T, hT, habove⟩ := h.stack
  obtain ⟨w, hw, hlow, hreach⟩ : ∃ w ∈ s₀.stack, s₀.index w = s.lowLink v ∧ Reach adj cand v w := by
    rcases h.low_eq with heq | hex
    · exact absurd (heq.trans h.index_self.symm) hne
    · exact hex
  refine ⟨h.inv, h.frame, h.visited h₀, T ++ [v], by simp [hT], ⟨fun x hx => ?_, fun x hx => ?_, fun x hx y hxy => ?_,
    fun x hx y hy hxy => ?_⟩, .inr ⟨w, hw, hlow, hreach⟩⟩
  all_goals rcases List.mem_append.1 hx with hx | hx
  · exact habove.reached x hx
  · rw [List.mem_singleton.1 hx]
  · obtain ⟨u, hu, hxu⟩ := habove.returns x hx
    rcases List.mem_cons.1 hu with rfl | hu
    · exact ⟨w, hw, hxu.trans hreach⟩
    · exact ⟨u, hu, hxu⟩
  · rw [List.mem_singleton.1 hx]
    exact ⟨w, hw, hreach⟩
  · exact habove.explored x hx y hxy
  · rw [List.mem_singleton.1 hx] at hxy
    exact (h.edges y hxy.1 hxy.2).1
  · exact habove.low_le x hx y hy hxy
  · rw [List.mem_singleton.1 hx] at hxy
    rw [(h.old_index h₀ hy).1]
    exact (h.edges y hxy.1 hxy.2).2 hy

section Emit
variable {T : List Nat}

theorem finished_emit (harrange : ∀ c, (arrange c).Perm c) (s : Tarjan) (members rest : List Nat) (x : Nat) :
    (s.emit arrange members rest).Finished x ↔ s.Finished x ∨ x ∈ members := by
  have hmem := (harrange members).mem_iff (a := x)
  simp only [Finished, emit, List.mem_append, List.mem_singleton]
  constructor
  · rintro ⟨c, hc | rfl, hx⟩
    · exact .inl ⟨c, hc, hx⟩
    · exact .inr (hmem.1 hx)
  · rintro (⟨c, hc, hx⟩ | hx)
    · exact ⟨c, .inl hc, hx⟩
    · exact ⟨_, .inr rfl, hmem.2 hx⟩

/-- If `v` has kept its own index, no edge leaves `T` and `v` but to finished vertices. -/
theorem Loop.closed (h : Loop adj cand n v s₀ (adj v) s) (h₀ : Inv adj cand n s₀)
    (hT : s.stack = T ++ v :: s₀.stack) (habove : Above adj cand v (v :: s₀.stack) s₀.stack (s.lowLink v) T s)
    (heq : s.lowLink v = s.index v) {x y : Nat} (hx : x ∈ T ++ [v]) (hxy : Reach adj cand x y) :
    y ∈ T ++ [v] ∨ s.Finished y := by
  induction hxy with
  | refl => exact .inl hx
  | @tail u w _ huw ih =>
    rcases ih with hu | hu
    · have hvis : s.Visited w ∧ (w ∈ s₀.stack → s.lowLink v ≤ s.index w) := by
        rcases List.mem_append.1 hu with hu | hu
        · exact ⟨habove.explored u hu w huw, fun hw => habove.low_le u hu w hw huw⟩
        · rw [List.mem_singleton.1 hu] at huw
          have hedge := h.edges w huw.1 huw.2
          exact ⟨hedge.1, fun hw => by rw [(h.old_index h₀ hw).1]; exact hedge.2 hw⟩
      rcases (h.inv.visited_iff w).1 hvis.1 with hw | hw
      · rw [hT, List.mem_append, List.mem_cons] at hw
        rcases hw with hw | rfl | hw
        · exact .inl (List.mem_append_left _ hw)
        · exact .inl (List.mem_append_right _ (List.mem_singleton_self _))
        · have := hvis.2 hw
          have := (h.old_index h₀ hw).2
          have := h.index_self
          omega
      · exact .inr hw
    · exact .inr (h.inv.finished_closed u hu w huw)

theorem Loop.old_not_mem (h : Loop adj cand n v s₀ done s) (h₀ : Inv adj cand n s₀)
    (hT : s.stack = T ++ v :: s₀.stack) {x : Nat} (hx : x ∈ s₀.stack) : x ∉ T ++ [v] := by
  intro hmem
  have := (h.old_index h₀ hx).2
  rcases List.mem_append.1 hmem with hmem | hmem
  · have := h.above_index hT x hmem
    omega
  · rw [List.mem_singleton.1 hmem, h.index_self] at this
    omega

/-- Emitting: the vertices down to `v` are one class. -/
theorem Loop.emit (h : Loop adj cand n v s₀ (adj v) s) (h₀ : Inv adj cand n s₀)
    (harrange : ∀ c, (arrange c).Perm c) (heq : s.lowLink v = s.index v) :
    Post adj cand n v s₀ (s.leave arrange v) := by
  obtain ⟨T, hT, habove⟩ := h.stack
  have hv : v ∉ T := fun hv => by
    have := h.above_index hT v hv
    rw [h.index_self] at this
    omega
  have hpop : popUntil v s.stack = (T ++ [v], s₀.stack) := by rw [hT]; exact popUntil_append hv
  have hclosed := fun {x y} => h.closed h₀ hT habove heq (x := x) (y := y)
  have hstack : ∀ x, x ∈ s.stack ↔ x ∈ T ++ [v] ∨ x ∈ s₀.stack := fun x => by simp [hT, or_assoc]
  have hold := fun {x} => h.old_not_mem h₀ hT (x := x)
  have hlive : ∀ x ∈ T ++ [v], ¬ s.Finished x := fun x hx =>
    h.inv.stack_not_finished x ((hstack x).2 (.inl hx))
  have hto : ∀ x ∈ T ++ [v], Reach adj cand v x := fun x hx => by
    rcases List.mem_append.1 hx with hx | hx
    · exact habove.reached x hx
    · rw [List.mem_singleton.1 hx]
  have hfrom : ∀ x ∈ T ++ [v], Reach adj cand x v := fun x hx => by
    rcases List.mem_append.1 hx with hxT | hxv
    · obtain ⟨w, hw, hxw⟩ := habove.returns x hxT
      rcases List.mem_cons.1 hw with rfl | hw
      · exact hxw
      · rcases hclosed hx hxw with hmem | hfin
        · exact absurd hmem (hold hw)
        · exact absurd hfin (h.inv.stack_not_finished w ((hstack w).2 (.inr hw)))
    · rw [List.mem_singleton.1 hxv]
  have hfinished := finished_emit harrange s (T ++ [v]) s₀.stack
  rw [leave, if_pos heq, hpop]
  refine ⟨⟨h.inv.next_nonneg, h.inv.index_range, h.inv.visited_cand, ?_, fun x => ?_, fun x => ?_, fun x hx => ?_,
    fun x hx w hxw => ?_, fun c hc => ?_, fun c hc a ha b => ?_, ?_⟩,
    ⟨h.frame.index_eq, h.frame.lowLink_eq, h.frame.next_le, h.frame.later⟩, h.visited h₀,
    [], rfl, ⟨by simp, by simp, by simp, by simp⟩, .inl ⟨rfl, ?_⟩⟩
  · have := h.inv.stack_sorted
    rw [hT] at this
    exact (List.pairwise_cons.1 (List.pairwise_append.1 this).2.1).2
  · show (T ++ [v]).foldl (fun on m => Function.update on m false) s.onStack x = true ↔ x ∈ s₀.stack
    rw [foldl_update_false, h.inv.onStack_iff, hstack]
    exact ⟨fun ⟨hx, hnot⟩ => hx.resolve_left hnot, fun hx => ⟨.inr hx, hold hx⟩⟩
  · rw [hfinished]
    show s.Visited x ↔ x ∈ s₀.stack ∨ _
    rw [h.inv.visited_iff, hstack]
    tauto
  · rw [hfinished, not_or]
    exact ⟨h.inv.stack_not_finished x ((hstack x).2 (.inr hx)), hold hx⟩
  · rw [hfinished] at hx ⊢
    rcases hx with hx | hx
    · exact .inl (h.inv.finished_closed x hx w hxw)
    · exact (hclosed hx (.single hxw)).symm
  · rcases List.mem_append.1 hc with hc | hc
    · exact h.inv.component_ne c hc
    · rw [List.mem_singleton.1 hc]
      intro hnil
      have := (harrange (T ++ [v])).length_eq
      simp [hnil] at this
  · rcases List.mem_append.1 hc with hc | hc
    · exact h.inv.component_iff c hc a ha b
    · rw [List.mem_singleton.1 hc] at ha ⊢
      rw [(harrange _).mem_iff] at ha ⊢
      refine ⟨fun hb => ⟨(hfrom a ha).trans (hto b hb), (hfrom b hb).trans (hto a ha)⟩, fun ⟨hab, hba⟩ => ?_⟩
      refine (hclosed ha hab).resolve_right fun hfin => ?_
      exact hlive a ha (h.inv.finished_reach hfin hba)
  · show (s.components ++ [arrange (T ++ [v])]).flatten.Nodup
    rw [List.flatten_append, List.nodup_append']
    refine ⟨h.inv.components_nodup, ?_, fun x hx hx' => ?_⟩
    · have hnodup : s.stack.Nodup := h.inv.stack_sorted.imp fun {a b} hab => by rintro rfl; omega
      rw [hT, show T ++ v :: s₀.stack = (T ++ [v]) ++ s₀.stack by simp] at hnodup
      simpa using (harrange _).nodup_iff.2 (List.nodup_append'.1 hnodup).1
    · obtain ⟨c, hc, hxc⟩ := List.mem_flatten.1 hx
      simp only [List.flatten_cons, List.flatten_nil, List.append_nil, (harrange _).mem_iff] at hx'
      exact hlive x hx' ⟨c, hc, hxc⟩
  · show _ ≤ s.lowLink v
    exact Int.le_of_eq (heq.trans h.index_self).symm

end Emit

theorem Loop.leave (h : Loop adj cand n v s₀ (adj v) s) (h₀ : Inv adj cand n s₀)
    (harrange : ∀ c, (arrange c).Perm c) : Post adj cand n v s₀ (s.leave arrange v) := by
  by_cases heq : s.lowLink v = s.index v
  · exact h.emit h₀ harrange heq
  · rw [Tarjan.leave, if_neg heq]
    exact h.keep h₀ heq

end Loop

/-- The neighbours `l` still to come, given that the recursive calls do as they should. -/
theorem visit_foldl {k v : Nat} {s₀ : Tarjan} (h₀ : Inv adj cand n s₀) (hv : cand v = true ∧ v < n)
    (hk : fresh cand n s₀ ≤ k + 1) (hadj : ∀ w ∈ adj v, w < n)
    (hcall : ∀ w s, Inv adj cand n s → ¬ s.Visited w → cand w = true → w < n → fresh cand n s ≤ k →
      ∃ s', (∀ m, k ≤ m → strongConnect adj cand arrange m w s = s') ∧ Post adj cand n w s s')
    (l done : List Nat) (hl : adj v = done ++ l) (s : Tarjan) (h : Loop adj cand n v s₀ done s) :
    ∃ s', (∀ m, k ≤ m → l.foldl (visit adj cand arrange m v) s = s') ∧ Loop adj cand n v s₀ (adj v) s' := by
  induction l generalizing done s with
  | nil =>
    rw [hl, List.append_nil]
    exact ⟨s, fun _ _ => rfl, h⟩
  | cons w l ih =>
    have hw : w ∈ adj v := by rw [hl]; simp
    obtain ⟨s', hs', hloop⟩ : ∃ s', (∀ m, k ≤ m → visit adj cand arrange m v s w = s') ∧
        Loop adj cand n v s₀ (done ++ [w]) s' := by
      by_cases hc : cand w = true
      · by_cases hvis : s.Visited w
        · refine ⟨_, fun m _ => ?_, h.visit_old h₀ ⟨hw, hc⟩ hvis⟩
          rw [visit, if_neg (by simp [hc]), if_neg (by unfold Visited at hvis; omega)]
        · have hfresh := fresh_lt h.frame h₀ hv.2 hv.1 (h.not_visited h₀) (h.visited h₀)
          obtain ⟨s', hs', hpost⟩ := hcall w s h.inv hvis hc (hadj w hw) (by omega)
          refine ⟨_, fun m hm => ?_, h.visit_new h₀ ⟨hw, hc⟩ hvis hpost⟩
          rw [visit, if_neg (by simp [hc]), if_pos (h.inv.index_of_not_visited hvis), hs' m hm]
      · refine ⟨s, fun m _ => ?_, h.extend fun hc' => absurd hc' hc⟩
        rw [visit, if_pos (by simpa using hc)]
    obtain ⟨s'', hs'', hend⟩ := ih (done ++ [w]) (by rw [hl]; simp) s' hloop
    refine ⟨s'', fun m hm => ?_, hend⟩
    rw [List.foldl_cons, hs' m hm, hs'' m hm]

/-- One call: with as much fuel as there are vertices to visit, any more makes no difference. -/
theorem strongConnect_spec (harrange : ∀ c, (arrange c).Perm c) (hadj : ∀ v, ∀ w ∈ adj v, w < n)
    (k v : Nat) (s : Tarjan) (h : Inv adj cand n s) (hnot : ¬ s.Visited v) (hc : cand v = true) (hv : v < n)
    (hk : fresh cand n s ≤ k) :
    ∃ s', (∀ m, k ≤ m → strongConnect adj cand arrange m v s = s') ∧ Post adj cand n v s s' := by
  induction k generalizing v s with
  | zero =>
    have hloop := Loop.enter h hnot hc hv
    have := fresh_lt hloop.frame h hv hc hnot (hloop.visited h)
    omega
  | succ k ih =>
    obtain ⟨s', hs', hloop⟩ := visit_foldl h ⟨hc, hv⟩ hk (hadj v)
      (fun w s hi hn hcw hw hf => ih w s hi hn hcw hw hf) (adj v) [] rfl (s.enter v) (Loop.enter h hnot hc hv)
    refine ⟨s'.leave arrange v, fun m hm => ?_, hloop.leave h harrange⟩
    obtain ⟨m, rfl⟩ : ∃ m', m = m' + 1 := ⟨m - 1, by omega⟩
    rw [strongConnect_succ, hs' m (by omega)]

/-! ## The whole run -/

theorem start_inv (n : Nat) : Inv adj cand n start := by
  have hvis : ∀ v, ¬ start.Visited v := fun v => by simp [Visited, start]
  exact ⟨by simp [start], fun _ => .inl rfl, fun v hv => absurd hv (hvis v), List.Pairwise.nil, by simp [start],
    fun v => ⟨fun hv => absurd hv (hvis v), by simp [start, Finished]⟩, by simp [start], by simp [start, Finished],
    by simp [start], by simp [start], List.nodup_nil⟩

theorem fresh_le_n (n : Nat) (s : Tarjan) : fresh cand n s ≤ n := by
  have := List.countP_le_length (p := fun v => cand v && s.index v == -1) (l := List.range n)
  rwa [List.length_range] at this

/-- From a state with nothing on the stack, calls at `l` leave nothing there and visit what they should. -/
theorem turn_foldl (harrange : ∀ c, (arrange c).Perm c) (hadj : ∀ v, ∀ w ∈ adj v, w < n)
    (l : List Nat) (hl : ∀ v ∈ l, v < n) (s : Tarjan) (h : Inv adj cand n s) (hs : s.stack = []) :
    ∃ s', (∀ k, n ≤ k → l.foldl (turn adj cand arrange k) s = s') ∧
      Inv adj cand n s' ∧ s'.stack = [] ∧ Frame s s' ∧ ∀ v ∈ l, cand v = true → s'.Visited v := by
  induction l generalizing s with
  | nil => exact ⟨s, fun _ _ => rfl, h, hs, Frame.refl s, by simp⟩
  | cons v l ih =>
    have hl' := fun w hw => hl w (List.mem_cons_of_mem v hw)
    by_cases hcall : (cand v && s.index v == -1) = true
    · have hcond := hcall
      simp only [Bool.and_eq_true, beq_iff_eq] at hcond
      obtain ⟨s₁, hs₁, hpost⟩ := strongConnect_spec harrange hadj n v s h (h.not_visited_iff.1 hcond.2) hcond.1
        (hl v List.mem_cons_self) (fresh_le_n n s)
      have hempty : s₁.stack = [] := by
        obtain ⟨T, hT, -, hlow⟩ := hpost.stack
        rcases hlow with ⟨rfl, -⟩ | ⟨w, hw, -⟩
        · rw [hT, hs]; rfl
        · rw [hs] at hw; cases hw
      obtain ⟨s', he, hi, hst, hf, hvis⟩ := ih hl' s₁ hpost.inv hempty
      refine ⟨s', fun k hk => ?_, hi, hst, hpost.frame.trans hf, fun w hw hc => ?_⟩
      · rw [List.foldl_cons, turn, if_pos hcall, hs₁ k hk]
        exact he k hk
      · rcases List.mem_cons.1 hw with rfl | hw
        · exact hf.visited hpost.visited
        · exact hvis w hw hc
    · obtain ⟨s', he, hi, hst, hf, hvis⟩ := ih hl' s h hs
      refine ⟨s', fun k hk => ?_, hi, hst, hf, fun w hw hc => ?_⟩
      · rw [List.foldl_cons, turn, if_neg hcall]
        exact he k hk
      · rcases List.mem_cons.1 hw with rfl | hw
        · refine hf.visited (by_contra fun hn => hcall ?_)
          simp [hc, h.index_of_not_visited hn]
        · exact hvis w hw hc

/-- The components of a finished run. -/
structure Classes (adj : Nat → List Nat) (cand : Nat → Bool) (n : Nat) (components : List (List Nat)) : Prop where
  ne_nil : ∀ c ∈ components, c ≠ []
  nodup : components.flatten.Nodup
  mem_iff : ∀ v, v ∈ components.flatten ↔ cand v = true ∧ v < n
  class_iff : ∀ c ∈ components, ∀ a ∈ c, ∀ b, b ∈ c ↔ Reach adj cand a b ∧ Reach adj cand b a

theorem Classes.perm {l l' : List (List Nat)} (h : Classes adj cand n l) (hp : l'.Perm l) : Classes adj cand n l' :=
  ⟨fun c hc => h.ne_nil c (hp.mem_iff.1 hc), hp.flatten.nodup_iff.2 h.nodup,
    fun v => by rw [hp.flatten.mem_iff, h.mem_iff], fun c hc => h.class_iff c (hp.mem_iff.1 hc)⟩

theorem run_spec (harrange : ∀ c, (arrange c).Perm c) (hadj : ∀ v, ∀ w ∈ adj v, w < n) :
    Classes adj cand n (run adj cand arrange n).components := by
  obtain ⟨s', he, hi, hst, -, hvis⟩ := turn_foldl harrange hadj (List.range n)
    (fun v hv => List.mem_range.1 hv) start (start_inv n) rfl
  rw [show run adj cand arrange n = s' from he n (Nat.le_refl n)]
  refine ⟨hi.component_ne, hi.components_nodup, fun v => ?_, hi.component_iff⟩
  have hfin : v ∈ s'.components.flatten ↔ s'.Finished v := by
    rw [List.mem_flatten]; rfl
  rw [hfin]
  have hiff := hi.visited_iff v
  rw [hst] at hiff
  simp only [List.not_mem_nil, false_or] at hiff
  rw [← hiff]
  exact ⟨hi.visited_cand v, fun ⟨hc, hv⟩ => hvis v (List.mem_range.2 hv) hc⟩

/-- Fuel beyond the number of vertices makes no difference. -/
theorem runWith_eq (harrange : ∀ c, (arrange c).Perm c) (hadj : ∀ v, ∀ w ∈ adj v, w < n) {k : Nat} (hk : n ≤ k) :
    runWith adj cand arrange k n = run adj cand arrange n := by
  obtain ⟨s', he, -⟩ := turn_foldl harrange hadj (List.range n) (fun v hv => List.mem_range.1 hv) start
    (start_inv n) rfl
  exact (he k hk).trans (he n (Nat.le_refl n)).symm

/-! ## The quotient -/

/-- Some edge leads from the component at `a` to another one at `b`. -/
def Between (adj : Nat → List Nat) (cand : Nat → Bool) (components : List (List Nat)) (a b : Nat) : Prop :=
  a ≠ b ∧ ∃ c d, components[a]? = some c ∧ components[b]? = some d ∧ ∃ x ∈ c, ∃ y ∈ d, Step adj cand x y

section Quotient
variable {components : List (List Nat)} {a b x y : Nat} {c d : List Nat}

theorem Classes.reach_inside (h : Classes adj cand n components) (hc : components[a]? = some c) (hx : x ∈ c)
    (hy : y ∈ c) : Reach adj cand x y :=
  ((h.class_iff c (List.mem_of_getElem? hc) x hx y).1 hy).1

/-- A path of components is a path of vertices, whatever the members it starts and ends at. -/
theorem Classes.reach_between (h : Classes adj cand n components) (hab : ReflTransGen (Between adj cand components) a b)
    (hc : components[a]? = some c) (hd : components[b]? = some d) (hx : x ∈ c) (hy : y ∈ d) : Reach adj cand x y := by
  induction hab generalizing d y with
  | refl =>
    rw [hc] at hd
    cases hd
    exact h.reach_inside hc hx hy
  | tail _ hstep ih =>
    obtain ⟨-, c', d', hc', hd', u, hu, w, hw, huw⟩ := hstep
    rw [hd] at hd'
    cases hd'
    exact ((ih hc' hu).tail huw).trans (h.reach_inside hd hw hy)

/-- Components of mutual reachability form no cycle. -/
theorem Classes.acyclic (h : Classes adj cand n components) (a : Nat) : ¬ TransGen (Between adj cand components) a a := by
  intro hcycle
  obtain ⟨b, hab, hback⟩ := TransGen.head'_iff.1 hcycle
  obtain ⟨hne, c, d, hc, hd, x, hx, y, hy, hxy⟩ := hab
  have hyx := h.reach_between hback hd hc hy hx
  have hmem : y ∈ c := (h.class_iff c (List.mem_of_getElem? hc) x hx y).2 ⟨.single hxy, hyx⟩
  have hmeet := List.pairwise_iff_getElem.1 (List.nodup_flatten.1 h.nodup).2
  obtain ⟨ha, rfl⟩ := List.getElem?_eq_some_iff.1 hc
  obtain ⟨hb, rfl⟩ := List.getElem?_eq_some_iff.1 hd
  rcases Nat.lt_or_gt_of_ne hne with hlt | hlt
  · exact hmeet a b ha hb hlt hmem hy
  · exact hmeet b a hb ha hlt hy hmem

end Quotient

end Tarjan

end Lib
