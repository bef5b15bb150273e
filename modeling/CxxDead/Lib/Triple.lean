import CxxDead.Lib.Throwing
/-!
# Triples

`Triple P m Q E`: started in a state of `P`, the command `m` returns a value and a
state of `Q`, or throws an error in a state of `E`. The rules follow the shape of
the command.
-/

namespace Lib

variable {ε σ α β : Type} {P P' : σ → Prop} {Q Q' : α → σ → Prop} {R : β → σ → Prop} {E E' : ε → σ → Prop}

def Triple (P : σ → Prop) (m : EStateM ε σ α) (Q : α → σ → Prop) (E : ε → σ → Prop) : Prop :=
  ∀ s, P s →
    match m s with
    | .ok a s' => Q a s'
    | .error e s' => E e s'

theorem Triple.ok {m : EStateM ε σ α} (h : Triple P m Q E) {s s' : σ} {a : α} (hs : P s) (hm : m s = .ok a s') :
    Q a s' := by
  have := h s hs
  rwa [hm] at this

theorem Triple.error {m : EStateM ε σ α} (h : Triple P m Q E) {s s' : σ} {e : ε} (hs : P s)
    (hm : m s = .error e s') : E e s' := by
  have := h s hs
  rwa [hm] at this

/-- A stronger precondition, and weaker postconditions. -/
theorem Triple.imp {m : EStateM ε σ α} (h : Triple P m Q E) (hP : ∀ s, P' s → P s) (hQ : ∀ a s, Q a s → Q' a s)
    (hE : ∀ e s, E e s → E' e s) : Triple P' m Q' E' := by
  intro s hs
  have hrun := h s (hP s hs)
  cases hm : m s with
  | ok a s' =>
    rw [hm] at hrun
    exact hQ a s' hrun
  | error e s' =>
    rw [hm] at hrun
    exact hE e s' hrun

theorem Triple.exists {ι : Type} {P : ι → σ → Prop} {m : EStateM ε σ α} (h : ∀ x, Triple (P x) m Q E) :
    Triple (fun s => ∃ x, P x s) m Q E :=
  fun s ⟨x, hs⟩ => h x s hs

/-- What the precondition says of no state is at hand. -/
theorem Triple.assume {c : Prop} {m : EStateM ε σ α} (h : c → Triple P m Q E) : Triple (fun s => P s ∧ c) m Q E :=
  fun s hs => h hs.2 s hs.1

theorem Triple.pure {a : α} (h : ∀ s, P s → Q a s) : Triple P (Pure.pure a : EStateM ε σ α) Q E := h

theorem Triple.throw {e : ε} (h : ∀ s, P s → E e s) : Triple P (throw e : EStateM ε σ α) Q E := h

theorem Triple.modify {f : σ → σ} {R : PUnit → σ → Prop} (h : ∀ s, P s → R ⟨⟩ (f s)) :
    Triple P (modify f : EStateM ε σ PUnit) R E := h

theorem Triple.bind {m : EStateM ε σ β} {f : β → EStateM ε σ α} (hm : Triple P m R E) (hf : ∀ b, Triple (R b) (f b) Q E) :
    Triple P (m >>= f) Q E := by
  intro s hs
  have hrun := hm s hs
  show match EStateM.bind m f s with
    | .ok a s' => Q a s'
    | .error e s' => E e s'
  unfold EStateM.bind
  cases h : m s with
  | ok b s' =>
    rw [h] at hrun
    exact hf b s' hrun
  | error e s' =>
    rw [h] at hrun
    exact hrun

/-- The state is read, and has not changed. -/
theorem Triple.get_bind {f : σ → EStateM ε σ α} (h : ∀ s, P s → Triple (fun t => t = s) (f s) Q E) :
    Triple P (get >>= f) Q E :=
  fun s hs => h s hs s rfl

theorem Triple.ite {c : Prop} [Decidable c] {m m' : EStateM ε σ α} (h : c → Triple P m Q E) (h' : ¬ c → Triple P m' Q E) :
    Triple P (if c then m else m') Q E := by
  by_cases hc : c
  · rw [if_pos hc]
    exact h hc
  · rw [if_neg hc]
    exact h' hc

/-- A command that keeps `P`, however it ends. -/
theorem Keeps.of_triple {m : EStateM ε σ α} (h : Triple P m (fun _ => P) fun _ => P) : Keeps P m := by
  intro s hs
  have hrun := h s hs
  unfold endState
  cases hm : m s with
  | ok a s' =>
    rw [hm] at hrun
    exact hrun
  | error e s' =>
    rw [hm] at hrun
    exact hrun

theorem Triple.of_keeps {m : EStateM ε σ α} (h : Keeps P m) : Triple P m (fun _ => P) fun _ => P := by
  intro s hs
  have hrun := h s hs
  unfold endState at hrun
  cases hm : m s with
  | ok a s' =>
    rw [hm] at hrun
    exact hrun
  | error e s' =>
    rw [hm] at hrun
    exact hrun

/-- A loop whose turns keep `P`. -/
theorem Triple.forM {f : β → EStateM ε σ PUnit} (l : List β) (h : ∀ b ∈ l, Triple P (f b) (fun _ => P) E) :
    Triple P (l.forM f) (fun _ => P) E := by
  induction l with
  | nil => exact Triple.pure fun _ hs => hs
  | cons b l ih =>
    exact (h b List.mem_cons_self).bind fun _ => ih fun c hc => h c (List.mem_cons_of_mem _ hc)

/-- A loop that establishes something about what is behind it. -/
theorem Triple.forM_done {P : List β → σ → Prop} {f : β → EStateM ε σ PUnit} (l done : List β)
    (h : ∀ done, ∀ b ∈ l, Triple (P done) (f b) (fun _ => P (done ++ [b])) E) :
    Triple (P done) (l.forM f) (fun _ => P (done ++ l)) E := by
  induction l generalizing done with
  | nil =>
    rw [List.append_nil]
    exact Triple.pure fun _ hs => hs
  | cons b l ih =>
    refine (h done b List.mem_cons_self).bind fun _ => ?_
    rw [List.append_cons done b l]
    exact ih _ fun done c hc => h done c (List.mem_cons_of_mem _ hc)

end Lib
