import CxxDead.Lib.Triple
/-!
# Commands that only add

A state holds facts: `has s x`. `Adds I has m p named` says that `m`, started where
`I` holds, returns exactly if `p` does, keeps `I`, and leaves the facts that were
there and those that `named` says. What such commands do together does not depend
on their order, nor on how often each is run: `Adds.forM`.
-/

namespace Lib

variable {ε σ α ι : Type} {I : σ → Prop} {has : σ → ι → Prop}

def Adds (I : σ → Prop) (has : σ → ι → Prop) (m : EStateM ε σ PUnit) (p : Prop) (named : ι → Prop) : Prop :=
  ∀ s, I s → Triple (fun t => t = s) m (fun _ t => p ∧ I t ∧ ∀ x, has t x ↔ has s x ∨ named x) (fun _ _ => ¬ p)

variable {m m' : EStateM ε σ PUnit} {p p' : Prop} {named named' : ι → Prop}

theorem Adds.congr (h : Adds I has m p named) (hp : p ↔ p') (hnamed : ∀ x, named x ↔ named' x) :
    Adds I has m p' named' := by
  intro s hs
  refine (h s hs).imp (fun _ => id) (fun _ t ⟨hok, hkept, hfacts⟩ => ⟨hp.1 hok, hkept, fun x => ?_⟩) fun _ _ hno =>
    fun h' => hno (hp.2 h')
  rw [hfacts, hnamed]

theorem Adds.nothing : Adds I has (Pure.pure ⟨⟩ : EStateM ε σ PUnit) True fun _ => False := by
  intro s hs t ht
  cases ht
  exact ⟨trivial, hs, fun x => by rw [or_false]⟩

theorem Adds.one {x : ι} (h : ∀ s, I s → ∃ t, m s = .ok ⟨⟩ t ∧ I t ∧ ∀ y, has t y ↔ has s y ∨ y = x) :
    Adds I has m True fun y => y = x := by
  intro s hs t ht
  obtain ⟨s', hrun, hkept, hfacts⟩ := h s hs
  rw [ht, hrun]
  exact ⟨trivial, hkept, hfacts⟩

/-- A command that asks a question of the state first, which `I` answers. -/
theorem Adds.ask {ask : EStateM ε σ α} {f : α → EStateM ε σ PUnit} {answer : α → Prop} {p : Prop}
    {named : α → ι → Prop} (hunique : ∀ a b, answer a → answer b → a = b)
    (hask : ∀ s, I s → Triple (fun t => t = s) ask (fun a t => answer a ∧ t = s) (fun _ _ => ¬ ∃ a, answer a))
    (h : ∀ a, answer a → Adds I has (f a) p (named a)) :
    Adds I has (ask >>= f) ((∃ a, answer a) ∧ p) fun x => ∃ a, answer a ∧ named a x := by
  intro s hs
  have hfirst : Triple (fun t => t = s) ask (fun a t => answer a ∧ t = s) fun _ _ => ¬ ((∃ a, answer a) ∧ p) :=
    (hask s hs).imp (fun _ => id) (fun _ _ => id) fun _ _ hno hboth => hno hboth.1
  refine hfirst.bind fun a t ⟨ha, ht⟩ => ?_
  subst ht
  have hrest := h a ha t hs t rfl
  cases hrun : f a t with
  | ok _ t' =>
    rw [hrun] at hrest
    obtain ⟨hp, hkept, hfacts⟩ := hrest
    refine ⟨⟨⟨a, ha⟩, hp⟩, hkept, fun x => ?_⟩
    rw [hfacts]
    exact or_congr_right ⟨fun hx => ⟨a, ha, hx⟩, fun ⟨b, hb, hx⟩ => hunique b a hb ha ▸ hx⟩
  | error _ _ =>
    rw [hrun] at hrest
    exact fun hboth => hrest hboth.2

theorem Adds.seq (h : Adds I has m p named) (h' : Adds I has m' p' named') :
    Adds I has (m >>= fun _ => m') (p ∧ p') fun x => named x ∨ named' x := by
  intro s hs
  have hfirst : Triple (fun t => t = s) m (fun _ t => p ∧ I t ∧ ∀ x, has t x ↔ has s x ∨ named x)
      fun _ _ => ¬ (p ∧ p') :=
    (h s hs).imp (fun _ => id) (fun _ _ => id) fun _ _ hno hboth => hno hboth.1
  refine hfirst.bind fun _ t ⟨hp, hkept, hfacts⟩ => ?_
  have hrest := h' t hkept t rfl
  cases hrun : m' t with
  | ok _ t' =>
    rw [hrun] at hrest
    obtain ⟨hp', hkept', hfacts'⟩ := hrest
    exact ⟨⟨hp, hp'⟩, hkept', fun x => by rw [hfacts', hfacts, or_assoc]⟩
  | error _ _ =>
    rw [hrun] at hrest
    exact fun hboth => hrest hboth.2

theorem Adds.forM {f : α → EStateM ε σ PUnit} {p : α → Prop} {named : α → ι → Prop} (l : List α)
    (h : ∀ a ∈ l, Adds I has (f a) (p a) (named a)) :
    Adds I has (l.forM f) (∀ a ∈ l, p a) fun x => ∃ a ∈ l, named a x := by
  induction l with
  | nil => exact Adds.nothing.congr (by simp) (by simp)
  | cons a l ih =>
    have hrest := ih fun b hb => h b (List.mem_cons_of_mem _ hb)
    exact ((h a List.mem_cons_self).seq hrest).congr List.forall_mem_cons.symm fun x => by simp

/-- A run that has returned. -/
theorem Adds.ok (h : Adds I has m p named) {s t : σ} (hs : I s) (hm : m s = .ok ⟨⟩ t) :
    p ∧ I t ∧ ∀ x, has t x ↔ has s x ∨ named x :=
  (h s hs).ok rfl hm

theorem Adds.returns_iff (h : Adds I has m p named) {s : σ} (hs : I s) : (∃ t, m s = .ok ⟨⟩ t) ↔ p := by
  have hrun := h s hs s rfl
  cases hm : m s with
  | ok _ t =>
    rw [hm] at hrun
    exact iff_of_true ⟨t, rfl⟩ hrun.1
  | error _ _ =>
    rw [hm] at hrun
    exact iff_of_false (fun ⟨_, h'⟩ => nomatch h') hrun

end Lib
