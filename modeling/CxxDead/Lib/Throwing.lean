import Mathlib.Data.List.Basic
/-!
# Commands that throw and keep their state

Rules for `EStateM ε σ`, the model of code that changes a state and may throw:
a throw keeps the state as it stands at that point. `m s = .ok a s'` says that
`m`, started in `s`, returns `a` in `s'`; `Keeps I m` that `m` keeps `I` however
it ends.
-/

namespace Lib

variable {ε σ α β : Type}

theorem bind_ok_iff {m : EStateM ε σ α} {f : α → EStateM ε σ β} {s s'' : σ} {b : β} :
    (m >>= f) s = .ok b s'' ↔ ∃ a s', m s = .ok a s' ∧ f a s' = .ok b s'' := by
  show EStateM.bind m f s = _ ↔ _
  unfold EStateM.bind
  cases h : m s with
  | ok a s' => simp
  | error e s' => simp

/-- A command that returns hands its result on. -/
theorem bind_of_ok {m : EStateM ε σ α} {f : α → EStateM ε σ β} {s s' : σ} {a : α} (h : m s = .ok a s') :
    (m >>= f) s = f a s' := by
  show EStateM.bind m f s = _
  unfold EStateM.bind
  rw [h]

/-- A command that throws ends what follows it. -/
theorem bind_of_error {m : EStateM ε σ α} {f : α → EStateM ε σ β} {s s' : σ} {e : ε} (h : m s = .error e s') :
    (m >>= f) s = .error e s' := by
  show EStateM.bind m f s = _
  unfold EStateM.bind
  rw [h]

theorem pure_ok_iff {a b : α} {s s' : σ} :
    (pure a : EStateM ε σ α) s = .ok b s' ↔ a = b ∧ s = s' := by
  show EStateM.Result.ok a s = .ok b s' ↔ _
  simp

/-- Two commands agree if their first steps do, and what follows does wherever that returns. -/
theorem bind_congr_run {m m' : EStateM ε σ α} {f f' : α → EStateM ε σ β} {s : σ} (hm : m s = m' s)
    (hf : ∀ a s', m s = .ok a s' → f a s' = f' a s') : (m >>= f) s = (m' >>= f') s := by
  show EStateM.bind m f s = EStateM.bind m' f' s
  unfold EStateM.bind
  rw [← hm]
  cases h : m s with
  | ok a s' => exact hf a s' h
  | error e s' => rfl

/-- A check that throws, then one change of the state. -/
theorem guarded_ok_iff {p : Prop} [Decidable p] {e : ε} {a b : α} {s s' s'' : σ} :
    (if p then EStateM.Result.error e s else .ok a s') = .ok b s'' ↔ ¬ p ∧ a = b ∧ s' = s'' := by
  split
  · rename_i h; simp [h]
  · rename_i h; simp [h]

/-- A loop of commands that all return. -/
theorem forM_ok {f : α → EStateM ε σ PUnit} {step : σ → α → σ} {I : σ → Prop} (l : List α)
    (h : ∀ a ∈ l, ∀ s, I s → f a s = .ok ⟨⟩ (step s a) ∧ I (step s a)) (s : σ) (hs : I s) :
    l.forM f s = .ok ⟨⟩ (l.foldl step s) ∧ I (l.foldl step s) := by
  induction l generalizing s with
  | nil => exact ⟨rfl, hs⟩
  | cons a l ih =>
    obtain ⟨hok, hI⟩ := h a List.mem_cons_self s hs
    obtain ⟨hrest, hend⟩ := ih (fun b hb => h b (List.mem_cons_of_mem _ hb)) _ hI
    exact ⟨bind_ok_iff.2 ⟨_, _, hok, hrest⟩, hend⟩

/-! ## Without a state -/

/-- The command returns, and this is what follows. -/
theorem except_bind_eq {m : Except ε α} {f : α → Except ε β} {a : α} {r : Except ε β} (h : m = .ok a)
    (hrest : f a = r) : (m >>= f) = r := by
  rw [h]
  exact hrest

theorem except_bind_error {m : Except ε α} {f : α → Except ε β} {e : ε} (h : m = .error e) : (m >>= f) = .error e := by
  rw [h]
  rfl

/-- A loop over numbered values whose turns all return. -/
theorem foldlM_zipIdx_ok {f : σ → α × Nat → Except ε σ} (state : List β → σ) (value : β → α) (l : List β)
    (h : ∀ done b, (∃ rest, done ++ b :: rest = l) → ∀ i, f (state done) (value b, i) = .ok (state (done ++ [b]))) :
    (l.map value).zipIdx.foldlM f (state []) = .ok (state l) := by
  have hrun : ∀ (rest done : List β) (i : Nat), done ++ rest = l →
      ((rest.map value).zipIdx i).foldlM f (state done) = .ok (state l) := by
    intro rest
    induction rest with
    | nil =>
      intro done i hl
      rw [← hl, List.append_nil]
      rfl
    | cons b rest ih =>
      intro done i hl
      rw [List.map_cons, List.zipIdx_cons, List.foldlM_cons]
      exact except_bind_eq (h done b ⟨rest, hl⟩ i) (ih _ _ (by rw [← hl, List.append_assoc]; rfl))
  exact hrun l [] 0 rfl

theorem mapM_ok {f : α → Except ε β} {value : β → α} (l : List β) (h : ∀ b ∈ l, f (value b) = .ok b) :
    (l.map value).mapM f = .ok l := by
  induction l with
  | nil => rfl
  | cons b l ih =>
    rw [List.map_cons, List.mapM_cons]
    exact except_bind_eq (h b List.mem_cons_self)
      (except_bind_eq (ih fun x hx => h x (List.mem_cons_of_mem _ hx)) rfl)

theorem except_bind_ok_iff {m : Except ε α} {f : α → Except ε β} {b : β} :
    (m >>= f) = .ok b ↔ ∃ a, m = .ok a ∧ f a = .ok b := by
  cases m with
  | ok a =>
    constructor
    · exact fun h => ⟨a, rfl, h⟩
    · rintro ⟨_, ⟨⟩, h⟩
      exact h
  | error e =>
    constructor
    · exact fun h => nomatch h
    · rintro ⟨_, ⟨⟩, _⟩

/-- A loop over numbered values that returns: what its turns made of the values, one by one. -/
theorem foldlM_zipIdx_returned {f : σ → α × Nat → Except ε σ} {P : α → β → Prop} {I : σ → List β → Prop}
    (hstep : ∀ s s' done a i, I s done → f s (a, i) = .ok s' → ∃ b, P a b ∧ I s' (done ++ [b])) {l : List α} {s s' : σ}
    (hs : I s []) (h : l.zipIdx.foldlM f s = .ok s') : ∃ made, List.Forall₂ P l made ∧ I s' made := by
  have hrun : ∀ (l : List α) (i : Nat) (s : σ) (done : List β), I s done → (l.zipIdx i).foldlM f s = .ok s' →
      ∃ made, List.Forall₂ P l made ∧ I s' (done ++ made) := by
    intro l
    induction l with
    | nil =>
      intro i s done hs h
      cases h
      exact ⟨[], .nil, by rwa [List.append_nil]⟩
    | cons a l ih =>
      intro i s done hs h
      rw [List.zipIdx_cons, List.foldlM_cons] at h
      obtain ⟨s₁, hturn, hrest⟩ := except_bind_ok_iff.1 h
      obtain ⟨b, hb, hs₁⟩ := hstep s s₁ done a i hs hturn
      obtain ⟨made, hmade, hend⟩ := ih (i + 1) s₁ (done ++ [b]) hs₁ hrest
      exact ⟨b :: made, .cons hb hmade, by rwa [List.append_assoc] at hend⟩
  exact hrun l 0 s [] hs h

theorem mapM_returns {f : α → Except ε β} {l : List α} (h : ∀ a ∈ l, ∃ b, f a = .ok b) :
    ∃ out, l.mapM f = .ok out := by
  induction l with
  | nil => exact ⟨[], rfl⟩
  | cons a l ih =>
    obtain ⟨b, hb⟩ := h a List.mem_cons_self
    obtain ⟨out, hout⟩ := ih fun a ha => h a (List.mem_cons_of_mem _ ha)
    exact ⟨b :: out, by rw [List.mapM_cons]; exact except_bind_eq hb (except_bind_eq hout rfl)⟩

theorem mapM_returned {f : α → Except ε β} {l : List α} {out : List β} (h : l.mapM f = .ok out) :
    (∀ a ∈ l, ∃ b, f a = .ok b) ∧ ∀ b, b ∈ out ↔ ∃ a ∈ l, f a = .ok b := by
  induction l generalizing out with
  | nil =>
    cases h
    simp
  | cons a l ih =>
    rw [List.mapM_cons, except_bind_ok_iff] at h
    obtain ⟨first, hfirst, h⟩ := h
    obtain ⟨rest, hrest, h⟩ := except_bind_ok_iff.1 h
    cases h
    obtain ⟨hall, hmem⟩ := ih hrest
    refine ⟨List.forall_mem_cons.2 ⟨⟨first, hfirst⟩, hall⟩, fun b => ?_⟩
    rw [List.mem_cons, hmem, List.exists_mem_cons_iff, hfirst, Except.ok.injEq, eq_comm]

/-! ## What a command keeps, whether it returns or throws -/

/-- The state in which a command stops. -/
def endState (m : EStateM ε σ α) (s : σ) : σ :=
  match m s with
  | .ok _ s' => s'
  | .error _ s' => s'

/-- Returning and throwing both keep `I`. -/
def Keeps (I : σ → Prop) (m : EStateM ε σ α) : Prop := ∀ s, I s → I (endState m s)

variable {I : σ → Prop}

def returns (m : EStateM ε σ α) (s : σ) : Bool :=
  match m s with
  | .ok _ _ => true
  | .error _ _ => false

theorem endState_of_returns {m : EStateM ε σ PUnit} {s : σ} (h : returns m s = true) : m s = .ok ⟨⟩ (endState m s) := by
  unfold returns at h
  unfold endState
  cases hm : m s with
  | ok u s' => rfl
  | error e s' =>
    rw [hm] at h
    cases h

theorem Keeps.ok {m : EStateM ε σ α} (h : Keeps I m) {s s' : σ} {a : α} (hs : I s) (hm : m s = .ok a s') : I s' := by
  have := h s hs
  rwa [endState, hm] at this

theorem Keeps.pure (a : α) : Keeps I (Pure.pure a : EStateM ε σ α) := fun _ hs => hs

theorem Keeps.guarded {p : σ → Prop} [DecidablePred p] {e : ε} {a : α} {f : σ → σ}
    (h : ∀ s, I s → ¬ p s → I (f s)) :
    Keeps I (fun s => if p s then .error e s else .ok a (f s) : EStateM ε σ α) := by
  intro s hs
  unfold endState
  by_cases hp : p s
  · simpa only [if_pos hp] using hs
  · simpa only [if_neg hp] using h s hs hp

theorem Keeps.bind {m : EStateM ε σ α} {f : α → EStateM ε σ β} (hm : Keeps I m) (hf : ∀ a, Keeps I (f a)) :
    Keeps I (m >>= f) := by
  intro s hs
  have hfirst := hm s hs
  show I (endState (EStateM.bind m f) s)
  unfold endState EStateM.bind at *
  cases h : m s with
  | ok a s' =>
    rw [h] at hfirst
    exact hf a s' hfirst
  | error e s' =>
    rw [h] at hfirst
    exact hfirst

theorem Keeps.ite {c : Prop} [Decidable c] {m m' : EStateM ε σ α} (h : Keeps I m) (h' : Keeps I m') :
    Keeps I (if c then m else m') := by
  split
  · exact h
  · exact h'

/-- The state is read before what follows. -/
theorem Keeps.get_bind {f : σ → EStateM ε σ α} (h : ∀ s, I s → I (endState (f s) s)) : Keeps I (get >>= f) := h

theorem Keeps.forM {f : α → EStateM ε σ PUnit} (h : ∀ a, Keeps I (f a)) (l : List α) : Keeps I (l.forM f) := by
  induction l with
  | nil => exact Keeps.pure _
  | cons a l ih => exact (h a).bind fun _ => ih

theorem Keeps.mapM {f : α → EStateM ε σ β} (h : ∀ a, Keeps I (f a)) (l : List α) : Keeps I (l.mapM f) := by
  induction l with
  | nil => exact Keeps.pure _
  | cons a l ih =>
    rw [List.mapM_cons]
    exact (h a).bind fun _ => ih.bind fun _ => Keeps.pure _

/-- A loop that returns has come back from each of its turns. -/
theorem forM_returned {R : σ → σ → Prop} (hrefl : ∀ s, R s s) (htrans : ∀ {a b c}, R a b → R b c → R a c)
    {f : α → EStateM ε σ PUnit} (hR : ∀ s₀ a, Keeps (R s₀) (f a)) {l : List α} {s s' : σ}
    (h : l.forM f s = .ok ⟨⟩ s') {a : α} (ha : a ∈ l) :
    ∃ s₁ s₂, f a s₁ = .ok ⟨⟩ s₂ ∧ R s s₁ ∧ R s₂ s' := by
  induction l generalizing s with
  | nil => cases ha
  | cons b l ih =>
    obtain ⟨_, s₀, hb, hrest⟩ := bind_ok_iff.1 h
    rcases List.mem_cons.1 ha with rfl | ha
    · exact ⟨s, s₀, hb, hrefl s, (Keeps.forM (hR s₀) l).ok (hrefl s₀) hrest⟩
    · obtain ⟨s₁, s₂, hturn, hto, hfrom⟩ := ih hrest ha
      exact ⟨s₁, s₂, hturn, htrans ((hR s b).ok (hrefl s) hb) hto, hfrom⟩

/-! ## Two runs that end alike -/

variable {τ : Type} {R : σ → τ → Prop}

/-- Both runs return, in related states, or both throw. -/
def Alike (R : σ → τ → Prop) : EStateM.Result ε σ α → EStateM.Result ε τ β → Prop
  | .ok _ s, .ok _ t => R s t
  | .error _ _, .error _ _ => True
  | _, _ => False

theorem Alike.imp {r : EStateM.Result ε σ α} {r' : EStateM.Result ε τ β} {Q : σ → τ → Prop}
    (h : Alike R r r') (hRQ : ∀ {s t}, R s t → Q s t) : Alike Q r r' := by
  cases r <;> cases r'
  · exact hRQ h
  · exact h
  · exact h
  · trivial

/-- Two loops whose turns keep the relation. -/
theorem Alike.forM {f : α → EStateM ε σ PUnit} {g : α → EStateM ε τ PUnit} (l : List α)
    (h : ∀ a ∈ l, ∀ s t, R s t → Alike R (f a s) (g a t)) {s : σ} {t : τ} (hst : R s t) :
    Alike R (l.forM f s) (l.forM g t) := by
  induction l generalizing s t with
  | nil => exact hst
  | cons a l ih =>
    have hturn := h a List.mem_cons_self s t hst
    show Alike R (EStateM.bind (f a) (fun _ => l.forM f) s) (EStateM.bind (g a) (fun _ => l.forM g) t)
    unfold EStateM.bind
    cases hf : f a s with
    | ok u s' =>
      cases hg : g a t with
      | ok v t' =>
        rw [hf, hg] at hturn
        exact ih (fun b hb => h b (List.mem_cons_of_mem _ hb)) hturn
      | error e t' => rw [hf, hg] at hturn; exact hturn.elim
    | error e s' =>
      cases hg : g a t with
      | ok v t' => rw [hf, hg] at hturn; exact hturn.elim
      | error e' t' => trivial

end Lib
