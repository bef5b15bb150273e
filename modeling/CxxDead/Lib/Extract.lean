import Mathlib.Data.List.Basic
/-!
# Reading back what was written

A reader takes its value off the front of a text, or throws. `Reads m text p a`
says that `m`, on `text` and whatever follows, gives `a` and leaves what follows
if `p` holds, and throws otherwise. Separators in front do not matter, as for
formatted stream input.

- `Reads.bind`: a text read piece by piece.
- `Reads.loop`: a piece for each element of a list.
-/

namespace Lib

variable {τ ε α β : Type}

/-- Take a value off the front of a text, or throw. -/
abbrev Reader (τ ε : Type) := StateT (List τ) (Except ε)

/-- On `text`, `m` gives `a` and leaves what follows, exactly if `p` holds. -/
def Reads (isSpace : τ → Bool) (m : Reader τ ε α) (text : List τ) (p : Prop) (a : α) : Prop :=
  ∀ s rest, s.dropWhile isSpace = (text ++ rest).dropWhile isSpace →
    (p → ∃ s', m.run s = .ok (a, s') ∧ s'.dropWhile isSpace = rest.dropWhile isSpace) ∧
    (¬ p → ∃ e, m.run s = .error e)

variable {isSpace : τ → Bool} {p q : Prop} {a : α} {b : β} {text : List τ}

theorem Reads.pure (a : α) : Reads isSpace (Pure.pure a : Reader τ ε α) [] True a :=
  fun s _ h => ⟨fun _ => ⟨s, rfl, h⟩, fun h => absurd trivial h⟩

theorem Reads.congr {m : Reader τ ε α} (h : Reads isSpace m text p a) (hp : p ↔ q) : Reads isSpace m text q a :=
  fun s rest hs => ⟨fun hq => (h s rest hs).1 (hp.2 hq), fun hq => (h s rest hs).2 fun hp' => hq (hp.1 hp')⟩

/-- Read one piece, then the next. -/
theorem Reads.bind {m : Reader τ ε α} {f : α → Reader τ ε β} {rest : List τ} (hm : Reads isSpace m text p a)
    (hf : p → Reads isSpace (f a) rest q b) : Reads isSpace (m >>= f) (text ++ rest) (p ∧ q) b := by
  intro s after hs
  rw [List.append_assoc] at hs
  obtain ⟨hok, herror⟩ := hm s (rest ++ after) hs
  by_cases hp : p
  · obtain ⟨s', hrun, hleft⟩ := hok hp
    have hbind : (m >>= f).run s = (f a).run s' := by
      show (m.run s >>= _) = _
      rw [hrun]
      rfl
    obtain ⟨hok', herror'⟩ := hf hp s' after hleft
    rw [hbind]
    exact ⟨fun h => hok' h.2, fun h => herror' fun hq => h ⟨hp, hq⟩⟩
  · obtain ⟨e, hrun⟩ := herror hp
    refine ⟨fun h => absurd h.1 hp, fun _ => ⟨e, ?_⟩⟩
    show (m.run s >>= _) = _
    rw [hrun]
    rfl

/-- Read a piece that is always accepted, then the next. -/
theorem Reads.next {m : Reader τ ε α} {f : α → Reader τ ε β} {rest : List τ} (hm : Reads isSpace m text True a)
    (hf : Reads isSpace (f a) rest q b) : Reads isSpace (m >>= f) (text ++ rest) q b :=
  (hm.bind fun _ => hf).congr (iff_of_eq (true_and q))

/-- Read a piece, then something that needs no more text. -/
theorem Reads.last {m : Reader τ ε α} {f : α → Reader τ ε β} (hm : Reads isSpace m text p a)
    (hf : p → Reads isSpace (f a) [] q b) : Reads isSpace (m >>= f) text (p ∧ q) b := by
  have h := hm.bind hf
  rwa [List.append_nil] at h

theorem Reads.done {m : Reader τ ε α} (f : α → β) (h : Reads isSpace m text p a) :
    Reads isSpace (m >>= fun a => Pure.pure (f a)) text p (f a) :=
  (h.last fun _ => .pure (f a)).congr (iff_of_eq (and_true p))

theorem Reads.map {m : Reader τ ε α} (f : α → β) (h : Reads isSpace m text p a) :
    Reads isSpace (f <$> m) text p (f a) := by
  rw [map_eq_pure_bind]
  exact h.done f

/-- A check that throws. -/
theorem Reads.check {c : Prop} [Decidable c] {e : ε} {m : Reader τ ε α} (h : Reads isSpace m text p a) :
    Reads isSpace (if c then throw e else m) text (¬ c ∧ p) a := by
  intro s rest hs
  split
  · rename_i hc
    exact ⟨fun h => absurd hc h.1, fun _ => ⟨e, rfl⟩⟩
  · rename_i hc
    obtain ⟨hok, herror⟩ := h s rest hs
    exact ⟨fun hp => hok hp.2, fun hp => herror fun hp' => hp ⟨hc, hp'⟩⟩

/-- A separator after a piece. -/
theorem Reads.sep {m : Reader τ ε α} (h : Reads isSpace m text p a) {c : τ} (hc : isSpace c = true) :
    Reads isSpace m (text ++ [c]) p a := by
  intro s rest hs
  rw [List.append_assoc] at hs
  have hrest := h s _ hs
  rwa [List.singleton_append, List.dropWhile_cons_of_pos hc] at hrest

/-! ## What a reader gives -/

theorem run_bind {m : Reader τ ε α} {f : α → Reader τ ε β} {s : List τ} :
    (m >>= f).run s = m.run s >>= fun p => (f p.1).run p.2 := rfl

theorem run_bind_ok {m : Reader τ ε α} {f : α → Reader τ ε β} {s r : List τ} {b : β} :
    (m >>= f).run s = .ok (b, r) ↔ ∃ a r', m.run s = .ok (a, r') ∧ (f a).run r' = .ok (b, r) := by
  rw [run_bind]
  constructor
  · intro h
    cases hm : m.run s with
    | error e =>
      rw [hm] at h
      cases h
    | ok p =>
      rw [hm] at h
      exact ⟨p.1, p.2, rfl, h⟩
  · rintro ⟨a, r', hm, hf⟩
    rw [hm]
    exact hf

/-- Whatever it reads, `m` gives nothing but values with `P`. -/
def Yields (m : Reader τ ε α) (P : α → Prop) : Prop := ∀ s a r, m.run s = .ok (a, r) → P a

section Yields
variable {P : α → Prop} {Q : β → Prop}

theorem Yields.pure {a : α} (h : P a) : Yields (Pure.pure a : Reader τ ε α) P := by
  intro s b r hrun
  cases hrun
  exact h

theorem Yields.throw (e : ε) : Yields (throw e : Reader τ ε α) P := fun _ _ _ hrun => nomatch hrun

theorem Yields.bind {m : Reader τ ε α} {f : α → Reader τ ε β} (hm : Yields m P) (hf : ∀ a, P a → Yields (f a) Q) :
    Yields (m >>= f) Q := by
  intro s b r hrun
  obtain ⟨a, r', hfirst, hsecond⟩ := run_bind_ok.1 hrun
  exact hf a (hm s a r' hfirst) r' b r hsecond

/-- What is read first does not matter. -/
theorem Yields.skip {m : Reader τ ε α} {f : α → Reader τ ε β} (hf : ∀ a, Yields (f a) Q) : Yields (m >>= f) Q :=
  Yields.bind (P := fun _ => True) (fun _ _ _ _ => trivial) fun a _ => hf a

end Yields

/-! ## Loops -/

variable {σ : Type}

/-- Read `n` pieces into a state. -/
def readLoop (m : σ → Reader τ ε σ) : Nat → σ → Reader τ ε σ
  | 0, s => Pure.pure s
  | n + 1, s => do
    let s' ← m s
    readLoop m n s'

theorem Yields.loop {m : σ → Reader τ ε σ} {P : σ → Prop} (h : ∀ s, P s → Yields (m s) P) :
    ∀ n s, P s → Yields (readLoop m n s) P
  | 0, _, hs => .pure hs
  | n + 1, s, hs => (h s hs).bind fun s' hs' => Yields.loop h n s' hs'

/-- A piece for each element of `l`, where `state` says what the elements so far make. -/
theorem Reads.loop {m : σ → Reader τ ε σ} {print : α → List τ} {ok : α → Prop} (state : List α → σ) (l : List α)
    (h : ∀ init a rest, init ++ a :: rest = l →
      Reads isSpace (m (state init)) (print a) (ok a) (state (init ++ [a]))) :
    Reads isSpace (readLoop m l.length (state [])) (l.flatMap print) (∀ a ∈ l, ok a) (state l) := by
  suffices hgen : ∀ todo init, init ++ todo = l →
      Reads isSpace (readLoop m todo.length (state init)) (todo.flatMap print) (∀ a ∈ todo, ok a) (state l) from
    hgen l [] rfl
  intro todo
  induction todo with
  | nil =>
    intro init hl
    rw [List.append_nil] at hl
    rw [hl]
    exact (Reads.pure _).congr (by simp)
  | cons a todo ih =>
    intro init hl
    have hnext := ih (init ++ [a]) (by rw [List.append_assoc]; exact hl)
    exact ((h init a todo hl).bind fun _ => hnext).congr (by simp)

/-- Pieces that go to the back of a list. -/
theorem Reads.collect {m : List β → Reader τ ε (List β)} {print : α → List τ} {ok : α → Prop} (view : α → β)
    (l : List α) (h : ∀ a ∈ l, ∀ s, Reads isSpace (m s) (print a) (ok a) (s ++ [view a])) :
    Reads isSpace (readLoop m l.length []) (l.flatMap print) (∀ a ∈ l, ok a) (l.map view) := by
  refine Reads.loop (fun init => init.map view) l fun init a rest hl => ?_
  rw [List.map_append, List.map_singleton]
  exact h a (by rw [← hl]; simp) _

end Lib
