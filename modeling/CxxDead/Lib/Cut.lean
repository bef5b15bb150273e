import CxxDead.Lib.Extract
/-!
# Texts that break off

`Refuses m text` says that the reader `m` throws on each text that lacks some of the end
of `text`, separators apart. What a reader takes off the front of a text it also takes
off a longer one (`Scans`), unless it has come to the end.

- `Refuses.bind`: a cut in the first piece leaves nothing for the second.
- `Refuses.loop`: a piece for each element of a list.
-/

namespace Lib

variable {τ ε α β σ : Type}

/-! ## Longer texts -/

/-- There is nothing to read. -/
def Starves (m : Reader τ ε α) : Prop := ∃ e, m.run [] = .error e

/-- What `m` does on longer texts. -/
structure Scans (isSpace : τ → Bool) (m : Reader τ ε α) : Prop where
  shorter : ∀ {s a r}, m.run s = .ok (a, r) → r.length ≤ s.length
  /-- Nothing changes with what comes behind, unless `m` has come to the end. -/
  longer : ∀ {s a r}, m.run s = .ok (a, r) → r ≠ [] → ∀ v, m.run (s ++ v) = .ok (a, r ++ v)
  spaces : ∀ s w, (∀ c ∈ w, isSpace c = true) → m.run (s ++ w) = (m.run s).map fun p => (p.1, p.2 ++ w)

namespace Scans

variable {isSpace : τ → Bool}

theorem pure (a : α) : Scans isSpace (Pure.pure a : Reader τ ε α) := by
  refine ⟨?_, ?_, fun _ _ _ => rfl⟩
  · intro s b r h
    cases h
    exact Nat.le_refl _
  · intro s b r h _ v
    cases h
    rfl

theorem throw (e : ε) : Scans isSpace (throw e : Reader τ ε α) :=
  ⟨fun h => (nomatch h), fun h => (nomatch h), fun _ _ _ => rfl⟩

theorem bind {m : Reader τ ε α} {f : α → Reader τ ε β} (hm : Scans isSpace m) (hf : ∀ a, Scans isSpace (f a)) :
    Scans isSpace (m >>= f) := by
  refine ⟨?_, ?_, ?_⟩
  · intro s b r h
    obtain ⟨a, r', hfirst, hsecond⟩ := run_bind_ok.1 h
    exact Nat.le_trans ((hf a).shorter hsecond) (hm.shorter hfirst)
  · intro s b r h hr v
    obtain ⟨a, r', hfirst, hsecond⟩ := run_bind_ok.1 h
    refine run_bind_ok.2 ⟨a, r' ++ v, hm.longer hfirst ?_ v, (hf a).longer hsecond hr v⟩
    rintro rfl
    exact hr (List.length_eq_zero_iff.1 (Nat.le_zero.1 ((hf a).shorter hsecond)))
  · intro s w hw
    rw [run_bind, run_bind, hm.spaces s w hw]
    cases m.run s with
    | error e => rfl
    | ok p => exact (hf p.1).spaces p.2 w hw

theorem map {m : Reader τ ε α} (f : α → β) (hm : Scans isSpace m) : Scans isSpace (f <$> m) := by
  rw [map_eq_pure_bind]
  exact hm.bind fun a => pure (f a)

theorem ite {c : Prop} [Decidable c] {m m' : Reader τ ε α} (h : Scans isSpace m) (h' : Scans isSpace m') :
    Scans isSpace (if c then m else m') := by
  split
  · exact h
  · exact h'

theorem loop {m : σ → Reader τ ε σ} (h : ∀ s, Scans isSpace (m s)) : ∀ n s, Scans isSpace (readLoop m n s)
  | 0, s => pure s
  | n + 1, s => (h s).bind fun s' => loop h n s'

end Scans

theorem Starves.bind {m : Reader τ ε α} {f : α → Reader τ ε β} (h : Starves m) : Starves (m >>= f) := by
  obtain ⟨e, he⟩ := h
  exact ⟨e, by rw [run_bind, he]; rfl⟩

theorem Starves.map {m : Reader τ ε α} (f : α → β) (h : Starves m) : Starves (f <$> m) := by
  rw [map_eq_pure_bind]
  exact h.bind

/-! ## Cuts -/

variable {isSpace : τ → Bool} {p : Prop} {a : α} {text rest : List τ}

/-- On a text that lacks some of the end of `text`, `m` throws. -/
def Refuses (isSpace : τ → Bool) (m : Reader τ ε α) (text : List τ) : Prop :=
  ∀ s v, (∃ c ∈ v, isSpace c = false) → (s ++ v).dropWhile isSpace = text.dropWhile isSpace → ∃ e, m.run s = .error e

/-- What `m` reads off the cut text is what it reads off the whole. -/
theorem Reads.cut {m : Reader τ ε α} (h : Reads isSpace m text p a) (hm : Scans isSpace m) {s v r : List τ} {a' : α}
    (hcut : (s ++ v).dropWhile isSpace = (text ++ rest).dropWhile isSpace) (hrun : m.run s = .ok (a', r)) (hr : r ≠ []) :
    p ∧ a' = a ∧ (r ++ v).dropWhile isSpace = rest.dropWhile isSpace := by
  have hlonger := hm.longer hrun hr v
  obtain ⟨hok, herror⟩ := h (s ++ v) rest hcut
  by_cases hp : p
  · obtain ⟨s', hrun', hleft⟩ := hok hp
    rw [hlonger] at hrun'
    cases hrun'
    exact ⟨hp, rfl, hleft⟩
  · obtain ⟨e, hrun'⟩ := herror hp
    rw [hlonger] at hrun'
    cases hrun'

/-- Where the cut is in the first piece `atEnd` says what becomes of the second. -/
theorem Refuses.bind_of {m : Reader τ ε α} {f : α → Reader τ ε β} (h : Reads isSpace m text p a) (hm : Scans isSpace m)
    (atEnd : ∀ s v a', (∃ c ∈ v, isSpace c = false) → (s ++ v).dropWhile isSpace = (text ++ rest).dropWhile isSpace →
      m.run s = .ok (a', []) → Starves (f a'))
    (hf : p → Refuses isSpace (f a) rest) : Refuses isSpace (m >>= f) (text ++ rest) := by
  intro s v hv hcut
  rw [run_bind]
  cases hrun : m.run s with
  | error e => exact ⟨e, rfl⟩
  | ok q =>
    obtain ⟨a', r⟩ := q
    by_cases hr : r = []
    · subst hr
      exact atEnd s v a' hv hcut hrun
    · obtain ⟨hp, rfl, hleft⟩ := h.cut hm hcut hrun hr
      exact hf hp r v hv hleft

theorem Refuses.bind {m : Reader τ ε α} {f : α → Reader τ ε β} (h : Reads isSpace m text p a) (hm : Scans isSpace m)
    (hstarves : ∀ a', Starves (f a')) (hf : p → Refuses isSpace (f a) rest) :
    Refuses isSpace (m >>= f) (text ++ rest) :=
  bind_of h hm (fun _ _ a' _ _ _ => hstarves a') hf

/-- What follows the last piece does not read. -/
theorem Refuses.before {m : Reader τ ε α} (f : α → Reader τ ε β) (h : Refuses isSpace m text) :
    Refuses isSpace (m >>= f) text := by
  intro s v hv hcut
  obtain ⟨e, he⟩ := h s v hv hcut
  exact ⟨e, by rw [run_bind, he]; rfl⟩

theorem Refuses.loop {m : σ → Reader τ ε σ} {print : α → List τ} {ok : α → Prop} (state : List α → σ) (l : List α)
    (hne : l ≠ []) (hm : ∀ s, Scans isSpace (m s)) (hstarves : ∀ s, Starves (m s))
    (h : ∀ init a rest, init ++ a :: rest = l →
      Reads isSpace (m (state init)) (print a) (ok a) (state (init ++ [a])))
    (hcut : ∀ init a, init ++ [a] = l → Refuses isSpace (m (state init)) (print a)) :
    Refuses isSpace (readLoop m l.length (state [])) (l.flatMap print) := by
  suffices hgen : ∀ todo init, init ++ todo = l → todo ≠ [] →
      Refuses isSpace (readLoop m todo.length (state init)) (todo.flatMap print) from hgen l [] rfl hne
  intro todo
  induction todo with
  | nil => exact fun _ _ hne => absurd rfl hne
  | cons a todo ih =>
    intro init hl _
    cases todo with
    | nil =>
      rw [List.flatMap_cons, List.flatMap_nil, List.append_nil]
      exact (hcut init a hl).before _
    | cons b todo =>
      have hnext := ih (init ++ [a]) (by rw [List.append_assoc]; exact hl) (List.cons_ne_nil _ _)
      exact Refuses.bind (h init a (b :: todo) hl) (hm _) (fun s => (hstarves s).bind) fun _ => hnext

end Lib
