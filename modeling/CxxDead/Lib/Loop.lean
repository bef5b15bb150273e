import Mathlib.Data.List.Basic
/-!
# Loops that take one event a turn

`Runs` lists the events of the turns so far and the state behind them. A loop goes
on while its condition holds.

- `Runs.invariant`: what every turn keeps.
- `Runs.split`: an earlier state of a run.
- `loop_eq_some_iff`: the loop ends where a run does.
-/

namespace Lib

variable {σ ε : Type} (step : σ → ε → σ) (continues : σ → Bool)

inductive Runs (start : σ) : List ε → σ → Prop where
  | start : Runs start [] start
  | turn {events : List ε} {s : σ} (h : Runs start events s) (hcontinues : continues s = true) (e : ε) :
      Runs start (events ++ [e]) (step s e)

/-- The state in which the loop ends, if the events last so long. -/
def loop : σ → List ε → Option σ
  | s, [] => if continues s then none else some s
  | s, e :: events => if continues s then loop (step s e) events else some s

namespace Runs

variable {step continues} {start s : σ} {events : List ε}

theorem invariant {P : List ε → σ → Prop} (hstart : P [] start)
    (hturn : ∀ events s e, continues s = true → P events s → P (events ++ [e]) (step s e))
    (h : Runs step continues start events s) : P events s := by
  induction h with
  | start => exact hstart
  | turn h hcontinues e ih => exact hturn _ _ e hcontinues ih

theorem state_eq (h : Runs step continues start events s) : s = events.foldl step start := by
  induction h with
  | start => rfl
  | turn h hcontinues e ih => rw [List.foldl_append, ← ih, List.foldl_cons, List.foldl_nil]

theorem cons {e : ε} (hcontinues : continues start = true) (h : Runs step continues (step start e) events s) :
    Runs step continues start (e :: events) s := by
  induction h with
  | start => exact Runs.turn .start hcontinues e
  | turn h hmore e' ih => exact ih.turn hmore e'

/-- The state behind the first events, from which the others lead on. -/
theorem split {before after : List ε} (h : Runs step continues start (before ++ after) s) :
    ∃ s', Runs step continues start before s' ∧ Runs step continues s' after s := by
  generalize hevents : before ++ after = events at h
  induction h generalizing after with
  | start =>
    obtain ⟨rfl, rfl⟩ := List.append_eq_nil_iff.1 hevents
    exact ⟨start, .start, .start⟩
  | turn h hcontinues e ih =>
    rcases List.eq_nil_or_concat after with rfl | ⟨after, e', rfl⟩
    · rw [List.append_nil] at hevents
      subst hevents
      exact ⟨_, h.turn hcontinues e, .start⟩
    · rw [List.concat_eq_append, ← List.append_assoc] at hevents
      obtain ⟨hbefore, hlast⟩ := List.append_inj' hevents rfl
      obtain rfl := List.singleton_inj.1 hlast
      obtain ⟨s', hfirst, hrest⟩ := ih hbefore
      rw [List.concat_eq_append]
      exact ⟨s', hfirst, hrest.turn hcontinues e'⟩

theorem uncons {e : ε} (h : Runs step continues start (e :: events) s) :
    continues start = true ∧ Runs step continues (step start e) events s := by
  rw [← List.singleton_append] at h
  obtain ⟨s', hfirst, hrest⟩ := split h
  generalize hone : [e] = one at hfirst
  cases hfirst with
  | start => exact absurd hone (List.cons_ne_nil _ _)
  | turn hnone hcontinues e' =>
    rename_i nothing t
    rw [← List.nil_append [e]] at hone
    obtain ⟨rfl, hlast⟩ := List.append_inj' hone rfl
    obtain rfl := List.singleton_inj.1 hlast
    obtain rfl : t = start := hnone.state_eq
    exact ⟨hcontinues, hrest⟩

end Runs

theorem loop_eq_some_iff {start s : σ} {events : List ε} : loop step continues start events = some s ↔
    ∃ ran rest, events = ran ++ rest ∧ Runs step continues start ran s ∧ continues s = false := by
  induction events generalizing start with
  | nil =>
    rw [loop]
    constructor
    · intro h
      split at h
      · cases h
      · rename_i hends
        obtain rfl := Option.some.inj h
        exact ⟨[], [], rfl, .start, Bool.eq_false_iff.2 hends⟩
    · rintro ⟨ran, rest, hnil, hran, hends⟩
      obtain ⟨rfl, -⟩ := List.append_eq_nil_iff.1 hnil.symm
      obtain rfl : s = start := hran.state_eq
      rw [hends, if_neg Bool.false_ne_true]
  | cons e events ih =>
    rw [loop]
    constructor
    · intro h
      split at h
      · rename_i hcontinues
        obtain ⟨ran, rest, rfl, hran, hends⟩ := ih.1 h
        exact ⟨e :: ran, rest, rfl, hran.cons hcontinues, hends⟩
      · rename_i hends
        obtain rfl := Option.some.inj h
        exact ⟨[], e :: events, rfl, .start, Bool.eq_false_iff.2 hends⟩
    · rintro ⟨ran, rest, hevents, hran, hends⟩
      cases ran with
      | nil =>
        obtain rfl : s = start := hran.state_eq
        rw [hends, if_neg Bool.false_ne_true]
      | cons e' ran =>
        obtain ⟨rfl, rfl⟩ := List.cons.inj hevents
        obtain ⟨hcontinues, hrest⟩ := hran.uncons
        rw [if_pos hcontinues]
        exact ih.2 ⟨ran, rest, rfl, hrest, hends⟩

end Lib
