import Mathlib.Data.List.Basic
import Mathlib.Data.List.Nodup
import Mathlib.Data.List.Perm.Basic
import Mathlib.Logic.Relation
/-!
# Recursive depth-first search

`visit` goes through the `steps` of a node in order: a note is written down, another
node is visited unless its key was. The recursion takes a bound on its depth.

- `visit_spec`: a visit lists the nodes that it reaches, each key once, with their notes.
- `visit_returns`: a bound above the number of unvisited keys is enough.
-/

namespace Lib

namespace DepthFirst

open Relation

variable {α κ ν : Type}

structure State (α κ ν : Type) where
  visited : List κ := []
  order : List α := []
  notes : List ν := []

section Defs
variable (key : α → κ) (steps : α → List (ν ⊕ α))

def visit [DecidableEq κ] : Nat → α → State α κ ν → Option (State α κ ν)
  | 0, _, _ => none
  | fuel + 1, a, s =>
    if key a ∈ s.visited then some s
    else
      (steps a).foldlM
        (fun s step =>
          match step with
          | .inl note => some { s with notes := s.notes ++ [note] }
          | .inr b => visit fuel b s)
        { s with visited := key a :: s.visited, order := s.order ++ [a] }

/-- One turn of the loop over the steps. -/
def take [DecidableEq κ] (fuel : Nat) (s : State α κ ν) : ν ⊕ α → Option (State α κ ν)
  | .inl note => some { s with notes := s.notes ++ [note] }
  | .inr b => visit key steps fuel b s

def Step (a b : α) : Prop := .inr b ∈ steps a

def notesOf (a : α) : List ν := (steps a).filterMap Sum.getLeft?

def enter (a : α) (s : State α κ ν) : State α κ ν := { s with visited := key a :: s.visited, order := s.order ++ [a] }

end Defs

variable {key : α → κ} {steps : α → List (ν ⊕ α)} {s s' s'' : State α κ ν} {fuel fuel' : Nat} {a b : α}

/-! ## What a visit adds -/

/-- `s'` is `s` with the nodes `new` and the notes `notes`. -/
structure Grows (key : α → κ) (s s' : State α κ ν) (new : List α) (notes : List ν) : Prop where
  order : s'.order = s.order ++ new
  visited : ∀ k, k ∈ s'.visited ↔ k ∈ s.visited ∨ k ∈ new.map key
  nodup : (new.map key).Nodup
  fresh : ∀ b ∈ new, key b ∉ s.visited
  notes : s'.notes.Perm (s.notes ++ notes)

theorem Grows.refl (s : State α κ ν) : Grows key s s [] [] :=
  ⟨(List.append_nil _).symm, fun k => by simp, List.nodup_nil, fun b hb => absurd hb List.not_mem_nil,
    .of_eq (List.append_nil _).symm⟩

theorem Grows.trans {new new' : List α} {notes notes' : List ν} (h : Grows key s s' new notes)
    (h' : Grows key s' s'' new' notes') : Grows key s s'' (new ++ new') (notes ++ notes') := by
  refine ⟨?_, fun k => ?_, ?_, fun b hb => ?_, ?_⟩
  · rw [h'.order, h.order, List.append_assoc]
  · rw [h'.visited, h.visited, List.map_append, List.mem_append, or_assoc]
  · rw [List.map_append, List.nodup_append']
    refine ⟨h.nodup, h'.nodup, fun k hk hk' => ?_⟩
    obtain ⟨b, hb, rfl⟩ := List.mem_map.1 hk'
    exact h'.fresh b hb ((h.visited _).2 (.inr hk))
  · rcases List.mem_append.1 hb with hb | hb
    · exact h.fresh b hb
    · exact fun hk => h'.fresh b hb ((h.visited _).2 (.inl hk))
  · rw [← List.append_assoc]
    exact h'.notes.trans (h.notes.append_right _)

theorem Grows.mono {new : List α} {notes : List ν} (h : Grows key s s' new notes) {k : κ} (hk : k ∈ s.visited) :
    k ∈ s'.visited :=
  (h.visited k).2 (.inl hk)

theorem enter_grows (ha : key a ∉ s.visited) : Grows key s (enter key a s) [a] [] :=
  ⟨rfl, fun k => by rw [enter, List.mem_cons, List.map_singleton, List.mem_singleton, or_comm], List.nodup_singleton _,
    fun b hb => List.mem_singleton.1 hb ▸ ha, .of_eq (List.append_nil _).symm⟩

/-- A visit of `a` has added `new`: all reached from `a`, with every step of theirs visited. -/
structure Visits (key : α → κ) (steps : α → List (ν ⊕ α)) (a : α) (s s' : State α κ ν) (new : List α) : Prop where
  grows : Grows key s s' new (new.flatMap (notesOf steps))
  entered : key a ∈ s'.visited
  reached : ∀ b ∈ new, ReflTransGen (Step steps) a b
  closed : ∀ b ∈ new, ∀ c, Step steps b c → key c ∈ s'.visited

variable [DecidableEq κ]

theorem visit_succ (fuel : Nat) (a : α) (s : State α κ ν) :
    visit key steps (fuel + 1) a s =
      if key a ∈ s.visited then some s else (steps a).foldlM (take key steps fuel) (enter key a s) := by
  rw [visit]
  congr 2

/-- A loop over some steps, whose visits are as they should be. -/
theorem foldlM_spec (hvisit : ∀ {b : α} {s s' : State α κ ν}, visit key steps fuel b s = some s' → ∃ new, Visits key steps b s s' new)
    (l : List (ν ⊕ α)) {s s' : State α κ ν} (h : l.foldlM (take key steps fuel) s = some s') :
    ∃ new notes, Grows key s s' new notes ∧ notes.Perm (l.filterMap Sum.getLeft? ++ new.flatMap (notesOf steps)) ∧
      (∀ c, .inr c ∈ l → key c ∈ s'.visited) ∧ (∀ b ∈ new, ∃ c, .inr c ∈ l ∧ ReflTransGen (Step steps) c b) ∧
      ∀ b ∈ new, ∀ c, Step steps b c → key c ∈ s'.visited := by
  induction l generalizing s with
  | nil =>
    cases h
    exact ⟨[], [], .refl _, .refl _, by simp, by simp, by simp⟩
  | cons step l ih =>
    rw [List.foldlM_cons, Option.bind_eq_bind, Option.bind_eq_some_iff] at h
    obtain ⟨mid, hstep, hrest⟩ := h
    obtain ⟨new, notes, hgrows, hnotes, hentered, hreached, hclosed⟩ := ih hrest
    cases step with
    | inl note =>
      cases hstep
      refine ⟨new, note :: notes, ⟨hgrows.order, hgrows.visited, hgrows.nodup, hgrows.fresh, ?_⟩, ?_, ?_, ?_, hclosed⟩
      · simpa only [List.append_assoc, List.singleton_append] using hgrows.notes
      · simpa using hnotes
      · intro c hc
        exact hentered c (by simpa using hc)
      · intro b hb
        obtain ⟨c, hc, hcb⟩ := hreached b hb
        exact ⟨c, List.mem_cons_of_mem _ hc, hcb⟩
    | inr c =>
      obtain ⟨first, hfirst⟩ := hvisit hstep
      refine ⟨first ++ new, _, hfirst.grows.trans hgrows, ?_, ?_, ?_, ?_⟩
      · rw [List.flatMap_append]
        refine ((hnotes.append_left _).trans ?_)
        rw [← List.append_assoc, ← List.append_assoc]
        exact (List.perm_append_comm).append_right _
      · intro d hd
        rcases List.mem_cons.1 hd with hd | hd
        · cases hd
          exact hgrows.mono hfirst.entered
        · exact hentered d hd
      · intro b hb
        rcases List.mem_append.1 hb with hb | hb
        · exact ⟨c, List.mem_cons_self, hfirst.reached b hb⟩
        · obtain ⟨d, hd, hdb⟩ := hreached b hb
          exact ⟨d, List.mem_cons_of_mem _ hd, hdb⟩
      · intro b hb d hbd
        rcases List.mem_append.1 hb with hb | hb
        · exact hgrows.mono (hfirst.closed b hb d hbd)
        · exact hclosed b hb d hbd

theorem visit_visits (h : visit key steps fuel a s = some s') : ∃ new, Visits key steps a s s' new := by
  induction fuel generalizing a s s' with
  | zero => cases h
  | succ fuel ih =>
    rw [visit_succ] at h
    split at h
    · rename_i ha
      cases h
      exact ⟨[], .refl s, ha, by simp, by simp⟩
    · rename_i ha
      obtain ⟨new, notes, hgrows, hnotes, hentered, hreached, hclosed⟩ := foldlM_spec ih (steps a) h
      have hall := (enter_grows ha).trans hgrows
      refine ⟨a :: new, ⟨hall.order, hall.visited, hall.nodup, hall.fresh, hall.notes.trans (hnotes.append_left _)⟩,
        hgrows.mono List.mem_cons_self, ?_, ?_⟩
      · intro b hb
        rcases List.mem_cons.1 hb with rfl | hb
        · exact .refl
        · obtain ⟨c, hc, hcb⟩ := hreached b hb
          exact .head hc hcb
      · intro b hb c hbc
        rcases List.mem_cons.1 hb with rfl | hb
        · exact hentered c hbc
        · exact hclosed b hb c hbc

/-- A visit from nothing lists the nodes that are reached, each once, if keys tell them apart. -/
theorem visit_spec (hinj : ∀ b c, ReflTransGen (Step steps) a b → ReflTransGen (Step steps) a c → key b = key c → b = c)
    (h : visit key steps fuel a {} = some s) :
    (s.order.map key).Nodup ∧ (∀ b, b ∈ s.order ↔ ReflTransGen (Step steps) a b) ∧
      s.notes.Perm (s.order.flatMap (notesOf steps)) := by
  obtain ⟨new, hvisits⟩ := visit_visits h
  have horder : s.order = new := hvisits.grows.order
  have hmem : ∀ {c}, ReflTransGen (Step steps) a c → key c ∈ s.visited → c ∈ new := by
    intro c hac hc
    rcases (hvisits.grows.visited _).1 hc with hnil | hc
    · exact absurd hnil List.not_mem_nil
    · obtain ⟨b, hb, hkey⟩ := List.mem_map.1 hc
      exact hinj b c (hvisits.reached b hb) hac hkey ▸ hb
  rw [horder]
  refine ⟨hvisits.grows.nodup, fun b => ⟨hvisits.reached b, fun hab => ?_⟩, hvisits.grows.notes⟩
  induction hab with
  | refl => exact hmem .refl hvisits.entered
  | tail hab hbc ih => exact hmem (hab.tail hbc) (hvisits.closed _ ih _ hbc)

/-! ## The bound on the depth -/

/-- The keys that are still to be visited. -/
def unvisited (keys : List κ) (s : State α κ ν) : Nat := keys.countP fun k => decide (k ∉ s.visited)

theorem Grows.unvisited_le {keys : List κ} {new : List α} {notes : List ν} (h : Grows key s s' new notes) :
    unvisited keys s' ≤ unvisited keys s :=
  List.countP_mono_left fun k _ hk => by
    simp only [decide_eq_true_eq] at hk ⊢
    exact fun hold => hk (h.mono hold)

theorem unvisited_enter {keys : List κ} (hkey : key a ∈ keys) (ha : key a ∉ s.visited) :
    unvisited keys (enter key a s) < unvisited keys s := by
  unfold unvisited
  induction keys with
  | nil => cases hkey
  | cons k keys ih =>
    have hle : keys.countP (fun k => decide (k ∉ (enter key a s).visited)) ≤
        keys.countP (fun k => decide (k ∉ s.visited)) := (enter_grows ha).unvisited_le
    rw [List.countP_cons, List.countP_cons]
    by_cases hk : k = key a
    · subst hk
      simp only [enter, List.mem_cons_self, not_true_eq_false, decide_false, ha, not_false_eq_true, decide_true] at hle ⊢
      simp only [Bool.false_eq_true, if_false, if_true]
      omega
    · have hlt := ih ((List.mem_cons.1 hkey).resolve_left (Ne.symm hk))
      have hsame : decide (k ∉ (enter key a s).visited) = decide (k ∉ s.visited) := by
        simp only [enter, List.mem_cons, hk, false_or]
      rw [hsame]
      omega

theorem visit_returns {keys : List κ} (hkeys : ∀ b, ReflTransGen (Step steps) a b → key b ∈ keys)
    (hfuel : unvisited keys s < fuel) : ∃ s', visit key steps fuel a s = some s' := by
  induction fuel generalizing a s with
  | zero => omega
  | succ fuel ih =>
    rw [visit_succ]
    split
    · exact ⟨s, rfl⟩
    · rename_i ha
      have henter := unvisited_enter (hkeys a .refl) ha
      have hloop : ∀ (l : List (ν ⊕ α)) (t : State α κ ν), l ⊆ steps a → unvisited keys t < fuel →
          ∃ s', l.foldlM (take key steps fuel) t = some s' := by
        intro l
        induction l with
        | nil => exact fun t _ _ => ⟨t, rfl⟩
        | cons step l ihl =>
          intro t hsub ht
          obtain ⟨hstep, hrest⟩ := List.cons_subset.1 hsub
          have hturn : ∃ mid, take key steps fuel t step = some mid ∧ unvisited keys mid < fuel := by
            cases step with
            | inl note => exact ⟨_, rfl, ht⟩
            | inr b =>
              obtain ⟨mid, hmid⟩ := ih (fun c hbc => hkeys c (.head hstep hbc)) ht
              obtain ⟨new, hvisits⟩ := visit_visits hmid
              exact ⟨mid, hmid, Nat.lt_of_le_of_lt hvisits.grows.unvisited_le ht⟩
          obtain ⟨mid, hmid, hlt⟩ := hturn
          obtain ⟨s', hs'⟩ := ihl mid hrest hlt
          exact ⟨s', by rw [List.foldlM_cons, hmid]; exact hs'⟩
      exact hloop (steps a) _ (fun _ h => h) (by omega)

/-- A visit that returns does the same with a larger bound. -/
theorem visit_mono (hfuel : fuel ≤ fuel') (h : visit key steps fuel a s = some s') :
    visit key steps fuel' a s = some s' := by
  induction fuel generalizing fuel' a s s' with
  | zero => cases h
  | succ fuel ih =>
    obtain ⟨more, rfl⟩ : ∃ more, fuel' = more + 1 := ⟨fuel' - 1, by omega⟩
    rw [visit_succ] at h ⊢
    split
    · rename_i ha
      rwa [if_pos ha] at h
    · rename_i ha
      rw [if_neg ha] at h
      have hloop : ∀ (l : List (ν ⊕ α)) (t : State α κ ν), l.foldlM (take key steps fuel) t = some s' →
          l.foldlM (take key steps more) t = some s' := by
        intro l
        induction l with
        | nil => exact fun _ ht => ht
        | cons step l ihl =>
          intro t ht
          rw [List.foldlM_cons, Option.bind_eq_bind, Option.bind_eq_some_iff] at ht ⊢
          obtain ⟨mid, hstep, hrest⟩ := ht
          refine ⟨mid, ?_, ihl mid hrest⟩
          cases step with
          | inl note => exact hstep
          | inr b => exact ih (by omega) hstep
      exact hloop _ _ h

end DepthFirst

end Lib
