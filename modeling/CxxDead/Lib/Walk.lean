import CxxDead.Lib.Throwing
import Mathlib.Data.List.TakeDrop
import Mathlib.Logic.Relation
/-!
# Walks over a tree

A walk visits a node, in a context that it has from the node's parent, and then
the node's children in order. A visit changes the state, may throw, and says
whether the walk goes on below the node and in which context it comes to each
child.

- `walk_keeps`: a walk keeps what its visits keep.
- `Visits.returned`: if a walk returns then so has each of its visits, and what
  the visits keep holds from there to the end.
-/

namespace Lib

/-- A tree whose nodes have any number of children. -/
inductive Rose (α : Type) where
  | node (label : α) (children : List (Rose α))

namespace Rose

variable {α : Type}

def label : Rose α → α
  | node a _ => a

def children : Rose α → List (Rose α)
  | node _ ts => ts

mutual

/-- The labels, each before those below it. -/
def labels : Rose α → List α
  | node a ts => a :: labelsOf ts

def labelsOf : List (Rose α) → List α
  | [] => []
  | t :: ts => labels t ++ labelsOf ts

end

variable {β : Type} (f : α → β)

mutual

def map : Rose α → Rose β
  | node a ts => node (f a) (mapAll ts)

def mapAll : List (Rose α) → List (Rose β)
  | [] => []
  | t :: ts => map t :: mapAll ts

end

theorem mapAll_eq (ts : List (Rose α)) : mapAll f ts = ts.map (map f) := by
  induction ts with
  | nil => rfl
  | cons t ts ih => rw [mapAll, ih, List.map_cons]

theorem label_map (t : Rose α) : (t.map f).label = f t.label := by
  cases t
  rfl

theorem children_map (t : Rose α) : (t.map f).children = t.children.map (map f) := by
  cases t
  exact mapAll_eq f _

end Rose

section Walk
variable {α ι ε σ : Type} (visit : Rose α → ι → EStateM ε σ (Option (Nat → ι)))

mutual

/-- Visit a node, and go on below it unless the visit says to stop. -/
def walk : Rose α → ι → EStateM ε σ Unit
  | .node a ts, i => do
    match ← visit (.node a ts) i with
    | none => pure ()
    | some context => walkAll ts context

/-- Walk over siblings; `context` gives the context of each by its position. -/
def walkAll : List (Rose α) → (Nat → ι) → EStateM ε σ Unit
  | [], _ => pure ()
  | t :: ts, context => do
    walk t (context 0)
    walkAll ts fun k => context (k + 1)

end

/-! ## What a walk keeps -/

variable {visit} {I : σ → Prop}

mutual

theorem walk_keeps (h : ∀ t i, Keeps I (visit t i)) : ∀ t i, Keeps I (walk visit t i)
  | .node a ts, i => by
    unfold walk
    refine (h _ i).bind fun below => ?_
    cases below with
    | none => exact Keeps.pure _
    | some context => exact walkAll_keeps h ts context

theorem walkAll_keeps (h : ∀ t i, Keeps I (visit t i)) : ∀ ts context, Keeps I (walkAll visit ts context)
  | [], _ => Keeps.pure _
  | t :: ts, context => by
    unfold walkAll
    exact (walk_keeps h t _).bind fun _ => walkAll_keeps h ts _

end

/-! ## The visits of a walk -/

/-- Where a walk is: at a node, in a context and a state. -/
abbrev Position (α ι σ : Type) := Rose α × ι × σ

/-- The walk goes from a node to one of its children, once it is through with the siblings before it. -/
def Descends (visit : Rose α → ι → EStateM ε σ (Option (Nat → ι))) (p q : Position α ι σ) : Prop :=
  ∃ context s k, visit p.1 p.2.1 p.2.2 = .ok (some context) s ∧ p.1.children[k]? = some q.1 ∧ q.2.1 = context k ∧
    walkAll visit (p.1.children.take k) context s = .ok () q.2.2

/-- A walk that starts at `p` comes to `q`. -/
def Visits (visit : Rose α → ι → EStateM ε σ (Option (Nat → ι))) : Position α ι σ → Position α ι σ → Prop :=
  Relation.ReflTransGen (Descends visit)

theorem walk_ok {t : Rose α} {i : ι} {s s' : σ} (h : walk visit t i s = .ok () s') :
    ∃ below s₀, visit t i s = .ok below s₀ ∧
      match below with
      | none => s₀ = s'
      | some context => walkAll visit t.children context s₀ = .ok () s' := by
  cases t with
  | node a ts =>
    unfold walk at h
    obtain ⟨below, s₀, hvisit, hrest⟩ := bind_ok_iff.1 h
    refine ⟨below, s₀, hvisit, ?_⟩
    cases below with
    | none => exact (pure_ok_iff.1 hrest).2
    | some context => exact hrest

/-- The walk over siblings, cut at one of them. -/
theorem walkAll_split {ts : List (Rose α)} {t : Rose α} {context : Nat → ι} {s s' s₀ : σ} {k : Nat}
    (hk : ts[k]? = some t) (hbefore : walkAll visit (ts.take k) context s = .ok () s₀)
    (h : walkAll visit ts context s = .ok () s') :
    ∃ s₁, walk visit t (context k) s₀ = .ok () s₁ ∧ ∃ ts' context', walkAll visit ts' context' s₁ = .ok () s' := by
  induction ts generalizing context s k with
  | nil => cases hk
  | cons first ts ih =>
    unfold walkAll at h
    obtain ⟨_, s₁, hfirst, hrest⟩ := bind_ok_iff.1 h
    cases k with
    | zero =>
      cases hk
      rw [List.take_zero] at hbefore
      obtain ⟨-, rfl⟩ := pure_ok_iff.1 hbefore
      exact ⟨s₁, hfirst, ts, _, hrest⟩
    | succ k =>
      rw [List.take_succ_cons] at hbefore
      unfold walkAll at hbefore
      obtain ⟨_, s₂, hfirst', hbefore⟩ := bind_ok_iff.1 hbefore
      rw [hfirst] at hfirst'
      cases hfirst'
      rw [List.getElem?_cons_succ] at hk
      have hlater := ih hk hbefore hrest
      exact hlater

/-- The walk below a child returns if the walk does, and what visits keep holds on the way to it and after it. -/
theorem Descends.returned {R : σ → σ → Prop} (hrefl : ∀ s, R s s) (htrans : ∀ {a b c}, R a b → R b c → R a c)
    (hR : ∀ s₀ t i, Keeps (R s₀) (visit t i)) {p q : Position α ι σ} (h : Descends visit p q) {s' : σ}
    (hwalk : walk visit p.1 p.2.1 p.2.2 = .ok () s') :
    ∃ s₁, walk visit q.1 q.2.1 q.2.2 = .ok () s₁ ∧ R p.2.2 q.2.2 ∧ R s₁ s' := by
  obtain ⟨context, s, k, hvisit, hk, hcontext, hbefore⟩ := h
  obtain ⟨below, s₀, hvisit', hbelow⟩ := walk_ok hwalk
  rw [hvisit] at hvisit'
  cases hvisit'
  obtain ⟨s₁, hq, ts', context', hafter⟩ := walkAll_split hk hbefore hbelow
  refine ⟨s₁, by rw [hcontext]; exact hq, ?_, ?_⟩
  · exact htrans ((hR _ _ _).ok (hrefl _) hvisit) ((walkAll_keeps (hR _) _ _).ok (hrefl _) hbefore)
  · exact (walkAll_keeps (hR _) _ _).ok (hrefl _) hafter

theorem Visits.returned {R : σ → σ → Prop} (hrefl : ∀ s, R s s) (htrans : ∀ {a b c}, R a b → R b c → R a c)
    (hR : ∀ s₀ t i, Keeps (R s₀) (visit t i)) {p q : Position α ι σ} (h : Visits visit p q) {s' : σ}
    (hwalk : walk visit p.1 p.2.1 p.2.2 = .ok () s') :
    ∃ below s₁, visit q.1 q.2.1 q.2.2 = .ok below s₁ ∧ R p.2.2 q.2.2 ∧ R s₁ s' := by
  have hsub : ∃ s₁, walk visit q.1 q.2.1 q.2.2 = .ok () s₁ ∧ R p.2.2 q.2.2 ∧ R s₁ s' := by
    induction h with
    | refl => exact ⟨s', hwalk, hrefl _, hrefl _⟩
    | tail _ hlast ih =>
      obtain ⟨s₁, hmid, hto, hfrom⟩ := ih
      obtain ⟨s₂, hq, hto', hfrom'⟩ := hlast.returned hrefl htrans hR hmid
      exact ⟨s₂, hq, htrans hto hto', htrans hfrom' hfrom⟩
  obtain ⟨s₁, hq, hto, hfrom⟩ := hsub
  obtain ⟨below, s₀, hvisit, hbelow⟩ := walk_ok hq
  refine ⟨below, s₀, hvisit, hto, ?_⟩
  cases below with
  | none =>
    obtain rfl : s₀ = s₁ := hbelow
    exact hfrom
  | some context => exact htrans ((walkAll_keeps (hR _) _ _).ok (hrefl _) hbelow) hfrom

end Walk

end Lib
