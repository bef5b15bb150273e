import CxxDead.Canonical
/-!
# What the operations and the canonical form promise

- `Built.keeps`: every graph that the operations build keeps the invariant, and an
  operation that adds one thing and throws leaves the graph as it was.
- `canonicalize_normalForm`: graphs with the same facts by key have one canonical
  form, however the sorts place equal elements.
-/

namespace CxxDead

open Lib

/-! ## Operations that throw -/

/-- A throw leaves the graph as it was. -/
def Atomic {α : Type} (operation : GraphM α) (g : Graph) : Prop := ∀ e g', operation g = .error e g' → g' = g

theorem Atomic.guarded {α : Type} {p : Prop} [Decidable p] {e : Exception} {a : α} {g g' : Graph}
    {operation : GraphM α} (h : operation g = if p then .error e g else .ok a g') : Atomic operation g := by
  intro e' g'' herror
  rw [h] at herror
  split at herror
  · cases herror
    rfl
  · cases herror

/-- The invariant holds after any operations, those that threw included, and each of
the five that add something either adds it or changes nothing. -/
theorem Built.keeps {g : Graph} (h : Built g) :
    g.Inv ∧ (∀ symbol, Atomic (Graph.addOrMergeSymbol symbol) g) ∧
      (∀ source target kind evidence, Atomic (Graph.addEdge source target kind evidence) g) ∧
      (∀ id kind evidence, Atomic (Graph.addRoot id kind evidence) g) ∧
      (∀ id kind evidence origin, Atomic (Graph.addEscape id kind evidence origin) g) ∧
      (∀ id evidence, Atomic (Graph.addSuppression id evidence) g) :=
  ⟨h.inv, fun _ _ _ => Graph.addOrMergeSymbol_error, fun _ _ _ _ => .guarded rfl, fun _ _ _ => .guarded rfl,
    fun _ _ _ _ => .guarded rfl, fun _ _ => .guarded rfl⟩

/-- Two records of one key that disagree on the kind: the second one is refused. -/
def clashing : Graph :=
  endState (Graph.addOrMergeSymbol { key := lit "f", kind := .method })
    (endState (Graph.addOrMergeSymbol { key := lit "f" }) {})

theorem clashing_keeps : clashing.Inv ∧ clashing.symbols.length = 1 :=
  ⟨(Built.keeps (.addOrMergeSymbol _ (.addOrMergeSymbol _ .empty))).1, by decide⟩

namespace Graph

/-! ## The canonical form under any sort -/

/-- What `canonicalize` may leave: sorted symbols and facts, equal elements in any order. -/
structure Canonicalized (g c : Graph) : Prop where
  symbols : ∃ order : List SymbolId, order.Perm (List.range g.symbols.length) ∧
    order.Pairwise (fun a b => g.keyOf a ≤ g.keyOf b) ∧ c.symbols = order.map g.symbol ∧
    c.edges.Perm (g.edges.map fun e => { e with «from» := order.idxOf e.from, «to» := order.idxOf e.to }) ∧
    c.roots.Perm (g.roots.map fun r => { r with symbol := order.idxOf r.symbol }) ∧
    c.escapes.Perm (g.escapes.map fun e =>
      { e with symbol := order.idxOf e.symbol, «from» := e.from.map order.idxOf }) ∧
    c.suppressions.Perm (g.suppressions.map fun s => { s with symbol := order.idxOf s.symbol })
  keyToId : c.keyToId = indexKeys c.symbols
  edges : c.edges.Pairwise (fun a b => edgeOrder a ≤ edgeOrder b)
  roots : c.roots.Pairwise (fun a b => rootOrder a ≤ rootOrder b)
  escapes : c.escapes.Pairwise (fun a b => escapeOrder a ≤ escapeOrder b)
  suppressions : c.suppressions.Pairwise (fun a b => suppressionOrder a ≤ suppressionOrder b)

/-- A list sorted by a key that tells its elements apart is the sorted list. -/
theorem eq_sortOn {α κ : Type} [LinearOrder κ] {key : α → κ} {l l' : List α} (hperm : l.Perm l')
    (hsorted : l.Pairwise fun a b => key a ≤ key b) (hinj : ∀ a ∈ l', ∀ b ∈ l', key a = key b → a = b) :
    l = sortOn key l' := by
  rw [← sortOn_perm_eq key hperm fun a ha b hb => hinj a (hperm.mem_iff.1 ha) b (hperm.mem_iff.1 hb)]
  exact (sortOn_of_pairwise key hsorted).symm

theorem Canonicalized.eq {g c : Graph} (hg : g.Inv) (h : Canonicalized g c) : c = g.canonicalize := by
  obtain ⟨order, hperm, hsorted, hsymbols, hedges, hroots, hescapes, hsuppressions⟩ := h.symbols
  have horder : order = g.keyOrder := eq_sortOn hperm hsorted fun a ha b hb hkey =>
    hg.key_inj (List.mem_range.1 ha) (List.mem_range.1 hb) hkey
  subst horder
  have hedges := eq_sortOn hedges h.edges fun a _ b _ heq => edgeOrder_injective heq
  have hroots := eq_sortOn hroots h.roots fun a _ b _ heq => rootOrder_injective heq
  have hescapes := eq_sortOn hescapes h.escapes fun a _ b _ heq => escapeOrder_injective heq
  have hsuppressions := eq_sortOn hsuppressions h.suppressions fun a _ b _ heq => suppressionOrder_injective heq
  show Graph.mk c.symbols c.edges c.keyToId c.roots c.escapes c.suppressions = _
  rw [h.keyToId, hsymbols, hedges, hroots, hescapes, hsuppressions]
  rfl

/-- Graphs with the same facts by key have the same canonical form, position by position. It says the same about
every key, and it is its own canonical form. -/
theorem canonicalize_normalForm {g h : Graph} (hg : Built g) (hh : Built h) (s : SameFacts g h) :
    (∀ c d, Canonicalized g c → Canonicalized h d → c = d) ∧ g.canonicalize = h.canonicalize ∧
      SameFacts g.canonicalize g ∧ g.canonicalize.canonicalize = g.canonicalize := by
  have hcanonical := canonicalize_congr hg.inv hh.inv s
  refine ⟨fun c d hc hd => ?_, hcanonical, canonicalize_sameFacts hg.inv,
    canonicalize_congr (canonicalize_inv hg.inv) hg.inv (canonicalize_sameFacts hg.inv)⟩
  rw [hc.eq hg.inv, hd.eq hh.inv, hcanonical]

/-- Two symbols, added against the order of their keys, and a call. -/
def unsorted : Graph :=
  endState (addEdge 0 1 .directCall {})
    (endState (addOrMergeSymbol { key := lit "a" }) (endState (addOrMergeSymbol { key := lit "b" }) {}))

theorem unsorted_normalForm : unsorted.canonicalize ≠ unsorted ∧
    ∀ c d, Canonicalized unsorted c → Canonicalized unsorted.canonicalize d → c = d := by
  have hbuilt : Built unsorted := .addEdge _ _ _ _ (.addOrMergeSymbol _ (.addOrMergeSymbol _ .empty))
  exact ⟨by decide,
    (canonicalize_normalForm hbuilt (.canonicalize hbuilt) (canonicalize_sameFacts hbuilt.inv).symm).1⟩

end Graph

end CxxDead
