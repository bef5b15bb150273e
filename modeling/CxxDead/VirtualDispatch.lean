import CxxDead.Merge
import CxxDead.Lib.Groups
import CxxDead.Lib.Tables
import CxxDead.Lib.Worklist
/-!
# Virtual dispatch

Base names are resolved to records, and every virtual method of an ancestor gets
an edge to the methods that override it.

- `searchBases_pending`, `mem_searchBases`: the search for ancestors ends, and what
  it has visited then.
- `addVirtualDispatchEdges_spec`: which edges are added.
-/

namespace CxxDead

open Lib CxxDead.Graph Relation

/-! ## Records -/

/-- The bases of each record by its name, in the order in which the hash map lists them. -/
structure RecordMap where
  entries : List (Bytes × List Bytes)
  nodup : (entries.map (·.1)).Nodup

namespace RecordMap

def names (records : RecordMap) : List Bytes := records.entries.map (·.1)

def contains (records : RecordMap) (name : Bytes) : Bool := (records.entries.lookup name).isSome

def bases (records : RecordMap) (name : Bytes) : List Bytes := (records.entries.lookup name).getD []

end RecordMap

def joinName (scope name : Bytes) : Bytes :=
  if name = [] then scope else if scope = [] then name else scope ++ lit "::" ++ name

def namesEquivalent (qualified possiblyRelative : Bytes) : Bool :=
  qualified == possiblyRelative ||
    (decide (qualified.length > possiblyRelative.length) && possiblyRelative.isSuffixOf qualified &&
      qualified[qualified.length - possiblyRelative.length - 1]? == some (ch ':'))

/-- The text before its last `::`. -/
def outerScope : Bytes → Option Bytes
  | [] => none
  | c :: rest =>
    match outerScope rest with
    | some scope => some (c :: scope)
    | none => if (lit "::").isPrefixOf (c :: rest) then some [] else none

/-- The name in the scope around `owner`, if it is the name of a record. -/
def contextualName (records : RecordMap) (owner base : Bytes) : Option Bytes :=
  ((outerScope owner).map fun scope => joinName scope base).filter records.contains

def resolveRecordName (records : RecordMap) (owner base : Bytes) : Option Bytes :=
  if records.contains base then some base
  else
    match contextualName records owner base with
    | some contextual => some contextual
    | none => records.names.find? fun name => namesEquivalent name base

/-- The search through the bases of `derived`. Each record's bases are stacked at most once. -/
def searchBases (records : RecordMap) (derived : Bytes) : Worklist Bytes Bytes :=
  Worklist.drain (resolveRecordName records derived) records.bases
    ((records.bases derived).length + (records.names.map fun name => (records.bases name).length).sum)
    { pending := (records.bases derived).reverse }

/-! ## Edges -/

def overrides (base derived : Symbol) : Bool :=
  base.isVirtual && base.name == derived.name && base.signature == derived.signature

def dispatchEvidence : Evidence := ⟨lit "class_hierarchy", lit "known override of a virtual method"⟩

def isMethod (symbol : Symbol) : Bool := !symbol.className.isEmpty && symbol.kind == .method

/-- `methods_by_class`, in one of the orders that the hash map may list it in. -/
def methodsByClass (g : Graph) : List (Bytes × List SymbolId) :=
  groupOn (fun id => (g.symbol id).className) ((List.range g.symbols.length).filter fun id => isMethod (g.symbol id))

def addOverride (derived base : SymbolId) : GraphM Unit := do
  let g ← get
  if overrides (g.symbol base) (g.symbol derived) then
    addEdge base derived .virtualDispatch dispatchEvidence
  else pure ()

def addVirtualDispatchEdges (records : RecordMap) (methods : List (Bytes × List SymbolId)) : GraphM Unit :=
  methods.forM fun (derivedName, derivedMethods) =>
    if records.contains derivedName then
      (searchBases records derivedName).visited.forM fun base =>
        match methods.lookup base with
        | none => pure ()
        | some baseMethods => derivedMethods.forM fun derived => baseMethods.forM (addOverride derived)
    else pure ()

/-! ## The search -/

section Search
variable {records : RecordMap} {derived base name : Bytes}

theorem RecordMap.contains_iff : records.contains name = true ↔ name ∈ records.names := lookup_isSome_iff

theorem resolveRecordName_mem (h : resolveRecordName records derived base = some name) : name ∈ records.names := by
  unfold resolveRecordName at h
  split at h
  · rename_i hbase
    rw [← Option.some.inj h]
    exact RecordMap.contains_iff.1 hbase
  · split at h
    · rename_i contextual hcontextual
      rw [← Option.some.inj h]
      exact RecordMap.contains_iff.1 (Option.mem_filter_iff.1 hcontextual).2
    · exact List.mem_of_find?_eq_some h

/-- `A` is an ancestor of `derived`, each base on the way resolved as the code does. -/
def Inherits (records : RecordMap) (derived ancestor : Bytes) : Prop :=
  ∃ base ∈ records.bases derived, Worklist.Leads (resolveRecordName records derived) records.bases base ancestor

/-- The search ends, whether or not the hierarchy has cycles. -/
theorem searchBases_pending (records : RecordMap) (derived : Bytes) : (searchBases records derived).pending = [] := by
  refine Worklist.drain_pending _ _ records.nodup (fun b v hv => resolveRecordName_mem hv) _ _ ?_
  simp [Worklist.left, RecordMap.names]

theorem mem_searchBases {ancestor : Bytes} :
    ancestor ∈ (searchBases records derived).visited ↔ Inherits records derived ancestor :=
  ((Worklist.Inv.start _ _ _).drain _).visited_iff (searchBases_pending records derived)

end Search

/-! ## What is added -/

/-- `m` adds the edges of `P` to any graph with the symbols of `g`, and nothing else. -/
def AddsEdges (g : Graph) (m : GraphM Unit) (P : Edge → Prop) : Prop :=
  ∀ g₀ : Graph, g₀.symbols = g.symbols → ∃ edges, m g₀ = .ok () { g₀ with edges } ∧
    ∀ e, e ∈ edges ↔ e ∈ g₀.edges ∨ P e

section Adds
variable {g : Graph} {m : GraphM Unit} {P Q : Edge → Prop}

theorem AddsEdges.congr (h : AddsEdges g m P) (hPQ : ∀ e, P e ↔ Q e) : AddsEdges g m Q := by
  intro g₀ hg₀
  obtain ⟨edges, hm, hedges⟩ := h g₀ hg₀
  exact ⟨edges, hm, fun e => by rw [hedges, hPQ]⟩

theorem AddsEdges.nothing (g : Graph) : AddsEdges g (pure ()) fun _ => False :=
  fun g₀ _ => ⟨g₀.edges, rfl, by simp⟩

theorem AddsEdges.forM {α : Type} {f : α → GraphM Unit} {P : α → Edge → Prop} (l : List α)
    (h : ∀ a ∈ l, AddsEdges g (f a) (P a)) : AddsEdges g (l.forM f) fun e => ∃ a ∈ l, P a e := by
  induction l with
  | nil => exact (AddsEdges.nothing g).congr (by simp)
  | cons a l ih =>
    intro g₀ hg₀
    obtain ⟨edges, hm, hedges⟩ := h a List.mem_cons_self g₀ hg₀
    obtain ⟨edges', hm', hedges'⟩ := ih (fun b hb => h b (List.mem_cons_of_mem _ hb)) { g₀ with edges } hg₀
    refine ⟨edges', bind_ok_iff.2 ⟨(), _, hm, hm'⟩, fun e => ?_⟩
    rw [hedges', hedges]
    simp only [List.mem_cons, exists_eq_or_imp, or_assoc]

theorem addsEdges_addOverride {derived base : SymbolId} (hderived : derived < g.symbols.length)
    (hbase : base < g.symbols.length) :
    AddsEdges g (addOverride derived base) fun e =>
      overrides (g.symbol base) (g.symbol derived) = true ∧ e = ⟨base, derived, .virtualDispatch, dispatchEvidence⟩ := by
  intro g₀ hg₀
  have hsymbol : ∀ id, g₀.symbol id = g.symbol id := fun id => by unfold Graph.symbol; rw [hg₀]
  have hrun : addOverride derived base g₀ =
      (if overrides (g₀.symbol base) (g₀.symbol derived) then
        addEdge base derived .virtualDispatch dispatchEvidence
      else pure ()) g₀ := rfl
  rw [hrun, hsymbol, hsymbol]
  by_cases ho : overrides (g.symbol base) (g.symbol derived) = true
  · rw [if_pos ho]
    refine ⟨_, if_neg ?_, fun e => ?_⟩
    · rw [hg₀]
      exact not_or.2 ⟨Nat.not_le.2 hbase, Nat.not_le.2 hderived⟩
    · rw [mem_addFact]
      simp [ho]
  · rw [if_neg ho]
    exact ⟨g₀.edges, rfl, by simp [ho]⟩

end Adds

section Dispatch
variable {g : Graph} {records : RecordMap} {methods : List (Bytes × List SymbolId)} {name derived ancestor : Bytes}
  {id d b : SymbolId}

/-- `id` is a method of the class. -/
structure MethodOf (g : Graph) (name : Bytes) (id : SymbolId) : Prop where
  lt : id < g.symbols.length
  isMethod : isMethod (g.symbol id) = true
  className : (g.symbol id).className = name

/-- The method `d` of `derived` overrides the virtual method `b` of `ancestor`. -/
structure Overriding (g : Graph) (ancestor derived : Bytes) (b d : SymbolId) : Prop where
  base : MethodOf g ancestor b
  derived : MethodOf g derived d
  overrides : overrides (g.symbol b) (g.symbol d) = true

theorem mem_methodsByClass {ids : List SymbolId} (h : (name, ids) ∈ methodsByClass g) :
    ∀ id, id ∈ ids ↔ MethodOf g name id := by
  unfold methodsByClass groupOn at h
  obtain ⟨k, hk, heq⟩ := List.mem_map.1 h
  obtain ⟨rfl, rfl⟩ := Prod.mk.inj heq
  intro id
  simp only [List.mem_filter, List.mem_range, decide_eq_true_eq]
  exact ⟨fun ⟨⟨hlt, hm⟩, hk⟩ => ⟨hlt, hm, hk⟩, fun ⟨hlt, hm, hk⟩ => ⟨⟨hlt, hm⟩, hk⟩⟩

theorem methodsByClass_nodup : ((methodsByClass g).map (·.1)).Nodup := by
  unfold methodsByClass groupOn
  rw [List.map_map]
  simpa [Function.comp_def] using sortUnique_nodup _

theorem exists_methodsByClass (h : MethodOf g name id) : ∃ ids, (name, ids) ∈ methodsByClass g := by
  unfold methodsByClass groupOn
  refine ⟨_, List.mem_map.2 ⟨name, ?_, rfl⟩⟩
  rw [mem_sortUnique]
  refine List.mem_map.2 ⟨id, List.mem_filter.2 ⟨List.mem_range.2 h.lt, h.isMethod⟩, h.className⟩

variable (records) in
/-- What the loops add: an edge for each override between a class and an ancestor that the search finds. -/
theorem addVirtualDispatchEdges_spec (hmethods : methods.Perm (methodsByClass g)) :
    AddsEdges g (addVirtualDispatchEdges records methods) fun e =>
      ∃ derived ancestor b d, Inherits records derived ancestor ∧ Overriding g ancestor derived b d ∧
        e = ⟨b, d, .virtualDispatch, dispatchEvidence⟩ := by
  have hnodup : (methods.map (·.1)).Nodup := ((hmethods.map _).nodup_iff).2 methodsByClass_nodup
  have hof : ∀ {name ids}, (name, ids) ∈ methods → ∀ id, id ∈ ids ↔ MethodOf g name id := fun hmem =>
    mem_methodsByClass (hmethods.mem_iff.1 hmem)
  have hpair : ∀ {derived ancestor : Bytes} {ds bs : List SymbolId}, (derived, ds) ∈ methods → (ancestor, bs) ∈ methods →
      AddsEdges g (ds.forM fun d => bs.forM (addOverride d)) fun e =>
        ∃ b d, Overriding g ancestor derived b d ∧ e = ⟨b, d, .virtualDispatch, dispatchEvidence⟩ := by
    intro derived ancestor ds bs hds hbs
    refine (AddsEdges.forM ds fun d hd => AddsEdges.forM bs fun b hb =>
      addsEdges_addOverride ((hof hds d).1 hd).lt ((hof hbs b).1 hb).lt).congr fun e => ?_
    constructor
    · rintro ⟨d, hd, b, hb, ho, rfl⟩
      exact ⟨b, d, ⟨(hof hbs b).1 hb, (hof hds d).1 hd, ho⟩, rfl⟩
    · rintro ⟨b, d, ⟨hb, hd, ho⟩, rfl⟩
      exact ⟨d, (hof hds d).2 hd, b, (hof hbs b).2 hb, ho, rfl⟩
  have hbase : ∀ {derived ancestor : Bytes} {ds : List SymbolId}, (derived, ds) ∈ methods →
      AddsEdges g
        (match methods.lookup ancestor with
          | none => pure ()
          | some bs => ds.forM fun d => bs.forM (addOverride d)) fun e =>
        ∃ b d, Overriding g ancestor derived b d ∧ e = ⟨b, d, .virtualDispatch, dispatchEvidence⟩ := by
    intro derived ancestor ds hds
    cases hfound : methods.lookup ancestor with
    | some bs => exact hpair hds ((lookup_eq_some_iff hnodup).1 hfound)
    | none =>
      refine (AddsEdges.nothing g).congr fun e => ⟨False.elim, ?_⟩
      rintro ⟨b, d, ho, -⟩
      obtain ⟨ids, hids⟩ := exists_methodsByClass ho.base
      rw [(lookup_eq_some_iff hnodup).2 (hmethods.mem_iff.2 hids)] at hfound
      cases hfound
  refine (AddsEdges.forM (P := fun entry e => ∃ ancestor b d, Inherits records entry.1 ancestor ∧
    Overriding g ancestor entry.1 b d ∧ e = ⟨b, d, .virtualDispatch, dispatchEvidence⟩) methods ?_).congr fun e => ?_
  · rintro ⟨derived, ds⟩ hds
    dsimp only
    split
    · refine (AddsEdges.forM _ fun ancestor _ => hbase hds).congr fun e => ?_
      simp only [mem_searchBases]
      constructor
      · rintro ⟨ancestor, hinherits, b, d, ho, he⟩
        exact ⟨ancestor, b, d, hinherits, ho, he⟩
      · rintro ⟨ancestor, b, d, hinherits, ho, he⟩
        exact ⟨ancestor, hinherits, b, d, ho, he⟩
    · rename_i hcontains
      refine (AddsEdges.nothing g).congr fun e => ⟨False.elim, ?_⟩
      rintro ⟨ancestor, b, d, ⟨base, hbases, -⟩, -, -⟩
      unfold RecordMap.bases at hbases
      unfold RecordMap.contains at hcontains
      rw [Option.not_isSome_iff_eq_none.1 hcontains] at hbases
      cases hbases
  · constructor
    · rintro ⟨⟨derived, ds⟩, -, ancestor, b, d, h⟩
      exact ⟨derived, ancestor, b, d, h⟩
    · rintro ⟨derived, ancestor, b, d, hinherits, ho, he⟩
      obtain ⟨ids, hids⟩ := exists_methodsByClass ho.derived
      exact ⟨(derived, ids), hmethods.mem_iff.2 hids, ancestor, b, d, hinherits, ho, he⟩

end Dispatch

end CxxDead
