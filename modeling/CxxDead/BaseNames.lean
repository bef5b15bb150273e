import CxxDead.VirtualDispatch
import CxxDead.Lib.Choices
import Mathlib.Data.List.Find
import Mathlib.Data.List.Sort
/-!
# The names of bases

Which records a base may stand for, by the names of the records and the scope
around a class, and what that makes of the edges of virtual dispatch.

- `resolveRecordName_iff`: a base is resolved to the first listed record it may
  stand for.
- `addVirtualDispatchEdges_complete`: when all overrides of the C++ hierarchy are
  joined, and that the search for ancestors ends.
- `addVirtualDispatchEdges_order`: when the edges do not depend on the order in
  which the hash map lists its records.
-/

namespace CxxDead

open Lib CxxDead.Graph Relation

/-! ## Names and scopes -/

/-- `scope` is the text before the last `::` of `owner`. -/
structure Around (scope owner : Bytes) : Prop where
  before : ∃ name, owner = scope ++ lit "::" ++ name
  last : ∀ scope' name, owner = scope' ++ lit "::" ++ name → scope'.length ≤ scope.length

/-- `name` is `base`, or ends in it after a colon. -/
def EndsIn (name base : Bytes) : Prop := name = base ∨ ∃ before, name = before ++ ch ':' :: base

/-- The record `name` is one that `base` may stand for below the class `derived`. -/
inductive Meant (records : RecordMap) (derived base : Bytes) : Bytes → Prop
  /-- A record has the name as it is written. -/
  | written (h : base ∈ records.names) : Meant records derived base base
  /-- Else a record has it in the scope directly around the class. -/
  | beside {scope : Bytes} (hbase : base ∉ records.names) (hscope : Around scope derived)
      (h : joinName scope base ∈ records.names) : Meant records derived base (joinName scope base)
  /-- Else it may be every record whose name ends in it. -/
  | equivalent {name : Bytes} (hbase : base ∉ records.names)
      (hscope : ∀ scope, Around scope derived → joinName scope base ∉ records.names)
      (hname : name ∈ records.names) (h : EndsIn name base) : Meant records derived base name

/-- `name` is the first listed record that `base` may stand for below `derived`. -/
def Named (records : RecordMap) (derived base name : Bytes) : Prop :=
  Meant records derived base name ∧ ∃ before after, records.names = before ++ name :: after ∧
    ∀ x ∈ before, ¬ Meant records derived base x

section Names
variable {records r : RecordMap} {derived base name owner scope scope' : Bytes}

theorem Around.unique (h : Around scope owner) (h' : Around scope' owner) : scope = scope' := by
  obtain ⟨⟨name, hname⟩, hlast⟩ := h
  obtain ⟨⟨name', hname'⟩, hlast'⟩ := h'
  have hlength := Nat.le_antisymm (hlast' scope name hname) (hlast scope' name' hname')
  rw [hname, List.append_assoc, List.append_assoc] at hname'
  exact List.append_inj_left hname' hlength

theorem outerScope_none (h : outerScope owner = none) (scope name : Bytes) : owner ≠ scope ++ lit "::" ++ name := by
  induction owner generalizing scope with
  | nil => simp [lit]
  | cons c rest ih =>
    rw [outerScope] at h
    split at h
    · cases h
    · rename_i hrest
      split at h
      · cases h
      · rename_i hprefix
        rintro heq
        cases scope with
        | nil => exact hprefix (List.isPrefixOf_iff_prefix.2 ⟨name, heq.symm⟩)
        | cons d scope => exact ih hrest scope (List.cons.inj heq).2

theorem outerScope_around (h : outerScope owner = some scope) : Around scope owner := by
  induction owner generalizing scope with
  | nil => cases h
  | cons c rest ih =>
    rw [outerScope] at h
    split at h
    · rename_i scope₁ hrest
      obtain rfl := Option.some.inj h
      obtain ⟨⟨name, hname⟩, hlast⟩ := ih hrest
      refine ⟨⟨name, by rw [hname]; rfl⟩, fun scope' name' heq => ?_⟩
      cases scope' with
      | nil => exact Nat.zero_le _
      | cons d scope' => exact Nat.succ_le_succ (hlast scope' name' (List.cons.inj heq).2)
    · rename_i hrest
      split at h
      · rename_i hprefix
        obtain rfl := Option.some.inj h
        obtain ⟨name, hname⟩ := List.isPrefixOf_iff_prefix.1 hprefix
        refine ⟨⟨name, hname.symm⟩, fun scope' name' heq => ?_⟩
        cases scope' with
        | nil => exact le_refl _
        | cons d scope' => exact absurd (List.cons.inj heq).2 (outerScope_none hrest scope' name')
      · cases h

theorem outerScope_iff : outerScope owner = some scope ↔ Around scope owner := by
  refine ⟨outerScope_around, fun h => ?_⟩
  obtain ⟨name, hname⟩ := h.before
  cases hfound : outerScope owner with
  | none => exact absurd hname (outerScope_none hfound scope name)
  | some scope' => rw [(outerScope_around hfound).unique h]

theorem contextualName_iff : contextualName records derived base = some name ↔
    ∃ scope, Around scope derived ∧ joinName scope base = name ∧ name ∈ records.names := by
  simp only [contextualName, Option.filter_eq_some_iff, Option.map_eq_some_iff, outerScope_iff,
    RecordMap.contains_iff]
  constructor
  · rintro ⟨⟨scope, hscope, rfl⟩, hname⟩
    exact ⟨scope, hscope, rfl, hname⟩
  · rintro ⟨scope, hscope, rfl, hname⟩
    exact ⟨⟨scope, hscope, rfl⟩, hname⟩

theorem contextualName_none_iff : contextualName records derived base = none ↔
    ∀ scope, Around scope derived → joinName scope base ∉ records.names := by
  simp only [Option.eq_none_iff_forall_ne_some, ne_eq, contextualName_iff, not_exists, not_and]
  exact ⟨fun h scope hscope => h _ scope hscope rfl, fun h name scope hscope hname => hname ▸ h scope hscope⟩

theorem namesEquivalent_iff : namesEquivalent name base = true ↔ EndsIn name base := by
  simp only [namesEquivalent, EndsIn, Bool.or_eq_true, Bool.and_eq_true, beq_iff_eq, decide_eq_true_eq,
    List.isSuffixOf_iff_suffix]
  refine or_congr_right ⟨?_, ?_⟩
  · rintro ⟨⟨hlength, before, rfl⟩, hcolon⟩
    have hne : before ≠ [] := by
      rintro rfl
      simp at hlength
    obtain ⟨before, c, rfl⟩ : ∃ b c, before = b ++ [c] := ⟨_, _, (List.dropLast_append_getLast hne).symm⟩
    have hindex : (before ++ [c] ++ base).length - base.length - 1 = before.length := by simp; omega
    rw [hindex, List.append_assoc, List.getElem?_append_right (le_refl _), Nat.sub_self] at hcolon
    obtain rfl := Option.some.inj hcolon
    exact ⟨before, by simp⟩
  · rintro ⟨before, rfl⟩
    refine ⟨⟨by simp; omega, before ++ [ch ':'], by simp⟩, ?_⟩
    have hindex : (before ++ ch ':' :: base).length - base.length - 1 = before.length := by simp; omega
    rw [hindex, List.getElem?_append_right (le_refl _), Nat.sub_self]
    rfl

/-- A base that is no record's name means a record in the scope around the class, or any that ends in it. -/
theorem meant_iff : Meant records derived base name ↔
    if records.contains base then name = base
    else (contextualName records derived base).elim (name ∈ records.names ∧ namesEquivalent name base = true)
      fun contextual => name = contextual := by
  by_cases hbase : records.contains base = true
  · rw [if_pos hbase]
    have hmem := RecordMap.contains_iff.1 hbase
    constructor
    · rintro (_ | ⟨hno, -, -⟩ | ⟨hno, -, -, -⟩)
      · rfl
      · exact absurd hmem hno
      · exact absurd hmem hno
    · rintro rfl
      exact .written hmem
  · rw [if_neg hbase]
    have hno : base ∉ records.names := fun hmem => hbase (RecordMap.contains_iff.2 hmem)
    cases hfound : contextualName records derived base with
    | some contextual =>
      obtain ⟨scope, hscope, rfl, hmem⟩ := contextualName_iff.1 hfound
      rw [Option.elim_some]
      constructor
      · rintro (hwritten | ⟨-, hscope', -⟩ | ⟨-, hnone, -, -⟩)
        · exact absurd hwritten hno
        · rw [hscope.unique hscope']
        · exact absurd hmem (hnone scope hscope)
      · rintro rfl
        exact .beside hno hscope hmem
    | none =>
      have hnone := contextualName_none_iff.1 hfound
      rw [Option.elim_none, namesEquivalent_iff]
      constructor
      · rintro (hwritten | ⟨-, hscope, hmem⟩ | ⟨-, -, hname, hends⟩)
        · exact absurd hwritten hno
        · exact absurd hmem (hnone _ hscope)
        · exact ⟨hname, hends⟩
      · rintro ⟨hname, hends⟩
        exact .equivalent hno hnone hname hends

theorem Meant.mem (h : Meant records derived base name) : name ∈ records.names := by
  cases h <;> assumption

theorem find?_eq_of_unique {α : Type} {p : α → Bool} {l : List α} {a : α} (ha : a ∈ l) (hp : p a = true)
    (hunique : ∀ x, p x = true → x = a) : l.find? p = some a := by
  cases hfound : l.find? p with
  | none => exact absurd hp (List.find?_eq_none.1 hfound a ha)
  | some x => rw [hunique x (List.find?_some hfound)]

/-- A base is resolved to the first listed record that it may stand for. -/
theorem resolveRecordName_eq_pick :
    resolveRecordName records derived = Choices.pick (Meant records derived) records.names := by
  classical
  funext base
  unfold resolveRecordName Choices.pick
  by_cases hbase : records.contains base = true
  · have hmeant : ∀ x, Meant records derived base x ↔ x = base := fun x => by rw [meant_iff, if_pos hbase]
    rw [if_pos hbase]
    exact (find?_eq_of_unique (RecordMap.contains_iff.1 hbase) (by simp [hmeant]) fun x hx => by
      simpa [hmeant] using hx).symm
  · rw [if_neg hbase]
    cases hfound : contextualName records derived base with
    | some contextual =>
      have hmeant : ∀ x, Meant records derived base x ↔ x = contextual := fun x => by
        rw [meant_iff, if_neg hbase, hfound, Option.elim_some]
      obtain ⟨-, -, -, hmem⟩ := contextualName_iff.1 hfound
      exact (find?_eq_of_unique hmem (by simp [hmeant]) fun x hx => by simpa [hmeant] using hx).symm
    | none =>
      have hmeant : ∀ x, Meant records derived base x ↔ x ∈ records.names ∧ namesEquivalent x base = true := fun x => by
        rw [meant_iff, if_neg hbase, hfound, Option.elim_none]
      refine List.find?_congr fun x hx => ?_
      simp [hmeant, hx]

theorem resolveRecordName_iff : resolveRecordName records derived base = some name ↔ Named records derived base name := by
  rw [resolveRecordName_eq_pick, Choices.pick, List.find?_eq_some_iff_append, Named]
  simp

end Names

/-! ## The C++ hierarchy -/

/-- The scopes around a record, from the innermost outwards to the global one. -/
def enclosingScopes (owner : Bytes) : List Bytes :=
  (owner.inits.filter fun scope => (scope ++ lit "::").isPrefixOf owner && !scope.isEmpty).reverse ++ [[]]

/-- The record that a base named in `owner` is, by C++ lookup. -/
def lookupFrom (records : RecordMap) (owner base : Bytes) : Option Bytes :=
  ((enclosingScopes owner).map fun scope => joinName scope base).find? records.contains

example : enclosingScopes (lit "a::b::R") = [lit "a::b", lit "a", []] := by decide

/-- `ancestor` is an ancestor of `derived`, each base looked up from the record that names it. -/
def Derives (records : RecordMap) : Bytes → Bytes → Prop :=
  TransGen fun record next => ∃ base ∈ records.bases record, lookupFrom records record base = some next

/-- Every override of a virtual method is joined to it. -/
def DispatchComplete (records : RecordMap) (g g' : Graph) : Prop :=
  ∀ derived ancestor b d, Derives records derived ancestor → Overriding g ancestor derived b d →
    ∃ evidence, ⟨b, d, .virtualDispatch, evidence⟩ ∈ g'.edges

/-- Bases lead from `derived` up to `ancestor`, each the first listed record that its name may stand for below `derived`. -/
def Above (records : RecordMap) (derived ancestor : Bytes) : Prop :=
  TransGen (fun record next => ∃ base ∈ records.bases record, Named records derived base next) derived ancestor

/-- Below `derived`, the bases named on the C++ way up stand for the records that C++ lookup finds. -/
def NamedLikeCxx (records : RecordMap) (derived : Bytes) : Prop :=
  ∀ record, record = derived ∨ Derives records derived record → ∀ base ∈ records.bases record, ∀ next,
    lookupFrom records record base = some next → Named records derived base next

section Complete
variable {records : RecordMap} {derived ancestor : Bytes}

theorem inherits_iff_above : Inherits records derived ancestor ↔ Above records derived ancestor := by
  have hnext : Worklist.Next (resolveRecordName records derived) records.bases =
      fun record next => ∃ base ∈ records.bases record, Named records derived base next := by
    funext record next
    simp only [Worklist.Next, resolveRecordName_iff]
  simp only [Inherits, Worklist.Leads, hnext, resolveRecordName_iff]
  rw [Above, TransGen.head'_iff]
  constructor
  · rintro ⟨base, hbase, next, hnamed, hpath⟩
    exact ⟨next, ⟨base, hbase, hnamed⟩, hpath⟩
  · rintro ⟨next, ⟨base, hbase, hnamed⟩, hpath⟩
    exact ⟨base, hbase, next, hnamed, hpath⟩

theorem NamedLikeCxx.above (h : NamedLikeCxx records derived) (hderives : Derives records derived ancestor) :
    Above records derived ancestor := by
  induction hderives with
  | single hfirst =>
    obtain ⟨base, hbase, hlookup⟩ := hfirst
    exact .single ⟨base, hbase, h _ (.inl rfl) base hbase _ hlookup⟩
  | tail hpath hlast ih =>
    obtain ⟨base, hbase, hlookup⟩ := hlast
    exact ih.tail ⟨base, hbase, h _ (.inr hpath) base hbase _ hlookup⟩

end Complete

/-- The search for ancestors ends. All overrides of the C++ hierarchy are joined
exactly if the names of bases lead from the class up to each ancestor that has one
which is not joined already, as they do where they stand for what C++ lookup finds. -/
theorem addVirtualDispatchEdges_complete (records : RecordMap) (g : Graph) (methods : List (Bytes × List SymbolId))
    (hmethods : methods.Perm (methodsByClass g)) :
    (∀ derived, (searchBases records derived).pending = []) ∧
      ∃ g', addVirtualDispatchEdges records methods g = .ok () g' ∧
        (DispatchComplete records g g' ↔ ∀ derived ancestor b d, Derives records derived ancestor →
          Overriding g ancestor derived b d →
          Above records derived ancestor ∨ ∃ evidence, ⟨b, d, .virtualDispatch, evidence⟩ ∈ g.edges) ∧
        ((∀ derived d, MethodOf g derived d → NamedLikeCxx records derived) → DispatchComplete records g g') := by
  obtain ⟨edges, hrun, hedges⟩ := addVirtualDispatchEdges_spec records hmethods g rfl
  simp only [inherits_iff_above] at hedges
  have hiff : DispatchComplete records g { g with edges } ↔ ∀ derived ancestor b d, Derives records derived ancestor →
      Overriding g ancestor derived b d →
      Above records derived ancestor ∨ ∃ evidence, ⟨b, d, .virtualDispatch, evidence⟩ ∈ g.edges := by
    refine forall_congr' fun derived => forall_congr' fun ancestor => forall_congr' fun b => forall_congr' fun d =>
      imp_congr_right fun _ => imp_congr_right fun ho => ?_
    constructor
    · rintro ⟨evidence, he⟩
      rcases (hedges _).1 he with he | ⟨derived', ancestor', b', d', habove, ho', heq⟩
      · exact .inr ⟨evidence, he⟩
      · cases heq
        refine .inl ?_
        rwa [← ho.derived.className, ← ho.base.className, ho'.derived.className, ho'.base.className]
    · rintro (habove | ⟨evidence, he⟩)
      · exact ⟨_, (hedges _).2 (.inr ⟨derived, ancestor, b, d, habove, ho, rfl⟩)⟩
      · exact ⟨evidence, (hedges _).2 (.inl he)⟩
  refine ⟨searchBases_pending records, _, hrun, hiff, fun hnamed => hiff.2 fun derived ancestor b d hderives ho => ?_⟩
  exact .inl ((hnamed derived d ho.derived).above hderives)

/-- A graph of methods named `f`, the first of them virtual. -/
def methodsF (base derived : Bytes) : Graph :=
  endState ([
    { key := lit "b", name := lit "f", className := base, kind := .method, isVirtual := true },
    { key := lit "d", name := lit "f", className := derived, kind := .method }].mapM addOrMergeSymbol) {}

theorem methodsF_inv (base derived : Bytes) : (methodsF base derived).Inv :=
  Keeps.mapM addOrMergeSymbol_inv _ _ Graph.inv_empty

/-- `n::D` derives from `n::Base`, which it calls `Base`. -/
def namespaced : RecordMap where
  entries := [(lit "n::Base", []), (lit "n::D", [lit "Base"])]
  nodup := by decide

theorem namespaced_bases {record base : Bytes} (h : base ∈ namespaced.bases record) :
    record = lit "n::D" ∧ base = lit "Base" := by
  unfold RecordMap.bases at h
  cases hfound : namespaced.entries.lookup record with
  | none => rw [hfound] at h; cases h
  | some bases =>
    rw [hfound] at h
    rw [lookup_eq_some_iff namespaced.nodup] at hfound
    simp only [namespaced, List.mem_cons, List.not_mem_nil, or_false, Prod.mk.injEq] at hfound
    rcases hfound with ⟨-, rfl⟩ | ⟨rfl, rfl⟩
    · cases h
    · exact ⟨rfl, List.mem_singleton.1 h⟩

theorem methodsF_class {derived : Bytes} {d : SymbolId} (hd : MethodOf (methodsF (lit "n::Base") (lit "n::D")) derived d) :
    derived = lit "n::Base" ∨ derived = lit "n::D" := by
  have hlt : d < 2 := hd.lt
  rw [← hd.className]
  interval_cases d
  · exact .inl rfl
  · exact .inr rfl

/-- The same, with another `Base` in the global scope. -/
def shadowed : RecordMap where
  entries := [(lit "Base", []), (lit "n::Base", []), (lit "n::D", [lit "Base"])]
  nodup := by decide

theorem namespaced_complete :
    ∃ g', addVirtualDispatchEdges namespaced (methodsByClass (methodsF (lit "n::Base") (lit "n::D")))
        (methodsF (lit "n::Base") (lit "n::D")) = .ok () g' ∧
      DispatchComplete namespaced (methodsF (lit "n::Base") (lit "n::D")) g' := by
  obtain ⟨-, g', hrun, -, hcomplete⟩ := addVirtualDispatchEdges_complete namespaced
    (methodsF (lit "n::Base") (lit "n::D")) (methodsByClass (methodsF (lit "n::Base") (lit "n::D"))) (List.Perm.refl _)
  refine ⟨g', hrun, hcomplete fun derived d hd record _ base hbase next hnext => resolveRecordName_iff.1 ?_⟩
  obtain ⟨rfl, rfl⟩ := namespaced_bases hbase
  rw [← hnext]
  rcases methodsF_class hd with rfl | rfl <;> decide

/-- `n::D` overrides a method of `n::Base`, and no edge says so. -/
theorem shadowed_missed :
    addVirtualDispatchEdges shadowed (methodsByClass (methodsF (lit "n::Base") (lit "n::D")))
        (methodsF (lit "n::Base") (lit "n::D")) = .ok () (methodsF (lit "n::Base") (lit "n::D")) ∧
      ¬ DispatchComplete shadowed (methodsF (lit "n::Base") (lit "n::D")) (methodsF (lit "n::Base") (lit "n::D")) := by
  refine ⟨rfl, fun h => ?_⟩
  obtain ⟨evidence, he⟩ := h (lit "n::D") (lit "n::Base") 0 1
    (.single ⟨lit "Base", by decide, by decide⟩) ⟨⟨by decide, by decide, rfl⟩, ⟨by decide, by decide, rfl⟩, by decide⟩
  cases he

/-! ## The order of the hash map -/

/-- The facts about edges are the same for every two orders in which the records, and the classes, may be listed. -/
def DispatchOrderFree (records : RecordMap) (g : Graph) : Prop :=
  ∀ r₁ r₂ : RecordMap, r₁.entries.Perm records.entries → r₂.entries.Perm records.entries →
    ∀ methods₁ methods₂, methods₁.Perm (methodsByClass g) → methods₂.Perm (methodsByClass g) →
      ∀ g₁ g₂, addVirtualDispatchEdges r₁ methods₁ g = .ok () g₁ → addVirtualDispatchEdges r₂ methods₂ g = .ok () g₂ →
        ∀ x, x ∈ g₁.edgeFacts ↔ x ∈ g₂.edgeFacts

/-- Bases lead from `derived` up to `ancestor` if they are taken for the right ones of the records they may stand for. -/
def MayInherit (records : RecordMap) (derived ancestor : Bytes) : Prop :=
  ∃ base ∈ records.bases derived, Choices.MayLead (Meant records derived) records.bases ancestor base

/-- Bases lead from `derived` up to `ancestor` whichever records they are taken for. -/
def MustInherit (records : RecordMap) (derived ancestor : Bytes) : Prop :=
  ∃ base ∈ records.bases derived, Choices.MustLead (Meant records derived) records.bases ancestor base

/-- Where an override is to be joined, base names with several equivalent record names do not decide whether its
ancestor is above the class. -/
def ChoicesSettled (records : RecordMap) (g : Graph) : Prop :=
  ∀ derived ancestor b d, Overriding g ancestor derived b d →
    (⟨b, d, .virtualDispatch, dispatchEvidence⟩ : Edge) ∉ g.edges →
    MayInherit records derived ancestor → MustInherit records derived ancestor

/-- No base on the way up from a class may stand for several records. -/
def Unambiguous (records : RecordMap) (g : Graph) : Prop :=
  ∀ derived d, MethodOf g derived d → ∀ record, record = derived ∨ MayInherit records derived record →
    ∀ base ∈ records.bases record, ∀ x y, Meant records derived base x → Meant records derived base y → x = y

section Orders
variable {records r : RecordMap} {g : Graph} {derived ancestor record base : Bytes}

theorem RecordMap.bases_eq (hr : r.entries.Perm records.entries) : r.bases = records.bases := by
  funext name
  unfold bases
  rw [lookup_perm r.nodup hr]

/-- What a base may stand for does not depend on the order. -/
theorem meant_perm (hr : r.entries.Perm records.entries) : Meant r derived = Meant records derived := by
  have hcontains : r.contains = records.contains := by
    funext name
    unfold RecordMap.contains
    rw [lookup_perm r.nodup hr]
  have hmem : ∀ name, name ∈ r.names ↔ name ∈ records.names := fun name => (hr.map _).mem_iff
  funext base name
  rw [meant_iff, meant_iff, contextualName, contextualName, hcontains, hmem]

theorem inherits_perm (hr : r.entries.Perm records.entries) : Inherits r derived ancestor ↔
    ∃ base ∈ records.bases derived,
      Worklist.Leads (Choices.pick (Meant records derived) r.names) records.bases base ancestor := by
  rw [Inherits, resolveRecordName_eq_pick, RecordMap.bases_eq hr, meant_perm hr]

theorem mem_of_meant (hr : r.entries.Perm records.entries) :
    ∀ base name, Meant records derived base name → name ∈ r.names :=
  fun _ _ h => (hr.map _).mem_iff.2 h.mem

theorem MustInherit.inherits (h : MustInherit records derived ancestor) (hr : r.entries.Perm records.entries) :
    Inherits r derived ancestor := by
  obtain ⟨base, hbase, hmust⟩ := h
  exact (inherits_perm hr).2 ⟨base, hbase, Choices.leads_of_mustLead (mem_of_meant hr) hmust⟩

theorem MayInherit.of_inherits (hr : r.entries.Perm records.entries) (h : Inherits r derived ancestor) :
    MayInherit records derived ancestor := by
  obtain ⟨base, hbase, hleads⟩ := (inherits_perm hr).1 h
  exact ⟨base, hbase, Choices.mayLead_of_leads hleads⟩

variable (records) in
/-- The records can be listed in the order of a relation on their names. -/
theorem exists_listing (R : Bytes → Bytes → Prop) (htotal : ∀ a b, R a b ∨ R b a)
    (htrans : ∀ a b c, R a b → R b c → R a c) :
    ∃ r : RecordMap, r.entries.Perm records.entries ∧ r.names.Pairwise R := by
  classical
  let le : Bytes × List Bytes → Bytes × List Bytes → Bool := fun a b => decide (R a.1 b.1)
  have hperm : (records.entries.mergeSort le).Perm records.entries := List.mergeSort_perm _ _
  have hsorted : (records.entries.mergeSort le).Pairwise fun a b => le a b = true :=
    List.pairwise_mergeSort (fun a b c hab hbc => by
      simp only [le, decide_eq_true_eq] at hab hbc ⊢
      exact htrans _ _ _ hab hbc) (fun a b => by simpa [le] using htotal a.1 b.1) _
  refine ⟨⟨_, (hperm.map _).nodup_iff.2 records.nodup⟩, hperm, ?_⟩
  exact List.pairwise_map.2 (hsorted.imp fun hab => by simpa [le] using hab)

/-- Some order makes the class inherit what it may. -/
theorem exists_inherits (h : MayInherit records derived ancestor) :
    ∃ r : RecordMap, r.entries.Perm records.entries ∧ Inherits r derived ancestor := by
  obtain ⟨r, hr, hsorted⟩ := exists_listing records (Choices.Closer (Meant records derived) records.bases ancestor)
    Choices.Closer.total fun _ _ _ hab hbc n hn => hab n (hbc n hn)
  obtain ⟨base, hbase, hmay⟩ := h
  exact ⟨r, hr, (inherits_perm hr).2 ⟨base, hbase, Choices.leads_of_closest (mem_of_meant hr) hsorted hmay⟩⟩

variable (records derived ancestor) in
/-- In some order the class inherits only what it must. -/
theorem exists_must : ∃ r : RecordMap, r.entries.Perm records.entries ∧
    (Inherits r derived ancestor → MustInherit records derived ancestor) := by
  obtain ⟨r, hr, hsorted⟩ := exists_listing records (Choices.Safer (Meant records derived) records.bases ancestor)
    Choices.Safer.total fun _ _ _ hab hbc h => hbc (hab h)
  refine ⟨r, hr, fun h => ?_⟩
  obtain ⟨base, hbase, hleads⟩ := (inherits_perm hr).1 h
  exact ⟨base, hbase, Choices.mustLead_of_unforced (mem_of_meant hr) hsorted hleads⟩

theorem MayInherit.next (h : MayInherit records derived record) (hbase : base ∈ records.bases record)
    (hmeant : Meant records derived base ancestor) : MayInherit records derived ancestor := by
  obtain ⟨first, hfirst, w, hw, hpath⟩ := h
  exact ⟨first, hfirst, w, hw, hpath.tail ⟨base, hbase, hmeant⟩⟩

/-- Where no base may stand for several records, a class inherits what it may. -/
theorem Unambiguous.settled (h : Unambiguous records g) : ChoicesSettled records g := by
  rintro derived ancestor b d ho - ⟨base, hbase, w, hw, hpath⟩
  -- the only record that a base may stand for is the one that leads on
  have hmust : ∀ record, record = derived ∨ MayInherit records derived record → ∀ c ∈ records.bases record, ∀ x,
      Meant records derived c x → Choices.Forced (Meant records derived) records.bases ancestor x →
      Choices.MustLead (Meant records derived) records.bases ancestor c := fun record hrecord c hc x hx hforced =>
    ⟨⟨x, hx⟩, fun y hy => h derived d ho.derived record hrecord c hc x y hx hy ▸ hforced⟩
  refine ⟨base, hbase, hmust derived (.inl rfl) base hbase w hw ?_⟩
  have hmay : MayInherit records derived w := ⟨base, hbase, w, hw, .refl⟩
  clear hw
  induction hpath using ReflTransGen.head_induction_on with
  | refl => exact .here
  | head hnext _ ih =>
    obtain ⟨c, hc, hx⟩ := hnext
    obtain ⟨hsome, hall⟩ := hmust _ (.inr hmay) c hc _ hx (ih (hmay.next hc hx))
    exact .step hc hsome hall

/-- Two facts about new edges are equal only if the edges are. -/
theorem edgeFact_inj (hg : g.Inv) {e : Edge} {b d : SymbolId} (hf : e.from < g.symbols.length)
    (ht : e.to < g.symbols.length) (hb : b < g.symbols.length) (hd : d < g.symbols.length)
    (h : g.edgeFact e = g.edgeFact ⟨b, d, .virtualDispatch, dispatchEvidence⟩) :
    e = ⟨b, d, .virtualDispatch, dispatchEvidence⟩ := by
  simp only [Graph.edgeFact, Prod.mk.injEq] at h
  obtain ⟨hfrom, hto, hkind, hevidence⟩ := h
  rw [hg.keyOf_inj hf hb] at hfrom
  rw [hg.keyOf_inj ht hd] at hto
  cases e
  simp_all

end Orders

/-- The edges do not depend on the order in which records are listed exactly if
base names with several equivalent record names do not decide whether an ancestor
with an override is above the class, as they cannot where there are none. -/
theorem addVirtualDispatchEdges_order (records : RecordMap) (g : Graph) (hg : g.Inv) :
    (DispatchOrderFree records g ↔ ChoicesSettled records g) ∧
      (Unambiguous records g → DispatchOrderFree records g) := by
  have hiff : DispatchOrderFree records g ↔ ChoicesSettled records g := by
    constructor
    · intro hfree derived ancestor b d ho hnew hmay
      -- one order in which the class inherits what it may, one in which it inherits only what it must
      obtain ⟨r₁, hr₁, hinherits⟩ := exists_inherits hmay
      obtain ⟨r₂, hr₂, hmust⟩ := exists_must records derived ancestor
      obtain ⟨edges₁, hrun₁, hedges₁⟩ := addVirtualDispatchEdges_spec r₁ (List.Perm.refl _) g rfl
      obtain ⟨edges₂, hrun₂, hedges₂⟩ := addVirtualDispatchEdges_spec r₂ (List.Perm.refl _) g rfl
      have hmem := (hedges₁ _).2 (.inr ⟨derived, ancestor, b, d, hinherits, ho, rfl⟩)
      obtain ⟨e, he, hfact⟩ := List.mem_map.1 ((hfree r₁ r₂ hr₁ hr₂ _ _ (.refl _) (.refl _) _ _ hrun₁ hrun₂ _).1
        (List.mem_map_of_mem hmem))
      -- the second order has the edge too, and not from before
      rcases (hedges₂ e).1 he with hold | ⟨derived', ancestor', b', d', hinherits', ho', rfl⟩
      · rw [edgeFact_inj hg (hg.ids.edges e hold).1 (hg.ids.edges e hold).2 ho.base.lt ho.derived.lt hfact] at hold
        exact absurd hold hnew
      · cases edgeFact_inj hg ho'.base.lt ho'.derived.lt ho.base.lt ho.derived.lt hfact
        rw [← ho'.derived.className, ← ho'.base.className, ho.derived.className, ho.base.className] at hinherits'
        exact hmust hinherits'
    · intro hsettled r₁ r₂ hr₁ hr₂ methods₁ methods₂ hmethods₁ hmethods₂ g₁ g₂ hrun₁ hrun₂ x
      obtain ⟨edges₁, hspec₁, hedges₁⟩ := addVirtualDispatchEdges_spec r₁ hmethods₁ g rfl
      obtain ⟨edges₂, hspec₂, hedges₂⟩ := addVirtualDispatchEdges_spec r₂ hmethods₂ g rfl
      rw [hspec₁] at hrun₁
      rw [hspec₂] at hrun₂
      cases hrun₁
      cases hrun₂
      have hsub : ∀ r r' : RecordMap, r.entries.Perm records.entries → r'.entries.Perm records.entries → ∀ e,
          (e ∈ g.edges ∨ ∃ derived ancestor b d, Inherits r derived ancestor ∧ Overriding g ancestor derived b d ∧
            e = ⟨b, d, .virtualDispatch, dispatchEvidence⟩) →
          e ∈ g.edges ∨ ∃ derived ancestor b d, Inherits r' derived ancestor ∧ Overriding g ancestor derived b d ∧
            e = ⟨b, d, .virtualDispatch, dispatchEvidence⟩ := by
        rintro r r' hr hr' e (hold | ⟨derived, ancestor, b, d, hinherits, ho, rfl⟩)
        · exact .inl hold
        · by_cases hold : (⟨b, d, .virtualDispatch, dispatchEvidence⟩ : Edge) ∈ g.edges
          · exact .inl hold
          · have hmust := hsettled derived ancestor b d ho hold (.of_inherits hr hinherits)
            exact .inr ⟨derived, ancestor, b, d, hmust.inherits hr', ho, rfl⟩
      have hedges : ∀ e, e ∈ edges₁ ↔ e ∈ edges₂ := fun e => by
        rw [hedges₁, hedges₂]
        exact ⟨hsub r₁ r₂ hr₁ hr₂ e, hsub r₂ r₁ hr₂ hr₁ e⟩
      unfold Graph.edgeFacts
      simp only [List.mem_map, hedges]
      rfl
  exact ⟨hiff, fun h => hiff.2 h.settled⟩

theorem namespaced_order : DispatchOrderFree namespaced (methodsF (lit "n::Base") (lit "n::D")) := by
  refine (addVirtualDispatchEdges_order namespaced _ (methodsF_inv (lit "n::Base") (lit "n::D"))).2 ?_
  intro derived d hd record hrecord base hbase x y hx hy
  obtain ⟨rfl, rfl⟩ := namespaced_bases hbase
  rw [meant_iff] at hx hy
  rcases methodsF_class hd with rfl | rfl
  · rcases hrecord with heq | ⟨base, hbases, -⟩
    · exact absurd heq (by decide)
    · exact absurd (namespaced_bases hbases).1 (by decide)
  · exact hx.trans hy.symm

/-- `c::D` names a `Base` that two namespaces have. -/
def borrowed : RecordMap where
  entries := [(lit "a::Base", []), (lit "b::Base", []), (lit "c::D", [lit "Base"])]
  nodup := by decide

theorem borrowed_order : ¬ DispatchOrderFree borrowed (methodsF (lit "a::Base") (lit "c::D")) := by
  intro h
  have hsecond : ([(lit "b::Base", []), (lit "a::Base", []), (lit "c::D", [lit "Base"])] :
      List (Bytes × List Bytes)).Perm borrowed.entries := List.Perm.swap _ _ _
  have hx := h borrowed ⟨_, by decide⟩ (List.Perm.refl _) hsecond _ _ (List.Perm.refl _) (List.Perm.refl _) _ _ rfl rfl
    (lit "b", lit "d", .virtualDispatch, dispatchEvidence)
  exact absurd (hx.1 (by decide)) (by decide)

end CxxDead
