import CxxDead.Report
/-!
# Provider provenance

What the report lists as retaining symbols through providers.

- `retained_of_reached`: every symbol that is reached through providers only hangs
  on a listed provider root or on a listed edge that the traversal follows.
- `provenance_iff`: nothing else is listed, exactly if every provider edge to such
  a symbol whose source is reached leaves from an indexed body.
-/

namespace CxxDead

open Lib Relation

/-! ## What the traversals reach, as paths -/

namespace Graph

variable (g : Graph)

def Reached (id : SymbolId) : Prop :=
  ∃ r ∈ g.roots, ∃ p, g.IsPath r.symbol p id ∧ ∀ e ∈ p, g.isLive e = true

def StructurallyReached (id : SymbolId) : Prop :=
  ∃ r ∈ g.roots, r.kind.isProvider = false ∧
    ∃ p, g.IsPath r.symbol p id ∧ ∀ e ∈ p, g.isLive e = true ∧ e.kind.isProvider = false

def ProviderReached (id : SymbolId) : Prop := g.Reached id ∧ ¬ g.StructurallyReached id

variable {g}

theorem flag_reached (h : g.ValidIds) (id : SymbolId) :
    flag (analyzeReachability g).reachable id = true ↔ g.Reached id := by
  rw [flag_reachable h]
  simp only [Reached, isLive_iff]

theorem flag_providerReached (h : g.ValidIds) (id : SymbolId) :
    flag (analyzeReachability g).providerReachable id = true ↔ g.ProviderReached id := by
  rw [flag_providerReachable, flag_reached h, ← Bool.not_eq_true, flag_structurallyReachable h]
  simp only [ProviderReached, StructurallyReached, isLive_iff]

/-- The structural traversal goes on along every live edge that no provider names. -/
theorem StructurallyReached.step {a : SymbolId} (ha : g.StructurallyReached a) {e : Edge} (he : e ∈ g.edges)
    (hfrom : e.from = a) (hlive : g.isLive e = true) (hkind : e.kind.isProvider = false) :
    g.StructurallyReached e.to := by
  obtain ⟨r, hr, hroot, hpath⟩ := ha
  rw [exists_path_iff] at hpath
  exact ⟨r, hr, hroot, exists_path_iff.2 (hpath.tail ⟨e, he, ⟨hlive, hkind⟩, hfrom, rfl⟩)⟩

theorem Reached.step {a : SymbolId} (ha : g.Reached a) {e : Edge} (he : e ∈ g.edges) (hfrom : e.from = a)
    (hlive : g.isLive e = true) : g.Reached e.to := by
  obtain ⟨r, hr, hpath⟩ := ha
  rw [exists_path_iff] at hpath
  exact ⟨r, hr, exists_path_iff.2 (hpath.tail ⟨e, he, hlive, hfrom, rfl⟩)⟩

end Graph

/-! ## Listed roots and edges -/

/-- The entry is a provider root, or a provider edge that the traversal follows. -/
inductive Retains (g : Graph) : ProviderReachability → Prop where
  | root {r : Root} : r ∈ g.roots → r.kind.isProvider = true → Retains g ⟨r.symbol, none, r.evidence⟩
  | edge {e : Edge} : e ∈ g.edges → e.kind.isProvider = true → flag (analyzeReachability g).reachable e.from = true →
      hasIndexedBody (g.symbol e.from).scope = true → Retains g ⟨e.to, some e.from, e.evidence⟩

/-- A path of live edges on symbols that are reached through providers only. -/
def ProviderPath (g : Graph) (a b : SymbolId) : Prop :=
  flag (analyzeReachability g).providerReachable a = true ∧
    ∃ p, g.IsPath a p b ∧ ∀ e ∈ p, g.isLive e = true ∧ flag (analyzeReachability g).providerReachable e.to = true

structure Provenance (g : Graph) : Prop where
  sound : ∀ entry ∈ (buildReport g (analyzeReachability g)).providerReachable,
    Retains g entry ∧ flag (analyzeReachability g).providerReachable entry.symbol = true
  complete : ∀ id, flag (analyzeReachability g).providerReachable id = true →
    ∃ entry, Retains g entry ∧ ProviderPath g entry.symbol id ∧
      (isListed (g.symbol entry.symbol) = true → entry ∈ (buildReport g (analyzeReachability g)).providerReachable)

/-- Every provider edge from a reached symbol to a listed one that providers
alone reach leaves from an indexed body. -/
def ProviderEdgesIndexed (g : Graph) : Prop :=
  ∀ e ∈ g.edges, e.kind.isProvider = true → g.Reached e.from → g.ProviderReached e.to →
    isListed (g.symbol e.to) = true → hasIndexedBody (g.symbol e.from).scope = true

variable {g : Graph}

/-- Sorting and dropping repetitions loses no entry: the key is all of it. -/
theorem mem_providerReachable {result : ReachabilityResult} {entry : ProviderReachability} :
    entry ∈ (buildReport g result).providerReachable ↔ entry ∈ providerEntries g result := by
  show entry ∈ uniqueOn _ (sortOn (providerOrder g) (providerEntries g result)) ↔ _
  constructor
  · intro h
    exact (mem_sortOn _).1 ((uniqueOn_sublist _ _).subset h)
  · intro h
    obtain ⟨other, hother, hkey⟩ := key_mem_uniqueOn
      (fun item : ProviderReachability => (item.symbol, item.from, item.evidence.provider, item.evidence.reason))
      ((mem_sortOn (providerOrder g)).2 h)
    simp only [Prod.mk.injEq] at hkey
    obtain ⟨hsymbol, hfrom, hprovider, hreason⟩ := hkey
    have heq : other = entry := by
      obtain ⟨_, _, _, _⟩ := other
      obtain ⟨_, _, _, _⟩ := entry
      simp_all
    exact heq ▸ hother

theorem mem_providerEntries {result : ReachabilityResult} {entry : ProviderReachability} :
    entry ∈ providerEntries g result ↔
      (flag result.providerReachable entry.symbol = true ∧ isListed (g.symbol entry.symbol) = true) ∧
        ((∃ e ∈ g.edges, e.kind.isProvider = true ∧ flag result.reachable e.from = true ∧
            entry = ⟨e.to, some e.from, e.evidence⟩) ∨
          ∃ r ∈ g.roots, r.kind.isProvider = true ∧ entry = ⟨r.symbol, none, r.evidence⟩) := by
  simp only [providerEntries, List.mem_append, List.mem_map, List.mem_filter, Bool.and_eq_true]
  constructor
  · rintro (⟨e, ⟨he, ⟨⟨hkind, hfrom⟩, hto⟩, hlisted⟩, rfl⟩ | ⟨r, ⟨hr, ⟨hkind, hto⟩, hlisted⟩, rfl⟩)
    · exact ⟨⟨hto, hlisted⟩, .inl ⟨e, he, hkind, hfrom, rfl⟩⟩
    · exact ⟨⟨hto, hlisted⟩, .inr ⟨r, hr, hkind, rfl⟩⟩
  · rintro ⟨⟨hto, hlisted⟩, ⟨e, he, hkind, hfrom, rfl⟩ | ⟨r, hr, hkind, rfl⟩⟩
    · exact .inl ⟨e, ⟨he, ⟨⟨hkind, hfrom⟩, hto⟩, hlisted⟩, rfl⟩
    · exact .inr ⟨r, ⟨hr, ⟨hkind, hto⟩, hlisted⟩, rfl⟩

theorem Retains.listed {entry : ProviderReachability} (h : Retains g entry)
    (hreached : flag (analyzeReachability g).providerReachable entry.symbol = true)
    (hlisted : isListed (g.symbol entry.symbol) = true) :
    entry ∈ (buildReport g (analyzeReachability g)).providerReachable := by
  rw [mem_providerReachable, mem_providerEntries]
  refine ⟨⟨hreached, hlisted⟩, ?_⟩
  cases h with
  | root hr hkind => exact .inr ⟨_, hr, hkind, rfl⟩
  | edge he hkind hfrom _ => exact .inl ⟨_, he, hkind, hfrom, rfl⟩

/-! ## Completeness -/

theorem ProviderPath.step {a b : SymbolId} (h : ProviderPath g a b) {e : Edge} (he : e ∈ g.edges) (hfrom : e.from = b)
    (hlive : g.isLive e = true) (hto : flag (analyzeReachability g).providerReachable e.to = true) :
    ProviderPath g a e.to := by
  obtain ⟨ha, hpath⟩ := h
  have hext := (Graph.exists_path_iff.1 hpath).tail ⟨e, he, ⟨hlive, hto⟩, hfrom, rfl⟩
  exact ⟨ha, Graph.exists_path_iff.2 hext⟩

/-- The symbols behind the last structurally reached one on a path hang on the
root or on the edge that comes after it. -/
theorem retained_of_reached (h : g.ValidIds) {id : SymbolId} (hid : g.Reached id) :
    g.StructurallyReached id ∨ ∃ entry, Retains g entry ∧ ProviderPath g entry.symbol id := by
  obtain ⟨r, hr, hpath⟩ := hid
  rw [Graph.exists_path_iff] at hpath
  have hroot : g.Reached r.symbol := ⟨r, hr, [], rfl, by simp⟩
  -- from the root on, so that the symbol before `id` has its root or edge already
  induction hpath with
  | refl =>
    by_cases hstructural : g.StructurallyReached r.symbol
    · exact .inl hstructural
    · have hkind : r.kind.isProvider = true := by
        by_contra hkind
        exact hstructural ⟨r, hr, by simpa using hkind, [], rfl, by simp⟩
      have hreached := (Graph.flag_providerReached h r.symbol).2 ⟨hroot, hstructural⟩
      exact .inr ⟨_, .root hr hkind, hreached, [], rfl, by simp⟩
  | @tail b c hab hstep ih =>
    obtain ⟨e, he, hlive, hfrom, rfl⟩ := hstep
    have hb : g.Reached b := ⟨r, hr, Graph.exists_path_iff.2 hab⟩
    by_cases hstructural : g.StructurallyReached e.to
    · exact .inl hstructural
    · have hto := (Graph.flag_providerReached h e.to).2 ⟨hb.step he hfrom hlive, hstructural⟩
      rcases ih with hsource | ⟨entry, hentry, hprovider⟩
      · have hkind : e.kind.isProvider = true := by
          by_contra hkind
          exact hstructural (hsource.step he hfrom hlive (by simpa using hkind))
        have hreached := (Graph.flag_reached h e.from).2 (hfrom ▸ hb)
        exact .inr ⟨_, .edge he hkind hreached (Graph.isLive_iff.1 hlive).2, hto, [], rfl, by simp⟩
      · exact .inr ⟨entry, hentry, hprovider.step he hfrom hlive hto⟩

/-! ## Soundness, and its condition -/

theorem provenance_iff (h : g.ValidIds) : Provenance g ↔ ProviderEdgesIndexed g := by
  constructor
  · intro hprovenance e he hkind hfrom hto hlisted
    have hentry : (⟨e.to, some e.from, e.evidence⟩ : ProviderReachability) ∈
        (buildReport g (analyzeReachability g)).providerReachable := by
      rw [mem_providerReachable, mem_providerEntries]
      exact ⟨⟨(Graph.flag_providerReached h e.to).2 hto, hlisted⟩,
        .inl ⟨e, he, hkind, (Graph.flag_reached h e.from).2 hfrom, rfl⟩⟩
    have hretains := (hprovenance.sound _ hentry).1
    generalize hx : (⟨e.to, some e.from, e.evidence⟩ : ProviderReachability) = entry at hretains
    cases hretains with
    | root => simp at hx
    | edge _ _ _ hbody =>
      simp only [ProviderReachability.mk.injEq, Option.some.injEq] at hx
      rwa [hx.2.1]
  · intro hindexed
    constructor
    · intro entry hentry
      rw [mem_providerReachable, mem_providerEntries] at hentry
      obtain ⟨⟨hto, hlisted⟩, ⟨e, he, hkind, hfrom, rfl⟩ | ⟨r, hr, hkind, rfl⟩⟩ := hentry
      · have hbody := hindexed e he hkind ((Graph.flag_reached h e.from).1 hfrom)
          ((Graph.flag_providerReached h e.to).1 hto) hlisted
        exact ⟨.edge he hkind hfrom hbody, hto⟩
      · exact ⟨.root hr hkind, hto⟩
    · intro id hid
      obtain ⟨hreached, hnot⟩ := (Graph.flag_providerReached h id).1 hid
      rcases retained_of_reached h hreached with hstructural | ⟨entry, hentry, hpath⟩
      · exact absurd hstructural hnot
      · exact ⟨entry, hentry, hpath, hentry.listed hpath.1⟩

/-- A program calls a library function, which a policy lets call a handler; another policy keeps the handler. -/
def opaqueRegistrar : Graph :=
  { symbols := [{ key := lit "main", defined := true, scope := .reportable },
      { key := lit "register", scope := .externalOpaque },
      { key := lit "handler", defined := true, scope := .reportable }]
    edges := [⟨0, 1, .directCall, {}⟩, ⟨1, 2, .provider, ⟨lit "policy", lit "registered"⟩⟩]
    roots := [⟨0, .applicationEntryPoint, {}⟩, ⟨2, .provider, ⟨lit "policy", lit "kept"⟩⟩] }

theorem opaqueRegistrar_listed : ¬ Provenance opaqueRegistrar := by
  intro h
  have hentry : (⟨2, some 1, ⟨lit "policy", lit "registered"⟩⟩ : ProviderReachability) ∈
      (buildReport opaqueRegistrar (analyzeReachability opaqueRegistrar)).providerReachable := by
    rw [mem_providerReachable]
    decide
  have hretains := (h.sound _ hentry).1
  generalize hx : (⟨2, some 1, ⟨lit "policy", lit "registered"⟩⟩ : ProviderReachability) = entry at hretains
  cases hretains with
  | root => simp at hx
  | edge _ _ _ hbody =>
    simp only [ProviderReachability.mk.injEq, Option.some.injEq] at hx
    rw [← hx.2.1] at hbody
    revert hbody
    decide

/-- The same program, with the policy's edge from the call site. -/
def indexedRegistrar : Graph :=
  { opaqueRegistrar with edges := [⟨0, 1, .directCall, {}⟩, ⟨0, 2, .provider, ⟨lit "policy", lit "registered"⟩⟩] }

theorem indexedRegistrar_provenance : Provenance indexedRegistrar := by
  have hbody : ∀ e ∈ indexedRegistrar.edges, hasIndexedBody (indexedRegistrar.symbol e.from).scope = true := by decide
  exact (provenance_iff ⟨by decide, by decide, by decide, by decide⟩).2 fun e he _ _ _ _ => hbody e he

end CxxDead
