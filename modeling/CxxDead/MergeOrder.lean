import CxxDead.Merge
/-!
# Merging in any order

What a sequence of merges makes of the records of one key, said without their
order.

- `Joined.merge`: one more record.
- `collected_forM`: after a sequence of merges every key's record is the join of
  what the sources have, and the facts are the union of theirs.
- `Joined.agree`: two joins of the same records agree in every field that
  `mergeSymbol` joins.
-/

namespace CxxDead

open Lib

/-- `v` is the nonempty text that all of `l` that are not empty agree on. -/
def Agreed (l : List Bytes) (v : Bytes) : Prop := (∀ x ∈ l, x = [] ∨ x = v) ∧ (v = [] ∨ v ∈ l)

/-- `v` is the least of the nonempty texts of `l`, or empty if there is none. -/
def LeastNonempty (l : List Bytes) (v : Bytes) : Prop := (∀ x ∈ l, x ≠ [] → v ≠ [] ∧ v ≤ x) ∧ (v = [] ∨ v ∈ l)

theorem Agreed.unique {l l' : List Bytes} {v v' : Bytes} (hl : ∀ x, x ∈ l ↔ x ∈ l') (h : Agreed l v)
    (h' : Agreed l' v') : v = v' := by
  rcases h.2 with rfl | hv
  · rcases h'.2 with rfl | hv'
    · rfl
    · exact ((h.1 v' ((hl v').2 hv')).elim id id).symm
  · rcases h'.1 v ((hl v).1 hv) with rfl | rfl
    · rcases h'.2 with rfl | hv'
      · rfl
      · exact ((h.1 v' ((hl v').2 hv')).elim id id).symm
    · rfl

theorem LeastNonempty.unique {l l' : List Bytes} {v v' : Bytes} (hl : ∀ x, x ∈ l ↔ x ∈ l')
    (h : LeastNonempty l v) (h' : LeastNonempty l' v') : v = v' := by
  by_cases hv : v = []
  · by_cases hv' : v' = []
    · rw [hv, hv']
    · exact absurd hv (h.1 v' ((hl v').2 (h'.2.resolve_left hv')) hv').1
  · obtain ⟨hv', hle'⟩ := h'.1 v ((hl v).1 (h.2.resolve_left hv)) hv
    exact le_antisymm (h.1 v' ((hl v').2 (h'.2.resolve_left hv')) hv').2 hle'

/-- One more text, which agrees or is empty. -/
theorem Agreed.snoc {l : List Bytes} {v x : Bytes} (h : Agreed l v) (hx : agreeOrEmpty v x = true) :
    Agreed (l ++ [x]) (if v = [] then x else v) := by
  simp only [agreeOrEmpty, Bool.or_eq_true, List.isEmpty_iff, beq_iff_eq] at hx
  split
  · rename_i hv
    subst hv
    refine ⟨fun y hy => ?_, .inr (by simp)⟩
    rcases List.mem_append.1 hy with hy | hy
    · exact (h.1 y hy).elim .inl .inl
    · exact .inr (List.mem_singleton.1 hy)
  · rename_i hv
    refine ⟨fun y hy => ?_, h.2.imp id fun hm => List.mem_append_left _ hm⟩
    rcases List.mem_append.1 hy with hy | hy
    · exact h.1 y hy
    · rw [List.mem_singleton.1 hy]
      rcases hx with (hx | hx) | hx
      · exact absurd hx hv
      · exact .inl hx
      · exact .inr hx.symm

theorem LeastNonempty.snoc {l : List Bytes} {v x : Bytes} (h : LeastNonempty l v) :
    LeastNonempty (l ++ [x]) (if v = [] ∨ (x ≠ [] ∧ x < v) then x else v) := by
  split
  · rename_i hc
    refine ⟨fun y hy hne => ?_, .inr (by simp)⟩
    rcases List.mem_append.1 hy with hy | hy
    · obtain ⟨hv, hle⟩ := h.1 y hy hne
      rcases hc with hc | ⟨hx, hlt⟩
      · exact absurd hc hv
      · exact ⟨hx, le_trans (le_of_lt hlt) hle⟩
    · rw [List.mem_singleton.1 hy] at hne ⊢
      exact ⟨hne, le_refl _⟩
  · rename_i hc
    rw [not_or, not_and, not_lt] at hc
    refine ⟨fun y hy hne => ?_, h.2.imp id fun hm => List.mem_append_left _ hm⟩
    rcases List.mem_append.1 hy with hy | hy
    · exact h.1 y hy hne
    · rw [List.mem_singleton.1 hy] at hne ⊢
      exact ⟨hc.1, hc.2 hne⟩

/-! ## Joins of records -/

/-- `s` is what merging the records `l`, in some order, makes of the fields that
do not depend on the order. -/
structure Joined (l : List Symbol) (s : Symbol) : Prop where
  kind : ∀ x ∈ l, x.kind = s.kind
  internalLinkage : ∀ x ∈ l, x.internalLinkage = s.internalLinkage
  configurationId : ∀ x ∈ l, x.identity.configurationId = s.identity.configurationId
  linkageName : ∀ x ∈ l, x.identity.linkageName = s.identity.linkageName
  translationUnit : ∀ x ∈ l, x.identity.translationUnit = s.identity.translationUnit
  usr : Agreed (l.map (·.identity.usr)) s.identity.usr
  qualifiedName : Agreed (l.map (·.qualifiedName)) s.qualifiedName
  className : Agreed (l.map (·.className)) s.className
  fallbackAnchor : LeastNonempty (l.map (·.identity.fallbackAnchor)) s.identity.fallbackAnchor
  quality : s.identity.quality = .stable ↔ ∃ x ∈ l, x.identity.quality = .stable
  defined : s.defined = true ↔ ∃ x ∈ l, x.defined = true
  isVirtual : s.isVirtual = true ↔ ∃ x ∈ l, x.isVirtual = true
  scope : (∃ x ∈ l, x.scope = s.scope) ∧ ∀ x ∈ l, scopeRank x.scope ≤ scopeRank s.scope

theorem Joined.single (s : Symbol) : Joined [s] s := by
  have hleast : ∀ v : Bytes, LeastNonempty [v] v := fun v => ⟨by simp, by simp⟩
  have hagreed : ∀ v : Bytes, Agreed [v] v := fun v => ⟨by simp, by simp⟩
  constructor
  case usr => exact hagreed _
  case qualifiedName => exact hagreed _
  case className => exact hagreed _
  case fallbackAnchor => exact hleast _
  all_goals simp

theorem compatible_fields {t x : Symbol} (h : ∀ check ∈ compatibility t x, check.1 = true) :
    t.kind = x.kind ∧ agreeOrEmpty t.qualifiedName x.qualifiedName = true ∧
      agreeOrEmpty t.className x.className = true ∧ t.internalLinkage = x.internalLinkage ∧
      t.identity.configurationId = x.identity.configurationId ∧ t.identity.linkageName = x.identity.linkageName ∧
      t.identity.translationUnit = x.identity.translationUnit ∧
      agreeOrEmpty t.identity.usr x.identity.usr = true := by
  simp only [compatibility, List.mem_cons, List.not_mem_nil, or_false, forall_eq_or_imp, forall_eq,
    beq_iff_eq] at h
  tauto

theorem exists_mem_snoc {l : List Symbol} {x : Symbol} {p : Symbol → Prop} :
    (∃ y ∈ l ++ [x], p y) ↔ (∃ y ∈ l, p y) ∨ p x := by
  simp [or_and_right, exists_or]

/-- One more record joins the others. -/
theorem Joined.merge {l : List Symbol} {t x : Symbol} (h : Joined l t)
    (hc : ∀ check ∈ compatibility t x, check.1 = true) : Joined (l ++ [x]) (mergeFields t x) := by
  obtain ⟨hkind, hqualified, hclass, hlinkage, hconfiguration, hname, hunit, husr⟩ := compatible_fields hc
  have hall : ∀ {p : Symbol → Prop}, (∀ y ∈ l, p y) → p x → ∀ y ∈ l ++ [x], p y := fun hl hx y hy => by
    rcases List.mem_append.1 hy with hy | hy
    · exact hl y hy
    · exact List.mem_singleton.1 hy ▸ hx
  refine ⟨hall h.kind hkind.symm, ?_, hall h.configurationId hconfiguration.symm, hall h.linkageName hname.symm,
    hall h.translationUnit hunit.symm, ?_, ?_, ?_, ?_, ?_, ?_, ?_, ?_⟩
  · show ∀ y ∈ l ++ [x], y.internalLinkage = (t.internalLinkage || x.internalLinkage)
    rw [← hlinkage, Bool.or_self]
    exact hall h.internalLinkage hlinkage.symm
  · rw [List.map_append]
    exact h.usr.snoc husr
  · rw [List.map_append]
    exact h.qualifiedName.snoc hqualified
  · rw [List.map_append]
    exact h.className.snoc hclass
  · rw [List.map_append]
    exact h.fallbackAnchor.snoc
  · rw [exists_mem_snoc, ← h.quality]
    show (if x.identity.quality = .stable then IdentityQuality.stable else t.identity.quality) = .stable ↔ _
    split
    · rename_i hx; simp [hx]
    · rename_i hx; simp [hx]
  · rw [exists_mem_snoc, ← h.defined]
    exact Bool.or_eq_true_iff
  · rw [exists_mem_snoc, ← h.isVirtual]
    exact Bool.or_eq_true_iff
  · obtain ⟨⟨y, hy, hscope⟩, hmax⟩ := h.scope
    show (∃ y ∈ l ++ [x], y.scope = if scopeRank x.scope > scopeRank t.scope then x.scope else t.scope) ∧ _
    have hresult : (mergeFields t x).scope = if scopeRank x.scope > scopeRank t.scope then x.scope else t.scope := rfl
    rw [hresult]
    split
    · rename_i hgt
      exact ⟨⟨x, by simp, rfl⟩, hall (fun z hz => by have := hmax z hz; omega) (Nat.le_refl _)⟩
    · rename_i hle
      exact ⟨⟨y, List.mem_append_left _ hy, hscope⟩, hall hmax (by omega)⟩

theorem scopeRank_injective : Function.Injective scopeRank := by
  intro a b h; cases a <;> cases b <;> first | rfl | cases h

/-- The fields on which two joins of the same records agree. -/
structure SameFields (s s' : Symbol) : Prop where
  kind : s.kind = s'.kind
  internalLinkage : s.internalLinkage = s'.internalLinkage
  identity : s.identity = s'.identity
  qualifiedName : s.qualifiedName = s'.qualifiedName
  className : s.className = s'.className
  defined : s.defined = s'.defined
  isVirtual : s.isVirtual = s'.isVirtual
  scope : s.scope = s'.scope

theorem Joined.agree {l l' : List Symbol} {s s' : Symbol} (hl : ∀ x, x ∈ l ↔ x ∈ l') (h : Joined l s)
    (h' : Joined l' s') : SameFields s s' := by
  obtain ⟨⟨x, hx, hscope⟩, hmax⟩ := h.scope
  obtain ⟨⟨x', hx', hscope'⟩, hmax'⟩ := h'.scope
  have hxl := (hl x).1 hx
  have hmap : ∀ f : Symbol → Bytes, ∀ v, v ∈ l.map f ↔ v ∈ l'.map f := fun f v => by
    simp only [List.mem_map, hl]
  have hex : ∀ p : Symbol → Prop, (∃ y ∈ l, p y) ↔ ∃ y ∈ l', p y := fun p => by simp only [hl]
  have hquality : s.identity.quality = s'.identity.quality := by
    have hiff := h.quality.trans ((hex _).trans h'.quality.symm)
    cases hq : s.identity.quality <;> cases hq' : s'.identity.quality <;> simp_all
  refine ⟨(h.kind x hx).symm.trans (h'.kind x hxl), (h.internalLinkage x hx).symm.trans (h'.internalLinkage x hxl),
    ?_, h.qualifiedName.unique (hmap _) h'.qualifiedName, h.className.unique (hmap _) h'.className, ?_, ?_, ?_⟩
  · have hconfiguration := (h.configurationId x hx).symm.trans (h'.configurationId x hxl)
    have hname := (h.linkageName x hx).symm.trans (h'.linkageName x hxl)
    have hunit := (h.translationUnit x hx).symm.trans (h'.translationUnit x hxl)
    have husr := h.usr.unique (hmap _) h'.usr
    have hanchor := h.fallbackAnchor.unique (hmap _) h'.fallbackAnchor
    cases hi : s.identity
    cases hi' : s'.identity
    simp_all
  · exact Bool.eq_iff_iff.2 (h.defined.trans ((hex _).trans h'.defined.symm))
  · exact Bool.eq_iff_iff.2 (h.isVirtual.trans ((hex _).trans h'.isVirtual.symm))
  · refine scopeRank_injective (Nat.le_antisymm ?_ ?_)
    · rw [← hscope]; exact hmax' x hxl
    · rw [← hscope']; exact hmax x' ((hl x').2 hx')

/-! ## A sequence of merges -/

/-- What the sources say about a key. -/
def contributions (sources : List Graph) (key : Bytes) : List Symbol := sources.filterMap (·.record key)

/-- `g` holds exactly what `sources` say. -/
structure Collected (sources : List Graph) (g : Graph) : Prop where
  inv : g.Inv
  record : ∀ key, (g.record key = none ∧ contributions sources key = []) ∨
    ∃ s, g.record key = some s ∧ contributions sources key ≠ [] ∧ Joined (contributions sources key) s
  edges : ∀ x, x ∈ g.edgeFacts ↔ ∃ source ∈ sources, x ∈ source.edgeFacts
  roots : ∀ x, x ∈ g.rootFacts ↔ ∃ source ∈ sources, x ∈ source.rootFacts
  escapes : ∀ x, x ∈ g.escapeFacts ↔ ∃ source ∈ sources, x ∈ source.escapeFacts
  suppressions : ∀ x, x ∈ g.suppressionFacts ↔ ∃ source ∈ sources, x ∈ source.suppressionFacts

theorem collected_empty : Collected [] {} :=
  ⟨Graph.inv_empty, fun _ => .inl ⟨rfl, rfl⟩, by simp [Graph.edgeFacts], by simp [Graph.rootFacts],
    by simp [Graph.escapeFacts], by simp [Graph.suppressionFacts]⟩

theorem contributions_snoc (sources : List Graph) (source : Graph) (key : Bytes) :
    contributions (sources ++ [source]) key = contributions sources key ++ (source.record key).toList := by
  unfold contributions
  rw [List.filterMap_append]
  cases h : source.record key <;> simp [h]

theorem Collected.merge {sources : List Graph} {g source g' : Graph} (h : Collected sources g)
    (hsource : source.Inv) {u : Unit} (hm : mergeGraph source g = .ok u g') : Collected (sources ++ [source]) g' := by
  obtain ⟨hmerged, hcompatible⟩ := Graph.mergeGraph_ok h.inv hsource hm
  have hex : ∀ p : Graph → Prop, (∃ s ∈ sources ++ [source], p s) ↔ (∃ s ∈ sources, p s) ∨ p source := fun p => by
    simp [or_and_right, exists_or]
  refine ⟨hmerged.inv, fun key => ?_, fun x => ?_, fun x => ?_, fun x => ?_, fun x => ?_⟩
  · rw [hmerged.record, contributions_snoc]
    cases hs : source.record key with
    | none =>
      have hkeep : Graph.mergedRecord (g.record key) none = g.record key := by cases g.record key <;> rfl
      rw [hkeep, Option.toList_none, List.append_nil]
      exact h.record key
    | some s =>
      obtain ⟨hmem, rfl⟩ := hsource.record_iff.1 hs
      rcases h.record s.key with ⟨hnone, hnil⟩ | ⟨t, ht, -, hjoined⟩
      · rw [hnone, hnil]
        exact .inr ⟨s, rfl, by simp, Joined.single s⟩
      · rw [ht]
        exact .inr ⟨_, rfl, by simp, hjoined.merge (hcompatible s hmem t ht)⟩
  · rw [hmerged.edges, h.edges, hex]
  · rw [hmerged.roots, h.roots, hex]
  · rw [hmerged.escapes, h.escapes, hex]
  · rw [hmerged.suppressions, h.suppressions, hex]

/-- The step and the run: merging `l` after `sources` collects both. -/
theorem collected_forM (l sources : List Graph) {g g' : Graph} (h : Collected sources g)
    (hl : ∀ source ∈ l, source.Inv) {u : Unit} (hm : l.forM mergeGraph g = .ok u g') : Collected (sources ++ l) g' := by
  induction l generalizing sources g with
  | nil =>
    obtain ⟨-, rfl⟩ := pure_ok_iff.1 hm
    rwa [List.append_nil]
  | cons source l ih =>
    obtain ⟨_, g₁, hfirst, hrest⟩ := bind_ok_iff.1 hm
    have := ih _ (h.merge (hl source List.mem_cons_self) hfirst)
      (fun s hs => hl s (List.mem_cons_of_mem _ hs)) hrest
    rwa [List.append_assoc] at this

theorem mergeGraphs_collected {sources : List Graph} (hl : ∀ source ∈ sources, source.Inv) {u : Unit} {g : Graph}
    (hm : mergeGraphs sources {} = .ok u g) : Collected sources g :=
  collected_forM sources [] collected_empty hl hm

/-- The records of two graphs that collect the same sources agree. -/
theorem Collected.agree {sources sources' : List Graph} {g g' : Graph} (hp : sources.Perm sources')
    (h : Collected sources g) (h' : Collected sources' g') (key : Bytes) :
    (g.record key = none ∧ g'.record key = none) ∨
      ∃ s s', g.record key = some s ∧ g'.record key = some s' ∧ SameFields s s' := by
  have hperm : (contributions sources key).Perm (contributions sources' key) := hp.filterMap _
  rcases h.record key with ⟨hnone, hnil⟩ | ⟨s, hs, hne, hjoined⟩
  · rcases h'.record key with ⟨hnone', -⟩ | ⟨s', -, hne', -⟩
    · exact .inl ⟨hnone, hnone'⟩
    · exact absurd (List.nil_perm.1 (hnil ▸ hperm)) hne'
  · rcases h'.record key with ⟨-, hnil'⟩ | ⟨s', hs', -, hjoined'⟩
    · exact absurd (List.perm_nil.1 (hnil' ▸ hperm)) hne
    · exact .inr ⟨s, s', hs, hs', hjoined.agree (fun x => hperm.mem_iff) hjoined'⟩

end CxxDead
