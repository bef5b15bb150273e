import CxxDead.MergeOrder
/-!
# Declarations of one symbol

What a graph makes of a list of records that share one key, added one after
another with `addOrMergeSymbol`.

- `addAll_iff_agree`: a list is accepted exactly if its records agree pairwise,
  unless a nameless first record hides two names that differ.
- `Presented.merge`: which of the records the merged one has its source from.
-/

namespace CxxDead

open Lib CxxDead.Graph

/-! ## Agreement -/

/-- Two texts are equal unless one of them is empty. -/
def AgreeOrEmpty (a b : Bytes) : Prop := a ≠ [] → b ≠ [] → a = b

/-- What two records of one symbol have to agree on, their names aside. -/
structure AgreeBesidesName (a b : Symbol) : Prop where
  kind : a.kind = b.kind
  internalLinkage : a.internalLinkage = b.internalLinkage
  configurationId : a.identity.configurationId = b.identity.configurationId
  linkageName : a.identity.linkageName = b.identity.linkageName
  translationUnit : a.identity.translationUnit = b.identity.translationUnit
  qualifiedName : AgreeOrEmpty a.qualifiedName b.qualifiedName
  className : AgreeOrEmpty a.className b.className
  usr : AgreeOrEmpty a.identity.usr b.identity.usr

/-- What two records of one symbol have to agree on. -/
structure Agree (a b : Symbol) : Prop extends AgreeBesidesName a b where
  name : AgreeOrEmpty a.name b.name

/-- A record that an empty graph takes. -/
def Admissible (s : Symbol) : Prop := s.key ≠ [] ∧ s.scope ≠ .excluded

/-- Adding the records to `g`, in their order, throws nothing. -/
def Completes (g : Graph) (l : List Symbol) : Prop := ∃ ids g', l.mapM addOrMergeSymbol g = .ok ids g'

/-- The first record has no name, and two of the others have different ones. -/
def NamesHidden (l : List Symbol) : Prop :=
  (∀ s ∈ l.head?, s.name = []) ∧ l.Pairwise AgreeBesidesName ∧ ¬ l.Pairwise fun a b => AgreeOrEmpty a.name b.name

theorem agreeOrEmpty_iff {a b : Bytes} : agreeOrEmpty a b = true ↔ AgreeOrEmpty a b := by
  simp only [agreeOrEmpty, AgreeOrEmpty, Bool.or_eq_true, List.isEmpty_iff, beq_iff_eq]
  tauto

theorem compatibility_iff {a b : Symbol} : (∀ check ∈ compatibility a b, check.1 = true) ↔ Agree a b := by
  constructor
  · intro h
    simp only [compatibility, List.mem_cons, List.not_mem_nil, or_false, forall_eq_or_imp, forall_eq, beq_iff_eq,
      agreeOrEmpty_iff] at h
    obtain ⟨hkind, hqualified, hname, hclass, hlinkage, hconfiguration, hlink, hunit, husr⟩ := h
    exact ⟨⟨hkind, hlinkage, hconfiguration, hlink, hunit, hqualified, hclass, husr⟩, hname⟩
  · rintro ⟨⟨hkind, hlinkage, hconfiguration, hlink, hunit, hqualified, hclass, husr⟩, hname⟩
    simp only [compatibility, List.mem_cons, List.not_mem_nil, or_false, forall_eq_or_imp, forall_eq, beq_iff_eq,
      agreeOrEmpty_iff]
    exact ⟨hkind, hqualified, hname, hclass, hlinkage, hconfiguration, hlink, hunit, husr⟩

theorem AgreeOrEmpty.symm {a b : Bytes} (h : AgreeOrEmpty a b) : AgreeOrEmpty b a := fun hb ha => (h ha hb).symm

/-- A text agrees with what others have settled on exactly if it agrees with each of them. -/
theorem Agreed.agree_iff {l : List Bytes} {v x : Bytes} (h : Agreed l v) :
    AgreeOrEmpty v x ↔ ∀ y ∈ l, AgreeOrEmpty y x := by
  constructor
  · intro hv y hy hne hx
    rcases h.1 y hy with rfl | rfl
    · exact absurd rfl hne
    · exact hv hne hx
  · intro hall hne hx
    exact hall v (h.2.resolve_left hne) hne hx

/-! ## The record of the key -/

/-- The checks that adding the records makes, one after the other. -/
def Accepted : Option Symbol → List Symbol → Prop
  | _, [] => True
  | record, s :: l => Compatible record s ∧ Accepted (mergedRecord record (some s)) l

/-- The record that adding the records leaves. -/
def mergedAll (record : Option Symbol) (l : List Symbol) : Option Symbol :=
  l.foldl (fun record s => mergedRecord record (some s)) record

section Adding
variable {g g' : Graph} {key : Bytes} {l : List Symbol}

theorem addAll_ok (hg : g.Inv) (hkey : ∀ s ∈ l, s.key = key) {ids : List SymbolId}
    (h : l.mapM addOrMergeSymbol g = .ok ids g') :
    (∀ s ∈ l, Admissible s) ∧ Accepted (g.record key) l ∧ g'.record key = mergedAll (g.record key) l := by
  induction l generalizing g ids with
  | nil =>
    obtain ⟨-, rfl⟩ := pure_ok_iff.1 h
    exact ⟨by simp, trivial, rfl⟩
  | cons s l ih =>
    rw [List.mapM_cons] at h
    obtain ⟨id, g₁, hs, h⟩ := bind_ok_iff.1 h
    obtain ⟨ids, g₂, hl, h⟩ := bind_ok_iff.1 h
    obtain ⟨-, rfl⟩ := pure_ok_iff.1 h
    obtain ⟨hne, hscope, -⟩ := addOrMergeSymbol_ok hs
    obtain ⟨-, -, -, hcompatible, hrecord⟩ := addOrMergeSymbol_spec hg hs
    obtain rfl := hkey s List.mem_cons_self
    have hfirst := hrecord s.key
    rw [if_pos rfl] at hfirst
    obtain ⟨hadmissible, haccepted, hfinal⟩ := ih (Keeps.ok (addOrMergeSymbol_inv s) hg hs)
      (fun t ht => hkey t (List.mem_cons_of_mem _ ht)) hl
    rw [hfirst] at haccepted hfinal
    exact ⟨List.forall_mem_cons.2 ⟨⟨hne, hscope⟩, hadmissible⟩, ⟨hcompatible, haccepted⟩, hfinal⟩

theorem addAll_completes (hg : g.Inv) (hkey : ∀ s ∈ l, s.key = key) (hadmissible : ∀ s ∈ l, Admissible s)
    (haccepted : Accepted (g.record key) l) : Completes g l := by
  induction l generalizing g with
  | nil => exact ⟨[], g, rfl⟩
  | cons s l ih =>
    obtain ⟨⟨hne, hscope⟩, hrest⟩ := List.forall_mem_cons.1 hadmissible
    obtain rfl := hkey s List.mem_cons_self
    obtain ⟨id, g₁, hs⟩ := addOrMergeSymbol_completes hne hscope haccepted.1
    obtain ⟨-, -, -, -, hrecord⟩ := addOrMergeSymbol_spec hg hs
    have hfirst := hrecord s.key
    rw [if_pos rfl] at hfirst
    obtain ⟨ids, g₂, hl⟩ := ih (Keeps.ok (addOrMergeSymbol_inv s) hg hs)
      (fun t ht => hkey t (List.mem_cons_of_mem _ ht)) hrest (by rw [hfirst]; exact haccepted.2)
    rw [Completes, List.mapM_cons]
    exact ⟨_, _, bind_ok_iff.2 ⟨id, g₁, hs, bind_ok_iff.2 ⟨ids, g₂, hl, rfl⟩⟩⟩

theorem completes_iff (hg : g.Inv) (hkey : ∀ s ∈ l, s.key = key) :
    Completes g l ↔ (∀ s ∈ l, Admissible s) ∧ Accepted (g.record key) l := by
  constructor
  · rintro ⟨ids, g', h⟩
    obtain ⟨hadmissible, haccepted, -⟩ := addAll_ok hg hkey h
    exact ⟨hadmissible, haccepted⟩
  · rintro ⟨hadmissible, haccepted⟩
    exact addAll_completes hg hkey hadmissible haccepted

end Adding

/-! ## Which lists are accepted -/

theorem Joined.agree_iff {p : List Symbol} {t x : Symbol} (h : Joined p t) (hp : p ≠ []) :
    AgreeBesidesName t x ↔ ∀ y ∈ p, AgreeBesidesName y x := by
  have husr := @Agreed.agree_iff _ _ x.identity.usr h.usr
  have hqualified := @Agreed.agree_iff _ _ x.qualifiedName h.qualifiedName
  have hclass := @Agreed.agree_iff _ _ x.className h.className
  simp only [List.forall_mem_map] at husr hqualified hclass
  constructor
  · intro ht y hy
    exact ⟨(h.kind y hy).trans ht.kind, (h.internalLinkage y hy).trans ht.internalLinkage,
      (h.configurationId y hy).trans ht.configurationId, (h.linkageName y hy).trans ht.linkageName,
      (h.translationUnit y hy).trans ht.translationUnit, hqualified.1 ht.qualifiedName y hy,
      hclass.1 ht.className y hy, husr.1 ht.usr y hy⟩
  · intro hall
    obtain ⟨y, hy⟩ := List.exists_mem_of_ne_nil p hp
    have hxy := hall y hy
    exact ⟨(h.kind y hy).symm.trans hxy.kind, (h.internalLinkage y hy).symm.trans hxy.internalLinkage,
      (h.configurationId y hy).symm.trans hxy.configurationId, (h.linkageName y hy).symm.trans hxy.linkageName,
      (h.translationUnit y hy).symm.trans hxy.translationUnit, hqualified.2 fun z hz => (hall z hz).qualifiedName,
      hclass.2 fun z hz => (hall z hz).className, husr.2 fun z hz => (hall z hz).usr⟩

/-- Every later record is held against all earlier ones, but against the first one's name only. -/
theorem accepted_some_iff (l : List Symbol) {p : List Symbol} {t : Symbol} (h : Joined p t) (hp : p ≠ []) :
    Accepted (some t) l ↔ l.Pairwise AgreeBesidesName ∧ (∀ y ∈ p, ∀ x ∈ l, AgreeBesidesName y x) ∧
      ∀ x ∈ l, AgreeOrEmpty t.name x.name := by
  induction l generalizing p t with
  | nil => simp [Accepted]
  | cons x l ih =>
    have hcompatible : Compatible (some t) x ↔ (∀ y ∈ p, AgreeBesidesName y x) ∧ AgreeOrEmpty t.name x.name := by
      rw [← h.agree_iff hp]
      constructor
      · intro hc
        obtain ⟨hrest, hname⟩ := compatibility_iff.1 (hc t rfl)
        exact ⟨hrest, hname⟩
      · rintro ⟨hrest, hname⟩ t' ht
        cases ht
        exact compatibility_iff.2 ⟨hrest, hname⟩
    have hnext : ∀ hc : Compatible (some t) x, Accepted (mergedRecord (some t) (some x)) l ↔
        l.Pairwise AgreeBesidesName ∧ (∀ y ∈ p ++ [x], ∀ z ∈ l, AgreeBesidesName y z) ∧
          ∀ z ∈ l, AgreeOrEmpty t.name z.name := fun hc => ih (h.merge (hc t rfl)) (by simp)
    constructor
    · rintro ⟨hc, hrest⟩
      obtain ⟨hpairs, hearlier, hnames⟩ := (hnext hc).1 hrest
      obtain ⟨hx, hname⟩ := hcompatible.1 hc
      refine ⟨List.pairwise_cons.2 ⟨hearlier x (by simp), hpairs⟩, fun y hy => ?_, ?_⟩
      · exact List.forall_mem_cons.2 ⟨hx y hy, hearlier y (List.mem_append_left _ hy)⟩
      · exact List.forall_mem_cons.2 ⟨hname, hnames⟩
    · rintro ⟨hpairs, hearlier, hnames⟩
      obtain ⟨hx, hpairs⟩ := List.pairwise_cons.1 hpairs
      have hc := hcompatible.2 ⟨fun y hy => hearlier y hy x List.mem_cons_self, hnames x List.mem_cons_self⟩
      refine ⟨hc, (hnext hc).2 ⟨hpairs, fun y hy => ?_, fun z hz => hnames z (List.mem_cons_of_mem _ hz)⟩⟩
      rcases List.mem_append.1 hy with hy | hy
      · exact fun z hz => hearlier y hy z (List.mem_cons_of_mem _ hz)
      · rw [List.mem_singleton.1 hy]
        exact hx

theorem accepted_cons_iff (s : Symbol) (l : List Symbol) :
    Accepted none (s :: l) ↔
      (s :: l).Pairwise AgreeBesidesName ∧ ∀ x ∈ l, AgreeOrEmpty s.name x.name := by
  have hsome := accepted_some_iff l (Joined.single s) (by simp)
  have hnone : Compatible none s := fun t ht => by cases ht
  rw [Accepted, show mergedRecord none (some s) = some s from rfl, hsome, List.pairwise_cons]
  simp only [List.mem_singleton, forall_eq]
  exact ⟨fun ⟨_, hpairs, hs, hnames⟩ => ⟨⟨hs, hpairs⟩, hnames⟩,
    fun ⟨⟨hs, hpairs⟩, hnames⟩ => ⟨hnone, hpairs, hs, hnames⟩⟩

theorem pairwise_agree_iff {l : List Symbol} : l.Pairwise Agree ↔
    l.Pairwise AgreeBesidesName ∧ l.Pairwise fun a b => AgreeOrEmpty a.name b.name := by
  rw [← List.pairwise_and_iff]
  exact ⟨fun h => h.imp fun hab => ⟨hab.1, hab.2⟩, fun h => h.imp fun hab => ⟨hab.1, hab.2⟩⟩

theorem accepted_iff {l : List Symbol} : Accepted none l ↔ l.Pairwise Agree ∨ NamesHidden l := by
  cases l with
  | nil => simp [Accepted]
  | cons s l =>
    rw [accepted_cons_iff, pairwise_agree_iff]
    constructor
    · rintro ⟨hpairs, hfirst⟩
      by_cases hnames : (s :: l).Pairwise fun a b => AgreeOrEmpty a.name b.name
      · exact .inl ⟨hpairs, hnames⟩
      · refine .inr ⟨?_, hpairs, hnames⟩
        rintro _ ⟨⟩
        by_contra hne
        refine hnames (List.pairwise_cons.2 ⟨hfirst, ?_⟩)
        refine List.pairwise_of_forall_mem_list fun a ha b hb hane hbne => ?_
        rw [← hfirst a ha hne hane, ← hfirst b hb hne hbne]
    · rintro (⟨hpairs, hnames⟩ | ⟨hempty, hpairs, -⟩)
      · exact ⟨hpairs, (List.pairwise_cons.1 hnames).1⟩
      · exact ⟨hpairs, fun x _ hne => absurd (hempty s rfl) hne⟩

/-- A list is accepted exactly if its records agree pairwise, unless a record is
refused on its own or the names that differ are hidden. -/
theorem addAll_iff_agree (g : Graph) (key : Bytes) (l : List Symbol) (hg : g.Inv) (hnone : g.record key = none)
    (hkey : ∀ s ∈ l, s.key = key) :
    (Completes g l ↔ l.Pairwise Agree) ↔
      (l.Pairwise Agree → ∀ s ∈ l, Admissible s) ∧ ((∀ s ∈ l, Admissible s) → ¬ NamesHidden l) := by
  rw [completes_iff hg hkey, hnone, accepted_iff]
  have hexclusive : NamesHidden l → ¬ l.Pairwise Agree := fun hhidden hpairs =>
    hhidden.2.2 (pairwise_agree_iff.1 hpairs).2
  tauto

/-- Three records of `f` under one key, the first without a name. -/
def nameless : List Symbol :=
  [{ key := lit "f", scope := .indexed }, { key := lit "f", name := lit "x", scope := .indexed },
    { key := lit "f", name := lit "y", scope := .indexed }]

theorem nameless_pair_accepted : Completes {} (nameless.take 2) := by
  have hpairs : (nameless.take 2).Pairwise Agree := by
    refine List.pairwise_pair.2 ⟨⟨rfl, rfl, rfl, rfl, rfl, ?_, ?_, ?_⟩, ?_⟩ <;> exact fun h => absurd rfl h
  refine ((addAll_iff_agree {} (lit "f") _ Graph.inv_empty rfl (by decide)).2 ⟨fun _ => ?_, ?_⟩).2 hpairs
  · exact fun s hs => ⟨by revert s; decide, by revert s; decide⟩
  · exact fun _ hhidden => hhidden.2.2 (pairwise_agree_iff.1 hpairs).2

theorem nameless_accepted :
    Completes {} nameless ∧ ¬ Completes {} nameless.reverse ∧ ¬ nameless.Pairwise Agree := by
  refine ⟨⟨[0, 0, 0], _, rfl⟩, ?_, fun h => ?_⟩
  · rintro ⟨ids, g', h⟩
    cases h
  · have hxy := (List.pairwise_cons.1 (List.pairwise_cons.1 h).2).1 _ (List.mem_singleton.2 rfl)
    exact absurd (hxy.name (by decide) (by decide)) (by decide)

/-! ## Where the source comes from -/

/-- The record says in which file it is. -/
def Located (s : Symbol) : Prop := (primarySourceExtent s).location.file.isEmpty = false

instance (s : Symbol) : Decidable (Located s) := inferInstanceAs (Decidable (_ = false))

def rank (s : Symbol) : Nat := scopeRank s.scope

/-- The record gives its source way to the others': it has none, or it declares what another one defines. -/
def Yields (l : List Symbol) (s : Symbol) : Prop := ¬ Located s ∨ (s.defined = false ∧ ∃ x ∈ l, x.defined = true)

/-- In some order `y` is the record that the source comes from: it can be the first located record that counts,
and the records that raise the scope before the others compete leave none of those better than `y`. -/
structure MayWin (l : List Symbol) (y : Symbol) : Prop where
  mem : y ∈ l
  located : Located y
  counts : y.defined = true ∨ ∀ x ∈ l, x.defined = true → ∃ u ∈ l, u.defined = true ∧ ¬ Located u
  rank_le : ∀ z ∈ l, ¬ Yields l z → ∃ w ∈ l, (w = y ∨ Yields l w) ∧ rank z ≤ rank w
  order_le : ∀ z ∈ l, ¬ Yields l z → (∀ w ∈ l, w = y ∨ Yields l w → rank w ≤ rank z) →
    sourceOrder y.source ≤ sourceOrder z.source

section Steps
variable {p : List Symbol} {t x y : Symbol}

/-- `source` replaces what `target` presents. -/
def takes (target source : Symbol) : Bool :=
  preferredDefinition target source || preferredScope target source || canonicalPeer target source

theorem takes_iff : takes t x = true ↔ (t.defined = false ∧ x.defined = true) ∨
    (t.defined = x.defined ∧ (rank t < rank x ∨ (rank t = rank x ∧ sourceOrder x.source < sourceOrder t.source))) := by
  have hscope : t.scope = x.scope ↔ rank t = rank x := scopeRank_injective.eq_iff.symm
  simp only [takes, preferredDefinition, preferredScope, canonicalPeer, Bool.or_eq_true, Bool.and_eq_true,
    Bool.not_eq_true', beq_iff_eq, decide_eq_true_eq, hscope, gt_iff_lt]
  unfold rank
  tauto

theorem mergeFields_source :
    (mergeFields t x).source = if (¬ Located t ∨ takes t x = true) ∧ Located x then x.source else t.source := by
  have hcond : ((primarySourceExtent t).location.file.isEmpty || takes t x) = true ∧
      (!(primarySourceExtent x).location.file.isEmpty) = true ↔ (¬ Located t ∨ takes t x = true) ∧ Located x := by
    simp [Located]
  rw [← Bool.and_eq_true] at hcond
  exact if_congr hcond rfl rfl

theorem mergeFields_signature :
    (mergeFields t x).signature = if t.signature = [] ∨ takes t x = true then x.signature else t.signature := rfl

theorem Located.congr (h : t.source = y.source) : Located t ↔ Located y := by
  unfold Located primarySourceExtent
  rw [h]

theorem Joined.defined_iff (h : Joined p t) : t.defined = false ↔ ∀ x ∈ p, x.defined = false := by
  rw [← Bool.not_eq_true, h.defined]
  simp

theorem Joined.rank_le (h : Joined p t) : ∀ z ∈ p, rank z ≤ rank t := h.scope.2

theorem Joined.rank_mem (h : Joined p t) : ∃ z ∈ p, rank z = rank t := by
  obtain ⟨z, hz, hscope⟩ := h.scope.1
  exact ⟨z, hz, congrArg scopeRank hscope⟩

theorem not_yields_iff : ¬ Yields p x ↔ Located x ∧ (x.defined = true ∨ ∀ z ∈ p, z.defined = false) := by
  unfold Yields
  rw [not_or, not_not, not_and_or, Bool.not_eq_false, not_exists]
  simp only [not_and, Bool.not_eq_true]

theorem Yields.snoc (h : Yields p y) (x : Symbol) : Yields (p ++ [x]) y :=
  h.imp id fun ⟨hy, z, hz, hdef⟩ => ⟨hy, z, List.mem_append_left _ hz, hdef⟩

theorem mayWin_alone (hx : Located x) (hcounts : x.defined = true ∨
      ∀ z ∈ p ++ [x], z.defined = true → ∃ u ∈ p ++ [x], u.defined = true ∧ ¬ Located u)
    (hall : ∀ z ∈ p, Yields (p ++ [x]) z) : MayWin (p ++ [x]) x := by
  have heq : ∀ z ∈ p ++ [x], ¬ Yields (p ++ [x]) z → z = x := by
    intro z hz hny
    rcases List.mem_append.1 hz with hz | hz
    · exact absurd (hall z hz) hny
    · exact List.mem_singleton.1 hz
  refine ⟨by simp, hx, hcounts, fun z hz hny => ?_, fun z hz hny _ => ?_⟩
  · exact ⟨x, by simp, .inl rfl, by rw [heq z hz hny]⟩
  · rw [heq z hz hny]

/-- The first located record presents its source. -/
theorem mayWin_first (hx : Located x) (hp : ∀ z ∈ p, ¬ Located z) : MayWin (p ++ [x]) x := by
  refine mayWin_alone hx ?_ fun z hz => .inl (hp z hz)
  cases hdef : x.defined with
  | true => exact .inl rfl
  | false =>
    refine .inr fun z hz hz' => ?_
    rcases List.mem_append.1 hz with hz | hz
    · exact ⟨z, List.mem_append_left _ hz, hz', hp z hz⟩
    · rw [List.mem_singleton.1 hz, hdef] at hz'
      cases hz'

/-- A located record that takes over may win. -/
theorem mayWin_takes (h : Joined p t) (hy : MayWin p y) (hsource : t.source = y.source) (hx : Located x)
    (htakes : takes t x = true) : MayWin (p ++ [x]) x := by
  rcases takes_iff.1 htakes with ⟨hdeclared, hdef⟩ | ⟨hdef, hbetter⟩
  · refine mayWin_alone hx (.inl hdef) fun z hz => .inr ⟨h.defined_iff.1 hdeclared z hz, x, by simp, hdef⟩
  · have hle : ∀ z ∈ p ++ [x], rank z ≤ rank x := by
      intro z hz
      rcases List.mem_append.1 hz with hz | hz
      · have := h.rank_le z hz
        omega
      · rw [List.mem_singleton.1 hz]
    refine ⟨by simp, hx, ?_, fun z hz _ => ⟨x, by simp, .inl rfl, hle z hz⟩, fun z hz hny hmax => ?_⟩
    · cases hx' : x.defined with
      | true => exact .inl rfl
      | false =>
        refine .inr fun z hz hz' => ?_
        rcases List.mem_append.1 hz with hz | hz
        · rw [h.defined_iff.1 (hdef.trans hx') z hz] at hz'
          cases hz'
        · rw [List.mem_singleton.1 hz, hx'] at hz'
          cases hz'
    · have hxz := hmax x (by simp) (.inl rfl)
      rcases List.mem_append.1 hz with hz | hz
      · have hzt := h.rank_le z hz
        rcases hbetter with hlt | ⟨heq, hlt⟩
        · omega
        · rw [hsource] at hlt
          refine le_trans (le_of_lt hlt) (hy.order_le z hz (fun hyields => hny (hyields.snoc x)) fun w hw _ => ?_)
          have := h.rank_le w hw
          omega
      · rw [List.mem_singleton.1 hz]

theorem MayWin.rank_top (h : Joined p t) (hy : MayWin p y) :
    ∃ w ∈ p, (w = y ∨ Yields p w) ∧ rank t ≤ rank w := by
  obtain ⟨z, hz, hrank⟩ := h.rank_mem
  rw [← hrank]
  by_cases hyields : Yields p z
  · exact ⟨z, hz, .inr hyields, le_refl _⟩
  · exact hy.rank_le z hz hyields

/-- A record that does not take over leaves the source to the one that has it. -/
theorem MayWin.stays (h : Joined p t) (hy : MayWin p y) (hsource : t.source = y.source)
    (hkeep : Located x → takes t x = false) : MayWin (p ++ [x]) y := by
  -- a located `x` is no upgrade, and as a peer it has neither a greater scope nor a smaller location
  have hnot : Located x → ¬ (t.defined = false ∧ x.defined = true) ∧ (t.defined = x.defined →
      rank x ≤ rank t ∧ (rank t = rank x → sourceOrder y.source ≤ sourceOrder x.source)) := by
    intro hx
    have hn := Bool.eq_false_iff.1 (hkeep hx)
    rw [Ne, takes_iff, not_or, hsource] at hn
    refine ⟨hn.1, fun hdef => ⟨?_, fun heq => ?_⟩⟩
    · by_contra hlt
      exact hn.2 ⟨hdef, .inl (by omega)⟩
    · by_contra hlt
      exact hn.2 ⟨hdef, .inr ⟨heq, not_le.1 hlt⟩⟩
  have hsame : ¬ Yields (p ++ [x]) x → t.defined = x.defined := by
    intro hny
    obtain ⟨hx, hdef | hnone⟩ := not_yields_iff.1 hny
    · rw [hdef]
      exact Bool.not_eq_false _ ▸ fun hf => (hnot hx).1 ⟨hf, hdef⟩
    · rw [hnone x (by simp)]
      exact h.defined_iff.2 fun z hz => hnone z (List.mem_append_left _ hz)
  obtain ⟨w, hw, hwy, htop⟩ := hy.rank_top h
  have hwy' : w = y ∨ Yields (p ++ [x]) w := hwy.imp id fun hyields => hyields.snoc x
  refine ⟨List.mem_append_left _ hy.mem, hy.located, ?_, fun z hz hny => ?_, fun z hz hny hmax => ?_⟩
  · refine hy.counts.imp id fun hcounts z hz hdef => ?_
    have hold : (∃ z ∈ p, z.defined = true) → ∃ u ∈ p ++ [x], u.defined = true ∧ ¬ Located u := by
      rintro ⟨z, hz, hdef⟩
      obtain ⟨u, hu, hu'⟩ := hcounts z hz hdef
      exact ⟨u, List.mem_append_left _ hu, hu'⟩
    rcases List.mem_append.1 hz with hz | hz
    · exact hold ⟨z, hz, hdef⟩
    · obtain rfl := List.mem_singleton.1 hz
      by_cases hx : Located z
      · refine hold (h.defined.1 ?_)
        exact Bool.not_eq_false _ ▸ fun hf => (hnot hx).1 ⟨hf, hdef⟩
      · exact ⟨z, by simp, hdef, hx⟩
  · rcases List.mem_append.1 hz with hz | hz
    · obtain ⟨v, hv, hvy, hle⟩ := hy.rank_le z hz fun hyields => hny (hyields.snoc x)
      exact ⟨v, List.mem_append_left _ hv, hvy.imp id fun hyields => hyields.snoc x, hle⟩
    · obtain rfl := List.mem_singleton.1 hz
      have hle := ((hnot (not_yields_iff.1 hny).1).2 (hsame hny)).1
      exact ⟨w, List.mem_append_left _ hw, hwy', hle.trans htop⟩
  · rcases List.mem_append.1 hz with hz | hz
    · refine hy.order_le z hz (fun hyields => hny (hyields.snoc x)) fun v hv hvy => ?_
      exact hmax v (List.mem_append_left _ hv) (hvy.imp id fun hyields => hyields.snoc x)
    · obtain rfl := List.mem_singleton.1 hz
      obtain ⟨hle, horder⟩ := (hnot (not_yields_iff.1 hny).1).2 (hsame hny)
      exact horder (le_antisymm (htop.trans (hmax w (List.mem_append_left _ hw) hwy')) hle)

/-- Where the source of the merged record comes from. -/
def Presented (p : List Symbol) (t : Symbol) : Prop :=
  ((∀ x ∈ p, ¬ Located x) ∧ ∃ x, p.head? = some x ∧ t.source = x.source) ∨ ∃ y, MayWin p y ∧ t.source = y.source

theorem Presented.single (s : Symbol) : Presented [s] s := by
  by_cases hs : Located s
  · exact .inr ⟨s, mayWin_first (p := []) hs (by simp), rfl⟩
  · exact .inl ⟨by simpa using hs, s, rfl, rfl⟩

/-- One more record. -/
theorem Presented.merge (h : Joined p t) (hp : Presented p t) : Presented (p ++ [x]) (mergeFields t x) := by
  rcases hp with ⟨hnone, z, hhead, hsource⟩ | ⟨y, hy, hsource⟩
  · have hz := List.mem_of_head? hhead
    have ht : ¬ Located t := fun ht => hnone z hz ((Located.congr hsource).1 ht)
    by_cases hx : Located x
    · exact .inr ⟨x, mayWin_first hx hnone, by rw [mergeFields_source, if_pos ⟨.inl ht, hx⟩]⟩
    · refine .inl ⟨fun v hv => ?_, z, by rw [List.head?_append, hhead]; rfl, ?_⟩
      · rcases List.mem_append.1 hv with hv | hv
        · exact hnone v hv
        · rwa [List.mem_singleton.1 hv]
      · rw [mergeFields_source, if_neg fun hc => hx hc.2, hsource]
  · have ht : Located t := (Located.congr hsource).2 hy.located
    by_cases hc : takes t x = true ∧ Located x
    · exact .inr ⟨x, mayWin_takes h hy hsource hc.2 hc.1, by rw [mergeFields_source, if_pos ⟨.inr hc.1, hc.2⟩]⟩
    · have hkeep : Located x → takes t x = false := fun hx => Bool.eq_false_iff.2 fun htakes => hc ⟨htakes, hx⟩
      refine .inr ⟨y, hy.stays h hsource hkeep, ?_⟩
      rw [mergeFields_source, if_neg, hsource]
      rintro ⟨hn | htakes, hx⟩
      · exact hn ht
      · exact hc ⟨htakes, hx⟩

end Steps

end CxxDead
