import CxxDead.Declarations
/-!
# The order of arrival

When the record that a list of records of one key leaves does not depend on
their order.

- `Signed.merge`: which record the signature comes from, said without the order.
- `MayWin.wins`, `MaySign.signs`, `MaySign.fills`, `MayBlank.blanks`: an order
  for each outcome.
- `addAll_orderFree`: names, sources and signatures have to be settled.
-/

namespace CxxDead

open Lib CxxDead.Graph

/-! ## Where the signature comes from -/

/-- The record defines the symbol, or none does. -/
def Competes (l : List Symbol) (s : Symbol) : Prop := s.defined = true ∨ ∀ x ∈ l, x.defined = false

/-- In some order `y` is the last record that takes over from the others: none that competes has a scope above the
greatest one of `y` and of those that do not compete, nor that scope and a smaller location. -/
structure MaySign (l : List Symbol) (y : Symbol) : Prop where
  mem : y ∈ l
  competes : Competes l y
  rank_le : ∀ x ∈ l, Competes l x → ∃ w ∈ l, (w = y ∨ ¬ Competes l w) ∧ rank x ≤ rank w
  order_le : Located y → ∀ x ∈ l, Competes l x → (∀ w ∈ l, w = y ∨ ¬ Competes l w → rank w ≤ rank x) →
    sourceOrder y.source ≤ sourceOrder x.source ∨
      (¬ Located x ∧ rank x ≤ rank y ∧ ∃ z ∈ l, sourceOrder y.source < sourceOrder z.source)

/-- `y` takes over from the records with a signature, some of which compete with it. -/
structure Outranks (l : List Symbol) (y : Symbol) : Prop where
  rank_le : ∀ x ∈ l, x.signature ≠ [] → rank x ≤ rank y
  order_lt : ∀ x ∈ l, x.signature ≠ [] → Competes l x → Located x → rank x = rank y →
    sourceOrder y.source < sourceOrder x.source
  held : ∀ x ∈ l, x.signature ≠ [] → rank x = rank y → ∃ d ∈ l, rank d ≤ rank y ∧
    sourceOrder y.source < sourceOrder d.source ∧ (Competes l d ∨ ∃ u ∈ l, Competes l u ∧ ¬ Located u)

/-- In some order `y` brings no signature and takes over from all that have one. -/
structure MayBlank (l : List Symbol) (y : Symbol) : Prop where
  mem : y ∈ l
  competes : Competes l y
  unsigned : y.signature = []
  leads : (y.defined = true ∧ ∀ x ∈ l, x.signature ≠ [] → x.defined = false) ∨ Outranks l y

section Signing
variable {p : List Symbol} {t x y z : Symbol}

theorem Joined.competes_defined (h : Joined p t) (hz : z ∈ p) (hc : Competes p z) : t.defined = z.defined := by
  rcases hc with hdef | hnone
  · rw [hdef, h.defined.2 ⟨z, hz, hdef⟩]
  · rw [hnone z hz, h.defined_iff.2 hnone]

theorem Competes.same {l : List Symbol} (hx : Competes l x) (hy : Competes l y) (hxl : x ∈ l) (hyl : y ∈ l) :
    x.defined = y.defined := by
  rcases hx with hx | hnone
  · exact hx.trans (hy.resolve_right fun hnone => by rw [hnone x hxl] at hx; cases hx).symm
  · rw [hnone x hxl, hnone y hyl]

/-- A record that brings no first definition changes nothing about who competes. -/
theorem Joined.competes_snoc (h : Joined p t) (hx : t.defined = false → x.defined = false) :
    Competes (p ++ [x]) z ↔ Competes p z := by
  refine or_congr_right ⟨fun hnone w hw => hnone w (List.mem_append_left _ hw), fun hnone w hw => ?_⟩
  rcases List.mem_append.1 hw with hw | hw
  · exact hnone w hw
  · rw [List.mem_singleton.1 hw]
    exact hx (h.defined_iff.2 hnone)

theorem Joined.competes_last (h : Joined p t) (hx : t.defined = x.defined) : Competes (p ++ [x]) x := by
  cases hdef : x.defined with
  | true => exact .inl hdef
  | false =>
    refine .inr fun w hw => ?_
    rcases List.mem_append.1 hw with hw | hw
    · exact h.defined_iff.1 (hx.trans hdef) w hw
    · rw [List.mem_singleton.1 hw, hdef]

/-- The source is at most that of each located record of the greatest scope. -/
theorem Presented.order_le (h : Joined p t) (hp : Presented p t) (hz : z ∈ p) (hlocated : Located z)
    (hc : Competes p z) (hrank : rank t ≤ rank z) : sourceOrder t.source ≤ sourceOrder z.source := by
  rcases hp with ⟨hnone, -⟩ | ⟨y, hy, hsource⟩
  · exact absurd hlocated (hnone z hz)
  · rw [hsource]
    exact hy.order_le z hz (not_yields_iff.2 ⟨hlocated, hc⟩) fun w hw _ => (h.rank_le w hw).trans hrank

/-- A record that has the source competes, unless a record without location does. -/
theorem Presented.holder (hp : Presented p t) :
    ∃ d ∈ p, t.source = d.source ∧ (Competes p d ∨ ∃ u ∈ p, Competes p u ∧ ¬ Located u) := by
  have hdeclared : ∀ d : Symbol, (∀ x ∈ p, x.defined = true → ∃ u ∈ p, u.defined = true ∧ ¬ Located u) →
      Competes p d ∨ ∃ u ∈ p, Competes p u ∧ ¬ Located u := by
    intro d hcounts
    by_cases hex : ∃ x ∈ p, x.defined = true
    · obtain ⟨x, hx, hdef⟩ := hex
      obtain ⟨u, hu, hdef, hnot⟩ := hcounts x hx hdef
      exact .inr ⟨u, hu, .inl hdef, hnot⟩
    · exact .inl (.inr fun x hx => Bool.eq_false_iff.2 fun hdef => hex ⟨x, hx, hdef⟩)
  rcases hp with ⟨hnone, d, hhead, hsource⟩ | ⟨y, hy, hsource⟩
  · exact ⟨d, List.mem_of_head? hhead, hsource, hdeclared d fun x hx hdef => ⟨x, hx, hdef, hnone x hx⟩⟩
  · exact ⟨y, hy.mem, hsource, hy.counts.elim (fun hdef => .inl (.inl hdef)) (hdeclared y)⟩

/-- A record that takes over as a peer: its scope is the greatest, and its location is smaller if it was reached before. -/
theorem takes_peer (htakes : takes t x = true) (hx : t.defined = false → x.defined = false) :
    t.defined = x.defined ∧ rank t ≤ rank x ∧ (rank x ≤ rank t → sourceOrder x.source < sourceOrder t.source) := by
  rcases takes_iff.1 htakes with ⟨hdeclared, hdef⟩ | ⟨hdef, hbetter⟩
  · rw [hx hdeclared] at hdef
    cases hdef
  · refine ⟨hdef, by omega, fun hle => ?_⟩
    rcases hbetter with hlt | ⟨-, hlt⟩
    · omega
    · exact hlt

theorem not_takes (hkeep : takes t x = false) : (t.defined = false → x.defined = false) ∧
    (t.defined = x.defined → rank x ≤ rank t ∧ (rank t ≤ rank x → sourceOrder t.source ≤ sourceOrder x.source)) := by
  have hn := Bool.eq_false_iff.1 hkeep
  rw [Ne, takes_iff, not_or] at hn
  refine ⟨fun hf => Bool.eq_false_iff.2 fun hdef => hn.1 ⟨hf, hdef⟩, fun hdef => ?_⟩
  have hle : rank x ≤ rank t := by
    by_contra hlt
    exact hn.2 ⟨hdef, .inl (by omega)⟩
  refine ⟨hle, fun hge => ?_⟩
  by_contra hlt
  exact hn.2 ⟨hdef, .inr ⟨le_antisymm hge hle, not_le.1 hlt⟩⟩

/-- The first definition is the only one that competes. -/
theorem Joined.competes_first (h : Joined p t) (hdeclared : t.defined = false) (hdef : x.defined = true) :
    ∀ z ∈ p ++ [x], Competes (p ++ [x]) z → z = x := by
  intro z hz hc
  rcases List.mem_append.1 hz with hz | hz
  · have hx := h.defined_iff.1 hdeclared z hz
    rcases hc with hc | hnone
    · rw [hx] at hc
      cases hc
    · rw [hnone x (by simp)] at hdef
      cases hdef
  · exact List.mem_singleton.1 hz

theorem maySign_takes (h : Joined p t) (hp : Presented p t) (htakes : takes t x = true) : MaySign (p ++ [x]) x := by
  by_cases hupgrade : t.defined = false ∧ x.defined = true
  · have halone := h.competes_first hupgrade.1 hupgrade.2
    refine ⟨by simp, .inl hupgrade.2, fun z hz hc => ⟨x, by simp, .inl rfl, by rw [halone z hz hc]⟩, ?_⟩
    exact fun _ z hz hc _ => .inl (by rw [halone z hz hc])
  · have hx : t.defined = false → x.defined = false := fun hf => Bool.eq_false_iff.2 fun hdef => hupgrade ⟨hf, hdef⟩
    obtain ⟨hdef, hle, horder⟩ := takes_peer htakes hx
    have hall : ∀ z ∈ p, rank z ≤ rank x := fun z hz => (h.rank_le z hz).trans hle
    refine ⟨by simp, h.competes_last hdef, fun z hz _ => ⟨x, by simp, .inl rfl, ?_⟩, fun _ z hz hc hmax => ?_⟩
    · rcases List.mem_append.1 hz with hz | hz
      · exact hall z hz
      · rw [List.mem_singleton.1 hz]
    · rcases List.mem_append.1 hz with hz | hz
      · -- `z` has the greatest scope too, so `x` took over by its location
        have hxz := hmax x (by simp) (.inl rfl)
        have hzt := h.rank_le z hz
        have hlt := horder (hxz.trans hzt)
        by_cases hlocated : Located z
        · exact .inl (hlt.le.trans (hp.order_le h hz hlocated ((h.competes_snoc hx).1 hc) (hle.trans hxz)))
        · obtain ⟨d, hd, hsource, -⟩ := hp.holder
          exact .inr ⟨hlocated, hzt.trans hle, d, List.mem_append_left _ hd, hsource ▸ hlt⟩
      · exact .inl (by rw [List.mem_singleton.1 hz])

theorem MaySign.rank_top (h : Joined p t) (hy : MaySign p y) :
    ∃ w ∈ p, (w = y ∨ ¬ Competes p w) ∧ rank t ≤ rank w := by
  obtain ⟨z, hz, hrank⟩ := h.rank_mem
  rw [← hrank]
  by_cases hc : Competes p z
  · exact hy.rank_le z hz hc
  · exact ⟨z, hz, .inr hc, le_refl _⟩

/-- A record that does not take over leaves the signature to the one that has it. -/
theorem MaySign.stays (h : Joined p t) (hy : MaySign p y) (hsource : Located y → t.source = y.source)
    (hkeep : takes t x = false) : MaySign (p ++ [x]) y := by
  obtain ⟨hx, hpeer⟩ := not_takes hkeep
  have hc : ∀ z, Competes (p ++ [x]) z ↔ Competes p z := fun z => h.competes_snoc hx
  have hdef : Competes p x → t.defined = x.defined := by
    rintro (hdef | hnone)
    · rw [hdef]
      exact Bool.not_eq_false _ ▸ fun hf => by rw [hx hf] at hdef; cases hdef
    · have hf := h.defined_iff.2 hnone
      rw [hf, hx hf]
  obtain ⟨w, hw, hwy, htop⟩ := hy.rank_top h
  refine ⟨List.mem_append_left _ hy.mem, (hc y).2 hy.competes, fun z hz hcz => ?_, fun hlocated z hz hcz hmax => ?_⟩
  · rw [hc] at hcz
    rcases List.mem_append.1 hz with hz | hz
    · obtain ⟨v, hv, hvy, hle⟩ := hy.rank_le z hz hcz
      exact ⟨v, List.mem_append_left _ hv, by rwa [hc], hle⟩
    · obtain rfl := List.mem_singleton.1 hz
      exact ⟨w, List.mem_append_left _ hw, by rwa [hc], (hpeer (hdef hcz)).1.trans htop⟩
  · rw [hc] at hcz
    simp only [hc] at hmax
    have hmax' : ∀ v ∈ p, v = y ∨ ¬ Competes p v → rank v ≤ rank z := fun v hv => hmax v (List.mem_append_left _ hv)
    rcases List.mem_append.1 hz with hz | hz
    · refine (hy.order_le hlocated z hz hcz hmax').imp id ?_
      rintro ⟨hnot, hle, d, hd, hlt⟩
      exact ⟨hnot, hle, d, List.mem_append_left _ hd, hlt⟩
    · obtain rfl := List.mem_singleton.1 hz
      rw [← hsource hlocated]
      exact .inl ((hpeer (hdef hcz)).2 (htop.trans (hmax' w hw hwy)))

theorem mayBlank_takes (h : Joined p t) (hp : Presented p t) (htakes : takes t x = true) (hx : x.signature = []) :
    MayBlank (p ++ [x]) x := by
  have hsigned : ∀ z ∈ p ++ [x], z.signature ≠ [] → z ∈ p := by
    intro z hz hne
    rcases List.mem_append.1 hz with hz | hz
    · exact hz
    · rw [List.mem_singleton.1 hz] at hne
      exact absurd hx hne
  by_cases hupgrade : t.defined = false ∧ x.defined = true
  · refine ⟨by simp, .inl hupgrade.2, hx, .inl ⟨hupgrade.2, fun z hz hne => ?_⟩⟩
    exact h.defined_iff.1 hupgrade.1 z (hsigned z hz hne)
  · have hfirst : t.defined = false → x.defined = false := fun hf => Bool.eq_false_iff.2 fun hdef => hupgrade ⟨hf, hdef⟩
    obtain ⟨hdef, hle, horder⟩ := takes_peer htakes hfirst
    refine ⟨by simp, h.competes_last hdef, hx, .inr ⟨fun z hz hne => ?_, fun z hz hne hc hlocated hrank => ?_, ?_⟩⟩
    · exact (h.rank_le z (hsigned z hz hne)).trans hle
    · have hzp := hsigned z hz hne
      have hlt := horder (hrank ▸ h.rank_le z hzp)
      exact hlt.trans_le (hp.order_le h hzp hlocated ((h.competes_snoc hfirst).1 hc) (hle.trans_eq hrank.symm))
    · intro z hz hne hrank
      obtain ⟨d, hd, hsource, hcompetes⟩ := hp.holder
      refine ⟨d, List.mem_append_left _ hd, (h.rank_le d hd).trans hle, ?_, ?_⟩
      · exact hsource ▸ horder (hrank ▸ h.rank_le z (hsigned z hz hne))
      · refine hcompetes.imp (h.competes_snoc hfirst).2 ?_
        rintro ⟨u, hu, hc, hnot⟩
        exact ⟨u, List.mem_append_left _ hu, (h.competes_snoc hfirst).2 hc, hnot⟩

/-- One more record without a signature that does not take over. -/
theorem MayBlank.stays (h : Joined p t) (hy : MayBlank p y) (hkeep : takes t x = false) (hx : x.signature = []) :
    MayBlank (p ++ [x]) y := by
  have hc : ∀ z, Competes (p ++ [x]) z ↔ Competes p z := fun z => h.competes_snoc (not_takes hkeep).1
  have hsigned : ∀ z ∈ p ++ [x], z.signature ≠ [] → z ∈ p := by
    intro z hz hne
    rcases List.mem_append.1 hz with hz | hz
    · exact hz
    · rw [List.mem_singleton.1 hz] at hne
      exact absurd hx hne
  refine ⟨List.mem_append_left _ hy.mem, (hc y).2 hy.competes, hy.unsigned, hy.leads.imp ?_ fun ho => ?_⟩
  · exact fun ⟨hdef, hdeclared⟩ => ⟨hdef, fun z hz hne => hdeclared z (hsigned z hz hne) hne⟩
  · refine ⟨fun z hz hne => ho.rank_le z (hsigned z hz hne) hne, fun z hz hne hcz => ?_, fun z hz hne hrank => ?_⟩
    · exact ho.order_lt z (hsigned z hz hne) hne ((hc z).1 hcz)
    · obtain ⟨d, hd, hle, hlt, hcompetes⟩ := ho.held z (hsigned z hz hne) hne hrank
      refine ⟨d, List.mem_append_left _ hd, hle, hlt, hcompetes.imp (hc d).2 ?_⟩
      exact fun ⟨u, hu, hcu, hnot⟩ => ⟨u, List.mem_append_left _ hu, (hc u).2 hcu, hnot⟩

/-- Where the signature of the merged record comes from. -/
structure Signed (p : List Symbol) (t : Symbol) : Prop where
  signer : ∃ y, MaySign p y ∧ (Located y → t.source = y.source) ∧ (y.signature ≠ [] → t.signature = y.signature)
  blank : t.signature = [] → (∀ x ∈ p, x.signature = []) ∨ ∃ y, MayBlank p y
  mem : ∃ x ∈ p, t.signature = x.signature

theorem Signed.single (s : Symbol) : Signed [s] s := by
  have hc : Competes [s] s := by
    cases hdef : s.defined with
    | true => exact .inl hdef
    | false => exact .inr fun x hx => by rw [List.mem_singleton.1 hx, hdef]
  refine ⟨⟨s, ⟨by simp, hc, fun x hx _ => ?_, fun _ x hx _ _ => .inl ?_⟩, fun _ => rfl, fun _ => rfl⟩, ?_, s, by simp, rfl⟩
  · exact ⟨s, by simp, .inl rfl, by rw [List.mem_singleton.1 hx]⟩
  · rw [List.mem_singleton.1 hx]
  · exact fun hnil => .inl fun x hx => by rw [List.mem_singleton.1 hx, hnil]

/-- One more record. -/
theorem Signed.merge (h : Joined p t) (hp : Presented p t) (hs : Signed p t) : Signed (p ++ [x]) (mergeFields t x) := by
  obtain ⟨⟨y, hy, hsource, hsignature⟩, hblank, z, hz, hmem⟩ := hs
  cases htakes : takes t x with
  | true =>
    have hx : (mergeFields t x).signature = x.signature := by rw [mergeFields_signature, if_pos (.inr htakes)]
    refine ⟨⟨x, maySign_takes h hp htakes, fun hlocated => ?_, fun _ => hx⟩, fun hnil => ?_, x, by simp, hx⟩
    · rw [mergeFields_source, if_pos ⟨.inr htakes, hlocated⟩]
    · exact .inr ⟨x, mayBlank_takes h hp htakes (hx.symm.trans hnil)⟩
  | false =>
    have hnot : ¬ (takes t x = true) := Bool.eq_false_iff.1 htakes
    refine ⟨⟨y, hy.stays h hsource htakes, fun hlocated => ?_, fun hne => ?_⟩, fun hnil => ?_, ?_⟩
    · rw [mergeFields_source, if_neg, hsource hlocated]
      rintro ⟨hn | ht, -⟩
      · exact hn ((Located.congr (hsource hlocated)).2 hlocated)
      · exact hnot ht
    · rw [mergeFields_signature, if_neg, hsignature hne]
      rintro (hn | ht)
      · exact hne ((hsignature hne).symm.trans hn)
      · exact hnot ht
    · rw [mergeFields_signature] at hnil
      split at hnil
      · rename_i hor
        refine (hblank (hor.resolve_right hnot)).imp (fun hall w hw => ?_) ?_
        · rcases List.mem_append.1 hw with hw | hw
          · exact hall w hw
          · rw [List.mem_singleton.1 hw, hnil]
        · exact fun ⟨v, hv⟩ => ⟨v, hv.stays h htakes hnil⟩
      · rename_i hor
        exact absurd (.inl hnil) hor
    · rw [mergeFields_signature]
      split
      · exact ⟨x, by simp, rfl⟩
      · exact ⟨z, List.mem_append_left _ hz, hmem⟩

/-- What the merged record of `p` is. -/
structure RecordOf (p : List Symbol) (t : Symbol) : Prop where
  joined : Joined p t
  presented : Presented p t
  signed : Signed p t
  head : ∃ x, p.head? = some x ∧ t.key = x.key ∧ t.name = x.name

theorem RecordOf.single (s : Symbol) : RecordOf [s] s := ⟨.single s, .single s, .single s, s, rfl, rfl, rfl⟩

theorem RecordOf.merge (h : RecordOf p t) (hc : Compatible (some t) x) : RecordOf (p ++ [x]) (mergeFields t x) := by
  obtain ⟨s, hs, hkey, hname⟩ := h.head
  refine ⟨h.joined.merge (hc t rfl), h.presented.merge h.joined, h.signed.merge h.joined h.presented, s, ?_, hkey, hname⟩
  rw [List.head?_append, hs]
  rfl

theorem merged_run (l : List Symbol) (h : RecordOf p t) (hl : Accepted (some t) l) :
    ∃ t', mergedAll (some t) l = some t' ∧ RecordOf (p ++ l) t' := by
  induction l generalizing p t with
  | nil => exact ⟨t, rfl, by rwa [List.append_nil]⟩
  | cons x l ih =>
    obtain ⟨t', ht', hmerged⟩ := ih (h.merge hl.1) hl.2
    exact ⟨t', ht', by rwa [List.append_assoc] at hmerged⟩

theorem merged_all {l : List Symbol} (hne : l ≠ []) (hl : Accepted none l) :
    ∃ t, mergedAll none l = some t ∧ RecordOf l t := by
  cases l with
  | nil => exact absurd rfl hne
  | cons s l => exact merged_run l (.single s) hl.2

theorem accepted_append {record : Option Symbol} (a b : List Symbol) :
    Accepted record (a ++ b) ↔ Accepted record a ∧ Accepted (mergedAll record a) b := by
  induction a generalizing record with
  | nil => simp [Accepted, mergedAll]
  | cons s a ih =>
    rw [List.cons_append, Accepted, Accepted, ih, and_assoc]
    rfl

theorem mergedAll_append {record : Option Symbol} (a b : List Symbol) :
    mergedAll record (a ++ b) = mergedAll (mergedAll record a) b := List.foldl_append ..

end Signing

/-! ## An order for each outcome -/

section Orders
variable {l p r : List Symbol} {t y z : Symbol}

theorem pairwise_agree_perm {l' : List Symbol} (hp : l'.Perm l) (h : l.Pairwise Agree) : l'.Pairwise Agree :=
  h.perm hp.symm fun hab => ⟨⟨hab.kind.symm, hab.internalLinkage.symm, hab.configurationId.symm, hab.linkageName.symm,
    hab.translationUnit.symm, hab.qualifiedName.symm, hab.className.symm, hab.usr.symm⟩, hab.name.symm⟩

theorem accepted_perm {l' : List Symbol} (hp : l'.Perm l) (h : l.Pairwise Agree) : Accepted none l' :=
  accepted_iff.2 (.inl (pairwise_agree_perm hp h))

/-- Once the records that give way are in, no other one takes over from `y`. -/
theorem MayWin.not_takes (hy : MayWin l y) (hz : z ∈ l) (hlocated : Located z)
    (hp : ∀ w ∈ l, w = y ∨ ¬ Located w → w ∈ p) (hyields : ¬ Yields l z → ∀ w ∈ l, w = y ∨ Yields l w → w ∈ p)
    (h : Joined p t) (hsource : t.source = y.source) : takes t z = false := by
  have hdefined : (∃ x ∈ l, x.defined = true) → t.defined = true := by
    rintro ⟨x, hx, hdef⟩
    rcases hy.counts with hy' | hcounts
    · exact h.defined.2 ⟨y, hp y hy.mem (.inl rfl), hy'⟩
    · obtain ⟨u, hu, hdef, hnot⟩ := hcounts x hx hdef
      exact h.defined.2 ⟨u, hp u hu (.inr hnot), hdef⟩
  refine Bool.eq_false_iff.2 fun htakes => ?_
  rcases takes_iff.1 htakes with ⟨hdeclared, hdef⟩ | ⟨hdef, hbetter⟩
  · rw [hdefined ⟨z, hz, hdef⟩] at hdeclared
    cases hdeclared
  · by_cases hyz : Yields l z
    · obtain ⟨hdeclared, hex⟩ := hyz.resolve_left fun hnot => hnot hlocated
      rw [hdefined hex, hdeclared] at hdef
      cases hdef
    · obtain ⟨w, hw, hwy, hle⟩ := hy.rank_le z hz hyz
      have hwt := h.rank_le w (hyields hyz w hw hwy)
      rcases hbetter with hlt | ⟨heq, hlt⟩
      · omega
      · rw [hsource] at hlt
        refine absurd hlt (not_lt.2 (hy.order_le z hz hyz fun v hv hvy => ?_))
        have := h.rank_le v (hyields hyz v hv hvy)
        omega

/-- Records that do not take over change neither the source nor the signature. -/
theorem kept_run (r : List Symbol) (h : Joined p t) (ht : Located t ∨ ∀ z ∈ r, ¬ Located z)
    (hr : Accepted (some t) r)
    (hkeep : ∀ p' t', p ⊆ p' → Joined p' t' → t'.source = t.source → ∀ z ∈ r, takes t' z = false) :
    ∃ t', mergedAll (some t) r = some t' ∧ Joined (p ++ r) t' ∧ t'.source = t.source ∧
      (t.signature ≠ [] → t'.signature = t.signature) := by
  induction r generalizing p t with
  | nil => exact ⟨t, rfl, by rwa [List.append_nil], rfl, fun _ => rfl⟩
  | cons x r ih =>
    have hx := hkeep p t (List.Subset.refl _) h rfl x List.mem_cons_self
    have hsource : (mergeFields t x).source = t.source := by
      rw [mergeFields_source, if_neg]
      rintro ⟨hnot | htakes, hlocated⟩
      · exact ht.resolve_left hnot x List.mem_cons_self hlocated
      · rw [hx] at htakes
        cases htakes
    have hsignature : t.signature ≠ [] → (mergeFields t x).signature = t.signature := by
      intro hne
      rw [mergeFields_signature, if_neg]
      rintro (hnil | htakes)
      · exact hne hnil
      · rw [hx] at htakes
        cases htakes
    obtain ⟨t', ht', hjoined, hsame, hrest⟩ := ih (h.merge (hr.1 t rfl))
      (ht.imp (Located.congr hsource).2 fun hnone z hz => hnone z (List.mem_cons_of_mem _ hz)) hr.2
      fun p' t' hp' hjoined hsame z hz => hkeep p' t' (fun w hw => hp' (List.mem_append_left _ hw)) hjoined
        (hsame.trans hsource) z (List.mem_cons_of_mem _ hz)
    refine ⟨t', ht', by rwa [List.append_assoc] at hjoined, hsame.trans hsource, fun hne => ?_⟩
    rw [hrest (by rwa [hsignature hne]), hsignature hne]

/-- The unlocated records, then `y`, then those that give way to the others, then the others. -/
def winningOrder (l : List Symbol) (y : Symbol) (yields : Symbol → Bool) : List Symbol :=
  let others := (l.erase y).filter fun x => decide (Located x)
  ((l.erase y).filter fun x => !decide (Located x)) ++
    y :: (others.filter yields ++ others.filter fun x => !yields x)

theorem winningOrder_perm (hy : y ∈ l) (yields : Symbol → Bool) : (winningOrder l y yields).Perm l := by
  unfold winningOrder
  refine List.perm_middle.trans (List.Perm.trans ?_ (List.perm_cons_erase hy).symm)
  refine List.Perm.cons _ ?_
  refine ((List.filter_append_perm yields _).append_left _).trans ?_
  exact List.perm_append_comm.trans (List.filter_append_perm _ _)

/-- Some order of a list of agreeing records presents the source of `y`. -/
theorem MayWin.wins (hy : MayWin l y) (hagree : l.Pairwise Agree) :
    ∃ l' t, l'.Perm l ∧ mergedAll none l' = some t ∧ t.source = y.source := by
  classical
  let yields : Symbol → Bool := fun x => decide (Yields l x)
  have hperm := winningOrder_perm hy.mem yields
  have haccepted : Accepted none (winningOrder l y yields) := accepted_perm hperm hagree
  let u := (l.erase y).filter fun x => !decide (Located x)
  let others := (l.erase y).filter fun x => decide (Located x)
  have hshape : winningOrder l y yields =
      ((u ++ [y]) ++ others.filter yields) ++ others.filter fun x => !yields x := by
    simp [winningOrder, u, others]
  rw [hshape, accepted_append, accepted_append] at haccepted
  obtain ⟨⟨hfirst, hsecond⟩, hthird⟩ := haccepted
  have hu : ∀ w ∈ u, ¬ Located w := by simp [u]
  have hmem : ∀ w ∈ l, w ≠ y → w ∈ l.erase y := fun w hw hne => (List.mem_erase_of_ne hne).2 hw
  have hothers : ∀ z ∈ others, z ∈ l ∧ Located z := fun z hz => by
    obtain ⟨hz, hlocated⟩ := List.mem_filter.1 hz
    exact ⟨List.mem_of_mem_erase hz, of_decide_eq_true hlocated⟩
  obtain ⟨t, ht, hmerged⟩ := merged_all (by simp) hfirst
  have hstart : t.source = y.source := by
    rcases hmerged.presented with ⟨hnone, -⟩ | ⟨z, hz, hsource⟩
    · exact absurd hy.located (hnone y (by simp))
    · rcases List.mem_append.1 hz.mem with hmem | hmem
      · exact absurd hz.located (hu z hmem)
      · rw [hsource, List.mem_singleton.1 hmem]
  have hearly : ∀ w ∈ l, w = y ∨ ¬ Located w → w ∈ u ++ [y] := by
    intro w hw hwy
    by_cases heq : w = y
    · simp [heq]
    · exact List.mem_append_left _ (List.mem_filter.2 ⟨hmem w hw heq, by simpa using hwy.resolve_left heq⟩)
  rw [ht] at hsecond
  -- those that yield keep the source of `y`, which is in by now
  obtain ⟨t₁, ht₁, hjoined₁, hsource₁, -⟩ := kept_run _ hmerged.joined
    (.inl ((Located.congr hstart).2 hy.located)) hsecond fun p' t' hp' hjoined hsame z hz => by
      obtain ⟨hz, hyields⟩ := List.mem_filter.1 hz
      obtain ⟨hzl, hlocated⟩ := hothers z hz
      exact hy.not_takes hzl hlocated (fun w hw hwy => hp' (hearly w hw hwy))
        (fun hny => absurd (of_decide_eq_true hyields) hny) hjoined (hsame.trans hstart)
  have hmerged₁ : mergedAll none ((u ++ [y]) ++ others.filter yields) = some t₁ := by rw [mergedAll_append, ht, ht₁]
  rw [hmerged₁] at hthird
  have hlate : ∀ w ∈ l, w = y ∨ Yields l w → w ∈ (u ++ [y]) ++ others.filter yields := by
    intro w hw hwy
    by_cases heq : w = y
    · simp [heq]
    · by_cases hlocated : Located w
      · refine List.mem_append_right _ (List.mem_filter.2 ⟨List.mem_filter.2 ⟨hmem w hw heq, ?_⟩, ?_⟩)
        · exact decide_eq_true hlocated
        · exact decide_eq_true (hwy.resolve_left heq)
      · exact List.mem_append_left _ (hearly w hw (.inr hlocated))
  -- and so do all others, once those that yield are in
  obtain ⟨t₂, ht₂, -, hsource₂, -⟩ := kept_run _ hjoined₁
    (.inl ((Located.congr (hsource₁.trans hstart)).2 hy.located)) hthird fun p' t' hp' hjoined hsame z hz => by
      obtain ⟨hzl, hlocated⟩ := hothers z (List.mem_filter.1 hz).1
      exact hy.not_takes hzl hlocated (fun w hw hwy => hp' (List.mem_append_left _ (hearly w hw hwy)))
        (fun _ w hw hwy => hp' (hlate w hw hwy)) hjoined (hsame.trans (hsource₁.trans hstart))
  refine ⟨_, t₂, hperm, ?_, hsource₂.trans (hsource₁.trans hstart)⟩
  rw [hshape, mergedAll_append, hmerged₁, ht₂]

/-- Every record that competes has a location, or all sources are the same. -/
def SourcesComparable (l : List Symbol) : Prop :=
  (∀ x ∈ l, Competes l x → Located x) ∨ ∀ a ∈ l, ∀ b ∈ l, a.source = b.source

/-- Once the records that do not compete are in, no other one takes over from `y`. -/
theorem MaySign.not_takes (hy : MaySign l y) (hs : SourcesComparable l) (hz : z ∈ l) (hyp : y ∈ p)
    (hp : Competes l z → ∀ w ∈ l, ¬ Competes l w → w ∈ p) (h : Joined p t) (hsource : t.source = y.source) :
    takes t z = false := by
  have hdeclared : t.defined = false → ∀ x ∈ l, x.defined = false := fun hf =>
    hy.competes.resolve_left (Bool.eq_false_iff.1 (h.defined_iff.1 hf y hyp))
  refine Bool.eq_false_iff.2 fun htakes => ?_
  obtain ⟨hdef, hle, horder⟩ := takes_peer htakes fun hf => hdeclared hf z hz
  have hc : Competes l z := by
    cases ht : t.defined with
    | true => exact .inl (hdef.symm.trans ht)
    | false => exact .inr (hdeclared ht)
  have hin : ∀ w ∈ l, w = y ∨ ¬ Competes l w → rank w ≤ rank t := by
    rintro w hw (rfl | hnot)
    · exact h.rank_le w hyp
    · exact h.rank_le w (hp hc w hw hnot)
  obtain ⟨w, hw, hwy, hwz⟩ := hy.rank_le z hz hc
  have hlt := horder (hwz.trans (hin w hw hwy))
  rw [hsource] at hlt
  rcases hs with hlocated | hsame
  · rcases hy.order_le (hlocated y hy.mem hy.competes) z hz hc fun v hv hvy => (hin v hv hvy).trans hle with hle' | hnot
    · exact absurd hlt (not_lt.2 hle')
    · exact hnot.1 (hlocated z hz hc)
  · rw [hsame z hz y hy.mem] at hlt
    exact lt_irrefl _ hlt

/-- `y` after records that do not compete with it. -/
theorem MaySign.lead (hy : MaySign l y) (hs : SourcesComparable l) {a : List Symbol}
    (ha : ∀ w ∈ a, w ∈ l ∧ ¬ Competes l w) (haccepted : Accepted none (a ++ [y])) :
    ∃ t, mergedAll none (a ++ [y]) = some t ∧ Joined (a ++ [y]) t ∧ t.source = y.source ∧ t.signature = y.signature := by
  cases hnil : a with
  | nil => exact ⟨y, rfl, .single y, rfl, rfl⟩
  | cons s r =>
    rw [← hnil]
    have hdeclared : ∀ w ∈ a, w.defined = false := fun w hw => Bool.eq_false_iff.2 fun hdef => (ha w hw).2 (.inl hdef)
    obtain ⟨hfirst, hlast⟩ := (accepted_append _ _).1 haccepted
    obtain ⟨t, ht, hmerged⟩ := merged_all (by simp [hnil]) hfirst
    rw [ht] at hlast
    have hs' : s ∈ a := by simp [hnil]
    have hdef : y.defined = true := hy.competes.resolve_right fun hnone => (ha s hs').2 (.inr hnone)
    have htakes : takes t y = true := takes_iff.2 (.inl ⟨hmerged.joined.defined_iff.2 hdeclared, hdef⟩)
    refine ⟨mergeFields t y, by rw [mergedAll_append, ht]; rfl, hmerged.joined.merge (hlast.1 t rfl), ?_, ?_⟩
    · rw [mergeFields_source]
      split
      · rfl
      · rename_i hnot
        have hy' : ¬ Located y := fun hlocated => hnot ⟨.inr htakes, hlocated⟩
        obtain ⟨d, hd, hsource, -⟩ := hmerged.presented.holder
        rw [hsource]
        exact hs.resolve_left (fun hall => hy' (hall y hy.mem hy.competes)) d (ha d hd).1 y hy.mem
    · rw [mergeFields_signature, if_pos (.inr htakes)]

/-- After `y` and a signature, first the records that do not compete, then those that do. -/
theorem MaySign.rest (hy : MaySign l y) (hs : SourcesComparable l) {front b c : List Symbol}
    (hperm : (front ++ (b ++ c)).Perm l) (hfront : y ∈ front) (hb : ∀ w ∈ b, ¬ Competes l w)
    (hc : ∀ w ∈ c, Competes l w) (hr : Accepted (some t) (b ++ c)) (h : Joined front t) (hsource : t.source = y.source)
    (hne : t.signature ≠ []) : ∃ t', mergedAll (some t) (b ++ c) = some t' ∧ t'.signature = t.signature := by
  obtain ⟨hfirst, hlast⟩ := (accepted_append _ _).1 hr
  have hin : ∀ w ∈ b ++ c, w ∈ l := fun w hw => hperm.mem_iff.1 (List.mem_append_right _ hw)
  -- a target without a location has met none
  have hplace : ∀ r : List Symbol, (∀ w ∈ r, w ∈ l) → Located t ∨ ∀ z ∈ r, ¬ Located z := by
    intro r hrl
    by_cases hlocated : Located t
    · exact .inl hlocated
    · refine .inr fun z hz hz' => hlocated ((Located.congr hsource).2 ?_)
      rcases hs with hall | hsame
      · exact hall y hy.mem hy.competes
      · exact (Located.congr (hsame y hy.mem z (hrl z hz))).2 hz'
  obtain ⟨t₁, ht₁, hjoined₁, hsource₁, hsignature₁⟩ := kept_run b h
    (hplace b fun w hw => hin w (List.mem_append_left _ hw)) hfirst fun p' t' hp' hjoined hsame z hz =>
      hy.not_takes hs (hin z (List.mem_append_left _ hz)) (hp' hfront) (fun hcz => absurd hcz (hb z hz)) hjoined
        (hsame.trans hsource)
  rw [ht₁] at hlast
  have hbefore : ∀ w ∈ l, ¬ Competes l w → w ∈ front ++ b := by
    intro w hw hnot
    rcases List.mem_append.1 (hperm.mem_iff.2 hw) with hw | hw
    · exact List.mem_append_left _ hw
    · rcases List.mem_append.1 hw with hw | hw
      · exact List.mem_append_right _ hw
      · exact absurd (hc w hw) hnot
  obtain ⟨t₂, ht₂, -, -, hsignature₂⟩ := kept_run c hjoined₁
    ((hplace c fun w hw => hin w (List.mem_append_right _ hw)).imp_left (Located.congr hsource₁).2) hlast
      fun p' t' hp' hjoined hsame z hz =>
        hy.not_takes hs (hin z (List.mem_append_right _ hz)) (hp' (List.mem_append_left _ hfront))
          (fun _ w hw hnot => hp' (hbefore w hw hnot)) hjoined (hsame.trans (hsource₁.trans hsource))
  refine ⟨t₂, by rw [mergedAll_append, ht₁, ht₂], ?_⟩
  rw [hsignature₂ (by rwa [hsignature₁ hne]), hsignature₁ hne]

/-- Those of a list that do not compete, then those that do. -/
theorem competing_perm (l r : List Symbol) [DecidablePred (Competes l)] :
    (r.filter (fun x => !decide (Competes l x)) ++ r.filter fun x => decide (Competes l x)).Perm r :=
  List.perm_append_comm.trans (List.filter_append_perm _ _)

/-- Some order of a list of agreeing records presents the signature of `y`. -/
theorem MaySign.signs (hy : MaySign l y) (hs : SourcesComparable l) (hagree : l.Pairwise Agree)
    (hne : y.signature ≠ []) : ∃ l' t, l'.Perm l ∧ mergedAll none l' = some t ∧ t.signature = y.signature := by
  classical
  let b := (l.erase y).filter fun x => !decide (Competes l x)
  let c := (l.erase y).filter fun x => decide (Competes l x)
  have hperm : ([y] ++ (b ++ c)).Perm l :=
    ((competing_perm l (l.erase y)).cons y).trans (List.perm_cons_erase hy.mem).symm
  have haccepted := accepted_perm hperm hagree
  obtain ⟨t, ht, hsignature⟩ := hy.rest hs hperm (by simp) (by simp [b]) (by simp [c])
    ((accepted_append _ _).1 haccepted).2 (.single y) rfl hne
  exact ⟨_, t, hperm, by rw [mergedAll_append]; exact ht, hsignature⟩

/-- If the last record that takes over may bring no signature, each signature is that of some order. -/
theorem MaySign.fills {n : Symbol} (hy : MaySign l y) (hs : SourcesComparable l) (hagree : l.Pairwise Agree)
    (hnil : y.signature = []) (hn : n ∈ l) (hne : n.signature ≠ []) :
    ∃ l' t, l'.Perm l ∧ mergedAll none l' = some t ∧ t.signature = n.signature := by
  classical
  have hny : n ∈ l.erase y := (List.mem_erase_of_ne fun heq => hne (by rw [heq, hnil])).2 hn
  let r := (l.erase y).erase n
  let q := r.filter fun x => !decide (Competes l x)
  let c := r.filter fun x => decide (Competes l x)
  -- if `n` competes, the others come first, so that their scopes keep it from taking over
  let a := if Competes l n then q else []
  let b := if Competes l n then [] else q
  have hrl : ∀ w ∈ r, w ∈ l := fun w hw => List.mem_of_mem_erase (List.mem_of_mem_erase hw)
  have hq : ∀ w ∈ q, w ∈ l ∧ ¬ Competes l w := fun w hw => by
    obtain ⟨hw, hnot⟩ := List.mem_filter.1 hw
    exact ⟨hrl w hw, by simpa using hnot⟩
  have ha : ∀ w ∈ a, w ∈ l ∧ ¬ Competes l w := by
    intro w hw
    by_cases hc : Competes l n
    · exact hq w (by simpa only [a, if_pos hc] using hw)
    · simp [a, if_neg hc] at hw
  have hb : ∀ w ∈ b, ¬ Competes l w := by
    intro w hw
    by_cases hc : Competes l n
    · simp [b, if_pos hc] at hw
    · exact (hq w (by simpa only [b, if_neg hc] using hw)).2
  have hab : (a ++ b).Perm q := by
    by_cases hc : Competes l n
    · simp [a, b, if_pos hc]
    · simp [a, b, if_neg hc]
  have hperm : ((a ++ [y, n]) ++ (b ++ c)).Perm l := by
    have hmiddle : ((a ++ [y, n]) ++ (b ++ c)).Perm (y :: n :: (a ++ b ++ c)) := by
      have h₁ : (a ++ y :: n :: (b ++ c)).Perm (y :: n :: (a ++ (b ++ c))) :=
        List.perm_middle.trans (List.perm_middle.cons y)
      simpa using h₁
    refine hmiddle.trans (List.Perm.trans ?_ (List.perm_cons_erase hy.mem).symm)
    refine List.Perm.cons y (List.Perm.trans ?_ (List.perm_cons_erase hny).symm)
    exact List.Perm.cons n ((hab.append_right c).trans (competing_perm l r))
  have haccepted := accepted_perm hperm hagree
  obtain ⟨hfront, hrest⟩ := (accepted_append _ _).1 haccepted
  rw [show a ++ [y, n] = (a ++ [y]) ++ [n] by simp] at hfront hrest hperm
  obtain ⟨hlead, hlast⟩ := (accepted_append _ _).1 hfront
  obtain ⟨t, ht, hjoined, hsource, hsignature⟩ := hy.lead hs ha hlead
  rw [ht] at hlast
  -- `n` fills the empty signature without taking over
  have htakes : takes t n = false := by
    refine hy.not_takes hs hn (by simp) (fun hc w hw hnot => ?_) hjoined hsource
    have hwn : w ≠ n := fun heq => hnot (heq ▸ hc)
    have hwy : w ≠ y := fun heq => hnot (heq ▸ hy.competes)
    have hwr : w ∈ r := (List.mem_erase_of_ne hwn).2 ((List.mem_erase_of_ne hwy).2 hw)
    refine List.mem_append_left _ ?_
    simp only [a, if_pos hc]
    exact List.mem_filter.2 ⟨hwr, by simpa using hnot⟩
  have hsource' : (mergeFields t n).source = y.source := by
    rw [mergeFields_source]
    split
    · rename_i hcond
      rcases hs with hall | hsame
      · have hlocated := (Located.congr hsource).2 (hall y hy.mem hy.competes)
        rcases hcond.1 with hnot | ht
        · exact absurd hlocated hnot
        · rw [htakes] at ht
          cases ht
      · exact hsame n hn y hy.mem
    · exact hsource
  have hsignature' : (mergeFields t n).signature = n.signature := by
    rw [mergeFields_signature, if_pos (.inl (hsignature.trans hnil))]
  have hmerged : mergedAll none ((a ++ [y]) ++ [n]) = some (mergeFields t n) := by
    rw [mergedAll_append, ht]
    rfl
  rw [hmerged] at hrest
  obtain ⟨t', ht', hfinal⟩ := hy.rest hs hperm (by simp) hb (by simp [c]) hrest (hjoined.merge (hlast.1 t rfl)) hsource'
    (by rwa [hsignature'])
  refine ⟨_, t', hperm, ?_, hfinal.trans hsignature'⟩
  rw [mergedAll_append, hmerged, ht']

end Orders

section Blanks
variable {l p : List Symbol} {t x y : Symbol}

theorem unsigned_run (r : List Symbol) (hr : ∀ w ∈ r, w.signature = []) (ht : t.signature = []) :
    ∃ t', mergedAll (some t) r = some t' ∧ t'.signature = [] := by
  induction r generalizing t with
  | nil => exact ⟨t, rfl, ht⟩
  | cons x r ih =>
    have hx : (mergeFields t x).signature = [] := by
      rw [mergeFields_signature, if_pos (.inl ht), hr x List.mem_cons_self]
    exact ih (fun w hw => hr w (List.mem_cons_of_mem _ hw)) hx

/-- Once `y` has taken over, nothing that is left brings a signature. -/
theorem blank_run {a b : List Symbol} (ht : mergedAll none a = some t) (htakes : takes t y = true) (hy : y.signature = [])
    (hb : ∀ w ∈ b, w.signature = []) : ∃ t', mergedAll none (a ++ y :: b) = some t' ∧ t'.signature = [] := by
  rw [mergedAll_append, ht]
  refine unsigned_run b hb ?_
  rw [mergeFields_signature, if_pos (.inr htakes), hy]

/-- `y` would take over from the target: it has the same scope and a smaller location. -/
structure Held (y t : Symbol) : Prop where
  defined : t.defined = y.defined
  sameRank : rank t = rank y
  located : Located t
  order : sourceOrder y.source < sourceOrder t.source

theorem Held.overtaken (h : Held y t) : takes t y = true :=
  takes_iff.2 (.inr ⟨h.defined, .inr ⟨h.sameRank, h.order⟩⟩)

/-- One more record that `y` outranks. -/
theorem Held.merge (h : Held y t) (hjoined : Joined p t) (hc : Compatible (some t) x) (hle : rank x ≤ rank y)
    (hdef : x.defined = true → y.defined = true)
    (hlt : x.defined = y.defined → Located x ∧ (rank x = rank y → sourceOrder y.source < sourceOrder x.source)) :
    Held y (mergeFields t x) := by
  have hnext := hjoined.merge (hc t rfl)
  have hdefined : (mergeFields t x).defined = y.defined := by
    show (t.defined || x.defined) = y.defined
    rw [h.defined]
    cases hy : y.defined with
    | true => rfl
    | false => exact Bool.eq_false_iff.2 fun hx => by rw [hdef hx] at hy; cases hy
  have hrank : rank (mergeFields t x) = rank y := by
    obtain ⟨z, hz, hzr⟩ := hnext.rank_mem
    obtain ⟨v, hv, hvr⟩ := hjoined.rank_mem
    have hge := hnext.rank_le v (List.mem_append_left _ hv)
    have ht := h.sameRank
    rcases List.mem_append.1 hz with hz | hz
    · have := hjoined.rank_le z hz
      omega
    · rw [List.mem_singleton.1 hz] at hzr
      omega
  -- no definition meets a declaration here, so only a peer takes over
  have hpeer : takes t x = true → t.defined = x.defined ∧ rank t ≤ rank x := by
    intro htakes
    obtain ⟨hdef', hge, -⟩ := takes_peer htakes fun hf => Bool.eq_false_iff.2 fun hx => by
      rw [h.defined, hdef hx] at hf
      cases hf
    exact ⟨hdef', hge⟩
  by_cases htakes : takes t x = true ∧ Located x
  · have hsource : (mergeFields t x).source = x.source := by rw [mergeFields_source, if_pos ⟨.inr htakes.1, htakes.2⟩]
    obtain ⟨hdef', hge⟩ := hpeer htakes.1
    have hxy := hlt (hdef'.symm.trans h.defined)
    exact ⟨hdefined, hrank, (Located.congr hsource).2 hxy.1, hsource ▸ hxy.2 (le_antisymm hle (h.sameRank ▸ hge))⟩
  · have hsource : (mergeFields t x).source = t.source := by
      rw [mergeFields_source, if_neg]
      rintro ⟨hnot | ht, hx⟩
      · exact hnot h.located
      · exact htakes ⟨ht, hx⟩
    exact ⟨hdefined, hrank, (Located.congr hsource).2 h.located, hsource ▸ h.order⟩

theorem Held.run (r : List Symbol) (h : Held y t) (hjoined : Joined p t) (hr : Accepted (some t) r)
    (hle : ∀ x ∈ r, rank x ≤ rank y) (hdef : ∀ x ∈ r, x.defined = true → y.defined = true)
    (hlt : ∀ x ∈ r, x.defined = y.defined →
      Located x ∧ (rank x = rank y → sourceOrder y.source < sourceOrder x.source)) :
    ∃ t', mergedAll (some t) r = some t' ∧ Held y t' := by
  induction r generalizing p t with
  | nil => exact ⟨t, rfl, h⟩
  | cons x r ih =>
    have hx := List.mem_cons_self (a := x) (l := r)
    exact ih (h.merge hjoined hr.1 (hle x hx) (hdef x hx) (hlt x hx)) (hjoined.merge (hr.1 t rfl)) hr.2
      (fun z hz => hle z (List.mem_cons_of_mem _ hz)) (fun z hz => hdef z (List.mem_cons_of_mem _ hz))
      fun z hz => hlt z (List.mem_cons_of_mem _ hz)

/-- `front`, then the other records with a signature, then `y`, then those without. -/
def blankingOrder (front r : List Symbol) (y : Symbol) : List Symbol :=
  (front ++ r.filter fun x => !x.signature.isEmpty) ++ y :: (r.filter fun x => x.signature.isEmpty).erase y

theorem blankingOrder_perm {front r : List Symbol} (hperm : (front ++ r).Perm l) (hy : y ∈ r) (hnil : y.signature = []) :
    (blankingOrder front r y).Perm l := by
  have hy' : y ∈ r.filter fun x => x.signature.isEmpty := List.mem_filter.2 ⟨hy, by simp [hnil]⟩
  refine List.Perm.trans ?_ hperm
  unfold blankingOrder
  rw [List.append_assoc]
  refine List.Perm.append_left front (List.Perm.trans ((List.perm_cons_erase hy').symm.append_left _) ?_)
  exact List.perm_append_comm.trans (List.filter_append_perm _ _)

/-- If `y` takes over from all that have a signature, an order leaves none. -/
theorem blankingOrder_blank (front r : List Symbol) (hagree : l.Pairwise Agree) (hperm : (front ++ r).Perm l) (hy : y ∈ r)
    (hnil : y.signature = [])
    (htakes : Accepted none (front ++ r.filter fun x => !x.signature.isEmpty) →
      ∃ t, mergedAll none (front ++ r.filter fun x => !x.signature.isEmpty) = some t ∧ takes t y = true) :
    ∃ l' t, l'.Perm l ∧ mergedAll none l' = some t ∧ t.signature = [] := by
  have horder := blankingOrder_perm hperm hy hnil
  obtain ⟨t, ht, hty⟩ := htakes ((accepted_append _ _).1 (accepted_perm horder hagree)).1
  obtain ⟨t', ht', hblank⟩ := blank_run (b := (r.filter fun x => x.signature.isEmpty).erase y) ht hty hnil fun w hw => by
    exact List.isEmpty_iff.1 (List.mem_filter.1 (List.mem_of_mem_erase hw)).2
  exact ⟨_, t', horder, ht', hblank⟩

/-- The records that have a signature all leave `y` room to take over. -/
theorem Outranks.held_run (ho : Outranks l y) (hy : Competes l y) (hlocated : ∀ x ∈ l, Competes l x → Located x)
    {front r : List Symbol} (hrl : ∀ x ∈ r, x ∈ l) (h : Held y t) (hjoined : Joined front t)
    (hr : Accepted (some t) (r.filter fun x => !x.signature.isEmpty)) :
    ∃ t', mergedAll (some t) (r.filter fun x => !x.signature.isEmpty) = some t' ∧ takes t' y = true := by
  have hsigned : ∀ x ∈ r.filter fun x => !x.signature.isEmpty, x ∈ l ∧ x.signature ≠ [] := by
    intro x hx
    obtain ⟨hx, hne⟩ := List.mem_filter.1 hx
    exact ⟨hrl x hx, by simpa using hne⟩
  have hdeclared : y.defined = false → ∀ x ∈ l, x.defined = false := fun hf => hy.resolve_left (Bool.eq_false_iff.1 hf)
  have hdefined : ∀ x ∈ l, x.defined = true → y.defined = true := by
    intro x hx hdef
    by_contra hf
    rw [hdeclared (Bool.eq_false_iff.2 hf) x hx] at hdef
    cases hdef
  have hpeer : ∀ x ∈ l, x.signature ≠ [] → x.defined = y.defined →
      Located x ∧ (rank x = rank y → sourceOrder y.source < sourceOrder x.source) := by
    intro x hx hne hdef
    have hc : Competes l x := by
      cases hyd : y.defined with
      | true => exact .inl (hdef.trans hyd)
      | false => exact .inr (hdeclared hyd)
    have hx' := hlocated x hx hc
    exact ⟨hx', ho.order_lt x hx hne hc hx'⟩
  obtain ⟨t', ht', hheld⟩ := h.run _ hjoined hr (fun x hx => ho.rank_le x (hsigned x hx).1 (hsigned x hx).2)
    (fun x hx => hdefined x (hsigned x hx).1) fun x hx => hpeer x (hsigned x hx).1 (hsigned x hx).2
  exact ⟨t', ht', hheld.overtaken⟩

/-- Some order of a list of agreeing records, one of which has a signature, leaves none. -/
theorem MayBlank.blanks (hy : MayBlank l y) (hs : SourcesComparable l) (hagree : l.Pairwise Agree)
    (hsigned : ∃ n ∈ l, n.signature ≠ []) : ∃ l' t, l'.Perm l ∧ mergedAll none l' = some t ∧ t.signature = [] := by
  have hdeclared : y.defined = false → ∀ x ∈ l, x.defined = false := fun hf =>
    hy.competes.resolve_left (Bool.eq_false_iff.1 hf)
  -- the records with a signature first, in their own order
  have hplain : (∀ t, RecordOf (l.filter fun x => !x.signature.isEmpty) t → takes t y = true) →
      ∃ l' t, l'.Perm l ∧ mergedAll none l' = some t ∧ t.signature = [] := by
    intro htakes
    refine blankingOrder_blank [] l hagree (.refl l) hy.mem hy.unsigned fun haccepted => ?_
    obtain ⟨n, hn, hne⟩ := hsigned
    have hn' : n ∈ l.filter fun x => !x.signature.isEmpty := List.mem_filter.2 ⟨hn, by simpa using hne⟩
    obtain ⟨t, ht, hmerged⟩ := merged_all (List.ne_nil_of_mem hn') haccepted
    exact ⟨t, ht, htakes t hmerged⟩
  have hfilter : ∀ x ∈ l.filter fun x => !x.signature.isEmpty, x ∈ l ∧ x.signature ≠ [] := fun x hx => by
    simpa using List.mem_filter.1 hx
  rcases hy.leads with ⟨hdef, hnone⟩ | ho
  · refine hplain fun t hmerged => takes_iff.2 (.inl ⟨hmerged.joined.defined_iff.2 fun x hx => ?_, hdef⟩)
    exact hnone x (hfilter x hx).1 (hfilter x hx).2
  by_cases hex : ∃ n ∈ l, n.signature ≠ [] ∧ rank n = rank y
  · obtain ⟨n, hn, hne, hrank⟩ := hex
    obtain ⟨d, hd, hle, hlt, hcompetes⟩ := ho.held n hn hne hrank
    -- a smaller location than `d`'s, so the sources differ
    have hlocated : ∀ x ∈ l, Competes l x → Located x := by
      refine hs.resolve_right fun hsame => ?_
      rw [hsame d hd y hy.mem] at hlt
      exact lt_irrefl _ hlt
    by_cases hc : Competes l n
    · have hnl := hlocated n hn hc
      have hheld : Held y n := ⟨hc.same hy.competes hn hy.mem, hrank, hnl, ho.order_lt n hn hne hc hnl hrank⟩
      refine blankingOrder_blank [n] (l.erase n) hagree (List.perm_cons_erase hn).symm ?_ hy.unsigned
        fun haccepted => ho.held_run hy.competes hlocated (fun x hx => List.mem_of_mem_erase hx) hheld (.single n)
          haccepted.2
      exact (List.mem_erase_of_ne fun heq : y = n => hne (by rw [← heq, hy.unsigned])).2 hy.mem
    · -- `n` raises the scope without competing, after `d` has brought its location
      have hdc : Competes l d := hcompetes.resolve_right fun ⟨u, hu, huc, hnot⟩ => hnot (hlocated u hu huc)
      have hnd : n.defined = false := Bool.eq_false_iff.2 fun hdef => hc (.inl hdef)
      have hdd : d.defined = true := hdc.resolve_right fun hnone => hc (.inr hnone)
      have hne' : n ≠ d := fun heq => hc (heq ▸ hdc)
      have hnerase : n ∈ l.erase d := (List.mem_erase_of_ne hne').2 hn
      have hdl := hlocated d hd hdc
      have hdn : takes d n = false := by
        refine Bool.eq_false_iff.2 fun htakes => ?_
        rcases takes_iff.1 htakes with ⟨hf, -⟩ | ⟨hsame, -⟩
        · rw [hdd] at hf
          cases hf
        · rw [hdd, hnd] at hsame
          cases hsame
      have hsource : (mergeFields d n).source = d.source := by
        rw [mergeFields_source, if_neg]
        rintro ⟨hnot | htakes, -⟩
        · exact hnot hdl
        · rw [hdn] at htakes
          cases htakes
      have hyd : y ≠ d := fun heq => lt_irrefl _ (heq ▸ hlt)
      have hyn : y ≠ n := fun heq => hne (by rw [← heq, hy.unsigned])
      refine blankingOrder_blank [d, n] ((l.erase d).erase n) hagree ?_ ?_ hy.unsigned fun haccepted => ?_
      · exact ((List.perm_cons_erase hnerase).symm.cons d).trans (List.perm_cons_erase hd).symm
      · exact (List.mem_erase_of_ne hyn).2 ((List.mem_erase_of_ne hyd).2 hy.mem)
      · have hjoined : Joined [d, n] (mergeFields d n) := (Joined.single d).merge (haccepted.2.1 d rfl)
        have hrank' : rank (mergeFields d n) = rank y := by
          obtain ⟨z, hz, hzr⟩ := hjoined.rank_mem
          have hge := hjoined.rank_le n (by simp)
          rcases List.mem_pair.1 hz with rfl | rfl <;> omega
        have hdefined : (mergeFields d n).defined = y.defined := by
          rw [← hdc.same hy.competes hd hy.mem]
          exact hjoined.competes_defined (by simp) (.inl hdd)
        exact ho.held_run hy.competes hlocated (fun x hx => List.mem_of_mem_erase (List.mem_of_mem_erase hx))
          ⟨hdefined, hrank', (Located.congr hsource).2 hdl, hsource ▸ hlt⟩ hjoined haccepted.2.2
  · -- the scope of `y` is above all that have a signature
    refine hplain fun t hmerged => takes_iff.2 ?_
    obtain ⟨z, hz, hzr⟩ := hmerged.joined.rank_mem
    obtain ⟨hzl, hne⟩ := hfilter z hz
    have hrank : rank t < rank y := by
      have hle := ho.rank_le z hzl hne
      have hneq : rank z ≠ rank y := fun heq => hex ⟨z, hzl, hne, heq⟩
      omega
    cases ht : t.defined with
    | true =>
      obtain ⟨x, hx, hdef⟩ := hmerged.joined.defined.1 ht
      refine .inr ⟨?_, .inl hrank⟩
      exact (hy.competes.resolve_right fun hnone => by rw [hnone x (hfilter x hx).1] at hdef; cases hdef).symm
    | false =>
      cases hyd : y.defined with
      | true => exact .inl ⟨rfl, rfl⟩
      | false => exact .inr ⟨rfl, .inl hrank⟩

end Blanks

/-! ## Every order -/

/-- Every two orders of the list that `addOrMergeSymbol` accepts leave the same record. -/
def OrderFree (g : Graph) (key : Bytes) (l : List Symbol) : Prop :=
  ∀ l₁ l₂ : List Symbol, l₁.Perm l → l₂.Perm l → ∀ ids₁ ids₂ g₁ g₂, l₁.mapM addOrMergeSymbol g = .ok ids₁ g₁ →
    l₂.mapM addOrMergeSymbol g = .ok ids₂ g₂ → g₁.record key = g₂.record key

/-- No order is accepted: a record is refused on its own, two disagree, or two have different names and none comes
without one. -/
def Rejected (l : List Symbol) : Prop :=
  (∃ s ∈ l, ¬ Admissible s) ∨ ¬ l.Pairwise AgreeBesidesName ∨
    ((¬ l.Pairwise fun a b => AgreeOrEmpty a.name b.name) ∧ ∀ s ∈ l, s.name ≠ [])

/-- All have one name, or two names differ, so that only a nameless record can come first. -/
def NamesSettled (l : List Symbol) : Prop :=
  (∀ a ∈ l, ∀ b ∈ l, a.name = b.name) ∨ ¬ l.Pairwise fun a b => AgreeOrEmpty a.name b.name

/-- The records that may win have one source. Without a located record, all have. -/
def SourcesSettled (l : List Symbol) : Prop :=
  ((∀ x ∈ l, ¬ Located x) → ∀ a ∈ l, ∀ b ∈ l, a.source = b.source) ∧
    ∀ a b, MayWin l a → MayWin l b → a.source = b.source

/-- All have one signature; or those that may take over last have one, and it is not empty; or those that have a
signature have the same, and none without may take over from all of them. -/
def SignaturesSettled (l : List Symbol) : Prop :=
  (∀ a ∈ l, ∀ b ∈ l, a.signature = b.signature) ∨
  ((∀ y, MaySign l y → y.signature ≠ []) ∧ ∀ a b, MaySign l a → MaySign l b → a.signature = b.signature) ∨
  ((∀ a ∈ l, ∀ b ∈ l, a.signature ≠ [] → b.signature ≠ [] → a.signature = b.signature) ∧ ∀ y, ¬ MayBlank l y)

/-- Every record that competes has a location, or no record has one. -/
def LocatedAlike (l : List Symbol) : Prop := (∀ x ∈ l, Competes l x → Located x) ∨ ∀ x ∈ l, ¬ Located x

section Settled
variable {l l₁ l₂ : List Symbol} {t t₁ t₂ y : Symbol}

theorem Yields.congr (hl : ∀ x, x ∈ l₁ ↔ x ∈ l₂) : Yields l₁ y ↔ Yields l₂ y := by
  unfold Yields
  simp only [hl]

theorem MayWin.congr (hl : ∀ x, x ∈ l₁ ↔ x ∈ l₂) (h : MayWin l₁ y) : MayWin l₂ y := by
  obtain ⟨hmem, hlocated, hcounts, hrank, horder⟩ := h
  simp only [hl, Yields.congr hl] at hmem hcounts hrank horder
  exact ⟨hmem, hlocated, hcounts, hrank, horder⟩

theorem Competes.congr (hl : ∀ x, x ∈ l₁ ↔ x ∈ l₂) : Competes l₁ y ↔ Competes l₂ y := by
  unfold Competes
  simp only [hl]

theorem MaySign.congr (hl : ∀ x, x ∈ l₁ ↔ x ∈ l₂) (h : MaySign l₁ y) : MaySign l₂ y := by
  obtain ⟨hmem, hcompetes, hrank, horder⟩ := h
  simp only [hl, Competes.congr hl] at hmem hcompetes hrank horder
  exact ⟨hmem, hcompetes, hrank, horder⟩

theorem MayBlank.congr (hl : ∀ x, x ∈ l₁ ↔ x ∈ l₂) (h : MayBlank l₁ y) : MayBlank l₂ y := by
  obtain ⟨hmem, hcompetes, hunsigned, hover⟩ := h
  have ho : Outranks l₁ y → Outranks l₂ y := by
    rintro ⟨hrank, horder, hheld⟩
    simp only [hl, Competes.congr hl] at hrank horder hheld
    exact ⟨hrank, horder, hheld⟩
  simp only [hl] at hover
  exact ⟨(hl y).1 hmem, (Competes.congr hl).1 hcompetes, hunsigned, hover.imp id ho⟩

theorem SignaturesSettled.congr (hl : ∀ x, x ∈ l₁ ↔ x ∈ l₂) (hs : SignaturesSettled l₁) : SignaturesSettled l₂ := by
  have hl' : ∀ x, x ∈ l₂ ↔ x ∈ l₁ := fun x => (hl x).symm
  refine hs.imp (fun hsame => by simpa only [hl] using hsame) (Or.imp ?_ ?_)
  · exact fun ⟨hne, hsame⟩ => ⟨fun y hy => hne y (hy.congr hl'), fun a b ha hb => hsame a b (ha.congr hl') (hb.congr hl')⟩
  · exact fun ⟨hsame, hblank⟩ => ⟨by simpa only [hl] using hsame, fun y hy => hblank y (hy.congr hl')⟩

theorem RecordOf.source_eq (hl : ∀ x, x ∈ l₁ ↔ x ∈ l₂) (hs : SourcesSettled l₁) (h₁ : RecordOf l₁ t₁) (h₂ : RecordOf l₂ t₂) :
    t₁.source = t₂.source := by
  rcases h₁.presented with ⟨hnone, x, hx, hsource⟩ | ⟨x, hx, hsource⟩
  · rcases h₂.presented with ⟨-, z, hz, hsource'⟩ | ⟨z, hz, -⟩
    · rw [hsource, hsource']
      exact hs.1 hnone x (List.mem_of_head? hx) z ((hl z).2 (List.mem_of_head? hz))
    · exact absurd hz.located (hnone z ((hl z).2 hz.mem))
  · rcases h₂.presented with ⟨hnone, -⟩ | ⟨z, hz, hsource'⟩
    · exact absurd hx.located (hnone x ((hl x).1 hx.mem))
    · rw [hsource, hsource']
      exact hs.2 x z hx (hz.congr fun x => (hl x).symm)

theorem RecordOf.signature_eq (hl : ∀ x, x ∈ l₁ ↔ x ∈ l₂) (hs : SignaturesSettled l₁) (h₁ : RecordOf l₁ t₁)
    (h₂ : RecordOf l₂ t₂) : t₁.signature = t₂.signature := by
  obtain ⟨x, hx, hx'⟩ := h₁.signed.mem
  obtain ⟨z, hz, hz'⟩ := h₂.signed.mem
  have hz₁ := (hl z).2 hz
  rcases hs with hsame | ⟨hne, hsame⟩ | ⟨hsame, hblank⟩
  · rw [hx', hz']
    exact hsame x hx z hz₁
  · obtain ⟨a, ha, -, hsigned⟩ := h₁.signed.signer
    obtain ⟨b, hb, -, hsigned'⟩ := h₂.signed.signer
    have hb₁ := hb.congr fun x => (hl x).symm
    rw [hsigned (hne a ha), hsigned' (hne b hb₁)]
    exact hsame a b ha hb₁
  · by_cases hall : ∀ v ∈ l₁, v.signature = []
    · rw [hx', hz', hall x hx, hall z hz₁]
    · have h₁ne : t₁.signature ≠ [] := fun hnil =>
        (h₁.signed.blank hnil).elim hall fun ⟨v, hv⟩ => hblank v hv
      have h₂ne : t₂.signature ≠ [] := fun hnil =>
        (h₂.signed.blank hnil).elim (fun hnone => hall fun v hv => hnone v ((hl v).1 hv))
          fun ⟨v, hv⟩ => hblank v (hv.congr fun x => (hl x).symm)
      rw [hx'] at h₁ne ⊢
      rw [hz'] at h₂ne ⊢
      exact hsame x hx z hz₁ h₁ne h₂ne

/-- With names, sources and signatures settled, the record does not depend on the order. -/
theorem RecordOf.unique (hp : l₁.Perm l₂) {key : Bytes} (hkey : ∀ s ∈ l₁, s.key = key) (hn : t₁.name = t₂.name)
    (hsources : SourcesSettled l₁) (hsignatures : SignaturesSettled l₁) (h₁ : RecordOf l₁ t₁) (h₂ : RecordOf l₂ t₂) :
    t₁ = t₂ := by
  have hl : ∀ x, x ∈ l₁ ↔ x ∈ l₂ := fun x => hp.mem_iff
  obtain ⟨hkind, hlinkage, hidentity, hqualified, hclass, hdefined, hvirtual, hscope⟩ := h₁.joined.agree hl h₂.joined
  have hsource := h₁.source_eq hl hsources h₂
  have hsignature := h₁.signature_eq hl hsignatures h₂
  have hk : t₁.key = t₂.key := by
    obtain ⟨x, hx, hx', -⟩ := h₁.head
    obtain ⟨z, hz, hz', -⟩ := h₂.head
    rw [hx', hz', hkey x (List.mem_of_head? hx), hkey z ((hl z).2 (List.mem_of_head? hz))]
  cases t₁
  cases t₂
  simp_all

theorem Accepted.head_name (h : Accepted none l) (hnames : ¬ l.Pairwise fun a b => AgreeOrEmpty a.name b.name)
    {x : Symbol} (hx : l.head? = some x) : x.name = [] := by
  rcases accepted_iff.1 h with hagree | hhidden
  · exact absurd (pairwise_agree_iff.1 hagree).2 hnames
  · exact hhidden.1 x hx

theorem NamesSettled.name_eq (hs : NamesSettled l) (hp₁ : l₁.Perm l) (hp₂ : l₂.Perm l) (ha₁ : Accepted none l₁)
    (ha₂ : Accepted none l₂) (h₁ : RecordOf l₁ t₁) (h₂ : RecordOf l₂ t₂) : t₁.name = t₂.name := by
  obtain ⟨x, hx, -, hx'⟩ := h₁.head
  obtain ⟨z, hz, -, hz'⟩ := h₂.head
  rw [hx', hz']
  rcases hs with hsame | hdiffer
  · exact hsame x (hp₁.mem_iff.1 (List.mem_of_head? hx)) z (hp₂.mem_iff.1 (List.mem_of_head? hz))
  · have hperm : ∀ {l' : List Symbol}, l'.Perm l → ¬ l'.Pairwise fun a b : Symbol => AgreeOrEmpty a.name b.name :=
      fun hp hpairs => hdiffer (hpairs.perm hp fun hab => hab.symm)
    rw [ha₁.head_name (hperm hp₁) hx, ha₂.head_name (hperm hp₂) hz]

/-- An order that is accepted shows that the list is not rejected. -/
theorem Accepted.not_rejected (hp : l₁.Perm l) (hadmissible : ∀ s ∈ l₁, Admissible s) (h : Accepted none l₁) :
    ¬ Rejected l := by
  have hpairs : l₁.Pairwise AgreeBesidesName := by
    rcases accepted_iff.1 h with hagree | hhidden
    · exact (pairwise_agree_iff.1 hagree).1
    · exact hhidden.2.1
  rintro (⟨s, hs, hnot⟩ | hnot | ⟨hnames, hnamed⟩)
  · exact hnot (hadmissible s (hp.mem_iff.2 hs))
  · exact hnot (hpairs.perm hp fun hab => ⟨hab.kind.symm, hab.internalLinkage.symm, hab.configurationId.symm,
      hab.linkageName.symm, hab.translationUnit.symm, hab.qualifiedName.symm, hab.className.symm, hab.usr.symm⟩)
  · have hnames₁ : ¬ l₁.Pairwise fun a b : Symbol => AgreeOrEmpty a.name b.name := fun hpairs =>
      hnames (hpairs.perm hp fun hab => hab.symm)
    cases hl : l₁ with
    | nil => rw [hl] at hnames₁; exact hnames₁ List.Pairwise.nil
    | cons x r => exact hnamed x (hp.mem_iff.1 (by simp [hl])) (h.head_name hnames₁ (by rw [hl]; rfl))

/-- If every order of agreeing records leaves the same signature, signatures are settled. -/
theorem signaturesSettled_of_same (hagree : l.Pairwise Agree) (hs : SourcesComparable l)
    (hsame : ∀ l₁ l₂ t₁ t₂, l₁.Perm l → l₂.Perm l → mergedAll none l₁ = some t₁ → mergedAll none l₂ = some t₂ →
      t₁.signature = t₂.signature) : SignaturesSettled l := by
  by_cases hall : ∀ a ∈ l, ∀ b ∈ l, a.signature = b.signature
  · exact .inl hall
  by_cases hblank : ∃ y, MaySign l y ∧ y.signature = []
  · obtain ⟨y, hy, hnil⟩ := hblank
    refine .inr (.inr ⟨fun a ha b hb hane hbne => ?_, fun z hz => ?_⟩)
    · obtain ⟨l₁, t₁, hp₁, ht₁, hsignature₁⟩ := hy.fills hs hagree hnil ha hane
      obtain ⟨l₂, t₂, hp₂, ht₂, hsignature₂⟩ := hy.fills hs hagree hnil hb hbne
      rw [← hsignature₁, ← hsignature₂, hsame _ _ _ _ hp₁ hp₂ ht₁ ht₂]
    · have hsigned : ∃ n ∈ l, n.signature ≠ [] := by
        by_contra hnone
        push Not at hnone
        exact hall fun a ha b hb => by rw [hnone a ha, hnone b hb]
      obtain ⟨n, hn, hne⟩ := hsigned
      obtain ⟨l₁, t₁, hp₁, ht₁, hsignature₁⟩ := hy.fills hs hagree hnil hn hne
      obtain ⟨l₂, t₂, hp₂, ht₂, hsignature₂⟩ := hz.blanks hs hagree ⟨n, hn, hne⟩
      rw [← hsignature₁, hsame _ _ _ _ hp₁ hp₂ ht₁ ht₂] at hne
      exact hne hsignature₂
  · have hne : ∀ y, MaySign l y → y.signature ≠ [] := fun y hy hnil => hblank ⟨y, hy, hnil⟩
    refine .inr (.inl ⟨hne, fun a b ha hb => ?_⟩)
    obtain ⟨l₁, t₁, hp₁, ht₁, hsignature₁⟩ := ha.signs hs hagree (hne a ha)
    obtain ⟨l₂, t₂, hp₂, ht₂, hsignature₂⟩ := hb.signs hs hagree (hne b hb)
    rw [← hsignature₁, ← hsignature₂, hsame _ _ _ _ hp₁ hp₂ ht₁ ht₂]

end Settled

/-- The record is the same in every order if no order is accepted, or names, sources and signatures are settled; and
where the records agree, only then (for the signature: unless a record that competes lacks the location that another
one has). -/
theorem addAll_orderFree (g : Graph) (key : Bytes) (l : List Symbol) (hg : g.Inv) (hnone : g.record key = none)
    (hkey : ∀ s ∈ l, s.key = key) :
    (Rejected l ∨ (NamesSettled l ∧ SourcesSettled l ∧ SignaturesSettled l) → OrderFree g key l) ∧
      (l.Pairwise Agree → (∀ s ∈ l, Admissible s) → OrderFree g key l →
        NamesSettled l ∧ SourcesSettled l ∧ (LocatedAlike l → SignaturesSettled l)) := by
  have hperm : ∀ {l' : List Symbol}, l'.Perm l → ∀ s ∈ l', s.key = key := fun hp s hs => hkey s (hp.mem_iff.1 hs)
  constructor
  · intro hsettled l₁ l₂ hp₁ hp₂ ids₁ ids₂ g₁ g₂ hadd₁ hadd₂
    obtain ⟨hadmissible, ha₁, hr₁⟩ := addAll_ok hg (hperm hp₁) hadd₁
    obtain ⟨-, ha₂, hr₂⟩ := addAll_ok hg (hperm hp₂) hadd₂
    rw [hnone] at ha₁ hr₁ ha₂ hr₂
    obtain ⟨hnames, hsources, hsignatures⟩ := hsettled.resolve_left (ha₁.not_rejected hp₁ hadmissible)
    rw [hr₁, hr₂]
    by_cases hnil : l₁ = []
    · rw [hnil] at hp₁ ⊢
      rw [List.nil_perm.1 hp₁] at hp₂
      rw [List.perm_nil.1 hp₂]
    · have hnil₂ : l₂ ≠ [] := fun h => hnil (List.perm_nil.1 (h ▸ hp₁.trans hp₂.symm))
      obtain ⟨t₁, ht₁, hm₁⟩ := merged_all hnil ha₁
      obtain ⟨t₂, ht₂, hm₂⟩ := merged_all hnil₂ ha₂
      have hl : ∀ x, x ∈ l ↔ x ∈ l₁ := fun x => hp₁.mem_iff.symm
      have hsources₁ : SourcesSettled l₁ := by
        refine ⟨fun hall a ha b hb => ?_, fun a b ha hb => ?_⟩
        · exact hsources.1 (fun x hx => hall x ((hl x).1 hx)) a ((hl a).2 ha) b ((hl b).2 hb)
        · exact hsources.2 a b (ha.congr fun x => (hl x).symm) (hb.congr fun x => (hl x).symm)
      rw [ht₁, ht₂, hm₁.unique (hp₁.trans hp₂.symm) (hperm hp₁) (hnames.name_eq hp₁ hp₂ ha₁ ha₂ hm₁ hm₂) hsources₁
        (hsignatures.congr hl) hm₂]
  · intro hagree hadmissible hfree
    -- every order is accepted, so any two of the records it leaves are equal
    have hsame : ∀ {l₁ l₂ : List Symbol} {t₁ t₂ : Symbol}, l₁.Perm l → l₂.Perm l → mergedAll none l₁ = some t₁ →
        mergedAll none l₂ = some t₂ → t₁ = t₂ := by
      intro l₁ l₂ t₁ t₂ hp₁ hp₂ ht₁ ht₂
      have hcompletes : ∀ {l' : List Symbol}, l'.Perm l → Completes g l' := fun hp =>
        addAll_completes hg (hperm hp) (fun s hs => hadmissible s (hp.mem_iff.1 hs))
          (by rw [hnone]; exact accepted_perm hp hagree)
      obtain ⟨ids₁, g₁, hadd₁⟩ := hcompletes hp₁
      obtain ⟨ids₂, g₂, hadd₂⟩ := hcompletes hp₂
      have hrecord := hfree l₁ l₂ hp₁ hp₂ ids₁ ids₂ g₁ g₂ hadd₁ hadd₂
      rw [(addAll_ok hg (hperm hp₁) hadd₁).2.2, (addAll_ok hg (hperm hp₂) hadd₂).2.2, hnone, ht₁, ht₂] at hrecord
      exact Option.some.inj hrecord
    have hfirst : ∀ a ∈ l, ∃ t, (a :: l.erase a).Perm l ∧ mergedAll none (a :: l.erase a) = some t ∧
        RecordOf (a :: l.erase a) t := by
      intro a ha
      have hp := (List.perm_cons_erase ha).symm
      obtain ⟨t, ht, hm⟩ := merged_all (List.cons_ne_nil _ _) (accepted_perm hp hagree)
      exact ⟨t, hp, ht, hm⟩
    have hsources : SourcesSettled l := by
      refine ⟨fun hall a ha b hb => ?_, fun a b ha hb => ?_⟩
      · obtain ⟨t, hp, ht, hm⟩ := hfirst a ha
        obtain ⟨t', hp', ht', hm'⟩ := hfirst b hb
        have hsource : ∀ {c t : Symbol}, (c :: l.erase c).Perm l → RecordOf (c :: l.erase c) t → t.source = c.source := by
          intro c t hp hm
          rcases hm.presented with ⟨-, _, ⟨⟩, hs⟩ | ⟨z, hz, -⟩
          · exact hs
          · exact absurd hz.located (hall z (hp.mem_iff.1 hz.mem))
        rw [← hsource hp hm, ← hsource hp' hm', hsame hp hp' ht ht']
      · obtain ⟨l₁, t₁, hp₁, ht₁, hsource₁⟩ := ha.wins hagree
        obtain ⟨l₂, t₂, hp₂, ht₂, hsource₂⟩ := hb.wins hagree
        rw [← hsource₁, ← hsource₂, hsame hp₁ hp₂ ht₁ ht₂]
    refine ⟨.inl fun a ha b hb => ?_, hsources, fun halike => ?_⟩
    · obtain ⟨t, hp, ht, hm⟩ := hfirst a ha
      obtain ⟨t', hp', ht', hm'⟩ := hfirst b hb
      obtain ⟨_, ⟨⟩, -, hname⟩ := hm.head
      obtain ⟨_, ⟨⟩, -, hname'⟩ := hm'.head
      rw [← hname, ← hname', hsame hp hp' ht ht']
    · exact signaturesSettled_of_same hagree (halike.imp id hsources.1)
        fun _ _ _ _ hp₁ hp₂ ht₁ ht₂ => congrArg Symbol.signature (hsame hp₁ hp₂ ht₁ ht₂)

/-- A header declares `f` below a report path, and two indexed files define it. -/
def headerF : Symbol :=
  { key := lit "f", signature := lit "void ()", scope := .reportable
    source := { spelling := { location := { file := ⟨lit "f.h"⟩, line := 1 } } } }

def firstF : Symbol :=
  { key := lit "f", signature := lit "void ()", scope := .indexed, defined := true
    source := { spelling := { location := { file := ⟨lit "a.cpp"⟩, line := 1 } } } }

def secondF : Symbol :=
  { key := lit "f", signature := lit "void ()", scope := .indexed, defined := true
    source := { spelling := { location := { file := ⟨lit "b.cpp"⟩, line := 1 } } } }

theorem firstF_orderFree : OrderFree {} (lit "f") [headerF, firstF] := by
  refine (addAll_orderFree {} (lit "f") [headerF, firstF] Graph.inv_empty rfl (by decide)).1
    (.inr ⟨.inl (by decide), ⟨fun hall => absurd (by decide) (hall headerF (by decide)), ?_⟩, .inl (by decide)⟩)
  have hwinner : ∀ a, MayWin [headerF, firstF] a → a = firstF := by
    intro a ha
    rcases List.mem_pair.1 ha.mem with rfl | rfl
    · obtain ⟨u, hu, hdef, hnot⟩ := ha.counts.resolve_left (by decide) firstF (by decide) rfl
      exact absurd (show Located u by revert u; decide) hnot
    · rfl
  exact fun a b ha hb => by rw [hwinner a ha, hwinner b hb]

/-- A record with only a key leaves the signature to the other one, whichever comes first. -/
example : SignaturesSettled [{ key := lit "f" }, { key := lit "f", signature := lit "void ()" }] := by
  refine .inr (.inr ⟨by decide, fun y hy => ?_⟩)
  rcases List.mem_pair.1 hy.mem with rfl | rfl
  · rcases hy.leads with ⟨hdef, -⟩ | ho
    · cases hdef
    · obtain ⟨d, hd, -, hlt, -⟩ := ho.held _ (List.mem_pair.2 (.inr rfl)) (by decide) rfl
      rcases List.mem_pair.1 hd with rfl | rfl <;> exact lt_irrefl _ hlt
  · exact absurd hy.unsigned (by decide)

theorem secondF_order : ¬ OrderFree {} (lit "f") [headerF, firstF, secondF] := by
  intro h
  have hrecord := h [headerF, firstF, secondF] [headerF, secondF, firstF] (List.Perm.refl _) (by decide)
    [0, 0, 0] [0, 0, 0] _ _ rfl rfl
  exact absurd (congrArg (Option.map fun s => (primarySourceExtent s).location.file) hrecord) (by decide)

end CxxDead
