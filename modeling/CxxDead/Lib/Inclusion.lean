import Mathlib.Data.List.Basic
/-!
# Texts that include other texts

An item of a list may refer to a name, and the items under that name take its place.

- `Substituted`: what a list becomes, and the names read on the way, in their order.
- `Reached`: the names that substitution comes to, and the names it is inside of then.
- `expands_iff`: substituting within a bound is substituting where no name is inside of itself
  and none too deep.
-/

namespace Lib

section Inclusion
variable {α ν : Type} (refers : α → Option ν) (body : ν → Option (List α))

/-- `Substituted items out names`: the items become `out`, and `names` are read. -/
inductive Substituted : List α → List α → List ν → Prop
  | nil : Substituted [] [] []
  | plain {a : α} {items out : List α} {names : List ν} : refers a = none → Substituted items out names →
      Substituted (a :: items) (a :: out) names
  | refer {a : α} {n : ν} {inner items out out' : List α} {names names' : List ν} : refers a = some n →
      body n = some inner → Substituted inner out names → Substituted items out' names' →
      Substituted (a :: items) (out ++ out') (n :: (names ++ names'))

/-- `Reached chain items chain' n`: from items inside of `chain`, the name `n` is reached inside of `chain'`. -/
inductive Reached : List ν → List α → List ν → ν → Prop
  | here {chain : List ν} {items : List α} {a : α} {n : ν} : a ∈ items → refers a = some n → Reached chain items chain n
  | inside {chain chain' : List ν} {items inner : List α} {a : α} {n m : ν} : a ∈ items → refers a = some n →
      body n = some inner → Reached (n :: chain) inner chain' m → Reached chain items chain' m

/-- What is reached has items, is not inside of itself, and is inside of fewer than `limit` names. -/
structure Sound (limit : Nat) (chain : List ν) (items : List α) : Prop where
  found {chain' : List ν} {n : ν} : Reached refers body chain items chain' n → ∃ inner, body n = some inner
  acyclic {chain' : List ν} {n : ν} : Reached refers body chain items chain' n → n ∉ chain'
  shallow {chain' : List ν} {n : ν} : Reached refers body chain items chain' n → chain'.length < limit

/-- Substitution that checks each name when it comes to it. -/
inductive Expands (limit : Nat) : List ν → List α → List α → List ν → Prop
  | nil {chain : List ν} : Expands limit chain [] [] []
  | plain {chain : List ν} {a : α} {items out : List α} {names : List ν} : refers a = none →
      Expands limit chain items out names → Expands limit chain (a :: items) (a :: out) names
  | refer {chain : List ν} {a : α} {n : ν} {inner items out out' : List α} {names names' : List ν} :
      refers a = some n → n ∉ chain → chain.length < limit → body n = some inner →
      Expands limit (n :: chain) inner out names → Expands limit chain items out' names' →
      Expands limit chain (a :: items) (out ++ out') (n :: (names ++ names'))

variable {refers body} {limit : Nat} {chain : List ν} {a : α} {n : ν} {items out : List α} {names : List ν}

/-! ## Substitution -/

/-- Nothing is left that refers to a name. -/
theorem Substituted.plain_out (h : Substituted refers body items out names) : ∀ a ∈ out, refers a = none := by
  induction h with
  | nil => exact fun _ h => nomatch h
  | plain ha _ ih => exact List.forall_mem_cons.2 ⟨ha, ih⟩
  | refer _ _ _ _ ih ih' => exact List.forall_mem_append.2 ⟨ih, ih'⟩

theorem Substituted.unique (h : Substituted refers body items out names) {out' : List α} {names' : List ν}
    (h' : Substituted refers body items out' names') : out = out' ∧ names = names' := by
  induction h generalizing out' names' with
  | nil =>
    cases h'
    exact ⟨rfl, rfl⟩
  | plain ha _ ih =>
    cases h' with
    | plain _ h' =>
      obtain ⟨rfl, rfl⟩ := ih h'
      exact ⟨rfl, rfl⟩
    | refer ha' => exact nomatch ha.symm.trans ha'
  | refer ha hn _ _ ih ih' =>
    cases h' with
    | plain ha' => exact nomatch ha.symm.trans ha'
    | refer ha' hn' h' h'' =>
      cases ha.symm.trans ha'
      cases hn.symm.trans hn'
      obtain ⟨rfl, rfl⟩ := ih h'
      obtain ⟨rfl, rfl⟩ := ih' h''
      exact ⟨rfl, rfl⟩

theorem Substituted.append {items' out' : List α} {names' : List ν} (h : Substituted refers body items out names)
    (h' : Substituted refers body items' out' names') :
    Substituted refers body (items ++ items') (out ++ out') (names ++ names') := by
  induction h with
  | nil => exact h'
  | plain ha _ ih => exact .plain ha ih
  | refer ha hn h _ _ ih =>
    rw [List.append_assoc, List.cons_append, List.cons_append, List.append_assoc]
    exact .refer ha hn h ih

/-! ## What is reached -/

theorem Reached.mono {items' : List α} (hsub : ∀ a ∈ items, a ∈ items') {chain' : List ν}
    (h : Reached refers body chain items chain' n) : Reached refers body chain items' chain' n := by
  cases h with
  | here ha hn => exact .here (hsub _ ha) hn
  | inside ha hn hinner h => exact .inside (hsub _ ha) hn hinner h

theorem not_reached_nil {chain' : List ν} : ¬ Reached refers body chain [] chain' n := by
  rintro (⟨ha, -⟩ | ⟨ha, -⟩) <;> exact nomatch ha

/-- The names that are read are those that are reached. -/
theorem Substituted.mem_names (h : Substituted refers body items out names) (chain : List ν) (m : ν) :
    m ∈ names ↔ ∃ chain', Reached refers body chain items chain' m := by
  induction h generalizing chain with
  | nil => exact iff_of_false List.not_mem_nil fun ⟨_, h⟩ => not_reached_nil h
  | plain ha _ ih =>
    rw [ih chain]
    constructor
    · exact fun ⟨chain', h⟩ => ⟨chain', h.mono fun _ => List.mem_cons_of_mem _⟩
    · rintro ⟨chain', ⟨hmem, hn⟩ | ⟨hmem, hn, hinner, h⟩⟩
      · rcases List.mem_cons.1 hmem with rfl | hmem
        · exact nomatch ha.symm.trans hn
        · exact ⟨_, .here hmem hn⟩
      · rcases List.mem_cons.1 hmem with rfl | hmem
        · exact nomatch ha.symm.trans hn
        · exact ⟨_, .inside hmem hn hinner h⟩
  | @refer a n inner items out out' names names' ha hn _ _ ih ih' =>
    rw [List.mem_cons, List.mem_append, ih (n :: chain), ih' chain]
    constructor
    · rintro (rfl | ⟨chain', h⟩ | ⟨chain', h⟩)
      · exact ⟨_, .here List.mem_cons_self ha⟩
      · exact ⟨_, .inside List.mem_cons_self ha hn h⟩
      · exact ⟨_, h.mono fun _ => List.mem_cons_of_mem _⟩
    · rintro ⟨chain', ⟨hmem, hn'⟩ | ⟨hmem, hn', hinner, h⟩⟩
      · rcases List.mem_cons.1 hmem with rfl | hmem
        · exact .inl (Option.some.inj (hn'.symm.trans ha))
        · exact .inr (.inr ⟨_, .here hmem hn'⟩)
      · rcases List.mem_cons.1 hmem with rfl | hmem
        · cases hn'.symm.trans ha
          cases hinner.symm.trans hn
          exact .inr (.inl ⟨_, h⟩)
        · exact .inr (.inr ⟨_, .inside hmem hn' hinner h⟩)

/-! ## Checked substitution -/

theorem Expands.substituted (h : Expands refers body limit chain items out names) :
    Substituted refers body items out names := by
  induction h with
  | nil => exact .nil
  | plain ha _ ih => exact .plain ha ih
  | refer ha _ _ hn _ _ ih ih' => exact .refer ha hn ih ih'

theorem Sound.mono {items' : List α} (hsub : ∀ a ∈ items', a ∈ items) (h : Sound refers body limit chain items) :
    Sound refers body limit chain items' :=
  ⟨fun hreached => h.found (hreached.mono hsub), fun hreached => h.acyclic (hreached.mono hsub),
    fun hreached => h.shallow (hreached.mono hsub)⟩

theorem Sound.inside {inner : List α} (h : Sound refers body limit chain items) (ha : a ∈ items)
    (hn : refers a = some n) (hinner : body n = some inner) : Sound refers body limit (n :: chain) inner :=
  ⟨fun hreached => h.found (.inside ha hn hinner hreached), fun hreached => h.acyclic (.inside ha hn hinner hreached),
    fun hreached => h.shallow (.inside ha hn hinner hreached)⟩

theorem Sound.cons_plain (ha : refers a = none) (h : Sound refers body limit chain items) :
    Sound refers body limit chain (a :: items) := by
  have hrest : ∀ {chain' m}, Reached refers body chain (a :: items) chain' m →
      Reached refers body chain items chain' m := by
    rintro chain' m (⟨hmem, hn⟩ | ⟨hmem, hn, hinner, h⟩)
    · rcases List.mem_cons.1 hmem with rfl | hmem
      · exact nomatch ha.symm.trans hn
      · exact .here hmem hn
    · rcases List.mem_cons.1 hmem with rfl | hmem
      · exact nomatch ha.symm.trans hn
      · exact .inside hmem hn hinner h
  exact ⟨fun hreached => h.found (hrest hreached), fun hreached => h.acyclic (hrest hreached),
    fun hreached => h.shallow (hrest hreached)⟩

theorem Sound.cons_refer {inner : List α} (ha : refers a = some n) (hn : n ∉ chain) (hlimit : chain.length < limit)
    (hinner : body n = some inner) (h : Sound refers body limit (n :: chain) inner)
    (h' : Sound refers body limit chain items) : Sound refers body limit chain (a :: items) := by
  have hcases : ∀ {chain' m}, Reached refers body chain (a :: items) chain' m →
      (chain' = chain ∧ m = n) ∨ Reached refers body (n :: chain) inner chain' m ∨
        Reached refers body chain items chain' m := by
    rintro chain' m (⟨hmem, hm⟩ | ⟨hmem, hm, hbody, h⟩)
    · rcases List.mem_cons.1 hmem with rfl | hmem
      · exact .inl ⟨rfl, Option.some.inj (hm.symm.trans ha)⟩
      · exact .inr (.inr (.here hmem hm))
    · rcases List.mem_cons.1 hmem with rfl | hmem
      · cases hm.symm.trans ha
        cases hbody.symm.trans hinner
        exact .inr (.inl h)
      · exact .inr (.inr (.inside hmem hm hbody h))
  refine ⟨fun hreached => ?_, fun hreached => ?_, fun hreached => ?_⟩
  · rcases hcases hreached with ⟨-, rfl⟩ | hreached | hreached
    · exact ⟨inner, hinner⟩
    · exact h.found hreached
    · exact h'.found hreached
  · rcases hcases hreached with ⟨rfl, rfl⟩ | hreached | hreached
    · exact hn
    · exact h.acyclic hreached
    · exact h'.acyclic hreached
  · rcases hcases hreached with ⟨rfl, -⟩ | hreached | hreached
    · exact hlimit
    · exact h.shallow hreached
    · exact h'.shallow hreached

theorem expands_nil : Expands refers body limit chain [] out names ↔ out = [] ∧ names = [] := by
  constructor
  · rintro ⟨⟩
    exact ⟨rfl, rfl⟩
  · rintro ⟨rfl, rfl⟩
    exact .nil

theorem expands_plain (ha : refers a = none) :
    Expands refers body limit chain [a] out names ↔ out = [a] ∧ names = [] := by
  constructor
  · intro h
    cases h with
    | plain _ h =>
      obtain ⟨rfl, rfl⟩ := expands_nil.1 h
      exact ⟨rfl, rfl⟩
    | refer ha' => exact nomatch ha.symm.trans ha'
  · rintro ⟨rfl, rfl⟩
    exact .plain ha .nil

theorem expands_refer (ha : refers a = some n) : Expands refers body limit chain [a] out names ↔
    n ∉ chain ∧ chain.length < limit ∧ ∃ inner names', body n = some inner ∧
      Expands refers body limit (n :: chain) inner out names' ∧ names = n :: names' := by
  constructor
  · intro h
    cases h with
    | plain ha' => exact nomatch ha'.symm.trans ha
    | refer ha' hn hlimit hinner h h' =>
      cases ha'.symm.trans ha
      obtain ⟨rfl, rfl⟩ := expands_nil.1 h'
      rw [List.append_nil, List.append_nil]
      exact ⟨hn, hlimit, _, _, hinner, h, rfl⟩
  · rintro ⟨hn, hlimit, inner, names', hinner, h, rfl⟩
    have hrefer := Expands.refer ha hn hlimit hinner h .nil
    rwa [List.append_nil, List.append_nil] at hrefer

/-- The first item, and then the others. -/
theorem expands_cons : Expands refers body limit chain (a :: items) out names ↔
    ∃ out₁ names₁ out₂ names₂, Expands refers body limit chain [a] out₁ names₁ ∧
      Expands refers body limit chain items out₂ names₂ ∧ out = out₁ ++ out₂ ∧ names = names₁ ++ names₂ := by
  constructor
  · intro h
    cases h with
    | plain ha h => exact ⟨[a], [], _, _, .plain ha .nil, h, rfl, rfl⟩
    | refer ha hn hlimit hinner h h' =>
      exact ⟨_, _, _, _, (expands_refer ha).2 ⟨hn, hlimit, _, _, hinner, h, rfl⟩, h', rfl, rfl⟩
  · rintro ⟨out₁, names₁, out₂, names₂, h, h', rfl, rfl⟩
    cases h with
    | plain ha h =>
      obtain ⟨rfl, rfl⟩ := expands_nil.1 h
      exact .plain ha h'
    | refer ha hn hlimit hinner h hnil =>
      obtain ⟨rfl, rfl⟩ := expands_nil.1 hnil
      rw [List.append_nil, List.append_nil]
      exact .refer ha hn hlimit hinner h h'

theorem Sound.append {items' : List α} (h : Sound refers body limit chain items)
    (h' : Sound refers body limit chain items') : Sound refers body limit chain (items ++ items') := by
  have hcases : ∀ {chain' m}, Reached refers body chain (items ++ items') chain' m →
      Reached refers body chain items chain' m ∨ Reached refers body chain items' chain' m := by
    rintro chain' m (⟨hmem, hm⟩ | ⟨hmem, hm, hbody, h⟩)
    · exact (List.mem_append.1 hmem).imp (.here · hm) (.here · hm)
    · exact (List.mem_append.1 hmem).imp (.inside · hm hbody h) (.inside · hm hbody h)
  exact ⟨fun hreached => (hcases hreached).elim h.found h'.found,
    fun hreached => (hcases hreached).elim h.acyclic h'.acyclic,
    fun hreached => (hcases hreached).elim h.shallow h'.shallow⟩

theorem Expands.sound (h : Expands refers body limit chain items out names) : Sound refers body limit chain items := by
  induction h with
  | nil =>
    exact ⟨fun h => absurd h not_reached_nil, fun h => absurd h not_reached_nil, fun h => absurd h not_reached_nil⟩
  | plain ha _ ih => exact ih.cons_plain ha
  | refer ha hn hlimit hinner _ _ ih ih' => exact .cons_refer ha hn hlimit hinner ih ih'

theorem Substituted.expands (h : Substituted refers body items out names) (hsound : Sound refers body limit chain items) :
    Expands refers body limit chain items out names := by
  induction h generalizing chain with
  | nil => exact .nil
  | plain ha _ ih => exact .plain ha (ih (hsound.mono fun _ => List.mem_cons_of_mem _))
  | @refer a n inner items out out' names names' ha hinner _ _ ih ih' =>
    have hhere : Reached refers body chain (a :: items) chain n := .here List.mem_cons_self ha
    exact .refer ha (hsound.acyclic hhere) (hsound.shallow hhere) hinner
      (ih (hsound.inside List.mem_cons_self ha hinner)) (ih' (hsound.mono fun _ => List.mem_cons_of_mem _))

theorem expands_iff : Expands refers body limit chain items out names ↔
    Sound refers body limit chain items ∧ Substituted refers body items out names :=
  ⟨fun h => ⟨h.sound, h.substituted⟩, fun ⟨hsound, h⟩ => h.expands hsound⟩

/-- Sound items become something: names are only so deep. -/
theorem Sound.expands (h : Sound refers body limit chain items) :
    ∃ out names, Expands refers body limit chain items out names := by
  obtain ⟨levels, hlevels⟩ : ∃ levels, limit ≤ chain.length + levels := ⟨limit, Nat.le_add_left _ _⟩
  induction levels generalizing chain items with
  | zero =>
    induction items with
    | nil => exact ⟨[], [], .nil⟩
    | cons a items ih =>
      obtain ⟨out, names, hout⟩ := ih (h.mono fun _ => List.mem_cons_of_mem _)
      cases ha : refers a with
      | none => exact ⟨_, _, .plain ha hout⟩
      | some n => exact absurd (h.shallow (.here List.mem_cons_self ha)) (Nat.not_lt.2 hlevels)
  | succ levels ihlevels =>
    induction items with
    | nil => exact ⟨[], [], .nil⟩
    | cons a items ih =>
      obtain ⟨out', names', hout'⟩ := ih (h.mono fun _ => List.mem_cons_of_mem _)
      cases ha : refers a with
      | none => exact ⟨_, _, .plain ha hout'⟩
      | some n =>
        have hhere : Reached refers body chain (a :: items) chain n := .here List.mem_cons_self ha
        obtain ⟨inner, hinner⟩ := h.found hhere
        obtain ⟨out, names, hout⟩ := ihlevels (h.inside List.mem_cons_self ha hinner)
          (by rw [List.length_cons]; omega)
        exact ⟨_, _, .refer ha (h.acyclic hhere) (h.shallow hhere) hinner hout hout'⟩

end Inclusion

end Lib
