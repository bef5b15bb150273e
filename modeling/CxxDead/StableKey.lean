import CxxDead.Graph
import CxxDead.JsonText
import CxxDead.Lib.Prefixed
/-!
# Stable symbol keys

- `stableSymbolKey_eq_iff`: equal keys mean equal configurations, translation units
  and anchors, whatever bytes the fields hold.
-/

namespace CxxDead

open Lib

/-- Which field identifies a symbol. -/
inductive AnchorKind where
  | linkage | usr | fallback
deriving DecidableEq, Repr

def AnchorKind.text : AnchorKind → Bytes
  | .linkage => lit "linkage" | .usr => lit "usr" | .fallback => lit "fallback"

/-- The linkage name if there is one, else the USR if there is one, else the fallback anchor. -/
def effectiveAnchor (identity : SymbolIdentity) : AnchorKind × Bytes :=
  if identity.linkageName ≠ [] then (.linkage, identity.linkageName)
  else if identity.usr ≠ [] then (.usr, identity.usr)
  else (.fallback, identity.fallbackAnchor)

theorem AnchorKind.text_injective : Function.Injective AnchorKind.text := by
  intro a b h
  cases a <;> cases b <;> first | rfl | exact absurd h (by decide)

theorem decimal_injective : Function.Injective decimal := by
  intro m n h
  rw [← decimal_value m, h, decimal_value]

theorem colon_not_mem_decimal (n : Nat) : ch ':' ∉ decimal n := fun hmem =>
  absurd (decimal_digits n _ hmem) (by decide)

/-- A component under a known label gives its value and what follows it. -/
theorem appendComponent_inj (label : Bytes) {value value' rest rest' : Bytes} :
    appendComponent label value ++ rest = appendComponent label value' ++ rest' ↔ value = value' ∧ rest = rest' := by
  have hsplit : ∀ value rest : Bytes, appendComponent label value ++ rest =
      (ch '|' :: (label ++ [ch '='])) ++ (prefixed decimal (ch ':') value ++ rest) := by
    intro value rest
    simp only [appendComponent, prefixed, List.cons_append, List.append_assoc, List.nil_append]
  rw [hsplit, hsplit, List.append_cancel_left_eq]
  exact prefixed_inj decimal_injective colon_not_mem_decimal

/-- The key as its components, the anchor's kind among them. -/
theorem stableSymbolKey_components (identity : SymbolIdentity) :
    stableSymbolKey identity = lit "cxx-dead-symbol-v1" ++
      (appendComponent (lit "configuration") identity.configurationId ++
        (appendComponent (lit "anchor") (effectiveAnchor identity).1.text ++
          (appendComponent (lit "value") (effectiveAnchor identity).2 ++
            (appendComponent (lit "translation_unit") identity.translationUnit ++ [])))) := by
  unfold stableSymbolKey effectiveAnchor
  split
  · simp only [List.append_assoc, List.append_nil]
    rfl
  · split
    · simp only [List.append_assoc, List.append_nil]
      rfl
    · simp only [List.append_assoc, List.append_nil]
      rfl

theorem stableSymbolKey_eq_iff (a b : SymbolIdentity) :
    stableSymbolKey a = stableSymbolKey b ↔
      a.configurationId = b.configurationId ∧ a.translationUnit = b.translationUnit ∧
        effectiveAnchor a = effectiveAnchor b := by
  rw [stableSymbolKey_components, stableSymbolKey_components, List.append_cancel_left_eq, appendComponent_inj,
    appendComponent_inj, appendComponent_inj, appendComponent_inj, AnchorKind.text_injective.eq_iff, Prod.ext_iff]
  constructor
  · rintro ⟨hconfiguration, hkind, hvalue, hunit, -⟩
    exact ⟨hconfiguration, hunit, hkind, hvalue⟩
  · rintro ⟨hconfiguration, hunit, hkind, hvalue⟩
    exact ⟨hconfiguration, hkind, hvalue, hunit, rfl⟩

end CxxDead
