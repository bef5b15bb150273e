import Mathlib.Data.List.Lex
import Mathlib.Data.Nat.Digits.Lemmas
import Mathlib.Order.Lattice
/-!
# Byte strings

A `std::string` is a list of bytes, compared as unsigned characters. `lit` is an
ASCII literal of the source and `decimal` is what a stream prints for an
unsigned number.
-/

instance instLinearOrderUInt8 : LinearOrder UInt8 where
  le_refl a := UInt8.le_refl a
  le_trans _ _ _ := UInt8.le_trans
  le_antisymm _ _ := UInt8.le_antisymm
  le_total := UInt8.le_total
  lt_iff_le_not_ge a b := by simp only [UInt8.lt_iff_toNat_lt, UInt8.le_iff_toNat_le]; omega
  toDecidableLE := inferInstance

instance instLinearOrderUInt64 : LinearOrder UInt64 where
  le_refl a := UInt64.le_refl a
  le_trans _ _ _ := UInt64.le_trans
  le_antisymm _ _ := UInt64.le_antisymm
  le_total := UInt64.le_total
  lt_iff_le_not_ge a b := by simp only [UInt64.lt_iff_toNat_lt, UInt64.le_iff_toNat_le]; omega
  toDecidableLE := inferInstance

namespace CxxDead

abbrev Bytes := List UInt8

instance instLawfulBEqBytes : LawfulBEq Bytes := List.instLawfulBEq

/-- A property of all bytes of a text is decided by going through the text. -/
instance (priority := high) decidableForallMemBytes (p : UInt8 → Prop) [DecidablePred p] (s : Bytes) :
    Decidable (∀ c ∈ s, p c) := List.decidableBAll p s

/-- The byte of an ASCII character. -/
def ch (c : Char) : UInt8 := c.toNat.toUInt8

/-- The bytes of an ASCII literal. -/
def lit (s : String) : Bytes := s.toList.map ch

/-- Decimal digits, most significant first. -/
def decimal (n : Nat) : Bytes :=
  if n = 0 then [ch '0'] else (Nat.digits 10 n).reverse.map fun d => ch '0' + d.toUInt8

example : decimal 2048 = lit "2048" := by decide

end CxxDead
