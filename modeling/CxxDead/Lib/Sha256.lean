import CxxDead.Lib.Blocks
import Mathlib.Analysis.SpecialFunctions.Pow.NthRootLemmas
import Mathlib.Data.Nat.Prime.Defs
/-!
# SHA-256

The hash function of FIPS 180-4 on messages of whole bytes, with the standard's words.

- `constants`, `initial`: the first 32 bits of the fractional parts of roots of primes.
- `pad`: a one bit, zero bits, and the length of the message in bits as 64 bits.
- `digest`, `hexDigest`: the eight words, and their 64 digits.
-/

namespace Lib.Sha256

abbrev Word := BitVec 32

/-! ## Functions -/

def ch (x y z : Word) : Word := (x &&& y) ^^^ (~~~x &&& z)

def maj (x y z : Word) : Word := (x &&& y) ^^^ (x &&& z) ^^^ (y &&& z)

def bigSigma0 (x : Word) : Word := x.rotateRight 2 ^^^ x.rotateRight 13 ^^^ x.rotateRight 22

def bigSigma1 (x : Word) : Word := x.rotateRight 6 ^^^ x.rotateRight 11 ^^^ x.rotateRight 25

def smallSigma0 (x : Word) : Word := x.rotateRight 7 ^^^ x.rotateRight 18 ^^^ x >>> 3

def smallSigma1 (x : Word) : Word := x.rotateRight 17 ^^^ x.rotateRight 19 ^^^ x >>> 10

/-! ## Constants -/

/-- The first 64 primes. -/
def primes : List Nat := (List.range 312).filter fun p => decide (2 ≤ p ∧ ∀ m ∈ List.range 18, ¬ (2 ≤ m ∧ m < p ∧ m ∣ p))

theorem mem_primes {p : Nat} : p ∈ primes ↔ p < 312 ∧ p.Prime := by
  rw [primes, List.mem_filter, List.mem_range, decide_eq_true_eq]
  refine and_congr_right fun hp => ?_
  constructor
  · rintro ⟨htwo, h⟩
    refine Nat.prime_def_le_sqrt.2 ⟨htwo, fun m hm hle hdvd => h m (List.mem_range.2 ?_) ⟨hm, ?_, hdvd⟩⟩
    · have hsq := Nat.le_sqrt.1 hle
      by_contra hge
      have := Nat.mul_le_mul (Nat.le_of_not_lt hge) (Nat.le_of_not_lt hge)
      omega
    · exact lt_of_le_of_lt hle (Nat.sqrt_lt_self htwo)
  · intro h
    refine ⟨h.two_le, fun m _ ⟨hm, hlt, hdvd⟩ => ?_⟩
    rcases (Nat.dvd_prime h).1 hdvd with rfl | rfl <;> omega

example : primes.length = 64 := by decide +kernel

/-- The first 32 bits of the fractional part of the `n`-th root of `p`. -/
def rootBits (n p : Nat) : Word := BitVec.ofNat 32 (Nat.nthRoot n (p * 2 ^ (32 * n)))

/-- Whether each word is the fraction of the root of its prime, looked up with the power. -/
def rootsChecked (n : Nat) : List Nat → List Word → Bool
  | [], [] => true
  | p :: ps, w :: ws =>
    ((List.range 8).any fun i =>
      let root := 2 ^ 32 * i + w.toNat
      decide (root ^ n ≤ p * 2 ^ (32 * n) ∧ p * 2 ^ (32 * n) < (root + 1) ^ n)) && rootsChecked n ps ws
  | _, _ => false

theorem map_rootBits {n : Nat} {ps : List Nat} {ws : List Word} (h : rootsChecked n ps ws = true) :
    ps.map (rootBits n) = ws := by
  induction ps generalizing ws with
  | nil =>
    cases ws with
    | nil => rfl
    | cons w ws => cases h
  | cons p ps ih =>
    cases ws with
    | nil => cases h
    | cons w ws =>
      rw [rootsChecked, Bool.and_eq_true, List.any_eq_true] at h
      obtain ⟨⟨i, -, hroot⟩, hrest⟩ := h
      obtain ⟨hle, hlt⟩ := of_decide_eq_true hroot
      rw [List.map_cons, ih hrest, rootBits, Nat.nthRoot_eq_of_le_of_lt hle hlt]
      refine congrArg (· :: ws) (BitVec.eq_of_toNat_eq ?_)
      rw [BitVec.toNat_ofNat, Nat.mul_add_mod, Nat.mod_eq_of_lt w.isLt]

def constants : List Word := primes.map (rootBits 3)

/-- The eight words of a hash value. -/
abbrev Hash := Vector Word 8

/-- `H⁽⁰⁾`. -/
def initial : Hash := Vector.ofFn fun i => rootBits 2 (primes.getD i 0)

/-! ## Padding -/

/-- The least number of zero bytes that leaves eight bytes of the last block. -/
def zeros (length : Nat) : Nat := (119 - length % 64) % 64

theorem zeros_spec (length : Nat) : (length + 1 + zeros length) % 64 = 56 := by
  unfold zeros
  omega

theorem zeros_least {length k : Nat} (h : (length + 1 + k) % 64 = 56) : zeros length ≤ k := by
  unfold zeros
  omega

/-- A number as 64 bits, most significant byte first. -/
def bits64 (n : Nat) : List UInt8 := (List.range 8).map fun i => (n / 256 ^ (7 - i)).toUInt8

theorem bits64_value {n : Nat} (hn : n < 2 ^ 64) : (bits64 n).foldl (fun m b => 256 * m + b.toNat) 0 = n := by
  simp only [bits64, List.range_succ, List.range_zero, List.nil_append, List.cons_append, List.map_cons, List.map_nil,
    List.foldl_cons, List.foldl_nil, Nat.toUInt8_eq, UInt8.toNat_ofNat']
  omega

def pad (message : List UInt8) : List UInt8 :=
  message ++ 0x80 :: (List.replicate (zeros message.length) 0 ++ bits64 (8 * message.length))

theorem bits64_length (n : Nat) : (bits64 n).length = 8 := by rw [bits64, List.length_map, List.length_range]

theorem pad_length (message : List UInt8) : (pad message).length % 64 = 0 := by
  have h := zeros_spec message.length
  simp only [pad, List.length_append, List.length_cons, List.length_replicate, bits64_length]
  omega

/-! ## The hash of a block -/

/-- The `t`-th word of a block. -/
def word (block : List UInt8) (t : Nat) : Word :=
  (block.getD (4 * t) 0).toBitVec ++ (block.getD (4 * t + 1) 0).toBitVec ++ (block.getD (4 * t + 2) 0).toBitVec ++
    (block.getD (4 * t + 3) 0).toBitVec

/-- The message schedule. -/
def schedule (block : List UInt8) (t : Nat) : Word :=
  if t < 16 then word block t
  else smallSigma1 (schedule block (t - 2)) + schedule block (t - 7) + smallSigma0 (schedule block (t - 15)) +
    schedule block (t - 16)

/-- The working variables. -/
structure Working where
  a : Word
  b : Word
  c : Word
  d : Word
  e : Word
  f : Word
  g : Word
  h : Word

def round (k w : Word) (v : Working) : Working :=
  let t₁ := v.h + bigSigma1 v.e + ch v.e v.f v.g + k + w
  let t₂ := bigSigma0 v.a + maj v.a v.b v.c
  { a := t₁ + t₂, b := v.a, c := v.b, d := v.c, e := v.d + t₁, f := v.e, g := v.f, h := v.g }

def rounds (hash : Hash) (block : List UInt8) : Working :=
  (List.range 64).foldl (fun v t => round (constants.getD t 0) (schedule block t) v)
    ⟨hash.get 0, hash.get 1, hash.get 2, hash.get 3, hash.get 4, hash.get 5, hash.get 6, hash.get 7⟩

def compress (hash : Hash) (block : List UInt8) : Hash :=
  let v := rounds hash block
  #v[v.a + hash.get 0, v.b + hash.get 1, v.c + hash.get 2, v.d + hash.get 3, v.e + hash.get 4, v.f + hash.get 5,
    v.g + hash.get 6, v.h + hash.get 7]

/-! ## The digest -/

def digest (message : List UInt8) : Hash := (blocks 64 (pad message)).foldl compress initial

/-- The character of a hexadecimal digit. -/
def hexDigit (d : Nat) : UInt8 := if d < 10 then (48 + d).toUInt8 else (87 + d).toUInt8

def hexWord (w : Word) : List UInt8 := (List.range 8).map fun i => hexDigit (w.toNat / 16 ^ (7 - i) % 16)

def hexDigest (message : List UInt8) : List UInt8 := (digest message).toList.flatMap hexWord

end Lib.Sha256
