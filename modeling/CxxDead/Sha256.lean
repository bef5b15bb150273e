import CxxDead.Bytes
import CxxDead.Lib.Sha256
import Mathlib.Data.List.GetD
/-!
# SHA-256 of the cache

`Sha256` takes a message piece by piece: bytes wait in a buffer, and a full buffer is
hashed into the state. `finish` fills the buffer up as the standard pads messages.

- `Represents.update`: what an object holds after any bytes.
- `finish_update`: however a message is cut into updates, `finish` gives its digest.
-/

namespace CxxDead

open Lib

structure Sha256 where
  state : Vector UInt32 8 :=
    #v[0x6a09e667, 0xbb67ae85, 0x3c6ef372, 0xa54ff53a, 0x510e527f, 0x9b05688c, 0x1f83d9ab, 0x5be0cd19]
  buffer : Vector UInt8 64 := Vector.replicate 64 0
  bufferSize : Nat := 0
  bitCount : UInt64 := 0

namespace Sha256

def constants : List UInt32 :=
  [0x428a2f98, 0x71374491, 0xb5c0fbcf, 0xe9b5dba5, 0x3956c25b, 0x59f111f1, 0x923f82a4,
    0xab1c5ed5, 0xd807aa98, 0x12835b01, 0x243185be, 0x550c7dc3, 0x72be5d74, 0x80deb1fe,
    0x9bdc06a7, 0xc19bf174, 0xe49b69c1, 0xefbe4786, 0x0fc19dc6, 0x240ca1cc, 0x2de92c6f,
    0x4a7484aa, 0x5cb0a9dc, 0x76f988da, 0x983e5152, 0xa831c66d, 0xb00327c8, 0xbf597fc7,
    0xc6e00bf3, 0xd5a79147, 0x06ca6351, 0x14292967, 0x27b70a85, 0x2e1b2138, 0x4d2c6dfc,
    0x53380d13, 0x650a7354, 0x766a0abb, 0x81c2c92e, 0x92722c85, 0xa2bfe8a1, 0xa81a664b,
    0xc24b8b70, 0xc76c51a3, 0xd192e819, 0xd6990624, 0xf40e3585, 0x106aa070, 0x19a4c116,
    0x1e376c08, 0x2748774c, 0x34b0bcb5, 0x391c0cb3, 0x4ed8aa4a, 0x5b9cca4f, 0x682e6ff3,
    0x748f82ee, 0x78a5636f, 0x84c87814, 0x8cc70208, 0x90befffa, 0xa4506ceb, 0xbef9a3f7,
    0xc67178f2]

/-- `std::rotr`. -/
def rotr (x : UInt32) (s : Nat) : UInt32 := ⟨x.toBitVec.rotateRight s⟩

/-! ## The transformation -/

def loadWord (buffer : Vector UInt8 64) (index : Nat) : UInt32 :=
  let offset := index * 4
  (buffer.toList.getD offset 0).toUInt32 <<< 24 ||| (buffer.toList.getD (offset + 1) 0).toUInt32 <<< 16 |||
    (buffer.toList.getD (offset + 2) 0).toUInt32 <<< 8 ||| (buffer.toList.getD (offset + 3) 0).toUInt32

/-- The next word, behind the words so far. -/
def nextWord (words : List UInt32) : List UInt32 :=
  let index := words.length
  let back := fun n => words.getD (index - n) 0
  let s0 := rotr (back 15) 7 ^^^ rotr (back 15) 18 ^^^ back 15 >>> 3
  let s1 := rotr (back 2) 17 ^^^ rotr (back 2) 19 ^^^ back 2 >>> 10
  words ++ [back 16 + s0 + back 7 + s1]

def words (buffer : Vector UInt8 64) : List UInt32 := nextWord^[48] ((List.range 16).map (loadWord buffer))

/-- The variables of the rounds. -/
structure Working where
  a : UInt32
  b : UInt32
  c : UInt32
  d : UInt32
  e : UInt32
  f : UInt32
  g : UInt32
  h : UInt32

def round (words : List UInt32) (v : Working) (index : Nat) : Working :=
  let sum1 := rotr v.e 6 ^^^ rotr v.e 11 ^^^ rotr v.e 25
  let choose := (v.e &&& v.f) ^^^ (~~~v.e &&& v.g)
  let temporary1 := v.h + sum1 + choose + constants.getD index 0 + words.getD index 0
  let sum0 := rotr v.a 2 ^^^ rotr v.a 13 ^^^ rotr v.a 22
  let majority := (v.a &&& v.b) ^^^ (v.a &&& v.c) ^^^ (v.b &&& v.c)
  let temporary2 := sum0 + majority
  { a := temporary1 + temporary2, b := v.a, c := v.b, d := v.c, e := v.d + temporary1, f := v.e, g := v.f, h := v.g }

def rounds (s : Sha256) : Working :=
  (List.range 64).foldl (round (words s.buffer))
    ⟨s.state[0], s.state[1], s.state[2], s.state[3], s.state[4], s.state[5], s.state[6], s.state[7]⟩

def transform (s : Sha256) : Sha256 :=
  let v := s.rounds
  { s with
    state := #v[s.state[0] + v.a, s.state[1] + v.b, s.state[2] + v.c, s.state[3] + v.d, s.state[4] + v.e,
      s.state[5] + v.f, s.state[6] + v.g, s.state[7] + v.h] }

/-! ## Updates -/

/-- `buffer_[buffer_size_++] = byte`. -/
def put (s : Sha256) (byte : UInt8) : Sha256 :=
  { s with buffer := s.buffer.setIfInBounds s.bufferSize byte, bufferSize := s.bufferSize + 1 }

def updateByte (s : Sha256) (byte : UInt8) : Sha256 :=
  let s := s.put byte
  if s.bufferSize = 64 then { s.transform with bitCount := s.bitCount + 512, bufferSize := 0 } else s

def update (s : Sha256) (input : Bytes) : Sha256 := input.foldl updateByte s

/-- Zeros up to the position `n`. -/
def fill (n : Nat) (s : Sha256) : Sha256 := (put · 0)^[n - s.bufferSize] s

def hexDigit (d : Nat) : UInt8 := if d < 10 then ch '0' + d.toUInt8 else ch 'a' + (d - 10).toUInt8

/-- A number behind `std::hex`, `setfill('0')` and `setw(8)`. -/
def hexNumber (value : UInt32) : Bytes :=
  let digits := if value = 0 then [ch '0'] else (Nat.digits 16 value.toNat).reverse.map hexDigit
  List.replicate (8 - digits.length) (ch '0') ++ digits

def finish (s : Sha256) : Bytes :=
  let bitCount := s.bitCount + s.bufferSize.toUInt64 * 8
  let s := s.put 0x80
  let s := if s.bufferSize > 56 then { (s.fill 64).transform with bufferSize := 0 } else s
  let s := s.fill 56
  let s := [56, 48, 40, 32, 24, 16, 8, 0].foldl (fun s shift => s.put (bitCount >>> shift).toUInt8) s
  s.transform.state.toList.flatMap hexNumber

end Sha256

/-- Nothing hashed yet. -/
def Sha256.start : Sha256 := {}

def sha256 (input : Bytes) : Bytes := (Sha256.update {} input).finish

example : sha256 (lit "abc") = lit "ba7816bf8f01cfea414140de5dae2223b00361a396177a9cb410ff61f20015ad" := by
  decide +kernel

namespace Sha256

/-! ## Words as the standard has them -/

theorem constants_bits : constants.map UInt32.toBitVec = Lib.Sha256.constants :=
  (Lib.Sha256.map_rootBits (by decide +kernel)).symm

theorem initial_bits : ({} : Sha256).state.map UInt32.toBitVec = Lib.Sha256.initial := by decide +kernel

theorem word_bits (a b c d : UInt8) :
    (a.toUInt32 <<< 24 ||| b.toUInt32 <<< 16 ||| c.toUInt32 <<< 8 ||| d.toUInt32).toBitVec =
      a.toBitVec ++ b.toBitVec ++ c.toBitVec ++ d.toBitVec := by
  refine BitVec.eq_of_getLsbD_eq fun i hi => ?_
  simp only [UInt32.toBitVec_or, UInt32.toBitVec_shiftLeft, UInt8.toBitVec_toUInt32, UInt32.toBitVec_ofNat,
    BitVec.shiftLeft_eq', BitVec.getLsbD_or, BitVec.getLsbD_shiftLeft, BitVec.getLsbD_setWidth, BitVec.getLsbD_append]
  have hzero : ∀ (x : UInt8) k, 8 ≤ k → x.toBitVec.getLsbD k = false := fun x k hk => BitVec.getLsbD_of_ge _ _ hk
  grind

theorem loadWord_bits (buffer : Vector UInt8 64) (index : Nat) :
    (loadWord buffer index).toBitVec = Lib.Sha256.word buffer.toList index := by
  unfold Lib.Sha256.word
  rw [Nat.mul_comm 4 index]
  exact word_bits _ _ _ _

/-- The words so far, where `count` of them are from the schedule. -/
def scheduled (buffer : Vector UInt8 64) (count : Nat) : List UInt32 :=
  (List.range count).map fun t => ⟨Lib.Sha256.schedule buffer.toList t⟩

theorem scheduled_getD (buffer : Vector UInt8 64) {count t : Nat} (ht : t < count) :
    (scheduled buffer count).getD t 0 = ⟨Lib.Sha256.schedule buffer.toList t⟩ := by
  rw [scheduled, List.getD_eq_getElem _ _ (by simpa using ht), List.getElem_map, List.getElem_range]

theorem nextWord_scheduled (buffer : Vector UInt8 64) {count : Nat} (hcount : 16 ≤ count) :
    nextWord (scheduled buffer count) = scheduled buffer (count + 1) := by
  have hlength : (scheduled buffer count).length = count := by rw [scheduled, List.length_map, List.length_range]
  have hback : ∀ n, 0 < n → n ≤ 16 → (scheduled buffer count).getD (count - n) 0 =
      ⟨Lib.Sha256.schedule buffer.toList (count - n)⟩ := fun n hn hle => scheduled_getD buffer (by omega)
  have hschedule : scheduled buffer (count + 1) =
      scheduled buffer count ++ [⟨Lib.Sha256.schedule buffer.toList count⟩] := by
    unfold scheduled
    rw [List.range_succ, List.map_append, List.map_singleton]
  unfold nextWord
  simp only [hlength]
  rw [hback 15 (by decide) (by decide), hback 2 (by decide) (by decide), hback 16 (by decide) (by decide),
    hback 7 (by decide) (by decide), hschedule]
  congr 2
  refine UInt32.toBitVec_inj.1 ?_
  have hcount' : ¬ count < 16 := by omega
  show Lib.Sha256.schedule _ (count - 16) + Lib.Sha256.smallSigma0 (Lib.Sha256.schedule _ (count - 15)) +
    Lib.Sha256.schedule _ (count - 7) + Lib.Sha256.smallSigma1 (Lib.Sha256.schedule _ (count - 2)) =
    Lib.Sha256.schedule _ count
  rw [Lib.Sha256.schedule.eq_def _ count, if_neg hcount']
  ac_rfl

theorem words_eq (buffer : Vector UInt8 64) : words buffer = scheduled buffer 64 := by
  have hstart : (List.range 16).map (loadWord buffer) = scheduled buffer 16 := by
    refine List.map_congr_left fun t ht => UInt32.toBitVec_inj.1 ?_
    rw [loadWord_bits, Lib.Sha256.schedule, if_pos (List.mem_range.1 ht)]
  have hsteps : ∀ k, nextWord^[k] (scheduled buffer 16) = scheduled buffer (16 + k) := by
    intro k
    induction k with
    | zero => rfl
    | succ k ih => rw [Function.iterate_succ_apply', ih, nextWord_scheduled buffer (by omega), Nat.add_assoc]
  rw [words, hstart, hsteps]

def Working.bits (v : Working) : Lib.Sha256.Working :=
  ⟨v.a.toBitVec, v.b.toBitVec, v.c.toBitVec, v.d.toBitVec, v.e.toBitVec, v.f.toBitVec, v.g.toBitVec, v.h.toBitVec⟩

theorem round_bits (buffer : Vector UInt8 64) (v : Working) {index : Nat} (hindex : index < 64) :
    (round (words buffer) v index).bits =
      Lib.Sha256.round (Lib.Sha256.constants.getD index 0) (Lib.Sha256.schedule buffer.toList index) v.bits := by
  have hconstant : Lib.Sha256.constants.getD index 0 = (constants.getD index 0).toBitVec := by
    rw [← constants_bits]
    exact List.getD_map (l := constants) (d := 0) UInt32.toBitVec
  unfold round
  rw [words_eq, scheduled_getD buffer hindex, hconstant]
  rfl

theorem foldl_round_bits (buffer : Vector UInt8 64) (v : Working) {indices : List Nat} (h : ∀ i ∈ indices, i < 64) :
    (indices.foldl (round (words buffer)) v).bits =
      indices.foldl (fun v t => Lib.Sha256.round (Lib.Sha256.constants.getD t 0)
        (Lib.Sha256.schedule buffer.toList t) v) v.bits := by
  induction indices generalizing v with
  | nil => rfl
  | cons index indices ih =>
    rw [List.foldl_cons, List.foldl_cons, ih _ fun i hi => h i (List.mem_cons_of_mem _ hi),
      round_bits buffer v (h index List.mem_cons_self)]

/-- The hash value in the words of the standard. -/
def hash (s : Sha256) : Lib.Sha256.Hash := s.state.map UInt32.toBitVec

theorem rounds_bits (s : Sha256) : s.rounds.bits = Lib.Sha256.rounds s.hash s.buffer.toList := by
  have hstart : (Working.mk s.state[0] s.state[1] s.state[2] s.state[3] s.state[4] s.state[5] s.state[6]
      s.state[7]).bits = ⟨s.hash[0], s.hash[1], s.hash[2], s.hash[3], s.hash[4], s.hash[5], s.hash[6], s.hash[7]⟩ := by
    simp only [hash, Vector.getElem_map]
    rfl
  have hrounds : Lib.Sha256.rounds s.hash s.buffer.toList =
      (List.range 64).foldl (fun v t => Lib.Sha256.round (Lib.Sha256.constants.getD t 0)
        (Lib.Sha256.schedule s.buffer.toList t) v)
        ⟨s.hash[0], s.hash[1], s.hash[2], s.hash[3], s.hash[4], s.hash[5], s.hash[6], s.hash[7]⟩ := rfl
  rw [hrounds, ← hstart]
  exact foldl_round_bits s.buffer _ fun i hi => List.mem_range.1 hi

theorem transform_hash (s : Sha256) : s.transform.hash = Lib.Sha256.compress s.hash s.buffer.toList := by
  have hcompress : Lib.Sha256.compress s.hash s.buffer.toList =
      let v := Lib.Sha256.rounds s.hash s.buffer.toList
      #v[v.a + s.hash[0], v.b + s.hash[1], v.c + s.hash[2], v.d + s.hash[3], v.e + s.hash[4], v.f + s.hash[5],
        v.g + s.hash[6], v.h + s.hash[7]] := rfl
  generalize hv : Lib.Sha256.rounds s.hash s.buffer.toList = v at hcompress
  obtain rfl : s.rounds.bits = v := (rounds_bits s).trans hv
  have hstate : s.transform.state = #v[s.state[0] + s.rounds.a, s.state[1] + s.rounds.b, s.state[2] + s.rounds.c,
      s.state[3] + s.rounds.d, s.state[4] + s.rounds.e, s.state[5] + s.rounds.f, s.state[6] + s.rounds.g,
      s.state[7] + s.rounds.h] := rfl
  rw [hcompress]
  refine Vector.ext fun i hi => ?_
  unfold hash
  rw [hstate]
  interval_cases i <;> simp only [Vector.getElem_map] <;> exact BitVec.add_comm _ _

/-! ## The buffer -/

/-- The bytes that wait. -/
def content (s : Sha256) : Bytes := s.buffer.toList.take s.bufferSize

theorem put_content {s : Sha256} (h : s.bufferSize < 64) (byte : UInt8) : (s.put byte).content = s.content ++ [byte] := by
  have hlength : s.bufferSize < s.buffer.toList.length := by rwa [Vector.length_toList]
  unfold content put
  rw [Vector.toList_setIfInBounds, List.take_add_one, List.take_set_of_le (Nat.le_refl _),
    List.getElem?_set_self hlength]
  rfl

theorem foldl_put {l : Bytes} {s : Sha256} (h : s.bufferSize + l.length ≤ 64) :
    (l.foldl put s).content = s.content ++ l ∧ (l.foldl put s).bufferSize = s.bufferSize + l.length ∧
      (l.foldl put s).hash = s.hash := by
  induction l generalizing s with
  | nil => exact ⟨(List.append_nil _).symm, rfl, rfl⟩
  | cons byte l ih =>
    rw [List.length_cons] at h
    obtain ⟨hcontent, hsize, hhash⟩ := ih (s := s.put byte) (by show s.bufferSize + 1 + l.length ≤ 64; omega)
    rw [put_content (by omega), List.append_assoc] at hcontent
    refine ⟨hcontent, ?_, hhash⟩
    rw [List.foldl_cons, hsize, List.length_cons]
    show s.bufferSize + 1 + l.length = _
    omega

theorem fill_eq (n : Nat) (s : Sha256) : s.fill n = (List.replicate (n - s.bufferSize) 0).foldl put s := by
  have hrun : ∀ k (s : Sha256), (put · 0)^[k] s = (List.replicate k 0).foldl put s := by
    intro k
    induction k with
    | zero => exact fun _ => rfl
    | succ k ih => exact fun s => ih (s.put 0)
  exact hrun _ s

theorem content_full {s : Sha256} (h : s.bufferSize = 64) : s.content = s.buffer.toList := by
  rw [content, h]
  exact List.take_of_length_le (by rw [Vector.length_toList])

/-- The bytes of the message `m` so far are hashed, or wait in the buffer. -/
structure Represents (s : Sha256) (m : Bytes) : Prop where
  absorbed : Absorbed 64 Lib.Sha256.compress Lib.Sha256.initial m s.hash s.content
  bufferSize_lt : s.bufferSize < 64
  bits : s.bitCount + s.bufferSize.toUInt64 * 8 = (8 * m.length).toUInt64

theorem content_length {s : Sha256} (h : s.bufferSize ≤ 64) : s.content.length = s.bufferSize := by
  rw [content, List.length_take, Vector.length_toList, Nat.min_eq_left h]

theorem represents_empty : Represents {} [] :=
  ⟨by rw [hash, initial_bits]; exact .nil (by decide), by decide, rfl⟩

theorem Represents.updateByte {s : Sha256} {m : Bytes} (h : Represents s m) (byte : UInt8) :
    Represents (s.updateByte byte) (m ++ [byte]) := by
  have hcontent := put_content h.bufferSize_lt byte
  have hlength := content_length (Nat.le_of_lt h.bufferSize_lt)
  have hmessage : (8 * (m ++ [byte]).length).toUInt64 = (8 * m.length).toUInt64 + 8 := by
    rw [List.length_append, List.length_singleton, Nat.mul_add, Nat.toUInt64_eq, Nat.toUInt64_eq, UInt64.ofNat_add]
    rfl
  unfold Sha256.updateByte
  dsimp only
  split
  · rename_i hfull
    have hsize : s.bufferSize = 63 := Nat.succ.inj hfull
    refine ⟨?_, show 0 < 64 by decide, ?_⟩
    · have hnext := h.absorbed.full byte (by omega)
      rw [← hcontent, content_full hfull] at hnext
      have hhash : (s.put byte).hash = s.hash := rfl
      rw [← hhash, ← transform_hash] at hnext
      exact hnext
    · rw [hmessage, ← h.bits, hsize]
      show s.bitCount + 512 + 0 * 8 = _
      rw [UInt64.add_assoc, UInt64.add_assoc]
      rfl
  · rename_i hroom
    have hsize : s.bufferSize + 1 < 64 := Nat.lt_of_le_of_ne h.bufferSize_lt hroom
    refine ⟨?_, hsize, ?_⟩
    · rw [hcontent]
      exact h.absorbed.wait byte (by omega)
    · rw [hmessage, ← h.bits]
      show s.bitCount + (s.bufferSize + 1).toUInt64 * 8 = _
      rw [Nat.toUInt64_eq, Nat.toUInt64_eq, UInt64.ofNat_add, UInt64.add_mul, UInt64.add_assoc]
      rfl

theorem Represents.update {s : Sha256} {m : Bytes} (h : Represents s m) (input : Bytes) :
    Represents (s.update input) (m ++ input) := by
  induction input generalizing s m with
  | nil => rwa [List.append_nil]
  | cons byte input ih =>
    rw [List.append_cons]
    exact ih (h.updateByte byte)

theorem Represents.updates {s : Sha256} {m : Bytes} (h : Represents s m) (pieces : List Bytes) :
    Represents (pieces.foldl Sha256.update s) (m ++ pieces.flatten) := by
  induction pieces generalizing s m with
  | nil => rwa [List.flatten_nil, List.append_nil]
  | cons piece pieces ih =>
    rw [List.flatten_cons, ← List.append_assoc]
    exact ih (h.update piece)

/-! ## The end -/

theorem hexDigit_eq {d : Nat} (hd : d < 16) : hexDigit d = Lib.Sha256.hexDigit d := by
  interval_cases d <;> decide

theorem digits_padded {n : Nat} (hn : n < 16 ^ 8) :
    Nat.digits 16 n ++ List.replicate (8 - (Nat.digits 16 n).length) 0 = (List.range 8).map fun i => n / 16 ^ i % 16 := by
  have hlength : (Nat.digits 16 n).length ≤ 8 := (Nat.digits_length_le_iff (by decide) n).2 hn
  refine List.ext_getElem (by simp; omega) fun i hi _ => ?_
  rw [List.getElem_map, List.getElem_range, ← Nat.getD_digits n i (by decide), List.getElem_append]
  split
  · rename_i hlt
    exact (List.getD_eq_getElem _ _ hlt).symm
  · rename_i hge
    rw [List.getElem_replicate]
    exact (List.getD_eq_default _ _ (Nat.le_of_not_lt hge)).symm

theorem hexNumber_eq (value : UInt32) : hexNumber value = Lib.Sha256.hexWord value.toBitVec := by
  by_cases hzero : value = 0
  · subst hzero
    decide
  have hn : value.toNat < 16 ^ 8 := value.toNat_lt
  have hrange : (List.range 8).reverse = (List.range 8).map fun i => 7 - i := by decide
  have hdigits : Lib.Sha256.hexWord value.toBitVec =
      ((List.range 8).map fun i => hexDigit (value.toNat / 16 ^ i % 16)).reverse := by
    rw [← List.map_reverse, hrange, List.map_map]
    exact List.map_congr_left fun i _ => (hexDigit_eq (Nat.mod_lt _ (by decide))).symm
  have hmap := congrArg (List.map hexDigit) (digits_padded hn)
  rw [List.map_map] at hmap
  rw [hdigits]
  show _ = (List.map (hexDigit ∘ fun i => value.toNat / 16 ^ i % 16) (List.range 8)).reverse
  rw [← hmap, List.map_append, List.reverse_append, List.map_replicate, List.reverse_replicate]
  unfold hexNumber
  dsimp only
  rw [if_neg hzero, List.length_map, List.length_reverse, List.map_reverse]
  rfl

/-- A full buffer is one block. -/
theorem transform_full {s : Sha256} {l : Bytes} (h : s.bufferSize + l.length = 64) :
    (l.foldl put s).transform.hash = Lib.Sha256.compress s.hash (s.content ++ l) := by
  obtain ⟨hcontent, hsize, hhash⟩ := foldl_put (Nat.le_of_eq h)
  rw [transform_hash, ← content_full (hsize.trans h), hcontent, hhash]

/-- A byte of the 64 bits of a number. -/
theorem shiftedByte_eq (n : Nat) {shift : UInt64} (h : shift.toNat ≤ 56) :
    (n.toUInt64 >>> shift).toUInt8 = (n / 2 ^ shift.toNat).toUInt8 := by
  have hsplit : 2 ^ 64 = 2 ^ shift.toNat * 2 ^ (64 - shift.toNat) := by
    rw [← Nat.pow_add]
    congr 1
    omega
  have hdvd : 2 ^ 8 ∣ 2 ^ (64 - shift.toNat) := Nat.pow_dvd_pow 2 (by omega)
  refine UInt8.toNat_inj.1 ?_
  rw [UInt64.toNat_toUInt8, UInt64.toNat_shiftRight, Nat.mod_eq_of_lt (by omega : shift.toNat < 64), Nat.toUInt64_eq,
    UInt64.toNat_ofNat', Nat.shiftRight_eq_div_pow, hsplit, Nat.mod_mul_right_div_self, Nat.mod_mod_of_dvd _ hdvd,
    Nat.toUInt8_eq, UInt8.toNat_ofNat']

theorem put_lengthBytes (n : Nat) (s : Sha256) :
    [56, 48, 40, 32, 24, 16, 8, 0].foldl (fun s shift => s.put (n.toUInt64 >>> shift).toUInt8) s =
      (Lib.Sha256.bits64 n).foldl put s := by
  have hbytes : Lib.Sha256.bits64 n = [56, 48, 40, 32, 24, 16, 8, 0].map
      fun shift : UInt64 => (n.toUInt64 >>> shift).toUInt8 := by
    simp only [List.map_cons, List.map_nil]
    repeat rw [shiftedByte_eq n (by decide)]
    rfl
  rw [hbytes, List.foldl_map]

theorem Represents.mod {s : Sha256} {m : Bytes} (h : Represents s m) : m.length % 64 = s.bufferSize := by
  obtain ⟨front, hm, hdvd, -⟩ := h.absorbed.split
  have hlength := content_length (Nat.le_of_lt h.bufferSize_lt)
  have hlt := h.bufferSize_lt
  rw [hm, List.length_append, hlength]
  omega

theorem Represents.finish {s : Sha256} {m : Bytes} (h : Represents s m) : s.finish = Lib.Sha256.hexDigest m := by
  have hlt := h.bufferSize_lt
  have hmod := h.mod
  have hlength := content_length (Nat.le_of_lt hlt)
  have hbits := Lib.Sha256.bits64_length (8 * m.length)
  have hdigest : Lib.Sha256.digest m = (blocks 64 (s.content ++ 0x80 ::
      (List.replicate (Lib.Sha256.zeros m.length) 0 ++ Lib.Sha256.bits64 (8 * m.length)))).foldl
      Lib.Sha256.compress s.hash := h.absorbed.finish _
  suffices hstate : ∃ last : Sha256, s.finish = last.state.toList.flatMap hexNumber ∧
      last.hash = Lib.Sha256.digest m by
    obtain ⟨last, hfinish, hhash⟩ := hstate
    rw [hfinish, Lib.Sha256.hexDigest, ← hhash, hash, Vector.toList_map, List.flatMap_map]
    exact List.flatMap_congr fun value _ => hexNumber_eq value
  refine ⟨_, rfl, ?_⟩
  rw [hdigest, h.bits, put_lengthBytes, fill_eq, ← List.foldl_append]
  by_cases hover : s.bufferSize + 1 > 56
  · -- the length has no room behind the mark
    have hzeros : Lib.Sha256.zeros m.length = (63 - s.bufferSize) + 56 := by
      unfold Lib.Sha256.zeros
      omega
    let t : Sha256 := { ((s.put 0x80).fill 64).transform with bufferSize := 0 }
    have hfirst : (s.content ++ 0x80 :: List.replicate (63 - s.bufferSize) 0).length = 64 := by
      rw [List.length_append, List.length_cons, List.length_replicate, hlength]
      omega
    have hhash : t.hash = Lib.Sha256.compress s.hash (s.content ++ 0x80 :: List.replicate (63 - s.bufferSize) 0) := by
      have hfill : (s.put 0x80).fill 64 = (0x80 :: List.replicate (63 - s.bufferSize) 0).foldl put s := by
        rw [fill_eq]
        show (List.replicate (64 - (s.bufferSize + 1)) 0).foldl put (s.put 0x80) = _
        rw [Nat.add_comm s.bufferSize 1, ← Nat.sub_sub]
        rfl
      show ((s.put 0x80).fill 64).transform.hash = _
      rw [hfill]
      refine transform_full ?_
      rw [List.length_cons, List.length_replicate]
      omega
    rw [if_pos (show (s.put 0x80).bufferSize > 56 from hover)]
    show (List.foldl put t (List.replicate 56 0 ++ _)).transform.hash = _
    have hlast : (List.replicate 56 0 ++ Lib.Sha256.bits64 (8 * m.length)).length = 64 := by
      rw [List.length_append, List.length_replicate, hbits]
    have htail : s.content ++ 0x80 :: (List.replicate (63 - s.bufferSize + 56) 0 ++ Lib.Sha256.bits64 (8 * m.length)) =
        (s.content ++ 0x80 :: List.replicate (63 - s.bufferSize) 0) ++
          (List.replicate 56 0 ++ Lib.Sha256.bits64 (8 * m.length)) := by
      rw [List.replicate_add, List.append_assoc, List.append_assoc]
      rfl
    have hempty : t.content = [] := rfl
    rw [transform_full (s := t) (by rw [hlast]), hzeros, htail, blocks_append (by decide) (by rw [hfirst]),
      blocks_block (by decide) hfirst, blocks_block (by decide) hlast, hhash, hempty]
    rfl
  · have hzeros : Lib.Sha256.zeros m.length = 55 - s.bufferSize := by
      unfold Lib.Sha256.zeros
      omega
    rw [if_neg (show ¬ (s.put 0x80).bufferSize > 56 from hover)]
    have hsize : (s.put 0x80).bufferSize = s.bufferSize + 1 := rfl
    have hroom : 56 - (s.bufferSize + 1) = 55 - s.bufferSize := by omega
    rw [hsize, hroom, hzeros]
    have hblock : (0x80 :: (List.replicate (55 - s.bufferSize) 0 ++ Lib.Sha256.bits64 (8 * m.length))).length =
        64 - s.bufferSize := by
      rw [List.length_cons, List.length_append, List.length_replicate, hbits]
      omega
    show ((0x80 :: (List.replicate (55 - s.bufferSize) 0 ++ Lib.Sha256.bits64 (8 * m.length))).foldl put
      s).transform.hash = _
    rw [transform_full (by rw [hblock]; omega), blocks_block (by decide)]
    · rfl
    · rw [List.length_append, hblock, hlength]
      omega

end Sha256

/-- However the message is cut, the result is its digest. -/
theorem finish_update (pieces : List Bytes) :
    (pieces.foldl Sha256.update {}).finish = Lib.Sha256.hexDigest pieces.flatten :=
  (Sha256.represents_empty.updates pieces).finish

end CxxDead
