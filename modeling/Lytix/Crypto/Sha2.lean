import Lytix.Crypto.Hasher
import Lytix.Lib.SecureHashes

/-! `sha256.cpp` and `sha512.cpp`, and the hash functions that they compute. -/
namespace Lytix
open BlockChaining

def readBE (w : Nat) (bytes : List UInt8) : BitVec w :=
  BitVec.ofNat w (LittleEndian.value bytes.reverse)

def writeBE (n x : Nat) : List UInt8 := (LittleEndian.bytes n x).reverse

namespace Sha2

section
variable {w : Nat} (x y z : BitVec w)

def Ch : BitVec w := z ^^^ (x &&& (y ^^^ z))

def Maj : BitVec w := (x &&& y) ||| (z &&& (x ||| y))

/-- `x >> n | x << (w - n)`. -/
def rotr (n : Nat) : BitVec w := x >>> n ||| x <<< (w - n)

end

/-- What the two files differ in: words, constants and where the state starts. -/
structure Words (w : Nat) where
  Sigma0 : BitVec w → BitVec w
  Sigma1 : BitVec w → BitVec w
  sigma0 : BitVec w → BitVec w
  sigma1 : BitVec w → BitVec w
  k : List (BitVec w)
  initial : Vector (BitVec w) 8

/-- `sha256`. -/
def words256 : Words 32 where
  Sigma0 x := rotr x 2 ^^^ rotr x 13 ^^^ rotr x 22
  Sigma1 x := rotr x 6 ^^^ rotr x 11 ^^^ rotr x 25
  sigma0 x := rotr x 7 ^^^ rotr x 18 ^^^ x >>> 3
  sigma1 x := rotr x 17 ^^^ rotr x 19 ^^^ x >>> 10
  k :=
    [0x428a2f98, 0x71374491, 0xb5c0fbcf, 0xe9b5dba5, 0x3956c25b, 0x59f111f1, 0x923f82a4,
      0xab1c5ed5, 0xd807aa98, 0x12835b01, 0x243185be, 0x550c7dc3, 0x72be5d74, 0x80deb1fe,
      0x9bdc06a7, 0xc19bf174, 0xe49b69c1, 0xefbe4786, 0x0fc19dc6, 0x240ca1cc, 0x2de92c6f,
      0x4a7484aa, 0x5cb0a9dc, 0x76f988da, 0x983e5152, 0xa831c66d, 0xb00327c8, 0xbf597fc7,
      0xc6e00bf3, 0xd5a79147, 0x06ca6351, 0x14292967, 0x27b70a85, 0x2e1b2138, 0x4d2c6dfc,
      0x53380d13, 0x650a7354, 0x766a0abb, 0x81c2c92e, 0x92722c85, 0xa2bfe8a1, 0xa81a664b,
      0xc24b8b70, 0xc76c51a3, 0xd192e819, 0xd6990624, 0xf40e3585, 0x106aa070, 0x19a4c116,
      0x1e376c08, 0x2748774c, 0x34b0bcb5, 0x391c0cb3, 0x4ed8aa4a, 0x5b9cca4f, 0x682e6ff3,
      0x748f82ee, 0x78a5636f, 0x84c87814, 0x8cc70208, 0x90befffa, 0xa4506ceb, 0xbef9a3f7,
      0xc67178f2]
  initial := #v[0x6a09e667, 0xbb67ae85, 0x3c6ef372, 0xa54ff53a, 0x510e527f, 0x9b05688c, 0x1f83d9ab,
    0x5be0cd19]

/-- `sha512`. -/
def words512 : Words 64 where
  Sigma0 x := rotr x 28 ^^^ rotr x 34 ^^^ rotr x 39
  Sigma1 x := rotr x 14 ^^^ rotr x 18 ^^^ rotr x 41
  sigma0 x := rotr x 1 ^^^ rotr x 8 ^^^ x >>> 7
  sigma1 x := rotr x 19 ^^^ rotr x 61 ^^^ x >>> 6
  k :=
    [0x428a2f98d728ae22, 0x7137449123ef65cd, 0xb5c0fbcfec4d3b2f, 0xe9b5dba58189dbbc,
      0x3956c25bf348b538, 0x59f111f1b605d019, 0x923f82a4af194f9b, 0xab1c5ed5da6d8118,
      0xd807aa98a3030242, 0x12835b0145706fbe, 0x243185be4ee4b28c, 0x550c7dc3d5ffb4e2,
      0x72be5d74f27b896f, 0x80deb1fe3b1696b1, 0x9bdc06a725c71235, 0xc19bf174cf692694,
      0xe49b69c19ef14ad2, 0xefbe4786384f25e3, 0x0fc19dc68b8cd5b5, 0x240ca1cc77ac9c65,
      0x2de92c6f592b0275, 0x4a7484aa6ea6e483, 0x5cb0a9dcbd41fbd4, 0x76f988da831153b5,
      0x983e5152ee66dfab, 0xa831c66d2db43210, 0xb00327c898fb213f, 0xbf597fc7beef0ee4,
      0xc6e00bf33da88fc2, 0xd5a79147930aa725, 0x06ca6351e003826f, 0x142929670a0e6e70,
      0x27b70a8546d22ffc, 0x2e1b21385c26c926, 0x4d2c6dfc5ac42aed, 0x53380d139d95b3df,
      0x650a73548baf63de, 0x766a0abb3c77b2a8, 0x81c2c92e47edaee6, 0x92722c851482353b,
      0xa2bfe8a14cf10364, 0xa81a664bbc423001, 0xc24b8b70d0f89791, 0xc76c51a30654be30,
      0xd192e819d6ef5218, 0xd69906245565a910, 0xf40e35855771202a, 0x106aa07032bbd1b8,
      0x19a4c116b8d2d0c8, 0x1e376c085141ab53, 0x2748774cdf8eeb99, 0x34b0bcb5e19b48a8,
      0x391c0cb3c5c95a63, 0x4ed8aa4ae3418acb, 0x5b9cca4f7763e373, 0x682e6ff3d6b2b8a3,
      0x748f82ee5defb2fc, 0x78a5636f43172f60, 0x84c87814a1f0ab72, 0x8cc702081a6439ec,
      0x90befffa23631e28, 0xa4506cebde82bde9, 0xbef9a3f7b2c67915, 0xc67178f2e372532b,
      0xca273eceea26619c, 0xd186b8c721c0c207, 0xeada7dd6cde0eb1e, 0xf57d4f7fee6ed178,
      0x06f067aa72176fba, 0x0a637dc5a2c898a6, 0x113f9804bef90dae, 0x1b710b35131c471b,
      0x28db77f523047d84, 0x32caab7b40c72493, 0x3c9ebe0a15c9bebc, 0x431d67c49c100d4c,
      0x4cc5d4becb3e42b6, 0x597f299cfc657e2a, 0x5fcb6fab3ad6faec, 0x6c44198c4a475817]
  initial := #v[0x6a09e667f3bcc908, 0xbb67ae8584caa73b, 0x3c6ef372fe94f82b, 0xa54ff53a5f1d36f1,
    0x510e527fade682d1, 0x9b05688c2b3e6c1f, 0x1f83d9abfb41bd6b, 0x5be0cd19137e2179]

section
variable {w : Nat} (words : Words w)

/-- The call `Round(..)` of round `i`: the registers `a` to `h` are passed in an order that has
moved on by one place with each round. -/
def Round (i : Nat) (v : Vector (BitVec w) 8) (k wi : BitVec w) : Vector (BitVec w) 8 :=
  let place (arg : Fin 8) := arg - Fin.ofNat 8 i
  let t1 := v.get (place 7) + words.Sigma1 (v.get (place 4)) +
    Ch (v.get (place 4)) (v.get (place 5)) (v.get (place 6)) + k + wi
  let t2 := words.Sigma0 (v.get (place 0)) +
    Maj (v.get (place 0)) (v.get (place 1)) (v.get (place 2))
  (v.set (place 3) (v.get (place 3) + t1) (place 3).isLt).set (place 7) (t1 + t2) (place 7).isLt

/-- `ReadBE32(chunk + 4 * i)`, or `ReadBE64(chunk + 8 * i)`. -/
def readWord (w : Nat) (chunk : List UInt8) (i : Nat) : BitVec w :=
  readBE w ((chunk.drop (w / 8 * i)).take (w / 8))

/-- The word of round `i`: it is read from the chunk, or takes the place of the word 16 rounds
before. -/
def wordOf (chunk : List UInt8) (ws : Vector (BitVec w) 16) (i : Nat) : BitVec w :=
  let j := Fin.ofNat 16 i
  if i < 16 then readWord w chunk i
  else ws.get j + (words.sigma1 (ws.get (j + 14)) + ws.get (j + 9) + words.sigma0 (ws.get (j + 1)))

/-- Round `i` with the registers and the words `w0` to `w15`. -/
def roundOf (chunk : List UInt8) (state : Vector (BitVec w) 8 × Vector (BitVec w) 16) (i : Nat) :
    Vector (BitVec w) 8 × Vector (BitVec w) 16 :=
  let wi := wordOf words chunk state.2 i
  (Round words i state.1 (words.k.getD i 0) wi,
    state.2.set (Fin.ofNat 16 i) wi (Fin.ofNat 16 i).isLt)

def Transform (s : Vector (BitVec w) 8) (chunk : List UInt8) : Vector (BitVec w) 8 :=
  let last := (List.range words.k.length).foldl (roundOf words chunk) (s, Vector.replicate 16 0)
  Vector.zipWith (· + ·) s last.1

/-- The words of the state, as `Finalize` writes them. -/
def output (s : Vector (BitVec w) 8) : List UInt8 :=
  s.toList.flatMap fun word => writeBE (w / 8) word.toNat

end
end Sha2

namespace CSHA256

def new (buf : List UInt8) : Hasher (Vector (BitVec 32) 8) := Hasher.start Sha2.words256.initial buf

def write (h : Hasher (Vector (BitVec 32) 8)) (data : List UInt8) :
    Option (Hasher (Vector (BitVec 32) 8)) :=
  h.write 64 (Sha2.Transform Sha2.words256) data

def finalize (h : Hasher (Vector (BitVec 32) 8)) :
    Option (List UInt8 × Hasher (Vector (BitVec 32) 8)) :=
  h.finalize 64 (Sha2.Transform Sha2.words256) 119 (fun size => writeBE 8 size.toNat) Sha2.output

/-- `Reset`. -/
def reset (h : Hasher (Vector (BitVec 32) 8)) : Hasher (Vector (BitVec 32) 8) := new h.buf

end CSHA256

namespace CSHA512

def new (buf : List UInt8) : Hasher (Vector (BitVec 64) 8) := Hasher.start Sha2.words512.initial buf

def write (h : Hasher (Vector (BitVec 64) 8)) (data : List UInt8) :
    Option (Hasher (Vector (BitVec 64) 8)) :=
  h.write 128 (Sha2.Transform Sha2.words512) data

def finalize (h : Hasher (Vector (BitVec 64) 8)) :
    Option (List UInt8 × Hasher (Vector (BitVec 64) 8)) :=
  h.finalize 128 (Sha2.Transform Sha2.words512) 239
    (fun size => List.replicate 8 0 ++ writeBE 8 size.toNat) Sha2.output

end CSHA512

namespace Sha2
open SecureHashes

section
variable {w : ℕ} {words : Words w} {functions : Functions w}

/-- The words of the file are those of the standard. -/
structure Implements (words : Words w) (functions : Functions w) : Prop where
  Sigma0 : ∀ x, words.Sigma0 x = functions.bigSigma0 x
  Sigma1 : ∀ x, words.Sigma1 x = functions.bigSigma1 x
  sigma0 : ∀ x, words.sigma0 x = functions.smallSigma0 x
  sigma1 : ∀ x, words.sigma1 x = functions.smallSigma1 x
  k : ∀ t < functions.rounds, words.k.getD t 0 = rootBits 3 w (firstPrimes.getD t 0)
  length_k : words.k.length = functions.rounds
  aligned : functions.rounds % 8 = 0
  initial : words.initial = SecureHashes.initial w

/-- After `i` rounds, the working variables stand in registers that have moved on by `i`. -/
def Rotated (i : ℕ) (v s : Vector (BitVec w) 8) : Prop :=
  ∀ place : Fin 8, v.get (place - Fin.ofNat 8 i) = s.get place

/-- The last 16 words of the schedule. -/
def Window (functions : Functions w) (block : List UInt8) (i : ℕ) (ws : Vector (BitVec w) 16) :
    Prop :=
  ∀ t < i, i ≤ t + 16 → ws.get (Fin.ofNat 16 t) = schedule functions block t

theorem rotr_eq {x : BitVec w} {n : ℕ} (hn : n < w) : rotr x n = x.rotateRight n :=
  shifts_eq_rotateRight hn

theorem get_set {n : ℕ} {v : Vector (BitVec w) n} {x : BitVec w} {i j : Fin n} :
    (v.set i x i.isLt).get j = if i = j then x else v.get j := by
  change (v.set i x i.isLt)[(j : ℕ)] = if i = j then x else v[(j : ℕ)]
  rw [Vector.getElem_set]
  simp only [Fin.val_inj]

theorem rotated_round (h : Implements words functions) {i : ℕ} {v s : Vector (BitVec w) 8}
    (hv : Rotated i v s) (k wi : BitVec w) :
    Rotated (i + 1) (Round words i v k wi) (round functions s k wi) := by
  intro place
  have hplace : place - Fin.ofNat 8 (i + 1) = place - 1 - Fin.ofNat 8 i := by
    have hnext : Fin.ofNat 8 (i + 1) = Fin.ofNat 8 i + 1 := by
      apply Fin.ext
      simp [Fin.val_add]
    rw [hnext, sub_sub, add_comm]
  unfold Round
  simp only [hplace, get_set, hv _, sub_left_inj, h.Sigma0, h.Sigma1, Ch, Maj, ch_eq, maj_eq]
  fin_cases place <;> rfl

theorem wordOf_eq (h : Implements words functions) {block : List UInt8} {i : ℕ}
    {ws : Vector (BitVec w) 16} (hws : Window functions block i ws) :
    wordOf words block ws i = schedule functions block i := by
  unfold wordOf
  rw [schedule]
  by_cases hfirst : i < 16
  · rw [if_pos hfirst, if_pos hfirst]
    rfl
  · rw [if_neg hfirst, if_neg hfirst]
    have hown : Fin.ofNat 16 i = Fin.ofNat 16 (i - 16) := by
      apply Fin.ext
      simp only [Fin.val_ofNat]
      omega
    have hback : ∀ n ≤ 16, 0 < n → Fin.ofNat 16 i + Fin.ofNat 16 (16 - n) = Fin.ofNat 16 (i - n) := by
      intro n hn hpos
      apply Fin.ext
      simp only [Fin.val_add, Fin.val_ofNat]
      omega
    have h2 : ws.get (Fin.ofNat 16 i + 14) = schedule functions block (i - 2) :=
      (congrArg ws.get (hback 2 (by omega) (by omega))).trans (hws (i - 2) (by omega) (by omega))
    have h7 : ws.get (Fin.ofNat 16 i + 9) = schedule functions block (i - 7) :=
      (congrArg ws.get (hback 7 (by omega) (by omega))).trans (hws (i - 7) (by omega) (by omega))
    have h15 : ws.get (Fin.ofNat 16 i + 1) = schedule functions block (i - 15) :=
      (congrArg ws.get (hback 15 (by omega) (by omega))).trans (hws (i - 15) (by omega) (by omega))
    have h16 : ws.get (Fin.ofNat 16 i) = schedule functions block (i - 16) :=
      (congrArg ws.get hown).trans (hws (i - 16) (by omega) (by omega))
    rw [h2, h7, h15, h16, h.sigma0, h.sigma1, BitVec.add_comm]

theorem window_set {block : List UInt8} {i : ℕ} {ws : Vector (BitVec w) 16}
    (hws : Window functions block i ws) : Window functions block (i + 1)
      (ws.set (Fin.ofNat 16 i) (schedule functions block i) (Fin.ofNat 16 i).isLt) := by
  intro t ht hrecent
  rw [get_set]
  by_cases hnow : t = i
  · rw [hnow, if_pos rfl]
  · have hother : Fin.ofNat 16 i ≠ Fin.ofNat 16 t := by
      intro hsame
      have hmod := congrArg Fin.val hsame
      simp only [Fin.val_ofNat] at hmod
      omega
    rw [if_neg hother]
    exact hws t (by omega) (by omega)

theorem roundOf_range (h : Implements words functions) (block : List UInt8)
    (s : Vector (BitVec w) 8) {i : ℕ} (hi : i ≤ functions.rounds) :
    Rotated i ((List.range i).foldl (roundOf words block) (s, Vector.replicate 16 0)).1
        (working functions block s i) ∧
      Window functions block i
        ((List.range i).foldl (roundOf words block) (s, Vector.replicate 16 0)).2 := by
  induction i with
  | zero =>
    constructor
    · intro place
      exact congrArg s.get (sub_zero place)
    · intro t ht
      omega
  | succ i ih =>
    obtain ⟨hrotated, hwindow⟩ := ih (by omega)
    rw [List.range_succ, List.foldl_append, List.foldl_cons, List.foldl_nil]
    generalize (List.range i).foldl (roundOf words block) (s, Vector.replicate 16 0) = state
      at hrotated hwindow
    unfold roundOf
    rw [wordOf_eq h hwindow, h.k i (by omega), working]
    exact ⟨rotated_round h hrotated _ _, window_set hwindow⟩

/-- The registers and the words that move on are the rounds of the standard. -/
theorem transform_eq (h : Implements words functions) :
    Transform words = compress functions := by
  funext s block
  have hlast := (roundOf_range h block s le_rfl).1
  unfold Transform compress
  rw [h.length_k]
  generalize (List.range functions.rounds).foldl (roundOf words block)
    (s, Vector.replicate 16 0) = state at hlast
  have hsame : state.1 = working functions block s functions.rounds := by
    apply Vector.ext
    intro i hi
    have hplace := hlast ⟨i, hi⟩
    have hzero : Fin.ofNat 8 functions.rounds = 0 := by
      apply Fin.ext
      simp [h.aligned]
    rw [hzero, sub_zero] at hplace
    exact hplace
  simp only [hsame]

/-- The constants are bits of the roots of the first primes. -/
theorem k_eq {rounds : ℕ} (hbits : (List.range rounds).all (fun t =>
      IsRootBits 3 w (firstPrimes.getD t 0) (words.k.getD t 0).toNat) = true) :
    ∀ t < rounds, words.k.getD t 0 = rootBits 3 w (firstPrimes.getD t 0) := by
  intro t ht
  have hone := List.all_eq_true.mp hbits t (List.mem_range.mpr ht)
  rw [rootBits_of_isRootBits (by decide) hone, BitVec.ofNat_toNat, BitVec.setWidth_eq]

theorem initial_eq (hbits : (List.range 8).all (fun t =>
      IsRootBits 2 w (firstPrimes.getD t 0) (words.initial.toList.getD t 0).toNat) = true) :
    words.initial = SecureHashes.initial w := by
  apply Vector.ext
  intro i hi
  have hone := List.all_eq_true.mp hbits i (List.mem_range.mpr hi)
  have hget : words.initial.toList.getD i 0 = words.initial[i] := by simp [hi]
  unfold SecureHashes.initial
  rw [Vector.getElem_ofFn, rootBits_of_isRootBits (by decide) hone, hget, BitVec.ofNat_toNat,
    BitVec.setWidth_eq]

end

theorem implements256 : Implements words256 functions256 where
  Sigma0 x := by simp [words256, functions256, rotr_eq]
  Sigma1 x := by simp [words256, functions256, rotr_eq]
  sigma0 x := by simp [words256, functions256, rotr_eq]
  sigma1 x := by simp [words256, functions256, rotr_eq]
  k := k_eq (by decide)
  length_k := rfl
  aligned := rfl
  initial := initial_eq (by decide)

theorem implements512 : Implements words512 functions512 where
  Sigma0 x := by simp [words512, functions512, rotr_eq]
  Sigma1 x := by simp [words512, functions512, rotr_eq]
  sigma0 x := by simp [words512, functions512, rotr_eq]
  sigma1 x := by simp [words512, functions512, rotr_eq]
  k := k_eq (by decide)
  length_k := rfl
  aligned := rfl
  initial := initial_eq (by decide)

end Sha2
end Lytix
