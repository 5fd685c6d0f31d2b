import Lytix.Lib.BlockChaining
import Lytix.Lib.LittleEndian
import Mathlib.Analysis.SpecialFunctions.Pow.Real
import Mathlib.Data.BitVec

/-! The SHA-2 hash functions as their standard defines them. -/
namespace SecureHashes
open BlockChaining

/-- A number in `n` bytes, the highest byte first. -/
def bigEndian (n x : ℕ) : List UInt8 := (LittleEndian.bytes n x).reverse

/-- The word that stands at a place of a block. -/
def messageWord (w : ℕ) (block : List UInt8) (t : ℕ) : BitVec w :=
  BitVec.ofNat w (LittleEndian.value ((block.drop (w / 8 * t)).take (w / 8)).reverse)

section
variable {w : ℕ} (x y z : BitVec w)

def ch : BitVec w := (x &&& y) ^^^ (~~~x &&& z)

def maj : BitVec w := (x &&& y) ^^^ (x &&& z) ^^^ (y &&& z)

end

def firstPrimes : List ℕ :=
  [2, 3, 5, 7, 11, 13, 17, 19, 23, 29, 31, 37, 41, 43, 47, 53, 59, 61, 67, 71, 73, 79, 83, 89, 97,
    101, 103, 107, 109, 113, 127, 131, 137, 139, 149, 151, 157, 163, 167, 173, 179, 181, 191, 193,
    197, 199, 211, 223, 227, 229, 233, 239, 241, 251, 257, 263, 269, 271, 277, 281, 283, 293, 307,
    311, 313, 317, 331, 337, 347, 349, 353, 359, 367, 373, 379, 383, 389, 397, 401, 409]

/-- The first `w` bits of the fractional part of a root of a number. -/
noncomputable def rootBits (e w p : ℕ) : BitVec w :=
  BitVec.ofNat w ⌊Int.fract ((p : ℝ) ^ (1 / e : ℝ)) * 2 ^ w⌋₊

structure Functions (w : ℕ) where
  bigSigma0 : BitVec w → BitVec w
  bigSigma1 : BitVec w → BitVec w
  smallSigma0 : BitVec w → BitVec w
  smallSigma1 : BitVec w → BitVec w
  rounds : ℕ

def functions256 : Functions 32 where
  bigSigma0 x := x.rotateRight 2 ^^^ x.rotateRight 13 ^^^ x.rotateRight 22
  bigSigma1 x := x.rotateRight 6 ^^^ x.rotateRight 11 ^^^ x.rotateRight 25
  smallSigma0 x := x.rotateRight 7 ^^^ x.rotateRight 18 ^^^ x >>> 3
  smallSigma1 x := x.rotateRight 17 ^^^ x.rotateRight 19 ^^^ x >>> 10
  rounds := 64

def functions512 : Functions 64 where
  bigSigma0 x := x.rotateRight 28 ^^^ x.rotateRight 34 ^^^ x.rotateRight 39
  bigSigma1 x := x.rotateRight 14 ^^^ x.rotateRight 18 ^^^ x.rotateRight 41
  smallSigma0 x := x.rotateRight 1 ^^^ x.rotateRight 8 ^^^ x >>> 7
  smallSigma1 x := x.rotateRight 19 ^^^ x.rotateRight 61 ^^^ x >>> 6
  rounds := 80

section
variable {w : ℕ} (functions : Functions w)

/-- The message schedule. -/
def schedule (block : List UInt8) (t : ℕ) : BitVec w :=
  if t < 16 then messageWord w block t
  else functions.smallSigma1 (schedule block (t - 2)) + schedule block (t - 7) +
    functions.smallSigma0 (schedule block (t - 15)) + schedule block (t - 16)
termination_by t
decreasing_by all_goals omega

local instance neZero_eight : NeZero 8 := ⟨Nat.succ_ne_zero 7⟩

/-- One round on the working variables `a` to `h`. -/
def round (s : Vector (BitVec w) 8) (k wt : BitVec w) : Vector (BitVec w) 8 :=
  let t1 := s.get 7 + functions.bigSigma1 (s.get 4) + ch (s.get 4) (s.get 5) (s.get 6) + k + wt
  let t2 := functions.bigSigma0 (s.get 0) + maj (s.get 0) (s.get 1) (s.get 2)
  #v[t1 + t2, s.get 0, s.get 1, s.get 2, s.get 3 + t1, s.get 4, s.get 5, s.get 6]

/-- The working variables after the first rounds. -/
noncomputable def working (block : List UInt8) (s : Vector (BitVec w) 8) :
    ℕ → Vector (BitVec w) 8
  | 0 => s
  | t + 1 => round functions (working block s t) (rootBits 3 w (firstPrimes.getD t 0))
    (schedule functions block t)

noncomputable def compress (s : Vector (BitVec w) 8) (block : List UInt8) :
    Vector (BitVec w) 8 :=
  Vector.zipWith (· + ·) s (working functions block s functions.rounds)

noncomputable def initial (w : ℕ) : Vector (BitVec w) 8 :=
  Vector.ofFn fun i => rootBits 2 w (firstPrimes.getD i 0)

/-- How many zero bytes follow the first byte of the padding: the least number that makes room for
the size at the end of a block. -/
noncomputable def zeros (blockSize sizeBytes length : ℕ) : ℕ :=
  sInf {k | (length + 1 + k) % blockSize = blockSize - sizeBytes}

noncomputable def padded (blockSize sizeBytes : ℕ) (msg : List UInt8) : List UInt8 :=
  msg ++ 0x80 :: List.replicate (zeros blockSize sizeBytes msg.length) 0 ++
    bigEndian sizeBytes (8 * msg.length)

noncomputable def digest (msg : List UInt8) : List UInt8 :=
  let blockSize := 16 * (w / 8)
  (absorb (compress functions) blockSize (initial w)
    (padded blockSize (2 * (w / 8)) msg)).toList.flatMap fun word => bigEndian (w / 8) word.toNat

end

noncomputable def sha256 : List UInt8 → List UInt8 := digest functions256

noncomputable def sha512 : List UInt8 → List UInt8 := digest functions512

/-! What determines the bits of a root, and the words of the functions. -/

section
variable {e w p m k : ℕ}

/-- A number that lies between two neighbours of so many bits behind the point. -/
theorem floor_fract_mul {x : ℝ} (hbelow : (m * 2 ^ w + k : ℝ) ≤ x * 2 ^ w)
    (habove : x * 2 ^ w < m * 2 ^ w + k + 1) (hk : k < 2 ^ w) :
    ⌊Int.fract x * 2 ^ w⌋₊ = k := by
  have hpos : (0 : ℝ) < 2 ^ w := by positivity
  have hk0 : (0 : ℝ) ≤ k := Nat.cast_nonneg k
  have hk1 : (k + 1 : ℝ) ≤ 2 ^ w := by exact_mod_cast hk
  have hfloor : ⌊x⌋ = m := by
    rw [Int.floor_eq_iff]
    constructor
    · apply le_of_mul_le_mul_right _ hpos
      push_cast
      linarith
    · apply lt_of_mul_lt_mul_right _ hpos.le
      push_cast
      linarith
  have hfract : Int.fract x * 2 ^ w = x * 2 ^ w - m * 2 ^ w := by
    unfold Int.fract
    rw [hfloor, sub_mul, Int.cast_natCast]
  rw [hfract, Nat.floor_eq_iff (by linarith)]
  constructor <;> linarith

/-- The root is found by comparing powers. -/
theorem rootBits_eq (he : 0 < e) (hlow : (m * 2 ^ w + k) ^ e ≤ p * 2 ^ (e * w))
    (hhigh : p * 2 ^ (e * w) < (m * 2 ^ w + k + 1) ^ e) (hk : k < 2 ^ w) :
    rootBits e w p = BitVec.ofNat w k := by
  have hroot : ((p : ℝ) ^ (1 / e : ℝ)) ^ e = p := by
    rw [one_div]
    exact Real.rpow_inv_natCast_pow (Nat.cast_nonneg p) he.ne'
  have hnonneg : 0 ≤ (p : ℝ) ^ (1 / e : ℝ) := Real.rpow_nonneg (Nat.cast_nonneg p) _
  have hscaled : ((p : ℝ) ^ (1 / e : ℝ) * 2 ^ w) ^ e = p * 2 ^ (e * w) := by
    rw [mul_pow, hroot, ← pow_mul, Nat.mul_comm w e]
  have hbelow : (m * 2 ^ w + k : ℝ) ≤ (p : ℝ) ^ (1 / e : ℝ) * 2 ^ w := by
    apply le_of_pow_le_pow_left₀ he.ne' (by positivity)
    rw [hscaled]
    exact_mod_cast hlow
  have habove : (p : ℝ) ^ (1 / e : ℝ) * 2 ^ w < m * 2 ^ w + k + 1 := by
    apply lt_of_pow_lt_pow_left₀ e (by positivity)
    rw [hscaled]
    exact_mod_cast hhigh
  unfold rootBits
  rw [floor_fract_mul hbelow habove hk]

/-- The given bits are those of the root, whose whole part is below 32. -/
def IsRootBits (e w p k : ℕ) : Bool :=
  decide (k < 2 ^ w) && (List.range 32).any fun m =>
    decide ((m * 2 ^ w + k) ^ e ≤ p * 2 ^ (e * w) ∧ p * 2 ^ (e * w) < (m * 2 ^ w + k + 1) ^ e)

theorem rootBits_of_isRootBits (he : 0 < e) (h : IsRootBits e w p k = true) :
    rootBits e w p = BitVec.ofNat w k := by
  unfold IsRootBits at h
  simp only [Bool.and_eq_true, decide_eq_true_eq, List.any_eq_true] at h
  obtain ⟨hk, m, -, hlow, hhigh⟩ := h
  exact rootBits_eq he hlow hhigh hk

end

section
variable {w n : ℕ} {x y z : BitVec w}

theorem ch_eq : z ^^^ (x &&& (y ^^^ z)) = ch x y z := by
  unfold ch
  ext i hi
  simp only [BitVec.getElem_xor, BitVec.getElem_and, BitVec.getElem_not]
  cases x[i] <;> cases y[i] <;> cases z[i] <;> rfl

theorem maj_eq : (x &&& y) ||| (z &&& (x ||| y)) = maj x y z := by
  unfold maj
  ext i hi
  simp only [BitVec.getElem_xor, BitVec.getElem_and, BitVec.getElem_or]
  cases x[i] <;> cases y[i] <;> cases z[i] <;> rfl

theorem shifts_eq_rotateRight (hn : n < w) : x >>> n ||| x <<< (w - n) = x.rotateRight n := by
  rw [BitVec.rotateRight_def, Nat.mod_eq_of_lt hn]

end
end SecureHashes
