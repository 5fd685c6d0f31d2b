import Lytix.Lib.BoundedLoops
import Lytix.Lib.Limbs

/-! Integers of a fixed width in limbs of 32 bits: `base_uint` of uint256.h and uint256.cpp. -/
namespace Lytix

open BoundedLoops

/-- `base_uint<32 * WIDTH>`, by its array `pn`, the lowest limb first. -/
abbrev BaseUint (WIDTH : ℕ) := Vector UInt32 WIDTH

namespace BaseUint

variable {WIDTH : ℕ}

/-- `*this = 0`. -/
def zero : BaseUint WIDTH := Vector.replicate WIDTH 0

/-- `n & 0xffffffff`, as it is stored in a limb. -/
def lowLimb (n : UInt64) : UInt32 := (n &&& 0xffffffff).toUInt32

/-- What the reference `b` of an operator is bound to. -/
inductive Operand (WIDTH : ℕ)
  | this
  | other (b : BaseUint WIDTH)

/-- `b.pn`, read while the array of `*this` is `pn`. -/
def Operand.limbs (b : Operand WIDTH) (pn : BaseUint WIDTH) : BaseUint WIDTH :=
  match b with
  | .this => pn
  | .other b => b

/-- One pass of `operator<<=`, with `k = shift / 32` and the rest of `shift`. -/
def shiftLeftPass (a : BaseUint WIDTH) (k shift i : ℕ) (hi : i < WIDTH) (pn : BaseUint WIDTH) :
    BaseUint WIDTH :=
  let pn := if h : i + k + 1 < WIDTH ∧ shift ≠ 0 then
      pn.set (i + k + 1) (pn[i + k + 1] ||| a[i] >>> UInt32.ofNat (32 - shift)) h.1
    else pn
  if h : i + k < WIDTH then pn.set (i + k) (pn[i + k] ||| a[i] <<< UInt32.ofNat shift) else pn

/-- `operator<<=`. -/
def shiftLeft (a : BaseUint WIDTH) (shift : ℕ) : BaseUint WIDTH :=
  Nat.fold WIDTH (fun i hi pn => shiftLeftPass a (shift / 32) (shift % 32) i hi pn) zero

/-- One pass of `operator>>=`, with `k = shift / 32` and the rest of `shift`. -/
def shiftRightPass (a : BaseUint WIDTH) (k shift i : ℕ) (hi : i < WIDTH) (pn : BaseUint WIDTH) :
    BaseUint WIDTH :=
  let pn := if k + 1 ≤ i ∧ shift ≠ 0 then
      pn.set (i - k - 1) (pn[i - k - 1] ||| a[i] <<< UInt32.ofNat (32 - shift))
    else pn
  if k ≤ i then pn.set (i - k) (pn[i - k] ||| a[i] >>> UInt32.ofNat shift) else pn

/-- `operator>>=`. -/
def shiftRight (a : BaseUint WIDTH) (shift : ℕ) : BaseUint WIDTH :=
  Nat.fold WIDTH (fun i hi pn => shiftRightPass a (shift / 32) (shift % 32) i hi pn) zero

/-- `operator+=(const base_uint&)`. -/
def addAssign (a b : BaseUint WIDTH) : BaseUint WIDTH :=
  (Nat.fold WIDTH (fun i _ (s : BaseUint WIDTH × UInt64) =>
    let n := s.2 + s.1[i].toUInt64 + b[i].toUInt64
    (s.1.set i (lowLimb n), n >>> 32)) (a, 0)).1

/-- `operator~`. -/
def complement (a : BaseUint WIDTH) : BaseUint WIDTH := a.map fun limb => ~~~limb

/-- `while (++pn[i] == 0 && i < WIDTH - 1) i++`, with `left` limbs above limb `i`. -/
def incrementFrom (pn : BaseUint WIDTH) : (left : ℕ) → left < WIDTH → BaseUint WIDTH
  | 0, _ => pn.set (WIDTH - 1) (pn[WIDTH - 1] + 1)
  | left + 1, h =>
    let i := WIDTH - 1 - (left + 1)
    let pn := pn.set i (pn[i] + 1)
    if pn[i] = 0 then incrementFrom pn left (Nat.lt_of_succ_lt h) else pn

/-- `operator++`. -/
def increment (a : BaseUint WIDTH) : BaseUint WIDTH :=
  if h : 0 < WIDTH then incrementFrom a (WIDTH - 1) (Nat.sub_lt h Nat.one_pos) else a

/-- `operator-()`. -/
def negate (a : BaseUint WIDTH) : BaseUint WIDTH := increment (complement a)

/-- `operator-=(const base_uint&)`. -/
def subAssign (a b : BaseUint WIDTH) : BaseUint WIDTH := addAssign a (negate b)

/-- `CompareTo`, with the limbs below `i` left to compare. -/
def compareBelow (a b : BaseUint WIDTH) : (i : ℕ) → i ≤ WIDTH → Int
  | 0, _ => 0
  | i + 1, h =>
    if a[i] < b[i] then -1
    else if a[i] > b[i] then 1
    else compareBelow a b i (Nat.le_of_succ_le h)

/-- `CompareTo`. -/
def compareTo (a b : BaseUint WIDTH) : Int := compareBelow a b WIDTH le_rfl

/-- `for (int bits = 31; bits > 0; bits--) if (pn[pos] & 1 << bits)`, with the bits up to `bits`
left to try. -/
def topBit (limb : UInt32) : ℕ → ℕ
  | 0 => 0
  | bits + 1 => if limb &&& 1 <<< UInt32.ofNat (bits + 1) ≠ 0 then bits + 1 else topBit limb bits

/-- `bits()`, with the limbs below `pos` left to try. -/
def bitsBelow (a : BaseUint WIDTH) : (pos : ℕ) → pos ≤ WIDTH → ℕ
  | 0, _ => 0
  | pos + 1, h =>
    if a[pos] ≠ 0 then 32 * pos + topBit a[pos] 31 + 1
    else bitsBelow a pos (Nat.le_of_succ_le h)

/-- `bits()`. -/
def bits (a : BaseUint WIDTH) : ℕ := bitsBelow a WIDTH le_rfl

/-- The inner loop of `operator*=(const base_uint&)`, for the limb `j` of the copy `a`. -/
def mulRow (a : BaseUint WIDTH) (b : Operand WIDTH) (j : ℕ) (hj : j < WIDTH)
    (pn : BaseUint WIDTH) : BaseUint WIDTH :=
  (Nat.fold (WIDTH - j) (fun i _ (s : BaseUint WIDTH × UInt64) =>
    let n := s.2 + s.1[i + j].toUInt64 + a[j].toUInt64 * (b.limbs s.1)[i].toUInt64
    (s.1.set (i + j) (lowLimb n), n >>> 32)) (pn, 0)).1

/-- `operator*=(const base_uint&)`. -/
def mulAssign (a : BaseUint WIDTH) (b : Operand WIDTH) : BaseUint WIDTH :=
  Nat.fold WIDTH (fun j hj pn => mulRow a b j hj pn) zero

/-- The variables of `operator/=`. -/
structure Division (WIDTH : ℕ) where
  num : BaseUint WIDTH
  div : BaseUint WIDTH
  pn : BaseUint WIDTH

/-- One pass of the loop of `operator/=`. -/
def Division.pass (s : Division WIDTH) (shift : ℕ) (h : shift < 32 * WIDTH) :
    Division WIDTH :=
  let s := if 0 ≤ compareTo s.num s.div then
      { s with
        num := subAssign s.num s.div
        pn := s.pn.set (shift / 32)
          (s.pn[shift / 32] ||| 1 <<< UInt32.ofNat (shift % 32)) }
    else s
  { s with div := shiftRight s.div 1 }

/-- The loop of `operator/=`, with `passes` left: `shift` is one less. -/
def Division.loop (s : Division WIDTH) : (passes : ℕ) → passes ≤ 32 * WIDTH → Division WIDTH
  | 0, _ => s
  | shift + 1, h => loop (s.pass shift h) shift (Nat.le_of_succ_le h)

variable {a b pn : BaseUint WIDTH} {i k : ℕ}

/-- The limb `i` as a number. -/
def limb (pn : BaseUint WIDTH) (i : ℕ) : ℕ := if h : i < WIDTH then pn[i].toNat else 0

/-- The number that the limbs stand for. -/
def number (pn : BaseUint WIDTH) : ℕ := Limbs.value (2 ^ 32) WIDTH (limb pn)

theorem limb_of_lt (h : i < WIDTH) : limb pn i = pn[i].toNat := dif_pos h

theorem limb_lt : limb pn i < 2 ^ 32 := by
  unfold limb
  split_ifs with h
  · exact pn[i].toNat_lt
  · exact Nat.two_pow_pos 32

theorem number_lt : number pn < 2 ^ (32 * WIDTH) := by
  rw [pow_mul]
  exact Limbs.value_lt fun _ _ => limb_lt

theorem number_zero : number (zero : BaseUint WIDTH) = 0 := by
  have hlimbs : ∀ i < WIDTH, limb (zero : BaseUint WIDTH) i = 0 := by
    intro i hi
    simp [limb_of_lt hi, zero]
  unfold number
  rw [Limbs.value_congr hlimbs]
  simp [Limbs.value]

theorem limb_set {x : UInt32} (h : i < WIDTH) :
    limb (pn.set i x) = Function.update (limb pn) i x.toNat := by
  funext m
  by_cases hm : m = i
  · subst hm
    rw [Function.update_self, limb_of_lt h, Vector.getElem_set_self]
  · rw [Function.update_of_ne hm]
    unfold limb
    split_ifs with hlt
    · rw [Vector.getElem_set_ne h hlt (Ne.symm hm)]
    · rfl

/-- A limb that is written changes the number at its place. -/
theorem number_set (pn : BaseUint WIDTH) {x : UInt32} (h : i < WIDTH) :
    number (pn.set i x) + pn[i].toNat * (2 ^ 32) ^ i = number pn + x.toNat * (2 ^ 32) ^ i := by
  have hupdate := @Limbs.value_update (2 ^ 32) WIDTH (limb pn) i x.toNat h
  rw [limb_of_lt h] at hupdate
  unfold number
  rw [limb_set h]
  exact hupdate

theorem toNat_lowLimb (n : UInt64) : (lowLimb n).toNat = n.toNat % 2 ^ 32 := by
  have hmask : (0xffffffff : UInt64).toNat = 2 ^ 32 - 1 := by decide
  unfold lowLimb
  rw [UInt64.toNat_toUInt32, UInt64.toNat_and, hmask, Nat.and_two_pow_sub_one_eq_mod,
    Nat.mod_mod]

theorem toNat_carry (n : UInt64) : (n >>> 32).toNat = n.toNat / 2 ^ 32 := by
  have hshift : (32 : UInt64).toNat % 64 = 32 := by decide
  rw [UInt64.toNat_shiftRight, hshift, Nat.shiftRight_eq_div_pow]

/-- What is left in a limb and what is carried on are the whole. -/
theorem place_mul_add {n : UInt64} {x : ℕ} (hn : n.toNat = x) :
    (lowLimb n).toNat * (2 ^ 32) ^ i + (n >>> 32).toNat * (2 ^ 32) ^ (i + 1) =
      x * (2 ^ 32) ^ i := by
  have hparts := Nat.mod_add_div n.toNat (2 ^ 32)
  rw [toNat_lowLimb, toNat_carry, ← hn]
  nth_rewrite 3 [← hparts]
  rw [pow_succ (2 ^ 32) i]
  ring

/-- What one limb takes up and what it carries on. -/
theorem number_carry {n : UInt64} {carry c : ℕ} (h : i < WIDTH)
    (hn : n.toNat = carry + pn[i].toNat + c) :
    number (pn.set i (lowLimb n)) + (n >>> 32).toNat * (2 ^ 32) ^ (i + 1) =
      number pn + (carry + c) * (2 ^ 32) ^ i := by
  have hset := number_set pn (x := lowLimb n) h
  have hplace := place_mul_add (i := i) hn
  linarith

theorem pow_limbs : (2 ^ 32) ^ WIDTH = 2 ^ (32 * WIDTH) := (pow_mul 2 32 WIDTH).symm

theorem number_addAssign : number (addAssign a b) = (number a + number b) % 2 ^ (32 * WIDTH) := by
  let I (i : ℕ) (s : BaseUint WIDTH × UInt64) : Prop := s.2.toNat < 2 ^ 32 ∧
    number s.1 + s.2.toNat * (2 ^ 32) ^ i = number a + Limbs.value (2 ^ 32) i (limb b)
  have hend : I WIDTH (Nat.fold WIDTH (fun i _ (s : BaseUint WIDTH × UInt64) =>
      let n := s.2 + s.1[i].toUInt64 + b[i].toUInt64
      (s.1.set i (lowLimb n), n >>> 32)) (a, 0)) := by
    refine fold_invariant ⟨by simp, by simp⟩ ?_
    intro i hi s ⟨hcarry, hsum⟩
    have hn : (s.2 + s.1[i].toUInt64 + b[i].toUInt64).toNat =
        s.2.toNat + s.1[i].toNat + b[i].toNat := by
      have hlimb := s.1[i].toNat_lt
      have hother := b[i].toNat_lt
      rw [UInt64.toNat_add, UInt64.toNat_add, UInt32.toNat_toUInt64, UInt32.toNat_toUInt64]
      omega
    have hpass := number_carry hi hn
    refine ⟨?_, ?_⟩
    · have hlt := (s.2 + s.1[i].toUInt64 + b[i].toUInt64).toNat_lt
      rw [toNat_carry]
      omega
    · rw [hpass, Limbs.value_succ, limb_of_lt hi]
      linarith
  obtain ⟨_, hsum⟩ := hend
  have hlt := @number_lt _ (addAssign a b)
  rw [← Nat.mod_eq_of_lt hlt]
  rw [pow_limbs] at hsum
  calc
    number (addAssign a b) % 2 ^ (32 * WIDTH)
      = (number (addAssign a b) + _ * 2 ^ (32 * WIDTH)) % 2 ^ (32 * WIDTH) :=
        (Nat.add_mul_mod_self_right _ _ _).symm
    _ = (number a + number b) % 2 ^ (32 * WIDTH) := congrArg (· % 2 ^ (32 * WIDTH)) hsum

theorem number_complement : number (complement a) + number a + 1 = 2 ^ (32 * WIDTH) := by
  have hlimbs : ∀ i < WIDTH, limb (complement a) i = 2 ^ 32 - 1 - limb a i := by
    intro i hi
    have hlimb := a[i].toNat_lt
    rw [limb_of_lt hi, limb_of_lt hi, complement, Vector.getElem_map, UInt32.toNat_not]
    rfl
  have hprefix : ∀ n ≤ WIDTH, Limbs.value (2 ^ 32) n (limb (complement a)) +
      Limbs.value (2 ^ 32) n (limb a) + 1 = (2 ^ 32) ^ n := by
    intro n hn
    induction n with
    | zero => simp
    | succ n ih =>
      have hbelow := ih (Nat.le_of_succ_le hn)
      have hlimb := @limb_lt _ a n
      have hboth : limb (complement a) n + limb a n + 1 = 2 ^ 32 := by
        rw [hlimbs n hn]
        omega
      calc
        _ = (Limbs.value (2 ^ 32) n (limb (complement a)) + Limbs.value (2 ^ 32) n (limb a) + 1) +
            (limb (complement a) n + limb a n) * (2 ^ 32) ^ n := by
          rw [Limbs.value_succ, Limbs.value_succ]
          ring
        _ = (limb (complement a) n + limb a n + 1) * (2 ^ 32) ^ n := by
          rw [hbelow]
          ring
        _ = (2 ^ 32) ^ (n + 1) := by rw [hboth, pow_succ' (2 ^ 32) n]
  rw [← pow_limbs]
  exact hprefix WIDTH le_rfl

/-- A limb of ones only turns to 0, and one is carried on. -/
theorem number_set_zero (pn : BaseUint WIDTH) (hi : i < WIDTH) (hzero : pn[i] + 1 = 0) :
    number (pn.set i (pn[i] + 1)) + (2 ^ 32) ^ (i + 1) = number pn + (2 ^ 32) ^ i := by
  have hset := number_set pn (x := pn[i] + 1) hi
  have hmax : pn[i].toNat + 1 = 2 ^ 32 := by
    have hlimb := pn[i].toNat_lt
    have hsum := congrArg UInt32.toNat hzero
    rw [UInt32.toNat_add] at hsum
    simp only [UInt32.toNat_one, UInt32.toNat_zero] at hsum
    omega
  rw [hzero] at hset ⊢
  simp only [UInt32.toNat_zero, zero_mul, add_zero] at hset
  have hpow : (2 ^ 32) ^ (i + 1) = (pn[i].toNat + 1) * (2 ^ 32) ^ i := by
    rw [hmax, pow_succ' (2 ^ 32) i]
  linarith

theorem number_set_next (pn : BaseUint WIDTH) (hi : i < WIDTH) (hne : pn[i] + 1 ≠ 0) :
    number (pn.set i (pn[i] + 1)) = number pn + (2 ^ 32) ^ i := by
  have hset := number_set pn (x := pn[i] + 1) hi
  have hsum : (pn[i] + 1).toNat = pn[i].toNat + 1 := by
    have hlimb := pn[i].toNat_lt
    have hnonzero : (pn[i] + 1).toNat ≠ 0 := fun h => hne (UInt32.toNat_inj.mp h)
    rw [UInt32.toNat_add, UInt32.toNat_one] at hnonzero ⊢
    omega
  rw [hsum] at hset
  linarith

theorem number_incrementFrom (pn : BaseUint WIDTH) {left : ℕ} (h : left < WIDTH) :
    number (incrementFrom pn left h) ≡
      number pn + (2 ^ 32) ^ (WIDTH - 1 - left) [MOD 2 ^ (32 * WIDTH)] := by
  induction left generalizing pn with
  | zero =>
    have hlast : WIDTH - 1 < WIDTH := Nat.sub_lt h Nat.one_pos
    rw [incrementFrom, Nat.sub_zero]
    by_cases hzero : pn[WIDTH - 1] + 1 = 0
    · have hset := number_set_zero pn hlast hzero
      rw [Nat.sub_add_cancel (Nat.succ_le_of_lt h), pow_limbs] at hset
      rw [← hset]
      simp [Nat.ModEq]
    · rw [number_set_next pn hlast hzero]
  | succ left ih =>
    have hi : WIDTH - 1 - (left + 1) < WIDTH := by omega
    rw [incrementFrom]
    simp only [Vector.getElem_set_self]
    by_cases hzero : pn[WIDTH - 1 - (left + 1)] + 1 = 0
    · have hset := number_set_zero pn hi hzero
      rw [if_pos hzero, ← hset, show WIDTH - 1 - (left + 1) + 1 = WIDTH - 1 - left by omega]
      exact ih _ (Nat.lt_of_succ_lt h)
    · rw [if_neg hzero, number_set_next pn hi hzero]

theorem number_negate : number (negate b) + number b ≡ 0 [MOD 2 ^ (32 * WIDTH)] := by
  have hnot := @number_complement _ b
  rcases Nat.eq_zero_or_pos WIDTH with rfl | hwidth
  · exact Nat.modEq_one
  · have hinc : number (negate b) ≡ number (complement b) + 1 [MOD 2 ^ (32 * WIDTH)] := by
      have hfrom := number_incrementFrom (complement b) (Nat.sub_lt hwidth Nat.one_pos)
      unfold negate increment
      rw [dif_pos hwidth]
      simpa using hfrom
    have hsum := hinc.add_right (number b)
    rw [add_right_comm, hnot] at hsum
    exact hsum.trans (by simp [Nat.ModEq])

theorem number_subAssign (hle : number b ≤ number a) :
    number (subAssign a b) = number a - number b := by
  have hlt := @number_lt _ a
  have hsum : number a + number (negate b) ≡ number a - number b [MOD 2 ^ (32 * WIDTH)] := by
    calc
      number a + number (negate b) = (number a - number b) + (number (negate b) + number b) := by
        omega
      _ ≡ (number a - number b) + 0 [MOD 2 ^ (32 * WIDTH)] := number_negate.add_left _
      _ = number a - number b := add_zero _
  unfold subAssign
  rw [number_addAssign, hsum, Nat.mod_eq_of_lt (by omega)]

/-- A product of two limbs leaves room for two more. -/
theorem toNat_mul_limbs (x y : UInt32) : (x.toUInt64 * y.toUInt64).toNat = x.toNat * y.toNat := by
  have hx := x.toNat_lt
  have hy := y.toNat_lt
  have hle : x.toNat * y.toNat ≤ (2 ^ 32 - 1) * (2 ^ 32 - 1) :=
    Nat.mul_le_mul (by omega) (by omega)
  rw [UInt64.toNat_mul, UInt32.toNat_toUInt64, UInt32.toNat_toUInt64, Nat.mod_eq_of_lt (by omega)]

theorem toNat_mul_add (carry : UInt64) (hcarry : carry.toNat < 2 ^ 32) (x y z : UInt32) :
    (carry + z.toUInt64 + x.toUInt64 * y.toUInt64).toNat =
      carry.toNat + z.toNat + x.toNat * y.toNat := by
  have hx := x.toNat_lt
  have hy := y.toNat_lt
  have hz := z.toNat_lt
  have hle : x.toNat * y.toNat ≤ (2 ^ 32 - 1) * (2 ^ 32 - 1) :=
    Nat.mul_le_mul (by omega) (by omega)
  rw [UInt64.toNat_add, toNat_mul_limbs, UInt64.toNat_add, UInt32.toNat_toUInt64]
  omega

theorem toUInt64_zero : (0 : UInt32).toUInt64 = 0 := rfl

/-- One row adds the product of one limb, shifted to its place. -/
theorem number_mulRow (pn : BaseUint WIDTH) {j : ℕ} (hj : j < WIDTH) :
    number (mulRow a (.other b) j hj pn) ≡
      number pn + limb a j * (2 ^ 32) ^ j * number b [MOD 2 ^ (32 * WIDTH)] := by
  let I (i : ℕ) (s : BaseUint WIDTH × UInt64) : Prop := s.2.toNat < 2 ^ 32 ∧
    number s.1 + s.2.toNat * (2 ^ 32) ^ (i + j) =
      number pn + limb a j * Limbs.value (2 ^ 32) i (limb b) * (2 ^ 32) ^ j
  have hend : I (WIDTH - j) (Nat.fold (WIDTH - j) (fun i _ (s : BaseUint WIDTH × UInt64) =>
      let n := s.2 + s.1[i + j].toUInt64 + a[j].toUInt64 * b[i].toUInt64
      (s.1.set (i + j) (lowLimb n), n >>> 32)) (pn, 0)) := by
    refine fold_invariant ⟨by simp, by simp⟩ ?_
    intro i hi s ⟨hcarry, hsum⟩
    have hplace : i + j < WIDTH := by omega
    have hn := toNat_mul_add s.2 hcarry a[j] b[i] s.1[i + j]
    have hpass := number_carry hplace hn
    refine ⟨?_, ?_⟩
    · have hlt := (s.2 + s.1[i + j].toUInt64 + a[j].toUInt64 * b[i].toUInt64).toNat_lt
      rw [toNat_carry]
      omega
    · have hpow : (2 ^ 32) ^ (i + j) = (2 ^ 32) ^ i * (2 ^ 32) ^ j := pow_add _ _ _
      have hlimb : limb b i = b[i].toNat := limb_of_lt (by omega)
      rw [add_right_comm i 1 j, hpass, Limbs.value_succ, hlimb, limb_of_lt hj]
      rw [limb_of_lt hj] at hsum
      linear_combination hsum + a[j].toNat * b[i].toNat * hpow
  obtain ⟨_, hsum⟩ := hend
  rw [Nat.sub_add_cancel hj.le, pow_limbs] at hsum
  have hcut := (@Limbs.value_mul_pow_modEq (2 ^ 32) WIDTH (limb b) j hj.le).mul_left (limb a j)
  rw [pow_limbs, ← mul_assoc, ← mul_assoc] at hcut
  calc
    number (mulRow a (.other b) j hj pn)
      ≡ number (mulRow a (.other b) j hj pn) + _ * 2 ^ (32 * WIDTH) [MOD 2 ^ (32 * WIDTH)] :=
        (Nat.add_mul_mod_self_right _ _ _).symm
    _ = number pn + limb a j * Limbs.value (2 ^ 32) (WIDTH - j) (limb b) * (2 ^ 32) ^ j := hsum
    _ ≡ number pn + limb a j * number b * (2 ^ 32) ^ j [MOD 2 ^ (32 * WIDTH)] := hcut.add_left _
    _ = number pn + limb a j * (2 ^ 32) ^ j * number b := by ring

theorem number_mulAssign_other :
    number (mulAssign a (.other b)) = number a * number b % 2 ^ (32 * WIDTH) := by
  let I (j : ℕ) (pn : BaseUint WIDTH) : Prop :=
    number pn ≡ Limbs.value (2 ^ 32) j (limb a) * number b [MOD 2 ^ (32 * WIDTH)]
  have hend : I WIDTH (mulAssign a (.other b)) := by
    refine fold_invariant ?_ ?_
    · simp [I, number_zero, Nat.ModEq]
    · intro j hj pn hrows
      have hrow := number_mulRow (a := a) (b := b) pn hj
      have hboth := hrow.trans (hrows.add_right _)
      rw [← add_mul, ← Limbs.value_succ] at hboth
      exact hboth
  have hlt := @number_lt _ (mulAssign a (.other b))
  rw [← Nat.mod_eq_of_lt hlt]
  exact hend

/-- `x *= x` reads the limbs of a number that it has set to zero. -/
theorem mulAssign_this : mulAssign a .this = zero := by
  have hrow {j : ℕ} (hj : j < WIDTH) : mulRow a .this j hj zero = zero := by
    let I (_ : ℕ) (s : BaseUint WIDTH × UInt64) : Prop := s = (zero, 0)
    have hend : I (WIDTH - j) (Nat.fold (WIDTH - j) (fun i _ (s : BaseUint WIDTH × UInt64) =>
        let n := s.2 + s.1[i + j].toUInt64 + a[j].toUInt64 * s.1[i].toUInt64
        (s.1.set (i + j) (lowLimb n), n >>> 32)) (zero, 0)) := by
      refine fold_invariant rfl ?_
      rintro i hi s rfl
      have hset : (zero : BaseUint WIDTH).set (i + j) 0 = zero := by
        ext m hm
        rw [Vector.getElem_set]
        split_ifs <;> simp [zero]
      have hlimb (m : ℕ) (hm : m < WIDTH) : (zero : BaseUint WIDTH)[m] = 0 := by simp [zero]
      have hlow : lowLimb 0 = 0 := by decide
      have hnothing : (0 : UInt64) + 0 + a[j].toUInt64 * 0 = 0 := by simp
      simp only [hlimb, toUInt64_zero, hnothing, hlow, hset]
      rfl
    exact congrArg Prod.fst hend
  let I (_ : ℕ) (pn : BaseUint WIDTH) : Prop := pn = zero
  have hend : I WIDTH (mulAssign a .this) := by
    refine fold_invariant rfl ?_
    rintro j hj pn rfl
    exact hrow hj
  exact hend

end BaseUint

end Lytix
