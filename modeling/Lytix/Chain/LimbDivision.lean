import Lytix.Chain.BaseUint
import Lytix.Chain.Targets
import Mathlib.Data.Nat.Bitwise
import Mathlib.Data.Nat.Size

/-! `base_uint::operator/=` and the shifts, the comparison and the bit lengths that it goes by. -/
namespace Lytix

open BoundedLoops

namespace BaseUint

variable {WIDTH : ℕ} {a b pn : BaseUint WIDTH} {i k : ℕ}

theorem toNat_shiftLeft_ofNat (x : UInt32) {t : ℕ} (ht : t < 32) :
    (x <<< UInt32.ofNat t).toNat = 2 ^ t * (x.toNat % 2 ^ (32 - t)) := by
  have hamount : (UInt32.ofNat t).toNat % 32 = t := by
    rw [UInt32.toNat_ofNat']
    omega
  have hpow : 2 ^ 32 = 2 ^ t * 2 ^ (32 - t) := by rw [← pow_add, Nat.add_sub_cancel' ht.le]
  rw [UInt32.toNat_shiftLeft, hamount, Nat.shiftLeft_eq, mul_comm, hpow, Nat.mul_mod_mul_left]

theorem toNat_shiftRight_ofNat (x : UInt32) {t : ℕ} (ht : t < 32) :
    (x >>> UInt32.ofNat t).toNat = x.toNat / 2 ^ t := by
  have hamount : (UInt32.ofNat t).toNat % 32 = t := by
    rw [UInt32.toNat_ofNat']
    omega
  rw [UInt32.toNat_shiftRight, hamount, Nat.shiftRight_eq_div_pow]

/-- Bits above all of another limb's are added by `|`. -/
theorem toNat_or_shiftLeft {u : UInt32} (x : UInt32) {t : ℕ} (ht : t < 32)
    (hu : u.toNat < 2 ^ t) :
    (u ||| x <<< UInt32.ofNat t).toNat = u.toNat + (x <<< UInt32.ofNat t).toNat := by
  rw [UInt32.toNat_or, toNat_shiftLeft_ofNat x ht, Nat.or_comm, add_comm,
    Nat.two_pow_add_eq_or_of_lt hu]

theorem number_or {y : UInt32} (h : i < WIDTH)
    (hor : (pn[i] ||| y).toNat = pn[i].toNat + y.toNat) :
    number (pn.set i (pn[i] ||| y)) = number pn + y.toNat * (2 ^ 32) ^ i := by
  have hset := number_set pn (x := pn[i] ||| y) h
  rw [hor] at hset
  linarith

/-- A limb moved up by `t` bits, in the two limbs that it reaches. -/
theorem shiftLeft_parts (x : UInt32) {t : ℕ} (ht : t < 32) :
    (x <<< UInt32.ofNat t).toNat + x.toNat / 2 ^ (32 - t) * 2 ^ 32 = x.toNat * 2 ^ t := by
  have hpow : 2 ^ 32 = 2 ^ t * 2 ^ (32 - t) := by rw [← pow_add, Nat.add_sub_cancel' ht.le]
  have hparts := Nat.mod_add_div x.toNat (2 ^ (32 - t))
  calc
    _ = 2 ^ t * (x.toNat % 2 ^ (32 - t) + 2 ^ (32 - t) * (x.toNat / 2 ^ (32 - t))) := by
      rw [toNat_shiftLeft_ofNat x ht, hpow]
      ring
    _ = x.toNat * 2 ^ t := by rw [hparts, mul_comm]

/-- What lies above all limbs does not count. -/
theorem above_modEq {y p : ℕ} (h : WIDTH ≤ p) : y * (2 ^ 32) ^ p ≡ 0 [MOD 2 ^ (32 * WIDTH)] := by
  rw [← pow_limbs]
  exact Nat.modEq_zero_iff_dvd.mpr (Dvd.dvd.mul_left (pow_dvd_pow _ h) y)

/-- A write that is left out above all limbs changes nothing that counts. -/
theorem number_or_modEq {y : UInt32} {p : ℕ}
    (hor : ∀ h : p < WIDTH, (pn[p] ||| y).toNat = pn[p].toNat + y.toNat) :
    number (if h : p < WIDTH then pn.set p (pn[p] ||| y) else pn) ≡
      number pn + y.toNat * (2 ^ 32) ^ p [MOD 2 ^ (32 * WIDTH)] := by
  split_ifs with h
  · rw [number_or h (hor h)]
  · simpa using (above_modEq (not_lt.mp h)).symm.add_left (number pn)

theorem getElem_set_if {c : Prop} [Decidable c] {p m : ℕ} {hp : c → p < WIDTH}
    {y : c → UInt32} (hm : m < WIDTH) (hne : m ≠ p) :
    (if h : c then pn.set p (y h) (hp h) else pn)[m] = pn[m] := by
  split_ifs with h
  · exact Vector.getElem_set_ne (hp h) hm (Ne.symm hne)
  · rfl

/-- What the passes of `operator<<=` before pass `i` have written. -/
structure LeftUpTo (a : BaseUint WIDTH) (k t i : ℕ) (pn : BaseUint WIDTH) : Prop where
  sum : number pn ≡ Limbs.value (2 ^ 32) i (limb a) * ((2 ^ 32) ^ k * 2 ^ t) [MOD 2 ^ (32 * WIDTH)]
  above : ∀ m (hm : m < WIDTH), i + k < m → pn[m] = 0
  low : ∀ h : i + k < WIDTH, pn[i + k].toNat < 2 ^ t

/-- The bits that leave a limb at the top. -/
theorem LeftUpTo.writeHigh {t : ℕ} (ht : t < 32) (hi : i < WIDTH) (h : LeftUpTo a k t i pn)
    {pn₁ : BaseUint WIDTH} (hpn₁ : pn₁ = if h : i + k + 1 < WIDTH ∧ t ≠ 0 then
      pn.set (i + k + 1) (pn[i + k + 1] ||| a[i] >>> UInt32.ofNat (32 - t)) h.1 else pn) :
    (number pn₁ ≡ number pn + a[i].toNat / 2 ^ (32 - t) * (2 ^ 32) ^ (i + k + 1)
      [MOD 2 ^ (32 * WIDTH)]) ∧
    ∀ h : i + k + 1 < WIDTH, pn₁[i + k + 1].toNat < 2 ^ t := by
  have hlimb := a[i].toNat_lt
  have hzero (hlt : i + k + 1 < WIDTH) : pn[i + k + 1] = 0 :=
    h.above _ hlt (Nat.lt_succ_self _)
  rcases Nat.eq_zero_or_pos t with hnone | hsome
  · have hzeros : a[i].toNat / 2 ^ (32 - t) = 0 := by
      rw [hnone]
      exact Nat.div_eq_of_lt hlimb
    rw [hpn₁, dif_neg fun h => h.2 hnone, hzeros, zero_mul, add_zero]
    refine ⟨rfl, ?_⟩
    intro hlt
    rw [hzero hlt]
    exact Nat.two_pow_pos t
  · have hbits : (a[i] >>> UInt32.ofNat (32 - t)).toNat = a[i].toNat / 2 ^ (32 - t) :=
      toNat_shiftRight_ofNat a[i] (by omega)
    have hwrite : pn₁ = if h : i + k + 1 < WIDTH then
        pn.set (i + k + 1) (pn[i + k + 1] ||| a[i] >>> UInt32.ofNat (32 - t)) else pn := by
      rw [hpn₁]
      simp [hsome.ne']
    refine ⟨?_, ?_⟩
    · rw [hwrite, ← hbits]
      apply number_or_modEq
      intro hlt
      rw [hzero hlt]
      simp
    · intro hlt
      have hcut : a[i].toNat / 2 ^ (32 - t) < 2 ^ t := by
        apply Nat.div_lt_of_lt_mul
        rw [← pow_add, Nat.sub_add_cancel ht.le]
        exact hlimb
      simp only [hwrite, dif_pos hlt, Vector.getElem_set_self, hzero hlt, UInt32.zero_or, hbits]
      exact hcut

theorem LeftUpTo.pass {t : ℕ} (ht : t < 32) (hi : i < WIDTH) (h : LeftUpTo a k t i pn) :
    LeftUpTo a k t (i + 1) (shiftLeftPass a k t i hi pn) := by
  obtain ⟨pn₁, hpn₁⟩ : ∃ pn₁, pn₁ = if h : i + k + 1 < WIDTH ∧ t ≠ 0 then
    pn.set (i + k + 1) (pn[i + k + 1] ||| a[i] >>> UInt32.ofNat (32 - t)) h.1 else pn := ⟨_, rfl⟩
  have hpass : shiftLeftPass a k t i hi pn = if h : i + k < WIDTH then
      pn₁.set (i + k) (pn₁[i + k] ||| a[i] <<< UInt32.ofNat t) else pn₁ := by
    rw [hpn₁]
    rfl
  obtain ⟨hhigh, htop⟩ := h.writeHigh ht hi hpn₁
  have hsame : ∀ m (hm : m < WIDTH), m ≠ i + k + 1 → pn₁[m] = pn[m] := by
    intro m hm hne
    simp only [hpn₁]
    exact getElem_set_if hm hne
  have hplace : i + 1 + k = i + k + 1 := add_right_comm i 1 k
  rw [hpass]
  refine ⟨?_, ?_, ?_⟩
  · have hlower := @number_or_modEq _ pn₁ (a[i] <<< UInt32.ofNat t) (i + k) (by
      intro hlt
      apply toNat_or_shiftLeft a[i] ht
      rw [hsame _ hlt (Nat.lt_succ_self _).ne]
      exact h.low hlt)
    have hpow : (2 ^ 32) ^ (i + k) = (2 ^ 32) ^ i * (2 ^ 32) ^ k := pow_add _ _ _
    have hparts := shiftLeft_parts a[i] ht
    have hexact : Limbs.value (2 ^ 32) i (limb a) * ((2 ^ 32) ^ k * 2 ^ t) +
        a[i].toNat / 2 ^ (32 - t) * (2 ^ 32) ^ (i + k + 1) +
          (a[i] <<< UInt32.ofNat t).toNat * (2 ^ 32) ^ (i + k) =
        Limbs.value (2 ^ 32) (i + 1) (limb a) * ((2 ^ 32) ^ k * 2 ^ t) := by
      rw [Limbs.value_succ, limb_of_lt hi, pow_succ (2 ^ 32) (i + k)]
      linear_combination (2 ^ 32) ^ (i + k) * hparts + a[i].toNat * 2 ^ t * hpow
    rw [← hexact]
    exact (hlower.trans (hhigh.add_right _)).trans ((h.sum.add_right _).add_right _)
  · intro m hm habove
    rw [getElem_set_if hm (by omega), hsame m hm (by omega)]
    exact h.above m hm (by omega)
  · intro hlt
    simp only [hplace] at hlt ⊢
    rw [getElem_set_if hlt (Nat.lt_succ_self _).ne']
    exact htop hlt

theorem number_shiftLeft (shift : ℕ) :
    number (shiftLeft a shift) = number a * 2 ^ shift % 2 ^ (32 * WIDTH) := by
  have hend : LeftUpTo a (shift / 32) (shift % 32) WIDTH (shiftLeft a shift) := by
    refine fold_invariant ⟨by simp [number_zero, Nat.ModEq], ?_, ?_⟩ ?_
    · intro m hm _
      simp [zero]
    · intro h
      simp [zero]
    · intro i hi pn h
      exact h.pass (Nat.mod_lt _ (by omega)) hi
  have hpow : (2 ^ 32) ^ (shift / 32) * 2 ^ (shift % 32) = 2 ^ shift := by
    rw [← pow_mul, ← pow_add, Nat.div_add_mod]
  have hsum := hend.sum
  have hlt := @number_lt _ (shiftLeft a shift)
  rw [hpow] at hsum
  rw [← Nat.mod_eq_of_lt hlt]
  exact hsum

/-- A limb moved down by `t` bits, in the two limbs that it reaches. -/
theorem shiftRight_parts (x : UInt32) {t : ℕ} (ht : 0 < t) (hlt : t < 32) :
    (x <<< UInt32.ofNat (32 - t)).toNat + x.toNat / 2 ^ t * 2 ^ 32 = x.toNat * 2 ^ (32 - t) := by
  have hparts := @shiftLeft_parts x (32 - t) (by omega)
  rwa [Nat.sub_sub_self hlt.le] at hparts

/-- What the passes of `operator>>=` before pass `i` have written. -/
structure RightUpTo (a : BaseUint WIDTH) (k t i : ℕ) (pn : BaseUint WIDTH) : Prop where
  sum : number pn = Limbs.value (2 ^ 32) i (limb a) / ((2 ^ 32) ^ k * 2 ^ t)
  above : ∀ m (hm : m < WIDTH), i ≤ m + k → pn[m] = 0
  high : ∀ m (hm : m < WIDTH), m + k + 1 = i → pn[m].toNat < 2 ^ (32 - t)

/-- The limbs that are shifted out. -/
theorem RightUpTo.passOut {t : ℕ} (hi : i < WIDTH) (hik : i < k) (h : RightUpTo a k t i pn) :
    RightUpTo a k t (i + 1) (shiftRightPass a k t i hi pn) := by
  have hpass : shiftRightPass a k t i hi pn = pn := by
    unfold shiftRightPass
    rw [if_neg (by omega : ¬ (k + 1 ≤ i ∧ t ≠ 0)), if_neg (by omega : ¬ k ≤ i)]
  have hgone (n : ℕ) (hn : n ≤ k) :
      Limbs.value (2 ^ 32) n (limb a) / ((2 ^ 32) ^ k * 2 ^ t) = 0 := by
    rw [← Nat.div_div_eq_div_mul, Limbs.value_div_pow_le (fun _ _ => limb_lt) hn, Nat.zero_div]
  rw [hpass]
  refine ⟨?_, ?_, ?_⟩
  · rw [h.sum, hgone i hik.le, hgone (i + 1) hik]
  · intro m hm habove
    exact h.above m hm (by omega)
  · intro m hm habove
    omega

/-- The limb that loses its lowest bits. -/
theorem RightUpTo.passFirst {t : ℕ} (ht : t < 32) (hk : k < WIDTH) (h : RightUpTo a k t k pn) :
    RightUpTo a k t (k + 1) (shiftRightPass a k t k hk pn) := by
  have hzero : pn[0] = 0 := h.above 0 (by omega) (by omega)
  have hpass : shiftRightPass a k t k hk pn = pn.set 0 (pn[0] ||| a[k] >>> UInt32.ofNat t) := by
    unfold shiftRightPass
    rw [if_neg (by omega : ¬ (k + 1 ≤ k ∧ t ≠ 0)), if_pos le_rfl]
    simp only [Nat.sub_self]
  have hbits := toNat_shiftRight_ofNat a[k] ht
  have hgone : Limbs.value (2 ^ 32) k (limb a) / (2 ^ 32) ^ k = 0 :=
    Limbs.value_div_pow_le (fun _ _ => limb_lt) le_rfl
  have hnothing : number pn = 0 := by rw [h.sum, ← Nat.div_div_eq_div_mul, hgone, Nat.zero_div]
  rw [hpass]
  refine ⟨?_, ?_, ?_⟩
  · rw [number_or (by omega) (by rw [hzero]; simp), hnothing, zero_add, pow_zero, mul_one, hbits,
      Limbs.value_succ, limb_of_lt hk, ← Nat.div_div_eq_div_mul,
      Nat.add_mul_div_right _ _ (by positivity), hgone, zero_add]
  · intro m hm habove
    rw [Vector.getElem_set_ne (by omega) hm (by omega)]
    exact h.above m hm (by omega)
  · intro m hm hplace
    obtain rfl : m = 0 := by omega
    have hlimb := a[k].toNat_lt
    rw [Vector.getElem_set_self, hzero, UInt32.zero_or, hbits]
    apply Nat.div_lt_of_lt_mul
    rw [← pow_add, Nat.add_sub_cancel' ht.le]
    exact hlimb

/-- A limb whose lowest bits go to the limb below. -/
theorem RightUpTo.passBoth {t : ℕ} (ht : t < 32) (hi : i < WIDTH) (hki : k + 1 ≤ i)
    (h : RightUpTo a k t i pn) : RightUpTo a k t (i + 1) (shiftRightPass a k t i hi pn) := by
  obtain ⟨p, rfl⟩ := Nat.exists_eq_add_of_le' hki
  have hhigh : p + (k + 1) - k = p + 1 := by omega
  have hbits := toNat_shiftRight_ofNat a[p + (k + 1)] ht
  obtain ⟨pn₁, hpn₁⟩ : ∃ pn₁, pn₁ = if t ≠ 0 then
    pn.set p (pn[p] ||| a[p + (k + 1)] <<< UInt32.ofNat (32 - t)) else pn := ⟨_, rfl⟩
  have hpass : shiftRightPass a k t (p + (k + 1)) hi pn =
      pn₁.set (p + 1) (pn₁[p + 1] ||| a[p + (k + 1)] >>> UInt32.ofNat t) := by
    unfold shiftRightPass
    simp only [hki, true_and, if_pos (Nat.le_of_succ_le hki), hhigh, Nat.add_sub_cancel, hpn₁]
  have hsame : ∀ m (hm : m < WIDTH), m ≠ p → pn₁[m] = pn[m] := by
    intro m hm hne
    simp only [hpn₁]
    split_ifs with hsome
    · exact Vector.getElem_set_ne (by omega) hm (Ne.symm hne)
    · rfl
  have hzero : pn₁[p + 1] = 0 := by
    rw [hsame _ (by omega) (Nat.lt_succ_self p).ne']
    exact h.above _ (by omega) (by omega)
  have hboth : number pn₁ + a[p + (k + 1)].toNat / 2 ^ t * 2 ^ 32 * (2 ^ 32) ^ p =
      number pn + a[p + (k + 1)].toNat * 2 ^ (32 - t) * (2 ^ 32) ^ p := by
    rcases Nat.eq_zero_or_pos t with rfl | hsome
    · have hkept : pn₁ = pn := by rw [hpn₁]; simp
      rw [hkept, pow_zero, Nat.div_one, Nat.sub_zero]
    · have hparts := shiftRight_parts a[p + (k + 1)] hsome ht
      have hfits := h.high p (by omega) (by omega)
      have hor := toNat_or_shiftLeft a[p + (k + 1)] (by omega : 32 - t < 32) hfits
      rw [hpn₁, if_pos hsome.ne', number_or (by omega) hor, ← hparts]
      ring
  rw [hpass]
  refine ⟨?_, ?_, ?_⟩
  · have hpow : (2 ^ 32) ^ (p + (k + 1)) =
        (2 ^ 32) ^ k * 2 ^ t * (2 ^ (32 - t) * (2 ^ 32) ^ p) := by
      rw [← pow_mul, ← pow_mul, ← pow_mul, ← pow_add, ← pow_add, ← pow_add]
      congr 1
      omega
    rw [number_or (by omega) (by rw [hzero]; simp), hbits, Limbs.value_succ, limb_of_lt hi, hpow,
      mul_left_comm, Nat.add_mul_div_left _ _ (by positivity), ← h.sum, pow_succ' (2 ^ 32) p]
    linarith
  · intro m hm habove
    rw [Vector.getElem_set_ne (by omega) hm (by omega), hsame m hm (by omega)]
    exact h.above m hm (by omega)
  · intro m hm hplace
    obtain rfl : m = p + 1 := by omega
    have hlimb := a[p + (k + 1)].toNat_lt
    rw [Vector.getElem_set_self, hzero, UInt32.zero_or, hbits]
    apply Nat.div_lt_of_lt_mul
    rw [← pow_add, Nat.add_sub_cancel' ht.le]
    exact hlimb

theorem number_shiftRight (shift : ℕ) : number (shiftRight a shift) = number a / 2 ^ shift := by
  have ht : shift % 32 < 32 := Nat.mod_lt _ (by omega)
  have hend : RightUpTo a (shift / 32) (shift % 32) WIDTH (shiftRight a shift) := by
    refine fold_invariant ⟨by simp [number_zero], ?_, ?_⟩ ?_
    · intro m hm _
      simp [zero]
    · intro m hm _
      simp [zero]
    · intro i hi pn h
      rcases lt_trichotomy i (shift / 32) with hbelow | rfl | habove
      · exact h.passOut hi hbelow
      · exact h.passFirst ht hi
      · exact h.passBoth ht hi habove
  have hpow : (2 ^ 32) ^ (shift / 32) * 2 ^ (shift % 32) = 2 ^ shift := by
    rw [← pow_mul, ← pow_add, Nat.div_add_mod]
  have hsum := hend.sum
  rw [hpow] at hsum
  exact hsum

theorem compareBelow_nonneg (h : i ≤ WIDTH) :
    0 ≤ compareBelow a b i h ↔
      Limbs.value (2 ^ 32) i (limb b) ≤ Limbs.value (2 ^ 32) i (limb a) := by
  induction i with
  | zero => simp [compareBelow]
  | succ i ih =>
    have hi : i < WIDTH := h
    rw [compareBelow]
    split_ifs with hless hmore
    · have hlt := @Limbs.value_succ_lt (2 ^ 32) i (limb a) (limb b) (fun _ _ => limb_lt) (by
        rw [limb_of_lt hi, limb_of_lt hi]
        exact UInt32.lt_iff_toNat_lt.mp hless)
      exact iff_of_false (by decide) (not_le.mpr hlt)
    · have hlt := @Limbs.value_succ_lt (2 ^ 32) i (limb b) (limb a) (fun _ _ => limb_lt) (by
        rw [limb_of_lt hi, limb_of_lt hi]
        exact UInt32.lt_iff_toNat_lt.mp hmore)
      exact iff_of_true (by decide) hlt.le
    · have hsame : limb b i = limb a i := by
        rw [UInt32.lt_iff_toNat_lt] at hless
        rw [gt_iff_lt, UInt32.lt_iff_toNat_lt] at hmore
        rw [limb_of_lt hi, limb_of_lt hi]
        omega
      rw [ih (Nat.le_of_succ_le h), Limbs.value_succ, Limbs.value_succ, hsame,
        Nat.add_le_add_iff_right]

theorem compareTo_nonneg : 0 ≤ compareTo a b ↔ number b ≤ number a := compareBelow_nonneg le_rfl

theorem size_eq_succ {n x : ℕ} (hle : 2 ^ n ≤ x) (hlt : x < 2 ^ (n + 1)) :
    Nat.size x = n + 1 :=
  le_antisymm (Nat.size_le.mpr hlt) (Nat.lt_size.mpr hle)

theorem toNat_one_shiftLeft {t : ℕ} (ht : t < 32) :
    (1 <<< UInt32.ofNat t : UInt32).toNat = 2 ^ t := by
  have hpow : 1 < 2 ^ (32 - t) := Nat.one_lt_two_pow (by omega)
  rw [toNat_shiftLeft_ofNat 1 ht, UInt32.toNat_one, Nat.mod_eq_of_lt hpow, mul_one]

theorem size_toNat_of_topBit (x : UInt32) (hx : x ≠ 0) (n : ℕ) (hn : n ≤ 31)
    (hlt : x.toNat < 2 ^ (n + 1)) : Nat.size x.toNat = topBit x n + 1 := by
  induction n with
  | zero =>
    have hpos : x.toNat ≠ 0 := fun h => hx (UInt32.toNat_inj.mp h)
    exact size_eq_succ (Nat.one_le_iff_ne_zero.mpr hpos) hlt
  | succ n ih =>
    have hbit := @toNat_one_shiftLeft (n + 1) (by omega)
    have htest : x &&& 1 <<< UInt32.ofNat (n + 1) ≠ 0 ↔ 2 ^ (n + 1) ≤ x.toNat := by
      rw [ne_eq, ← UInt32.toNat_inj, UInt32.toNat_and, hbit, UInt32.toNat_zero,
        Nat.and_two_pow]
      cases hset : x.toNat.testBit (n + 1) with
      | true => simpa using Nat.ge_two_pow_of_testBit hset
      | false =>
        have hbelow : ¬ 2 ^ (n + 1) ≤ x.toNat := by
          intro hle
          rw [Nat.testBit_of_two_pow_le_and_two_pow_add_one_gt hle hlt] at hset
          cases hset
        simpa using hbelow
    rw [topBit]
    split_ifs with h
    · exact size_eq_succ (htest.mp h) hlt
    · exact ih (by omega) (not_le.mp fun hle => h (htest.mpr hle))

theorem bitsBelow_eq (h : i ≤ WIDTH) :
    bitsBelow a i h = Nat.size (Limbs.value (2 ^ 32) i (limb a)) := by
  induction i with
  | zero => simp [bitsBelow]
  | succ i ih =>
    have hi : i < WIDTH := h
    rw [bitsBelow, Limbs.value_succ, limb_of_lt hi]
    split_ifs with hne
    · have hlow := @Limbs.value_lt (2 ^ 32) i (limb a) fun _ _ => limb_lt
      have hsize := size_toNat_of_topBit a[i] hne 31 le_rfl a[i].toNat_lt
      have hbelow : a[i].toNat < 2 ^ (topBit a[i] 31 + 1) := by
        rw [← hsize]
        exact Nat.lt_size_self _
      have habove : 2 ^ topBit a[i] 31 ≤ a[i].toNat := Nat.lt_size.mp (by omega)
      rw [← pow_mul] at hlow ⊢
      symm
      apply size_eq_succ
      · calc
          2 ^ (32 * i + topBit a[i] 31) = 2 ^ topBit a[i] 31 * 2 ^ (32 * i) := by
            rw [pow_add, mul_comm]
          _ ≤ a[i].toNat * 2 ^ (32 * i) := Nat.mul_le_mul_right _ habove
          _ ≤ Limbs.value (2 ^ 32) i (limb a) + a[i].toNat * 2 ^ (32 * i) := Nat.le_add_left _ _
      · calc
          Limbs.value (2 ^ 32) i (limb a) + a[i].toNat * 2 ^ (32 * i)
            < (a[i].toNat + 1) * 2 ^ (32 * i) := by linarith
          _ ≤ 2 ^ (topBit a[i] 31 + 1) * 2 ^ (32 * i) := Nat.mul_le_mul_right _ hbelow
          _ = 2 ^ (32 * i + topBit a[i] 31 + 1) := by
            rw [← pow_add]
            congr 1
            omega
    · have hzero : a[i] = 0 := by simpa using hne
      rw [ih (Nat.le_of_succ_le h), hzero]
      simp

theorem bits_eq : bits a = Nat.size (number a) := bitsBelow_eq le_rfl

theorem bits_le : bits a ≤ 32 * WIDTH := by
  rw [bits_eq]
  exact Nat.size_le.mpr number_lt

/-- `operator/=`: the dividend is `*this`. -/
def divAssign (num : BaseUint WIDTH) (b : Operand WIDTH) : Except String (BaseUint WIDTH) :=
  let div := b.limbs num
  let num_bits := bits num
  let div_bits := bits div
  if hzero : div_bits = 0 then .error "Division by zero"
  else if hless : num_bits < div_bits then .ok zero
  else
    let shift := num_bits - div_bits
    -- every bit that the loop sets is one of `*this`
    have hshift : shift + 1 ≤ 32 * WIDTH := by
      have hbits := @bits_le _ num
      omega
    .ok (Division.loop ⟨num, shiftLeft div shift, zero⟩ (shift + 1) hshift).pn

theorem limb_eq (hi : i < WIDTH) : limb pn i = number pn / (2 ^ 32) ^ i % 2 ^ 32 :=
  (@Limbs.value_div_mod (2 ^ 32) WIDTH (limb pn) i (fun _ _ => limb_lt) hi).symm

/-- The state of the division with `passes` passes left, of which the last one is at `shift = 0`. -/
structure Dividing (a b : ℕ) (passes : ℕ) (s : Division WIDTH) : Prop where
  exact : number s.pn * b + number s.num = a
  small : number s.num < b * 2 ^ passes
  aligned : 2 ^ passes ∣ number s.pn

/-- A bit of the quotient whose lower bits are all zero. -/
theorem number_setBit {shift : ℕ} (hp : shift / 32 < WIDTH)
    (hdvd : 2 ^ (shift + 1) ∣ number pn) :
    number (pn.set (shift / 32) (pn[shift / 32] ||| 1 <<< UInt32.ofNat (shift % 32))) =
      number pn + 2 ^ shift := by
  have ht : shift % 32 < 32 := Nat.mod_lt _ (by omega)
  obtain ⟨c, hc⟩ := hdvd
  have hpow : 2 ^ (shift + 1) = (2 ^ 32) ^ (shift / 32) * 2 ^ (shift % 32 + 1) := by
    rw [← pow_mul, ← pow_add]
    congr 1
    omega
  have hlimb : pn[shift / 32].toNat =
      2 ^ (shift % 32 + 1) * (c % 2 ^ (32 - (shift % 32 + 1))) := by
    have hrange : 2 ^ 32 = 2 ^ (shift % 32 + 1) * 2 ^ (32 - (shift % 32 + 1)) := by
      rw [← pow_add, Nat.add_sub_cancel' ht]
    rw [← limb_of_lt hp, limb_eq hp, hc, hpow, mul_assoc, Nat.mul_div_cancel_left _ (by positivity)]
    nth_rewrite 1 [hrange]
    exact Nat.mul_mod_mul_left _ _ _
  have hbit := @toNat_one_shiftLeft (shift % 32) ht
  have hor : (pn[shift / 32] ||| 1 <<< UInt32.ofNat (shift % 32)).toNat =
      pn[shift / 32].toNat + (1 <<< UInt32.ofNat (shift % 32) : UInt32).toNat := by
    have hlow : 2 ^ (shift % 32) < 2 ^ (shift % 32 + 1) :=
      Nat.pow_lt_pow_right (by omega) (Nat.lt_succ_self _)
    rw [UInt32.toNat_or, hbit, hlimb, Nat.two_pow_add_eq_or_of_lt hlow]
  have hplace : 2 ^ (shift % 32) * (2 ^ 32) ^ (shift / 32) = 2 ^ shift := by
    rw [← pow_mul, ← pow_add, Nat.mod_add_div]
  rw [number_or hp hor, hbit, hplace]

theorem Dividing.pass {a b shift : ℕ} {s : Division WIDTH} (h : Dividing a b (shift + 1) s)
    (hdiv : number s.div = b * 2 ^ shift) (hshift : shift < 32 * WIDTH) :
    Dividing a b shift (s.pass shift hshift) ∧
      number (s.pass shift hshift).div = b * 2 ^ shift / 2 := by
  have hp : shift / 32 < WIDTH := by omega
  obtain ⟨hexact, hsmall, haligned⟩ := h
  have hhalf : number (shiftRight s.div 1) = b * 2 ^ shift / 2 := by
    rw [number_shiftRight, hdiv, pow_one]
  have hdouble : b * 2 ^ (shift + 1) = b * 2 ^ shift + b * 2 ^ shift := by
    rw [pow_succ]
    ring
  unfold Division.pass
  by_cases hfits : 0 ≤ compareTo s.num s.div
  · have hle := compareTo_nonneg.mp hfits
    have hnum := number_subAssign hle
    have hbit := number_setBit hp haligned
    have hlower : 2 ^ shift ∣ number s.pn := (pow_dvd_pow 2 (Nat.le_succ shift)).trans haligned
    rw [hdiv] at hnum hle
    simp only [if_pos hfits]
    refine ⟨⟨?_, ?_, ?_⟩, hhalf⟩
    · rw [hbit, hnum, add_mul, mul_comm (2 ^ shift) b]
      omega
    · rw [hnum]
      omega
    · rw [hbit]
      exact (Nat.dvd_add_right hlower).mpr dvd_rfl
  · have hlt : number s.num < b * 2 ^ shift := by
      rw [compareTo_nonneg, hdiv] at hfits
      exact not_le.mp hfits
    simp only [if_neg hfits]
    exact ⟨⟨hexact, hlt, (pow_dvd_pow 2 (Nat.le_succ shift)).trans haligned⟩, hhalf⟩

theorem Dividing.loop {a b : ℕ} {s : Division WIDTH} {passes : ℕ} (hpasses : passes ≤ 32 * WIDTH)
    (h : Dividing a b passes s) (hdiv : passes ≠ 0 → number s.div = b * 2 ^ (passes - 1)) :
    Dividing a b 0 (s.loop passes hpasses) := by
  induction passes generalizing s with
  | zero => exact h
  | succ shift ih =>
    obtain ⟨hpass, hnext⟩ := h.pass (hdiv (Nat.succ_ne_zero shift)) hpasses
    refine ih (Nat.le_of_succ_le hpasses) hpass ?_
    intro hmore
    obtain ⟨rest, rfl⟩ := Nat.exists_eq_succ_of_ne_zero hmore
    rw [hnext, pow_succ, ← mul_assoc, Nat.mul_div_cancel _ (by omega)]
    rfl

/-- The quotient of the division that the bit lengths set up. -/
theorem number_loop {div : BaseUint WIDTH} (hzero : bits div ≠ 0) (hle : bits div ≤ bits a)
    (hshift : bits a - bits div + 1 ≤ 32 * WIDTH) :
    number (Division.loop ⟨a, shiftLeft div (bits a - bits div), zero⟩ _ hshift).pn =
      number a / number div := by
  have ha : number a < 2 ^ bits a := Nat.size_le.mp bits_eq.ge
  have hdiv : number div < 2 ^ bits div := Nat.size_le.mp bits_eq.ge
  have htop : 2 ^ (bits div - 1) ≤ number div := Nat.lt_size.mp (by rw [← bits_eq]; omega)
  have hfits : number div * 2 ^ (bits a - bits div) < 2 ^ (32 * WIDTH) := by
    calc
      number div * 2 ^ (bits a - bits div) < 2 ^ bits div * 2 ^ (bits a - bits div) :=
        Nat.mul_lt_mul_of_pos_right hdiv (Nat.two_pow_pos _)
      _ = 2 ^ bits a := by rw [← pow_add, Nat.add_sub_cancel' hle]
      _ ≤ 2 ^ (32 * WIDTH) := Nat.pow_le_pow_right (by omega) bits_le
  have hsmall : number a < number div * 2 ^ (bits a - bits div + 1) := by
    calc
      number a < 2 ^ bits a := ha
      _ = 2 ^ (bits div - 1) * 2 ^ (bits a - bits div + 1) := by
        rw [← pow_add]
        congr 1
        omega
      _ ≤ number div * 2 ^ (bits a - bits div + 1) := Nat.mul_le_mul_right _ htop
  have hstart : Dividing (number a) (number div) (bits a - bits div + 1)
      (⟨a, shiftLeft div (bits a - bits div), zero⟩ : Division WIDTH) :=
    ⟨by simp [number_zero], hsmall, by simp [number_zero]⟩
  obtain ⟨hexact, hrest, _⟩ := hstart.loop hshift fun _ => by
    rw [number_shiftLeft, Nat.mod_eq_of_lt hfits, Nat.add_sub_cancel]
  rw [pow_zero, mul_one] at hrest
  generalize Division.loop ⟨a, shiftLeft div (bits a - bits div), zero⟩ _ hshift = s at *
  rw [← hexact, add_comm, Nat.add_mul_div_right _ _ (by omega), Nat.div_eq_of_lt hrest, zero_add]

theorem divAssign_of_zero {b : Operand WIDTH} (hb : number (b.limbs a) = 0) :
    divAssign a b = .error "Division by zero" := by
  have hbits : bits (b.limbs a) = 0 := by rw [bits_eq, hb, Nat.size_zero]
  unfold divAssign
  simp only [hbits, dite_true]

theorem divAssign_of_ne_zero {b : Operand WIDTH} (hb : number (b.limbs a) ≠ 0) :
    ∃ quotient, divAssign a b = .ok quotient ∧
      number quotient = number a / number (b.limbs a) := by
  have hbits : bits (b.limbs a) ≠ 0 := by
    rw [bits_eq, ne_eq, Nat.size_eq_zero]
    exact hb
  unfold divAssign
  simp only [hbits, dite_false]
  split_ifs with hsmall
  · have hlt : number a < number (b.limbs a) := by
      rw [bits_eq, bits_eq] at hsmall
      exact Nat.lt_of_not_ge fun hle => absurd (Nat.size_le_size hle) (not_le.mpr hsmall)
    exact ⟨zero, rfl, by rw [number_zero, Nat.div_eq_of_lt hlt]⟩
  · exact ⟨_, rfl, number_loop hbits (not_lt.mp hsmall) _⟩

/-- Both operations give the mathematical results. -/
def Exact (a : BaseUint WIDTH) (b : Operand WIDTH) : Prop :=
  number (mulAssign a b) = number a * number (b.limbs a) % 2 ^ (32 * WIDTH) ∧
    (number (b.limbs a) ≠ 0 → ∃ quotient, divAssign a b = .ok quotient ∧
      number quotient = number a / number (b.limbs a))

theorem exact_other : Exact a (.other b) := ⟨number_mulAssign_other, divAssign_of_ne_zero⟩

/-- `x *= x` is right only where the product is zero. -/
theorem exact_this : Exact a .this ↔ number a * number a % 2 ^ (32 * WIDTH) = 0 := by
  unfold Exact
  rw [mulAssign_this, number_zero]
  constructor
  · intro h
    exact h.1.symm
  · intro h
    exact ⟨h.symm, divAssign_of_ne_zero⟩

/-- The number two. -/
def two : BaseUint 8 := zero.set 0 2

/-- The number of 256 bits that the limbs stand for. -/
def toUint256 (a : BaseUint 8) : Uint256 := BitVec.ofNat 256 (number a)

theorem toNat_toUint256 (a : BaseUint 8) : (toUint256 a).toNat = number a := by
  have hlt : number a < 2 ^ 256 := number_lt
  unfold toUint256
  rw [BitVec.toNat_ofNat, Nat.mod_eq_of_lt hlt]

/-- The loops over the limbs do what the work of a block divides with. -/
theorem divide_toUint256 (a : BaseUint 8) (b : Operand 8) :
    Pow.divide (toUint256 a) (toUint256 (b.limbs a)) = (divAssign a b).toOption.map toUint256 := by
  by_cases hb : number (b.limbs a) = 0
  · have hzero : toUint256 (b.limbs a) = 0 := by
      unfold toUint256
      rw [hb]
      rfl
    rw [divAssign_of_zero hb, Pow.divide, if_pos hzero]
    rfl
  · obtain ⟨quotient, hdivides, hquotient⟩ := divAssign_of_ne_zero hb
    rw [Pow.divide_of_ne_zero (by rw [toNat_toUint256]; exact hb), hdivides, toNat_toUint256,
      toNat_toUint256, ← hquotient]
    rfl

end BaseUint

end Lytix
