import Mathlib.Tactic

/-! Products with a positive binary64 constant, truncated to an integer: what C++ computes when
it multiplies an `int64_t` by a `double` literal and stores the result in an `int64_t`. Only the
53-bit significand matters here: nothing overflows or becomes subnormal. -/
namespace Binary64

/-- `n / 2 ^ s`, rounded to nearest, ties to even. -/
def roundEven (s n : ℕ) : ℕ :=
  let q := n / 2 ^ s
  let r := n % 2 ^ s
  if 2 * r < 2 ^ s ∨ 2 * r = 2 ^ s ∧ q % 2 = 0 then q else q + 1

/-- Rounding to a 53-bit significand. -/
def round53 (n : ℕ) : ℕ := roundEven (n.log2 - 52) n * 2 ^ (n.log2 - 52)

/-- The constant `num / 2 ^ k`. -/
structure Const where
  num : ℕ
  k : ℕ

def mulTrunc (v : ℤ) (c : Const) : ℤ :=
  v.sign * (round53 (round53 v.natAbs * c.num) / 2 ^ c.k : ℕ)

/-- The product with the constant multiplied further by integers, each product rounded. -/
def mulTruncs (v : ℤ) (c : Const) (factors : List ℕ) : ℤ :=
  v.sign * (factors.foldl (fun n factor => round53 (n * factor))
    (round53 (round53 v.natAbs * c.num)) / 2 ^ c.k : ℕ)

theorem le_roundEven (s n : ℕ) : n / 2 ^ s ≤ roundEven s n := by
  unfold roundEven
  dsimp only
  split_ifs <;> omega

theorem roundEven_le (s n : ℕ) : roundEven s n ≤ n / 2 ^ s + 1 := by
  unfold roundEven
  dsimp only
  split_ifs <;> omega

theorem roundEven_mono (s : ℕ) {m n : ℕ} (h : m ≤ n) : roundEven s m ≤ roundEven s n := by
  have hq : m / 2 ^ s ≤ n / 2 ^ s := Nat.div_le_div_right h
  rcases Nat.lt_or_ge (m / 2 ^ s) (n / 2 ^ s) with hlt | hge
  · have hm := roundEven_le s m
    have hn := le_roundEven s n
    omega
  · -- the same quotient: only the remainders are compared
    have heq : m / 2 ^ s = n / 2 ^ s := le_antisymm hq hge
    have hm := Nat.div_add_mod m (2 ^ s)
    have hn := Nat.div_add_mod n (2 ^ s)
    rw [heq] at hm
    have hr : m % 2 ^ s ≤ n % 2 ^ s := by omega
    unfold roundEven
    dsimp only
    rw [heq]
    split_ifs <;> omega

theorem round53_le_pow {n s : ℕ} (hs : n.log2 - 52 ≤ s) : round53 n ≤ 2 ^ (53 + s) := by
  have hq : n / 2 ^ (n.log2 - 52) < 2 ^ 53 := by
    rw [Nat.div_lt_iff_lt_mul (by positivity), ← pow_add]
    exact lt_of_lt_of_le Nat.lt_log2_self (Nat.pow_le_pow_right (by norm_num) (by omega))
  have hround := roundEven_le (n.log2 - 52) n
  calc round53 n ≤ 2 ^ 53 * 2 ^ (n.log2 - 52) := Nat.mul_le_mul_right _ (by omega)
    _ = 2 ^ (53 + (n.log2 - 52)) := (pow_add ..).symm
    _ ≤ 2 ^ (53 + s) := Nat.pow_le_pow_right (by norm_num) (by omega)

theorem pow_le_round53 {n : ℕ} (h : 52 < n.log2) : 2 ^ n.log2 ≤ round53 n := by
  have hne : n ≠ 0 := by
    rintro rfl
    exact absurd h (by simp)
  have hexp : 52 + (n.log2 - 52) = n.log2 := by omega
  have hq : 2 ^ 52 ≤ n / 2 ^ (n.log2 - 52) := by
    rw [Nat.le_div_iff_mul_le (by positivity), ← pow_add, hexp]
    exact Nat.log2_self_le hne
  have hround := le_roundEven (n.log2 - 52) n
  calc 2 ^ n.log2 = 2 ^ 52 * 2 ^ (n.log2 - 52) := by rw [← pow_add, hexp]
    _ ≤ round53 n := Nat.mul_le_mul_right _ (by omega)

theorem log2_mono {m n : ℕ} (h : m ≤ n) : m.log2 ≤ n.log2 := by
  rcases Nat.eq_zero_or_pos m with rfl | hpos
  · simp
  · rw [Nat.le_log2 (by omega)]
    exact (Nat.log2_self_le hpos.ne').trans h

theorem round53_mono {m n : ℕ} (h : m ≤ n) : round53 m ≤ round53 n := by
  have hlog := log2_mono h
  rcases Nat.lt_or_ge (m.log2 - 52) (n.log2 - 52) with hlt | hge
  · -- a smaller exponent: the power of two between them separates the results
    have hupper := round53_le_pow (n := m) (s := n.log2 - 53) (by omega)
    have hlower := pow_le_round53 (n := n) (by omega)
    have hexp : 53 + (n.log2 - 53) = n.log2 := by omega
    rw [hexp] at hupper
    exact hupper.trans hlower
  · have heq : m.log2 - 52 = n.log2 - 52 := by omega
    unfold round53
    rw [heq]
    exact Nat.mul_le_mul_right _ (roundEven_mono _ h)

theorem mulTrunc_nonneg {v : ℤ} (h : 0 ≤ v) (c : Const) : 0 ≤ mulTrunc v c := by
  unfold mulTrunc
  have hsign : 0 ≤ v.sign := Int.sign_nonneg_iff.mpr h
  positivity

theorem mulTrunc_mono {v w : ℤ} (hv : 0 ≤ v) (h : v ≤ w) (c : Const) :
    mulTrunc v c ≤ mulTrunc w c := by
  rcases hv.eq_or_lt with rfl | hpos
  · rw [mulTrunc, Int.sign_zero, zero_mul]
    exact mulTrunc_nonneg h c
  · have habs : v.natAbs ≤ w.natAbs := by omega
    have hprod := round53_mono (Nat.mul_le_mul_right c.num (round53_mono habs))
    unfold mulTrunc
    rw [Int.sign_eq_one_of_pos hpos, Int.sign_eq_one_of_pos (by omega), one_mul, one_mul]
    exact_mod_cast Nat.div_le_div_right hprod

theorem mulTruncs_nonneg {v : ℤ} (h : 0 ≤ v) (c : Const) (factors : List ℕ) :
    0 ≤ mulTruncs v c factors := by
  unfold mulTruncs
  have hsign : 0 ≤ v.sign := Int.sign_nonneg_iff.mpr h
  positivity

theorem foldl_round53_mono (factors : List ℕ) {m n : ℕ} (h : m ≤ n) :
    factors.foldl (fun n factor => round53 (n * factor)) m ≤
      factors.foldl (fun n factor => round53 (n * factor)) n := by
  induction factors generalizing m n with
  | nil => exact h
  | cons factor factors ih => exact ih (round53_mono (Nat.mul_le_mul_right factor h))

theorem mulTruncs_mono {v w : ℤ} (hv : 0 ≤ v) (h : v ≤ w) (c : Const) (factors : List ℕ) :
    mulTruncs v c factors ≤ mulTruncs w c factors := by
  rcases hv.eq_or_lt with rfl | hpos
  · rw [mulTruncs, Int.sign_zero, zero_mul]
    exact mulTruncs_nonneg h c factors
  · have habs : v.natAbs ≤ w.natAbs := by omega
    have hprod := round53_mono (Nat.mul_le_mul_right c.num (round53_mono habs))
    have hfactors := foldl_round53_mono factors hprod
    unfold mulTruncs
    rw [Int.sign_eq_one_of_pos hpos, Int.sign_eq_one_of_pos (by omega), one_mul, one_mul]
    exact_mod_cast Nat.div_le_div_right hfactors

/-- Halving the constant does not raise the product. -/
theorem mulTrunc_le_of_exponent {v : ℤ} (hv : 0 ≤ v) (num : ℕ) {k k' : ℕ} (h : k ≤ k') :
    mulTrunc v ⟨num, k'⟩ ≤ mulTrunc v ⟨num, k⟩ := by
  have hdiv : round53 (round53 v.natAbs * num) / 2 ^ k' ≤ round53 (round53 v.natAbs * num) / 2 ^ k :=
    Nat.div_le_div_left (Nat.pow_le_pow_right (by norm_num) h) (by positivity)
  unfold mulTrunc
  exact mul_le_mul_of_nonneg_left (by exact_mod_cast hdiv) (Int.sign_nonneg_iff.mpr hv)

example : mulTrunc 3000000000 ⟨3602879701896397, 53⟩ = 1200000000 := by decide

end Binary64
