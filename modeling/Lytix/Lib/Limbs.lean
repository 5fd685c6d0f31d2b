import Mathlib.Algebra.BigOperators.Intervals
import Mathlib.Data.Nat.ModEq
import Mathlib.Tactic

/-! Numbers by their limbs in a base, the lowest limb first. -/
namespace Limbs

open Finset

/-- The number whose limb `i` counts `B ^ i`. -/
def value (B n : ℕ) (limb : ℕ → ℕ) : ℕ := ∑ i ∈ range n, limb i * B ^ i

variable {B n : ℕ} {limb limb' : ℕ → ℕ}

@[simp] theorem value_zero : value B 0 limb = 0 := rfl

theorem value_succ : value B (n + 1) limb = value B n limb + limb n * B ^ n := by
  unfold value
  rw [sum_range_succ]

theorem value_congr (h : ∀ i < n, limb i = limb' i) : value B n limb = value B n limb' := by
  unfold value
  apply sum_congr rfl
  intro i hi
  rw [h i (mem_range.mp hi)]

theorem value_lt (h : ∀ i < n, limb i < B) : value B n limb < B ^ n := by
  induction n with
  | zero => simp
  | succ n ih =>
    have hlow := ih fun i hi => h i (Nat.lt_succ_of_lt hi)
    have htop : (limb n + 1) * B ^ n ≤ B * B ^ n :=
      Nat.mul_le_mul_right _ (h n (Nat.lt_succ_self n))
    rw [value_succ, pow_succ']
    linarith

/-- One limb changes, and the number by the difference at its place. -/
theorem value_update {i x : ℕ} (hi : i < n) :
    value B n (Function.update limb i x) + limb i * B ^ i = value B n limb + x * B ^ i := by
  have hmem : i ∈ range n := mem_range.mpr hi
  have hrest : ∑ m ∈ range n \ {i}, Function.update limb i x m * B ^ m =
      ∑ m ∈ range n \ {i}, limb m * B ^ m := by
    apply sum_congr rfl
    intro m hm
    rw [Function.update_of_ne (by simpa using (mem_sdiff.mp hm).2)]
  unfold value
  rw [← sum_sdiff (singleton_subset_iff.mpr hmem), hrest, sum_singleton, Function.update_self,
    ← sum_sdiff (singleton_subset_iff.mpr hmem) (f := fun m => limb m * B ^ m), sum_singleton]
  ring

/-- The limbs above the first `m` count multiples of `B ^ m`. -/
theorem exists_value_eq_add {m : ℕ} (hm : m ≤ n) :
    ∃ high, value B n limb = value B m limb + high * B ^ m := by
  obtain ⟨j, rfl⟩ := Nat.exists_eq_add_of_le hm
  refine ⟨∑ i ∈ range j, limb (m + i) * B ^ i, ?_⟩
  unfold value
  rw [sum_range_add, sum_mul]
  congr 1
  apply sum_congr rfl
  intro i _
  ring

/-- Limbs at the top that are pushed out do not count modulo the range. -/
theorem value_mul_pow_modEq {j : ℕ} (hj : j ≤ n) :
    value B (n - j) limb * B ^ j ≡ value B n limb * B ^ j [MOD B ^ n] := by
  obtain ⟨high, hsum⟩ := @exists_value_eq_add B n limb (n - j) (Nat.sub_le n j)
  have hpow : B ^ (n - j) * B ^ j = B ^ n := by rw [← pow_add, Nat.sub_add_cancel hj]
  rw [hsum, add_mul, mul_assoc, hpow]
  exact (Nat.add_mul_mod_self_right _ _ _).symm

/-- A limb is read off the number. -/
theorem value_div_mod {i : ℕ} (hlimb : ∀ i < n, limb i < B) (hi : i < n) :
    value B n limb / B ^ i % B = limb i := by
  have hpos : 0 < B := lt_of_le_of_lt (Nat.zero_le _) (hlimb i hi)
  obtain ⟨high, hsum⟩ := @exists_value_eq_add B n limb (i + 1) hi
  have hlow := value_lt fun m hm => hlimb m (hm.trans hi)
  have hparts : value B n limb = value B i limb + B ^ i * (limb i + B * high) := by
    rw [hsum, value_succ, pow_succ]
    ring
  rw [hparts, Nat.add_mul_div_left _ _ (pow_pos hpos i), Nat.div_eq_of_lt hlow, zero_add,
    Nat.add_mul_mod_self_left, Nat.mod_eq_of_lt (hlimb i hi)]

/-- The highest limbs decide the order of two numbers where they differ. -/
theorem value_succ_lt (hlimb : ∀ i < n, limb i < B) (hlt : limb n < limb' n) :
    value B (n + 1) limb < value B (n + 1) limb' := by
  have hlow := value_lt hlimb
  have htop : (limb n + 1) * B ^ n ≤ limb' n * B ^ n := Nat.mul_le_mul_right _ hlt
  rw [value_succ, value_succ]
  calc
    value B n limb + limb n * B ^ n < B ^ n + limb n * B ^ n := Nat.add_lt_add_right hlow _
    _ = (limb n + 1) * B ^ n := by ring
    _ ≤ limb' n * B ^ n := htop
    _ ≤ value B n limb' + limb' n * B ^ n := Nat.le_add_left _ _

theorem value_div_pow_le {k : ℕ} (hlimb : ∀ i < n, limb i < B) (hk : n ≤ k) :
    value B n limb / B ^ k = 0 := by
  rcases Nat.eq_zero_or_pos n with rfl | hn
  · simp
  · have hpos : 0 < B := lt_of_le_of_lt (Nat.zero_le _) (hlimb 0 hn)
    exact Nat.div_eq_of_lt (lt_of_lt_of_le (value_lt hlimb) (Nat.pow_le_pow_right hpos hk))

end Limbs
