import Mathlib.Data.Nat.Bitwise
import Mathlib.Tactic

/-! Tables of bits in bytes, the lowest bit of a byte first. -/
namespace BitTables

def bit (bytes : List UInt8) (i : ℕ) : Bool := (bytes.getD (i / 8) 0).toNat.testBit (i % 8)

def setBit (bytes : List UInt8) (i : ℕ) : List UInt8 :=
  bytes.set (i / 8) (bytes.getD (i / 8) 0 ||| UInt8.ofNat (2 ^ (i % 8)))

variable {bytes : List UInt8} {i j : ℕ} {positions : List ℕ}

@[simp] theorem length_setBit : (setBit bytes i).length = bytes.length := List.length_set

theorem testBit_or (byte : UInt8) {k : ℕ} (hk : k < 8) (j : ℕ) :
    (byte ||| UInt8.ofNat (2 ^ k)).toNat.testBit j = (decide (j = k) || byte.toNat.testBit j) := by
  have hlt : 2 ^ k < 256 := Nat.pow_lt_pow_right (by omega) hk
  rw [UInt8.toNat_or, UInt8.toNat_ofNat_of_lt' hlt, Nat.testBit_or, Nat.testBit_two_pow,
    Bool.or_comm]
  simp [eq_comm]

/-- A byte is tested with a mask. -/
theorem and_eq_zero_iff (byte : UInt8) {k : ℕ} (hk : k < 8) :
    byte &&& UInt8.ofNat (2 ^ k) = 0 ↔ byte.toNat.testBit k = false := by
  have hlt : 2 ^ k < 256 := Nat.pow_lt_pow_right (by omega) hk
  rw [← UInt8.toNat_inj, UInt8.toNat_and, UInt8.toNat_ofNat_of_lt' hlt, Nat.and_two_pow]
  cases byte.toNat.testBit k <;> simp

/-- A bit is set, and the others stay. -/
theorem bit_setBit (hi : i < 8 * bytes.length) :
    bit (setBit bytes i) j = (decide (j = i) || bit bytes j) := by
  have hbyte : i / 8 < bytes.length := by omega
  unfold bit setBit
  by_cases hsame : j / 8 = i / 8
  · have hget : (bytes.set (i / 8) (bytes.getD (i / 8) 0 ||| UInt8.ofNat (2 ^ (i % 8)))).getD
        (j / 8) 0 = bytes.getD (i / 8) 0 ||| UInt8.ofNat (2 ^ (i % 8)) := by
      simp [List.getD, hsame, hbyte]
    have hindex : decide (j % 8 = i % 8) = decide (j = i) := by
      apply decide_eq_decide.mpr
      omega
    rw [hget, testBit_or _ (Nat.mod_lt i (by omega)), hindex, hsame]
  · have hget : (bytes.set (i / 8) (bytes.getD (i / 8) 0 ||| UInt8.ofNat (2 ^ (i % 8)))).getD
        (j / 8) 0 = bytes.getD (j / 8) 0 := by
      simp [List.getD, List.getElem?_set_ne (Ne.symm hsame)]
    have hne : j ≠ i := by
      rintro rfl
      exact hsame rfl
    rw [hget]
    simp [hne]

/-- Some bits are set, one after the other. -/
theorem bit_foldl_setBit (h : ∀ i ∈ positions, i < 8 * bytes.length) :
    bit (positions.foldl setBit bytes) j = (decide (j ∈ positions) || bit bytes j) := by
  induction positions generalizing bytes with
  | nil => simp
  | cons i positions ih =>
    have hrest : ∀ k ∈ positions, k < 8 * (setBit bytes i).length := by
      intro k hk
      rw [length_setBit]
      exact h k (List.mem_cons_of_mem i hk)
    rw [List.foldl_cons, ih hrest, bit_setBit (h i List.mem_cons_self)]
    simp only [List.mem_cons, Bool.decide_or]
    cases decide (j = i) <;> cases decide (j ∈ positions) <;> rfl

@[simp] theorem length_foldl_setBit : (positions.foldl setBit bytes).length = bytes.length := by
  induction positions generalizing bytes with
  | nil => rfl
  | cons i positions ih => rw [List.foldl_cons, ih, length_setBit]

end BitTables
