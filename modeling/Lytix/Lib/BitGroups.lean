import Lytix.Lib.Radix

/-! The bits of digits of one width, the highest bit first, cut into digits of another width. -/
namespace BitGroups

open Radix

/-- The digits of `a` bits in `read` have the bits of the digits of `b` bits in `written`, and
`r` bits behind them that make the number `left`. -/
structure Regroups (a b : ℕ) (read written : List ℕ) (r left : ℕ) : Prop where
  length : a * read.length = b * written.length + r
  value : value (2 ^ a) read = value (2 ^ b) written * 2 ^ r + left
  left_lt : left < 2 ^ r
  read_lt : ∀ digit ∈ read, digit < 2 ^ a
  written_lt : ∀ digit ∈ written, digit < 2 ^ b

namespace Regroups
variable {a b : ℕ} {read read' written written' : List ℕ} {r r' left left' : ℕ}

theorem nil (a b : ℕ) : Regroups a b [] [] 0 0 := ⟨rfl, by simp, by simp, by simp, by simp⟩

/-- One more digit is read. -/
theorem take (h : Regroups a b read written r left) {digit : ℕ} (hdigit : digit < 2 ^ a) :
    Regroups a b (read ++ [digit]) written (r + a) (left * 2 ^ a + digit) where
  length := by
    have hlength := h.length
    rw [List.length_append, List.length_singleton, mul_add, mul_one]
    omega
  value := by
    rw [value_concat, h.value]
    ring
  left_lt := by
    have hle : (left + 1) * 2 ^ a ≤ 2 ^ r * 2 ^ a := Nat.mul_le_mul_right _ h.left_lt
    rw [pow_add]
    linarith
  read_lt := by
    intro other hother
    rcases List.mem_append.mp hother with hmem | hmem
    · exact h.read_lt other hmem
    · rwa [List.mem_singleton.mp hmem]
  written_lt := h.written_lt

/-- The first bits of those that are left are written as a digit. -/
theorem emit (h : Regroups a b read written (b + r) left) :
    Regroups a b read (written ++ [left / 2 ^ r]) r (left % 2 ^ r) where
  length := by
    have hlength := h.length
    rw [List.length_append, List.length_singleton, mul_add, mul_one]
    omega
  value := by
    have hparts := Nat.div_add_mod' left (2 ^ r)
    rw [value_concat, h.value, pow_add]
    linear_combination -hparts
  left_lt := Nat.mod_lt _ (by positivity)
  read_lt := h.read_lt
  written_lt := by
    intro other hother
    rcases List.mem_append.mp hother with hmem | hmem
    · exact h.written_lt other hmem
    · rw [List.mem_singleton.mp hmem]
      apply Nat.div_lt_of_lt_mul
      rw [← pow_add, Nat.add_comm]
      exact h.left_lt

/-- Fewer bits than a digit has are left, so both the digits and these bits are determined. -/
theorem written_unique (h : Regroups a b read written r left)
    (h' : Regroups a b read written' r' left') (hr : r < b) (hr' : r' < b) :
    written = written' ∧ r = r' ∧ left = left' := by
  have hlength : b * written.length + r = b * written'.length + r' :=
    h.length.symm.trans h'.length
  have hcount : written.length = written'.length := by
    have hdiv := congrArg (· / b) hlength
    simpa [Nat.mul_add_div (by omega : 0 < b), Nat.div_eq_of_lt hr, Nat.div_eq_of_lt hr'] using hdiv
  have hbits : r = r' := by
    rw [hcount] at hlength
    omega
  subst hbits
  have hsum := h.value.symm.trans h'.value
  have hleft : left = left' := by
    have hmod := congrArg (· % 2 ^ r) hsum
    simpa [Nat.mul_add_mod', Nat.mod_eq_of_lt h.left_lt, Nat.mod_eq_of_lt h'.left_lt] using hmod
  have hvalue : Radix.value (2 ^ b) written = Radix.value (2 ^ b) written' := by
    rw [hleft] at hsum
    exact Nat.eq_of_mul_eq_mul_right (by positivity) (Nat.add_right_cancel hsum)
  have hbase : 1 < 2 ^ b := Nat.one_lt_two_pow (by omega)
  exact ⟨eq_of_value_eq hbase hcount h.written_lt h'.written_lt hvalue, rfl, hleft⟩

/-- The digits that were read are determined by what was written and by the bits that are left,
when these are fewer than a digit has. -/
theorem read_unique (h : Regroups a b read written r left)
    (h' : Regroups a b read' written r' left) (hr : r < a) (hr' : r' < a) :
    read = read' ∧ r = r' := by
  have hlength := h.length
  have hlength' := h'.length
  have hcount : read.length = read'.length := by
    by_contra hne
    rcases Nat.lt_or_gt_of_ne hne with hlt | hgt
    · have hle := Nat.mul_le_mul_left a hlt
      rw [Nat.mul_succ] at hle
      omega
    · have hle := Nat.mul_le_mul_left a hgt
      rw [Nat.mul_succ] at hle
      omega
  have hbits : r = r' := by
    rw [hcount] at hlength
    omega
  subst hbits
  have hbase : 1 < 2 ^ a := Nat.one_lt_two_pow (by omega)
  exact ⟨eq_of_value_eq hbase hcount h.read_lt h'.read_lt (h.value.trans h'.value.symm), rfl⟩

/-- With zeros behind them the bits that are left fill a digit. What is written then has these
zeros behind the bits that were read. -/
theorem fill (h : Regroups a b read written r left) (hr : r ≤ b) :
    Regroups b a (written ++ [left * 2 ^ (b - r)]) read (b - r) 0 where
  length := by
    have hlength := h.length
    rw [List.length_append, List.length_singleton, mul_add, mul_one]
    omega
  value := by
    have hpow : (2 : ℕ) ^ b = 2 ^ r * 2 ^ (b - r) := by rw [← pow_add, Nat.add_sub_cancel' hr]
    rw [value_concat, h.value, hpow]
    ring
  left_lt := by positivity
  read_lt := by
    intro other hother
    rcases List.mem_append.mp hother with hmem | hmem
    · exact h.written_lt other hmem
    · rw [List.mem_singleton.mp hmem]
      calc left * 2 ^ (b - r) < 2 ^ r * 2 ^ (b - r) :=
            Nat.mul_lt_mul_of_pos_right h.left_lt (by positivity)
        _ = 2 ^ b := by rw [← pow_add, Nat.add_sub_cancel' hr]
  written_lt := h.read_lt

/-- With no bits left the digits can be read the other way. -/
theorem symm (h : Regroups a b read written 0 0) : Regroups b a written read 0 0 :=
  ⟨h.length.symm, by simpa using h.value.symm, h.left_lt, h.written_lt, h.read_lt⟩

end Regroups

/-- Bits next to each other do not overlap. -/
theorem or_eq_add {x y i : ℕ} (h : y < 2 ^ i) : x * 2 ^ i ||| y = x * 2 ^ i + y := by
  rw [← Nat.shiftLeft_eq, Nat.shiftLeft_add_eq_or_of_lt h]

/-- The highest bits of a digit, behind others. -/
theorem or_shiftRight {x y i j : ℕ} (h : y < 2 ^ (i + j)) :
    x * 2 ^ i ||| y >>> j = (x * 2 ^ (i + j) + y) / 2 ^ j := by
  have hhigh : y / 2 ^ j < 2 ^ i := by
    apply Nat.div_lt_of_lt_mul
    rwa [← pow_add, Nat.add_comm]
  rw [Nat.shiftRight_eq_div_pow, or_eq_add hhigh, pow_add, ← mul_assoc, Nat.mul_comm _ (2 ^ j),
    Nat.mul_add_div (by positivity)]

/-- The lowest bits of a number. -/
theorem and_low (x i : ℕ) : x &&& 2 ^ i - 1 = x % 2 ^ i := Nat.and_two_pow_sub_one_eq_mod x i

end BitGroups
