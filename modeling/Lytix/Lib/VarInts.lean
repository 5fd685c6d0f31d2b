import Lytix.Lib.Readers

/-! Variable-length numbers: digits to the base 128, the most significant one first. All digits
but the last have the high bit, and one is subtracted from them, so that the encoding is
one-to-one. -/
namespace VarInts

open Readers

/-- The digits of a number that another digit follows. -/
def more (n : ℕ) : List UInt8 :=
  (if 127 < n then more (n / 128 - 1) else []) ++ [UInt8.ofNat (n % 128 + 128)]
termination_by n
decreasing_by omega

def write (n : ℕ) : List UInt8 :=
  (if 127 < n then more (n / 128 - 1) else []) ++ [UInt8.ofNat (n % 128)]

def size (n : ℕ) : ℕ := if 127 < n then size (n / 128 - 1) + 1 else 1
termination_by n
decreasing_by omega

/-- The loop that reads digits, to a number of `w` bits. -/
def readFrom (w : ℕ) (n : ℕ) : List UInt8 → Option (ℕ × List UInt8)
  | [] => none
  | digit :: rest =>
    let n := (n * 128 + digit.toNat % 128) % 2 ^ w
    if 128 ≤ digit.toNat then readFrom w ((n + 1) % 2 ^ w) rest else some (n, rest)

def read (w : ℕ) : Reader UInt8 ℕ := fun digits => readFrom w 0 digits

theorem length_more (n : ℕ) : (more n).length = size n := by
  induction n using Nat.strong_induction_on with
  | h n ih =>
    rw [more, size, List.length_append, List.length_singleton]
    split_ifs with hlarge
    · rw [ih (n / 128 - 1) (by omega)]
    · rfl

theorem length_write (n : ℕ) : (write n).length = size n := by
  rw [write, size, List.length_append, List.length_singleton]
  split_ifs
  · rw [length_more]
  · rfl

theorem readFrom_digit {w n d : ℕ} (rest : List UInt8) (hd : d < 128)
    (hn : n * 128 + d < 2 ^ w) :
    readFrom w n (UInt8.ofNat d :: rest) = some (n * 128 + d, rest) := by
  have hdigit : (UInt8.ofNat d).toNat = d := by
    rw [UInt8.toNat_ofNat']
    omega
  rw [readFrom, hdigit]
  rw [if_neg (by omega), Nat.mod_eq_of_lt hd, Nat.mod_eq_of_lt hn]

theorem readFrom_digit_more {w n d : ℕ} (rest : List UInt8) (hd : d < 128)
    (hn : n * 128 + d + 1 < 2 ^ w) :
    readFrom w n (UInt8.ofNat (d + 128) :: rest) = readFrom w (n * 128 + d + 1) rest := by
  have hdigit : (UInt8.ofNat (d + 128)).toNat = d + 128 := by
    rw [UInt8.toNat_ofNat']
    omega
  have hmod : (d + 128) % 128 = d := by omega
  rw [readFrom, hdigit]
  rw [if_pos (by omega), hmod, Nat.mod_eq_of_lt (by omega : n * 128 + d < 2 ^ w),
    Nat.mod_eq_of_lt hn]

theorem readFrom_more {w n : ℕ} (rest : List UInt8) (hn : n + 1 < 2 ^ w) :
    readFrom w 0 (more n ++ rest) = readFrom w (n + 1) rest := by
  induction n using Nat.strong_induction_on generalizing rest with
  | h n ih =>
    rw [more]
    by_cases hlarge : 127 < n
    · have hhead : n / 128 - 1 + 1 = n / 128 := by omega
      rw [if_pos hlarge, List.append_assoc, ih (n / 128 - 1) (by omega) _ (by omega), hhead,
        List.singleton_append, readFrom_digit_more rest (by omega) (by omega)]
      congr 1
      omega
    · rw [if_neg hlarge, List.nil_append, List.singleton_append,
        readFrom_digit_more rest (by omega) (by omega)]
      congr 1
      omega

/-- Numbers of `w` bits are read back. -/
theorem reads_write {w n : ℕ} (hn : n < 2 ^ w) : Reads (read w) (write n) n := by
  intro rest
  change readFrom w 0 (write n ++ rest) = some (n, rest)
  rw [write]
  by_cases hlarge : 127 < n
  · have hhead : n / 128 - 1 + 1 = n / 128 := by omega
    rw [if_pos hlarge, List.append_assoc, readFrom_more _ (by omega), hhead,
      List.singleton_append, readFrom_digit rest (by omega) (by omega)]
    congr 2
    omega
  · rw [if_neg hlarge, List.nil_append, List.singleton_append,
      readFrom_digit rest (by omega) (by omega)]
    congr 2
    omega

theorem write_of_le {n : ℕ} (hn : n ≤ 127) : write n = [UInt8.ofNat n] := by
  rw [write, if_neg (by omega), List.nil_append, Nat.mod_eq_of_lt (by omega)]

/-- The sizes of numbers of 32 bits. -/
theorem size_eq {n : ℕ} (hn : n < 2 ^ 32) : size n =
    1 + (if 127 < n then 1 else 0) + (if 16511 < n then 1 else 0) +
      (if 2113663 < n then 1 else 0) + (if 270549119 < n then 1 else 0) := by
  have step (m : ℕ) : size m = if 127 < m then size (m / 128 - 1) + 1 else 1 := by rw [size]
  rw [step n, step (n / 128 - 1), step ((n / 128 - 1) / 128 - 1),
    step (((n / 128 - 1) / 128 - 1) / 128 - 1),
    step ((((n / 128 - 1) / 128 - 1) / 128 - 1) / 128 - 1)]
  split_ifs <;> omega

/-- The digits of one number: all but the last have the high bit. -/
inductive Complete : List UInt8 → Prop
  | last {digit : UInt8} : digit.toNat < 128 → Complete [digit]
  | more {digit : UInt8} {digits : List UInt8} :
    128 ≤ digit.toNat → Complete digits → Complete (digit :: digits)

/-- The number that digits denote, however large it is. -/
def denoted : List UInt8 → ℕ
  | [] => 0
  | [digit] => digit.toNat % 128
  | digit :: digits => 128 ^ digits.length * (digit.toNat % 128 + 1) + denoted digits

theorem Complete.ne_nil {digits : List UInt8} (h : Complete digits) : digits ≠ [] := by
  cases h <;> simp

theorem denoted_cons (digit : UInt8) {digits : List UInt8} (h : Complete digits) :
    denoted (digit :: digits) =
      128 ^ digits.length * (digit.toNat % 128 + 1) + denoted digits := by
  obtain ⟨head, tail, rfl⟩ := List.exists_cons_of_ne_nil h.ne_nil
  rfl

/-- The loop reads the digits of one number, and wraps it. -/
theorem readFrom_complete {w : ℕ} {digits : List UInt8} (h : Complete digits) (n : ℕ)
    (rest : List UInt8) : readFrom w n (digits ++ rest) =
      some ((n * 128 ^ digits.length + denoted digits) % 2 ^ w, rest) := by
  induction h generalizing n with
  | @last digit hdigit =>
    rw [List.singleton_append, readFrom, if_neg (by omega), List.length_singleton, pow_one]
    rfl
  | @more digit digits hdigit hdigits ih =>
    have hwrapped : ((n * 128 + digit.toNat % 128) % 2 ^ w + 1) % 2 ^ w =
        (n * 128 + digit.toNat % 128 + 1) % 2 ^ w := Nat.mod_add_mod _ _ _
    rw [List.cons_append, readFrom, if_pos hdigit, ih, hwrapped]
    have hmod : ((n * 128 + digit.toNat % 128 + 1) % 2 ^ w * 128 ^ digits.length +
        denoted digits) % 2 ^ w = ((n * 128 + digit.toNat % 128 + 1) * 128 ^ digits.length +
        denoted digits) % 2 ^ w :=
      ((Nat.mod_modEq _ _).mul_right _).add_right _
    rw [hmod, denoted_cons digit hdigits, List.length_cons]
    congr 3
    ring

/-- The loop ends only behind the digits of one number. -/
theorem complete_of_readFrom {w n m : ℕ} {digits rest : List UInt8}
    (h : readFrom w n digits = some (m, rest)) :
    ∃ number, Complete number ∧ digits = number ++ rest := by
  induction digits generalizing n with
  | nil => simp [readFrom] at h
  | cons digit digits ih =>
    rw [readFrom] at h
    split_ifs at h with hmore
    · obtain ⟨number, hnumber, rfl⟩ := ih h
      exact ⟨digit :: number, hnumber.more hmore, rfl⟩
    · simp only [Option.some.injEq, Prod.mk.injEq] at h
      exact ⟨[digit], .last (by omega), by simp [h.2]⟩

/-- What is read is what the digits of one number denote, up to a multiple of the range. -/
theorem run_read_iff {w m : ℕ} {digits rest : List UInt8} :
    (read w).run digits = some (m, rest) ↔
      ∃ number, Complete number ∧ digits = number ++ rest ∧ m = denoted number % 2 ^ w := by
  constructor
  · intro hrun
    obtain ⟨number, hnumber, rfl⟩ := complete_of_readFrom hrun
    have hread := (readFrom_complete (w := w) hnumber 0 rest).symm.trans hrun
    simp only [zero_mul, zero_add, Option.some.injEq, Prod.mk.injEq, and_true] at hread
    exact ⟨number, hnumber, rfl, hread.symm⟩
  · rintro ⟨number, hnumber, rfl, rfl⟩
    have hread := readFrom_complete (w := w) hnumber 0 rest
    rw [zero_mul, zero_add] at hread
    exact hread

/-- Digits to the base 128 bound the size. -/
theorem size_le {n k : ℕ} (h : n < 128 ^ (k + 1)) : size n ≤ k + 1 := by
  induction k generalizing n with
  | zero =>
    rw [size, if_neg (by omega)]
  | succ k ih =>
    have hpow : 128 ^ (k + 1 + 1) = 128 ^ (k + 1) * 128 := pow_succ 128 (k + 1)
    rw [size]
    split_ifs with hlarge
    · have hsize := ih (n := n / 128 - 1) (by omega)
      omega
    · omega

end VarInts
