import Mathlib.Data.Nat.Digits.Lemmas
import Mathlib.Tactic

/-! Numbers by their digits in a base, the highest digit first, and the loop that converts them
from one base to another in a buffer of fixed length. -/
namespace Radix

def value (base : ℕ) (digits : List ℕ) : ℕ := Nat.ofDigits base digits.reverse

/-- The digits of a number, with no zeros in front. -/
def shortest (base n : ℕ) : List ℕ := (Nat.digits base n).reverse

/-- Multiply what is in a buffer by a factor and add to it, from the last digit to the first. The
second component is the carry that is left. -/
def multiplyAdd (base factor : ℕ) (buffer : List ℕ) (carry : ℕ) : List ℕ × ℕ :=
  buffer.foldr (fun digit (done, carry) =>
    ((carry + factor * digit) % base :: done, (carry + factor * digit) / base)) ([], carry)

/-- Convert digits in the base `factor`, as long as no carry is left. -/
def convert (base factor : ℕ) (buffer : List ℕ) : List ℕ → Option (List ℕ)
  | [] => some buffer
  | digit :: digits =>
    let (buffer, carry) := multiplyAdd base factor buffer digit
    if carry = 0 then convert base factor buffer digits else none

variable {base factor : ℕ} {buffer digits : List ℕ}

@[simp] theorem value_nil : value base [] = 0 := rfl

theorem value_cons (digit : ℕ) (digits : List ℕ) :
    value base (digit :: digits) = value base digits + base ^ digits.length * digit := by
  unfold value
  rw [List.reverse_cons, Nat.ofDigits_append, Nat.ofDigits_singleton, List.length_reverse]

theorem value_concat (digits : List ℕ) (digit : ℕ) :
    value base (digits ++ [digit]) = value base digits * base + digit := by
  unfold value
  rw [List.reverse_append, List.reverse_singleton, List.singleton_append, Nat.ofDigits_cons]
  ring

/-- So many digits of one number are the same. -/
theorem eq_of_value_eq {digits' : List ℕ} (hbase : 1 < base)
    (hlength : digits.length = digits'.length) (h : ∀ digit ∈ digits, digit < base)
    (h' : ∀ digit ∈ digits', digit < base) (hvalue : value base digits = value base digits') :
    digits = digits' := by
  apply List.reverse_injective
  apply Nat.ofDigits_inj_of_len_eq hbase
  · rw [List.length_reverse, List.length_reverse, hlength]
  · exact fun digit hmem => h digit (List.mem_reverse.mp hmem)
  · exact fun digit hmem => h' digit (List.mem_reverse.mp hmem)
  · exact hvalue

theorem value_shortest (n : ℕ) : value base (shortest base n) = n := by
  unfold value shortest
  rw [List.reverse_reverse, Nat.ofDigits_digits]

theorem shortest_lt (hbase : 1 < base) {n digit : ℕ} (h : digit ∈ shortest base n) :
    digit < base :=
  Nat.digits_lt_base hbase (List.mem_reverse.mp h)

theorem head?_shortest (n : ℕ) : (shortest base n).head? ≠ some 0 := by
  unfold shortest
  rw [List.head?_reverse]
  intro hlast
  have hne : Nat.digits base n ≠ [] := by
    intro hnil
    rw [hnil] at hlast
    contradiction
  rw [List.getLast?_eq_some_getLast hne, Option.some.injEq] at hlast
  have hn : n ≠ 0 := Nat.digits_ne_nil_iff_ne_zero.mp hne
  exact Nat.getLast_digit_ne_zero base hn hlast

/-- Digits with no zeros in front are the shortest of their number. -/
theorem shortest_value (hbase : 1 < base) (h : ∀ digit ∈ digits, digit < base)
    (hhead : digits.head? ≠ some 0) : shortest base (value base digits) = digits := by
  have hdigits : Nat.digits base (value base digits) = digits.reverse := by
    apply Nat.digits_ofDigits base hbase
    · intro digit hmem
      exact h digit (List.mem_reverse.mp hmem)
    · intro hne hzero
      apply hhead
      have hlast := List.getLast?_eq_some_getLast hne
      rw [List.getLast?_reverse, hzero] at hlast
      exact hlast
  unfold shortest
  rw [hdigits, List.reverse_reverse]

/-- Zeros in front do not count: without them the digits are the shortest. -/
theorem dropWhile_zero (hbase : 1 < base) (h : ∀ digit ∈ digits, digit < base) :
    digits.dropWhile (· == 0) = shortest base (value base digits) := by
  induction digits with
  | nil => simp [shortest]
  | cons digit digits ih =>
    by_cases hzero : digit = 0
    · have hrest := ih fun digit hmem => h digit (List.mem_cons_of_mem _ hmem)
      rw [List.dropWhile_cons_of_pos (by simpa using hzero), hrest, value_cons, hzero, mul_zero,
        add_zero]
    · rw [List.dropWhile_cons_of_neg (by simpa using hzero), shortest_value hbase h]
      simpa using hzero

theorem multiplyAdd_cons (digit carry : ℕ) : multiplyAdd base factor (digit :: buffer) carry =
    (((multiplyAdd base factor buffer carry).2 + factor * digit) % base ::
      (multiplyAdd base factor buffer carry).1,
    ((multiplyAdd base factor buffer carry).2 + factor * digit) / base) := rfl

theorem convert_cons (digit : ℕ) : convert base factor buffer (digit :: digits) =
    if (multiplyAdd base factor buffer digit).2 = 0 then
      convert base factor (multiplyAdd base factor buffer digit).1 digits
    else none := rfl

@[simp] theorem length_multiplyAdd (carry : ℕ) :
    (multiplyAdd base factor buffer carry).1.length = buffer.length := by
  induction buffer with
  | nil => rfl
  | cons digit buffer ih => rw [multiplyAdd_cons, List.length_cons, ih, List.length_cons]

theorem multiplyAdd_lt (hbase : 1 < base) (carry : ℕ) :
    ∀ digit ∈ (multiplyAdd base factor buffer carry).1, digit < base := by
  induction buffer with
  | nil => simp [multiplyAdd]
  | cons digit buffer ih =>
    rw [multiplyAdd_cons]
    intro other hmem
    rcases List.mem_cons.mp hmem with rfl | hrest
    · exact Nat.mod_lt _ (by omega)
    · exact ih other hrest

/-- With the carry that is left in front, the number is the product and the sum. -/
theorem value_multiplyAdd (carry : ℕ) :
    value base (multiplyAdd base factor buffer carry).1 +
      base ^ buffer.length * (multiplyAdd base factor buffer carry).2 =
    value base buffer * factor + carry := by
  induction buffer with
  | nil => simp [multiplyAdd]
  | cons digit buffer ih =>
    have hparts := Nat.mod_add_div
      ((multiplyAdd base factor buffer carry).2 + factor * digit) base
    rw [multiplyAdd_cons, value_cons, value_cons, length_multiplyAdd, List.length_cons, pow_succ]
    linear_combination ih + (base : ℕ) ^ buffer.length * hparts

/-- In a buffer that has room for the number no carry is left. -/
theorem multiplyAdd_of_lt {carry : ℕ} (h : value base buffer * factor + carry <
    base ^ buffer.length) : (multiplyAdd base factor buffer carry).2 = 0 ∧
    value base (multiplyAdd base factor buffer carry).1 = value base buffer * factor + carry := by
  have hvalue := @value_multiplyAdd base factor buffer carry
  have hzero : (multiplyAdd base factor buffer carry).2 = 0 := by
    by_contra hne
    have hle := Nat.le_mul_of_pos_right (base ^ buffer.length) (Nat.pos_of_ne_zero hne)
    omega
  rw [hzero, mul_zero, add_zero] at hvalue
  exact ⟨hzero, hvalue⟩

/-- What a buffer must have room for, that digits of the base `factor` can follow. -/
def HasRoom (base factor count : ℕ) (buffer : List ℕ) : Prop :=
  (value base buffer + 1) * factor ^ count ≤ base ^ buffer.length

/-- One digit is taken in, and there is room for the others. -/
theorem HasRoom.step {count digit : ℕ} (h : HasRoom base factor (count + 1) buffer)
    (hdigit : digit < factor) :
    (multiplyAdd base factor buffer digit).2 = 0 ∧
    value base (multiplyAdd base factor buffer digit).1 = value base buffer * factor + digit ∧
    HasRoom base factor count (multiplyAdd base factor buffer digit).1 := by
  unfold HasRoom at h
  have hpow : 0 < factor ^ count := pow_pos (by omega) count
  have hsum : value base buffer * factor + digit + 1 ≤ (value base buffer + 1) * factor := by
    rw [add_mul, one_mul]
    omega
  have htotal : (value base buffer * factor + digit + 1) * factor ^ count ≤
      base ^ buffer.length := by
    calc (value base buffer * factor + digit + 1) * factor ^ count
        ≤ (value base buffer + 1) * factor * factor ^ count := Nat.mul_le_mul_right _ hsum
      _ = (value base buffer + 1) * factor ^ (count + 1) := by ring
      _ ≤ base ^ buffer.length := h
  have hle := Nat.le_mul_of_pos_right (value base buffer * factor + digit + 1) hpow
  obtain ⟨hcarry, hvalue⟩ := @multiplyAdd_of_lt base factor buffer digit (by omega)
  refine ⟨hcarry, hvalue, ?_⟩
  unfold HasRoom
  rw [hvalue, length_multiplyAdd]
  exact htotal

/-- In a buffer with room for them all digits are converted. -/
theorem convert_eq (hbase : 1 < base) (hroom : HasRoom base factor digits.length buffer)
    (hbuffer : ∀ digit ∈ buffer, digit < base) (h : ∀ digit ∈ digits, digit < factor) :
    ∃ result, convert base factor buffer digits = some result ∧
      (∀ digit ∈ result, digit < base) ∧
      value base result = value base buffer * factor ^ digits.length + value factor digits := by
  induction digits generalizing buffer with
  | nil => exact ⟨buffer, rfl, hbuffer, by simp⟩
  | cons digit digits ih =>
    obtain ⟨hcarry, hvalue, hrest⟩ := hroom.step (h digit List.mem_cons_self)
    obtain ⟨result, hresult, hlt, hsum⟩ := ih hrest (multiplyAdd_lt hbase digit)
      fun digit hmem => h digit (List.mem_cons_of_mem _ hmem)
    refine ⟨result, ?_, hlt, ?_⟩
    · rw [convert_cons, if_pos hcarry, hresult]
    · rw [hsum, hvalue, value_cons, List.length_cons]
      ring

@[simp] theorem value_replicate_zero (size : ℕ) : value base (List.replicate size 0) = 0 := by
  unfold value
  rw [List.reverse_replicate, Nat.ofDigits_replicate_zero]

/-- The digits of one base fit the buffer of another when their counts are in proportion. -/
theorem hasRoom_replicate {p q count size : ℕ} (hbase : 1 < base)
    (hratio : factor ^ q ≤ base ^ p) (hsize : p * count ≤ q * size) (hq : q ≠ 0) :
    HasRoom base factor count (List.replicate size 0) := by
  have hpow : (factor ^ count) ^ q ≤ (base ^ size) ^ q := by
    calc (factor ^ count) ^ q = (factor ^ q) ^ count := pow_right_comm factor count q
      _ ≤ (base ^ p) ^ count := Nat.pow_le_pow_left hratio count
      _ = base ^ (p * count) := (pow_mul base p count).symm
      _ ≤ base ^ (q * size) := Nat.pow_le_pow_right (by omega) hsize
      _ = (base ^ size) ^ q := by rw [mul_comm, pow_mul]
  unfold HasRoom
  rw [value_replicate_zero, zero_add, one_mul, List.length_replicate]
  exact (Nat.pow_le_pow_iff_left hq).mp hpow

end Radix
