import Lytix.Lib.Readers
import Mathlib.Data.Nat.Digits.Lemmas

/-! Numbers in a fixed count of bytes, the lowest byte first. -/
namespace LittleEndian

open Readers

def bytes (n x : ℕ) : List UInt8 := (List.range n).map fun i => UInt8.ofNat (x / 256 ^ i)

def value (digits : List UInt8) : ℕ :=
  digits.foldr (fun digit x => digit.toNat + 256 * x) 0

def read (n : ℕ) : Reader UInt8 ℕ := value <$> exactly n

@[simp] theorem length_bytes (n x : ℕ) : (bytes n x).length = n := by
  unfold bytes
  rw [List.length_map, List.length_range]

theorem bytes_succ (n x : ℕ) : bytes (n + 1) x = UInt8.ofNat x :: bytes n (x / 256) := by
  unfold bytes
  rw [List.range_succ_eq_map, List.map_cons, List.map_map, pow_zero, Nat.div_one]
  congr 1
  apply List.map_congr_left
  intro i _
  rw [Function.comp_apply, Nat.div_div_eq_div_mul, Nat.succ_eq_add_one, pow_succ']

theorem value_bytes (n x : ℕ) : value (bytes n x) = x % 256 ^ n := by
  induction n generalizing x with
  | zero =>
    rw [pow_zero, Nat.mod_one]
    rfl
  | succ n ih =>
    have hvalue : value (bytes (n + 1) x) = x % 256 + 256 * value (bytes n (x / 256)) := by
      rw [bytes_succ]
      rfl
    rw [hvalue, ih, pow_succ', Nat.mod_mul]

/-- The bytes of any number are read back, up to a multiple of their range. -/
theorem reads_bytes (n x : ℕ) : Reads (read n) (bytes n x) (x % 256 ^ n) := by
  have hexactly := reads_exactly (bytes n x)
  rw [length_bytes] at hexactly
  have hread := hexactly.map value
  rw [value_bytes] at hread
  exact hread

theorem value_nil : value [] = 0 := rfl

theorem value_cons (digit : UInt8) (digits : List UInt8) :
    value (digit :: digits) = digit.toNat + 256 * value digits := rfl

theorem value_eq_ofDigits (digits : List UInt8) :
    value digits = Nat.ofDigits 256 (digits.map UInt8.toNat) := by
  induction digits with
  | nil => rfl
  | cons digit digits ih => rw [value_cons, ih, List.map_cons, Nat.ofDigits_cons]

theorem value_append (low high : List UInt8) :
    value (low ++ high) = value low + 256 ^ low.length * value high := by
  rw [value_eq_ofDigits, value_eq_ofDigits, value_eq_ofDigits, List.map_append,
    Nat.ofDigits_append, List.length_map]

theorem value_singleton (digit : UInt8) : value [digit] = digit.toNat := rfl

theorem value_lt (digits : List UInt8) : value digits < 256 ^ digits.length := by
  rw [value_eq_ofDigits, ← List.length_map UInt8.toNat]
  apply Nat.ofDigits_lt_base_pow_length (by omega)
  intro digit hdigit
  obtain ⟨byte, _, rfl⟩ := List.mem_map.mp hdigit
  exact byte.toNat_lt

/-- Bytes are those of their number. -/
theorem bytes_value (digits : List UInt8) : bytes digits.length (value digits) = digits := by
  induction digits with
  | nil => rfl
  | cons digit digits ih =>
    have hlow : UInt8.ofNat (digit.toNat + 256 * value digits) = digit := by
      rw [← UInt8.toNat_inj, UInt8.toNat_ofNat']
      have hlt := digit.toNat_lt
      omega
    have hhigh : (digit.toNat + 256 * value digits) / 256 = value digits := by
      have hlt := digit.toNat_lt
      omega
    rw [List.length_cons, bytes_succ, value_cons, hlow, hhigh, ih]

/-- What a reader of numbers accepts is the bytes of the number. -/
theorem eq_bytes_of_read {n x : ℕ} {symbols rest : List UInt8}
    (h : (read n).run symbols = some (x, rest)) : symbols = bytes n x ++ rest ∧ x < 256 ^ n := by
  unfold read at h
  rw [StateT.run_map] at h
  by_cases hshort : symbols.length < n
  · have hnone : (exactly n).run symbols = none := if_pos hshort
    rw [hnone] at h
    contradiction
  · have hsome : (exactly n).run symbols = some (symbols.take n, symbols.drop n) := if_neg hshort
    rw [hsome] at h
    obtain ⟨rfl, rfl⟩ := Prod.mk.inj (Option.some.inj h)
    have hlength : (symbols.take n).length = n := by
      rw [List.length_take]
      omega
    have hbytes := bytes_value (symbols.take n)
    have hlt := value_lt (symbols.take n)
    rw [hlength] at hbytes hlt
    exact ⟨by rw [hbytes, List.take_append_drop], hlt⟩

/-- The shortest bytes of a number. -/
def shortest (x : ℕ) : List UInt8 := (Nat.digits 256 x).map UInt8.ofNat

theorem map_toNat_shortest (x : ℕ) : (shortest x).map UInt8.toNat = Nat.digits 256 x := by
  have hsame : ∀ digit ∈ Nat.digits 256 x, (UInt8.toNat ∘ UInt8.ofNat) digit = id digit := by
    intro digit hdigit
    have hlt : digit < 256 := Nat.digits_lt_base (by omega) hdigit
    exact UInt8.toNat_ofNat_of_lt' hlt
  unfold shortest
  rw [List.map_map, List.map_congr_left hsame, List.map_id]

theorem value_shortest (x : ℕ) : value (shortest x) = x := by
  rw [value_eq_ofDigits, map_toNat_shortest, Nat.ofDigits_digits]

/-- Bytes whose highest one is not zero are the shortest of their number. -/
theorem shortest_value {digits : List UInt8} (h : digits.getLast? ≠ some 0) :
    shortest (value digits) = digits := by
  have hdigits : Nat.digits 256 (value digits) = digits.map UInt8.toNat := by
    rw [value_eq_ofDigits]
    apply Nat.digits_ofDigits 256 (by omega)
    · intro digit hdigit
      obtain ⟨byte, _, rfl⟩ := List.mem_map.mp hdigit
      exact byte.toNat_lt
    · intro hne hlast
      have hbytes : digits ≠ [] := fun hnil => hne (by rw [hnil]; rfl)
      rw [List.getLast_map] at hlast
      have hzero : digits.getLast hbytes = 0 := UInt8.toNat_inj.mp hlast
      apply h
      rw [List.getLast?_eq_some_getLast hbytes, hzero]
  have hsame : ∀ byte ∈ digits, (UInt8.ofNat ∘ UInt8.toNat) byte = id byte := by
    intro byte _
    exact UInt8.ofNat_toNat
  unfold shortest
  rw [hdigits, List.map_map, List.map_congr_left hsame, List.map_id]

theorem getLast?_shortest (x : ℕ) : (shortest x).getLast? ≠ some 0 := by
  intro hlast
  obtain ⟨init, hinit⟩ := List.getLast?_eq_some_iff.mp hlast
  have hdigits := map_toNat_shortest x
  have hx : x ≠ 0 := by
    rintro rfl
    simp [shortest] at hlast
  have hne := Nat.getLast_digit_ne_zero 256 hx
  simp only [← hdigits, hinit, List.map_append] at hne
  exact hne (by simp)

end LittleEndian
