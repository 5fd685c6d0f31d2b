import Mathlib.Data.List.TakeWhile
import Mathlib.Data.Nat.Digits.Lemmas
import Mathlib.Data.Rat.Defs
import Mathlib.Tactic

/-! Decimal numbers written in bytes, with the characters of the C locale. -/
namespace Decimals

def isdigit (c : UInt8) : Bool := 48 ≤ c && c ≤ 57

def isspace (c : UInt8) : Bool := c == 32 || 9 ≤ c && c ≤ 13

def digit (c : UInt8) : ℕ := c.toNat - 48

def ofDigit (d : ℕ) : UInt8 := UInt8.ofNat (48 + d)

/-- The number that is written by these digits. -/
def value (ds : List UInt8) : ℕ := Nat.ofDigits 10 (ds.reverse.map digit)

/-- The digits of a number, with none in front that are not needed. -/
def decimal (n : ℕ) : List UInt8 :=
  if n = 0 then [48] else ((Nat.digits 10 n).map ofDigit).reverse

/-- The digits of a number, with zeros in front up to a width. -/
def padded (width n : ℕ) : List UInt8 :=
  List.replicate (width - (decimal n).length) 48 ++ decimal n

section
variable {c : UInt8} {ds es : List UInt8} {d n k : ℕ}

theorem isdigit_iff : isdigit c = true ↔ 48 ≤ c.toNat ∧ c.toNat ≤ 57 := by
  simp only [isdigit, Bool.and_eq_true, decide_eq_true_eq, UInt8.le_iff_toNat_le]
  rfl

theorem digit_lt (hc : isdigit c = true) : digit c < 10 := by
  have hbounds := isdigit_iff.mp hc
  unfold digit
  omega

theorem isspace_of_isdigit (hc : isdigit c = true) : isspace c = false := by
  have hbounds := isdigit_iff.mp hc
  simp only [isspace, Bool.or_eq_false_iff, Bool.and_eq_false_iff, beq_eq_false_iff_ne,
    decide_eq_false_iff_not, UInt8.le_iff_toNat_le, ne_eq, ← UInt8.toNat_inj]
  refine ⟨?_, Or.inr ?_⟩
  · show ¬ c.toNat = 32
    omega
  · show ¬ c.toNat ≤ 13
    omega

theorem toNat_ofDigit (hd : d < 10) : (ofDigit d).toNat = 48 + d := by
  rw [ofDigit, UInt8.toNat_ofNat']
  omega

theorem isdigit_ofDigit (hd : d < 10) : isdigit (ofDigit d) = true := by
  rw [isdigit_iff, toNat_ofDigit hd]
  omega

theorem digit_ofDigit (hd : d < 10) : digit (ofDigit d) = d := by
  rw [digit, toNat_ofDigit hd]
  omega

@[simp] theorem value_nil : value [] = 0 := rfl

theorem value_append : value (ds ++ es) = value ds * 10 ^ es.length + value es := by
  rw [value, List.reverse_append, List.map_append, Nat.ofDigits_append, List.length_map,
    List.length_reverse, value, value]
  ring

theorem value_cons : value (c :: ds) = digit c * 10 ^ ds.length + value ds := by
  have hone : value [c] = digit c := by simp [value]
  rw [← List.singleton_append, value_append, hone]

theorem value_lt (hds : ∀ c ∈ ds, isdigit c = true) : value ds < 10 ^ ds.length := by
  have hlt := Nat.ofDigits_lt_base_pow_length (b := 10) (l := ds.reverse.map digit) (by norm_num) ?_
  · simpa [value] using hlt
  · simp only [List.mem_map, List.mem_reverse, forall_exists_index, and_imp,
      forall_apply_eq_imp_iff₂]
    exact fun c hc => digit_lt (hds c hc)

@[simp] theorem value_replicate : value (List.replicate k 48) = 0 := by
  induction k with
  | zero => rfl
  | succ k ih =>
    have hzero : digit 48 = 0 := rfl
    rw [List.replicate_succ, value_cons, ih, hzero, zero_mul]

theorem value_decimal : value (decimal n) = n := by
  unfold decimal
  split_ifs with hn
  · rw [hn]
    rfl
  · have hdigits : (Nat.digits 10 n).map (digit ∘ ofDigit) = Nat.digits 10 n := by
      refine (List.map_congr_left ?_).trans (List.map_id _)
      exact fun d hd => digit_ofDigit (Nat.digits_lt_base (by norm_num) hd)
    rw [value, List.reverse_reverse, List.map_map, hdigits, Nat.ofDigits_digits]

theorem isdigit_decimal : ∀ c ∈ decimal n, isdigit c = true := by
  intro c hc
  unfold decimal at hc
  split_ifs at hc with hn
  · rw [List.mem_singleton.mp hc]
    rfl
  · obtain ⟨d, hd, rfl⟩ := List.mem_map.mp (List.mem_reverse.mp hc)
    exact isdigit_ofDigit (Nat.digits_lt_base (by norm_num) hd)

theorem length_decimal_le (hk : 0 < k) (hn : n < 10 ^ k) : (decimal n).length ≤ k := by
  unfold decimal
  split_ifs with hzero
  · exact hk
  · rw [List.length_reverse, List.length_map, Nat.digits_length_le_iff (by norm_num)]
    exact hn

theorem length_padded (hk : 0 < k) (hn : n < 10 ^ k) : (padded k n).length = k := by
  have hlength := length_decimal_le hk hn
  rw [padded, List.length_append, List.length_replicate]
  omega

theorem value_padded : value (padded k n) = n := by
  rw [padded, value_append, value_replicate, value_decimal, zero_mul, zero_add]

theorem isdigit_padded : ∀ c ∈ padded k n, isdigit c = true := by
  intro c hc
  rcases List.mem_append.mp hc with hzero | hdigit
  · rw [(List.mem_replicate.mp hzero).2]
    rfl
  · exact isdigit_decimal c hdigit

end

/-- A number with a part behind the point, or without one. -/
structure Numeral where
  whole : List UInt8
  units : Option (List UInt8)
  whole_digits : ∀ c ∈ whole, isdigit c = true
  units_digits : ∀ ds ∈ units, ∀ c ∈ ds, isdigit c = true

namespace Numeral

/-- The text from the point on. -/
def pointed : Option (List UInt8) → List UInt8
  | none => []
  | some ds => 46 :: ds

def text (d : Numeral) : List UInt8 := d.whole ++ pointed d.units

def fraction (d : Numeral) : List UInt8 := d.units.getD []

def number (d : Numeral) : ℚ := value d.whole + value d.fraction / 10 ^ d.fraction.length

/-- The numeral stands in the text, with nothing but spaces around it. -/
def StandsIn (d : Numeral) (s : List UInt8) : Prop :=
  ∃ before after, (∀ c ∈ before, isspace c = true) ∧ (∀ c ∈ after, isspace c = true) ∧
    s = before ++ d.text ++ after

variable {d d' : Numeral} {s : List UInt8} {c : UInt8}

theorem isdigit_or_point (hc : c ∈ d.text) : isdigit c = true ∨ c = 46 := by
  rcases List.mem_append.mp hc with hwhole | hpointed
  · exact Or.inl (d.whole_digits c hwhole)
  · cases hunits : d.units with
    | none => simp [hunits, pointed] at hpointed
    | some ds =>
      rw [hunits] at hpointed
      rcases List.mem_cons.mp hpointed with rfl | hfraction
      · exact Or.inr rfl
      · exact Or.inl (d.units_digits ds hunits c hfraction)

theorem isspace_of_mem_text (hc : c ∈ d.text) : isspace c = false := by
  rcases isdigit_or_point hc with hdigit | rfl
  · exact isspace_of_isdigit hdigit
  · rfl

theorem StandsIn.char (h : d.StandsIn s) (hc : c ∈ s) :
    isspace c = true ∨ isdigit c = true ∨ c = 46 := by
  obtain ⟨before, after, hbefore, hafter, rfl⟩ := h
  rw [List.mem_append, List.mem_append] at hc
  rcases hc with (hfirst | htext) | hlast
  · exact Or.inl (hbefore c hfirst)
  · exact Or.inr (isdigit_or_point htext)
  · exact Or.inl (hafter c hlast)

/-- The numeral has a digit exactly if the text has one. -/
theorem StandsIn.hasDigit_iff (h : d.StandsIn s) :
    d.whole ≠ [] ∨ d.fraction ≠ [] ↔ ∃ c ∈ s, isdigit c = true := by
  obtain ⟨before, after, hbefore, hafter, rfl⟩ := h
  constructor
  · rintro (hwhole | hfraction)
    · obtain ⟨c, hc⟩ := List.exists_mem_of_ne_nil d.whole hwhole
      exact ⟨c, by simp [text, hc], d.whole_digits c hc⟩
    · obtain ⟨c, hc⟩ := List.exists_mem_of_ne_nil d.fraction hfraction
      cases hunits : d.units with
      | none => simp [fraction, hunits] at hc
      | some ds =>
        have hmem : c ∈ ds := by simpa [fraction, hunits] using hc
        exact ⟨c, by simp [text, hunits, pointed, hmem], d.units_digits ds hunits c hmem⟩
  · rintro ⟨c, hc, hdigit⟩
    have hspace := isspace_of_isdigit hdigit
    rw [List.mem_append, List.mem_append] at hc
    rcases hc with (hfirst | htext) | hlast
    · simp [hbefore c hfirst] at hspace
    · rcases List.mem_append.mp htext with hwhole | hpointed
      · exact Or.inl (List.ne_nil_of_mem hwhole)
      · cases hunits : d.units with
        | none => simp [hunits, pointed] at hpointed
        | some ds =>
          rw [hunits] at hpointed
          rcases List.mem_cons.mp hpointed with rfl | hmem
          · exact absurd hdigit (by decide)
          · exact Or.inr (by simpa [fraction, hunits] using List.ne_nil_of_mem hmem)
    · simp [hafter c hlast] at hspace

end Numeral

/-- The number is the exact value of the text, which has at least one digit. -/
def Denotes (s : List UInt8) (x : ℚ) : Prop :=
  ∃ d : Numeral, d.StandsIn s ∧ (d.whole ≠ [] ∨ d.fraction ≠ []) ∧ d.number = x

end Decimals
