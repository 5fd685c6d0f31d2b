import Lytix.Lib.Decimals
import Lytix.Params.ChainParams

/-! Amounts as text: `FormatMoney`, and `ParseMoney`, which reads a C string. -/
namespace Lytix
open Decimals

/-- A value assigned to an `int64_t`. -/
def toInt64 (n : Int) : Int := n.bmod (2 ^ 64)

theorem toInt64_of_lt {n : Int} (hlower : -2 ^ 63 ≤ n) (hupper : n < 2 ^ 63) : toInt64 n = n := by
  rw [toInt64, Int.bmod_eq_of_le] <;> omega

namespace MoneyText

def CENT : Int := 1000000

/-- How many characters the loop of `FormatMoney` trims. It has no result if it reads in front of
the text. -/
def nTrim (str : List UInt8) : ℕ → Option ℕ
  | i + 2 =>
    if str.getD (i + 2) 0 = 48 ∧ isdigit (str.getD i 0) = true then
      (nTrim str (i + 1)).map (· + 1)
    else some 0
  | i => if str.getD i 0 = 48 then none else some 0

def formatMoney (n : Int) (fPlus : Bool) : Option (List UInt8) := do
  let n_abs := if n > 0 then n else -n
  let quotient := n_abs / COIN
  let remainder := n_abs % COIN
  let str := decimal quotient.toNat ++ 46 :: padded 8 remainder.toNat
  -- Right-trim excess zeros before the decimal point:
  let nTrim ← nTrim str (str.length - 1)
  let str := if nTrim ≠ 0 then str.take (str.length - nTrim) else str
  some (if n < 0 then 45 :: str else if fPlus ∧ n > 0 then 43 :: str else str)

/-- `strtoll` in base ten, which takes the largest or smallest value for a number out of range. -/
def atoi64 (str : List UInt8) : Int :=
  let str := str.dropWhile isspace
  let magnitude (digits : List UInt8) : Int := value (digits.takeWhile isdigit)
  match str with
  | 45 :: digits => max (-2 ^ 63) (-magnitude digits)
  | 43 :: digits => min (2 ^ 63 - 1) (magnitude digits)
  | digits => min (2 ^ 63 - 1) (magnitude digits)

/-- The loop over the digits behind the point: the units, and what is left to read. -/
def readUnits : List UInt8 → Int → Int → Int × List UInt8
  | [], _, nUnits => (nUnits, [])
  | c :: p, nMult, nUnits =>
    if isdigit c = true ∧ nMult > 0 then
      readUnits p (nMult / 10) (toInt64 (nUnits + toInt64 (nMult * ((c.toNat : Int) - 48))))
    else (nUnits, c :: p)

/-- The loop over the digits before the point: the whole part, the units and what is left. -/
def readWhole : List UInt8 → List UInt8 → Option (List UInt8 × Int × List UInt8)
  | [], strWhole => some (strWhole, 0, [])
  | c :: p, strWhole =>
    if c = 46 then some (strWhole, readUnits p (CENT * 10) 0)
    else if isspace c then some (strWhole, 0, c :: p)
    else if !isdigit c then none
    else readWhole p (strWhole ++ [c])

/-- `ParseMoney` for the characters before the end of a C string. -/
def parseMoneyChars (pszIn : List UInt8) : Option Int :=
  match readWhole (pszIn.dropWhile isspace) [] with
  | none => none
  | some (strWhole, nUnits, p) =>
    if p.any fun c => !isspace c then none
    else if strWhole.length > 10 then none -- guard against 63 bit overflow
    else if nUnits < 0 ∨ nUnits > COIN then none
    else some (toInt64 (toInt64 (atoi64 strWhole * COIN) + nUnits))

/-- `c_str`, up to the first NUL character. -/
def c_str (str : List UInt8) : List UInt8 := str.takeWhile (· != 0)

def parseMoney (str : List UInt8) : Option Int := parseMoneyChars (c_str str)

/-- The numeral has no more digits than `ParseMoney` takes. -/
def Fits (d : Numeral) : Prop := d.whole.length ≤ 10 ∧ d.fraction.length ≤ 8

/-- The text is a numeral that fits, with spaces around it. -/
def Readable (s : List UInt8) : Prop := ∃ d : Numeral, d.StandsIn s ∧ Fits d

/-- What `ParseMoney` gives for a numeral. -/
def amount (d : Numeral) : Int :=
  value d.whole * COIN + value d.fraction * 10 ^ (8 - d.fraction.length)

section
variable {ds p s whole : List UInt8} {d : Numeral}

theorem digit_eq {c : UInt8} (hc : isdigit c = true) : (c.toNat : Int) - 48 = digit c := by
  have hbounds := isdigit_iff.mp hc
  unfold digit
  omega

/-- The digits up to the one where the scale runs out, or up to what is no digit. -/
theorem readUnits_digits {k : ℕ} {nUnits : Int} (hds : ∀ c ∈ ds, isdigit c = true)
    (hlength : ds.length ≤ k) (hstop : ds.length = k ∨ ∀ c q, p = c :: q → isdigit c = false)
    (hunits : 0 ≤ nUnits) (hbound : nUnits + 10 ^ k < 2 ^ 63) :
    readUnits (ds ++ p) (10 ^ k / 10) nUnits =
      (nUnits + value ds * 10 ^ (k - ds.length), p) := by
  induction ds generalizing k nUnits with
  | nil =>
    cases p with
    | nil => simp [readUnits]
    | cons c q =>
      rcases hstop with hend | hother
      · obtain rfl : k = 0 := hend.symm
        simp [readUnits]
      · simp [readUnits, hother c q rfl]
  | cons c ds ih =>
    obtain ⟨k, rfl⟩ := Nat.exists_eq_add_of_le' (le_trans (Nat.le_add_left 1 ds.length) hlength)
    have hdigit := hds c List.mem_cons_self
    have hpow : (10 : Int) ^ (k + 1) / 10 = 10 ^ k := by
      rw [pow_succ, Int.mul_ediv_cancel _ (by norm_num)]
    have hpos : (0 : Int) < 10 ^ k := by positivity
    have hlt : (digit c : Int) < 10 := by exact_mod_cast digit_lt hdigit
    have hnonneg : (0 : Int) ≤ digit c := by positivity
    have hstep : (10 : Int) ^ k * digit c + 10 ^ k ≤ 10 ^ (k + 1) := by
      rw [pow_succ]
      nlinarith
    have hproduct : (0 : Int) ≤ 10 ^ k * digit c := by positivity
    have hrest := @ih k (nUnits + 10 ^ k * digit c) (fun c hc => hds c (List.mem_cons_of_mem _ hc))
      (Nat.le_of_succ_le_succ hlength) (hstop.imp_left Nat.succ.inj) (by linarith) (by linarith)
    have hterm : toInt64 (10 ^ k * digit c) = 10 ^ k * digit c :=
      toInt64_of_lt (by linarith) (by linarith)
    have hsum : toInt64 (nUnits + 10 ^ k * digit c) = nUnits + 10 ^ k * digit c :=
      toInt64_of_lt (by linarith) (by linarith)
    rw [List.cons_append, hpow, readUnits, if_pos ⟨hdigit, hpos⟩, digit_eq hdigit, hterm, hsum,
      hrest]
    have hscale : (10 : Int) ^ k = 10 ^ ds.length * 10 ^ (k - ds.length) := by
      rw [← pow_add, Nat.add_sub_cancel' (Nat.le_of_succ_le_succ hlength)]
    rw [value_cons, List.length_cons, Nat.add_sub_add_right, hscale, Prod.mk.injEq]
    refine ⟨?_, rfl⟩
    push_cast
    ring

/-- The digits that a scale of so many places lets the loop read. -/
theorem exists_units (k : ℕ) (q : List UInt8) : ∃ ds behind, q = ds ++ behind ∧
    (∀ c ∈ ds, isdigit c = true) ∧ ds.length ≤ k ∧
      (ds.length = k ∨ ∀ c r, behind = c :: r → isdigit c = false) := by
  induction k generalizing q with
  | zero => exact ⟨[], q, by simp⟩
  | succ k ih =>
    cases q with
    | nil => exact ⟨[], [], by simp⟩
    | cons c q =>
      cases hdigit : isdigit c with
      | false => exact ⟨[], c :: q, by simp [hdigit]⟩
      | true =>
        obtain ⟨ds, behind, rfl, hds, hlength, hstop⟩ := ih q
        exact ⟨c :: ds, behind, by simp, by simpa [hdigit] using hds, by simpa using hlength,
          by simpa using hstop⟩

theorem readWhole_digits (hwhole : ∀ c ∈ whole, isdigit c = true) (strWhole : List UInt8) :
    readWhole (whole ++ p) strWhole = readWhole p (strWhole ++ whole) := by
  induction whole generalizing strWhole with
  | nil => simp
  | cons c whole ih =>
    have hdigit := hwhole c List.mem_cons_self
    have hpoint : c ≠ 46 := by
      rintro rfl
      exact absurd hdigit (by decide)
    rw [List.cons_append, readWhole, if_neg hpoint, isspace_of_isdigit hdigit, hdigit]
    simp [ih (fun c hc => hwhole c (List.mem_cons_of_mem _ hc))]

theorem CENT_mul : CENT * 10 = 10 ^ 8 / 10 := by decide

theorem readWhole_numeral {after : List UInt8} (hfits : d.fraction.length ≤ 8)
    (hafter : ∀ c ∈ after, isspace c = true) : readWhole (d.text ++ after) [] =
      some (d.whole, (value d.fraction : Int) * 10 ^ (8 - d.fraction.length), after) := by
  have hend (c : UInt8) (q : List UInt8) (heq : after = c :: q) : isspace c = true :=
    hafter c (by simp [heq])
  rw [Numeral.text, List.append_assoc, readWhole_digits d.whole_digits, List.nil_append]
  cases hunits : d.units with
  | none =>
    have hfraction : d.fraction = [] := by simp [Numeral.fraction, hunits]
    rw [hfraction]
    cases after with
    | nil => simp [Numeral.pointed, readWhole]
    | cons c q =>
      have hspace := hend c q rfl
      have hpoint : c ≠ 46 := by
        rintro rfl
        exact absurd hspace (by decide)
      simp [Numeral.pointed, readWhole, hpoint, hspace]
  | some ds =>
    have hfraction : d.fraction = ds := by simp [Numeral.fraction, hunits]
    rw [hfraction] at hfits ⊢
    have hread := @readUnits_digits ds after 8 0 (d.units_digits ds hunits) hfits (Or.inr ?_) le_rfl
      (by norm_num)
    · simp only [Numeral.pointed, List.cons_append, readWhole, if_true, CENT_mul, hread, zero_add]
    · intro c q heq
      by_contra hdigit
      have hspace := isspace_of_isdigit (eq_true_of_ne_false hdigit)
      simp [hend c q heq] at hspace

theorem atoi64_digits (hwhole : ∀ c ∈ whole, isdigit c = true) (hlength : whole.length ≤ 10) :
    atoi64 whole = value whole := by
  have hvalue : value whole < 10 ^ 10 :=
    lt_of_lt_of_le (value_lt hwhole) (Nat.pow_le_pow_right (by norm_num) hlength)
  have hcast : (value whole : Int) < 10 ^ 10 := by exact_mod_cast hvalue
  have hdrop : whole.dropWhile isspace = whole := by
    cases whole with
    | nil => rfl
    | cons c whole => simp [isspace_of_isdigit (hwhole c List.mem_cons_self)]
  have htake : whole.takeWhile isdigit = whole := List.takeWhile_eq_self_iff.mpr hwhole
  rw [atoi64, hdrop]
  split
  · exact absurd (hwhole 45 List.mem_cons_self) (by decide)
  · exact absurd (hwhole 43 List.mem_cons_self) (by decide)
  · show min (2 ^ 63 - 1) (value (whole.takeWhile isdigit) : Int) = _
    rw [htake]
    exact min_eq_right (by omega)

theorem value_fraction_lt (hfits : d.fraction.length ≤ 8) :
    value d.fraction * 10 ^ (8 - d.fraction.length) < 10 ^ 8 := by
  have hdigits : ∀ c ∈ d.fraction, isdigit c = true := by
    intro c hc
    cases hunits : d.units with
    | none => simp [Numeral.fraction, hunits] at hc
    | some ds => exact d.units_digits ds hunits c (by simpa [Numeral.fraction, hunits] using hc)
  calc value d.fraction * 10 ^ (8 - d.fraction.length)
      < 10 ^ d.fraction.length * 10 ^ (8 - d.fraction.length) :=
        Nat.mul_lt_mul_of_pos_right (value_lt hdigits) (by positivity)
    _ = 10 ^ 8 := by rw [← pow_add, Nat.add_sub_cancel' hfits]

/-- The text from the first character that is no space. -/
theorem dropWhile_standsIn (h : d.StandsIn s) :
    ∃ after, s.dropWhile isspace = d.text ++ after ∧ ∀ c ∈ after, isspace c = true := by
  obtain ⟨before, after, hbefore, hafter, rfl⟩ := h
  rw [List.append_assoc, List.dropWhile_append_of_pos hbefore]
  cases htext : d.text with
  | nil =>
    refine ⟨[], ?_, by simp⟩
    rw [List.nil_append, List.append_nil, List.dropWhile_eq_nil_iff]
    exact hafter
  | cons c text =>
    have hfirst : isspace c = false := Numeral.isspace_of_mem_text (htext ▸ List.mem_cons_self)
    exact ⟨after, by simp [hfirst], hafter⟩

theorem parseMoneyChars_standsIn (h : d.StandsIn s) (hfits : Fits d) :
    parseMoneyChars s = some (amount d) := by
  obtain ⟨after, hdrop, hafter⟩ := dropWhile_standsIn h
  have hspaces : (after.any fun c => !isspace c) = false := by
    rw [List.any_eq_false]
    intro c hc
    simp [hafter c hc]
  have hunits : (value d.fraction : Int) * 10 ^ (8 - d.fraction.length) < 10 ^ 8 := by
    exact_mod_cast value_fraction_lt hfits.2
  have hnonneg : (0 : Int) ≤ value d.fraction * 10 ^ (8 - d.fraction.length) := by positivity
  have hwhole : (value d.whole : Int) < 10 ^ 10 := by
    exact_mod_cast lt_of_lt_of_le (value_lt d.whole_digits)
      (Nat.pow_le_pow_right (by norm_num) hfits.1)
  have hcoin : COIN = 10 ^ 8 := rfl
  have hproduct : toInt64 (value d.whole * COIN) = value d.whole * COIN :=
    toInt64_of_lt (by rw [hcoin]; linarith) (by rw [hcoin]; linarith)
  have hsum : toInt64 (value d.whole * COIN + value d.fraction * 10 ^ (8 - d.fraction.length)) =
      amount d := toInt64_of_lt (by rw [hcoin]; linarith) (by rw [hcoin]; linarith)
  rw [parseMoneyChars, hdrop, readWhole_numeral hfits.2 hafter]
  simp only [hspaces, atoi64_digits d.whole_digits hfits.1, hproduct, hsum]
  rw [if_neg (by simp), if_neg (not_lt.mpr hfits.1), if_neg]
  rw [hcoin]
  omega

/-- What the loops take is a numeral, and the rest of the text. -/
theorem numeral_of_readWhole {strWhole rest : List UInt8} {nUnits : Int}
    (h : readWhole p [] = some (strWhole, nUnits, rest))
    (hrest : ∀ c ∈ rest, isspace c = true) :
    ∃ d : Numeral, d.StandsIn p ∧ d.whole = strWhole ∧ d.fraction.length ≤ 8 := by
  have hdigits : ∀ c ∈ p.takeWhile isdigit, isdigit c = true :=
    fun c hc => List.mem_takeWhile_imp hc
  have hsplit : p.takeWhile isdigit ++ p.dropWhile isdigit = p := List.takeWhile_append_dropWhile
  rw [← hsplit, readWhole_digits hdigits, List.nil_append] at h
  rw [← hsplit]
  cases hafter : p.dropWhile isdigit with
  | nil =>
    rw [hafter, readWhole] at h
    simp only [Option.some.injEq, Prod.mk.injEq] at h
    refine ⟨⟨p.takeWhile isdigit, none, hdigits, by simp⟩, ⟨[], [], by simp, by simp, ?_⟩, h.1, ?_⟩
    · simp [Numeral.text, Numeral.pointed]
    · simp [Numeral.fraction]
  | cons c q =>
    rw [hafter, readWhole] at h
    split_ifs at h with hpoint hspace hdigit
    · obtain ⟨ds, behind, rfl, hunits, hlength, hstop⟩ := exists_units 8 q
      have hread := @readUnits_digits ds behind 8 0 hunits hlength hstop le_rfl (by norm_num)
      rw [CENT_mul, hread] at h
      simp only [Option.some.injEq, Prod.mk.injEq] at h
      obtain ⟨hwhole, -, rfl⟩ := h
      refine ⟨⟨p.takeWhile isdigit, some ds, hdigits, ?_⟩, ⟨[], behind, by simp, hrest, ?_⟩,
        hwhole, ?_⟩
      · intro es hes
        rw [← Option.some.inj hes]
        exact hunits
      · simp [Numeral.text, Numeral.pointed, hpoint]
      · simpa [Numeral.fraction] using hlength
    · simp only [Option.some.injEq, Prod.mk.injEq] at h
      obtain ⟨hwhole, -, rfl⟩ := h
      refine ⟨⟨p.takeWhile isdigit, none, hdigits, by simp⟩, ⟨[], c :: q, by simp, hrest, ?_⟩,
        hwhole, ?_⟩
      · simp [Numeral.text, Numeral.pointed]
      · simp [Numeral.fraction]
    · have hfirst : isdigit c = false := by
        have hhead := List.head?_dropWhile_not isdigit p
        simpa [hafter] using hhead
      simp [hfirst] at hdigit

theorem readable_of_parseMoneyChars {n : Int} (h : parseMoneyChars s = some n) : Readable s := by
  rw [parseMoneyChars] at h
  cases hread : readWhole (s.dropWhile isspace) [] with
  | none => simp [hread] at h
  | some read =>
    obtain ⟨strWhole, nUnits, rest⟩ := read
    simp only [hread] at h
    split_ifs at h with hother hlong hrange
    have hrest : ∀ c ∈ rest, isspace c = true := by simpa using hother
    obtain ⟨d, ⟨before, after, hbefore, hafter, hdrop⟩, rfl, hfraction⟩ :=
      numeral_of_readWhole hread hrest
    refine ⟨d, ⟨s.takeWhile isspace ++ before, after, ?_, hafter, ?_⟩, not_lt.mp hlong, hfraction⟩
    · intro c hc
      rcases List.mem_append.mp hc with hfirst | hlater
      · exact List.mem_takeWhile_imp hfirst
      · exact hbefore c hlater
    · rw [List.append_assoc, List.append_assoc, ← List.append_assoc before, ← hdrop,
        List.takeWhile_append_dropWhile]

/-- The parser takes the numerals that fit, and gives their amounts. -/
theorem parseMoneyChars_eq_some_iff {n : Int} : parseMoneyChars s = some n ↔
    ∃ d : Numeral, d.StandsIn s ∧ Fits d ∧ amount d = n := by
  constructor
  · intro h
    obtain ⟨d, hstands, hfits⟩ := readable_of_parseMoneyChars h
    have hamount := parseMoneyChars_standsIn hstands hfits
    exact ⟨d, hstands, hfits, Option.some.inj (hamount.symm.trans h)⟩
  · rintro ⟨d, hstands, hfits, rfl⟩
    exact parseMoneyChars_standsIn hstands hfits

theorem amount_eq (hfits : Fits d) : (amount d : ℚ) = d.number * COIN := by
  have hcoin : (COIN : ℚ) = 10 ^ d.fraction.length * 10 ^ (8 - d.fraction.length) := by
    rw [← pow_add, Nat.add_sub_cancel' hfits.2]
    norm_num [COIN]
  have hpos : (10 : ℚ) ^ d.fraction.length ≠ 0 := by positivity
  rw [amount, Numeral.number, add_mul, div_mul_eq_mul_div]
  push_cast
  rw [hcoin]
  field_simp

theorem c_str_eq (hnul : (0 : UInt8) ∉ s) : c_str s = s := by
  rw [c_str, List.takeWhile_eq_self_iff]
  intro c hc
  have hne : c ≠ 0 := by
    rintro rfl
    exact hnul hc
  simpa using hne

theorem nul_notMem_of_denotes {x : ℚ} (h : Denotes s x) : (0 : UInt8) ∉ s := by
  intro hc
  obtain ⟨d, hstands, -⟩ := h
  have hchar := hstands.char hc
  revert hchar
  decide

/-- What the parser gives is the exact value of the text exactly if the text that it can read is the
whole string, and has a digit. -/
theorem parseMoney_exact_iff : (∀ n, parseMoney s = some n → ∃ x, Denotes s x ∧ n = x * COIN) ↔
    (Readable (c_str s) → 0 ∉ s ∧ ∃ c ∈ s, isdigit c = true) := by
  constructor
  · rintro h ⟨d, hstands, hfits⟩
    obtain ⟨x, hdenotes, -⟩ := h (amount d) (parseMoneyChars_standsIn hstands hfits)
    refine ⟨nul_notMem_of_denotes hdenotes, ?_⟩
    obtain ⟨d', hstands', hdigit, -⟩ := hdenotes
    exact hstands'.hasDigit_iff.mp hdigit
  · intro h n hn
    obtain ⟨d, hstands, hfits, rfl⟩ := parseMoneyChars_eq_some_iff.mp hn
    obtain ⟨hnul, hdigit⟩ := h ⟨d, hstands, hfits⟩
    rw [c_str_eq hnul] at hstands
    exact ⟨d.number, ⟨d, hstands, hstands.hasDigit_iff.mpr hdigit, rfl⟩, amount_eq hfits⟩

end

/-- Of the digits behind the point, the loop takes zeros from the end, and leaves at least two. -/
theorem nTrim_digits {whole ds : List UInt8} {k : ℕ} (hds : ∀ c ∈ ds, isdigit c = true)
    (htwo : 2 ≤ k) (hlength : k ≤ ds.length) :
    ∃ n, nTrim (whole ++ 46 :: ds) (whole.length + k) = some n ∧ n + 2 ≤ k ∧
      ds.take k = ds.take (k - n) ++ List.replicate n 48 := by
  have hchar (i : ℕ) : (whole ++ 46 :: ds).getD (whole.length + (i + 1)) 0 = ds.getD i 0 := by
    simp [List.getD_eq_getElem?_getD, List.getElem?_append_right]
  induction k, htwo using Nat.le_induction with
  | base =>
    have hother : isdigit 46 = false := rfl
    exact ⟨0, by simp [nTrim, hother], le_rfl, by simp⟩
  | succ k htwo ih =>
    obtain ⟨n, htrim, hn, hzeros⟩ := ih (Nat.le_of_succ_le hlength)
    obtain ⟨j, rfl⟩ := Nat.exists_eq_add_of_le' htwo
    have hindex : whole.length + (j + 2 + 1) = whole.length + (j + 1) + 2 := by omega
    have hdigit : isdigit (ds.getD j 0) = true := by
      have hwithin : j < ds.length := by omega
      simpa [hwithin] using hds ds[j] (List.getElem_mem hwithin)
    have hlast : ds.take (j + 2 + 1) = ds.take (j + 2) ++ [ds.getD (j + 2) 0] := by
      have hwithin : j + 2 < ds.length := by omega
      rw [List.take_add_one]
      simp [hwithin]
    rw [hindex, nTrim, ← hindex, hchar, hchar, hdigit]
    split_ifs with hzero
    · refine ⟨n + 1, ?_, by omega, ?_⟩
      · have hprevious : whole.length + (j + 1) + 1 = whole.length + (j + 2) := by omega
        rw [hprevious, htrim]
        rfl
      · rw [hlast, hzeros, hzero.1, List.append_assoc, List.replicate_succ',
          Nat.add_sub_add_right]
    · exact ⟨0, rfl, by omega, by simp⟩

/-- What the loop leaves of eight digits behind the point. The zeros that it takes make up for the
places that are missing then. -/
theorem exists_trimmed (whole : List UInt8) {r : ℕ} (hr : r < 10 ^ 8) :
    ∃ n kept, nTrim (whole ++ 46 :: padded 8 r) (whole.length + 8) = some n ∧
      (whole ++ 46 :: padded 8 r).take (whole.length + 9 - n) = whole ++ 46 :: kept ∧
      (∀ c ∈ kept, isdigit c = true) ∧ kept.length ≤ 8 ∧
      value kept * 10 ^ (8 - kept.length) = r := by
  have hlength : (padded 8 r).length = 8 := length_padded (by norm_num) hr
  obtain ⟨n, htrim, hn, hzeros⟩ :=
    @nTrim_digits whole (padded 8 r) 8 isdigit_padded (by norm_num) hlength.ge
  have hkept : ((padded 8 r).take (8 - n)).length = 8 - n := by
    rw [List.length_take, hlength]
    omega
  refine ⟨n, (padded 8 r).take (8 - n), htrim, ?_, ?_, ?_, ?_⟩
  · have hplace : whole.length + 9 - n = whole.length + ((8 - n) + 1) := by omega
    rw [hplace, List.take_length_add_append, List.take_succ_cons]
  · exact fun c hc => isdigit_padded c (List.mem_of_mem_take hc)
  · omega
  · have hall : (padded 8 r).take 8 = padded 8 r := List.take_of_length_le hlength.le
    have hsum := congrArg value hzeros
    rw [hall, value_padded, value_append, value_replicate, List.length_replicate, add_zero] at hsum
    have hplaces : 8 - (8 - n) = n := by omega
    rw [hkept, hplaces, ← hsum]

/-- An amount is written as a numeral that the parser takes and that is worth as much. -/
theorem exists_formatMoney {n : Int} (hn : 0 ≤ n) (hsmall : n < 10 ^ 18) :
    ∃ d : Numeral, formatMoney n false = some d.text ∧ Fits d ∧ amount d = n := by
  have hcoin : COIN = 100000000 := rfl
  have habs : (if n > 0 then n else -n) = n := by split_ifs <;> omega
  obtain ⟨q, hq⟩ := Int.eq_ofNat_of_zero_le (show 0 ≤ n / COIN by rw [hcoin]; omega)
  obtain ⟨r, hr⟩ := Int.eq_ofNat_of_zero_le (show 0 ≤ n % COIN by rw [hcoin]; omega)
  have hsplit : (q : Int) * COIN + r = n := by
    rw [← hq, ← hr]
    exact Int.ediv_mul_add_emod n COIN
  rw [hcoin] at hsplit
  have hunits : r < 10 ^ 8 := by
    rw [hcoin] at hr
    omega
  obtain ⟨t, kept, htrim, hcut, hdigits, hlength, hvalue⟩ := exists_trimmed (decimal q) hunits
  have hend : (decimal q ++ 46 :: padded 8 r).length = (decimal q).length + 9 := by
    rw [List.length_append, List.length_cons, length_padded (by norm_num) hunits]
  have herased : (if t ≠ 0 then (decimal q ++ 46 :: padded 8 r).take ((decimal q).length + 9 - t)
      else decimal q ++ 46 :: padded 8 r) = decimal q ++ 46 :: kept := by
    split_ifs with hzero
    · exact hcut
    · rw [← hcut, not_not.mp hzero, Nat.sub_zero, ← hend, List.take_length]
  refine ⟨⟨decimal q, some kept, isdigit_decimal, ?_⟩, ?_, ⟨?_, hlength⟩, ?_⟩
  · intro ds hds
    rw [← Option.some.inj hds]
    exact hdigits
  · have hlast : (decimal q).length + 9 - 1 = (decimal q).length + 8 := rfl
    simp only [formatMoney, habs, hq, hr, Int.toNat_natCast, hend, hlast, htrim,
      Option.bind_eq_bind, Option.bind_some, herased, if_neg (not_lt.mpr hn)]
    simp [Numeral.text, Numeral.pointed]
  · exact length_decimal_le (by norm_num) (by omega)
  · have hcast : (value kept : Int) * 10 ^ (8 - kept.length) = r := by exact_mod_cast hvalue
    simp only [amount, Numeral.fraction, Option.getD_some, value_decimal, hcast, hcoin, hsplit]

/-- An amount of money is read back from its text. -/
theorem parseMoney_formatMoney {n : Int} (hn : 0 ≤ n) (hsmall : n < 10 ^ 18) :
    (formatMoney n false).bind parseMoney = some n := by
  obtain ⟨d, hformat, hfits, rfl⟩ := exists_formatMoney hn hsmall
  have hstands : d.StandsIn d.text := ⟨[], [], by simp, by simp, by simp⟩
  have hnul : (0 : UInt8) ∉ d.text := by
    intro hc
    rcases Numeral.isdigit_or_point hc with hdigit | hpoint
    · exact absurd hdigit (by decide)
    · exact absurd hpoint (by decide)
  rw [hformat, Option.bind_some, parseMoney, c_str_eq hnul]
  exact parseMoneyChars_standsIn hstands hfits

example : formatMoney 1234567890000 false = some [49, 50, 51, 52, 53, 46, 54, 55, 56, 57] := by
  decide

/-- Each amount up to the most that a network has comes back from its text, and what is read from a
string is its exact value unless the string has a NUL character or has no digit. -/
theorem moneyText_exact_iff (s : List UInt8) :
    (∀ network n, 0 ≤ n → n ≤ (Params network).nMaxMoneyOut →
      (formatMoney n false).bind parseMoney = some n) ∧
    ((∀ n, parseMoney s = some n → ∃ x, Denotes s x ∧ n = x * COIN) ↔
      (Readable (c_str s) → 0 ∉ s ∧ ∃ c ∈ s, isdigit c = true)) := by
  constructor
  · intro network n hn hmax
    have hmost : (Params network).nMaxMoneyOut ≤ 10 ^ 16 := by cases network <;> decide
    exact parseMoney_formatMoney hn (by linarith)
  · exact parseMoney_exact_iff

/-- The text after a NUL character is not read, so this string is taken for one coin. -/
theorem not_moneyText_exact :
    ¬ ∀ s n, parseMoney s = some n → ∃ x, Denotes s x ∧ n = x * COIN := by
  intro h
  obtain ⟨x, hdenotes, -⟩ := h [49, 0, 120] 100000000 (by decide)
  exact nul_notMem_of_denotes hdenotes (by decide)

end MoneyText
end Lytix
