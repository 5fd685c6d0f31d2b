import Lytix.Lib.Radix
import Lytix.Primitives.MoneyText

/-! Bytes as text in the base 58. Zeros in front stand for themselves; what follows is converted
in a buffer whose size is estimated from the length. -/
namespace Lytix.Base58

open Decimals (isspace)
open MoneyText (c_str)
open Radix

/-- All alphanumeric characters except for "0", "I", "O", and "l". -/
def pszBase58 : List UInt8 :=
  ['1', '2', '3', '4', '5', '6', '7', '8', '9', 'A', 'B', 'C', 'D', 'E', 'F', 'G', 'H', 'J', 'K',
    'L', 'M', 'N', 'P', 'Q', 'R', 'S', 'T', 'U', 'V', 'W', 'X', 'Y', 'Z', 'a', 'b', 'c', 'd', 'e',
    'f', 'g', 'h', 'i', 'j', 'k', 'm', 'n', 'o', 'p', 'q', 'r', 's', 't', 'u', 'v', 'w', 'x', 'y',
    'z'].map fun c => UInt8.ofNat c.toNat

/-- `pszBase58[digit]`. -/
def symbol (digit : ℕ) : UInt8 := pszBase58.getD digit 0

/-- How a call can end without a result: a counter of 32 bits overflows, or a carry is left that
an assertion excludes. -/
inductive Fault
  | overflow
  | assertion
deriving DecidableEq

/-- The loops that count leading symbols, in an `int`. -/
def countZeroes (symbol : UInt8) (psz : List UInt8) : Except Fault ℕ :=
  let zeroes := (psz.takeWhile (· == symbol)).length
  if zeroes < 2 ^ 31 then .ok zeroes else .error .overflow

/-- The loop over the characters: the buffer and what is left to read. There is none when a
character has no digit. -/
def decodeLoop (b256 : List ℕ) : List UInt8 → Except Fault (Option (List ℕ × List UInt8))
  | [] => .ok (some (b256, []))
  | c :: psz =>
    if isspace c then .ok (some (b256, c :: psz))
    else
      match pszBase58.idxOf? c with
      | none => .ok none
      | some digit =>
        let (b256, carry) := multiplyAdd 256 58 b256 digit
        if carry = 0 then decodeLoop b256 psz else .error .assertion

/-- `DecodeBase58` for the characters before the end of a C string. There is no vector when it
returns false. -/
def decodeChars (psz : List UInt8) : Except Fault (Option (List UInt8)) := do
  -- Skip leading spaces.
  let psz := psz.dropWhile isspace
  let zeroes ← countZeroes 49 psz
  let psz := psz.drop zeroes
  let b256 := List.replicate (psz.length * 733 / 1000 + 1) 0
  match ← decodeLoop b256 psz with
  | none => .ok none
  | some (b256, psz) =>
    -- Skip trailing spaces.
    if psz.dropWhile isspace ≠ [] then .ok none
    else .ok (some (List.replicate zeroes 0 ++ (b256.dropWhile (· == 0)).map UInt8.ofNat))

def decodeBase58 (str : List UInt8) : Except Fault (Option (List UInt8)) := decodeChars (c_str str)

def encodeBase58 (vch : List UInt8) : Except Fault (List UInt8) := do
  let zeroes ← countZeroes 0 vch
  let vch := vch.drop zeroes
  let b58 := List.replicate (vch.length * 138 / 100 + 1) 0
  match convert 58 256 b58 (vch.map UInt8.toNat) with
  | none => .error .assertion
  | some b58 =>
    .ok (List.replicate zeroes 49 ++ (b58.dropWhile (· == 0)).map symbol)

/-- The text of digits in the base 58 with zeros in front. -/
def text (zeroes : ℕ) (digits : List ℕ) : List UInt8 :=
  List.replicate zeroes 49 ++ digits.map symbol

/-- The bytes that such a text stands for. -/
def bytes (zeroes : ℕ) (digits : List ℕ) : List UInt8 :=
  List.replicate zeroes 0 ++ (shortest 256 (value 58 digits)).map UInt8.ofNat

section alphabet
variable {c : UInt8} {digit : ℕ}

set_option maxRecDepth 4000 in
theorem symbol_facts : ∀ digit < 58, pszBase58.idxOf? (symbol digit) = some digit ∧
    isspace (symbol digit) = false ∧ symbol digit ≠ 0 ∧ (symbol digit = 49 → digit = 0) := by
  decide

theorem idxOf?_symbol (h : digit < 58) : pszBase58.idxOf? (symbol digit) = some digit :=
  (symbol_facts digit h).1

theorem isspace_symbol (h : digit < 58) : isspace (symbol digit) = false :=
  (symbol_facts digit h).2.1

theorem symbol_ne_zero (h : digit < 58) : symbol digit ≠ 0 := (symbol_facts digit h).2.2.1

theorem eq_zero_of_symbol (h : digit < 58) (hsymbol : symbol digit = 49) : digit = 0 :=
  (symbol_facts digit h).2.2.2 hsymbol

/-- The characters of the alphabet are those of the digits. -/
theorem exists_symbol (h : c ∈ pszBase58) : ∃ digit < 58, symbol digit = c := by
  obtain ⟨digit, hdigit, rfl⟩ := List.mem_iff_getElem.mp h
  exact ⟨digit, hdigit, by simp [symbol, hdigit]⟩

theorem isspace_text {zeroes : ℕ} {digits : List ℕ} (h : ∀ digit ∈ digits, digit < 58)
    (hc : c ∈ text zeroes digits) : isspace c = false ∧ c ≠ 0 := by
  rcases List.mem_append.mp hc with hone | hdigit
  · obtain rfl := List.eq_of_mem_replicate hone
    decide
  · obtain ⟨digit, hmem, rfl⟩ := List.mem_map.mp hdigit
    exact ⟨isspace_symbol (h digit hmem), symbol_ne_zero (h digit hmem)⟩

end alphabet

section leading
variable {x : UInt8} {zeroes : ℕ} {rest : List UInt8}

theorem takeWhile_leading (h : rest.head? ≠ some x) :
    (List.replicate zeroes x ++ rest).takeWhile (· == x) = List.replicate zeroes x := by
  have hall : ∀ c ∈ List.replicate zeroes x, (c == x) = true := by
    intro c hc
    simpa using List.eq_of_mem_replicate hc
  rw [List.takeWhile_append_of_pos hall]
  cases rest with
  | nil => simp
  | cons c rest =>
    have hne : ¬ (c == x) = true := by simpa using h
    have hnone : (c :: rest).takeWhile (fun a => a == x) = [] := List.takeWhile_cons_of_neg hne
    rw [hnone, List.append_nil]

/-- Every text has so many symbols in front. -/
theorem exists_leading (x : UInt8) (s : List UInt8) :
    ∃ zeroes rest, s = List.replicate zeroes x ++ rest ∧ rest.head? ≠ some x := by
  induction s with
  | nil => exact ⟨0, [], rfl, by simp⟩
  | cons c s ih =>
    by_cases hc : c = x
    · obtain ⟨zeroes, rest, rfl, hhead⟩ := ih
      exact ⟨zeroes + 1, rest, by rw [hc, List.replicate_succ, List.cons_append], hhead⟩
    · exact ⟨0, c :: s, rfl, by simpa using hc⟩

theorem countZeroes_leading (h : rest.head? ≠ some x) :
    countZeroes x (List.replicate zeroes x ++ rest) =
      if zeroes < 2 ^ 31 then .ok zeroes else .error .overflow := by
  unfold countZeroes
  rw [takeWhile_leading h, List.length_replicate]

theorem drop_leading : (List.replicate zeroes x ++ rest).drop zeroes = rest := by
  rw [List.drop_left' List.length_replicate]

end leading

section encode
variable {zeroes : ℕ} {vch : List UInt8}

/-- What is converted is as many digits in the base 58 as it needs. -/
theorem encodeBase58_leading (h : vch.head? ≠ some 0) :
    encodeBase58 (List.replicate zeroes 0 ++ vch) =
      if zeroes < 2 ^ 31 then .ok (text zeroes (shortest 58 (value 256 (vch.map UInt8.toNat))))
      else .error .overflow := by
  have hroom : HasRoom 58 256 (vch.map UInt8.toNat).length
      (List.replicate (vch.length * 138 / 100 + 1) 0) := by
    rw [List.length_map]
    -- 11 digits take up more than 8 bytes do
    exact hasRoom_replicate (p := 11) (q := 8) (by norm_num) (by norm_num) (by omega) (by norm_num)
  have hbytes : ∀ digit ∈ vch.map UInt8.toNat, digit < 256 := by
    intro digit hdigit
    obtain ⟨byte, _, rfl⟩ := List.mem_map.mp hdigit
    exact byte.toNat_lt
  have hzeros : ∀ digit ∈ List.replicate (vch.length * 138 / 100 + 1) 0, digit < 58 := by
    intro digit hdigit
    rw [List.eq_of_mem_replicate hdigit]
    norm_num
  obtain ⟨b58, hconvert, hlt, hvalue⟩ := convert_eq (by norm_num) hroom hzeros hbytes
  rw [value_replicate_zero, zero_mul, zero_add] at hvalue
  unfold encodeBase58
  rw [countZeroes_leading h]
  split_ifs
  · change (match convert 58 256 (List.replicate (((List.replicate zeroes 0 ++ vch).drop
      zeroes).length * 138 / 100 + 1) 0) (((List.replicate zeroes 0 ++ vch).drop
      zeroes).map UInt8.toNat) with | none => _ | some b58 => _) = _
    rw [drop_leading, hconvert]
    change Except.ok (_ ++ (b58.dropWhile (· == 0)).map symbol) = _
    rw [dropWhile_zero (by norm_num) hlt, hvalue]
    rfl
  · rfl

end encode

section decode
variable {zeroes : ℕ} {digits b256 : List ℕ} {before rest : List UInt8}

theorem decodeLoop_symbol {digit : ℕ} (h : digit < 58) :
    decodeLoop b256 (symbol digit :: rest) =
      if (multiplyAdd 256 58 b256 digit).2 = 0 then
        decodeLoop (multiplyAdd 256 58 b256 digit).1 rest
      else .error .assertion := by
  have hspace : ¬ isspace (symbol digit) = true := by simp [isspace_symbol h]
  rw [decodeLoop, if_neg hspace, idxOf?_symbol h]

/-- The loop converts the digits that are in front. -/
theorem decodeLoop_digits (rest : List UInt8) {result : List ℕ}
    (h : ∀ digit ∈ digits, digit < 58)
    (hconvert : convert 256 58 b256 digits = some result) :
    decodeLoop b256 (digits.map symbol ++ rest) = decodeLoop result rest := by
  induction digits generalizing b256 with
  | nil =>
    obtain rfl := Option.some.inj hconvert
    rfl
  | cons digit digits ih =>
    rw [convert_cons] at hconvert
    split_ifs at hconvert with hcarry
    rw [List.map_cons, List.cons_append, decodeLoop_symbol (h digit List.mem_cons_self),
      if_pos hcarry]
    exact ih (fun digit hmem => h digit (List.mem_cons_of_mem _ hmem)) hconvert

/-- The loop ends at the first character that is not in the alphabet. -/
theorem decodeLoop_end [Decidable (∀ c, rest.head? = some c → isspace c = true)]
    (h : ∀ c, rest.head? = some c → c ∉ pszBase58) :
    decodeLoop b256 rest = .ok (if ∀ c, rest.head? = some c → isspace c = true then
      some (b256, rest) else none) := by
  cases rest with
  | nil => simp [decodeLoop]
  | cons c rest =>
    have hnone : pszBase58.idxOf? c = none := List.idxOf?_eq_none_iff.mpr (h c rfl)
    rw [decodeLoop, hnone]
    by_cases hspace : isspace c = true
    · simp [hspace]
    · simp [hspace]

/-- A text by its parts: spaces, leading ones, digits, and what follows them. -/
structure Parts (psz before : List UInt8) (zeroes : ℕ) (digits : List ℕ) (rest : List UInt8) :
    Prop where
  eq : psz = before ++ (text zeroes digits ++ rest)
  spaces : ∀ c ∈ before, isspace c = true
  digits_lt : ∀ digit ∈ digits, digit < 58
  nonzero : digits.head? ≠ some 0
  stops : ∀ c, rest.head? = some c → c ∉ pszBase58
  starts : ∀ c, (text zeroes digits ++ rest).head? = some c → isspace c = false

/-- Digits are in front of a character that is not in the alphabet. -/
theorem exists_digits (psz : List UInt8) : ∃ (digits : List ℕ) (rest : List UInt8),
    psz = digits.map symbol ++ rest ∧ (∀ digit ∈ digits, digit < 58) ∧
      ∀ c, rest.head? = some c → c ∉ pszBase58 := by
  induction psz with
  | nil => exact ⟨[], [], rfl, by simp, by simp⟩
  | cons c psz ih =>
    by_cases hc : c ∈ pszBase58
    · obtain ⟨digits, rest, rfl, hdigits, hrest⟩ := ih
      obtain ⟨digit, hdigit, rfl⟩ := exists_symbol hc
      have hall : ∀ d ∈ digit :: digits, d < 58 := by simpa [hdigit] using hdigits
      exact ⟨digit :: digits, rest, rfl, hall, hrest⟩
    · exact ⟨[], c :: psz, rfl, by simp, by simpa using hc⟩

/-- Every text has its parts. -/
theorem exists_parts (psz : List UInt8) :
    ∃ before zeroes digits rest, Parts psz before zeroes digits rest := by
  obtain ⟨zeroes, tail, htail, hhead⟩ := exists_leading 49 (psz.dropWhile isspace)
  obtain ⟨digits, rest, rfl, hdigits, hrest⟩ := exists_digits tail
  have heq : psz.dropWhile isspace = text zeroes digits ++ rest := by
    rw [htail, text, List.append_assoc]
  refine ⟨psz.takeWhile isspace, zeroes, digits, rest, ?_, ?_, hdigits, ?_, hrest, ?_⟩
  · rw [← heq, List.takeWhile_append_dropWhile]
  · exact fun c hc => List.mem_takeWhile_imp hc
  · intro hzero
    apply hhead
    obtain ⟨tail, rfl⟩ := List.head?_eq_some_iff.mp hzero
    rfl
  · intro c hc
    rw [← heq] at hc
    have hnot := List.head?_dropWhile_not isspace psz
    rw [hc] at hnot
    simpa using hnot

/-- Behind the ones in front there is no other one. -/
theorem head?_symbols (rest : List UInt8) (h : ∀ digit ∈ digits, digit < 58)
    (hnonzero : digits.head? ≠ some 0)
    (hrest : ∀ c, rest.head? = some c → c ∉ pszBase58) :
    (digits.map symbol ++ rest).head? ≠ some 49 := by
  intro hhead
  cases digits with
  | nil => exact hrest 49 hhead (by decide)
  | cons digit digits =>
    have hsymbol : symbol digit = 49 := Option.some.inj hhead
    apply hnonzero
    rw [eq_zero_of_symbol (h digit List.mem_cons_self) hsymbol]
    rfl

theorem decodeChars_parts {psz : List UInt8} [Decidable (∀ c ∈ rest, isspace c = true)]
    (h : Parts psz before zeroes digits rest) :
    decodeChars psz = if zeroes < 2 ^ 31 then
      .ok (if ∀ c ∈ rest, isspace c = true then some (bytes zeroes digits) else none)
    else .error .overflow := by
  have hdrop : psz.dropWhile isspace = text zeroes digits ++ rest := by
    rw [h.eq, List.dropWhile_append_of_pos h.spaces]
    cases hcore : text zeroes digits ++ rest with
    | nil => rfl
    | cons c core =>
      have hc := h.starts c (by rw [hcore]; rfl)
      exact List.dropWhile_cons_of_neg (by simp [hc])
  have hone := head?_symbols _ h.digits_lt h.nonzero h.stops
  have hroom : HasRoom 256 58 digits.length
      (List.replicate ((digits.map symbol ++ rest).length * 733 / 1000 + 1) 0) := by
    rw [List.length_append, List.length_map]
    -- 52 bytes take up more than 71 digits do
    exact hasRoom_replicate (p := 52) (q := 71) (by norm_num) (by norm_num) (by omega)
      (by norm_num)
  have hzeros : ∀ digit ∈ List.replicate
      ((digits.map symbol ++ rest).length * 733 / 1000 + 1) 0, digit < 256 := by
    intro digit hdigit
    rw [List.eq_of_mem_replicate hdigit]
    norm_num
  obtain ⟨b256, hconvert, hlt, hvalue⟩ := convert_eq (by norm_num) hroom hzeros h.digits_lt
  rw [value_replicate_zero, zero_mul, zero_add] at hvalue
  have hloop := (decodeLoop_digits rest h.digits_lt hconvert).trans
    (decodeLoop_end h.stops)
  unfold decodeChars
  simp only [hdrop, text, List.append_assoc, countZeroes_leading hone]
  by_cases hzeroes : zeroes < 2 ^ 31
  · rw [if_pos hzeroes, if_pos hzeroes]
    simp only [bind, Except.bind, drop_leading, hloop]
    by_cases hbehind : ∀ c ∈ rest, isspace c = true
    · have hfirst : ∀ c, rest.head? = some c → isspace c = true := by
        intro c hc
        exact hbehind c (List.mem_of_head? hc)
      have hnil : rest.dropWhile isspace = [] := List.dropWhile_eq_nil_iff.mpr hbehind
      rw [if_pos hfirst, if_pos hbehind]
      simp only [hnil, ne_eq, not_true_eq_false, if_false]
      rw [dropWhile_zero (by norm_num) hlt, hvalue]
      rfl
    · have hcons : rest.dropWhile isspace ≠ [] := by
        rwa [ne_eq, List.dropWhile_eq_nil_iff]
      rw [if_neg hbehind]
      split_ifs
      · simp only [hcons, ne_eq, not_false_eq_true, if_true]
      · rfl
  · rw [if_neg hzeroes, if_neg hzeroes]
    rfl

/-- Characters of the alphabet are ones in front and digits behind them. -/
theorem exists_text {symbols : List UInt8} (h : ∀ c ∈ symbols, c ∈ pszBase58) :
    ∃ digits : List ℕ, symbols = text (symbols.takeWhile (· == 49)).length digits ∧
      (∀ digit ∈ digits, digit < 58) ∧ digits.head? ≠ some 0 := by
  obtain ⟨zeroes, tail, rfl, hhead⟩ := exists_leading 49 symbols
  obtain ⟨digits, rest, rfl, hdigits, hrest⟩ := exists_digits tail
  have hnil : rest = [] := by
    cases rest with
    | nil => rfl
    | cons c rest => exact absurd (h c (by simp)) (hrest c rfl)
  subst hnil
  refine ⟨digits, ?_, hdigits, ?_⟩
  · rw [takeWhile_leading hhead, List.length_replicate, List.append_nil, text]
  · intro hzero
    apply hhead
    obtain ⟨tail, rfl⟩ := List.head?_eq_some_iff.mp hzero
    rfl

theorem mem_pszBase58_of_text {c : UInt8} (h : ∀ digit ∈ digits, digit < 58)
    (hc : c ∈ text zeroes digits) : c ∈ pszBase58 := by
  rcases List.mem_append.mp hc with hone | hdigit
  · obtain rfl := List.eq_of_mem_replicate hone
    decide
  · obtain ⟨digit, hmem, rfl⟩ := List.mem_map.mp hdigit
    have hsome := idxOf?_symbol (h digit hmem)
    by_contra hnot
    rw [List.idxOf?_eq_none_iff.mpr hnot] at hsome
    contradiction

theorem isspace_of_mem {c : UInt8} (h : c ∈ pszBase58) : isspace c = false := by
  obtain ⟨digit, hdigit, rfl⟩ := exists_symbol h
  exact isspace_symbol hdigit

/-- A text with spaces around it is accepted. -/
theorem decodeChars_text (before rest : List UInt8) (hdigits : ∀ digit ∈ digits, digit < 58)
    (hnonzero : digits.head? ≠ some 0) (hbefore : ∀ c ∈ before, isspace c = true)
    (hbehind : ∀ c ∈ rest, isspace c = true) (hzeroes : zeroes < 2 ^ 31) :
    decodeChars (before ++ (text zeroes digits ++ rest)) = .ok (some (bytes zeroes digits)) := by
  cases htext : text zeroes digits with
  | nil =>
    -- all spaces are in front
    have hempty : zeroes = 0 ∧ digits = [] := by
      simpa [text] using htext
    obtain ⟨rfl, rfl⟩ := hempty
    have hparts : Parts (before ++ ([] ++ rest)) (before ++ rest) 0 [] [] := by
      refine ⟨by simp [text], ?_, by simp, by simp, by simp, by simp [text]⟩
      intro c hc
      exact (List.mem_append.mp hc).elim (hbefore c) (hbehind c)
    simpa using decodeChars_parts hparts
  | cons c symbols =>
    have hparts : Parts (before ++ (c :: symbols ++ rest)) before zeroes digits rest := by
      refine ⟨by rw [htext], hbefore, hdigits, hnonzero, ?_, ?_⟩
      · intro other hother hmem
        have hspace := hbehind other (List.mem_of_head? hother)
        rw [isspace_of_mem hmem] at hspace
        contradiction
      · intro other hother
        have hmem : other ∈ text zeroes digits := by
          rw [htext] at hother ⊢
          simp_all
        exact (isspace_text hdigits hmem).1
    rw [decodeChars_parts hparts, if_pos hzeroes, if_pos hbehind]

/-- Characters that are accepted: those of the alphabet, with spaces around them, and with fewer
ones in front than an `int` can count. -/
def Spelled (psz : List UInt8) : Prop :=
  ∃ before symbols behind, psz = before ++ (symbols ++ behind) ∧
    (∀ c ∈ before, isspace c = true) ∧ (∀ c ∈ symbols, c ∈ pszBase58) ∧
    (∀ c ∈ behind, isspace c = true) ∧ (symbols.takeWhile (· == 49)).length < 2 ^ 31

theorem decodeChars_eq_some_iff {psz vch : List UInt8} :
    decodeChars psz = .ok (some vch) ↔ ∃ before zeroes digits behind,
      psz = before ++ (text zeroes digits ++ behind) ∧ (∀ c ∈ before, isspace c = true) ∧
      (∀ digit ∈ digits, digit < 58) ∧ digits.head? ≠ some 0 ∧
      (∀ c ∈ behind, isspace c = true) ∧ zeroes < 2 ^ 31 ∧ vch = bytes zeroes digits := by
  constructor
  · intro haccepted
    obtain ⟨before, zeroes, digits, rest, hparts⟩ := exists_parts psz
    rw [decodeChars_parts hparts] at haccepted
    split_ifs at haccepted with hzeroes hbehind
    · simp only [Except.ok.injEq, Option.some.injEq] at haccepted
      exact ⟨before, zeroes, digits, rest, hparts.eq, hparts.spaces, hparts.digits_lt,
        hparts.nonzero, hbehind, hzeroes, haccepted.symm⟩
    · simp at haccepted
  · rintro ⟨before, zeroes, digits, behind, rfl, hbefore, hdigits, hnonzero, hbehind, hzeroes, rfl⟩
    exact decodeChars_text _ _ hdigits hnonzero hbefore hbehind hzeroes

theorem exists_decodeChars_iff {psz : List UInt8} :
    (∃ vch, decodeChars psz = .ok (some vch)) ↔ Spelled psz := by
  constructor
  · rintro ⟨vch, haccepted⟩
    obtain ⟨before, zeroes, digits, behind, rfl, hbefore, hdigits, hnonzero, hbehind, hzeroes, _⟩ :=
      decodeChars_eq_some_iff.mp haccepted
    have hone := head?_symbols [] hdigits hnonzero (by simp)
    rw [List.append_nil] at hone
    refine ⟨before, text zeroes digits, behind, rfl, hbefore,
      fun c => mem_pszBase58_of_text hdigits, hbehind, ?_⟩
    rwa [text, takeWhile_leading hone, List.length_replicate]
  · rintro ⟨before, symbols, behind, rfl, hbefore, hsymbols, hbehind, hzeroes⟩
    obtain ⟨digits, htext, hdigits, hnonzero⟩ := exists_text hsymbols
    rw [htext]
    exact ⟨_, decodeChars_text _ _ hdigits hnonzero hbefore hbehind hzeroes⟩

theorem decodeChars_ne_assertion (psz : List UInt8) : decodeChars psz ≠ .error .assertion := by
  obtain ⟨before, zeroes, digits, rest, hparts⟩ := exists_parts psz
  rw [decodeChars_parts hparts]
  split_ifs <;> simp

end decode

section roundtrip

/-- The text neither begins nor ends with a space. -/
def Trimmed (str : List UInt8) : Prop :=
  (∀ c, str.head? = some c → isspace c = false) ∧ ∀ c, str.getLast? = some c → isspace c = false

/-- What is claimed of a byte string and of a text. -/
structure RoundTrips (vch str : List UInt8) : Prop where
  decode_encode : ∃ s, encodeBase58 vch = .ok s ∧ decodeBase58 s = .ok (some vch)
  no_assertion : encodeBase58 vch ≠ .error .assertion ∧ decodeBase58 str ≠ .error .assertion
  encode_decode : ∀ v, Trimmed str → decodeBase58 str = .ok (some v) → encodeBase58 v = .ok str

variable {zeroes : ℕ} {digits : List ℕ}

theorem c_str_of_forall {str : List UInt8} (h : ∀ c ∈ str, c ≠ 0) : c_str str = str := by
  apply List.takeWhile_eq_self_iff.mpr
  simpa using h

/-- The text of digits is read back as the bytes it stands for. -/
theorem decodeBase58_text (hdigits : ∀ digit ∈ digits, digit < 58)
    (hnonzero : digits.head? ≠ some 0) (hzeroes : zeroes < 2 ^ 31) :
    decodeBase58 (text zeroes digits) = .ok (some (bytes zeroes digits)) := by
  have hchars : c_str (text zeroes digits) = text zeroes digits :=
    c_str_of_forall fun c hc => (isspace_text hdigits hc).2
  have hdecode := decodeChars_text [] [] hdigits hnonzero (by simp)
    (by simp) hzeroes
  rw [List.nil_append, List.append_nil] at hdecode
  unfold decodeBase58
  rw [hchars, hdecode]

theorem map_toNat_map_ofNat (h : ∀ digit ∈ digits, digit < 256) :
    (digits.map UInt8.ofNat).map UInt8.toNat = digits := by
  have hsame : ∀ digit ∈ digits, (UInt8.toNat ∘ UInt8.ofNat) digit = id digit := by
    intro digit hdigit
    exact UInt8.toNat_ofNat_of_lt' (h digit hdigit)
  rw [List.map_map, List.map_congr_left hsame, List.map_id]

/-- The bytes that digits stand for are written with these digits. -/
theorem encodeBase58_bytes (hdigits : ∀ digit ∈ digits, digit < 58)
    (hnonzero : digits.head? ≠ some 0) (hzeroes : zeroes < 2 ^ 31) :
    encodeBase58 (bytes zeroes digits) = .ok (text zeroes digits) := by
  have hlt : ∀ digit ∈ shortest 256 (value 58 digits), digit < 256 := by
    intro digit hmem
    exact shortest_lt (by norm_num) hmem
  have hhead : ((shortest 256 (value 58 digits)).map UInt8.ofNat).head? ≠ some 0 := by
    intro hzero
    rw [List.head?_map, Option.map_eq_some_iff] at hzero
    obtain ⟨digit, hdigit, hbyte⟩ := hzero
    have hnat : digit = 0 := by
      have hback := UInt8.toNat_ofNat_of_lt' (hlt digit (List.mem_of_head? hdigit))
      rw [hbyte] at hback
      exact hback.symm
    rw [hnat] at hdigit
    exact head?_shortest _ hdigit
  unfold bytes
  rw [encodeBase58_leading hhead, if_pos hzeroes, map_toNat_map_ofNat hlt, value_shortest,
    shortest_value (by norm_num) hdigits hnonzero]

/-- The digits that are written for bytes stand for them. -/
theorem bytes_shortest {vch : List UInt8} (h : vch.head? ≠ some 0) :
    bytes zeroes (shortest 58 (value 256 (vch.map UInt8.toNat))) =
      List.replicate zeroes 0 ++ vch := by
  have hlt : ∀ digit ∈ vch.map UInt8.toNat, digit < 256 := by
    intro digit hdigit
    obtain ⟨byte, _, rfl⟩ := List.mem_map.mp hdigit
    exact byte.toNat_lt
  have hhead : (vch.map UInt8.toNat).head? ≠ some 0 := by
    intro hzero
    rw [List.head?_map, Option.map_eq_some_iff] at hzero
    obtain ⟨byte, hbyte, hnat⟩ := hzero
    have hnull : byte = 0 := UInt8.toNat_inj.mp hnat
    rw [hnull] at hbyte
    exact h hbyte
  have hsame : ∀ byte ∈ vch, (UInt8.ofNat ∘ UInt8.toNat) byte = id byte := by
    intro byte _
    exact UInt8.ofNat_toNat
  unfold bytes
  rw [value_shortest, shortest_value (by norm_num) hlt hhead, List.map_map,
    List.map_congr_left hsame, List.map_id]

/-- A byte string comes back exactly when its leading zeros can be counted. -/
theorem decode_encode_iff (vch : List UInt8) :
    (∃ s, encodeBase58 vch = .ok s ∧ decodeBase58 s = .ok (some vch)) ↔
      (vch.takeWhile (· == 0)).length < 2 ^ 31 := by
  obtain ⟨zeroes, tail, rfl, hhead⟩ := exists_leading 0 vch
  rw [takeWhile_leading hhead, List.length_replicate, encodeBase58_leading hhead]
  constructor
  · rintro ⟨s, hencode, _⟩
    split_ifs at hencode with hzeroes
    exact hzeroes
  · intro hzeroes
    rw [if_pos hzeroes]
    refine ⟨_, rfl, ?_⟩
    rw [decodeBase58_text (fun digit hmem => shortest_lt (by norm_num) hmem) (head?_shortest _)
      hzeroes, bytes_shortest hhead]

theorem encodeBase58_ne_assertion (vch : List UInt8) : encodeBase58 vch ≠ .error .assertion := by
  obtain ⟨zeroes, tail, rfl, hhead⟩ := exists_leading 0 vch
  rw [encodeBase58_leading hhead]
  split_ifs <;> simp

/-- What is written has no character that ends a C string. -/
theorem forall_ne_zero_of_encode {vch s : List UInt8} (h : encodeBase58 vch = .ok s) :
    ∀ c ∈ s, c ≠ 0 := by
  obtain ⟨zeroes, tail, rfl, hhead⟩ := exists_leading 0 vch
  rw [encodeBase58_leading hhead] at h
  split_ifs at h with hzeroes
  obtain rfl := Except.ok.inj h
  intro c hc
  exact (isspace_text (fun digit hmem => shortest_lt (by norm_num) hmem) hc).2

/-- A trimmed C string that is accepted is what is written for the bytes it stands for. -/
theorem encode_decode {str v : List UInt8} (hzero : 0 ∉ str) (htrimmed : Trimmed str)
    (haccepted : decodeBase58 str = .ok (some v)) : encodeBase58 v = .ok str := by
  unfold decodeBase58 at haccepted
  rw [c_str_of_forall fun c hc heq => hzero (heq ▸ hc)] at haccepted
  obtain ⟨before, zeroes, digits, behind, rfl, hbefore, hdigits, hnonzero, hbehind, hzeroes, rfl⟩ :=
    decodeChars_eq_some_iff.mp haccepted
  have hfront : before = [] := by
    cases before with
    | nil => rfl
    | cons c before =>
      have hspace := htrimmed.1 c rfl
      rw [hbefore c List.mem_cons_self] at hspace
      contradiction
  have hback : behind = [] := by
    rcases List.eq_nil_or_concat' behind with hnil | ⟨init, c, rfl⟩
    · exact hnil
    · have hspace := htrimmed.2 c (by simp)
      rw [hbehind c (by simp)] at hspace
      contradiction
  rw [encodeBase58_bytes hdigits hnonzero hzeroes, hfront, hback, List.nil_append,
    List.append_nil]

/-- Both directions hold exactly when the leading zeros can be counted, and the text does not end
inside at a character that ends a C string, behind others that are accepted. -/
theorem roundTrips_iff (vch str : List UInt8) :
    RoundTrips vch str ↔ (vch.takeWhile (· == 0)).length < 2 ^ 31 ∧
      (Trimmed str → 0 ∈ str → ¬ Spelled (c_str str)) := by
  constructor
  · intro h
    refine ⟨(decode_encode_iff vch).mp h.decode_encode, ?_⟩
    intro htrimmed hzero hspelled
    obtain ⟨v, haccepted⟩ := exists_decodeChars_iff.mpr hspelled
    exact forall_ne_zero_of_encode (h.encode_decode v htrimmed haccepted) 0 hzero rfl
  · rintro ⟨hzeroes, hchars⟩
    refine ⟨(decode_encode_iff vch).mpr hzeroes,
      ⟨encodeBase58_ne_assertion vch, decodeChars_ne_assertion _⟩, ?_⟩
    intro v htrimmed haccepted
    by_cases hzero : 0 ∈ str
    · exact absurd (exists_decodeChars_iff.mp ⟨v, haccepted⟩) (hchars htrimmed hzero)
    · exact encode_decode hzero htrimmed haccepted

/-- The text "2" and a NUL character is accepted. -/
theorem not_roundTrips : ¬ ∀ vch str, RoundTrips vch str := by
  intro hall
  have hdecode : decodeBase58 [50, 0] = .ok (some [1]) := by rfl
  have hencode : encodeBase58 [1] = .ok [50] := by rfl
  have htrimmed : Trimmed [50, 0] := ⟨by simp [isspace], by simp [isspace]⟩
  have hback := (hall [] [50, 0]).encode_decode [1] htrimmed hdecode
  rw [hencode] at hback
  contradiction

end roundtrip

end Lytix.Base58
