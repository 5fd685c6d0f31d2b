import Lytix.Chain.ChainState
import Lytix.Chain.ChainTrust
import Lytix.Payments.BlockHash
import Mathlib.Data.Nat.Size

/-! Targets in compact form and the work a target stands for. A compact number is a mantissa of
23 bits, a sign and an exponent to base 256. -/
namespace Lytix

namespace Compact

variable (nBits : UInt32)

def nSize : Nat := nBits.toNat / 2 ^ 24

/-- The mantissa, already shifted when the number is shorter than three bytes. -/
def nWord : Nat :=
  if nSize nBits ≤ 3 then nBits.toNat % 2 ^ 23 / 2 ^ (8 * (3 - nSize nBits))
  else nBits.toNat % 2 ^ 23

/-- `*pfNegative` and `*pfOverflow` of `SetCompact`. -/
def fNegative : Prop := nWord nBits ≠ 0 ∧ nBits.toNat.testBit 23

def fOverflow : Prop :=
  nWord nBits ≠ 0 ∧ (34 < nSize nBits ∨ 0xff < nWord nBits ∧ 33 < nSize nBits ∨
    0xffff < nWord nBits ∧ 32 < nSize nBits)

instance : Decidable (fNegative nBits) := inferInstanceAs (Decidable (_ ∧ _))
instance : Decidable (fOverflow nBits) := inferInstanceAs (Decidable (_ ∧ _))

/-- The number itself, of any length: mantissa times a power of 256. -/
def target : Nat := nWord nBits * 2 ^ (8 * (nSize nBits - 3))

/-- A target that counts: a positive number that fits. -/
structure Positive : Prop where
  positive : ¬ fNegative nBits
  fits : ¬ fOverflow nBits
  nonzero : target nBits ≠ 0

variable {nBits}

theorem nWord_lt : nWord nBits < 2 ^ 23 := by
  have hmantissa : nBits.toNat % 2 ^ 23 < 2 ^ 23 := Nat.mod_lt _ (by decide)
  unfold nWord
  split_ifs
  · exact lt_of_le_of_lt (Nat.div_le_self _ _) hmantissa
  · exact hmantissa

/-- `SetCompact` keeps the low 256 bits of the number. -/
theorem toNat_setCompact : (setCompact nBits).toNat = target nBits % 2 ^ 256 := by
  unfold setCompact target nWord nSize
  dsimp only
  split_ifs with hsize
  · have hshift : 8 * (nBits.toNat / 2 ^ 24 - 3) = 0 := by omega
    rw [BitVec.toNat_ofNat, hshift, pow_zero, mul_one]
  · have hmantissa : nBits.toNat % 2 ^ 23 < 2 ^ 256 :=
      lt_trans (Nat.mod_lt _ (by decide)) (by decide)
    rw [BitVec.toNat_shiftLeft, BitVec.toNat_ofNat, Nat.mod_eq_of_lt hmantissa, Nat.shiftLeft_eq]

/-- The overflow flag is set when the number has more than 256 bits. -/
theorem target_lt (hfits : ¬ fOverflow nBits) : target nBits < 2 ^ 256 := by
  unfold target
  by_cases hzero : nWord nBits = 0
  · rw [hzero, zero_mul]
    decide
  · have hbounds : nSize nBits ≤ 34 ∧ (33 < nSize nBits → nWord nBits ≤ 0xff) ∧
        (32 < nSize nBits → nWord nBits ≤ 0xffff) := by
      unfold fOverflow at hfits
      omega
    obtain ⟨hsize, hbyte, hpair⟩ := hbounds
    have hword := @nWord_lt nBits
    have hpow (e : ℕ) (h : 8 * (nSize nBits - 3) ≤ e) :
        2 ^ (8 * (nSize nBits - 3)) ≤ 2 ^ e := Nat.pow_le_pow_right (by decide) h
    by_cases h33 : 33 < nSize nBits
    · have := Nat.mul_le_mul (hbyte h33) (hpow 248 (by omega))
      omega
    · by_cases h32 : 32 < nSize nBits
      · have := Nat.mul_le_mul (hpair h32) (hpow 240 (by omega))
        omega
      · have := Nat.mul_le_mul (Nat.le_of_lt_succ hword) (hpow 232 (by omega))
        omega

theorem toNat_setCompact_of_fits (hfits : ¬ fOverflow nBits) :
    (setCompact nBits).toNat = target nBits := by
  rw [toNat_setCompact, Nat.mod_eq_of_lt (target_lt hfits)]

/-- The number that the fields of a compact number stand for. -/
theorem target_ofFields {mantissa size : ℕ} (hmantissa : mantissa < 2 ^ 23) (hsize : size < 2 ^ 8) :
    target (UInt32.ofNat (2 ^ 24 * size + mantissa)) =
      (if size ≤ 3 then mantissa / 2 ^ (8 * (3 - size)) else mantissa) * 2 ^ (8 * (size - 3)) := by
  have hvalue : (UInt32.ofNat (2 ^ 24 * size + mantissa)).toNat = 2 ^ 24 * size + mantissa := by
    rw [UInt32.toNat_ofNat']
    omega
  have hfields : nSize (UInt32.ofNat (2 ^ 24 * size + mantissa)) = size := by
    unfold nSize
    rw [hvalue]
    omega
  have hlow : (2 ^ 24 * size + mantissa) % 2 ^ 23 = mantissa := by omega
  unfold target nWord
  rw [hfields, hvalue, hlow]

/-! The fields that `GetCompact` packs. -/

/-- `nSize` of `GetCompact`: how many bytes a number has. -/
def byteCount (x : ℕ) : ℕ := (x.size + 7) / 8

/-- Its three highest bytes; a shorter number is filled up with zeros. -/
def topBytes (x : ℕ) : ℕ :=
  if byteCount x ≤ 3 then x * 2 ^ (8 * (3 - byteCount x)) else x / 2 ^ (8 * (byteCount x - 3))

/-- They would set the sign bit. -/
def signBit (x : ℕ) : Bool := (topBytes x).testBit 23

/-- The bytes that have no place in the mantissa. The sign bit makes room for one more byte of
exponent. -/
def cutBytes (x : ℕ) : ℕ := byteCount x - if signBit x then 2 else 3

def sizeField (x : ℕ) : ℕ := if signBit x then byteCount x + 1 else byteCount x

def mantissaField (x : ℕ) : ℕ := if signBit x then topBytes x / 2 ^ 8 else topBytes x

theorem lt_of_byteCount (x : ℕ) : x < 2 ^ (8 * byteCount x) := by
  apply Nat.size_le.mp
  unfold byteCount
  omega

theorem le_of_byteCount {x : ℕ} (h : 0 < byteCount x) : 2 ^ (8 * (byteCount x - 1)) ≤ x := by
  apply Nat.lt_size.mp
  unfold byteCount at *
  omega

theorem byteCount_le {x : ℕ} (hx : x < 2 ^ 256) : byteCount x ≤ 32 := by
  have hsize : x.size ≤ 256 := Nat.size_le.mpr hx
  unfold byteCount
  omega

theorem topBytes_lt (x : ℕ) : topBytes x < 2 ^ 24 := by
  have hupper := lt_of_byteCount x
  unfold topBytes
  split_ifs with h3
  · have hpow : 2 ^ (8 * byteCount x) * 2 ^ (8 * (3 - byteCount x)) = 2 ^ 24 := by
      rw [← pow_add]
      congr 1
      omega
    rw [← hpow]
    exact Nat.mul_lt_mul_of_pos_right hupper (by positivity)
  · have hexp : 24 + 8 * (byteCount x - 3) = 8 * byteCount x := by omega
    rw [Nat.div_lt_iff_lt_mul (by positivity), ← pow_add, hexp]
    exact hupper

/-- From three bytes on, the others are cut off. -/
theorem topBytes_of_le {x : ℕ} (h : 3 ≤ byteCount x) :
    topBytes x = x / 2 ^ (8 * (byteCount x - 3)) := by
  unfold topBytes
  split_ifs with h3
  · have hthree : byteCount x = 3 := by omega
    rw [hthree]
    simp
  · rfl

theorem signBit_iff (x : ℕ) : signBit x = true ↔ 2 ^ 23 ≤ topBytes x := by
  have htop := topBytes_lt x
  unfold signBit
  rw [Nat.testBit_eq_decide_div_mod_eq, decide_eq_true_eq]
  omega

theorem mantissaField_lt (x : ℕ) : mantissaField x < 2 ^ 23 := by
  have htop := topBytes_lt x
  have hsign := signBit_iff x
  unfold mantissaField
  split_ifs with h
  · omega
  · rw [hsign] at h
    omega

theorem getCompact_eq (n : Uint256) :
    getCompact n = 2 ^ 24 * sizeField n.toNat + mantissaField n.toNat := by
  have hor (m e : ℕ) (hm : m < 2 ^ 24) : m ||| e * 2 ^ 24 = 2 ^ 24 * e + m := by
    rw [Nat.or_comm, mul_comm, ← Nat.two_pow_add_eq_or_of_lt hm]
  have hcode : getCompact n =
      if signBit n.toNat then topBytes n.toNat / 2 ^ 8 ||| (byteCount n.toNat + 1) * 2 ^ 24
      else topBytes n.toNat ||| byteCount n.toNat * 2 ^ 24 := rfl
  have htop := topBytes_lt n.toNat
  rw [hcode]
  unfold sizeField mantissaField
  split_ifs
  · exact hor _ _ (by omega)
  · exact hor _ _ htop

theorem sizeField_lt (n : Uint256) : sizeField n.toNat < 2 ^ 8 := by
  have hbytes := byteCount_le n.isLt
  unfold sizeField
  split_ifs <;> omega

theorem getCompact_lt (n : Uint256) : getCompact n < 2 ^ 32 := by
  have hmantissa := mantissaField_lt n.toNat
  have hsize := sizeField_lt n
  rw [getCompact_eq]
  omega

/-- `GetCompact` keeps what is above the bytes that are cut off. -/
theorem target_getCompact (n : Uint256) : target (UInt32.ofNat (getCompact n)) =
    n.toNat / 2 ^ (8 * cutBytes n.toNat) * 2 ^ (8 * cutBytes n.toNat) := by
  rw [getCompact_eq, target_ofFields (mantissaField_lt _) (sizeField_lt n)]
  generalize n.toNat = x
  unfold mantissaField sizeField cutBytes
  cases hsign : signBit x with
  | true =>
    simp only [if_true]
    by_cases h2 : byteCount x ≤ 2
    · have hcut : byteCount x - 2 = 0 := by omega
      have hshift : 8 * (byteCount x + 1 - 3) = 0 := by omega
      have hexp : 8 + 8 * (3 - (byteCount x + 1)) = 8 * (3 - byteCount x) := by omega
      have htop : topBytes x = x * 2 ^ (8 * (3 - byteCount x)) := if_pos (by omega)
      rw [if_pos (by omega), Nat.div_div_eq_div_mul, ← pow_add, hexp, htop,
        Nat.mul_div_cancel _ (by positivity), hshift, hcut]
      simp
    · have hexp : 8 * (byteCount x - 3) + 8 = 8 * (byteCount x - 2) := by omega
      have hsize : 8 * (byteCount x + 1 - 3) = 8 * (byteCount x - 2) := by omega
      rw [if_neg (by omega), topBytes_of_le (by omega), Nat.div_div_eq_div_mul, ← pow_add, hexp,
        hsize]
  | false =>
    simp only [Bool.false_eq_true, if_false]
    by_cases h3 : byteCount x ≤ 3
    · have hcut : byteCount x - 3 = 0 := by omega
      have htop : topBytes x = x * 2 ^ (8 * (3 - byteCount x)) := if_pos h3
      rw [if_pos h3, htop, Nat.mul_div_cancel _ (by positivity), hcut]
      simp
    · rw [if_neg h3, topBytes_of_le (by omega)]

/-- A number has more bytes than are cut off, by two less a bit at least. -/
theorem le_of_cutBytes {x : ℕ} (h : cutBytes x ≠ 0) : 2 ^ (8 * cutBytes x + 15) ≤ x := by
  unfold cutBytes at h ⊢
  split_ifs at h ⊢ with hsign
  · have hhigh := (signBit_iff x).mp hsign
    have hexp : 23 + 8 * (byteCount x - 3) = 8 * (byteCount x - 2) + 15 := by omega
    rw [topBytes_of_le (by omega), Nat.le_div_iff_mul_le (by positivity), ← pow_add, hexp] at hhigh
    exact hhigh
  · refine le_trans (Nat.pow_le_pow_right (by decide) ?_) (le_of_byteCount (by omega))
    omega

theorem target_getCompact_le (n : Uint256) :
    target (UInt32.ofNat (getCompact n)) ≤ n.toNat := by
  rw [target_getCompact]
  exact Nat.div_mul_le_self _ _

/-- Less than half of a number is lost in compact form. -/
theorem lt_two_mul_target_getCompact {n : Uint256} (hn : n.toNat ≠ 0) :
    n.toNat < 2 * target (UInt32.ofNat (getCompact n)) := by
  rw [target_getCompact]
  have hunit : 2 ^ (8 * cutBytes n.toNat) ≤ n.toNat := by
    by_cases hcut : cutBytes n.toNat = 0
    · rw [hcut, mul_zero, pow_zero]
      exact Nat.pos_of_ne_zero hn
    · exact le_trans (Nat.pow_le_pow_right (by decide) (by omega)) (le_of_cutBytes hcut)
  generalize cutBytes n.toNat = j at hunit
  have hlost : n.toNat < n.toNat / 2 ^ (8 * j) * 2 ^ (8 * j) + 2 ^ (8 * j) :=
    Nat.lt_div_mul_add (by positivity)
  have hkept : 2 ^ (8 * j) ≤ n.toNat / 2 ^ (8 * j) * 2 ^ (8 * j) :=
    Nat.le_mul_of_pos_left _ (Nat.div_pos hunit (by positivity))
  omega

/-- Numbers a factor of two apart have different compact forms. -/
theorem getCompact_ne {a b : Uint256} (hb : b.toNat ≠ 0) (h : 2 * a.toNat ≤ b.toNat) :
    getCompact a ≠ getCompact b := by
  intro heq
  have hupper := lt_two_mul_target_getCompact hb
  have hlower := target_getCompact_le a
  rw [heq] at hlower
  omega

theorem toNat_getCompact (n : Uint256) :
    (UInt32.ofNat (getCompact n)).toNat = 2 ^ 24 * sizeField n.toNat + mantissaField n.toNat := by
  rw [UInt32.toNat_ofNat', ← getCompact_eq, Nat.mod_eq_of_lt (getCompact_lt n)]

/-- `SetCompact` finds no sign and no overflow in what `GetCompact` makes. -/
theorem getCompact_accepted (n : Uint256) : ¬ fNegative (UInt32.ofNat (getCompact n)) ∧
    ¬ fOverflow (UInt32.ofNat (getCompact n)) := by
  have hvalue := toNat_getCompact n
  have hmantissa := mantissaField_lt n.toNat
  have hbytes := byteCount_le n.isLt
  have htop := topBytes_lt n.toNat
  generalize UInt32.ofNat (getCompact n) = nBits at hvalue
  have hsize : nSize nBits = sizeField n.toNat := by
    unfold nSize
    omega
  constructor
  · rintro ⟨-, hsign⟩
    rw [hvalue, Nat.testBit_eq_decide_div_mod_eq, decide_eq_true_eq] at hsign
    omega
  · rintro ⟨-, hlong⟩
    have hword : 3 < nSize nBits → nWord nBits = mantissaField n.toNat := by
      intro h3
      unfold nWord
      rw [if_neg (by omega)]
      omega
    -- only a number of 32 bytes with the sign bit has the size 33
    rw [hsize] at hlong hword
    unfold sizeField mantissaField at *
    split_ifs at * <;> omega

/-- A word that `SetCompact` reads as a number that fits stands for three bytes at most, and the
sign bit is not one of them. -/
theorem dvd_target : 2 ^ (8 * cutBytes (target nBits)) ∣ target nBits := by
  have hword := @nWord_lt nBits
  unfold target
  generalize nWord nBits = w at hword
  generalize nSize nBits - 3 = k
  by_cases hw : w = 0
  · simp [hw]
  have hsize : (w * 2 ^ (8 * k)).size = w.size + 8 * k := by
    rw [← Nat.shiftLeft_eq, Nat.size_shiftLeft hw]
  have hcount : byteCount (w * 2 ^ (8 * k)) = byteCount w + k := by
    unfold byteCount
    omega
  have hshort : byteCount w ≤ 3 := by
    have hbits : w.size ≤ 23 := Nat.size_le.mpr hword
    unfold byteCount
    omega
  have hcut : cutBytes (w * 2 ^ (8 * k)) ≤ k := by
    unfold cutBytes
    rw [hcount]
    split_ifs with hsign
    · have hhigh := (signBit_iff _).mp hsign
      have hfew : byteCount w ≠ 3 := by
        intro hthree
        have hexp : 3 + k - 3 = k := by omega
        rw [topBytes_of_le (by omega), hcount, hthree, hexp,
          Nat.mul_div_cancel _ (by positivity)] at hhigh
        omega
      omega
    · omega
  exact Dvd.dvd.mul_left (pow_dvd_pow 2 (by omega)) w

theorem byteCount_mono {x y : ℕ} (h : x ≤ y) : byteCount x ≤ byteCount y := by
  have hsize := Nat.size_le_size h
  unfold byteCount
  omega

/-- A number that is not zero has a highest byte. -/
theorem le_topBytes {x : ℕ} (hx : x ≠ 0) : 2 ^ 16 ≤ topBytes x := by
  have hbytes : 0 < byteCount x := by
    have hsize := Nat.size_pos.mpr (Nat.pos_of_ne_zero hx)
    unfold byteCount
    omega
  have hlower := le_of_byteCount hbytes
  unfold topBytes
  split_ifs with h3
  · have hpow : 2 ^ (8 * (byteCount x - 1)) * 2 ^ (8 * (3 - byteCount x)) = 2 ^ 16 := by
      rw [← pow_add]
      congr 1
      omega
    rw [← hpow]
    exact Nat.mul_le_mul_right _ hlower
  · have hexp : 16 + 8 * (byteCount x - 3) = 8 * (byteCount x - 1) := by omega
    rw [Nat.le_div_iff_mul_le (by positivity), ← pow_add, hexp]
    exact hlower

/-- Numbers with as many bytes are compared by their highest ones. -/
theorem topBytes_mono {x y : ℕ} (h : x ≤ y) (hcount : byteCount x = byteCount y) :
    topBytes x ≤ topBytes y := by
  unfold topBytes
  rw [hcount]
  split_ifs
  · exact Nat.mul_le_mul_right _ h
  · exact Nat.div_le_div_right h

theorem getCompact_mono {x y : Uint256} (h : x ≤ y) : getCompact x ≤ getCompact y := by
  rw [BitVec.le_def] at h
  rw [getCompact_eq, getCompact_eq]
  generalize x.toNat = a at h
  generalize y.toNat = b at h
  have hcount := byteCount_mono h
  have htop := @topBytes_mono a b h
  have ha := topBytes_lt a
  have hb := topBytes_lt b
  have hasign := signBit_iff a
  have hbsign := signBit_iff b
  have hfilled : byteCount a < byteCount b → 2 ^ 16 ≤ topBytes b := by
    intro hless
    apply le_topBytes
    rintro rfl
    simp [byteCount] at hless
  unfold sizeField mantissaField
  rcases hcount.lt_or_eq with hless | hsame
  · -- the mantissa of the longer number is at least as large as one that made room for a sign
    have hlarge := hfilled hless
    split_ifs <;> omega
  · have hle := htop hsame
    split_ifs with h₁ h₂ h₂
    · omega
    · rw [hasign] at h₁
      rw [hbsign] at h₂
      omega
    · omega
    · omega

/-- What `GetCompact` makes is read back as a number that is not larger and has the same three
highest bytes, or two where the sign bit would be set. The order is kept, and what `SetCompact`
reads comes back as it is. -/
theorem setCompact_getCompact :
    (∀ x : Uint256, getCompact x < 2 ^ 32 ∧
      ¬ fNegative (UInt32.ofNat (getCompact x)) ∧ ¬ fOverflow (UInt32.ofNat (getCompact x)) ∧
      setCompact (UInt32.ofNat (getCompact x)) ≤ x ∧
      (setCompact (UInt32.ofNat (getCompact x))).toNat / 2 ^ (8 * cutBytes x.toNat) =
        x.toNat / 2 ^ (8 * cutBytes x.toNat)) ∧
    (∀ x y : Uint256, x ≤ y → getCompact x ≤ getCompact y) ∧
    ∀ c : UInt32, ¬ fNegative c → ¬ fOverflow c →
      setCompact (UInt32.ofNat (getCompact (setCompact c))) = setCompact c := by
  have hread (x : Uint256) : (setCompact (UInt32.ofNat (getCompact x))).toNat =
      x.toNat / 2 ^ (8 * cutBytes x.toNat) * 2 ^ (8 * cutBytes x.toNat) := by
    rw [toNat_setCompact_of_fits (getCompact_accepted x).2, target_getCompact]
  refine ⟨fun x => ?_, fun x y h => getCompact_mono h, ?_⟩
  · obtain ⟨hpositive, hfits⟩ := getCompact_accepted x
    refine ⟨getCompact_lt x, hpositive, hfits, ?_, ?_⟩
    · rw [BitVec.le_def, hread]
      exact Nat.div_mul_le_self _ _
    · rw [hread, Nat.mul_div_cancel _ (by positivity)]
  · intro c _ hfits
    apply BitVec.eq_of_toNat_eq
    rw [hread, toNat_setCompact_of_fits hfits, Nat.div_mul_cancel dvd_target]

end Compact

namespace Pow

/-- `base_uint::operator/=`, which throws an error on division by zero. -/
def divide (num div : Uint256) : Option Uint256 := if div = 0 then none else some (num / div)

/-- `GetBlockProof` in numbers of 256 bits, with the division that may throw. -/
def getBlockProof (nBits : UInt32) : Option Uint256 :=
  let bnTarget := setCompact nBits
  if Compact.fNegative nBits ∨ Compact.fOverflow nBits ∨ bnTarget = 0 then some 0
  else (divide (~~~bnTarget) (bnTarget + 1)).map fun quotient => quotient + 1

variable {nBits : UInt32}

theorem divide_of_ne_zero {num div : Uint256} (hdiv : div.toNat ≠ 0) :
    divide num div = some (BitVec.ofNat 256 (num.toNat / div.toNat)) := by
  have hne : div ≠ 0 := by
    rintro rfl
    exact hdiv rfl
  unfold divide
  rw [if_neg hne]
  congr 1
  apply BitVec.eq_of_toNat_eq
  have hlt : num.toNat / div.toNat < 2 ^ 256 := lt_of_le_of_lt (Nat.div_le_self _ _) num.isLt
  rw [BitVec.toNat_udiv, BitVec.toNat_ofNat, Nat.mod_eq_of_lt hlt]

theorem toNat_succ_setCompact : (setCompact nBits + 1).toNat = (setCompact nBits).toNat + 1 := by
  rw [BitVec.toNat_add]
  exact Nat.mod_eq_of_lt toNat_setCompact_lt

/-- `2^256` over a divisor, without the numerator. -/
theorem complement_div_add_one {t : ℕ} (ht : t < 2 ^ 256) :
    (2 ^ 256 - 1 - t) / (t + 1) + 1 = 2 ^ 256 / (t + 1) := by
  have hsum : 2 ^ 256 = (2 ^ 256 - 1 - t) + (t + 1) := by omega
  calc
    (2 ^ 256 - 1 - t) / (t + 1) + 1 = ((2 ^ 256 - 1 - t) + (t + 1)) / (t + 1) :=
      (Nat.add_div_right _ (Nat.succ_pos t)).symm
    _ = 2 ^ 256 / (t + 1) := by rw [← hsum]

/-- The work of a target that counts. -/
theorem getBlockProof_of_positive (h : Compact.Positive nBits) :
    getBlockProof nBits = some (BitVec.ofNat 256 (2 ^ 256 / (Compact.target nBits + 1))) := by
  obtain ⟨hpositive, hfits, htarget⟩ := h
  have hlt := Compact.target_lt hfits
  have hvalue := Compact.toNat_setCompact_of_fits hfits
  have hne : setCompact nBits ≠ 0 := by
    intro h
    rw [h] at hvalue
    exact htarget hvalue.symm
  have hdivisor : (setCompact nBits + 1).toNat ≠ 0 := by
    rw [toNat_succ_setCompact]
    omega
  unfold getBlockProof
  dsimp only
  rw [if_neg (by tauto), divide_of_ne_zero hdivisor, Option.map_some, toNat_succ_setCompact,
    BitVec.toNat_not, hvalue, ← complement_div_add_one hlt]
  congr 1
  exact (BitVec.ofNat_add _ _).symm

theorem getBlockProof_of_not_positive (h : ¬ Compact.Positive nBits) :
    getBlockProof nBits = some 0 := by
  have hcases : Compact.fNegative nBits ∨ Compact.fOverflow nBits ∨ setCompact nBits = 0 := by
    by_contra hnot
    have hfits : ¬ Compact.fOverflow nBits := by tauto
    refine h ⟨by tauto, hfits, fun hzero => hnot (Or.inr (Or.inr (BitVec.eq_of_toNat_eq ?_)))⟩
    rw [Compact.toNat_setCompact_of_fits hfits, hzero]
    rfl
  unfold getBlockProof
  dsimp only
  rw [if_pos hcases]

/-- The quotient of a target that counts is a number of 256 bits. -/
theorem work_lt {t : ℕ} (ht : t ≠ 0) : 2 ^ 256 / (t + 1) < 2 ^ 256 :=
  Nat.div_lt_self (by decide) (by omega)

/-- The block index keeps the same work. -/
theorem getBlockProof_eq :
    getBlockProof nBits = some (BitVec.ofNat 256 (Lytix.getBlockProof nBits)) := by
  have hvalue (h : ¬ Compact.fOverflow nBits) := Compact.toNat_setCompact_of_fits h
  by_cases h : Compact.Positive nBits
  · obtain ⟨hpositive, hfits, htarget⟩ := h
    have hwork : Lytix.getBlockProof nBits = 2 ^ 256 / (Compact.target nBits + 1) := by
      rw [← complement_div_add_one (Compact.target_lt hfits), ← hvalue hfits]
      refine if_neg ?_
      rw [hvalue hfits]
      exact not_or.mpr ⟨hpositive, not_or.mpr ⟨hfits, htarget⟩⟩
    rw [getBlockProof_of_positive ⟨hpositive, hfits, htarget⟩, hwork]
  · have hwork : Lytix.getBlockProof nBits = 0 := by
      refine if_pos ?_
      by_contra hnot
      have hparts := not_or.mp hnot
      have hrest := not_or.mp hparts.2
      have hfits : ¬ Compact.fOverflow nBits := hrest.1
      exact h ⟨hparts.1, hfits, by rw [← hvalue hfits]; exact hrest.2⟩
    rw [getBlockProof_of_not_positive h, hwork]
    rfl

/-- The work of a target is the number of hashes it takes, a smaller target is more of it, and
any other compact number is none. -/
theorem getBlockProof_exact :
    (∀ nBits, Compact.Positive nBits →
      (getBlockProof nBits).map BitVec.toNat = some (2 ^ 256 / (Compact.target nBits + 1))) ∧
    (∀ nBits₁ nBits₂ work₁ work₂, Compact.Positive nBits₁ → Compact.Positive nBits₂ →
      Compact.target nBits₁ ≤ Compact.target nBits₂ → getBlockProof nBits₁ = some work₁ →
      getBlockProof nBits₂ = some work₂ → work₂ ≤ work₁) ∧
    ∀ nBits, ¬ Compact.Positive nBits → getBlockProof nBits = some 0 := by
  have hwork : ∀ nBits, Compact.Positive nBits →
      (getBlockProof nBits).map BitVec.toNat = some (2 ^ 256 / (Compact.target nBits + 1)) := by
    intro nBits h
    rw [getBlockProof_of_positive h, Option.map_some, BitVec.toNat_ofNat,
      Nat.mod_eq_of_lt (work_lt h.nonzero)]
  refine ⟨hwork, ?_, fun nBits => getBlockProof_of_not_positive⟩
  intro nBits₁ nBits₂ work₁ work₂ h₁ h₂ hle hwork₁ hwork₂
  have hvalue₁ := hwork nBits₁ h₁
  have hvalue₂ := hwork nBits₂ h₂
  rw [hwork₁, Option.map_some, Option.some_inj] at hvalue₁
  rw [hwork₂, Option.map_some, Option.some_inj] at hvalue₂
  rw [BitVec.le_def, hvalue₁, hvalue₂]
  exact Nat.div_le_div_left (Nat.succ_le_succ hle) (Nat.succ_pos _)

end Pow
end Lytix
