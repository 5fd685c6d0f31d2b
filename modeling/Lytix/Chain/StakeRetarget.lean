import Lytix.Chain.NextWork

/-! The proof-of-stake target against its formula in unbounded integers. The factor of a long gap
does not fit 32 bits, and the product of an easy target with a gap of 97 days does not fit 256. -/
namespace Lytix

namespace Pow

theorem toNat_mulUint32 (a : Uint256) (n : ℕ) :
    (mulUint32 a n).toNat = a.toNat * (n % 2 ^ 32) % 2 ^ 256 := by
  unfold mulUint32
  have hfactor : n % 2 ^ 32 < 2 ^ 256 := lt_trans (Nat.mod_lt _ (by decide)) (by decide)
  rw [BitVec.toNat_mul, BitVec.toNat_setWidth, BitVec.ofInt_natCast, BitVec.toNat_ofNat,
    Nat.mod_eq_of_lt hfactor]

theorem toNat_ofInt64 {n : ℕ} (hn : n < 2 ^ 64) : (ofInt64 n).toNat = n := by
  unfold ofInt64
  rw [BitVec.toNat_setWidth, BitVec.ofInt_natCast, BitVec.toNat_ofNat, Nat.mod_eq_of_lt hn]
  exact Nat.mod_eq_of_lt (lt_trans hn (by decide))

@[simp] theorem toNat_stakeTargetLimit : stakeTargetLimit.toNat = 2 ^ 232 - 1 := by decide

/-- The gap between the times of a block and its parent. -/
def stakeGap (pindexLast pprev : CBlockIndex) : Int :=
  pindexLast.getBlockTime - pprev.getBlockTime

/-- A gap between block times as the formula counts it. -/
def countedGap (gap : Int) : Nat := if gap < 0 then 1 else gap.toNat

/-- `(interval - 1) * spacing + 2 * gap`. -/
def stakeFactor (gap : Int) : Nat := (40 - 1) * 60 + 2 * countedGap gap

/-- A quotient of zero or above the limit is replaced by the limit. -/
def stakeClamp (quotient : Nat) : Nat :=
  if quotient = 0 ∨ stakeTargetLimit.toNat < quotient then stakeTargetLimit.toNat else quotient

/-- The next target in unbounded integers. -/
def stakeFormula (old : Nat) (gap : Int) : Nat :=
  stakeClamp (old * stakeFactor gap / ((40 + 1) * 60))

/-- Neither the factor nor the product is cut off. -/
def StakeFits (old : Nat) (gap : Int) : Prop :=
  stakeFactor gap < 2 ^ 32 ∧ old * stakeFactor gap < 2 ^ 256

/-- The product that the code divides. -/
def stakeProduct (old : Nat) (gap : Int) : Nat := old * (stakeFactor gap % 2 ^ 32) % 2 ^ 256

/-- A product whose quotient is replaced by the limit or has the compact form of the limit. -/
def EndsAtLimit (product : Nat) : Prop :=
  product < (40 + 1) * 60 ∨ (40 + 1) * 60 * (0xffff * 2 ^ 216) ≤ product

variable {old : ℕ} {gap : ℤ} {pindexLast pprev : CBlockIndex}

theorem stakeClamp_ofNat {quotient : ℕ} (h : quotient < 2 ^ 256) :
    (if BitVec.ofNat 256 quotient ≤ 0 ∨ stakeTargetLimit < BitVec.ofNat 256 quotient
      then stakeTargetLimit else BitVec.ofNat 256 quotient) =
        BitVec.ofNat 256 (stakeClamp quotient) := by
  have hvalue : (BitVec.ofNat 256 quotient).toNat = quotient := by
    rw [BitVec.toNat_ofNat, Nat.mod_eq_of_lt h]
  have hzero : BitVec.ofNat 256 quotient ≤ 0 ↔ quotient = 0 := by
    rw [BitVec.le_def, hvalue]
    exact Nat.le_zero
  have habove : stakeTargetLimit < BitVec.ofNat 256 quotient ↔
      stakeTargetLimit.toNat < quotient := by
    rw [BitVec.lt_def, hvalue]
  unfold stakeClamp
  simp only [hzero, habove]
  split_ifs
  · rfl
  · rfl

/-- What the proof-of-stake branch computes. -/
theorem nextStakeTarget_eq (h : pindexLast.nHeight ≠ 0) :
    nextStakeTarget pindexLast pprev = some (BitVec.ofNat 256 (stakeClamp
      (stakeProduct (setCompact pindexLast.nBits).toNat (stakeGap pindexLast pprev) /
        ((40 + 1) * 60)))) := by
  have hspacing : (if pindexLast.nHeight ≠ 0 then pindexLast.getBlockTime - pprev.getBlockTime
      else 0) = stakeGap pindexLast pprev := if_pos h
  unfold nextStakeTarget
  dsimp only
  rw [hspacing]
  generalize stakeGap pindexLast pprev = gap
  have hfactor : ((60 * 40 / 60 - 1) * 60 + (if gap < 0 then 1 else gap) +
      (if gap < 0 then 1 else gap) : ℤ) = (stakeFactor gap : ℕ) := by
    unfold stakeFactor countedGap
    split_ifs with hneg
    · rfl
    · push_cast
      omega
  have hdivisor : (ofInt64 ((60 * 40 / 60 + 1) * 60)).toNat = (40 + 1) * 60 := by decide
  have hlt : stakeProduct (setCompact pindexLast.nBits).toNat gap / ((40 + 1) * 60) < 2 ^ 256 :=
    lt_of_le_of_lt (Nat.div_le_self _ _) (Nat.mod_lt _ (by decide))
  rw [hfactor, divide_of_ne_zero (by rw [hdivisor]; decide), hdivisor,
    toNat_mulUint32, Option.map_some, Option.some_inj]
  exact stakeClamp_ofNat hlt

/-- The compact form of every number with the leading bytes of the limit. -/
theorem getCompact_of_leading {n : Uint256} (hlow : 0xffff * 2 ^ 216 ≤ n.toNat)
    (hhigh : n.toNat < 2 ^ 232) : getCompact n = 0x1e00ffff := by
  have hsize : n.toNat.size = 232 :=
    le_antisymm (Nat.size_le.mpr hhigh) (Nat.lt_size.mpr (by omega))
  have hword : n.toNat / 2 ^ 208 / 2 ^ 8 = 0xffff := by omega
  have hsign : (n.toNat / 2 ^ 208).testBit 23 = true := by
    rw [Nat.testBit_eq_decide_div_mod_eq, decide_eq_true_eq]
    omega
  unfold getCompact
  rw [hsize]
  show (if (n.toNat / 2 ^ 208).testBit 23 = true then
    n.toNat / 2 ^ 208 / 2 ^ 8 ||| (29 + 1) * 2 ^ 24 else _) = _
  rw [if_pos hsign, hword]
  rfl

theorem getCompact_stakeTargetLimit : getCompact stakeTargetLimit = 0x1e00ffff :=
  getCompact_of_leading (by rw [toNat_stakeTargetLimit]; decide)
    (by rw [toNat_stakeTargetLimit]; decide)

/-- The compact form of the limit is that of every number with its leading bytes. -/
theorem getCompact_stakeClamp_eq_iff (product : ℕ) :
    getCompact (BitVec.ofNat 256 (stakeClamp (product / ((40 + 1) * 60)))) =
      getCompact stakeTargetLimit ↔ EndsAtLimit product := by
  unfold EndsAtLimit stakeClamp
  rw [toNat_stakeTargetLimit]
  by_cases hreplaced : product / ((40 + 1) * 60) = 0 ∨ 2 ^ 232 - 1 < product / ((40 + 1) * 60)
  · have hsame : BitVec.ofNat 256 (2 ^ 232 - 1) = stakeTargetLimit := by decide
    rw [if_pos hreplaced, hsame]
    exact iff_of_true rfl (by omega)
  · have hvalue : (BitVec.ofNat 256 (product / ((40 + 1) * 60))).toNat =
        product / ((40 + 1) * 60) := by
      rw [BitVec.toNat_ofNat]
      omega
    rw [if_neg hreplaced, getCompact_stakeTargetLimit]
    by_cases hleading : 0xffff * 2 ^ 216 ≤ product / ((40 + 1) * 60)
    · refine iff_of_true (getCompact_of_leading ?_ ?_) (by omega)
      · rw [hvalue]
        exact hleading
      · rw [hvalue]
        omega
    · refine iff_of_false ?_ (by omega)
      intro heq
      have hle := Compact.target_getCompact_le (BitVec.ofNat 256 (product / ((40 + 1) * 60)))
      have htarget : Compact.target (UInt32.ofNat 0x1e00ffff) = 0xffff * 2 ^ 216 := by decide
      rw [heq, htarget, hvalue] at hle
      exact hleading hle

/-- A product that stays below the limit is not cut off, so only the factor can be: the quotient
is then less than half of what it should be. -/
theorem getCompact_ne_of_cut (hcut : ¬ StakeFits old gap)
    (hbelow : ¬ EndsAtLimit (old * stakeFactor gap)) (hended : ¬ EndsAtLimit (stakeProduct old gap)) :
    getCompact (BitVec.ofNat 256 (stakeClamp (stakeProduct old gap / ((40 + 1) * 60)))) ≠
      getCompact (BitVec.ofNat 256 (stakeFormula old gap)) := by
  unfold StakeFits at hcut
  unfold EndsAtLimit at hbelow hended
  have hfactor : 2 ^ 32 ≤ stakeFactor gap := by omega
  have hhalf : 2 * (old * (stakeFactor gap % 2 ^ 32)) ≤ old * stakeFactor gap := by
    have hmod : 2 * (stakeFactor gap % 2 ^ 32) ≤ stakeFactor gap := by omega
    have := Nat.mul_le_mul_left old hmod
    rwa [mul_left_comm] at this
  have hproduct : stakeProduct old gap = old * (stakeFactor gap % 2 ^ 32) :=
    Nat.mod_eq_of_lt (by omega)
  have hkeeps {product : ℕ} (h : (40 + 1) * 60 ≤ product)
      (h' : product < (40 + 1) * 60 * (0xffff * 2 ^ 216)) :
      (BitVec.ofNat 256 (stakeClamp (product / ((40 + 1) * 60)))).toNat =
        product / ((40 + 1) * 60) := by
    unfold stakeClamp
    rw [toNat_stakeTargetLimit, if_neg (by omega), BitVec.toNat_ofNat]
    omega
  apply Compact.getCompact_ne
  · unfold stakeFormula
    rw [hkeeps (by omega) (by omega)]
    omega
  · unfold stakeFormula
    rw [hkeeps (by omega) (by omega), hkeeps (by omega) (by omega), hproduct]
    omega

/-- The compact forms agree when nothing is cut off, or when both end at the limit. -/
theorem getCompact_eq_stakeFormula_iff :
    getCompact (BitVec.ofNat 256 (stakeClamp (stakeProduct old gap / ((40 + 1) * 60)))) =
        getCompact (BitVec.ofNat 256 (stakeFormula old gap)) ↔
      StakeFits old gap ∨
        EndsAtLimit (old * stakeFactor gap) ∧ EndsAtLimit (stakeProduct old gap) := by
  by_cases hfits : StakeFits old gap
  · have hproduct : stakeProduct old gap = old * stakeFactor gap := by
      unfold stakeProduct
      rw [Nat.mod_eq_of_lt hfits.1, Nat.mod_eq_of_lt hfits.2]
    rw [hproduct]
    exact iff_of_true rfl (Or.inl hfits)
  · have hformula := getCompact_stakeClamp_eq_iff (old * stakeFactor gap)
    have hcode := getCompact_stakeClamp_eq_iff (stakeProduct old gap)
    constructor
    · intro heq
      by_cases hended : EndsAtLimit (stakeProduct old gap)
      · refine Or.inr ⟨hformula.mp ?_, hended⟩
        exact heq.symm.trans (hcode.mpr hended)
      · have hbelow : ¬ EndsAtLimit (old * stakeFactor gap) := by
          intro h
          exact hended (hcode.mp (heq.trans (hformula.mpr h)))
        exact absurd heq (getCompact_ne_of_cut hfits hbelow hended)
    · rintro (h | ⟨hlimit, hended⟩)
      · exact absurd h hfits
      · exact (hcode.mpr hended).trans (hformula.mpr hlimit).symm

/-- The heights where `GetNextWorkRequired` reaches the proof-of-stake branch. -/
theorem getNextWorkRequired_stake {network : Network} {ancestors : List CBlockIndex}
    (hstake : (Params network).nLastPOWBlock < pindexLast.nHeight) :
    getNextWorkRequired network (pindexLast :: pprev :: ancestors) = some (getCompact
      (BitVec.ofNat 256 (stakeClamp
        (stakeProduct (setCompact pindexLast.nBits).toNat (stakeGap pindexLast pprev) /
          ((40 + 1) * 60))))) := by
  have hlast : (250 : ℤ) ≤ (Params network).nLastPOWBlock := by
    cases network <;> decide
  have hheight : 250 < pindexLast.nHeight := by omega
  unfold getNextWorkRequired PastBlocksMin
  dsimp only
  rw [if_neg (by omega), if_pos hstake, nextStakeTarget_eq (by omega), Option.map_some]

/-- The proof-of-stake target is the formula's exactly when the factor and the product are not cut
off, except for products that end at the limit both ways. -/
theorem getNextWorkRequired_eq_stakeFormula_iff {network : Network} {chain : Headers}
    {ancestors : List CBlockIndex} (hblocks : chain.blocks = pindexLast :: pprev :: ancestors)
    (hstake : (Params network).nLastPOWBlock < pindexLast.nHeight) :
    let old := (setCompact pindexLast.nBits).toNat
    let gap := stakeGap pindexLast pprev
    getNextWorkRequired network chain.blocks =
        some (getCompact (BitVec.ofNat 256 (stakeFormula old gap))) ↔
      StakeFits old gap ∨
        EndsAtLimit (old * stakeFactor gap) ∧ EndsAtLimit (stakeProduct old gap) := by
  intro old gap
  rw [hblocks, getNextWorkRequired_stake hstake, Option.some_inj]
  exact getCompact_eq_stakeFormula_iff

/-- A chain of easy targets that pauses before its block 251. -/
def pausedBlock (pause k : Nat) : CBlockIndex where
  nHeight := k
  nTime := UInt32.ofNat (1630801782 + 60 * k + if k ≤ 250 then 0 else pause)
  nBits := 0x1e00ffff

theorem nHeight_pausedBlock (pause k : Nat) : (pausedBlock pause k).nHeight = k := rfl

def pausedChain (pause : Nat) : Headers :=
  Headers.ofHeights 252 (pausedBlock pause) (nHeight_pausedBlock pause)

theorem getBlockTime_pausedBlock {pause k : ℕ} (hk : k < 252) (hpause : pause < 2 ^ 31) :
    (pausedBlock pause k).getBlockTime =
      1630801782 + 60 * k + if k ≤ 250 then 0 else (pause : ℤ) := by
  unfold CBlockIndex.getBlockTime pausedBlock
  dsimp only
  split_ifs <;> rw [UInt32.toNat_ofNat', Nat.mod_eq_of_lt (by omega)] <;> omega

theorem pausedChain_timesAdmitted {pause : ℕ} (hpause : pause < 2 ^ 31) :
    (pausedChain pause).TimesAdmitted := by
  apply Headers.timesAdmitted_ofHeights
  intro j k hjk hk
  rw [getBlockTime_pausedBlock (by omega) hpause, getBlockTime_pausedBlock hk hpause]
  split_ifs <;> omega

theorem stakeGap_pausedBlock {pause : ℕ} (hpause : pause < 2 ^ 31) :
    stakeGap (pausedBlock pause 251) (pausedBlock pause 250) = 60 + pause := by
  unfold stakeGap
  rw [getBlockTime_pausedBlock (by omega) hpause, getBlockTime_pausedBlock (by omega) hpause,
    if_neg (by omega), if_pos (by omega)]
  push_cast
  omega

theorem blocks_pausedChain (pause : ℕ) :
    (pausedChain pause).blocks = pausedBlock pause 251 :: pausedBlock pause 250 ::
      (Headers.ofHeights 250 (pausedBlock pause) (nHeight_pausedBlock pause)).blocks := by
  unfold pausedChain
  rw [Headers.blocks_ofHeights_succ, Headers.blocks_ofHeights_succ]

theorem stakeHeight_pausedBlock (pause : ℕ) :
    (Params .testnet).nLastPOWBlock < (pausedBlock pause 251).nHeight := by
  rw [nHeight_pausedBlock]
  decide

/-- Without a pause the formula decides. -/
theorem pausedChain_follows :
    getNextWorkRequired .testnet (pausedChain 0).blocks = some (getCompact (BitVec.ofNat 256
      (stakeFormula (setCompact (pausedBlock 0 251).nBits).toNat
        (stakeGap (pausedBlock 0 251) (pausedBlock 0 250))))) := by
  refine (getNextWorkRequired_eq_stakeFormula_iff (blocks_pausedChain 0)
    (stakeHeight_pausedBlock 0)).mpr (Or.inl ?_)
  rw [stakeGap_pausedBlock (by decide)]
  unfold StakeFits
  decide

set_option maxRecDepth 4000 in
/-- After 97 days the next target falls to a small part of what it should be. -/
theorem pausedChain_diverges :
    (pausedChain 8387507).TimesAdmitted ∧ ∃ pindexLast pprev ancestors,
      (pausedChain 8387507).blocks = pindexLast :: pprev :: ancestors ∧
      (Params .testnet).nLastPOWBlock < pindexLast.nHeight ∧
      setCompact pindexLast.nBits ≤ stakeTargetLimit ∧
      getNextWorkRequired .testnet (pausedChain 8387507).blocks = some 0x1c352d2a ∧
      getCompact (BitVec.ofNat 256 (stakeFormula (setCompact pindexLast.nBits).toNat
        (stakeGap pindexLast pprev))) = 0x1e00ffff := by
  have hgap := @stakeGap_pausedBlock 8387507 (by decide)
  have hbits : (pausedBlock 8387507 251).nBits = 0x1e00ffff := rfl
  have htarget : (setCompact 0x1e00ffff).toNat = 0xffff * 2 ^ 216 := by decide
  refine ⟨pausedChain_timesAdmitted (by decide), _, _, _, blocks_pausedChain 8387507,
    stakeHeight_pausedBlock 8387507, ?_, ?_, ?_⟩
  · rw [hbits]
    decide
  · rw [blocks_pausedChain, getNextWorkRequired_stake (stakeHeight_pausedBlock 8387507), hgap,
      hbits, htarget]
    decide
  · rw [hgap, hbits, htarget]
    decide

end Pow
end Lytix
