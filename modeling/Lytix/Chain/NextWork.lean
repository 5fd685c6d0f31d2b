import Lytix.Chain.Targets

/-! The work a block has to prove (`GetNextWorkRequired`): the average of past proof-of-work
targets scaled by the time they took, and a moving target for proof of stake. Numbers of 256 bits
wrap, factors of a product are converted to 32 bits, and a division by zero throws. -/
namespace Lytix

/-- An index entry with the entries before it, the latest first, back to the genesis block. -/
structure Headers where
  blocks : List CBlockIndex
  heights : ∀ i block, blocks[i]? = some block → block.nHeight + i + 1 = blocks.length

/-- `GetMedianTimePast`: the median of the latest eleven block times. -/
def getMedianTimePast (blocks : List CBlockIndex) : Int :=
  let pmedian := ((blocks.take 11).map CBlockIndex.getBlockTime).mergeSort
  (pmedian[pmedian.length / 2]?).getD 0

/-- The times of the headers passed `ContextualCheckBlockHeader`. -/
def Headers.TimesAdmitted (chain : Headers) : Prop :=
  ∀ i block, chain.blocks[i]? = some block → block.nHeight ≠ 0 →
    getMedianTimePast (chain.blocks.drop (i + 1)) < block.getBlockTime

/-- The first `n` blocks by height. -/
def Headers.ofHeights (n : Nat) (block : Nat → CBlockIndex)
    (heights : ∀ k, (block k).nHeight = k) : Headers where
  blocks := ((List.range n).map block).reverse
  heights i b hb := by
    have hi : i < n := by
      have hlength := (List.getElem?_eq_some_iff.mp hb).1
      simpa using hlength
    rw [List.getElem?_reverse (by simpa using hi), List.getElem?_map, List.length_map,
      List.length_range, List.getElem?_range (by omega), Option.map_some, Option.some_inj] at hb
    rw [← hb, heights, List.length_reverse, List.length_map, List.length_range]
    omega

theorem Headers.blocks_ofHeights_succ (n : Nat) (block : Nat → CBlockIndex)
    (heights : ∀ k, (block k).nHeight = k) :
    (Headers.ofHeights (n + 1) block heights).blocks =
      block n :: (Headers.ofHeights n block heights).blocks := by
  simp [Headers.ofHeights, List.range_succ]

theorem getMedianTimePast_lt {blocks : List CBlockIndex} {nTime : Int} (hpos : 0 < nTime)
    (h : ∀ block ∈ blocks, block.getBlockTime < nTime) : getMedianTimePast blocks < nTime := by
  unfold getMedianTimePast
  dsimp only
  generalize hmedian : (((blocks.take 11).map CBlockIndex.getBlockTime).mergeSort)[(_ : ℕ)]? = median
  cases median with
  | none => exact hpos
  | some median =>
    have hmem := List.mem_of_getElem? hmedian
    rw [List.mem_mergeSort, List.mem_map] at hmem
    obtain ⟨block, hblock, rfl⟩ := hmem
    exact h block (List.mem_of_mem_take hblock)

/-- Times that grow with the height pass. -/
theorem Headers.timesAdmitted_ofHeights {n : Nat} {block : Nat → CBlockIndex}
    (heights : ∀ k, (block k).nHeight = k)
    (hgrows : ∀ j k, j < k → k < n → (block j).getBlockTime < (block k).getBlockTime) :
    (Headers.ofHeights n block heights).TimesAdmitted := by
  induction n with
  | zero =>
    intro i b hb
    simp [ofHeights] at hb
  | succ n ih =>
    have hrest := ih fun j k hjk hk => hgrows j k hjk (by omega)
    intro i b hb hheight
    rw [blocks_ofHeights_succ] at hb ⊢
    cases i with
    | zero =>
      obtain rfl : block n = b := by simpa using hb
      have hbelow : ∀ b ∈ (ofHeights n block heights).blocks,
          b.getBlockTime < (block n).getBlockTime := by
        intro b hb
        simp only [ofHeights, List.mem_reverse, List.mem_map, List.mem_range] at hb
        obtain ⟨k, hk, rfl⟩ := hb
        exact hgrows k n hk (by omega)
      have hpos : 0 < (block n).getBlockTime := by
        rw [heights] at hheight
        have hgenesis := hgrows 0 n (by omega) (by omega)
        exact lt_of_le_of_lt (Int.natCast_nonneg _) hgenesis
      exact getMedianTimePast_lt hpos hbelow
    | succ i => exact hrest i b hb hheight

namespace Pow

/-- `Params().ProofOfWorkLimit()`. -/
def proofOfWorkLimit : Network → Uint256
  | .main | .unittest => ~~~(0 : Uint256) >>> 20
  | .testnet | .regtest => ~~~(0 : Uint256) >>> 1

/-- `Params().TargetSpacing()`, on every network. -/
def targetSpacing : Int := 60

/-- `operator*=(uint32_t)` on an `int64_t`. -/
def mulUint32 (a : Uint256) (n : Int) : Uint256 := a * (BitVec.ofInt 32 n).setWidth 256

/-- `base_uint(uint64_t)` on an `int64_t`. -/
def ofInt64 (n : Int) : Uint256 := (BitVec.ofInt 64 n).setWidth 256

/-- `bnTargetLimit` of proof of stake. -/
def stakeTargetLimit : Uint256 := ~~~(0 : Uint256) >>> 24

/-- The target after a proof-of-stake block, which moves with the time since the block before. -/
def nextStakeTarget (pindexLast pprev : CBlockIndex) : Option Uint256 :=
  let nTargetSpacing : Int := 60
  let nTargetTimespan : Int := 60 * 40
  let nActualSpacing :=
    if pindexLast.nHeight ≠ 0 then pindexLast.getBlockTime - pprev.getBlockTime else 0
  let nActualSpacing := if nActualSpacing < 0 then 1 else nActualSpacing
  let nInterval := nTargetTimespan / nTargetSpacing
  let bnNew := mulUint32 (setCompact pindexLast.nBits)
    ((nInterval - 1) * nTargetSpacing + nActualSpacing + nActualSpacing)
  (divide bnNew (ofInt64 ((nInterval + 1) * nTargetSpacing))).map fun bnNew =>
    if bnNew ≤ 0 ∨ stakeTargetLimit < bnNew then stakeTargetLimit else bnNew

def PastBlocksMin : Int := 24
def PastBlocksMax : Int := 24

/-- What the loop over past blocks carries along. -/
structure PastBlocks where
  nActualTimespan : Int := 0
  lastBlockTime : Int := 0
  countBlocks : Int := 0
  pastDifficultyAverage : Uint256 := 0
  pastDifficultyAveragePrev : Uint256 := 0

/-- The average with one more block, with the first block counted twice. -/
def PastBlocks.average (s : PastBlocks) (blockReading : CBlockIndex) : Option Uint256 :=
  if s.countBlocks + 1 = 1 then some (setCompact blockReading.nBits)
  else divide (mulUint32 s.pastDifficultyAveragePrev (s.countBlocks + 1) +
    setCompact blockReading.nBits) (ofInt64 (s.countBlocks + 1 + 1))

/-- One block of the loop. -/
def PastBlocks.read (s : PastBlocks) (blockReading : CBlockIndex) : Option PastBlocks :=
  let nActualTimespan :=
    if 0 < s.lastBlockTime then s.nActualTimespan + (s.lastBlockTime - blockReading.getBlockTime)
    else s.nActualTimespan
  let s' : PastBlocks :=
    { s with
      nActualTimespan
      lastBlockTime := blockReading.getBlockTime
      countBlocks := s.countBlocks + 1 }
  if s.countBlocks + 1 ≤ PastBlocksMin then
    (s.average blockReading).map fun average =>
      { s' with
        pastDifficultyAverage := average
        pastDifficultyAveragePrev := average }
  else some s'

/-- The loop from its `i`-th block on. -/
def PastBlocks.readFrom (s : PastBlocks) (i : Nat) : List CBlockIndex → Option PastBlocks
  | [] => some s
  | blockReading :: ancestors =>
    if blockReading.nHeight = 0 ∨ 0 < PastBlocksMax ∧ PastBlocksMax < i then some s
    else (s.read blockReading).bind fun s => s.readFrom (i + 1) ancestors

/-- The target after a proof-of-work block. -/
def nextWorkTarget (network : Network) (blocks : List CBlockIndex) : Option Uint256 :=
  (PastBlocks.readFrom {} 1 blocks).bind fun s =>
    let nTargetTimespan := s.countBlocks * targetSpacing
    let nActualTimespan :=
      if s.nActualTimespan < nTargetTimespan / 3 then nTargetTimespan / 3 else s.nActualTimespan
    let nActualTimespan :=
      if nTargetTimespan * 3 < nActualTimespan then nTargetTimespan * 3 else nActualTimespan
    (divide (mulUint32 s.pastDifficultyAverage nActualTimespan) (ofInt64 nTargetTimespan)).map
      fun bnNew => if proofOfWorkLimit network < bnNew then proofOfWorkLimit network else bnNew

/-- The compact target of the block after `pindexLast`, the first of the blocks. -/
def getNextWorkRequired (network : Network) : List CBlockIndex → Option Nat
  | [] => some (getCompact (proofOfWorkLimit network))
  | pindexLast :: ancestors =>
    if pindexLast.nHeight = 0 ∨ pindexLast.nHeight < PastBlocksMin then
      some (getCompact (proofOfWorkLimit network))
    else if (Params network).nLastPOWBlock < pindexLast.nHeight then
      match ancestors with
      -- a null pointer
      | [] => none
      | pprev :: _ => (nextStakeTarget pindexLast pprev).map getCompact
    else (nextWorkTarget network (pindexLast :: ancestors)).map getCompact

end Pow
end Lytix

/-! How the chance of a stake depends on its value. The weighted target is a product that wraps, so
with an easy target a larger stake can have the smaller chance. -/
namespace Lytix

/-- Values up to the money supply limit for which more stake never lowers the chance. -/
def MoreStakeHelps (network : Network) (bnTargetPerCoinDay : Uint256) : Prop :=
  ∀ (hashProofOfStake : Uint256) (v w : Int), 0 ≤ v → v ≤ w →
    w ≤ (Params network).nMaxMoneyOut →
    stakeTargetHit hashProofOfStake v bnTargetPerCoinDay = true →
    stakeTargetHit hashProofOfStake w bnTargetPerCoinDay = true

variable {network : Network} {hash target : Uint256} {v : ℕ}

theorem nMaxMoneyOut_cast : (Params network).nMaxMoneyOut = (10 ^ 16 : ℕ) := by
  cases network <;> decide

/-- A hit in numbers, for an amount of money. -/
theorem stakeTargetHit_iff (hv : v ≤ 10 ^ 16) :
    stakeTargetHit hash v target = true ↔ hash.toNat < v / 100 * target.toNat % 2 ^ 256 := by
  have hvalue : ((BitVec.ofInt 64 (v : ℤ)).setWidth 256 : Uint256).toNat = v := by
    rw [BitVec.toNat_setWidth, BitVec.ofInt_natCast, BitVec.toNat_ofNat]
    omega
  have hhundred : (100 : Uint256).toNat = 100 := by decide
  unfold stakeTargetHit
  dsimp only
  rw [decide_eq_true_eq, BitVec.lt_def, BitVec.toNat_mul, BitVec.toNat_udiv, hvalue, hhundred]

/-- Without a wrap the weighted target grows with the value. -/
theorem moreStakeHelps_of_fits (hfits : 10 ^ 16 / 100 * target.toNat < 2 ^ 256) :
    MoreStakeHelps network target := by
  intro hash v w hv hvw hw hit
  rw [nMaxMoneyOut_cast] at hw
  lift v to ℕ using hv
  lift w to ℕ using by omega
  have hle : v / 100 ≤ w / 100 := Nat.div_le_div_right (by omega)
  have hmax : w / 100 ≤ 10 ^ 16 / 100 := Nat.div_le_div_right (by omega)
  have hgrows := Nat.mul_le_mul_right target.toNat hle
  have hbound := Nat.mul_le_mul_right target.toNat hmax
  rw [stakeTargetHit_iff (by omega), Nat.mod_eq_of_lt (by omega)] at hit
  rw [stakeTargetHit_iff (by omega), Nat.mod_eq_of_lt (by omega)]
  omega

/-- With a wrap there is a first weight whose product no longer fits, and one coin less hits where
it fails. -/
theorem not_moreStakeHelps_of_wraps (hwraps : 2 ^ 256 ≤ 10 ^ 16 / 100 * target.toNat) :
    ¬ MoreStakeHelps network target := by
  have hexists : ∃ weight, 2 ^ 256 ≤ weight * target.toNat := ⟨_, hwraps⟩
  have hfirst := Nat.find_spec hexists
  have hleast : Nat.find hexists ≤ 10 ^ 16 / 100 := Nat.find_min' hexists hwraps
  have hpositive : Nat.find hexists ≠ 0 := by
    intro hzero
    rw [hzero, zero_mul] at hfirst
    omega
  obtain ⟨weight, hweight⟩ := Nat.exists_eq_succ_of_ne_zero hpositive
  have hbefore : weight * target.toNat < 2 ^ 256 := by
    have := Nat.find_min hexists (show weight < Nat.find hexists by omega)
    omega
  rw [hweight, Nat.succ_eq_add_one] at hfirst hleast
  have hstep : (weight + 1) * target.toNat = weight * target.toNat + target.toNat :=
    Nat.succ_mul _ _
  have htarget := target.isLt
  intro h
  have hhash : (BitVec.ofNat 256 ((weight + 1) * target.toNat - 2 ^ 256)).toNat =
      (weight + 1) * target.toNat - 2 ^ 256 := by
    rw [BitVec.toNat_ofNat]
    omega
  have hmore := h (BitVec.ofNat 256 ((weight + 1) * target.toNat - 2 ^ 256)) (100 * weight : ℕ)
    (100 * (weight + 1) : ℕ) (by omega) (by omega) (by rw [nMaxMoneyOut_cast]; omega) ?_
  · rw [stakeTargetHit_iff (by omega), hhash, Nat.mul_div_cancel_left _ (by decide)] at hmore
    omega
  · rw [stakeTargetHit_iff (by omega), hhash, Nat.mul_div_cancel_left _ (by decide)]
    omega

/-- More stake never lowers the chance exactly for targets whose product with the weight of the
whole money supply fits 256 bits. -/
theorem moreStakeHelps_iff (network : Network) (target : Uint256) :
    MoreStakeHelps network target ↔
      ((Params network).nMaxMoneyOut / 100).toNat * target.toNat < 2 ^ 256 := by
  have hsupply : ((Params network).nMaxMoneyOut / 100).toNat = 10 ^ 16 / 100 := by
    rw [nMaxMoneyOut_cast]
    decide
  rw [hsupply]
  constructor
  · intro h
    by_contra hnot
    exact not_moreStakeHelps_of_wraps (not_lt.mp hnot) h
  · exact moreStakeHelps_of_fits

def kernelHash : Uint256 := BitVec.ofNat 256 (65279 * 2 ^ 216)

/-- At the limit of proof of stake 16.777472 coins hit where a millionth of a coin more misses. -/
theorem larger_stake_misses :
    setCompact 0x1e00ffff ≤ Pow.stakeTargetLimit ∧ 1677747300 ≤ (Params .main).nMaxMoneyOut ∧
    stakeTargetHit kernelHash 1677747200 (setCompact 0x1e00ffff) = true ∧
    stakeTargetHit kernelHash 1677747300 (setCompact 0x1e00ffff) = false := by
  have htarget : (setCompact 0x1e00ffff).toNat = 0xffff * 2 ^ 216 := by decide
  have hhash : kernelHash.toNat = 65279 * 2 ^ 216 := by decide
  have hsmall := @stakeTargetHit_iff kernelHash (setCompact 0x1e00ffff) 1677747200 (by decide)
  have hlarge := @stakeTargetHit_iff kernelHash (setCompact 0x1e00ffff) 1677747300 (by decide)
  rw [htarget, hhash] at hsmall hlarge
  refine ⟨by decide, by decide, hsmall.mpr (by decide), ?_⟩
  rw [← Bool.not_eq_true]
  exact fun hit => absurd (hlarge.mp hit) (by decide)

end Lytix
