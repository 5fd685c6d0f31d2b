import Lytix.Validation.Recalculate

/-! The accumulators and their checkpoints: what `accumulators.cpp` computes from the chain when it
validates a checkpoint, and the accumulator values that it keeps under their checksums. -/
namespace Lytix
open CountEntries

/-- The numbers of the zerocoin library, the hash of a value, and the checkpoints in the code. The
flag of the parameters says whether they are those of the first version. -/
structure AccumulatorEnv where
  /-- The value before any coin. -/
  accumulatorBase : Bool → Int
  /-- `value.pow_mod(bnValue, accumulatorModulus)`. -/
  increment : Bool → Int → Int → Int
  getChecksum : Int → UInt32
  /-- `mapCheckpoints`, lowest height first. -/
  checkpoints : List (Nat × (CoinDenomination → Int))
  shutdownRequested : Nat → Bool

/-- The accumulator values in the zerocoin database, and `mapAccumulatorValues`. -/
structure AccumulatorValues where
  zerocoinDB : Table UInt32 Int
  mapAccumulatorValues : Table UInt32 Int

/-- An accumulator for each denomination; there is none for `ZQ_ERROR`. -/
structure AccumulatorMap where
  isZerocoinV1 : Bool
  value : CoinDenomination → Int

/-- `BlockToPubcoinList`: `none` where a mint is not of a denomination. -/
def blockToPubcoinList (env : ConsensusEnv) (block : CBlock) : Option (List PublicCoin) :=
  (block.vtx.flatMap fun tx => tx.vout.filter CTxOut.isZerocoinMint).mapM fun out =>
    (txOutToPublicCoin env out).toOption

section
variable (acc : AccumulatorEnv)

namespace AccumulatorMap

def start (isZerocoinV1 : Bool) : AccumulatorMap :=
  ⟨isZerocoinV1, fun _ => acc.accumulatorBase isZerocoinV1⟩

def reset (map : AccumulatorMap) : AccumulatorMap := start acc map.isZerocoinV1

/-- `Load` of a checkpoint: every checksum must have its value in the database. -/
def load (values : AccumulatorValues) (map : AccumulatorMap) (nCheckpoint : Uint256) :
    Option AccumulatorMap :=
  zerocoinDenomList.foldlM (fun map denom => do
    let bnValue ← values.zerocoinDB.lookup (parseChecksum nCheckpoint denom)
    pure { map with value := Function.update map.value denom bnValue }) map

/-- `Load` of a checkpoint in the code. -/
def loadHard (map : AccumulatorMap) (checkpoint : CoinDenomination → Int) : AccumulatorMap :=
  { map with value := checkpoint }

/-- `Accumulate` without validation. -/
def accumulate (map : AccumulatorMap) (pubCoin : PublicCoin) : Option AccumulatorMap :=
  if pubCoin.denomination = .ZQ_ERROR then none
  else
    let value := acc.increment map.isZerocoinV1 (map.value pubCoin.denomination) pubCoin.value
    some { map with value := Function.update map.value pubCoin.denomination value }

def getCheckpoint (map : AccumulatorMap) : Uint256 :=
  zerocoinDenomList.foldl (fun nCheckpoint denom =>
    nCheckpoint <<< 32 ||| BitVec.ofNat 256 (acc.getChecksum (map.value denom)).toNat) 0

end AccumulatorMap

/-- The height and the value of the checkpoint in the code that is taken for a height. -/
def getClosestCheckpoint (nHeight : Int) : Option (Nat × (CoinDenomination → Int)) :=
  acc.checkpoints.foldl (fun closest checkpoint =>
    if (checkpoint.1 : Int) < nHeight then
      match closest with
      | none => some checkpoint
      | some (nHeightCheckpoint, _) =>
        if nHeight - checkpoint.1 < nHeightCheckpoint then some checkpoint else closest
    else closest) none

def eraseChecksum (values : AccumulatorValues) (nChecksum : UInt32) : AccumulatorValues :=
  ⟨values.zerocoinDB.erase nChecksum, values.mapAccumulatorValues.erase nChecksum⟩

variable (env : ConsensusEnv) (node : Node)

/-- The checksums of one block. It is the whole checkpoint that is looked for among the checksums of
the block before the range. -/
def eraseBlockChecksums (listCheckpointsPrev : List UInt32) (values : AccumulatorValues)
    (pindex : Uint256) : AccumulatorValues :=
  let nCheckpointDelete := (node.view.index pindex).nAccumulatorCheckpoint
  zerocoinDenomList.foldl (fun values denom =>
    if listCheckpointsPrev.any fun nChecksum =>
        BitVec.ofNat 256 nChecksum.toNat == nCheckpointDelete then values
    else eraseChecksum values (parseChecksum nCheckpointDelete denom)) values

/-- `EraseCheckpoints`; `none` where it returns false. -/
def eraseCheckpoints (nStartHeight nEndHeight : Int) (values : AccumulatorValues) :
    Option AccumulatorValues := do
  if node.view.height < nStartHeight then none
  else do
    let nEndHeight := min node.view.height nEndHeight
    let chain ← node.view.chainFrom nStartHeight
    let first ← chain.head?
    let pprev ← node.view.pprev first
    let nCheckpointPrev := (node.view.index pprev).nAccumulatorCheckpoint
    let listCheckpointsPrev := zerocoinDenomList.map (parseChecksum nCheckpointPrev)
    let erased := chain.take (max 1 (nEndHeight - nStartHeight + 1)).toNat
    pure (erased.foldl (eraseBlockChecksums node listCheckpointsPrev) values)

/-- `InitializeAccumulators`: the height and the accumulators, if it returns true, and what it
leaves of the values. -/
def initializeAccumulators (nHeight : Int) (map : AccumulatorMap) (values : AccumulatorValues) :
    Option (Int × AccumulatorMap) × AccumulatorValues :=
  if nHeight < (Params node.network).nZerocoinStartHeight then (none, values)
  else if nHeight = (Params node.network).nBlockRecalculateAccumulators then
    let nLastGood := (Params node.network).nBlockLastGoodCheckpoint
    match (node.view.chainAt nLastGood).bind fun pindex =>
        (map.reset acc).load values (node.view.index pindex).nAccumulatorCheckpoint with
    | none => (none, values)
    | some map =>
      match eraseCheckpoints node (nLastGood + 1) nHeight values with
      | none => (none, values)
      | some values => (some (nLastGood, map), values)
  else
    let map :=
      if (Params node.network).nBlockZerocoinV2 ≤ nHeight then AccumulatorMap.start acc false
      else map
    if (Params node.network).nBlockZerocoinV2 ≤ nHeight ∧
        nHeight ≤ (Params node.network).nBlockZerocoinV2 + 20 then
      match getClosestCheckpoint acc nHeight with
      | none => (none, values)
      | some (nHeightCheckpoint, checkpoint) =>
        (some (nHeightCheckpoint, map.loadHard checkpoint), values)
    else
      match node.view.chainAt (nHeight - 1) with
      | none => (none, values)
      | some pindex =>
        let nCheckpointPrev := (node.view.index pindex).nAccumulatorCheckpoint
        if nCheckpointPrev = 0 then (some (nHeight, map.reset acc), values)
        else
          match map.load values nCheckpointPrev with
          | none => (none, values)
          | some map => (some (nHeight, map), values)

/-- One block of the window, with the accumulators and the number of mints so far. -/
def accumulateBlock (state : AccumulatorMap × Nat) (nHeight : Int) :
    Option (AccumulatorMap × Nat) := do
  let pindex ← node.view.chainAt nHeight
  if acc.shutdownRequested nHeight.toNat then none
  else if nHeight < (Params node.network).nZerocoinStartHeight then some state
  else do
    let block ← node.readBlock pindex
    let listPubcoins ← blockToPubcoinList env block
    let map ← listPubcoins.foldlM (AccumulatorMap.accumulate acc) state.1
    pure (map, state.2 + listPubcoins.length)

/-- The heights of the window below `nHeight - 10`. -/
def accumulatedHeights (nHeightCheckpoint nHeight : Int) : List Int :=
  (List.range (nHeight - 10 - (nHeightCheckpoint - 20)).toNat).map fun (i : Nat) =>
    nHeightCheckpoint - 20 + i

/-- `CalculateAccumulatorCheckpoint`: the checkpoint and the accumulators, if it returns true, and
what it leaves of the values. -/
def calculateAccumulatorCheckpoint (nHeight : Int) (map : AccumulatorMap)
    (values : AccumulatorValues) : Option (Uint256 × AccumulatorMap) × AccumulatorValues :=
  if nHeight < (Params node.network).nBlockZerocoinV2 then (some (0, map), values)
  else if nHeight % 10 ≠ 0 then
    ((node.view.chainAt (nHeight - 1)).map fun pindex =>
      ((node.view.index pindex).nAccumulatorCheckpoint, map), values)
  else
    match initializeAccumulators acc node nHeight (map.reset acc) values with
    | (none, values) => (none, values)
    | (some (nHeightCheckpoint, map), values) =>
      (do
        -- the first entry is read even where the window is empty
        let _pindex ← node.view.chainAt (nHeightCheckpoint - 20)
        let (map, nTotalMintsFound) ←
          (accumulatedHeights nHeightCheckpoint nHeight).foldlM (accumulateBlock acc env node)
            (map, 0)
        if nTotalMintsFound = 0 then do
          let pindex ← node.view.chainAt (nHeight - 1)
          pure ((node.view.index pindex).nAccumulatorCheckpoint, map)
        else pure (map.getCheckpoint acc, map), values)

/-- `ValidateAccumulatorCheckpoint`: whether it returns true, and what it leaves of the values. -/
def validateAccumulatorCheckpoint (fVerifyingBlocks : Bool) (block : CBlock)
    (pindex : CBlockIndex) (map : AccumulatorMap) (values : AccumulatorValues) :
    Bool × AccumulatorValues :=
  if (pindex.nHeight : Int) < (Params node.network).nBlockZerocoinV2 ∨ fVerifyingBlocks = true then
    (true, values)
  else if (pindex.nHeight : Int) % 10 = 0 then
    match calculateAccumulatorCheckpoint acc env node pindex.nHeight map values with
    | (none, values) => (false, values)
    | (some (nCheckpointCalculated, _), values) =>
      (nCheckpointCalculated == block.nAccumulatorCheckpoint, values)
  else
    match pindex.pprev with
    | none => (false, values)
    | some pprev =>
      (block.nAccumulatorCheckpoint == (node.view.index pprev).nAccumulatorCheckpoint, values)

end
end Lytix
