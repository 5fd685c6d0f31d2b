import Lytix.Validation.ConnectBlock

/-! Accepting a block to the block files (`AcceptBlock`), with the stake checks it makes for a
block on a fork. -/
namespace Lytix
open Checks Ancestry

/-- What accepting a block asks besides the state of a consensus node: checkpoints, the work and
header rules, and whether the block gets written. -/
structure AcceptNode extends ConsensusNode where
  checkpointsCheckBlock : Nat → Uint256 → Bool
  /-- `ReconsiderBlock` leaves a valid state. -/
  reconsiderBlock : Uint256 → Bool
  checkWork : CBlock → Uint256 → Bool
  contextualCheckBlockHeader : CBlock → Option Uint256 → Bool
  contextualCheckBlock : CBlock → Option Uint256 → Bool
  writeBlock : CBlock → Bool

/-- The ways `AcceptBlock` returns true. Only the last one adds the block. -/
inductive AcceptResult where
  | reconsidered
  | alreadyStored
  | stored
deriving DecidableEq, Repr

section
variable (env : ConsensusEnv) (node : AcceptNode) (block : CBlock)

/-- `ReadBlockFromDisk` for an index entry, which compares the hash. -/
def AcceptNode.readBlock (pindex : Uint256) : Option CBlock :=
  (node.readBlockFromDisk pindex).filter fun block => block.hash == pindex

def contextualCheckZerocoinStake (nHeight : Nat) (stake : CStakeInput) : Validation Unit := do
  stopIf ((nHeight : Int) < node.params.nBlockZerocoinV2)
    ⟨0, "zLYTX stake block is less than allowed start height"⟩
  match stake with
  | .piv _ _ => .error ⟨0, "dynamic_cast of stake ptr failed"⟩
  | .zpiv nChecksum _ denom _ => do
    let pindexFrom ← orStop
      ⟨0, "failed to get index associated with zLYTX stake checksum"⟩ (stake.getIndexFrom node.toNode)
    stopIf (node.view.height - (node.view.index pindexFrom).nHeight <
        node.params.nZerocoinRequiredStakeDepth)
      ⟨0, "zLYTX stake does not have required confirmation depth"⟩
    -- the code reads through a null pointer when there is no such block
    let pindex200 ← orStop ⟨0, "no block at the checkpoint's height"⟩
      (node.view.chainAt (nHeight - node.params.nZerocoinRequiredStakeDepth))
    stopIf (parseChecksum (node.view.index pindex200).nAccumulatorCheckpoint
        (CoinDenomination.ofAmount stake.getValue) ≠ nChecksum)
      ⟨0, "accumulator checksum is different than the block 200 blocks previous"⟩

/-- The proof-of-stake checks before the header is accepted. -/
def acceptProofOfStake (pindexPrev : Option Uint256) : Validation Unit := do
  let (_, stake) ← orStop ⟨100, "proof of stake check failed"⟩
    (checkProofOfStake env.toKernelEnv node.toNode block)
  match stake with
  | .piv _ _ => .ok ()
  | .zpiv _ _ _ _ => do
    let prev ← orStop ⟨0, "null pindexPrev"⟩ pindexPrev
    match contextualCheckZerocoinStake node (node.view.index prev).nHeight stake with
    | .ok () => .ok ()
    | .error _ => .error ⟨100, "staked zLYTX fails context checks"⟩

/-- The entry of the block, known or made from its header. -/
def acceptBlockHeader (pindexPrev : Option Uint256) : Validation CBlockIndex :=
  if node.view.mapBlockIndex block.hash then do
    stopIf ((node.view.index block.hash).nStatus.failed = true) ⟨0, "duplicate"⟩
    pure (node.view.index block.hash)
  else do
    checkBlockHeader env node.toConsensusNode block false
    stopIf (node.contextualCheckBlockHeader block pindexPrev = false)
      ⟨0, "ContextualCheckBlockHeader"⟩
    pure {
      pprev := pindexPrev
      nHeight := (pindexPrev.map fun prev => (node.view.index prev).nHeight + 1).getD 0
      nVersion := block.nVersion
      nTime := block.nTime
      nBits := block.nBits
      nAccumulatorCheckpoint := if 3 < block.nVersion then block.nAccumulatorCheckpoint else 0 }

/-- Zerocoin spends are not repeated within the block, whatever the kind of transaction. -/
def checkInBlockSerials : Validation Unit := do
  let _inBlockSerials ← (block.vtx.flatMap CTransaction.vin).foldlM
    (checkSerial env "serial double spent on the same block") []

/-- One input of a block of the branch, against one plain input of the stake. -/
def scanStakeInput (hasZPIVInputs : Bool) (txin : CTxIn) (vBlockSerials : List Int)
    (stakeIn : CTxIn) : Validation (List Int) := do
  stopIf (stakeIn.prevout = txin.prevout) ⟨100, "input already spent on a previous block"⟩
  -- if there is zPoS staking then store the serials for later check
  if hasZPIVInputs && txin.scriptSig.isZerocoinSpend then do
    let spend ← parseSpend env txin
    pure (vBlockSerials ++ [spend.coinSerialNumber])
  else pure vBlockSerials

/-- One input of a block of the branch: loop through every plain input of the staking tx. -/
def scanInput (pivInputs : List CTxIn) (hasZPIVInputs : Bool) (vBlockSerials : List Int)
    (txin : CTxIn) : Validation (List Int) :=
  pivInputs.foldlM (scanStakeInput env hasZPIVInputs txin) vBlockSerials

/-- Go backwards on the forked chain up to the split: the serials stored, and the split. An entry
stands one above its predecessor, so its height bounds the rounds. -/
def scanBranch (pivInputs : List CTxIn) (hasZPIVInputs : Bool) :
    Nat → Uint256 → List Int → Validation (List Int × Uint256)
  | 0, _, _ => .error ⟨0, "null prev"⟩
  | rounds + 1, prev, vBlockSerials => do
    let bl ← orStop ⟨0, "previous block not on disk"⟩ (node.readBlock prev)
    let vBlockSerials ← (bl.vtx.flatMap CTransaction.vin).foldlM
      (scanInput env pivInputs hasZPIVInputs) vBlockSerials
    let next ← orStop ⟨0, "null prev"⟩ (node.view.pprev prev)
    if node.view.contains next then pure (vBlockSerials, next)
    else scanBranch pivInputs hasZPIVInputs rounds next vBlockSerials

/-- One zerocoin input of the stake, once the branch was scanned. -/
def checkZPIVInput (stakeTxIn : CTransaction) (nHeight splitHeight : Nat)
    (vBlockSerials : List Int) (zPivInput : CTxIn) : Validation Unit := do
  let spend ← parseSpend env zPivInput
  stopIf (spend.coinSerialNumber ∈ vBlockSerials) ⟨100, "serial double spent on fork"⟩
  stopIf (∃ nHeightTx ∈ node.serialHeight spend.coinSerialNumber, nHeightTx ≤ splitHeight)
    ⟨100, "serial double spent on main chain"⟩
  stopIf (contextualCheckZerocoinSpendNoSerialCheck env node.toConsensusNode stakeTxIn spend
      nHeight = false)
    ⟨100, "bad-txns-invalid-zpiv"⟩
  let bnAccumulatorValue ← orStop ⟨100, "stake zerocoinspend not ready to be spent"⟩
    (node.readAccumulatorValue spend.accChecksum)
  stopIf (env.verifySpend spend bnAccumulatorValue = false)
    ⟨100, "zerocoin spend did not verify"⟩

def zpivInputs (stakeTxIn : CTransaction) : List CTxIn :=
  stakeTxIn.vin.filter fun stakeIn => stakeIn.scriptSig.isZerocoinSpend

def pivInputs (stakeTxIn : CTransaction) : List CTxIn :=
  stakeTxIn.vin.filter fun stakeIn => !stakeIn.scriptSig.isZerocoinSpend

/-- The checks of a stake on a fork, and the split height. -/
def checkForkStake (stakeTxIn : CTransaction) (prev : Uint256) (nHeight : Nat) :
    Validation Nat := do
  let hasZPIVInputs := !(zpivInputs stakeTxIn).isEmpty
  let (vBlockSerials, split) ← scanBranch env node (pivInputs stakeTxIn) hasZPIVInputs
    ((node.view.index prev).nHeight + 1) prev []
  let splitHeight := (node.view.index split).nHeight
  (zpivInputs stakeTxIn).forM (checkZPIVInput env node stakeTxIn nHeight splitHeight vBlockSerials)
  pure splitHeight

/-- If the stake is not a zPoS then check if the inputs were spent on the main chain. A block on
a fork has a split height. -/
def checkStakeAvailable (stakeTxIn : CTransaction) (splitHeight : Option Nat) : Validation Unit :=
  checkWhen (stakeTxIn.isZerocoinSpend = false)
    (stopIf (∃ txin ∈ stakeTxIn.vin, ∃ coin ∈ node.accessCoins txin.prevout.hash,
        coin.isAvailable txin.prevout.n = false ∧
        ¬ ∃ split ∈ splitHeight, (split : Int) < coin.nHeight)
      ⟨0, "coin stake inputs already spent in main chain"⟩)

/-- The block's predecessor when it is not on the active chain. -/
def forkPrev (pindexPrev : Option Uint256) : Option Uint256 :=
  pindexPrev.filter fun prev => !node.view.contains prev

/-- The stake checks of a proof-of-stake block that is about to be stored. -/
def checkStakeInputs (pindexPrev : Option Uint256) (nHeight : Nat) : Validation Unit := do
  let stakeTxIn ← orStop ⟨0, "the block has no second transaction"⟩ block.vtx[1]?
  checkWhen (node.params.nZerocoinStartHeight ≤ nHeight) (checkInBlockSerials env block)
  match forkPrev node pindexPrev with
  | none => checkStakeAvailable node stakeTxIn none
  | some prev => do
    let splitHeight ← checkForkStake env node stakeTxIn prev nHeight
    checkStakeAvailable node stakeTxIn (some splitHeight)

/-- The checks of a block whose predecessor is good. -/
def acceptOnto (pindexPrev : Option Uint256) (fAlreadyCheckedBlock : Bool) :
    Validation AcceptResult := do
  stopIf (∃ prev ∈ pindexPrev, node.checkWork block prev = false) ⟨0, "incorrect proof of work"⟩
  checkWhen (block.isProofOfStake = true) (acceptProofOfStake env node block pindexPrev)
  let pindex ← acceptBlockHeader env node block pindexPrev
  if pindex.nStatus.haveData then pure .alreadyStored
  else do
    checkWhen (fAlreadyCheckedBlock = false) (checkBlock env node.toConsensusNode block true true)
    stopIf (node.contextualCheckBlock block pindex.pprev = false) ⟨0, "ContextualCheckBlock"⟩
    checkWhen (block.isProofOfStake = true)
      (checkStakeInputs env node block pindexPrev pindex.nHeight)
    stopIf (node.writeBlock block = false) ⟨0, "Failed to write block"⟩
    pure .stored

def acceptBlock (fAlreadyCheckedBlock : Bool) : Validation AcceptResult :=
  if block.hash = node.params.hashGenesisBlock then
    acceptOnto env node block none fAlreadyCheckedBlock
  else if node.view.mapBlockIndex block.hashPrevBlock = false then .error ⟨0, "bad-prevblk"⟩
  else if (node.view.index block.hashPrevBlock).nStatus.failed then
    if node.checkpointsCheckBlock (node.view.index block.hashPrevBlock).nHeight
        block.hashPrevBlock && node.reconsiderBlock block.hashPrevBlock then
      .ok .reconsidered
    else .error ⟨100, "bad-prevblk"⟩
  else acceptOnto env node block (some block.hashPrevBlock) fAlreadyCheckedBlock

end
end Lytix
