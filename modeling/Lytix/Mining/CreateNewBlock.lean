import Lytix.Mining.ScanPool

/-! The second loop of `CreateNewBlock`, which takes transactions off the priority queue, and the
block it makes. -/
namespace Lytix

open CountEntries Dependencies Heaps

/-- What the loop carries along. -/
structure CollectState (δ : Type) where
  vecPriority : List (TxPriority δ)
  vOrphan : Table Uint256 (Waiting Uint256 (TxPriority δ))
  view : CoinsMap
  fSortedByFee : Bool
  nBlockSize : Nat := 1000
  nBlockSigOps : Nat := 100
  nFees : Int := 0
  vBlockSerials : List Int := []
  vTxSerials : List Int := []
  vtx : List CTransaction := []
  vTxFees : List Int := []
  vTxSigOps : List Nat := []

variable {δ : Type} [LinearOrder δ]

section
variable [Zero δ] [Add δ] (env : MinerEnv δ) (node : MinerNode δ) (nHeight : Int)

/-- Size, legacy signature operations, and free transactions past the minimum block size. -/
def failsLimits (st : CollectState δ) (e : TxPriority δ) : Bool :=
  let (dPriorityDelta, nFeeDelta) := node.applyDeltas e.tx.hash 0 0
  decide (node.nBlockMaxSize ≤ st.nBlockSize + env.txSize e.tx) ||
    decide ( MAX_BLOCK_SIGOPS_CURRENT ≤ st.nBlockSigOps + env.legacySigOpCount e.tx) ||
    (!e.tx.isZerocoinSpend && st.fSortedByFee && decide (dPriorityDelta ≤ 0) &&
      decide (nFeeDelta ≤ 0) && decide (e.feeRate < node.minRelayTxFee) &&
      decide (node.nBlockMinSize ≤ st.nBlockSize + env.txSize e.tx))

/-- Prioritise by fee once past the priority size or we run out of high-priority transactions. -/
def sortByFee (st : CollectState δ) (e : TxPriority δ) : CollectState δ :=
  if !st.fSortedByFee && (decide (node.nBlockPrioritySize ≤ st.nBlockSize + env.txSize e.tx) ||
      !env.allowFree e.dPriority) then
    { st with fSortedByFee := true, vecPriority := (env.heap true).make st.vecPriority }
  else st

/-- The loop over the inputs of a zerocoin spend: whether a serial is invalid or spent already,
and the serials recorded. `none` is the exception of the parser. -/
def scanSerials (vBlockSerials : List Int) (vTxSerials : List Int) :
    List CTxIn → Option (Bool × List Int)
  | [] => some (false, vTxSerials)
  | txIn :: vin =>
    if txIn.scriptSig.isZerocoinSpend then
      (env.txInToZerocoinSpend txIn).bind fun spend =>
        if !env.hasValidSerial spend || decide (spend.coinSerialNumber ∈ vBlockSerials) ||
            decide (spend.coinSerialNumber ∈ vTxSerials) then some (true, vTxSerials)
        else scanSerials vBlockSerials (vTxSerials ++ [spend.coinSerialNumber]) vin
    else scanSerials vBlockSerials vTxSerials vin

/-- Double check that there are no double spent zerocoin spends in this block or transaction. -/
def doubleSpends (vBlockSerials vTxSerials : List Int) (tx : CTransaction) :
    Option (Bool × List Int) :=
  if tx.isZerocoinSpend then
    if (node.transactionHeight tx.hash).isSome then some (true, vTxSerials)
    else scanSerials env vBlockSerials vTxSerials tx.vin
  else some (false, vTxSerials)

def getP2SHSigOpCount (tx : CTransaction) (view : CoinsMap) : Nat :=
  if tx.isCoinBase || tx.isZerocoinSpend then 0
  else env.p2shSigOpCount tx (tx.vin.map view.outputFor)

/-- The signature operations that a transaction counts for. -/
def txSigOps (view : CoinsMap) (tx : CTransaction) : Nat :=
  env.legacySigOpCount tx + getP2SHSigOpCount env tx view

/-- `CheckInputs` under `MANDATORY_SCRIPT_VERIFY_FLAGS`. -/
def checkMandatory (view : CoinsMap) (tx : CTransaction) : Validation Unit :=
  checkInputs { env.toConsensusEnv with scriptCheck := env.mandatoryScriptCheck }
    node.toConsensusNode view tx nHeight true

/-- Add a transaction that passed, and the transactions that depended on it to the queue. -/
def addTx (mapDependers : Uint256 → List Uint256) (st : CollectState δ) (tx : CTransaction)
    (nTxFees : Int) (view : CoinsMap) : Option (CollectState δ) := do
  let (vOrphan, freed) ← releaseAll tx.hash (mapDependers tx.hash) (st.vOrphan, [])
  pure {
    vecPriority := (env.heap st.fSortedByFee).pushAll st.vecPriority freed
    vOrphan := vOrphan
    view := view
    fSortedByFee := st.fSortedByFee
    nBlockSize := st.nBlockSize + env.txSize tx
    nBlockSigOps := st.nBlockSigOps + txSigOps env st.view tx
    nFees := st.nFees + nTxFees
    vBlockSerials := st.vBlockSerials ++ st.vTxSerials
    vTxSerials := st.vTxSerials
    vtx := st.vtx ++ [tx]
    vTxFees := st.vTxFees ++ [nTxFees]
    vTxSigOps := st.vTxSigOps ++ [txSigOps env st.view tx] }

/-- One round, for the transaction that was taken off the queue. There is no result when the code
throws, fails an assertion or follows a pointer to an orphan that was removed. -/
def collectTx (mapDependers : Uint256 → List Uint256) (st : CollectState δ) (e : TxPriority δ) :
    Option (CollectState δ) :=
  if failsLimits env node st e then some st
  else
    let st := sortByFee env node st e
    if st.view.haveInputs e.tx = false then some st
    else do
      let (fDoubleSerial, vTxSerials) ← doubleSpends env node st.vBlockSerials st.vTxSerials e.tx
      -- the serials that were recorded stay when the transaction is skipped
      let st : CollectState δ := { st with vTxSerials := vTxSerials }
      if fDoubleSerial then some st
      else do
        let nValueOut ← e.tx.getValueOut
        if MAX_BLOCK_SIGOPS_CURRENT ≤ st.nBlockSigOps + txSigOps env st.view e.tx then some st
        else if (checkMandatory env node nHeight st.view e.tx).isOk = false then some st
        else do
          let (_txundo, view) ← updateCoins nHeight st.view e.tx
          addTx env mapDependers st e.tx (st.view.getValueIn e.tx - nValueOut) view

/-- Take the highest priority transaction off the priority queue. -/
def takeTop (st : CollectState δ) : Option (TxPriority δ × CollectState δ) :=
  ((env.heap st.fSortedByFee).takeFirst st.vecPriority).map fun (e, vecPriority) =>
    (e, { st with vecPriority := vecPriority })

/-- The loop. The queue gets every transaction at most once, so the number of transactions bounds
the rounds. -/
def collect (mapDependers : Uint256 → List Uint256) :
    ℕ → CollectState δ → Option (CollectState δ)
  | 0, st => some st
  | n + 1, st =>
    match takeTop env st with
    | none => some st
    | some (e, st) => (collectTx env node nHeight mapDependers st e).bind (collect mapDependers n)

/-- The rounds of the loop: what was taken off the queue, and the state that it met. -/
def roundsFrom (mapDependers : Uint256 → List Uint256) :
    ℕ → CollectState δ → List (TxPriority δ × CollectState δ)
  | 0, _ => []
  | n + 1, st =>
    match takeTop env st with
    | none => []
    | some (e, st) => (e, st) :: match collectTx env node nHeight mapDependers st e with
      | none => []
      | some st => roundsFrom mapDependers n st

def startCollecting (scan : PoolScan δ) : CollectState δ where
  vecPriority := (env.heap (node.nBlockPrioritySize == 0)).make scan.vecPriority
  vOrphan := scan.vOrphan
  view := node.coins
  fSortedByFee := node.nBlockPrioritySize == 0

/-- The transactions that the block takes from the pool. -/
def collectPool : Option (CollectState δ) := do
  let scan ← scanPool env node nHeight
  collect env node nHeight scan.mapDependers node.pool.transactions.length
    (startCollecting env node scan)

def rounds : List (TxPriority δ × CollectState δ) :=
  match scanPool env node nHeight with
  | none => []
  | some scan => roundsFrom env node nHeight scan.mapDependers node.pool.transactions.length
      (startCollecting env node scan)

/-- The height of the next block. -/
def nextHeight (tip : Uint256) : Int := (node.view.index tip).nHeight + 1

/-- The block with its header. -/
def fillBlock (tip : Uint256) (vtx : List CTransaction) : CBlock where
  hash := node.blockHash vtx
  nVersion := if node.params.nZerocoinStartTime ≤ node.adjustedTime then 4 else 3
  hashPrevBlock := tip
  hashMerkleRoot := 0
  nTime := node.blockTime
  nBits := node.nextWorkRequired
  nNonce := 0
  nAccumulatorCheckpoint := node.accumulatorCheckpoint
  vtx := vtx

/-- `TestBlockValidity`, without the proof of work and the merkle root. -/
def testBlockValidity (tip : Uint256) (block : CBlock) : Bool :=
  let indexDummy : CBlockIndex := {
    pprev := some tip
    nHeight := (node.view.index tip).nHeight + 1
    nVersion := block.nVersion
    nTime := block.nTime
    nBits := block.nBits
    nAccumulatorCheckpoint := if 3 < block.nVersion then block.nAccumulatorCheckpoint else 0 }
  node.contextualCheckBlockHeader block (some tip) &&
    (checkBlock env.toConsensusEnv node.toConsensusNode block false false).isOk &&
    node.contextualCheckBlock block (some tip) &&
    (connectBlock env.toConsensusEnv node.toConsensusNode block node.coins node.hashBestBlock
      indexDummy true false).isOk

structure CBlockTemplate where
  block : CBlock
  vTxFees : List Int
  vTxSigOps : List Nat

/-- The coinbase, and the coinstake of a proof-of-stake block. A proof-of-work block has none, a
proof-of-stake block is not made without. -/
def coinTransactions (fProofOfStake : Bool) (nFees : Int) : Option (List CTransaction) :=
  if fProofOfStake then node.coinStake.map fun txCoinStake => [node.coinBase nFees, txCoinStake.1]
  else some [node.coinBase nFees]

def createNewBlock (fProofOfStake : Bool) : Option CBlockTemplate := do
  let tip ← node.view.tip
  let st ← collectPool env node (nextHeight node tip)
  let coinTxs ← coinTransactions node fProofOfStake st.nFees
  let block := fillBlock node tip (coinTxs ++ st.vtx)
  if testBlockValidity env node tip block then
    some {
      block := block
      vTxFees := (if fProofOfStake then -1 else -st.nFees) :: st.vTxFees
      vTxSigOps := env.legacySigOpCount (node.coinBase st.nFees) :: st.vTxSigOps }
  else none

end
end Lytix
