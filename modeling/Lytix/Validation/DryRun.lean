import Lytix.Zerocoin.Accumulators
import Lytix.Zerocoin.CoinRecords

/-! `ConnectBlock` up to the mark before which nothing should be stored, with what it stores all
the same: the block before it may be the one of the recalculation, and the wallet is told of its own
mints. -/
namespace Lytix
open Checks CountEntries

/-- A transaction in the wallet, as `AddToWallet` compares it. -/
structure CWalletTx where
  tx : CTransaction
  nTimeReceived : Int
  hashBlock : Uint256
  vMerkleBranch : List Uint256
  nIndex : Int

/-- The wallet: its mint records, and its transactions. -/
structure CWallet (M : Type) where
  mintRecords : M
  mapWallet : Table Uint256 CWalletTx

/-- The wallet's answers about its mints. Updating a mint can bring in the transaction that spent
it, and takes none away. -/
structure MintWallet (M : Type) where
  isMyMint : M → Int → Bool
  updateMint : CWallet M → Int → Nat → Uint256 → CoinDenomination → CWallet M
  updateMint_keeps : ∀ wallet bnValue nHeight txid denom hash,
    hash ∈ wallet.mapWallet → hash ∈ (updateMint wallet bnValue nHeight txid denom).mapWallet
  getMerkleBranch : CBlock → Nat → List Uint256
  adjustedTime : Int

/-- `BlockToZerocoinMintList`: the mints up to the first that is not of a denomination. -/
def blockToZerocoinMints (env : ConsensusEnv) (block : CBlock) : List (PublicCoin × Uint256) :=
  ((block.vtx.flatMap fun tx => (tx.vout.filter CTxOut.isZerocoinMint).map fun out =>
    (txOutToPublicCoin env out).toOption.map fun pubCoin => (pubCoin, tx.hash)).takeWhile
      Option.isSome).reduceOption

section
variable {M : Type} (calls : MintWallet M)

/-- `AddToWallet`: a transaction that is known gets the new block, branch and index. -/
def addToWallet (mapWallet : Table Uint256 CWalletTx) (wtxIn : CWalletTx) :
    Table Uint256 CWalletTx :=
  match mapWallet.lookup wtxIn.tx.hash with
  | none =>
    let nTimeReceived :=
      if wtxIn.nTimeReceived = 0 then calls.adjustedTime else wtxIn.nTimeReceived
    mapWallet.insert wtxIn.tx.hash { wtxIn with nTimeReceived := nTimeReceived }
  | some wtx =>
    let hashBlock := if wtxIn.hashBlock ≠ 0 then wtxIn.hashBlock else wtx.hashBlock
    let newIndex := wtxIn.nIndex ≠ -1
    mapWallet.insert wtxIn.tx.hash
      { wtx with
        hashBlock := hashBlock
        vMerkleBranch := if newIndex then wtxIn.vMerkleBranch else wtx.vMerkleBranch
        nIndex := if newIndex then wtxIn.nIndex else wtx.nIndex }

/-- A transaction of a block, with its place there. -/
def walletTx (block : CBlock) (tx : CTransaction) : CWalletTx :=
  let nIndex := block.vtx.findIdx fun other => other == tx
  ⟨tx, block.getBlockTime, block.hash, calls.getMerkleBranch block nIndex, nIndex⟩

/-- What the loop over the mints carries along: the wallet and `setAddedToWallet`. -/
structure TrackState (M : Type) where
  wallet : CWallet M
  setAddedToWallet : List Uint256 := []

def addMintTransaction (block : CBlock) (txHash : Uint256) (st : TrackState M)
    (tx : CTransaction) : TrackState M :=
  if tx.hash ∈ st.setAddedToWallet then st
  else if tx.hash = txHash then
    { st with
      wallet :=
        { st.wallet with mapWallet := addToWallet calls st.wallet.mapWallet (walletTx calls block tx) }
      setAddedToWallet := tx.hash :: st.setAddedToWallet }
  else st

/-- One mint of the block, if it is the wallet's own. -/
def trackMint (block : CBlock) (nHeight : Nat) (st : TrackState M) (mint : PublicCoin × Uint256) :
    TrackState M :=
  if calls.isMyMint st.wallet.mintRecords mint.1.value then
    let wallet := calls.updateMint st.wallet mint.1.value nHeight mint.2 mint.1.denomination
    block.vtx.foldl (addMintTransaction calls block mint.2) { st with wallet := wallet }
  else st

/-- The wallet after `UpdateZPIVSupply`. -/
def trackMints (env : ConsensusEnv) (block : CBlock) (nHeight : Nat) (wallet : CWallet M) :
    CWallet M :=
  ((blockToZerocoinMints env block).foldl (trackMint calls block nHeight) ⟨wallet, []⟩).wallet

end

/-- What is kept between the blocks besides the coins. -/
structure StoredState (M : Type) where
  zerocoinDB : CZerocoinDB
  accumulators : AccumulatorValues
  store : IndexStore
  pwalletMain : Option (CWallet M)

/-- How `ConnectBlock` ends up to the mark; `aborted` ends the program. -/
inductive MarkEnd (M : Type) where
  | refused (reject : Reject) (s : StoredState M)
  | atMark (outcome : ConnectOutcome) (s : StoredState M)
  | aborted

/-- Everything that `ConnectBlock` calls outside the consensus code. -/
structure ConnectCalls (M : Type) where
  getHash : Int → Uint256
  wallet : MintWallet M
  acc : AccumulatorEnv
  /-- `GetInvalidUTXOValue`. -/
  nLocked : Int

/-- The node that reads what is stored. -/
def ConsensusNode.reading {M : Type} (node : ConsensusNode) (calls : ConnectCalls M)
    (s : StoredState M) : ConsensusNode :=
  { node with
    view := s.store.view
    readAccumulatorValue := fun nChecksum => s.accumulators.zerocoinDB.lookup nChecksum
    readCoinSpend := s.zerocoinDB.readCoinSpend calls.getHash
    readCoinMint := s.zerocoinDB.readCoinMint calls.getHash }

section
variable {M : Type} (calls : ConnectCalls M) (env : ConsensusEnv) (node : ConsensusNode)

/-- The loop over the transactions, after the checks before it. -/
def connectTransactions (block : CBlock) (coins : CoinsMap) (hashBestBlock : Uint256)
    (pindex : CBlockIndex) (fJustCheck fAlreadyChecked : Bool) : Validation ConnectState := do
  connectBlockHeader env node block coins hashBestBlock pindex fJustCheck fAlreadyChecked
  block.vtx.foldlM
    (connectTx env node block pindex.nHeight (decide (node.totalBlocksEstimate ≤ pindex.nHeight)))
    { coins := coins }

/-- From the supply of zerocoins to the value of the block. -/
def connectSupplies (block : CBlock) (pindex : CBlockIndex) (st : ConnectState) :
    Validation CBlockIndex := do
  let pindex ← updateZPIVSupply env node block pindex
  let pindex := trackMoneySupply node pindex st
  checkBlockValue node block pindex st.nFees
  pure pindex

/-- The stored state when the supplies have been tracked. The wallet hears of the mints of a block
that has a predecessor. -/
def storeTracked (block : CBlock) (pindex : CBlockIndex) (store : IndexStore) (s : StoredState M) :
    StoredState M :=
  { s with
    store := store
    pwalletMain :=
      if pindex.pprev.isSome then
        s.pwalletMain.map (trackMints calls.wallet env block pindex.nHeight)
      else s.pwalletMain }

/-- `ConnectBlock` up to the mark. -/
def connectUpToMark (s : StoredState M) (block : CBlock) (coins : CoinsMap)
    (hashBestBlock : Uint256) (pindex : CBlockIndex) (fJustCheck fAlreadyChecked : Bool) :
    MarkEnd M :=
  let before := node.reading calls s
  match connectTransactions env before block coins hashBestBlock pindex fJustCheck
    fAlreadyChecked with
  | .error reject => .refused reject s
  | .ok st =>
    match recalculateOnce env before.toNode calls.nLocked pindex.nHeight s.store with
    | none => .aborted
    | some store =>
      let tracked := storeTracked calls env block pindex store s
      let after := node.reading calls tracked
      match connectSupplies env after block pindex st with
      | .error reject => .refused reject tracked
      | .ok supplied =>
        let map := AccumulatorMap.start calls.acc
          (decide ((pindex.nHeight : Int) < after.params.nBlockZerocoinV2))
        let (fValid, values) := validateAccumulatorCheckpoint calls.acc env after.toNode
          after.fVerifyingBlocks block supplied map tracked.accumulators
        let checked := { tracked with accumulators := values }
        if fValid then
          .atMark ⟨st.coins, supplied, st.vtxundo.drop 1, st.vSpends, st.vMints⟩ checked
        else .refused ⟨100, "bad-acc-checkpoint"⟩ checked

/-- A refused block, and a dry run, leave this state. -/
def MarkEnd.Leaves (fJustCheck : Bool) (s : StoredState M) : MarkEnd M → Prop
  | .refused _ s' => s' = s
  | .atMark _ s' => fJustCheck = true → s' = s
  | .aborted => True

/-- The state with other records in the block tree and other transactions in the wallet. -/
def StoredState.withRecords (s : StoredState M) (blockTree : Table Uint256 CBlockIndex)
    (mapWallet : Table Uint256 CWalletTx) : StoredState M :=
  { s with
    store := ⟨s.store.view, blockTree⟩
    pwalletMain := s.pwalletMain.map fun wallet => ⟨wallet.mintRecords, mapWallet⟩ }

/-- Dry runs and refused blocks change nothing, whatever is on disk of the block tree and whatever
transactions the wallet has. -/
def LeavesStored (s : StoredState M) (block : CBlock) (coins : CoinsMap) (hashBestBlock : Uint256)
    (pindex : CBlockIndex) (fAlreadyChecked : Bool) : Prop :=
  ∀ (blockTree : Table Uint256 CBlockIndex) (mapWallet : Table Uint256 CWalletTx)
    (fJustCheck : Bool),
    (connectUpToMark calls env node (s.withRecords blockTree mapWallet) block coins hashBestBlock
      pindex fJustCheck fAlreadyChecked).Leaves fJustCheck (s.withRecords blockTree mapWallet)

/-- The wallet is told of no mint of the block. -/
def NoOwnMints (s : StoredState M) (block : CBlock) (pindex : CBlockIndex) : Prop :=
  pindex.pprev.isSome = true → ∀ wallet ∈ s.pwalletMain, ∀ mint ∈ blockToZerocoinMints env block,
    calls.wallet.isMyMint wallet.mintRecords mint.1.value = false

/-- The block is refused before the supplies are tracked, or the recalculation ends the program, or
there is no recalculation and no mint of the wallet's own. -/
def StoresNothing (s : StoredState M) (block : CBlock) (coins : CoinsMap) (hashBestBlock : Uint256)
    (pindex : CBlockIndex) (fAlreadyChecked : Bool) : Prop :=
  (∃ reject, connectTransactions env (node.reading calls s) block coins hashBestBlock pindex true
      fAlreadyChecked = .error reject) ∨
    recalculateOnce env (node.reading calls s).toNode calls.nLocked pindex.nHeight s.store = none ∨
    ((pindex.nHeight : Int) ≠ node.params.nBlockRecalculateAccumulators + 1 ∧
      NoOwnMints calls env s block pindex)

end

end Lytix
