import Lytix.Validation.CheckTransaction

/-! The checks of a block that need no coins (`CheckBlock`). -/
namespace Lytix
open Checks

def MAX_BLOCK_SIZE_CURRENT : Nat := 2000000
def MAX_BLOCK_SIGOPS_CURRENT : Nat := MAX_BLOCK_SIZE_CURRENT / 50
def MAX_BLOCK_SIGOPS_LEGACY : Nat := 1000000 / 50

section
variable (env : ConsensusEnv) (node : ConsensusNode) (block : CBlock)

/-- `block.GetBlockTime() > Params().Zerocoin_StartTime()`. -/
def zerocoinActive : Bool := decide (node.params.nZerocoinStartTime < block.getBlockTime)

def checkBlockHeader (fCheckPOW : Bool) : Validation Unit := do
  stopIf (fCheckPOW = true ∧ env.checkProofOfWork block.hash block.nBits = false)
    ⟨50, "high-hash"⟩
  if zerocoinActive node block then
    stopIf (block.nVersion < node.params.nZerocoinHeaderVersion) ⟨50, "block-version"⟩
  else
    stopIf (node.params.nZerocoinHeaderVersion ≤ block.nVersion) ⟨50, "block-version"⟩

def checkMerkleRoot : Validation Unit := do
  let (hashMerkleRoot2, mutated) := env.buildMerkleTree (block.vtx.map CTransaction.hash)
  stopIf (block.hashMerkleRoot ≠ hashMerkleRoot2) ⟨100, "bad-txnmrklroot"⟩
  stopIf (mutated = true) ⟨100, "bad-txns-duplicate"⟩

/-- First transaction must be coinbase, the rest must not be; the same with the coinstake, which
comes second, in a proof-of-stake block. -/
def checkCoinTransactions : Validation Unit := do
  stopIf ((block.vtx.head?.any CTransaction.isCoinBase) = false) ⟨100, "bad-cb-missing"⟩
  stopIf (∃ tx ∈ block.vtx.drop 1, tx.isCoinBase = true) ⟨100, "bad-cb-multiple"⟩
  checkWhen (block.isProofOfStake = true) (do
    stopIf ((block.vtx.head?.any fun tx => tx.vout.length == 1 && tx.vout.all CTxOut.isEmpty) = false)
      ⟨100, "CheckBlock() : coinbase output not empty for proof-of-stake block"⟩
    -- the second transaction is a coinstake by the definition of the block's kind
    stopIf (∃ tx ∈ block.vtx.drop 2, tx.isCoinStake = true)
      ⟨100, "CheckBlock() : more than one coinstake"⟩)

/-- Inputs locked by a complete consensus are spent by the transaction they are locked for. -/
def checkLockedInputs : Validation Unit :=
  checkWhen (isSporkActive node.sporks .SPORK_3_SWIFTTX_BLOCK_FILTERING = true)
    (stopIf (∃ tx ∈ block.vtx, tx.isCoinBase = false ∧ ∃ txin ∈ tx.vin,
        ∃ locked ∈ node.mapLockedInputs txin.prevout, locked ≠ tx.hash)
      ⟨0, "conflicting-tx-ix"⟩)

/-- Masternode payments and budgets. The budgets that the check leaves are those of
`isBlockPayeeValid`. -/
def checkPayee : Validation Unit :=
  match node.view.tip with
  | none => .ok ()
  | some tip =>
    let nHeight := node.heightOf block tip
    checkWhen (nHeight ≠ 0 ∧ node.fInitialDownload = false) (do
      let (valid, _) ← orStop ⟨0, "the block has no paying transaction"⟩
        (isBlockPayeeValid node.payeeEnv node.budget block nHeight)
      stopIf (valid = false) ⟨0, "bad-cb-payee"⟩)

/-- One input of a block: a zerocoin spend must not repeat a serial before it. -/
def checkSerial (reason : String) (vBlockSerials : List Int) (txin : CTxIn) :
    Validation (List Int) :=
  if txin.scriptSig.isZerocoinSpend = false then .ok vBlockSerials
  else do
    let spend ← parseSpend env txin
    stopIf (spend.coinSerialNumber ∈ vBlockSerials) ⟨100, reason⟩
    pure (spend.coinSerialNumber :: vBlockSerials)

def checkBlockTransaction (vBlockSerials : List Int) (tx : CTransaction) :
    Validation (List Int) := do
  checkTransaction env node tx (zerocoinActive node block)
  if tx.isZerocoinSpend then
    tx.vin.foldlM (checkSerial env "Double spending of zLYTX serial in block") vBlockSerials
  else pure vBlockSerials

def checkBlock (fCheckPOW fCheckMerkleRoot : Bool) : Validation Unit :=
  -- the ledger transfer means multiple coinbases in the genesis block
  if block.hash = node.params.hashGenesisBlock then .ok ()
  else do
    checkBlockHeader env node block (fCheckPOW && block.isProofOfWork)
    stopIf (node.adjustedTime + (if block.isProofOfStake then 180 else 7200) < block.getBlockTime)
      ⟨0, "time-too-new"⟩
    checkWhen (fCheckMerkleRoot = true) (checkMerkleRoot env block)
    stopIf (block.vtx = [] ∨ MAX_BLOCK_SIZE_CURRENT < block.vtx.length ∨
        MAX_BLOCK_SIZE_CURRENT < env.blockSize block)
      ⟨100, "bad-blk-length"⟩
    checkCoinTransactions block
    checkLockedInputs node block
    checkPayee node block
    let _vBlockSerials ← block.vtx.foldlM (checkBlockTransaction env node block) []
    stopIf ((if zerocoinActive node block then MAX_BLOCK_SIGOPS_CURRENT
        else MAX_BLOCK_SIGOPS_LEGACY) < (block.vtx.map env.legacySigOpCount).sum)
      ⟨100, "bad-blk-sigops"⟩

end

section
variable {env : ConsensusEnv} {node : ConsensusNode} {block : CBlock}
  {fCheckPOW fCheckMerkleRoot : Bool}

/-- What an accepted block that is not the genesis block was checked for. -/
theorem checkBlock_eq_ok (hgenesis : block.hash ≠ node.params.hashGenesisBlock)
    (h : checkBlock env node block fCheckPOW fCheckMerkleRoot = .ok ()) :
    checkCoinTransactions block = .ok () ∧
      ∀ tx ∈ block.vtx, checkTransaction env node tx (zerocoinActive node block) = .ok () := by
  unfold checkBlock at h
  rw [if_neg hgenesis] at h
  simp only [bind_eq_ok] at h
  obtain ⟨_, -, _, -, _, -, _, -, _, hcoin, _, -, _, -, serials, hloop, -⟩ := h
  refine ⟨hcoin, ?_⟩
  intro tx htx
  obtain ⟨before, after, hsplit⟩ := List.append_of_mem htx
  rw [hsplit, foldlM_split] at hloop
  obtain ⟨serials₁, serials₂, -, hstep, -⟩ := hloop
  simp only [checkBlockTransaction, bind_eq_ok] at hstep
  obtain ⟨_, hcheck, -⟩ := hstep
  exact hcheck

/-- The coinbase is the first transaction, and the coinstake of a proof-of-stake block the only
one. -/
theorem checkCoinTransactions_eq_ok (h : checkCoinTransactions block = .ok ()) :
    (∃ tx, block.vtx.head? = some tx ∧ tx.isCoinBase = true) ∧
      (∀ tx ∈ block.vtx.drop 1, tx.isCoinBase = false) ∧
      (block.isProofOfStake = true → ∀ tx ∈ block.vtx.drop 2, tx.isCoinStake = false) := by
  simp only [checkCoinTransactions, bind_eq_ok, stopIf_eq_ok, checkWhen_eq_ok] at h
  obtain ⟨-, hfirst, -, hrest, hstake⟩ := h
  refine ⟨?_, ?_, ?_⟩
  · cases hhead : block.vtx.head? with
    | none => simp [hhead] at hfirst
    | some tx => exact ⟨tx, rfl, by simpa [hhead] using hfirst⟩
  · intro tx htx
    by_contra hcoin
    exact hrest ⟨tx, htx, by simpa using hcoin⟩
  · intro hpos tx htx
    obtain ⟨-, -, hmany⟩ := hstake hpos
    by_contra hcoin
    exact hmany ⟨tx, htx, by simpa using hcoin⟩

end
end Lytix
