import Lytix.Lib.Accesses
import Lytix.Validation.VtxAccess

/-! Where the zerocoin helpers read a script: its first byte to tell a zerocoin spend, and all of it
from a fixed offset on to parse a spend or a mint. None of the three looks at the length. -/
namespace Lytix
open Checks Accesses

/-- The offsets that the parsers skip. -/
def BIGNUM_SIZE : ℕ := 4
def SCRIPT_OFFSET : ℕ := 6

/-! The functions that call the helpers, each with these reads: the check of the same name. A later
question to a transaction that was asked before reads the same byte again. -/
namespace Scripted

def isZerocoinSpend (tx : CTransaction) : Access Reject Bool :=
  match tx.vin with
  | [] => pure false
  | txin :: _ =>
    if txin.prevout.hash = 0 then do
      let op ← readAt txin.scriptSig 0
      pure (op == OP_ZEROCOINSPEND)
    else pure false

def containsZerocoins (tx : CTransaction) : Access Reject Bool := do
  let fSpend ← isZerocoinSpend tx
  pure (fSpend || tx.isZerocoinMint)

def isCoinBase (tx : CTransaction) : Access Reject Bool :=
  match tx.vin with
  | [txin] =>
    if txin.prevout.isNull then do
      let fZerocoins ← containsZerocoins tx
      pure !fZerocoins
    else pure false
  | _ => pure false

section
variable (env : ConsensusEnv) (node : ConsensusNode) (block : CBlock) (tx : CTransaction)

def txInToZerocoinSpend (txin : CTxIn) : Access Reject CoinSpend := do
  let _dataTxIn ← readFrom txin.scriptSig BIGNUM_SIZE
  checks (parseSpend env txin)

def txOutToPublicCoin (txout : CTxOut) : Access Reject PublicCoin := do
  let _vchZeroMint ← readFrom txout.scriptPubKey SCRIPT_OFFSET
  checks (Lytix.txOutToPublicCoin env txout)

/-! `CheckTransaction`. -/

def checkZerocoinMint (txout : CTxOut) : Access Reject Unit := do
  let pubCoin ← txOutToPublicCoin env txout
  checks (stopIf (env.pubCoinValidate pubCoin = false)
    ⟨100, "CheckZerocoinMint() : PubCoin does not validate"⟩)

def checkSpendInput (fVerifySignature : Bool) (hashTxOut : Uint256) (tally : SpendTally)
    (txin : CTxIn) : Access Reject SpendTally :=
  if txin.scriptSig.isZerocoinSpend = false then pure tally
  else do
    let _newSpend ← txInToZerocoinSpend env txin
    checks (Lytix.checkSpendInput env node fVerifySignature hashTxOut tally txin)

def checkZerocoinSpend (fVerifySignature : Bool) : Access Reject Unit := do
  checks (stopIf (2 < tx.vout.length ∧ 2 < (tx.vout.filter fun out => !out.isZerocoinMint).length ∧
      tx.isCoinStake = false)
    ⟨100, "CheckZerocoinSpend(): over two non-mint outputs in a zerocoinspend transaction"⟩)
  let tally ← tx.vin.foldlM (checkSpendInput env node fVerifySignature (env.hashTxOut tx.vout)) {}
  checks (checkWhen (tx.isCoinStake = false) (do
    let nValueOut ← valueOut tx
    stopIf (tally.nTotalRedeemed < nValueOut)
      ⟨100, "Transaction spend more than was redeemed in zerocoins"⟩))
  checks (stopIf (tally.fValidated = false) ⟨100, "CheckTransaction() : invalid zerocoin spend"⟩)

def checkOutput (fZerocoinActive : Bool) (tally : OutputTally) (txout : CTxOut) :
    Access Reject OutputTally := do
  checkWhen (txout.isEmpty = true) (do
    let fCoinBase ← isCoinBase tx
    checks (stopIf (fCoinBase = false ∧ tx.isCoinStake = false)
      ⟨100, "CheckTransaction(): txout empty for user transaction"⟩))
  checks (stopIf (txout.nValue < 0) ⟨100, "bad-txns-vout-negative"⟩)
  checks (stopIf (node.params.nMaxMoneyOut < txout.nValue) ⟨100, "bad-txns-vout-toolarge"⟩)
  checks (stopIf (¬ MoneyRange node.params (tally.nValueOut + txout.nValue))
    ⟨100, "bad-txns-txouttotal-toolarge"⟩)
  checkWhen (fZerocoinActive = true ∧ txout.isZerocoinMint = true) (checkZerocoinMint env txout)
  pure ⟨tally.nValueOut + txout.nValue,
    tally.nZCSpendCount +
      (if fZerocoinActive && txout.scriptPubKey.isZerocoinSpend then 1 else 0)⟩

def checkActiveSpend (nZCSpendCount : ℕ) : Access Reject Unit := do
  checks (stopIf (node.params.nMaxZerocoinSpendsPerTransaction < nZCSpendCount)
    ⟨100, "CheckTransaction() : there are more zerocoin spends than are allowed in one transaction"⟩)
  let fSpend ← isZerocoinSpend tx
  checkWhen (fSpend = true) (do
    checks (stopIf (∃ txin ∈ tx.vin, txin.scriptSig.isZerocoinSpend = false)
      ⟨100, "CheckTransaction() : zerocoinspend contains inputs that are not zerocoins"⟩)
    checkZerocoinSpend env node tx (verifiesSpendSignature node))

def checkInputKind (fZerocoinActive : Bool) : Access Reject Unit := do
  let fCoinBase ← isCoinBase tx
  let _fSpend ← (if fCoinBase || !fZerocoinActive then pure false else isZerocoinSpend tx)
  checks (Lytix.checkInputKind node tx fZerocoinActive)

def checkTransaction (fZerocoinActive : Bool) : Access Reject Unit := do
  checks (stopIf (tx.vin = []) ⟨10, "bad-txns-vin-empty"⟩)
  checks (stopIf (tx.vout = []) ⟨10, "bad-txns-vout-empty"⟩)
  checks (stopIf ( MAX_ZEROCOIN_TX_SIZE < env.txSize tx) ⟨100, "bad-txns-oversize"⟩)
  let tally ← tx.vout.foldlM (checkOutput env node tx fZerocoinActive) {}
  checkWhen (fZerocoinActive = true) (checkActiveSpend env node tx tally.nZCSpendCount)
  checks (checkDuplicateInputs [] tx.vin)
  checkInputKind node tx fZerocoinActive

/-! `CheckBlock`. -/

def checkCoinTransactions : Access Reject Unit :=
  match block.vtx with
  | [] => .error (some ⟨100, "bad-cb-missing"⟩)
  | coinBase :: rest => do
    let fCoinBase ← isCoinBase coinBase
    checks (stopIf (fCoinBase = false) ⟨100, "bad-cb-missing"⟩)
    rest.forM fun tx => do
      let fCoinBase ← isCoinBase tx
      checks (stopIf (fCoinBase = true) ⟨100, "bad-cb-multiple"⟩)
    checks (Lytix.checkCoinTransactions block)

/-- The payment required of a masternode asks for the kind of the paying transaction. -/
def isMasternodePayeeValid (env : PayeeEnv) (txNew : CTransaction) (nBlockHeight : Int) :
    Access Reject Bool := do
  let _fSpend ← (if (env.masternodePayments.mapMasternodeBlocks nBlockHeight).isSome then
    isZerocoinSpend txNew else pure false)
  pure (Lytix.isMasternodePayeeValid env txNew nBlockHeight)

def isPayeeValid (env : PayeeEnv) (budget : CBudgetManager) (txNew : CTransaction)
    (nBlockHeight : Int) : Access Reject Bool :=
  if !env.fSynced then pure true
  else if isSporkActive env.sporks .SPORK_13_ENABLE_SUPERBLOCKS &&
      budget.isBudgetPaymentBlock nBlockHeight then
    let (transactionStatus, _) := budget.isTransactionValid txNew nBlockHeight
    if transactionStatus = .Valid then pure true
    else if transactionStatus = .InValid &&
        isSporkActive env.sporks .SPORK_9_MASTERNODE_BUDGET_ENFORCEMENT then pure false
    else isMasternodePayeeValid env txNew nBlockHeight
  else isMasternodePayeeValid env txNew nBlockHeight

def checkPayee : Access Reject Unit :=
  match node.view.tip with
  | none => pure ()
  | some tip =>
    let nHeight := node.heightOf block tip
    if nHeight ≠ 0 ∧ node.fInitialDownload = false then do
      let valid ← (if !node.payeeEnv.fSynced then pure true else do
        let txNew ← checks (orStop ⟨0, "the block has no paying transaction"⟩
          (payingTransaction node.payeeEnv block nHeight))
        isPayeeValid node.payeeEnv node.budget txNew nHeight)
      checks (stopIf (valid = false) ⟨0, "bad-cb-payee"⟩)
    else pure ()

def checkSerial (reason : String) (vBlockSerials : List Int) (txin : CTxIn) :
    Access Reject (List Int) :=
  if txin.scriptSig.isZerocoinSpend = false then pure vBlockSerials
  else do
    let _spend ← txInToZerocoinSpend env txin
    checks (Lytix.checkSerial env reason vBlockSerials txin)

def checkBlockTransaction (vBlockSerials : List Int) (tx : CTransaction) :
    Access Reject (List Int) := do
  checkTransaction env node tx (zerocoinActive node block)
  let fSpend ← isZerocoinSpend tx
  if fSpend then
    tx.vin.foldlM (checkSerial env "Double spending of zLYTX serial in block") vBlockSerials
  else pure vBlockSerials

def checkBlock (fCheckPOW fCheckMerkleRoot : Bool) : Access Reject Unit :=
  if block.hash = node.params.hashGenesisBlock then pure ()
  else do
    checks (checkBlockHeader env node block (fCheckPOW && block.isProofOfWork))
    checks (stopIf (node.adjustedTime + (if block.isProofOfStake then 180 else 7200) <
        block.getBlockTime)
      ⟨0, "time-too-new"⟩)
    checks (checkWhen (fCheckMerkleRoot = true) (checkMerkleRoot env block))
    checks (stopIf (block.vtx = [] ∨ MAX_BLOCK_SIZE_CURRENT < block.vtx.length ∨
        MAX_BLOCK_SIZE_CURRENT < env.blockSize block)
      ⟨100, "bad-blk-length"⟩)
    checkCoinTransactions block
    checks (checkLockedInputs node block)
    checkPayee node block
    let _vBlockSerials ← block.vtx.foldlM (checkBlockTransaction env node block) []
    checks (stopIf ((if zerocoinActive node block then MAX_BLOCK_SIGOPS_CURRENT
        else MAX_BLOCK_SIGOPS_LEGACY) < (block.vtx.map env.legacySigOpCount).sum)
      ⟨100, "bad-blk-sigops"⟩)

/-! `ConnectBlock`. -/

def connectSpendInput (nHeight : Int) (st : ConnectState) (txIn : CTxIn) :
    Access Reject ConnectState :=
  if txIn.scriptSig.isZerocoinSpend = false then pure st
  else do
    let _spend ← txInToZerocoinSpend env txIn
    checks (Lytix.connectSpendInput env node tx nHeight st txIn)

def connectMintOutput (nHeight : Int) (st : ConnectState) (out : CTxOut) :
    Access Reject ConnectState :=
  if out.isZerocoinMint = false then pure st
  else do
    let _coin ← txOutToPublicCoin env out
    checks (Lytix.connectMintOutput env node tx nHeight st out)

def connectZerocoinSpend (nHeight : Int) (st : ConnectState) : Access Reject ConnectState := do
  checks (stopIf (∃ nHeightTx ∈ node.transactionHeight tx.hash,
      node.fVerifyingBlocks = false ∨ (nHeightTx : Int) < nHeight)
    ⟨0, "bad-txns-inputs-missingorspent"⟩)
  let st ← tx.vin.foldlM (connectSpendInput env node tx nHeight) st
  tx.vout.foldlM (connectMintOutput env node tx nHeight) st

def connectSpendingTx (nHeight : Int) (fScriptChecks : Bool) (st : ConnectState) :
    Access Reject ConnectState := do
  checks (stopIf (st.coins.haveInputs tx = false) ⟨100, "bad-txns-inputs-missingorspent"⟩)
  let _st ← tx.vout.foldlM (connectMintOutput env node tx nHeight) st
  checks (Lytix.connectSpendingTx env node tx nHeight fScriptChecks st)

def connectTxChecks (nHeight : Int) (fScriptChecks : Bool) (st : ConnectState)
    (tx : CTransaction) : Access Reject ConnectState := do
  let st : ConnectState := { st with nSigOps := st.nSigOps + env.legacySigOpCount tx }
  checks (stopIf ( MAX_BLOCK_SIGOPS_CURRENT < st.nSigOps) ⟨100, "bad-blk-sigops"⟩)
  let fZerocoins ← (if getSporkValue node.sporks .SPORK_16_ZEROCOIN_MAINTENANCE_MODE <
      block.getBlockTime ∧ node.fInitialDownload = false then containsZerocoins tx else pure false)
  checks (stopIf (fZerocoins = true)
    ⟨100, "ConnectBlock() : zerocoin transactions are currently in maintenance mode"⟩)
  let fSpend ← isZerocoinSpend tx
  if fSpend then connectZerocoinSpend env node tx nHeight st
  else do
    let fCoinBase ← isCoinBase tx
    if fCoinBase then pure st
    else connectSpendingTx env node tx nHeight fScriptChecks st

def connectTx (nHeight : Int) (fScriptChecks : Bool) (st : ConnectState) (tx : CTransaction) :
    Access Reject ConnectState := do
  let _st ← connectTxChecks env node block nHeight fScriptChecks st tx
  checks (Lytix.connectTx env node block nHeight fScriptChecks st tx)

/-- What follows the loop asks for the zerocoins of the block once more. -/
def connectBlock (coins : CoinsMap) (hashBestBlock : Uint256) (pindex : CBlockIndex)
    (fJustCheck fAlreadyChecked : Bool) : Access Reject ConnectOutcome := do
  checkWhen (¬ (block.hash = node.params.hashGenesisBlock ∧ pindex.nHeight = 0) ∧
      fAlreadyChecked = false)
    (checkBlock env node block (!fJustCheck) (!fJustCheck))
  checks (connectBlockHeader env node block coins hashBestBlock pindex fJustCheck fAlreadyChecked)
  let _st ← block.vtx.foldlM (connectTx env node block pindex.nHeight
    (decide (node.totalBlocksEstimate ≤ pindex.nHeight))) { coins := coins }
  checks (Lytix.connectBlock env node block coins hashBestBlock pindex fJustCheck fAlreadyChecked)

/-! `ProcessNewBlock`: the zerocoins are counted whether or not the block passed its checks. -/

def processNewBlock (rest : Bool → Validation Unit) : Access Reject Unit := do
  let checked ← (match checkBlock env node block true true with
    | .ok _ => pure true
    | .error (some _) => pure false
    | .error none => .error none)
  block.vtx.forM fun tx => do
    let _fZerocoins ← containsZerocoins tx
    pure ()
  checks (rest checked)

end

/-! `AcceptToMemoryPool`. -/

/-- What the memory pool and the coins answer, and what follows the look at the coins. -/
structure PoolEnv where
  requireStandard : Bool
  isFinalTx : CTransaction → Bool
  isStandardTx : CTransaction → Bool
  inPool : Uint256 → Bool
  mapNextTx : COutPoint → Bool
  haveCoins : Uint256 → Bool
  haveInputs : CTransaction → Bool
  rest : CTransaction → Validation Unit

section
variable (env : ConsensusEnv) (node : ConsensusNode) (pool : PoolEnv) (tx : CTransaction)

def isStandardTx : Access Reject Unit := do
  checks (stopIf (pool.isFinalTx tx = false) ⟨0, "non-final"⟩)
  let _fZerocoins ← containsZerocoins tx
  checks (stopIf (pool.isStandardTx tx = false) ⟨0, "nonstandard"⟩)

def acceptSpendInput (txIn : CTxIn) : Access Reject Unit :=
  if txIn.scriptSig.isZerocoinSpend = false then pure ()
  else do
    let spend ← txInToZerocoinSpend env txIn
    checks (stopIf (contextualCheckZerocoinSpend env node tx spend node.view.height = false)
      ⟨0, "bad-txns-invalid-zpiv"⟩)

def acceptMintOutput (out : CTxOut) : Access Reject Unit :=
  if out.isZerocoinMint = false then pure ()
  else do
    let coin ← txOutToPublicCoin env out
    checks (stopIf (contextualCheckZerocoinMint node coin node.view.height = false)
      ⟨0, "zerocoin mint failed contextual check"⟩)

def acceptInputs (fSpend : Bool) : Access Reject Unit :=
  if fSpend then do
    checks (stopIf ((node.transactionHeight tx.hash).isSome = true) ⟨0, "bad-txns-inputs-spent"⟩)
    tx.vin.forM (acceptSpendInput env node tx)
  else do
    checks (stopIf (∃ txin ∈ tx.vin, pool.mapNextTx txin.prevout = true)
      ⟨0, "conflicts with in-memory transactions"⟩)
    checks (stopIf (pool.haveCoins tx.hash = true) ⟨0, "already have coins"⟩)
    checks (stopIf (∃ txin ∈ tx.vin, pool.haveCoins txin.prevout.hash = false)
      ⟨0, "missing inputs"⟩)
    tx.vout.forM (acceptMintOutput env node)
    checks (stopIf (pool.haveInputs tx = false) ⟨0, "bad-txns-inputs-spent"⟩)

def acceptToMemoryPool : Access Reject Unit := do
  let fZerocoins ← (if getSporkValue node.sporks .SPORK_16_ZEROCOIN_MAINTENANCE_MODE <
      node.adjustedTime then containsZerocoins tx else pure false)
  checks (stopIf (fZerocoins = true) ⟨10, "bad-tx"⟩)
  checkTransaction env node tx true
  let fCoinBase ← isCoinBase tx
  checks (stopIf (fCoinBase = true) ⟨100, "coinbase"⟩)
  checks (stopIf (tx.isCoinStake = true) ⟨100, "coinstake"⟩)
  checkWhen (pool.requireStandard = true) (isStandardTx pool tx)
  checks (stopIf (pool.inPool tx.hash = true) ⟨0, "tx already in mempool"⟩)
  checks (stopIf (∃ txin ∈ tx.vin, ∃ locked ∈ node.mapLockedInputs txin.prevout, locked ≠ tx.hash)
    ⟨0, "tx-lock-conflict"⟩)
  let fSpend ← isZerocoinSpend tx
  acceptInputs env node pool tx fSpend
  checks (pool.rest tx)

end
end Scripted

/-! The kind of a transaction, which reads the first byte of its first script. -/

/-- The first input refers to no transaction and has an empty script. -/
def CTransaction.StartsEmpty (tx : CTransaction) : Prop :=
  ∃ txin, tx.vin.head? = some txin ∧ txin.prevout.hash = 0 ∧ txin.scriptSig = []

section
variable {tx : CTransaction}

theorem Scripted.isZerocoinSpend_outside :
    Scripted.isZerocoinSpend tx = .error none ↔ tx.StartsEmpty := by
  unfold Scripted.isZerocoinSpend CTransaction.StartsEmpty
  cases hvin : tx.vin with
  | nil => simp [pure, Except.pure]
  | cons txin rest =>
    simp only [List.head?_cons, Option.some.injEq, exists_eq_left']
    split_ifs with hnull
    · simp only [bind_eq_error, readAt_eq_outside, hnull, true_and, pure, Except.pure,
        reduceCtorEq, and_false, exists_false, or_false, Nat.le_zero_eq, List.length_eq_zero_iff]
    · exact iff_of_false (by simp [pure, Except.pure]) fun h => hnull h.1

theorem Scripted.isZerocoinSpend_eq (h : ¬ tx.StartsEmpty) :
    Scripted.isZerocoinSpend tx = .ok tx.isZerocoinSpend := by
  unfold Scripted.isZerocoinSpend CTransaction.isZerocoinSpend
  cases hvin : tx.vin with
  | nil => rfl
  | cons txin rest =>
    dsimp only
    split_ifs with hnull
    · cases hscript : txin.scriptSig with
      | nil => exact absurd ⟨txin, by rw [hvin]; rfl, hnull, hscript⟩ h
      | cons op script =>
        rw [hnull]
        rfl
    · have hne : (txin.prevout.hash == 0) = false := beq_false_of_ne hnull
      rw [hne, Bool.false_and]
      rfl

theorem Scripted.containsZerocoins_eq (h : ¬ tx.StartsEmpty) :
    Scripted.containsZerocoins tx = .ok tx.containsZerocoins := by
  unfold Scripted.containsZerocoins
  rw [Scripted.isZerocoinSpend_eq h]
  rfl

theorem Scripted.isCoinBase_eq (h : ¬ tx.StartsEmpty) :
    Scripted.isCoinBase tx = .ok tx.isCoinBase := by
  unfold Scripted.isCoinBase CTransaction.isCoinBase
  rw [Scripted.containsZerocoins_eq h]
  rcases hvin : tx.vin with _ | ⟨txin, _ | ⟨second, rest⟩⟩
  · rfl
  · dsimp only
    cases txin.prevout.isNull <;> rfl
  · rfl

end

/-! Unless a script is read outside, the checks with these reads are the checks of the model. -/

section
variable {env : ConsensusEnv} {node : ConsensusNode} {block : CBlock} {tx : CTransaction}

end
end Lytix
