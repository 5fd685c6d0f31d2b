import Lytix.Coins.Coins
import Lytix.Validation.CheckBlock

/-! Connecting a block to the coins (`ConnectBlock`): the loop over its transactions, the zerocoin
supply, the amount minted and the value check. -/
namespace Lytix
open Checks

/-- The output an input spends; there is none of that kind for a zerocoin spend. -/
def CoinsMap.outputFor (coins : CoinsMap) (txin : CTxIn) : CTxOut :=
  ((coins.coinsOf txin.prevout.hash).vout[txin.prevout.n]?).getD CTxOut.null

def CoinsMap.haveInputs (coins : CoinsMap) (tx : CTransaction) : Bool :=
  !tx.spendsCoins ||
    tx.vin.all fun txin => (coins.coinsOf txin.prevout.hash).isAvailable txin.prevout.n

def CoinsMap.getValueIn (coins : CoinsMap) (tx : CTransaction) : Int :=
  if tx.isCoinBase then 0
  else if tx.isZerocoinSpend then tx.getZerocoinSpent
  else (tx.vin.map fun txin => (coins.outputFor txin).nValue).sum

/-- What the loop over the transactions carries along. -/
structure ConnectState where
  coins : CoinsMap
  nFees : Int := 0
  nValueIn : Int := 0
  nValueOut : Int := 0
  nSigOps : Nat := 0
  vSpends : List (CoinSpend × Uint256) := []
  vMints : List (PublicCoin × Uint256) := []
  vtxundo : List CTxUndo := []

section
variable (env : ConsensusEnv) (node : ConsensusNode)

def contextualCheckZerocoinSpendNoSerialCheck (tx : CTransaction) (spend : CoinSpend)
    (nHeight : Int) : Bool :=
  if node.params.nBlockZerocoinV2 ≤ nHeight then
    env.hasValidSignature spend &&
      spend.spendType == (if tx.isCoinStake then .STAKE else .SPEND)
  else true

def contextualCheckZerocoinSpend (tx : CTransaction) (spend : CoinSpend) (nHeight : Int) : Bool :=
  contextualCheckZerocoinSpendNoSerialCheck env node tx spend nHeight &&
    (node.serialHeight spend.coinSerialNumber).isNone

def contextualCheckZerocoinMint (coin : PublicCoin) (nHeight : Int) : Bool :=
  if node.params.nBlockZerocoinV2 ≤ nHeight ∧ node.network ≠ .testnet then
    ((node.readCoinMint coin.value).bind node.transactionHeight).isNone
  else true

/-- One input of a zerocoin spend. -/
def connectSpendInput (tx : CTransaction) (nHeight : Int) (st : ConnectState) (txIn : CTxIn) :
    Validation ConnectState :=
  if txIn.scriptSig.isZerocoinSpend = false then .ok st
  else do
    let spend ← parseSpend env txIn
    stopIf (contextualCheckZerocoinSpend env node tx spend nHeight = false)
      ⟨100, "failed to add block with invalid zerocoinspend"⟩
    pure { st with
      nValueIn := st.nValueIn + spend.denomination.toAmount
      vSpends := st.vSpends ++ [(spend, tx.hash)] }

/-- Check that a mint is not already known. -/
def connectMintOutput (tx : CTransaction) (nHeight : Int) (st : ConnectState) (out : CTxOut) :
    Validation ConnectState :=
  if out.isZerocoinMint = false then .ok st
  else do
    let coin ← txOutToPublicCoin env out
    stopIf (contextualCheckZerocoinMint node coin nHeight = false)
      ⟨100, "zerocoin mint failed contextual check"⟩
    pure { st with vMints := st.vMints ++ [(coin, tx.hash)] }

/-- One input in the first loop of `CheckInputs`, with the value in so far. -/
def checkInputValue (coins : CoinsMap) (nSpendHeight : Int) (nValueIn : Int) (txin : CTxIn) :
    Validation Int := do
  let entry := coins.coinsOf txin.prevout.hash
  stopIf ((entry.fCoinBase || entry.fCoinStake) = true ∧
      nSpendHeight - entry.nHeight < node.params.nMaturity)
    ⟨0, "bad-txns-premature-spend-of-coinbase"⟩
  let nValue := (coins.outputFor txin).nValue
  stopIf (¬ MoneyRange node.params nValue ∨ ¬ MoneyRange node.params (nValueIn + nValue))
    ⟨100, "bad-txns-inputvalues-outofrange"⟩
  pure (nValueIn + nValue)

/-- `CheckInputs`; the script checks that the code queues are made here. -/
def checkInputs (coins : CoinsMap) (tx : CTransaction) (nSpendHeight : Int)
    (fScriptChecks : Bool) : Validation Unit :=
  checkWhen (tx.spendsCoins = true) (do
    stopIf (coins.haveInputs tx = false) ⟨0, "CheckInputs() : inputs unavailable"⟩
    let nValueIn ← tx.vin.foldlM (checkInputValue node coins nSpendHeight) 0
    checkWhen (tx.isCoinStake = false) (do
      let nValueOut ← valueOut tx
      stopIf (nValueIn < nValueOut) ⟨100, "bad-txns-in-belowout"⟩
      stopIf (¬ MoneyRange node.params (nValueIn - nValueOut)) ⟨100, "bad-txns-fee-outofrange"⟩)
    stopIf (fScriptChecks = true ∧
        ∃ i ∈ List.range tx.vin.length, ∃ txin ∈ tx.vin[i]?,
          env.scriptCheck (coins.outputFor txin) tx i = false)
      ⟨100, "mandatory-script-verify-flag-failed"⟩)

/-- The branch of the loop for a zerocoin spend. -/
def connectZerocoinSpend (tx : CTransaction) (nHeight : Int) (st : ConnectState) :
    Validation ConnectState := do
  stopIf (∃ nHeightTx ∈ node.transactionHeight tx.hash,
      node.fVerifyingBlocks = false ∨ (nHeightTx : Int) < nHeight)
    ⟨0, "bad-txns-inputs-missingorspent"⟩
  let st ← tx.vin.foldlM (connectSpendInput env node tx nHeight) st
  tx.vout.foldlM (connectMintOutput env node tx nHeight) st

/-- The branch of the loop for a transaction that spends coins. -/
def connectSpendingTx (tx : CTransaction) (nHeight : Int) (fScriptChecks : Bool)
    (st : ConnectState) : Validation ConnectState := do
  stopIf (st.coins.haveInputs tx = false) ⟨100, "bad-txns-inputs-missingorspent"⟩
  let st ← tx.vout.foldlM (connectMintOutput env node tx nHeight) st
  let nSigOps := st.nSigOps + env.p2shSigOpCount tx (tx.vin.map st.coins.outputFor)
  stopIf ( MAX_BLOCK_SIGOPS_CURRENT < nSigOps) ⟨100, "bad-blk-sigops"⟩
  let nValueOut ← valueOut tx
  checkInputs env node st.coins tx nHeight fScriptChecks
  pure { st with
    nSigOps := nSigOps
    nFees := st.nFees + (if tx.isCoinStake then 0 else st.coins.getValueIn tx - nValueOut)
    nValueIn := st.nValueIn + st.coins.getValueIn tx }

/-- The checks and the tallies of one transaction, before it updates the coins. -/
def connectTxChecks (block : CBlock) (nHeight : Int) (fScriptChecks : Bool) (st : ConnectState)
    (tx : CTransaction) : Validation ConnectState := do
  let st : ConnectState := { st with nSigOps := st.nSigOps + env.legacySigOpCount tx }
  stopIf ( MAX_BLOCK_SIGOPS_CURRENT < st.nSigOps) ⟨100, "bad-blk-sigops"⟩
  stopIf (getSporkValue node.sporks .SPORK_16_ZEROCOIN_MAINTENANCE_MODE < block.getBlockTime ∧
      node.fInitialDownload = false ∧ tx.containsZerocoins = true)
    ⟨100, "ConnectBlock() : zerocoin transactions are currently in maintenance mode"⟩
  if tx.isZerocoinSpend then connectZerocoinSpend env node tx nHeight st
  else if tx.isCoinBase then pure st
  else connectSpendingTx env node tx nHeight fScriptChecks st

/-- One round of the loop over the transactions. -/
def connectTx (block : CBlock) (nHeight : Int) (fScriptChecks : Bool) (st : ConnectState)
    (tx : CTransaction) : Validation ConnectState := do
  let st ← connectTxChecks env node block nHeight fScriptChecks st tx
  let nValueOut ← valueOut tx
  let (txundo, coins) ← orStop ⟨0, "UpdateCoins : assertion failed"⟩
    (updateCoins nHeight st.coins tx)
  pure { st with
    nValueOut := st.nValueOut + nValueOut, coins := coins, vtxundo := st.vtxundo ++ [txundo] }

/-- The denominations minted in a block, up to the first mint that is not a denomination. -/
def blockToZerocoinMintList (block : CBlock) : List CoinDenomination :=
  ((block.vtx.flatMap fun tx => tx.vout.filter CTxOut.isZerocoinMint).map fun out =>
    CoinDenomination.ofAmount out.nValue).takeWhile (· ≠ .ZQ_ERROR)

/-- The denominations that the zerocoin spends of a block claim. -/
def zerocoinSpendListFromBlock (block : CBlock) (fFilterInvalid : Bool) : List CoinDenomination :=
  let spends := (block.vtx.filter CTransaction.isZerocoinSpend).flatMap fun tx =>
    tx.vin.filter fun txin => txin.scriptSig.isZerocoinSpend
  let valid := spends.filter fun txin =>
    !(fFilterInvalid && (env.txInToZerocoinSpend txin).any fun spend =>
      env.invalidSerial spend.coinSerialNumber)
  valid.map fun txin => CoinDenomination.ofInt txin.nSequence

/-- One spend against the supply. The map has no entry for `ZQ_ERROR`, where `at` throws. -/
def takeFromSupply (supply : CoinDenomination → Int) (denom : CoinDenomination) :
    Validation (CoinDenomination → Int) := do
  stopIf (denom = .ZQ_ERROR) ⟨0, "map::at"⟩
  stopIf (supply denom - 1 < 0)
    ⟨100, "Block contains zerocoins that spend more than are in the available supply to spend"⟩
  pure (Function.update supply denom (supply denom - 1))

def addToSupply (supply : CoinDenomination → Int) (denom : CoinDenomination) :
    CoinDenomination → Int :=
  Function.update supply denom (supply denom + 1)

/-- `UpdateZPIVSupply`. The entry starts from its predecessor's supply if that has a zerocoin
version, and from its own otherwise. -/
def updateZPIVSupply (block : CBlock) (pindex : CBlockIndex) : Validation CBlockIndex :=
  match pindex.pprev.map node.view.index with
  | none => .ok { pindex with vMintDenominationsInBlock := [] }
  | some pprev => do
    let listMints := blockToZerocoinMintList block
    let fFilterInvalid := decide (node.params.nBlockRecalculateAccumulators ≤ pindex.nHeight)
    let listSpends := zerocoinSpendListFromBlock env block fFilterInvalid
    let supply := if 3 < pprev.nVersion then pprev.mapZerocoinSupply else pindex.mapZerocoinSupply
    let supply ← listSpends.foldlM takeFromSupply (listMints.foldl addToSupply supply)
    pure { pindex with mapZerocoinSupply := supply, vMintDenominationsInBlock := listMints }

/-- The heights at which the value of a block is not checked here. -/
def blockValueExempt (block : CBlock) : Bool :=
  match node.view.tip with
  | none => true
  | some tip =>
    let nHeight := node.heightOf block tip
    if node.fSynced then
      isSporkActive node.sporks .SPORK_13_ENABLE_SUPERBLOCKS &&
        node.budget.isBudgetPaymentBlock nHeight
    -- super blocks will always be on these blocks, max 100 per budgeting
    else decide ((nHeight : Int) % getBudgetPaymentCycleBlocks node.network < 100)

def isBlockValueValid (block : CBlock) (nExpectedValue nMinted : Int) : Bool :=
  if blockValueExempt node block then true else decide (nMinted ≤ nExpectedValue)

/-- What connecting leaves: the coins, the block's entry, its undo records, and the spends and
mints for the zerocoin database. -/
structure ConnectOutcome where
  coins : CoinsMap
  pindex : CBlockIndex
  vtxundo : List CTxUndo
  vSpends : List (CoinSpend × Uint256)
  vMints : List (PublicCoin × Uint256)

/-- PoW phase redistributed fees to miner. PoS stage destroys fees. -/
def expectedMint (block : CBlock) (nPrevHeight : Nat) (nFees : Int) : Int :=
  getBlockValue node.network nPrevHeight + (if block.isProofOfWork then nFees else 0)

/-- Check that the block does not overmint. -/
def checkBlockValue (block : CBlock) (pindex : CBlockIndex) (nFees : Int) : Validation Unit :=
  checkWhen (0 < pindex.nHeight) (do
    let pprev ← orStop ⟨0, "the block has no predecessor"⟩ (pindex.pprev.map node.view.index)
    stopIf (isBlockValueValid node block (expectedMint node block pprev.nHeight nFees) pprev.nMint =
        false)
      ⟨100, "bad-cb-amount"⟩)

/-- The money supply and the amount minted, from what the predecessor's supply was. -/
def trackMoneySupply (pindex : CBlockIndex) (st : ConnectState) : CBlockIndex :=
  let nMoneySupplyPrev := ((pindex.pprev.map node.view.index).map CBlockIndex.nMoneySupply).getD 0
  let nMoneySupply := nMoneySupplyPrev + st.nValueOut - st.nValueIn
  { pindex with
    nMoneySupply := nMoneySupply, nMint := nMoneySupply - nMoneySupplyPrev + st.nFees }

/-- The checks of `ConnectBlock` before the loop. -/
def connectBlockHeader (block : CBlock) (coins : CoinsMap) (hashBestBlock : Uint256)
    (pindex : CBlockIndex) (fJustCheck fAlreadyChecked : Bool) : Validation Unit := do
  checkWhen (¬ (block.hash = node.params.hashGenesisBlock ∧ pindex.nHeight = 0) ∧
      fAlreadyChecked = false)
    (checkBlock env node block (!fJustCheck) (!fJustCheck))
  stopIf (pindex.pprev.getD 0 ≠ hashBestBlock) ⟨0, "the coins are not those of the predecessor"⟩
  stopIf ((pindex.nHeight : Int) ≤ node.params.nLastPOWBlock ∧ block.isProofOfStake = true)
    ⟨100, "PoS-early"⟩
  stopIf (node.params.nLastPOWBlock < pindex.nHeight ∧ block.isProofOfWork = true)
    ⟨100, "PoW-ended"⟩
  stopIf (∃ tx ∈ block.vtx, coins.haveCoins tx.hash = true) ⟨100, "bad-txns-BIP30"⟩

def connectBlock (block : CBlock) (coins : CoinsMap) (hashBestBlock : Uint256)
    (pindex : CBlockIndex) (fJustCheck fAlreadyChecked : Bool) : Validation ConnectOutcome := do
  connectBlockHeader env node block coins hashBestBlock pindex fJustCheck fAlreadyChecked
  let fScriptChecks := decide (node.totalBlocksEstimate ≤ pindex.nHeight)
  let st ← block.vtx.foldlM (connectTx env node block pindex.nHeight fScriptChecks)
    { coins := coins }
  let pindex ← updateZPIVSupply env node block pindex
  let pindex := trackMoneySupply node pindex st
  checkBlockValue node block pindex st.nFees
  stopIf (node.validateAccumulatorCheckpoint block = false) ⟨100, "bad-acc-checkpoint"⟩
  let pindex :=
    if fJustCheck || pindex.nHeight == 0 then pindex
    else
      { pindex with nStatus := { pindex.nStatus with haveUndo := true } }.raiseValidity
        BLOCK_VALID_SCRIPTS
  -- the first transaction leaves no undo record
  pure ⟨st.coins, pindex, st.vtxundo.drop 1, st.vSpends, st.vMints⟩

end
/-! What one transaction does to the state of the loop. -/

section
variable {env : ConsensusEnv} {node : ConsensusNode} {block : CBlock} {tx : CTransaction}
  {nHeight : Int} {fScriptChecks : Bool} {st st' : ConnectState}

/-- The value a transaction brings in: denominations for a zerocoin spend, coins otherwise. -/
def txValueIn (env : ConsensusEnv) (coins : CoinsMap) (tx : CTransaction) : Int :=
  if tx.isZerocoinSpend then spentDenominations env tx.vin else coins.getValueIn tx

/-- The fee of a transaction: only transactions that spend coins and are no coinstake pay one. -/
def txFee (coins : CoinsMap) (tx : CTransaction) : Int :=
  if tx.spendsCoins && !tx.isCoinStake then
    coins.getValueIn tx - (tx.vout.map CTxOut.nValue).sum
  else 0

theorem connectSpendInput_spec {txin : CTxIn}
    (h : connectSpendInput env node tx nHeight st txin = .ok st') :
    st'.coins = st.coins ∧ st'.nFees = st.nFees ∧ st'.nValueOut = st.nValueOut ∧
      st'.nValueIn = st.nValueIn + spentDenominations env [txin] := by
  unfold connectSpendInput at h
  by_cases hspend : txin.scriptSig.isZerocoinSpend = true
  · simp only [hspend, Bool.true_eq_false, if_false, bind_eq_ok, stopIf_eq_ok, pure_eq_ok,
      parseSpend, orStop_eq_ok] at h
    obtain ⟨spend, hparse, -, -, rfl⟩ := h
    refine ⟨rfl, rfl, rfl, ?_⟩
    simp [spentDenominations, hspend, hparse]
  · rw [Bool.not_eq_true] at hspend
    rw [if_pos hspend] at h
    obtain rfl := Except.ok.inj h
    simp [spentDenominations, hspend]

theorem foldlM_connectSpendInput {vin : List CTxIn}
    (h : vin.foldlM (connectSpendInput env node tx nHeight) st = .ok st') :
    st'.coins = st.coins ∧ st'.nFees = st.nFees ∧ st'.nValueOut = st.nValueOut ∧
      st'.nValueIn = st.nValueIn + spentDenominations env vin := by
  induction vin generalizing st with
  | nil =>
    rw [List.foldlM_nil, pure_eq_ok] at h
    rw [h]
    simp [spentDenominations]
  | cons txin vin ih =>
    rw [List.foldlM_cons, bind_eq_ok] at h
    obtain ⟨mid, hstep, hrest⟩ := h
    obtain ⟨hcoins, hfees, hout, hin⟩ := connectSpendInput_spec hstep
    obtain ⟨hcoins', hfees', hout', hin'⟩ := ih hrest
    have hsingle := @spentDenominations_cons env txin []
    have hcons := @spentDenominations_cons env txin vin
    have hnil : spentDenominations env [] = 0 := rfl
    refine ⟨hcoins'.trans hcoins, hfees'.trans hfees, hout'.trans hout, ?_⟩
    omega

theorem foldlM_connectMintOutput {vout : List CTxOut}
    (h : vout.foldlM (connectMintOutput env node tx nHeight) st = .ok st') :
    st' = { st with vMints := st'.vMints } := by
  refine foldlM_invariant (fun s => s = { st with vMints := s.vMints }) ?_ h rfl
  intro s out s' _ hstep hs
  unfold connectMintOutput at hstep
  split_ifs at hstep
  · exact Except.ok.inj hstep ▸ hs
  · simp only [bind_eq_ok, stopIf_eq_ok, pure_eq_ok] at hstep
    obtain ⟨coin, -, -, -, rfl⟩ := hstep
    rw [hs]

theorem valueOut_eq_ok {nValueOut : Int} (h : valueOut tx = .ok nValueOut) :
    nValueOut = (tx.vout.map CTxOut.nValue).sum := by
  simp only [valueOut, orStop_eq_ok] at h
  exact (CTransaction.getValueOut_eq_some h).2

/-- The checks leave the coins alone and tally the transaction's value in and its fee. -/
theorem connectTxChecks_spec
    (h : connectTxChecks env node block nHeight fScriptChecks st tx = .ok st') :
    st'.coins = st.coins ∧ st'.nValueOut = st.nValueOut ∧
      st'.nValueIn = st.nValueIn + txValueIn env st.coins tx ∧
      st'.nFees = st.nFees + txFee st.coins tx := by
  simp only [connectTxChecks, bind_eq_ok, stopIf_eq_ok] at h
  obtain ⟨-, -, -, -, h⟩ := h
  split_ifs at h with hspend hbase
  · simp only [connectZerocoinSpend, bind_eq_ok, stopIf_eq_ok] at h
    obtain ⟨-, -, mid, hspends, hmints⟩ := h
    obtain ⟨hcoins, hfees, hout, hin⟩ := foldlM_connectSpendInput hspends
    have hmid := foldlM_connectMintOutput hmints
    rw [hmid]
    refine ⟨hcoins, hout, ?_, ?_⟩
    · rw [txValueIn, if_pos hspend]
      exact hin
    · have hfee : txFee st.coins tx = 0 := by simp [txFee, CTransaction.spendsCoins, hspend]
      rw [hfee, add_zero]
      exact hfees
  · obtain rfl := Except.ok.inj h
    have hnot : tx.isZerocoinSpend = false := by simpa using hspend
    refine ⟨rfl, rfl, ?_, ?_⟩
    · simp [txValueIn, hnot, CoinsMap.getValueIn, hbase]
    · simp [txFee, CTransaction.spendsCoins, hbase]
  · simp only [connectSpendingTx, bind_eq_ok, stopIf_eq_ok, pure_eq_ok] at h
    obtain ⟨-, -, mid, hmints, -, -, nValueOut, hout, -, -, rfl⟩ := h
    have hmid := foldlM_connectMintOutput hmints
    have hnot : tx.isZerocoinSpend = false := by simpa using hspend
    have hbase' : tx.isCoinBase = false := by simpa using hbase
    have hvalue := valueOut_eq_ok hout
    rw [hmid]
    refine ⟨rfl, rfl, ?_, ?_⟩
    · simp [txValueIn, hnot]
    · cases hstake : tx.isCoinStake with
      | true => simp [txFee, hstake]
      | false => simp [txFee, CTransaction.spendsCoins, hnot, hbase', hstake, hvalue]

/-- One round: the coins are updated, and the tallies grow by the transaction's own values. -/
theorem connectTx_spec (h : connectTx env node block nHeight fScriptChecks st tx = .ok st') :
    (∃ txundo, updateCoins nHeight st.coins tx = some (txundo, st'.coins)) ∧
      st'.nValueOut = st.nValueOut + (tx.vout.map CTxOut.nValue).sum ∧
      st'.nValueIn = st.nValueIn + txValueIn env st.coins tx ∧
      st'.nFees = st.nFees + txFee st.coins tx := by
  simp only [connectTx, bind_eq_ok, orStop_eq_ok, pure_eq_ok, Prod.exists] at h
  obtain ⟨mid, hchecks, nValueOut, hout, txundo, coins, hupdate, rfl⟩ := h
  obtain ⟨hcoins, hvout, hvin, hfees⟩ := connectTxChecks_spec hchecks
  have hvalue := valueOut_eq_ok hout
  refine ⟨⟨txundo, ?_⟩, ?_, hvin, hfees⟩
  · rw [← hcoins]
    exact hupdate
  · show mid.nValueOut + nValueOut = _
    rw [hvout, hvalue]

theorem foldlM_connectTx_coins {vtx : List CTransaction}
    (h : vtx.foldlM (connectTx env node block nHeight fScriptChecks) st = .ok st') :
    coinsAfter nHeight st.coins vtx = some st'.coins := by
  induction vtx generalizing st with
  | nil =>
    rw [List.foldlM_nil, pure_eq_ok] at h
    rw [h]
    rfl
  | cons tx vtx ih =>
    rw [List.foldlM_cons, bind_eq_ok] at h
    obtain ⟨mid, hstep, hrest⟩ := h
    obtain ⟨⟨txundo, hupdate⟩, -⟩ := connectTx_spec hstep
    have hmid := ih hrest
    unfold coinsAfter at hmid ⊢
    rw [List.foldlM_cons, hupdate]
    exact hmid

/-- Around the transaction at a position of a connected block. -/
theorem foldlM_connectTx_at {vtx : List CTransaction} {i : ℕ} {coins : CoinsMap}
    (h : vtx.foldlM (connectTx env node block nHeight fScriptChecks) st = .ok st')
    (htx : vtx[i]? = some tx) (hcoins : coinsAfter nHeight st.coins (vtx.take i) = some coins) :
    ∃ st₁ st₂, st₁.coins = coins ∧
      connectTx env node block nHeight fScriptChecks st₁ tx = .ok st₂ := by
  obtain ⟨hlen, hget⟩ := List.getElem?_eq_some_iff.mp htx
  have hsplit : vtx = vtx.take i ++ tx :: vtx.drop (i + 1) := by
    conv_lhs => rw [← List.take_append_drop i vtx]
    rw [List.drop_eq_getElem_cons hlen, hget]
  rw [hsplit, foldlM_split] at h
  obtain ⟨st₁, st₂, hbefore, hstep, -⟩ := h
  have hst₁ := foldlM_connectTx_coins hbefore
  exact ⟨st₁, st₂, Option.some.inj (hst₁.symm.trans hcoins), hstep⟩

/-- What an accepted block was connected with. -/
theorem connectBlock_eq_ok {coins : CoinsMap} {hashBestBlock : Uint256} {pindex : CBlockIndex}
    {fJustCheck fAlreadyChecked : Bool} {outcome : ConnectOutcome}
    (h : connectBlock env node block coins hashBestBlock pindex fJustCheck fAlreadyChecked =
      .ok outcome) :
    ∃ fScriptChecks st supplied,
      connectBlockHeader env node block coins hashBestBlock pindex fJustCheck fAlreadyChecked =
        .ok () ∧
      block.vtx.foldlM (connectTx env node block pindex.nHeight fScriptChecks)
        { coins := coins } = .ok st ∧
      updateZPIVSupply env node block pindex = .ok supplied ∧
      checkBlockValue node block (trackMoneySupply node supplied st) st.nFees = .ok () ∧
      outcome.coins = st.coins ∧
      outcome.pindex.nMint = (trackMoneySupply node supplied st).nMint := by
  simp only [connectBlock, bind_eq_ok, stopIf_eq_ok, pure_eq_ok] at h
  obtain ⟨_, hheader, st, hloop, supplied, hsupply, _, hvalue, -, -, rfl⟩ := h
  refine ⟨_, st, supplied, hheader, hloop, hsupply, hvalue, rfl, ?_⟩
  dsimp only
  split_ifs
  · rfl
  · unfold CBlockIndex.raiseValidity
    split_ifs <;> rfl

end
end Lytix
