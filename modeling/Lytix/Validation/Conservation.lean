import Lytix.Validation.ConnectBlock

/-! Value conservation in an accepted block. Two kinds of transaction escape the amount checks:
zerocoin spends while zerocoin is not active yet, and coinstakes in a proof-of-work block. -/
namespace Lytix
open Checks

/-- The value of the unspent output an input refers to, zero if there is none. -/
def coinValue (coins : CoinsMap) (txin : CTxIn) : Int :=
  ((((coins.coinsOf txin.prevout.hash).vout[txin.prevout.n]?).filter fun out =>
    !out.isNull).map CTxOut.nValue).getD 0

/-- The value an input contributes: its denomination for the zerocoin spends among the inputs of
a zerocoin spend, and the coin's value for every other input. -/
def inputValue (env : ConsensusEnv) (coins : CoinsMap) (tx : CTransaction) (txin : CTxIn) : Int :=
  if tx.isZerocoinSpend && txin.scriptSig.isZerocoinSpend then
    ((env.txInToZerocoinSpend txin).map fun spend => spend.denomination.toAmount).getD 0
  else coinValue coins txin

/-- The transaction pays out at most the value of its inputs. -/
def ConservesValue (env : ConsensusEnv) (coins : CoinsMap) (tx : CTransaction) : Prop :=
  (tx.vout.map CTxOut.nValue).sum ≤ (tx.vin.map (inputValue env coins tx)).sum

/-- `tx` is at position `i` of the block, is neither its coinbase nor its coinstake, and is
connected to `coins`. -/
structure OrdinaryAt (block : CBlock) (nHeight : Int) (start : CoinsMap) (i : ℕ)
    (tx : CTransaction) (coins : CoinsMap) : Prop where
  position : block.vtx[i]? = some tx
  notCoinBase : i ≠ 0
  notCoinStake : ¬ (i = 1 ∧ tx.isCoinStake = true)
  connected : coinsAfter nHeight start (block.vtx.take i) = some coins

/-- No amount check is made on the transaction. -/
def EscapesAmountCheck (node : ConsensusNode) (block : CBlock) (tx : CTransaction) : Prop :=
  (tx.isCoinStake = true ∧ block.isProofOfStake = false) ∨
    (tx.isZerocoinSpend = true ∧ zerocoinActive node block = false)

section
variable {env : ConsensusEnv} {node node' : ConsensusNode} {block : CBlock} {tx : CTransaction}
  {coins : CoinsMap} {nHeight : Int}

theorem sum_inputValue_zerocoin (hspend : tx.isZerocoinSpend = true)
    (hall : ∀ txin ∈ tx.vin, txin.scriptSig.isZerocoinSpend = true) :
    (tx.vin.map (inputValue env coins tx)).sum = spentDenominations env tx.vin := by
  unfold spentDenominations
  rw [List.filter_eq_self.mpr hall]
  congr 1
  apply List.map_congr_left
  intro txin htxin
  simp [inputValue, hspend, hall txin htxin]

theorem coinValue_eq_of_available {txin : CTxIn}
    (h : (coins.coinsOf txin.prevout.hash).isAvailable txin.prevout.n = true) :
    coinValue coins txin = (coins.outputFor txin).nValue := by
  unfold CCoins.isAvailable at h
  unfold coinValue CoinsMap.outputFor
  split at h
  · rename_i out hout
    rw [Bool.and_eq_true] at h
    rw [hout, Option.filter_some, if_pos h.1]
    rfl
  · contradiction

theorem foldlM_checkInputValue {vin : List CTxIn} {nValueIn total : Int}
    (h : vin.foldlM (checkInputValue node coins nHeight) nValueIn = .ok total) :
    total = nValueIn + (vin.map fun txin => (coins.outputFor txin).nValue).sum := by
  induction vin generalizing nValueIn with
  | nil =>
    rw [List.foldlM_nil, pure_eq_ok] at h
    simp [h]
  | cons txin vin ih =>
    rw [List.foldlM_cons, bind_eq_ok] at h
    obtain ⟨mid, hstep, hrest⟩ := h
    simp only [checkInputValue, bind_eq_ok, stopIf_eq_ok, pure_eq_ok] at hstep
    obtain ⟨-, -, -, -, rfl⟩ := hstep
    rw [ih hrest, List.map_cons, List.sum_cons]
    ring

/-- `CheckInputs` compares the amounts of a transaction that spends coins and is no coinstake. -/
theorem checkInputs_conserves {fScriptChecks : Bool} (hspends : tx.spendsCoins = true)
    (hstake : tx.isCoinStake = false)
    (h : checkInputs env node coins tx nHeight fScriptChecks = .ok ()) :
    ConservesValue env coins tx := by
  simp only [checkInputs, checkWhen_eq_ok, bind_eq_ok, stopIf_eq_ok] at h
  obtain ⟨-, havail, total, htotal, _, hamount, -⟩ := h hspends
  obtain ⟨nValueOut, hout, -, hle, -⟩ := hamount hstake
  have hsum := foldlM_checkInputValue htotal
  have hvalue := valueOut_eq_ok hout
  have hnot : tx.isZerocoinSpend = false := by
    simp only [CTransaction.spendsCoins, Bool.and_eq_true, Bool.not_eq_true'] at hspends
    exact hspends.2
  have hinputs : (tx.vin.map (inputValue env coins tx)).sum =
      (tx.vin.map fun txin => (coins.outputFor txin).nValue).sum := by
    congr 1
    apply List.map_congr_left
    intro txin htxin
    have hone : (coins.coinsOf txin.prevout.hash).isAvailable txin.prevout.n = true := by
      simp only [CoinsMap.haveInputs, hspends, Bool.not_true, Bool.false_or,
        Bool.not_eq_false, List.all_eq_true] at havail
      exact havail txin htxin
    simp only [inputValue, hnot, Bool.false_and, Bool.false_eq_true, if_false]
    exact coinValue_eq_of_available hone
  unfold ConservesValue
  rw [hinputs]
  omega

/-- A transaction that spends coins is connected only after `CheckInputs`. -/
theorem connectTx_checkInputs {fScriptChecks : Bool} {st st' : ConnectState}
    (hspends : tx.spendsCoins = true)
    (h : connectTx env node block nHeight fScriptChecks st tx = .ok st') :
    checkInputs env node st.coins tx nHeight fScriptChecks = .ok () := by
  simp only [CTransaction.spendsCoins, Bool.and_eq_true, Bool.not_eq_true'] at hspends
  obtain ⟨hbase, hzero⟩ := hspends
  simp only [connectTx, bind_eq_ok] at h
  obtain ⟨mid, hchecks, -⟩ := h
  simp only [connectTxChecks, hbase, hzero, Bool.false_eq_true, if_false, bind_eq_ok,
    stopIf_eq_ok, connectSpendingTx] at hchecks
  obtain ⟨-, -, -, -, -, -, minted, hmints, -, -, -, -, _, hinputs, -⟩ := hchecks
  rw [foldlM_connectMintOutput hmints] at hinputs
  exact hinputs

/-- A coinstake that is not the block's own stands in a proof-of-work block. -/
theorem coinStake_not_proofOfStake {i : ℕ} {start : CoinsMap}
    (hcoin : checkCoinTransactions block = .ok ())
    (hat : OrdinaryAt block nHeight start i tx coins) (hstake : tx.isCoinStake = true) :
    block.isProofOfStake = false := by
  by_contra hpos
  rw [Bool.not_eq_false] at hpos
  have hrest := (checkCoinTransactions_eq_ok hcoin).2.2 hpos
  have hlate : 2 ≤ i := by
    have hzero := hat.notCoinBase
    have hone : i ≠ 1 := fun h => hat.notCoinStake ⟨h, hstake⟩
    omega
  have hmem : tx ∈ block.vtx.drop 2 := by
    have hget : (block.vtx.drop 2)[i - 2]? = some tx := by
      rw [List.getElem?_drop]
      convert hat.position using 2
      omega
    exact List.mem_of_getElem? hget
  have hnot := hrest tx hmem
  exact Bool.false_ne_true (hnot.symm.trans hstake)

theorem not_coinBase_of_ordinaryAt {i : ℕ} {start : CoinsMap}
    (hcoin : checkCoinTransactions block = .ok ())
    (hat : OrdinaryAt block nHeight start i tx coins) : tx.isCoinBase = false := by
  have hrest := (checkCoinTransactions_eq_ok hcoin).2.1
  apply hrest
  have hget : (block.vtx.drop 1)[i - 1]? = some tx := by
    rw [List.getElem?_drop]
    convert hat.position using 2
    have hzero := hat.notCoinBase
    omega
  exact List.mem_of_getElem? hget

/-- Every transaction that does not escape the amount checks conserves value. -/
theorem conservesValue_of_checked {fCheckPOW fCheckMerkleRoot fScriptChecks : Bool} {i : ℕ}
    {start : CoinsMap} {st st' : ConnectState}
    (hgenesis : block.hash ≠ node.params.hashGenesisBlock)
    (hcheck : checkBlock env node block fCheckPOW fCheckMerkleRoot = .ok ())
    (hstep : connectTx env node' block nHeight fScriptChecks st tx = .ok st')
    (hat : OrdinaryAt block nHeight start i tx st.coins)
    (hchecked : ¬ EscapesAmountCheck node block tx) :
    ConservesValue env st.coins tx := by
  obtain ⟨hcoin, htxs⟩ := checkBlock_eq_ok hgenesis hcheck
  have hstake : tx.isCoinStake = false := by
    by_contra hstake
    rw [Bool.not_eq_false] at hstake
    exact hchecked (Or.inl ⟨hstake, coinStake_not_proofOfStake hcoin hat hstake⟩)
  have hbase := not_coinBase_of_ordinaryAt hcoin hat
  cases hspend : tx.isZerocoinSpend with
  | true =>
    have hactive : zerocoinActive node block = true := by
      by_contra hinactive
      rw [Bool.not_eq_true] at hinactive
      exact hchecked (Or.inr ⟨hspend, hinactive⟩)
    have htx := htxs tx (List.mem_of_getElem? hat.position)
    rw [hactive] at htx
    obtain ⟨hall, nValueOut, hout, hle⟩ := checkTransaction_zerocoinSpend htx hspend hstake
    unfold ConservesValue
    rw [sum_inputValue_zerocoin hspend hall, ← (CTransaction.getValueOut_eq_some hout).2]
    exact hle
  | false =>
    have hspends : tx.spendsCoins = true := by simp [CTransaction.spendsCoins, hbase, hspend]
    exact checkInputs_conserves hspends hstake (connectTx_checkInputs hspends hstep)

end

/-- In an accepted block, every transaction but the coinbase and the coinstake conserves value
exactly when those do that escape the amount checks. -/
theorem conservesValue_iff {env : ConsensusEnv} {node node' : ConsensusNode} {block : CBlock}
    {coins : CoinsMap} {hashBestBlock : Uint256} {pindex : CBlockIndex}
    {fCheckPOW fCheckMerkleRoot fJustCheck fAlreadyChecked : Bool} {outcome : ConnectOutcome}
    (hgenesis : block.hash ≠ node.params.hashGenesisBlock)
    (hcheck : checkBlock env node block fCheckPOW fCheckMerkleRoot = .ok ())
    (hconnect : connectBlock env node' block coins hashBestBlock pindex fJustCheck
      fAlreadyChecked = .ok outcome) :
    (∀ i tx coins', OrdinaryAt block pindex.nHeight coins i tx coins' →
        ConservesValue env coins' tx) ↔
      ∀ i tx coins', OrdinaryAt block pindex.nHeight coins i tx coins' →
        EscapesAmountCheck node block tx → ConservesValue env coins' tx := by
  constructor
  · intro h i tx coins' hat _
    exact h i tx coins' hat
  · intro h i tx coins' hat
    obtain ⟨fScriptChecks, st, supplied, -, hloop, -⟩ := connectBlock_eq_ok hconnect
    obtain ⟨st₁, st₂, hcoins, hstep⟩ := foldlM_connectTx_at hloop hat.position hat.connected
    by_cases hescapes : EscapesAmountCheck node block tx
    · exact h i tx coins' hat hescapes
    · rw [← hcoins] at hat ⊢
      exact conservesValue_of_checked hgenesis hcheck hstep hat hescapes

/-! A block above the genesis block 1 on the test network, before zerocoin starts there. -/

def launchView (pprev : CBlockIndex) (hprev : pprev.pprev = none) (hheight : pprev.nHeight = 0) :
    ChainView where
  mapBlockIndex := fun hash => hash == 1
  index := fun hash => if hash = 1 then pprev else {}
  chainActive := [1]
  heights := by
    intro i pindex h
    rcases i with _ | i <;> simp at h
    subst h
    exact hheight
  linked := by
    intro i pindex h
    rcases i with _ | i <;> simp at h
    subst h
    exact hprev
  above := by
    intro pindex p hknown hp
    rw [beq_iff_eq] at hknown
    rw [if_pos hknown, hprev] at hp
    contradiction

theorem empty_pprev : ({} : CBlockIndex).pprev = none := rfl

theorem empty_nHeight : ({} : CBlockIndex).nHeight = 0 := rfl

/-- A synced node of the test network at the genesis block, of which `pprev` is the entry. -/
def launchNode (pprev : CBlockIndex) (hprev : pprev.pprev = none)
    (hheight : pprev.nHeight = 0) : ConsensusNode where
  network := .testnet
  view := launchView pprev hprev hheight
  mempool := fun _ => none
  mempool_hash := mempool_hash_none
  fTxIndex := false
  txIndex := fun _ => none
  accessCoins := fun _ => none
  readBlockFromDisk := fun _ => none
  sporks := quietSporks
  adjustedTime := 1600000000
  fInitialDownload := false
  fVerifyingBlocks := false
  fSynced := true
  totalBlocksEstimate := 0
  mapLockedInputs := fun _ => none
  masternodePayments := ⟨fun _ => none, keyed_none⟩
  budget := ⟨[], 0⟩
  readAccumulatorValue := fun _ => none
  readCoinSpend := fun _ => none
  readCoinMint := fun _ => none
  validateAccumulatorCheckpoint := fun _ => true

/-- Every spend parses to one coin of denomination one. -/
def launchEnv : ConsensusEnv where
  hash := fun _ => 0
  verifyScript := fun _ _ _ => true
  txInToZerocoinSpend := fun _ => some ⟨.ZQ_ONE, 7, 0, 0, 1, .SPEND⟩
  txSize := fun _ => 200
  blockSize := fun _ => 1000
  legacySigOpCount := fun _ => 0
  p2shSigOpCount := fun _ _ => 0
  hashTxOut := fun _ => 0
  checkProofOfWork := fun _ _ => true
  buildMerkleTree := fun _ => (0, false)
  publicCoinValue := fun _ => 11
  pubCoinValidate := fun _ => true
  verifySpend := fun _ _ => false
  hasValidSignature := fun _ => false
  invalidSerial := fun _ => false
  scriptCheck := fun _ _ _ => true

def launchCoinBase (nValue : Int) : CTransaction :=
  ⟨20, 1, [⟨COutPoint.null, [1], 0⟩], [⟨nValue, [2], -10⟩], 0⟩

/-- Mints one coin from the coin of transaction 30. -/
def launchMint : CTransaction :=
  ⟨21, 1, [⟨⟨30, 0⟩, [], 0⟩], [⟨COIN, [OP_ZEROCOINMINT], -10⟩], 0⟩

/-- Spends a zerocoin of denomination one, and pays out `nValue`. -/
def launchSpend (nValue : Int) : CTransaction :=
  ⟨22, 1, [⟨⟨0, 0⟩, [OP_ZEROCOINSPEND], 1⟩], [⟨nValue, [3], -10⟩], 0⟩

def launchCoins : CoinsMap := CoinsMap.empty.set 30 ⟨false, false, [⟨COIN, [4], -10⟩], 0, 1⟩

def launchBlock (vtx : List CTransaction) : CBlock := ⟨5, 3, 1, 0, 1600000000, 0, 0, 0, vtx⟩

def launchIndex : CBlockIndex := { pprev := some 1, nHeight := 1, nVersion := 3 }

/-- The block that pays out `nValue` for one redeemed coin. -/
def spendBlock (nValue : Int) : CBlock :=
  launchBlock [launchCoinBase 0, launchMint, launchSpend nValue]

theorem checkBlock_spendBlock_thousand :
    checkBlock launchEnv (launchNode {} rfl rfl) (spendBlock (1000 * COIN)) true true = .ok () := by
  rfl

theorem connectBlock_spendBlock_thousand :
    ∃ outcome, connectBlock launchEnv (launchNode {} rfl rfl) (spendBlock (1000 * COIN))
      launchCoins 1 launchIndex false true = .ok outcome := ⟨_, rfl⟩

theorem spendBlock_not_genesis (nValue : Int) :
    (spendBlock nValue).hash ≠ (launchNode {} rfl rfl).params.hashGenesisBlock := by
  show (5 : Uint256) ≠ _
  decide

/-- A thousand coins for one, before zerocoin is active. -/
theorem not_conservesValue_spendBlock :
    checkBlock launchEnv (launchNode {} rfl rfl) (spendBlock (1000 * COIN)) true true = .ok () ∧
      (∃ outcome, connectBlock launchEnv (launchNode {} rfl rfl) (spendBlock (1000 * COIN))
        launchCoins 1 launchIndex false true = .ok outcome) ∧
      ∃ coins', OrdinaryAt (spendBlock (1000 * COIN)) 1 launchCoins 2 (launchSpend (1000 * COIN))
          coins' ∧
        ¬ ConservesValue launchEnv coins' (launchSpend (1000 * COIN)) := by
  refine ⟨checkBlock_spendBlock_thousand, connectBlock_spendBlock_thousand, _,
    ⟨rfl, by decide, by decide, rfl⟩, ?_⟩
  unfold ConservesValue
  have hin : (launchSpend (1000 * COIN)).isZerocoinSpend = true := by decide
  rw [sum_inputValue_zerocoin hin (by decide)]
  decide

theorem conservesValue_iff_spendBlock :
    (∀ i tx coins', OrdinaryAt (spendBlock COIN) 1 launchCoins i tx coins' →
        ConservesValue launchEnv coins' tx) ↔
      ∀ i tx coins', OrdinaryAt (spendBlock COIN) 1 launchCoins i tx coins' →
        EscapesAmountCheck (launchNode {} rfl rfl) (spendBlock COIN) tx →
        ConservesValue launchEnv coins' tx := by
  have hcheck : checkBlock launchEnv (launchNode {} rfl rfl) (spendBlock COIN) true true =
      .ok () := rfl
  have hconnect : ∃ outcome, connectBlock launchEnv (launchNode {} rfl rfl) (spendBlock COIN)
      launchCoins 1 launchIndex false true = .ok outcome := ⟨_, rfl⟩
  obtain ⟨outcome, houtcome⟩ := hconnect
  exact conservesValue_iff (spendBlock_not_genesis COIN) hcheck houtcome

end Lytix

/-! The amount a connected block mints (`nMint`), transaction by transaction, and the value check,
which looks at the predecessor's amount. -/
namespace Lytix
open Checks

/-- What a transaction pays out beyond what it brings in. The fee of a transaction that spends
coins is counted as minted again, so such a transaction mints nothing. -/
def mintedBy (env : ConsensusEnv) (coins : CoinsMap) (tx : CTransaction) : Int :=
  let nValueOut := (tx.vout.map CTxOut.nValue).sum
  if tx.isZerocoinSpend then nValueOut - spentDenominations env tx.vin
  else if tx.isCoinBase then nValueOut
  else if tx.isCoinStake then nValueOut - coins.getValueIn tx
  else 0

/-- The sum of a quantity over the transactions of a block, each with the coins it is connected
to. -/
def sumOverBlock (f : CoinsMap → CTransaction → Int) (nHeight : Int) (coins : CoinsMap) :
    List CTransaction → Int
  | [] => 0
  | tx :: vtx =>
    f coins tx +
      match updateCoins nHeight coins tx with
      | none => 0
      | some (_, coins) => sumOverBlock f nHeight coins vtx

/-- What a block mints, and the fees of its transactions. -/
def blockMint (env : ConsensusEnv) : Int → CoinsMap → List CTransaction → Int :=
  sumOverBlock (mintedBy env)

def blockFees : Int → CoinsMap → List CTransaction → Int := sumOverBlock txFee

section
variable {env : ConsensusEnv} {node : ConsensusNode} {block : CBlock} {tx : CTransaction}
  {nHeight : Int} {fScriptChecks : Bool} {st st' : ConnectState}

theorem mintedBy_eq (coins : CoinsMap) (tx : CTransaction) :
    mintedBy env coins tx =
      (tx.vout.map CTxOut.nValue).sum - txValueIn env coins tx + txFee coins tx := by
  cases hspend : tx.isZerocoinSpend with
  | true => simp [mintedBy, txValueIn, txFee, CTransaction.spendsCoins, hspend]
  | false =>
    cases hbase : tx.isCoinBase with
    | true =>
      simp [mintedBy, txValueIn, txFee, CTransaction.spendsCoins, CoinsMap.getValueIn, hspend, hbase]
    | false =>
      cases hstake : tx.isCoinStake with
      | true => simp [mintedBy, txValueIn, txFee, hspend, hbase, hstake]
      | false =>
        simp only [mintedBy, txValueIn, txFee, CTransaction.spendsCoins, hspend, hbase, hstake,
          Bool.false_eq_true, if_false, Bool.not_false, Bool.and_self, if_true]
        ring

/-- The tallies of the loop, summed over the block. -/
theorem foldlM_connectTx_tallies {vtx : List CTransaction}
    (h : vtx.foldlM (connectTx env node block nHeight fScriptChecks) st = .ok st') :
    st'.nValueOut - st'.nValueIn + st'.nFees =
        st.nValueOut - st.nValueIn + st.nFees + blockMint env nHeight st.coins vtx ∧
      st'.nFees = st.nFees + blockFees nHeight st.coins vtx := by
  induction vtx generalizing st with
  | nil =>
    rw [List.foldlM_nil, pure_eq_ok] at h
    rw [h]
    simp [blockMint, blockFees, sumOverBlock]
  | cons tx vtx ih =>
    rw [List.foldlM_cons, bind_eq_ok] at h
    obtain ⟨mid, hstep, hrest⟩ := h
    obtain ⟨⟨txundo, hupdate⟩, hout, hin, hfee⟩ := connectTx_spec hstep
    obtain ⟨hmint, hfees⟩ := ih hrest
    have hone := @mintedBy_eq env st.coins tx
    have hblock : blockMint env nHeight st.coins (tx :: vtx) =
        mintedBy env st.coins tx + blockMint env nHeight mid.coins vtx := by
      simp only [blockMint, sumOverBlock, hupdate]
    have hblockFees : blockFees nHeight st.coins (tx :: vtx) =
        txFee st.coins tx + blockFees nHeight mid.coins vtx := by
      simp only [blockFees, sumOverBlock, hupdate]
    constructor
    · omega
    · omega

/-- The entry of a connected block records what the block mints. -/
theorem connectBlock_nMint {coins : CoinsMap} {hashBestBlock : Uint256} {pindex : CBlockIndex}
    {fJustCheck fAlreadyChecked : Bool} {outcome : ConnectOutcome}
    (h : connectBlock env node block coins hashBestBlock pindex fJustCheck fAlreadyChecked =
      .ok outcome) :
    outcome.pindex.nMint = blockMint env pindex.nHeight coins block.vtx := by
  obtain ⟨fScriptChecks, st, supplied, -, hloop, -, -, -, hmint⟩ := connectBlock_eq_ok h
  obtain ⟨htally, -⟩ := foldlM_connectTx_tallies hloop
  rw [hmint]
  dsimp only [trackMoneySupply] at htally ⊢
  omega

theorem updateZPIVSupply_entry {pindex supplied : CBlockIndex}
    (h : updateZPIVSupply env node block pindex = .ok supplied) :
    supplied.pprev = pindex.pprev ∧ supplied.nHeight = pindex.nHeight := by
  unfold updateZPIVSupply at h
  split at h
  · obtain rfl := Except.ok.inj h
    exact ⟨rfl, rfl⟩
  · simp only [bind_eq_ok, pure_eq_ok] at h
    obtain ⟨supply, -, rfl⟩ := h
    exact ⟨rfl, rfl⟩

/-- The check that was made: the predecessor's mint against this block's reward. -/
theorem connectBlock_checks_previous {coins : CoinsMap} {hashBestBlock prev : Uint256}
    {pindex : CBlockIndex} {fJustCheck fAlreadyChecked : Bool} {outcome : ConnectOutcome}
    (hheight : 0 < pindex.nHeight) (hprev : pindex.pprev = some prev)
    (hexempt : blockValueExempt node block = false)
    (h : connectBlock env node block coins hashBestBlock pindex fJustCheck fAlreadyChecked =
      .ok outcome) :
    (node.view.index prev).nMint ≤ expectedMint node block (node.view.index prev).nHeight
      (blockFees pindex.nHeight coins block.vtx) := by
  obtain ⟨fScriptChecks, st, supplied, -, hloop, hsupply, hvalue, -, -⟩ := connectBlock_eq_ok h
  obtain ⟨-, hfees⟩ := foldlM_connectTx_tallies hloop
  obtain ⟨hpprev, hsame⟩ := updateZPIVSupply_entry hsupply
  have hpprev' : (trackMoneySupply node supplied st).pprev = some prev := hpprev.trans hprev
  have hheight' : 0 < (trackMoneySupply node supplied st).nHeight := by
    show 0 < supplied.nHeight
    omega
  simp only [checkBlockValue, checkWhen_eq_ok, bind_eq_ok, orStop_eq_ok, stopIf_eq_ok] at hvalue
  obtain ⟨entry, hentry, hvalid⟩ := hvalue hheight'
  rw [hpprev', Option.map_some, Option.some.injEq] at hentry
  rw [Bool.not_eq_false, ← hentry] at hvalid
  simp only [isBlockValueValid, hexempt, Bool.false_eq_true, if_false, decide_eq_true_eq] at hvalid
  have hstart : st.nFees = blockFees pindex.nHeight coins block.vtx := by
    rw [hfees]
    exact zero_add _
  rw [← hstart]
  exact hvalid

end

/-- The block whose coinbase pays out `nValue`. -/
def rewardBlock (nValue : Int) : CBlock := launchBlock [launchCoinBase nValue]

end Lytix
