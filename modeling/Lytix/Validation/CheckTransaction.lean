import Lytix.Validation.Consensus

/-! The checks of a transaction that need no coins (`CheckTransaction`), with those of its zerocoin
spends (`CheckZerocoinSpend`). -/
namespace Lytix
open Checks

def MAX_ZEROCOIN_TX_SIZE : Nat := 150000

/-- The serials of the zerocoin spends among inputs, in their order. -/
def serialsOf (env : ConsensusEnv) (vin : List CTxIn) : List Int :=
  (vin.filter fun txin => txin.scriptSig.isZerocoinSpend).filterMap fun txin =>
    (env.txInToZerocoinSpend txin).map CoinSpend.coinSerialNumber

/-- The serials that the zerocoin spends among transactions spend. -/
def zerocoinSerials (env : ConsensusEnv) (vtx : List CTransaction) : List Int :=
  vtx.flatMap fun tx => if tx.isZerocoinSpend then serialsOf env tx.vin else []

section
variable (env : ConsensusEnv) (node : ConsensusNode)

def checkZerocoinMint (txout : CTxOut) : Validation Unit := do
  let pubCoin ← txOutToPublicCoin env txout
  stopIf (env.pubCoinValidate pubCoin = false)
    ⟨100, "CheckZerocoinMint() : PubCoin does not validate"⟩

/-- `TxInToZerocoinSpend`: the parser throws on a malformed spend. -/
def parseSpend (txin : CTxIn) : Validation CoinSpend :=
  orStop ⟨0, "error parsing the coin spend"⟩ (env.txInToZerocoinSpend txin)

/-- `GetValueOut`, which throws. -/
def valueOut (tx : CTransaction) : Validation Int :=
  orStop ⟨0, "CTransaction::GetValueOut() : value out of range"⟩ tx.getValueOut

/-- The accumulator that the spend names is known and holds the coin. -/
def verifyAccumulator (newSpend : CoinSpend) : Validation Unit := do
  let bnAccumulatorValue ← orStop
    ⟨100, "Zerocoinspend could not find accumulator associated with checksum"⟩
    (node.readAccumulatorValue newSpend.accChecksum)
  stopIf (env.verifySpend newSpend bnAccumulatorValue = false)
    ⟨100, "CheckZerocoinSpend(): zerocoin spend did not verify"⟩

/-- The serials seen in a transaction, the amount redeemed and whether any spend was checked. -/
structure SpendTally where
  serials : List Int := []
  nTotalRedeemed : Int := 0
  fValidated : Bool := false

/-- One round of the loop over the inputs in `CheckZerocoinSpend`. -/
def checkSpendInput (fVerifySignature : Bool) (hashTxOut : Uint256) (tally : SpendTally)
    (txin : CTxIn) : Validation SpendTally :=
  if txin.scriptSig.isZerocoinSpend = false then .ok tally
  else do
    let newSpend ← parseSpend env txin
    stopIf (newSpend.denomination = .ZQ_ERROR)
      ⟨100, "Zerocoinspend does not have the correct denomination"⟩
    stopIf (newSpend.denomination.toInt ≠ txin.nSequence)
      ⟨100, "Zerocoinspend nSequence denomination does not match CoinSpend"⟩
    stopIf (newSpend.ptxHash ≠ hashTxOut)
      ⟨100, "Zerocoinspend does not use the same txout that was used in the SoK"⟩
    checkWhen (fVerifySignature = true) (verifyAccumulator env node newSpend)
    stopIf (newSpend.coinSerialNumber ∈ tally.serials)
      ⟨100, "Zerocoinspend serial is used twice in the same tx"⟩
    pure ⟨newSpend.coinSerialNumber :: tally.serials,
      tally.nTotalRedeemed + newSpend.denomination.toAmount, true⟩

def checkZerocoinSpend (tx : CTransaction) (fVerifySignature : Bool) : Validation Unit := do
  stopIf (2 < tx.vout.length ∧ 2 < (tx.vout.filter fun out => !out.isZerocoinMint).length ∧
      tx.isCoinStake = false)
    ⟨100, "CheckZerocoinSpend(): over two non-mint outputs in a zerocoinspend transaction"⟩
  let tally ← tx.vin.foldlM (checkSpendInput env node fVerifySignature (env.hashTxOut tx.vout)) {}
  checkWhen (tx.isCoinStake = false) (do
    let nValueOut ← valueOut tx
    stopIf (tally.nTotalRedeemed < nValueOut)
      ⟨100, "Transaction spend more than was redeemed in zerocoins"⟩)
  stopIf (tally.fValidated = false) ⟨100, "CheckTransaction() : invalid zerocoin spend"⟩

/-- The value so far and the zerocoin spends among the outputs. -/
structure OutputTally where
  nValueOut : Int := 0
  nZCSpendCount : Nat := 0

/-- One round of the loop over the outputs in `CheckTransaction`. -/
def checkOutput (tx : CTransaction) (fZerocoinActive : Bool) (tally : OutputTally)
    (txout : CTxOut) : Validation OutputTally := do
  stopIf (txout.isEmpty = true ∧ tx.isCoinBase = false ∧ tx.isCoinStake = false)
    ⟨100, "CheckTransaction(): txout empty for user transaction"⟩
  stopIf (txout.nValue < 0) ⟨100, "bad-txns-vout-negative"⟩
  stopIf (node.params.nMaxMoneyOut < txout.nValue) ⟨100, "bad-txns-vout-toolarge"⟩
  stopIf (¬ MoneyRange node.params (tally.nValueOut + txout.nValue))
    ⟨100, "bad-txns-txouttotal-toolarge"⟩
  checkWhen (fZerocoinActive = true ∧ txout.isZerocoinMint = true) (checkZerocoinMint env txout)
  pure ⟨tally.nValueOut + txout.nValue,
    tally.nZCSpendCount +
      (if fZerocoinActive && txout.scriptPubKey.isZerocoinSpend then 1 else 0)⟩

/-- Do not require signature verification if this is initial sync and a block over 24 hours old. -/
def verifiesSpendSignature : Bool :=
  let nTimeTip := (node.view.tip.map fun pindex => (node.view.index pindex).getBlockTime).getD 0
  !node.fInitialDownload && decide (node.sporks.now - nTimeTip < 60 * 60 * 24)

/-- The checks that `CheckTransaction` adds once zerocoin is active. -/
def checkActiveSpend (tx : CTransaction) (nZCSpendCount : Nat) : Validation Unit := do
  stopIf (node.params.nMaxZerocoinSpendsPerTransaction < nZCSpendCount)
    ⟨100, "CheckTransaction() : there are more zerocoin spends than are allowed in one transaction"⟩
  checkWhen (tx.isZerocoinSpend = true) (do
    stopIf (∃ txin ∈ tx.vin, txin.scriptSig.isZerocoinSpend = false)
      ⟨100, "CheckTransaction() : zerocoinspend contains inputs that are not zerocoins"⟩
    checkZerocoinSpend env node tx (verifiesSpendSignature node))

/-- No plain input is spent twice; `vInOutPoints` are those seen. -/
def checkDuplicateInputs (vInOutPoints : List COutPoint) : List CTxIn → Validation Unit
  | [] => .ok ()
  | txin :: rest => do
    stopIf (txin.prevout ∈ vInOutPoints) ⟨100, "bad-txns-inputs-duplicate"⟩
    checkDuplicateInputs
      (if txin.scriptSig.isZerocoinSpend then vInOutPoints else txin.prevout :: vInOutPoints) rest

/-- The last checks of `CheckTransaction`, by kind of transaction. -/
def checkInputKind (tx : CTransaction) (fZerocoinActive : Bool) : Validation Unit :=
  if tx.isCoinBase then
    let expectedScriptSigLength : Nat := if node.params.nLastPOWBlock < node.view.height then 2 else 1
    let scriptSigLength : Nat := (tx.vin.head?.map fun txin => txin.scriptSig.length).getD 0
    stopIf (scriptSigLength < expectedScriptSigLength ∨ 150 < scriptSigLength)
      ⟨100, "bad-cb-length"⟩
  else if fZerocoinActive && tx.isZerocoinSpend then
    stopIf (tx.vin.length < 1 ∨ node.params.nMaxZerocoinSpendsPerTransaction < tx.vin.length)
      ⟨10, "bad-zerocoinspend"⟩
  else
    stopIf (∃ txin ∈ tx.vin, txin.prevout.isNull = true ∧ fZerocoinActive = true ∧
        txin.scriptSig.isZerocoinSpend = false)
      ⟨10, "bad-txns-prevout-null"⟩

def checkTransaction (tx : CTransaction) (fZerocoinActive : Bool) : Validation Unit := do
  stopIf (tx.vin = []) ⟨10, "bad-txns-vin-empty"⟩
  stopIf (tx.vout = []) ⟨10, "bad-txns-vout-empty"⟩
  stopIf ( MAX_ZEROCOIN_TX_SIZE < env.txSize tx) ⟨100, "bad-txns-oversize"⟩
  let tally ← tx.vout.foldlM (checkOutput env node tx fZerocoinActive) {}
  checkWhen (fZerocoinActive = true) (checkActiveSpend env node tx tally.nZCSpendCount)
  checkDuplicateInputs [] tx.vin
  checkInputKind node tx fZerocoinActive

end

section
variable {env : ConsensusEnv} {node : ConsensusNode} {tx : CTransaction}

theorem not_isCoinBase_of_containsZerocoins (h : tx.containsZerocoins = true) :
    tx.isCoinBase = false := by
  unfold CTransaction.isCoinBase
  rw [h]
  split
  · simp
  · rfl

/-- The denominations of the zerocoin spends among inputs; a malformed spend counts nothing. -/
def spentDenominations (env : ConsensusEnv) (vin : List CTxIn) : Int :=
  ((vin.filter fun txin => txin.scriptSig.isZerocoinSpend).map fun txin =>
    ((env.txInToZerocoinSpend txin).map fun spend => spend.denomination.toAmount).getD 0).sum

theorem spentDenominations_cons (txin : CTxIn) (vin : List CTxIn) :
    spentDenominations env (txin :: vin) =
      (if txin.scriptSig.isZerocoinSpend then
        ((env.txInToZerocoinSpend txin).map fun spend => spend.denomination.toAmount).getD 0
      else 0) + spentDenominations env vin := by
  unfold spentDenominations
  by_cases h : txin.scriptSig.isZerocoinSpend = true
  · rw [List.filter_cons_of_pos (by simpa using h), List.map_cons, List.sum_cons, if_pos h]
  · rw [List.filter_cons_of_neg (by simpa using h), if_neg h, zero_add]

theorem foldlM_checkSpendInput {fVerifySignature : Bool} {hashTxOut : Uint256} {vin : List CTxIn}
    {tally tally' : SpendTally}
    (h : vin.foldlM (checkSpendInput env node fVerifySignature hashTxOut) tally = .ok tally') :
    tally'.nTotalRedeemed = tally.nTotalRedeemed + spentDenominations env vin := by
  induction vin generalizing tally with
  | nil =>
    rw [List.foldlM_nil, pure_eq_ok] at h
    rw [h]
    simp [spentDenominations]
  | cons txin vin ih =>
    rw [List.foldlM_cons, bind_eq_ok] at h
    obtain ⟨mid, hstep, hrest⟩ := h
    have hmid := ih hrest
    rw [hmid, spentDenominations_cons, ← add_assoc]
    congr 1
    unfold checkSpendInput at hstep
    by_cases hspend : txin.scriptSig.isZerocoinSpend = true
    · simp only [hspend, Bool.true_eq_false, if_false, bind_eq_ok, stopIf_eq_ok, pure_eq_ok,
        parseSpend, orStop_eq_ok] at hstep
      obtain ⟨spend, hparse, -, -, -, -, -, -, -, -, -, -, hresult⟩ := hstep
      rw [← hresult, if_pos hspend, hparse]
      rfl
    · rw [Bool.not_eq_true] at hspend
      rw [if_pos hspend] at hstep
      obtain rfl := Except.ok.inj hstep
      simp [hspend]

/-- Once zerocoin is active, a zerocoin spend that is not a coinstake pays out at most the
denominations it redeems, and has no other inputs. -/
theorem checkTransaction_zerocoinSpend
    (h : checkTransaction env node tx true = .ok ()) (hspend : tx.isZerocoinSpend = true)
    (hstake : tx.isCoinStake = false) :
    (∀ txin ∈ tx.vin, txin.scriptSig.isZerocoinSpend = true) ∧
      ∃ nValueOut, tx.getValueOut = some nValueOut ∧
        nValueOut ≤ spentDenominations env tx.vin := by
  simp only [checkTransaction, bind_eq_ok, checkWhen_eq_ok] at h
  obtain ⟨-, -, -, -, -, -, outputs, -, -, hactive, -⟩ := h
  simp only [checkActiveSpend, bind_eq_ok, checkWhen_eq_ok, stopIf_eq_ok] at hactive
  obtain ⟨-, -, hspends⟩ := hactive trivial
  obtain ⟨-, hall, hcheck⟩ := hspends hspend
  simp only [checkZerocoinSpend, bind_eq_ok, checkWhen_eq_ok, stopIf_eq_ok, valueOut,
    orStop_eq_ok] at hcheck
  obtain ⟨-, -, tally, htally, -, hamount, -⟩ := hcheck
  obtain ⟨nValueOut, hout, hle⟩ := hamount hstake
  have hredeemed := foldlM_checkSpendInput htally
  refine ⟨?_, nValueOut, hout, ?_⟩
  · intro txin hin
    by_contra hplain
    exact hall ⟨txin, hin, by simpa using hplain⟩
  · rw [hredeemed] at hle
    simpa using hle

end
end Lytix
