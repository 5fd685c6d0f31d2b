import Lytix.Wallet.CoinSelection

/-! `SelectCoins` and `CreateTransaction`: the payees' outputs, the coins, the change, and the loop
that starts over with more fee. Amounts are exact, as signed overflow is undefined. -/
namespace Lytix.Spending
open CoinSelection hiding COutput

/-- Where `destChange` is an address, its script. -/
structure CCoinControl where
  destChange : Option Script
  fSplitBlock : Bool
  nSplitBlock : Int
  setSelected : List COutPoint

def CCoinControl.hasSelected (coinControl : CCoinControl) : Bool := !coinControl.setSelected.isEmpty

inductive AvailableCoinsType where
  | ALL_COINS
  | ONLY_DENOMINATED
  | ONLY_NOT10000IFMN
  | ONLY_NONDENOMINATED_NOT10000IFMN
  | MASTERNODE_OUTPUT_COIN
  | STAKABLE_COINS
  | MAXNODE_OUTPUT_COIN
deriving DecidableEq, Repr

/-- The arguments of `CreateTransaction`. -/
structure SendRequest where
  vecSend : List (Script × Int)
  coinControl : Option CCoinControl
  coin_type : AvailableCoinsType
  useIX : Bool
  nFeePay : Int

/-- The wallet and its surroundings during one call. What depends on chance or on the key pool comes
by the round of the loop, a fee rate is its satoshis per kilobyte, and the comparison of
`SelectCoins` in floating point and the priority of a free transaction are answers. -/
structure SpendWallet extends CoinWallet where
  denominations_nodup : obfuScationDenominations.Nodup
  availableCoins : Option CCoinControl → AvailableCoinsType → Bool → List CoinSelection.COutput
  availableCoins_distinct (coinControl : Option CCoinControl) (coin_type : AvailableCoinsType)
    (useIX : Bool) : ((availableCoins coinControl coin_type useIX).map
      CoinSelection.COutput.coin).Nodup
  chance : Nat → Nat → CoinChance toCoinWallet
  belowRoundedUp : Int → Int → Bool
  getInputObfuscationRounds : COutPoint → Int
  nZeromintPercentage : Int
  getReservedKey : Nat → Script
  getRandInt : Nat → Nat
  signSignature : List WalletCoin → List CTxOut → Nat → Option Script
  payTxFee : Nat
  fPayAtLeastCustomFee : Bool
  estimateFee : Nat
  minTxFee : Nat
  minRelayTxFee : Nat
  maxTxFee : Nat
  fSendFreeTransactions : Bool
  enoughPriority : List WalletCoin → Nat → Bool

/-! `SelectCoins`. -/

def outPoint (coin : WalletCoin) : COutPoint := ⟨coin.1.hash, coin.2⟩

section select
variable (wallet : SpendWallet) (request : SendRequest)

/-- Whether a coin is anonymized. -/
def anonymized (output : CoinSelection.COutput) : Bool :=
  decide (wallet.nZeromintPercentage ≤ wallet.getInputObfuscationRounds (outPoint output.coin))

/-- The coins in the order in which the two loops look at them: by the denominations. -/
def byDenomination (vCoins : List CoinSelection.COutput) : List CoinSelection.COutput :=
  wallet.obfuScationDenominations.flatMap fun v => vCoins.filter fun out => out.coin.nValue == v

/-- The body of the two loops. -/
def takeDenominated (nTargetValue : Int) :
    List CoinSelection.COutput → (nValueRet : Int) → List CoinSelection.COutput
  | [], _ => []
  | out :: rest, nValueRet =>
    if wallet.belowRoundedUp (nValueRet + out.coin.nValue) nTargetValue then
      if anonymized wallet out then
        out :: takeDenominated nTargetValue rest (nValueRet + out.coin.nValue)
      else takeDenominated nTargetValue rest nValueRet
    else takeDenominated nTargetValue rest nValueRet

def selectCoins (round : Nat) (nTargetValue : Int) : CoinsRet :=
  let vCoins := wallet.availableCoins request.coinControl request.coin_type request.useIX
  if request.coinControl.any CCoinControl.hasSelected then
    let selected := insertCoins ((vCoins.filter fun out => out.fSpendable &&
      (decide (request.coin_type ≠ .ONLY_DENOMINATED) || anonymized wallet out)).map
        CoinSelection.COutput.valued)
    { selected with ret := decide (nTargetValue ≤ selected.nValueRet) }
  else if request.coin_type = .ONLY_DENOMINATED then
    let selected := insertCoins ((takeDenominated wallet nTargetValue
      (byDenomination wallet vCoins) 0).map CoinSelection.COutput.valued)
    { selected with ret := decide (nTargetValue ≤ selected.nValueRet) }
  else
    let first := selectCoinsMinConf nTargetValue 1 6 (wallet.chance round 0) vCoins
    if first.ret then first
    else
      let second := selectCoinsMinConf nTargetValue 1 1 (wallet.chance round 1) vCoins
      if second.ret then second
      else if wallet.bSpendZeroConfChange then
        selectCoinsMinConf nTargetValue 0 1 (wallet.chance round 2) vCoins
      else { second with ret := false }

end select

/-! Sizes and fees. -/

def MAX_STANDARD_TX_SIZE : Nat := 100000
def MAX_FREE_TRANSACTION_CREATE_SIZE : Nat := 1000

def getSizeOfCompactSize (nSize : Nat) : Nat :=
  if nSize < 253 then 1 else if nSize ≤ 0xffff then 3 else if nSize ≤ 0xffffffff then 5 else 9

def scriptSize (script : Script) : Nat := getSizeOfCompactSize script.length + script.length
def txInSize (txin : CTxIn) : Nat := 36 + scriptSize txin.scriptSig + 4
def txOutSize (txout : CTxOut) : Nat := 8 + scriptSize txout.scriptPubKey

/-- The serialized size of a transaction: version, inputs, outputs and lock time. -/
def txSize (vin : List CTxIn) (vout : List CTxOut) : Nat :=
  4 + (getSizeOfCompactSize vin.length + (vin.map txInSize).sum) +
    (getSizeOfCompactSize vout.length + (vout.map txOutSize).sum) + 4

/-- `CFeeRate::GetFee`. -/
def getFee (nSatoshisPerK nSize : Nat) : Nat :=
  let nFee := nSatoshisPerK * nSize / 1000
  if nFee = 0 ∧ 0 < nSatoshisPerK then nSatoshisPerK else nFee

def isDust (minRelayTxFee : Nat) (txout : CTxOut) : Bool :=
  decide (txout.nValue < 3 * getFee minRelayTxFee (txOutSize txout + 148))

def getMinimumFee (wallet : SpendWallet) (nTxBytes : Nat) : Nat :=
  let nFeeNeeded := getFee wallet.payTxFee nTxBytes
  let nFeeNeeded :=
    if wallet.fPayAtLeastCustomFee ∧ 0 < nFeeNeeded ∧ nFeeNeeded < wallet.payTxFee then
      wallet.payTxFee
    else nFeeNeeded
  let nFeeNeeded := if nFeeNeeded = 0 then getFee wallet.estimateFee nTxBytes else nFeeNeeded
  let nFeeNeeded := if nFeeNeeded = 0 then getFee wallet.minTxFee nTxBytes else nFeeNeeded
  let nFeeNeeded := max nFeeNeeded (getFee wallet.minRelayTxFee nTxBytes)
  min nFeeNeeded wallet.maxTxFee

/-! The payees' outputs and the change. -/

/-- The amounts of one payee: equal parts, the last with the remainder. The source adds the
remainder as an unsigned number, which comes to the same. -/
def splitAmount (nSplitBlock : Nat) (amount : Int) : List Int :=
  (List.range nSplitBlock).map fun i =>
    if i + 1 = nSplitBlock then amount.tdiv nSplitBlock + amount.tmod nSplitBlock
    else amount.tdiv nSplitBlock

def splitOutputs (nSplitBlock : Nat) (vecSend : List (Script × Int)) : List CTxOut :=
  vecSend.flatMap fun s => (splitAmount nSplitBlock s.2).map fun amount => ⟨amount, s.1, -10⟩

def payeeOutputs (minRelayTxFee : Nat) (request : SendRequest) : Except String (List CTxOut) :=
  match request.coinControl with
  | some coinControl =>
    if coinControl.fSplitBlock = false then
      let vout := request.vecSend.map fun s => ⟨s.2, s.1, -10⟩
      if vout.any (isDust minRelayTxFee) then .error "Transaction amount too small" else .ok vout
    else .ok (splitOutputs coinControl.nSplitBlock.toNat request.vecSend)
  | none => .ok (splitOutputs 1 request.vecSend)

/-- The change goes to the first output that has its script. -/
def combineChange (scriptChange : Script) (nChange : Int) : List CTxOut → Option (List CTxOut)
  | [] => none
  | txout :: vout =>
    if scriptChange = txout.scriptPubKey then
      some ({ txout with nValue := txout.nValue + nChange } :: vout)
    else (combineChange scriptChange nChange vout).map (txout :: ·)

/-- The outputs, the fee, and the script the change went to. -/
structure Paid where
  vout : List CTxOut
  nFeeRet : Int
  scriptChange : Option Script := none
deriving DecidableEq, Repr

/-- Change that is not combined. Dust is left to the fee. -/
def insertChange (wallet : SpendWallet) (round : Nat) (scriptChange : Script) (nChange : Int)
    (paid : Paid) : Paid :=
  let newTxOut : CTxOut := ⟨nChange, scriptChange, -10⟩
  if isDust wallet.minRelayTxFee newTxOut then { paid with nFeeRet := paid.nFeeRet + nChange }
  else { paid with
    vout := paid.vout.insertIdx (wallet.getRandInt round % (paid.vout.length + 1)) newTxOut
    scriptChange := some scriptChange }

def addChange (wallet : SpendWallet) (request : SendRequest) (round : Nat) (nChange : Int)
    (paid : Paid) : Paid :=
  if request.coin_type = .ONLY_DENOMINATED then { paid with nFeeRet := paid.nFeeRet + nChange }
  else if 0 < nChange then
    match request.coinControl.bind CCoinControl.destChange with
    | some scriptChange =>
      match combineChange scriptChange nChange paid.vout with
      | some vout => { paid with
        vout := vout
        scriptChange := some scriptChange }
      | none => insertChange wallet round scriptChange nChange paid
    | none => insertChange wallet round (wallet.getReservedKey round) nChange paid
  else paid

/-! `CreateTransaction`. -/

/-- The transaction, what it spends, and what is paid for it. -/
structure Created extends Paid where
  setCoins : List WalletCoin
  vin : List CTxIn
deriving DecidableEq, Repr

inductive Round where
  | done (created : Created)
  | again (nFeeRet : Int)

def fundsReason (coin_type : AvailableCoinsType) (useIX : Bool) : String :=
  let strFailReason :=
    match coin_type with
    | .ALL_COINS => "Insufficient funds."
    | .ONLY_NOT10000IFMN =>
      "Unable to locate enough funds for this transaction that are not equal 10000 LYTX."
    | .ONLY_NONDENOMINATED_NOT10000IFMN =>
      "Unable to locate enough Obfuscation non-denominated funds for this transaction that are " ++
        "not equal 10000 LYTX."
    | _ =>
      "Unable to locate enough Obfuscation denominated funds for this transaction." ++ " " ++
        "Obfuscation uses exact denominated amounts to send funds, you might simply need to " ++
        "anonymize some more coins."
  if useIX then
    strFailReason ++ " " ++ "SwiftX requires inputs with at least 6 confirmations, you might " ++
      "need to wait a few minutes and try again."
  else strFailReason

/-- The sum of the amounts, none of whose partial sums may be negative. -/
def sumAmounts : List (Script × Int) → (nValue : Int) → Option Int
  | [], nValue => if nValue < 0 then none else some nValue
  | s :: vecSend, nValue => if nValue < 0 then none else sumAmounts vecSend (nValue + s.2)

def SendRequest.feePay (request : SendRequest) : Int :=
  if request.useIX ∧ request.nFeePay < CENT then CENT else request.nFeePay

section create
variable (wallet : SpendWallet) (request : SendRequest)

/-- Each input is signed for the transaction without signatures. -/
def signInputs (setCoins : List WalletCoin) (vout : List CTxOut) :
    List WalletCoin → (nIn : Nat) → Option (List CTxIn)
  | [], _ => some []
  | coin :: rest, nIn =>
    match wallet.signSignature setCoins vout nIn, signInputs setCoins vout rest (nIn + 1) with
    | some scriptSig, some vin => some (⟨outPoint coin, scriptSig, 0xffffffff⟩ :: vin)
    | _, _ => none

/-- The loop's body from the payees' outputs on. -/
def createRound (round : Nat) (nValue nFeeRet : Int) (vout : List CTxOut) : Except String Round :=
  let selected := selectCoins wallet request round (nValue + nFeeRet)
  if selected.ret = false then .error (fundsReason request.coin_type request.useIX)
  else
    let nChange := selected.nValueRet - nValue - nFeeRet
    let paid := addChange wallet request round nChange
      { vout := vout
        nFeeRet := nFeeRet }
    match signInputs wallet selected.setCoinsRet paid.vout selected.setCoinsRet 0 with
    | none => .error "Signing transaction failed"
    | some vin =>
      let created : Created := { paid with
        setCoins := selected.setCoinsRet
        vin := vin }
      let nBytes := txSize vin paid.vout
      if MAX_STANDARD_TX_SIZE ≤ nBytes then .error "Transaction too large"
      else if wallet.fSendFreeTransactions ∧ nBytes ≤ MAX_FREE_TRANSACTION_CREATE_SIZE ∧
          wallet.enoughPriority selected.setCoinsRet nBytes then .ok (.done created)
      else
        let nFeeNeeded : Int := max request.feePay (getMinimumFee wallet nBytes)
        if nFeeNeeded < getFee wallet.minRelayTxFee nBytes then
          .error "Transaction too large for fee policy"
        else if nFeeNeeded ≤ paid.nFeeRet then .ok (.done created)
        else .ok (.again nFeeNeeded)

def createLoop (nValue : Int) : (fuel round : Nat) → (nFeeRet : Int) →
    Option (Except String Created)
  | 0, _, _ => none
  | fuel + 1, round, nFeeRet =>
    match payeeOutputs wallet.minRelayTxFee request with
    | .error strFailReason => some (.error strFailReason)
    | .ok vout =>
      match createRound wallet request round nValue nFeeRet vout with
      | .error strFailReason => some (.error strFailReason)
      | .ok (.done created) => some (.ok created)
      | .ok (.again nFeeNeeded) => createLoop nValue fuel (round + 1) nFeeNeeded

/-- `none` where the loop takes more rounds than `fuel`. -/
def createTransaction (fuel : Nat) : Option (Except String Created) :=
  if request.vecSend.isEmpty then some (.error "Transaction amounts must be positive")
  else
    match sumAmounts request.vecSend 0 with
    | none => some (.error "Transaction amounts must be positive")
    | some nValue =>
      let nFeeRet := if 0 < request.feePay then request.feePay else 0
      createLoop wallet request nValue fuel 0 nFeeRet

end create

end Lytix.Spending
