import Lytix.Kernel.StakeInput
import Lytix.Payments.NodePayments
import Lytix.Wallet.Solver

/-! The wallet's search for a coinstake (`CreateCoinStake`): the candidates it selects, and for
each of them in turn the kernel, the outputs, the payees and the input. What the wallet, the clock
and other threads answer may differ from one candidate to the next. -/
namespace Lytix

def CENT : Int := 1000000
def DEFAULT_BLOCK_MAX_SIZE : Nat := 750000

def CTxIn.ofOutPoint (prevout : COutPoint) : CTxIn := ⟨prevout, [], 0xffffffff⟩

structure CMutableTransaction where
  nVersion : Int := 1
  vin : List CTxIn := []
  vout : List CTxOut := []
  nLockTime : Nat := 0
deriving DecidableEq, Repr

def CMutableTransaction.toTransaction (tx : CMutableTransaction) (hash : Uint256) :
    CTransaction :=
  ⟨hash, tx.nVersion, tx.vin, tx.vout, tx.nLockTime⟩

/-- `GetMedianTimePast` of the tip: the entries before it are the active chain. -/
def ChainView.medianTimePast (view : ChainView) : Int :=
  let pmedian := ((view.chainActive.reverse.take 11).map fun pindex =>
    (view.index pindex).getBlockTime).insertionSort (· ≤ ·)
  (pmedian[pmedian.length / 2]?).getD 0

/-- An output that `AvailableCoins` lists for staking: it is there, its value is positive, and its
position is an `int`. -/
structure COutput where
  tx : CTransaction
  i : Nat
  nDepth : Int
  nTxTime : Int
  /-- The time of the block of `tx`, if that is in the main chain. -/
  nBlockTime : Option Int
  txout : CTxOut
  found : tx.vout[i]? = some txout
  positive : 0 < txout.nValue
  isInt : i < 2 ^ 31

/-- What the tracker knows of an unspent mint, with its serial if `GetMint` finds it. -/
structure CMintMeta where
  nHeight : Int
  hashStake : Uint256
  nVersion : Nat
  denom : CoinDenomination
  serialNumber : Option Int
deriving DecidableEq

structure CZerocoinMint where
  denomination : CoinDenomination
  serialNumber : Int
deriving DecidableEq

/-- What is answered while one candidate is tried. -/
structure StakeAnswers where
  /-- `IsLocked() || ShutdownRequested()`. -/
  interrupted : Bool
  nAdjustedTime : UInt32
  /-- The public key of the key that `GetKey` finds for a key hash. -/
  getKey : List UInt8 → Option (List UInt8)
  /-- The coin of the i-th mint as it stands in the output's script, if it validates. -/
  newPubCoin : Nat → CoinDenomination → Option (List UInt8)
  getMintFromStakeHash : Uint256 → Option CZerocoinMint
  /-- The coin spend that `MintToTxIn` makes of a mint for a transaction of this hash. -/
  mintToSpend : CZerocoinMint → Uint256 → Option (List UInt8)
  /-- The tracker marks the mint of a stake hash as spent by a transaction. -/
  markSpent : Uint256 → Uint256 → Bool

structure StakeWallet where
  nBalance : Int
  /-- `none` where `-reservebalance` is no amount. -/
  nReserveBalance : Option Int
  fStake : Bool
  fZStake : Bool
  nStakeSplitThreshold : UInt64
  availableCoins : List COutput
  listMints : List CMintMeta
  /-- The answers to the i-th candidate. -/
  answers : Nat → StakeAnswers
  /-- The script that signs an input, if its key is found. -/
  signSignature : CMutableTransaction → Nat → Option Script
  /-- The tracker knows the mint in an output and stores the transaction's hash for it. -/
  updateMint : CTxOut → Uint256 → Bool

/-- The node that stakes, and the two functions of a transaction that serialize it. -/
structure StakeNode extends Node where
  kernel : KernelEnv
  sporks : Sporks
  tables : PayeeTables
  extractVersionFromSerial : Int → Nat
  getHash : CMutableTransaction → Uint256
  getSerializeSize : CMutableTransaction → Nat

section
variable (node : StakeNode)

/-- One available output under the target; a zerocoin spend counts from the time of its block. -/
def isStakable (out : COutput) : Bool :=
  match if out.tx.isZerocoinSpend then out.nBlockTime else some out.nTxTime with
  | none => false
  | some nTxTime => decide ((nStakeMinAge.toNat : Int) ≤ node.sporks.now - nTxTime ∧
      (if out.tx.isCoinStake then (Params node.network).nMaturity else 10) ≤ out.nDepth)

/-- The loop over the available outputs, which does not outrun the target amount. -/
def selectPivStakes (nTargetAmount nAmountSelected : Int) : List COutput → List CStakeInput
  | [] => []
  | out :: rest =>
    if nTargetAmount < nAmountSelected + out.txout.nValue ∨ isStakable node out = false then
      selectPivStakes nTargetAmount nAmountSelected rest
    else
      .piv out.tx out.i ::
        selectPivStakes nTargetAmount (nAmountSelected + out.txout.nValue) rest

/-- `meta.hashStake`, computed where it is not known yet. -/
def CMintMeta.stakeHash (info : CMintMeta) : Uint256 :=
  if info.hashStake = 0 then
    match info.serialNumber with
    | none => 0
    | some serial => node.kernel.hash (leBytes 32 (getuint256 serial).toNat)
  else info.hashStake

def selectZPivStakes (listMints : List CMintMeta) : List CStakeInput :=
  (listMints.filter fun info => decide (2 ≤ info.nVersion ∧
    info.nHeight < node.view.height - (Params node.network).nZerocoinRequiredStakeDepth)).map
      fun info => .zpiv 0 true info.denom (info.stakeHash node)

/-- The candidates, the plain outputs first. -/
def selectStakeCoins (wallet : StakeWallet) (nTargetAmount : Int) : List CStakeInput :=
  (if wallet.fStake then selectPivStakes node nTargetAmount 0 wallet.availableCoins else []) ++
    if wallet.fZStake ∧ (Params node.network).nBlockZerocoinV2 < node.view.height ∧
        isSporkActive node.sporks .SPORK_16_ZEROCOIN_MAINTENANCE_MODE = false then
      selectZPivStakes node wallet.listMints
    else []

/-- The time of the kernel that is found for a candidate, if it is not too far in the past. -/
def findKernel (nBits : UInt32) (nAdjustedTime : UInt32) (stakeInput : CStakeInput) :
    Option UInt32 :=
  match stakeInput.getIndexFrom node.toNode with
  | none => none
  | some pindex =>
    let entry := node.view.index pindex
    if entry.nHeight < 1 then none
    else
      match stake node.kernel node.toNode stakeInput nBits entry.nTime nAdjustedTime with
      | none => none
      | some (nTxNewTime, _) =>
        if (nTxNewTime.toNat : Int) ≤ node.view.medianTimePast then none else some nTxNewTime

/-- `nReward`. -/
def stakeReward : Int := getBlockValue node.network (node.view.height + 1)

end

section
variable (wallet : StakeWallet) (answers : StakeAnswers)

/-- The script the stake is paid to: the key's own, also where the kernel pays to its hash. -/
def stakeScript (scriptPubKeyKernel : Script) : Option Script :=
  match solver scriptPubKeyKernel with
  | some (.TX_PUBKEY, _) => some scriptPubKeyKernel
  | some (.TX_PUBKEYHASH, vSolutions) =>
    (vSolutions.head?.bind answers.getKey).map fun vchPubKey =>
      Script.push vchPubKey ++ [OP_CHECKSIG]
  -- only support pay to public key and pay to address
  | _ => none

/-- `nTotal / 2 > (CAmount)(nStakeSplitThreshold * COIN)`. -/
def splitsStake (nTotal : Int) : Bool :=
  decide ((wallet.nStakeSplitThreshold * 100000000).toInt64.toInt < nTotal.tdiv 2)

def createZPIVOutPut (i : Nat) (denomination : CoinDenomination) : Option CTxOut :=
  (answers.newPubCoin i denomination).map fun pubCoin =>
    ⟨denomination.toAmount, OP_ZEROCOINMINT :: pubCoin, -10⟩

/-- The mints of a list of denominations, from the i-th on. -/
def createMints : Nat → List CoinDenomination → Option (List CTxOut)
  | _, [] => some []
  | i, denomination :: rest =>
    match createZPIVOutPut answers i denomination with
    | none => none
    | some out => (createMints (i + 1) rest).map (out :: ·)

/-- `CreateTxOuts`: one or two outputs without a value for a plain stake; the zPIV that was staked
and three more for a zPIV stake. -/
def createTxOuts (stakeInput : CStakeInput) (nTotal : Int) : Option (List CTxOut) :=
  match stakeInput with
  | .piv txFrom nPosition =>
    (txFrom.vout[nPosition]?).bind fun txout =>
      (stakeScript answers txout.scriptPubKey).map fun scriptPubKey =>
        if splitsStake wallet nTotal then [⟨0, scriptPubKey, -10⟩, ⟨0, scriptPubKey, -10⟩]
        else [⟨0, scriptPubKey, -10⟩]
  | .zpiv _ _ _ _ =>
    createMints answers 0 [CoinDenomination.ofAmount stakeInput.getValue, .ZQ_ONE, .ZQ_ONE, .ZQ_ONE]

/-- Set output amounts. The code writes outside the vector where there is no output 1. -/
def setAmounts (nCredit : Int) : List CTxOut → Option (List CTxOut)
  | [out₀, out₁, out₂] =>
    let nHalf := ((nCredit.tdiv 2).tdiv CENT) * CENT
    some [out₀, { out₁ with nValue := nHalf }, { out₂ with nValue := nCredit - nHalf }]
  | out₀ :: out₁ :: rest => some (out₀ :: { out₁ with nValue := nCredit } :: rest)
  | _ => none

end

section
variable (node : StakeNode) (wallet : StakeWallet) (nBits : UInt32)

/-- `CreateTxIn`. -/
def createTxIn (answers : StakeAnswers) (stakeInput : CStakeInput) (hashTxOut : Uint256) :
    Option CTxIn :=
  match stakeInput with
  | .piv txFrom nPosition => some (CTxIn.ofOutPoint ⟨txFrom.hash, nPosition⟩)
  | .zpiv _ _ _ hashSerial =>
    if (stakeInput.getIndexFrom node.toNode).isNone then none
    else
      match answers.getMintFromStakeHash hashSerial with
      | none => none
      | some mint =>
        if node.extractVersionFromSerial mint.serialNumber < 2 then none
        else (answers.mintToSpend mint hashTxOut).map fun data =>
          ⟨COutPoint.null, OP_ZEROCOINSPEND :: data, mint.denomination.toInt.toNat⟩

/-- `MarkSpent`, for a zPIV stake. -/
def markSpent (answers : StakeAnswers) (stakeInput : CStakeInput) (txid : Uint256) : Bool :=
  match stakeInput with
  | .piv _ _ => true
  | .zpiv _ _ _ hashSerial => answers.markSpent hashSerial txid

/-- The coinstake so far with the outputs of a candidate appended, with their amounts. -/
def fillOutputs (stakeInput : CStakeInput) (nCredit : Int) (vout : List CTxOut) :
    Option (List CTxOut) :=
  if stakeInput.isZPIV then some vout else setAmounts nCredit vout

/-- What comes of one candidate: the search goes on with the credit and the transaction as they
are left, it ends, or the kernel is in the transaction. -/
inductive StakeRound where
  | next (nCredit : Int) (txNew : CMutableTransaction)
  | stop
  | kernel (txNew : CMutableTransaction) (nTxNewTime : UInt32)

/-- The rest of a round once the candidate has made its outputs. -/
def finishStake (answers : StakeAnswers) (stakeInput : CStakeInput) (nTxNewTime : UInt32)
    (nCredit : Int) (txNew : CMutableTransaction) (vout : List CTxOut) : StakeRound :=
  match fillOutputs stakeInput nCredit (txNew.vout ++ vout) with
  | none => .stop
  | some vout =>
    -- limit size
    if DEFAULT_BLOCK_MAX_SIZE / 5 ≤ node.getSerializeSize { txNew with vout := vout } then .stop
    else
      match fillMaxBlockPayee node.network node.sporks node.tables node.view.height true vout with
      | none => .stop
      | some vout =>
        let txNew := { txNew with vout := vout }
        match createTxIn node answers stakeInput (node.getHash txNew) with
        | none => .next 0 { txNew with vin := [], vout := [] }
        | some txin =>
          let txNew := { txNew with vin := txNew.vin ++ [txin] }
          if markSpent answers stakeInput (node.getHash txNew) then .kernel txNew nTxNewTime
          else .stop

/-- One round of the loop. -/
def tryStake (answers : StakeAnswers) (stakeInput : CStakeInput) (nCredit : Int)
    (txNew : CMutableTransaction) : StakeRound :=
  if answers.interrupted then .stop
  else
    match findKernel node nBits answers.nAdjustedTime stakeInput with
    | none => .next nCredit txNew
    | some nTxNewTime =>
      let nCredit := nCredit + stakeInput.getValue + stakeReward node
      match createTxOuts wallet answers stakeInput nCredit with
      -- failed to get scriptPubKey
      | none => .next nCredit txNew
      | some vout => finishStake node answers stakeInput nTxNewTime nCredit txNew vout

/-- A candidate whose kernel is in the transaction. -/
structure CoinStakeKernel where
  stakeInput : CStakeInput
  txNew : CMutableTransaction
  nTxNewTime : UInt32
deriving DecidableEq

/-- The loop over the candidates, each with the answers to it. -/
def stakeCandidates : List (StakeAnswers × CStakeInput) → Int → CMutableTransaction →
    Option CoinStakeKernel
  | [], _, _ => none
  | (answers, stakeInput) :: rest, nCredit, txNew =>
    match tryStake node wallet nBits answers stakeInput nCredit txNew with
    | .next nCredit txNew => stakeCandidates rest nCredit txNew
    | .stop => none
    | .kernel txNew nTxNewTime => some ⟨stakeInput, txNew, nTxNewTime⟩

/-- Sign one input. -/
def signInput (txNew : CMutableTransaction) (nIn : Nat) : Option CMutableTransaction :=
  (wallet.signSignature txNew nIn).map fun scriptSig =>
    { txNew with vin := txNew.vin.modify nIn fun txin => { txin with scriptSig := scriptSig } }

/-- Sign the inputs of a plain stake, or update the mint database. -/
def signCoinStake (txNew : CMutableTransaction) : Option CMutableTransaction :=
  if txNew.vin.head?.any fun txin => txin.scriptSig.isZerocoinSpend then
    if (txNew.vout.filter CTxOut.isZerocoinMint).all fun out =>
        wallet.updateMint out (node.getHash txNew)
    then some txNew else none
  else (List.range txNew.vin.length).foldlM (signInput wallet) txNew

/-- Mark coin stake transaction: its first output is empty. -/
def coinStakeMarker : CTxOut := ⟨0, [], -10⟩

/-- The candidates in the order they are tried. -/
def stakeRounds (nReserveBalance : Int) : List (StakeAnswers × CStakeInput) :=
  (selectStakeCoins node wallet (wallet.nBalance - nReserveBalance)).zipIdx.map
    fun (stakeInput, i) => (wallet.answers i, stakeInput)

/-- The coinstake with its time and the candidate it stakes; `none` where the code returns
false. -/
def createCoinStake (txNew : CMutableTransaction) : Option CoinStakeKernel :=
  match wallet.nReserveBalance with
  | none => none
  | some nReserveBalance =>
    if 0 < wallet.nBalance ∧ wallet.nBalance ≤ nReserveBalance then none
    else
      (stakeCandidates node wallet nBits (stakeRounds node wallet nReserveBalance) 0
        { txNew with vin := [], vout := [coinStakeMarker] }).bind fun found =>
          (signCoinStake node wallet found.txNew).map fun txNew => { found with txNew := txNew }

end
end Lytix
