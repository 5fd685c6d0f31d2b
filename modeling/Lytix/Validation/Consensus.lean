import Lytix.Kernel.StakeInput
import Lytix.Lib.Checks
import Lytix.Payments.Budget

/-! What block validation reads besides the block: pure functions of other parts of the code, and
the state of the node. -/
namespace Lytix

/-- A rejection: the ban score and the reason of the validation state, or the text of the error
where the state is given no reason. -/
structure Reject where
  nDoS : Nat
  strRejectReason : String
deriving DecidableEq, Repr

abbrev Validation := Except Reject

structure PublicCoin where
  value : Int
  denomination : CoinDenomination
deriving DecidableEq, Repr

/-- Sizes, signature operations, hashes, scripts and the zerocoin library. -/
structure ConsensusEnv extends KernelEnv where
  txSize : CTransaction → Nat
  blockSize : CBlock → Nat
  legacySigOpCount : CTransaction → Nat
  p2shSigOpCount : CTransaction → List CTxOut → Nat
  /-- The hash of a transaction that has these outputs and nothing else. -/
  hashTxOut : List CTxOut → Uint256
  checkProofOfWork : Uint256 → UInt32 → Bool
  buildMerkleTree : List Uint256 → Uint256 × Bool
  /-- The number that the script of a mint carries. -/
  publicCoinValue : Script → Int
  pubCoinValidate : PublicCoin → Bool
  verifySpend : CoinSpend → Int → Bool
  hasValidSignature : CoinSpend → Bool
  /-- `invalid_out::ContainsSerial`. -/
  invalidSerial : Int → Bool
  /-- `CScriptCheck` of one input against the output it spends. -/
  scriptCheck : CTxOut → CTransaction → Nat → Bool

structure ConsensusNode extends Node where
  sporks : Sporks
  adjustedTime : Int
  fInitialDownload : Bool
  fVerifyingBlocks : Bool
  fSynced : Bool
  totalBlocksEstimate : Int
  mapLockedInputs : COutPoint → Option Uint256
  masternodePayments : CMasternodePayments
  budget : CBudgetManager
  readAccumulatorValue : UInt32 → Option Int
  readCoinSpend : Int → Option Uint256
  readCoinMint : Int → Option Uint256
  validateAccumulatorCheckpoint : CBlock → Bool

namespace ConsensusNode

variable (node : ConsensusNode)

theorem hash_of_mempool : ∀ hash tx, node.mempool hash = some tx → tx.hash = hash :=
  node.mempool_hash

def params : CChainParams := Params node.network

def payeeEnv : PayeeEnv := ⟨node.network, node.sporks, node.fSynced, node.masternodePayments⟩

/-- `IsTransactionInChain`, with the height. -/
def transactionHeight (txId : Uint256) : Option Nat :=
  match node.getTransaction txId with
  | none => none
  | some (_, hashBlock) =>
    if hashBlock ≠ 0 ∧ node.view.mapBlockIndex hashBlock ∧ node.view.contains hashBlock then
      some (node.view.index hashBlock).nHeight
    else none

/-- `IsSerialInBlockchain`, with the height. -/
def serialHeight (bnSerial : Int) : Option Nat :=
  (node.readCoinSpend bnSerial).bind node.transactionHeight

/-- The height of a block from its predecessor, as the payment checks compute it. -/
def heightOf (block : CBlock) (tip : Uint256) : Nat :=
  if tip = block.hashPrevBlock then (node.view.index tip).nHeight + 1
  else if node.view.mapBlockIndex block.hashPrevBlock then
    (node.view.index block.hashPrevBlock).nHeight + 1
  else 0

end ConsensusNode

def MoneyRange (params : CChainParams) (nValueOut : Int) : Prop :=
  0 ≤ nValueOut ∧ nValueOut ≤ params.nMaxMoneyOut

instance (params : CChainParams) (nValueOut : Int) : Decidable (MoneyRange params nValueOut) :=
  inferInstanceAs (Decidable (_ ∧ _))

def txOutToPublicCoin (env : ConsensusEnv) (txout : CTxOut) : Validation PublicCoin :=
  let denomination := CoinDenomination.ofAmount txout.nValue
  if denomination = .ZQ_ERROR then .error ⟨100, "TxOutToPublicCoin : txout.nValue is not correct"⟩
  else .ok ⟨env.publicCoinValue txout.scriptPubKey, denomination⟩

end Lytix
