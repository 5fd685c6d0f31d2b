import Lytix.Lib.Runs
import Lytix.Swifttx.TransactionLocks

/-! The messages about transaction locks (`ProcessMessageSwiftTX`), and their expiry. -/
namespace Lytix
open Maps

/-- What a node knows when it handles a message: its chain, coins and masternode list, the verdict
of `AcceptToMemoryPool` apart from the locks, and its own masternode, if it is one, with what
`Sign` makes of a hash and a height. -/
structure SwiftContext where
  view : ChainView
  mnodeman : RankEnv
  fLiteMode : Bool
  fBlockchainSynced : Bool
  getTransaction : Uint256 → Option CTransaction
  accessCoins : Uint256 → Option CCoins
  mempoolAccepts : CTransaction → Bool
  verifyMessage : CMasternode → CConsensusVote → Bool
  activeMasternode : Option CTxIn
  sign : Uint256 → Int → Option (List UInt8)

namespace SwiftContext

variable (ctx : SwiftContext)

def getTime : Int := ctx.mnodeman.sporks.now

def handlesSwiftTX : Bool :=
  !ctx.fLiteMode && isSporkActive ctx.mnodeman.sporks .SPORK_2_SWIFTTX && ctx.fBlockchainSynced

/-- The value that an input spends, where the output is there. -/
def valueSpent (txin : CTxIn) : Int :=
  (((ctx.getTransaction txin.prevout.hash).bind fun tx2 => tx2.vout[txin.prevout.n]?).map
    CTxOut.nValue).getD 0

def isIXTXValid (txCollateral : CTransaction) : Bool :=
  let nValueIn := (txCollateral.vin.map ctx.valueSpent).sum
  let nValueOut := (txCollateral.vout.map CTxOut.nValue).sum
  if txCollateral.vout.length < 1 then false
  else if txCollateral.nLockTime ≠ 0 then false
  else if getSporkValue ctx.mnodeman.sporks .SPORK_5_MAX_VALUE * COIN < nValueOut then false
  else if txCollateral.vin.any fun txin => (ctx.getTransaction txin.prevout.hash).isNone then true
  else !decide (nValueIn - nValueOut < COIN / 100)

def getInputAge (vin : CTxIn) : Int :=
  match ctx.accessCoins vin.prevout.hash with
  | none => -1
  | some coins => if coins.nHeight < 0 then 0 else ctx.view.height + 1 - coins.nHeight

/-- The age that the loop of `CreateNewLock` leaves in `nTxAge`, unless an input is too new. -/
def inputsAge (nTxAge : Int) : List CTxIn → Option Int
  | [] => some nTxAge
  | txin :: rest => if ctx.getInputAge txin < 5 then none else inputsAge (ctx.getInputAge txin) rest

/-- Use a height newer than the input. -/
def lockHeight (tx : CTransaction) : Option Int :=
  (ctx.inputsAge 0 tx.vin.reverse).map fun nTxAge => toInt32 (ctx.view.height - nTxAge + 4)

def signatureValid (vote : CConsensusVote) : Bool :=
  match ctx.mnodeman.find vote.vinMasternode with
  | none => false
  | some pmn => ctx.verifyMessage pmn vote

end SwiftContext

structure SwiftNode where
  mapTxLockReq : Uint256 → Option CTransaction := fun _ => none
  mapTxLockReqRejected : Uint256 → Option CTransaction := fun _ => none
  mapTxLockVote : Uint256 → Option CConsensusVote := fun _ => none
  mapTxLocks : TransactionLocks := TransactionLocks.empty
  mapLockedInputs : COutPoint → Option Uint256 := fun _ => none
  mapCacheBlockHashes : BlockHashCache := fun _ => none

/-- `CTransaction()`. -/
def CTransaction.null : CTransaction := ⟨0, 1, [], [], 0⟩

def CTransaction.prevouts (tx : CTransaction) : List COutPoint := tx.vin.map CTxIn.prevout

namespace SwiftNode

variable (ctx : SwiftContext) (node : SwiftNode)

/-- The transaction that the outpoint is locked for, if it is another than the one with this
hash. -/
def lockedForOther (hash : Uint256) (prevout : COutPoint) : Option Uint256 :=
  (node.mapLockedInputs prevout).filter fun locked => locked ≠ hash

/-- The scan of the locks in `AcceptToMemoryPool`. -/
def passesLockChecks (tx : CTransaction) : Bool :=
  tx.prevouts.all fun prevout => (node.lockedForOther tx.hash prevout).isNone

def acceptToMemoryPool (tx : CTransaction) : Bool := ctx.mempoolAccepts tx && node.passesLockChecks tx

/-- Two locks that conflict cancel each other out. -/
def checkForConflictingLocks (tx : CTransaction) : Bool × SwiftNode :=
  match tx.prevouts.findSome? (node.lockedForOther tx.hash) with
  | none => (false, node)
  | some locked => (true, { node with
      mapTxLocks := (node.mapTxLocks.expire tx.hash ctx.getTime).expire locked ctx.getTime })

/-- Inputs that are not locked yet are locked for the transaction with this hash. -/
def lockInputs (tx : CTransaction) (hash : Uint256) : SwiftNode :=
  { node with mapLockedInputs := insertAll node.mapLockedInputs hash tx.prevouts }

/-- The lock that `CreateNewLock` leaves for a transaction, where there is `old` before. -/
def lockAt (nBlockHeight : Int) (txHash : Uint256) (old : Option CTransactionLock) :
    CTransactionLock :=
  match old with
  | none => CTransactionLock.new nBlockHeight txHash ctx.getTime
  | some lock => { lock with nBlockHeight := nBlockHeight }

/-- `CreateNewLock`, with the height it returns. -/
def createNewLock (tx : CTransaction) : Int × SwiftNode :=
  match ctx.lockHeight tx with
  | none => (0, node)
  | some nBlockHeight => (nBlockHeight, { node with
      mapTxLocks := node.mapTxLocks.put
        (lockAt ctx nBlockHeight tx.hash (node.mapTxLocks.find tx.hash)) })

/-- The rank of a masternode among those that vote on locks of a height. -/
def voteRank (vinMasternode : CTxIn) (nBlockHeight : Int) : Int × BlockHashCache :=
  getMasternodeRank ctx.mnodeman ctx.view node.mapCacheBlockHashes vinMasternode nBlockHeight
    MIN_SWIFTTX_PROTO_VERSION true

/-- The node votes itself, if it is a masternode in the top. The vote is not counted here. -/
def doConsensusVote (tx : CTransaction) (nBlockHeight : Int) : SwiftNode :=
  match ctx.activeMasternode with
  | none => node
  | some vin =>
    let rank := node.voteRank ctx vin nBlockHeight
    let node := { node with mapCacheBlockHashes := rank.2 }
    if rank.1 = -1 ∨ SWIFTTX_SIGNATURES_TOTAL < rank.1 then node
    else
      match ctx.sign tx.hash nBlockHeight with
      | none => node
      | some vchMasterNodeSignature =>
        let vote : CConsensusVote := ⟨vin, tx.hash, nBlockHeight, vchMasterNodeSignature⟩
        if ctx.signatureValid vote = false then node
        else
          { node with
            mapTxLockVote := Function.update node.mapTxLockVote vote.getHash (some vote) }

/-- A request that the memory pool accepts. -/
def acceptRequest (tx : CTransaction) (nBlockHeight : Int) : SwiftNode :=
  let node := node.doConsensusVote ctx tx nBlockHeight
  { node with mapTxLockReq := insertNew node.mapTxLockReq tx.hash tx }

/-- The end of a request that the memory pool rejects: resolve conflicts. -/
def resolveRejected (tx : CTransaction) : SwiftNode :=
  match node.mapTxLocks.find tx.hash with
  | none => node
  | some lock =>
    -- we only care if we have a complete tx lock
    if lock.countSignatures < SWIFTTX_SIGNATURES_REQUIRED then node
    else
      let conflicting := node.checkForConflictingLocks ctx tx
      if conflicting.1 then conflicting.2
      else
        { conflicting.2 with
          mapTxLockReq := insertNew conflicting.2.mapTxLockReq tx.hash tx }

/-- A request that the memory pool rejects locks its inputs all the same. -/
def rejectRequest (tx : CTransaction) : SwiftNode :=
  let node := { node with
    mapTxLockReqRejected := insertNew node.mapTxLockReqRejected tx.hash tx }
  (node.lockInputs tx tx.hash).resolveRejected ctx tx

/-- The request is new and well formed. -/
def takesUp (tx : CTransaction) : Bool :=
  ctx.handlesSwiftTX && (node.mapTxLockReq tx.hash).isNone &&
    (node.mapTxLockReqRejected tx.hash).isNone && ctx.isIXTXValid tx &&
      tx.vout.all fun o => o.scriptPubKey.isNormalPaymentScript || o.scriptPubKey.isUnspendable

/-- The message `ix`. -/
def processIx (tx : CTransaction) : SwiftNode :=
  if node.takesUp ctx tx = false then node
  else
    let created := node.createNewLock ctx tx
    if created.2.acceptToMemoryPool ctx tx then created.2.acceptRequest ctx tx created.1
    else created.2.rejectRequest ctx tx

/-- A lock with enough votes locks the inputs of the transaction, unless it conflicts. -/
def completeLock (txHash : Uint256) : SwiftNode :=
  -- mapTxLockReq[txHash] makes a transaction if there is none
  let tx := (node.mapTxLockReq txHash).getD CTransaction.null
  let node := { node with mapTxLockReq := Function.update node.mapTxLockReq txHash (some tx) }
  let conflicting := node.checkForConflictingLocks ctx tx
  if conflicting.1 then conflicting.2 else conflicting.2.lockInputs tx txHash

/-- The vote is from a masternode in the top, which signed it. -/
def acceptsVote (vote : CConsensusVote) : Bool :=
  let n := (node.voteRank ctx vote.vinMasternode vote.nBlockHeight).1
  !decide (n = -1) && !decide (SWIFTTX_SIGNATURES_TOTAL < n) && ctx.signatureValid vote

def processConsensusVote (vote : CConsensusVote) : SwiftNode :=
  let accepted := node.acceptsVote ctx vote
  let rank := node.voteRank ctx vote.vinMasternode vote.nBlockHeight
  let node := { node with mapCacheBlockHashes := rank.2 }
  if accepted = false then node
  else
    let lock := ((node.mapTxLocks.find vote.txHash).getD
      (CTransactionLock.new 0 vote.txHash ctx.getTime)).addSignature vote
    let node := { node with mapTxLocks := node.mapTxLocks.put lock }
    if lock.countSignatures < SWIFTTX_SIGNATURES_REQUIRED then node
    else node.completeLock ctx vote.txHash

/-- The message `txlvote` is about a vote that was not seen yet. -/
def takesUpVote (vote : CConsensusVote) : Bool :=
  ctx.handlesSwiftTX && (node.mapTxLockVote vote.getHash).isNone

/-- The message `txlvote`. -/
def processTxlvote (vote : CConsensusVote) : SwiftNode :=
  if node.takesUpVote ctx vote = false then node
  else
    let node := { node with
      mapTxLockVote := Function.update node.mapTxLockVote vote.getHash (some vote) }
    node.processConsensusVote ctx vote

/-- The request of a transaction of the node's own, from the wallet or by RPC. -/
def requestLock (tx : CTransaction) : SwiftNode :=
  let node := { node with mapTxLockReq := insertNew node.mapTxLockReq tx.hash tx }
  (node.createNewLock ctx tx).2

/-- One round of the loop of `CleanTransactionLocksList`, at the time `now`. -/
def cleanLock (now : Int) (node : SwiftNode) (lock : CTransactionLock) : SwiftNode :=
  if lock.nExpiration < now then
    let node := match node.mapTxLockReq lock.txHash with
      | none => node
      | some tx => { node with
          mapLockedInputs := eraseAll node.mapLockedInputs tx.prevouts
          mapTxLockReq := Function.update node.mapTxLockReq lock.txHash none
          mapTxLockReqRejected := Function.update node.mapTxLockReqRejected lock.txHash none
          mapTxLockVote := eraseAll node.mapTxLockVote
            (lock.vecConsensusVotes.map CConsensusVote.getHash) }
    { node with mapTxLocks := node.mapTxLocks.erase lock.txHash }
  else node

def cleanTransactionLocksList : SwiftNode :=
  if ctx.view.tip = none then node
  else node.mapTxLocks.toList.foldl (cleanLock ctx.getTime) node

end SwiftNode

inductive SwiftEvent where
  | ix (ctx : SwiftContext) (tx : CTransaction)
  | txlvote (ctx : SwiftContext) (vote : CConsensusVote)
  | requestLock (ctx : SwiftContext) (tx : CTransaction)
  | cleanTransactionLocksList (ctx : SwiftContext)

def SwiftNode.step (node : SwiftNode) : SwiftEvent → SwiftNode
  | .ix ctx tx => node.processIx ctx tx
  | .txlvote ctx vote => node.processTxlvote ctx vote
  | .requestLock ctx tx => node.requestLock ctx tx
  | .cleanTransactionLocksList ctx => node.cleanTransactionLocksList ctx

end Lytix
