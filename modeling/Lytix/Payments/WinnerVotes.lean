import Lytix.Lib.CountEntries
import Lytix.Lib.Runs
import Lytix.Payments.BlockHash
import Lytix.Payments.NodePayments

/-! Votes of masternodes for the payee of a height. A vote is kept under its hash and counted in
the payees of its height. -/
namespace Lytix
open CountEntries

def MNPAYMENTS_SIGNATURES_TOTAL : Int := 10
def MIN_PEER_PROTO_VERSION_BEFORE_ENFORCEMENT : Int := 71032
def MIN_PEER_PROTO_VERSION_AFTER_ENFORCEMENT : Int := 71033

def activeProtocol (sporks : Sporks) : Int :=
  if isSporkActive sporks .SPORK_14_NEW_PROTOCOL_ENFORCEMENT then
    MIN_PEER_PROTO_VERSION_AFTER_ENFORCEMENT
  else if isSporkActive sporks .SPORK_15_NEW_PROTOCOL_ENFORCEMENT_2 then
    MIN_PEER_PROTO_VERSION_AFTER_ENFORCEMENT
  else MIN_PEER_PROTO_VERSION_BEFORE_ENFORCEMENT

def getMinMasternodePaymentsProto (sporks : Sporks) : Int :=
  if isSporkActive sporks .SPORK_10_MASTERNODE_PAY_UPDATED_NODES then activeProtocol sporks
  else MIN_PEER_PROTO_VERSION_BEFORE_ENFORCEMENT

namespace RankEnv

/-- `mnodeman.CountEnabled()`. -/
def countEnabled (env : RankEnv) : Nat :=
  env.vMasternodes.countP fun mn =>
    decide (getMinMasternodePaymentsProto env.sporks ≤ mn.protocolVersion) && env.enabled mn

/-- `mnodeman.Find`. -/
def find (env : RankEnv) (vin : CTxIn) : Option CMasternode :=
  env.vMasternodes.find? fun mn => mn.vin.prevout == vin.prevout

end RankEnv

structure CMasternodePaymentWinner where
  vinMasternode : CTxIn
  nBlockHeight : Int
  payee : Script
  vchSig : List UInt8

/-- The hash of a vote covers the payee, the height and the outpoint of the masternode. -/
abbrev WinnerHash := Script → Int → COutPoint → Uint256

def CMasternodePaymentWinner.getHash (winnerHash : WinnerHash)
    (winner : CMasternodePaymentWinner) : Uint256 :=
  winnerHash winner.payee winner.nBlockHeight winner.vinMasternode.prevout

/-- `vecPayments` with the votes of a payee raised, or with a new payee. -/
def addPayee (payeeIn : Script) (nIncrement : Int) : List CMasternodePayee → List CMasternodePayee
  | [] => [⟨payeeIn, nIncrement⟩]
  | payee :: rest =>
    if payee.scriptPubKey = payeeIn then
      { payee with nVotes := payee.nVotes + nIncrement } :: rest
    else payee :: addPayee payeeIn nIncrement rest

def CMasternodeBlockPayees.addPayee (payees : CMasternodeBlockPayees) (payeeIn : Script)
    (nIncrement : Int) : CMasternodeBlockPayees :=
  { payees with vecPayments := Lytix.addPayee payeeIn nIncrement payees.vecPayments }

/-- `mapMasternodeBlocks` together with the votes and the height each masternode voted on last. -/
structure PaymentVotes extends CMasternodePayments where
  mapMasternodePayeeVotes : Table Uint256 CMasternodePaymentWinner
  mapMasternodesLastVote : Uint256 → Option Int

namespace PaymentVotes

def empty : PaymentVotes where
  mapMasternodeBlocks := fun _ => none
  keyed := by
    intro h payees hp
    contradiction
  mapMasternodePayeeVotes := ∅
  mapMasternodesLastVote := fun _ => none

/-- `outMasternode.hash + outMasternode.n`. -/
def lastVoteKey (outMasternode : COutPoint) : Uint256 :=
  outMasternode.hash + BitVec.ofNat 256 outMasternode.n

/-- Whether the masternode may vote, which is recorded. -/
def canVote (payments : PaymentVotes) (outMasternode : COutPoint) (nBlockHeight : Int) :
    Bool × PaymentVotes :=
  if payments.mapMasternodesLastVote (lastVoteKey outMasternode) = some nBlockHeight then
    (false, payments)
  else
    (true, { payments with
      mapMasternodesLastVote := Function.update payments.mapMasternodesLastVote
        (lastVoteKey outMasternode) (some nBlockHeight) })

/-- `mapMasternodeBlocks[nBlockHeight]`, which is made if it is not there. -/
def blockPayees (payments : PaymentVotes) (nBlockHeight : Int) : CMasternodeBlockPayees :=
  (payments.mapMasternodeBlocks nBlockHeight).getD ⟨nBlockHeight, []⟩

/-- A vote that is not there yet is kept and counted. -/
def storeWinner (winnerHash : WinnerHash) (payments : PaymentVotes)
    (winnerIn : CMasternodePaymentWinner) : PaymentVotes where
  mapMasternodeBlocks := Function.update payments.mapMasternodeBlocks winnerIn.nBlockHeight
    (some ((payments.blockPayees winnerIn.nBlockHeight).addPayee winnerIn.payee 1))
  keyed := by
    intro h payees hp
    by_cases hh : h = winnerIn.nBlockHeight
    · subst hh
      rw [Function.update_self] at hp
      rw [← Option.some.inj hp]
      show (payments.blockPayees winnerIn.nBlockHeight).nBlockHeight = winnerIn.nBlockHeight
      unfold blockPayees
      cases hold : payments.mapMasternodeBlocks winnerIn.nBlockHeight with
      | none => rfl
      | some old => exact payments.keyed _ old hold
    · rw [Function.update_of_ne hh] at hp
      exact payments.keyed h payees hp
  mapMasternodePayeeVotes :=
    payments.mapMasternodePayeeVotes.insert (winnerIn.getHash winnerHash) winnerIn
  mapMasternodesLastVote := payments.mapMasternodesLastVote

/-- Erase a vote with everything that is counted at its height. -/
def eraseWinner (payments : PaymentVotes) (hash : Uint256) (nBlockHeight : Int) : PaymentVotes where
  mapMasternodeBlocks := Function.update payments.mapMasternodeBlocks nBlockHeight none
  keyed := by
    intro h payees hp
    by_cases hh : h = nBlockHeight
    · subst hh
      rw [Function.update_self] at hp
      contradiction
    · rw [Function.update_of_ne hh] at hp
      exact payments.keyed h payees hp
  mapMasternodePayeeVotes := payments.mapMasternodePayeeVotes.erase hash
  mapMasternodesLastVote := payments.mapMasternodesLastVote

end PaymentVotes

/-- `masternodePayments`, and what `GetBlockHash` remembers. -/
structure PaymentNode where
  masternodePayments : PaymentVotes := PaymentVotes.empty
  mapCacheBlockHashes : BlockHashCache := fun _ => none

/-- What a node knows when a vote or a block arrives: its chain, its masternode list, the version of
the peer, and `VerifyMessage` for a vote. -/
structure PaymentContext where
  view : ChainView
  mnodeman : RankEnv
  peerVersion : Int
  signatureValid : CMasternodePaymentWinner → Bool

namespace PaymentNode

variable (winnerHash : WinnerHash) (ctx : PaymentContext) (node : PaymentNode)

def addWinningMasternode (winnerIn : CMasternodePaymentWinner) : Bool × PaymentNode :=
  let result := ctx.view.getBlockHash node.mapCacheBlockHashes (winnerIn.nBlockHeight - 100)
  let node := { node with mapCacheBlockHashes := result.2 }
  if result.1 = none then (false, node)
  else if winnerIn.getHash winnerHash ∈ node.masternodePayments.mapMasternodePayeeVotes then
    (false, node)
  else (true, { node with
    masternodePayments := node.masternodePayments.storeWinner winnerHash winnerIn })

/-- `CMasternodePaymentWinner::IsValid`, with what `GetBlockHash` remembers after it. -/
def winnerIsValid (winner : CMasternodePaymentWinner) : Bool × PaymentNode :=
  match ctx.mnodeman.find winner.vinMasternode with
  | none => (false, node)
  | some mn =>
    if mn.protocolVersion < activeProtocol ctx.mnodeman.sporks then (false, node)
    else
      let rank := getMasternodeRank ctx.mnodeman ctx.view node.mapCacheBlockHashes
        winner.vinMasternode (winner.nBlockHeight - 100) (activeProtocol ctx.mnodeman.sporks) true
      (decide (rank.1 ≤ MNPAYMENTS_SIGNATURES_TOTAL), { node with mapCacheBlockHashes := rank.2 })

/-- The message `mnw`. -/
def processMnw (winner : CMasternodePaymentWinner) : PaymentNode :=
  if ctx.peerVersion < activeProtocol ctx.mnodeman.sporks then node
  else
    match ctx.view.tip with
    | none => node
    | some tip =>
      let nHeight : Int := (ctx.view.index tip).nHeight
      -- the conversion of nHeight - CountEnabled() * 1.25 to int cuts off the fraction
      let nFirstBlock := Int.tdiv (4 * nHeight - 5 * ctx.mnodeman.countEnabled) 4
      if winner.getHash winnerHash ∈ node.masternodePayments.mapMasternodePayeeVotes then node
      else if winner.nBlockHeight < nFirstBlock ∨ nHeight + 20 < winner.nBlockHeight then node
      else
        let valid := node.winnerIsValid ctx winner
        if valid.1 = false then valid.2
        else
          let allowed := valid.2.masternodePayments.canVote winner.vinMasternode.prevout
            winner.nBlockHeight
          let node := { valid.2 with masternodePayments := allowed.2 }
          if allowed.1 = false then node
          else if ctx.signatureValid winner = false then node
          else (node.addWinningMasternode winnerHash ctx winner).2

/-- One round of the loop of `CleanPaymentList`. -/
def cleanWinner (nHeight nLimit : Int) (payments : PaymentVotes)
    (vote : Sigma fun _ : Uint256 => CMasternodePaymentWinner) : PaymentVotes :=
  if nLimit < nHeight - vote.2.nBlockHeight then payments.eraseWinner vote.1 vote.2.nBlockHeight
  else payments

def cleanPaymentList : PaymentNode :=
  match ctx.view.tip with
  | none => node
  | some tip =>
    let nHeight : Int := (ctx.view.index tip).nHeight
    let nLimit : Int := max (5 * ctx.mnodeman.vMasternodes.length / 4) 1000
    let votes := node.masternodePayments.mapMasternodePayeeVotes.entries
    { node with
      masternodePayments := votes.foldl (cleanWinner nHeight nLimit) node.masternodePayments }

end PaymentNode

end Lytix
