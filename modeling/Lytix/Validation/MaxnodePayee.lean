import Lytix.Validation.Conservation

/-! The payee check for maxnodes, a copy of the one for masternodes that no part of block acceptance
calls. -/
namespace Lytix
open Checks

def MAXPAYMENTS_SIGNATURES_REQUIRED : Int := 6

/-- What the maxnode copy of the payment code knows: `maxnodeSync.IsSynced()`, the votes for maxnode
payees and the maxnode budgets. -/
structure MaxnodeState where
  fSynced : Bool
  maxnodePayments : CMasternodePayments
  maxbudget : CBudgetManager

namespace CMaxnodeBlockPayees

def requiredMaxnodePayment (network : Network) (sporks : Sporks) (nBlockHeight : Int) : Int :=
  getMaxnodePayment network sporks nBlockHeight (getBlockValue network nBlockHeight)

end CMaxnodeBlockPayees

section
variable (network : Network) (sporks : Sporks) (maxnodes : MaxnodeState) (txNew : CTransaction)
  (nBlockHeight : Int)

/-- If some maxnode payee has the required votes, one that has them is paid the required amount. -/
def MaxnodePaid : Prop :=
  ∀ payees, maxnodes.maxnodePayments.mapMasternodeBlocks nBlockHeight = some payees →
    (∃ payee ∈ payees.vecPayments, MAXPAYMENTS_SIGNATURES_REQUIRED ≤ payee.nVotes) →
    ∃ payee ∈ payees.vecPayments, MAXPAYMENTS_SIGNATURES_REQUIRED ≤ payee.nVotes ∧
      ∃ out ∈ txNew.vout, payee.scriptPubKey = out.scriptPubKey ∧
        CMaxnodeBlockPayees.requiredMaxnodePayment network sporks nBlockHeight ≤ out.nValue

/-- A maxnode is paid where enforcement is active and the maxnode list is synced. -/
def MaxnodeEnforced : Prop :=
  isSporkActive sporks .SPORK_8_MASTERNODE_PAYMENT_ENFORCEMENT = true → maxnodes.fSynced = true →
    MaxnodePaid network sporks maxnodes txNew nBlockHeight

end

section
variable {network : Network} {sporks : Sporks} {maxnodes : MaxnodeState} {txNew : CTransaction}
  {nBlockHeight : Int}

/-- Six votes for a script that no output has. -/
theorem exists_not_maxnodePaid (network : Network) (sporks : Sporks) (txNew : CTransaction)
    (nBlockHeight : Int) : ∃ maxnodes : MaxnodeState, maxnodes.fSynced = true ∧
      ¬ MaxnodePaid network sporks maxnodes txNew nBlockHeight := by
  obtain ⟨payee, hpayee⟩ := Infinite.exists_notMem_finset
    (txNew.vout.map CTxOut.scriptPubKey).toFinset
  refine ⟨⟨true, sixVotes payee nBlockHeight, ⟨[], 0⟩⟩, rfl, ?_⟩
  intro hpaid
  obtain ⟨p, hp, -, out, hout, hscript, -⟩ := hpaid ⟨nBlockHeight, [⟨payee, 6⟩]⟩
    (by simp [sixVotes]) ⟨⟨payee, 6⟩, List.mem_cons_self, le_rfl⟩
  rw [List.mem_singleton.mp hp] at hscript
  apply hpayee
  rw [List.mem_toFinset]
  exact List.mem_map.mpr ⟨out, hout, hscript.symm⟩

end

section accepted
variable {env : ConsensusEnv} {node : ConsensusNode} {block : CBlock} {coins : CoinsMap}
  {hashBestBlock : Uint256} {pindex : CBlockIndex} {outcome : ConnectOutcome}
  {fCheckPOW fCheckMerkleRoot fJustCheck fAlreadyChecked : Bool}

/-- An accepted block has a transaction that pays. -/
theorem exists_payingTransaction (hgenesis : block.hash ≠ node.params.hashGenesisBlock)
    (hcheck : checkBlock env node block fCheckPOW fCheckMerkleRoot = .ok ())
    (hconnect : connectBlock env node block coins hashBestBlock pindex fJustCheck fAlreadyChecked =
      .ok outcome) :
    ∃ txNew, payingTransaction node.payeeEnv block pindex.nHeight = some txNew := by
  obtain ⟨_, _, _, hheader, -⟩ := connectBlock_eq_ok hconnect
  unfold payingTransaction
  split_ifs with hstake
  · simp only [connectBlockHeader, bind_eq_ok, stopIf_eq_ok] at hheader
    obtain ⟨-, -, -, -, -, -, -, hpow, -⟩ := hheader
    have hpos : block.isProofOfWork ≠ true := fun h => hpow ⟨hstake, h⟩
    unfold CBlock.isProofOfWork CBlock.isProofOfStake at hpos
    split at hpos
    · rename_i first tx rest hvtx
      refine ⟨tx, ?_⟩
      rw [hvtx]
      rfl
    · exact absurd rfl hpos
  · obtain ⟨hcoin, -⟩ := checkBlock_eq_ok hgenesis hcheck
    obtain ⟨⟨tx, hhead, -⟩, -⟩ := checkCoinTransactions_eq_ok hcoin
    refine ⟨tx, ?_⟩
    rw [← List.head?_eq_getElem?]
    exact hhead

/-- Whatever the maxnodes voted, an accepted block pays one of them where the rule is in force:
that holds exactly while enforcement is not active. -/
theorem maxnodeEnforced_iff (hgenesis : block.hash ≠ node.params.hashGenesisBlock)
    (hcheck : checkBlock env node block fCheckPOW fCheckMerkleRoot = .ok ())
    (hconnect : connectBlock env node block coins hashBestBlock pindex fJustCheck fAlreadyChecked =
      .ok outcome) :
    ∃ txNew, payingTransaction node.payeeEnv block pindex.nHeight = some txNew ∧
      ((∀ maxnodes, MaxnodeEnforced node.network node.sporks maxnodes txNew pindex.nHeight) ↔
        isSporkActive node.sporks .SPORK_8_MASTERNODE_PAYMENT_ENFORCEMENT = false) := by
  obtain ⟨txNew, htx⟩ := exists_payingTransaction hgenesis hcheck hconnect
  refine ⟨txNew, htx, ?_⟩
  constructor
  · intro henforced
    by_contra hspork
    obtain ⟨maxnodes, hsynced, hnot⟩ :=
      exists_not_maxnodePaid node.network node.sporks txNew pindex.nHeight
    exact hnot (henforced maxnodes (Bool.eq_true_of_not_eq_false hspork) hsynced)
  · intro hspork maxnodes hactive _
    rw [hspork] at hactive
    contradiction

end accepted

/-! The first block after the genesis block of the main network, with enforcement and maxnode
payments active. -/

def enforcedNode : ConsensusNode :=
  { launchNode {} empty_pprev empty_nHeight with
    mempool_hash := mempool_hash_none
    network := .main
    sporks :=
      { mapSporksActive := fun spork =>
          if spork = .SPORK_8_MASTERNODE_PAYMENT_ENFORCEMENT ∨ spork = .SPORK_19_MAXNODE_ACTIVATION
            then some 1500000000 else none
        now := 1600000000 } }

def enforcedBlock : CBlock := { rewardBlock COIN with nVersion := 4 }

theorem checkBlock_enforcedBlock :
    checkBlock launchEnv enforcedNode enforcedBlock true true = .ok () := rfl

theorem connectBlock_enforcedBlock :
    ∃ outcome, connectBlock launchEnv enforcedNode enforcedBlock launchCoins 1 launchIndex
      false false = .ok outcome := ⟨_, rfl⟩

/-- Six maxnodes voted for a script that the block does not pay. -/
theorem not_maxnodeEnforced_enforcedBlock :
    checkBlock launchEnv enforcedNode enforcedBlock true true = .ok () ∧
      (∃ outcome, connectBlock launchEnv enforcedNode enforcedBlock launchCoins 1 launchIndex
        false false = .ok outcome) ∧
      payingTransaction enforcedNode.payeeEnv enforcedBlock 1 = some (launchCoinBase COIN) ∧
      0 < CMaxnodeBlockPayees.requiredMaxnodePayment enforcedNode.network enforcedNode.sporks 1 ∧
      ¬ MaxnodeEnforced enforcedNode.network enforcedNode.sporks
        ⟨true, sixVotes [9] 1, ⟨[], 0⟩⟩ (launchCoinBase COIN) 1 := by
  refine ⟨checkBlock_enforcedBlock, connectBlock_enforcedBlock, rfl, by decide, ?_⟩
  intro henforced
  obtain ⟨payee, hpayee, -, out, hout, hscript, -⟩ := henforced (by decide) rfl
    ⟨1, [⟨[9], 6⟩]⟩ rfl ⟨⟨[9], 6⟩, List.mem_cons_self, le_rfl⟩
  rw [List.mem_singleton.mp hpayee, List.mem_singleton.mp hout] at hscript
  exact absurd hscript (by decide)

theorem maxnodeEnforced_iff_enforcedBlock :
    ∃ txNew, payingTransaction enforcedNode.payeeEnv enforcedBlock launchIndex.nHeight =
        some txNew ∧
      ((∀ maxnodes, MaxnodeEnforced enforcedNode.network enforcedNode.sporks maxnodes txNew
          launchIndex.nHeight) ↔
        isSporkActive enforcedNode.sporks .SPORK_8_MASTERNODE_PAYMENT_ENFORCEMENT = false) := by
  have hgenesis : enforcedBlock.hash ≠ enforcedNode.params.hashGenesisBlock := by
    show (5 : Uint256) ≠ _
    decide
  obtain ⟨outcome, houtcome⟩ := connectBlock_enforcedBlock
  exact maxnodeEnforced_iff hgenesis checkBlock_enforcedBlock houtcome

end Lytix
