import Lytix.Payments.NodePayments
import Lytix.Payments.Subsidy

/-! Finalized budgets and the block payee check. The check keeps, for each finalized budget, a
history of the proposals it has seen paid, and it writes to that history while it decides. -/
namespace Lytix

structure CTxBudgetPayment where
  nProposalHash : Uint256
  payee : Script
  nAmount : Int
deriving DecidableEq, Repr

def CTxBudgetPayment.matchesOut (payment : CTxBudgetPayment) (out : CTxOut) : Bool :=
  payment.payee == out.scriptPubKey && payment.nAmount == out.nValue

structure CFinalizedBudget where
  nBlockStart : Int
  vecBudgetPayments : List CTxBudgetPayment
  -- the number of votes, `mapVotes.size()`
  nVoteCount : Int
  mapPayment_History : Uint256 → Option Int

inductive TrxValidationStatus where
  | InValid
  | Valid
  | DoublePayment
  | VoteThreshold
deriving DecidableEq, Repr

namespace CFinalizedBudget

def getBlockStart (b : CFinalizedBudget) : Int := b.nBlockStart

def getBlockEnd (b : CFinalizedBudget) : Int := b.nBlockStart + (b.vecBudgetPayments.length - 1)

def inCycle (b : CFinalizedBudget) (nBlockHeight : Int) : Bool :=
  decide (b.getBlockStart ≤ nBlockHeight) && decide (nBlockHeight ≤ b.getBlockEnd)

/-- The history once payments from former or future payment cycles are removed. -/
def currentPayments (b : CFinalizedBudget) (nProposalHash : Uint256) : Option Int :=
  (b.mapPayment_History nProposalHash).filter b.inCycle

/-- A proposal that is not in the history yet is entered into it by this very question. -/
def isPaidAlready (b : CFinalizedBudget) (nProposalHash : Uint256) (nBlockHeight : Int) :
    Bool × CFinalizedBudget :=
  match b.currentPayments nProposalHash with
  | none => (false, { b with
      mapPayment_History :=
        Function.update b.currentPayments nProposalHash (some nBlockHeight) })
  | some _ => (true, { b with mapPayment_History := b.currentPayments })

/-- The loop over the outputs in `IsTransactionValid`. -/
def checkOutputs (payment : CTxBudgetPayment) (nBlockHeight : Int) :
    TrxValidationStatus → CFinalizedBudget → List CTxOut → TrxValidationStatus × CFinalizedBudget
  | transactionStatus, b, [] => (transactionStatus, b)
  | transactionStatus, b, out :: rest =>
    if payment.matchesOut out then
      let (paid, b) := b.isPaidAlready payment.nProposalHash nBlockHeight
      if paid then (.DoublePayment, b)
      else checkOutputs payment nBlockHeight .Valid b rest
    else checkOutputs payment nBlockHeight transactionStatus b rest

/-- The payment scheduled for a height, if the height is inside the budget. -/
def scheduledPayment (b : CFinalizedBudget) (nBlockHeight : Int) : Option CTxBudgetPayment :=
  let nCurrentBudgetPayment := nBlockHeight - b.getBlockStart
  if nCurrentBudgetPayment < 0 then none
  else if nCurrentBudgetPayment > b.vecBudgetPayments.length - 1 then none
  else b.vecBudgetPayments[nCurrentBudgetPayment.toNat]?

def isTransactionValid (b : CFinalizedBudget) (txNew : CTransaction) (nBlockHeight : Int) :
    TrxValidationStatus × CFinalizedBudget :=
  match b.scheduledPayment nBlockHeight with
  | none => (.InValid, b)
  | some payment => checkOutputs payment nBlockHeight .InValid b txNew.vout

end CFinalizedBudget

/-- The finalized budgets in the order of their map, and the number of enabled masternodes
(`mnodeman.CountEnabled(ActiveProtocol())`). -/
structure CBudgetManager where
  mapFinalizedBudgets : List CFinalizedBudget
  nEnabled : Nat

namespace CBudgetManager

/-- The most votes, and more than `nHighestCount`, that a budget around this height has. -/
def highestCount (nBlockHeight : Int) : Int → List CFinalizedBudget → Int
  | nHighestCount, [] => nHighestCount
  | nHighestCount, b :: rest =>
    highestCount nBlockHeight
      (if b.nVoteCount > nHighestCount && b.inCycle nBlockHeight then b.nVoteCount
        else nHighestCount) rest

def nFivePercent (m : CBudgetManager) : Int := (m.nEnabled / 20 : Nat)

def isBudgetPaymentBlock (m : CBudgetManager) (nBlockHeight : Int) : Bool :=
  decide (m.nFivePercent < highestCount nBlockHeight (-1) m.mapFinalizedBudgets)

def nCountThreshold (m : CBudgetManager) (nBlockHeight : Int) : Int :=
  highestCount nBlockHeight 0 m.mapFinalizedBudgets - (m.nEnabled / 10 : Nat)

/-- The loop over the highest finalized budgets: the status, whether any budget was over the
threshold, and the budgets with their histories. -/
def checkBudgets (nCountThreshold : Int) (txNew : CTransaction) (nBlockHeight : Int) :
    TrxValidationStatus → Bool → List CFinalizedBudget →
      TrxValidationStatus × Bool × List CFinalizedBudget
  | transactionStatus, fThreshold, [] => (transactionStatus, fThreshold, [])
  | transactionStatus, fThreshold, b :: rest =>
    if b.nVoteCount > nCountThreshold then
      if b.inCycle nBlockHeight then
        let (status, b') := b.isTransactionValid txNew nBlockHeight
        if status = .Valid then (.Valid, true, b' :: rest)
        else
          let (final, fThreshold', rest') := checkBudgets nCountThreshold txNew nBlockHeight
            status true rest
          (final, fThreshold', b' :: rest')
      else
        let (final, fThreshold', rest') := checkBudgets nCountThreshold txNew nBlockHeight
          transactionStatus true rest
        (final, fThreshold', b :: rest')
    else
      let (final, fThreshold', rest') := checkBudgets nCountThreshold txNew nBlockHeight
        transactionStatus fThreshold rest
      (final, fThreshold', b :: rest')

def isTransactionValid (m : CBudgetManager) (txNew : CTransaction) (nBlockHeight : Int) :
    TrxValidationStatus × CBudgetManager :=
  if highestCount nBlockHeight 0 m.mapFinalizedBudgets < m.nFivePercent then (.InValid, m)
  else
    let (transactionStatus, fThreshold, budgets) :=
      checkBudgets (m.nCountThreshold nBlockHeight) txNew nBlockHeight .InValid false
        m.mapFinalizedBudgets
    (if fThreshold then transactionStatus else .VoteThreshold,
      { m with mapFinalizedBudgets := budgets })

end CBudgetManager

/-- What the payee check reads and never changes. -/
structure PayeeEnv where
  network : Network
  sporks : Sporks
  -- `masternodeSync.IsSynced()`
  fSynced : Bool
  masternodePayments : CMasternodePayments

/-- The transaction of a block that pays: the coinstake after the last proof-of-work block, the
coinbase up to it. -/
def payingTransaction (env : PayeeEnv) (block : CBlock) (nBlockHeight : Int) :
    Option CTransaction :=
  if nBlockHeight > (Params env.network).nLastPOWBlock then block.vtx[1]? else block.vtx[0]?

/-- The end of `IsBlockPayeeValid`: check for masternode payee. -/
def isMasternodePayeeValid (env : PayeeEnv) (txNew : CTransaction) (nBlockHeight : Int) : Bool :=
  if env.masternodePayments.isTransactionValid env.network env.sporks txNew nBlockHeight then true
  else !isSporkActive env.sporks .SPORK_8_MASTERNODE_PAYMENT_ENFORCEMENT

/-- `IsBlockPayeeValid` on the paying transaction of the block, with the budgets it leaves. -/
def isPayeeValid (env : PayeeEnv) (budget : CBudgetManager) (txNew : CTransaction)
    (nBlockHeight : Int) : Bool × CBudgetManager :=
  if !env.fSynced then (true, budget)
  else if isSporkActive env.sporks .SPORK_13_ENABLE_SUPERBLOCKS &&
      budget.isBudgetPaymentBlock nBlockHeight then
    let (transactionStatus, budget') := budget.isTransactionValid txNew nBlockHeight
    if transactionStatus = .Valid then (true, budget')
    else if transactionStatus = .InValid &&
        isSporkActive env.sporks .SPORK_9_MASTERNODE_BUDGET_ENFORCEMENT then (false, budget')
    else (isMasternodePayeeValid env txNew nBlockHeight, budget')
  else (isMasternodePayeeValid env txNew nBlockHeight, budget)

/-- `IsBlockPayeeValid`; `none` where the block has no transaction that pays. A node that is not
synced does not look for one. -/
def isBlockPayeeValid (env : PayeeEnv) (budget : CBudgetManager) (block : CBlock)
    (nBlockHeight : Int) : Option (Bool × CBudgetManager) :=
  if !env.fSynced then some (true, budget)
  else
    (payingTransaction env block nBlockHeight).map fun txNew =>
      isPayeeValid env budget txNew nBlockHeight

end Lytix

/-! The finalized budgets that a node accepts from its peers. Only the total of the payments is
tested, and it is added up in 64 bits: the payments are bounded where none is negative and the
total fits. -/
namespace Lytix

/-- A finalized budget as it is sent to peers. -/
structure CFinalizedBudgetBroadcast where
  strBudgetName : String
  nBlockStart : Int
  vecBudgetPayments : List CTxBudgetPayment
  nFeeTXHash : Uint256

/-- What the check reads besides the budget. -/
structure FinalizedBudgetEnv where
  chain : BudgetChain
  -- the names of the proposals, for the texts
  getProposals : CFinalizedBudgetBroadcast → String
  -- what is wrong with the collateral
  isBudgetCollateralValid : CFinalizedBudgetBroadcast → Option String

namespace CFinalizedBudgetBroadcast

def getBlockEnd (b : CFinalizedBudgetBroadcast) : Int :=
  toInt32 (b.nBlockStart + toInt32 (b.vecBudgetPayments.length - 1))

def getTotalPayout (b : CFinalizedBudgetBroadcast) : Int :=
  totalAmount (b.vecBudgetPayments.map CTxBudgetPayment.nAmount)

def isValid (env : FinalizedBudgetEnv) (fCheckCollateral : Bool) (b : CFinalizedBudgetBroadcast) :
    Except String Unit :=
  let nCycle := getBudgetPaymentCycleBlocks env.chain.network
  let strBudget := "Budget " ++ b.strBudgetName ++ " (" ++ env.getProposals b ++ ") "
  if b.nBlockStart.tmod nCycle ≠ 0 then .error "Invalid BlockStart"
  else if toInt32 (b.getBlockEnd - b.nBlockStart) > 100 then .error "Invalid BlockEnd"
  else if toInt32 b.vecBudgetPayments.length > 100 then
    .error "Invalid budget payments count (too many)"
  else if b.strBudgetName = "" then .error "Invalid Budget Name"
  else if b.nBlockStart = 0 then .error (strBudget ++ "Invalid BlockStart == 0")
  else if b.nFeeTXHash = 0 then .error (strBudget ++ "Invalid FeeTx == 0")
  else if b.getTotalPayout > getTotalBudget env.chain b.nBlockStart then
    .error (strBudget ++ "Invalid Payout (more than max)")
  else
    match if fCheckCollateral then env.isBudgetCollateralValid b else none with
    | some strError2 => .error (strBudget ++ "Invalid Collateral : " ++ strError2)
    | none =>
      match env.chain.tip with
      | none => .ok ()
      | some nCurrentHeight =>
        let nBlockStart := nCurrentHeight - nCurrentHeight.tmod nCycle + nCycle
        let nMaxAge := nBlockStart - 2 * nCycle
        if b.getBlockEnd < nMaxAge then
          .error (strBudget ++ "(ends at block " ++ toString b.getBlockEnd ++
            ") too old and obsolete")
        else .ok ()

/-- What the payments add up to, exactly. -/
def exactPayout (b : CFinalizedBudgetBroadcast) : Int :=
  (b.vecBudgetPayments.map CTxBudgetPayment.nAmount).sum

/-- Every payment is one, and all together they stay within the budget. -/
def PayoutsBounded (chain : BudgetChain) (b : CFinalizedBudgetBroadcast) : Prop :=
  (∀ payment ∈ b.vecBudgetPayments, 0 < payment.nAmount) ∧
    b.exactPayout ≤ getTotalBudget chain b.nBlockStart

section
variable {env : FinalizedBudgetEnv} {fCheckCollateral : Bool} {b : CFinalizedBudgetBroadcast}

theorem getTotalPayout_le_of_isValid (hvalid : b.isValid env fCheckCollateral = .ok ()) :
    b.getTotalPayout ≤ getTotalBudget env.chain b.nBlockStart := by
  unfold isValid at hvalid
  dsimp only at hvalid
  by_contra hmore
  rw [if_pos (not_le.mp hmore)] at hvalid
  split_ifs at hvalid

theorem getTotalPayout_eq : b.getTotalPayout = toCAmount b.exactPayout := totalAmount_eq _

theorem exactPayout_nonneg (hpositive : ∀ payment ∈ b.vecBudgetPayments, 0 < payment.nAmount) :
    0 ≤ b.exactPayout := by
  refine List.sum_nonneg ?_
  intro nAmount hmem
  obtain ⟨payment, hpayment, rfl⟩ := List.mem_map.mp hmem
  exact (hpositive payment hpayment).le

end

/-- The payments of a budget that is accepted are bounded exactly where each is positive and their
sum is an amount. -/
theorem isValid_bounded_iff (env : FinalizedBudgetEnv) (fCheckCollateral : Bool)
    (b : CFinalizedBudgetBroadcast) (hvalid : b.isValid env fCheckCollateral = .ok ()) :
    b.PayoutsBounded env.chain ↔
      (∀ payment ∈ b.vecBudgetPayments, 0 < payment.nAmount) ∧ b.exactPayout < 2 ^ 63 := by
  have hlimit := @getTotalBudget_lt env.chain b.nBlockStart
  constructor
  · rintro ⟨hpositive, hbounded⟩
    exact ⟨hpositive, by omega⟩
  · rintro ⟨hpositive, hfits⟩
    have htotal := getTotalPayout_le_of_isValid hvalid
    rw [getTotalPayout_eq, toCAmount_of_lt (exactPayout_nonneg hpositive) hfits] at htotal
    exact ⟨hpositive, htotal⟩

/-- A node on the test network at height 100. -/
def testNode : FinalizedBudgetEnv := ⟨⟨.testnet, some 100⟩, fun _ => "", fun _ => none⟩

/-- A budget that pays these amounts from block 144 on. -/
def budgetOf (amounts : List Int) : CFinalizedBudgetBroadcast :=
  ⟨"main", 144, amounts.map fun nAmount => ⟨0, [], nAmount⟩, 1⟩

theorem isValid_bounded_iff_one :
    (budgetOf [COIN]).PayoutsBounded testNode.chain ↔
      (∀ payment ∈ (budgetOf [COIN]).vecBudgetPayments, 0 < payment.nAmount) ∧
        (budgetOf [COIN]).exactPayout < 2 ^ 63 :=
  isValid_bounded_iff testNode true (budgetOf [COIN]) (by decide)

/-- A negative payment makes room for a payment over the budget, and so does a sum that wraps. -/
theorem not_isValid_bounded :
    ¬∀ (env : FinalizedBudgetEnv) (fCheckCollateral : Bool) (b : CFinalizedBudgetBroadcast),
      b.isValid env fCheckCollateral = .ok () → b.PayoutsBounded env.chain := by
  intro h
  have hbounded := h testNode true (budgetOf [1000000 * COIN, -1000000 * COIN]) (by decide)
  exact absurd hbounded.1 (by decide)

/-- Four payments of a quarter of the range are nothing together. -/
example : (budgetOf [2 ^ 62, 2 ^ 62, 2 ^ 62, 2 ^ 62]).isValid testNode true = .ok () := by decide

end CFinalizedBudgetBroadcast
end Lytix
