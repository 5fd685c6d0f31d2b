import Lytix.Payments.BudgetHistory

/-! When the block payee check can be repeated. The budgets only settle: a transaction that pays
one of them for the first time is accepted for that, and a later look at it is answered as if
the payment had been made in another block. -/
namespace Lytix

namespace CBudgetManager
open CFinalizedBudget

structure Later (m m' : CBudgetManager) : Prop where
  enabled_eq : m'.nEnabled = m.nEnabled
  budgets : List.Forall₂ CFinalizedBudget.Later m.mapFinalizedBudgets m'.mapFinalizedBudgets

theorem Later.refl (m : CBudgetManager) : Later m m := ⟨rfl, forall₂_refl _⟩

theorem Later.trans {a b c : CBudgetManager} (hab : Later a b) (hbc : Later b c) : Later a c where
  enabled_eq := hbc.enabled_eq.trans hab.enabled_eq
  budgets := by
    have htrans : ∀ {xs ys zs : List CFinalizedBudget}, List.Forall₂ CFinalizedBudget.Later xs ys →
        List.Forall₂ CFinalizedBudget.Later ys zs → List.Forall₂ CFinalizedBudget.Later xs zs := by
      intro xs ys zs hxy
      induction hxy generalizing zs with
      | nil => exact id
      | cons hb hrest ih =>
        intro hyz
        cases hyz with
        | cons hb' hrest' => exact List.Forall₂.cons (hb.trans hb') (ih hrest')
    exact htrans hab.budgets hbc.budgets

theorem Later.nCountThreshold_eq {m m' : CBudgetManager} (h : Later m m') (nBlockHeight : Int) :
    m'.nCountThreshold nBlockHeight = m.nCountThreshold nBlockHeight := by
  unfold nCountThreshold
  rw [h.enabled_eq, highestCount_later h.budgets]

theorem Later.isBudgetPaymentBlock_eq {m m' : CBudgetManager} (h : Later m m')
    (nBlockHeight : Int) :
    m'.isBudgetPaymentBlock nBlockHeight = m.isBudgetPaymentBlock nBlockHeight := by
  unfold isBudgetPaymentBlock nFivePercent
  rw [h.enabled_eq, highestCount_later h.budgets]

/-- The budgets the transaction would pay for the first time at this height. -/
def pendingPayments (m : CBudgetManager) (txNew : CTransaction) (nBlockHeight : Int) : Nat :=
  pending (m.nCountThreshold nBlockHeight) txNew nBlockHeight m.mapFinalizedBudgets

/-- The status once nothing is paid for the first time any more. -/
def settledStatus (m : CBudgetManager) (txNew : CTransaction) (nBlockHeight : Int) :
    TrxValidationStatus :=
  if m.mapFinalizedBudgets.any fun b => decide (b.nVoteCount > m.nCountThreshold nBlockHeight) then
    lastStatus (m.nCountThreshold nBlockHeight) txNew nBlockHeight .InValid m.mapFinalizedBudgets
  else .VoteThreshold

theorem Later.pendingPayments_le {m m' : CBudgetManager} (h : Later m m') (txNew : CTransaction)
    (nBlockHeight : Int) :
    m'.pendingPayments txNew nBlockHeight ≤ m.pendingPayments txNew nBlockHeight := by
  unfold pendingPayments
  rw [h.nCountThreshold_eq]
  exact pending_later h.budgets

theorem Later.settledStatus_eq {m m' : CBudgetManager} (h : Later m m') (txNew : CTransaction)
    (nBlockHeight : Int) :
    m'.settledStatus txNew nBlockHeight = m.settledStatus txNew nBlockHeight := by
  unfold settledStatus
  rw [h.nCountThreshold_eq, any_votes_later h.budgets, lastStatus_later h.budgets]

theorem settledStatus_ne_valid (m : CBudgetManager) (txNew : CTransaction) (nBlockHeight : Int) :
    m.settledStatus txNew nBlockHeight ≠ .Valid := by
  unfold settledStatus
  split_ifs
  · exact lastStatus_ne_valid (by simp)
  · simp

/-- On a budget payment block the status is decided by what is still to be paid. -/
theorem isTransactionValid_spec {m : CBudgetManager} {nBlockHeight : Int} (txNew : CTransaction)
    (hblock : m.isBudgetPaymentBlock nBlockHeight = true) :
    let result := m.isTransactionValid txNew nBlockHeight
    Later m result.2 ∧
      (0 < m.pendingPayments txNew nBlockHeight → result.1 = .Valid ∧
        result.2.pendingPayments txNew nBlockHeight < m.pendingPayments txNew nBlockHeight) ∧
      (m.pendingPayments txNew nBlockHeight = 0 →
        result.1 = m.settledStatus txNew nBlockHeight) := by
  have henough : ¬highestCount nBlockHeight 0 m.mapFinalizedBudgets < m.nFivePercent := by
    have hmono : highestCount nBlockHeight (-1) m.mapFinalizedBudgets ≤
        highestCount nBlockHeight 0 m.mapFinalizedBudgets := highestCount_mono (by norm_num)
    have hless : m.nFivePercent < highestCount nBlockHeight (-1) m.mapFinalizedBudgets :=
      of_decide_eq_true hblock
    omega
  have hloop := @checkBudgets_spec (m.nCountThreshold nBlockHeight) txNew nBlockHeight
    m.mapFinalizedBudgets .InValid false
  unfold isTransactionValid
  rw [if_neg henough]
  generalize checkBudgets (m.nCountThreshold nBlockHeight) txNew nBlockHeight .InValid false
    m.mapFinalizedBudgets = result at hloop
  obtain ⟨status, fThreshold, budgets⟩ := result
  obtain ⟨hlater, hsome, hnone⟩ := hloop
  dsimp only at hlater hsome hnone ⊢
  have hlater' : Later m { m with mapFinalizedBudgets := budgets } := ⟨rfl, hlater⟩
  refine ⟨hlater', fun hpos => ?_, fun hzero => ?_⟩
  · obtain ⟨hvalid, hthreshold, hfewer⟩ := hsome hpos
    rw [if_pos hthreshold]
    refine ⟨hvalid, ?_⟩
    unfold pendingPayments
    rw [hlater'.nCountThreshold_eq]
    exact hfewer
  · obtain ⟨hlast, hthreshold⟩ := hnone hzero
    rw [hlast, hthreshold, Bool.false_or]
    rfl

end CBudgetManager

section repeat_check
variable (env : PayeeEnv)

/-- The check asks the finalized budgets. -/
def asksBudgets (budget : CBudgetManager) (nBlockHeight : Int) : Bool :=
  env.fSynced && (isSporkActive env.sporks .SPORK_13_ENABLE_SUPERBLOCKS &&
    budget.isBudgetPaymentBlock nBlockHeight)

/-- The answer when no budget is paid for the first time. -/
def settledAnswer (budget : CBudgetManager) (txNew : CTransaction) (nBlockHeight : Int) : Bool :=
  if budget.settledStatus txNew nBlockHeight = .InValid &&
      isSporkActive env.sporks .SPORK_9_MASTERNODE_BUDGET_ENFORCEMENT then false
  else isMasternodePayeeValid env txNew nBlockHeight

variable {budget budget' : CBudgetManager}

theorem asksBudgets_later (nBlockHeight : Int) (h : budget.Later budget') :
    asksBudgets env budget' nBlockHeight = asksBudgets env budget nBlockHeight := by
  unfold asksBudgets
  rw [h.isBudgetPaymentBlock_eq]

theorem settledAnswer_later (txNew : CTransaction) (nBlockHeight : Int) (h : budget.Later budget') :
    settledAnswer env budget' txNew nBlockHeight = settledAnswer env budget txNew nBlockHeight := by
  unfold settledAnswer
  rw [h.settledStatus_eq]

variable {env} {txNew : CTransaction} {nBlockHeight : Int}

theorem isPayeeValid_of_not_asks (h : asksBudgets env budget nBlockHeight = false) :
    isPayeeValid env budget txNew nBlockHeight =
      (!env.fSynced || isMasternodePayeeValid env txNew nBlockHeight, budget) := by
  unfold asksBudgets at h
  unfold isPayeeValid
  cases hsync : env.fSynced with
  | false => rfl
  | true =>
    rw [hsync, Bool.true_and] at h
    rw [h]
    rfl

theorem isPayeeValid_of_asks (h : asksBudgets env budget nBlockHeight = true) :
    isPayeeValid env budget txNew nBlockHeight =
      (if (budget.isTransactionValid txNew nBlockHeight).1 = .Valid then true
        else if (budget.isTransactionValid txNew nBlockHeight).1 = .InValid &&
          isSporkActive env.sporks .SPORK_9_MASTERNODE_BUDGET_ENFORCEMENT then false
        else isMasternodePayeeValid env txNew nBlockHeight,
        (budget.isTransactionValid txNew nBlockHeight).2) := by
  obtain ⟨hsync, hblock⟩ := Bool.and_eq_true_iff.mp h
  unfold isPayeeValid
  rw [hsync, hblock]
  simp only [Bool.not_true, Bool.false_eq_true, if_false, if_true]
  split_ifs <;> rfl

/-- One check: what it answers, and what it leaves to be paid for the first time. -/
theorem isPayeeValid_spec (env : PayeeEnv) (budget : CBudgetManager) (txNew : CTransaction)
    (nBlockHeight : Int) :
    budget.Later (isPayeeValid env budget txNew nBlockHeight).2 ∧
      (asksBudgets env budget nBlockHeight = true →
        0 < budget.pendingPayments txNew nBlockHeight →
          (isPayeeValid env budget txNew nBlockHeight).1 = true ∧
          (isPayeeValid env budget txNew nBlockHeight).2.pendingPayments txNew nBlockHeight <
            budget.pendingPayments txNew nBlockHeight) ∧
      (asksBudgets env budget nBlockHeight = true →
        budget.pendingPayments txNew nBlockHeight = 0 →
          (isPayeeValid env budget txNew nBlockHeight).1 =
            settledAnswer env budget txNew nBlockHeight) := by
  cases hasks : asksBudgets env budget nBlockHeight with
  | false =>
    rw [isPayeeValid_of_not_asks hasks]
    exact ⟨CBudgetManager.Later.refl budget, fun h => absurd h (by simp),
      fun h => absurd h (by simp)⟩
  | true =>
    have hblock : budget.isBudgetPaymentBlock nBlockHeight = true :=
      (Bool.and_eq_true_iff.mp (Bool.and_eq_true_iff.mp hasks).2).2
    obtain ⟨hlater, hsome, hnone⟩ := CBudgetManager.isTransactionValid_spec txNew hblock
    rw [isPayeeValid_of_asks hasks]
    refine ⟨hlater, fun _ hpos => ?_, fun _ hzero => ?_⟩
    · obtain ⟨hvalid, hfewer⟩ := hsome hpos
      exact ⟨if_pos hvalid, hfewer⟩
    · have hstatus := hnone hzero
      have hne := budget.settledStatus_ne_valid txNew nBlockHeight
      dsimp only
      rw [hstatus, if_neg hne]
      rfl

/-- The budgets after a sequence of checks of other blocks. -/
def checkAll (env : PayeeEnv) (budget : CBudgetManager) :
    List (CTransaction × Int) → CBudgetManager
  | [] => budget
  | (txNew, nBlockHeight) :: rest =>
    checkAll env (isPayeeValid env budget txNew nBlockHeight).2 rest

theorem checkAll_later (env : PayeeEnv) (checks : List (CTransaction × Int)) (budget : CBudgetManager) :
    budget.Later (checkAll env budget checks) := by
  induction checks generalizing budget with
  | nil => exact CBudgetManager.Later.refl budget
  | cons check rest ih =>
    obtain ⟨txNew, nBlockHeight⟩ := check
    exact (isPayeeValid_spec env budget txNew nBlockHeight).1.trans (ih _)

/-- Checking the same transaction again and again leaves nothing to be paid for the first time. -/
theorem exists_settled (txNew : CTransaction) (hasks : asksBudgets env budget nBlockHeight = true) :
    ∃ n, (checkAll env budget (List.replicate n (txNew, nBlockHeight))).pendingPayments txNew
      nBlockHeight = 0 := by
  generalize hk : budget.pendingPayments txNew nBlockHeight = k
  induction k using Nat.strong_induction_on generalizing budget with
  | _ k ih =>
    rcases Nat.eq_zero_or_pos k with hzero | hpos
    · exact ⟨0, by rw [List.replicate_zero, checkAll, hk, hzero]⟩
    · obtain ⟨hlater, hsome, -⟩ := isPayeeValid_spec env budget txNew nBlockHeight
      obtain ⟨-, hfewer⟩ := hsome hasks (by rw [hk]; exact hpos)
      rw [hk] at hfewer
      obtain ⟨n, hn⟩ := ih _ hfewer ((asksBudgets_later env _ hlater).trans hasks) rfl
      exact ⟨n + 1, hn⟩

/-- The second answer equals the first, whatever is checked in between. -/
def Repeatable (env : PayeeEnv) (budget : CBudgetManager) (txNew : CTransaction)
    (nBlockHeight : Int) : Prop :=
  ∀ between : List (CTransaction × Int),
    (isPayeeValid env
        (checkAll env (isPayeeValid env budget txNew nBlockHeight).2 between) txNew
        nBlockHeight).1 =
      (isPayeeValid env budget txNew nBlockHeight).1

/-- A first payment that would not be accepted without its budget is accepted once only. -/
theorem not_repeatable_of_pending (hasks : asksBudgets env budget nBlockHeight = true)
    (hpos : 0 < budget.pendingPayments txNew nBlockHeight)
    (hanswer : settledAnswer env budget txNew nBlockHeight = false) :
    ¬Repeatable env budget txNew nBlockHeight := by
  intro hrepeat
  obtain ⟨hlater, hsome, -⟩ := isPayeeValid_spec env budget txNew nBlockHeight
  have hasks' := (asksBudgets_later env nBlockHeight hlater).trans hasks
  obtain ⟨n, hn⟩ := exists_settled txNew hasks'
  have hall := hlater.trans (checkAll_later env (List.replicate n (txNew, nBlockHeight)) _)
  have hlast := (isPayeeValid_spec env _ txNew nBlockHeight).2.2
    ((asksBudgets_later env _ hall).trans hasks) hn
  rw [hrepeat, (hsome hasks hpos).1, settledAnswer_later env _ _ hall, hanswer] at hlast
  exact absurd hlast (by simp)

/-- Every spork is active, and six votes are for a masternode that is not paid. -/
def enforcingEnv : PayeeEnv where
  network := .regtest
  sporks := ⟨fun _ => some 0, 1⟩
  fSynced := true
  masternodePayments := sixVotes [7] 300

/-- One finalized budget that pays 100 to the script `[1]` at height 300. -/
def onePayment : CBudgetManager := ⟨[⟨300, [⟨5, [1], 100⟩], 1, fun _ => none⟩], 10⟩

def budgetStake : CTransaction := ⟨9, 1, [], [⟨100, [1], -10⟩], 0⟩

end repeat_check
end Lytix
