import Lytix.Payments.Budget

/-! What asking the finalized budgets does to their payment histories: it only ever adds
payments of the current cycle, and a budget that has answered "valid" does not do so again. -/
namespace Lytix

namespace CFinalizedBudget

/-- The proposal is known as paid in this payment cycle. -/
def Paid (b : CFinalizedBudget) (nProposalHash : Uint256) : Prop :=
  (b.currentPayments nProposalHash).isSome

instance (b : CFinalizedBudget) (nProposalHash : Uint256) : Decidable (b.Paid nProposalHash) :=
  inferInstanceAs (Decidable (_ = true))

/-- The same budget after some checks: only payments have been added. -/
structure Later (b b' : CFinalizedBudget) : Prop where
  start_eq : b'.nBlockStart = b.nBlockStart
  payments_eq : b'.vecBudgetPayments = b.vecBudgetPayments
  votes_eq : b'.nVoteCount = b.nVoteCount
  paid : ∀ nProposalHash, b.Paid nProposalHash → b'.Paid nProposalHash

theorem Later.refl (b : CFinalizedBudget) : Later b b := ⟨rfl, rfl, rfl, fun _ h => h⟩

theorem Later.trans {a b c : CFinalizedBudget} (hab : Later a b) (hbc : Later b c) :
    Later a c where
  start_eq := hbc.start_eq.trans hab.start_eq
  payments_eq := hbc.payments_eq.trans hab.payments_eq
  votes_eq := hbc.votes_eq.trans hab.votes_eq
  paid k h := hbc.paid k (hab.paid k h)

theorem Later.scheduledPayment_eq {b b' : CFinalizedBudget} (h : Later b b') (nBlockHeight : Int) :
    b'.scheduledPayment nBlockHeight = b.scheduledPayment nBlockHeight := by
  unfold scheduledPayment getBlockStart
  rw [h.start_eq, h.payments_eq]

theorem Later.inCycle_eq {b b' : CFinalizedBudget} (h : Later b b') (nBlockHeight : Int) :
    b'.inCycle nBlockHeight = b.inCycle nBlockHeight := by
  unfold inCycle getBlockStart getBlockEnd
  rw [h.start_eq, h.payments_eq]

/-- Another history over the same budget. -/
def withHistory (b : CFinalizedBudget) (history : Uint256 → Option Int) : CFinalizedBudget :=
  { b with mapPayment_History := history }

theorem withHistory_currentPayments (b : CFinalizedBudget) (history : Uint256 → Option Int)
    (nProposalHash : Uint256) : (b.withHistory history).currentPayments nProposalHash =
      (history nProposalHash).filter b.inCycle := rfl

theorem currentPayments_idem (b : CFinalizedBudget) (nProposalHash : Uint256) :
    (b.currentPayments nProposalHash).filter b.inCycle = b.currentPayments nProposalHash := by
  simp only [currentPayments, Option.filter_filter, Bool.and_self]

/-- What the question does to a history: it adds the proposal at the height asked about. -/
theorem isPaidAlready_spec (b : CFinalizedBudget) (nProposalHash : Uint256) {nBlockHeight : Int}
    (hcycle : b.inCycle nBlockHeight = true) :
    ((b.isPaidAlready nProposalHash nBlockHeight).1 = true ↔ b.Paid nProposalHash) ∧
      Later b (b.isPaidAlready nProposalHash nBlockHeight).2 ∧
      (b.isPaidAlready nProposalHash nBlockHeight).2.Paid nProposalHash := by
  cases hpaid : b.currentPayments nProposalHash with
  | some paidAt =>
    have hsame : b.isPaidAlready nProposalHash nBlockHeight =
        (true, b.withHistory b.currentPayments) := by
      simp only [isPaidAlready, hpaid, withHistory]
    have hkept : ∀ k, b.Paid k → (b.withHistory b.currentPayments).Paid k := by
      intro k hk
      rwa [Paid, withHistory_currentPayments, currentPayments_idem]
    have hnow : b.Paid nProposalHash := by
      rw [Paid, hpaid]
      rfl
    rw [hsame]
    exact ⟨⟨fun _ => hnow, fun _ => rfl⟩, ⟨rfl, rfl, rfl, hkept⟩, hkept _ hnow⟩
  | none =>
    have hsame : b.isPaidAlready nProposalHash nBlockHeight = (false, b.withHistory
        (Function.update b.currentPayments nProposalHash (some nBlockHeight))) := by
      simp only [isPaidAlready, hpaid, withHistory]
    have hself : (b.withHistory (Function.update b.currentPayments nProposalHash
        (some nBlockHeight))).Paid nProposalHash := by
      rw [Paid, withHistory_currentPayments, Function.update_self, Option.filter_some,
        if_pos hcycle]
      rfl
    have hkept : ∀ k, b.Paid k → (b.withHistory (Function.update b.currentPayments nProposalHash
        (some nBlockHeight))).Paid k := by
      intro k hk
      by_cases hkn : k = nProposalHash
      · rw [hkn]
        exact hself
      · rwa [Paid, withHistory_currentPayments, Function.update_of_ne hkn, currentPayments_idem]
    have hnot : ¬b.Paid nProposalHash := by
      rw [Paid, hpaid]
      simp
    rw [hsame]
    exact ⟨⟨fun h => absurd h (by simp), fun h => absurd h hnot⟩, ⟨rfl, rfl, rfl, hkept⟩, hself⟩

/-- The outputs of a transaction that pay exactly what is scheduled. -/
def payingOutputs (payment : CTxBudgetPayment) (outs : List CTxOut) : Nat :=
  outs.countP payment.matchesOut

theorem checkOutputs_paid {payment : CTxBudgetPayment} {nBlockHeight : Int} (outs : List CTxOut)
    {b : CFinalizedBudget} (transactionStatus : TrxValidationStatus)
    (hcycle : b.inCycle nBlockHeight = true) (hpaid : b.Paid payment.nProposalHash) :
    (checkOutputs payment nBlockHeight transactionStatus b outs).1 =
        (if payingOutputs payment outs = 0 then transactionStatus else .DoublePayment) ∧
      Later b (checkOutputs payment nBlockHeight transactionStatus b outs).2 := by
  induction outs with
  | nil => exact ⟨rfl, Later.refl b⟩
  | cons out rest ih =>
    rw [checkOutputs]
    by_cases hmatch : payment.matchesOut out = true
    · obtain ⟨hask, hlater, -⟩ := isPaidAlready_spec b payment.nProposalHash hcycle
      rw [if_pos hmatch]
      simp only [hask.mpr hpaid, if_true, payingOutputs, List.countP_cons, hmatch]
      exact ⟨by simp, hlater⟩
    · rw [if_neg hmatch]
      simp only [payingOutputs, List.countP_cons, hmatch]
      exact ih

theorem checkOutputs_unpaid {payment : CTxBudgetPayment} {nBlockHeight : Int} (outs : List CTxOut)
    {b : CFinalizedBudget} (transactionStatus : TrxValidationStatus)
    (hcycle : b.inCycle nBlockHeight = true) (hunpaid : ¬b.Paid payment.nProposalHash) :
    (checkOutputs payment nBlockHeight transactionStatus b outs).1 =
        (if payingOutputs payment outs = 0 then transactionStatus
          else if payingOutputs payment outs = 1 then .Valid else .DoublePayment) ∧
      Later b (checkOutputs payment nBlockHeight transactionStatus b outs).2 ∧
      (payingOutputs payment outs ≠ 0 →
        (checkOutputs payment nBlockHeight transactionStatus b outs).2.Paid
          payment.nProposalHash) := by
  induction outs with
  | nil => exact ⟨rfl, Later.refl b, fun h => absurd rfl h⟩
  | cons out rest ih =>
    rw [checkOutputs]
    by_cases hmatch : payment.matchesOut out = true
    · obtain ⟨hask, hlater, hnow⟩ := isPaidAlready_spec b payment.nProposalHash hcycle
      have hfirst : (b.isPaidAlready payment.nProposalHash nBlockHeight).1 = false := by
        simpa using fun h => hunpaid (hask.mp h)
      have hcycle' := (hlater.inCycle_eq nBlockHeight).trans hcycle
      obtain ⟨hstatus, hrest⟩ := checkOutputs_paid rest .Valid hcycle' hnow
      rw [if_pos hmatch]
      simp only [hfirst, Bool.false_eq_true, if_false, hstatus, payingOutputs, List.countP_cons,
        hmatch, if_true]
      refine ⟨?_, hlater.trans hrest, fun _ => hrest.paid _ hnow⟩
      by_cases hzero : rest.countP payment.matchesOut = 0
      · simp [hzero]
      · simp [hzero]
    · rw [if_neg hmatch]
      simp only [payingOutputs, List.countP_cons, hmatch]
      exact ih

/-- The budget has a payment for this height that the transaction makes with exactly one output
and that the history does not know yet. -/
def FirstPayment (txNew : CTransaction) (nBlockHeight : Int) (b : CFinalizedBudget) : Prop :=
  ∃ payment, b.scheduledPayment nBlockHeight = some payment ∧
    payingOutputs payment txNew.vout = 1 ∧ ¬b.Paid payment.nProposalHash

instance (txNew : CTransaction) (nBlockHeight : Int) (b : CFinalizedBudget) :
    Decidable (FirstPayment txNew nBlockHeight b) := by
  unfold FirstPayment
  cases b.scheduledPayment nBlockHeight with
  | none => exact isFalse (by simp)
  | some payment =>
    exact decidable_of_iff
      (payingOutputs payment txNew.vout = 1 ∧ ¬b.Paid payment.nProposalHash) (by simp)

/-- What a budget answers when it is not paid for the first time. -/
def settledStatus (txNew : CTransaction) (nBlockHeight : Int) (b : CFinalizedBudget) :
    TrxValidationStatus :=
  match b.scheduledPayment nBlockHeight with
  | none => .InValid
  | some payment => if payingOutputs payment txNew.vout = 0 then .InValid else .DoublePayment

theorem settledStatus_ne_valid (txNew : CTransaction) (nBlockHeight : Int)
    (b : CFinalizedBudget) : settledStatus txNew nBlockHeight b ≠ .Valid := by
  unfold settledStatus
  split
  · simp
  · split_ifs <;> simp

theorem Later.settledStatus_eq {b b' : CFinalizedBudget} (h : Later b b') (txNew : CTransaction)
    (nBlockHeight : Int) :
    settledStatus txNew nBlockHeight b' = settledStatus txNew nBlockHeight b := by
  unfold settledStatus
  rw [h.scheduledPayment_eq]

theorem Later.firstPayment {b b' : CFinalizedBudget} (h : Later b b') {txNew : CTransaction}
    {nBlockHeight : Int} (hfirst : FirstPayment txNew nBlockHeight b') :
    FirstPayment txNew nBlockHeight b := by
  obtain ⟨payment, hpayment, hone, hunpaid⟩ := hfirst
  rw [h.scheduledPayment_eq] at hpayment
  exact ⟨payment, hpayment, hone, fun hpaid => hunpaid (h.paid _ hpaid)⟩

theorem inCycle_of_scheduledPayment {b : CFinalizedBudget} {nBlockHeight : Int}
    {payment : CTxBudgetPayment} (h : b.scheduledPayment nBlockHeight = some payment) :
    b.inCycle nBlockHeight = true := by
  unfold scheduledPayment at h
  dsimp only at h
  split_ifs at h with hbefore hafter
  unfold getBlockStart at hbefore hafter
  unfold inCycle
  rw [Bool.and_eq_true, decide_eq_true_eq, decide_eq_true_eq]
  unfold getBlockEnd getBlockStart
  omega

/-- What one budget answers, and what asking it leaves behind. -/
theorem isTransactionValid_spec (b : CFinalizedBudget) (txNew : CTransaction)
    (nBlockHeight : Int) :
    (b.isTransactionValid txNew nBlockHeight).1 =
        (if FirstPayment txNew nBlockHeight b then .Valid
          else settledStatus txNew nBlockHeight b) ∧
      Later b (b.isTransactionValid txNew nBlockHeight).2 ∧
      ¬FirstPayment txNew nBlockHeight (b.isTransactionValid txNew nBlockHeight).2 := by
  unfold isTransactionValid
  cases hpayment : b.scheduledPayment nBlockHeight with
  | none =>
    have hnot : ¬FirstPayment txNew nBlockHeight b := by
      rintro ⟨payment, hsome, -⟩
      rw [hpayment] at hsome
      exact absurd hsome (by simp)
    dsimp only
    rw [if_neg hnot, settledStatus, hpayment]
    exact ⟨rfl, Later.refl b, hnot⟩
  | some payment =>
    have hcycle := inCycle_of_scheduledPayment hpayment
    have hfirst : FirstPayment txNew nBlockHeight b ↔
        payingOutputs payment txNew.vout = 1 ∧ ¬b.Paid payment.nProposalHash := by
      simp [FirstPayment, hpayment]
    dsimp only
    rw [settledStatus, hpayment]
    dsimp only
    by_cases hpaid : b.Paid payment.nProposalHash
    · obtain ⟨hstatus, hlater⟩ := checkOutputs_paid txNew.vout .InValid hcycle hpaid
      have hnot : ¬FirstPayment txNew nBlockHeight b := fun h => (hfirst.mp h).2 hpaid
      rw [if_neg hnot]
      exact ⟨hstatus, hlater, fun h => hnot (hlater.firstPayment h)⟩
    · obtain ⟨hstatus, hlater, hnow⟩ := checkOutputs_unpaid txNew.vout .InValid hcycle hpaid
      refine ⟨?_, hlater, ?_⟩
      · rw [hstatus]
        by_cases hone : payingOutputs payment txNew.vout = 1
        · rw [if_pos (hfirst.mpr ⟨hone, hpaid⟩), if_neg (by omega), if_pos hone]
        · rw [if_neg (fun h => hone (hfirst.mp h).1), if_neg hone]
      · intro hstill
        obtain ⟨payment', hpayment', hone, hunpaid⟩ := hstill
        rw [hlater.scheduledPayment_eq, hpayment] at hpayment'
        obtain rfl := Option.some.inj hpayment'
        exact hunpaid (hnow (by omega))

end CFinalizedBudget

namespace CBudgetManager
open CFinalizedBudget

/-- The budget is asked about this height: it is over the threshold and in its cycle. -/
def asked (nCountThreshold nBlockHeight : Int) (b : CFinalizedBudget) : Bool :=
  decide (b.nVoteCount > nCountThreshold) && b.inCycle nBlockHeight

/-- The number of budgets the transaction would pay for the first time. -/
def pending (nCountThreshold : Int) (txNew : CTransaction) (nBlockHeight : Int)
    (budgets : List CFinalizedBudget) : Nat :=
  budgets.countP fun b =>
    asked nCountThreshold nBlockHeight b && decide (FirstPayment txNew nBlockHeight b)

/-- What the last budget asked answers when none is paid for the first time. -/
def lastStatus (nCountThreshold : Int) (txNew : CTransaction) (nBlockHeight : Int) :
    TrxValidationStatus → List CFinalizedBudget → TrxValidationStatus
  | transactionStatus, [] => transactionStatus
  | transactionStatus, b :: rest =>
    lastStatus nCountThreshold txNew nBlockHeight
      (if asked nCountThreshold nBlockHeight b then settledStatus txNew nBlockHeight b
        else transactionStatus) rest

section budgets
variable {nCountThreshold : Int} {txNew : CTransaction} {nBlockHeight : Int}
  {budgets budgets' : List CFinalizedBudget}

theorem asked_later {b b' : CFinalizedBudget} (h : Later b b') :
    asked nCountThreshold nBlockHeight b' = asked nCountThreshold nBlockHeight b := by
  unfold asked
  rw [h.votes_eq, h.inCycle_eq]

theorem pending_cons_of_not {b : CFinalizedBudget}
    (h : (asked nCountThreshold nBlockHeight b && decide (FirstPayment txNew nBlockHeight b)) =
      false) : pending nCountThreshold txNew nBlockHeight (b :: budgets) =
        pending nCountThreshold txNew nBlockHeight budgets := by
  unfold pending
  rw [List.countP_cons, h]
  rfl

theorem pending_cons_of_first {b : CFinalizedBudget}
    (hasked : asked nCountThreshold nBlockHeight b = true)
    (hfirst : FirstPayment txNew nBlockHeight b) :
    pending nCountThreshold txNew nBlockHeight (b :: budgets) =
      pending nCountThreshold txNew nBlockHeight budgets + 1 := by
  unfold pending
  rw [List.countP_cons, hasked, decide_eq_true hfirst]
  rfl

theorem pending_later (h : List.Forall₂ Later budgets budgets') :
    pending nCountThreshold txNew nBlockHeight budgets' ≤
      pending nCountThreshold txNew nBlockHeight budgets := by
  induction h with
  | nil => exact le_refl _
  | cons hb hrest ih =>
    rename_i b b' rest rest'
    unfold pending at ih ⊢
    rw [List.countP_cons, List.countP_cons, asked_later hb]
    have himp : FirstPayment txNew nBlockHeight b' → FirstPayment txNew nBlockHeight b :=
      hb.firstPayment
    by_cases hfirst : FirstPayment txNew nBlockHeight b'
    · simp only [hfirst, himp hfirst]
      omega
    · simp only [hfirst, decide_false, Bool.and_false, Bool.false_eq_true, if_false]
      omega

theorem lastStatus_later (h : List.Forall₂ Later budgets budgets')
    (transactionStatus : TrxValidationStatus) :
    lastStatus nCountThreshold txNew nBlockHeight transactionStatus budgets' =
      lastStatus nCountThreshold txNew nBlockHeight transactionStatus budgets := by
  induction h generalizing transactionStatus with
  | nil => rfl
  | cons hb hrest ih =>
    rw [lastStatus, lastStatus, asked_later hb, hb.settledStatus_eq]
    exact ih _

theorem lastStatus_ne_valid {transactionStatus : TrxValidationStatus}
    (h : transactionStatus ≠ .Valid) :
    lastStatus nCountThreshold txNew nBlockHeight transactionStatus budgets ≠ .Valid := by
  induction budgets generalizing transactionStatus with
  | nil => exact h
  | cons b rest ih =>
    rw [lastStatus]
    apply ih
    split_ifs
    · exact settledStatus_ne_valid txNew nBlockHeight b
    · exact h

theorem forall₂_refl (budgets : List CFinalizedBudget) : List.Forall₂ Later budgets budgets :=
  List.forall₂_same.mpr fun b _ => Later.refl b

/-- The loop stops at the first budget that is paid for the first time, and leaves one fewer of
them; without one it ends with the last answer. -/
theorem checkBudgets_spec (budgets : List CFinalizedBudget)
    (transactionStatus : TrxValidationStatus) (fThreshold : Bool) :
    let result := checkBudgets nCountThreshold txNew nBlockHeight transactionStatus fThreshold
      budgets
    List.Forall₂ Later budgets result.2.2 ∧
      (0 < pending nCountThreshold txNew nBlockHeight budgets →
        result.1 = .Valid ∧ result.2.1 = true ∧
          pending nCountThreshold txNew nBlockHeight result.2.2 <
            pending nCountThreshold txNew nBlockHeight budgets) ∧
      (pending nCountThreshold txNew nBlockHeight budgets = 0 →
        result.1 = lastStatus nCountThreshold txNew nBlockHeight transactionStatus budgets ∧
          result.2.1 = (fThreshold || budgets.any fun b => decide (b.nVoteCount > nCountThreshold)))
    := by
  induction budgets generalizing transactionStatus fThreshold with
  | nil =>
    refine ⟨List.Forall₂.nil, fun h => absurd h (by simp [pending]), fun _ => ⟨rfl, ?_⟩⟩
    simp [checkBudgets]
  | cons b rest ih =>
    rw [checkBudgets]
    by_cases hvotes : b.nVoteCount > nCountThreshold
    · rw [if_pos hvotes]
      by_cases hcycle : b.inCycle nBlockHeight = true
      · have hasked : asked nCountThreshold nBlockHeight b = true := by
          simp [asked, hvotes, hcycle]
        obtain ⟨hstatus, hlater, hdone⟩ := b.isTransactionValid_spec txNew nBlockHeight
        have hdone' : (asked nCountThreshold nBlockHeight
            (b.isTransactionValid txNew nBlockHeight).2 && decide (FirstPayment txNew nBlockHeight
              (b.isTransactionValid txNew nBlockHeight).2)) = false := by
          simp [hdone]
        rw [if_pos hcycle]
        by_cases hfirst : FirstPayment txNew nBlockHeight b
        · rw [if_pos hfirst] at hstatus
          dsimp only
          rw [if_pos hstatus]
          rw [pending_cons_of_first hasked hfirst, pending_cons_of_not hdone']
          exact ⟨List.Forall₂.cons hlater (forall₂_refl rest),
            fun _ => ⟨rfl, rfl, Nat.lt_succ_self _⟩, fun h => absurd h (Nat.succ_ne_zero _)⟩
        · rw [if_neg hfirst] at hstatus
          dsimp only
          rw [if_neg (by rw [hstatus]; exact settledStatus_ne_valid txNew nBlockHeight b), hstatus]
          obtain ⟨hrest, hsome, hnone⟩ := ih (settledStatus txNew nBlockHeight b) true
          rw [pending_cons_of_not (by simp [hfirst]), pending_cons_of_not hdone', lastStatus,
            if_pos hasked]
          refine ⟨List.Forall₂.cons hlater hrest, hsome, fun h => ⟨(hnone h).1, ?_⟩⟩
          rw [(hnone h).2]
          simp [hvotes]
      · have hasked : asked nCountThreshold nBlockHeight b = false := by
          simp [asked, hcycle]
        obtain ⟨hrest, hsome, hnone⟩ := ih transactionStatus true
        rw [if_neg hcycle]
        dsimp only
        rw [pending_cons_of_not (by simp [hasked]), pending_cons_of_not (by simp [hasked]),
          lastStatus, hasked]
        refine ⟨List.Forall₂.cons (Later.refl b) hrest, hsome, fun h => ⟨(hnone h).1, ?_⟩⟩
        rw [(hnone h).2]
        simp [hvotes]
    · have hasked : asked nCountThreshold nBlockHeight b = false := by
        simp [asked, hvotes]
      obtain ⟨hrest, hsome, hnone⟩ := ih transactionStatus fThreshold
      rw [if_neg hvotes]
      dsimp only
      rw [pending_cons_of_not (by simp [hasked]), pending_cons_of_not (by simp [hasked]),
        lastStatus, hasked]
      refine ⟨List.Forall₂.cons (Later.refl b) hrest, hsome, fun h => ⟨(hnone h).1, ?_⟩⟩
      rw [(hnone h).2]
      simp [hvotes]

theorem highestCount_later (h : List.Forall₂ Later budgets budgets') (nHighestCount : Int) :
    highestCount nBlockHeight nHighestCount budgets' =
      highestCount nBlockHeight nHighestCount budgets := by
  induction h generalizing nHighestCount with
  | nil => rfl
  | cons hb hrest ih =>
    rw [highestCount, highestCount, hb.votes_eq, hb.inCycle_eq]
    exact ih _

theorem highestCount_mono {m n : Int} (h : m ≤ n) :
    highestCount nBlockHeight m budgets ≤ highestCount nBlockHeight n budgets := by
  induction budgets generalizing m n with
  | nil => exact h
  | cons b rest ih =>
    rw [highestCount, highestCount]
    apply ih
    cases b.inCycle nBlockHeight with
    | false => simpa using h
    | true =>
      simp only [Bool.and_true, decide_eq_true_eq]
      split_ifs <;> omega

theorem any_votes_later (h : List.Forall₂ Later budgets budgets') :
    (budgets'.any fun b => decide (b.nVoteCount > nCountThreshold)) =
      budgets.any fun b => decide (b.nVoteCount > nCountThreshold) := by
  induction h with
  | nil => rfl
  | cons hb hrest ih => rw [List.any_cons, List.any_cons, hb.votes_eq, ih]

end budgets
end CBudgetManager
end Lytix
