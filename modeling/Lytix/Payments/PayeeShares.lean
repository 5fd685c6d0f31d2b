import Lytix.Payments.NodePayments

/-! The shares of a block that the payees get, in percent of its value, and the outputs that are
left to the staker or the miner. -/
namespace Lytix

open Binary64 (mulTrunc)

/-- Every value that the schedule gives a block. -/
def rewards : List Int :=
  [643000, 500000, 10000, 100, 30, 15, 10, 7, 5, 3, 1].map (· * COIN)

theorem ite_mem_rewards {p : Prop} [Decidable p] {v w : Int} (hv : v ∈ rewards)
    (hw : w ∈ rewards) : (if p then v else w) ∈ rewards := by
  split_ifs
  · exact hv
  · exact hw

theorem testNetBlockValue_mem_rewards (nHeight : Int) : testNetBlockValue nHeight ∈ rewards := by
  unfold testNetBlockValue
  repeat' apply ite_mem_rewards
  all_goals decide

theorem mainBlockValue_mem_rewards (lastPow nHeight : Int) :
    mainBlockValue lastPow nHeight ∈ rewards := by
  unfold mainBlockValue
  repeat' apply ite_mem_rewards
  all_goals decide

theorem getBlockValue_mem_rewards (network : Network) (nHeight : Int) :
    getBlockValue network nHeight ∈ rewards := by
  unfold getBlockValue
  split_ifs
  · exact testNetBlockValue_mem_rewards nHeight
  · exact mainBlockValue_mem_rewards _ nHeight

/-- The rounded product of a reward and a share is exact. -/
theorem hundred_mul_mulTrunc : ∀ blockValue ∈ rewards,
    100 * mulTrunc blockValue double_0_05 = blockValue * 5 ∧
      100 * mulTrunc blockValue double_0_2 = blockValue * 20 ∧
      100 * mulTrunc blockValue double_0_3 = blockValue * 30 ∧
      100 * mulTrunc blockValue double_0_4 = blockValue * 40 ∧
      100 * mulTrunc blockValue double_0_6 = blockValue * 60 := by
  decide

section
variable (network : Network) (sporks : Sporks) (nHeight : Int)

def devFeePercent : Int :=
  if isSporkActive sporks .SPORK_20_DEVFEE then if nHeight ≤ 49 then 0 else 5 else 0

def maxnodePercent : Int :=
  if network = .testnet then if nHeight ≤ 50 then 0 else 60
  else if isSporkActive sporks .SPORK_19_MAXNODE_ACTIVATION then
    if nHeight ≤ 515000 then 30 else 60
  else 0

def masternodePercent : Int :=
  if sharesFromStart network sporks then if nHeight ≤ 515000 then 40 else 20
  else if nHeight ≤ 499 then 0 else 20

/-- The heights at which the shares are more than the block. -/
def Overpaid : Prop :=
  network = .testnet ∧ isSporkActive sporks .SPORK_20_DEVFEE = true ∧ 50 < nHeight ∧
    nHeight ≤ 515000

/-- The three amounts are no less than zero and together no more than the block value. -/
structure AmountsFit (blockValue : Int) : Prop where
  masternode : 0 ≤ getMasternodePayment network sporks nHeight blockValue
  maxnode : 0 ≤ getMaxnodePayment network sporks nHeight blockValue
  dev : 0 ≤ getDevFeePayment sporks nHeight blockValue
  total : getMasternodePayment network sporks nHeight blockValue +
    getMaxnodePayment network sporks nHeight blockValue +
      getDevFeePayment sporks nHeight blockValue ≤ blockValue

variable {network sporks nHeight} {blockValue : Int}

theorem hundred_mul_getDevFeePayment (h : blockValue ∈ rewards) :
    100 * getDevFeePayment sporks nHeight blockValue =
      blockValue * devFeePercent sporks nHeight := by
  obtain ⟨hfive, -⟩ := hundred_mul_mulTrunc blockValue h
  unfold getDevFeePayment devFeePercent
  split_ifs
  · simp
  · exact hfive
  · simp

theorem hundred_mul_getMaxnodePayment (h : blockValue ∈ rewards) :
    100 * getMaxnodePayment network sporks nHeight blockValue =
      blockValue * maxnodePercent network sporks nHeight := by
  obtain ⟨-, -, hthirty, -, hsixty⟩ := hundred_mul_mulTrunc blockValue h
  unfold getMaxnodePayment maxnodePercent
  rw [networkID_eq]
  split_ifs
  · simp
  · exact hsixty
  · exact hthirty
  · exact hsixty
  · simp

theorem hundred_mul_getMasternodePayment (h : blockValue ∈ rewards) :
    100 * getMasternodePayment network sporks nHeight blockValue =
      blockValue * masternodePercent network sporks nHeight := by
  obtain ⟨-, htwenty, -, hforty, -⟩ := hundred_mul_mulTrunc blockValue h
  unfold masternodePercent
  by_cases hshares : sharesFromStart network sporks
  · rw [getMasternodePayment_of_shares network sporks hshares, if_pos hshares]
    split_ifs
    · exact hforty
    · exact htwenty
  · rw [getMasternodePayment_of_not_shares network sporks hshares, if_neg hshares]
    split_ifs
    · simp
    · exact htwenty

theorem percents_nonneg : 0 ≤ masternodePercent network sporks nHeight ∧
    0 ≤ maxnodePercent network sporks nHeight ∧ 0 ≤ devFeePercent sporks nHeight := by
  unfold masternodePercent maxnodePercent devFeePercent
  refine ⟨?_, ?_, ?_⟩
  all_goals split_ifs <;> decide

/-- Only the developers' share on the test network makes the shares more than the block. -/
theorem percents_le_iff : masternodePercent network sporks nHeight +
    maxnodePercent network sporks nHeight + devFeePercent sporks nHeight ≤ 100 ↔
      ¬ Overpaid network sporks nHeight := by
  unfold Overpaid
  by_cases hnet : network = .testnet
  · have hshares : sharesFromStart network sporks := Or.inl hnet
    unfold masternodePercent maxnodePercent devFeePercent
    rw [if_pos hshares, if_pos hnet]
    by_cases hdev : isSporkActive sporks .SPORK_20_DEVFEE = true
    · rw [if_pos hdev]
      simp only [hnet, hdev, true_and]
      split_ifs <;> omega
    · have hnot : ¬ (network = .testnet ∧ isSporkActive sporks .SPORK_20_DEVFEE = true ∧
          50 < nHeight ∧ nHeight ≤ 515000) := fun h => hdev h.2.1
      rw [if_neg hdev]
      simp only [hnot, not_false_eq_true, iff_true]
      split_ifs <;> omega
  · simp only [hnet, false_and, not_false_eq_true, iff_true]
    unfold masternodePercent maxnodePercent devFeePercent
    rw [if_neg hnet]
    split_ifs <;> omega

theorem amountsFit_iff (h : blockValue ∈ rewards) :
    AmountsFit network sporks nHeight blockValue ↔ ¬ Overpaid network sporks nHeight := by
  have hpos : ∀ blockValue ∈ rewards, 0 < blockValue := by decide
  have hpos := hpos blockValue h
  obtain ⟨hmaster, hmax, hdev⟩ := @percents_nonneg network sporks nHeight
  have hmasterAmount := @hundred_mul_getMasternodePayment network sporks nHeight blockValue h
  have hmaxAmount := @hundred_mul_getMaxnodePayment network sporks nHeight blockValue h
  have hdevAmount := @hundred_mul_getDevFeePayment sporks nHeight blockValue h
  have hmasterShare := mul_nonneg hpos.le hmaster
  have hmaxShare := mul_nonneg hpos.le hmax
  have hdevShare := mul_nonneg hpos.le hdev
  rw [← percents_le_iff, ← mul_le_mul_iff_right₀ hpos, mul_add, mul_add]
  constructor
  · intro hfit
    have htotal := hfit.total
    omega
  · intro htotal
    exact ⟨by omega, by omega, by omega, by omega⟩

end

/-! The outputs that a filler writes. -/

/-- The first payee, if the filler has everybody it pays. -/
def PayeeFiller.firstPayee (tables : PayeeTables) (nPrevHeight : Int) :
    PayeeFiller → Option Script
  | .FillBlockPayee => tables.masternodePayee (nPrevHeight + 1)
  | .FillMaxBlockPayee =>
    if (tables.masternodePayee (nPrevHeight + 1)).isSome then
      tables.maxnodePayee (nPrevHeight + 1)
    else none

/-- What the filler pays out of a block, in percent. -/
def PayeeFiller.percent (network : Network) (sporks : Sporks) (nHeight : Int) : PayeeFiller → Int
  | .FillBlockPayee => masternodePercent network sporks nHeight
  | .FillMaxBlockPayee => masternodePercent network sporks nHeight +
      maxnodePercent network sporks nHeight + devFeePercent sporks nHeight

/-- The last output of a coinstake holds what the filler takes from it. -/
def PayeeFiller.StakeCovers (network : Network) (sporks : Sporks) (tables : PayeeTables)
    (nPrevHeight : Int) (vout : List CTxOut) (filler : PayeeFiller) : Prop :=
  ∀ payee last, filler.firstPayee tables nPrevHeight = some payee → vout.getLast? = some last →
    (vout ++ [payTo payee 0])[1]?.any CTxOut.isZerocoinMint = false →
    getBlockValue network nPrevHeight * filler.percent network sporks nPrevHeight ≤
      100 * last.nValue

/-- The amounts fit in the block value, and no output of the filled template is negative. -/
structure PayeesFit (network : Network) (sporks : Sporks) (tables : PayeeTables)
    (nPrevHeight : Int) (fProofOfStake : Bool) (vout : List CTxOut) (filler : PayeeFiller) :
    Prop where
  amounts : AmountsFit network sporks nPrevHeight (getBlockValue network nPrevHeight)
  outputs : ∀ filled, filler.fill network sporks tables nPrevHeight fProofOfStake vout =
    some filled → ∀ out ∈ filled, 0 ≤ out.nValue

section
variable {network : Network} {sporks : Sporks} {tables : PayeeTables} {nPrevHeight : Int}
  {fProofOfStake : Bool} {vout : List CTxOut} {filler : PayeeFiller}

theorem modify_append_cons {α : Type*} (f : α → α) (before : List α) (a : α) (after : List α) :
    (before ++ a :: after).modify before.length f = before ++ f a :: after := by
  induction before with
  | nil => rfl
  | cons b before ih => simp [ih]

/-- Payees are paid from the last output of the stake, unless the stake mints. -/
theorem takeFromStake_nonneg_iff {paid : List CTxOut} {amount : Int}
    (hvout : ∀ out ∈ vout, 0 ≤ out.nValue) (hpaid : ∀ out ∈ paid, 0 ≤ out.nValue) :
    (∀ filled, takeFromStake (vout ++ paid) vout.length amount = some filled →
        ∀ out ∈ filled, 0 ≤ out.nValue) ↔
      ∀ last, vout.getLast? = some last →
        (vout ++ paid)[1]?.any CTxOut.isZerocoinMint = false → amount ≤ last.nValue := by
  rcases List.eq_nil_or_concat vout with rfl | ⟨before, last, rfl⟩
  · simp [takeFromStake]
  have hall : ∀ out ∈ before.concat last ++ paid, 0 ≤ out.nValue := by
    intro out hout
    rcases List.mem_append.mp hout with hstake | hpayee
    · exact hvout out hstake
    · exact hpaid out hpayee
  rw [List.concat_eq_append] at hall ⊢
  rw [List.length_append, List.length_singleton, takeFromStake, List.getLast?_concat]
  cases hmint : (before ++ [last] ++ paid)[1]?.any CTxOut.isZerocoinMint with
  | true =>
    rw [if_pos rfl]
    refine iff_of_true (fun filled hfilled => ?_) (fun _ _ hnone => absurd hnone (by decide))
    rw [← Option.some.inj hfilled]
    exact hall
  | false =>
    rw [if_neg Bool.false_ne_true, List.append_assoc, List.singleton_append, modify_append_cons]
    constructor
    · intro h last' hlast _
      have hlower := h _ rfl { last with nValue := last.nValue - amount } (by simp)
      rw [← Option.some.inj hlast]
      dsimp only at hlower
      omega
    · intro h filled hfilled out hout
      have hcovers := h last rfl rfl
      rw [← Option.some.inj hfilled] at hout
      rcases List.mem_append.mp hout with hbefore | hrest
      · exact hall out (by simp [hbefore])
      · rcases List.mem_cons.mp hrest with rfl | hpayee
        · dsimp only
          omega
        · exact hpaid out hpayee

/-- Whether the second output mints does not depend on what the payees get. -/
theorem any_isZerocoinMint_congr {payee : Script} {nValue : Int} {rest : List CTxOut}
    (hvout : vout ≠ []) :
    (vout ++ payTo payee nValue :: rest)[1]?.any CTxOut.isZerocoinMint =
      (vout ++ [payTo payee 0])[1]?.any CTxOut.isZerocoinMint := by
  match vout, hvout with
  | [_], _ => rfl
  | _ :: _ :: _, _ => rfl

theorem getLast?_ne_nil {last : CTxOut} (h : vout.getLast? = some last) : vout ≠ [] := by
  intro hnil
  rw [hnil] at h
  contradiction

theorem stakeCovers_iff {payee : Script} {nValue amount : Int} {rest : List CTxOut}
    (hpayee : filler.firstPayee tables nPrevHeight = some payee)
    (hamount : 100 * amount =
      getBlockValue network nPrevHeight * filler.percent network sporks nPrevHeight) :
    filler.StakeCovers network sporks tables nPrevHeight vout ↔
      ∀ last, vout.getLast? = some last →
        (vout ++ payTo payee nValue :: rest)[1]?.any CTxOut.isZerocoinMint = false →
          amount ≤ last.nValue := by
  unfold PayeeFiller.StakeCovers
  constructor
  · intro h last hlast hmint
    rw [any_isZerocoinMint_congr (getLast?_ne_nil hlast)] at hmint
    have hcovers := h payee last hpayee hlast hmint
    omega
  · intro h payee' last hpayee' hlast hmint
    obtain rfl : payee = payee' := Option.some.inj (hpayee.symm.trans hpayee')
    rw [← any_isZerocoinMint_congr (getLast?_ne_nil hlast)] at hmint
    have hcovers := h last hlast hmint
    omega

/-- A resized template has the outputs that the filler sets. -/
theorem length_resizeVout (n : Nat) : (resizeVout vout n).length = n := by
  unfold resizeVout
  rw [List.length_append, List.length_take, List.length_replicate]
  omega

/-- Where nobody is paid the template stays as it is. -/
theorem fill_of_firstPayee_none (h : filler.firstPayee tables nPrevHeight = none) :
    filler.fill network sporks tables nPrevHeight fProofOfStake vout = some vout := by
  cases filler with
  | FillBlockPayee =>
    have hmaster : tables.masternodePayee (nPrevHeight + 1) = none := h
    unfold PayeeFiller.fill fillBlockPayee
    rw [hmaster]
  | FillMaxBlockPayee =>
    unfold PayeeFiller.firstPayee at h
    unfold PayeeFiller.fill fillMaxBlockPayee
    dsimp only at h ⊢
    cases hmaster : tables.masternodePayee (nPrevHeight + 1) with
    | none =>
      cases tables.maxnodePayee (nPrevHeight + 1) with
      | none => rfl
      | some payee => rfl
    | some payee2 =>
      rw [hmaster] at h
      have hmax : tables.maxnodePayee (nPrevHeight + 1) = none := h
      rw [hmax]

/-- When no output of the filled template is negative. -/
theorem outputs_iff (hfit : AmountsFit network sporks nPrevHeight (getBlockValue network nPrevHeight))
    (hvout : ∀ out ∈ vout, 0 ≤ out.nValue) :
    (∀ filled, filler.fill network sporks tables nPrevHeight fProofOfStake vout = some filled →
        ∀ out ∈ filled, 0 ≤ out.nValue) ↔
      (fProofOfStake = true → filler.StakeCovers network sporks tables nPrevHeight vout) := by
  obtain ⟨hmaster, hmax, hdev, htotal⟩ := hfit
  have hreward := getBlockValue_mem_rewards network nPrevHeight
  have hmasterAmount := @hundred_mul_getMasternodePayment network sporks nPrevHeight _ hreward
  have hmaxAmount := @hundred_mul_getMaxnodePayment network sporks nPrevHeight _ hreward
  have hdevAmount := @hundred_mul_getDevFeePayment sporks nPrevHeight _ hreward
  cases hpayee : filler.firstPayee tables nPrevHeight with
  | none =>
    rw [fill_of_firstPayee_none hpayee]
    refine iff_of_true (fun filled hfilled => ?_) (fun _ payee last hsome => ?_)
    · rw [← Option.some.inj hfilled]
      exact hvout
    · rw [hpayee] at hsome
      contradiction
  | some payee =>
    cases filler with
    | FillBlockPayee =>
      have hpayee' : tables.masternodePayee (nPrevHeight + 1) = some payee := hpayee
      unfold PayeeFiller.fill fillBlockPayee
      rw [hpayee']
      dsimp only
      cases fProofOfStake with
      | true =>
        rw [if_pos rfl, takeFromStake_nonneg_iff hvout (by simpa [payTo] using hmaster)]
        simp only [true_imp_iff]
        exact (stakeCovers_iff hpayee hmasterAmount).symm
      | false =>
        refine iff_of_true (fun filled hfilled => ?_) (fun h => absurd h (by decide))
        rw [if_neg Bool.false_ne_true] at hfilled
        obtain ⟨out₀, out₁, hresize⟩ := List.length_eq_two.mp (@length_resizeVout vout 2)
        rw [hresize] at hfilled
        rw [← Option.some.inj hfilled]
        simp only [List.forall_mem_cons, payTo]
        exact ⟨by omega, hmaster, by simp⟩
    | FillMaxBlockPayee =>
      obtain ⟨payee2, hpayee2, hpayee1⟩ : ∃ payee2,
          tables.masternodePayee (nPrevHeight + 1) = some payee2 ∧
            tables.maxnodePayee (nPrevHeight + 1) = some payee := by
        unfold PayeeFiller.firstPayee at hpayee
        dsimp only at hpayee
        split_ifs at hpayee with hsome
        obtain ⟨payee2, hpayee2⟩ := Option.isSome_iff_exists.mp hsome
        exact ⟨payee2, hpayee2, hpayee⟩
      unfold PayeeFiller.fill fillMaxBlockPayee
      rw [hpayee1, hpayee2]
      dsimp only
      cases fProofOfStake with
      | true =>
        rw [if_pos rfl, takeFromStake_nonneg_iff hvout (by simp [payTo, hmax, hdev, hmaster])]
        simp only [true_imp_iff]
        refine (stakeCovers_iff hpayee ?_).symm
        rw [mul_add, mul_add, hmasterAmount, hmaxAmount, hdevAmount]
        unfold PayeeFiller.percent
        ring
      | false =>
        refine iff_of_true (fun filled hfilled => ?_) (fun h => absurd h (by decide))
        rw [if_neg Bool.false_ne_true] at hfilled
        obtain ⟨out₀, out₁, out₂, out₃, hresize⟩ : ∃ out₀ out₁ out₂ out₃,
            resizeVout vout 4 = [out₀, out₁, out₂, out₃] := by
          have hlength := @length_resizeVout vout 4
          obtain ⟨out₀, rest, hfirst⟩ := List.exists_cons_of_length_eq_add_one hlength
          have hrest : rest.length = 3 := by simpa [hfirst] using hlength
          obtain ⟨out₁, out₂, out₃, rfl⟩ := List.length_eq_three.mp hrest
          exact ⟨out₀, out₁, out₂, out₃, hfirst⟩
        rw [hresize] at hfilled
        rw [← Option.some.inj hfilled]
        simp only [List.forall_mem_cons, payTo]
        exact ⟨by omega, hmax, hmaster, hdev, by simp⟩

/-- The payments fit exactly where the shares are no more than the block, and a coinstake's last
output holds what is taken from it. -/
theorem payeesFit_iff (hvout : ∀ out ∈ vout, 0 ≤ out.nValue) :
    PayeesFit network sporks tables nPrevHeight fProofOfStake vout filler ↔
      ¬ Overpaid network sporks nPrevHeight ∧
        (fProofOfStake = true → filler.StakeCovers network sporks tables nPrevHeight vout) := by
  have hamounts := @amountsFit_iff network sporks nPrevHeight _
    (getBlockValue_mem_rewards network nPrevHeight)
  constructor
  · intro hfit
    exact ⟨hamounts.mp hfit.amounts, (outputs_iff hfit.amounts hvout).mp hfit.outputs⟩
  · rintro ⟨hshares, hcovers⟩
    have hfit := hamounts.mpr hshares
    exact ⟨hfit, (outputs_iff hfit hvout).mpr hcovers⟩

end

/-- Every spork is active. -/
def activeSporks : Sporks := ⟨fun _ => some 0, 1⟩

/-- Sixty, forty and five percent at height 100 of the test network. -/
theorem not_payeesFit_testnet :
    ¬ PayeesFit .testnet activeSporks (wonTables 101) 100 false [⟨0, [2], -10⟩]
      .FillMaxBlockPayee := by
  intro hfit
  have htotal := hfit.amounts.total
  revert htotal
  decide

theorem payeesFit_iff_stakeTemplate :
    PayeesFit .main quietSporks (wonTables 101) 100 true stakeTemplate .FillMaxBlockPayee ↔
      ¬ Overpaid .main quietSporks 100 ∧
        (true = true → PayeeFiller.StakeCovers .main quietSporks (wonTables 101) 100
          stakeTemplate .FillMaxBlockPayee) :=
  payeesFit_iff (by decide)

end Lytix
