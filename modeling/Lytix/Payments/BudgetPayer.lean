import Lytix.Payments.PayeeRepeat
import Mathlib.Data.List.MinMax

/-! The budget payment that a template gets (`CBudgetManager::FillBlockPayee`), and whether the
check of the block accepts it. -/
namespace Lytix
namespace CBudgetManager
open CFinalizedBudget

/-- What the loop of `FillBlockPayee` carries along: the most votes so far, and the payment of the
budget that has them. -/
structure HighestPayment where
  nHighestCount : Int := 0
  payee : Script := []
  nAmount : Int := 0

/-- One budget of the loop, with `GetPayeeAndAmount`. -/
def takePayment (nBlockHeight : Int) (highest : HighestPayment) (b : CFinalizedBudget) :
    HighestPayment :=
  if highest.nHighestCount < b.nVoteCount && b.inCycle nBlockHeight then
    match b.scheduledPayment nBlockHeight with
    | some payment => ⟨b.nVoteCount, payment.payee, payment.nAmount⟩
    | none => highest
  else highest

/-- `FillBlockPayee` on the outputs of the template, over a predecessor at `nPrevHeight`; `none`
where a proof-of-work template has no output. -/
def fillBlockPayee (network : Network) (m : CBudgetManager) (nPrevHeight : Int)
    (fProofOfStake : Bool) (vout : List CTxOut) : Option (List CTxOut) :=
  let highest := m.mapFinalizedBudgets.foldl (takePayment (nPrevHeight + 1)) {}
  let blockValue := getBlockValue network nPrevHeight
  if fProofOfStake then
    if 0 < highest.nHighestCount then some (vout ++ [payTo highest.payee highest.nAmount])
    else some vout
  else
    match vout with
    | [] => none
    | out₀ :: rest =>
      let vout := { out₀ with nValue := blockValue } :: rest
      if 0 < highest.nHighestCount then
        match resizeVout vout 2 with
        | [out₀, out₁] => some [out₀, payTo highest.payee highest.nAmount out₁]
        | _ => none
      else some vout

/-- The first of the budgets around a height that have the most votes. -/
noncomputable def topBudget (m : CBudgetManager) (nBlockHeight : Int) : Option CFinalizedBudget :=
  (m.mapFinalizedBudgets.filter fun b => b.inCycle nBlockHeight).argmax CFinalizedBudget.nVoteCount

/-- What the filled template keeps of the outputs that were there. -/
def keptOutputs (network : Network) (nPrevHeight : Int) (fProofOfStake : Bool)
    (vout : List CTxOut) : List CTxOut :=
  if fProofOfStake then vout
  else (vout.take 1).map fun out => { out with nValue := getBlockValue network nPrevHeight }

/-- The payment of the budget with the most votes, if it has any. -/
def topPayment (nBlockHeight : Int) : Option CFinalizedBudget → HighestPayment
  | none => {}
  | some b =>
    if 0 < b.nVoteCount then
      match b.scheduledPayment nBlockHeight with
      | some payment => ⟨b.nVoteCount, payment.payee, payment.nAmount⟩
      | none => {}
    else {}

section
variable {network : Network} {m : CBudgetManager} {nBlockHeight : Int} {b : CFinalizedBudget}
  {payment : CTxBudgetPayment}

theorem exists_scheduledPayment (h : b.inCycle nBlockHeight = true) :
    ∃ payment, b.scheduledPayment nBlockHeight = some payment := by
  unfold inCycle getBlockEnd getBlockStart at h
  rw [Bool.and_eq_true, decide_eq_true_eq, decide_eq_true_eq] at h
  unfold scheduledPayment getBlockStart
  dsimp only
  rw [if_neg (by omega), if_neg (by omega)]
  have hindex : (nBlockHeight - b.nBlockStart).toNat < b.vecBudgetPayments.length := by omega
  exact ⟨_, List.getElem?_eq_getElem hindex⟩

/-- The loop ends with the payment of the budget with the most votes. -/
theorem foldl_takePayment (budgets : List CFinalizedBudget) :
    budgets.foldl (takePayment nBlockHeight) {} =
      topPayment nBlockHeight
        ((budgets.filter fun b => b.inCycle nBlockHeight).argmax CFinalizedBudget.nVoteCount) := by
  induction budgets using List.reverseRecOn with
  | nil => rfl
  | append_singleton budgets b ih =>
    rw [List.foldl_append, List.foldl_cons, List.foldl_nil, ih, List.filter_append]
    by_cases hcycle : b.inCycle nBlockHeight = true
    swap
    · have hskipped : [b].filter (fun b => b.inCycle nBlockHeight) = [] := by simp [hcycle]
      rw [hskipped, List.append_nil]
      simp [takePayment, hcycle]
    · have hkept : [b].filter (fun b => b.inCycle nBlockHeight) = [b] := by simp [hcycle]
      obtain ⟨payment, hpayment⟩ := exists_scheduledPayment hcycle
      rw [hkept, List.argmax_concat]
      cases hbest : (budgets.filter fun b => b.inCycle nBlockHeight).argmax
          CFinalizedBudget.nVoteCount with
      | none =>
        by_cases hvotes : 0 < b.nVoteCount
        · simp [topPayment, takePayment, hcycle, hvotes, hpayment]
        · simp [topPayment, takePayment, hvotes]
      | some best =>
        have hmem := List.mem_filter.mp (List.argmax_mem hbest)
        obtain ⟨bestPayment, hbestPayment⟩ := exists_scheduledPayment hmem.2
        dsimp only
        by_cases hmore : best.nVoteCount < b.nVoteCount
        · rw [if_pos hmore]
          by_cases hbestVotes : 0 < best.nVoteCount
          · have hvotes : 0 < b.nVoteCount := by omega
            simp [topPayment, takePayment, hcycle, hmore, hbestVotes, hvotes, hpayment,
              hbestPayment]
          · by_cases hvotes : 0 < b.nVoteCount
            · simp [topPayment, takePayment, hcycle, hbestVotes, hvotes, hpayment]
            · simp [topPayment, takePayment, hbestVotes, hvotes]
        · rw [if_neg hmore]
          by_cases hbestVotes : 0 < best.nVoteCount
          · simp [topPayment, takePayment, hmore, hbestVotes, hbestPayment]
          · have hvotes : ¬ 0 < b.nVoteCount := by omega
            simp [topPayment, takePayment, hbestVotes, hvotes]

/-- The count is one that a budget around the height has, and none has more. -/
theorem highestCount_spec (n : Int) (budgets : List CFinalizedBudget) :
    n ≤ highestCount nBlockHeight n budgets ∧
      (∀ b ∈ budgets, b.inCycle nBlockHeight = true →
        b.nVoteCount ≤ highestCount nBlockHeight n budgets) ∧
      (highestCount nBlockHeight n budgets = n ∨
        ∃ b ∈ budgets, b.inCycle nBlockHeight = true ∧
          highestCount nBlockHeight n budgets = b.nVoteCount) := by
  induction budgets generalizing n with
  | nil => exact ⟨le_rfl, by simp, Or.inl rfl⟩
  | cons b rest ih =>
    rw [highestCount]
    by_cases htake : (decide (b.nVoteCount > n) && b.inCycle nBlockHeight) = true
    · rw [if_pos htake]
      obtain ⟨hmore, hcycle⟩ := Bool.and_eq_true_iff.mp htake
      have hmore : n < b.nVoteCount := of_decide_eq_true hmore
      obtain ⟨hstart, hall, hfrom⟩ := ih b.nVoteCount
      refine ⟨by omega, List.forall_mem_cons.mpr ⟨fun _ => hstart, hall⟩, Or.inr ?_⟩
      rcases hfrom with hfirst | ⟨b', hmem, hcycle', hcount⟩
      · exact ⟨b, List.mem_cons_self, hcycle, hfirst⟩
      · exact ⟨b', List.mem_cons_of_mem b hmem, hcycle', hcount⟩
    · rw [if_neg htake]
      obtain ⟨hstart, hall, hfrom⟩ := ih n
      refine ⟨hstart, List.forall_mem_cons.mpr ⟨fun hcycle => ?_, hall⟩, ?_⟩
      · have hless : ¬ b.nVoteCount > n := by simpa [hcycle] using htake
        omega
      · rcases hfrom with hfirst | ⟨b', hmem, hcycle', hcount⟩
        · exact Or.inl hfirst
        · exact Or.inr ⟨b', List.mem_cons_of_mem b hmem, hcycle', hcount⟩

/-- At a budget payment block the budget with the most votes has as many as the check looks for. -/
theorem topBudget_votes (hblock : m.isBudgetPaymentBlock nBlockHeight = true)
    (htop : m.topBudget nBlockHeight = some b) :
    b ∈ m.mapFinalizedBudgets ∧ b.inCycle nBlockHeight = true ∧ 0 < b.nVoteCount ∧
      b.nVoteCount = highestCount nBlockHeight 0 m.mapFinalizedBudgets := by
  obtain ⟨hmem, hcycle⟩ := List.mem_filter.mp (List.argmax_mem htop)
  have hmost : ∀ b' ∈ m.mapFinalizedBudgets, b'.inCycle nBlockHeight = true →
      b'.nVoteCount ≤ b.nVoteCount := by
    intro b' hmem' hcycle'
    exact List.le_of_mem_argmax (List.mem_filter.mpr ⟨hmem', hcycle'⟩) htop
  have hmany : m.nFivePercent < highestCount nBlockHeight (-1) m.mapFinalizedBudgets :=
    of_decide_eq_true hblock
  have hfive : 0 ≤ m.nFivePercent := Int.natCast_nonneg _
  have hpos : 0 < b.nVoteCount := by
    have hfrom := (@highestCount_spec nBlockHeight (-1) m.mapFinalizedBudgets).2.2
    rcases hfrom with hnone | ⟨b', hmem', hcycle', hcount⟩
    · omega
    · have hle := hmost b' hmem' hcycle'
      omega
  refine ⟨hmem, hcycle, hpos, ?_⟩
  obtain ⟨hstart, hall, hfrom⟩ := @highestCount_spec nBlockHeight 0 m.mapFinalizedBudgets
  have hle := hall b hmem hcycle
  rcases hfrom with hnone | ⟨b', hmem', hcycle', hcount⟩
  · omega
  · have hle' := hmost b' hmem' hcycle'
    omega

/-- The filled template pays the budget besides the outputs it keeps. -/
theorem payingOutputs_filled {nPrevHeight : Int} {fProofOfStake : Bool} {vout filled : List CTxOut}
    (hvotes : 0 < b.nVoteCount) (htop : m.topBudget (nPrevHeight + 1) = some b)
    (hpayment : b.scheduledPayment (nPrevHeight + 1) = some payment)
    (hfill : m.fillBlockPayee network nPrevHeight fProofOfStake vout = some filled) :
    payingOutputs payment filled =
      payingOutputs payment (keptOutputs network nPrevHeight fProofOfStake vout) + 1 := by
  have hhighest : m.mapFinalizedBudgets.foldl (takePayment (nPrevHeight + 1)) {} =
      ⟨b.nVoteCount, payment.payee, payment.nAmount⟩ := by
    rw [foldl_takePayment]
    change topPayment (nPrevHeight + 1) (m.topBudget (nPrevHeight + 1)) = _
    rw [htop]
    simp [topPayment, hvotes, hpayment]
  have hpays : ∀ out, payment.matchesOut (payTo payment.payee payment.nAmount out) = true := by
    intro out
    simp [CTxBudgetPayment.matchesOut, payTo]
  unfold fillBlockPayee at hfill
  dsimp only at hfill
  rw [hhighest] at hfill
  unfold payingOutputs keptOutputs
  cases fProofOfStake with
  | true =>
    rw [if_pos rfl, if_pos hvotes] at hfill
    rw [← Option.some.inj hfill, if_pos rfl, List.countP_append, List.countP_cons, hpays]
    rfl
  | false =>
    cases vout with
    | nil => contradiction
    | cons out₀ rest =>
      rw [if_neg Bool.false_ne_true] at hfill ⊢
      dsimp only at hfill
      rw [if_pos hvotes] at hfill
      obtain ⟨out₁, hresize⟩ : ∃ out₁, resizeVout
          ({ out₀ with nValue := getBlockValue network nPrevHeight } :: rest) 2 =
            [{ out₀ with nValue := getBlockValue network nPrevHeight }, out₁] := by
        cases rest with
        | nil => exact ⟨_, rfl⟩
        | cons out₁ rest => exact ⟨out₁, by simp [resizeVout]⟩
      rw [hresize] at hfill
      rw [← Option.some.inj hfill, List.take_succ_cons, List.take_zero, List.map_cons, List.map_nil,
        List.countP_cons, List.countP_cons, List.countP_cons, List.countP_nil, hpays, if_pos rfl]
      omega

end

/-- One vote among five masternodes for a payment of 100 to the script `[1]` at height 300. -/
def fiveMasternodes : CBudgetManager := ⟨[⟨300, [⟨5, [1], 100⟩], 1, fun _ => none⟩], 5⟩

/-- A coinstake with the budget payment. -/
def filledStake : CTransaction := ⟨9, 1, [], stakeTemplate ++ [⟨100, [1], -10⟩], 0⟩

end CBudgetManager
end Lytix
