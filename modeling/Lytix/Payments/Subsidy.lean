import Lytix.Lib.Binary64
import Lytix.Params.ChainParams

/-! The reward schedule, and the share of it each kind of node is paid. The node counts and the
zPIV flag these functions are also passed are not read by them. -/
namespace Lytix

open Binary64 (mulTrunc)

/-- The branch of `GetBlockValue` for the test network. -/
def testNetBlockValue (nHeight : Int) : Int :=
  let DropTime := 150
  if nHeight = 1 then 500000 * COIN
  else if 1 < nHeight ∧ nHeight ≤ 3 * DropTime then 10000 * COIN
  else if 3 * DropTime < nHeight ∧ nHeight ≤ 4 * DropTime then 100 * COIN
  else 10 * COIN

/-- The rest of `GetBlockValue`, with `Params().LAST_POW_BLOCK()` passed in. -/
def mainBlockValue (lastPow nHeight : Int) : Int :=
  let DropTime := 350000
  if nHeight = 1 then 643000 * COIN
  else if 1 < nHeight ∧ nHeight ≤ 50 then 1 * COIN
  else if 50 < nHeight ∧ nHeight ≤ lastPow then 30 * COIN
  else if lastPow < nHeight ∧ nHeight ≤ 110000 then 100 * COIN
  else if 110000 < nHeight ∧ nHeight ≤ 300000 then 30 * COIN
  else if 300000 < nHeight ∧ nHeight ≤ 1 * DropTime then 15 * COIN
  else if 1 * DropTime < nHeight ∧ nHeight ≤ 2 * DropTime then 10 * COIN
  else if 2 * DropTime < nHeight ∧ nHeight ≤ 3 * DropTime then 7 * COIN
  else if 3 * DropTime < nHeight ∧ nHeight ≤ 4 * DropTime then 5 * COIN
  else if 4 * DropTime < nHeight ∧ nHeight ≤ 5 * DropTime then 3 * COIN
  else if 5 * DropTime < nHeight ∧ nHeight ≤ 6 * DropTime then 1 * COIN
  else 1 * COIN

def getBlockValue (network : Network) (nHeight : Int) : Int :=
  if (Params network).networkID = .testnet then testNetBlockValue nHeight
  else mainBlockValue (Params network).nLastPOWBlock nHeight

/-! The double literals of the schedule. -/

def double_0_05 : Binary64.Const := ⟨3602879701896397, 56⟩
def double_0_2 : Binary64.Const := ⟨3602879701896397, 54⟩
def double_0_3 : Binary64.Const := ⟨5404319552844595, 54⟩
def double_0_4 : Binary64.Const := ⟨3602879701896397, 53⟩
def double_0_6 : Binary64.Const := ⟨5404319552844595, 53⟩

def getDevFeePayment (sporks : Sporks) (nHeight blockValue : Int) : Int :=
  if isSporkActive sporks .SPORK_20_DEVFEE then
    if nHeight ≤ 49 then 0 else mulTrunc blockValue double_0_05
  else 0

def getMaxnodePayment (network : Network) (sporks : Sporks) (nHeight blockValue : Int) : Int :=
  if (Params network).networkID = .testnet then
    if nHeight ≤ 50 then 0 else mulTrunc blockValue double_0_6
  else if isSporkActive sporks .SPORK_19_MAXNODE_ACTIVATION then
    if nHeight ≤ 515000 then mulTrunc blockValue double_0_3 else mulTrunc blockValue double_0_6
  else 0

def getMasternodePayment (network : Network) (sporks : Sporks) (nHeight blockValue : Int) : Int :=
  if (Params network).networkID = .testnet then
    if nHeight ≤ 515000 then mulTrunc blockValue double_0_4 else mulTrunc blockValue double_0_2
  else if isSporkActive sporks .SPORK_18_MASTERNODE_REWARDS_CHANGE then
    if nHeight ≤ 515000 then mulTrunc blockValue double_0_4 else mulTrunc blockValue double_0_2
  else if nHeight ≤ 499 then 0 else mulTrunc blockValue double_0_2

theorem networkID_eq (network : Network) : (Params network).networkID = network := by
  cases network <;> rfl

theorem testNetBlockValue_pos (nHeight : Int) : 0 < testNetBlockValue nHeight := by
  unfold testNetBlockValue COIN
  dsimp only
  omega

theorem mainBlockValue_pos (lastPow nHeight : Int) : 0 < mainBlockValue lastPow nHeight := by
  unfold mainBlockValue COIN
  dsimp only
  omega

theorem getBlockValue_pos (network : Network) (nHeight : Int) :
    0 < getBlockValue network nHeight := by
  unfold getBlockValue
  split
  · exact testNetBlockValue_pos nHeight
  · exact mainBlockValue_pos _ nHeight

theorem testNetBlockValue_succ_le {nHeight : Int} (h : 0 < nHeight) :
    testNetBlockValue (nHeight + 1) ≤ testNetBlockValue nHeight := by
  unfold testNetBlockValue COIN
  dsimp only
  omega

theorem mainBlockValue_succ_le {lastPow nHeight : Int} (h : 0 < nHeight) (h50 : nHeight ≠ 50)
    (hlast : nHeight ≠ lastPow) :
    mainBlockValue lastPow (nHeight + 1) ≤ mainBlockValue lastPow nHeight := by
  unfold mainBlockValue COIN
  dsimp only
  omega

/-- Heights after which the schedule pays more than before. -/
def rewardRises (network : Network) (nHeight : Int) : Prop :=
  nHeight = 0 ∨ network ≠ .testnet ∧ (nHeight = 50 ∨ nHeight = (Params network).nLastPOWBlock)

instance (network : Network) (nHeight : Int) : Decidable (rewardRises network nHeight) :=
  inferInstanceAs (Decidable (_ ∨ _))

theorem getBlockValue_succ_le {network : Network} {nHeight : Int} (h : 0 ≤ nHeight)
    (hrise : ¬rewardRises network nHeight) :
    getBlockValue network (nHeight + 1) ≤ getBlockValue network nHeight := by
  unfold rewardRises at hrise
  push Not at hrise
  obtain ⟨hzero, hlater⟩ := hrise
  unfold getBlockValue
  rw [networkID_eq]
  split
  · exact testNetBlockValue_succ_le (by omega)
  · obtain ⟨h50, hlast⟩ := hlater ‹_›
    exact mainBlockValue_succ_le (by omega) h50 hlast

section payment
variable (network : Network) (sporks : Sporks)

/-- Masternodes share every block from the start, or only from height 500 on. -/
def sharesFromStart : Prop :=
  network = .testnet ∨ isSporkActive sporks .SPORK_18_MASTERNODE_REWARDS_CHANGE = true

instance : Decidable (sharesFromStart network sporks) := inferInstanceAs (Decidable (_ ∨ _))

theorem getMasternodePayment_of_shares (hshare : sharesFromStart network sporks)
    (nHeight blockValue : Int) : getMasternodePayment network sporks nHeight blockValue =
      if nHeight ≤ 515000 then mulTrunc blockValue double_0_4
      else mulTrunc blockValue double_0_2 := by
  unfold getMasternodePayment
  rw [networkID_eq]
  rcases hshare with hnet | hspork
  · rw [if_pos hnet]
  · rw [hspork, if_pos rfl, ite_self]

theorem getMasternodePayment_of_not_shares (hshare : ¬sharesFromStart network sporks)
    (nHeight blockValue : Int) : getMasternodePayment network sporks nHeight blockValue =
      if nHeight ≤ 499 then 0 else mulTrunc blockValue double_0_2 := by
  unfold sharesFromStart at hshare
  push Not at hshare
  unfold getMasternodePayment
  rw [networkID_eq, if_neg hshare.1, if_neg hshare.2]

/-- The heights after which a masternode is owed more than before. -/
def masternodePaymentRises (nHeight : Int) : Prop :=
  if sharesFromStart network sporks then rewardRises network nHeight
  else nHeight = 499 ∨ 499 < nHeight ∧ rewardRises network nHeight

/-- Outside those heights the payment for the next block is covered by the payment computed one
block earlier. -/
theorem getMasternodePayment_succ_le {nHeight : Int} (h : 0 ≤ nHeight)
    (hrise : ¬masternodePaymentRises network sporks nHeight) :
    getMasternodePayment network sporks (nHeight + 1) (getBlockValue network (nHeight + 1)) ≤
      getMasternodePayment network sporks nHeight (getBlockValue network nHeight) := by
  have hnext := (getBlockValue_pos network (nHeight + 1)).le
  unfold masternodePaymentRises at hrise
  by_cases hshare : sharesFromStart network sporks
  · rw [if_pos hshare] at hrise
    have hvalue := getBlockValue_succ_le h hrise
    have hfour := Binary64.mulTrunc_mono hnext hvalue double_0_4
    have htwo := Binary64.mulTrunc_mono hnext hvalue double_0_2
    have hhalf : mulTrunc (getBlockValue network (nHeight + 1)) double_0_2 ≤
        mulTrunc (getBlockValue network (nHeight + 1)) double_0_4 :=
      Binary64.mulTrunc_le_of_exponent hnext _ (by norm_num)
    rw [getMasternodePayment_of_shares _ _ hshare, getMasternodePayment_of_shares _ _ hshare]
    split_ifs <;> omega
  · rw [if_neg hshare] at hrise
    push Not at hrise
    obtain ⟨hne, hlater⟩ := hrise
    rw [getMasternodePayment_of_not_shares _ _ hshare,
      getMasternodePayment_of_not_shares _ _ hshare]
    by_cases hearly : nHeight ≤ 498
    · rw [if_pos (by omega), if_pos (by omega)]
    · have hvalue := getBlockValue_succ_le h (hlater (by omega))
      rw [if_neg (by omega), if_neg (by omega)]
      exact Binary64.mulTrunc_mono hnext hvalue double_0_2

/-- At those heights it is not. -/
theorem getMasternodePayment_lt_succ {nHeight : Int}
    (hrise : masternodePaymentRises network sporks nHeight) :
    getMasternodePayment network sporks nHeight (getBlockValue network nHeight) <
      getMasternodePayment network sporks (nHeight + 1) (getBlockValue network (nHeight + 1)) := by
  unfold masternodePaymentRises at hrise
  by_cases hshare : sharesFromStart network sporks
  · rw [if_pos hshare] at hrise
    rw [getMasternodePayment_of_shares _ _ hshare, getMasternodePayment_of_shares _ _ hshare]
    rcases hrise with rfl | ⟨hnet, rfl | rfl⟩
    · cases network <;> decide
    · cases network with
      | testnet => exact absurd rfl hnet
      | main | regtest | unittest => decide
    · cases network with
      | testnet => exact absurd rfl hnet
      | main | regtest | unittest => decide
  · have hnet : network ≠ .testnet := fun h => hshare (Or.inl h)
    rw [if_neg hshare] at hrise
    rw [getMasternodePayment_of_not_shares _ _ hshare,
      getMasternodePayment_of_not_shares _ _ hshare]
    rcases hrise with rfl | ⟨hlate, hzero | ⟨-, h50 | rfl⟩⟩
    · cases network with
      | testnet => exact absurd rfl hnet
      | main | regtest | unittest => decide
    · omega
    · omega
    · cases network with
      | testnet => exact absurd rfl hnet
      | regtest => exact absurd hlate (by decide)
      | main | unittest => decide

end payment
end Lytix

/-! What the proposals of one payment cycle may be paid together. -/
namespace Lytix

open Binary64 (mulTruncs)

def double_7_2 : Binary64.Const := ⟨8106479329266893, 50⟩

/-- The network, and the height of the active chain, which may have no tip. -/
structure BudgetChain where
  network : Network
  tip : Option Int

/-- The end of `GetTotalBudget`: a share of the block reward, over thirty days of minutes. -/
def monthlyBudget (nSubsidy : Int) : Int := mulTruncs (nSubsidy / 100) double_7_2 [60, 24, 30]

def getTotalBudget (chain : BudgetChain) (nHeight : Int) : Int :=
  match chain.tip with
  | none => 0
  | some _ =>
    if (Params chain.network).networkID = .testnet then
      let nSubsidy := 250 * COIN
      nSubsidy / 100 * 10 * 146
    else if nHeight ≤ 120160 then 0 * COIN
    else monthlyBudget (getBlockValue chain.network nHeight)

/-- A value assigned to a `CAmount`. -/
def toCAmount (n : Int) : Int := n.bmod (2 ^ 64)

/-- Amounts added up one by one. -/
def totalAmount (amounts : List Int) : Int :=
  amounts.foldl (fun ret nAmount => toCAmount (ret + nAmount)) 0

theorem toCAmount_of_lt {n : Int} (hnonneg : 0 ≤ n) (hlt : n < 2 ^ 63) : toCAmount n = n := by
  rw [toCAmount, Int.bmod_eq_of_le] <;> omega

/-- Only the total wraps. -/
theorem totalAmount_eq (amounts : List Int) : totalAmount amounts = toCAmount amounts.sum := by
  have hall : ∀ (l : List Int) (ret : Int),
      l.foldl (fun ret nAmount => toCAmount (ret + nAmount)) (toCAmount ret) =
        toCAmount (ret + l.sum) := by
    intro l
    induction l with
    | nil => simp [toCAmount]
    | cons nAmount l ih =>
      intro ret
      have hnext : toCAmount (toCAmount ret + nAmount) = toCAmount (ret + nAmount) :=
        Int.bmod_add_bmod
      rw [List.foldl_cons, hnext, ih, List.sum_cons, add_assoc]
  simpa [toCAmount, totalAmount] using hall amounts 0

variable {chain : BudgetChain}

theorem mainBlockValue_le {lastPow nHeight : Int} (hheight : 120160 < nHeight) :
    mainBlockValue lastPow nHeight ≤ 30 * COIN := by
  unfold mainBlockValue COIN
  dsimp only
  omega

theorem monthlyBudget_max : monthlyBudget (30 * COIN) < 2 ^ 62 := by decide

theorem getTotalBudget_nonneg (nHeight : Int) : 0 ≤ getTotalBudget chain nHeight := by
  unfold getTotalBudget
  split
  · exact le_rfl
  · split_ifs
    · decide
    · decide
    · have hvalue := getBlockValue_pos chain.network nHeight
      exact Binary64.mulTruncs_nonneg (by omega) _ _

/-- The budget of a cycle is far from the largest amount. -/
theorem getTotalBudget_lt (nHeight : Int) : getTotalBudget chain nHeight < 2 ^ 62 := by
  unfold getTotalBudget
  split
  · decide
  · split_ifs with htest hearly
    · decide
    · decide
    · have hvalue := getBlockValue_pos chain.network nHeight
      have hle : getBlockValue chain.network nHeight ≤ 30 * COIN := by
        rw [getBlockValue, if_neg htest]
        exact mainBlockValue_le (by omega)
      have hmono : monthlyBudget (getBlockValue chain.network nHeight) ≤
          monthlyBudget (30 * COIN) :=
        Binary64.mulTruncs_mono (by omega) (by omega) _ _
      exact hmono.trans_lt monthlyBudget_max

/-- Thirty coins a block. -/
example : monthlyBudget (30 * COIN) = 93312 * COIN := by decide

end Lytix
