import Lytix.Payments.BudgetVotes
import Lytix.Payments.Subsidy
import Lytix.Wallet.Solver
import Mathlib.Data.Set.Card
import Mathlib.Order.Interval.Finset.Nat

/-! Budget proposals: what makes one valid, what it is worth to the voters, and the payment cycles
it is made for. -/
namespace Lytix

/-- A vote on a proposal, with its flag. -/
structure StoredBudgetVote where
  vote : CBudgetVote
  fValid : Bool
deriving DecidableEq

structure CBudgetProposal where
  fValid : Bool
  strProposalName : String
  nBlockStart : Int
  nBlockEnd : Int
  nAmount : Int
  address : Script
  nTime : Int
  nFeeTXHash : Uint256
  mapVotes : List StoredBudgetVote
  nAlloted : Int
deriving DecidableEq

def VOTE_YES : Int := 1

def VOTE_NO : Int := 2

/-- What the proposals are judged by. -/
structure ProposalEnv where
  chain : BudgetChain
  -- `GetTime()`
  now : Int
  -- `mnodeman.CountEnabled(ActiveProtocol())`
  nEnabled : Nat
  -- whether `mnodeman.Find` knows the masternode
  hasMasternode : CTxIn → Bool
  -- what is wrong with the collateral
  isBudgetCollateralValid : CBudgetProposal → Option String

namespace CBudgetProposal

section
variable (env : ProposalEnv) (p : CBudgetProposal)

def getYeas : Int := p.mapVotes.countP fun stored => stored.vote.nVote = VOTE_YES ∧ stored.fValid

def getNays : Int := p.mapVotes.countP fun stored => stored.vote.nVote = VOTE_NO ∧ stored.fValid

/-- `CleanAndRemove(false)`: signatures are not checked again. -/
def cleanAndRemove : CBudgetProposal :=
  { p with
    mapVotes := p.mapVotes.map fun stored => ⟨stored.vote, env.hasMasternode stored.vote.vin⟩ }

def isEstablished : Bool :=
  if (Params env.chain.network).networkID = .main then p.nTime < env.now - 60 * 60 * 24
  else p.nTime < env.now - 60 * 5

def getBlockStartCycle : Int :=
  p.nBlockStart - p.nBlockStart.tmod (getBudgetPaymentCycleBlocks env.chain.network)

def getBlockEndCycle : Int := p.nBlockEnd

def getTotalPaymentCount : Int :=
  (toInt32 (p.getBlockEndCycle - p.getBlockStartCycle env)).tdiv
    (getBudgetPaymentCycleBlocks env.chain.network)

def isValid (fCheckCollateral : Bool) : Except String Unit :=
  let strProposal := "Proposal " ++ p.strProposalName ++ ": "
  if p.getNays - p.getYeas > (env.nEnabled / 10 : Nat) then
    .error (strProposal ++ "Active removal")
  else if p.nBlockStart < 0 then .error "Invalid Proposal"
  else if p.nBlockEnd < p.nBlockStart then
    .error (strProposal ++ "Invalid nBlockEnd (end before start)")
  else if p.nAmount < 10 * COIN then .error (strProposal ++ "Invalid nAmount")
  else if p.address = [] then .error (strProposal ++ "Invalid Payment Address")
  else if fCheckCollateral ∧ (env.isBudgetCollateralValid p).isSome then
    .error (strProposal ++ "Invalid collateral")
  else if p.address.isPayToScriptHash then
    .error (strProposal ++ "Multisig is not currently supported.")
  else if p.nAmount > getTotalBudget env.chain p.nBlockStart then
    .error (strProposal ++ "Payment more than max")
  else
    match env.chain.tip with
    | none => .ok ()
    | some nHeight =>
      let nProposalEnd := toInt32 (p.nBlockStart +
        toInt32 (getBudgetPaymentCycleBlocks env.chain.network * p.getTotalPaymentCount env))
      if nProposalEnd < nHeight then
        .error (strProposal ++ "Invalid nBlockEnd (" ++ toString nProposalEnd ++
          ") < current height (" ++ toString nHeight ++ ")")
      else .ok ()

/-- The proposal is made for the payment cycle between these blocks. -/
def inWindow (nBlockStart nBlockEnd : Int) : Bool :=
  p.nBlockStart ≤ nBlockStart && p.nBlockEnd ≥ nBlockEnd

/-- The amounts that `IsValid` admits. -/
def AmountAdmitted (chain : BudgetChain) : Prop :=
  10 * COIN ≤ p.nAmount ∧ p.nAmount ≤ getTotalBudget chain p.nBlockStart

end

variable {env : ProposalEnv} {p : CBudgetProposal}

theorem amountAdmitted_of_isValid {fCheckCollateral : Bool}
    (hvalid : p.isValid env fCheckCollateral = .ok ()) : p.AmountAdmitted env.chain := by
  unfold isValid at hvalid
  dsimp only at hvalid
  constructor
  · by_contra hless
    rw [if_pos (not_le.mp hless)] at hvalid
    split_ifs at hvalid
  · by_contra hmore
    rw [if_pos (not_le.mp hmore)] at hvalid
    split_ifs at hvalid

theorem AmountAdmitted.bounds {chain : BudgetChain} (h : p.AmountAdmitted chain) :
    0 < p.nAmount ∧ p.nAmount < 2 ^ 62 := by
  have hlimit := @getTotalBudget_lt chain p.nBlockStart
  have hleast : (0 : Int) < 10 * COIN := by decide
  exact ⟨by linarith [h.1], by linarith [h.2]⟩

end CBudgetProposal

/-- Start of the next payment cycle in `GetBudget`. -/
def nextCycleStart (network : Network) (nHeight : Int) : Int :=
  nHeight - nHeight.tmod (getBudgetPaymentCycleBlocks network) +
    getBudgetPaymentCycleBlocks network

end Lytix

/-! How many payment cycles a proposal is made for, against the number of payments it asks for. The
end block lies one block further for each payment, so that the number is right only up to where
these blocks make a cycle of their own. -/
namespace Lytix

namespace CBudgetProposal

/-- The constructor of `CBudgetProposalBroadcast`. The base class sets neither the allotment nor
anything the members below are set to again. -/
def ofPaymentCount (network : Network) (strProposalName : String) (nPaymentCount : Int)
    (address : Script) (nAmount nBlockStart : Int) (nFeeTXHash : Uint256) (nAlloted : Int) :
    CBudgetProposal :=
  let nCycleStart := nBlockStart - nBlockStart.tmod (getBudgetPaymentCycleBlocks network)
  { fValid := true
    strProposalName := strProposalName
    nBlockStart := nBlockStart
    nBlockEnd := toInt32 (nCycleStart +
      toInt32 ((getBudgetPaymentCycleBlocks network + 1) * nPaymentCount))
    nAmount := nAmount
    address := address
    nTime := 0
    nFeeTXHash := nFeeTXHash
    mapVotes := []
    nAlloted := nAlloted }

/-- The payment cycles that `GetBudget` finds the proposal to be made for, by their first block. -/
def paidCycles (network : Network) (p : CBudgetProposal) : Set Int :=
  {nBlockStart | ∃ nHeight : ℕ, nBlockStart = nextCycleStart network nHeight ∧
    p.inWindow nBlockStart (nBlockStart + getBudgetPaymentCycleBlocks network - 1)}

section
variable {network : Network} {p : CBudgetProposal}

theorem getBudgetPaymentCycleBlocks_pos : 0 < getBudgetPaymentCycleBlocks network := by
  unfold getBudgetPaymentCycleBlocks
  split <;> norm_num

/-- The cycles begin at the positive multiples of their length. -/
theorem exists_nextCycleStart_iff {nBlockStart : Int} :
    (∃ nHeight : ℕ, nBlockStart = nextCycleStart network nHeight) ↔
      ∃ k : ℕ, nBlockStart = ((k : Int) + 1) * getBudgetPaymentCycleBlocks network := by
  have hpos := @getBudgetPaymentCycleBlocks_pos network
  constructor
  · rintro ⟨nHeight, rfl⟩
    obtain ⟨n, hn⟩ := Int.eq_ofNat_of_zero_le
      (Int.ediv_nonneg (Int.natCast_nonneg nHeight) hpos.le)
    refine ⟨n, ?_⟩
    have hdiv := Int.mul_ediv_add_emod nHeight (getBudgetPaymentCycleBlocks network)
    rw [nextCycleStart, Int.tmod_eq_emod_of_nonneg (Int.natCast_nonneg nHeight)]
    rw [hn] at hdiv
    linarith
  · rintro ⟨k, rfl⟩
    obtain ⟨nCycle, hcycle⟩ := Int.eq_ofNat_of_zero_le hpos.le
    refine ⟨k * nCycle, ?_⟩
    rw [nextCycleStart, hcycle]
    push_cast
    rw [Int.mul_tmod_left]
    ring

/-- The first cycle that does not begin too early, and the first that ends too late. -/
theorem inWindow_iff (hstart : 0 ≤ p.nBlockStart) (k : ℕ) :
    p.inWindow (((k : Int) + 1) * getBudgetPaymentCycleBlocks network)
        (((k : Int) + 1) * getBudgetPaymentCycleBlocks network +
          getBudgetPaymentCycleBlocks network - 1) ↔
      max 0 (p.nBlockStart - 1) / getBudgetPaymentCycleBlocks network ≤ k ∧
        (k : Int) < (p.nBlockEnd + 1) / getBudgetPaymentCycleBlocks network - 1 := by
  have hpos := @getBudgetPaymentCycleBlocks_pos network
  generalize getBudgetPaymentCycleBlocks network = nCycle at hpos ⊢
  have hlower : max 0 (p.nBlockStart - 1) / nCycle ≤ k ↔
      p.nBlockStart ≤ ((k : Int) + 1) * nCycle := by
    rw [← Int.lt_add_one_iff, Int.ediv_lt_iff_lt_mul hpos]
    have hcycles : 0 < ((k : Int) + 1) * nCycle := by positivity
    omega
  have hupper : (k : Int) < (p.nBlockEnd + 1) / nCycle - 1 ↔
      ((k : Int) + 1) * nCycle + nCycle - 1 ≤ p.nBlockEnd := by
    have hnext : (k : Int) < (p.nBlockEnd + 1) / nCycle - 1 ↔
        (k : Int) + 2 ≤ (p.nBlockEnd + 1) / nCycle := by omega
    rw [hnext, Int.le_ediv_iff_mul_le hpos]
    constructor <;> intro h <;> linarith
  rw [hlower, hupper, inWindow, Bool.and_eq_true, decide_eq_true_eq, decide_eq_true_eq]

/-- The cycles between two blocks, counted by their number. -/
theorem ncard_paidCycles (hstart : 0 ≤ p.nBlockStart) :
    (p.paidCycles network).ncard =
      ((p.nBlockEnd + 1) / getBudgetPaymentCycleBlocks network - 1 -
        max 0 (p.nBlockStart - 1) / getBudgetPaymentCycleBlocks network).toNat := by
  have hpos := @getBudgetPaymentCycleBlocks_pos network
  have hfirst : 0 ≤ max 0 (p.nBlockStart - 1) / getBudgetPaymentCycleBlocks network :=
    Int.ediv_nonneg (le_max_left _ _) hpos.le
  have hset : p.paidCycles network =
      (fun k : ℕ => ((k : Int) + 1) * getBudgetPaymentCycleBlocks network) ''
        (Finset.Ico (max 0 (p.nBlockStart - 1) / getBudgetPaymentCycleBlocks network).toNat
          ((p.nBlockEnd + 1) / getBudgetPaymentCycleBlocks network - 1).toNat : Set ℕ) := by
    ext nBlockStart
    constructor
    · rintro ⟨nHeight, hheight, hwindow⟩
      obtain ⟨k, rfl⟩ := exists_nextCycleStart_iff.mp ⟨nHeight, hheight⟩
      have hbounds := (inWindow_iff hstart k).mp hwindow
      refine ⟨k, ?_, rfl⟩
      rw [Finset.coe_Ico, Set.mem_Ico]
      omega
    · rintro ⟨k, hk, rfl⟩
      rw [Finset.coe_Ico, Set.mem_Ico] at hk
      obtain ⟨nHeight, hheight⟩ := exists_nextCycleStart_iff.mpr ⟨k, rfl⟩
      exact ⟨nHeight, hheight, (inWindow_iff hstart k).mpr (by omega)⟩
  have hinjective : Function.Injective
      fun k : ℕ => ((k : Int) + 1) * getBudgetPaymentCycleBlocks network := by
    intro k j hsame
    have hmul := mul_right_cancel₀ hpos.ne' hsame
    omega
  rw [hset, Set.ncard_image_of_injective _ hinjective, Set.ncard_coe_finset, Nat.card_Ico]
  omega

end

/-- The payments end before their blocks make one more cycle, or make up for the first cycle where
the proposal does not start with one; and the end block is a height. -/
def CyclesFit (network : Network) (nPaymentCount nBlockStart : Int) : Prop :=
  let nCycle := getBudgetPaymentCycleBlocks network
  nBlockStart / nCycle * nCycle + (nCycle + 1) * nPaymentCount < 2 ^ 31 ∧
    if 0 < nBlockStart ∧ nBlockStart % nCycle = 0 then nPaymentCount + 1 < nCycle
    else nCycle ≤ nPaymentCount + 1 ∧ nPaymentCount + 1 < 2 * nCycle

section
variable {network : Network} {nPaymentCount nBlockStart nBlockEnd wraps : Int}

/-- The first cycle of a proposal, by its number. -/
theorem firstCycle_eq (hstart : 0 ≤ nBlockStart) :
    max 0 (nBlockStart - 1) / getBudgetPaymentCycleBlocks network =
      if 0 < nBlockStart ∧ nBlockStart % getBudgetPaymentCycleBlocks network = 0 then
        nBlockStart / getBudgetPaymentCycleBlocks network - 1
      else nBlockStart / getBudgetPaymentCycleBlocks network := by
  unfold getBudgetPaymentCycleBlocks
  split <;> split_ifs <;> omega

/-- An end block that wraps lies so far off that no number of payments comes out right. -/
theorem paidCount_eq_iff (hcount : 1 ≤ nPaymentCount) (hcountInt : nPaymentCount < 2 ^ 31)
    (hstart : 0 ≤ nBlockStart) (hend : nBlockEnd =
      nBlockStart - nBlockStart % getBudgetPaymentCycleBlocks network +
        (getBudgetPaymentCycleBlocks network + 1) * nPaymentCount - 2 ^ 32 * wraps)
    (hlower : -2 ^ 31 ≤ nBlockEnd) (hupper : nBlockEnd < 2 ^ 31) :
    ((nBlockEnd + 1) / getBudgetPaymentCycleBlocks network - 1 -
        max 0 (nBlockStart - 1) / getBudgetPaymentCycleBlocks network).toNat =
      nPaymentCount.toNat ↔ CyclesFit network nPaymentCount nBlockStart := by
  have hfits : nBlockStart / getBudgetPaymentCycleBlocks network *
      getBudgetPaymentCycleBlocks network +
        (getBudgetPaymentCycleBlocks network + 1) * nPaymentCount < 2 ^ 31 ↔ wraps = 0 := by
    unfold getBudgetPaymentCycleBlocks at hend ⊢
    split at hend
    · rw [if_pos ‹_›]
      omega
    · rw [if_neg ‹_›]
      omega
  rw [firstCycle_eq hstart, CyclesFit, hfits]
  unfold getBudgetPaymentCycleBlocks at hend ⊢
  split at hend
  · rw [if_pos ‹_›]
    split_ifs <;> omega
  · rw [if_neg ‹_›]
    split_ifs <;> omega

end

/-- A proposal for some payments from some block is made for as many cycles exactly where these
fit. -/
theorem ncard_paidCycles_eq_iff (network : Network) (strProposalName : String)
    (nPaymentCount : Int) (address : Script) (nAmount nBlockStart : Int) (nFeeTXHash : Uint256)
    (nAlloted : Int) (hcount : 1 ≤ nPaymentCount) (hcountInt : nPaymentCount < 2 ^ 31)
    (hstart : 0 ≤ nBlockStart) :
    (paidCycles network (ofPaymentCount network strProposalName nPaymentCount address nAmount
        nBlockStart nFeeTXHash nAlloted)).ncard = nPaymentCount.toNat ↔
      CyclesFit network nPaymentCount nBlockStart := by
  have hend : toInt32 (nBlockStart - nBlockStart % getBudgetPaymentCycleBlocks network +
      toInt32 ((getBudgetPaymentCycleBlocks network + 1) * nPaymentCount)) =
      toInt32 (nBlockStart - nBlockStart % getBudgetPaymentCycleBlocks network +
        (getBudgetPaymentCycleBlocks network + 1) * nPaymentCount) :=
    Int.add_bmod_bmod
  obtain ⟨wraps, hwraps, hlower, hupper⟩ := exists_toInt32_eq
    (nBlockStart - nBlockStart % getBudgetPaymentCycleBlocks network +
      (getBudgetPaymentCycleBlocks network + 1) * nPaymentCount)
  rw [ncard_paidCycles hstart]
  simp only [ofPaymentCount, Int.tmod_eq_emod_of_nonneg hstart]
  rw [hend]
  exact paidCount_eq_iff hcount hcountInt hstart hwraps hlower hupper

/-- On the main network three payments from block 129600 on are made in three cycles. -/
theorem ncard_paidCycles_eq_iff_three :
    (paidCycles .main (ofPaymentCount .main "roads" 3 [0x51] COIN 129600 1 0)).ncard =
      (3 : Int).toNat ↔ CyclesFit .main 3 129600 :=
  ncard_paidCycles_eq_iff .main "roads" 3 [0x51] COIN 129600 1 0 (by decide) (by decide) (by decide)

/-- With 143 payments on the test network one is made too many. -/
theorem not_ncard_paidCycles :
    ¬∀ (network : Network) (strProposalName : String) (nPaymentCount : Int) (address : Script)
      (nAmount nBlockStart : Int) (nFeeTXHash : Uint256) (nAlloted : Int), 1 ≤ nPaymentCount →
      nPaymentCount < 2 ^ 31 → 0 ≤ nBlockStart → nBlockStart < 2 ^ 31 →
      (paidCycles network (ofPaymentCount network strProposalName nPaymentCount address nAmount
        nBlockStart nFeeTXHash nAlloted)).ncard = nPaymentCount.toNat := by
  intro h
  have hcount := h .testnet "roads" 143 [0x51] COIN 144 1 0 (by decide) (by decide) (by decide)
    (by decide)
  rw [ncard_paidCycles (by decide)] at hcount
  exact absurd hcount (by decide)

end CBudgetProposal
end Lytix
