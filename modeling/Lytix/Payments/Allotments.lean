import Lytix.Lib.FirstFit
import Lytix.Payments.Proposals
import Mathlib.Data.List.Sort

/-! The proposals that are paid in the next cycle: in the order of their votes, each that is
eligible and still fits into the budget. -/
namespace Lytix

open FirstFit

namespace CBudgetProposal

/-- The yes votes of a proposal over its no votes. -/
def votes (p : CBudgetProposal) : Int := p.getYeas - p.getNays

/-- `sortProposalsByVotes`. -/
def sortProposalsByVotes (left right : CBudgetProposal) : Bool :=
  if left.votes ≠ right.votes then left.votes > right.votes
  else left.nFeeTXHash > right.nFeeTXHash

/-- Check 1 of `GetBudget`. -/
def isEligible (env : ProposalEnv) (nBlockStart nBlockEnd : Int) (p : CBudgetProposal) : Bool :=
  p.fValid && p.inWindow nBlockStart nBlockEnd && p.votes > (env.nEnabled / 10 : Nat) &&
    p.isEstablished env

def setAllotted (p : CBudgetProposal) (nAlloted : Int) : CBudgetProposal :=
  { p with nAlloted := nAlloted }

end CBudgetProposal

open CBudgetProposal

/-- The proposals from the best rank to the last. -/
def byRank (ps : List CBudgetProposal) : List CBudgetProposal :=
  ps.insertionSort fun left right => !sortProposalsByVotes right left

section
variable (env : ProposalEnv)

/-- The loop over the sorted proposals: those that are returned, and all of them afterwards. -/
def allotInOrder (nBlockStart nBlockEnd nTotalBudget : Int) :
    Int → List CBudgetProposal → List CBudgetProposal × List CBudgetProposal
  | _, [] => ([], [])
  | nBudgetAllocated, p :: rest =>
    if p.isEligible env nBlockStart nBlockEnd then
      if toCAmount (p.nAmount + nBudgetAllocated) ≤ nTotalBudget then
        let p' := p.setAllotted p.nAmount
        let (returned, all) := allotInOrder nBlockStart nBlockEnd nTotalBudget
          (toCAmount (nBudgetAllocated + p.nAmount)) rest
        (p' :: returned, p' :: all)
      else
        let (returned, all) :=
          allotInOrder nBlockStart nBlockEnd nTotalBudget nBudgetAllocated rest
        (returned, p.setAllotted 0 :: all)
    else
      let (returned, all) := allotInOrder nBlockStart nBlockEnd nTotalBudget nBudgetAllocated rest
      (returned, p :: all)

/-- The proposals that are returned, and all of `mapProposals` afterwards, in the order of their
ranks where there is a tip. -/
def getBudget (mapProposals : List CBudgetProposal) :
    List CBudgetProposal × List CBudgetProposal :=
  let vBudgetProposals := mapProposals.map (cleanAndRemove env)
  match env.chain.tip with
  | none => ([], vBudgetProposals)
  | some nHeight =>
    let nBlockStart := nextCycleStart env.chain.network nHeight
    let nBlockEnd := nBlockStart + getBudgetPaymentCycleBlocks env.chain.network - 1
    allotInOrder env nBlockStart nBlockEnd (getTotalBudget env.chain nBlockStart) 0
      (byRank vBudgetProposals)

/-- The start of the cycle that is planned. -/
def plannedStart : Int := nextCycleStart env.chain.network (env.chain.tip.getD 0)

/-- Whether the proposal passes the first check, once its votes are marked. -/
def passesFirstCheck (p : CBudgetProposal) : Bool :=
  env.chain.tip.isSome && (p.cleanAndRemove env).isEligible env (plannedStart env)
    (plannedStart env + getBudgetPaymentCycleBlocks env.chain.network - 1)

/-- What the allotment promises. -/
structure BudgetSound (mapProposals : List CBudgetProposal) : Prop where
  /-- The proposals returned fit into the budget. -/
  bounded : ((getBudget env mapProposals).1.map nAmount).sum ≤
    getTotalBudget env.chain (plannedStart env)
  /-- A proposal that is left out does not fit with those of a better rank. -/
  greedy : ∀ p ∈ (getBudget env mapProposals).2, passesFirstCheck env p →
    p ∉ (getBudget env mapProposals).1 → getTotalBudget env.chain (plannedStart env) <
      p.nAmount + (((getBudget env mapProposals).1.filter (sortProposalsByVotes · p)).map
        nAmount).sum
  /-- The order of the map makes no difference. -/
  orderFree : ∀ mapProposals', mapProposals'.Perm mapProposals →
    (getBudget env mapProposals').1 = (getBudget env mapProposals).1
  unreturned : ∀ p ∈ (getBudget env mapProposals).2, p ∉ (getBudget env mapProposals).1 →
    p.nAlloted = 0

end

section
variable {env : ProposalEnv} {p q : CBudgetProposal} {mapProposals : List CBudgetProposal}

@[simp] theorem votes_setAllotted (n : Int) : (p.setAllotted n).votes = p.votes := rfl

@[simp] theorem nAmount_setAllotted (n : Int) : (p.setAllotted n).nAmount = p.nAmount := rfl

@[simp] theorem nFeeTXHash_setAllotted (n : Int) :
    (p.setAllotted n).nFeeTXHash = p.nFeeTXHash := rfl

@[simp] theorem nAlloted_setAllotted (n : Int) : (p.setAllotted n).nAlloted = n := rfl

@[simp] theorem cleanAndRemove_cleanAndRemove :
    (p.cleanAndRemove env).cleanAndRemove env = p.cleanAndRemove env := by
  simp [cleanAndRemove]

theorem isEligible_setAllotted (nBlockStart nBlockEnd n : Int) :
    (p.setAllotted n).isEligible env nBlockStart nBlockEnd =
      p.isEligible env nBlockStart nBlockEnd := rfl

/-- The rank is by votes, and among as many votes by the fee transaction. -/
theorem sortProposalsByVotes_iff : sortProposalsByVotes p q ↔
    q.votes < p.votes ∨ q.votes = p.votes ∧ q.nFeeTXHash < p.nFeeTXHash := by
  unfold sortProposalsByVotes
  split_ifs with hvotes
  · simp only [gt_iff_lt, decide_eq_true_eq]
    omega
  · simp only [gt_iff_lt, decide_eq_true_eq, not_not.mp hvotes, lt_irrefl, false_or, true_and]

theorem sortProposalsByVotes_asymm (h : sortProposalsByVotes p q = true) :
    sortProposalsByVotes q p = false := by
  rw [Bool.eq_false_iff]
  intro h'
  rw [sortProposalsByVotes_iff] at h h'
  bv_omega

theorem sortProposalsByVotes_total (hfee : p.nFeeTXHash ≠ q.nFeeTXHash) :
    sortProposalsByVotes p q ∨ sortProposalsByVotes q p := by
  simp only [sortProposalsByVotes_iff]
  bv_omega

theorem perm_byRank (ps : List CBudgetProposal) : (byRank ps).Perm ps := List.perm_insertionSort _ ps

/-- A sort puts each proposal before those of a lower rank. -/
theorem pairwise_byRank {ps : List CBudgetProposal} (hfees : (ps.map nFeeTXHash).Nodup) :
    (byRank ps).Pairwise
      fun p q => sortProposalsByVotes p q = true ∧ sortProposalsByVotes q p = false := by
  have htotal : Std.Total fun left right : CBudgetProposal =>
      (!sortProposalsByVotes right left) = true := by
    refine ⟨fun p q => ?_⟩
    cases hrank : sortProposalsByVotes p q with
    | true => simp [sortProposalsByVotes_asymm hrank]
    | false => simp
  have htrans : IsTrans CBudgetProposal fun left right =>
      (!sortProposalsByVotes right left) = true := by
    refine ⟨fun p q r hpq hqr => ?_⟩
    rw [Bool.not_eq_true', Bool.eq_false_iff] at hpq hqr ⊢
    rw [Ne, sortProposalsByVotes_iff] at hpq hqr ⊢
    bv_omega
  have hsorted := @List.pairwise_insertionSort _
    (fun left right : CBudgetProposal => !sortProposalsByVotes right left) _ htotal htrans ps
  have hdifferent : (byRank ps).Pairwise fun p q => p.nFeeTXHash ≠ q.nFeeTXHash :=
    List.pairwise_map.mp (((perm_byRank ps).map nFeeTXHash).nodup_iff.mpr hfees)
  refine (hsorted.and hdifferent).imp ?_
  rintro p q ⟨hrank, hfee⟩
  have hafter : sortProposalsByVotes q p = false := by simpa using hrank
  have hone := sortProposalsByVotes_total hfee
  rw [hafter] at hone
  exact ⟨by simpa using hone, hafter⟩

/-- The ranks do not depend on the order the proposals come in. -/
theorem byRank_eq_of_perm {ps ps' : List CBudgetProposal} (hfees : (ps.map nFeeTXHash).Nodup)
    (hperm : ps'.Perm ps) : byRank ps' = byRank ps := by
  have hfees' : (ps'.map nFeeTXHash).Nodup := (hperm.map nFeeTXHash).nodup_iff.mpr hfees
  refine List.Perm.eq_of_pairwise ?_ (pairwise_byRank hfees') (pairwise_byRank hfees) ?_
  · intro p q _ _ hpq hqp
    rw [hpq.2] at hqp
    exact absurd hqp.1 Bool.false_ne_true
  · exact ((perm_byRank ps').trans hperm).trans (perm_byRank ps).symm

section
variable {nBlockStart nBlockEnd nTotalBudget nBudgetAllocated : Int} {ps : List CBudgetProposal}

/-- The loop returns, with their amounts allotted, the eligible proposals that fit in order. -/
theorem allotInOrder_returned (hbudget : nTotalBudget < 2 ^ 62)
    (hamounts : ∀ p ∈ ps, 0 < p.nAmount ∧ p.nAmount < 2 ^ 62)
    (hnonneg : 0 ≤ nBudgetAllocated) (hallocated : nBudgetAllocated ≤ nTotalBudget) :
    (allotInOrder env nBlockStart nBlockEnd nTotalBudget nBudgetAllocated ps).1 =
      (fill nAmount nTotalBudget nBudgetAllocated
        (ps.filter (isEligible env nBlockStart nBlockEnd))).map
          fun p => p.setAllotted p.nAmount := by
  induction ps generalizing nBudgetAllocated with
  | nil => rfl
  | cons p rest ih =>
    have hlater := fun q hq => hamounts q (List.mem_cons_of_mem p hq)
    obtain ⟨hpositive, hamount⟩ := hamounts p List.mem_cons_self
    have hsum : toCAmount (p.nAmount + nBudgetAllocated) = p.nAmount + nBudgetAllocated :=
      toCAmount_of_lt (by omega) (by omega)
    rw [allotInOrder]
    by_cases heligible : p.isEligible env nBlockStart nBlockEnd = true
    · rw [if_pos heligible, List.filter_cons_of_pos heligible, fill, hsum]
      by_cases hfits : p.nAmount + nBudgetAllocated ≤ nTotalBudget
      · have hsame : toCAmount (nBudgetAllocated + p.nAmount) = nBudgetAllocated + p.nAmount := by
          rw [add_comm, hsum]
        simp only [if_pos hfits, List.map_cons, hsame]
        rw [ih hlater (by omega) (by omega)]
      · simp only [if_neg hfits]
        exact ih hlater hnonneg hallocated
    · rw [if_neg heligible, List.filter_cons_of_neg heligible]
      exact ih hlater hnonneg hallocated

theorem mem_returned (hq : q ∈
    (allotInOrder env nBlockStart nBlockEnd nTotalBudget nBudgetAllocated ps).1) :
    ∃ p ∈ ps, p.isEligible env nBlockStart nBlockEnd = true ∧ q = p.setAllotted p.nAmount := by
  induction ps generalizing nBudgetAllocated with
  | nil => contradiction
  | cons p rest ih =>
    have hlater : ∀ {used}, q ∈ (allotInOrder env nBlockStart nBlockEnd nTotalBudget used rest).1 →
        ∃ p' ∈ p :: rest, p'.isEligible env nBlockStart nBlockEnd = true ∧
          q = p'.setAllotted p'.nAmount := by
      intro used hmem
      obtain ⟨p', hp', hcase⟩ := ih hmem
      exact ⟨p', List.mem_cons_of_mem p hp', hcase⟩
    rw [allotInOrder] at hq
    split_ifs at hq with heligible hfits
    · rcases List.mem_cons.mp hq with rfl | hmem
      · exact ⟨p, List.mem_cons_self, heligible, rfl⟩
      · exact hlater hmem
    · exact hlater hq
    · exact hlater hq

/-- What becomes of each proposal: it is returned, or it does not fit and is allotted nothing, or
it is not eligible and keeps the allotment it had. -/
theorem mem_allotInOrder (hfees : (ps.map nFeeTXHash).Nodup)
    (hq : q ∈ (allotInOrder env nBlockStart nBlockEnd nTotalBudget nBudgetAllocated ps).2) :
    q ∈ (allotInOrder env nBlockStart nBlockEnd nTotalBudget nBudgetAllocated ps).1 ∨
      (∃ p ∈ ps, p.isEligible env nBlockStart nBlockEnd = true ∧ q = p.setAllotted 0 ∧
        p.setAllotted p.nAmount ∉
          (allotInOrder env nBlockStart nBlockEnd nTotalBudget nBudgetAllocated ps).1) ∨
      ∃ p ∈ ps, p.isEligible env nBlockStart nBlockEnd = false ∧ q = p := by
  induction ps generalizing nBudgetAllocated with
  | nil => contradiction
  | cons p rest ih =>
    rw [List.map_cons, List.nodup_cons] at hfees
    have hfee : ∀ p' ∈ rest, p'.nFeeTXHash ≠ p.nFeeTXHash :=
      fun p' hp' hsame => hfees.1 (hsame ▸ List.mem_map_of_mem hp')
    have hother : ∀ {used n}, p.setAllotted n ∉
        (allotInOrder env nBlockStart nBlockEnd nTotalBudget used rest).1 := by
      intro used n hmem
      obtain ⟨p', hp', _, hsame⟩ := mem_returned hmem
      have hsameFee : (p.setAllotted n).nFeeTXHash = (p'.setAllotted p'.nAmount).nFeeTXHash := by
        rw [hsame]
      exact hfee p' hp' hsameFee.symm
    have hlater : ∀ {used returned},
        q ∈ (allotInOrder env nBlockStart nBlockEnd nTotalBudget used rest).2 →
        returned.Sublist (p.setAllotted p.nAmount ::
          (allotInOrder env nBlockStart nBlockEnd nTotalBudget used rest).1) →
        (allotInOrder env nBlockStart nBlockEnd nTotalBudget used rest).1.Sublist returned →
        q ∈ returned ∨ (∃ p' ∈ p :: rest, p'.isEligible env nBlockStart nBlockEnd = true ∧
          q = p'.setAllotted 0 ∧ p'.setAllotted p'.nAmount ∉ returned) ∨
        ∃ p' ∈ p :: rest, p'.isEligible env nBlockStart nBlockEnd = false ∧ q = p' := by
      intro used returned hmem hupper hlower
      rcases ih hfees.2 hmem with hret | ⟨p', hp', hcheck, hzero, hout⟩ | ⟨p', hp', hcase⟩
      · exact Or.inl (hlower.subset hret)
      · refine Or.inr (Or.inl ⟨p', List.mem_cons_of_mem p hp', hcheck, hzero, ?_⟩)
        intro hin
        rcases List.mem_cons.mp (hupper.subset hin) with hsame | hrest
        · have hsameFee : (p'.setAllotted p'.nAmount).nFeeTXHash =
              (p.setAllotted p.nAmount).nFeeTXHash := by
            rw [hsame]
          exact hfee p' hp' hsameFee
        · exact hout hrest
      · exact Or.inr (Or.inr ⟨p', List.mem_cons_of_mem p hp', hcase⟩)
    rw [allotInOrder] at hq ⊢
    split_ifs at hq ⊢ with heligible hfits
    · rcases List.mem_cons.mp hq with rfl | hmem
      · exact Or.inl List.mem_cons_self
      · exact hlater hmem (List.Sublist.refl _) (List.sublist_cons_self _ _)
    · rcases List.mem_cons.mp hq with rfl | hmem
      · exact Or.inr (Or.inl ⟨p, List.mem_cons_self, heligible, rfl, hother⟩)
      · exact hlater hmem (List.sublist_cons_self _ _) (List.Sublist.refl _)
    · rcases List.mem_cons.mp hq with rfl | hmem
      · exact Or.inr (Or.inr ⟨q, List.mem_cons_self, by simpa using heligible, rfl⟩)
      · exact hlater hmem (List.sublist_cons_self _ _) (List.Sublist.refl _)

/-- A proposal that is not eligible is left as it was. -/
theorem mem_allotInOrder_of_not_eligible (hp : p ∈ ps)
    (hcheck : p.isEligible env nBlockStart nBlockEnd = false) :
    p ∈ (allotInOrder env nBlockStart nBlockEnd nTotalBudget nBudgetAllocated ps).2 := by
  induction ps generalizing nBudgetAllocated with
  | nil => contradiction
  | cons p' rest ih =>
    rw [allotInOrder]
    rcases List.mem_cons.mp hp with rfl | hmem
    · rw [hcheck, if_neg Bool.false_ne_true]
      exact List.mem_cons_self
    · split_ifs
      · exact List.mem_cons_of_mem _ (ih hmem)
      · exact List.mem_cons_of_mem _ (ih hmem)
      · exact List.mem_cons_of_mem _ (ih hmem)

end

/-- What the loop runs over. -/
def ranked (env : ProposalEnv) (mapProposals : List CBudgetProposal) : List CBudgetProposal :=
  byRank (mapProposals.map (cleanAndRemove env))

theorem getBudget_of_tip {nHeight : Int} (htip : env.chain.tip = some nHeight) :
    getBudget env mapProposals = allotInOrder env (plannedStart env)
      (plannedStart env + getBudgetPaymentCycleBlocks env.chain.network - 1)
      (getTotalBudget env.chain (plannedStart env)) 0 (ranked env mapProposals) := by
  rw [getBudget, plannedStart, htip]
  rfl

theorem getBudget_of_no_tip (htip : env.chain.tip = none) :
    getBudget env mapProposals = ([], mapProposals.map (cleanAndRemove env)) := by
  rw [getBudget, htip]

theorem passesFirstCheck_of_tip {nHeight : Int} (htip : env.chain.tip = some nHeight) :
    passesFirstCheck env p = (p.cleanAndRemove env).isEligible env (plannedStart env)
      (plannedStart env + getBudgetPaymentCycleBlocks env.chain.network - 1) := by
  rw [passesFirstCheck, htip, Option.isSome_some, Bool.true_and]

section
variable (hfees : (mapProposals.map nFeeTXHash).Nodup)
include hfees

theorem nodup_fees_cleaned : ((mapProposals.map (cleanAndRemove env)).map nFeeTXHash).Nodup := by
  rw [List.map_map]
  exact hfees

theorem nodup_fees_ranked : ((ranked env mapProposals).map nFeeTXHash).Nodup :=
  ((perm_byRank _).map nFeeTXHash).nodup_iff.mpr (nodup_fees_cleaned hfees)

end

section
variable {nHeight : Int} (htip : env.chain.tip = some nHeight)
  (hfees : (mapProposals.map nFeeTXHash).Nodup)
  (hamounts : ∀ p ∈ mapProposals, p.AmountAdmitted env.chain)

theorem mem_ranked : q ∈ ranked env mapProposals ↔ ∃ p ∈ mapProposals, p.cleanAndRemove env = q := by
  rw [ranked, (perm_byRank _).mem_iff, List.mem_map]

include htip hamounts in
theorem getBudget_returned : (getBudget env mapProposals).1 =
    (fill nAmount (getTotalBudget env.chain (plannedStart env)) 0
      ((ranked env mapProposals).filter (isEligible env (plannedStart env)
        (plannedStart env + getBudgetPaymentCycleBlocks env.chain.network - 1)))).map
      fun p => p.setAllotted p.nAmount := by
  rw [getBudget_of_tip htip]
  refine allotInOrder_returned (getTotalBudget_lt _) ?_ le_rfl (getTotalBudget_nonneg _)
  intro q hq
  obtain ⟨p, hp, rfl⟩ := mem_ranked.mp hq
  exact (hamounts p hp).bounds

include hamounts in
theorem getBudget_bounded : ((getBudget env mapProposals).1.map nAmount).sum ≤
    getTotalBudget env.chain (plannedStart env) := by
  cases htip : env.chain.tip with
  | none =>
    rw [getBudget_of_no_tip htip]
    exact getTotalBudget_nonneg _
  | some nHeight =>
    rw [getBudget_returned htip hamounts, List.map_map]
    have hbound := @sum_fill_le _ nAmount (getTotalBudget env.chain (plannedStart env)) 0
      ((ranked env mapProposals).filter (isEligible env (plannedStart env)
        (plannedStart env + getBudgetPaymentCycleBlocks env.chain.network - 1)))
      (getTotalBudget_nonneg _)
    rw [zero_add] at hbound
    exact hbound

include hfees in
theorem getBudget_orderFree {mapProposals' : List CBudgetProposal}
    (hperm : mapProposals'.Perm mapProposals) :
    (getBudget env mapProposals').1 = (getBudget env mapProposals).1 := by
  cases htip : env.chain.tip with
  | none => rw [getBudget_of_no_tip htip, getBudget_of_no_tip htip]
  | some nHeight =>
    have hranked : ranked env mapProposals' = ranked env mapProposals :=
      byRank_eq_of_perm (nodup_fees_cleaned hfees) (hperm.map _)
    rw [getBudget_of_tip htip, getBudget_of_tip htip, hranked]

include htip hfees in
/-- A proposal afterwards is returned, or left out although it passes the first check, or kept. -/
theorem mem_getBudget (hq : q ∈ (getBudget env mapProposals).2) :
    q ∈ (getBudget env mapProposals).1 ∨
      (∃ p ∈ ranked env mapProposals, passesFirstCheck env p = true ∧ q = p.setAllotted 0 ∧
        p.setAllotted p.nAmount ∉ (getBudget env mapProposals).1) ∨
      ∃ p ∈ mapProposals, passesFirstCheck env p = false ∧ q = p.cleanAndRemove env := by
  rw [getBudget_of_tip htip] at hq ⊢
  rcases mem_allotInOrder (nodup_fees_ranked hfees) hq with
    hret | ⟨p, hp, hcheck, hzero, hout⟩ | ⟨p, hp, hcheck, rfl⟩
  · exact Or.inl hret
  · refine Or.inr (Or.inl ⟨p, hp, ?_, hzero, hout⟩)
    obtain ⟨p', _, rfl⟩ := mem_ranked.mp hp
    rw [passesFirstCheck_of_tip htip, cleanAndRemove_cleanAndRemove]
    exact hcheck
  · obtain ⟨p', hp', rfl⟩ := mem_ranked.mp hp
    refine Or.inr (Or.inr ⟨p', hp', ?_, rfl⟩)
    rw [passesFirstCheck_of_tip htip]
    exact hcheck

include htip hfees hamounts in
theorem getBudget_leftOut (hp : p ∈ ranked env mapProposals)
    (hcheck : passesFirstCheck env p = true)
    (hout : p.setAllotted p.nAmount ∉ (getBudget env mapProposals).1) :
    getTotalBudget env.chain (plannedStart env) <
      p.nAmount + (((getBudget env mapProposals).1.filter (sortProposalsByVotes · p)).map
        nAmount).sum := by
  obtain ⟨p', hp', rfl⟩ := mem_ranked.mp hp
  rw [passesFirstCheck_of_tip htip, cleanAndRemove_cleanAndRemove] at hcheck
  rw [getBudget_returned htip hamounts] at hout ⊢
  have hleft := @fill_leftOut _ nAmount (getTotalBudget env.chain (plannedStart env)) 0 _ _
    sortProposalsByVotes ((pairwise_byRank (nodup_fees_cleaned hfees)).filter _)
    (List.mem_filter.mpr ⟨hp, hcheck⟩) fun hin => hout (List.mem_map.mpr ⟨_, hin, rfl⟩)
  rw [List.filter_map, List.map_map]
  rw [add_zero] at hleft
  exact hleft

end

end

/-- The allotment keeps its promises exactly where each proposal that fails the first check was
allotted nothing before. -/
theorem getBudget_sound_iff (env : ProposalEnv) (mapProposals : List CBudgetProposal)
    (hfees : (mapProposals.map nFeeTXHash).Nodup)
    (hamounts : ∀ p ∈ mapProposals, p.AmountAdmitted env.chain) :
    BudgetSound env mapProposals ↔
      ∀ p ∈ mapProposals, passesFirstCheck env p = false → p.nAlloted = 0 := by
  constructor
  · intro sound p hp hcheck
    cases htip : env.chain.tip with
    | none =>
      have hunreturned := sound.unreturned
      rw [getBudget_of_no_tip htip] at hunreturned
      exact hunreturned (p.cleanAndRemove env) (List.mem_map_of_mem hp) List.not_mem_nil
    | some nHeight =>
      have hranked : p.cleanAndRemove env ∈ ranked env mapProposals := mem_ranked.mpr ⟨p, hp, rfl⟩
      rw [passesFirstCheck_of_tip htip] at hcheck
      refine sound.unreturned (p.cleanAndRemove env) ?_ ?_
      · rw [getBudget_of_tip htip]
        exact mem_allotInOrder_of_not_eligible hranked hcheck
      · intro hin
        rw [getBudget_of_tip htip] at hin
        obtain ⟨p', _, heligible, hsame⟩ := mem_returned hin
        rw [hsame, isEligible_setAllotted, heligible] at hcheck
        exact absurd hcheck (by simp)
  · intro hbefore
    refine ⟨getBudget_bounded hamounts, ?_, fun _ => getBudget_orderFree hfees, ?_⟩
    · intro q hq hcheck hout
      cases htip : env.chain.tip with
      | none => simp [passesFirstCheck, htip] at hcheck
      | some nHeight =>
        rcases mem_getBudget htip hfees hq with hret | ⟨p, hp, hpass, rfl, hleft⟩ | ⟨p, _, hfail, rfl⟩
        · exact absurd hret hout
        · have hlimit := getBudget_leftOut htip hfees hamounts hp hpass hleft
          exact hlimit
        · rw [passesFirstCheck_of_tip htip, cleanAndRemove_cleanAndRemove] at hcheck
          rw [passesFirstCheck_of_tip htip, hcheck] at hfail
          contradiction
    · intro q hq hout
      cases htip : env.chain.tip with
      | none =>
        rw [getBudget_of_no_tip htip] at hq
        obtain ⟨p, hp, rfl⟩ := List.mem_map.mp hq
        exact hbefore p hp (by simp [passesFirstCheck, htip])
      | some nHeight =>
        rcases mem_getBudget htip hfees hq with hret | ⟨p, _, _, rfl, _⟩ | ⟨p, hp, hfail, rfl⟩
        · exact absurd hret hout
        · rfl
        · exact hbefore p hp hfail

/-- A node on the test network at a height, with one masternode. -/
def votedNode (nHeight : Int) : ProposalEnv where
  chain := ⟨.testnet, some nHeight⟩
  now := 1000000
  nEnabled := 1
  hasMasternode := fun _ => true
  isBudgetCollateralValid := fun _ => none

/-- A proposal with one vote for it, from block 144 to block 289. -/
def votedProposal (nAlloted : Int) : CBudgetProposal where
  fValid := true
  strProposalName := "roads"
  nBlockStart := 144
  nBlockEnd := 289
  nAmount := 20 * COIN
  address := [0x51]
  nTime := 0
  nFeeTXHash := 1
  mapVotes := [⟨⟨⟨⟨1, 0⟩, [], 0⟩, 1, VOTE_YES, 0, []⟩, true⟩]
  nAlloted := nAlloted

theorem getBudget_sound_iff_voted : BudgetSound (votedNode 100) [votedProposal 0] ↔
    ∀ p ∈ [votedProposal 0], passesFirstCheck (votedNode 100) p = false → p.nAlloted = 0 :=
  getBudget_sound_iff (votedNode 100) [votedProposal 0] (by decide) (by
    intro p hp
    rw [List.mem_singleton.mp hp]
    exact ⟨by decide, by decide⟩)

/-- The allotment of the last cycle stays where the proposal has run out. -/
theorem not_getBudget_sound :
    ¬∀ (env : ProposalEnv) (mapProposals : List CBudgetProposal),
      (mapProposals.map nFeeTXHash).Nodup → (∀ p ∈ mapProposals, p.AmountAdmitted env.chain) →
      BudgetSound env mapProposals := by
  intro h
  have sound := h (votedNode 300) (getBudget (votedNode 100) [votedProposal 0]).2 (by decide) (by
    intro p hp
    have hcases : (getBudget (votedNode 100) [votedProposal 0]).2 =
        [votedProposal (20 * COIN)] := by decide
    rw [hcases] at hp
    rw [List.mem_singleton.mp hp]
    exact ⟨by decide, by decide⟩)
  have hzero := sound.unreturned (votedProposal (20 * COIN)) (by decide) (by decide)
  exact absurd hzero (by decide)

end Lytix
