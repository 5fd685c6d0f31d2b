import Lytix.Kernel.StakeAgreement

/-! Two nodes and one block. The kernel modifier is read off the active chain, so the nodes agree
on it as far as both active chains hold the part of the block's ancestry that is walked. -/
namespace Lytix
open Ancestry

/-- Both nodes know a block's ancestors and hold the same entries and blocks for them. -/
structure SharesAncestry (node₁ node₂ : Node) (B : Uint256) : Prop where
  known : ∀ a, IsAncestor node₁.view.pprev a B →
    node₁.view.mapBlockIndex a = true ∧ node₂.view.mapBlockIndex a = true
  entry : ∀ a, IsAncestor node₁.view.pprev a B → node₂.view.index a = node₁.view.index a
  stored : ∀ a, IsAncestor node₁.view.pprev a B →
    node₂.readBlockFromDisk a = node₁.readBlockFromDisk a

/-- The entry `w` ends the selection interval of the coins of a block below it. -/
structure ClosesInterval (view : ChainView) (hashBlockFrom w : Uint256) : Prop where
  below : IsAncestor view.pprev hashBlockFrom w
  height : (view.index hashBlockFrom).nHeight < (view.index w).nHeight
  generated : (view.index w).generatedStakeModifier = true
  late : (view.index hashBlockFrom).getBlockTime + getStakeModifierSelectionInterval ≤
    (view.index w).getBlockTime

/-- The kernel of a block is looked up within the chain up to `w`, on both nodes. -/
inductive KernelBelow (env : KernelEnv) (node₁ node₂ : Node) (txin : CTxIn) (w : Uint256) :
    CTransaction → Prop where
  | piv (tx txPrev : CTransaction) (hashFrom : Uint256)
      (plain : tx.isZerocoinSpend = false)
      (found₁ : node₁.getTransaction txin.prevout.hash = some (txPrev, hashFrom))
      (found₂ : node₂.getTransaction txin.prevout.hash = some (txPrev, hashFrom))
      (closes : ClosesInterval node₁.view hashFrom w) :
      KernelBelow env node₁ node₂ txin w tx
  | zpiv (tx : CTransaction) (spend : CoinSpend) (pindexFrom : Uint256)
      (zerocoin : tx.isZerocoinSpend = true)
      (network : node₂.network = node₁.network)
      (parsed : env.txInToZerocoinSpend txin = some spend)
      (first : (CStakeInput.zpiv spend.accChecksum false spend.denomination 0).getIndexFrom node₁ =
        some pindexFrom)
      (below : IsAncestor node₁.view.pprev pindexFrom w)
      (late : 60 * 60 <
        (node₁.view.index w).getBlockTime - (node₁.view.index pindexFrom).getBlockTime) :
      KernelBelow env node₁ node₂ txin w tx

namespace ChainView

variable {view view₁ view₂ : ChainView} {a w : Uint256}

/-- The ancestors of a block on the active chain are on it. -/
theorem contains_of_isAncestor (hw : view.contains w = true)
    (ha : IsAncestor view.pprev a w) : view.contains a = true := by
  induction ha with
  | refl => exact hw
  | tail _ hparent ih =>
    rename_i x y _
    rw [contains_iff] at ih
    cases hheight : (view.index x).nHeight with
    | zero =>
      rw [hheight] at ih
      have hnone := linked_parent_zero view.linked ih
      exact absurd (hnone.symm.trans hparent) (by simp)
    | succ i =>
      rw [hheight] at ih
      have hprev := linked_parent_succ view.linked ih
      exact contains_of_getElem? (hprev.symm.trans hparent)

/-- An ancestor on the active chain is at most as high. -/
theorem nHeight_le_of_isAncestor (hw : view.contains w = true)
    (ha : IsAncestor view.pprev a w) : (view.index a).nHeight ≤ (view.index w).nHeight := by
  induction ha with
  | refl => exact le_rfl
  | tail hx hparent ih =>
    rename_i x y
    have hcontains := contains_of_isAncestor hw hx
    rw [contains_iff] at hcontains
    cases hheight : (view.index x).nHeight with
    | zero =>
      rw [hheight] at hcontains
      have hnone := linked_parent_zero view.linked hcontains
      exact absurd (hnone.symm.trans hparent) (by simp)
    | succ i =>
      rw [hheight] at hcontains
      have hprev := linked_parent_succ view.linked hcontains
      have hy := view.heights i y (hprev.symm.trans hparent)
      omega

/-- The active chain around one of its blocks. -/
theorem chainActive_split (hw : view.contains w = true) :
    view.chainActive = view.chainActive.take (view.index w).nHeight ++
      w :: view.chainActive.drop ((view.index w).nHeight + 1) := by
  rw [contains_iff] at hw
  obtain ⟨hlen, hget⟩ := List.getElem?_eq_some_iff.mp hw
  conv_lhs => rw [← List.take_append_drop (view.index w).nHeight view.chainActive]
  rw [List.drop_eq_getElem_cons hlen, hget]

theorem drop_chainActive (hw : view.contains w = true) {n : ℕ}
    (hn : n ≤ (view.index w).nHeight) :
    view.chainActive.drop n = (view.chainActive.take (view.index w).nHeight).drop n ++
      w :: view.chainActive.drop ((view.index w).nHeight + 1) := by
  have hlen : (view.index w).nHeight < view.chainActive.length :=
    (List.getElem?_eq_some_iff.mp (contains_iff.mp hw)).1
  conv_lhs => rw [chainActive_split hw]
  rw [List.drop_append_of_le_length]
  rw [List.length_take]
  omega

/-- Two walks with a common beginning that ends the interval stop there at the same entry. -/
theorem kernelModifierLoop_agree (nTimeStop nTime : Int) (pindex : Uint256)
    (before after₁ after₂ : List Uint256)
    (hentry : ∀ a ∈ before ++ [w], view₂.index a = view₁.index a)
    (hgen : (view₁.index w).generatedStakeModifier = true)
    (hlate : nTimeStop ≤ (view₁.index w).getBlockTime) :
    ∃ p ∈ pindex :: (before ++ [w]),
      view₁.kernelModifierLoop nTimeStop pindex nTime (before ++ w :: after₁) = some p ∧
      view₂.kernelModifierLoop nTimeStop pindex nTime (before ++ w :: after₂) = some p := by
  induction before generalizing pindex nTime with
  | nil =>
    have hw := hentry w (by simp)
    by_cases htime : nTime < nTimeStop
    · refine ⟨w, by simp, ?_, ?_⟩
      · cases after₁ <;> simp [kernelModifierLoop, htime, hgen, not_lt.mpr hlate]
      · cases after₂ <;> simp [kernelModifierLoop, htime, hw, hgen, not_lt.mpr hlate]
    · refine ⟨pindex, by simp, ?_, ?_⟩ <;> simp [kernelModifierLoop, htime]
  | cons x before ih =>
    by_cases htime : nTime < nTimeStop
    · have hx := hentry x (by simp)
      obtain ⟨p, hp, h₁, h₂⟩ := ih
        (if (view₁.index x).generatedStakeModifier then (view₁.index x).getBlockTime else nTime) x
        (fun a ha => hentry a (List.mem_cons_of_mem x ha))
      refine ⟨p, List.mem_cons_of_mem _ hp, ?_, ?_⟩
      · simpa [kernelModifierLoop, htime] using h₁
      · simpa [kernelModifierLoop, htime, hx] using h₂
    · refine ⟨pindex, by simp, ?_, ?_⟩ <;> simp [kernelModifierLoop, htime]

theorem accumulatorModifierLoop_agree {nTimeFrom : Int} {before after₁ after₂ : List Uint256}
    (hentry : ∀ a ∈ before ++ [w], view₂.index a = view₁.index a)
    (hlate : 60 * 60 < (view₁.index w).getBlockTime - nTimeFrom) :
    view₂.accumulatorModifierLoop nTimeFrom (before ++ w :: after₂) =
      view₁.accumulatorModifierLoop nTimeFrom (before ++ w :: after₁) := by
  induction before with
  | nil =>
    have hw := hentry w (by simp)
    simp only [List.nil_append, accumulatorModifierLoop, hw, if_pos hlate]
  | cons x before ih =>
    have hx := hentry x (by simp)
    have hrest := ih (fun a ha => hentry a (List.mem_cons_of_mem x ha))
    simp only [List.cons_append, accumulatorModifierLoop, hx]
    rw [hrest]

/-- The rounds left only have to reach the height that is found. -/
theorem checksumHeightLoop_agree {nChecksum : UInt32} {denomination : CoinDenomination}
    {top m : ℕ} (hchain : ∀ j ≤ top, view₁.chainActive[j]? = view₂.chainActive[j]?)
    (hentry : ∀ j ≤ top, ∀ pindex, view₁.chainActive[j]? = some pindex →
      view₂.index pindex = view₁.index pindex)
    (htop : (top : Int) ≤ view₂.height) (hm : m ≤ top) (hpos : m ≠ 0) (rounds₁ : ℕ) :
    ∀ rounds₂ nHeight,
      view₁.checksumHeightLoop nChecksum denomination rounds₁ nHeight = m →
      nHeight ≤ m ∧ (m < nHeight + rounds₂ →
        view₂.checksumHeightLoop nChecksum denomination rounds₂ nHeight = m) := by
  induction rounds₁ with
  | zero =>
    intro rounds₂ nHeight h
    exact absurd h.symm hpos
  | succ rounds₁ ih =>
    intro rounds₂ nHeight h
    simp only [checksumHeightLoop] at h
    split at h
    · exact absurd h.symm hpos
    · rename_i pindex hget
      split_ifs at h with hfound hten hend
      · refine ⟨h.le, fun hrounds => ?_⟩
        obtain ⟨rounds, rfl⟩ : ∃ r, rounds₂ = r + 1 := ⟨rounds₂ - 1, by omega⟩
        have hget₂ := (hchain nHeight (by omega)).symm.trans hget
        have hindex := hentry nHeight (by omega) pindex hget
        simp only [checksumHeightLoop, hget₂, hindex, if_pos hfound]
        exact h
      · exact absurd h.symm hpos
      · have hle := (ih 0 (nHeight + 10) h).1
        refine ⟨by omega, fun hrounds => ?_⟩
        obtain ⟨rounds, rfl⟩ : ∃ r, rounds₂ = r + 1 := ⟨rounds₂ - 1, by omega⟩
        have hget₂ := (hchain nHeight (by omega)).symm.trans hget
        have hindex := hentry nHeight (by omega) pindex hget
        have hend₂ : ¬ view₂.height < (nHeight : Int) + 10 := by omega
        simp only [checksumHeightLoop, hget₂, hindex, if_neg hfound, if_pos hten, if_neg hend₂]
        exact (ih rounds (nHeight + 10) h).2 (by omega)
      · have hle := (ih 0 (nHeight + 1) h).1
        refine ⟨by omega, fun hrounds => ?_⟩
        obtain ⟨rounds, rfl⟩ : ∃ r, rounds₂ = r + 1 := ⟨rounds₂ - 1, by omega⟩
        have hget₂ := (hchain nHeight (by omega)).symm.trans hget
        have hindex := hentry nHeight (by omega) pindex hget
        simp only [checksumHeightLoop, hget₂, hindex, if_neg hfound, if_neg hten]
        exact (ih rounds (nHeight + 1) h).2 (by omega)

theorem isAncestor_of_mem_before (hw : view.contains w = true) {n : ℕ}
    (ha : a ∈ (view.chainActive.take (view.index w).nHeight).drop n ++ [w]) :
    IsAncestor view.pprev a w := by
  rcases List.mem_append.mp ha with ha | ha
  · have htake := List.mem_of_mem_drop ha
    obtain ⟨j, hj⟩ := List.getElem?_of_mem htake
    rw [List.getElem?_take] at hj
    split_ifs at hj with hlt
    exact linked_getElem?_isAncestor view.linked (contains_iff.mp hw) hlt.le hj
  · rw [List.mem_singleton.mp ha]
    exact IsAncestor.refl _ w

end ChainView

section
variable {env : KernelEnv} {node₁ node₂ : Node} {w hashFrom : Uint256}

theorem SharesAncestry.mono {B : Uint256} (hshare : SharesAncestry node₁ node₂ B)
    (hw : IsAncestor node₁.view.pprev w B) : SharesAncestry node₁ node₂ w where
  known a ha := hshare.known a (ha.trans hw)
  entry a ha := hshare.entry a (ha.trans hw)
  stored a ha := hshare.stored a (ha.trans hw)

variable (hshare : SharesAncestry node₁ node₂ w) (h₁ : node₁.view.contains w = true)
  (h₂ : node₂.view.contains w = true)

include hshare h₁ h₂

theorem SharesAncestry.take_agree :
    node₂.view.chainActive.take (node₁.view.index w).nHeight =
      node₁.view.chainActive.take (node₁.view.index w).nHeight := by
  apply List.ext_getElem?
  intro j
  rw [List.getElem?_take, List.getElem?_take]
  split_ifs with hj
  · exact (ChainView.chains_agree hshare.entry h₁ h₂ hj.le).symm
  · rfl

/-- What both active chains hold from a height at most that of `w` on. -/
theorem SharesAncestry.drop_split {n : ℕ} (hn : n ≤ (node₁.view.index w).nHeight) :
    ∃ before after₁ after₂,
      node₁.view.chainActive.drop n = before ++ w :: after₁ ∧
      node₂.view.chainActive.drop n = before ++ w :: after₂ ∧
      ∀ a ∈ before ++ [w], IsAncestor node₁.view.pprev a w := by
  have hw := hshare.entry w (IsAncestor.refl _ w)
  have hdrop₂ := ChainView.drop_chainActive h₂ (n := n) (by rw [hw]; exact hn)
  rw [hw, SharesAncestry.take_agree hshare h₁ h₂] at hdrop₂
  exact ⟨_, _, _, ChainView.drop_chainActive h₁ hn, hdrop₂,
    fun a ha => ChainView.isAncestor_of_mem_before h₁ ha⟩

theorem SharesAncestry.contains_agree {a : Uint256} (ha : IsAncestor node₁.view.pprev a w) :
    node₁.view.contains a = true ∧ node₂.view.contains a = true := by
  have hcontains := ChainView.contains_of_isAncestor h₁ ha
  refine ⟨hcontains, ?_⟩
  have hle := ChainView.nHeight_le_of_isAncestor h₁ ha
  rw [ChainView.contains_iff, hshare.entry a ha,
    ← ChainView.chains_agree hshare.entry h₁ h₂ hle]
  exact ChainView.contains_iff.mp hcontains

/-- The kernel modifier of a coin whose interval ends within the shared chain. -/
theorem SharesAncestry.getKernelStakeModifier_agree
    (hcloses : ClosesInterval node₁.view hashFrom w) :
    ∃ nStakeModifier, node₁.view.getKernelStakeModifier hashFrom = some nStakeModifier ∧
      node₂.view.getKernelStakeModifier hashFrom = some nStakeModifier := by
  have hfrom := hshare.entry hashFrom hcloses.below
  obtain ⟨hknown₁, hknown₂⟩ := hshare.known hashFrom hcloses.below
  have hheight := hcloses.height
  obtain ⟨before, after₁, after₂, hrest₁, hrest₂, habove⟩ :=
    SharesAncestry.drop_split hshare h₁ h₂
      (show (node₁.view.index hashFrom).nHeight + 1 ≤ (node₁.view.index w).nHeight by omega)
  have hentry : ∀ a ∈ before ++ [w], node₂.view.index a = node₁.view.index a := by
    intro a ha
    exact hshare.entry a (habove a ha)
  obtain ⟨p, hp, hloop₁, hloop₂⟩ := ChainView.kernelModifierLoop_agree
    ((node₁.view.index hashFrom).getBlockTime + getStakeModifierSelectionInterval)
    (node₁.view.index hashFrom).getBlockTime hashFrom before after₁ after₂ hentry
    hcloses.generated hcloses.late
  have hblock₁ : node₁.view.kernelModifierBlock hashFrom = some p := by
    simp only [ChainView.kernelModifierBlock, hknown₁, Bool.not_true, Bool.false_eq_true, if_false,
      hrest₁, hloop₁]
  have hblock₂ : node₂.view.kernelModifierBlock hashFrom = some p := by
    simp only [ChainView.kernelModifierBlock, hknown₂, Bool.not_true, Bool.false_eq_true, if_false,
      hfrom, hrest₂, hloop₂]
  have hindex : node₂.view.index p = node₁.view.index p := by
    rcases List.mem_cons.mp hp with rfl | hp
    · exact hfrom
    · exact hentry p hp
  refine ⟨(node₁.view.index p).nStakeModifier, ?_, ?_⟩
  · simp [ChainView.getKernelStakeModifier, hblock₁]
  · simp [ChainView.getKernelStakeModifier, hblock₂, hindex]

theorem SharesAncestry.getIndexFrom_piv_agree {txPrev : CTransaction} {n : ℕ}
    (hfrom : IsAncestor node₁.view.pprev hashFrom w)
    (hfound₁ : node₁.getTransaction txPrev.hash = some (txPrev, hashFrom))
    (hfound₂ : node₂.getTransaction txPrev.hash = some (txPrev, hashFrom)) :
    (CStakeInput.piv txPrev n).getIndexFrom node₁ = some hashFrom ∧
      (CStakeInput.piv txPrev n).getIndexFrom node₂ = some hashFrom := by
  obtain ⟨hknown₁, hknown₂⟩ := hshare.known hashFrom hfrom
  obtain ⟨hon₁, hon₂⟩ := SharesAncestry.contains_agree hshare h₁ h₂ hfrom
  constructor
  · simp [CStakeInput.getIndexFrom, hfound₁, hknown₁, hon₁]
  · simp [CStakeInput.getIndexFrom, hfound₂, hknown₂, hon₂]

theorem SharesAncestry.getIndexFrom_zpiv_agree (hnetwork : node₂.network = node₁.network)
    {nChecksum : UInt32} {denom : CoinDenomination} {hashSerial : Uint256}
    (hfirst : (CStakeInput.zpiv nChecksum false denom hashSerial).getIndexFrom node₁ =
      some hashFrom)
    (hfrom : IsAncestor node₁.view.pprev hashFrom w) :
    (CStakeInput.zpiv nChecksum false denom hashSerial).getIndexFrom node₂ = some hashFrom := by
  simp only [CStakeInput.getIndexFrom, Bool.false_eq_true, if_false] at hfirst ⊢
  rw [hnetwork]
  split_ifs at hfirst with hrange
  have hstart : 0 < (Params node₁.network).nZerocoinStartHeight := by
    cases node₁.network <;> decide
  have hget : node₁.view.chainActive[node₁.view.getChecksumHeight node₁.network nChecksum denom]? =
      some hashFrom := by
    rw [ChainView.chainAt, if_neg (by omega)] at hfirst
    simpa using hfirst
  have hheight := node₁.view.heights _ _ hget
  have hle := ChainView.nHeight_le_of_isAncestor h₁ hfrom
  have htop : (node₁.view.index w).nHeight < node₂.view.chainActive.length := by
    rw [← hshare.entry w (IsAncestor.refl _ w)]
    exact (List.getElem?_eq_some_iff.mp (ChainView.contains_iff.mp h₂)).1
  have hchain : ∀ j ≤ (node₁.view.index w).nHeight,
      node₁.view.chainActive[j]? = node₂.view.chainActive[j]? := by
    intro j hj
    exact ChainView.chains_agree hshare.entry h₁ h₂ hj
  have hsame : node₂.view.getChecksumHeight node₁.network nChecksum denom =
      node₁.view.getChecksumHeight node₁.network nChecksum denom := by
    have hentry : ∀ j ≤ (node₁.view.index w).nHeight, ∀ pindex,
        node₁.view.chainActive[j]? = some pindex →
        node₂.view.index pindex = node₁.view.index pindex := by
      intro j hj pindex hpindex
      exact hshare.entry pindex
        (linked_getElem?_isAncestor node₁.view.linked (ChainView.contains_iff.mp h₁) hj hpindex)
    have hm : node₁.view.getChecksumHeight node₁.network nChecksum denom ≤
        (node₁.view.index w).nHeight := by omega
    have hpos : node₁.view.getChecksumHeight node₁.network nChecksum denom ≠ 0 := by omega
    have hreach : ((node₁.view.index w).nHeight : Int) ≤ node₂.view.height := by
      rw [ChainView.height]
      omega
    have hloop := ChainView.checksumHeightLoop_agree hchain hentry hreach hm hpos _
      node₂.view.chainActive.length (Params node₁.network).nZerocoinStartHeight.toNat rfl
    exact hloop.2 (by omega)
  rw [hsame, if_neg]
  · rw [ChainView.chainAt, if_neg (by omega)]
    have hget₂ := (hchain _ (hheight.symm.trans_le hle)).symm.trans hget
    simpa using hget₂
  · rw [ChainView.height] at hrange ⊢
    omega

/-- The kernel stake input and what the verdict reads of it. -/
theorem KernelBelow.stakeInput_agree {tx : CTransaction} {txin : CTxIn}
    (hbelow : KernelBelow env node₁ node₂ txin w tx) :
    kernelStakeInput env node₂ tx txin = kernelStakeInput env node₁ tx txin ∧
      ∀ stakeInput, kernelStakeInput env node₁ tx txin = some stakeInput →
        stakeInput.blockFrom node₂ = stakeInput.blockFrom node₁ ∧
        stakeInput.getModifier node₂ = stakeInput.getModifier node₁ := by
  cases hbelow with
  | piv txPrev hashFrom plain found₁ found₂ closes =>
    have hhash := Node.getTransaction_hash found₁
    refine ⟨by simp [kernelStakeInput, plain, found₁, found₂], ?_⟩
    intro stakeInput hstake
    obtain ⟨nModifier, hmodifier₁, hmodifier₂⟩ :=
      SharesAncestry.getKernelStakeModifier_agree hshare h₁ h₂ closes
    simp only [kernelStakeInput, plain, found₁, Bool.false_eq_true, if_false] at hstake
    split at hstake
    · contradiction
    · split_ifs at hstake
      obtain rfl := Option.some.inj hstake
      obtain ⟨hindex₁, hindex₂⟩ := SharesAncestry.getIndexFrom_piv_agree hshare h₁ h₂
        (n := txin.prevout.n) closes.below (hhash ▸ found₁) (hhash ▸ found₂)
      constructor
      · rw [CStakeInput.blockFrom, CStakeInput.blockFrom, hindex₁, hindex₂]
        exact hshare.stored hashFrom closes.below
      · simp only [CStakeInput.getModifier, hindex₁, hindex₂, hmodifier₁, hmodifier₂]
  | zpiv spend pindexFrom zerocoin network parsed first below late =>
    refine ⟨by simp [kernelStakeInput, zerocoin, parsed], ?_⟩
    intro stakeInput hstake
    simp only [kernelStakeInput, zerocoin, parsed, if_true] at hstake
    split_ifs at hstake
    obtain rfl := Option.some.inj hstake
    have hindex₁ : (CStakeInput.zpiv spend.accChecksum false spend.denomination
        (env.hash (leBytes 32 (getuint256 spend.coinSerialNumber).toNat))).getIndexFrom node₁ =
          some pindexFrom := first
    have hindex₂ := SharesAncestry.getIndexFrom_zpiv_agree hshare h₁ h₂ network hindex₁ below
    have hentry := hshare.entry pindexFrom below
    constructor
    · rw [CStakeInput.blockFrom, CStakeInput.blockFrom, hindex₁, hindex₂]
      exact hshare.stored pindexFrom below
    · simp only [CStakeInput.getModifier, hindex₁, hindex₂, hentry]
      obtain ⟨before, after₁, after₂, hrest₁, hrest₂, habove⟩ :=
        SharesAncestry.drop_split hshare h₁ h₂ (ChainView.nHeight_le_of_isAncestor h₁ below)
      rw [hrest₁, hrest₂]
      exact ChainView.accumulatorModifierLoop_agree
        (fun a ha => hshare.entry a (habove a ha)) late

omit hshare h₁ h₂ in
theorem checkProofOfStake_congr {block : CBlock}
    (hkernel : ∀ tx txin, block.vtx[1]? = some tx → tx.vin.head? = some txin →
      kernelStakeInput env node₂ tx txin = kernelStakeInput env node₁ tx txin ∧
      ∀ stakeInput, kernelStakeInput env node₁ tx txin = some stakeInput →
        stakeInput.blockFrom node₂ = stakeInput.blockFrom node₁ ∧
        stakeInput.getModifier node₂ = stakeInput.getModifier node₁) :
    checkProofOfStake env node₂ block = checkProofOfStake env node₁ block := by
  unfold checkProofOfStake
  split
  · rename_i first tx rest hvtx
    split_ifs with hstake
    · rfl
    · split
      · rfl
      · rename_i txin vin hvin
        obtain ⟨hsame, hread⟩ := hkernel tx txin (by simp [hvtx]) (by simp [hvin])
        rw [hsame]
        cases hinput : kernelStakeInput env node₁ tx txin with
        | none => rfl
        | some stakeInput =>
          obtain ⟨hblock, hmodifier⟩ := hread stakeInput hinput
          simp only [hblock, hmodifier]
  · rfl

end

/-- The kernel modifier and the verdict on a block depend on its ancestry alone, as far as an
ancestor on both active chains ends the selection interval of its kernel. -/
theorem stakeModifier_agree {node₁ node₂ : Node} {block : CBlock} {w : Uint256}
    (hshare : SharesAncestry node₁ node₂ block.hash)
    (hw : IsAncestor node₁.view.pprev w block.hash)
    (h₁ : node₁.view.contains w = true) (h₂ : node₂.view.contains w = true) :
    (∀ hashFrom, ClosesInterval node₁.view hashFrom w →
      ∃ nStakeModifier, node₁.view.getKernelStakeModifier hashFrom = some nStakeModifier ∧
        node₂.view.getKernelStakeModifier hashFrom = some nStakeModifier) ∧
    (∀ env, (∀ tx txin, block.vtx[1]? = some tx → tx.vin.head? = some txin →
        KernelBelow env node₁ node₂ txin w tx) →
      checkProofOfStake env node₂ block = checkProofOfStake env node₁ block) := by
  have hbelow := hshare.mono hw
  constructor
  · intro hashFrom hcloses
    exact hbelow.getKernelStakeModifier_agree h₁ h₂ hcloses
  · intro env hkernel
    apply checkProofOfStake_congr
    intro tx txin htx htxin
    exact (hkernel tx txin htx htxin).stakeInput_agree hbelow h₁ h₂

/-! Block 4 on top of block 3, and a block 5 beside block 3 with another modifier. -/

def forkIndex (hash : Uint256) : CBlockIndex :=
  if hash = 4 then { pprev := some 3, nHeight := 3, nTime := 5100 }
  else if hash = 5 then
    { pprev := some 2, nHeight := 2, nTime := 5000, generatedStakeModifier := true,
      nStakeModifier := 8 }
  else sampleIndex hash

def forkView (last : List Uint256) (heights : ∀ i pindex, (1 :: 2 :: last)[i]? = some pindex →
      (forkIndex pindex).nHeight = i)
    (linked : Linked (fun pindex => (forkIndex pindex).pprev) (1 :: 2 :: last)) : ChainView where
  mapBlockIndex := fun hash => hash ∈ [1, 2, 3, 4, 5]
  index := forkIndex
  chainActive := 1 :: 2 :: last
  heights := heights
  linked := linked
  above := by
    intro pindex p hknown hprev
    simp only [List.mem_cons, List.not_mem_nil, or_false, decide_eq_true_eq] at hknown
    rcases hknown with rfl | rfl | rfl | rfl | rfl
    · contradiction
    all_goals exact Option.some.inj hprev ▸ by decide

/-- The node whose active chain ends in block 4. -/
def mainNode : Node := sampleNode (forkView [3, 4]
  (by intro i pindex h; rcases i with _ | _ | _ | _ | i <;> simp at h <;> subst h <;> decide)
  (by intro i pindex h; rcases i with _ | _ | _ | _ | i <;> simp at h <;> subst h <;> decide))

/-- The node that has not connected block 4 yet. -/
def lateNode : Node := sampleNode (forkView [3]
  (by intro i pindex h; rcases i with _ | _ | _ | i <;> simp at h <;> subst h <;> decide)
  (by intro i pindex h; rcases i with _ | _ | _ | i <;> simp at h <;> subst h <;> decide))

/-- The node whose active chain ends in block 5. -/
def forkNode : Node := sampleNode (forkView [5]
  (by intro i pindex h; rcases i with _ | _ | _ | i <;> simp at h <;> subst h <;> decide)
  (by intro i pindex h; rcases i with _ | _ | _ | i <;> simp at h <;> subst h <;> decide))

def forkStakeBlock : CBlock := { sampleStakeBlock 5100 with hashPrevBlock := 3 }

theorem forkStakeBlock_hash : forkStakeBlock.hash = 4 := rfl

theorem forkIndex_ancestors {a : Uint256}
    (ha : IsAncestor (fun pindex => (forkIndex pindex).pprev) a forkStakeBlock.hash) :
    a ∈ [4, 3, 2, 1] := by
  rw [forkStakeBlock_hash] at ha
  induction ha with
  | refl => simp
  | tail _ hparent ih =>
    simp only [List.mem_cons, List.not_mem_nil, or_false] at ih
    rcases ih with rfl | rfl | rfl | rfl
    · exact Option.some.inj hparent ▸ by simp
    · exact Option.some.inj hparent ▸ by simp
    · exact Option.some.inj hparent ▸ by simp
    · contradiction

theorem sharesAncestry_mainNode (node : Node) (hindex : node.view.index = forkIndex)
    (hknown : node.view.mapBlockIndex = mainNode.view.mapBlockIndex)
    (hdisk : node.readBlockFromDisk = mainNode.readBlockFromDisk) :
    SharesAncestry mainNode node forkStakeBlock.hash where
  known a ha := by
    have hmem := forkIndex_ancestors ha
    rw [hknown, and_self]
    simp only [List.mem_cons, List.not_mem_nil, or_false] at hmem
    rcases hmem with rfl | rfl | rfl | rfl <;> decide
  entry a _ := by
    rw [hindex]
    rfl
  stored a _ := by rw [hdisk]

theorem isAncestor_fork_2_3 : IsAncestor mainNode.view.pprev 2 3 :=
  IsAncestor.of_parent (by decide)

theorem isAncestor_fork_3_4 : IsAncestor mainNode.view.pprev 3 forkStakeBlock.hash := by
  rw [forkStakeBlock_hash]
  exact IsAncestor.of_parent (by decide)

theorem stakeModifier_agree_fork :
    (∃ nStakeModifier, mainNode.view.getKernelStakeModifier 2 = some nStakeModifier ∧
        lateNode.view.getKernelStakeModifier 2 = some nStakeModifier) ∧
      checkProofOfStake sampleEnv lateNode forkStakeBlock =
        checkProofOfStake sampleEnv mainNode forkStakeBlock := by
  have hagree := stakeModifier_agree (sharesAncestry_mainNode lateNode rfl rfl rfl)
    isAncestor_fork_3_4 (by decide) (by decide)
  have hcloses : ClosesInterval mainNode.view 2 3 :=
    ⟨isAncestor_fork_2_3, by decide, by decide, by decide⟩
  refine ⟨hagree.1 2 hcloses, hagree.2 sampleEnv ?_⟩
  intro tx txin htx htxin
  obtain rfl : sampleCoinStake = tx := by simpa [forkStakeBlock, sampleStakeBlock] using htx
  obtain rfl : CTxIn.mk ⟨20, 0⟩ [] 0 = txin := by simpa [sampleCoinStake] using htxin
  exact .piv _ sampleTxPrev 2 (by decide) (by decide) (by decide) hcloses

/-- The chain that ends in block 5 gives the coin another modifier, and rejects block 4. So does
a node on the chain of block 4 that does not find the coin's transaction. -/
theorem stakeModifier_depends_on_chainActive :
    SharesAncestry mainNode forkNode forkStakeBlock.hash ∧
      IsAncestor mainNode.view.pprev 2 forkStakeBlock.hash ∧
      mainNode.view.getKernelStakeModifier 2 = some 7 ∧
      forkNode.view.getKernelStakeModifier 2 = some 8 ∧
      checkProofOfStake sampleEnv mainNode forkStakeBlock = some (7, .piv sampleTxPrev 0) ∧
      checkProofOfStake sampleEnv forkNode forkStakeBlock = none ∧
      SharesAncestry mainNode { mainNode with fTxIndex := false } forkStakeBlock.hash ∧
      checkProofOfStake sampleEnv { mainNode with fTxIndex := false } forkStakeBlock = none := by
  refine ⟨sharesAncestry_mainNode forkNode rfl rfl rfl,
    isAncestor_fork_2_3.trans isAncestor_fork_3_4, by decide, by decide, by decide, by decide,
    sharesAncestry_mainNode _ rfl rfl rfl, by decide⟩

end Lytix
