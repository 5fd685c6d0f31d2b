import Lytix.Lib.Ancestry
import Lytix.Primitives.Zerocoin

/-! Block index entries and the active chain. A pointer to an entry is the block's hash. -/
namespace Lytix
open Ancestry

/-- `nStatus`: the validity level and the flags apart. -/
structure BlockStatus where
  valid : Nat := 0
  haveData : Bool := false
  haveUndo : Bool := false
  failedValid : Bool := false
  failedChild : Bool := false
deriving DecidableEq, Repr

def BLOCK_VALID_TREE : Nat := 2
def BLOCK_VALID_TRANSACTIONS : Nat := 3
def BLOCK_VALID_CHAIN : Nat := 4
def BLOCK_VALID_SCRIPTS : Nat := 5

/-- `nStatus & BLOCK_FAILED_MASK`. -/
def BlockStatus.failed (nStatus : BlockStatus) : Bool := nStatus.failedValid || nStatus.failedChild

structure CBlockIndex where
  pprev : Option Uint256 := none
  nHeight : Nat := 0
  nVersion : Int := 0
  nTime : UInt32 := 0
  nBits : UInt32 := 0
  nAccumulatorCheckpoint : Uint256 := 0
  nChainWork : Nat := 0
  nTx : Nat := 0
  nChainTx : Nat := 0
  nStatus : BlockStatus := {}
  nSequenceId : Nat := 0
  /-- The flag `BLOCK_STAKE_MODIFIER` of `nFlags`. -/
  generatedStakeModifier : Bool := false
  nStakeModifier : UInt64 := 0
  nMint : Int := 0
  nMoneySupply : Int := 0
  mapZerocoinSupply : CoinDenomination → Int := fun _ => 0
  vMintDenominationsInBlock : List CoinDenomination := []

namespace CBlockIndex

def getBlockTime (pindex : CBlockIndex) : Int := pindex.nTime.toNat

def isValid (pindex : CBlockIndex) (nUpTo : Nat) : Bool :=
  !pindex.nStatus.failed && decide (nUpTo ≤ pindex.nStatus.valid)

/-- A block that failed stays where it is. -/
def raiseValidity (pindex : CBlockIndex) (nUpTo : Nat) : CBlockIndex :=
  if pindex.nStatus.failed then pindex
  else if pindex.nStatus.valid < nUpTo then
    { pindex with nStatus := { pindex.nStatus with valid := nUpTo } }
  else pindex

end CBlockIndex

/-- `mapBlockIndex` with the entries its pointers lead to, and `chainActive`. An entry stands one
above its predecessor, and the chain holds an entry at its height, on top of its predecessor. -/
structure ChainView where
  mapBlockIndex : Uint256 → Bool
  index : Uint256 → CBlockIndex
  chainActive : List Uint256
  heights : ∀ i pindex, chainActive[i]? = some pindex → (index pindex).nHeight = i
  linked : Linked (fun pindex => (index pindex).pprev) chainActive
  above : ∀ pindex p, mapBlockIndex pindex = true → (index pindex).pprev = some p →
    mapBlockIndex p = true ∧ (index pindex).nHeight = (index p).nHeight + 1

namespace ChainView

variable (view : ChainView)

def pprev (pindex : Uint256) : Option Uint256 := (view.index pindex).pprev

/-- `chainActive[nHeight]`. -/
def chainAt (nHeight : Int) : Option Uint256 :=
  if nHeight < 0 then none else view.chainActive[nHeight.toNat]?

def height : Int := view.chainActive.length - 1

def tip : Option Uint256 := view.chainActive.getLast?

def contains (pindex : Uint256) : Bool :=
  view.chainActive[(view.index pindex).nHeight]? == some pindex

def next (pindex : Uint256) : Option Uint256 :=
  if view.contains pindex then view.chainActive[(view.index pindex).nHeight + 1]? else none

variable {view} {pindex : Uint256}

theorem contains_iff :
    view.contains pindex = true ↔ view.chainActive[(view.index pindex).nHeight]? = some pindex := by
  simp [contains]

theorem contains_of_getElem? {i : ℕ} (h : view.chainActive[i]? = some pindex) :
    view.contains pindex = true := by
  rw [contains_iff, view.heights i pindex h]
  exact h

/-- Two chains that hold one block, with the same entries below it, are equal up to it. -/
theorem chains_agree {view₁ view₂ : ChainView} {w : Uint256}
    (hentry : ∀ a, IsAncestor view₁.pprev a w → view₂.index a = view₁.index a)
    (h₁ : view₁.contains w = true) (h₂ : view₂.contains w = true) {j : ℕ}
    (hj : j ≤ (view₁.index w).nHeight) : view₁.chainActive[j]? = view₂.chainActive[j]? := by
  have hw := hentry w (IsAncestor.refl _ w)
  rw [contains_iff] at h₁ h₂
  rw [hw] at h₂
  have hparent : ∀ z, IsAncestor view₁.pprev z w → view₂.pprev z = view₁.pprev z := by
    intro z hz
    show (view₂.index z).pprev = (view₁.index z).pprev
    rw [hentry z hz]
  exact linked_agree view₁.linked view₂.linked hparent h₁ h₂ hj

end ChainView
end Lytix

/-! Chains without forks, given by what each height holds. -/
namespace Lytix
open Ancestry

/-- The hash of the block at a height. -/
def heightHash (nHeight : Nat) : Uint256 := BitVec.ofNat 256 (nHeight + 1)

/-- The entry of a hash, on top of the block one below. -/
def straightIndex (entry : Nat → CBlockIndex) (hash : Uint256) : CBlockIndex :=
  { entry (hash.toNat - 1) with
    pprev := if hash.toNat ≤ 1 then none else some (heightHash (hash.toNat - 2))
    nHeight := hash.toNat - 1 }

section
variable {entry : Nat → CBlockIndex} {n i : ℕ}

theorem toNat_heightHash (hi : i < 2 ^ 65) : (heightHash i).toNat = i + 1 := by
  rw [heightHash, BitVec.toNat_ofNat, Nat.mod_eq_of_lt (by omega)]

/-- Every hash but zero stands for a height. -/
theorem eq_heightHash {hash : Uint256} (h : 1 ≤ hash.toNat) :
    hash = heightHash (hash.toNat - 1) := by
  rw [heightHash, Nat.sub_add_cancel h, BitVec.ofNat_toNat, BitVec.setWidth_eq]

theorem straightIndex_heightHash (hi : i < 2 ^ 65) :
    straightIndex entry (heightHash i) =
      { entry i with
        pprev := if i = 0 then none else some (heightHash (i - 1))
        nHeight := i } := by
  unfold straightIndex
  rw [toNat_heightHash hi]
  have hprev : (i + 1 ≤ 1) = (i = 0) := by
    rw [eq_iff_iff]
    omega
  simp only [hprev, Nat.add_sub_cancel]
  rfl

theorem straight_getElem? (hi : i < n) :
    ((List.range n).map heightHash)[i]? = some (heightHash i) := by
  rw [List.getElem?_map, List.getElem?_range hi]
  rfl

theorem straight_some {pindex : Uint256}
    (h : ((List.range n).map heightHash)[i]? = some pindex) : i < n ∧ pindex = heightHash i := by
  have hlt := (List.getElem?_eq_some_iff.mp h).1
  rw [List.length_map, List.length_range] at hlt
  rw [straight_getElem? hlt, Option.some.injEq] at h
  exact ⟨hlt, h.symm⟩

end

/-- A chain of `n` blocks. -/
def straightView (entry : Nat → CBlockIndex) (n : Nat) (hn : n < 2 ^ 64) : ChainView where
  mapBlockIndex := fun hash => decide (1 ≤ hash.toNat ∧ hash.toNat ≤ n)
  index := straightIndex entry
  chainActive := (List.range n).map heightHash
  heights := by
    intro i pindex h
    obtain ⟨hi, rfl⟩ := straight_some h
    rw [straightIndex_heightHash (by omega)]
  linked := by
    intro i pindex h
    obtain ⟨hi, rfl⟩ := straight_some h
    show (straightIndex entry (heightHash i)).pprev = _
    rw [straightIndex_heightHash (by omega)]
    by_cases hzero : i = 0
    · simp [hzero]
    · simp only [if_neg hzero]
      rw [straight_getElem? (by omega)]
  above := by
    intro pindex p hknown hprev
    rw [decide_eq_true_eq] at hknown
    have hpindex := eq_heightHash hknown.1
    generalize hi : pindex.toNat - 1 = i at hpindex
    subst hpindex
    have hbound : i < n := by omega
    rw [decide_eq_true_eq]
    rw [straightIndex_heightHash (by omega)] at hprev ⊢
    by_cases hzero : i = 0
    · simp [hzero] at hprev
    · simp only [if_neg hzero, Option.some.injEq] at hprev
      rw [← hprev, straightIndex_heightHash (by omega), toNat_heightHash (by omega)]
      refine ⟨by omega, ?_⟩
      show i = i - 1 + 1
      omega

section
variable {entry : Nat → CBlockIndex} {n i : ℕ} {hn : n < 2 ^ 64}

theorem straightView_height : (straightView entry n hn).height = n - 1 := by
  simp [ChainView.height, straightView]

theorem straightView_getElem? (hi : i < n) :
    (straightView entry n hn).chainActive[i]? = some (heightHash i) := straight_getElem? hi

theorem straightView_some {pindex : Uint256}
    (h : (straightView entry n hn).chainActive[i]? = some pindex) : i < n ∧ pindex = heightHash i :=
  straight_some h

theorem straightView_chainAt (hi : i < n) :
    (straightView entry n hn).chainAt i = some (heightHash i) := by
  unfold ChainView.chainAt
  rw [if_neg (by omega)]
  exact straight_getElem? hi

theorem straightView_index (hi : i < n) :
    (straightView entry n hn).index (heightHash i) =
      { entry i with
        pprev := if i = 0 then none else some (heightHash (i - 1))
        nHeight := i } := straightIndex_heightHash (by omega)

end
end Lytix
