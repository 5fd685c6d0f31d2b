import Lytix.Kernel.StakeInput
import Lytix.Lib.Runs

/-! The trust that `AddToBlockIndex` sums up along a chain. -/
namespace Lytix

/-- `CBlockIndex::GetBlockTrust`. A shift by the full width leaves nothing. -/
def getBlockTrust (nBits : UInt32) (proofOfStake : Bool) : Uint256 :=
  let bnTarget := setCompact nBits
  if bnTarget ≤ 0 then 0
  else if proofOfStake then ((1 : Uint256) <<< 256) / (bnTarget + 1)
  else
    -- the work amount of the block
    let bnPoWTrust := (~~~(0 : Uint256) >>> 20) / (bnTarget + 1)
    if 1 < bnPoWTrust then bnPoWTrust else 1

/-- What `AddToBlockIndex` and `GetBlockTrust` use of a `CBlockIndex`. -/
structure TrustEntry where
  pprev : Option Uint256 := none
  nHeight : Nat := 0
  nBits : UInt32
  proofOfStake : Bool
  bnChainTrust : Uint256 := 0

/-- `mapBlockIndex`. A pointer to an entry is its block's hash. -/
abbrev TrustIndex := Uint256 → Option TrustEntry

namespace TrustIndex

/-- The entry is in the map before its predecessor is looked up there. -/
def addToBlockIndex (index : TrustIndex) (block : CBlock) : TrustIndex :=
  if (index block.hash).isSome then index
  else
    let pindexNew : TrustEntry := { nBits := block.nBits, proofOfStake := block.isProofOfStake }
    let inserted : TrustIndex := Function.update index block.hash (some pindexNew)
    match inserted block.hashPrevBlock with
    | none => inserted
    | some pprev =>
      Function.update inserted block.hash (some { pindexNew with
        pprev := some block.hashPrevBlock
        nHeight := pprev.nHeight + 1
        bnChainTrust :=
          pprev.bnChainTrust + getBlockTrust pindexNew.nBits pindexNew.proofOfStake })

/-- Every entry has more trust than the one before it. -/
def TrustGrows (index : TrustIndex) : Prop :=
  ∀ hash entry p before, index hash = some entry → entry.pprev = some p → index p = some before →
    before.bnChainTrust < entry.bnChainTrust

/-- The trust of a proof-of-work block with a target. -/
def workTrust (nBits : UInt32) : ℕ := max 1 ((2 ^ 236 - 1) / ((setCompact nBits).toNat + 1))

/-- The block is known, or has no predecessor yet, or is a proof-of-work block with a target, on
another block with whose trust its own fits in 256 bits. -/
def AddsTrust (index : TrustIndex) (block : CBlock) : Prop :=
  (index block.hash).isSome = true ∨
    block.hashPrevBlock ≠ block.hash ∧ ∀ before, index block.hashPrevBlock = some before →
      block.isProofOfStake = false ∧ setCompact block.nBits ≠ 0 ∧
        before.bnChainTrust.toNat + workTrust block.nBits < 2 ^ 256

end TrustIndex

/-! The trust of a block. -/
section
variable {nBits : UInt32} {proofOfStake : Bool}

/-- The divisor of `GetBlockTrust` is not zero. -/
theorem toNat_setCompact_lt : (setCompact nBits).toNat + 1 < 2 ^ 256 := by
  have hword : nBits.toNat % 2 ^ 23 < 2 ^ 23 := Nat.mod_lt _ (by decide)
  unfold setCompact
  dsimp only
  generalize nBits.toNat % 2 ^ 23 = nWord at hword
  split_ifs with hsize
  · rw [BitVec.toNat_ofNat]
    have hdiv := Nat.div_le_self nWord (2 ^ (8 * (3 - nBits.toNat / 2 ^ 24)))
    have hmod := Nat.mod_le (nWord / 2 ^ (8 * (3 - nBits.toNat / 2 ^ 24))) (2 ^ 256)
    omega
  · -- a number shifted left is even, and the largest one is not
    obtain ⟨shift, hshift⟩ : ∃ shift, 8 * (nBits.toNat / 2 ^ 24 - 3) = shift + 1 :=
      ⟨8 * (nBits.toNat / 2 ^ 24 - 3) - 1, by omega⟩
    rw [BitVec.toNat_shiftLeft, Nat.shiftLeft_eq, hshift, pow_succ, ← mul_assoc]
    omega

theorem getBlockTrust_of_proofOfStake : getBlockTrust nBits true = 0 := by
  unfold getBlockTrust
  dsimp only
  rw [if_pos rfl]
  split_ifs
  · rfl
  · have hzero : (1 : Uint256) <<< 256 = 0 := by decide
    rw [hzero]
    exact BitVec.zero_udiv

theorem getBlockTrust_of_zero (h : setCompact nBits = 0) : getBlockTrust nBits proofOfStake = 0 := by
  unfold getBlockTrust
  dsimp only
  rw [if_pos (by rw [h]; exact BitVec.le_refl 0)]

theorem toNat_getBlockTrust (h : setCompact nBits ≠ 0) :
    (getBlockTrust nBits false).toNat = TrustIndex.workTrust nBits := by
  have hpos : ¬ setCompact nBits ≤ 0 := by
    rw [BitVec.le_def]
    intro hle
    exact h (BitVec.eq_of_toNat_eq (Nat.le_zero.mp hle))
  have hdivisor : (setCompact nBits + 1).toNat = (setCompact nBits).toNat + 1 := by
    rw [BitVec.toNat_add]
    exact Nat.mod_eq_of_lt toNat_setCompact_lt
  have hwork : ((~~~(0 : Uint256) >>> 20) / (setCompact nBits + 1)).toNat =
      (2 ^ 236 - 1) / ((setCompact nBits).toNat + 1) := by
    rw [BitVec.toNat_udiv, hdivisor]
    rfl
  unfold getBlockTrust TrustIndex.workTrust
  dsimp only
  rw [if_neg hpos, if_neg Bool.false_ne_true]
  have hone : (1 : Uint256).toNat = 1 := rfl
  split_ifs with hmore
  · rw [BitVec.lt_def, hwork, hone] at hmore
    rw [hwork, max_eq_right (le_of_lt hmore)]
  · rw [BitVec.lt_def, hwork, hone, not_lt] at hmore
    rw [hone, max_eq_left hmore]

/-- Only a proof-of-work block with a target makes a sum grow, unless the sum wraps. -/
theorem lt_add_getBlockTrust_iff {before : Uint256} :
    before < before + getBlockTrust nBits proofOfStake ↔
      proofOfStake = false ∧ setCompact nBits ≠ 0 ∧
        before.toNat + TrustIndex.workTrust nBits < 2 ^ 256 := by
  have hzero : ¬ before < before + 0 := by
    have hsum : before + 0 = before := BitVec.add_zero before
    rw [hsum]
    exact BitVec.lt_irrefl before
  cases proofOfStake with
  | true =>
    rw [getBlockTrust_of_proofOfStake]
    exact iff_of_false hzero fun h => absurd h.1 (by decide)
  | false =>
    by_cases htarget : setCompact nBits = 0
    · rw [getBlockTrust_of_zero htarget]
      exact iff_of_false hzero fun h => h.2.1 htarget
    · have htrust := toNat_getBlockTrust htarget
      have hone : 1 ≤ TrustIndex.workTrust nBits := le_max_left _ _
      have hbefore := before.isLt
      have hbound := (getBlockTrust nBits false).isLt
      rw [BitVec.lt_def, BitVec.toNat_add, htrust]
      rw [htrust] at hbound
      constructor
      · intro hlt
        refine ⟨rfl, htarget, ?_⟩
        by_contra hwraps
        omega
      · rintro ⟨-, -, hfits⟩
        rw [Nat.mod_eq_of_lt hfits]
        omega

end

namespace TrustIndex

section
variable {index : TrustIndex} {block : CBlock} {hash : Uint256} {entry : TrustEntry}

/-- Every predecessor is in the index. -/
def Closed (index : TrustIndex) : Prop :=
  ∀ hash entry p, index hash = some entry → entry.pprev = some p → (index p).isSome = true

theorem addToBlockIndex_of_isSome (h : (index block.hash).isSome = true) :
    index.addToBlockIndex block = index := by
  unfold addToBlockIndex
  rw [if_pos h]

theorem addToBlockIndex_of_ne (h : hash ≠ block.hash) :
    index.addToBlockIndex block hash = index hash := by
  unfold addToBlockIndex
  split_ifs
  · rfl
  dsimp only
  cases Function.update index block.hash (some
      { nBits := block.nBits, proofOfStake := block.isProofOfStake }) block.hashPrevBlock with
  | none => exact Function.update_of_ne h _ _
  | some pprev =>
    dsimp only
    rw [Function.update_of_ne h, Function.update_of_ne h]

/-- The new entry of a block whose predecessor is another one. -/
theorem addToBlockIndex_self (hnew : (index block.hash).isSome = false)
    (hprev : block.hashPrevBlock ≠ block.hash) :
    index.addToBlockIndex block block.hash =
      match index block.hashPrevBlock with
      | none => some { nBits := block.nBits, proofOfStake := block.isProofOfStake }
      | some before => some {
          pprev := some block.hashPrevBlock
          nHeight := before.nHeight + 1
          nBits := block.nBits
          proofOfStake := block.isProofOfStake
          bnChainTrust := before.bnChainTrust + getBlockTrust block.nBits block.isProofOfStake } := by
  unfold addToBlockIndex
  rw [if_neg (by rw [hnew]; exact Bool.false_ne_true)]
  dsimp only
  rw [Function.update_of_ne hprev]
  cases index block.hashPrevBlock with
  | none => exact Function.update_self _ _ _
  | some before => exact Function.update_self _ _ _

/-- A block that names itself as its predecessor becomes it. -/
theorem addToBlockIndex_own (hnew : (index block.hash).isSome = false)
    (hprev : block.hashPrevBlock = block.hash) :
    ∃ entry, index.addToBlockIndex block block.hash = some entry ∧
      entry.pprev = some block.hash := by
  unfold addToBlockIndex
  rw [if_neg (by rw [hnew]; exact Bool.false_ne_true)]
  dsimp only
  rw [hprev, Function.update_self]
  exact ⟨_, Function.update_self _ _ _, rfl⟩

theorem isSome_addToBlockIndex (h : (index hash).isSome = true ∨ hash = block.hash) :
    (index.addToBlockIndex block hash).isSome = true := by
  by_cases hhash : hash = block.hash
  · rw [hhash]
    cases hnew : (index block.hash).isSome with
    | true =>
      rw [addToBlockIndex_of_isSome hnew]
      exact hnew
    | false =>
      by_cases hprev : block.hashPrevBlock = block.hash
      · obtain ⟨entry, hentry, -⟩ := addToBlockIndex_own hnew hprev
        rw [hentry, Option.isSome_some]
      · rw [addToBlockIndex_self hnew hprev]
        cases index block.hashPrevBlock with
        | none => rfl
        | some before => rfl
  · rw [addToBlockIndex_of_ne hhash]
    exact h.resolve_right hhash

theorem Closed.addToBlockIndex (closed : Closed index) : Closed (index.addToBlockIndex block) := by
  intro hash entry p hentry hp
  apply isSome_addToBlockIndex
  by_cases hhash : hash = block.hash
  · cases hnew : (index block.hash).isSome with
    | true =>
      rw [addToBlockIndex_of_isSome hnew] at hentry
      exact Or.inl (closed hash entry p hentry hp)
    | false =>
      by_cases hprev : block.hashPrevBlock = block.hash
      · obtain ⟨own, hown, hpprev⟩ := addToBlockIndex_own hnew hprev
        rw [hhash, hown, Option.some.injEq] at hentry
        rw [← hentry, hpprev, Option.some.injEq] at hp
        exact Or.inr hp.symm
      · rw [hhash, addToBlockIndex_self hnew hprev] at hentry
        cases hbefore : index block.hashPrevBlock with
        | none =>
          rw [hbefore] at hentry
          rw [← Option.some.inj hentry] at hp
          contradiction
        | some before =>
          rw [hbefore] at hentry
          rw [← Option.some.inj hentry] at hp
          rw [← Option.some.inj hp, hbefore]
          exact Or.inl rfl
  · rw [addToBlockIndex_of_ne hhash] at hentry
    exact Or.inl (closed hash entry p hentry hp)

/-- A step keeps the trust growing exactly when its block adds to it. -/
theorem trustGrows_addToBlockIndex_iff (closed : Closed index) :
    TrustGrows (index.addToBlockIndex block) ↔ TrustGrows index ∧ AddsTrust index block := by
  cases hnew : (index block.hash).isSome with
  | true =>
    rw [addToBlockIndex_of_isSome hnew]
    exact ⟨fun h => ⟨h, Or.inl hnew⟩, fun h => h.1⟩
  | false =>
    have hold : ∀ hash, (index hash).isSome = true → hash ≠ block.hash := by
      intro hash hsome heq
      rw [heq, hnew] at hsome
      contradiction
    have hkeeps : ∀ hash entry, index hash = some entry →
        index.addToBlockIndex block hash = some entry := by
      intro hash entry hentry
      rw [addToBlockIndex_of_ne (hold hash (by rw [hentry]; rfl)), hentry]
    constructor
    · intro hgrows
      constructor
      · intro hash entry p before hentry hp hbefore
        exact hgrows hash entry p before (hkeeps hash entry hentry) hp (hkeeps p before hbefore)
      · right
        have hprev : block.hashPrevBlock ≠ block.hash := by
          intro hprev
          obtain ⟨own, hown, hpprev⟩ := addToBlockIndex_own hnew hprev
          exact absurd (hgrows block.hash own block.hash own hown hpprev hown)
            (BitVec.lt_irrefl own.bnChainTrust)
        refine ⟨hprev, fun before hbefore => ?_⟩
        have hself := addToBlockIndex_self hnew hprev
        rw [hbefore] at hself
        exact lt_add_getBlockTrust_iff.mp
          (hgrows block.hash _ block.hashPrevBlock before hself rfl (hkeeps _ before hbefore))
    · rintro ⟨hgrows, hknown | ⟨hprev, hadds⟩⟩
      · rw [hnew] at hknown
        contradiction
      intro hash entry p before hentry hp hbefore
      by_cases hhash : hash = block.hash
      · rw [hhash, addToBlockIndex_self hnew hprev] at hentry
        cases hparent : index block.hashPrevBlock with
        | none =>
          rw [hparent] at hentry
          rw [← Option.some.inj hentry] at hp
          contradiction
        | some parent =>
          rw [hparent] at hentry
          rw [← Option.some.inj hentry] at hp ⊢
          rw [← Option.some.inj hp, hkeeps _ parent hparent] at hbefore
          rw [← Option.some.inj hbefore]
          exact lt_add_getBlockTrust_iff.mpr (hadds parent hparent)
      · rw [addToBlockIndex_of_ne hhash] at hentry
        rw [addToBlockIndex_of_ne (hold p (closed hash entry p hentry hp))] at hbefore
        exact hgrows hash entry p before hentry hp hbefore

end

/-- The trust grows along every chain of an index exactly when every block that came to it added to
its predecessor's. -/
theorem trustGrows_run_iff (blocks : List CBlock) :
    TrustGrows (Runs.run addToBlockIndex (fun _ => none) blocks) ↔
      Runs.Along addToBlockIndex AddsTrust (fun _ => none) blocks := by
  have hempty : TrustGrows fun _ => none := by
    intro hash entry p before hentry
    contradiction
  have hclosed : Closed fun _ => none := by
    intro hash entry p hentry
    contradiction
  have hstep : ∀ index block, Closed index →
      (TrustGrows (index.addToBlockIndex block) ↔ TrustGrows index ∧ AddsTrust index block) :=
    fun index block closed => trustGrows_addToBlockIndex_iff closed
  rw [Runs.run_iff_along hclosed hstep fun index block closed => closed.addToBlockIndex]
  exact and_iff_right hempty

/-! A proof-of-stake block on a genesis block. -/

def genesisHeader : CBlock := ⟨1, 1, 0, 0, 1500000000, 0x1e0ffff0, 0, 0, []⟩

def stakedBlock : CBlock :=
  ⟨2, 4, 1, 0, 1500000060, 0x1e0ffff0, 0, 0,
    [⟨3, 1, [⟨COutPoint.null, [], 0⟩], [CTxOut.null], 0⟩,
      ⟨4, 1, [⟨⟨9, 0⟩, [], 0⟩], [⟨0, [], -10⟩, ⟨100, [0x51], -10⟩], 0⟩]⟩

theorem not_trustGrows_stakedBlock : stakedBlock.isProofOfStake = true ∧
    ¬ TrustGrows (Runs.run addToBlockIndex (fun _ => none) [genesisHeader, stakedBlock]) := by
  refine ⟨by decide, fun h => ?_⟩
  have hlt := h 2 _ 1 _ rfl rfl rfl
  rw [lt_add_getBlockTrust_iff] at hlt
  exact absurd hlt.1 (by decide)

end TrustIndex
end Lytix
