import Lytix.Kernel.StakeInput

/-! Whether the staker would have produced an accepted kernel. The validator repeats the hash of
`Stake` but none of its time checks. -/
namespace Lytix

/-- `Stake` is willing to produce this kernel from some starting time, and the kernel's time is
neither before the coin's block nor before the coin reached the minimum age. -/
structure StakerProduces (env : KernelEnv) (node : Node) (stakeInput : CStakeInput)
    (nBits nTimeBlockFrom nTimeTx : UInt32) (hashProofOfStake : Uint256) : Prop where
  produced : ∃ nTimeStart, stake env node stakeInput nBits nTimeBlockFrom nTimeStart =
    some (nTimeTx, hashProofOfStake)
  minAge : nTimeBlockFrom.toNat + nStakeMinAge.toNat ≤ nTimeTx.toNat
  notBefore : nTimeBlockFrom ≤ nTimeTx

/-- The hash of a kernel meets its target at a time. -/
def KernelHits (env : KernelEnv) (node : Node) (stakeInput : CStakeInput)
    (nBits nTimeBlockFrom nTimeTx : UInt32) : Prop :=
  ∃ nStakeModifier, stakeInput.getModifier node = some nStakeModifier ∧
    (checkStake env stakeInput.getUniqueness stakeInput.getValue nStakeModifier
      (setCompact nBits) nTimeBlockFrom nTimeTx).1 = true

/-- The kernel is a drift past the minimum age, or past the minimum age with no hit between it
and that moment. -/
def StakeTimeAllowed (hits : UInt32 → Prop) (nTimeBlockFrom nTimeTx : UInt32) : Prop :=
  let nTimeMinAge := nTimeBlockFrom.toNat + nStakeMinAge.toNat
  nTimeMinAge + nHashDrift ≤ nTimeTx.toNat ∨
    (nTimeMinAge < nTimeTx.toNat ∧
      ∀ t, nTimeTx.toNat < t → t ≤ nTimeMinAge + nHashDrift → ¬ hits (UInt32.ofNat t))

section
variable {check : UInt32 → Bool × Uint256} {nTimeStart nTimeTx : UInt32} {h : Uint256} {i : ℕ}

theorem nTryTime_toNat (hi : i < nHashDrift) :
    (nTryTime nTimeStart i).toNat = (nTimeStart.toNat + nHashDrift - i) % 2 ^ 32 := by
  have hlt : nTimeStart.toNat < 2 ^ 32 := nTimeStart.toNat_lt
  simp only [nHashDrift] at hi
  simp only [nTryTime, nHashDrift, UInt32.toNat_sub, UInt32.toNat_add, UInt32.toNat_ofNat']
  omega

/-- The first of the tried times that hits is the one produced. -/
theorem stakeLoop_eq_some_iff :
    stakeLoop check nTimeStart = some (nTimeTx, h) ↔
      ∃ i < nHashDrift, nTryTime nTimeStart i = nTimeTx ∧ check nTimeTx = (true, h) ∧
        ∀ j < i, (check (nTryTime nTimeStart j)).1 = false := by
  simp only [stakeLoop, Option.map_eq_some_iff, List.find?_range_eq_some, List.mem_range,
    Prod.mk.injEq, Bool.not_eq_true']
  constructor
  · rintro ⟨i, ⟨hhit, hi, hmiss⟩, htime, hhash⟩
    refine ⟨i, hi, htime, ?_, hmiss⟩
    rw [← htime]
    exact Prod.ext hhit hhash
  · rintro ⟨i, hi, htime, hcheck, hmiss⟩
    rw [← htime] at hcheck
    exact ⟨i, ⟨by rw [hcheck], hi, hmiss⟩, htime, by rw [hcheck]⟩

/-- A try time that does not wrap past the start is found by its distance from the latest one. -/
theorem nTryTime_distance {t : ℕ} (hstart : nTimeStart.toNat < t)
    (hlast : t ≤ nTimeStart.toNat + nHashDrift) :
    nTryTime nTimeStart (nTimeStart.toNat + nHashDrift - t) = UInt32.ofNat t := by
  have hdrift : nTimeStart.toNat + nHashDrift - t < nHashDrift := by omega
  apply UInt32.toNat_inj.mp
  rw [nTryTime_toNat hdrift, UInt32.toNat_ofNat']
  congr 1
  omega

/-- A production from an allowed start lands past the minimum age, and every later time up to a
drift past it was tried first. -/
theorem stakeLoop_timeAllowed {nTimeBlockFrom : UInt32}
    (hage : nTimeBlockFrom + nStakeMinAge ≤ nTimeStart)
    (hproduced : stakeLoop check nTimeStart = some (nTimeTx, h))
    (hmin : nTimeBlockFrom.toNat + nStakeMinAge.toNat ≤ nTimeTx.toNat) :
    StakeTimeAllowed (fun t => (check t).1 = true) nTimeBlockFrom nTimeTx := by
  obtain ⟨i, hi, htime, -, hmiss⟩ := stakeLoop_eq_some_iff.mp hproduced
  have htimeNat : (nTryTime nTimeStart i).toNat = _ := nTryTime_toNat hi
  rw [htime] at htimeNat
  have hstart : nTimeStart.toNat < 2 ^ 32 := nTimeStart.toNat_lt
  have htx : nTimeTx.toNat < 2 ^ 32 := nTimeTx.toNat_lt
  have hageNat := UInt32.le_iff_toNat_le.mp hage
  rw [UInt32.toNat_add, Nat.mod_eq_of_lt (by omega)] at hageNat
  have hminAge : nStakeMinAge.toNat = 900 := by decide
  have hdrift : nHashDrift = 30 := rfl
  have hlanded : nTimeTx.toNat + i = nTimeStart.toNat + nHashDrift := by omega
  right
  constructor
  · omega
  · intro t ht hlast hhit
    have hj : nTimeStart.toNat + nHashDrift - t < i := by omega
    have htry : nTryTime nTimeStart _ = UInt32.ofNat t :=
      nTryTime_distance (by omega) (by omega)
    have hnone := hmiss _ hj
    rw [htry] at hnone
    exact Bool.false_ne_true (hnone.symm.trans hhit)

/-- The start that reaches an allowed time: a drift before it, or the minimum age. -/
theorem exists_stakeLoop {nTimeBlockFrom : UInt32} (hcheck : check nTimeTx = (true, h))
    (hallowed : StakeTimeAllowed (fun t => (check t).1 = true) nTimeBlockFrom nTimeTx) :
    ∃ nTimeStart, nTimeBlockFrom ≤ nTimeStart ∧ nTimeBlockFrom + nStakeMinAge ≤ nTimeStart ∧
      stakeLoop check nTimeStart = some (nTimeTx, h) := by
  have htx : nTimeTx.toNat < 2 ^ 32 := nTimeTx.toNat_lt
  have hminAge : nStakeMinAge.toNat = 900 := by decide
  have hdrift : nHashDrift = 30 := rfl
  have hself : UInt32.ofNat nTimeTx.toNat = nTimeTx := UInt32.ofNat_toNat
  have hproduce : ∀ n : ℕ, nTimeBlockFrom.toNat + nStakeMinAge.toNat ≤ n → n < nTimeTx.toNat →
      nTimeTx.toNat ≤ n + nHashDrift →
      (∀ t, nTimeTx.toNat < t → t ≤ n + nHashDrift → (check (UInt32.ofNat t)).1 = false) →
      ∃ nTimeStart, nTimeBlockFrom ≤ nTimeStart ∧ nTimeBlockFrom + nStakeMinAge ≤ nTimeStart ∧
        stakeLoop check nTimeStart = some (nTimeTx, h) := by
    intro n hage hbefore hreach hmiss
    have hsize : UInt32.size = 2 ^ 32 := rfl
    have hn : (UInt32.ofNat n).toNat = n := UInt32.toNat_ofNat_of_lt' (by omega)
    refine ⟨UInt32.ofNat n, ?_, ?_, ?_⟩
    · rw [UInt32.le_iff_toNat_le, hn]
      omega
    · rw [UInt32.le_iff_toNat_le, hn, UInt32.toNat_add, Nat.mod_eq_of_lt (by omega)]
      exact hage
    · rw [stakeLoop_eq_some_iff]
      refine ⟨n + nHashDrift - nTimeTx.toNat, by omega, ?_, hcheck, ?_⟩
      · have htry : nTryTime (UInt32.ofNat n) _ = UInt32.ofNat nTimeTx.toNat :=
          nTryTime_distance (by omega) (by omega)
        rw [hn, hself] at htry
        exact htry
      · intro j hj
        have htry : nTryTime (UInt32.ofNat n) _ = UInt32.ofNat (n + nHashDrift - j) :=
          nTryTime_distance (by omega) (by omega)
        have hindex : n + nHashDrift - (n + nHashDrift - j) = j := by omega
        rw [hn, hindex] at htry
        rw [htry]
        exact hmiss _ (by omega) (by omega)
  rcases hallowed with hlate | ⟨hearly, hmiss⟩
  · apply hproduce (nTimeTx.toNat - nHashDrift) (by omega) (by omega) (by omega)
    intro t ht hlast
    omega
  · by_cases hlate : nTimeBlockFrom.toNat + nStakeMinAge.toNat + nHashDrift ≤ nTimeTx.toNat
    · apply hproduce (nTimeTx.toNat - nHashDrift) (by omega) (by omega) (by omega)
      intro t ht hlast
      omega
    · apply hproduce _ le_rfl hearly (by omega)
      intro t ht hlast
      exact Bool.not_eq_true _ ▸ hmiss t ht hlast

end

section
variable {env : KernelEnv} {node : Node} {block : CBlock} {hashProofOfStake : Uint256}
  {stakeInput : CStakeInput}

/-- What an accepted block was checked for. -/
theorem checkProofOfStake_eq_some
    (haccept : checkProofOfStake env node block = some (hashProofOfStake, stakeInput)) :
    ∃ blockprev nStakeModifier, stakeInput.blockFrom node = some blockprev ∧
      stakeInput.getModifier node = some nStakeModifier ∧
      checkStake env stakeInput.getUniqueness stakeInput.getValue nStakeModifier
        (setCompact block.nBits) blockprev.nTime block.nTime = (true, hashProofOfStake) := by
  unfold checkProofOfStake at haccept
  split at haccept
  · split_ifs at haccept
    split at haccept
    · contradiction
    · split at haccept
      · contradiction
      · split at haccept
        · contradiction
        · rename_i blockprev hfrom
          split at haccept
          · contradiction
          · rename_i nStakeModifier hmodifier
            dsimp only at haccept
            split_ifs at haccept with hhit
            simp only [Option.some.injEq, Prod.mk.injEq] at haccept
            obtain ⟨hhash, rfl⟩ := haccept
            exact ⟨blockprev, nStakeModifier, hfrom, hmodifier, Prod.ext hhit hhash⟩
  · contradiction

/-- An accepted kernel is one that `Stake` is willing to produce exactly when its time leaves the
staker the minimum age, with no better time before it. -/
theorem checkProofOfStake_stakerProduces_iff
    (haccept : checkProofOfStake env node block = some (hashProofOfStake, stakeInput)) :
    ∃ blockFrom, stakeInput.blockFrom node = some blockFrom ∧
      (StakerProduces env node stakeInput block.nBits blockFrom.nTime block.nTime
          hashProofOfStake ↔
        StakeTimeAllowed (KernelHits env node stakeInput block.nBits blockFrom.nTime)
          blockFrom.nTime block.nTime) := by
  obtain ⟨blockprev, nStakeModifier, hfrom, hmodifier, hcheck⟩ :=
    checkProofOfStake_eq_some haccept
  refine ⟨blockprev, hfrom, ?_⟩
  have hhits : KernelHits env node stakeInput block.nBits blockprev.nTime =
      fun t => (checkStake env stakeInput.getUniqueness stakeInput.getValue nStakeModifier
        (setCompact block.nBits) blockprev.nTime t).1 = true := by
    funext t
    simp [KernelHits, hmodifier]
  rw [hhits]
  constructor
  · rintro ⟨⟨nTimeStart, hproduced⟩, hmin, -⟩
    unfold stake at hproduced
    split_ifs at hproduced with hbefore hage
    rw [hmodifier] at hproduced
    exact stakeLoop_timeAllowed (UInt32.not_lt.mp hage) hproduced hmin
  · intro hallowed
    obtain ⟨nTimeStart, hbefore, hage, hproduced⟩ := exists_stakeLoop hcheck hallowed
    have hmin : blockprev.nTime.toNat + nStakeMinAge.toNat ≤ block.nTime.toNat := by
      rcases hallowed with hlate | ⟨hearly, -⟩
      · omega
      · omega
    refine ⟨⟨nTimeStart, ?_⟩, hmin, ?_⟩
    · unfold stake
      rw [if_neg (UInt32.not_lt.mpr hbefore), if_neg (UInt32.not_lt.mpr hage), hmodifier]
      exact hproduced
    · rw [UInt32.le_iff_toNat_le]
      omega

end
/-! A chain of a genesis block 1, a block 2 with a coin in it, and a block 3 that closes the coin's
selection interval. -/

def sampleIndex (hash : Uint256) : CBlockIndex :=
  if hash = 2 then { pprev := some 1, nHeight := 1, nTime := 1000 }
  else if hash = 3 then
    { pprev := some 2, nHeight := 2, nTime := 5000, generatedStakeModifier := true,
      nStakeModifier := 7 }
  else {}

def sampleView : ChainView where
  mapBlockIndex := fun hash => hash ∈ [1, 2, 3]
  index := sampleIndex
  chainActive := [1, 2, 3]
  heights := by
    intro i pindex h
    rcases i with _ | _ | _ | i <;> simp at h <;> subst h <;> decide
  linked := by
    intro i pindex h
    rcases i with _ | _ | _ | i <;> simp at h <;> subst h <;> decide
  above := by
    intro pindex p hknown hprev
    simp only [List.mem_cons, List.not_mem_nil, or_false, decide_eq_true_eq] at hknown
    rcases hknown with rfl | rfl | rfl
    · contradiction
    · exact Option.some.inj hprev ▸ by decide
    · exact Option.some.inj hprev ▸ by decide

/-- The coin: one output of 100. -/
def sampleTxPrev : CTransaction := ⟨20, 1, [], [⟨100, [], -10⟩], 0⟩

def sampleCoinStake : CTransaction := ⟨21, 1, [⟨⟨20, 0⟩, [], 0⟩], [⟨0, [], -10⟩, ⟨100, [], -10⟩], 0⟩

def sampleBlockFrom : CBlock := ⟨2, 3, 1, 0, 1000, 0, 0, 0, [sampleTxPrev]⟩

/-- A block on top of the coin's block that stakes the coin, with target 8. -/
def sampleStakeBlock (nTime : UInt32) : CBlock :=
  ⟨4, 3, 2, 0, nTime, 0x03000008, 0, 0, [⟨22, 1, [], [], 0⟩, sampleCoinStake]⟩

def sampleNode (view : ChainView) : Node where
  network := .main
  view := view
  mempool := fun _ => none
  mempool_hash := mempool_hash_none
  fTxIndex := true
  txIndex := fun hash => if hash = 20 then some (2, sampleTxPrev) else none
  accessCoins := fun _ => none
  readBlockFromDisk := fun pindex => if pindex = 2 then some sampleBlockFrom else none

/-- The hash is the first byte hashed, which is the low byte of the modifier. -/
def sampleEnv : KernelEnv where
  hash := fun bytes => BitVec.ofNat 256 (bytes.headD 0).toNat
  verifyScript := fun _ _ _ => true
  txInToZerocoinSpend := fun _ => none

theorem checkProofOfStake_sample_old :
    checkProofOfStake sampleEnv (sampleNode sampleView) (sampleStakeBlock 4000) =
      some (7, .piv sampleTxPrev 0) := by
  decide

theorem checkProofOfStake_sample_young :
    checkProofOfStake sampleEnv (sampleNode sampleView) (sampleStakeBlock 1500) =
      some (7, .piv sampleTxPrev 0) := by
  decide

theorem checkProofOfStake_stakerProduces_iff_sample :
    ∃ blockFrom, (CStakeInput.piv sampleTxPrev 0).blockFrom (sampleNode sampleView) =
        some blockFrom ∧
      (StakerProduces sampleEnv (sampleNode sampleView) (.piv sampleTxPrev 0) 0x03000008
          blockFrom.nTime 4000 7 ↔
        StakeTimeAllowed
          (KernelHits sampleEnv (sampleNode sampleView) (.piv sampleTxPrev 0) 0x03000008
            blockFrom.nTime)
          blockFrom.nTime 4000) :=
  checkProofOfStake_stakerProduces_iff checkProofOfStake_sample_old

/-- The coin of time 1000 stakes a block of time 1500, before its minimum age of 900 seconds. -/
theorem checkProofOfStake_young_not_stakerProduces :
    checkProofOfStake sampleEnv (sampleNode sampleView) (sampleStakeBlock 1500) =
        some (7, .piv sampleTxPrev 0) ∧
      (CStakeInput.piv sampleTxPrev 0).blockFrom (sampleNode sampleView) = some sampleBlockFrom ∧
      ¬ StakerProduces sampleEnv (sampleNode sampleView) (.piv sampleTxPrev 0) 0x03000008
        sampleBlockFrom.nTime 1500 7 := by
  refine ⟨checkProofOfStake_sample_young, by decide, ?_⟩
  intro hproduces
  have hmin : ¬ sampleBlockFrom.nTime.toNat + nStakeMinAge.toNat ≤ (1500 : UInt32).toNat := by
    decide
  exact hmin hproduces.minAge

end Lytix
