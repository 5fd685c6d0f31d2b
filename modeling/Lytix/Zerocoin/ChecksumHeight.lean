import Lytix.Chain.BlockIndex
import Lytix.Kernel.StakeAgreement
import Lytix.Validation.Conservation
import Lytix.Zerocoin.ClosestCheckpoint

/-! Where `GetChecksumHeight` looks for a checksum. It visits every block up to the first multiple of
ten, and then every tenth, but only the second version of zerocoin keeps checkpoints from changing
in between. -/
namespace Lytix
open Ancestry

section
variable (view : ChainView) (network : Network)

/-- The checkpoint of the block at a height holds this checksum for the denomination. -/
def HasChecksum (nChecksum : UInt32) (denomination : CoinDenomination) (nHeight : Nat) : Prop :=
  ∃ pindex, view.chainActive[nHeight]? = some pindex ∧
    parseChecksum (view.index pindex).nAccumulatorCheckpoint denomination = nChecksum

/-- The first height from `start` on with the checksum, or zero if there is none. -/
def IsFirstHeight (start : Nat) (nChecksum : UInt32) (denomination : CoinDenomination)
    (nHeight : Nat) : Prop :=
  (nHeight = 0 ∧ ∀ i, start ≤ i → ¬ HasChecksum view nChecksum denomination i) ∨
    (start ≤ nHeight ∧ HasChecksum view nChecksum denomination nHeight ∧
      ∀ i, start ≤ i → i < nHeight → ¬ HasChecksum view nChecksum denomination i)

/-- The first multiple of ten from a height on. -/
def nextTen (nHeight : Nat) : Nat := (nHeight + 9) / 10 * 10

/-- The heights that the search visits from `start` on. -/
def Visits (start nHeight : Nat) : Prop :=
  start ≤ nHeight ∧ (nHeight ≤ nextTen start ∨ nHeight % 10 = 0)

/-- `Zerocoin_StartHeight`. -/
def zerocoinStart : Nat := (Params network).nZerocoinStartHeight.toNat

end

section
variable {view : ChainView} {network : Network} {nChecksum : UInt32}
  {denomination : CoinDenomination} {start nHeight i : ℕ}

theorem visits_of_ten (h : start % 10 = 0) :
    Visits start i ↔ i = start ∨ Visits (start + 10) i := by
  unfold Visits nextTen
  omega

theorem visits_of_not_ten (h : start % 10 ≠ 0) :
    Visits start i ↔ i = start ∨ Visits (start + 1) i := by
  unfold Visits nextTen
  omega

theorem HasChecksum.lt_length (h : HasChecksum view nChecksum denomination i) :
    i < view.chainActive.length := by
  obtain ⟨pindex, hpindex, -⟩ := h
  exact (List.getElem?_eq_some_iff.mp hpindex).1

/-- The first visited height from `start` on with the checksum, or zero. -/
def Finds (view : ChainView) (nChecksum : UInt32) (denomination : CoinDenomination)
    (start nHeight : ℕ) : Prop :=
  (nHeight = 0 ∧ ∀ i, Visits start i → ¬ HasChecksum view nChecksum denomination i) ∨
    (Visits start nHeight ∧ HasChecksum view nChecksum denomination nHeight ∧
      ∀ i, Visits start i → i < nHeight → ¬ HasChecksum view nChecksum denomination i)

/-- Past a height without the checksum the search goes on. -/
theorem Finds.step {next : ℕ} (hvisits : ∀ i, Visits start i ↔ i = start ∨ Visits next i)
    (hnot : ¬ HasChecksum view nChecksum denomination start)
    (h : Finds view nChecksum denomination next nHeight) :
    Finds view nChecksum denomination start nHeight := by
  obtain ⟨hzero, hnone⟩ | ⟨hvisited, hhas, hfirst⟩ := h
  · refine Or.inl ⟨hzero, ?_⟩
    intro i hi
    obtain rfl | hlater := (hvisits i).mp hi
    · exact hnot
    · exact hnone i hlater
  · refine Or.inr ⟨(hvisits nHeight).mpr (Or.inr hvisited), hhas, ?_⟩
    intro i hi hlt
    obtain rfl | hlater := (hvisits i).mp hi
    · exact hnot
    · exact hfirst i hlater hlt

theorem finds_zero_of_length_le (h : view.chainActive.length ≤ start) :
    Finds view nChecksum denomination start 0 := by
  refine Or.inl ⟨rfl, ?_⟩
  rintro i ⟨hle, -⟩ hhas
  have hlt := hhas.lt_length
  omega

/-- The loop ends at the first visited height with the checksum, or at zero. -/
theorem finds_checksumHeightLoop {rounds : ℕ}
    (hrounds : view.chainActive.length ≤ start + rounds) :
    Finds view nChecksum denomination start
      (view.checksumHeightLoop nChecksum denomination rounds start) := by
  induction rounds generalizing start with
  | zero => exact finds_zero_of_length_le hrounds
  | succ rounds ih =>
    unfold ChainView.checksumHeightLoop
    cases hget : view.chainActive[start]? with
    | none => exact finds_zero_of_length_le (List.getElem?_eq_none_iff.mp hget)
    | some pindex =>
      dsimp only
      by_cases hfound :
          parseChecksum (view.index pindex).nAccumulatorCheckpoint denomination = nChecksum
      · rw [if_pos hfound]
        have hvisited : Visits start start := ⟨le_refl start, Or.inl (by unfold nextTen; omega)⟩
        refine Or.inr ⟨hvisited, ⟨pindex, hget, hfound⟩, ?_⟩
        rintro i ⟨hle, -⟩ hlt
        omega
      · rw [if_neg hfound]
        have hnot : ¬ HasChecksum view nChecksum denomination start := by
          rintro ⟨p, hp, hchecksum⟩
          rw [hget, Option.some_inj] at hp
          rw [← hp] at hchecksum
          exact hfound hchecksum
        by_cases hten : start % 10 = 0
        · rw [if_pos hten]
          apply Finds.step (fun i => visits_of_ten hten) hnot
          split_ifs with hend
          · unfold ChainView.height at hend
            exact finds_zero_of_length_le (by omega)
          · exact ih (by omega)
        · rw [if_neg hten]
          exact Finds.step (fun i => visits_of_not_ten hten) hnot (ih (by omega))

theorem finds_getChecksumHeight : Finds view nChecksum denomination (zerocoinStart network)
    (view.getChecksumHeight network nChecksum denomination) :=
  finds_checksumHeightLoop (Nat.le_add_left _ _)

theorem zerocoinStart_pos : 0 < zerocoinStart network := by
  unfold zerocoinStart
  cases network <;> decide

/-- The checksums of a block stood in the chain before it. -/
def BringsNothing (view : ChainView) (start nHeight : ℕ) : Prop :=
  ∀ nChecksum denomination, HasChecksum view nChecksum denomination nHeight →
    ∃ i, start ≤ i ∧ i < nHeight ∧ HasChecksum view nChecksum denomination i

/-- The search is right for every checksum exactly if no block it passes over brings a new one. -/
theorem isFirstHeight_iff_bringsNothing :
    (∀ nChecksum denomination, IsFirstHeight view (zerocoinStart network) nChecksum denomination
      (view.getChecksumHeight network nChecksum denomination)) ↔
    ∀ i, zerocoinStart network ≤ i → ¬ Visits (zerocoinStart network) i →
      BringsNothing view (zerocoinStart network) i := by
  have hpos := @zerocoinStart_pos network
  generalize hstart : zerocoinStart network = start at hpos
  have hfinds (nChecksum : UInt32) (denomination : CoinDenomination) :
      Finds view nChecksum denomination start
        (view.getChecksumHeight network nChecksum denomination) :=
    hstart ▸ finds_getChecksumHeight
  constructor
  · intro h i hle hpassed nChecksum denomination hhas
    by_contra hnot
    have hnew : ∀ j, start ≤ j → j < i → ¬ HasChecksum view nChecksum denomination j :=
      fun j hj hlt hj' => hnot ⟨j, hj, hlt, hj'⟩
    obtain ⟨-, hnone⟩ | ⟨hge, hat, hfirst⟩ := h nChecksum denomination
    · exact hnone i hle hhas
    · have heq : view.getChecksumHeight network nChecksum denomination = i := by
        by_contra hne
        obtain hlt | hgt := lt_or_gt_of_ne hne
        · exact hnew _ hge hlt hat
        · exact hfirst i hle hgt hhas
      obtain ⟨hzero, -⟩ | ⟨hvisited, -, -⟩ := hfinds nChecksum denomination
      · omega
      · rw [heq] at hvisited
        exact hpassed hvisited
  · intro h nChecksum denomination
    -- the first height with the checksum is one that the search visits
    have hvisited : ∀ i, start ≤ i → HasChecksum view nChecksum denomination i →
        ∃ j, j ≤ i ∧ Visits start j ∧ HasChecksum view nChecksum denomination j := by
      intro i
      induction i using Nat.strong_induction_on with
      | _ i ih =>
        intro hle hhas
        by_cases hi : Visits start i
        · exact ⟨i, le_refl i, hi, hhas⟩
        · obtain ⟨j, hj, hlt, hhas'⟩ := h i hle hi nChecksum denomination hhas
          obtain ⟨k, hk, hvisits, hhas''⟩ := ih j hlt hj hhas'
          exact ⟨k, by omega, hvisits, hhas''⟩
    obtain ⟨hzero, hnone⟩ | ⟨hvisits, hhas, hfirst⟩ := hfinds nChecksum denomination
    · refine Or.inl ⟨hzero, ?_⟩
      intro i hle hi
      obtain ⟨j, -, hj, hhas⟩ := hvisited i hle hi
      exact hnone j hj hhas
    · refine Or.inr ⟨hvisits.1, hhas, ?_⟩
      intro i hle hlt hi
      obtain ⟨j, hj, hvisit, hhas'⟩ := hvisited i hle hi
      exact hfirst j hvisit (by omega) hhas'

end

section connected
variable {acc : AccumulatorEnv} {env : ConsensusEnv} {view : ChainView} {network : Network} {i : ℕ}

/-- The checkpoint of every block passed `ValidateAccumulatorCheckpoint` when the block was
connected. -/
def CheckpointsConnected (acc : AccumulatorEnv) (env : ConsensusEnv) (network : Network)
    (view : ChainView) : Prop :=
  ∀ i pindex, view.chainActive[i]? = some pindex → 0 < i →
    ∃ (node : Node) (block : CBlock) (map : AccumulatorMap) (values : AccumulatorValues),
      node.network = network ∧ node.view.index = view.index ∧
      block.nAccumulatorCheckpoint = (view.index pindex).nAccumulatorCheckpoint ∧
      (validateAccumulatorCheckpoint acc env node false block (view.index pindex) map
        values).1 = true

/-- From the second version on only every tenth block has a checkpoint of its own. -/
theorem CheckpointsConnected.bringsNothing (h : CheckpointsConnected acc env network view)
    (hstart : zerocoinStart network < i) (hten : i % 10 ≠ 0)
    (hafter : (Params network).nBlockZerocoinV2 ≤ i) :
    BringsNothing view (zerocoinStart network) i := by
  rintro nChecksum denomination ⟨pindex, hpindex, hchecksum⟩
  obtain ⟨node, block, map, values, hnetwork, hindex, hblock, hvalid⟩ :=
    h i pindex hpindex (by omega)
  have hheight := view.heights i pindex hpindex
  have hlinked := view.linked i pindex hpindex
  rw [if_neg (by omega)] at hlinked
  unfold validateAccumulatorCheckpoint at hvalid
  rw [hnetwork, hheight, if_neg (not_or.mpr ⟨by omega, Bool.false_ne_true⟩),
    if_neg (by omega)] at hvalid
  cases hpprev : (view.index pindex).pprev with
  | none =>
    rw [hpprev] at hvalid
    exact absurd hvalid Bool.false_ne_true
  | some pprev =>
    rw [hpprev] at hvalid
    dsimp only at hvalid
    rw [beq_iff_eq, hblock, hindex] at hvalid
    refine ⟨i - 1, by omega, by omega, pprev, ?_, ?_⟩
    · rw [← hlinked]
      exact hpprev
    · rw [← hvalid]
      exact hchecksum

/-- On a connected chain the search finds the first occurrence of every checksum exactly if no block
between two multiples of ten brings a new one before the second version starts. -/
theorem getChecksumHeight_first_iff (h : CheckpointsConnected acc env network view) :
    (∀ nChecksum denomination, IsFirstHeight view (zerocoinStart network) nChecksum denomination
      (view.getChecksumHeight network nChecksum denomination)) ↔
    ∀ i : ℕ, nextTen (zerocoinStart network) < i → i % 10 ≠ 0 →
      (i : Int) < (Params network).nBlockZerocoinV2 →
      BringsNothing view (zerocoinStart network) i := by
  have hnext : zerocoinStart network ≤ nextTen (zerocoinStart network) := by
    unfold nextTen
    omega
  rw [isFirstHeight_iff_bringsNothing]
  constructor
  · intro hall i hlater hten _
    refine hall i (by omega) ?_
    unfold Visits
    omega
  · intro hall i hle hpassed
    unfold Visits at hpassed
    by_cases hafter : (Params network).nBlockZerocoinV2 ≤ i
    · exact h.bringsNothing (by omega) (by omega) hafter
    · exact hall i (by omega) (by omega) (by omega)

end connected

section examples
/-- A chain on the test network whose checkpoint changes once, at this height. -/
def changingChain (change : Nat) : ChainView :=
  straightView (fun nHeight =>
    { nAccumulatorCheckpoint := if nHeight < change then 0 else 7 }) 100020 (by decide)

variable {acc : AccumulatorEnv} {env : ConsensusEnv} {change i : ℕ}

theorem hasChecksum_changingChain {nChecksum : UInt32} {denomination : CoinDenomination} :
    HasChecksum (changingChain change) nChecksum denomination i ↔ i < 100020 ∧
      parseChecksum (if i < change then 0 else 7) denomination = nChecksum := by
  unfold HasChecksum changingChain
  constructor
  · rintro ⟨pindex, hpindex, hchecksum⟩
    obtain ⟨hi, rfl⟩ := straightView_some hpindex
    rw [straightView_index hi] at hchecksum
    exact ⟨hi, hchecksum⟩
  · rintro ⟨hi, hchecksum⟩
    refine ⟨heightHash i, straightView_getElem? hi, ?_⟩
    rw [straightView_index hi]
    exact hchecksum

/-- Below the second version every checkpoint passes. -/
theorem changingChain_connected :
    CheckpointsConnected acc env .testnet (changingChain change) := by
  intro i pindex hpindex _
  obtain ⟨hi, rfl⟩ := straightView_some hpindex
  let node : Node := { sampleNode (changingChain change) with network := .testnet }
  let block : CBlock := { sampleBlockFrom with
    nAccumulatorCheckpoint := ((changingChain change).index (heightHash i)).nAccumulatorCheckpoint }
  refine ⟨node, block, ⟨true, fun _ => 0⟩, ⟨∅, ∅⟩, rfl, rfl, rfl, ?_⟩
  have hheight := (changingChain change).heights i (heightHash i) hpindex
  have hbefore : (Params node.network).nBlockZerocoinV2 = 99999999 := rfl
  unfold validateAccumulatorCheckpoint
  rw [if_pos (Or.inl (by rw [hheight, hbefore]; omega))]

theorem zerocoinStart_testnet : zerocoinStart .testnet = 100000 := by decide

/-- A change at a multiple of ten is found. -/
theorem changingChain_found :
    IsFirstHeight (changingChain 100010) (zerocoinStart .testnet) 7 .ZQ_FIVE_THOUSAND
      ((changingChain 100010).getChecksumHeight .testnet 7 .ZQ_FIVE_THOUSAND) := by
  have hconnected : CheckpointsConnected (mainCheckpoints fun _ _ => 1) launchEnv .testnet
      (changingChain 100010) := changingChain_connected
  refine (getChecksumHeight_first_iff hconnected).mpr ?_ 7 .ZQ_FIVE_THOUSAND
  rw [zerocoinStart_testnet]
  intro i hlater hten _ nChecksum denomination hhas
  rw [hasChecksum_changingChain] at hhas
  unfold nextTen at hlater
  refine ⟨i - 1, by omega, by omega, ?_⟩
  have hsame : (i - 1 < 100010) = (i < 100010) := by
    rw [eq_iff_iff]
    omega
  rw [hasChecksum_changingChain]
  simp only [hsame]
  exact ⟨by omega, hhas.2⟩

/-- One between two of them is found too late. -/
theorem changingChain_late :
    (∀ acc env, CheckpointsConnected acc env .testnet (changingChain 100005)) ∧
    (changingChain 100005).getChecksumHeight .testnet 7 .ZQ_FIVE_THOUSAND = 100010 ∧
    HasChecksum (changingChain 100005) 7 .ZQ_FIVE_THOUSAND 100005 := by
  have hzero : parseChecksum 0 .ZQ_FIVE_THOUSAND = 0 := by decide
  have hseven : parseChecksum 7 .ZQ_FIVE_THOUSAND = 7 := by decide
  have hhas (i : ℕ) : HasChecksum (changingChain 100005) 7 .ZQ_FIVE_THOUSAND i ↔
      i < 100020 ∧ 100005 ≤ i := by
    rw [hasChecksum_changingChain]
    by_cases hbefore : i < 100005
    · rw [if_pos hbefore, hzero]
      exact iff_of_false (fun h => absurd h.2 (by decide)) (by omega)
    · rw [if_neg hbefore, hseven]
      exact and_congr_right fun _ => iff_of_true rfl (by omega)
  refine ⟨fun acc env => changingChain_connected, ?_, (hhas 100005).mpr (by decide)⟩
  have hfinds : Finds (changingChain 100005) 7 .ZQ_FIVE_THOUSAND (zerocoinStart .testnet)
      ((changingChain 100005).getChecksumHeight .testnet 7 .ZQ_FIVE_THOUSAND) :=
    finds_getChecksumHeight
  rw [zerocoinStart_testnet] at hfinds
  generalize (changingChain 100005).getChecksumHeight .testnet 7 .ZQ_FIVE_THOUSAND = r at hfinds ⊢
  have htarget : Visits 100000 100010 := by
    unfold Visits nextTen
    decide
  obtain ⟨-, hnone⟩ | ⟨hvisits, hat, hfirst⟩ := hfinds
  · exact absurd ((hhas 100010).mpr (by decide)) (hnone 100010 htarget)
  · have hlow := (hhas r).mp hat
    have hhigh : r ≤ 100010 := by
      by_contra hnot
      exact hfirst 100010 htarget (by omega) ((hhas 100010).mpr (by decide))
    unfold Visits nextTen at hvisits
    omega

end examples
end Lytix
