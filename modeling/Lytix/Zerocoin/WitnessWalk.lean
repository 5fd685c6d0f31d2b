import Lytix.Chain.BlockIndex
import Lytix.Kernel.StakeAgreement
import Lytix.Lib.BoundedLoops
import Lytix.Validation.Conservation
import Lytix.Zerocoin.ClosestCheckpoint

/-! The walk along the chain that computes the witness of a mint (`GenerateAccumulatorWitness`). It
goes on without moving where it may stop within the range of invalid checkpoints, and it reads the
checkpoint ten blocks above the block it stops at. -/
namespace Lytix
open Ancestry BoundedLoops

/-- What the walk carries along. -/
structure WitnessState where
  nCheckpointsAdded : Int := 0
  nMintsAdded : Int := 0
  witnessAccumulator : Int
  fDoubleCounted : Bool := false

/-- How the walk ends: at a block with the value for the accumulator, past the tip, with an error,
or at a position that does not exist. -/
inductive WitnessEnd where
  | initialized (bnAccValue : Int) (state : WitnessState)
  | chainEnded (state : WitnessState)
  | checksumMissing
  | nullPointer

def invalidCheckpointRange (network : Network) (nHeight : Int) : Bool :=
  decide ((Params network).nBlockLastGoodCheckpoint < nHeight ∧
    nHeight < (Params network).nBlockRecalculateAccumulators)

/-- `RandomizeSecurityLevel` with the random number it draws. -/
def randomizeSecurityLevel (nRand nSecurityLevel : Int) : Int :=
  if nSecurityLevel < 100 then
    if 100 ≤ nSecurityLevel + nRand then 99 else nSecurityLevel + nRand
  else nSecurityLevel

section
variable (acc : AccumulatorEnv) (env : ConsensusEnv) (node : Node) (values : AccumulatorValues)
  (coin : PublicCoin) (nHeightMintAdded : Int)

/-- The number of mints added and the accumulator. An error counts as no mints. -/
def addBlockMintsToAccumulator (pindex : Uint256) (accumulator : Int) (isWitness : Bool) :
    Int × Int :=
  let entry := node.view.index pindex
  if coin.denomination ∈ entry.vMintDenominationsInBlock then
    match (node.readBlock pindex).bind (blockToPubcoinList env) with
    | none => (0, accumulator)
    | some listPubcoins =>
      listPubcoins.foldl (fun added pubcoin =>
        if pubcoin.denomination ≠ coin.denomination then added
        else if isWitness ∧ entry.nHeight = nHeightMintAdded ∧ pubcoin.value = coin.value then added
        else (added.1 + 1, acc.increment false added.2 pubcoin.value)) (0, accumulator)
  else (0, accumulator)

/-- Whether the checkpoint of a block differs from that of the block before it, if there is one. -/
def checkpointChanged (pindex : Uint256) : Option Bool :=
  (node.view.pprev pindex).map fun pprev =>
    decide ((node.view.index pprev).nAccumulatorCheckpoint ≠
      (node.view.index pindex).nAccumulatorCheckpoint)

/-- The end at a block where the walk may stop. -/
def initializeAt (nHeight : Int) (state : WitnessState) : WitnessEnd :=
  match node.view.chainAt (nHeight + 10) with
  | none => .nullPointer
  | some pindexSpend =>
    let nCheckpointSpend := (node.view.index pindexSpend).nAccumulatorCheckpoint
    match getAccumulatorValueFromDB values nCheckpointSpend coin.denomination with
    | none => .checksumMissing
    | some bnAccValue => if bnAccValue = 0 then .checksumMissing else .initialized bnAccValue state

variable (nAccStartHeight nHeightStop nSecurityLevel : Int)

/-- The stop height is reached, or the security level is satisfied. -/
def mayStop (nHeight nCheckpointsAdded : Int) : Bool :=
  decide (nHeightStop ≤ nHeight) ||
    (decide (nSecurityLevel ≠ 100) && decide (nSecurityLevel ≤ nCheckpointsAdded))

/-- The loop, with at most `fuel` rounds. -/
def witnessLoop : Nat → Option Uint256 → WitnessState → Option WitnessEnd
  | 0, _, _ => none
  | _ + 1, none, state => some (.chainEnded state)
  | fuel + 1, some pindex, state =>
    let nHeight : Int := (node.view.index pindex).nHeight
    match (if nHeight ≠ nAccStartHeight then checkpointChanged node pindex else some false) with
    | none => some .nullPointer
    | some changed =>
      let state :=
        if changed then { state with nCheckpointsAdded := state.nCheckpointsAdded + 1 } else state
      if mayStop nHeightStop nSecurityLevel nHeight state.nCheckpointsAdded then
        -- the loop goes on from the same block
        if invalidCheckpointRange node.network nHeight then witnessLoop fuel (some pindex) state
        else some (initializeAt node values coin nHeight state)
      else
        let added := addBlockMintsToAccumulator acc env node coin nHeightMintAdded pindex
          state.witnessAccumulator true
        let state :=
          { state with
            nMintsAdded := state.nMintsAdded + added.1
            witnessAccumulator := added.2 }
        if nHeight = 1050010 ∧ state.fDoubleCounted = false then
          witnessLoop fuel (node.view.chainAt 1050000) { state with fDoubleCounted := true }
        else witnessLoop fuel (node.view.next pindex) state

/-- The height and the value of the accumulator before the cluster of the mint. -/
def witnessStart : Int × Int :=
  let nHeightCheckpoint := nHeightMintAdded + (10 - nHeightMintAdded % 10)
  match getAccumulatorValue acc node values nHeightCheckpoint coin.denomination with
  | some start => start
  | none => (nHeightCheckpoint, acc.accumulatorBase false)

/-- `nHeightStop`: at least two checkpoints deep, or right below the given checkpoint. -/
def witnessStop (pindexCheckpoint : Option Uint256) : Int :=
  match pindexCheckpoint with
  | some pindex => (node.view.index pindex).nHeight - 10
  | none => node.view.height - node.view.height % 10 - 20

/-- `GenerateAccumulatorWitness` up to the end of the walk, for a mint at a height. -/
def generateAccumulatorWitness (nRand : Int) (pindexCheckpoint : Option Uint256) (fuel : Nat) :
    Option WitnessEnd :=
  let start := witnessStart acc node values coin nHeightMintAdded
  witnessLoop acc env node values coin nHeightMintAdded (nHeightMintAdded - nHeightMintAdded % 10)
    (witnessStop node pindexCheckpoint) (randomizeSecurityLevel nRand nSecurityLevel) fuel
    (node.view.chainAt (start.1 - 10)) { witnessAccumulator := start.2 }

end

section path
variable (view : ChainView) (nAccStartHeight nHeightStop nSecurityLevel : Int)

def checkpointAt (nHeight : Nat) : Option Uint256 :=
  (view.chainActive[nHeight]?).map fun pindex => (view.index pindex).nAccumulatorCheckpoint

/-- The walk counts a new checkpoint at this height. -/
def countsAt (nHeight : Nat) : Bool :=
  decide ((nHeight : Int) ≠ nAccStartHeight) &&
    decide (checkpointAt view (nHeight - 1) ≠ checkpointAt view nHeight)

/-- The heights the walk would take if it never stopped: ten blocks are taken twice. -/
def walkHeights (start : Nat) (fDoubleCounted : Bool) (length : Nat) : List Nat :=
  if fDoubleCounted = false ∧ start ≤ 1050010 ∧ 1050010 < length then
    List.range' start (1050011 - start) ++ List.range' 1050000 (length - 1050000)
  else List.range' start (length - start)

/-- The first of these heights where the walk may stop. -/
def firstStop (nCheckpointsAdded : Int) : List Nat → Option Nat
  | [] => none
  | nHeight :: rest =>
    let added :=
      if countsAt view nAccStartHeight nHeight then nCheckpointsAdded + 1 else nCheckpointsAdded
    if mayStop nHeightStop nSecurityLevel nHeight added then some nHeight
    else firstStop added rest

variable {start length : ℕ} {fDoubleCounted : Bool}

theorem walkHeights_of_le (h : length ≤ start) : walkHeights start fDoubleCounted length = [] := by
  unfold walkHeights
  rw [if_neg (by omega), Nat.sub_eq_zero_of_le h]
  rfl

theorem walkHeights_of_lt (h : start < length) :
    walkHeights start fDoubleCounted length = start ::
      if start = 1050010 ∧ fDoubleCounted = false then walkHeights 1050000 true length
      else walkHeights (start + 1) fDoubleCounted length := by
  have hrange (m : ℕ) (hm : start < m) : List.range' start (m - start) =
      start :: List.range' (start + 1) (m - (start + 1)) := by
    have hsucc : m - start = (m - (start + 1)) + 1 := by omega
    rw [hsucc, List.range'_succ]
  unfold walkHeights
  by_cases htwice : fDoubleCounted = false ∧ start ≤ 1050010 ∧ 1050010 < length
  · rw [if_pos htwice, hrange 1050011 (by omega), List.cons_append]
    congr 1
    by_cases hlast : start = 1050010
    · rw [if_pos ⟨hlast, htwice.1⟩, if_neg (by simp), hlast]
      have hzero : 1050011 - (1050010 + 1) = 0 := by decide
      rw [hzero, List.range'_zero, List.nil_append]
    · rw [if_neg (fun h => hlast h.1), if_pos ⟨htwice.1, by omega, htwice.2.2⟩]
  · have hnot : ¬ (start = 1050010 ∧ fDoubleCounted = false) := by
      rintro ⟨hlast, hfirst⟩
      exact htwice ⟨hfirst, by omega, by omega⟩
    have hnext : ¬ (fDoubleCounted = false ∧ start + 1 ≤ 1050010 ∧ 1050010 < length) := by
      rintro ⟨hfirst, hle, hlt⟩
      exact htwice ⟨hfirst, by omega, hlt⟩
    rw [if_neg htwice, if_neg hnot, if_neg hnext, hrange length h]

theorem mayStop_mono {nHeight c c' : Int} (h : mayStop nHeightStop nSecurityLevel nHeight c = true)
    (hle : c ≤ c') : mayStop nHeightStop nSecurityLevel nHeight c' = true := by
  unfold mayStop at h ⊢
  simp only [Bool.or_eq_true, Bool.and_eq_true, decide_eq_true_eq] at h ⊢
  omega

end path

section ends
variable {f g : ℕ → Option WitnessEnd} {e : WitnessEnd}

/-- The walk ends, and every position it reads exists. -/
def EndsWell (f : ℕ → Option WitnessEnd) : Prop := ∃ e, Returns f e ∧ e ≠ .nullPointer

theorem returns_succ_iff (h : ∀ fuel, f (fuel + 1) = g fuel) : Returns f e ↔ Returns g e := by
  constructor
  · rintro ⟨enough, hf⟩
    exact ⟨enough, fun fuel hfuel => by rw [← h, hf (fuel + 1) (by omega)]⟩
  · rintro ⟨enough, hg⟩
    refine ⟨enough + 1, ?_⟩
    intro fuel hfuel
    obtain ⟨rounds, rfl⟩ := Nat.exists_eq_add_of_le' (le_trans (Nat.le_add_left 1 enough) hfuel)
    rw [h, hg rounds (by omega)]

theorem endsWell_succ_iff (h : ∀ fuel, f (fuel + 1) = g fuel) : EndsWell f ↔ EndsWell g :=
  exists_congr fun _ => and_congr_left fun _ => returns_succ_iff h

theorem endsWell_some_iff : EndsWell (fun _ => some e) ↔ e ≠ .nullPointer := by
  constructor
  · rintro ⟨e', ⟨enough, h⟩, hne⟩
    rwa [Option.some.inj (h enough (le_refl enough))]
  · exact fun hne => ⟨e, ⟨0, fun _ _ => rfl⟩, hne⟩

theorem not_endsWell_of_none (h : ∀ fuel, f fuel = none) : ¬ EndsWell f := by
  rintro ⟨e, ⟨enough, hf⟩, -⟩
  exact absurd ((h enough).symm.trans (hf enough (le_refl enough))) (Option.some_ne_none e).symm

end ends

section walk
variable {acc : AccumulatorEnv} {env : ConsensusEnv} {node : Node} {values : AccumulatorValues}
  {coin : PublicCoin} {nHeightMintAdded nAccStartHeight nHeightStop nSecurityLevel : Int}
  {pindex : Uint256} {start : ℕ} {state : WitnessState}

theorem next_of_getElem? (h : node.view.chainActive[start]? = some pindex) :
    node.view.next pindex = node.view.chainActive[start + 1]? := by
  unfold ChainView.next
  rw [if_pos (ChainView.contains_of_getElem? h), node.view.heights start pindex h]

/-- Whether the walk counts a block, where it can tell. -/
theorem checkpointChanged_of_getElem? (h : node.view.chainActive[start]? = some pindex)
    (hgenesis : start = 0 → nAccStartHeight = 0) :
    (if ((node.view.index pindex).nHeight : Int) ≠ nAccStartHeight then
      checkpointChanged node pindex else some false) =
        some (countsAt node.view nAccStartHeight start) := by
  have hheight := node.view.heights start pindex h
  have hlinked := node.view.linked start pindex h
  unfold countsAt checkpointAt
  rw [hheight]
  by_cases hstart : (start : Int) = nAccStartHeight
  · simp [hstart]
  · have hpositive : start ≠ 0 := by
      intro hzero
      exact hstart (by rw [hgenesis hzero, hzero]; rfl)
    have hlt := (List.getElem?_eq_some_iff.mp h).1
    obtain ⟨pprev, hpprev⟩ : ∃ pprev, node.view.chainActive[start - 1]? = some pprev :=
      ⟨_, List.getElem?_eq_getElem (by omega)⟩
    rw [if_neg hpositive, hpprev] at hlinked
    have hprev : node.view.pprev pindex = some pprev := hlinked
    unfold checkpointChanged
    rw [if_pos hstart, hprev, hpprev, h]
    simp [hstart]

/-- The state after a block is counted. -/
def WitnessState.count (state : WitnessState) (changed : Bool) : WitnessState :=
  if changed then { state with nCheckpointsAdded := state.nCheckpointsAdded + 1 } else state

theorem nCheckpointsAdded_count (changed : Bool) : (state.count changed).nCheckpointsAdded =
    if changed then state.nCheckpointsAdded + 1 else state.nCheckpointsAdded := by
  unfold WitnessState.count
  split_ifs <;> rfl

theorem le_nCheckpointsAdded_count (changed : Bool) :
    state.nCheckpointsAdded ≤ (state.count changed).nCheckpointsAdded := by
  rw [nCheckpointsAdded_count]
  split_ifs <;> omega

theorem fDoubleCounted_count (changed : Bool) :
    (state.count changed).fDoubleCounted = state.fDoubleCounted := by
  unfold WitnessState.count
  split_ifs <;> rfl

/-- One round of the loop at a block of the chain. -/
theorem witnessLoop_succ {fuel : ℕ} (h : node.view.chainActive[start]? = some pindex)
    (hgenesis : start = 0 → nAccStartHeight = 0) :
    let counted := state.count (countsAt node.view nAccStartHeight start)
    let added := addBlockMintsToAccumulator acc env node coin nHeightMintAdded pindex
      counted.witnessAccumulator true
    let later : WitnessState :=
      { counted with
        nMintsAdded := counted.nMintsAdded + added.1
        witnessAccumulator := added.2 }
    witnessLoop acc env node values coin nHeightMintAdded nAccStartHeight nHeightStop nSecurityLevel
        (fuel + 1) (some pindex) state =
      if mayStop nHeightStop nSecurityLevel start counted.nCheckpointsAdded then
        if invalidCheckpointRange node.network start then
          witnessLoop acc env node values coin nHeightMintAdded nAccStartHeight nHeightStop
            nSecurityLevel fuel (some pindex) counted
        else some (initializeAt node values coin start counted)
      else if start = 1050010 ∧ state.fDoubleCounted = false then
        witnessLoop acc env node values coin nHeightMintAdded nAccStartHeight nHeightStop
          nSecurityLevel fuel node.view.chainActive[1050000]? { later with fDoubleCounted := true }
      else
        witnessLoop acc env node values coin nHeightMintAdded nAccStartHeight nHeightStop
          nSecurityLevel fuel node.view.chainActive[start + 1]? later := by
  intro counted added later
  have hheight := node.view.heights start pindex h
  have hdouble : later.fDoubleCounted = state.fDoubleCounted := fDoubleCounted_count _
  have hcast : ((start : ℤ) = 1050010 ∧ later.fDoubleCounted = false) =
      (start = 1050010 ∧ state.fDoubleCounted = false) := by
    rw [hdouble]
    exact propext (and_congr_left fun _ => by omega)
  have hjump : node.view.chainAt 1050000 = node.view.chainActive[1050000]? := rfl
  rw [witnessLoop, checkpointChanged_of_getElem? h hgenesis, hheight, next_of_getElem? h, hjump]
  dsimp only
  change (if _ then _
    else if (start : ℤ) = 1050010 ∧ later.fDoubleCounted = false then _ else _) = _
  simp only [hcast]
  rfl

/-- Within the range of invalid checkpoints the loop does not leave a block where it may stop. -/
theorem witnessLoop_eq_none (h : node.view.chainActive[start]? = some pindex)
    (hgenesis : start = 0 → nAccStartHeight = 0)
    (hinvalid : invalidCheckpointRange node.network start = true) (fuel : ℕ)
    (hstop : mayStop nHeightStop nSecurityLevel start
      (state.count (countsAt node.view nAccStartHeight start)).nCheckpointsAdded = true) :
    witnessLoop acc env node values coin nHeightMintAdded nAccStartHeight nHeightStop nSecurityLevel
      fuel (some pindex) state = none := by
  induction fuel generalizing state with
  | zero => rfl
  | succ fuel ih =>
    rw [witnessLoop_succ h hgenesis, if_pos hstop, if_pos hinvalid]
    apply ih
    exact mayStop_mono _ _ hstop (le_nCheckpointsAdded_count _)

/-- The end at a block is an error or an accumulator exactly if there are ten blocks above it. -/
theorem initializeAt_ne_nullPointer_iff :
    initializeAt node values coin start state ≠ .nullPointer ↔
      start + 10 < node.view.chainActive.length := by
  have habove : ((start : ℤ) + 10).toNat = start + 10 := by omega
  unfold initializeAt ChainView.chainAt
  rw [if_neg (by omega), habove]
  cases hget : node.view.chainActive[start + 10]? with
  | none =>
    have hlength := List.getElem?_eq_none_iff.mp hget
    exact iff_of_false (fun h => h rfl) (by omega)
  | some pindexSpend =>
    have hlt := (List.getElem?_eq_some_iff.mp hget).1
    refine iff_of_true ?_ hlt
    dsimp only
    split
    · simp
    · split_ifs <;> simp

/-- The walk ends well exactly if the first block where it may stop, if any, is outside the range of
invalid checkpoints and has ten blocks above it. -/
theorem endsWell_witnessLoop_iff {path : List ℕ}
    (hpath : walkHeights start state.fDoubleCounted node.view.chainActive.length = path)
    (hgenesis : start = 0 → nAccStartHeight = 0) :
    EndsWell (fun fuel => witnessLoop acc env node values coin nHeightMintAdded nAccStartHeight
        nHeightStop nSecurityLevel fuel node.view.chainActive[start]? state) ↔
      ∀ nHeight ∈ firstStop node.view nAccStartHeight nHeightStop nSecurityLevel
          state.nCheckpointsAdded path,
        invalidCheckpointRange node.network nHeight = false ∧
          nHeight + 10 < node.view.chainActive.length := by
  induction path generalizing start state with
  | nil =>
    have hend : node.view.chainActive.length ≤ start := by
      by_contra hlt
      rw [walkHeights_of_lt (by omega)] at hpath
      exact absurd hpath (List.cons_ne_nil _ _)
    rw [List.getElem?_eq_none hend, endsWell_succ_iff (g := fun _ => some (.chainEnded state))
      fun _ => rfl, endsWell_some_iff]
    exact iff_of_true (by simp) fun _ h => absurd h (Option.not_mem_none _)
  | cons first rest ih =>
    have hlt : start < node.view.chainActive.length := by
      by_contra hend
      rw [walkHeights_of_le (by omega)] at hpath
      exact absurd hpath.symm (List.cons_ne_nil _ _)
    rw [walkHeights_of_lt hlt] at hpath
    obtain ⟨rfl, hrest⟩ := List.cons.inj hpath
    obtain ⟨pindex, hpindex⟩ : ∃ pindex, node.view.chainActive[start]? = some pindex :=
      ⟨_, List.getElem?_eq_getElem hlt⟩
    have hcounted : (state.count (countsAt node.view nAccStartHeight start)).nCheckpointsAdded =
      if countsAt node.view nAccStartHeight start then state.nCheckpointsAdded + 1
        else state.nCheckpointsAdded := nCheckpointsAdded_count _
    rw [firstStop, ← hcounted, hpindex]
    by_cases hstop : mayStop nHeightStop nSecurityLevel start
        (state.count (countsAt node.view nAccStartHeight start)).nCheckpointsAdded = true
    · rw [if_pos hstop]
      simp only [Option.mem_some_iff, forall_eq']
      cases hinvalid : invalidCheckpointRange node.network start with
      | true =>
        refine iff_of_false (not_endsWell_of_none fun fuel => ?_) fun h => Bool.noConfusion h.1
        exact witnessLoop_eq_none hpindex hgenesis hinvalid fuel hstop
      | false =>
        rw [endsWell_succ_iff (g := fun _ => some (initializeAt node values coin start
          (state.count (countsAt node.view nAccStartHeight start)))) fun fuel => by
            rw [witnessLoop_succ hpindex hgenesis, if_pos hstop, if_neg (by rw [hinvalid]; simp)],
          endsWell_some_iff, initializeAt_ne_nullPointer_iff]
        simp
    · rw [if_neg hstop]
      by_cases htwice : start = 1050010 ∧ state.fDoubleCounted = false
      · rw [if_pos htwice] at hrest
        rw [endsWell_succ_iff fun fuel => by
          rw [witnessLoop_succ hpindex hgenesis, if_neg hstop, if_pos htwice]]
        exact ih hrest fun hzero => absurd hzero (by decide)
      · have hdouble : (state.count (countsAt node.view nAccStartHeight start)).fDoubleCounted =
          state.fDoubleCounted := fDoubleCounted_count _
        rw [if_neg htwice, ← hdouble] at hrest
        rw [endsWell_succ_iff fun fuel => by
          rw [witnessLoop_succ hpindex hgenesis, if_neg hstop, if_neg htwice]]
        exact ih hrest fun hzero => absurd hzero (Nat.succ_ne_zero start)

/-- The block before the genesis block is read where the mint is of another cluster. -/
theorem witnessLoop_genesis {fuel : ℕ} (h : node.view.chainActive[start]? = some pindex)
    (hstart : start = 0) (hcluster : nAccStartHeight ≠ 0) :
    witnessLoop acc env node values coin nHeightMintAdded nAccStartHeight nHeightStop nSecurityLevel
      (fuel + 1) (some pindex) state = some .nullPointer := by
  have hheight := node.view.heights start pindex h
  have hlinked := node.view.linked start pindex h
  rw [if_pos hstart] at hlinked
  have hchanged : checkpointChanged node pindex = none := by
    unfold checkpointChanged
    rw [Option.map_eq_none_iff]
    exact hlinked
  rw [witnessLoop, hchanged, hheight, if_pos (by omega)]

/-- From the block the walk starts at, if there is one, every position exists and the first block
where the walk may stop, if any, is outside the range of invalid checkpoints. -/
def WalkFits (acc : AccumulatorEnv) (node : Node) (values : AccumulatorValues) (coin : PublicCoin)
    (nHeightMintAdded nSecurityLevel : Int) (pindexCheckpoint : Option Uint256) : Prop :=
  ∀ start : ℕ, (start : Int) = (witnessStart acc node values coin nHeightMintAdded).1 - 10 →
    start < node.view.chainActive.length →
      (start = 0 → nHeightMintAdded - nHeightMintAdded % 10 = 0) ∧
      ∀ nHeight ∈ firstStop node.view (nHeightMintAdded - nHeightMintAdded % 10)
          (witnessStop node pindexCheckpoint) nSecurityLevel 0
          (walkHeights start false node.view.chainActive.length),
        invalidCheckpointRange node.network nHeight = false ∧
          nHeight + 10 < node.view.chainActive.length

/-- Witness generation ends, and reads no position that does not exist, exactly if the walk fits the
chain. -/
theorem generateAccumulatorWitness_endsWell_iff (acc : AccumulatorEnv) (env : ConsensusEnv)
    (node : Node) (values : AccumulatorValues) (coin : PublicCoin)
    (nHeightMintAdded nSecurityLevel nRand : Int) (pindexCheckpoint : Option Uint256) :
    EndsWell (generateAccumulatorWitness acc env node values coin nHeightMintAdded nSecurityLevel
        nRand pindexCheckpoint) ↔
      WalkFits acc node values coin nHeightMintAdded (randomizeSecurityLevel nRand nSecurityLevel)
        pindexCheckpoint := by
  unfold generateAccumulatorWitness WalkFits
  dsimp only
  generalize witnessStart acc node values coin nHeightMintAdded = base
  cases hat : node.view.chainAt (base.1 - 10) with
  | none =>
    rw [endsWell_succ_iff (g := fun _ => some (.chainEnded { witnessAccumulator := base.2 }))
      fun _ => rfl, endsWell_some_iff]
    refine iff_of_true (by simp) ?_
    intro start hstart hlt
    have hsome : node.view.chainAt (base.1 - 10) = node.view.chainActive[start]? := by
      rw [← hstart]
      rfl
    rw [hat, List.getElem?_eq_getElem hlt] at hsome
    exact absurd hsome.symm (Option.some_ne_none _)
  | some pindex =>
    have hnonneg : 0 ≤ base.1 - 10 := by
      by_contra hneg
      rw [ChainView.chainAt, if_pos (by omega)] at hat
      exact absurd hat.symm (Option.some_ne_none pindex)
    obtain ⟨start, hstart⟩ := Int.eq_ofNat_of_zero_le hnonneg
    have hget : node.view.chainActive[start]? = some pindex := by
      rw [hstart] at hat
      exact hat
    have hlt := (List.getElem?_eq_some_iff.mp hget).1
    have hunique : ∀ n : ℕ, (n : ℤ) = base.1 - 10 ↔ n = start := by
      intro n
      omega
    simp only [hunique, forall_eq, hlt, true_implies]
    by_cases hgenesis : start = 0 → nHeightMintAdded - nHeightMintAdded % 10 = 0
    · rw [← hget, endsWell_witnessLoop_iff rfl hgenesis]
      exact (and_iff_right hgenesis).symm
    · refine iff_of_false ?_ fun h => hgenesis h.1
      rw [endsWell_succ_iff (g := fun _ => some .nullPointer) fun fuel =>
        witnessLoop_genesis hget (by tauto) (by tauto), endsWell_some_iff]
      simp

theorem witnessStart_of_some {found : Int × Int}
    (h : getAccumulatorValue acc node values (nHeightMintAdded + (10 - nHeightMintAdded % 10))
      coin.denomination = some found) :
    witnessStart acc node values coin nHeightMintAdded = found := by
  rw [witnessStart, h]

theorem witnessStart_of_none
    (h : getAccumulatorValue acc node values (nHeightMintAdded + (10 - nHeightMintAdded % 10))
      coin.denomination = none) :
    witnessStart acc node values coin nHeightMintAdded =
      (nHeightMintAdded + (10 - nHeightMintAdded % 10), acc.accumulatorBase false) := by
  rw [witnessStart, h]

/-- The walk does not end well if it may first stop where it should not. -/
theorem not_endsWell_of_firstStop {nRand bnAccValue : Int} {pindexCheckpoint : Option Uint256}
    {nHeight : ℕ}
    (hstart : witnessStart acc node values coin nHeightMintAdded = ((start : ℤ) + 10, bnAccValue))
    (hgenesis : start ≠ 0)
    (hfirst : firstStop node.view (nHeightMintAdded - nHeightMintAdded % 10)
      (witnessStop node pindexCheckpoint) (randomizeSecurityLevel nRand nSecurityLevel) 0
      (walkHeights start false node.view.chainActive.length) = some nHeight)
    (hbad : invalidCheckpointRange node.network nHeight = true ∨
      node.view.chainActive.length ≤ nHeight + 10) :
    ¬ EndsWell (generateAccumulatorWitness acc env node values coin nHeightMintAdded nSecurityLevel
      nRand pindexCheckpoint) := by
  have hat : node.view.chainAt ((start : ℤ) + 10 - 10) = node.view.chainActive[start]? := by
    rw [Int.add_sub_cancel]
    rfl
  unfold generateAccumulatorWitness
  rw [hstart]
  dsimp only
  rw [hat, endsWell_witnessLoop_iff rfl fun hzero => absurd hzero hgenesis]
  intro hall
  obtain ⟨hvalid, habove⟩ := hall nHeight hfirst
  obtain hinvalid | hshort := hbad
  · rw [hvalid] at hinvalid
    contradiction
  · omega

/-- A walk that reaches the stop height may stop at one of its heights. -/
theorem exists_firstStop {view : ChainView} {nCheckpointsAdded : Int} {path : List ℕ} {nHeight : ℕ}
    (hmem : nHeight ∈ path) (hstop : nHeightStop ≤ nHeight) :
    ∃ stop ∈ path, firstStop view nAccStartHeight nHeightStop nSecurityLevel nCheckpointsAdded
      path = some stop := by
  induction path generalizing nCheckpointsAdded with
  | nil => exact absurd hmem List.not_mem_nil
  | cons first rest ih =>
    rw [firstStop]
    generalize (if countsAt view nAccStartHeight first = true then nCheckpointsAdded + 1
      else nCheckpointsAdded) = added
    by_cases hmay : mayStop nHeightStop nSecurityLevel first added = true
    · rw [if_pos hmay]
      exact ⟨first, List.mem_cons_self, rfl⟩
    · rw [if_neg hmay]
      obtain rfl | hrest := List.mem_cons.mp hmem
      · refine absurd ?_ hmay
        unfold mayStop
        rw [decide_eq_true hstop]
        rfl
      · obtain ⟨stop, hin, hfirst⟩ := @ih added hrest
        exact ⟨stop, List.mem_cons_of_mem first hin, hfirst⟩

theorem mem_walkHeights {length nHeight : ℕ} (hlow : start ≤ 1050000) (hlong : 1050010 < length) :
    nHeight ∈ walkHeights start false length ↔ start ≤ nHeight ∧ nHeight < length := by
  unfold walkHeights
  rw [if_pos ⟨rfl, by omega, hlong⟩, List.mem_append, List.mem_range'_1, List.mem_range'_1]
  omega

end walk

section examples
/-- The mint of a coin in a block of its own. -/
def mintBlock : CBlock := launchBlock [launchMint]

def mintedCoin : PublicCoin := ⟨11, .ZQ_ONE⟩

example : blockToPubcoinList launchEnv mintBlock = some [mintedCoin] := by decide

/-- A chain of this many blocks without checkpoints, with the mint at a height. -/
def mintedNode (network : Network) (mint n : Nat) (hn : n < 2 ^ 64) : Node where
  network := network
  view := straightView (fun nHeight =>
    if nHeight = mint then { vMintDenominationsInBlock := [.ZQ_ONE] } else {}) n hn
  mempool := fun _ => none
  mempool_hash := mempool_hash_none
  fTxIndex := false
  txIndex := fun _ => none
  accessCoins := fun _ => none
  readBlockFromDisk := fun pindex => if pindex = heightHash mint then some mintBlock else none

variable {network : Network} {mint n : ℕ} {hn : n < 2 ^ 64}

theorem length_mintedNode : (mintedNode network mint n hn).view.chainActive.length = n := by
  unfold mintedNode straightView
  rw [List.length_map, List.length_range]

theorem height_mintedNode : (mintedNode network mint n hn).view.height = n - 1 := by
  exact @straightView_height _ n hn

theorem chainAt_mintedNode {i : ℕ} (hi : i < n) :
    (mintedNode network mint n hn).view.chainAt i = some (heightHash i) := by
  exact @straightView_chainAt _ n i hn hi

theorem witnessStop_mintedNode : witnessStop (mintedNode network mint n hn) none =
    ((n : ℤ) - 1) - ((n : ℤ) - 1) % 10 - 20 := by
  rw [witnessStop, height_mintedNode]

/-- On the main network a mint is looked for from the first checkpoint in the code on. -/
theorem witnessStart_main {values : AccumulatorValues} :
    witnessStart (mainCheckpoints fun _ _ => 1) (mintedNode .main 100000025 100000100 (by decide))
      values mintedCoin 100000025 = (((870010 : ℕ) : ℤ) + 10, 1) := by
  have hclosest : getClosestCheckpoint (mainCheckpoints fun _ _ => 1) 100000030 =
      some (870020, fun _ => 1) := rfl
  have hat : (mintedNode .main 100000025 100000100 (by decide)).view.chainAt 100000030 =
      some (heightHash 100000030) := chainAt_mintedNode (by decide)
  have hvalue : getAccumulatorValue (mainCheckpoints fun _ _ => 1)
      (mintedNode .main 100000025 100000100 (by decide)) values 100000030 .ZQ_ONE =
        some (870020, 1) := by
    unfold getAccumulatorValue
    rw [if_neg (by rw [height_mintedNode]; decide), hat]
    dsimp only
    rw [if_neg (by decide), hclosest]
    rfl
  exact witnessStart_of_some hvalue

/-- Near the tip of a test network the next checkpoint does not exist yet. -/
theorem witnessStart_testnet {values : AccumulatorValues} :
    witnessStart (mainCheckpoints fun _ _ => 1) (mintedNode .testnet 100015 100020 (by decide))
      values mintedCoin 100015 = (((100010 : ℕ) : ℤ) + 10, 961) := by
  apply witnessStart_of_none
  unfold getAccumulatorValue
  rw [height_mintedNode, if_pos (by decide)]

/-- On the main network the walk does not leave the range of invalid checkpoints. -/
theorem witnessWalk_main :
    ¬ EndsWell (generateAccumulatorWitness (mainCheckpoints fun _ _ => 1) launchEnv
      (mintedNode .main 100000025 100000100 (by decide)) ⟨∅, ∅⟩ mintedCoin 100000025 100 0
      none) := by
  have hmem : 100000070 ∈ walkHeights 870010 false 100000100 :=
    (mem_walkHeights (by omega) (by omega)).mpr (by omega)
  have hreached : (100000070 : ℤ) ≤ (100000070 : ℕ) := by omega
  obtain ⟨nHeight, hin, hfirst⟩ := @exists_firstStop (100000025 - 100000025 % 10) 100000070
    (randomizeSecurityLevel 0 100) (mintedNode .main 100000025 100000100 (by decide)).view 0 _
    100000070 hmem hreached
  have hrange := (mem_walkHeights (by omega) (by omega)).mp hin
  have hinvalid : invalidCheckpointRange .main nHeight = true := by
    unfold invalidCheckpointRange
    rw [decide_eq_true_eq]
    have hlow : (Params .main).nBlockLastGoodCheckpoint = 700000 := rfl
    have hhigh : (Params .main).nBlockRecalculateAccumulators = 999999999 := rfl
    omega
  refine not_endsWell_of_firstStop witnessStart_main (by decide) ?_ (Or.inl hinvalid)
  rw [length_mintedNode, witnessStop_mintedNode]
  exact hfirst

/-- Near the tip of a test network the walk reads above the tip. -/
theorem witnessWalk_testnet :
    ¬ EndsWell (generateAccumulatorWitness (mainCheckpoints fun _ _ => 1) launchEnv
      (mintedNode .testnet 100015 100020 (by decide)) ⟨∅, ∅⟩ mintedCoin 100015 100 0 none) := by
  have hmay (added : Int) :
      mayStop 99990 (randomizeSecurityLevel 0 100) (100010 : ℕ) added = true := by simp [mayStop]
  have hfirst : firstStop (mintedNode .testnet 100015 100020 (by decide)).view
      (100015 - 100015 % 10) 99990 (randomizeSecurityLevel 0 100) 0
      (walkHeights 100010 false 100020) = some 100010 := by
    rw [walkHeights_of_lt (by decide), firstStop, hmay, if_pos rfl]
  have habove : (mintedNode .testnet 100015 100020 (by decide)).view.chainActive.length ≤
      100010 + 10 := le_of_eq length_mintedNode
  refine not_endsWell_of_firstStop witnessStart_testnet (by decide) ?_ (Or.inr habove)
  rw [length_mintedNode, witnessStop_mintedNode]
  exact hfirst

/-- The walk for a mint in the chain may not end, and may read above the tip. -/
theorem witnessWalk_fails :
    ¬ EndsWell (generateAccumulatorWitness (mainCheckpoints fun _ _ => 1) launchEnv
      (mintedNode .main 100000025 100000100 (by decide)) ⟨∅, ∅⟩ mintedCoin 100000025 100 0 none) ∧
    ¬ EndsWell (generateAccumulatorWitness (mainCheckpoints fun _ _ => 1) launchEnv
      (mintedNode .testnet 100015 100020 (by decide)) ⟨∅, ∅⟩ mintedCoin 100015 100 0 none) :=
  ⟨witnessWalk_main, witnessWalk_testnet⟩

end examples
end Lytix
