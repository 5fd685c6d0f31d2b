import Lytix.Chain.StakeRetarget

/-! The proof-of-work target against the same average and time span in unbounded integers. With
the limit of the test networks a product exceeds 256 bits as soon as targets are easy. -/
namespace Lytix
namespace Pow

/-- The average after `count` blocks carried on over further targets. The first target counts
twice. -/
def carryAverage (count average : Nat) : List Nat → Nat
  | [] => average
  | target :: rest =>
    carryAverage (count + 1)
      (if count = 0 then target else (average * (count + 1) + target) / (count + 2)) rest

/-- The same with the product and the sum cut to 256 bits. -/
def carryCutAverage (count average : Nat) : List Nat → Nat
  | [] => average
  | target :: rest =>
    carryCutAverage (count + 1)
      (if count = 0 then target else (average * (count + 1) + target) % 2 ^ 256 / (count + 2)) rest

/-- The time between blocks, each measured from the block after it. -/
def carryTimespan (lastBlockTime : Int) : List Int → Int
  | [] => 0
  | time :: rest =>
    (if 0 < lastBlockTime then lastBlockTime - time else 0) + carryTimespan time rest

/-- The targets of the blocks, as they are decoded. -/
def targets (blocks : List CBlockIndex) : List Nat :=
  blocks.map fun block => (setCompact block.nBits).toNat

/-- The weighted average of the latest 24 targets. -/
def weightedAverage (blocks : List CBlockIndex) : Nat :=
  carryAverage 0 0 (targets (blocks.take 24))

/-- The time span of the latest 24 blocks, between a third and three times of what it should be. -/
def clampedTimespan (blocks : List CBlockIndex) : Nat :=
  (max 480 (min 4320
    (carryTimespan 0 ((blocks.take 24).map CBlockIndex.getBlockTime)))).toNat

/-- The next target in unbounded integers. -/
def darkGravityFormula (network : Network) (blocks : List CBlockIndex) : Nat :=
  min (proofOfWorkLimit network).toNat (weightedAverage blocks * clampedTimespan blocks / 1440)

variable {network : Network} {blocks : List CBlockIndex} {block : CBlockIndex} {s : PastBlocks}

section loop

/-- The state of the loop after `count` blocks with this average. -/
structure PastBlocks.Reads (s : PastBlocks) (count average : Nat) : Prop where
  countBlocks : s.countBlocks = count
  pastDifficultyAverage : s.pastDifficultyAverage.toNat = average
  pastDifficultyAveragePrev : s.pastDifficultyAveragePrev.toNat = average

/-- What one block of the loop does, in numbers. The division has a divisor. -/
theorem PastBlocks.Reads.read {count average : ℕ} (hs : s.Reads count average) (hcount : count < 24)
    (block : CBlockIndex) :
    ∃ s', s.read block = some s' ∧ s'.lastBlockTime = block.getBlockTime ∧
      s'.nActualTimespan = s.nActualTimespan +
        (if 0 < s.lastBlockTime then s.lastBlockTime - block.getBlockTime else 0) ∧
      s'.Reads (count + 1) (if count = 0 then (setCompact block.nBits).toNat else
        (average * (count + 1) + (setCompact block.nBits).toNat) % 2 ^ 256 / (count + 2)) := by
  have haverage : ∃ a, s.average block = some a ∧ a.toNat =
      if count = 0 then (setCompact block.nBits).toNat else
        (average * (count + 1) + (setCompact block.nBits).toNat) % 2 ^ 256 / (count + 2) := by
    unfold PastBlocks.average
    rw [hs.countBlocks]
    by_cases hfirst : count = 0
    · rw [if_pos (by omega), if_pos hfirst]
      exact ⟨_, rfl, rfl⟩
    · have hdivisor : (ofInt64 ((count : ℤ) + 1 + 1)).toNat = count + 2 := by
        have hcast : (count : ℤ) + 1 + 1 = (count + 2 : ℕ) := by push_cast; ring
        rw [hcast, toNat_ofInt64 (by omega)]
      have hfactor : (count : ℤ) + 1 = (count + 1 : ℕ) := by push_cast; ring
      rw [if_neg (by omega), if_neg hfirst, divide_of_ne_zero (by omega), hdivisor, hfactor]
      refine ⟨_, rfl, ?_⟩
      rw [BitVec.toNat_add, toNat_mulUint32, hs.pastDifficultyAveragePrev,
        Nat.mod_eq_of_lt (show count + 1 < 2 ^ 32 by omega), Nat.mod_add_mod, BitVec.toNat_ofNat]
      exact Nat.mod_eq_of_lt (lt_of_le_of_lt (Nat.div_le_self _ _) (Nat.mod_lt _ (by decide)))
  obtain ⟨a, ha, hvalue⟩ := haverage
  have hmore : s.countBlocks + 1 ≤ PastBlocksMin := by
    rw [hs.countBlocks]
    unfold PastBlocksMin
    omega
  unfold PastBlocks.read
  dsimp only
  rw [if_pos hmore, ha, Option.map_some]
  refine ⟨_, rfl, rfl, ?_, ?_⟩
  · split_ifs
    · rfl
    · exact (add_zero _).symm
  · exact ⟨by rw [hs.countBlocks]; rfl, hvalue, hvalue⟩

/-- The loop reads blocks until it has 24 of them. -/
theorem PastBlocks.Reads.readFrom {count average : ℕ} (hs : s.Reads count average)
    (hcount : count ≤ 24) (hlong : 24 - count ≤ blocks.length)
    (hheights : ∀ block ∈ blocks.take (24 - count), block.nHeight ≠ 0) :
    ∃ s', s.readFrom (count + 1) blocks = some s' ∧
      s'.nActualTimespan = s.nActualTimespan + carryTimespan s.lastBlockTime
        ((blocks.take (24 - count)).map CBlockIndex.getBlockTime) ∧
      s'.Reads 24 (carryCutAverage count average (targets (blocks.take (24 - count)))) := by
  induction blocks generalizing s count average with
  | nil =>
    obtain rfl : count = 24 := by
      simp only [List.length_nil] at hlong
      omega
    exact ⟨s, rfl, (add_zero _).symm, hs⟩
  | cons block ancestors ih =>
    by_cases hfull : count = 24
    · subst hfull
      refine ⟨s, if_pos (Or.inr ⟨by decide, by decide⟩), (add_zero _).symm, hs⟩
    · have hremaining : 24 - count = (24 - (count + 1)) + 1 := by omega
      rw [hremaining, List.take_succ_cons] at hheights ⊢
      rw [hremaining, List.length_cons] at hlong
      obtain ⟨s₁, hread, htime, hspan, hs₁⟩ := hs.read (by omega) block
      obtain ⟨s₂, hrest, hspan₂, hs₂⟩ := ih hs₁ (by omega) (by omega)
        fun b hb => hheights b (List.mem_cons_of_mem _ hb)
      have hgoes : ¬ (block.nHeight = 0 ∨ 0 < PastBlocksMax ∧ PastBlocksMax < (count + 1 : ℕ)) := by
        have hheight := hheights block List.mem_cons_self
        unfold PastBlocksMax
        omega
      refine ⟨s₂, ?_, ?_, hs₂⟩
      · rw [PastBlocks.readFrom, if_neg hgoes, hread]
        exact hrest
      · rw [hspan₂, hspan, htime, List.map_cons, carryTimespan, add_assoc]

end loop

section average

/-- The sum of the weighted targets no longer fits 256 bits, up to what the divisions cut off. -/
def TooLarge (count average : Nat) : Prop := 2 ^ 256 ≤ (count + 1) * average + 25 * count

variable {count average cut target : ℕ}

/-- Once the sum is too large, it stays too large. -/
theorem TooLarge.step (h : TooLarge count average) (hcount : count < 24) :
    TooLarge (count + 1) ((average * (count + 1) + target) / (count + 2)) := by
  unfold TooLarge at h ⊢
  have hdiv := Nat.div_add_mod (average * (count + 1) + target) (count + 2)
  have hmod := Nat.mod_lt (average * (count + 1) + target) (show 0 < count + 2 by omega)
  have hcomm := Nat.mul_comm average (count + 1)
  have hsucc : count + 1 + 1 = count + 2 := rfl
  rw [hsucc]
  omega

/-- A sum that is cut off is too large. -/
theorem tooLarge_of_cut (h : 2 ^ 256 ≤ average * (count + 1) + target) :
    TooLarge (count + 1) ((average * (count + 1) + target) / (count + 2)) := by
  unfold TooLarge
  have hdiv := Nat.div_add_mod (average * (count + 1) + target) (count + 2)
  have hmod := Nat.mod_lt (average * (count + 1) + target) (show 0 < count + 2 by omega)
  have hsucc : count + 1 + 1 = count + 2 := rfl
  rw [hsucc]
  omega

/-- The average of the code is the average, unless that one has become too large. -/
theorem carryCutAverage_eq_or {targets : List ℕ} (hlength : count + targets.length ≤ 24)
    (htargets : ∀ target ∈ targets, target < 2 ^ 256)
    (h : cut = average ∨ 0 < count ∧ TooLarge count average) :
    carryCutAverage count cut targets = carryAverage count average targets ∨
      TooLarge (count + targets.length) (carryAverage count average targets) := by
  induction targets generalizing count cut average with
  | nil =>
    obtain h | ⟨-, h⟩ := h
    · exact Or.inl h
    · exact Or.inr h
  | cons target rest ih =>
    rw [List.length_cons] at hlength ⊢
    have hlater := fun t ht => htargets t (List.mem_cons_of_mem target ht)
    have hsum : count + (rest.length + 1) = count + 1 + rest.length := by omega
    rw [carryCutAverage, carryAverage, hsum]
    apply ih (by omega) hlater
    by_cases hfirst : count = 0
    · rw [if_pos hfirst, if_pos hfirst]
      exact Or.inl rfl
    · rw [if_neg hfirst, if_neg hfirst]
      obtain rfl | ⟨-, hlarge⟩ := h
      · by_cases hcut : cut * (count + 1) + target < 2 ^ 256
        · rw [Nat.mod_eq_of_lt hcut]
          exact Or.inl rfl
        · exact Or.inr ⟨by omega, tooLarge_of_cut (by omega)⟩
      · exact Or.inr ⟨by omega, hlarge.step (by omega)⟩

/-- An average of targets up to a limit is up to the limit. -/
theorem carryAverage_le {limit : ℕ} {targets : List ℕ} (haverage : average ≤ limit)
    (htargets : ∀ target ∈ targets, target ≤ limit) :
    carryAverage count average targets ≤ limit := by
  induction targets generalizing count average with
  | nil => exact haverage
  | cons target rest ih =>
    have hfirst := htargets target List.mem_cons_self
    rw [carryAverage]
    apply ih _ fun t ht => htargets t (List.mem_cons_of_mem target ht)
    split_ifs
    · exact hfirst
    · rw [Nat.div_le_iff_le_mul_add_pred (by omega)]
      have hsum : limit * (count + 1) + limit = (count + 2) * limit := by ring
      have := Nat.mul_le_mul_right (count + 1) haverage
      omega

end average

section result

/-- A chain that is high enough has 24 blocks above the genesis block. -/
theorem latest_heights {chain : Headers} {pindexLast : CBlockIndex}
    {ancestors : List CBlockIndex} (hblocks : chain.blocks = pindexLast :: ancestors)
    (hheight : 24 ≤ pindexLast.nHeight) :
    24 ≤ chain.blocks.length ∧ ∀ block ∈ chain.blocks.take 24, block.nHeight ≠ 0 := by
  have hlength := chain.heights 0 pindexLast (by rw [hblocks]; rfl)
  refine ⟨by omega, ?_⟩
  intro block hmem
  obtain ⟨i, hi⟩ := List.mem_iff_getElem?.mp hmem
  obtain ⟨hbound, -⟩ := List.getElem?_eq_some_iff.mp hi
  rw [List.length_take] at hbound
  rw [List.getElem?_take_of_lt (by omega)] at hi
  have hat := chain.heights i block hi
  omega

/-- The comparison with the limit, in numbers. -/
theorem clamp_ofNat {limit : Uint256} {n : ℕ} (hn : n < 2 ^ 256) :
    (if limit < BitVec.ofNat 256 n then limit else BitVec.ofNat 256 n) =
      BitVec.ofNat 256 (min limit.toNat n) := by
  have hvalue : (BitVec.ofNat 256 n).toNat = n := by
    rw [BitVec.toNat_ofNat, Nat.mod_eq_of_lt hn]
  have habove : limit < BitVec.ofNat 256 n ↔ limit.toNat < n := by
    rw [BitVec.lt_def, hvalue]
  simp only [habove]
  split_ifs with h
  · rw [min_eq_left h.le, BitVec.ofNat_toNat, BitVec.setWidth_eq]
  · rw [min_eq_right (by omega)]

/-- The target the code computes, in numbers: the division never throws. -/
theorem nextWorkTarget_eq (hlong : 24 ≤ blocks.length)
    (hheights : ∀ block ∈ blocks.take 24, block.nHeight ≠ 0) :
    nextWorkTarget network blocks = some (BitVec.ofNat 256 (min (proofOfWorkLimit network).toNat
      (carryCutAverage 0 0 (targets (blocks.take 24)) * clampedTimespan blocks % 2 ^ 256 /
        1440))) := by
  have hstart : PastBlocks.Reads {} 0 0 := ⟨rfl, rfl, rfl⟩
  obtain ⟨s, hread, hspan, hs⟩ := hstart.readFrom (by decide) hlong hheights
  have hexpected : s.countBlocks * targetSpacing = 1440 := by
    rw [hs.countBlocks]
    decide
  have hactual : s.nActualTimespan =
      carryTimespan 0 ((blocks.take 24).map CBlockIndex.getBlockTime) := by
    rw [hspan]
    exact zero_add _
  have hclamped (t : ℤ) : (if 1440 * 3 < (if t < 1440 / 3 then 1440 / 3 else t) then 1440 * 3
      else (if t < 1440 / 3 then 1440 / 3 else t) : ℤ) = ((max 480 (min 4320 t)).toNat : ℕ) := by
    split_ifs <;> omega
  have hfold : (max 480 (min 4320
      (carryTimespan 0 ((blocks.take 24).map CBlockIndex.getBlockTime)))).toNat =
        clampedTimespan blocks := rfl
  have hspanned : clampedTimespan blocks % 2 ^ 32 = clampedTimespan blocks := by
    unfold clampedTimespan
    omega
  have hdivisor : (ofInt64 1440).toNat = 1440 := by decide
  unfold nextWorkTarget
  rw [hread, Option.bind_some]
  dsimp only
  rw [hexpected, hclamped, hactual, divide_of_ne_zero (by rw [hdivisor]; decide), hdivisor,
    Option.map_some, toNat_mulUint32, hs.pastDifficultyAverage, hfold, hspanned, Option.some_inj]
  exact clamp_ofNat (lt_of_le_of_lt (Nat.div_le_self _ _) (Nat.mod_lt _ (by decide)))

theorem clampedTimespan_bounds : 480 ≤ clampedTimespan blocks ∧ clampedTimespan blocks ≤ 4320 := by
  unfold clampedTimespan
  omega

theorem toNat_proofOfWorkLimit : (proofOfWorkLimit network).toNat = 2 ^ 236 - 1 ∨
    (proofOfWorkLimit network).toNat = 2 ^ 255 - 1 := by
  cases network with
  | main => exact Or.inl (by decide)
  | testnet => exact Or.inr (by decide)
  | regtest => exact Or.inr (by decide)
  | unittest => exact Or.inl (by decide)

/-- The target of the code, where it did not lose anything before the time span. -/
def darkGravityCut (network : Network) (blocks : List CBlockIndex) : Nat :=
  min (proofOfWorkLimit network).toNat
    (carryCutAverage 0 0 (targets (blocks.take 24)) * clampedTimespan blocks % 2 ^ 256 / 1440)

theorem cutAverage_eq_or : carryCutAverage 0 0 (targets (blocks.take 24)) = weightedAverage blocks ∨
    TooLarge 24 (weightedAverage blocks) := by
  have hlength : (targets (blocks.take 24)).length ≤ 24 := by
    unfold targets
    rw [List.length_map, List.length_take]
    omega
  have htargets : ∀ target ∈ targets (blocks.take 24), target < 2 ^ 256 := by
    intro target hmem
    obtain ⟨block, -, rfl⟩ := List.mem_map.mp hmem
    exact BitVec.isLt _
  have hcount : 0 + (targets (blocks.take 24)).length ≤ 24 := by omega
  obtain h | h := carryCutAverage_eq_or hcount htargets (Or.inl rfl)
  · exact Or.inl h
  · have hweight : (0 + (targets (blocks.take 24)).length + 1) * weightedAverage blocks ≤
        (24 + 1) * weightedAverage blocks := Nat.mul_le_mul_right _ (by omega)
    refine Or.inr ?_
    unfold TooLarge at h ⊢
    unfold weightedAverage at hweight ⊢
    omega

/-- A product that fits has lost nothing on the way. -/
theorem darkGravityCut_of_fits (h : weightedAverage blocks * clampedTimespan blocks < 2 ^ 256) :
    darkGravityCut network blocks = darkGravityFormula network blocks := by
  have hspan := Nat.mul_le_mul_left (weightedAverage blocks)
    (@clampedTimespan_bounds blocks).1
  have hsame : carryCutAverage 0 0 (targets (blocks.take 24)) = weightedAverage blocks := by
    obtain hsame | hlarge := @cutAverage_eq_or blocks
    · exact hsame
    · unfold TooLarge at hlarge
      omega
  unfold darkGravityCut darkGravityFormula
  rw [hsame, Nat.mod_eq_of_lt h]

/-- A product that does not fit is less than half of what it should be. -/
theorem two_mul_darkGravityCut_le (hlimit : (proofOfWorkLimit network).toNat = 2 ^ 255 - 1)
    (h : 2 ^ 256 ≤ weightedAverage blocks * clampedTimespan blocks) :
    2 * darkGravityCut network blocks ≤ darkGravityFormula network blocks := by
  have hspan := Nat.mul_le_mul_left (weightedAverage blocks)
    (@clampedTimespan_bounds blocks).1
  unfold darkGravityCut darkGravityFormula
  rw [hlimit]
  obtain hsame | hlarge := @cutAverage_eq_or blocks
  · rw [hsame]
    omega
  · unfold TooLarge at hlarge
    have hmod := Nat.mod_lt (carryCutAverage 0 0 (targets (blocks.take 24)) *
      clampedTimespan blocks) (show 0 < 2 ^ 256 by decide)
    omega

/-- Targets up to the limit of the main network leave room for every factor. -/
theorem product_lt_of_limit (hlimit : (proofOfWorkLimit network).toNat = 2 ^ 236 - 1)
    (htargets : ∀ block ∈ blocks.take 24, setCompact block.nBits ≤ proofOfWorkLimit network) :
    weightedAverage blocks * clampedTimespan blocks < 2 ^ 256 := by
  have haverage : weightedAverage blocks ≤ 2 ^ 236 - 1 := by
    apply carryAverage_le (by decide)
    intro target hmem
    obtain ⟨block, hblock, rfl⟩ := List.mem_map.mp hmem
    have hle := htargets block hblock
    rwa [BitVec.le_def, hlimit] at hle
  have hproduct := Nat.mul_le_mul haverage (@clampedTimespan_bounds blocks).2
  omega

/-- The compact forms agree when nothing is cut off, and only then. -/
theorem getCompact_eq_darkGravity_iff
    (htargets : ∀ block ∈ blocks.take 24, setCompact block.nBits ≤ proofOfWorkLimit network) :
    getCompact (BitVec.ofNat 256 (darkGravityCut network blocks)) =
        getCompact (BitVec.ofNat 256 (darkGravityFormula network blocks)) ↔
      weightedAverage blocks * clampedTimespan blocks < 2 ^ 256 := by
  constructor
  · intro heq
    by_contra hnot
    obtain hmain | htest := @toNat_proofOfWorkLimit network
    · exact hnot (product_lt_of_limit hmain htargets)
    · have hhalf := two_mul_darkGravityCut_le htest (not_lt.mp hnot)
      have hpositive : 0 < darkGravityFormula network blocks := by
        unfold darkGravityFormula
        rw [htest]
        omega
      have hbound : darkGravityFormula network blocks < 2 ^ 256 := by
        unfold darkGravityFormula
        rw [htest]
        omega
      refine Compact.getCompact_ne ?_ ?_ heq
      · rw [BitVec.toNat_ofNat, Nat.mod_eq_of_lt hbound]
        omega
      · rw [BitVec.toNat_ofNat, BitVec.toNat_ofNat, Nat.mod_eq_of_lt hbound,
          Nat.mod_eq_of_lt (by omega)]
        exact hhalf
  · intro h
    rw [darkGravityCut_of_fits h]

/-- The heights where `GetNextWorkRequired` reaches the proof-of-work branch. -/
theorem getNextWorkRequired_work {chain : Headers} {pindexLast : CBlockIndex}
    {ancestors : List CBlockIndex} (hblocks : chain.blocks = pindexLast :: ancestors)
    (hheight : 24 ≤ pindexLast.nHeight)
    (hwork : pindexLast.nHeight ≤ (Params network).nLastPOWBlock) :
    getNextWorkRequired network chain.blocks =
      some (getCompact (BitVec.ofNat 256 (darkGravityCut network chain.blocks))) := by
  obtain ⟨hlong, hheights⟩ := latest_heights hblocks hheight
  have htarget := @nextWorkTarget_eq network _ hlong hheights
  rw [hblocks] at htarget ⊢
  unfold getNextWorkRequired PastBlocksMin
  dsimp only
  rw [if_neg (by omega), if_neg (by omega), htarget, Option.map_some]
  rfl

/-- The average of equal targets. -/
theorem carryAverage_same {count average target : ℕ} {targets : List ℕ}
    (h : count = 0 ∧ targets ≠ [] ∨ average = target) (hsame : ∀ t ∈ targets, t = target) :
    carryAverage count average targets = target := by
  induction targets generalizing count average with
  | nil =>
    obtain ⟨-, hne⟩ | haverage := h
    · exact absurd rfl hne
    · exact haverage
  | cons first rest ih =>
    rw [carryAverage, hsame first List.mem_cons_self]
    apply ih (Or.inr ?_) fun t ht => hsame t (List.mem_cons_of_mem first ht)
    by_cases hfirst : count = 0
    · exact if_pos hfirst
    · obtain ⟨hzero, -⟩ | rfl := h
      · exact absurd hzero hfirst
      · have hsum : average * (count + 1) + average = average * (count + 2) := by ring
        rw [if_neg hfirst, hsum, Nat.mul_div_cancel _ (by omega)]

/-- A chain of 26 blocks, one a minute, all with these bits. -/
def minedBlock (nBits : UInt32) (k : Nat) : CBlockIndex where
  nHeight := k
  nTime := UInt32.ofNat (1630801782 + 60 * k)
  nBits := nBits

theorem nHeight_minedBlock (nBits : UInt32) (k : Nat) : (minedBlock nBits k).nHeight = k := rfl

def minedChain (nBits : UInt32) : Headers :=
  Headers.ofHeights 26 (minedBlock nBits) (nHeight_minedBlock nBits)

variable {nBits : UInt32}

theorem minedChain_timesAdmitted : (minedChain nBits).TimesAdmitted := by
  apply Headers.timesAdmitted_ofHeights
  intro j k hjk hk
  have htime : ∀ k < 26, (minedBlock nBits k).getBlockTime = 1630801782 + 60 * k := by
    intro k hk
    unfold CBlockIndex.getBlockTime minedBlock
    dsimp only
    rw [UInt32.toNat_ofNat', Nat.mod_eq_of_lt (by omega)]
    omega
  rw [htime j (by omega), htime k hk]
  omega

theorem blocks_minedChain : (minedChain nBits).blocks = minedBlock nBits 25 ::
    (Headers.ofHeights 25 (minedBlock nBits) (nHeight_minedBlock nBits)).blocks := by
  unfold minedChain
  rw [Headers.blocks_ofHeights_succ]

theorem nBits_of_mem_minedChain {block : CBlockIndex}
    (h : block ∈ (minedChain nBits).blocks.take 24) : block.nBits = nBits := by
  have hmem := List.mem_of_mem_take h
  simp only [minedChain, Headers.ofHeights, List.mem_reverse, List.mem_map] at hmem
  obtain ⟨k, -, rfl⟩ := hmem
  rfl

end result

end Pow
end Lytix
