import Lytix.Chain.BlockIndex
import Lytix.Kernel.StakeAgreement
import Lytix.Zerocoin.Accumulators

/-! Which accumulator values `EraseCheckpoints` leaves in the database. The list of checksums to
keep is searched for whole checkpoints, so a checksum that did not change is erased with the
others. -/
namespace Lytix
open CountEntries Ancestry

section
variable (node : Node) (nStartHeight nEndHeight : Int)

/-- A block of the active chain in a range of heights. -/
def InRange (pindex : Uint256) : Prop :=
  ∃ nHeight, nStartHeight ≤ nHeight ∧ nHeight ≤ nEndHeight ∧
    node.view.chainAt nHeight = some pindex

/-- The checksums that the checkpoint of a block is made of. -/
def blockChecksums (pindex : Uint256) : List UInt32 :=
  zerocoinDenomList.map (parseChecksum (node.view.index pindex).nAccumulatorCheckpoint)

/-- A checksum of the block before the range. -/
def PreviousChecksum (nChecksum : UInt32) : Prop :=
  ∃ pprev, node.view.chainAt (nStartHeight - 1) = some pprev ∧
    nChecksum ∈ blockChecksums node pprev

/-- The checkpoint of a block is, as a number, a checksum of the block before the range. -/
def PassedOver (pindex : Uint256) : Prop :=
  ∃ nChecksum, PreviousChecksum node nStartHeight nChecksum ∧
    BitVec.ofNat 256 nChecksum.toNat = (node.view.index pindex).nAccumulatorCheckpoint

/-- A checksum of the range that the block before it does not have. -/
def NewInRange (nChecksum : UInt32) : Prop :=
  (∃ pindex, InRange node nStartHeight nEndHeight pindex ∧
    nChecksum ∈ blockChecksums node pindex) ∧ ¬ PreviousChecksum node nStartHeight nChecksum

/-- Exactly the checksums that are new in the range are gone from the database. -/
structure ErasesNew (values values' : AccumulatorValues) : Prop where
  erased : ∀ nChecksum, NewInRange node nStartHeight nEndHeight nChecksum →
    values'.zerocoinDB.lookup nChecksum = none
  kept : ∀ nChecksum, ¬ NewInRange node nStartHeight nEndHeight nChecksum →
    values'.zerocoinDB.lookup nChecksum = values.zerocoinDB.lookup nChecksum

/-- No block of the range shares a stored checksum with the block before the range, and the zeros
of a checkpoint that is passed over are zeros of another block as well. -/
structure SharesNothing (values : AccumulatorValues) : Prop where
  unshared : ∀ pindex nChecksum, InRange node nStartHeight nEndHeight pindex →
    ¬ PassedOver node nStartHeight pindex → nChecksum ∈ blockChecksums node pindex →
    values.zerocoinDB.lookup nChecksum ≠ none → ¬ PreviousChecksum node nStartHeight nChecksum
  covered : ∀ pindex, InRange node nStartHeight nEndHeight pindex →
    PassedOver node nStartHeight pindex → values.zerocoinDB.lookup 0 ≠ none →
    PreviousChecksum node nStartHeight 0 ∨ ∃ other, InRange node nStartHeight nEndHeight other ∧
      ¬ PassedOver node nStartHeight other ∧ 0 ∈ blockChecksums node other

end

section
variable {node : Node} {nStartHeight nEndHeight : Int} {values values' : AccumulatorValues}
  {pindex : Uint256} {nChecksum : UInt32}

theorem lookup_foldl_eraseChecksum {denoms : List CoinDenomination}
    {checksum : CoinDenomination → UInt32} :
    (denoms.foldl (fun values denom => eraseChecksum values (checksum denom))
      values).zerocoinDB.lookup nChecksum =
        if nChecksum ∈ denoms.map checksum then none else values.zerocoinDB.lookup nChecksum := by
  induction denoms generalizing values with
  | nil => simp
  | cons denom rest ih =>
    rw [List.foldl_cons, ih, List.map_cons]
    unfold eraseChecksum
    dsimp only
    rw [lookup_erase_eq]
    simp only [List.mem_cons]
    split_ifs <;> tauto

/-- The search of `EraseCheckpoints`, for a checksum that equals the whole checkpoint. -/
def HasWhole (listCheckpointsPrev : List UInt32) (nCheckpointDelete : Uint256) : Prop :=
  ∃ nChecksum ∈ listCheckpointsPrev, BitVec.ofNat 256 nChecksum.toNat = nCheckpointDelete

instance (listCheckpointsPrev : List UInt32) (nCheckpointDelete : Uint256) :
    Decidable (HasWhole listCheckpointsPrev nCheckpointDelete) :=
  inferInstanceAs (Decidable (∃ nChecksum ∈ listCheckpointsPrev, _))

theorem any_checksum_eq {listCheckpointsPrev : List UInt32} {nCheckpointDelete : Uint256} :
    (listCheckpointsPrev.any fun nChecksum =>
        BitVec.ofNat 256 nChecksum.toNat == nCheckpointDelete) =
      decide (HasWhole listCheckpointsPrev nCheckpointDelete) := by
  rw [Bool.eq_iff_iff, decide_eq_true_eq]
  simp [HasWhole, List.any_eq_true]

/-- One block: all of its checksums are erased, or none. -/
theorem lookup_eraseBlockChecksums {listCheckpointsPrev : List UInt32} :
    (eraseBlockChecksums node listCheckpointsPrev values pindex).zerocoinDB.lookup nChecksum =
      if ¬ HasWhole listCheckpointsPrev (node.view.index pindex).nAccumulatorCheckpoint ∧
          nChecksum ∈ blockChecksums node pindex
        then none else values.zerocoinDB.lookup nChecksum := by
  unfold eraseBlockChecksums
  dsimp only
  rw [any_checksum_eq]
  by_cases hpassed :
      HasWhole listCheckpointsPrev (node.view.index pindex).nAccumulatorCheckpoint
  · have hkeeps : ∀ denoms : List CoinDenomination,
        denoms.foldl (fun values _ => values) values = values := by
      intro denoms
      induction denoms with
      | nil => rfl
      | cons denom rest ih => exact ih
    simp only [hpassed, decide_true, if_true, not_true_eq_false, false_and, if_false]
    rw [hkeeps]
  · simp only [hpassed, decide_false, Bool.false_eq_true, if_false, not_false_eq_true, true_and]
    exact lookup_foldl_eraseChecksum

/-- The range: exactly the checksums of blocks that are not passed over are erased. -/
theorem lookup_foldl_eraseBlockChecksums {listCheckpointsPrev : List UInt32}
    {blocks : List Uint256} :
    (blocks.foldl (eraseBlockChecksums node listCheckpointsPrev) values).zerocoinDB.lookup
        nChecksum =
      if ∃ pindex ∈ blocks,
          ¬ HasWhole listCheckpointsPrev (node.view.index pindex).nAccumulatorCheckpoint ∧
            nChecksum ∈ blockChecksums node pindex
        then none else values.zerocoinDB.lookup nChecksum := by
  induction blocks generalizing values with
  | nil => simp
  | cons first rest ih =>
    rw [List.foldl_cons, ih, lookup_eraseBlockChecksums]
    simp only [List.mem_cons, exists_eq_or_imp]
    have hor (p q : Prop) [Decidable p] [Decidable q] (value : Option Int) :
        (if q then none else if p then none else value) = if p ∨ q then none else value := by
      split_ifs <;> tauto
    exact hor _ _ _

/-- Where `EraseCheckpoints` returns true, the block before the range is there, and the blocks it
visits are those of the range. -/
theorem eraseCheckpoints_eq_some (h : eraseCheckpoints node nStartHeight nEndHeight values =
      some values') (hrange : nStartHeight ≤ nEndHeight) :
    ∃ (pprev : Uint256) (blocks : List Uint256),
      node.view.chainAt (nStartHeight - 1) = some pprev ∧
      (∀ pindex, pindex ∈ blocks ↔ InRange node nStartHeight nEndHeight pindex) ∧
      values' = blocks.foldl (eraseBlockChecksums node (blockChecksums node pprev)) values := by
  unfold eraseCheckpoints at h
  split_ifs at h with hheight
  simp only [Option.bind_eq_bind, Option.bind_eq_some_iff, Option.pure_def, Option.some_inj] at h
  obtain ⟨chain, hchain, first, hfirst, pprev, hpprev, hvalues⟩ := h
  unfold ChainView.chainFrom at hchain
  split_ifs at hchain with hstart
  obtain rfl := Option.some.inj hchain
  have hpositive : 0 ≤ nStartHeight := by
    by_contra hneg
    rw [ChainView.chainAt, if_pos (by omega)] at hstart
    exact Bool.false_ne_true hstart
  rw [List.head?_drop] at hfirst
  have hlinked := node.view.linked nStartHeight.toNat first hfirst
  have habove : nStartHeight.toNat ≠ 0 := by
    intro hzero
    rw [if_pos hzero] at hlinked
    exact absurd (hpprev.symm.trans hlinked) (Option.some_ne_none pprev)
  rw [if_neg habove] at hlinked
  refine ⟨pprev, _, ?_, ?_, hvalues.symm⟩
  · unfold ChainView.chainAt
    have hbelow : (nStartHeight - 1).toNat = nStartHeight.toNat - 1 := by omega
    rw [if_neg (by omega), hbelow, ← hlinked]
    exact hpprev
  · intro pindex
    have hlength : nStartHeight.toNat < node.view.chainActive.length :=
      (List.getElem?_eq_some_iff.mp hfirst).1
    unfold ChainView.height at hheight ⊢
    rw [List.mem_iff_getElem?]
    constructor
    · rintro ⟨i, hi⟩
      rw [List.getElem?_take] at hi
      split_ifs at hi with hbound
      rw [List.getElem?_drop] at hi
      have hin := (List.getElem?_eq_some_iff.mp hi).1
      refine ⟨nStartHeight + i, by omega, by omega, ?_⟩
      unfold ChainView.chainAt
      have hsum : (nStartHeight + i).toNat = nStartHeight.toNat + i := by omega
      rw [if_neg (by omega), hsum]
      exact hi
    · rintro ⟨nHeight, hlow, hhigh, hat⟩
      unfold ChainView.chainAt at hat
      rw [if_neg (by omega)] at hat
      have hin := (List.getElem?_eq_some_iff.mp hat).1
      refine ⟨(nHeight - nStartHeight).toNat, ?_⟩
      rw [List.getElem?_take, if_pos (by omega), List.getElem?_drop]
      have hsum : nStartHeight.toNat + (nHeight - nStartHeight).toNat = nHeight.toNat := by omega
      rw [hsum]
      exact hat

/-- What `EraseCheckpoints` leaves: the checksums of blocks that are not passed over are gone. -/
theorem lookup_of_eraseCheckpoints (h : eraseCheckpoints node nStartHeight nEndHeight values =
      some values') (hrange : nStartHeight ≤ nEndHeight) (nChecksum : UInt32) :
    ((∃ pindex, InRange node nStartHeight nEndHeight pindex ∧
        ¬ PassedOver node nStartHeight pindex ∧ nChecksum ∈ blockChecksums node pindex) →
      values'.zerocoinDB.lookup nChecksum = none) ∧
    ((¬ ∃ pindex, InRange node nStartHeight nEndHeight pindex ∧
        ¬ PassedOver node nStartHeight pindex ∧ nChecksum ∈ blockChecksums node pindex) →
      values'.zerocoinDB.lookup nChecksum = values.zerocoinDB.lookup nChecksum) := by
  obtain ⟨pprev, blocks, hpprev, hblocks, rfl⟩ := eraseCheckpoints_eq_some h hrange
  have hpassed (pindex : Uint256) : HasWhole (blockChecksums node pprev)
      (node.view.index pindex).nAccumulatorCheckpoint ↔ PassedOver node nStartHeight pindex := by
    unfold HasWhole PassedOver PreviousChecksum
    rw [hpprev]
    simp
  have herased : (∃ pindex ∈ blocks, ¬ HasWhole (blockChecksums node pprev)
        (node.view.index pindex).nAccumulatorCheckpoint ∧
      nChecksum ∈ blockChecksums node pindex) ↔
      ∃ pindex, InRange node nStartHeight nEndHeight pindex ∧
        ¬ PassedOver node nStartHeight pindex ∧ nChecksum ∈ blockChecksums node pindex := by
    simp only [hpassed, hblocks]
  rw [lookup_foldl_eraseBlockChecksums]
  exact ⟨fun hin => if_pos (herased.mpr hin), fun hout => if_neg (mt herased.mp hout)⟩

/-- The parts of a checkpoint that is a single checksum are this checksum and zero. -/
theorem parseChecksum_of_single (nChecksum : UInt32) (denom : CoinDenomination) :
    parseChecksum (BitVec.ofNat 256 nChecksum.toNat) denom = nChecksum ∨
      parseChecksum (BitVec.ofNat 256 nChecksum.toNat) denom = 0 := by
  have hlt := nChecksum.toNat_lt
  have hvalue : (BitVec.ofNat 256 nChecksum.toNat).toNat = nChecksum.toNat := by
    rw [BitVec.toNat_ofNat]
    omega
  unfold parseChecksum
  dsimp only
  split_ifs with hnone
  · exact Or.inr rfl
  · rw [BitVec.toNat_ushiftRight, hvalue, Nat.shiftRight_eq_div_pow]
    generalize zerocoinDenomList.length - 1 - _ = k
    cases k with
    | zero =>
      left
      simp
    | succ k =>
      right
      have hzero : nChecksum.toNat / 2 ^ (32 * (k + 1)) = 0 := by
        apply Nat.div_eq_of_lt
        calc
          nChecksum.toNat < 2 ^ 32 := hlt
          _ ≤ 2 ^ (32 * (k + 1)) := Nat.pow_le_pow_right (by decide) (by omega)
      rw [hzero]
      rfl

theorem zero_mem_of_single (h : BitVec.ofNat 256 nChecksum.toNat =
    (node.view.index pindex).nAccumulatorCheckpoint) : 0 ∈ blockChecksums node pindex := by
  refine List.mem_map.mpr ⟨.ZQ_ONE, by decide, ?_⟩
  have hlt := nChecksum.toNat_lt
  have hvalue : (BitVec.ofNat 256 nChecksum.toNat).toNat = nChecksum.toNat := by
    rw [BitVec.toNat_ofNat]
    omega
  rw [← h]
  show UInt32.ofNat (BitVec.ofNat 256 nChecksum.toNat >>> 224).toNat = 0
  rw [BitVec.toNat_ushiftRight, hvalue, Nat.shiftRight_eq_div_pow,
    Nat.div_eq_of_lt (lt_trans hlt (by decide))]
  rfl

/-- `EraseCheckpoints` erases exactly the checksums that are new in the range if and only if the
blocks of the range share none that is stored with the block before it. -/
theorem eraseCheckpoints_erasesNew_iff
    (h : eraseCheckpoints node nStartHeight nEndHeight values = some values')
    (hrange : nStartHeight ≤ nEndHeight) :
    ErasesNew node nStartHeight nEndHeight values values' ↔
      SharesNothing node nStartHeight nEndHeight values := by
  have hlookup := lookup_of_eraseCheckpoints h hrange
  constructor
  · intro hexact
    constructor
    case unshared =>
      intro pindex nChecksum hin hpassed hmem hstored hprevious
      have hgone := (hlookup nChecksum).1 ⟨pindex, hin, hpassed, hmem⟩
      have hkept := hexact.kept nChecksum fun hnew => hnew.2 hprevious
      exact hstored (hkept.symm.trans hgone)
    case covered =>
      intro pindex hin hpassed hstored
      by_contra hnot
      have hnew : NewInRange node nStartHeight nEndHeight 0 := by
        obtain ⟨nChecksum, -, hwhole⟩ := hpassed
        exact ⟨⟨pindex, hin, zero_mem_of_single hwhole⟩, fun h => hnot (Or.inl h)⟩
      have hkept := (hlookup 0).2 fun hother => hnot (Or.inr hother)
      exact hstored (hkept.symm.trans (hexact.erased 0 hnew))
  · intro hshares
    constructor
    case erased =>
      rintro nChecksum ⟨⟨pindex, hin, hmem⟩, hprevious⟩
      by_cases hpassed : PassedOver node nStartHeight pindex
      · obtain ⟨whole, hwhole, hcheckpoint⟩ := hpassed
        obtain ⟨denom, -, hdenom⟩ := List.mem_map.mp hmem
        rw [← hcheckpoint] at hdenom
        -- the checkpoint is one kept checksum and zeros
        have hzero : nChecksum = 0 := by
          obtain hsame | hzero := parseChecksum_of_single whole denom
          · rw [← hdenom, hsame] at hprevious
            exact absurd hwhole hprevious
          · rw [← hdenom, hzero]
        subst hzero
        by_cases hstored : values.zerocoinDB.lookup 0 = none
        · by_cases hother : ∃ pindex, InRange node nStartHeight nEndHeight pindex ∧
              ¬ PassedOver node nStartHeight pindex ∧ 0 ∈ blockChecksums node pindex
          · exact (hlookup 0).1 hother
          · rw [(hlookup 0).2 hother, hstored]
        · obtain h | hother := hshares.covered pindex hin ⟨whole, hwhole, hcheckpoint⟩ hstored
          · exact absurd h hprevious
          · exact (hlookup 0).1 hother
      · exact (hlookup nChecksum).1 ⟨pindex, hin, hpassed, hmem⟩
    case kept =>
      intro nChecksum hold
      by_cases hother : ∃ pindex, InRange node nStartHeight nEndHeight pindex ∧
          ¬ PassedOver node nStartHeight pindex ∧ nChecksum ∈ blockChecksums node pindex
      · obtain ⟨pindex, hin, hpassed, hmem⟩ := hother
        by_cases hstored : values.zerocoinDB.lookup nChecksum = none
        · rw [(hlookup nChecksum).1 ⟨pindex, hin, hpassed, hmem⟩, hstored]
        · have hprevious := hshares.unshared pindex nChecksum hin hpassed hmem hstored
          exact absurd ⟨⟨pindex, hin, hmem⟩, hprevious⟩ hold
      · exact (hlookup nChecksum).2 hother

end

section
/-- The checksums 1 to 8, and 9 to 16. -/
def firstCheckpoint : Uint256 :=
  0x0000000100000002000000030000000400000005000000060000000700000008

def secondCheckpoint : Uint256 :=
  0x000000090000000a0000000b0000000c0000000d0000000e0000000f00000010

theorem checksums_firstCheckpoint :
    zerocoinDenomList.map (parseChecksum firstCheckpoint) = [1, 2, 3, 4, 5, 6, 7, 8] := rfl

theorem checksums_secondCheckpoint :
    zerocoinDenomList.map (parseChecksum secondCheckpoint) = [9, 10, 11, 12, 13, 14, 15, 16] := rfl

/-- Three blocks, of which the last has this checkpoint on top of the first one. -/
def checkpointChain (nCheckpoint : Uint256) : ChainView :=
  straightView (fun nHeight =>
    { nAccumulatorCheckpoint := if nHeight = 2 then nCheckpoint else firstCheckpoint }) 3 (by decide)

def storedValues : AccumulatorValues where
  zerocoinDB := (AList.insert 8 80 ∅ : Table UInt32 Int).insert 16 160
  mapAccumulatorValues := ∅

variable {nCheckpoint : Uint256} {pindex : Uint256} {nChecksum : UInt32}

theorem inRange_checkpointChain :
    InRange (sampleNode (checkpointChain nCheckpoint)) 2 2 pindex ↔ pindex = heightHash 2 := by
  have hat : (checkpointChain nCheckpoint).chainAt 2 = some (heightHash 2) := rfl
  constructor
  · rintro ⟨nHeight, hlow, hhigh, h⟩
    obtain rfl : nHeight = 2 := by omega
    exact (Option.some.inj (hat.symm.trans h)).symm
  · rintro rfl
    exact ⟨2, le_refl _, le_refl _, hat⟩

theorem blockChecksums_checkpointChain {nHeight : ℕ} (h : nHeight < 3) :
    blockChecksums (sampleNode (checkpointChain nCheckpoint)) (heightHash nHeight) =
      zerocoinDenomList.map
        (parseChecksum (if nHeight = 2 then nCheckpoint else firstCheckpoint)) := by
  unfold blockChecksums checkpointChain sampleNode
  dsimp only
  rw [straightView_index h]

theorem previousChecksum_checkpointChain :
    PreviousChecksum (sampleNode (checkpointChain nCheckpoint)) 2 nChecksum ↔
      nChecksum ∈ zerocoinDenomList.map (parseChecksum firstCheckpoint) := by
  have hat : (checkpointChain nCheckpoint).chainAt (2 - 1) = some (heightHash 1) := rfl
  have hchecksums := @blockChecksums_checkpointChain nCheckpoint 1 (by decide)
  rw [if_neg (by decide)] at hchecksums
  rw [← hchecksums]
  constructor
  · rintro ⟨pprev, hpprev, hmem⟩
    obtain rfl := Option.some.inj (hpprev.symm.trans hat)
    exact hmem
  · exact fun hmem => ⟨_, hat, hmem⟩

theorem exists_eraseCheckpoints (nCheckpoint : Uint256) : ∃ values',
    eraseCheckpoints (sampleNode (checkpointChain nCheckpoint)) 2 2 storedValues =
      some values' := ⟨_, rfl⟩

/-- New checksums replace none that the chain below needs. -/
theorem eraseCheckpoints_of_new : ∃ values',
    eraseCheckpoints (sampleNode (checkpointChain secondCheckpoint)) 2 2 storedValues =
      some values' ∧
    ErasesNew (sampleNode (checkpointChain secondCheckpoint)) 2 2 storedValues values' := by
  have hchecksums := @blockChecksums_checkpointChain secondCheckpoint 2 (by decide)
  rw [if_pos rfl] at hchecksums
  have hpassed : ¬ PassedOver (sampleNode (checkpointChain secondCheckpoint)) 2 (heightHash 2) := by
    rintro ⟨nChecksum, -, hwhole⟩
    have hcheckpoint : ((sampleNode (checkpointChain secondCheckpoint)).view.index
        (heightHash 2)).nAccumulatorCheckpoint = secondCheckpoint := rfl
    have hlarge : 2 ^ 32 ≤ secondCheckpoint.toNat := by decide
    have hlt := nChecksum.toNat_lt
    rw [← hcheckpoint, ← hwhole, BitVec.toNat_ofNat] at hlarge
    omega
  obtain ⟨values', h⟩ := exists_eraseCheckpoints secondCheckpoint
  refine ⟨values', h, (eraseCheckpoints_erasesNew_iff h (le_refl 2)).mpr ?_⟩
  constructor
  case unshared =>
    intro pindex nChecksum hin _ hmem _ hprevious
    obtain rfl := inRange_checkpointChain.mp hin
    rw [hchecksums] at hmem
    rw [previousChecksum_checkpointChain] at hprevious
    have hdisjoint : ∀ nChecksum ∈ zerocoinDenomList.map (parseChecksum secondCheckpoint),
        nChecksum ∉ zerocoinDenomList.map (parseChecksum firstCheckpoint) := by
      rw [checksums_firstCheckpoint, checksums_secondCheckpoint]
      simp
    exact hdisjoint nChecksum hmem hprevious
  case covered =>
    intro pindex hin h
    obtain rfl := inRange_checkpointChain.mp hin
    exact absurd h hpassed

/-- A checkpoint that did not change takes the values of the block below with it. -/
theorem eraseCheckpoints_of_same : ∃ values',
    eraseCheckpoints (sampleNode (checkpointChain firstCheckpoint)) 2 2 storedValues =
      some values' ∧
    PreviousChecksum (sampleNode (checkpointChain firstCheckpoint)) 2 8 ∧
    storedValues.zerocoinDB.lookup 8 = some 80 ∧ values'.zerocoinDB.lookup 8 = none ∧
    ¬ ErasesNew (sampleNode (checkpointChain firstCheckpoint)) 2 2 storedValues values' := by
  have hprevious : PreviousChecksum (sampleNode (checkpointChain firstCheckpoint)) 2 8 :=
    previousChecksum_checkpointChain.mpr (by decide)
  have hstored : storedValues.zerocoinDB.lookup 8 = some 80 := by decide
  obtain ⟨values', h⟩ := exists_eraseCheckpoints firstCheckpoint
  have herased : values'.zerocoinDB.lookup 8 = none := by
    rw [← Option.some.inj h]
    decide
  refine ⟨values', h, hprevious, hstored, herased, ?_⟩
  intro hexact
  have hkept := hexact.kept 8 fun hnew => hnew.2 hprevious
  rw [herased, hstored] at hkept
  exact absurd hkept.symm (Option.some_ne_none 80)

end
end Lytix
