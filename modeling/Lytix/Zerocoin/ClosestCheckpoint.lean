import Lytix.Zerocoin.Accumulators

/-! Which of the checkpoints in the code is taken for a height. The running choice compares the
distance to a checkpoint with the height of the one before, not with its distance. -/
namespace Lytix

section value
variable (acc : AccumulatorEnv) (node : Node)

/-- `GetAccumulatorValueFromChecksum`: `none` where it returns false. -/
def getAccumulatorValueFromChecksum (values : AccumulatorValues) (nChecksum : UInt32)
    (fMemoryOnly : Bool) : Option Int :=
  match values.mapAccumulatorValues.lookup nChecksum with
  | some bnAccValue => some bnAccValue
  | none => if fMemoryOnly then none else some ((values.zerocoinDB.lookup nChecksum).getD 0)

def getAccumulatorValueFromDB (values : AccumulatorValues) (nCheckpoint : Uint256)
    (denom : CoinDenomination) : Option Int :=
  getAccumulatorValueFromChecksum values (parseChecksum nCheckpoint denom) false

/-- `GetAccumulatorValue`: the height it leaves and the value, if it returns true. -/
def getAccumulatorValue (values : AccumulatorValues) (nHeight : Int) (denom : CoinDenomination) :
    Option (Int × Int) :=
  if node.view.height < nHeight then none
  else
    match node.view.chainAt nHeight with
    -- a null pointer
    | none => none
    | some pindex =>
      let nCheckpointBeforeMint := (node.view.index pindex).nAccumulatorCheckpoint
      if (Params node.network).nBlockZerocoinV2 + 20 < nHeight then
        (getAccumulatorValueFromDB values nCheckpointBeforeMint denom).map fun bnAccValue =>
          (nHeight, bnAccValue)
      else
        match getClosestCheckpoint acc nHeight with
        | none =>
          some ((Params node.network).nZerocoinStartHeight + 10, acc.accumulatorBase false)
        | some (nHeightCheckpoint, checkpoint) => some (nHeightCheckpoint, checkpoint denom)

end value

section choice

/-- A checkpoint in the code. -/
abbrev HardCheckpoint := Nat × (CoinDenomination → Int)

variable {nHeight : Int} {closest checkpoint : HardCheckpoint} {checkpoints : List HardCheckpoint}

/-- The answer for a height: the highest checkpoint below it. -/
def IsClosest (checkpoints : List HardCheckpoint) (nHeight : Int) : Option HardCheckpoint → Prop
  | none => ∀ checkpoint ∈ checkpoints, nHeight ≤ checkpoint.1
  | some closest => closest ∈ checkpoints ∧ (closest.1 : Int) < nHeight ∧
      ∀ checkpoint ∈ checkpoints, (checkpoint.1 : Int) < nHeight → checkpoint.1 ≤ closest.1

/-- The checkpoints below a height. -/
def checkpointsBelow (checkpoints : List HardCheckpoint) (nHeight : Int) : List HardCheckpoint :=
  checkpoints.filter fun checkpoint => (checkpoint.1 : Int) < nHeight

/-- One comparison of the running choice. -/
def closer (nHeight : Int) (closest checkpoint : HardCheckpoint) : HardCheckpoint :=
  if nHeight - checkpoint.1 < closest.1 then checkpoint else closest

/-- One round of the loop of `GetClosestCheckpoint`. -/
def chooseCheckpoint (nHeight : Int) (closest : Option HardCheckpoint)
    (checkpoint : HardCheckpoint) : Option HardCheckpoint :=
  if (checkpoint.1 : Int) < nHeight then
    match closest with
    | none => some checkpoint
    | some closest => some (closer nHeight closest checkpoint)
  else closest

theorem foldl_choose_some : checkpoints.foldl (chooseCheckpoint nHeight) (some closest) =
    some ((checkpointsBelow checkpoints nHeight).foldl (closer nHeight) closest) := by
  induction checkpoints generalizing closest with
  | nil => rfl
  | cons next rest ih =>
    unfold checkpointsBelow at ih ⊢
    rw [List.foldl_cons, chooseCheckpoint, List.filter_cons]
    by_cases h : (next.1 : Int) < nHeight
    · rw [if_pos h, if_pos (decide_eq_true h), List.foldl_cons]
      exact ih
    · rw [if_neg h, if_neg (by simpa using h)]
      exact ih

/-- The first checkpoint below the height is taken, the others are compared. -/
theorem foldl_choose_none : checkpoints.foldl (chooseCheckpoint nHeight) none =
    match checkpointsBelow checkpoints nHeight with
    | [] => none
    | first :: rest => some (rest.foldl (closer nHeight) first) := by
  induction checkpoints with
  | nil => rfl
  | cons next rest ih =>
    have hsome : rest.foldl (chooseCheckpoint nHeight) (some next) =
        some ((checkpointsBelow rest nHeight).foldl (closer nHeight) next) := foldl_choose_some
    unfold checkpointsBelow at ih hsome ⊢
    rw [List.foldl_cons, chooseCheckpoint, List.filter_cons]
    by_cases h : (next.1 : Int) < nHeight
    · rw [if_pos h, if_pos (decide_eq_true h)]
      exact hsome
    · rw [if_neg h, if_neg (by simpa using h)]
      exact ih

theorem getClosestCheckpoint_eq (acc : AccumulatorEnv) :
    getClosestCheckpoint acc nHeight =
      match checkpointsBelow acc.checkpoints nHeight with
      | [] => none
      | first :: rest => some (rest.foldl (closer nHeight) first) := by
  rw [← foldl_choose_none]
  unfold getClosestCheckpoint
  congr 1
  funext closest checkpoint
  unfold chooseCheckpoint closer
  cases closest with
  | none => rfl
  | some closest =>
    dsimp only
    split_ifs <;> rfl

/-- The running choice ends at the last checkpoint exactly if that is close enough to replace the
one it started from. -/
theorem foldl_closer_eq_getLast_iff
    (hsorted : (closest :: checkpoints).Pairwise fun a b => a.1 < b.1) :
    checkpoints.foldl (closer nHeight) closest =
        (closest :: checkpoints).getLast (List.cons_ne_nil _ _) ↔
      checkpoints = [] ∨
        nHeight - ((closest :: checkpoints).getLast (List.cons_ne_nil _ _)).1 < closest.1 := by
  induction checkpoints generalizing closest with
  | nil => simp
  | cons next rest ih =>
    obtain ⟨hfirst, hrest⟩ := List.pairwise_cons.mp hsorted
    have hnext := hfirst next List.mem_cons_self
    have hlast : ((closest :: next :: rest).getLast (List.cons_ne_nil _ _)) =
        (next :: rest).getLast (List.cons_ne_nil _ _) := List.getLast_cons _
    have habove : next.1 ≤ ((next :: rest).getLast (List.cons_ne_nil _ _)).1 := by
      obtain heq | hmem := List.mem_cons.mp (List.getLast_mem (List.cons_ne_nil next rest))
      · rw [heq]
      · exact ((List.pairwise_cons.mp hrest).1 _ hmem).le
    have hne : next :: rest ≠ [] := List.cons_ne_nil _ _
    rw [List.foldl_cons, hlast]
    by_cases h : nHeight - next.1 < closest.1
    · -- the choice moves on, and every later checkpoint is closer still
      have hmoved : closer nHeight closest next = next := if_pos h
      rw [hmoved, ih hrest]
      refine iff_of_true (Or.inr ?_) (Or.inr ?_) <;> omega
    · have hstays : closer nHeight closest next = closest := if_neg h
      have hskip : (closest :: rest).Pairwise fun a b => a.1 < b.1 :=
        hsorted.sublist ((List.sublist_cons_self next rest).cons_cons closest)
      rw [hstays]
      cases rest with
      | nil =>
        have hdiffers : closest ≠ next := by
          rintro rfl
          omega
        refine iff_of_false hdiffers ?_
        rintro (h' | h')
        · exact hne h'
        · exact h h'
      | cons third rest =>
        have hsame : (closest :: third :: rest).getLast (List.cons_ne_nil _ _) =
            (next :: third :: rest).getLast (List.cons_ne_nil _ _) := by
          rw [List.getLast_cons (List.cons_ne_nil _ _), List.getLast_cons (List.cons_ne_nil _ _)]
        rw [← hsame, ih hskip, hsame]
        simp

/-- The last of ascending checkpoints is the highest. -/
theorem eq_getLast_or_lt (hsorted : checkpoints.Pairwise fun a b => a.1 < b.1)
    (hne : checkpoints ≠ []) (hmem : checkpoint ∈ checkpoints) :
    checkpoint = checkpoints.getLast hne ∨ checkpoint.1 < (checkpoints.getLast hne).1 := by
  rw [← List.dropLast_append_getLast hne] at hsorted hmem
  obtain ⟨-, -, hlast⟩ := List.pairwise_append.mp hsorted
  obtain hbefore | hend := List.mem_append.mp hmem
  · exact Or.inr (hlast checkpoint hbefore _ (List.mem_singleton.mpr rfl))
  · exact Or.inl (List.mem_singleton.mp hend)

theorem mem_checkpointsBelow : checkpoint ∈ checkpointsBelow checkpoints nHeight ↔
    checkpoint ∈ checkpoints ∧ (checkpoint.1 : Int) < nHeight := by
  simp [checkpointsBelow]

/-- The answer is the last checkpoint below the height. -/
theorem isClosest_iff (hsorted : checkpoints.Pairwise fun a b => a.1 < b.1)
    (hne : checkpointsBelow checkpoints nHeight ≠ [])
    (hmem : closest ∈ checkpointsBelow checkpoints nHeight) :
    IsClosest checkpoints nHeight (some closest) ↔
      closest = (checkpointsBelow checkpoints nHeight).getLast hne := by
  have hbelow : (checkpointsBelow checkpoints nHeight).Pairwise fun a b => a.1 < b.1 :=
    hsorted.filter _
  constructor
  · rintro ⟨-, -, hhighest⟩
    obtain ⟨hin, hunder⟩ := mem_checkpointsBelow.mp (List.getLast_mem hne)
    have hle := hhighest _ hin hunder
    obtain heq | hlt := eq_getLast_or_lt hbelow hne hmem
    · exact heq
    · omega
  · intro heq
    obtain ⟨hin, hunder⟩ := mem_checkpointsBelow.mp hmem
    refine ⟨hin, hunder, ?_⟩
    intro checkpoint hcheckpoint hlow
    obtain h | h := eq_getLast_or_lt hbelow hne (mem_checkpointsBelow.mpr ⟨hcheckpoint, hlow⟩)
    · rw [heq, h]
    · rw [heq]
      exact h.le

/-- Only one checkpoint is below the height, or the distance to the last of them is below the
height of the first. -/
def LastIsClose (checkpoints : List HardCheckpoint) (nHeight : Int) : Prop :=
  ∀ first ∈ (checkpointsBelow checkpoints nHeight).head?,
    ∀ last ∈ (checkpointsBelow checkpoints nHeight).getLast?,
      first = last ∨ nHeight - last.1 < first.1

theorem foldl_closer_mem :
    checkpoints.foldl (closer nHeight) closest ∈ closest :: checkpoints := by
  induction checkpoints generalizing closest with
  | nil => exact List.mem_singleton.mpr rfl
  | cons next rest ih =>
    rw [List.foldl_cons]
    have hmem := @ih (closer nHeight closest next)
    unfold closer at hmem ⊢
    split_ifs at hmem ⊢
    · exact List.mem_cons_of_mem _ hmem
    · obtain h | h := List.mem_cons.mp hmem
      · rw [h]
        exact List.mem_cons_self
      · exact List.mem_cons_of_mem _ (List.mem_cons_of_mem _ h)

theorem isClosest_getClosestCheckpoint_iff {acc : AccumulatorEnv}
    (hsorted : acc.checkpoints.Pairwise fun a b => a.1 < b.1) :
    IsClosest acc.checkpoints nHeight (getClosestCheckpoint acc nHeight) ↔
      LastIsClose acc.checkpoints nHeight := by
  have hclosest (closest : HardCheckpoint) := @isClosest_iff nHeight closest _ hsorted
  have hbelow : (checkpointsBelow acc.checkpoints nHeight).Pairwise fun a b => a.1 < b.1 :=
    hsorted.filter _
  rw [getClosestCheckpoint_eq]
  unfold LastIsClose
  cases hlist : checkpointsBelow acc.checkpoints nHeight with
  | nil =>
    refine iff_of_true ?_ fun first hfirst => absurd hfirst (Option.not_mem_none first)
    intro checkpoint hmem
    by_contra hlow
    have hin := mem_checkpointsBelow.mpr ⟨hmem, not_le.mp hlow⟩
    rw [hlist] at hin
    exact absurd hin List.not_mem_nil
  | cons first rest =>
    rw [hlist] at hclosest hbelow
    dsimp only
    rw [hclosest _ (List.cons_ne_nil _ _) foldl_closer_mem, foldl_closer_eq_getLast_iff hbelow,
      List.getLast?_eq_some_getLast (List.cons_ne_nil first rest)]
    simp only [List.head?_cons, Option.mem_some_iff, forall_eq']
    refine or_congr ?_ Iff.rfl
    constructor
    · rintro rfl
      rfl
    · intro heq
      by_contra hne
      have hlt := (List.pairwise_cons.mp hbelow).1 _ (List.getLast_mem hne)
      rw [List.getLast_cons hne] at heq
      rw [← heq] at hlt
      exact lt_irrefl _ hlt

end choice

section base
variable {acc : AccumulatorEnv} {node : Node} {map : AccumulatorMap} {values : AccumulatorValues}
  {nHeight : Int} {closest : HardCheckpoint} {denom : CoinDenomination}

/-- The heights at which the accumulators start from a checkpoint in the code. -/
structure UsesCheckpoint (node : Node) (nHeight : Int) : Prop where
  started : (Params node.network).nZerocoinStartHeight ≤ nHeight
  recalculated : nHeight ≠ (Params node.network).nBlockRecalculateAccumulators
  after : (Params node.network).nBlockZerocoinV2 ≤ nHeight
  soon : nHeight ≤ (Params node.network).nBlockZerocoinV2 + 20

theorem initializeAccumulators_of_checkpoint (h : UsesCheckpoint node nHeight)
    (hclosest : getClosestCheckpoint acc nHeight = some closest) :
    initializeAccumulators acc node nHeight map values =
      (some ((closest.1 : Int), (AccumulatorMap.start acc false).loadHard closest.2), values) := by
  unfold initializeAccumulators
  rw [if_neg (not_lt.mpr h.started), if_neg h.recalculated]
  dsimp only
  rw [if_pos ⟨h.after, h.soon⟩, if_pos h.after, hclosest]

theorem getAccumulatorValue_of_checkpoint (h : UsesCheckpoint node nHeight)
    (hheight : nHeight ≤ node.view.height)
    (hclosest : getClosestCheckpoint acc nHeight = some closest) :
    getAccumulatorValue acc node values nHeight denom = some ((closest.1 : Int), closest.2 denom) := by
  have hstart : (0 : ℤ) ≤ (Params node.network).nZerocoinStartHeight := by
    cases node.network <;> decide
  have hpositive := h.started
  obtain ⟨pindex, hpindex⟩ : ∃ pindex, node.view.chainAt nHeight = some pindex := by
    unfold ChainView.height at hheight
    unfold ChainView.chainAt
    rw [if_neg (by omega)]
    exact ⟨_, List.getElem?_eq_getElem (by omega)⟩
  unfold getAccumulatorValue
  rw [if_neg (not_lt.mpr hheight), hpindex]
  dsimp only
  rw [if_neg (not_lt.mpr h.soon), hclosest]

/-- The highest checkpoint below a height is taken exactly if it is the only one below, or closer to
the height than the first of them is to zero. Whichever is taken, both that need one take it. -/
theorem getClosestCheckpoint_iff (hsorted : acc.checkpoints.Pairwise fun a b => a.1 < b.1) :
    (∀ nHeight, IsClosest acc.checkpoints nHeight (getClosestCheckpoint acc nHeight) ↔
      LastIsClose acc.checkpoints nHeight) ∧
    ∀ node map values nHeight denom closest, UsesCheckpoint node nHeight →
      nHeight ≤ node.view.height → getClosestCheckpoint acc nHeight = some closest →
        (initializeAccumulators acc node nHeight map values).1 =
          some ((closest.1 : Int), (AccumulatorMap.start acc false).loadHard closest.2) ∧
        getAccumulatorValue acc node values nHeight denom =
          some ((closest.1 : Int), closest.2 denom) := by
  refine ⟨fun nHeight => isClosest_getClosestCheckpoint_iff hsorted, ?_⟩
  intro node map values nHeight denom closest h hheight hclosest
  rw [initializeAccumulators_of_checkpoint h hclosest]
  exact ⟨rfl, getAccumulatorValue_of_checkpoint h hheight hclosest⟩

/-- The checkpoints for the main network, at the heights 870020 to 1050020. -/
def mainCheckpoints (value : Nat → CoinDenomination → Int) : AccumulatorEnv where
  accumulatorBase := fun _ => 961
  increment := fun _ bnAccValue _ => bnAccValue
  getChecksum := fun _ => 0
  checkpoints := (List.range 19).map fun i => (870020 + 10000 * i, value i)
  shutdownRequested := fun _ => false

theorem mainCheckpoints_sorted (value : Nat → CoinDenomination → Int) :
    (mainCheckpoints value).checkpoints.Pairwise fun a b => a.1 < b.1 := by
  unfold mainCheckpoints
  rw [List.pairwise_map]
  exact List.pairwise_lt_range.imp fun h => by dsimp only; omega

/-- Shortly after the last checkpoint it is taken. -/
theorem mainCheckpoints_closest :
    IsClosest (mainCheckpoints fun _ _ => 1).checkpoints 1060000
      (getClosestCheckpoint (mainCheckpoints fun _ _ => 1) 1060000) := by
  refine ((getClosestCheckpoint_iff (mainCheckpoints_sorted fun _ _ => 1)).1 1060000).mpr ?_
  have hfirst : ((checkpointsBelow (mainCheckpoints fun _ _ => 1).checkpoints 1060000).head?.map
      Prod.fst) = some 870020 := by decide
  have hlast : ((checkpointsBelow (mainCheckpoints fun _ _ => 1).checkpoints 1060000).getLast?.map
      Prod.fst) = some 1050020 := by decide
  intro first hmem last hmem'
  rw [Option.mem_def.mp hmem, Option.map_some, Option.some_inj] at hfirst
  rw [Option.mem_def.mp hmem', Option.map_some, Option.some_inj] at hlast
  omega

/-- At the heights where the main network uses a checkpoint, the first is taken. -/
theorem mainCheckpoints_first :
    (getClosestCheckpoint (mainCheckpoints fun _ _ => 1) 1000000010).map Prod.fst = some 870020 ∧
    ¬ IsClosest (mainCheckpoints fun _ _ => 1).checkpoints 1000000010
      (getClosestCheckpoint (mainCheckpoints fun _ _ => 1) 1000000010) := by
  have hfirst : (getClosestCheckpoint (mainCheckpoints fun _ _ => 1) 1000000010).map Prod.fst =
      some 870020 := by decide
  have hhigher : ∃ checkpoint ∈ (mainCheckpoints fun _ _ => 1).checkpoints,
      checkpoint.1 = 1050020 := ⟨(1050020, fun _ => 1), by
        exact List.mem_map.mpr ⟨18, by decide, rfl⟩, rfl⟩
  refine ⟨hfirst, ?_⟩
  obtain ⟨closest, hclosest, hheight⟩ := Option.map_eq_some_iff.mp hfirst
  obtain ⟨checkpoint, hmem, hcheckpoint⟩ := hhigher
  rw [hclosest]
  rintro ⟨-, -, hhighest⟩
  have hle := hhighest checkpoint hmem (by omega)
  omega

end base
end Lytix
