import Lytix.Chain.ReceivedBlocks
import Lytix.Chain.InvalidateBlock

/-! What holds of the block index after any steps at all, also where `CheckBlockIndex` fails: every
entry stands on its predecessor, and a block that is counted has data and so has every block below
it. -/
namespace Lytix
open Ancestry

namespace ChainState

structure Grounded (s : ChainState) : Prop where
  root : ∀ x ∈ s.mapBlockIndex, s.pprev x = none → (s.index x).nHeight = 0
  parent : ∀ x ∈ s.mapBlockIndex, ∀ p, s.pprev x = some p →
    p ∈ s.mapBlockIndex ∧ (s.index x).nHeight = (s.index p).nHeight + 1
  counted : ∀ x ∈ s.mapBlockIndex, (s.index x).nChainTx ≠ 0 →
    (s.index x).nStatus.haveData = true ∧ ∀ p, s.pprev x = some p → (s.index p).nChainTx ≠ 0
  candidates : ∀ x ∈ s.setBlockIndexCandidates,
    x ∈ s.mapBlockIndex ∧ ((s.index x).nChainTx ≠ 0 ∨ s.pprev x = none)
  unlinked : ∀ p x, (p, x) ∈ s.mapBlocksUnlinked →
    x ∈ s.mapBlockIndex ∧ s.pprev x = some p ∧ (s.index x).nStatus.haveData = true

/-- The entries stand where they stood, counted as they were. Only counted blocks are new among the
candidates, and only blocks with data among those that wait for their predecessor. -/
structure Keeps (s s' : ChainState) : Prop where
  mapBlockIndex : s'.mapBlockIndex = s.mapBlockIndex
  pprev : ∀ x, s'.pprev x = s.pprev x
  height : ∀ x, (s'.index x).nHeight = (s.index x).nHeight
  nChainTx : ∀ x, (s'.index x).nChainTx = (s.index x).nChainTx
  haveData : ∀ x, (s'.index x).nStatus.haveData = (s.index x).nStatus.haveData
  candidates : ∀ x ∈ s'.setBlockIndexCandidates,
    x ∈ s.setBlockIndexCandidates ∨ x ∈ s.mapBlockIndex ∧ (s.index x).nChainTx ≠ 0
  unlinked : ∀ p x, (p, x) ∈ s'.mapBlocksUnlinked → (p, x) ∈ s.mapBlocksUnlinked ∨
    x ∈ s.mapBlockIndex ∧ s.pprev x = some p ∧ (s.index x).nStatus.haveData = true

section
variable {env : ChainEnv} {s s' s'' : ChainState} {x y p m t : Uint256} {above queue : List Uint256}

theorem Keeps.refl (s : ChainState) : Keeps s s where
  mapBlockIndex := rfl
  pprev := fun _ => rfl
  height := fun _ => rfl
  nChainTx := fun _ => rfl
  haveData := fun _ => rfl
  candidates := fun _ hx => Or.inl hx
  unlinked := fun _ _ hx => Or.inl hx

theorem Keeps.trans (h : Keeps s s') (h' : Keeps s' s'') : Keeps s s'' where
  mapBlockIndex := h'.mapBlockIndex.trans h.mapBlockIndex
  pprev := fun x => (h'.pprev x).trans (h.pprev x)
  height := fun x => (h'.height x).trans (h.height x)
  nChainTx := fun x => (h'.nChainTx x).trans (h.nChainTx x)
  haveData := fun x => (h'.haveData x).trans (h.haveData x)
  candidates := by
    intro x hx
    rcases h'.candidates x hx with hx | hx
    · exact h.candidates x hx
    · rw [h.mapBlockIndex, h.nChainTx] at hx
      exact Or.inr hx
  unlinked := by
    intro p x hx
    rcases h'.unlinked p x hx with hx | hx
    · exact h.unlinked p x hx
    · rw [h.mapBlockIndex, h.pprev, h.haveData] at hx
      exact Or.inr hx

theorem Grounded.keep (grounded : Grounded s) (h : Keeps s s') : Grounded s' where
  root := by
    intro x hx hp
    rw [h.mapBlockIndex] at hx
    rw [h.pprev] at hp
    rw [h.height]
    exact grounded.root x hx hp
  parent := by
    intro x hx p hp
    rw [h.mapBlockIndex] at hx ⊢
    rw [h.pprev] at hp
    rw [h.height, h.height]
    exact grounded.parent x hx p hp
  counted := by
    intro x hx hcounted
    rw [h.mapBlockIndex] at hx
    rw [h.nChainTx] at hcounted
    rw [h.haveData, h.pprev]
    simp only [h.nChainTx]
    exact grounded.counted x hx hcounted
  candidates := by
    intro x hx
    rw [h.mapBlockIndex, h.nChainTx, h.pprev]
    rcases h.candidates x hx with hx | ⟨hmem, hcounted⟩
    · exact grounded.candidates x hx
    · exact ⟨hmem, Or.inl hcounted⟩
  unlinked := by
    intro p x hx
    rw [h.mapBlockIndex, h.pprev, h.haveData]
    rcases h.unlinked p x hx with hx | hx
    · exact grounded.unlinked p x hx
    · exact hx

/-- Other data may change as long as the candidates are as they were, or fewer. -/
theorem SameData.keeps (h : SameData s s') (hcandidates : ∀ x ∈ s'.setBlockIndexCandidates,
    x ∈ s.setBlockIndexCandidates ∨ x ∈ s.mapBlockIndex ∧ (s.index x).nChainTx ≠ 0) :
    Keeps s s' where
  mapBlockIndex := h.mapBlockIndex
  pprev := h.pprev
  height := h.height
  nChainTx := h.nChainTx
  haveData := h.haveData
  candidates := hcandidates
  unlinked := by
    intro p x hx
    rw [h.mapBlocksUnlinked] at hx
    exact Or.inl hx

theorem keeps_modify {change : CBlockIndex → CBlockIndex}
    (hchange : ∀ entry, ∃ v w, change entry = withFailed entry v w) :
    Keeps s (s.modify x change) :=
  (onlyFlags_modify hchange).sameData.keeps fun _ hx => Or.inl hx

theorem keeps_clearWhere (test : Uint256 → Bool) : Keeps s (s.clearWhere test) :=
  (onlyFlags_clearWhere test).sameData.keeps fun _ hx => Or.inl hx

theorem keeps_setTip (pindex : Option Uint256) : Keeps s (s.setTip pindex) where
  __ := Keeps.refl s

theorem keeps_disconnectTip : Keeps s s.disconnectTip := keeps_setTip _

theorem keeps_eraseCandidates : Keeps s (s.eraseCandidates above) where
  __ := Keeps.refl s
  candidates := by
    intro x hx
    exact Or.inl (mem_eraseCandidates.mp hx).1

theorem keeps_pruneBlockIndexCandidates : Keeps s (s.pruneBlockIndexCandidates env) where
  __ := Keeps.refl s
  candidates := by
    intro x hx
    exact Or.inl (List.mem_of_mem_filter hx)

theorem keeps_insertCandidates {test : Uint256 → Bool}
    (htest : ∀ x, test x = true → (s.index x).nChainTx ≠ 0) : Keeps s (s.insertCandidates test) := by
  obtain ⟨candidates, heq, hmem⟩ := @insertCandidates_eq s test
  rw [heq]
  refine { Keeps.refl s with candidates := ?_ }
  intro x hx
  rcases (hmem x).mp hx with hx | ⟨hmap, hx⟩
  · exact Or.inl hx
  · exact Or.inr ⟨hmap, htest x hx⟩

/-! Blocks that are declared invalid, or valid again. -/

theorem keeps_disconnectFrom {rounds : ℕ} : Keeps s (disconnectFrom x rounds s) := by
  induction rounds generalizing s with
  | zero => exact Keeps.refl s
  | succ rounds ih =>
    unfold disconnectFrom
    split_ifs with hon
    · cases s.tip with
      | none => exact Keeps.refl s
      | some pindexWalk =>
        have hfailed : Keeps s (s.modify pindexWalk setFailedChild) :=
          keeps_modify fun entry => ⟨_, _, rfl⟩
        exact ((hfailed.trans keeps_eraseCandidates).trans keeps_disconnectTip).trans ih
    · exact Keeps.refl s

theorem keeps_invalidateBlock (h : s.invalidateBlock env x = some s') : Keeps s s' := by
  unfold invalidateBlock at h
  dsimp only at h
  obtain ⟨tip, -, rfl⟩ := Option.map_eq_some_iff.mp h
  have hfailed : Keeps s (s.modify x setFailedValid) := keeps_modify fun entry => ⟨_, _, rfl⟩
  refine ((hfailed.trans keeps_eraseCandidates).trans keeps_disconnectFrom).trans
    (keeps_insertCandidates ?_)
  intro y hy
  simp only [Bool.and_eq_true, decide_eq_true_eq] at hy
  exact hy.1.2

theorem keeps_reconsiderBlock : Keeps s (s.reconsiderBlock env x) := by
  unfold reconsiderBlock
  dsimp only
  refine ((keeps_clearWhere _).trans (keeps_insertCandidates ?_)).trans (keeps_clearWhere _)
  intro y hy
  simp only [Bool.and_eq_true, decide_eq_true_eq] at hy
  exact hy.1.2

/-! The blocks on the way to the best chain. -/

theorem keeps_connectTip : Keeps s (s.connectTip x) := by
  have hraised : Keeps s (s.modify x fun entry => entry.raiseValidity BLOCK_VALID_SCRIPTS) := by
    have hentry : ∀ y, ∃ valid, (s.modify x fun entry =>
        entry.raiseValidity BLOCK_VALID_SCRIPTS).index y =
          { s.index y with nStatus := { (s.index y).nStatus with valid := valid } } := by
      intro y
      rw [index_modify]
      unfold CBlockIndex.raiseValidity
      split_ifs with heq
      · rw [heq]
        exact ⟨_, rfl⟩
      · rw [heq]
        exact ⟨_, rfl⟩
      · rw [heq]
        exact ⟨_, rfl⟩
      · exact ⟨_, rfl⟩
    constructor
    case mapBlockIndex => rfl
    case pprev =>
      intro y
      obtain ⟨valid, hy⟩ := hentry y
      unfold ChainState.pprev
      rw [hy]
    case height =>
      intro y
      obtain ⟨valid, hy⟩ := hentry y
      rw [hy]
    case nChainTx =>
      intro y
      obtain ⟨valid, hy⟩ := hentry y
      rw [hy]
    case haveData =>
      intro y
      obtain ⟨valid, hy⟩ := hentry y
      rw [hy]
    case candidates => exact fun y hy => Or.inl hy
    case unlinked => exact fun p y hy => Or.inl hy
  unfold connectTip
  dsimp only
  split_ifs
  · exact hraised.trans (keeps_setTip _)
  · exact keeps_setTip _

theorem keeps_disconnectTo {fork : Option Uint256} {rounds : ℕ} :
    Keeps s (disconnectTo fork rounds s) := by
  induction rounds generalizing s with
  | zero => exact Keeps.refl s
  | succ rounds ih =>
    unfold disconnectTo
    split_ifs
    · exact Keeps.refl s
    · exact keeps_disconnectTip.trans ih

theorem keeps_connectBlocks {connect : ChainState → Uint256 → ConnectTipOutcome}
    {old : Option Uint256} {path : List Uint256} :
    Keeps s (connectBlocks env connect old path s).2 := by
  induction path generalizing s with
  | nil => exact Keeps.refl s
  | cons x path ih =>
    unfold connectBlocks
    cases connect s x with
    | connected =>
      have hconnected : Keeps s ((s.connectTip x).pruneBlockIndexCandidates env) :=
        keeps_connectTip.trans keeps_pruneBlockIndexCandidates
      dsimp only
      split_ifs
      · exact hconnected
      · exact hconnected.trans ih
    | invalid corruptionPossible =>
      have hfailed : Keeps s (s.modify x setFailedValid) := keeps_modify fun entry => ⟨_, _, rfl⟩
      dsimp only
      split_ifs
      · exact Keeps.refl s
      · exact hfailed.trans keeps_eraseCandidates
    | error => exact Keeps.refl s

theorem keeps_activateBestChainStep {connect : ChainState → Uint256 → ConnectTipOutcome} :
    Keeps s (s.activateBestChainStep env connect m).2 := by
  unfold activateBestChainStep
  exact keeps_disconnectTo.trans keeps_connectBlocks

/-- The blocks above the one that cannot be used have failed like it, or wait for it. -/
theorem keeps_dropChain (habove : ∀ y ∈ above,
    y ∈ s.mapBlockIndex ∧ (s.index y).nStatus.haveData = true) : Keeps s (s.dropChain above t) := by
  unfold dropChain
  dsimp only
  refine Keeps.trans ?_ keeps_eraseCandidates
  by_cases hfailed : (s.index t).nStatus.failed = true
  · rw [if_pos hfailed]
    have hflags : OnlyFlags s { s with index := fun x =>
        if x ∈ above then setFailedChild (s.index x) else s.index x } := by
      refine ⟨rfl, rfl, rfl, ?_⟩
      intro y
      dsimp only
      split_ifs
      · exact ⟨_, _, rfl⟩
      · exact ⟨_, _, rfl⟩
    exact hflags.sameData.keeps fun _ hx => Or.inl hx
  · rw [if_neg hfailed]
    refine { Keeps.refl s with unlinked := ?_ }
    intro p x hx
    rcases List.mem_append.mp hx with hx | hx
    · obtain ⟨y, hy, hpair⟩ := List.mem_filterMap.mp hx
      obtain ⟨q, hq, heq⟩ := Option.map_eq_some_iff.mp hpair
      obtain ⟨rfl, rfl⟩ := Prod.mk.inj heq
      exact Or.inr ⟨(habove y hy).1, hq, (habove y hy).2⟩
    · exact Or.inl hx

/-! New entries, and data that arrives. -/

theorem Grounded.addToBlockIndex {block : CBlock} (grounded : Grounded s)
    (hprev : block.hashPrevBlock ∈ s.mapBlockIndex) : Grounded (s.addToBlockIndex block) := by
  by_cases hold : block.hash ∈ s.mapBlockIndex
  · unfold ChainState.addToBlockIndex
    rw [if_pos hold]
    exact grounded
  obtain ⟨hmap, -, hcandidates, hunlinked⟩ := addToBlockIndex_rest hold
  have hself := index_addToBlockIndex_self hold hprev
  have hindex : ∀ y ∈ s.mapBlockIndex, (s.addToBlockIndex block).index y = s.index y :=
    fun y hy => index_addToBlockIndex_of_mem hold hy
  have hpprev : ∀ y ∈ s.mapBlockIndex, (s.addToBlockIndex block).pprev y = s.pprev y :=
    fun y hy => pprev_addToBlockIndex_of_mem hold hy
  have hselfprev : (s.addToBlockIndex block).pprev block.hash = some block.hashPrevBlock := by
    unfold ChainState.pprev
    rw [hself]
  generalize s.addToBlockIndex block = s' at *
  constructor
  case root =>
    intro x hx hp
    rw [hmap, List.mem_cons] at hx
    rcases hx with rfl | hx
    · rw [hselfprev] at hp
      contradiction
    · rw [hpprev x hx] at hp
      rw [hindex x hx]
      exact grounded.root x hx hp
  case parent =>
    intro x hx p hp
    rw [hmap, List.mem_cons] at hx
    rcases hx with rfl | hx
    · rw [hselfprev] at hp
      rw [← Option.some.inj hp, hself, hindex _ hprev, hmap]
      exact ⟨List.mem_cons_of_mem _ hprev, rfl⟩
    · rw [hpprev x hx] at hp
      obtain ⟨hpmem, hheight⟩ := grounded.parent x hx p hp
      rw [hindex x hx, hindex p hpmem, hmap]
      exact ⟨List.mem_cons_of_mem _ hpmem, hheight⟩
  case counted =>
    intro x hx hcounted
    rw [hmap, List.mem_cons] at hx
    rcases hx with rfl | hx
    · rw [hself] at hcounted
      exact absurd rfl hcounted
    · rw [hindex x hx] at hcounted ⊢
      obtain ⟨hdata, hparents⟩ := grounded.counted x hx hcounted
      refine ⟨hdata, ?_⟩
      intro p hp
      rw [hpprev x hx] at hp
      rw [hindex p (grounded.parent x hx p hp).1]
      exact hparents p hp
  case candidates =>
    intro x hx
    rw [hcandidates] at hx
    obtain ⟨hmem, hcounted⟩ := grounded.candidates x hx
    rw [hmap, hindex x hmem, hpprev x hmem]
    exact ⟨List.mem_cons_of_mem _ hmem, hcounted⟩
  case unlinked =>
    intro p x hx
    rw [hunlinked] at hx
    obtain ⟨hmem, hp, hdata⟩ := grounded.unlinked p x hx
    rw [hmap, hindex x hmem, hpprev x hmem]
    exact ⟨List.mem_cons_of_mem _ hmem, hp, hdata⟩

/-- A block that may be counted: it has data, and its predecessor is counted. -/
structure Countable (s : ChainState) (x : Uint256) : Prop where
  mem : x ∈ s.mapBlockIndex
  haveData : (s.index x).nStatus.haveData = true
  parent : ∃ p, s.pprev x = some p ∧ (s.index p).nChainTx ≠ 0

/-- No block loses its count. -/
theorem Countable.counted (countable : Countable s x) (hy : y = x ∨ (s.index y).nChainTx ≠ 0) :
    ((s.linkBlock env x).index y).nChainTx ≠ 0 := by
  by_cases heq : y = x
  · obtain ⟨p, hp, hparent⟩ := countable.parent
    rw [heq, index_linkBlock_self, hp]
    dsimp only [Option.map_some, Option.getD_some]
    omega
  · rw [index_linkBlock_of_ne heq]
    exact hy.resolve_left heq

theorem Countable.link (countable : Countable s x) (h : Countable s y) :
    Countable (s.linkBlock env x) y where
  mem := by
    rw [linkBlock_rest.1]
    exact h.mem
  haveData := by
    rw [nStatus_linkBlock]
    exact h.haveData
  parent := by
    obtain ⟨p, hp, hparent⟩ := h.parent
    rw [sameTree_linkBlock.pprev]
    exact ⟨p, hp, countable.counted (Or.inr hparent)⟩

theorem Grounded.linkBlock (grounded : Grounded s) (countable : Countable s x) :
    Grounded (s.linkBlock env x) := by
  have hsame := @sameTree_linkBlock env s x
  have hunlinked := (@linkBlock_rest env s x).2.2.2
  constructor
  case root =>
    intro y hy hp
    rw [hsame.mapBlockIndex] at hy
    rw [hsame.pprev] at hp
    rw [hsame.height]
    exact grounded.root y hy hp
  case parent =>
    intro y hy p hp
    rw [hsame.mapBlockIndex] at hy ⊢
    rw [hsame.pprev] at hp
    rw [hsame.height, hsame.height]
    exact grounded.parent y hy p hp
  case counted =>
    intro y hy hcounted
    rw [hsame.mapBlockIndex] at hy
    rw [nStatus_linkBlock, hsame.pprev]
    by_cases heq : y = x
    · rw [heq]
      obtain ⟨p, hp, hparent⟩ := countable.parent
      refine ⟨countable.haveData, ?_⟩
      intro q hq
      rw [Option.some.inj (hq.symm.trans hp)]
      exact countable.counted (Or.inr hparent)
    · rw [index_linkBlock_of_ne heq] at hcounted
      obtain ⟨hdata, hparents⟩ := grounded.counted y hy hcounted
      exact ⟨hdata, fun p hp => countable.counted (Or.inr (hparents p hp))⟩
  case candidates =>
    intro y hy
    rw [hsame.mapBlockIndex, hsame.pprev]
    rcases mem_candidates_linkBlock.mp hy with hy | ⟨rfl, -⟩
    · obtain ⟨hmem, hcounted⟩ := grounded.candidates y hy
      refine ⟨hmem, ?_⟩
      rcases hcounted with hcounted | hroot
      · exact Or.inl (countable.counted (Or.inr hcounted))
      · exact Or.inr hroot
    · exact ⟨countable.mem, Or.inl (countable.counted (Or.inl rfl))⟩
  case unlinked =>
    intro p y hy
    rw [hunlinked] at hy
    rw [hsame.mapBlockIndex, hsame.pprev, nStatus_linkBlock]
    exact grounded.unlinked p y (List.mem_of_mem_filter hy)

/-- The blocks that wait for a block may be counted once it is. -/
theorem Grounded.countable_waiting (grounded : Grounded s) (countable : Countable s x)
    (hy : (x, y) ∈ s.mapBlocksUnlinked) : Countable (s.linkBlock env x) y where
  mem := by
    rw [linkBlock_rest.1]
    exact (grounded.unlinked x y hy).1
  haveData := by
    rw [nStatus_linkBlock]
    exact (grounded.unlinked x y hy).2.2
  parent := by
    rw [sameTree_linkBlock.pprev]
    exact ⟨x, (grounded.unlinked x y hy).2.1, countable.counted (Or.inl rfl)⟩

theorem Grounded.linkBlocks {rounds : ℕ} (grounded : Grounded s)
    (hqueue : ∀ y ∈ queue, Countable s y) : Grounded (linkBlocks env rounds queue s) := by
  induction rounds generalizing s queue with
  | zero => exact grounded
  | succ rounds ih =>
    cases queue with
    | nil => exact grounded
    | cons x queue =>
      have countable := hqueue x List.mem_cons_self
      unfold ChainState.linkBlocks
      apply ih (grounded.linkBlock countable)
      intro y hy
      rcases List.mem_append.mp hy with hy | hy
      · exact countable.link (hqueue y (List.mem_cons_of_mem _ hy))
      · exact grounded.countable_waiting countable (mem_waitingFor.mp hy)

theorem storeData_eq (nTx : ℕ) (entry : CBlockIndex) : ∃ valid, storeData nTx entry =
    { entry with
      nTx := nTx
      nChainTx := 0
      nStatus := { entry.nStatus with valid := valid, haveData := true } } := by
  unfold storeData CBlockIndex.raiseValidity
  split_ifs
  · exact ⟨_, rfl⟩
  · exact ⟨_, rfl⟩
  · exact ⟨_, rfl⟩

/-- The data of a block is new, so the block was not counted. -/
theorem Grounded.storeData {nTx : ℕ} (grounded : Grounded s)
    (hnew : (s.index x).nStatus.haveData = false) : Grounded (s.modify x (storeData nTx)) := by
  have huncounted : ∀ y ∈ s.mapBlockIndex, (s.index y).nChainTx ≠ 0 → y ≠ x := by
    intro y hy hcounted heq
    have hdata := (grounded.counted y hy hcounted).1
    rw [heq, hnew] at hdata
    contradiction
  obtain ⟨valid, hstored⟩ := storeData_eq nTx (s.index x)
  have hself : (s.modify x (ChainState.storeData nTx)).index x = _ :=
    (index_modify _).trans ((if_pos rfl).trans hstored)
  have hother : ∀ y, y ≠ x → (s.modify x (ChainState.storeData nTx)).index y = s.index y := by
    intro y hne
    rw [index_modify, if_neg hne]
  have hpprev : ∀ y, (s.modify x (ChainState.storeData nTx)).pprev y = s.pprev y := by
    intro y
    unfold ChainState.pprev
    by_cases heq : y = x
    · rw [heq, hself]
    · rw [hother y heq]
  have hheight : ∀ y, ((s.modify x (ChainState.storeData nTx)).index y).nHeight =
      (s.index y).nHeight := by
    intro y
    by_cases heq : y = x
    · rw [heq, hself]
    · rw [hother y heq]
  have hdata : ∀ y, (s.index y).nStatus.haveData = true →
      ((s.modify x (ChainState.storeData nTx)).index y).nStatus.haveData = true := by
    intro y hy
    by_cases heq : y = x
    · rw [heq, hself]
    · rw [hother y heq]
      exact hy
  have hcount : ∀ y ∈ s.mapBlockIndex, (s.index y).nChainTx ≠ 0 →
      ((s.modify x (ChainState.storeData nTx)).index y).nChainTx ≠ 0 := by
    intro y hy hcounted
    rw [hother y (huncounted y hy hcounted)]
    exact hcounted
  have hzero : ((s.modify x (ChainState.storeData nTx)).index x).nChainTx = 0 := by rw [hself]
  constructor
  case root =>
    intro y hy hp
    rw [hpprev] at hp
    rw [hheight]
    exact grounded.root y hy hp
  case parent =>
    intro y hy p hp
    rw [hpprev] at hp
    rw [hheight, hheight]
    exact grounded.parent y hy p hp
  case counted =>
    intro y hy hcounted
    have hne : y ≠ x := by
      intro heq
      rw [heq] at hcounted
      exact hcounted hzero
    rw [hother y hne] at hcounted
    obtain ⟨hydata, hparents⟩ := grounded.counted y hy hcounted
    refine ⟨hdata y hydata, ?_⟩
    intro p hp
    rw [hpprev] at hp
    exact hcount p (grounded.parent y hy p hp).1 (hparents p hp)
  case candidates =>
    intro y hy
    obtain ⟨hmem, hcounted⟩ := grounded.candidates y hy
    refine ⟨hmem, ?_⟩
    rw [hpprev]
    rcases hcounted with hcounted | hroot
    · exact Or.inl (hcount y hmem hcounted)
    · exact Or.inr hroot
  case unlinked =>
    intro p y hy
    obtain ⟨hmem, hp, hydata⟩ := grounded.unlinked p y hy
    rw [hpprev]
    exact ⟨hmem, hp, hdata y hydata⟩

theorem Grounded.receivedBlockTransactions {block : CBlock} (grounded : Grounded s)
    (h : s.acceptsData block = true) :
    Grounded (s.receivedBlockTransactions env block.hash block.vtx.length) := by
  unfold acceptsData at h
  simp only [Bool.and_eq_true, decide_eq_true_eq, Bool.not_eq_true', beq_iff_eq] at h
  obtain ⟨⟨⟨⟨⟨⟨⟨hmem, hnew⟩, -⟩, -⟩, hprev⟩, -⟩, -⟩, -⟩ := h
  have hstored := @Grounded.storeData s block.hash block.vtx.length grounded hnew
  obtain ⟨valid, heq⟩ := storeData_eq block.vtx.length (s.index block.hash)
  have hself : (s.modify block.hash (ChainState.storeData block.vtx.length)).index block.hash = _ :=
    (index_modify _).trans ((if_pos rfl).trans heq)
  have hdata : ((s.modify block.hash (ChainState.storeData block.vtx.length)).index
      block.hash).nStatus.haveData = true := by rw [hself]
  have hpprev : (s.modify block.hash (ChainState.storeData block.vtx.length)).pprev block.hash =
      some block.hashPrevBlock := by
    unfold ChainState.pprev
    rw [hself]
    exact hprev
  have hmem' : block.hash ∈
      (s.modify block.hash (ChainState.storeData block.vtx.length)).mapBlockIndex := hmem
  unfold ChainState.receivedBlockTransactions
  dsimp only
  generalize s.modify block.hash (ChainState.storeData block.vtx.length) = received at *
  rw [hpprev]
  dsimp only
  split_ifs with hcounted hvalid
  · apply hstored.linkBlocks
    intro y hy
    rw [List.mem_singleton.mp hy]
    exact ⟨hmem', hdata, block.hashPrevBlock, hpprev, hcounted⟩
  · apply hstored.keep
    refine { Keeps.refl received with unlinked := ?_ }
    intro p x hx
    rcases List.mem_cons.mp hx with heq | hx
    · obtain ⟨rfl, rfl⟩ := Prod.mk.inj heq
      exact Or.inr ⟨hmem', hpprev, hdata⟩
    · exact Or.inl hx
  · exact hstored

end

end ChainState

end Lytix
