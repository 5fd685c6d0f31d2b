import Lytix.Chain.GroundedIndex

/-! `LoadBlockIndexDB`: a node that starts again reads the entries back and counts the blocks anew. -/
namespace Lytix

namespace ChainState

variable (env : ChainEnv) (s : ChainState)

/-- An entry as `LoadBlockIndexGuts` constructs it from its record. -/
def readEntry (entry : CBlockIndex) : CBlockIndex :=
  { entry with nChainWork := 0, nChainTx := 0, nSequenceId := 0 }

/-- The work of an entry, and its count if its data is stored and its predecessor is counted. -/
def countLoaded (pindex : Uint256) : ChainState :=
  let nPrevWork := ((s.pprev pindex).map fun p => (s.index p).nChainWork).getD 0
  s.modify pindex fun entry =>
    { entry with
      nChainWork := (nPrevWork + getBlockProof entry.nBits) % 2 ^ 256
      nChainTx :=
        if entry.nStatus.haveData then
          match s.pprev pindex with
          | none => entry.nTx
          | some p =>
            if (s.index p).nChainTx ≠ 0 then (s.index p).nChainTx + entry.nTx else 0
        else entry.nChainTx }

/-- One round of the loop of `LoadBlockIndexDB`. -/
def loadEntry (pindex : Uint256) : ChainState :=
  let counted := s.countLoaded pindex
  let entry := counted.index pindex
  let waiting := match counted.pprev pindex with
    | none => counted
    | some p =>
      if entry.nStatus.haveData && decide ((counted.index p).nChainTx = 0) then
        { counted with mapBlocksUnlinked := (p, pindex) :: counted.mapBlocksUnlinked }
      else counted
  let inserted :=
    if entry.isValid BLOCK_VALID_TRANSACTIONS &&
        (decide (entry.nChainTx ≠ 0) || entry.pprev.isNone) then
      waiting.insertCandidate pindex
    else waiting
  { inserted with
    pskip := Function.update inserted.pskip pindex
      ((inserted.pprev pindex).bind fun p => inserted.getAncestor p (getSkipHeight entry.nHeight)) }

/-- `vSortedByHeight`. Entries of one height are in the order of their addresses. -/
def sortedByHeight : List Uint256 :=
  s.mapBlockIndex.mergeSort fun a b =>
    decide ((s.index a).nHeight < (s.index b).nHeight ∨
      (s.index a).nHeight = (s.index b).nHeight ∧ env.address a ≤ env.address b)

def readEntries : ChainState where
  mapBlockIndex := s.mapBlockIndex
  index pindex := readEntry (s.index pindex)

/-- `LoadBlockIndexDB` of a node whose last flush wrote the entries of `s`, where no error stops it.
The tip is the best block of the coins if its entry is there. -/
def loadBlockIndexDB (hashBestBlock : Uint256) : ChainState :=
  let loaded := (s.sortedByHeight env).foldl loadEntry s.readEntries
  if hashBestBlock ∈ loaded.mapBlockIndex then
    (loaded.setTip (some hashBestBlock)).pruneBlockIndexCandidates env
  else loaded

section
variable {env : ChainEnv} {s : ChainState} {x y p : Uint256} {l : List Uint256}

theorem index_countLoaded_of_ne (hne : y ≠ x) : (s.countLoaded x).index y = s.index y :=
  Function.update_of_ne hne _ _

theorem countLoaded_same (y : Uint256) : (s.countLoaded x).pprev y = s.pprev y ∧
    ((s.countLoaded x).index y).nHeight = (s.index y).nHeight ∧
    ((s.countLoaded x).index y).nStatus = (s.index y).nStatus := by
  unfold ChainState.pprev
  by_cases heq : y = x
  · rw [heq, countLoaded, index_modify, if_pos rfl]
    exact ⟨rfl, rfl, rfl⟩
  · rw [index_countLoaded_of_ne heq]
    exact ⟨rfl, rfl, rfl⟩

/-- A block is counted only if its data is stored and its predecessor is counted. -/
theorem Grounded.counted_countLoaded (grounded : Grounded s) (hx : x ∈ s.mapBlockIndex)
    (hcounted : ((s.countLoaded x).index x).nChainTx ≠ 0) :
    (s.index x).nStatus.haveData = true ∧ ∀ p, s.pprev x = some p → (s.index p).nChainTx ≠ 0 := by
  rw [countLoaded, index_modify, if_pos rfl] at hcounted
  dsimp only at hcounted
  by_cases hdata : (s.index x).nStatus.haveData = true
  · refine ⟨hdata, ?_⟩
    intro p hp hzero
    rw [if_pos hdata, hp] at hcounted
    dsimp only at hcounted
    rw [if_neg (not_not.mpr hzero)] at hcounted
    exact hcounted rfl
  · rw [if_neg hdata] at hcounted
    exact grounded.counted x hx hcounted

/-- A block with data and a counted predecessor is counted. -/
theorem countLoaded_ne_zero (hdata : (s.index x).nStatus.haveData = true) (hp : s.pprev x = some p)
    (hparent : (s.index p).nChainTx ≠ 0) : ((s.countLoaded x).index x).nChainTx ≠ 0 := by
  rw [countLoaded, index_modify, if_pos rfl]
  dsimp only
  rw [if_pos hdata, hp]
  dsimp only
  rw [if_pos hparent]
  omega

/-- No block above `x` is counted yet: the entries are sorted by height. -/
theorem Grounded.countLoaded (grounded : Grounded s) (hx : x ∈ s.mapBlockIndex)
    (hsorted : ∀ y ∈ s.mapBlockIndex, (s.index y).nChainTx ≠ 0 →
      (s.index y).nHeight ≤ (s.index x).nHeight) : Grounded (s.countLoaded x) where
  root := by
    intro y hy hp
    rw [(countLoaded_same y).1] at hp
    rw [(countLoaded_same y).2.1]
    exact grounded.root y hy hp
  parent := by
    intro y hy p hp
    rw [(countLoaded_same y).1] at hp
    rw [(countLoaded_same y).2.1, (countLoaded_same p).2.1]
    exact grounded.parent y hy p hp
  counted := by
    intro y hy hcounted
    rw [(countLoaded_same y).1, (countLoaded_same y).2.2]
    have hbefore : (s.index y).nStatus.haveData = true ∧
        ∀ p, s.pprev y = some p → (s.index p).nChainTx ≠ 0 ∧ p ≠ x := by
      by_cases heq : y = x
      · rw [heq] at hcounted hy ⊢
        obtain ⟨hdata, hparents⟩ := grounded.counted_countLoaded hx hcounted
        refine ⟨hdata, ?_⟩
        intro p hp
        refine ⟨hparents p hp, ?_⟩
        intro hpx
        have hheight := (grounded.parent x hx p hp).2
        rw [hpx] at hheight
        omega
      · rw [index_countLoaded_of_ne heq] at hcounted
        obtain ⟨hdata, hparents⟩ := grounded.counted y hy hcounted
        refine ⟨hdata, ?_⟩
        intro p hp
        refine ⟨hparents p hp, ?_⟩
        intro hpx
        have hheight := (grounded.parent y hy p hp).2
        have hle := hsorted y hy hcounted
        rw [hpx] at hheight
        omega
    refine ⟨hbefore.1, ?_⟩
    intro p hp
    obtain ⟨hparent, hne⟩ := hbefore.2 p hp
    rw [index_countLoaded_of_ne hne]
    exact hparent
  candidates := by
    intro y hy
    obtain ⟨hmem, hcounted⟩ := grounded.candidates y hy
    refine ⟨hmem, ?_⟩
    rw [(countLoaded_same y).1]
    by_cases heq : y = x
    · rw [heq] at hcounted hmem ⊢
      cases hp : s.pprev x with
      | none => exact Or.inr rfl
      | some p =>
        rw [hp] at hcounted
        obtain ⟨hdata, hparents⟩ := grounded.counted x hmem (hcounted.resolve_right (by simp))
        exact Or.inl (countLoaded_ne_zero hdata hp (hparents p hp))
    · rw [index_countLoaded_of_ne heq]
      exact hcounted
  unlinked := by
    intro p y hy
    rw [(countLoaded_same y).1, (countLoaded_same y).2.2]
    exact grounded.unlinked p y hy

/-- The entries of the loop so far, and of the next round. -/
theorem Grounded.loadEntry (grounded : Grounded s) (hx : x ∈ s.mapBlockIndex)
    (hsorted : ∀ y ∈ s.mapBlockIndex, (s.index y).nChainTx ≠ 0 →
      (s.index y).nHeight ≤ (s.index x).nHeight) :
    Grounded (s.loadEntry x) ∧ (s.loadEntry x).mapBlockIndex = s.mapBlockIndex ∧
      (s.loadEntry x).index = (s.countLoaded x).index := by
  have hcounted := grounded.countLoaded hx hsorted
  have hmem : x ∈ (s.countLoaded x).mapBlockIndex := hx
  have hmap : (s.countLoaded x).mapBlockIndex = s.mapBlockIndex := rfl
  unfold ChainState.loadEntry
  dsimp only
  generalize s.countLoaded x = counted at *
  have hwaiting : ∃ unlinked, (match counted.pprev x with
      | none => counted
      | some p =>
        if (counted.index x).nStatus.haveData && decide ((counted.index p).nChainTx = 0) then
          { counted with mapBlocksUnlinked := (p, x) :: counted.mapBlocksUnlinked }
        else counted) = { counted with mapBlocksUnlinked := unlinked } ∧
      Grounded { counted with mapBlocksUnlinked := unlinked } := by
    cases hp : counted.pprev x with
    | none => exact ⟨_, rfl, hcounted⟩
    | some p =>
      dsimp only
      by_cases hdata : ((counted.index x).nStatus.haveData &&
          decide ((counted.index p).nChainTx = 0)) = true
      · rw [if_pos hdata]
        rw [Bool.and_eq_true] at hdata
        refine ⟨_, rfl, hcounted.keep { Keeps.refl counted with unlinked := ?_ }⟩
        intro q y hy
        rcases List.mem_cons.mp hy with heq | hy
        · obtain ⟨rfl, rfl⟩ := Prod.mk.inj heq
          exact Or.inr ⟨hmem, hp, hdata.1⟩
        · exact Or.inl hy
      · rw [if_neg hdata]
        exact ⟨_, rfl, hcounted⟩
  obtain ⟨unlinked, heq, hgrounded⟩ := hwaiting
  rw [heq]
  split_ifs with htest
  · simp only [Bool.and_eq_true, Bool.or_eq_true, decide_eq_true_eq, Option.isNone_iff_eq_none]
      at htest
    refine ⟨?_, hmap, rfl⟩
    refine { hgrounded with candidates := ?_ }
    intro y hy
    rcases mem_insertCandidate.mp hy with rfl | hy
    · exact ⟨hmem, htest.2⟩
    · exact hgrounded.candidates y hy
  · exact ⟨{ hgrounded with }, hmap, rfl⟩

/-- The loop over the sorted entries: what is counted is not above any entry that is to come. -/
theorem Grounded.foldl_loadEntry (grounded : Grounded s) (hl : ∀ x ∈ l, x ∈ s.mapBlockIndex)
    (hpairwise : l.Pairwise fun a b => (s.index a).nHeight ≤ (s.index b).nHeight)
    (hsorted : ∀ x ∈ l, ∀ y ∈ s.mapBlockIndex, (s.index y).nChainTx ≠ 0 →
      (s.index y).nHeight ≤ (s.index x).nHeight) : Grounded (l.foldl ChainState.loadEntry s) := by
  induction l generalizing s with
  | nil => exact grounded
  | cons x l ih =>
    obtain ⟨hfirst, hrest⟩ := List.pairwise_cons.mp hpairwise
    obtain ⟨hgrounded, hmap, hindex⟩ :=
      grounded.loadEntry (hl x List.mem_cons_self) (hsorted x List.mem_cons_self)
    have hheight : ∀ y, ((s.loadEntry x).index y).nHeight = (s.index y).nHeight := by
      intro y
      rw [hindex]
      exact (countLoaded_same y).2.1
    apply ih hgrounded
    · intro y hy
      rw [hmap]
      exact hl y (List.mem_cons_of_mem _ hy)
    · simp only [hheight]
      exact hrest
    · intro y hy z hz hcounted
      rw [hmap] at hz
      rw [hheight, hheight]
      by_cases heq : z = x
      · rw [heq]
        exact hfirst y hy
      · rw [hindex, index_countLoaded_of_ne heq] at hcounted
        exact hsorted y (List.mem_cons_of_mem _ hy) z hz hcounted

theorem pairwise_sortedByHeight : (s.sortedByHeight env).Pairwise
    fun a b => (s.index a).nHeight ≤ (s.index b).nHeight := by
  have hsorted : (s.sortedByHeight env).Pairwise fun a b => decide
      ((s.index a).nHeight < (s.index b).nHeight ∨ (s.index a).nHeight = (s.index b).nHeight ∧
        env.address a ≤ env.address b) = true := by
    apply List.pairwise_mergeSort
    · intro a b c
      simp only [decide_eq_true_eq]
      omega
    · intro a b
      simp only [Bool.or_eq_true, decide_eq_true_eq]
      omega
  refine hsorted.imp ?_
  intro a b hle
  rw [decide_eq_true_eq] at hle
  omega

theorem Grounded.loadBlockIndexDB (grounded : Grounded s) (hashBestBlock : Uint256) :
    Grounded (s.loadBlockIndexDB env hashBestBlock) := by
  have hread : Grounded s.readEntries := by
    constructor
    case root => exact grounded.root
    case parent => exact grounded.parent
    case counted =>
      intro x _ hcounted
      exact absurd rfl hcounted
    case candidates =>
      intro x hx
      exact absurd hx List.not_mem_nil
    case unlinked =>
      intro p x hx
      exact absurd hx List.not_mem_nil
  have hloaded :
      Grounded ((s.sortedByHeight env).foldl ChainState.loadEntry s.readEntries) := by
    apply hread.foldl_loadEntry
    · intro x hx
      exact List.mem_mergeSort.mp hx
    · exact pairwise_sortedByHeight
    · intro x _ y _ hcounted
      exact absurd rfl hcounted
  unfold ChainState.loadBlockIndexDB
  dsimp only
  split_ifs
  · exact hloaded.keep ((keeps_setTip _).trans keeps_pruneBlockIndexCandidates)
  · exact hloaded

end

end ChainState

end Lytix
