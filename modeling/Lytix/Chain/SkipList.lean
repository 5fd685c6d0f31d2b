import Lytix.Chain.NewBlocks
import Lytix.Lib.SkipLists

/-! The skip list of the block index. `BuildSkip` sets the pointer of an entry once, when the entry
is added, and `GetAncestor` relies on it. -/
namespace Lytix
open Ancestry SkipLists

namespace ChainState

variable (s : ChainState)

/-- The loop of `GetAncestor`. It has no result if a pointer that it follows is null, or if it does
not end in the rounds given. -/
def walkBack (height rounds : ℕ) (pindexWalk : Uint256) (heightWalk : ℕ) : Option Uint256 :=
  walk s.pprev s.pskip getSkipHeight followsSkip height rounds pindexWalk heightWalk

/-- The entries form a forest, and `pskip` of an entry points to its ancestor at `GetSkipHeight`. -/
def Skips : Prop :=
  SkipForest s.pprev s.pskip (fun x => (s.index x).nHeight) getSkipHeight {x | x ∈ s.mapBlockIndex}

/-- The block index after `AddToBlockIndex` of some blocks. -/
def addBlocks (blocks : List CBlock) : ChainState := blocks.foldl addToBlockIndex s

section
variable {env : ChainEnv} {s : ChainState} {block : CBlock} {x a : Uint256}
  {height rounds heightWalk : ℕ}

theorem le_of_followsSkip (h : followsSkip height heightWalk = true) :
    height ≤ getSkipHeight heightWalk := by
  simp only [followsSkip, Bool.or_eq_true, decide_eq_true_eq, Bool.and_eq_true] at h
  rcases h with heq | ⟨habove, -⟩
  · exact heq.ge
  · exact habove.le

/-- A walk that ends is the walk of `GetAncestor`. -/
theorem ancestorWalk_of_walkBack (h : s.walkBack height rounds x heightWalk = some a) :
    s.ancestorWalk height rounds x heightWalk = some a := by
  unfold walkBack at h
  induction rounds generalizing x heightWalk with
  | zero =>
    rw [walk] at h
    split_ifs at h
    exact h
  | succ rounds ih =>
    rw [walk] at h
    rw [ancestorWalk]
    split_ifs at h ⊢ with hdone hskip
    · exact h
    · obtain ⟨q, hq, hrest⟩ := Option.bind_eq_some_iff.mp h
      exact Option.bind_eq_some_iff.mpr ⟨q, hq, ih hrest⟩
    · obtain ⟨p, hp, hrest⟩ := Option.bind_eq_some_iff.mp h
      exact Option.bind_eq_some_iff.mpr ⟨p, hp, ih hrest⟩

theorem Skips.walkBack_eq (skips : Skips s) (hx : x ∈ s.mapBlockIndex)
    (hheight : height ≤ (s.index x).nHeight) :
    s.walkBack height (s.index x).nHeight x (s.index x).nHeight =
      up s.pprev ((s.index x).nHeight - height) x :=
  SkipForest.walk_eq skips (fun _ => getSkipHeight_lt) (fun _ => le_of_followsSkip) hx hheight
    (Nat.le_add_left _ _)

/-- `GetAncestor` finds the entry that the way over the predecessors leads to. -/
theorem Skips.getAncestor_eq (skips : Skips s) (hx : x ∈ s.mapBlockIndex)
    (hheight : height ≤ (s.index x).nHeight) :
    s.getAncestor x height = up s.pprev ((s.index x).nHeight - height) x := by
  obtain ⟨a, ha, -⟩ := skips.up_exists hx (Nat.sub_le (s.index x).nHeight height)
  have hwalk := skips.walkBack_eq hx hheight
  rw [ha] at hwalk
  rw [getAncestor, if_neg (not_lt.mpr hheight), ancestorWalk_of_walkBack hwalk, ha]

/-- A new entry keeps the ways back from the others. -/
theorem Skips.up_addToBlockIndex (skips : Skips s) (hnew : block.hash ∉ s.mapBlockIndex)
    (hx : x ∈ s.mapBlockIndex) (n : ℕ) :
    up (s.addToBlockIndex block).pprev n x = up s.pprev n x := by
  apply up_congr
  intro z hz
  exact pprev_addToBlockIndex_of_mem hnew (skips.mem_of_isAncestor hx hz)

/-- An entry without a predecessor. -/
theorem addToBlockIndex_root (hnew : block.hash ∉ s.mapBlockIndex)
    (hprev : block.hashPrevBlock ∉ s.mapBlockIndex) :
    (s.addToBlockIndex block).pprev block.hash = none ∧
      ((s.addToBlockIndex block).index block.hash).nHeight = 0 := by
  unfold addToBlockIndex ChainState.pprev
  rw [if_neg hnew, if_neg hprev]
  simp

/-- `AddToBlockIndex` sets `pskip` of the new entry to its ancestor, and keeps the others. -/
theorem Skips.addToBlockIndex (skips : Skips s) (block : CBlock) :
    Skips (s.addToBlockIndex block) := by
  by_cases hnew : block.hash ∈ s.mapBlockIndex
  · unfold ChainState.addToBlockIndex
    rw [if_pos hnew]
    exact skips
  have hmap := (addToBlockIndex_rest hnew).1
  constructor
  · constructor
    · intro x hx p hp
      rw [Set.mem_ofPred_eq, hmap, List.mem_cons] at hx
      rw [Set.mem_ofPred_eq, hmap]
      rcases hx with rfl | hx
      · by_cases hprev : block.hashPrevBlock ∈ s.mapBlockIndex
        · rw [ChainState.pprev, index_addToBlockIndex_self hnew hprev] at hp
          rw [← Option.some.inj hp, index_addToBlockIndex_self hnew hprev,
            index_addToBlockIndex_of_mem hnew hprev]
          exact ⟨List.mem_cons_of_mem _ hprev, rfl⟩
        · rw [(addToBlockIndex_root hnew hprev).1] at hp
          contradiction
      · rw [pprev_addToBlockIndex_of_mem hnew hx] at hp
        obtain ⟨hmem, hheight⟩ := skips.parent_mem x hx p hp
        rw [index_addToBlockIndex_of_mem hnew hx, index_addToBlockIndex_of_mem hnew hmem]
        exact ⟨List.mem_cons_of_mem _ hmem, hheight⟩
    · intro x hx hp
      rw [Set.mem_ofPred_eq, hmap, List.mem_cons] at hx
      rcases hx with rfl | hx
      · by_cases hprev : block.hashPrevBlock ∈ s.mapBlockIndex
        · rw [ChainState.pprev, index_addToBlockIndex_self hnew hprev] at hp
          contradiction
        · exact (addToBlockIndex_root hnew hprev).2
      · rw [pprev_addToBlockIndex_of_mem hnew hx] at hp
        rw [index_addToBlockIndex_of_mem hnew hx]
        exact skips.root x hx hp
  · intro x hx hheight
    rw [Set.mem_ofPred_eq, hmap, List.mem_cons] at hx
    rcases hx with rfl | hx
    · by_cases hprev : block.hashPrevBlock ∈ s.mapBlockIndex
      · have hself := index_addToBlockIndex_self hnew hprev
        have hparent : (s.addToBlockIndex block).pprev block.hash = some block.hashPrevBlock := by
          rw [ChainState.pprev, hself]
        have hlt := @getSkipHeight_lt ((s.index block.hashPrevBlock).nHeight + 1) (by omega)
        have hle := Nat.le_of_lt_succ hlt
        rw [pskip_addToBlockIndex_self hnew hprev, skips.getAncestor_eq hprev hle, hself]
        dsimp only
        rw [Nat.sub_add_comm hle, up, hparent, Option.bind_some,
          skips.up_addToBlockIndex hnew hprev]
      · exact absurd (addToBlockIndex_root hnew hprev).2 hheight
    · rw [index_addToBlockIndex_of_mem hnew hx] at hheight ⊢
      rw [pskip_addToBlockIndex_of_mem hnew hx, skips.up_addToBlockIndex hnew hx]
      exact skips.skip x hx hheight

theorem skips_empty : Skips {} :=
  ⟨⟨fun _ hx => absurd hx List.not_mem_nil, fun _ hx => absurd hx List.not_mem_nil⟩,
    fun _ hx => absurd hx List.not_mem_nil⟩

theorem Skips.addBlocks (skips : Skips s) (blocks : List CBlock) : Skips (s.addBlocks blocks) := by
  unfold ChainState.addBlocks
  induction blocks generalizing s with
  | nil => exact skips
  | cons block blocks ih => exact ih (skips.addToBlockIndex block)

/-- In the block index of a node that runs, too. -/
theorem Tree.skips (tree : Tree env s) : Skips s := by
  have forest : Forest s.pprev (fun x => (s.index x).nHeight) {x | x ∈ s.mapBlockIndex} := by
    constructor
    · intro x hx p hp
      obtain ⟨hmem, hheight, -⟩ := tree.of_pprev hx hp
      exact ⟨hmem, hheight⟩
    · intro x hx hp
      rw [tree.eq_genesis hx hp]
      exact tree.genesis_height
  refine ⟨forest, ?_⟩
  intro x hx hheight
  have hne : x ≠ env.hashGenesisBlock := by
    rintro rfl
    exact hheight tree.genesis_height
  obtain ⟨q, hq, hanc, hlevel⟩ := tree.skip x hx hne
  obtain ⟨-, hup⟩ := (forest.isAncestor_iff hx).mp hanc
  rw [hq, ← hlevel]
  exact hup.symm

/-- However the block index grew, `GetAncestor` follows pointers that are not null, comes to an end
and returns the entry that the way over the predecessors leads to. -/
theorem getAncestor_addBlocks (blocks : List CBlock) (hs : addBlocks {} blocks = s)
    (hx : x ∈ s.mapBlockIndex) (hheight : height ≤ (s.index x).nHeight) :
    ∃ a, up s.pprev ((s.index x).nHeight - height) x = some a ∧ (s.index a).nHeight = height ∧
      s.walkBack height (s.index x).nHeight x (s.index x).nHeight = some a ∧
      s.getAncestor x height = some a := by
  have skips : Skips s := by
    rw [← hs]
    exact skips_empty.addBlocks blocks
  obtain ⟨a, ha, -, hsum⟩ := skips.up_exists hx (Nat.sub_le (s.index x).nHeight height)
  refine ⟨a, ha, by omega, ?_, ?_⟩
  · rw [skips.walkBack_eq hx hheight]
    exact ha
  · rw [skips.getAncestor_eq hx hheight]
    exact ha

end

/-- A block of the hash `nHeight + 1` on the one of the hash `nHeight`. -/
def stackedBlock (nHeight : ℕ) : CBlock :=
  { hash := nHeight + 1, hashPrevBlock := nHeight, nVersion := 4, hashMerkleRoot := 0, nTime := 0,
    nBits := 0, nNonce := 0, nAccumulatorCheckpoint := 0, vtx := [] }

theorem getAncestor_addBlocks_stacked : ∃ a,
    up (addBlocks {} ((List.range 5).map stackedBlock)).pprev 3 5 = some a ∧
      ((addBlocks {} ((List.range 5).map stackedBlock)).index a).nHeight = 1 ∧
      (addBlocks {} ((List.range 5).map stackedBlock)).walkBack 1 4 5 4 = some a ∧
      (addBlocks {} ((List.range 5).map stackedBlock)).getAncestor 5 1 = some a :=
  @getAncestor_addBlocks _ 5 1 ((List.range 5).map stackedBlock) rfl (by decide) (by decide)

end ChainState

end Lytix
