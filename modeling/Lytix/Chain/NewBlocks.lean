import Lytix.Chain.ActiveChain

/-! New entries and new data: `AddToBlockIndex` and `ReceivedBlockTransactions` leave the block index
settled, in whatever order headers and data come. -/
namespace Lytix
open Ancestry

namespace ChainState

/-! A new entry on top of a known one. -/
section
variable {env : ChainEnv} {s : ChainState} {block : CBlock} {x y a p : Uint256}

theorem index_addToBlockIndex_of_mem (hnew : block.hash ∉ s.mapBlockIndex)
    (hy : y ∈ s.mapBlockIndex) : (s.addToBlockIndex block).index y = s.index y := by
  have hne : y ≠ block.hash := by
    rintro rfl
    exact hnew hy
  unfold addToBlockIndex
  rw [if_neg hnew]
  exact Function.update_of_ne hne _ _

theorem index_addToBlockIndex_self (hnew : block.hash ∉ s.mapBlockIndex)
    (hprev : block.hashPrevBlock ∈ s.mapBlockIndex) :
    (s.addToBlockIndex block).index block.hash =
      { pprev := some block.hashPrevBlock
        nHeight := (s.index block.hashPrevBlock).nHeight + 1
        nVersion := block.nVersion
        nTime := block.nTime
        nBits := block.nBits
        nAccumulatorCheckpoint := block.nAccumulatorCheckpoint
        nChainWork :=
          ((s.index block.hashPrevBlock).nChainWork + getBlockProof block.nBits) % 2 ^ 256
        nStatus := { valid := BLOCK_VALID_TREE } } := by
  unfold addToBlockIndex
  rw [if_neg hnew, if_pos hprev]
  exact Function.update_self _ _ _

theorem pprev_addToBlockIndex_of_mem (hnew : block.hash ∉ s.mapBlockIndex)
    (hy : y ∈ s.mapBlockIndex) : (s.addToBlockIndex block).pprev y = s.pprev y := by
  unfold ChainState.pprev
  rw [index_addToBlockIndex_of_mem hnew hy]

theorem pskip_addToBlockIndex_of_mem (hnew : block.hash ∉ s.mapBlockIndex)
    (hy : y ∈ s.mapBlockIndex) : (s.addToBlockIndex block).pskip y = s.pskip y := by
  have hne : y ≠ block.hash := by
    rintro rfl
    exact hnew hy
  unfold addToBlockIndex
  rw [if_neg hnew]
  exact Function.update_of_ne hne _ _

theorem pskip_addToBlockIndex_self (hnew : block.hash ∉ s.mapBlockIndex)
    (hprev : block.hashPrevBlock ∈ s.mapBlockIndex) :
    (s.addToBlockIndex block).pskip block.hash = s.getAncestor block.hashPrevBlock
      (getSkipHeight ((s.index block.hashPrevBlock).nHeight + 1)) := by
  unfold addToBlockIndex
  rw [if_neg hnew, if_pos hprev]
  exact Function.update_self _ _ _

theorem addToBlockIndex_rest (hnew : block.hash ∉ s.mapBlockIndex) :
    (s.addToBlockIndex block).mapBlockIndex = block.hash :: s.mapBlockIndex ∧
    (s.addToBlockIndex block).chainActive = s.chainActive ∧
    (s.addToBlockIndex block).setBlockIndexCandidates = s.setBlockIndexCandidates ∧
    (s.addToBlockIndex block).mapBlocksUnlinked = s.mapBlocksUnlinked := by
  unfold addToBlockIndex
  rw [if_neg hnew]
  exact ⟨rfl, rfl, rfl, rfl⟩

theorem Tree.isAncestor_addToBlockIndex (tree : Tree env s) (hnew : block.hash ∉ s.mapBlockIndex)
    (hx : x ∈ s.mapBlockIndex) (ha : IsAncestor s.pprev a x) :
    IsAncestor (s.addToBlockIndex block).pprev a x := by
  refine (isAncestor_congr ?_).mpr ha
  intro z hz
  exact pprev_addToBlockIndex_of_mem hnew (tree.of_ancestor hx hz).1

theorem Tree.addToBlockIndex (tree : Tree env s) (hnew : block.hash ∉ s.mapBlockIndex)
    (hprev : block.hashPrevBlock ∈ s.mapBlockIndex)
    (hwork : (s.index block.hashPrevBlock).nChainWork + getBlockProof block.nBits < 2 ^ 256) :
    Tree env (s.addToBlockIndex block) := by
  have hmap := (addToBlockIndex_rest hnew).1
  have hself := index_addToBlockIndex_self hnew hprev
  have hparent : (s.addToBlockIndex block).pprev block.hash = some block.hashPrevBlock := by
    unfold ChainState.pprev
    rw [hself]
  constructor
  case genesis_mem =>
    rw [hmap]
    exact List.mem_cons_of_mem _ tree.genesis_mem
  case genesis_pprev =>
    rw [pprev_addToBlockIndex_of_mem hnew tree.genesis_mem]
    exact tree.genesis_pprev
  case genesis_height =>
    rw [index_addToBlockIndex_of_mem hnew tree.genesis_mem]
    exact tree.genesis_height
  case parent =>
    intro x hx hne
    rw [hmap] at hx ⊢
    rcases List.mem_cons.mp hx with rfl | hx
    · refine ⟨_, List.mem_cons_of_mem _ hprev, hparent, ?_⟩
      rw [hself, index_addToBlockIndex_of_mem hnew hprev]
      exact ⟨rfl, Nat.mod_eq_of_lt hwork⟩
    · obtain ⟨p, hp, hrest⟩ := tree.parent x hx hne
      refine ⟨p, List.mem_cons_of_mem _ hp, ?_⟩
      rw [pprev_addToBlockIndex_of_mem hnew hx, index_addToBlockIndex_of_mem hnew hx,
        index_addToBlockIndex_of_mem hnew hp]
      exact hrest
  case skip =>
    intro x hx hne
    rw [hmap] at hx
    rcases List.mem_cons.mp hx with rfl | hx
    · have hskip := @getSkipHeight_lt ((s.index block.hashPrevBlock).nHeight + 1) (by omega)
      obtain ⟨q, hq, hanc, hheight⟩ := tree.getAncestor_spec hprev (Nat.le_of_lt_succ hskip)
      have hanc' := tree.isAncestor_addToBlockIndex hnew hprev hanc
      rw [pskip_addToBlockIndex_self hnew hprev, hself]
      refine ⟨q, hq, hanc'.trans (IsAncestor.of_parent hparent), ?_⟩
      rw [index_addToBlockIndex_of_mem hnew (tree.of_ancestor hprev hanc).1]
      exact hheight
    · obtain ⟨q, hq, hanc, hheight⟩ := tree.skip x hx hne
      rw [pskip_addToBlockIndex_of_mem hnew hx, index_addToBlockIndex_of_mem hnew hx]
      refine ⟨q, hq, tree.isAncestor_addToBlockIndex hnew hx hanc, ?_⟩
      rw [index_addToBlockIndex_of_mem hnew (tree.of_ancestor hx hanc).1]
      exact hheight

theorem Data.addToBlockIndex (data : Data [] s) (tree : Tree env s)
    (hnew : block.hash ∉ s.mapBlockIndex) (hprev : block.hashPrevBlock ∈ s.mapBlockIndex) :
    Data [] (s.addToBlockIndex block) := by
  obtain ⟨hmap, -, -, hunlinked⟩ := addToBlockIndex_rest hnew
  have hself := index_addToBlockIndex_self hnew hprev
  have hparent : ∀ z ∈ s.mapBlockIndex, ∀ p, s.pprev z = some p →
      (s.addToBlockIndex block).index p = s.index p := by
    intro z hz p hp
    exact index_addToBlockIndex_of_mem hnew (tree.of_pprev hz hp).1
  constructor
  case stored =>
    intro x hx
    rw [hmap] at hx
    rcases List.mem_cons.mp hx with rfl | hx
    · rw [hself]
      simp [BLOCK_VALID_TRANSACTIONS, BLOCK_VALID_TREE]
    · rw [index_addToBlockIndex_of_mem hnew hx]
      exact data.stored x hx
  case grows =>
    intro x hx hdata p hp
    rw [hmap] at hx
    rcases List.mem_cons.mp hx with rfl | hx
    · rw [hself] at hdata
      contradiction
    · rw [pprev_addToBlockIndex_of_mem hnew hx] at hp
      rw [index_addToBlockIndex_of_mem hnew hx] at hdata ⊢
      rw [hparent x hx p hp]
      exact data.grows x hx hdata p hp
  case linked =>
    intro x hx _
    rw [hmap] at hx
    rcases List.mem_cons.mp hx with rfl | hx
    · rw [hself]
      simp
    · rw [index_addToBlockIndex_of_mem hnew hx, data.linked x hx List.not_mem_nil]
      apply and_congr_right
      intro _
      rw [pprev_addToBlockIndex_of_mem hnew hx]
      apply forall₂_congr
      intro p hp
      rw [hparent x hx p hp]
  case queued =>
    intro x hx
    exact absurd hx List.not_mem_nil
  case queue_nodup => exact List.nodup_nil
  case sequence =>
    intro x hx huncounted
    rw [hmap] at hx
    rcases List.mem_cons.mp hx with rfl | hx
    · rw [hself]
    · rw [index_addToBlockIndex_of_mem hnew hx] at huncounted ⊢
      exact data.sequence x hx huncounted
  case unlinked =>
    intro p x
    rw [hunlinked, hmap, data.unlinked, List.mem_cons]
    constructor
    · rintro ⟨hx, hqueue, hp, hdata⟩
      rw [pprev_addToBlockIndex_of_mem hnew hx, index_addToBlockIndex_of_mem hnew hx]
      exact ⟨Or.inr hx, hqueue, hp, hdata⟩
    · rintro ⟨rfl | hx, hqueue, hp, hdata⟩
      · rw [hself] at hdata
        exact absurd hdata.1 Bool.false_ne_true
      · rw [pprev_addToBlockIndex_of_mem hnew hx] at hp
        rw [index_addToBlockIndex_of_mem hnew hx] at hdata
        exact ⟨hx, hqueue, hp, hdata⟩
  case unlinked_nodup =>
    rw [hunlinked]
    exact data.unlinked_nodup

theorem Status.addToBlockIndex (status : Status env s) (tree : Tree env s)
    (hnew : block.hash ∉ s.mapBlockIndex) (hprev : block.hashPrevBlock ∈ s.mapBlockIndex) :
    Status env (s.addToBlockIndex block) := by
  have hmap := (addToBlockIndex_rest hnew).1
  have hself := index_addToBlockIndex_self hnew hprev
  constructor
  case failed =>
    intro x hx hfailed
    rw [hmap] at hx
    rcases List.mem_cons.mp hx with rfl | hx
    · rw [hself] at hfailed
      contradiction
    · rw [index_addToBlockIndex_of_mem hnew hx] at hfailed
      obtain ⟨a, hanc, ha⟩ := status.failed x hx hfailed
      refine ⟨a, tree.isAncestor_addToBlockIndex hnew hx hanc, ?_⟩
      rw [index_addToBlockIndex_of_mem hnew (tree.of_ancestor hx hanc).1]
      exact ha
  case scripts =>
    intro x hx hvalid
    rw [hmap] at hx
    rcases List.mem_cons.mp hx with rfl | hx
    · rw [hself] at hvalid
      contradiction
    · rw [index_addToBlockIndex_of_mem hnew hx] at hvalid ⊢
      obtain ⟨hscripts, hparents⟩ := status.scripts x hx hvalid
      refine ⟨hscripts, ?_⟩
      intro p hp hne
      rw [pprev_addToBlockIndex_of_mem hnew hx] at hp
      rw [index_addToBlockIndex_of_mem hnew (tree.of_pprev hx hp).1]
      exact hparents p hp hne

theorem worse_addToBlockIndex (hnew : block.hash ∉ s.mapBlockIndex) (hx : x ∈ s.mapBlockIndex)
    (hy : y ∈ s.mapBlockIndex) :
    (s.addToBlockIndex block).worse env x y = s.worse env x y := by
  unfold worse
  rw [index_addToBlockIndex_of_mem hnew hx, index_addToBlockIndex_of_mem hnew hy]

theorem tip_addToBlockIndex (hnew : block.hash ∉ s.mapBlockIndex) :
    (s.addToBlockIndex block).tip = s.tip := by
  unfold tip
  rw [(addToBlockIndex_rest hnew).2.1]

theorem Chained.addToBlockIndex (chained : Chained env s) (hnew : block.hash ∉ s.mapBlockIndex) :
    Chained env (s.addToBlockIndex block) := by
  obtain ⟨hmap, hchain, hcandidates, -⟩ := addToBlockIndex_rest hnew
  constructor
  case genesis =>
    rw [hchain]
    exact chained.genesis
  case path =>
    rw [hchain]
    intro i x hx
    rw [pprev_addToBlockIndex_of_mem hnew (chained.blocks x (List.mem_of_getElem? hx)).1]
    exact chained.path i x hx
  case blocks =>
    intro x hx
    rw [hchain] at hx
    obtain ⟨hmem, hcounted, hscripts⟩ := chained.blocks x hx
    rw [hmap, index_addToBlockIndex_of_mem hnew hmem]
    exact ⟨List.mem_cons_of_mem _ hmem, hcounted, hscripts⟩
  case candidates =>
    intro x hx
    rw [hcandidates] at hx
    obtain ⟨hmem, hcounted, hnotworse⟩ := chained.candidates x hx
    rw [hmap, index_addToBlockIndex_of_mem hnew hmem, tip_addToBlockIndex hnew]
    refine ⟨List.mem_cons_of_mem _ hmem, hcounted, ?_⟩
    intro tip ht
    rw [worse_addToBlockIndex hnew hmem (chained.tip_mem ht)]
    exact hnotworse tip ht

/-- A header on a known one leaves the block index settled, if the work fits in 256 bits. -/
theorem Settled.addToBlockIndex (settled : Settled env s)
    (hprev : block.hashPrevBlock ∈ s.mapBlockIndex)
    (hwork : block.hash ∉ s.mapBlockIndex →
      (s.index block.hashPrevBlock).nChainWork + getBlockProof block.nBits < 2 ^ 256) :
    Settled env (s.addToBlockIndex block) := by
  by_cases hnew : block.hash ∈ s.mapBlockIndex
  · have hsame : s.addToBlockIndex block = s := by
      unfold ChainState.addToBlockIndex
      rw [if_pos hnew]
    rw [hsame]
    exact settled
  obtain ⟨hmap, hchain, hcandidates, -⟩ := addToBlockIndex_rest hnew
  constructor
  case toSound =>
    refine ⟨settled.tree.addToBlockIndex hnew hprev (hwork hnew),
      settled.data.addToBlockIndex settled.tree hnew hprev,
      settled.status.addToBlockIndex settled.tree hnew hprev,
      settled.chained.addToBlockIndex hnew, ?_⟩
    intro x hx
    rw [hchain] at hx
    rw [index_addToBlockIndex_of_mem hnew (settled.chained.blocks x hx).1]
    exact settled.clear x hx
  case complete =>
    intro tip ht x hx hcounted hclear hnotworse
    rw [tip_addToBlockIndex hnew] at ht
    rw [hmap] at hx
    rw [hcandidates]
    rcases List.mem_cons.mp hx with rfl | hx
    · rw [index_addToBlockIndex_self hnew hprev] at hcounted
      exact absurd rfl hcounted
    · rw [index_addToBlockIndex_of_mem hnew hx] at hcounted hclear
      rw [worse_addToBlockIndex hnew hx (settled.chained.tip_mem ht)] at hnotworse
      exact settled.complete tip ht x hx hcounted hclear hnotworse

end

end ChainState

end Lytix
