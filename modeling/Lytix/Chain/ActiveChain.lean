import Lytix.Chain.ChainInvariant

/-! What the operations leave of the entries, and how blocks are connected to the active chain and
disconnected from it. -/
namespace Lytix
open Ancestry

namespace ChainState

/-- The tree of the entries has not changed. -/
structure SameTree (s s' : ChainState) : Prop where
  mapBlockIndex : s'.mapBlockIndex = s.mapBlockIndex
  pskip : s'.pskip = s.pskip
  pprev : ∀ x, s'.pprev x = s.pprev x
  height : ∀ x, (s'.index x).nHeight = (s.index x).nHeight
  work : ∀ x, (s'.index x).nChainWork = (s.index x).nChainWork
  bits : ∀ x, (s'.index x).nBits = (s.index x).nBits

/-- Neither has the data of the blocks. -/
structure SameData (s s' : ChainState) : Prop extends SameTree s s' where
  mapBlocksUnlinked : s'.mapBlocksUnlinked = s.mapBlocksUnlinked
  haveData : ∀ x, (s'.index x).nStatus.haveData = (s.index x).nStatus.haveData
  nTx : ∀ x, (s'.index x).nTx = (s.index x).nTx
  nChainTx : ∀ x, (s'.index x).nChainTx = (s.index x).nChainTx
  sequence : ∀ x, (s'.index x).nSequenceId = (s.index x).nSequenceId
  valid : ∀ x ∈ s.mapBlockIndex, (s.index x).nStatus.valid ≤ (s'.index x).nStatus.valid ∧
    (BLOCK_VALID_TRANSACTIONS ≤ (s'.index x).nStatus.valid →
      BLOCK_VALID_TRANSACTIONS ≤ (s.index x).nStatus.valid)

/-- An entry with other failure flags. -/
def withFailed (entry : CBlockIndex) (failedValid failedChild : Bool) : CBlockIndex :=
  { entry with nStatus :=
      { entry.nStatus with failedValid := failedValid, failedChild := failedChild } }

/-- At most the failure flags, the active chain and the candidates have changed. -/
structure OnlyFlags (s s' : ChainState) : Prop where
  mapBlockIndex : s'.mapBlockIndex = s.mapBlockIndex
  pskip : s'.pskip = s.pskip
  mapBlocksUnlinked : s'.mapBlocksUnlinked = s.mapBlocksUnlinked
  entry : ∀ x, ∃ failedValid failedChild,
    s'.index x = withFailed (s.index x) failedValid failedChild

/-- Every block of the active chain stands at its height, on its predecessor. -/
structure Placed (s : ChainState) : Prop where
  path : Linked s.pprev s.chainActive
  heights : ∀ i x, s.chainActive[i]? = some x → (s.index x).nHeight = i

section
variable {env : ChainEnv} {s s' s'' : ChainState} {x y p t fork : Uint256}
  {queue lower above : List Uint256}

theorem index_modify (change : CBlockIndex → CBlockIndex) :
    (s.modify p change).index x = if x = p then change (s.index p) else s.index x :=
  Function.update_apply _ _ _ _

theorem mem_insertCandidate :
    y ∈ (s.insertCandidate x).setBlockIndexCandidates ↔ y = x ∨ y ∈ s.setBlockIndexCandidates := by
  unfold insertCandidate
  dsimp only
  split_ifs with hmem
  · constructor
    · intro hy
      exact Or.inr hy
    · rintro (rfl | hy)
      · exact hmem
      · exact hy
  · exact List.mem_cons

theorem mem_eraseCandidates : y ∈ (s.eraseCandidates above).setBlockIndexCandidates ↔
    y ∈ s.setBlockIndexCandidates ∧ y ∉ above := by
  unfold eraseCandidates
  dsimp only
  rw [List.mem_filter, Bool.not_eq_true', List.contains_eq_mem, decide_eq_false_iff_not]

theorem SameTree.pprev_eq (h : SameTree s s') : s'.pprev = s.pprev := funext h.pprev

theorem Tree.same (tree : Tree env s) (h : SameTree s s') : Tree env s' where
  genesis_mem := by
    rw [h.mapBlockIndex]
    exact tree.genesis_mem
  genesis_pprev := (h.pprev _).trans tree.genesis_pprev
  genesis_height := (h.height _).trans tree.genesis_height
  parent := by
    intro x hx hne
    rw [h.mapBlockIndex] at hx
    obtain ⟨p, hp, hparent, hheight, hwork⟩ := tree.parent x hx hne
    refine ⟨p, ?_, (h.pprev x).trans hparent, ?_, ?_⟩
    · rw [h.mapBlockIndex]
      exact hp
    · rw [h.height, h.height]
      exact hheight
    · rw [h.work, h.work, h.bits]
      exact hwork
  skip := by
    intro x hx hne
    rw [h.mapBlockIndex] at hx
    obtain ⟨q, hq, hanc, hheight⟩ := tree.skip x hx hne
    rw [h.pskip, h.pprev_eq, h.height]
    refine ⟨q, hq, hanc, ?_⟩
    rw [h.height]
    exact hheight

theorem Data.same (data : Data queue s) (h : SameData s s') : Data queue s' where
  stored := by
    intro x hx
    rw [h.mapBlockIndex] at hx
    obtain ⟨hdata, htransactions, htree⟩ := data.stored x hx
    obtain ⟨hle, hdown⟩ := h.valid x hx
    rw [h.haveData, h.nTx]
    refine ⟨hdata, ⟨?_, ?_⟩, htree.trans hle⟩
    · intro hvalid
      exact htransactions.mp (hdown hvalid)
    · intro hpos
      exact (htransactions.mpr hpos).trans hle
  grows := by
    intro x hx hdata p hp
    rw [h.mapBlockIndex] at hx
    rw [h.haveData] at hdata
    rw [h.pprev] at hp
    rw [h.work, h.work]
    exact data.grows x hx hdata p hp
  linked := by
    intro x hx hqueue
    rw [h.mapBlockIndex] at hx
    rw [h.nChainTx, h.haveData, data.linked x hx hqueue]
    simp only [h.pprev, h.nChainTx]
  queued := by
    intro x hx
    obtain ⟨hmem, huncounted, hdata, hparent⟩ := data.queued x hx
    rw [h.mapBlockIndex, h.nChainTx, h.haveData]
    refine ⟨hmem, huncounted, hdata, ?_⟩
    intro p hp
    rw [h.pprev] at hp
    rw [h.nChainTx]
    exact hparent p hp
  queue_nodup := data.queue_nodup
  sequence := by
    intro x hx huncounted
    rw [h.mapBlockIndex] at hx
    rw [h.nChainTx] at huncounted
    rw [h.sequence]
    exact data.sequence x hx huncounted
  unlinked := by
    intro p x
    rw [h.mapBlocksUnlinked, h.mapBlockIndex, h.pprev, h.haveData, h.nChainTx]
    exact data.unlinked p x
  unlinked_nodup := by
    rw [h.mapBlocksUnlinked]
    exact data.unlinked_nodup

theorem SameData.worse_eq (h : SameData s s') : s'.worse env x y = s.worse env x y := by
  unfold worse
  simp only [h.work, h.sequence]

theorem OnlyFlags.sameData (h : OnlyFlags s s') : SameData s s' := by
  have hentry := h.entry
  refine ⟨⟨h.mapBlockIndex, h.pskip, ?_, ?_, ?_, ?_⟩, h.mapBlocksUnlinked, ?_, ?_, ?_, ?_, ?_⟩
  · intro x
    obtain ⟨v, w, heq⟩ := hentry x
    unfold ChainState.pprev
    rw [heq]
    rfl
  all_goals
    intro x
    obtain ⟨v, w, heq⟩ := hentry x
    rw [heq]
  · rfl
  · rfl
  · rfl
  · rfl
  · rfl
  · rfl
  · rfl
  · intro _
    exact ⟨le_rfl, id⟩

theorem OnlyFlags.valid_eq (h : OnlyFlags s s') (x : Uint256) :
    (s'.index x).nStatus.valid = (s.index x).nStatus.valid := by
  obtain ⟨v, w, heq⟩ := h.entry x
  rw [heq]
  rfl

theorem OnlyFlags.trans (h : OnlyFlags s s') (h' : OnlyFlags s' s'') : OnlyFlags s s'' where
  mapBlockIndex := h'.mapBlockIndex.trans h.mapBlockIndex
  pskip := h'.pskip.trans h.pskip
  mapBlocksUnlinked := h'.mapBlocksUnlinked.trans h.mapBlocksUnlinked
  entry := by
    intro x
    obtain ⟨v, w, heq⟩ := h.entry x
    obtain ⟨v', w', heq'⟩ := h'.entry x
    refine ⟨v', w', ?_⟩
    rw [heq', heq]
    rfl

/-- Flags that are set keep the status right if every block they are set on is above a failure. -/
theorem Status.raise (status : Status env s) (h : OnlyFlags s s')
    (hkept : ∀ x, (s.index x).nStatus.failedValid = true → (s'.index x).nStatus.failedValid = true)
    (hraised : ∀ x ∈ s.mapBlockIndex, (s'.index x).nStatus.failed = true →
      (s.index x).nStatus.failed = true ∨
        ∃ a, IsAncestor s.pprev a x ∧ (s'.index a).nStatus.failedValid = true) :
    Status env s' where
  failed := by
    intro x hx hfailed
    rw [h.mapBlockIndex] at hx
    rw [h.sameData.pprev_eq]
    rcases hraised x hx hfailed with hold | hnew
    · obtain ⟨a, hanc, ha⟩ := status.failed x hx hold
      exact ⟨a, hanc, hkept a ha⟩
    · exact hnew
  scripts := by
    intro x hx
    rw [h.mapBlockIndex] at hx
    rw [h.valid_eq, h.sameData.pprev_eq]
    simp only [h.valid_eq]
    exact status.scripts x hx

/-! The active chain. -/

theorem Chained.placed (chained : Chained env s) (tree : Tree env s) : Placed s where
  path := chained.path
  heights := by
    intro i
    induction i with
    | zero =>
      intro x hx
      have hgenesis := chained.genesis
      rw [List.head?_eq_getElem?, hx] at hgenesis
      rw [Option.some.inj hgenesis]
      exact tree.genesis_height
    | succ i ih =>
      intro x hx
      have hlt := (List.getElem?_eq_some_iff.mp hx).1
      have hp : s.chainActive[i]? = some s.chainActive[i] := List.getElem?_eq_getElem (by omega)
      have hparent := linked_parent_succ chained.path hx
      have hmem := (chained.blocks x (List.mem_of_getElem? hx)).1
      rw [(tree.of_pprev hmem (hparent.trans hp)).2.1, ih _ hp]

theorem Placed.contains_iff (placed : Placed s) : s.contains x = true ↔ x ∈ s.chainActive := by
  unfold contains
  rw [beq_iff_eq]
  constructor
  · intro hx
    exact List.mem_of_getElem? hx
  · intro hx
    obtain ⟨i, hi⟩ := List.mem_iff_getElem?.mp hx
    rw [placed.heights i x hi]
    exact hi

theorem Placed.parent_mem (placed : Placed s) (hx : x ∈ s.chainActive) (hp : s.pprev x = some p) :
    p ∈ s.chainActive := by
  obtain ⟨i, hi⟩ := List.mem_iff_getElem?.mp hx
  cases i with
  | zero =>
    rw [linked_parent_zero placed.path hi] at hp
    contradiction
  | succ i =>
    rw [linked_parent_succ placed.path hi] at hp
    exact List.mem_of_getElem? hp

theorem Placed.ancestor_mem (placed : Placed s) (hx : x ∈ s.chainActive)
    (ha : IsAncestor s.pprev y x) : y ∈ s.chainActive := by
  induction ha with
  | refl => exact hx
  | tail _ hparent ih => exact placed.parent_mem ih hparent

theorem Placed.isAncestor_tip (placed : Placed s) (hx : x ∈ s.chainActive)
    (ht : s.tip = some t) : IsAncestor s.pprev x t := by
  have hlast : s.chainActive[s.chainActive.length - 1]? = some t := by
    rw [← List.getLast?_eq_getElem?]
    exact ht
  obtain ⟨i, hi⟩ := List.mem_iff_getElem?.mp hx
  have hlt := (List.getElem?_eq_some_iff.mp hi).1
  exact linked_getElem?_isAncestor placed.path hlast (by omega) hi

theorem Placed.below (placed : Placed s) (hc : s.chainActive = lower ++ above) :
    Placed { s with chainActive := lower } where
  path := by
    intro i x hx
    have hlt : i < lower.length := (List.getElem?_eq_some_iff.mp hx).1
    have hx' : s.chainActive[i]? = some x := by
      rw [hc, List.getElem?_append_left hlt]
      exact hx
    have hparent := placed.path i x hx'
    rw [hc, List.getElem?_append_left (by omega)] at hparent
    exact hparent
  heights := by
    intro i x hx
    have hlt := (List.getElem?_eq_some_iff.mp hx).1
    apply placed.heights i x
    rw [hc, List.getElem?_append_left hlt]
    exact hx

theorem Placed.notMem_of_mem (placed : Placed s) (hc : s.chainActive = lower ++ above)
    (hx : x ∈ above) : x ∉ lower := by
  intro hmem
  obtain ⟨i, hi⟩ := List.mem_iff_getElem?.mp hmem
  obtain ⟨j, hj⟩ := List.mem_iff_getElem?.mp hx
  have hlt := (List.getElem?_eq_some_iff.mp hi).1
  have hlow : s.chainActive[i]? = some x := by
    rw [hc, List.getElem?_append_left hlt]
    exact hi
  have hhigh : s.chainActive[lower.length + j]? = some x := by
    rw [hc, List.getElem?_append_right (by omega), Nat.add_sub_cancel_left]
    exact hj
  have heq := (placed.heights _ x hlow).symm.trans (placed.heights _ x hhigh)
  omega

theorem Placed.onlyFlags (placed : Placed s) (h : OnlyFlags s s')
    (hc : s'.chainActive = s.chainActive) : Placed s' where
  path := by
    rw [hc, h.sameData.pprev_eq]
    exact placed.path
  heights := by
    intro i x hx
    rw [hc] at hx
    rw [h.sameData.height]
    exact placed.heights i x hx

theorem Placed.height_of_append (placed : Placed s) (hc : s.chainActive = lower ++ x :: above) :
    (s.index x).nHeight = lower.length := by
  apply placed.heights
  rw [hc, List.getElem?_append_right le_rfl, Nat.sub_self]
  rfl

theorem Placed.disconnectTip_eq (placed : Placed s) (hc : s.chainActive = lower ++ [t]) :
    s.disconnectTip = { s with chainActive := lower } := by
  have htip : s.tip = some t := by
    unfold tip
    rw [hc, List.getLast?_append]
    rfl
  have hheight := placed.height_of_append hc
  have ht : s.chainActive[lower.length]? = some t := by
    rw [hc, List.getElem?_append_right le_rfl, Nat.sub_self]
    rfl
  have hparent := placed.path _ t ht
  unfold disconnectTip
  rw [htip, Option.bind_some, hparent]
  by_cases hnil : lower.length = 0
  · rw [if_pos hnil, List.length_eq_zero_iff.mp hnil]
    rfl
  · have hp : s.chainActive[lower.length - 1]? = some lower[lower.length - 1] := by
      rw [hc, List.getElem?_append_left (by omega)]
      exact List.getElem?_eq_getElem (by omega)
    have hcontains := placed.contains_iff.mpr (List.mem_of_getElem? hp)
    rw [if_neg hnil, hp]
    unfold setTip
    dsimp only
    unfold fillChain
    rw [if_pos hcontains, placed.heights _ _ hp, List.append_nil, hc]
    have hsucc : lower.length - 1 + 1 = lower.length := by omega
    rw [hsucc, List.take_left]

/-- A block on top of the tip is connected. -/
theorem Placed.setTip_child (placed : Placed s) (ht : s.tip = some t) (hp : s.pprev x = some t)
    (hheight : (s.index x).nHeight = (s.index t).nHeight + 1) :
    s.setTip (some x) = { s with chainActive := s.chainActive ++ [x] } := by
  have hlast : s.chainActive[s.chainActive.length - 1]? = some t := by
    rw [← List.getLast?_eq_getElem?]
    exact ht
  have hlt := (List.getElem?_eq_some_iff.mp hlast).1
  have htheight := placed.heights _ t hlast
  have hoff : ¬ s.contains x = true := by
    unfold contains
    rw [List.getElem?_eq_none (by omega)]
    exact Bool.false_ne_true
  have hon := placed.contains_iff.mpr (List.mem_of_getElem? hlast)
  have htake : s.chainActive.take ((s.index t).nHeight + 1) = s.chainActive :=
    List.take_of_length_le (by omega)
  unfold setTip
  dsimp only
  rw [hheight]
  unfold fillChain
  rw [if_neg hoff, hp]
  dsimp only
  unfold fillChain
  rw [if_pos hon, htake]

/-- Disconnecting down to a block of the active chain. -/
theorem Placed.disconnectTo_eq (placed : Placed s) (hc : s.chainActive = lower ++ above)
    (hfork : lower.getLast? = some fork) {rounds : ℕ} (hrounds : above.length ≤ rounds) :
    disconnectTo (some fork) rounds s = { s with chainActive := lower } := by
  induction above using List.reverseRecOn generalizing s rounds with
  | nil =>
    rw [List.append_nil] at hc
    have htip : s.tip = some fork := by
      unfold tip
      rw [hc]
      exact hfork
    have hsame : { s with chainActive := lower } = s := by rw [← hc]
    rw [hsame]
    cases rounds with
    | zero => rfl
    | succ rounds =>
      unfold disconnectTo
      rw [if_pos (Or.inr htip)]
  | append_singleton above t ih =>
    rw [List.length_append, List.length_singleton] at hrounds
    rw [← List.append_assoc] at hc
    have htip : s.tip = some t := by
      unfold tip
      rw [hc, List.getLast?_append]
      rfl
    have hne : t ≠ fork := by
      rintro rfl
      have hlast : lower[lower.length - 1]? = some t := by
        rw [← List.getLast?_eq_getElem?]
        exact hfork
      have hlt := (List.getElem?_eq_some_iff.mp hlast).1
      have hlow : s.chainActive[lower.length - 1]? = some t := by
        rw [hc, List.append_assoc, List.getElem?_append_left hlt]
        exact hlast
      have hheight := placed.height_of_append hc
      rw [placed.heights _ t hlow, List.length_append] at hheight
      omega
    obtain ⟨rounds, rfl⟩ : ∃ n, rounds = n + 1 := ⟨rounds - 1, by omega⟩
    unfold disconnectTo
    rw [htip, if_neg (by simp [hne]), placed.disconnectTip_eq hc]
    exact ih (placed.below hc) rfl (by omega)

end

end ChainState

end Lytix
