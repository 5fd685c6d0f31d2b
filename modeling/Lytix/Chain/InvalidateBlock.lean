import Lytix.Chain.ReceivedBlocks

/-! `InvalidateBlock` and `ReconsiderBlock`. The first leaves the block index settled whatever block
it is about; the second does if no block below the one it is about has failed. -/
namespace Lytix
open Ancestry

namespace ChainState

/-- The blocks of `cut` have failed, left the active chain `c`, and are no candidates. -/
structure Cut (s s' : ChainState) (c cut : List Uint256) : Prop where
  flags : OnlyFlags s s'
  chain : s'.chainActive = c
  failedValid : ∀ y, (s'.index y).nStatus.failedValid = (s.index y).nStatus.failedValid
  failed : ∀ y, (s'.index y).nStatus.failed = true ↔ (s.index y).nStatus.failed = true ∨ y ∈ cut
  candidates : ∀ y, y ∈ s'.setBlockIndexCandidates ↔ y ∈ s.setBlockIndexCandidates ∧ y ∉ cut

/-- What `InvalidateBlock` does to a block `x`: the active chain is cut below it, and its new end is
`tip`. -/
structure Invalidated (env : ChainEnv) (s s' : ChainState) (x tip : Uint256)
    (c cut : List Uint256) : Prop where
  split : s.chainActive = c ++ cut
  last : c.getLast? = some tip
  notMem : x ∉ c
  above : ∀ y ∈ cut, IsAncestor s.pprev x y
  flags : OnlyFlags s s'
  chain : s'.chainActive = c
  failedValid : ∀ y, (s'.index y).nStatus.failedValid = true ↔
    (s.index y).nStatus.failedValid = true ∨ y = x
  failed : ∀ y, (s'.index y).nStatus.failed = true ↔
    (s.index y).nStatus.failed = true ∨ y = x ∨ y ∈ cut
  candidates : ∀ y, y ∈ s'.setBlockIndexCandidates ↔
    (y ∈ s.setBlockIndexCandidates ∧ y ≠ x ∧ y ∉ cut) ∨
      (y ∈ s.mapBlockIndex ∧ (s'.index y).isValid BLOCK_VALID_TRANSACTIONS = true ∧
        (s.index y).nChainTx ≠ 0 ∧ s.worse env y tip = false)

section
variable {env : ChainEnv} {s s' s'' : ChainState} {x y p t tip : Uint256} {c above : List Uint256}

theorem foldl_insertCandidate (l : List Uint256) : ∃ candidates,
    l.foldl insertCandidate s = { s with setBlockIndexCandidates := candidates } ∧
      ∀ y, y ∈ candidates ↔ y ∈ s.setBlockIndexCandidates ∨ y ∈ l := by
  induction l generalizing s with
  | nil => exact ⟨s.setBlockIndexCandidates, rfl, fun y => by simp⟩
  | cons x l ih =>
    obtain ⟨candidates, heq, hmem⟩ := @ih (s.insertCandidate x)
    refine ⟨candidates, heq, ?_⟩
    intro y
    rw [hmem, mem_insertCandidate, List.mem_cons]
    tauto

theorem insertCandidates_eq (test : Uint256 → Bool) : ∃ candidates,
    s.insertCandidates test = { s with setBlockIndexCandidates := candidates } ∧
      ∀ y, y ∈ candidates ↔
        y ∈ s.setBlockIndexCandidates ∨ y ∈ s.mapBlockIndex ∧ test y = true := by
  obtain ⟨candidates, heq, hmem⟩ := @foldl_insertCandidate s (s.mapBlockIndex.filter test)
  refine ⟨candidates, heq, ?_⟩
  intro y
  rw [hmem, List.mem_filter]

theorem OnlyFlags.refl (s : ChainState) : OnlyFlags s s :=
  ⟨rfl, rfl, rfl, fun _ => ⟨_, _, rfl⟩⟩

theorem onlyFlags_modify {change : CBlockIndex → CBlockIndex}
    (hchange : ∀ entry, ∃ v w, change entry = withFailed entry v w) :
    OnlyFlags s (s.modify x change) := by
  refine ⟨rfl, rfl, rfl, ?_⟩
  intro y
  rw [index_modify]
  split_ifs with heq
  · rw [heq]
    exact hchange _
  · exact ⟨_, _, rfl⟩

/-- One round of the loop of `InvalidateBlock`. -/
theorem Placed.cut_tip (placed : Placed s) (hc : s.chainActive = c ++ [t]) :
    Cut s ((s.modify t setFailedChild).eraseCandidates [t]).disconnectTip c [t] := by
  have hflags : OnlyFlags s ((s.modify t setFailedChild).eraseCandidates [t]) := by
    have hmodify : OnlyFlags s (s.modify t setFailedChild) := onlyFlags_modify
      fun entry => ⟨_, _, rfl⟩
    exact ⟨rfl, rfl, rfl, hmodify.entry⟩
  have hplaced := placed.onlyFlags hflags rfl
  rw [hplaced.disconnectTip_eq hc]
  have hindex : ∀ y, (s.modify t setFailedChild).index y =
      if y = t then setFailedChild (s.index t) else s.index y := fun y => index_modify _
  constructor
  case flags => exact ⟨rfl, rfl, rfl, hflags.entry⟩
  case chain => rfl
  case failedValid =>
    intro y
    have hy := hindex y
    show ((s.modify t setFailedChild).index y).nStatus.failedValid = _
    rw [hy]
    split_ifs with heq
    · rw [heq]
      rfl
    · rfl
  case failed =>
    intro y
    show ((s.modify t setFailedChild).index y).nStatus.failed = true ↔ _
    rw [hindex y, List.mem_singleton]
    split_ifs with heq
    · simp [heq, setFailedChild, BlockStatus.failed]
    · simp [heq]
  case candidates =>
    intro y
    exact mem_eraseCandidates

theorem Cut.trans {cut cut' c' : List Uint256} (h : Cut s s' c cut) (h' : Cut s' s'' c' cut') :
    Cut s s'' c' (cut' ++ cut) where
  flags := h.flags.trans h'.flags
  chain := h'.chain
  failedValid := fun y => (h'.failedValid y).trans (h.failedValid y)
  failed := by
    intro y
    rw [h'.failed, h.failed, List.mem_append]
    tauto
  candidates := by
    intro y
    rw [h'.candidates, h.candidates, List.mem_append]
    tauto

theorem Cut.placed {cut : List Uint256} (h : Cut s s' c cut) (placed : Placed s)
    (hc : s.chainActive = c ++ cut) : Placed s' :=
  (placed.below hc).onlyFlags ⟨h.flags.mapBlockIndex, h.flags.pskip, h.flags.mapBlocksUnlinked,
    h.flags.entry⟩ h.chain

theorem Placed.disconnectFrom_of_notMem (placed : Placed s) (hx : x ∉ s.chainActive) {rounds : ℕ} :
    disconnectFrom x rounds s = s := by
  cases rounds with
  | zero => rfl
  | succ rounds =>
    unfold disconnectFrom
    rw [if_neg fun h => hx (placed.contains_iff.mp h)]

/-- The loop of `InvalidateBlock` cuts the active chain below the block. -/
theorem Placed.cut_disconnectFrom (placed : Placed s) (hc : s.chainActive = c ++ x :: above)
    {rounds : ℕ} (hrounds : above.length < rounds) :
    Cut s (disconnectFrom x rounds s) c (x :: above) := by
  induction above using List.reverseRecOn generalizing s rounds with
  | nil =>
    obtain ⟨rounds, rfl⟩ : ∃ n, rounds = n + 1 := ⟨rounds - 1, by omega⟩
    have hcontains : s.contains x = true := placed.contains_iff.mpr (by simp [hc])
    have htip : s.tip = some x := by
      unfold tip
      rw [hc, List.getLast?_append]
      rfl
    have hcut := placed.cut_tip hc
    have hoff : x ∉ (((s.modify x setFailedChild).eraseCandidates [x]).disconnectTip).chainActive := by
      rw [hcut.chain]
      exact placed.notMem_of_mem hc (List.mem_singleton_self x)
    unfold disconnectFrom
    rw [if_pos hcontains, htip]
    dsimp only
    rw [(hcut.placed placed hc).disconnectFrom_of_notMem hoff]
    exact hcut
  | append_singleton above t ih =>
    obtain ⟨rounds, rfl⟩ : ∃ n, rounds = n + 1 := ⟨rounds - 1, by omega⟩
    rw [List.length_append, List.length_singleton] at hrounds
    have hcontains : s.contains x = true := placed.contains_iff.mpr (by simp [hc])
    rw [← List.cons_append, ← List.append_assoc] at hc
    have htip : s.tip = some t := by
      unfold tip
      rw [hc, List.getLast?_append]
      rfl
    have hcut := placed.cut_tip hc
    have hlt : above.length < rounds := by omega
    have hrest := ih (hcut.placed placed hc) hcut.chain hlt
    unfold disconnectFrom
    rw [if_pos hcontains, htip]
    exact hcut.trans hrest

theorem index_setFailedValid : (s.modify x setFailedValid).index y =
    if y = x then setFailedValid (s.index x) else s.index y :=
  index_modify _

/-- The active chain ends below the block, if the block is on it. -/
theorem Placed.exists_cut (placed : Placed s) (x : Uint256) : ∃ c cut,
    s.chainActive = c ++ cut ∧ x ∉ c ∧ (∀ y ∈ cut, IsAncestor s.pprev x y) ∧
      Cut s (disconnectFrom x s.chainActive.length s) c cut := by
  by_cases hx : x ∈ s.chainActive
  · obtain ⟨c, above, hc⟩ := List.append_of_mem hx
    refine ⟨c, x :: above, hc, placed.notMem_of_mem hc List.mem_cons_self, ?_, ?_⟩
    · intro y hy
      obtain ⟨j, hj⟩ := List.mem_iff_getElem?.mp hy
      have hxc : s.chainActive[c.length]? = some x := by
        rw [hc, List.getElem?_append_right le_rfl, Nat.sub_self]
        rfl
      have hyc : s.chainActive[c.length + j]? = some y := by
        rw [hc, List.getElem?_append_right (by omega), Nat.add_sub_cancel_left]
        exact hj
      exact linked_getElem?_isAncestor placed.path hyc (by omega) hxc
    · apply placed.cut_disconnectFrom hc
      rw [hc, List.length_append, List.length_cons]
      omega
  · rw [placed.disconnectFrom_of_notMem hx]
    refine ⟨s.chainActive, [], (List.append_nil _).symm, hx, ?_, ?_⟩
    · intro y hy
      exact absurd hy List.not_mem_nil
    · refine ⟨OnlyFlags.refl _, rfl, fun _ => rfl, ?_, ?_⟩
      · intro y
        simp
      · intro y
        simp

theorem Placed.invalidateBlock (placed : Placed s) (h : s.invalidateBlock env x = some s') :
    ∃ tip c cut, Invalidated env s s' x tip c cut := by
  unfold ChainState.invalidateBlock at h
  dsimp only at h
  generalize hfailed : (s.modify x setFailedValid).eraseCandidates [x] = failed at h
  have hindex : ∀ y, failed.index y =
      if y = x then setFailedValid (s.index x) else s.index y := by
    intro y
    rw [← hfailed]
    exact index_setFailedValid
  have hflags : OnlyFlags s failed := by
    have hmodify : OnlyFlags s (s.modify x setFailedValid) := onlyFlags_modify
      fun entry => ⟨_, _, rfl⟩
    rw [← hfailed]
    exact ⟨rfl, rfl, rfl, hmodify.entry⟩
  have hchain : failed.chainActive = s.chainActive := by
    rw [← hfailed]
    rfl
  obtain ⟨c, cut, hc, hxc, hbelow, hcut⟩ := (placed.onlyFlags hflags hchain).exists_cut x
  generalize disconnectFrom x failed.chainActive.length failed = disconnected at h hcut
  obtain ⟨tip, htip, hs'⟩ := Option.map_eq_some_iff.mp h
  obtain ⟨candidates, heq, hmem⟩ := @insertCandidates_eq disconnected fun y =>
    (disconnected.index y).isValid BLOCK_VALID_TRANSACTIONS &&
      decide ((disconnected.index y).nChainTx ≠ 0) && !disconnected.worse env y tip
  rw [heq] at hs'
  have hall := hflags.trans hcut.flags
  have hindex' : s'.index = disconnected.index := by rw [← hs']
  refine ⟨tip, c, cut, ?_⟩
  constructor
  case split => exact hchain.symm.trans hc
  case last =>
    rw [← hcut.chain]
    exact htip
  case notMem => exact hxc
  case above =>
    rw [← hflags.sameData.pprev_eq]
    exact hbelow
  case flags =>
    rw [← hs']
    exact ⟨hall.mapBlockIndex, hall.pskip, hall.mapBlocksUnlinked, hall.entry⟩
  case chain =>
    rw [← hs']
    exact hcut.chain
  case failedValid =>
    intro y
    rw [hindex', hcut.failedValid, hindex]
    split_ifs with heqx
    · simp [heqx, setFailedValid]
    · simp [heqx]
  case failed =>
    intro y
    rw [hindex', hcut.failed, hindex]
    split_ifs with heqx
    · simp [heqx, setFailedValid, BlockStatus.failed]
    · simp [heqx]
  case candidates =>
    intro y
    have hy : y ∈ s'.setBlockIndexCandidates ↔ y ∈ candidates := by rw [← hs']
    have hold : y ∈ failed.setBlockIndexCandidates ↔ y ∈ s.setBlockIndexCandidates ∧ y ≠ x := by
      rw [← hfailed, mem_eraseCandidates, List.mem_singleton]
      rfl
    rw [hy, hmem, hcut.candidates, hold, hindex', hall.mapBlockIndex]
    simp only [Bool.and_eq_true, decide_eq_true_eq, Bool.not_eq_true', hall.sameData.worse_eq,
      hall.sameData.nChainTx, and_assoc]

/-- Whatever block is declared invalid, the block index is left settled. -/
theorem Settled.invalidateBlock (settled : Settled env s)
    (h : s.invalidateBlock env x = some s') : Settled env s' := by
  have placed := settled.chained.placed settled.tree
  obtain ⟨tip, c, cut, hs'⟩ := placed.invalidateBlock h
  have hsame := hs'.flags.sameData
  have hsub : ∀ y ∈ c, y ∈ s.chainActive := by
    intro y hy
    rw [hs'.split]
    exact List.mem_append_left _ hy
  have htip' : s'.tip = some tip := by
    unfold ChainState.tip
    rw [hs'.chain]
    exact hs'.last
  have htipmem : tip ∈ s.chainActive := hsub tip (List.mem_of_getLast? hs'.last)
  obtain ⟨tipOld, htipOld, htipOldmem⟩ := settled.chained.tip_eq
  obtain ⟨hOldmem, hOldcounted, -⟩ := settled.chained.blocks tipOld htipOldmem
  have hnotworse : s.worse env tipOld tip = false :=
    settled.data.not_worse_of_ancestor settled.tree hOldmem hOldcounted
      (placed.isAncestor_tip htipmem htipOld)
  have hclear : ∀ y ∈ c, (s'.index y).nStatus.failed = false := by
    intro y hy
    rw [← Bool.not_eq_true, hs'.failed, settled.clear y (hsub y hy)]
    rintro (hfalse | rfl | hcut)
    · contradiction
    · exact hs'.notMem hy
    · exact placed.notMem_of_mem hs'.split hcut hy
  constructor
  case toSound =>
    constructor
    case tree => exact settled.tree.same hsame.toSameTree
    case data => exact settled.data.same hsame
    case status =>
      apply settled.status.raise hs'.flags
      · intro y hy
        exact (hs'.failedValid y).mpr (Or.inl hy)
      · intro y _ hy
        have hself := (hs'.failedValid x).mpr (Or.inr rfl)
        rcases (hs'.failed y).mp hy with hold | rfl | hcut
        · exact Or.inl hold
        · exact Or.inr ⟨y, IsAncestor.refl _ _, hself⟩
        · exact Or.inr ⟨x, hs'.above y hcut, hself⟩
    case chained =>
      constructor
      case genesis =>
        have hgenesis := settled.chained.genesis
        have hne : c ≠ [] := by
          intro hnil
          have hlast := hs'.last
          rw [hnil] at hlast
          contradiction
        rw [hs'.split, List.head?_append_of_ne_nil _ hne] at hgenesis
        rw [hs'.chain]
        exact hgenesis
      case path =>
        rw [hs'.chain, hsame.pprev_eq]
        exact (placed.below hs'.split).path
      case blocks =>
        intro y hy
        rw [hs'.chain] at hy
        rw [hsame.mapBlockIndex, hsame.nChainTx, hs'.flags.valid_eq]
        exact settled.chained.blocks y (hsub y hy)
      case candidates =>
        intro y hy
        rw [hsame.mapBlockIndex, hsame.nChainTx, htip']
        have hworse : ∀ t, s.worse env y tip = false → some tip = some t →
            s'.worse env y t = false := by
          intro t hy ht
          rw [hsame.worse_eq, ← Option.some.inj ht]
          exact hy
        rcases (hs'.candidates y).mp hy with ⟨hold, -, -⟩ | ⟨hmem, -, hcounted, hnew⟩
        · obtain ⟨hmem, hcounted, hbest⟩ := settled.chained.candidates y hold
          refine ⟨hmem, hcounted, ?_⟩
          intro t ht
          exact hworse t (not_worse_trans (hbest tipOld htipOld) hnotworse) ht
        · refine ⟨hmem, hcounted, ?_⟩
          intro t ht
          exact hworse t hnew ht
    case clear =>
      intro y hy
      rw [hs'.chain] at hy
      exact hclear y hy
  case complete =>
    intro t ht y hy hcounted hyclear hbest
    rw [Option.mem_def, htip'] at ht
    rw [hsame.mapBlockIndex] at hy
    rw [hsame.nChainTx] at hcounted
    rw [hsame.worse_eq, ← Option.some.inj ht] at hbest
    have hvalid : (s'.index y).isValid BLOCK_VALID_TRANSACTIONS = true := by
      have hdata := ((settled.data.linked y hy List.not_mem_nil).mp hcounted).1
      obtain ⟨hstored, htransactions, -⟩ := settled.data.stored y hy
      unfold CBlockIndex.isValid
      rw [hyclear, hs'.flags.valid_eq, decide_eq_true (htransactions.mpr (hstored.mp hdata))]
      rfl
    exact (hs'.candidates y).mpr (Or.inr ⟨hy, hvalid, hcounted, hbest⟩)

/-! `ReconsiderBlock`. -/

/-- What `ReconsiderBlock` does to a block `x`: it clears all blocks above and below, and only those
above it that had failed become candidates. -/
structure Reconsidered (env : ChainEnv) (s s' : ChainState) (x : Uint256) : Prop where
  flags : OnlyFlags s s'
  chain : s'.chainActive = s.chainActive
  failed : ∀ y ∈ s.mapBlockIndex, ((s'.index y).nStatus.failed = true ↔
    (s.index y).nStatus.failed = true ∧ ¬ IsAncestor s.pprev x y ∧ ¬ IsAncestor s.pprev y x)
  failedValid : ∀ y ∈ s.mapBlockIndex, ((s'.index y).nStatus.failedValid = true ↔
    (s.index y).nStatus.failedValid = true ∧ ¬ IsAncestor s.pprev x y ∧ ¬ IsAncestor s.pprev y x)
  candidates : ∀ y, y ∈ s'.setBlockIndexCandidates ↔ y ∈ s.setBlockIndexCandidates ∨
    (y ∈ s.mapBlockIndex ∧ IsAncestor s.pprev x y ∧ (s.index y).nStatus.failed = true ∧
      BLOCK_VALID_TRANSACTIONS ≤ (s.index y).nStatus.valid ∧ (s.index y).nChainTx ≠ 0 ∧
        ∃ tip ∈ s.tip, s.worse env tip y = true)

theorem onlyFlags_clearWhere (test : Uint256 → Bool) : OnlyFlags s (s.clearWhere test) := by
  refine ⟨rfl, rfl, rfl, ?_⟩
  intro y
  unfold clearWhere
  dsimp only
  split_ifs
  · exact ⟨_, _, rfl⟩
  · exact ⟨_, _, rfl⟩

theorem failed_clearWhere (test : Uint256 → Bool) :
    ((s.clearWhere test).index y).nStatus.failed = true ↔
      (s.index y).nStatus.failed = true ∧ test y = false := by
  unfold clearWhere
  dsimp only
  split_ifs with htest
  · simp [htest, clearFailed, BlockStatus.failed]
  · simp [htest]

theorem failedValid_clearWhere (test : Uint256 → Bool) :
    ((s.clearWhere test).index y).nStatus.failedValid = true ↔
      (s.index y).nStatus.failedValid = true ∧ test y = false := by
  unfold clearWhere
  dsimp only
  split_ifs with htest
  · simp [htest, clearFailed]
  · simp [htest]

theorem failed_of_failedValid (h : (s.index y).nStatus.failedValid = true) :
    (s.index y).nStatus.failed = true := by
  unfold BlockStatus.failed
  rw [h]
  rfl

theorem isValid_iff {entry : CBlockIndex} {nUpTo : ℕ} : entry.isValid nUpTo = true ↔
    entry.nStatus.failed = false ∧ nUpTo ≤ entry.nStatus.valid := by
  unfold CBlockIndex.isValid
  rw [Bool.and_eq_true, Bool.not_eq_true', decide_eq_true_eq]

theorem Tree.reconsiderBlock (tree : Tree env s) (hx : x ∈ s.mapBlockIndex) :
    Reconsidered env s (s.reconsiderBlock env x) x := by
  have hiff : ∀ y, s.reconsidered x y = true ↔ y ∈ s.mapBlockIndex ∧
      (s.index y).isValid BLOCK_VALID_TRANSACTIONS = false ∧ IsAncestor s.pprev x y := by
    intro y
    unfold reconsidered
    simp only [Bool.and_eq_true, decide_eq_true_eq, Bool.not_eq_true', beq_iff_eq, and_assoc]
    apply and_congr_right
    intro hy
    rw [tree.getAncestor_eq_some hy]
  unfold ChainState.reconsiderBlock
  dsimp only
  generalize s.reconsidered x = reconsidered at *
  have hflags : OnlyFlags s (s.clearWhere reconsidered) := onlyFlags_clearWhere reconsidered
  have hfailed := fun y => @failed_clearWhere s y reconsidered
  have hfailedValid := fun y => @failedValid_clearWhere s y reconsidered
  have hrest : (s.clearWhere reconsidered).chainActive = s.chainActive ∧
      (s.clearWhere reconsidered).setBlockIndexCandidates = s.setBlockIndexCandidates ∧
      (s.clearWhere reconsidered).tip = s.tip := ⟨rfl, rfl, rfl⟩
  generalize s.clearWhere reconsidered = cleared at *
  obtain ⟨hchain, hcandidates, htip⟩ := hrest
  obtain ⟨candidates, heq, hmem⟩ := @insertCandidates_eq cleared fun y =>
    reconsidered y && (cleared.index y).isValid BLOCK_VALID_TRANSACTIONS &&
      decide ((cleared.index y).nChainTx ≠ 0) &&
        cleared.tip.any fun tip => cleared.worse env tip y
  rw [heq]
  generalize hinserted : ({ cleared with setBlockIndexCandidates := candidates } : ChainState) =
    inserted
  have hflags' : OnlyFlags s inserted := by
    rw [← hinserted]
    exact ⟨hflags.mapBlockIndex, hflags.pskip, hflags.mapBlocksUnlinked, hflags.entry⟩
  have hindex : inserted.index = cleared.index := by rw [← hinserted]
  have hancestors : ∀ y, y ∈ inserted.ancestors ((s.index x).nHeight + 1) x ↔
      IsAncestor s.pprev y x := by
    intro y
    have htree := tree.same hflags'.sameData.toSameTree
    have hx' : x ∈ inserted.mapBlockIndex := by
      rw [hflags'.mapBlockIndex]
      exact hx
    rw [htree.mem_ancestors hx' (by rw [hflags'.sameData.height]; omega),
      hflags'.sameData.pprev_eq]
  have hcontains : ∀ y, (inserted.ancestors ((s.index x).nHeight + 1) x).contains y = false ↔
      ¬ IsAncestor s.pprev y x := by
    intro y
    rw [List.contains_eq_mem, decide_eq_false_iff_not, hancestors]
  have hunreconsidered : ∀ y ∈ s.mapBlockIndex, (s.index y).nStatus.failed = true →
      (reconsidered y = false ↔ ¬ IsAncestor s.pprev x y) := by
    intro y hy hyfailed
    have hinvalid : (s.index y).isValid BLOCK_VALID_TRANSACTIONS = false := by
      unfold CBlockIndex.isValid
      rw [hyfailed]
      rfl
    rw [← Bool.not_eq_true, hiff]
    simp only [hy, hinvalid, true_and]
  constructor
  case flags => exact hflags'.trans (onlyFlags_clearWhere _)
  case chain =>
    rw [← hinserted]
    exact hchain
  case failed =>
    intro y hy
    rw [failed_clearWhere, hindex, hfailed, hcontains, and_assoc]
    apply and_congr_right
    intro hyfailed
    rw [hunreconsidered y hy hyfailed]
  case failedValid =>
    intro y hy
    rw [failedValid_clearWhere, hindex, hfailedValid, hcontains, and_assoc]
    apply and_congr_right
    intro hyfailed
    rw [hunreconsidered y hy (failed_of_failedValid hyfailed)]
  case candidates =>
    intro y
    have hy : y ∈ (inserted.clearWhere
        (inserted.ancestors ((s.index x).nHeight + 1) x).contains).setBlockIndexCandidates ↔
          y ∈ candidates := by
      rw [← hinserted]
      rfl
    rw [hy, hmem, hcandidates, hflags.mapBlockIndex]
    simp only [Bool.and_eq_true, decide_eq_true_eq, hiff, htip, hflags.sameData.nChainTx,
      hflags.sameData.worse_eq, Option.any_eq_true, isValid_iff, hflags.valid_eq]
    apply or_congr_right
    constructor
    · rintro ⟨hy, ⟨⟨⟨-, hinvalid, hanc⟩, -, hvalid⟩, hcounted⟩, hworse⟩
      have hyfailed : (s.index y).nStatus.failed = true := by
        by_contra hclear
        have htrue := isValid_iff.mpr ⟨eq_false_of_ne_true hclear, hvalid⟩
        rw [hinvalid] at htrue
        contradiction
      exact ⟨hy, hanc, hyfailed, hvalid, hcounted, hworse⟩
    · rintro ⟨hy, hanc, hyfailed, hvalid, hcounted, hworse⟩
      have hinvalid : (s.index y).isValid BLOCK_VALID_TRANSACTIONS = false := by
        rw [← Bool.not_eq_true, isValid_iff, hyfailed]
        intro h
        exact Bool.noConfusion h.1
      have hclear : (cleared.index y).nStatus.failed = false := by
        rw [← Bool.not_eq_true, hfailed, ← Bool.not_eq_true, hiff]
        intro h
        exact h.2 ⟨hy, hinvalid, hanc⟩
      exact ⟨hy, ⟨⟨⟨hy, hinvalid, hanc⟩, hclear, hvalid⟩, hcounted⟩, hworse⟩

/-- `ReconsiderBlock` may clear the blocks below: each that has to be a candidate is one already, and
each block beside that stays failed has a failure that is not cleared. -/
structure ReconsiderSafe (env : ChainEnv) (s : ChainState) (pindex : Uint256) : Prop where
  candidates : ∀ a ∈ s.pathTo pindex, a ≠ pindex → (s.index a).nChainTx ≠ 0 →
    ∀ tip ∈ s.tip, s.worse env a tip = false → a ∈ s.setBlockIndexCandidates
  failed : ∀ y ∈ s.mapBlockIndex, (s.index y).nStatus.failed = true → pindex ∉ s.pathTo y →
    y ∉ s.pathTo pindex →
      ∃ a ∈ s.pathTo y, (s.index a).nStatus.failedValid = true ∧ a ∉ s.pathTo pindex

/-- If `ReconsiderBlock` is safe, the block index is left settled. -/
theorem Settled.reconsiderBlock (settled : Settled env s) (hx : x ∈ s.mapBlockIndex)
    (hsafe : ReconsiderSafe env s x) : Settled env (s.reconsiderBlock env x) := by
  have hs' := settled.tree.reconsiderBlock hx
  generalize s.reconsiderBlock env x = s' at hs' ⊢
  have hsame := hs'.flags.sameData
  have htip : s'.tip = s.tip := by
    unfold ChainState.tip
    rw [hs'.chain]
  have hkept : ∀ y ∈ s.mapBlockIndex, (s.index y).nStatus.failed = false →
      (s'.index y).nStatus.failed = false := by
    intro y hy hclear
    rw [← Bool.not_eq_true, hs'.failed y hy, hclear]
    intro h
    exact Bool.noConfusion h.1
  constructor
  case toSound =>
    constructor
    case tree => exact settled.tree.same hsame.toSameTree
    case data => exact settled.data.same hsame
    case status =>
      constructor
      case failed =>
        intro y hy hfailed
        rw [hsame.mapBlockIndex] at hy
        rw [hsame.pprev_eq]
        obtain ⟨hold, habove, hbelow⟩ := (hs'.failed y hy).mp hfailed
        rw [← settled.tree.mem_pathTo hy] at habove
        rw [← settled.tree.mem_pathTo hx] at hbelow
        obtain ⟨a, hanc, ha, hstays⟩ := hsafe.failed y hy hold habove hbelow
        rw [settled.tree.mem_pathTo hy] at hanc habove
        rw [settled.tree.mem_pathTo hx] at hstays
        refine ⟨a, hanc, (hs'.failedValid a (settled.tree.of_ancestor hy hanc).1).mpr
          ⟨ha, ?_, hstays⟩⟩
        intro h
        exact habove (h.trans hanc)
      case scripts =>
        intro y hy
        rw [hsame.mapBlockIndex] at hy
        rw [hsame.pprev_eq]
        simp only [hs'.flags.valid_eq]
        exact settled.status.scripts y hy
    case chained =>
      constructor
      case genesis =>
        rw [hs'.chain]
        exact settled.chained.genesis
      case path =>
        rw [hs'.chain, hsame.pprev_eq]
        exact settled.chained.path
      case blocks =>
        intro y hy
        rw [hs'.chain] at hy
        rw [hsame.mapBlockIndex, hsame.nChainTx, hs'.flags.valid_eq]
        exact settled.chained.blocks y hy
      case candidates =>
        intro y hy
        rw [hsame.mapBlockIndex, hsame.nChainTx, htip]
        rcases (hs'.candidates y).mp hy with hold | ⟨hmem, -, -, -, hcounted, tip, ht, hworse⟩
        · obtain ⟨hmem, hcounted, hbest⟩ := settled.chained.candidates y hold
          refine ⟨hmem, hcounted, ?_⟩
          intro t ht
          rw [hsame.worse_eq]
          exact hbest t ht
        · refine ⟨hmem, hcounted, ?_⟩
          intro t ht'
          rw [hsame.worse_eq, ← Option.mem_unique ht ht']
          exact not_worse_of_worse hworse
    case clear =>
      intro y hy
      rw [hs'.chain] at hy
      exact hkept y (settled.chained.blocks y hy).1 (settled.clear y hy)
  case complete =>
    intro t ht y hy hcounted hclear hbest
    rw [htip] at ht
    rw [hsame.mapBlockIndex] at hy
    rw [hsame.nChainTx] at hcounted
    rw [hsame.worse_eq] at hbest
    rw [hs'.candidates]
    by_cases hold : (s.index y).nStatus.failed = false
    · exact Or.inl (settled.complete t ht y hy hcounted hold hbest)
    have hyfailed := eq_true_of_ne_false hold
    by_cases habove : IsAncestor s.pprev x y
    · right
      have hty : t ≠ y := by
        rintro rfl
        rw [settled.clear t (List.mem_of_getLast? ht)] at hyfailed
        contradiction
      have hworse : s.worse env t y = true := by
        by_contra hnot
        exact hty (eq_of_not_worse (eq_false_of_ne_true hnot) hbest)
      have hdata := ((settled.data.linked y hy List.not_mem_nil).mp hcounted).1
      obtain ⟨hstored, htransactions, -⟩ := settled.data.stored y hy
      exact ⟨hy, habove, hyfailed, htransactions.mpr (hstored.mp hdata), hcounted, t, ht, hworse⟩
    · left
      -- a block that is not above is cleared only if it is below
      have hbelow : IsAncestor s.pprev y x := by
        by_contra hnot
        have hfailed := (hs'.failed y hy).mpr ⟨hyfailed, habove, hnot⟩
        rw [hclear] at hfailed
        contradiction
      have hyx : y ≠ x := by
        rintro rfl
        exact habove hbelow
      exact hsafe.candidates y ((settled.tree.mem_pathTo hx).mpr hbelow) hyx hcounted t ht hbest

end

end ChainState

end Lytix
