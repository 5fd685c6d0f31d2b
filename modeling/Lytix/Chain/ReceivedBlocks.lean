import Lytix.Chain.NewBlocks

/-! `ReceivedBlockTransactions`: data may come in any order. A block whose data completes a chain
takes the blocks that wait for it along, and the queue of the loop is the part of the invariant that
is still open. -/
namespace Lytix
open Ancestry

namespace ChainState

/-- The block index in the loop, where the blocks of the queue are still to be counted. -/
structure Linking (env : ChainEnv) (queue : List Uint256) (s : ChainState) : Prop where
  tree : Tree env s
  data : Data queue s
  status : Status env s
  chained : Chained env s
  clear : Clear s
  complete : ∀ tip ∈ s.tip, Complete env s tip

theorem Linking.settled {env : ChainEnv} {s : ChainState} (h : Linking env [] s) : Settled env s :=
  ⟨⟨h.tree, h.data, h.status, h.chained, h.clear⟩, h.complete⟩

/-- The blocks that wait for the data of a block. -/
def waitingFor (s : ChainState) (pindex : Uint256) : List Uint256 :=
  (s.mapBlocksUnlinked.filter fun pair => pair.1 = pindex).map Prod.snd

/-- A block of `nTx` transactions on `p` whose data can be stored. -/
structure Awaited (s : ChainState) (x p : Uint256) (nTx : ℕ) : Prop where
  mem : x ∈ s.mapBlockIndex
  noData : (s.index x).nStatus.haveData = false
  clear : (s.index x).nStatus.failed = false
  parent : s.pprev x = some p
  work : (s.index p).nChainWork < (s.index x).nChainWork
  pos : 0 < nTx

/-- The state after the data is stored, with the blocks that then wait. -/
def stored (s : ChainState) (x : Uint256) (nTx : ℕ) (mapBlocksUnlinked : List (Uint256 × Uint256)) :
    ChainState :=
  { s.modify x (storeData nTx) with mapBlocksUnlinked := mapBlocksUnlinked }

section
variable {env : ChainEnv} {s : ChainState} {x y z p tip : Uint256} {queue : List Uint256} {nTx : ℕ}
  {mapBlocksUnlinked : List (Uint256 × Uint256)}

theorem mem_waitingFor : y ∈ s.waitingFor x ↔ (x, y) ∈ s.mapBlocksUnlinked := by
  unfold waitingFor
  simp only [List.mem_map, List.mem_filter, decide_eq_true_eq]
  constructor
  · rintro ⟨⟨p, q⟩, ⟨hmem, hp⟩, hq⟩
    rw [← hp, ← hq]
    exact hmem
  · intro hmem
    exact ⟨(x, y), ⟨hmem, rfl⟩, rfl⟩

theorem nodup_waitingFor (h : s.mapBlocksUnlinked.Nodup) : (s.waitingFor x).Nodup := by
  unfold waitingFor
  apply List.Nodup.map_on ?_ (h.filter _)
  rintro ⟨p, q⟩ hpq ⟨p', q'⟩ hpq' heq
  have hp := (List.mem_filter.mp hpq).2
  have hp' := (List.mem_filter.mp hpq').2
  rw [decide_eq_true_eq] at hp hp'
  dsimp only at hp hp' heq
  rw [hp, hp', heq]

/-! One round of the loop. -/

theorem index_linkBlock : (s.linkBlock env x).index = (s.countBlock x).index := by
  unfold linkBlock
  dsimp only
  split_ifs
  · rfl
  · rfl

theorem linkBlock_rest : (s.linkBlock env x).mapBlockIndex = s.mapBlockIndex ∧
    (s.linkBlock env x).pskip = s.pskip ∧ (s.linkBlock env x).chainActive = s.chainActive ∧
    (s.linkBlock env x).mapBlocksUnlinked =
      s.mapBlocksUnlinked.filter fun pair => pair.1 ≠ x := by
  unfold linkBlock
  dsimp only
  split_ifs
  · exact ⟨rfl, rfl, rfl, rfl⟩
  · exact ⟨rfl, rfl, rfl, rfl⟩

theorem index_linkBlock_self : (s.linkBlock env x).index x = { s.index x with
    nChainTx := ((s.pprev x).map fun p => (s.index p).nChainTx).getD 0 + (s.index x).nTx
    nSequenceId := s.nBlockSequenceId } := by
  rw [index_linkBlock]
  exact Function.update_self _ _ _

theorem index_linkBlock_of_ne (hne : y ≠ x) : (s.linkBlock env x).index y = s.index y := by
  rw [index_linkBlock]
  exact Function.update_of_ne hne _ _

theorem nStatus_linkBlock : ((s.linkBlock env x).index y).nStatus = (s.index y).nStatus := by
  by_cases hne : y = x
  · rw [hne, index_linkBlock_self]
  · rw [index_linkBlock_of_ne hne]

theorem nTx_linkBlock : ((s.linkBlock env x).index y).nTx = (s.index y).nTx := by
  by_cases hne : y = x
  · rw [hne, index_linkBlock_self]
  · rw [index_linkBlock_of_ne hne]

theorem tip_linkBlock : (s.linkBlock env x).tip = s.tip := by
  unfold tip
  rw [linkBlock_rest.2.2.1]

theorem sameTree_linkBlock : SameTree s (s.linkBlock env x) := by
  have hentry : ∀ y, ((s.linkBlock env x).index y).pprev = (s.index y).pprev ∧
      ((s.linkBlock env x).index y).nHeight = (s.index y).nHeight ∧
      ((s.linkBlock env x).index y).nChainWork = (s.index y).nChainWork ∧
      ((s.linkBlock env x).index y).nBits = (s.index y).nBits := by
    intro y
    by_cases hne : y = x
    · rw [hne, index_linkBlock_self]
      exact ⟨rfl, rfl, rfl, rfl⟩
    · rw [index_linkBlock_of_ne hne]
      exact ⟨rfl, rfl, rfl, rfl⟩
  exact ⟨linkBlock_rest.1, linkBlock_rest.2.1, fun y => (hentry y).1, fun y => (hentry y).2.1,
    fun y => (hentry y).2.2.1, fun y => (hentry y).2.2.2⟩

theorem worse_linkBlock_of_ne (hy : y ≠ x) (hz : z ≠ x) :
    (s.linkBlock env x).worse env y z = s.worse env y z := by
  unfold worse
  rw [index_linkBlock_of_ne hy, index_linkBlock_of_ne hz]

/-- The block becomes a candidate if it is not worse than the tip. -/
theorem mem_candidates_linkBlock : y ∈ (s.linkBlock env x).setBlockIndexCandidates ↔
    y ∈ s.setBlockIndexCandidates ∨
      y = x ∧ ∀ tip ∈ s.tip, (s.linkBlock env x).worse env x tip = false := by
  have hworse : ∀ tip, (s.linkBlock env x).worse env x tip = (s.countBlock x).worse env x tip := by
    intro tip
    unfold worse
    rw [index_linkBlock]
  simp only [hworse]
  unfold linkBlock
  dsimp only
  have htip : (s.countBlock x).tip = s.tip := rfl
  rw [htip]
  split_ifs with htest
  · rw [mem_insertCandidate, Option.all_eq_true] at *
    simp only [Bool.not_eq_true', Option.mem_def] at *
    have hsame : (s.countBlock x).setBlockIndexCandidates = s.setBlockIndexCandidates := rfl
    rw [hsame, or_comm, and_iff_left htest]
  · have hnot : ¬ ∀ tip ∈ s.tip, (s.countBlock x).worse env x tip = false := by
      intro hall
      apply htest
      rw [Option.all_eq_true]
      intro tip ht
      rw [hall tip ht]
      rfl
    constructor
    · intro hy
      exact Or.inl hy
    · rintro (hy | ⟨-, hall⟩)
      · exact hy
      · exact absurd hall hnot

/-- Counting the first block of the queue puts the blocks that wait for it at the end. -/
theorem Data.link (data : Data (x :: queue) s) :
    Data (queue ++ s.waitingFor x) (s.linkBlock env x) := by
  obtain ⟨hmap, -, -, hunlinked⟩ := @linkBlock_rest env s x
  have htree : SameTree s (s.linkBlock env x) := sameTree_linkBlock
  obtain ⟨hxmem, huncounted, hxdata, hxparent⟩ := data.queued x List.mem_cons_self
  obtain ⟨hxqueue, hqueue⟩ := List.nodup_cons.mp data.queue_nodup
  have hxtx : (s.index x).nTx ≠ 0 := by
    have hpos := (data.stored x hxmem).1.mp hxdata
    omega
  have hcountedx : ((s.linkBlock env x).index x).nChainTx ≠ 0 := by
    rw [index_linkBlock_self]
    dsimp only
    omega
  have hcounted : ∀ p, (s.index p).nChainTx ≠ 0 → ((s.linkBlock env x).index p).nChainTx ≠ 0 := by
    intro p hp
    by_cases hpx : p = x
    · rw [hpx]
      exact hcountedx
    · rw [index_linkBlock_of_ne hpx]
      exact hp
  have hwaiting : ∀ y ∈ s.waitingFor x, y ∈ s.mapBlockIndex ∧ y ∉ x :: queue ∧
      s.pprev y = some x ∧ (s.index y).nStatus.haveData = true ∧ (s.index y).nChainTx = 0 := by
    intro y hy
    exact (data.unlinked x y).mp (mem_waitingFor.mp hy)
  constructor
  case stored =>
    intro y hy
    rw [hmap] at hy
    rw [nStatus_linkBlock, nTx_linkBlock]
    exact data.stored y hy
  case grows =>
    intro y hy hdata p hp
    rw [hmap] at hy
    rw [nStatus_linkBlock] at hdata
    rw [htree.pprev] at hp
    rw [htree.work, htree.work]
    exact data.grows y hy hdata p hp
  case linked =>
    intro y hy hyqueue
    rw [hmap] at hy
    rw [List.mem_append, not_or] at hyqueue
    rw [nStatus_linkBlock]
    simp only [htree.pprev]
    by_cases hyx : y = x
    · rw [hyx]
      constructor
      · intro _
        exact ⟨hxdata, fun p hp => hcounted p (hxparent p hp)⟩
      · intro _
        exact hcountedx
    · have hold := data.linked y hy (by simp [hyx, hyqueue.1])
      rw [index_linkBlock_of_ne hyx]
      constructor
      · intro hcountedy
        obtain ⟨hdata, hparents⟩ := hold.mp hcountedy
        exact ⟨hdata, fun p hp => hcounted p (hparents p hp)⟩
      · rintro ⟨hdata, hparents⟩
        by_contra huncountedy
        -- its parent is the block that was just counted, so it waited for it
        have hparents' : ¬ ∀ p, s.pprev y = some p → (s.index p).nChainTx ≠ 0 := by
          intro hall
          exact hold.mpr ⟨hdata, hall⟩ huncountedy
        push Not at hparents'
        obtain ⟨p, hp, hpuncounted⟩ := hparents'
        have hpx : p = x := by
          by_contra hne
          have hpcounted := hparents p hp
          rw [index_linkBlock_of_ne hne] at hpcounted
          exact hpcounted hpuncounted
        rw [hpx] at hp
        apply hyqueue.2
        rw [mem_waitingFor, data.unlinked]
        exact ⟨hy, by simp [hyx, hyqueue.1], hp, hdata, huncountedy⟩
  case queued =>
    intro y hy
    rw [hmap, nStatus_linkBlock]
    simp only [htree.pprev]
    rcases List.mem_append.mp hy with hy | hy
    · obtain ⟨hymem, hyuncounted, hydata, hyparent⟩ := data.queued y (List.mem_cons_of_mem _ hy)
      have hyx : y ≠ x := by
        intro heq
        rw [heq] at hy
        exact hxqueue hy
      rw [index_linkBlock_of_ne hyx]
      exact ⟨hymem, hyuncounted, hydata, fun p hp => hcounted p (hyparent p hp)⟩
    · obtain ⟨hymem, hyqueue, hyparent, hydata, hyuncounted⟩ := hwaiting y hy
      have hyx : y ≠ x := by
        rintro rfl
        exact hyqueue List.mem_cons_self
      rw [index_linkBlock_of_ne hyx]
      refine ⟨hymem, hyuncounted, hydata, ?_⟩
      intro p hp
      rw [Option.some.inj (hp.symm.trans hyparent)]
      exact hcountedx
  case queue_nodup =>
    apply hqueue.append (nodup_waitingFor data.unlinked_nodup)
    intro y hy hy'
    exact (hwaiting y hy').2.1 (List.mem_cons_of_mem _ hy)
  case sequence =>
    intro y hy hyuncounted
    rw [hmap] at hy
    by_cases hyx : y = x
    · rw [hyx] at hyuncounted
      exact absurd hyuncounted hcountedx
    · rw [index_linkBlock_of_ne hyx] at hyuncounted ⊢
      exact data.sequence y hy hyuncounted
  case unlinked =>
    intro p y
    rw [hunlinked, List.mem_filter, decide_eq_true_eq, data.unlinked, hmap, nStatus_linkBlock,
      htree.pprev, List.mem_append, not_or, mem_waitingFor, data.unlinked]
    constructor
    · rintro ⟨⟨hy, hyqueue, hp, hdata, huncountedy⟩, hpx⟩
      have hyx : y ≠ x := by
        rintro rfl
        exact hyqueue List.mem_cons_self
      rw [index_linkBlock_of_ne hyx]
      refine ⟨hy, ⟨?_, ?_⟩, hp, hdata, huncountedy⟩
      · intro hmem
        exact hyqueue (List.mem_cons_of_mem _ hmem)
      · rintro ⟨-, -, hp', -⟩
        exact hpx (Option.some.inj (hp.symm.trans hp'))
    · rintro ⟨hy, ⟨hyqueue, hnotwaiting⟩, hp, hdata, huncountedy⟩
      have hyx : y ≠ x := by
        rintro rfl
        exact hcountedx huncountedy
      rw [index_linkBlock_of_ne hyx] at huncountedy
      have hyqueue' : y ∉ x :: queue := by
        rw [List.mem_cons, not_or]
        exact ⟨hyx, hyqueue⟩
      refine ⟨⟨hy, hyqueue', hp, hdata, huncountedy⟩, ?_⟩
      intro hpx
      dsimp only at hpx
      rw [hpx] at hp
      exact hnotwaiting ⟨hy, hyqueue', hp, hdata, huncountedy⟩
  case unlinked_nodup =>
    rw [hunlinked]
    exact data.unlinked_nodup.filter _

theorem Linking.link (h : Linking env (x :: queue) s) :
    Linking env (queue ++ s.waitingFor x) (s.linkBlock env x) := by
  obtain ⟨hmap, -, hchain, -⟩ := @linkBlock_rest env s x
  have htree : SameTree s (s.linkBlock env x) := sameTree_linkBlock
  obtain ⟨hxmem, huncounted, -, -⟩ := h.data.queued x List.mem_cons_self
  have hne : ∀ y, (s.index y).nChainTx ≠ 0 → y ≠ x := by
    rintro y hcounted rfl
    exact hcounted huncounted
  have htip : ∀ tip ∈ s.tip, tip ≠ x := by
    intro tip ht
    exact hne tip (h.chained.blocks tip (List.mem_of_getLast? ht)).2.1
  have hdata : Data (queue ++ s.waitingFor x) (s.linkBlock env x) := h.data.link
  constructor
  case tree => exact h.tree.same htree
  case data => exact hdata
  case status =>
    constructor
    · intro y hy
      rw [hmap] at hy
      rw [htree.pprev_eq]
      simp only [nStatus_linkBlock]
      exact h.status.failed y hy
    · intro y hy
      rw [hmap] at hy
      rw [htree.pprev]
      simp only [nStatus_linkBlock]
      exact h.status.scripts y hy
  case chained =>
    constructor
    · rw [hchain]
      exact h.chained.genesis
    · rw [hchain, htree.pprev_eq]
      exact h.chained.path
    · intro y hy
      rw [hchain] at hy
      obtain ⟨hmem, hcounted, hscripts⟩ := h.chained.blocks y hy
      rw [hmap, index_linkBlock_of_ne (hne y hcounted)]
      exact ⟨hmem, hcounted, hscripts⟩
    · intro y hy
      rw [hmap, tip_linkBlock]
      rcases mem_candidates_linkBlock.mp hy with hy | ⟨rfl, hnotworse⟩
      · obtain ⟨hmem, hcounted, hnotworse⟩ := h.chained.candidates y hy
        rw [index_linkBlock_of_ne (hne y hcounted)]
        refine ⟨hmem, hcounted, ?_⟩
        intro tip ht
        rw [worse_linkBlock_of_ne (hne y hcounted) (htip tip ht)]
        exact hnotworse tip ht
      · refine ⟨hxmem, ?_, hnotworse⟩
        have hpos := (h.data.stored y hxmem).1.mp (h.data.queued y List.mem_cons_self).2.2.1
        rw [index_linkBlock_self]
        dsimp only
        omega
  case clear =>
    intro y hy
    rw [hchain] at hy
    rw [nStatus_linkBlock]
    exact h.clear y hy
  case complete =>
    intro tip ht y hy hcounted hclear hnotworse
    rw [tip_linkBlock] at ht
    rw [hmap] at hy
    rw [nStatus_linkBlock] at hclear
    rw [mem_candidates_linkBlock]
    by_cases hyx : y = x
    · right
      rw [hyx] at hnotworse
      refine ⟨hyx, ?_⟩
      intro tip' ht'
      rw [Option.mem_unique ht' ht]
      exact hnotworse
    · left
      rw [worse_linkBlock_of_ne hyx (htip tip ht)] at hnotworse
      rw [index_linkBlock_of_ne hyx] at hcounted
      exact h.complete tip ht y hy hcounted hclear hnotworse

/-- The loop comes to the end of the queue. -/
theorem Linking.linkBlocks {rounds : ℕ} (h : Linking env queue s)
    (hrounds : queue.length + s.mapBlocksUnlinked.length ≤ rounds) :
    Settled env (linkBlocks env rounds queue s) := by
  induction rounds generalizing queue s with
  | zero =>
    have hnil : queue = [] := List.length_eq_zero_iff.mp (by omega)
    rw [hnil] at h
    exact h.settled
  | succ rounds ih =>
    cases queue with
    | nil => exact h.settled
    | cons x queue =>
      have hlength : (s.waitingFor x).length + (s.linkBlock env x).mapBlocksUnlinked.length =
          s.mapBlocksUnlinked.length := by
        rw [linkBlock_rest.2.2.2]
        unfold waitingFor
        rw [List.length_map]
        have hsplit := s.mapBlocksUnlinked.length_eq_length_filter_add fun pair =>
          decide (pair.1 = x)
        simp only [decide_not]
        omega
      apply ih h.link
      rw [List.length_append]
      rw [List.length_cons] at hrounds
      omega

/-! The data of one block is stored. -/

theorem Awaited.valid_lt (awaited : Awaited s x p nTx) (data : Data [] s) :
    (s.index x).nStatus.valid < BLOCK_VALID_TRANSACTIONS := by
  obtain ⟨hdata, hvalid, -⟩ := data.stored x awaited.mem
  by_contra hle
  have htrue := hdata.mpr (hvalid.mp (not_lt.mp hle))
  rw [awaited.noData] at htrue
  contradiction

theorem Awaited.uncounted (awaited : Awaited s x p nTx) (data : Data [] s) :
    (s.index x).nChainTx = 0 := by
  by_contra hcounted
  have hdata := ((data.linked x awaited.mem List.not_mem_nil).mp hcounted).1
  rw [awaited.noData] at hdata
  contradiction

theorem Awaited.index_self (awaited : Awaited s x p nTx) (data : Data [] s) :
    (s.stored x nTx mapBlocksUnlinked).index x = { s.index x with
      nTx := nTx
      nChainTx := 0
      nStatus := { (s.index x).nStatus with
        valid := BLOCK_VALID_TRANSACTIONS
        haveData := true } } := by
  have hself : (s.stored x nTx mapBlocksUnlinked).index x = storeData nTx (s.index x) :=
    Function.update_self _ _ _
  have hclear : ¬ { (s.index x).nStatus with haveData := true }.failed = true := by
    have hfalse := awaited.clear
    unfold BlockStatus.failed at hfalse ⊢
    rw [hfalse]
    exact Bool.false_ne_true
  rw [hself]
  unfold storeData CBlockIndex.raiseValidity
  rw [if_neg hclear, if_pos (awaited.valid_lt data)]

theorem index_stored_of_ne (hne : y ≠ x) :
    (s.stored x nTx mapBlocksUnlinked).index y = s.index y :=
  Function.update_of_ne hne _ _

/-- What storing data leaves as it is. -/
theorem Awaited.same (awaited : Awaited s x p nTx) (data : Data [] s) (y : Uint256) :
    ((s.stored x nTx mapBlocksUnlinked).index y).nChainTx = (s.index y).nChainTx ∧
    ((s.stored x nTx mapBlocksUnlinked).index y).nSequenceId = (s.index y).nSequenceId ∧
    ((s.stored x nTx mapBlocksUnlinked).index y).nStatus.failed = (s.index y).nStatus.failed ∧
    ((s.stored x nTx mapBlocksUnlinked).index y).nStatus.failedValid =
      (s.index y).nStatus.failedValid := by
  by_cases hne : y = x
  · rw [hne, awaited.index_self data, awaited.uncounted data]
    exact ⟨rfl, rfl, rfl, rfl⟩
  · rw [index_stored_of_ne hne]
    exact ⟨rfl, rfl, rfl, rfl⟩

theorem Awaited.sameTree (awaited : Awaited s x p nTx) (data : Data [] s) :
    SameTree s (s.stored x nTx mapBlocksUnlinked) := by
  have hentry : ∀ y,
      ((s.stored x nTx mapBlocksUnlinked).index y).pprev = (s.index y).pprev ∧
      ((s.stored x nTx mapBlocksUnlinked).index y).nHeight = (s.index y).nHeight ∧
      ((s.stored x nTx mapBlocksUnlinked).index y).nChainWork = (s.index y).nChainWork ∧
      ((s.stored x nTx mapBlocksUnlinked).index y).nBits = (s.index y).nBits := by
    intro y
    by_cases hne : y = x
    · rw [hne, awaited.index_self data]
      exact ⟨rfl, rfl, rfl, rfl⟩
    · rw [index_stored_of_ne hne]
      exact ⟨rfl, rfl, rfl, rfl⟩
  exact ⟨rfl, rfl, fun y => (hentry y).1, fun y => (hentry y).2.1, fun y => (hentry y).2.2.1,
    fun y => (hentry y).2.2.2⟩

theorem Awaited.worse_eq (awaited : Awaited s x p nTx) (data : Data [] s) :
    (s.stored x nTx mapBlocksUnlinked).worse env y z = s.worse env y z := by
  unfold worse
  simp only [(awaited.sameTree data).work, (awaited.same data _).2.1]

/-- The block comes to the queue if its predecessor is counted, and else it waits. -/
theorem Data.stored_data (data : Data [] s) (awaited : Awaited s x p nTx)
    (hqueue : ∀ y, y ∈ queue ↔ y = x ∧ (s.index p).nChainTx ≠ 0) (hnodup : queue.Nodup)
    (hunlinked : ∀ q y, (q, y) ∈ mapBlocksUnlinked ↔
      (q, y) ∈ s.mapBlocksUnlinked ∨ q = p ∧ y = x ∧ (s.index p).nChainTx = 0)
    (hunlinked_nodup : mapBlocksUnlinked.Nodup) :
    Data queue (s.stored x nTx mapBlocksUnlinked) := by
  have htree : SameTree s (s.stored x nTx mapBlocksUnlinked) := awaited.sameTree data
  have hself := @Awaited.index_self s x p nTx mapBlocksUnlinked awaited data
  have hsame := @Awaited.same s x p nTx mapBlocksUnlinked awaited data
  have hchain := fun y => (hsame y).1
  have hpos := awaited.pos
  constructor
  case stored =>
    intro y hy
    by_cases hne : y = x
    · rw [hne, hself]
      simp [BLOCK_VALID_TRANSACTIONS, BLOCK_VALID_TREE, hpos]
    · rw [index_stored_of_ne hne]
      exact data.stored y hy
  case grows =>
    intro y hy hdata q hq
    rw [htree.pprev] at hq
    rw [htree.work, htree.work]
    by_cases hne : y = x
    · rw [hne] at hq ⊢
      rw [Option.some.inj (hq.symm.trans awaited.parent)]
      exact awaited.work
    · rw [index_stored_of_ne hne] at hdata
      exact data.grows y hy hdata q hq
  case linked =>
    intro y hy hyqueue
    simp only [hchain, htree.pprev]
    by_cases hne : y = x
    · rw [hne, awaited.uncounted data]
      constructor
      · intro hcounted
        exact absurd rfl hcounted
      · rintro ⟨-, hparents⟩
        exact absurd ((hqueue y).mpr ⟨hne, hparents p awaited.parent⟩) hyqueue
    · rw [index_stored_of_ne hne]
      exact data.linked y hy List.not_mem_nil
  case queued =>
    intro y hy
    obtain ⟨rfl, hcounted⟩ := (hqueue y).mp hy
    simp only [hchain, htree.pprev]
    rw [hself]
    refine ⟨awaited.mem, awaited.uncounted data, rfl, ?_⟩
    intro q hq
    rw [Option.some.inj (hq.symm.trans awaited.parent)]
    exact hcounted
  case queue_nodup => exact hnodup
  case sequence =>
    intro y hy huncounted
    rw [hchain] at huncounted
    rw [(hsame y).2.1]
    exact data.sequence y hy huncounted
  case unlinked =>
    intro q y
    have hmem : (q, y) ∈ (s.stored x nTx mapBlocksUnlinked).mapBlocksUnlinked ↔
        (q, y) ∈ mapBlocksUnlinked := Iff.rfl
    rw [hmem, hunlinked, data.unlinked, htree.pprev, hchain, hqueue]
    by_cases hne : y = x
    · rw [hne, hself, awaited.parent, awaited.uncounted data, awaited.noData]
      constructor
      · rintro (⟨-, -, -, hdata, -⟩ | ⟨rfl, -, huncounted⟩)
        · contradiction
        · exact ⟨awaited.mem, fun hcounted => hcounted.2 huncounted, rfl, rfl, rfl⟩
      · rintro ⟨-, hnotqueued, hq, -, -⟩
        right
        refine ⟨(Option.some.inj hq).symm, rfl, ?_⟩
        by_contra hcounted
        exact hnotqueued ⟨rfl, hcounted⟩
    · have hnotqueued : ¬ (y = x ∧ (s.index p).nChainTx ≠ 0) := fun h => hne h.1
      rw [index_stored_of_ne hne, or_iff_left fun h => hne h.2.1]
      simp only [List.not_mem_nil, hnotqueued]
      exact Iff.rfl
  case unlinked_nodup => exact hunlinked_nodup

theorem Settled.stored_linking (settled : Settled env s) (awaited : Awaited s x p nTx)
    (hdata : Data queue (s.stored x nTx mapBlocksUnlinked)) :
    Linking env queue (s.stored x nTx mapBlocksUnlinked) := by
  have htree : SameTree s (s.stored x nTx mapBlocksUnlinked) := awaited.sameTree settled.data
  have hsame := @Awaited.same s x p nTx mapBlocksUnlinked awaited settled.data
  have hvalid : ∀ y ∈ s.mapBlockIndex, ∀ nLevel, BLOCK_VALID_CHAIN ≤ nLevel →
      (nLevel ≤ ((s.stored x nTx mapBlocksUnlinked).index y).nStatus.valid ↔
        nLevel ≤ (s.index y).nStatus.valid) := by
    intro y hy nLevel hlevel
    by_cases hne : y = x
    · have hlt := awaited.valid_lt settled.data
      rw [hne, awaited.index_self settled.data]
      unfold BLOCK_VALID_TRANSACTIONS at *
      unfold BLOCK_VALID_CHAIN at *
      dsimp only
      omega
    · rw [index_stored_of_ne hne]
  constructor
  case tree => exact settled.tree.same htree
  case data => exact hdata
  case status =>
    constructor
    · intro y hy hfailed
      rw [(hsame y).2.2.1] at hfailed
      rw [htree.pprev_eq]
      obtain ⟨a, hanc, ha⟩ := settled.status.failed y hy hfailed
      refine ⟨a, hanc, ?_⟩
      rw [(hsame a).2.2.2]
      exact ha
    · intro y hy hchain
      rw [hvalid y hy _ le_rfl] at hchain
      obtain ⟨hscripts, hparents⟩ := settled.status.scripts y hy hchain
      refine ⟨(hvalid y hy _ (by decide)).mpr hscripts, ?_⟩
      intro q hq hne
      rw [htree.pprev] at hq
      exact (hvalid q (settled.tree.of_pprev hy hq).1 _ (by decide)).mpr (hparents q hq hne)
  case chained =>
    constructor
    · exact settled.chained.genesis
    · rw [htree.pprev_eq]
      exact settled.chained.path
    · intro y hy
      obtain ⟨hmem, hcounted, hscripts⟩ := settled.chained.blocks y hy
      rw [(hsame y).1]
      exact ⟨hmem, hcounted, fun hne => (hvalid y hmem _ (by decide)).mpr (hscripts hne)⟩
    · intro y hy
      obtain ⟨hmem, hcounted, hnotworse⟩ := settled.chained.candidates y hy
      rw [(hsame y).1]
      refine ⟨hmem, hcounted, ?_⟩
      intro tip ht
      rw [awaited.worse_eq settled.data]
      exact hnotworse tip ht
  case clear =>
    intro y hy
    rw [(hsame y).2.2.1]
    exact settled.clear y hy
  case complete =>
    intro tip ht y hy hcounted hclear hnotworse
    rw [(hsame y).1] at hcounted
    rw [(hsame y).2.2.1] at hclear
    rw [awaited.worse_eq settled.data] at hnotworse
    exact settled.complete tip ht y hy hcounted hclear hnotworse

/-- The data of a block that waits for it leaves the block index settled. -/
theorem Settled.receivedBlockTransactions (settled : Settled env s) (awaited : Awaited s x p nTx)
    (hparent : (s.index p).nStatus.failed = false) :
    Settled env (s.receivedBlockTransactions env x nTx) := by
  have hpx : p ≠ x := by
    rintro rfl
    have hheight := (settled.tree.of_pprev awaited.mem awaited.parent).2.1
    omega
  have hindexp : (s.modify x (storeData nTx)).index p = s.index p := Function.update_of_ne hpx _ _
  have htree : SameTree s (s.stored x nTx s.mapBlocksUnlinked) := awaited.sameTree settled.data
  have hp : (s.modify x (storeData nTx)).pprev x = some p := (htree.pprev x).trans awaited.parent
  have hvalid : (s.index p).isValid BLOCK_VALID_TREE = true := by
    have htree := (settled.data.stored p (settled.tree.of_pprev awaited.mem awaited.parent).1).2.2
    unfold CBlockIndex.isValid
    rw [hparent, decide_eq_true htree]
    rfl
  have hnotwaiting : ∀ q, (q, x) ∉ s.mapBlocksUnlinked := by
    intro q hq
    have hdata := ((settled.data.unlinked q x).mp hq).2.2.2.1
    rw [awaited.noData] at hdata
    contradiction
  unfold ChainState.receivedBlockTransactions
  dsimp only
  rw [hp]
  dsimp only
  rw [hindexp]
  by_cases hcounted : (s.index p).nChainTx ≠ 0
  · have hdata : Data [x] (s.stored x nTx s.mapBlocksUnlinked) := by
      apply settled.data.stored_data awaited
      · intro y
        rw [List.mem_singleton, and_iff_left hcounted]
      · exact List.nodup_singleton x
      · intro q y
        constructor
        · intro hmem
          exact Or.inl hmem
        · rintro (hmem | ⟨-, -, huncounted⟩)
          · exact hmem
          · exact absurd huncounted hcounted
      · exact settled.data.unlinked_nodup
    rw [if_pos hcounted]
    apply (settled.stored_linking awaited hdata).linkBlocks
    rw [List.length_singleton, Nat.add_comm]
    exact le_rfl
  · have hdata : Data [] (s.stored x nTx ((p, x) :: s.mapBlocksUnlinked)) := by
      apply settled.data.stored_data awaited
      · intro y
        constructor
        · intro hy
          exact absurd hy List.not_mem_nil
        · rintro ⟨-, hcounted'⟩
          exact absurd hcounted' hcounted
      · exact List.nodup_nil
      · intro q y
        rw [List.mem_cons, Prod.mk.injEq, not_not.mp hcounted]
        tauto
      · exact List.nodup_cons.mpr ⟨hnotwaiting p, settled.data.unlinked_nodup⟩
    rw [if_neg hcounted, if_pos hvalid]
    exact (settled.stored_linking awaited hdata).settled

end

end ChainState

end Lytix
