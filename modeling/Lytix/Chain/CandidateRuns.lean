import Lytix.Chain.ActivateBestChain

/-! The assertions of `CheckBlockIndex` hold after every step of a run from the genesis block, as long
as `ReconsiderBlock` is safe, no work overflows, and `ConnectTip` is consistent. -/
namespace Lytix
open Ancestry

namespace ChainState

/-! The genesis block. -/
section
variable {env : ChainEnv} {genesis : CBlock}

theorem initBlockIndex_rest :
    (initBlockIndex env genesis).mapBlockIndex = [genesis.hash] ∧
    (initBlockIndex env genesis).chainActive = [genesis.hash] ∧
    (initBlockIndex env genesis).setBlockIndexCandidates = [genesis.hash] ∧
    (initBlockIndex env genesis).mapBlocksUnlinked = [] ∧
    (initBlockIndex env genesis).index genesis.hash =
      { nVersion := genesis.nVersion
        nTime := genesis.nTime
        nBits := genesis.nBits
        nAccumulatorCheckpoint := genesis.nAccumulatorCheckpoint
        nChainWork := getBlockProof genesis.nBits % 2 ^ 256
        nTx := genesis.vtx.length
        nChainTx := genesis.vtx.length
        nStatus := { valid := BLOCK_VALID_TRANSACTIONS, haveData := true }
        nSequenceId := 1 } := by
  unfold initBlockIndex
  simp [addToBlockIndex, receivedBlockTransactions, modify, storeData, CBlockIndex.raiseValidity,
    pprev, linkBlocks, linkBlock, countBlock, insertCandidate, connectTip, setTip, fillChain,
    contains, pruneBlockIndexCandidates, tip, worse, BlockStatus.failed, BLOCK_VALID_TREE,
    BLOCK_VALID_TRANSACTIONS]

theorem settled_initBlockIndex (hash : genesis.hash = env.hashGenesisBlock)
    (hvtx : genesis.vtx ≠ []) : Settled env (initBlockIndex env genesis) := by
  obtain ⟨hmap, hchain, hcandidates, hunlinked, hindex⟩ := @initBlockIndex_rest env genesis
  generalize initBlockIndex env genesis = s at *
  rw [hash] at hmap hchain hcandidates hindex
  have hpos : 0 < genesis.vtx.length := List.length_pos_iff.mpr hvtx
  have hpprev : s.pprev env.hashGenesisBlock = none := by
    unfold pprev
    rw [hindex]
  have heq : ∀ x ∈ s.mapBlockIndex, x = env.hashGenesisBlock := by
    intro x hx
    rw [hmap] at hx
    exact List.mem_singleton.mp hx
  have htip : s.tip = some env.hashGenesisBlock := by
    unfold tip
    rw [hchain]
    rfl
  have hcounted : (s.index env.hashGenesisBlock).nChainTx ≠ 0 := by
    rw [hindex]
    exact hpos.ne'
  have hmem : env.hashGenesisBlock ∈ s.mapBlockIndex := by
    rw [hmap]
    exact List.mem_singleton_self _
  constructor
  case toSound =>
    constructor
    case tree =>
      refine ⟨hmem, hpprev, by rw [hindex], ?_, ?_⟩
      · intro x hx hne
        exact absurd (heq x hx) hne
      · intro x hx hne
        exact absurd (heq x hx) hne
    case data =>
      constructor
      case stored =>
        intro x hx
        rw [heq x hx, hindex]
        simp [hpos, BLOCK_VALID_TREE, BLOCK_VALID_TRANSACTIONS]
      case grows =>
        intro x hx _ p hp
        rw [heq x hx, hpprev] at hp
        contradiction
      case linked =>
        intro x hx _
        rw [heq x hx, hpprev, hindex]
        simp [hpos.ne']
      case queued =>
        intro x hx
        exact absurd hx List.not_mem_nil
      case queue_nodup => exact List.nodup_nil
      case sequence =>
        intro x hx huncounted
        rw [heq x hx] at huncounted
        exact absurd huncounted hcounted
      case unlinked =>
        intro p x
        rw [hunlinked]
        constructor
        · intro hx
          exact absurd hx List.not_mem_nil
        · rintro ⟨hx, -, hp, -⟩
          rw [heq x hx, hpprev] at hp
          contradiction
      case unlinked_nodup =>
        rw [hunlinked]
        exact List.nodup_nil
    case status =>
      constructor
      case failed =>
        intro x hx hfailed
        rw [heq x hx, hindex] at hfailed
        contradiction
      case scripts =>
        intro x hx hvalid
        rw [heq x hx, hindex] at hvalid
        simp [BLOCK_VALID_CHAIN, BLOCK_VALID_TRANSACTIONS] at hvalid
    case chained =>
      constructor
      case genesis =>
        rw [hchain]
        rfl
      case path =>
        rw [hchain]
        intro i x hx
        obtain ⟨rfl, rfl⟩ : i = 0 ∧ env.hashGenesisBlock = x := by
          cases i with
          | zero => exact ⟨rfl, Option.some.inj hx⟩
          | succ i => contradiction
        exact hpprev
      case blocks =>
        intro x hx
        rw [hchain, List.mem_singleton] at hx
        rw [hx]
        exact ⟨hmem, hcounted, fun hne => absurd rfl hne⟩
      case candidates =>
        intro x hx
        rw [hcandidates, List.mem_singleton] at hx
        rw [hx]
        refine ⟨hmem, hcounted, ?_⟩
        intro t ht
        rw [Option.mem_unique ht htip]
        exact worse_self
    case clear =>
      intro x hx
      rw [hchain, List.mem_singleton] at hx
      rw [hx, hindex]
      rfl
  case complete =>
    intro t _ x hx _ _ _
    rw [heq x hx, hcandidates]
    exact List.mem_singleton_self _

end

end ChainState

open ChainState

/-- A step that keeps the assertions: the work of a new header fits in 256 bits, `ReconsiderBlock` is
safe, and `ConnectTip` is consistent. -/
def ChainEvent.Regular (env : ChainEnv) (s : ChainState) : ChainEvent → Prop
  | .addToBlockIndex block => block.hash ∉ s.mapBlockIndex →
    (s.index block.hashPrevBlock).nChainWork + getBlockProof block.nBits < 2 ^ 256
  | .receivedBlockTransactions _ => True
  | .invalidateBlock _ => True
  | .reconsiderBlock pindex => pindex ∈ s.mapBlockIndex → ReconsiderSafe env s pindex
  | .activateBestChain connect _ => Answers connect

section
variable {env : ChainEnv} {s s' : ChainState} {event : ChainEvent} {block : CBlock}

/-- What `AcceptBlock` checks is what the data of a block needs. -/
theorem awaited_of_acceptsData (settled : Settled env s) (h : s.acceptsData block = true) :
    Awaited s block.hash block.hashPrevBlock block.vtx.length ∧
      (s.index block.hashPrevBlock).nStatus.failed = false := by
  unfold acceptsData at h
  simp only [Bool.and_eq_true, decide_eq_true_eq, Bool.not_eq_true', beq_iff_eq,
    List.isEmpty_eq_false_iff] at h
  obtain ⟨⟨⟨⟨⟨⟨⟨hmem, hnodata⟩, hclear⟩, hprev⟩, hparent⟩, hbits⟩, hproof⟩, hvtx⟩ := h
  have hwork := (settled.tree.of_pprev hmem hparent).2.2
  rw [hbits] at hwork
  exact ⟨⟨hmem, hnodata, hclear, hparent, by omega, List.length_pos_iff.mpr hvtx⟩, hprev⟩

theorem step_addToBlockIndex (h : block.hashPrevBlock ∈ s.mapBlockIndex) :
    s.step env (.addToBlockIndex block) = some (s.addToBlockIndex block) :=
  congrArg some (if_pos h)

theorem step_receivedBlockTransactions (h : s.acceptsData block = true) :
    s.step env (.receivedBlockTransactions block) =
      some (s.receivedBlockTransactions env block.hash block.vtx.length) :=
  congrArg some (if_pos h)

theorem step_reconsiderBlock {pindex : Uint256} (h : pindex ∈ s.mapBlockIndex) :
    s.step env (.reconsiderBlock pindex) = some (s.reconsiderBlock env pindex) :=
  congrArg some (if_pos h)

theorem step_activateBestChain {connect : ChainState → Uint256 → ConnectTipOutcome} {rounds : ℕ}
    (hsome : (s.activateBestChain env connect rounds).isSome = true) :
    s.step env (.activateBestChain connect rounds) =
      some ((s.activateBestChain env connect rounds).getD {}) := by
  obtain ⟨s', hs'⟩ := Option.isSome_iff_exists.mp hsome
  unfold ChainState.step
  dsimp only
  rw [hs']
  rfl

theorem step_invalidateBlock {pindex : Uint256} (h : pindex ∈ s.mapBlockIndex)
    (hsome : (s.invalidateBlock env pindex).isSome = true) :
    s.step env (.invalidateBlock pindex) = some ((s.invalidateBlock env pindex).getD {}) := by
  obtain ⟨s', hs'⟩ := Option.isSome_iff_exists.mp hsome
  unfold ChainState.step
  dsimp only
  rw [if_pos h, hs']
  rfl

/-- Every regular step leaves the block index settled. -/
theorem ChainState.Settled.step (settled : Settled env s) (hregular : event.Regular env s)
    (hstep : s.step env event = some s') : Settled env s' := by
  unfold ChainState.step at hstep
  cases event with
  | addToBlockIndex block =>
    rw [← Option.some.inj hstep]
    split_ifs with hprev
    · exact settled.addToBlockIndex hprev hregular
    · exact settled
  | receivedBlockTransactions block =>
    rw [← Option.some.inj hstep]
    split_ifs with haccepts
    · obtain ⟨awaited, hparent⟩ := awaited_of_acceptsData settled haccepts
      exact settled.receivedBlockTransactions awaited hparent
    · exact settled
  | invalidateBlock pindex =>
    dsimp only at hstep
    split_ifs at hstep with hmem
    · exact settled.invalidateBlock hstep
    · rw [← Option.some.inj hstep]
      exact settled
  | reconsiderBlock pindex =>
    rw [← Option.some.inj hstep]
    split_ifs with hmem
    · exact settled.reconsiderBlock hmem (hregular hmem)
    · exact settled
  | activateBestChain connect rounds => exact settled.activateBestChain hregular hstep

theorem ChainRun.settled (run : ChainRun env (ChainEvent.Regular env) s) : Settled env s := by
  induction run with
  | start genesis hash vtx => exact settled_initBlockIndex hash vtx
  | step _ hregular hstep ih => exact ih.step hregular hstep

end

/-! Two blocks on the genesis block. -/

def easyEnv : ChainEnv where
  hashGenesisBlock := 1
  address := BitVec.toNat
  address_injective := fun _ _ h => BitVec.eq_of_toNat_eq h

/-- A block of one transaction with the easiest target. -/
def easyBlock (hash hashPrevBlock : Uint256) : CBlock :=
  { hash := hash
    nVersion := 1
    hashPrevBlock := hashPrevBlock
    hashMerkleRoot := 0
    nTime := 0
    nBits := 0x207fffff
    nNonce := 0
    nAccumulatorCheckpoint := 0
    vtx := [{ hash := hash, nVersion := 1, vin := [], vout := [], nLockTime := 0 }] }

/-- The header of block 2 is known. -/
def headerNode : ChainState :=
  (initBlockIndex easyEnv (easyBlock 1 0)).addToBlockIndex (easyBlock 2 1)

/-- So is its data. -/
def dataNode : ChainState :=
  headerNode.receivedBlockTransactions easyEnv (easyBlock 2 1).hash (easyBlock 2 1).vtx.length

/-- So is the header of block 3 on it. -/
def twoHeadersNode : ChainState := dataNode.addToBlockIndex (easyBlock 3 2)

/-- Block 2 is declared invalid. -/
def invalidatedNode : ChainState := (twoHeadersNode.invalidateBlock easyEnv 2).getD {}

theorem chainRun_invalidatedNode :
    ChainRun easyEnv (ChainEvent.Regular easyEnv) invalidatedNode := by
  have hstart : ChainRun easyEnv (ChainEvent.Regular easyEnv)
      (initBlockIndex easyEnv (easyBlock 1 0)) :=
    ChainRun.start (easyBlock 1 0) rfl (List.cons_ne_nil _ _)
  have hfits : ChainEvent.Regular easyEnv (initBlockIndex easyEnv (easyBlock 1 0))
      (.addToBlockIndex (easyBlock 2 1)) := fun _ => by decide
  have hfits' : ChainEvent.Regular easyEnv dataNode (.addToBlockIndex (easyBlock 3 2)) :=
    fun _ => by decide
  have hheader := ChainRun.step hstart hfits (step_addToBlockIndex (by decide))
  have hdata := @ChainRun.step easyEnv (ChainEvent.Regular easyEnv) headerNode dataNode
    (.receivedBlockTransactions (easyBlock 2 1)) hheader trivial
      (step_receivedBlockTransactions (by decide))
  have htwo := ChainRun.step hdata hfits' (step_addToBlockIndex (by decide))
  exact @ChainRun.step easyEnv (ChainEvent.Regular easyEnv) twoHeadersNode invalidatedNode
    (.invalidateBlock 2) htwo trivial
      (step_invalidateBlock (by decide) (by decide))

/-- The condition on the steps of a run may be weakened. -/
theorem ChainRun.mono {env : ChainEnv} {s : ChainState} {ok ok' : ChainState → ChainEvent → Prop}
    (run : ChainRun env ok s) (h : ∀ s event, ok s event → ok' s event) : ChainRun env ok' s := by
  induction run with
  | start genesis hash vtx => exact ChainRun.start genesis hash vtx
  | step _ hok hstep ih => exact ChainRun.step ih (h _ _ hok) hstep

/-- Block 3 is reconsidered. -/
def clearedNode : ChainState := invalidatedNode.reconsiderBlock easyEnv 3

theorem pathTo_clearedNode : clearedNode.pathTo 2 = [1, 2] := by decide

/-- Block 2 itself is reconsidered. -/
def reconsideredNode : ChainState := invalidatedNode.reconsiderBlock easyEnv 2

/-- Then the best chain is activated. -/
def activatedNode : ChainState :=
  (reconsideredNode.activateBestChain easyEnv (fun _ _ => .connected) 1).getD {}

/-- Only block 2 had failed, and no block below it. -/
theorem reconsiderSafe_invalidatedNode : ReconsiderSafe easyEnv invalidatedNode 2 where
  candidates := by
    have hpath : invalidatedNode.pathTo 2 = [1, 2] := by decide
    have hcandidates : invalidatedNode.setBlockIndexCandidates = [1] := by decide
    intro a ha hne _ _ _ _
    rw [hpath, List.mem_cons, List.mem_singleton] at ha
    rw [hcandidates, List.mem_singleton]
    exact ha.resolve_right hne
  failed := by
    have hmap : invalidatedNode.mapBlockIndex = [3, 2, 1] := by decide
    have hclear : (invalidatedNode.index 3).nStatus.failed = false := by decide
    have hpath : invalidatedNode.pathTo 2 = [1, 2] := by decide
    intro y hy hfailed _ hbelow
    rw [hmap, List.mem_cons] at hy
    rcases hy with rfl | hy
    · rw [hclear] at hfailed
      contradiction
    · rw [hpath] at hbelow
      simp only [List.mem_cons, List.not_mem_nil, or_false] at hy hbelow
      exact absurd hy.symm hbelow

end Lytix
