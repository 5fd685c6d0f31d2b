import Lytix.Chain.BlockIndex
import Lytix.Kernel.ModifierAgreement
import Lytix.Validation.AcceptBlock
import Lytix.Validation.Conservation

/-! Serials on a fork. The serials of the branch are stored in the loop over the plain inputs of the
stake, so a stake with zerocoin inputs only is compared with none of them. -/
namespace Lytix
open Checks Ancestry

/-- `p` is an earlier block of the branch that ends in `prev`, up to its split. -/
def OnBranch (view : ChainView) (prev p : Uint256) : Prop :=
  IsAncestor view.pprev p prev ∧ view.contains p = false

/-- No serial of the zerocoin inputs of the stake is spent in the branch it is on. -/
def StakeSerialsFresh (env : ConsensusEnv) (node : AcceptNode) (block : CBlock) : Prop :=
  ∀ stakeTxIn, block.vtx[1]? = some stakeTxIn →
    ∀ zPivInput ∈ zpivInputs stakeTxIn, ∀ spend, env.txInToZerocoinSpend zPivInput = some spend →
      ∀ p, OnBranch node.view block.hashPrevBlock p → ∀ bl, node.readBlock p = some bl →
        ∀ txin ∈ bl.vtx.flatMap CTransaction.vin, txin.scriptSig.isZerocoinSpend = true →
          ∀ spent, env.txInToZerocoinSpend txin = some spent →
            spent.coinSerialNumber ≠ spend.coinSerialNumber

/-- The coinstake has an input that is not a zerocoin spend. -/
def HasPlainInput (block : CBlock) : Prop :=
  ∃ stakeTxIn, block.vtx[1]? = some stakeTxIn ∧ pivInputs stakeTxIn ≠ []

/-- The node with other blocks on disk. -/
def AcceptNode.withDisk (node : AcceptNode) (disk : Uint256 → Option CBlock) : AcceptNode :=
  { node with readBlockFromDisk := disk }

/-- The blocks of the active chain are stored as before. -/
def SameOnChain (node : AcceptNode) (disk : Uint256 → Option CBlock) : Prop :=
  ∀ p, node.view.contains p = true → disk p = node.readBlockFromDisk p

section
variable {env : ConsensusEnv} {node : AcceptNode} {block : CBlock}
  {disk : Uint256 → Option CBlock} {stakeTxIn : CTransaction} {hasZPIVInputs : Bool}
  {vBlockSerials serials : List Int} {txin : CTxIn}

/-! What is stored while the branch is scanned. -/

/-- A scan stores the serial of every zerocoin spend it comes by, once there is a plain input. -/
theorem scanInput_spec {plain : List CTxIn} (hplain : plain ≠ [])
    (h : scanInput env plain true vBlockSerials txin = .ok serials) :
    (∀ n ∈ vBlockSerials, n ∈ serials) ∧
      (txin.scriptSig.isZerocoinSpend = true → ∀ spent,
        env.txInToZerocoinSpend txin = some spent → spent.coinSerialNumber ∈ serials) := by
  unfold scanInput at h
  have hgrow : ∀ s stakeIn s', scanStakeInput env true txin s stakeIn = .ok s' →
      (∀ n ∈ s, n ∈ s') ∧ (txin.scriptSig.isZerocoinSpend = true → ∀ spent,
        env.txInToZerocoinSpend txin = some spent → spent.coinSerialNumber ∈ s') := by
    intro s stakeIn s' hstep
    simp only [scanStakeInput, Bool.true_and, bind_eq_ok, stopIf_eq_ok] at hstep
    obtain ⟨-, -, hstep⟩ := hstep
    split_ifs at hstep with hspend
    · simp only [bind_eq_ok, parseSpend, orStop_eq_ok, pure_eq_ok] at hstep
      obtain ⟨parsed, hparse, rfl⟩ := hstep
      constructor
      · intro n hn
        exact List.mem_append_left _ hn
      · intro _ spent hspent
        rw [hparse, Option.some.injEq] at hspent
        rw [hspent]
        simp
    · rw [pure_eq_ok] at hstep
      rw [← hstep]
      exact ⟨fun n hn => hn, fun hcontra => absurd hcontra hspend⟩
  have hkeep : ∀ (rest : List CTxIn) (s s' : List Int),
      rest.foldlM (scanStakeInput env true txin) s = .ok s' → ∀ n ∈ s, n ∈ s' := by
    intro rest s s' hrun n hn
    exact foldlM_invariant (fun t => n ∈ t)
      (fun t stakeIn t' _ hstep hmem => (hgrow t stakeIn t' hstep).1 n hmem) hrun hn
  refine ⟨hkeep plain _ _ h, ?_⟩
  intro hspend spent hspent
  cases plain with
  | nil => exact absurd rfl hplain
  | cons stakeIn rest =>
    rw [List.foldlM_cons, bind_eq_ok] at h
    obtain ⟨mid, hstep, hrest⟩ := h
    have hstored := (hgrow _ _ _ hstep).2 hspend spent hspent
    exact hkeep rest mid serials hrest _ hstored

theorem foldlM_scanInput_spec {plain vin : List CTxIn} (hplain : plain ≠ [])
    (h : vin.foldlM (scanInput env plain true) vBlockSerials = .ok serials) :
    (∀ n ∈ vBlockSerials, n ∈ serials) ∧
      ∀ txin ∈ vin, txin.scriptSig.isZerocoinSpend = true → ∀ spent,
        env.txInToZerocoinSpend txin = some spent → spent.coinSerialNumber ∈ serials := by
  have hkeep : ∀ (rest : List CTxIn) (s s' : List Int),
      rest.foldlM (scanInput env plain true) s = .ok s' → ∀ n ∈ s, n ∈ s' := by
    intro rest s s' hrun n hn
    exact foldlM_invariant (fun t => n ∈ t)
      (fun t txin t' _ hstep hmem => (scanInput_spec hplain hstep).1 n hmem) hrun hn
  refine ⟨hkeep vin _ _ h, ?_⟩
  intro txin htxin hspend spent hspent
  obtain ⟨before, after, rfl⟩ := List.append_of_mem htxin
  rw [foldlM_split] at h
  obtain ⟨s₁, s₂, -, hstep, hafter⟩ := h
  have hstored := (scanInput_spec hplain hstep).2 hspend spent hspent
  exact hkeep after s₂ serials hafter _ hstored

/-- The walk back comes by every block of the branch. -/
theorem scanBranch_spec {plain : List CTxIn} (hplain : plain ≠ []) {rounds : ℕ}
    {prev split : Uint256}
    (h : scanBranch env node plain true rounds prev vBlockSerials = .ok (serials, split)) :
    (∀ n ∈ vBlockSerials, n ∈ serials) ∧
      ∀ p, OnBranch node.view prev p → ∀ bl, node.readBlock p = some bl →
        ∀ txin ∈ bl.vtx.flatMap CTransaction.vin, txin.scriptSig.isZerocoinSpend = true →
          ∀ spent, env.txInToZerocoinSpend txin = some spent →
            spent.coinSerialNumber ∈ serials := by
  induction rounds generalizing prev vBlockSerials with
  | zero => simp [scanBranch] at h
  | succ rounds ih =>
    simp only [scanBranch, bind_eq_ok, orStop_eq_ok] at h
    obtain ⟨bl, hread, mid, hscan, next, hnext, h⟩ := h
    obtain ⟨hkeep, hstored⟩ := foldlM_scanInput_spec hplain hscan
    have hrest : (∀ n ∈ mid, n ∈ serials) ∧ ∀ p, OnBranch node.view next p →
        ∀ bl, node.readBlock p = some bl →
        ∀ txin ∈ bl.vtx.flatMap CTransaction.vin, txin.scriptSig.isZerocoinSpend = true →
          ∀ spent, env.txInToZerocoinSpend txin = some spent →
            spent.coinSerialNumber ∈ serials := by
      split_ifs at h with hsplit
      · simp only [pure_eq_ok, Prod.mk.injEq] at h
        obtain ⟨rfl, rfl⟩ := h
        refine ⟨fun n hn => hn, ?_⟩
        intro p hp
        have hon := ChainView.contains_of_isAncestor hsplit hp.1
        exact absurd (hon.symm.trans hp.2) (by simp)
      · exact ih h
    refine ⟨fun n hn => hrest.1 n (hkeep n hn), ?_⟩
    intro p hp bl' hbl' txin htxin hspend spent hspent
    rcases Relation.ReflTransGen.cases_head hp.1 with rfl | ⟨q, hq, hpq⟩
    · rw [hread, Option.some.injEq] at hbl'
      subst hbl'
      exact hrest.1 _ (hstored txin htxin hspend spent hspent)
    · have hqnext : q = next := Option.some.inj (hq.symm.trans hnext)
      rw [hqnext] at hpq
      exact hrest.2 p ⟨hpq, hp.2⟩ bl' hbl' txin htxin hspend spent hspent

/-- With a plain input, the serials of the stake are compared with the whole branch. -/
theorem checkForkStake_fresh {prev : Uint256} {nHeight splitHeight : ℕ}
    (hplain : pivInputs stakeTxIn ≠ [])
    (h : checkForkStake env node stakeTxIn prev nHeight = .ok splitHeight) :
    ∀ zPivInput ∈ zpivInputs stakeTxIn, ∀ spend, env.txInToZerocoinSpend zPivInput = some spend →
      ∀ p, OnBranch node.view prev p → ∀ bl, node.readBlock p = some bl →
        ∀ txin ∈ bl.vtx.flatMap CTransaction.vin, txin.scriptSig.isZerocoinSpend = true →
          ∀ spent, env.txInToZerocoinSpend txin = some spent →
            spent.coinSerialNumber ≠ spend.coinSerialNumber := by
  intro zPivInput hz spend hspend p hp bl hbl txin htxin htxspend spent hspent heq
  have hzpiv : (!(zpivInputs stakeTxIn).isEmpty) = true := by
    cases hlist : zpivInputs stakeTxIn with
    | nil => rw [hlist] at hz; contradiction
    | cons _ _ => rfl
  simp only [checkForkStake, hzpiv, bind_eq_ok, Prod.exists] at h
  obtain ⟨stored, split, hscan, _, hchecks, -⟩ := h
  have hmem := (scanBranch_spec hplain hscan).2 p hp bl hbl txin htxin htxspend spent hspent
  have hcheck := (forM_eq_ok _).mp hchecks zPivInput hz
  simp only [checkZPIVInput, bind_eq_ok, parseSpend, orStop_eq_ok, stopIf_eq_ok] at hcheck
  obtain ⟨parsed, hparsed, -, hfresh, -⟩ := hcheck
  rw [hspend, Option.some.injEq] at hparsed
  rw [← hparsed, ← heq] at hfresh
  exact hfresh hmem

/-! What does not depend on the blocks stored off the active chain. -/

theorem getTransaction_withDisk (hdisk : SameOnChain node disk) (hash : Uint256) :
    (node.withDisk disk).getTransaction hash = node.getTransaction hash := by
  have hchain : ∀ nHeight pindexSlow, node.view.chainAt nHeight = some pindexSlow →
      disk pindexSlow = node.readBlockFromDisk pindexSlow := by
    intro nHeight pindexSlow hat
    unfold ChainView.chainAt at hat
    split_ifs at hat
    exact hdisk pindexSlow (ChainView.contains_of_getElem? hat)
  simp only [Node.getTransaction, AcceptNode.withDisk]
  cases hslow : node.view.chainAt (((node.accessCoins hash).map CCoins.nHeight).getD (-1)) with
  | none => rfl
  | some pindexSlow => simp only [hchain _ pindexSlow hslow]

theorem serialHeight_withDisk (hdisk : SameOnChain node disk) (bnSerial : Int) :
    (node.withDisk disk).serialHeight bnSerial = node.serialHeight bnSerial := by
  have htx : ∀ txId, (node.withDisk disk).transactionHeight txId = node.transactionHeight txId := by
    intro txId
    unfold ConsensusNode.transactionHeight
    rw [getTransaction_withDisk hdisk]
    rfl
  unfold ConsensusNode.serialHeight
  show (node.readCoinSpend bnSerial).bind _ = _
  congr 1
  funext txId
  exact htx txId

theorem getIndexFrom_withDisk (hdisk : SameOnChain node disk) (stake : CStakeInput) :
    stake.getIndexFrom (node.withDisk disk).toNode = stake.getIndexFrom node.toNode := by
  cases stake with
  | piv txFrom nPosition =>
    simp only [CStakeInput.getIndexFrom, getTransaction_withDisk hdisk]
    rfl
  | zpiv nChecksum fMint denom hashSerial => rfl

/-- The block a stake comes from is on the active chain. -/
theorem contains_getIndexFrom {stake : CStakeInput} {pindexFrom : Uint256}
    (h : stake.getIndexFrom node.toNode = some pindexFrom) :
    node.view.contains pindexFrom = true := by
  cases stake with
  | piv txFrom nPosition =>
    simp only [CStakeInput.getIndexFrom] at h
    split at h
    · contradiction
    · split_ifs at h with hon
      rw [Option.some.injEq] at h
      rw [← h]
      exact (Bool.and_eq_true_iff.mp hon).2
  | zpiv nChecksum fMint denom hashSerial =>
    simp only [CStakeInput.getIndexFrom] at h
    split_ifs at h <;>
    · simp only [ChainView.chainAt] at h
      split_ifs at h
      exact ChainView.contains_of_getElem? h

theorem checkProofOfStake_withDisk (hdisk : SameOnChain node disk) :
    checkProofOfStake env.toKernelEnv (node.withDisk disk).toNode block =
      checkProofOfStake env.toKernelEnv node.toNode block := by
  apply checkProofOfStake_congr
  intro tx txin _ _
  constructor
  · simp only [kernelStakeInput, getTransaction_withDisk hdisk]
  · intro stake _
    constructor
    · simp only [CStakeInput.blockFrom, getIndexFrom_withDisk hdisk]
      cases hindex : stake.getIndexFrom node.toNode with
      | none => rfl
      | some pindexFrom => exact hdisk pindexFrom (contains_getIndexFrom hindex)
    · simp only [CStakeInput.getModifier, getIndexFrom_withDisk hdisk]
      rfl

theorem acceptProofOfStake_withDisk (hdisk : SameOnChain node disk)
    (pindexPrev : Option Uint256) :
    acceptProofOfStake env (node.withDisk disk) block pindexPrev =
      acceptProofOfStake env node block pindexPrev := by
  have hcontext : ∀ nHeight stake,
      contextualCheckZerocoinStake (node.withDisk disk) nHeight stake =
        contextualCheckZerocoinStake node nHeight stake := by
    intro nHeight stake
    simp only [contextualCheckZerocoinStake, getIndexFrom_withDisk hdisk]
    rfl
  simp only [acceptProofOfStake, checkProofOfStake_withDisk hdisk, hcontext]
  rfl

/-- Without plain inputs a scan stores nothing. -/
theorem foldlM_scanInput_nil (vin : List CTxIn) :
    vin.foldlM (scanInput env [] hasZPIVInputs) vBlockSerials = .ok vBlockSerials := by
  induction vin with
  | nil => rfl
  | cons txin vin ih =>
    rw [List.foldlM_cons, bind_eq_ok]
    exact ⟨vBlockSerials, rfl, ih⟩

/-- So only the presence of the branch's blocks matters. -/
theorem scanBranch_nil_withDisk {rounds : ℕ} {prev split : Uint256}
    (hread : ∀ p bl, node.readBlock p = some bl → ∃ bl', (node.withDisk disk).readBlock p = some bl')
    (h : scanBranch env node [] hasZPIVInputs rounds prev vBlockSerials = .ok (serials, split)) :
    scanBranch env (node.withDisk disk) [] hasZPIVInputs rounds prev vBlockSerials =
      .ok (serials, split) := by
  induction rounds generalizing prev with
  | zero => simp [scanBranch] at h
  | succ rounds ih =>
    simp only [scanBranch, bind_eq_ok, orStop_eq_ok, foldlM_scanInput_nil, Except.ok.injEq] at h ⊢
    obtain ⟨bl, hbl, mid, rfl, next, hnext, h⟩ := h
    obtain ⟨bl', hbl'⟩ := hread prev bl hbl
    refine ⟨bl', hbl', vBlockSerials, rfl, next, hnext, ?_⟩
    have hcontains : (node.withDisk disk).view.contains next = node.view.contains next := rfl
    rw [hcontains]
    split_ifs at h ⊢ with hsplit
    · exact h
    · exact ih h

theorem checkZPIVInput_withDisk (hdisk : SameOnChain node disk) (nHeight splitHeight : ℕ)
    (zPivInput : CTxIn) :
    checkZPIVInput env (node.withDisk disk) stakeTxIn nHeight splitHeight vBlockSerials zPivInput =
      checkZPIVInput env node stakeTxIn nHeight splitHeight vBlockSerials zPivInput := by
  simp only [checkZPIVInput, serialHeight_withDisk hdisk]
  rfl

theorem checkForkStake_withDisk (hdisk : SameOnChain node disk)
    (hread : ∀ p bl, node.readBlock p = some bl → ∃ bl', (node.withDisk disk).readBlock p = some bl')
    (hplain : pivInputs stakeTxIn = []) {prev : Uint256} {nHeight splitHeight : ℕ}
    (h : checkForkStake env node stakeTxIn prev nHeight = .ok splitHeight) :
    checkForkStake env (node.withDisk disk) stakeTxIn prev nHeight = .ok splitHeight := by
  simp only [checkForkStake, hplain, bind_eq_ok, Prod.exists, pure_eq_ok] at h ⊢
  obtain ⟨stored, split, hscan, u, hchecks, hsplit⟩ := h
  refine ⟨stored, split, scanBranch_nil_withDisk hread hscan, u, ?_, hsplit⟩
  rw [forM_eq_ok] at hchecks ⊢
  intro zPivInput hz
  rw [checkZPIVInput_withDisk hdisk]
  exact hchecks zPivInput hz

/-- What a stored block passed. -/
theorem acceptOnto_stored_iff {pindexPrev : Option Uint256} {fAlreadyCheckedBlock : Bool} :
    acceptOnto env node block pindexPrev fAlreadyCheckedBlock = .ok .stored ↔
      (¬ ∃ prev ∈ pindexPrev, node.checkWork block prev = false) ∧
      (block.isProofOfStake = true → acceptProofOfStake env node block pindexPrev = .ok ()) ∧
      ∃ pindex, acceptBlockHeader env node block pindexPrev = .ok pindex ∧
        pindex.nStatus.haveData = false ∧
        (fAlreadyCheckedBlock = false →
          checkBlock env node.toConsensusNode block true true = .ok ()) ∧
        node.contextualCheckBlock block pindex.pprev = true ∧
        (block.isProofOfStake = true →
          checkStakeInputs env node block pindexPrev pindex.nHeight = .ok ()) ∧
        node.writeBlock block = true := by
  simp only [acceptOnto, bind_eq_ok, stopIf_eq_ok, checkWhen_eq_ok]
  constructor
  · rintro ⟨-, hwork, -, hstake, pindex, hheader, h⟩
    refine ⟨hwork, hstake, pindex, hheader, ?_⟩
    split_ifs at h with hdata
    · simp only [pure_eq_ok, reduceCtorEq] at h
    · simp only [bind_eq_ok, checkWhen_eq_ok, stopIf_eq_ok, Bool.not_eq_false] at h
      obtain ⟨-, hblock, -, hcontext, -, hinputs, -, hwrite, -⟩ := h
      exact ⟨by simpa using hdata, hblock, hcontext, hinputs, hwrite⟩
  · rintro ⟨hwork, hstake, pindex, hheader, hdata, hblock, hcontext, hinputs, hwrite⟩
    refine ⟨(), hwork, (), hstake, pindex, hheader, ?_⟩
    rw [if_neg (by simp [hdata])]
    simp only [bind_eq_ok, checkWhen_eq_ok, stopIf_eq_ok, Bool.not_eq_false, pure_eq_ok]
    exact ⟨(), hblock, (), hcontext, (), hinputs, (), hwrite, trivial⟩

theorem acceptBlock_stored_iff {fAlreadyCheckedBlock : Bool}
    (hgenesis : block.hash ≠ node.params.hashGenesisBlock) :
    acceptBlock env node block fAlreadyCheckedBlock = .ok .stored ↔
      node.view.mapBlockIndex block.hashPrevBlock = true ∧
      (node.view.index block.hashPrevBlock).nStatus.failed = false ∧
      acceptOnto env node block (some block.hashPrevBlock) fAlreadyCheckedBlock = .ok .stored := by
  unfold acceptBlock
  rw [if_neg hgenesis]
  cases hknown : node.view.mapBlockIndex block.hashPrevBlock with
  | false => simp
  | true =>
    rw [if_neg (by simp)]
    cases hfailed : (node.view.index block.hashPrevBlock).nStatus.failed with
    | false => simp
    | true =>
      simp only [if_true, true_and, Bool.true_eq_false, false_and, iff_false]
      split_ifs <;> simp

/-- On a fork, the stake checks are those against the branch and those against the coins. -/
theorem checkStakeInputs_fork_iff {prev : Uint256} {nHeight : ℕ}
    (hfork : node.view.contains prev = false) (hstake : block.vtx[1]? = some stakeTxIn) :
    checkStakeInputs env node block (some prev) nHeight = .ok () ↔
      (node.params.nZerocoinStartHeight ≤ nHeight → checkInBlockSerials env block = .ok ()) ∧
      ∃ splitHeight, checkForkStake env node stakeTxIn prev nHeight = .ok splitHeight ∧
        checkStakeAvailable node stakeTxIn (some splitHeight) = .ok () := by
  have hprev : forkPrev node (some prev) = some prev := by simp [forkPrev, hfork]
  simp only [checkStakeInputs, hstake, hprev, bind_eq_ok, orStop_eq_ok, checkWhen_eq_ok,
    Option.some.injEq]
  constructor
  · rintro ⟨_, rfl, _, hserials, hforkChecks⟩
    exact ⟨hserials, hforkChecks⟩
  · rintro ⟨hserials, hforkChecks⟩
    exact ⟨stakeTxIn, rfl, (), hserials, hforkChecks⟩

/-- A stake with zerocoin inputs only is accepted whatever the branch spent. -/
theorem acceptBlock_stored_withDisk {fAlreadyCheckedBlock : Bool}
    (hgenesis : block.hash ≠ node.params.hashGenesisBlock)
    (hpos : block.isProofOfStake = true) (hstake : block.vtx[1]? = some stakeTxIn)
    (hfork : node.view.contains block.hashPrevBlock = false)
    (hplain : pivInputs stakeTxIn = []) (hdisk : SameOnChain node disk)
    (hread : ∀ p bl, node.readBlock p = some bl → ∃ bl', (node.withDisk disk).readBlock p = some bl')
    (h : acceptBlock env node block fAlreadyCheckedBlock = .ok .stored) :
    acceptBlock env (node.withDisk disk) block fAlreadyCheckedBlock = .ok .stored := by
  rw [acceptBlock_stored_iff hgenesis, acceptOnto_stored_iff] at h
  have hgenesis' : block.hash ≠ (node.withDisk disk).params.hashGenesisBlock := hgenesis
  rw [acceptBlock_stored_iff hgenesis', acceptOnto_stored_iff]
  obtain ⟨hknown, hfailed, hwork, hkernel, pindex, hheader, hdata, hblock, hcontext, hinputs,
    hwrite⟩ := h
  refine ⟨hknown, hfailed, hwork, ?_, pindex, hheader, hdata, hblock, hcontext, ?_, hwrite⟩
  · rw [acceptProofOfStake_withDisk hdisk]
    exact hkernel
  · intro _
    have hinputs' := (checkStakeInputs_fork_iff hfork hstake).mp (hinputs hpos)
    obtain ⟨hserials, splitHeight, hforkStake, havail⟩ := hinputs'
    have hfork' : (node.withDisk disk).view.contains block.hashPrevBlock = false := hfork
    apply (checkStakeInputs_fork_iff hfork' hstake).mpr
    exact ⟨hserials, splitHeight, checkForkStake_withDisk hdisk hread hplain hforkStake, havail⟩

/-- The block on disk with one more transaction, which has a single input. -/
def addSpend (bl : CBlock) (txin : CTxIn) : CBlock :=
  { bl with vtx := bl.vtx ++ [⟨0, 1, [txin], [], 0⟩] }

/-- The last block of the branch, with one more transaction on disk. -/
def spendOnBranch (node : AcceptNode) (prev : Uint256) (bl : CBlock) (txin : CTxIn) :
    Uint256 → Option CBlock :=
  Function.update node.readBlockFromDisk prev (some (addSpend bl txin))

theorem readBlock_spendOnBranch {prev : Uint256} {bl : CBlock}
    (hbl : node.readBlock prev = some bl) :
    (node.withDisk (spendOnBranch node prev bl txin)).readBlock prev = some (addSpend bl txin) := by
  have hhash : (bl.hash == prev) = true := (Option.filter_eq_some_iff.mp hbl).2
  show ((spendOnBranch node prev bl txin) prev).filter _ = _
  rw [spendOnBranch, Function.update_self, Option.filter_some, if_pos]
  exact hhash

/-- The law on the serials of a stake on a fork holds, whatever the blocks of the branch are,
exactly when the stake has a plain input. -/
theorem stakeSerialsFresh_iff {fAlreadyCheckedBlock : Bool}
    (hgenesis : block.hash ≠ node.params.hashGenesisBlock)
    (hpos : block.isProofOfStake = true) (hstake : block.vtx[1]? = some stakeTxIn)
    (hzpiv : zpivInputs stakeTxIn ≠ [])
    (hfork : node.view.contains block.hashPrevBlock = false)
    (haccept : acceptBlock env node block fAlreadyCheckedBlock = .ok .stored) :
    (∀ disk, SameOnChain node disk →
        acceptBlock env (node.withDisk disk) block fAlreadyCheckedBlock = .ok .stored →
        StakeSerialsFresh env (node.withDisk disk) block) ↔
      HasPlainInput block := by
  constructor
  · intro hlaw
    by_contra hnone
    have hplain : pivInputs stakeTxIn = [] := by
      by_contra hsome
      exact hnone ⟨stakeTxIn, hstake, hsome⟩
    -- the branch's last block is read, and the first zerocoin input parses
    have haccept' := (acceptBlock_stored_iff hgenesis).mp haccept
    obtain ⟨-, -, honto⟩ := haccept'
    obtain ⟨-, -, pindex, -, -, -, -, hinputs, -⟩ := acceptOnto_stored_iff.mp honto
    obtain ⟨-, splitHeight, hforkStake, -⟩ :=
      (checkStakeInputs_fork_iff hfork hstake).mp (hinputs hpos)
    simp only [checkForkStake, bind_eq_ok, Prod.exists, scanBranch, orStop_eq_ok] at hforkStake
    obtain ⟨stored, split, ⟨bl, hbl, -⟩, _, hchecks, -⟩ := hforkStake
    obtain ⟨zPivInput, hz⟩ := List.exists_mem_of_ne_nil _ hzpiv
    have hcheck := (forM_eq_ok _).mp hchecks zPivInput hz
    simp only [checkZPIVInput, bind_eq_ok, parseSpend, orStop_eq_ok] at hcheck
    obtain ⟨spend, hspend, -⟩ := hcheck
    -- spend it in that block: the stake is still accepted
    have hdisk : SameOnChain node (spendOnBranch node block.hashPrevBlock bl zPivInput) := by
      intro p hp
      apply Function.update_of_ne
      rintro rfl
      exact Bool.false_ne_true (hfork.symm.trans hp)
    have hread : ∀ p bl₀, node.readBlock p = some bl₀ → ∃ bl',
        (node.withDisk (spendOnBranch node block.hashPrevBlock bl zPivInput)).readBlock p =
          some bl' := by
      intro p bl₀ hp
      by_cases hprev : p = block.hashPrevBlock
      · rw [hprev]
        exact ⟨_, readBlock_spendOnBranch hbl⟩
      · refine ⟨bl₀, ?_⟩
        show ((spendOnBranch node block.hashPrevBlock bl zPivInput) p).filter _ = _
        rw [spendOnBranch, Function.update_of_ne hprev]
        exact hp
    have hstill := acceptBlock_stored_withDisk hgenesis hpos hstake hfork hplain hdisk hread haccept
    have hfresh := hlaw _ hdisk hstill stakeTxIn hstake zPivInput hz spend hspend
      block.hashPrevBlock ⟨IsAncestor.refl _ _, hfork⟩ _ (readBlock_spendOnBranch hbl)
    have hin : zPivInput ∈ (addSpend bl zPivInput).vtx.flatMap CTransaction.vin := by
      simp [addSpend]
    exact hfresh zPivInput hin (by simpa using (List.mem_filter.mp hz).2) spend hspend rfl
  · rintro ⟨tx, htx, hplain⟩ disk _ hstored
    have hgenesis' : block.hash ≠ (node.withDisk disk).params.hashGenesisBlock := hgenesis
    have hfork' : (node.withDisk disk).view.contains block.hashPrevBlock = false := hfork
    obtain ⟨-, -, honto⟩ := (acceptBlock_stored_iff hgenesis').mp hstored
    obtain ⟨-, -, pindex, -, -, -, -, hinputs, -⟩ := acceptOnto_stored_iff.mp honto
    obtain ⟨-, splitHeight, hforkStake, -⟩ :=
      (checkStakeInputs_fork_iff hfork' htx).mp (hinputs hpos)
    intro stakeTx hstakeTx
    have hsame : stakeTx = tx := Option.some.inj (hstakeTx.symm.trans htx)
    rw [hsame]
    exact checkForkStake_fresh hplain hforkStake

end
/-! A test network node with a chain of `n + 1` blocks, past the height where zerocoin stakes
begin, and a block on a fork six blocks below the tip. The block at height `i` has hash `i + 1`; the
fork block has hash `n + 2` and spends the serial that the next block stakes. -/

def deepHash (i : ℕ) : Uint256 := BitVec.ofNat 256 (i + 1)

def deepIndex (n : ℕ) (hash : Uint256) : CBlockIndex :=
  if hash.toNat = n + 2 then { pprev := some (deepHash (n - 6)), nHeight := n - 5 }
  else
    { pprev := if hash.toNat ≤ 1 then none else some (deepHash (hash.toNat - 2))
      nHeight := hash.toNat - 1
      nTime := UInt32.ofNat (4000 * (hash.toNat - 1)) }

section
variable {n i : ℕ}

theorem deepHash_toNat (hi : i < 2 ^ 65) : (deepHash i).toNat = i + 1 := toNat_heightHash hi

theorem deepIndex_deepHash (hn : n < 2 ^ 64) (hi : i ≤ n) :
    deepIndex n (deepHash i) =
      { pprev := if i = 0 then none else some (deepHash (i - 1))
        nHeight := i
        nTime := UInt32.ofNat (4000 * i) } := by
  unfold deepIndex
  rw [deepHash_toNat (by omega), if_neg (by omega)]
  congr 1
  by_cases hzero : i = 0
  · simp [hzero]
  · rw [if_neg (by omega), if_neg hzero]
    rfl

theorem deepIndex_fork (hn : n < 2 ^ 64) :
    deepIndex n (deepHash (n + 1)) = { pprev := some (deepHash (n - 6)), nHeight := n - 5 } := by
  unfold deepIndex
  rw [deepHash_toNat (by omega), if_pos rfl]

theorem deepChain_getElem? (hi : i ≤ n) :
    ((List.range (n + 1)).map deepHash)[i]? = some (deepHash i) :=
  straight_getElem? (Nat.lt_succ_of_le hi)

theorem deepChain_some {pindex : Uint256}
    (h : ((List.range (n + 1)).map deepHash)[i]? = some pindex) : i ≤ n ∧ pindex = deepHash i := by
  obtain ⟨hlt, hhash⟩ := straight_some h
  exact ⟨Nat.le_of_lt_succ hlt, hhash⟩

/-- A hash that the view knows stands for a height of the chain or for the fork block. -/
theorem deepHash_of_known {hash : Uint256} (h : 1 ≤ hash.toNat ∧ hash.toNat ≤ n + 2) :
    hash = deepHash (hash.toNat - 1) := eq_heightHash h.1

end

def deepView (n : ℕ) (hn : n < 2 ^ 64) (hlarge : 100000005 ≤ n) : ChainView where
  mapBlockIndex := fun hash => decide (1 ≤ hash.toNat ∧ hash.toNat ≤ n + 2)
  index := deepIndex n
  chainActive := (List.range (n + 1)).map deepHash
  heights := by
    intro i pindex h
    obtain ⟨hi, rfl⟩ := deepChain_some h
    rw [deepIndex_deepHash hn hi]
  linked := by
    intro i pindex h
    obtain ⟨hi, rfl⟩ := deepChain_some h
    show (deepIndex n (deepHash i)).pprev = _
    rw [deepIndex_deepHash hn hi]
    by_cases hzero : i = 0
    · simp [hzero]
    · simp only [if_neg hzero]
      rw [deepChain_getElem? (by omega)]
  above := by
    intro pindex p hknown hprev
    rw [decide_eq_true_eq] at hknown
    have hpindex := deepHash_of_known hknown
    generalize hi : pindex.toNat - 1 = i at hpindex
    subst hpindex
    rw [decide_eq_true_eq]
    by_cases hfork : i = n + 1
    · rw [hfork, deepIndex_fork hn, Option.some.injEq] at hprev
      rw [hfork, ← hprev, deepIndex_fork hn, deepIndex_deepHash hn (by omega),
        deepHash_toNat (by omega)]
      refine ⟨by omega, ?_⟩
      show n - 5 = n - 6 + 1
      omega
    · have hle : i ≤ n := by omega
      rw [deepIndex_deepHash hn hle] at hprev ⊢
      by_cases hzero : i = 0
      · simp [hzero] at hprev
      · simp only [if_neg hzero, Option.some.injEq] at hprev
        rw [← hprev, deepIndex_deepHash hn (by omega), deepHash_toNat (by omega)]
        refine ⟨by omega, ?_⟩
        show i = i - 1 + 1
        omega

/-- A zerocoin stake, and the spend of the same serial in the fork block. -/
def deepSpend : CTxIn := ⟨⟨0, 0⟩, [OP_ZEROCOINSPEND], 1⟩

def deepStake : CTransaction := ⟨21, 1, [deepSpend], [⟨0, [], -10⟩, ⟨COIN, [4], -10⟩], 0⟩

def deepForkBlock (n : ℕ) : CBlock :=
  ⟨deepHash (n + 1), 4, deepHash (n - 6), 0, 1700000000, 0, 0, 0, [deepStake]⟩

def deepCoinBase : CTransaction := ⟨20, 1, [⟨COutPoint.null, [1, 1], 0⟩], [⟨0, [], -10⟩], 0⟩

def deepBlock (n : ℕ) : CBlock :=
  ⟨deepHash (n + 2), 4, deepHash (n + 1), 0, 1700000000, 0x03000008, 0, 0,
    [deepCoinBase, deepStake]⟩

/-- A node in its initial download. -/
def deepNode (view : ChainView) (disk : Uint256 → Option CBlock) : AcceptNode :=
  { launchNode {} empty_pprev empty_nHeight with
    mempool_hash := mempool_hash_none
    view := view
    readBlockFromDisk := disk
    adjustedTime := 1700000000
    fInitialDownload := true
    readAccumulatorValue := fun _ => some 0
    checkpointsCheckBlock := fun _ _ => true
    reconsiderBlock := fun _ => true
    checkWork := fun _ _ => true
    contextualCheckBlockHeader := fun _ _ => true
    contextualCheckBlock := fun _ _ => true
    writeBlock := fun _ => true }

def deepEnv : ConsensusEnv :=
  { launchEnv with
    txInToZerocoinSpend := fun _ => some ⟨.ZQ_ONE, 7, 0, 0, 2, .STAKE⟩
    verifySpend := fun _ _ => true
    hasValidSignature := fun _ => true }

/-- The fork block, and any block for the hashes of the chain. -/
def deepDisk (n : ℕ) (hash : Uint256) : Option CBlock :=
  if hash.toNat = n + 2 then some (deepForkBlock n) else some (launchBlock [])

theorem checkPayee_downloading {node : ConsensusNode} {block : CBlock}
    (h : node.fInitialDownload = true) : checkPayee node block = .ok () := by
  unfold checkPayee
  split
  · rfl
  · rw [checkWhen_eq_ok]
    intro hdownload
    rw [h] at hdownload
    exact absurd hdownload.2 Bool.noConfusion

theorem checkTransaction_deepCoinBase (hash : List UInt8 → Uint256) (view : ChainView)
    (disk : Uint256 → Option CBlock) :
    checkTransaction { deepEnv with hash := hash } (deepNode view disk).toConsensusNode deepCoinBase
      true = .ok () := by
  unfold checkTransaction
  simp only [bind_eq_ok]
  refine ⟨(), rfl, (), rfl, (), rfl, _, rfl, (), rfl, (), rfl, ?_⟩
  unfold checkInputKind
  rw [if_pos (by decide)]
  dsimp only
  rw [stopIf_eq_ok]
  split_ifs <;> decide

theorem checkBlock_deepBlock (view : ChainView) (disk : Uint256 → Option CBlock) (n : ℕ)
    (hgenesis : (deepBlock n).hash ≠ testNetParams.hashGenesisBlock) :
    checkBlock deepEnv (deepNode view disk).toConsensusNode (deepBlock n) true true = .ok () := by
  have hloop : (deepBlock n).vtx.foldlM (checkBlockTransaction deepEnv
      (deepNode view disk).toConsensusNode (deepBlock n)) [] = .ok [7] := by
    show [deepCoinBase, deepStake].foldlM _ _ = _
    simp only [List.foldlM_cons, List.foldlM_nil, bind_eq_ok, pure_eq_ok]
    refine ⟨[], ?_, [7], rfl, rfl⟩
    unfold checkBlockTransaction
    rw [bind_eq_ok]
    exact ⟨(), checkTransaction_deepCoinBase _ view disk, rfl⟩
  have hgenesis' : (deepBlock n).hash ≠
      (deepNode view disk).toConsensusNode.params.hashGenesisBlock := hgenesis
  unfold checkBlock
  rw [if_neg hgenesis']
  simp only [bind_eq_ok]
  exact ⟨(), rfl, (), rfl, (), rfl, (), rfl, (), rfl, (), rfl, (), checkPayee_downloading rfl, [7],
    hloop, rfl⟩

section
variable {n : ℕ} (hn : n < 2 ^ 64) (hlarge : 100000005 ≤ n)

def deepAt (n : ℕ) (hn : n < 2 ^ 64) (hlarge : 100000005 ≤ n) : AcceptNode :=
  deepNode (deepView n hn hlarge) (deepDisk n)

theorem deepView_contains {i : ℕ} (hi : i ≤ n) :
    (deepView n hn hlarge).contains (deepHash i) = true := by
  rw [ChainView.contains_iff]
  show ((List.range (n + 1)).map deepHash)[(deepIndex n (deepHash i)).nHeight]? = _
  rw [deepIndex_deepHash hn hi]
  exact deepChain_getElem? hi

theorem deepView_fork :
    (deepView n hn hlarge).contains (deepHash (n + 1)) = false := by
  rw [← Bool.not_eq_true, ChainView.contains_iff]
  show ¬ ((List.range (n + 1)).map deepHash)[(deepIndex n (deepHash (n + 1))).nHeight]? = _
  rw [deepIndex_fork hn]
  intro h
  obtain ⟨-, heq⟩ := deepChain_some h
  have hnat := congrArg BitVec.toNat heq
  rw [deepHash_toNat (by omega), deepHash_toNat (by dsimp only; omega)] at hnat
  dsimp only at hnat
  omega

/-- The stake's checksum is that of the first height where zerocoins are. -/
theorem deepView_getChecksumHeight :
    (deepView n hn hlarge).getChecksumHeight .testnet 0 .ZQ_ONE = 100000 := by
  unfold ChainView.getChecksumHeight
  have hlen : (deepView n hn hlarge).chainActive.length = n + 1 := by
    show ((List.range (n + 1)).map deepHash).length = _
    simp
  rw [hlen]
  unfold ChainView.checksumHeightLoop
  have hstart : (Params .testnet).nZerocoinStartHeight.toNat = 100000 := rfl
  have hat : (deepView n hn hlarge).chainActive[100000]? = some (deepHash 100000) :=
    deepChain_getElem? (by omega)
  rw [hstart, hat]
  dsimp only
  have hentry : (deepView n hn hlarge).index (deepHash 100000) = _ :=
    deepIndex_deepHash hn (by omega)
  rw [hentry, if_pos (by decide)]

theorem deepView_height : (deepView n hn hlarge).height = n := by
  show (((List.range (n + 1)).map deepHash).length : Int) - 1 = n
  simp

theorem getIndexFrom_deepAt (hashSerial : Uint256) :
    (CStakeInput.zpiv 0 false .ZQ_ONE hashSerial).getIndexFrom (deepAt n hn hlarge).toNode =
      some (deepHash 100000) := by
  have hchecksum : (deepAt n hn hlarge).view.getChecksumHeight (deepAt n hn hlarge).network 0
      .ZQ_ONE = 100000 := deepView_getChecksumHeight hn hlarge
  unfold CStakeInput.getIndexFrom
  dsimp only
  rw [if_neg Bool.false_ne_true, hchecksum, if_neg]
  · exact deepChain_getElem? (by omega)
  · have hstart : (Params (deepAt n hn hlarge).network).nZerocoinStartHeight = 100000 := rfl
    rw [hstart]
    rintro (hlow | hhigh)
    · omega
    · rw [show (deepAt n hn hlarge).view.height = n from deepView_height hn hlarge] at hhigh
      omega

theorem deepChain_drop {i : ℕ} (hi : i + 1 ≤ n) :
    ((List.range (n + 1)).map deepHash).drop i =
      deepHash i :: deepHash (i + 1) :: ((List.range (n + 1)).map deepHash).drop (i + 2) := by
  rw [List.drop_eq_getElem_cons (by simp; omega), List.drop_eq_getElem_cons (by simp; omega)]
  simp

/-- An hour after the stake's block the accumulators' checkpoint is the modifier. -/
theorem accumulatorModifierLoop_deepView {i : ℕ} (hi : i + 1 ≤ n) (htime : 4000 * (i + 1) < 2 ^ 32) :
    (deepView n hn hlarge).accumulatorModifierLoop ((4000 * i : ℕ) : Int)
      ((deepView n hn hlarge).chainActive.drop i) = some 0 := by
  show ChainView.accumulatorModifierLoop _ _ (((List.range (n + 1)).map deepHash).drop i) = _
  have hentry : ∀ j, j ≤ i + 1 → ((deepView n hn hlarge).index (deepHash j)).getBlockTime =
      ((4000 * j : ℕ) : Int) := by
    intro j hj
    show (deepIndex n (deepHash j)).getBlockTime = _
    rw [deepIndex_deepHash hn (by omega)]
    show ((UInt32.ofNat (4000 * j)).toNat : Int) = _
    rw [UInt32.toNat_ofNat_of_lt' (by show 4000 * j < 2 ^ 32; omega)]
  have hcheckpoint : ((deepView n hn hlarge).index (deepHash (i + 1))).nAccumulatorCheckpoint = 0 := by
    show (deepIndex n (deepHash (i + 1))).nAccumulatorCheckpoint = 0
    rw [deepIndex_deepHash hn hi]
  rw [deepChain_drop hi]
  unfold ChainView.accumulatorModifierLoop
  dsimp only
  rw [hentry i (by omega), if_neg (by omega)]
  unfold ChainView.accumulatorModifierLoop
  dsimp only
  rw [hentry (i + 1) (by omega), if_pos (by omega), hcheckpoint]
  rfl

theorem deepAt_entry {i : ℕ} (hi : i ≤ n) (htime : 4000 * i < 2 ^ 32) :
    ((deepAt n hn hlarge).view.index (deepHash i)).getBlockTime = ((4000 * i : ℕ) : Int) ∧
      ((deepAt n hn hlarge).view.index (deepHash i)).nHeight = i := by
  show (deepIndex n (deepHash i)).getBlockTime = _ ∧ (deepIndex n (deepHash i)).nHeight = i
  rw [deepIndex_deepHash hn hi]
  constructor
  · show ((UInt32.ofNat (4000 * i)).toNat : Int) = _
    rw [UInt32.toNat_ofNat_of_lt' (by show 4000 * i < 2 ^ 32; omega)]
  · rfl


theorem getModifier_zpiv {node : Node} {nChecksum : UInt32} {fMint : Bool}
    {denom : CoinDenomination} {hashSerial pindex : Uint256}
    (h : (CStakeInput.zpiv nChecksum fMint denom hashSerial).getIndexFrom node = some pindex) :
    (CStakeInput.zpiv nChecksum fMint denom hashSerial).getModifier node =
      node.view.accumulatorModifierLoop (node.view.index pindex).getBlockTime
        (node.view.chainActive.drop (node.view.index pindex).nHeight) := by
  unfold CStakeInput.getModifier
  rw [h]

theorem getModifier_deepAt (hashSerial : Uint256) :
    (CStakeInput.zpiv 0 false .ZQ_ONE hashSerial).getModifier (deepAt n hn hlarge).toNode =
      some 0 := by
  have hfrom := getIndexFrom_deepAt hn hlarge hashSerial
  generalize hi : (100000 : ℕ) = i at hfrom
  obtain ⟨htime, hheight⟩ := deepAt_entry hn hlarge (i := i) (by omega) (by omega)
  have hloop := accumulatorModifierLoop_deepView hn hlarge (i := i) (by omega) (by omega)
  rw [getModifier_zpiv hfrom, htime, hheight]
  exact hloop

theorem checkProofOfStake_of_hit {kernelEnv : KernelEnv} {node : Node} {block : CBlock}
    {stakeInput : CStakeInput} {tx : CTransaction} {txin : CTxIn} {blockprev : CBlock}
    {nStakeModifier : UInt64} {hashProofOfStake : Uint256}
    (htx : block.vtx[1]? = some tx) (hstake : tx.isCoinStake = true)
    (htxin : tx.vin.head? = some txin)
    (hinput : kernelStakeInput kernelEnv node tx txin = some stakeInput)
    (hfrom : stakeInput.blockFrom node = some blockprev)
    (hmodifier : stakeInput.getModifier node = some nStakeModifier)
    (hhit : checkStake kernelEnv stakeInput.getUniqueness stakeInput.getValue nStakeModifier
      (setCompact block.nBits) blockprev.nTime block.nTime = (true, hashProofOfStake)) :
    checkProofOfStake kernelEnv node block = some (hashProofOfStake, stakeInput) := by
  obtain ⟨first, rest, hvtx⟩ : ∃ first rest, block.vtx = first :: tx :: rest := by
    rcases hlist : block.vtx with _ | ⟨first, _ | ⟨second, rest⟩⟩
    · simp [hlist] at htx
    · simp [hlist] at htx
    · simp only [hlist, List.getElem?_cons_succ, List.getElem?_cons_zero, Option.some.injEq] at htx
      exact ⟨first, rest, by rw [htx]⟩
  obtain ⟨vin, hvin⟩ : ∃ vin, tx.vin = txin :: vin := List.head?_eq_some_iff.mp htxin
  simp only [checkProofOfStake, hvtx, hstake, hvin, hinput, hfrom, hmodifier, hhit,
    Bool.not_true, Bool.false_eq_true, if_false, if_true]

theorem checkProofOfStake_deepAt :
    checkProofOfStake deepEnv.toKernelEnv (deepAt n hn hlarge).toNode (deepBlock n) =
      some (0, .zpiv 0 false .ZQ_ONE 0) := by
  have hinput : kernelStakeInput deepEnv.toKernelEnv (deepAt n hn hlarge).toNode deepStake
      deepSpend = some (.zpiv 0 false .ZQ_ONE 0) := rfl
  have hfrom := getIndexFrom_deepAt hn hlarge 0
  have hblock : (CStakeInput.zpiv 0 false .ZQ_ONE 0).blockFrom (deepAt n hn hlarge).toNode =
      some (launchBlock []) := by
    unfold CStakeInput.blockFrom
    rw [hfrom]
    show deepDisk n (deepHash 100000) = _
    unfold deepDisk
    rw [deepHash_toNat (by omega), if_neg (by omega)]
  have hhit : checkStake deepEnv.toKernelEnv (CStakeInput.zpiv 0 false .ZQ_ONE 0).getUniqueness
      (CStakeInput.zpiv 0 false .ZQ_ONE 0).getValue 0 (setCompact 0x03000008) 1600000000
      1700000000 = (true, 0) := by decide
  exact checkProofOfStake_of_hit rfl (by decide) rfl hinput hblock
    (getModifier_deepAt hn hlarge 0) hhit

theorem contextualCheckZerocoinStake_deepAt :
    contextualCheckZerocoinStake (deepAt n hn hlarge) (n - 5) (.zpiv 0 false .ZQ_ONE 0) =
      .ok () := by
  have hfrom := getIndexFrom_deepAt hn hlarge 0
  generalize hi : (100000 : ℕ) = i at hfrom
  have hindex := (deepAt_entry hn hlarge (i := i) (by omega) (by omega)).2
  have hheight : (deepAt n hn hlarge).view.height = n := deepView_height hn hlarge
  have hbelow : (deepAt n hn hlarge).view.chainAt (((n - 5 : ℕ) : Int) - 50) =
      some (deepHash (n - 55)) := by
    unfold ChainView.chainAt
    rw [if_neg (by omega), show (((n - 5 : ℕ) : Int) - 50).toNat = n - 55 by omega]
    exact deepChain_getElem? (by omega)
  have hcheckpoint : ((deepAt n hn hlarge).view.index (deepHash (n - 55))).nAccumulatorCheckpoint
      = 0 := by
    show (deepIndex n (deepHash (n - 55))).nAccumulatorCheckpoint = _
    rw [deepIndex_deepHash hn (by omega)]
  have hdepth : (deepAt n hn hlarge).params.nZerocoinRequiredStakeDepth = 50 := rfl
  have hstart : (deepAt n hn hlarge).params.nBlockZerocoinV2 = 99999999 := rfl
  simp only [contextualCheckZerocoinStake, hdepth, hstart, bind_eq_ok, stopIf_eq_ok,
    orStop_eq_ok]
  refine ⟨(), by omega, _, hfrom, (), ?_, _, hbelow, ?_⟩
  · rw [hindex, hheight]
    omega
  · rw [hcheckpoint]
    decide

theorem acceptProofOfStake_zpiv {env : ConsensusEnv} {node : AcceptNode} {block : CBlock}
    {prev hashProofOfStake hashSerial : Uint256} {nChecksum : UInt32} {fMint : Bool}
    {denom : CoinDenomination}
    (hkernel : checkProofOfStake env.toKernelEnv node.toNode block =
      some (hashProofOfStake, .zpiv nChecksum fMint denom hashSerial))
    (hcontext : contextualCheckZerocoinStake node (node.view.index prev).nHeight
      (.zpiv nChecksum fMint denom hashSerial) = .ok ()) :
    acceptProofOfStake env node block (some prev) = .ok () := by
  simp only [acceptProofOfStake, hkernel, bind_eq_ok, orStop_eq_ok]
  refine ⟨_, rfl, ?_⟩
  dsimp only
  rw [bind_eq_ok]
  refine ⟨prev, rfl, ?_⟩
  rw [hcontext]

theorem acceptProofOfStake_deepAt :
    acceptProofOfStake deepEnv (deepAt n hn hlarge) (deepBlock n) (some (deepHash (n + 1))) =
      .ok () := by
  have hprev : ((deepAt n hn hlarge).view.index (deepHash (n + 1))).nHeight = n - 5 := by
    show (deepIndex n (deepHash (n + 1))).nHeight = _
    rw [deepIndex_fork hn]
  apply acceptProofOfStake_zpiv (checkProofOfStake_deepAt hn hlarge)
  rw [hprev]
  exact contextualCheckZerocoinStake_deepAt hn hlarge

theorem deepHash_not_genesis (hsmall : n < 2 ^ 65) :
    deepHash n ≠ testNetParams.hashGenesisBlock := by
  intro heq
  have hnat := congrArg BitVec.toNat heq
  have hgenesis : 2 ^ 66 < testNetParams.hashGenesisBlock.toNat := by decide
  rw [deepHash_toNat hsmall] at hnat
  omega

theorem acceptBlockHeader_deepAt :
    acceptBlockHeader deepEnv (deepAt n hn hlarge) (deepBlock n) (some (deepHash (n + 1))) =
      .ok { pprev := some (deepHash (n + 1)), nHeight := n - 4, nVersion := 4,
            nTime := 1700000000, nBits := 0x03000008 } := by
  have hunknown : (deepAt n hn hlarge).view.mapBlockIndex (deepBlock n).hash = false := by
    show decide _ = false
    rw [decide_eq_false_iff_not]
    show ¬ (1 ≤ (deepHash (n + 2)).toNat ∧ (deepHash (n + 2)).toNat ≤ n + 2)
    rw [deepHash_toNat (by omega)]
    omega
  have hprev : ((deepAt n hn hlarge).view.index (deepHash (n + 1))).nHeight = n - 5 := by
    show (deepIndex n (deepHash (n + 1))).nHeight = _
    rw [deepIndex_fork hn]
  unfold acceptBlockHeader
  rw [hunknown, if_neg Bool.false_ne_true]
  simp only [bind_eq_ok]
  refine ⟨(), rfl, (), rfl, ?_⟩
  rw [pure_eq_ok, Option.map_some, Option.getD_some, hprev, show n - 5 + 1 = n - 4 by omega]
  rfl

theorem readBlock_deepAt :
    (deepAt n hn hlarge).readBlock (deepHash (n + 1)) = some (deepForkBlock n) := by
  show (deepDisk n (deepHash (n + 1))).filter _ = _
  unfold deepDisk
  rw [deepHash_toNat (by omega), if_pos rfl, Option.filter_some, if_pos]
  exact beq_self_eq_true (deepHash (n + 1))

theorem checkStakeInputs_deepAt :
    checkStakeInputs deepEnv (deepAt n hn hlarge) (deepBlock n) (some (deepHash (n + 1))) (n - 4) =
      .ok () := by
  have hfork : (deepAt n hn hlarge).view.contains (deepHash (n + 1)) = false :=
    deepView_fork hn hlarge
  have hentry : (deepAt n hn hlarge).view.index (deepHash (n + 1)) = _ := deepIndex_fork hn
  have hsplit : (deepAt n hn hlarge).view.contains (deepHash (n - 6)) = true :=
    deepView_contains hn hlarge (by omega)
  have hscan : scanBranch deepEnv (deepAt n hn hlarge) [] true (n - 5 + 1) (deepHash (n + 1)) [] =
      .ok ([], deepHash (n - 6)) := by
    simp only [scanBranch, bind_eq_ok, orStop_eq_ok, foldlM_scanInput_nil]
    refine ⟨_, readBlock_deepAt hn hlarge, [], rfl, deepHash (n - 6), ?_, ?_⟩
    · show ((deepAt n hn hlarge).view.index (deepHash (n + 1))).pprev = _
      rw [hentry]
    · rw [hsplit]
      rfl
  have hcontext : contextualCheckZerocoinSpendNoSerialCheck deepEnv
      (deepAt n hn hlarge).toConsensusNode deepStake ⟨.ZQ_ONE, 7, 0, 0, 2, .STAKE⟩
      ((n - 4 : ℕ) : Int) = true := by
    have hcoinStake : deepStake.isCoinStake = true := by decide
    unfold contextualCheckZerocoinSpendNoSerialCheck
    rw [if_pos hcoinStake]
    split_ifs <;> rfl
  rw [checkStakeInputs_fork_iff hfork rfl]
  refine ⟨fun _ => rfl, ((deepAt n hn hlarge).view.index (deepHash (n - 6))).nHeight, ?_, rfl⟩
  simp only [checkForkStake, bind_eq_ok, Prod.exists, pure_eq_ok]
  refine ⟨[], deepHash (n - 6), ?_, (), ?_, rfl⟩
  · rw [hentry]
    exact hscan
  · rw [forM_eq_ok]
    intro zPivInput _
    simp only [checkZPIVInput, bind_eq_ok, parseSpend, orStop_eq_ok, stopIf_eq_ok]
    refine ⟨_, rfl, (), List.not_mem_nil, (), ?_, (), ?_, 0, rfl, Bool.noConfusion⟩
    · rintro ⟨nHeightTx, hserial, -⟩
      exact absurd hserial (Option.not_mem_none nHeightTx)
    · rw [hcontext]
      exact Bool.noConfusion

theorem deepStake_zpivInputs : zpivInputs deepStake ≠ [] := by decide

theorem acceptBlock_deepAt :
    acceptBlock deepEnv (deepAt n hn hlarge) (deepBlock n) false = .ok .stored := by
  have hgenesis : (deepBlock n).hash ≠ testNetParams.hashGenesisBlock :=
    deepHash_not_genesis (by omega)
  have hknown : (deepAt n hn hlarge).view.mapBlockIndex (deepHash (n + 1)) = true := by
    show decide _ = true
    rw [decide_eq_true_eq, deepHash_toNat (by omega)]
    omega
  have hentry : (deepAt n hn hlarge).view.index (deepHash (n + 1)) = _ := deepIndex_fork hn
  have hgenesis' : (deepBlock n).hash ≠ (deepAt n hn hlarge).params.hashGenesisBlock := hgenesis
  rw [acceptBlock_stored_iff hgenesis', acceptOnto_stored_iff]
  refine ⟨hknown, ?_, ?_, fun _ => acceptProofOfStake_deepAt hn hlarge, _,
    acceptBlockHeader_deepAt hn hlarge, rfl, fun _ => checkBlock_deepBlock _ _ n hgenesis, rfl,
    fun _ => checkStakeInputs_deepAt hn hlarge, rfl⟩
  · show ((deepAt n hn hlarge).view.index (deepHash (n + 1))).nStatus.failed = false
    rw [hentry]
    rfl
  · rintro ⟨prev, -, hwork⟩
    exact Bool.noConfusion hwork

end

/-- The test network node some blocks above the height where zerocoin stakes begin. -/
def stakingNode : AcceptNode := deepAt 100000100 (by norm_num) (by norm_num)

def stakingBlock : CBlock := deepBlock 100000100

theorem acceptBlock_stakingBlock :
    acceptBlock deepEnv stakingNode stakingBlock false = .ok .stored :=
  acceptBlock_deepAt (by norm_num) (by norm_num)

theorem stakingNode_fork : stakingNode.view.contains stakingBlock.hashPrevBlock = false :=
  deepView_fork (by norm_num) (by norm_num)

/-- The stake is accepted though the fork spends its serial. -/
theorem not_stakeSerialsFresh_stakingBlock :
    acceptBlock deepEnv stakingNode stakingBlock false = .ok .stored ∧
      ¬ StakeSerialsFresh deepEnv stakingNode stakingBlock := by
  refine ⟨acceptBlock_stakingBlock, ?_⟩
  intro hfresh
  have hread : stakingNode.readBlock stakingBlock.hashPrevBlock = some (deepForkBlock 100000100) :=
    readBlock_deepAt (by norm_num) (by norm_num)
  have hbranch : OnBranch stakingNode.view stakingBlock.hashPrevBlock stakingBlock.hashPrevBlock :=
    ⟨IsAncestor.refl _ _, stakingNode_fork⟩
  exact hfresh deepStake rfl deepSpend List.mem_cons_self _ rfl _ hbranch _ hread deepSpend
    List.mem_cons_self rfl _ rfl rfl

theorem stakeSerialsFresh_iff_stakingBlock :
    (∀ disk, SameOnChain stakingNode disk →
        acceptBlock deepEnv (stakingNode.withDisk disk) stakingBlock false = .ok .stored →
        StakeSerialsFresh deepEnv (stakingNode.withDisk disk) stakingBlock) ↔
      HasPlainInput stakingBlock := by
  have hgenesis : stakingBlock.hash ≠ stakingNode.params.hashGenesisBlock :=
    deepHash_not_genesis (by norm_num)
  have hpos : stakingBlock.isProofOfStake = true := rfl
  have hstake : stakingBlock.vtx[1]? = some deepStake := rfl
  exact stakeSerialsFresh_iff hgenesis hpos hstake deepStake_zpivInputs stakingNode_fork
    acceptBlock_stakingBlock

end Lytix
