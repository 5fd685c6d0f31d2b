import Lytix.Mining.CollectedTransactions
import Lytix.Validation.Conservation

/-! A block made by `CreateNewBlock` is self-consistent, as long as no spend is held back by the
serials of one that was skipped. -/
namespace Lytix

open CountEntries Dependencies Heaps Checks

variable {δ : Type} [LinearOrder δ]

section
variable [Zero δ] [Add δ] (env : MinerEnv δ) (node : MinerNode δ) (nHeight : Int)

/-- Why a transaction of the pool is not among those in the block: no block takes it or it misses
an input, it waits for a transaction that is not in the block, or it fails one of its own tests
when it is taken off the queue. -/
inductive LeftOut (vtx : List CTransaction) (tx : CTransaction) : Prop
  | notConsidered (h : node.considers nHeight tx = false)
  | waits (p : Uint256) (hp : p ∈ node.poolParents tx) (h : p ∉ vtx.map CTransaction.hash)
  | fails (e : TxPriority δ) (st : CollectState δ) (hround : (e, st) ∈ rounds env node nHeight)
      (htx : e.tx = tx) (h : ¬PassesTests env node nHeight st e)

/-- The transactions of a block that come from the pool. -/
def CBlock.poolTransactions (block : CBlock) (fProofOfStake : Bool) : List CTransaction :=
  block.vtx.drop (if fProofOfStake then 2 else 1)

/-- Sizes and signature operations are counted from what is reserved for the coinbase. -/
structure SelfConsistent (fProofOfStake : Bool) (block : CBlock) : Prop where
  order : Ordered CTransaction.hash node.poolParents (block.poolTransactions fProofOfStake)
  outpoints : (spentOutPoints block.vtx).Nodup
  serials : (zerocoinSerials env.toConsensusEnv block.vtx).Nodup
  size : 1000 + ((block.poolTransactions fProofOfStake).map env.txSize).sum < node.nBlockMaxSize
  sigOps : 100 + sigOpsFrom env nHeight node.coins (block.poolTransactions fProofOfStake) <
    MAX_BLOCK_SIGOPS_CURRENT
  leftOut : ∀ tx ∈ node.pool.transactions, tx ∉ block.poolTransactions fProofOfStake →
    LeftOut env node nHeight (block.poolTransactions fProofOfStake) tx

/-- Some rounds of the loop, one after the other. -/
inductive Collects (mapDependers : Uint256 → List Uint256) :
    CollectState δ → List (TxPriority δ × CollectState δ) → CollectState δ → Prop
  | done (st : CollectState δ) : Collects mapDependers st [] st
  | round {st st₁ st₂ st' : CollectState δ} {e : TxPriority δ}
      {later : List (TxPriority δ × CollectState δ)} (htop : takeTop env st = some (e, st₁))
      (hstep : collectTx env node nHeight mapDependers st₁ e = some st₂)
      (hlater : Collects mapDependers st₂ later st') :
      Collects mapDependers st ((e, st₁) :: later) st'

end

section
variable [Zero δ] [Add δ] {env : MinerEnv δ} {node : MinerNode δ} {nHeight : Int}
  {mapDependers : Uint256 → List Uint256} {items : List (TxPriority δ)} {seen : List Uint256}
  {st st' : CollectState δ} {steps : List (TxPriority δ × CollectState δ)}

theorem collects_of_collect {n : ℕ}
    (h : collect env node nHeight mapDependers n st = some st') :
    Collects env node nHeight mapDependers st
      (roundsFrom env node nHeight mapDependers n st) st' := by
  induction n generalizing st with
  | zero =>
    obtain rfl := Option.some.inj h
    exact Collects.done st
  | succ n ih =>
    rw [collect] at h
    rw [roundsFrom]
    cases htop : takeTop env st with
    | none =>
      rw [htop] at h
      obtain rfl := Option.some.inj h
      exact Collects.done st
    | some top =>
      obtain ⟨e, st₁⟩ := top
      rw [htop] at h
      obtain ⟨st₂, hstep, hrest⟩ := Option.bind_eq_some_iff.mp h
      dsimp only
      rw [hstep]
      exact Collects.round htop hstep (ih hrest)

theorem Collects.collecting (h : Collects env node nHeight mapDependers st steps st')
    (hst : Collecting env node nHeight mapDependers items seen st) :
    Collecting env node nHeight mapDependers items (seen ++ steps.map fun r => r.1.tx.hash) st' := by
  induction h generalizing seen with
  | done st => simpa using hst
  | round htop hstep _ ih =>
    have hnext := ih (hst.step htop hstep).1
    simpa using hnext

/-- What is placed stays, and what comes to it was taken off the queue. -/
theorem Collects.placed (h : Collects env node nHeight mapDependers st steps st')
    (hst : Collecting env node nHeight mapDependers items seen st) :
    st.vtx ⊆ st'.vtx ∧
      ∀ tx ∈ st'.vtx, tx ∈ st.vtx ∨ tx.hash ∈ steps.map fun r => r.1.tx.hash := by
  induction h generalizing seen with
  | done st => exact ⟨List.Subset.refl _, fun tx htx => Or.inl htx⟩
  | round htop hstep _ ih =>
    obtain ⟨hmid, hresult⟩ := hst.step htop hstep
    obtain ⟨hkeeps, hnew⟩ := ih hmid
    rcases hresult with ⟨-, -, hvtx⟩ | ⟨-, hvtx⟩
    · rw [hvtx] at hkeeps hnew
      refine ⟨List.Subset.trans (List.subset_append_left _ _) hkeeps, fun tx htx => ?_⟩
      rcases hnew tx htx with hold | hlater
      · rcases List.mem_append.mp hold with hbefore | hplaced
        · exact Or.inl hbefore
        · rw [List.mem_singleton.mp hplaced]
          exact Or.inr List.mem_cons_self
      · exact Or.inr (List.mem_cons_of_mem _ hlater)
    · rw [hvtx] at hkeeps hnew
      refine ⟨hkeeps, fun tx htx => ?_⟩
      exact (hnew tx htx).imp_right (List.mem_cons_of_mem _)

/-- In every round: the transaction has its parents in the block, and it is in the block in the
end exactly when it passed its tests there and met no serial recorded before. -/
theorem Collects.round_spec (h : Collects env node nHeight mapDependers st steps st')
    (hst : Collecting env node nHeight mapDependers items seen st) :
    ∀ r ∈ steps, r.1 ∈ items ∧
      (∀ p ∈ node.poolParents r.1.tx, p ∈ st'.vtx.map CTransaction.hash) ∧
      (r.1.tx ∈ st'.vtx ↔
        PassesTests env node nHeight r.2 r.1 ∧ ¬MeetsRecorded env.toConsensusEnv r.2 r.1) := by
  induction h generalizing seen with
  | done st => simp
  | @round st st₁ st₂ st' e later htop hstep hlater ih =>
    obtain ⟨hmid, hresult⟩ := hst.step htop hstep
    intro r hr
    rcases List.mem_cons.mp hr with rfl | hr
    · obtain ⟨rest, htake, rfl⟩ := takeTop_eq_some htop
      obtain ⟨hperm, -⟩ := HeapFunctions.takeFirst_spec hst.isHeap htake
      have hready : e ∈ st.vecPriority := hperm.mem_iff.mpr List.mem_cons_self
      obtain ⟨hkeeps, hnew⟩ := hlater.placed hmid
      have hend := hlater.collecting hmid
      have hbefore : st.vtx ⊆ st₂.vtx := by
        rcases hresult with ⟨-, -, hvtx⟩ | ⟨-, hvtx⟩
        · simp [hvtx]
        · simp [hvtx]
      refine ⟨hst.pending.ready_mem e hready, ?_, ?_⟩
      · intro p hp
        have hparent := hst.pending.ready_placed e hready p hp
        exact List.map_subset _ (List.Subset.trans hbefore hkeeps) hparent
      · rcases hresult with ⟨passes, hmeets, hvtx⟩ | ⟨hnot, hvtx⟩
        · have hplaced : e.tx ∈ st'.vtx := hkeeps (by simp [hvtx])
          exact ⟨fun _ => ⟨passes, hmeets⟩, fun _ => hplaced⟩
        · refine ⟨fun hin => ?_, fun hboth => absurd hboth hnot⟩
          -- it was not placed before, and it does not come again
          rcases hnew e.tx hin with hold | hagain
          · rw [hvtx] at hold
            have hseen := hst.placed_seen (List.mem_map_of_mem hold)
            exact absurd hseen (hst.pending.key_notMem hperm).1
          · have hdistinct := hend.pending.distinct
            rw [List.nodup_append, List.nodup_append] at hdistinct
            exact absurd rfl (hdistinct.1.2.2 e.tx.hash (by simp) _ hagain)
    · exact ih hmid r hr

/-- Enough rounds empty the queue. -/
theorem collect_done {n : ℕ} (h : collect env node nHeight mapDependers n st = some st')
    (hst : Collecting env node nHeight mapDependers items seen st)
    (hn : items.length ≤ seen.length + n) : st'.vecPriority = [] := by
  induction n generalizing st seen with
  | zero =>
    obtain rfl := Option.some.inj h
    have hle := hst.pending.length_le hst.seen_mem
    exact List.eq_nil_of_length_eq_zero (by omega)
  | succ n ih =>
    rw [collect] at h
    cases htop : takeTop env st with
    | none =>
      rw [htop] at h
      obtain rfl := Option.some.inj h
      exact HeapFunctions.takeFirst_eq_none.mp (Option.map_eq_none_iff.mp htop)
    | some top =>
      obtain ⟨e, st₁⟩ := top
      rw [htop] at h
      obtain ⟨st₂, hstep, hrest⟩ := Option.bind_eq_some_iff.mp h
      refine ih hrest (hst.step htop hstep).1 ?_
      rw [List.length_append, List.length_singleton]
      omega

omit [Zero δ] [Add δ] in
theorem collecting_start {scan : PoolScan δ}
    (hscan : Scanned node nHeight node.pool.transactions items scan) :
    Collecting env node nHeight scan.mapDependers items [] (startCollecting env node scan) where
  pending := hscan.pending.perm ((env.heap _).make_perm _)
  isHeap := (env.heap _).make_isHeap _
  ordered := by
    intro before x after heq
    exact absurd heq (by simp [startCollecting])
  members := by simp [startCollecting]
  seen_mem := List.nil_subset _
  placed_seen := by simp [startCollecting]
  distinct := by simp [startCollecting]
  view := rfl
  size := rfl
  fits := Or.inl rfl
  sigOps := rfl
  few := by
    show 100 < MAX_BLOCK_SIGOPS_CURRENT
    decide
  recorded := ⟨by simp [startCollecting, zerocoinSerials], by simp [startCollecting]⟩

/-- What was collected, after all rounds. -/
theorem collectPool_spec (h : collectPool env node nHeight = some st) :
    ∃ items mapDependers, items.map TxPriority.tx =
        node.pool.transactions.filter (node.considers nHeight) ∧
      Collecting env node nHeight mapDependers items
        ((rounds env node nHeight).map fun r => r.1.tx.hash) st ∧
      st.vecPriority = [] ∧
      ∀ r ∈ rounds env node nHeight, r.1 ∈ items ∧
        (∀ p ∈ node.poolParents r.1.tx, p ∈ st.vtx.map CTransaction.hash) ∧
        (r.1.tx ∈ st.vtx ↔
          PassesTests env node nHeight r.2 r.1 ∧ ¬MeetsRecorded env.toConsensusEnv r.2 r.1) := by
  unfold collectPool at h
  rw [Option.bind_eq_bind, Option.bind_eq_some_iff] at h
  obtain ⟨scan, hscan, hcollect⟩ := h
  obtain ⟨items, scanned⟩ := scanned_scanPool hscan
  have hstart := @collecting_start _ _ env _ _ _ _ scanned
  have hcollects := collects_of_collect hcollect
  have hrounds : rounds env node nHeight = roundsFrom env node nHeight scan.mapDependers
      node.pool.transactions.length (startCollecting env node scan) := by
    rw [rounds, hscan]
  rw [hrounds]
  refine ⟨items, scan.mapDependers, scanned.items_eq, hcollects.collecting hstart, ?_,
    hcollects.round_spec hstart⟩
  refine collect_done hcollect hstart ?_
  have hlength := congrArg List.length scanned.items_eq
  have hfilter := List.length_filter_le (node.considers nHeight) node.pool.transactions
  rw [List.length_map] at hlength
  rw [List.length_nil]
  omega

end

/-! What the test of the block adds. -/

section
variable {env : ConsensusEnv} {node : ConsensusNode} {block : CBlock} {reason : String}
  {vin : List CTxIn} {vtx : List CTransaction} {serials serials' : List Int}

theorem isOk_eq_true {ε α : Type} {x : Except ε α} (h : x.isOk = true) : ∃ a, x = .ok a := by
  cases x with
  | error => contradiction
  | ok a => exact ⟨a, rfl⟩

theorem foldlM_checkSerial (h : vin.foldlM (checkSerial env reason) serials = .ok serials')
    (hnodup : serials.Nodup) :
    serials' = (serialsOf env vin).reverse ++ serials ∧ serials'.Nodup := by
  induction vin generalizing serials with
  | nil =>
    rw [List.foldlM_nil, pure_eq_ok] at h
    subst h
    exact ⟨rfl, hnodup⟩
  | cons txin vin ih =>
    rw [List.foldlM_cons, bind_eq_ok] at h
    obtain ⟨mid, hstep, hrest⟩ := h
    unfold checkSerial at hstep
    by_cases hspend : txin.scriptSig.isZerocoinSpend = true
    · rw [if_neg (by simp [hspend])] at hstep
      simp only [bind_eq_ok, stopIf_eq_ok, pure_eq_ok, parseSpend, orStop_eq_ok] at hstep
      obtain ⟨spend, hread, -, hfresh, rfl⟩ := hstep
      obtain ⟨hserials, hend⟩ := ih hrest (List.nodup_cons.mpr ⟨hfresh, hnodup⟩)
      refine ⟨?_, hend⟩
      rw [hserials]
      simp [serialsOf, hspend, hread]
    · rw [Bool.not_eq_true] at hspend
      rw [if_pos hspend] at hstep
      obtain rfl := Except.ok.inj hstep
      obtain ⟨hserials, hend⟩ := ih hrest hnodup
      refine ⟨?_, hend⟩
      rw [hserials]
      simp [serialsOf, hspend]

theorem foldlM_checkBlockTransaction
    (h : vtx.foldlM (checkBlockTransaction env node block) serials = .ok serials')
    (hnodup : serials.Nodup) :
    serials' = (zerocoinSerials env vtx).reverse ++ serials ∧ serials'.Nodup := by
  induction vtx generalizing serials with
  | nil =>
    rw [List.foldlM_nil, pure_eq_ok] at h
    subst h
    exact ⟨rfl, hnodup⟩
  | cons tx vtx ih =>
    rw [List.foldlM_cons, bind_eq_ok] at h
    obtain ⟨mid, hstep, hrest⟩ := h
    unfold checkBlockTransaction at hstep
    rw [bind_eq_ok] at hstep
    obtain ⟨_, -, hstep⟩ := hstep
    have hmid : mid = (if tx.isZerocoinSpend then serialsOf env tx.vin else []).reverse ++ serials ∧
        mid.Nodup := by
      split_ifs at hstep ⊢
      · exact foldlM_checkSerial hstep hnodup
      · obtain rfl := pure_eq_ok.mp hstep
        exact ⟨rfl, hnodup⟩
    obtain ⟨hserials, hend⟩ := ih hrest hmid.2
    refine ⟨?_, hend⟩
    rw [hserials, hmid.1]
    simp [zerocoinSerials]

/-- No serial is spent twice in a block that is checked. -/
theorem nodup_zerocoinSerials {fCheckPOW fCheckMerkleRoot : Bool}
    (hgenesis : block.hash ≠ node.params.hashGenesisBlock)
    (h : checkBlock env node block fCheckPOW fCheckMerkleRoot = .ok ()) :
    (zerocoinSerials env block.vtx).Nodup := by
  unfold checkBlock at h
  rw [if_neg hgenesis] at h
  simp only [bind_eq_ok] at h
  obtain ⟨_, -, _, -, _, -, _, -, _, -, _, -, _, -, serials, hloop, -⟩ := h
  obtain ⟨hserials, hnodup⟩ := foldlM_checkBlockTransaction hloop List.nodup_nil
  rw [hserials, List.append_nil, List.nodup_reverse] at hnodup
  exact hnodup

/-- No outpoint is spent twice in a block that is connected, if its transactions have different
hashes. -/
theorem nodup_spentOutPoints_of_connectBlock {coins : CoinsMap} {hashBestBlock : Uint256}
    {pindex : CBlockIndex} {fJustCheck fAlreadyChecked : Bool} {outcome : ConnectOutcome}
    (h : connectBlock env node block coins hashBestBlock pindex fJustCheck fAlreadyChecked =
      .ok outcome) (hdistinct : (block.vtx.map CTransaction.hash).Nodup) :
    (spentOutPoints block.vtx).Nodup := by
  obtain ⟨fScriptChecks, st, supplied, hheader, hloop, -⟩ := connectBlock_eq_ok h
  simp only [connectBlockHeader, bind_eq_ok, stopIf_eq_ok] at hheader
  obtain ⟨-, -, -, -, -, -, -, -, hfresh⟩ := hheader
  refine nodup_spentOutPoints (foldlM_connectTx_coins hloop) ?_ hdistinct
  intro tx htx
  by_contra hcoins
  exact hfresh ⟨tx, htx, by simpa using hcoins⟩

end

section
variable [Zero δ] [Add δ] {env : MinerEnv δ} {node : MinerNode δ} {fProofOfStake : Bool}
  {tip : Uint256} {template : CBlockTemplate}

/-- The block that is made: its coin transactions, what was collected, and the test it passed. -/
theorem createNewBlock_eq_some (htip : node.view.tip = some tip)
    (h : createNewBlock env node fProofOfStake = some template) : ∃ st coinTxs,
    collectPool env node (nextHeight node tip) = some st ∧
      coinTransactions node fProofOfStake st.nFees = some coinTxs ∧
      template.block.vtx = coinTxs ++ st.vtx ∧
      testBlockValidity env node tip template.block = true := by
  unfold createNewBlock at h
  rw [htip, Option.bind_eq_bind, Option.bind_some] at h
  simp only [Option.bind_eq_bind, Option.bind_eq_some_iff] at h
  obtain ⟨st, hst, coinTxs, hcoinTxs, h⟩ := h
  by_cases htest : testBlockValidity env node tip (fillBlock node tip (coinTxs ++ st.vtx)) = true
  · rw [if_pos htest] at h
    obtain rfl := Option.some.inj h
    exact ⟨st, coinTxs, hst, hcoinTxs, rfl, htest⟩
  · rw [if_neg htest] at h
    contradiction

omit [Zero δ] [Add δ] in
theorem testBlockValidity_spec {block : CBlock} (h : testBlockValidity env node tip block = true) :
    checkBlock env.toConsensusEnv node.toConsensusNode block false false = .ok () ∧
      ∃ pindex outcome, connectBlock env.toConsensusEnv node.toConsensusNode block node.coins
        node.hashBestBlock pindex true false = .ok outcome := by
  simp only [testBlockValidity, Bool.and_eq_true] at h
  obtain ⟨⟨⟨-, hcheck⟩, -⟩, hconnect⟩ := h
  obtain ⟨_, hcheck⟩ := isOk_eq_true hcheck
  obtain ⟨outcome, hconnect⟩ := isOk_eq_true hconnect
  exact ⟨hcheck, _, outcome, hconnect⟩

omit [LinearOrder δ] [Zero δ] [Add δ] in
/-- The coinbase comes first, and nothing else is there but a coinstake. -/
theorem coinTransactions_eq_some {nFees : Int} {coinTxs : List CTransaction}
    (h : coinTransactions node fProofOfStake nFees = some coinTxs) :
    ∃ rest, coinTxs = node.coinBase nFees :: rest ∧ (∀ tx ∈ rest, tx.isCoinStake = true) ∧
      rest.length + 1 = (if fProofOfStake then 2 else 1) ∧ rest.Pairwise (· ≠ ·) := by
  unfold coinTransactions at h
  cases fProofOfStake with
  | true =>
    rw [if_pos rfl] at h
    obtain ⟨txCoinStake, -, rfl⟩ := Option.map_eq_some_iff.mp h
    exact ⟨[txCoinStake.1], rfl, by simpa using txCoinStake.2, rfl, List.pairwise_singleton _ _⟩
  | false =>
    obtain rfl := Option.some.inj h
    exact ⟨[], rfl, by simp, rfl, List.Pairwise.nil⟩

omit [LinearOrder δ] [Zero δ] [Add δ] in
theorem not_coin_of_considers {nHeight : Int} {tx : CTransaction}
    (h : node.considers nHeight tx = true) : tx.isCoinBase = false ∧ tx.isCoinStake = false := by
  simp only [MinerNode.considers, skipsTx, Bool.and_eq_true, Bool.not_eq_true',
    Bool.or_eq_false_iff] at h
  exact ⟨h.1.1.1.1, h.1.1.1.2⟩

omit [LinearOrder δ] [Zero δ] [Add δ] in
/-- The transactions of the block have different hashes: those of the pool are told apart by
them, and the pool gives neither coinbase nor coinstake. -/
theorem nodup_block_hash {st : CollectState δ} {block : CBlock} {nFees : Int}
    {coinTxs : List CTransaction} (hcoinTxs : coinTransactions node fProofOfStake nFees = some coinTxs)
    (hvtx : block.vtx = coinTxs ++ st.vtx) (hcoin : checkCoinTransactions block = .ok ())
    (hplaced : (st.vtx.map CTransaction.hash).Nodup)
    (hpool : ∀ tx ∈ st.vtx, tx.isCoinBase = false ∧ tx.isCoinStake = false)
    (hcollision : ∀ tx ∈ block.vtx, ∀ tx' ∈ block.vtx, tx.hash = tx'.hash → tx = tx') :
    (block.vtx.map CTransaction.hash).Nodup := by
  obtain ⟨rest, rfl, hstake, -, hrest⟩ := coinTransactions_eq_some hcoinTxs
  obtain ⟨⟨first, hfirst, hbase⟩, hlater, -⟩ := checkCoinTransactions_eq_ok hcoin
  rw [hvtx] at hcollision hfirst hlater ⊢
  rw [List.cons_append, List.head?_cons, Option.some.injEq] at hfirst
  rw [List.cons_append, List.drop_one, List.tail_cons] at hlater
  have hvtx' : (rest ++ st.vtx).Nodup := by
    refine List.nodup_append.mpr ⟨hrest, hplaced.of_map _, ?_⟩
    rintro tx htx _ htx' rfl
    exact Bool.false_ne_true ((hpool tx htx').2.symm.trans (hstake tx htx))
  have hall : (node.coinBase nFees :: (rest ++ st.vtx)).Nodup := by
    refine List.nodup_cons.mpr ⟨fun hmem => ?_, hvtx'⟩
    have hnot := hlater _ hmem
    rw [← hfirst] at hbase
    exact Bool.false_ne_true (hnot.symm.trans hbase)
  exact hall.map_on fun tx htx tx' htx' heq => hcollision tx htx tx' htx' heq

/-- A block that is made is self-consistent exactly when there is room above what is reserved for
the coinbase, and no spend that passes its own tests met a serial which was recorded before: it
can only have been recorded for a spend that was skipped. -/
theorem createNewBlock_selfConsistent_iff (htip : node.view.tip = some tip)
    (hmade : createNewBlock env node fProofOfStake = some template)
    (hgenesis : template.block.hash ≠ node.params.hashGenesisBlock)
    (hcollision : ∀ tx ∈ template.block.vtx, ∀ tx' ∈ template.block.vtx,
      tx.hash = tx'.hash → tx = tx') :
    SelfConsistent env node (nextHeight node tip) fProofOfStake template.block ↔
      1000 < node.nBlockMaxSize ∧ ∀ r ∈ rounds env node (nextHeight node tip),
        PassesTests env node (nextHeight node tip) r.2 r.1 →
          ¬MeetsRecorded env.toConsensusEnv r.2 r.1 := by
  obtain ⟨st, coinTxs, hcollect, hcoinTxs, hvtx, htest⟩ := createNewBlock_eq_some htip hmade
  obtain ⟨items, mapDependers, hitems, collecting, hempty, hrounds⟩ := collectPool_spec hcollect
  obtain ⟨hcheck, pindex, outcome, hconnect⟩ := testBlockValidity_spec htest
  have hpool : template.block.poolTransactions fProofOfStake = st.vtx := by
    obtain ⟨rest, rfl, -, hlength, -⟩ := coinTransactions_eq_some hcoinTxs
    rw [CBlock.poolTransactions, hvtx, ← hlength, ← List.length_cons]
    exact List.drop_left
  have hitem : ∀ e ∈ items, e.tx ∈ node.pool.transactions ∧
      node.considers (nextHeight node tip) e.tx = true := by
    intro e he
    have hmem : e.tx ∈ node.pool.transactions.filter (node.considers (nextHeight node tip)) :=
      hitems ▸ List.mem_map_of_mem he
    exact List.mem_filter.mp hmem
  have hsame : ∀ e ∈ items, ∀ tx ∈ node.pool.transactions, e.tx.hash = tx.hash → e.tx = tx := by
    intro e he tx htx heq
    exact List.inj_on_of_nodup_map node.nodup_pool_hash (hitem e he).1 htx heq
  constructor
  · intro consistent
    refine ⟨by have hsize := consistent.size; omega, ?_⟩
    rintro ⟨e, before⟩ hr hpasses hmeets
    obtain ⟨he, hparents, hplaced⟩ := hrounds _ hr
    have hout : e.tx ∉ template.block.poolTransactions fProofOfStake := by
      rw [hpool]
      exact fun hin => (hplaced.mp hin).2 hmeets
    rcases consistent.leftOut e.tx (hitem e he).1 hout with hnot | ⟨p, hp, hmissing⟩ |
      ⟨e', before', hr', htx, hfails⟩
    · exact Bool.false_ne_true (hnot.symm.trans (hitem e he).2)
    · rw [hpool] at hmissing
      exact hmissing (hparents p hp)
    · -- a transaction is taken off the queue once
      have hdistinct := collecting.pending.distinct
      rw [hempty, List.map_nil, List.append_nil] at hdistinct
      have hround : (e', before') = (e, before) :=
        List.inj_on_of_nodup_map hdistinct hr' hr (congrArg CTransaction.hash htx)
      obtain ⟨rfl, rfl⟩ := Prod.mk.inj hround
      exact hfails hpasses
  · rintro ⟨hroom, hfree⟩
    constructor
    case order =>
      rw [hpool]
      exact collecting.ordered
    case outpoints =>
      refine nodup_spentOutPoints_of_connectBlock hconnect ?_
      refine nodup_block_hash hcoinTxs hvtx (checkBlock_eq_ok hgenesis hcheck).1
        collecting.distinct ?_ hcollision
      intro tx htx
      obtain ⟨e, he, rfl⟩ := collecting.members tx htx
      exact not_coin_of_considers (hitem e he).2
    case serials => exact nodup_zerocoinSerials hgenesis hcheck
    case size =>
      rw [hpool]
      rcases collecting.fits with hnone | hfits
      · simpa [hnone] using hroom
      · exact collecting.size ▸ hfits
    case sigOps =>
      rw [hpool]
      exact collecting.sigOps ▸ collecting.few
    case leftOut =>
      rw [hpool]
      intro tx htx hout
      by_cases hconsiders : node.considers (nextHeight node tip) tx = true
      · have hmem : tx ∈ items.map TxPriority.tx := by
          rw [hitems]
          exact List.mem_filter.mpr ⟨htx, hconsiders⟩
        obtain ⟨e, he, rfl⟩ := List.mem_map.mp hmem
        have hpending := collecting.pending
        rw [hempty] at hpending
        rcases hpending.seen_or_waits he with hseen | ⟨p, hp, hmissing⟩
        · obtain ⟨⟨e', before⟩, hr, hhash⟩ := List.mem_map.mp hseen
          obtain ⟨he', -, hplaced⟩ := hrounds _ hr
          have heq := hsame e' he' e.tx htx hhash
          refine LeftOut.fails e' before hr heq fun hpasses => hout ?_
          exact heq ▸ hplaced.mpr ⟨hpasses, hfree _ hr hpasses⟩
        · exact LeftOut.waits p hp hmissing
      · exact LeftOut.notConsidered (by simpa using hconsiders)

end
end Lytix

/-! Three zerocoin spends in the pool: the first spends serial 2, the second serials 1 and 2, the
third serial 1. The second is skipped, and its serial 1 keeps the third out of the block. -/
namespace Lytix.MinerTrace

open CountEntries Dependencies Heaps

/-- The serial is the second byte of the script. -/
def traceSpend (txin : CTxIn) : Option CoinSpend :=
  some ⟨CoinDenomination.ofInt txin.nSequence, txin.scriptSig[1]!.toNat, 0, 0, 1, .SPEND⟩

def traceEnv : MinerEnv ℤ where
  toConsensusEnv := { launchEnv with txInToZerocoinSpend := traceSpend }
  addCoin := fun dPriority nValueIn nConf => dPriority + nValueIn * nConf
  addSpend := fun dPriority _ nTotalIn => dPriority + nTotalIn
  computePriority := fun _ dPriority _ => dPriority
  allowFree := fun dPriority => decide (0 < dPriority)
  hasValidSerial := fun _ => true
  mandatoryScriptCheck := fun _ _ _ => true
  heap := fun byFee => descending (TxPriorityCompare byFee)

def spendInput (serial : UInt8) (denomination : ℕ) : CTxIn :=
  ⟨⟨0, 0⟩, [OP_ZEROCOINSPEND, serial], denomination⟩

def spendTx (hash : Uint256) (vin : List CTxIn) : CTransaction :=
  ⟨hash, 1, vin, [⟨COIN, [3], -10⟩], 0⟩

def firstSpend : CTransaction := spendTx 41 [spendInput 2 10]

def skippedSpend : CTransaction := spendTx 42 [spendInput 1 1, spendInput 2 1]

def heldBackSpend : CTransaction := spendTx 43 [spendInput 1 1]

def tracePool : List CTransaction → CTxMemPool
  | [] => CTxMemPool.empty
  | tx :: txs => (tracePool txs).addUnchecked tx.hash ⟨tx, 200⟩

theorem tracePool_hash {txs : List CTransaction} {hash : Uint256} {entry : CTxMemPoolEntry}
    (h : (tracePool txs).mapTx.lookup hash = some entry) : entry.tx.hash = hash := by
  induction txs with
  | nil => contradiction
  | cons tx txs ih =>
    rw [tracePool, CTxMemPool.addUnchecked, lookup_insert_eq] at h
    split_ifs at h with heq
    · obtain rfl := Option.some.inj h
      exact heq.symm
    · exact ih h

/-- The genesis block, and the zerocoins that were minted so far. -/
def traceTip : CBlockIndex := { nVersion := 4, mapZerocoinSupply := fun _ => 5 }

/-- A miner on the test network, at the genesis block. -/
def traceNode (txs : List CTransaction) : MinerNode ℤ where
  toConsensusNode := { launchNode traceTip rfl rfl with
    mempool := fun hash => ((tracePool txs).mapTx.lookup hash).map CTxMemPoolEntry.tx
    mempool_hash := by
      intro hash tx h
      obtain ⟨entry, hentry, rfl⟩ := Option.map_eq_some_iff.mp h
      exact tracePool_hash hentry }
  checkpointsCheckBlock := fun _ _ => true
  reconsiderBlock := fun _ => true
  checkWork := fun _ _ => true
  contextualCheckBlockHeader := fun _ _ => true
  contextualCheckBlock := fun _ _ => true
  writeBlock := fun _ => true
  pool := tracePool txs
  pool_eq := fun _ => rfl
  coins := CoinsMap.empty
  coins_eq := fun _ => rfl
  hashBestBlock := 1
  mapDeltas := fun _ => none
  mapZerocoinspends := fun _ => none
  minRelayTxFee := 10000
  blockMaxSize := 750000
  blockPrioritySize := 50000
  blockMinSize := 0
  coinStake := none
  coinBase := fun _ => launchCoinBase 0
  blockTime := 1600000000
  nextWorkRequired := 0
  accumulatorCheckpoint := 0
  blockHash := fun _ => 5

/-- The block of a node above the genesis block. -/
def traceBlock (txs : List CTransaction) : CBlock :=
  ⟨5, 3, 1, 0, 1600000000, 0, 0, 0, launchCoinBase 0 :: txs⟩

theorem createNewBlock_eq_traceBlock {node : MinerNode ℤ} {txs : List CTransaction}
    (h : (createNewBlock traceEnv node false).map CBlockTemplate.block = some (traceBlock txs)) :
    ∃ template, createNewBlock traceEnv node false = some template ∧
      template.block = traceBlock txs := by
  obtain ⟨template, hmade, hblock⟩ := Option.map_eq_some_iff.mp h
  exact ⟨template, hmade, hblock⟩

def fullNode : MinerNode ℤ := traceNode [firstSpend, skippedSpend, heldBackSpend]

theorem createNewBlock_fullNode : (createNewBlock traceEnv fullNode false).map CBlockTemplate.block =
    some (traceBlock [firstSpend]) := by
  decide

/-- The third spend passes all its tests. -/
theorem passesTests_heldBackSpend : ∀ r ∈ rounds traceEnv fullNode 1, r.1.tx = heldBackSpend →
    PassesTests traceEnv fullNode 1 r.2 r.1 := by
  decide

/-- It is left out all the same. -/
theorem not_selfConsistent_fullNode : ∃ template,
    createNewBlock traceEnv fullNode false = some template ∧
      template.block.hash ≠ fullNode.params.hashGenesisBlock ∧
      (∀ tx ∈ template.block.vtx, ∀ tx' ∈ template.block.vtx, tx.hash = tx'.hash → tx = tx') ∧
      ¬SelfConsistent traceEnv fullNode (nextHeight fullNode 1) false template.block := by
  obtain ⟨template, hmade, hblock⟩ := createNewBlock_eq_traceBlock createNewBlock_fullNode
  refine ⟨template, hmade, ?_, ?_, ?_⟩
  · rw [hblock]
    show (5 : Uint256) ≠ _
    decide
  · rw [hblock]
    decide
  · rw [hblock]
    intro consistent
    have hpool : heldBackSpend ∈ fullNode.pool.transactions := by decide
    have hout : heldBackSpend ∉ (traceBlock [firstSpend]).poolTransactions false := by decide
    rcases consistent.leftOut heldBackSpend hpool hout with hnot | ⟨p, hp, -⟩ |
      ⟨e, st, hround, htx, hfails⟩
    · have hconsiders : fullNode.considers 1 heldBackSpend = true := by decide
      exact Bool.false_ne_true (hnot.symm.trans hconsiders)
    · have hparents : fullNode.poolParents heldBackSpend = [] := by decide
      rw [hparents] at hp
      contradiction
    · exact hfails (passesTests_heldBackSpend _ hround htx)

/-- Without the second spend both others are in the block. -/
theorem createNewBlock_selfConsistent_iff_two : ∃ template,
    createNewBlock traceEnv (traceNode [firstSpend, heldBackSpend]) false = some template ∧
      template.block.vtx = [launchCoinBase 0, firstSpend, heldBackSpend] ∧
      (SelfConsistent traceEnv (traceNode [firstSpend, heldBackSpend]) 1 false template.block ↔
        1000 < (traceNode [firstSpend, heldBackSpend]).nBlockMaxSize ∧
        ∀ r ∈ rounds traceEnv (traceNode [firstSpend, heldBackSpend]) 1,
          PassesTests traceEnv (traceNode [firstSpend, heldBackSpend]) 1 r.2 r.1 →
            ¬MeetsRecorded traceEnv.toConsensusEnv r.2 r.1) := by
  have hrun : (createNewBlock traceEnv (traceNode [firstSpend, heldBackSpend]) false).map
      CBlockTemplate.block = some (traceBlock [firstSpend, heldBackSpend]) := by decide
  obtain ⟨template, hmade, hblock⟩ := createNewBlock_eq_traceBlock hrun
  refine ⟨template, hmade, by rw [hblock]; rfl, ?_⟩
  refine @createNewBlock_selfConsistent_iff _ _ _ _ _ _ _ 1 _ rfl hmade ?_ ?_
  · rw [hblock]
    show (5 : Uint256) ≠ _
    decide
  · rw [hblock]
    decide

end Lytix.MinerTrace
