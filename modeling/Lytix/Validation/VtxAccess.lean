import Lytix.Lib.Accesses
import Lytix.Validation.ForkSerials

/-! Where `CheckBlock` reads the transactions of a block, and their inputs and outputs, by index.
Which transaction pays is chosen by the height, and which ones must exist is checked by the kind of
the block. -/
namespace Lytix
open Checks Accesses

/-! The checks as they read: each is the check of the same name, with its reads by index. -/
namespace Indexed

def isZerocoinSpend (tx : CTransaction) : Access Reject Bool :=
  if 0 < tx.vin.length then do
    let txin ← readAt tx.vin 0
    pure (txin.prevout.hash == 0 && txin.scriptSig.isZerocoinSpend)
  else pure false

def isCoinBase (tx : CTransaction) : Access Reject Bool :=
  if tx.vin.length = 1 then do
    let txin ← readAt tx.vin 0
    if txin.prevout.isNull then do
      let fSpend ← isZerocoinSpend tx
      pure (!(fSpend || tx.isZerocoinMint))
    else pure false
  else pure false

def isCoinStake (tx : CTransaction) : Access Reject Bool :=
  if tx.vin.isEmpty then pure false
  else do
    let txin ← readAt tx.vin 0
    let fAllowNull := txin.scriptSig.isZerocoinSpend
    if txin.prevout.isNull && !fAllowNull then pure false
    else if 2 ≤ tx.vout.length then do
      let txout ← readAt tx.vout 0
      pure txout.isEmpty
    else pure false

def isProofOfStake (block : CBlock) : Access Reject Bool :=
  if 1 < block.vtx.length then do
    let tx ← readAt block.vtx 1
    isCoinStake tx
  else pure false

/-- The checks of the coinbase of a proof-of-stake block, and of its coinstake. -/
def checkStakeTransactions (block : CBlock) : Access Reject Unit := do
  let coinBase ← readAt block.vtx 0
  if coinBase.vout.length ≠ 1 then
    .error (some ⟨100, "CheckBlock() : coinbase output not empty for proof-of-stake block"⟩)
  else do
    let txout ← readAt coinBase.vout 0
    checks (stopIf (txout.isEmpty = false)
      ⟨100, "CheckBlock() : coinbase output not empty for proof-of-stake block"⟩)
    let coinStake ← readAt block.vtx 1
    let fCoinStake ← isCoinStake coinStake
    checks (stopIf (fCoinStake = false) ⟨100, "CheckBlock() : second tx is not coinstake"⟩)
    (List.range' 2 (block.vtx.length - 2)).forM fun i => do
      let tx ← readAt block.vtx i
      let fCoinStake ← isCoinStake tx
      checks (stopIf (fCoinStake = true) ⟨100, "CheckBlock() : more than one coinstake"⟩)

def checkCoinTransactions (block : CBlock) : Access Reject Unit :=
  if block.vtx.isEmpty then .error (some ⟨100, "bad-cb-missing"⟩)
  else do
    let coinBase ← readAt block.vtx 0
    let fCoinBase ← isCoinBase coinBase
    checks (stopIf (fCoinBase = false) ⟨100, "bad-cb-missing"⟩)
    (List.range' 1 (block.vtx.length - 1)).forM fun i => do
      let tx ← readAt block.vtx i
      let fCoinBase ← isCoinBase tx
      checks (stopIf (fCoinBase = true) ⟨100, "bad-cb-multiple"⟩)
    let fProofOfStake ← isProofOfStake block
    if fProofOfStake then checkStakeTransactions block else pure ()

/-- The transaction that pays is chosen by the height alone. -/
def isBlockPayeeValid (env : PayeeEnv) (budget : CBudgetManager) (block : CBlock)
    (nBlockHeight : Int) : Access Reject Bool :=
  if !env.fSynced then pure true
  else do
    let txNew ← readAt block.vtx (if (Params env.network).nLastPOWBlock < nBlockHeight then 1 else 0)
    pure (isPayeeValid env budget txNew nBlockHeight).1

section
variable (env : ConsensusEnv) (node : ConsensusNode) (block : CBlock)

def checkPayee : Access Reject Unit :=
  match node.view.tip with
  | none => pure ()
  | some tip =>
    let nHeight := node.heightOf block tip
    if nHeight ≠ 0 ∧ node.fInitialDownload = false then do
      let valid ← isBlockPayeeValid node.payeeEnv node.budget block nHeight
      checks (stopIf (valid = false) ⟨0, "bad-cb-payee"⟩)
    else pure ()

def checkInputKind (tx : CTransaction) (fZerocoinActive : Bool) : Access Reject Unit := do
  let fCoinBase ← isCoinBase tx
  if fCoinBase then do
    let txin ← readAt tx.vin 0
    let expectedScriptSigLength : Nat := if node.params.nLastPOWBlock < node.view.height then 2 else 1
    checks (stopIf (txin.scriptSig.length < expectedScriptSigLength ∨ 150 < txin.scriptSig.length)
      ⟨100, "bad-cb-length"⟩)
  else checks (Lytix.checkInputKind node tx fZerocoinActive)

def checkTransaction (tx : CTransaction) (fZerocoinActive : Bool) : Access Reject Unit := do
  checks (stopIf (tx.vin = []) ⟨10, "bad-txns-vin-empty"⟩)
  checks (stopIf (tx.vout = []) ⟨10, "bad-txns-vout-empty"⟩)
  checks (stopIf ( MAX_ZEROCOIN_TX_SIZE < env.txSize tx) ⟨100, "bad-txns-oversize"⟩)
  let tally ← checks (tx.vout.foldlM (checkOutput env node tx fZerocoinActive) {})
  checks (checkWhen (fZerocoinActive = true) (checkActiveSpend env node tx tally.nZCSpendCount))
  checks (checkDuplicateInputs [] tx.vin)
  checkInputKind node tx fZerocoinActive

def checkBlockTransaction (vBlockSerials : List Int) (tx : CTransaction) :
    Access Reject (List Int) := do
  checkTransaction env node tx (zerocoinActive node block)
  let fSpend ← isZerocoinSpend tx
  if fSpend then
    checks (tx.vin.foldlM (checkSerial env "Double spending of zLYTX serial in block") vBlockSerials)
  else pure vBlockSerials

def checkBlock (fCheckPOW fCheckMerkleRoot : Bool) : Access Reject Unit :=
  if block.hash = node.params.hashGenesisBlock then pure ()
  else do
    let fProofOfStake ← isProofOfStake block
    checks (checkBlockHeader env node block (fCheckPOW && !fProofOfStake))
    checks (stopIf (node.adjustedTime + (if fProofOfStake then 180 else 7200) < block.getBlockTime)
      ⟨0, "time-too-new"⟩)
    checks (checkWhen (fCheckMerkleRoot = true) (checkMerkleRoot env block))
    checks (stopIf (block.vtx = [] ∨ MAX_BLOCK_SIZE_CURRENT < block.vtx.length ∨
        MAX_BLOCK_SIZE_CURRENT < env.blockSize block)
      ⟨100, "bad-blk-length"⟩)
    checkCoinTransactions block
    checks (checkLockedInputs node block)
    checkPayee node block
    let _vBlockSerials ← block.vtx.foldlM (checkBlockTransaction env node block) []
    checks (stopIf ((if zerocoinActive node block then MAX_BLOCK_SIGOPS_CURRENT
        else MAX_BLOCK_SIGOPS_LEGACY) < (block.vtx.map env.legacySigOpCount).sum)
      ⟨100, "bad-blk-sigops"⟩)

end
end Indexed

/-! The kind of a transaction or a block is read within bounds. -/

section
variable (tx : CTransaction) (block : CBlock)

@[simp] theorem Indexed.isZerocoinSpend_eq : Indexed.isZerocoinSpend tx = .ok tx.isZerocoinSpend := by
  unfold Indexed.isZerocoinSpend CTransaction.isZerocoinSpend
  cases hvin : tx.vin with
  | nil => rfl
  | cons txin rest => rfl

@[simp] theorem Indexed.isCoinBase_eq : Indexed.isCoinBase tx = .ok tx.isCoinBase := by
  unfold Indexed.isCoinBase CTransaction.isCoinBase CTransaction.containsZerocoins
  rw [Indexed.isZerocoinSpend_eq]
  rcases hvin : tx.vin with _ | ⟨txin, _ | ⟨second, rest⟩⟩
  · rfl
  · have hread : (readAt [txin] 0 : Access Reject CTxIn) = .ok txin := rfl
    rw [hread]
    cases hnull : txin.prevout.isNull
    · simp [hnull, pure, Except.pure, bind, Except.bind]
    · simp [hnull, pure, Except.pure, bind, Except.bind]
  · rfl

@[simp] theorem Indexed.isCoinStake_eq : Indexed.isCoinStake tx = .ok tx.isCoinStake := by
  unfold Indexed.isCoinStake CTransaction.isCoinStake
  cases hvin : tx.vin with
  | nil => rfl
  | cons txin rest =>
    have hread : (readAt (txin :: rest) 0 : Access Reject CTxIn) = .ok txin := rfl
    rw [List.isEmpty_cons, if_neg Bool.false_ne_true, hread]
    show (if _ then _ else _ : Access Reject Bool) = _
    dsimp only
    split_ifs with hnull hlen
    · rfl
    · cases hvout : tx.vout with
      | nil => simp [hvout] at hlen
      | cons txout others =>
        have hsome : decide (2 ≤ (txout :: others).length) = true := by
          rw [hvout] at hlen
          exact decide_eq_true hlen
        rw [hsome, Bool.true_and]
        rfl
    · simp [hlen, pure, Except.pure]

@[simp] theorem Indexed.isProofOfStake_eq :
    Indexed.isProofOfStake block = .ok block.isProofOfStake := by
  unfold Indexed.isProofOfStake CBlock.isProofOfStake
  rcases hvtx : block.vtx with _ | ⟨coinBase, _ | ⟨coinStake, rest⟩⟩
  · rfl
  · rfl
  · have hread : (readAt (coinBase :: coinStake :: rest) 1 : Access Reject CTransaction) =
        .ok coinStake := rfl
    rw [if_pos (by simp), hread]
    exact Indexed.isCoinStake_eq coinStake

end

/-! So are the coin transactions: every index is below the length that was checked. -/

section
variable {block : CBlock}

/-- A loop over the transactions from an index on makes its check for each of them. -/
theorem forM_readAt_kind {kind : CTransaction → Access Reject Bool} {isKind : CTransaction → Bool}
    (hkind : ∀ tx, kind tx = .ok (isKind tx)) (k : ℕ) (e : Reject) :
    ((List.range' k (block.vtx.length - k)).forM fun i => do
      let tx ← readAt block.vtx i
      let fKind ← kind tx
      checks (stopIf (fKind = true) e)) =
      checks (stopIf (∃ tx ∈ block.vtx.drop k, isKind tx = true) e) := by
  have hloop := @forM_readAt Reject CTransaction (fun tx => do
    let fKind ← kind tx
    checks (stopIf (fKind = true) e)) block.vtx k
  rw [← forM_checks_stopIf]
  rw [hloop]
  congr 1
  funext tx
  rw [hkind]
  rfl

theorem Indexed.checkStakeTransactions_eq (hpos : block.isProofOfStake = true) :
    Indexed.checkStakeTransactions block = checks (do
      stopIf ((block.vtx.head?.any fun tx => tx.vout.length == 1 && tx.vout.all CTxOut.isEmpty) = false)
        ⟨100, "CheckBlock() : coinbase output not empty for proof-of-stake block"⟩
      stopIf (∃ tx ∈ block.vtx.drop 2, tx.isCoinStake = true)
        ⟨100, "CheckBlock() : more than one coinstake"⟩) := by
  unfold Indexed.checkStakeTransactions
  rw [forM_readAt_kind Indexed.isCoinStake_eq]
  unfold CBlock.isProofOfStake at hpos
  rcases hvtx : block.vtx with _ | ⟨coinBase, _ | ⟨coinStake, rest⟩⟩
  · simp [hvtx] at hpos
  · simp [hvtx] at hpos
  · simp only [hvtx] at hpos
    have hfirst : (readAt (coinBase :: coinStake :: rest) 0 : Access Reject CTransaction) =
        .ok coinBase := rfl
    have hsecond : (readAt (coinBase :: coinStake :: rest) 1 : Access Reject CTransaction) =
        .ok coinStake := rfl
    rw [hfirst, hsecond, checks_bind]
    rcases hvout : coinBase.vout with _ | ⟨txout, _ | ⟨second, others⟩⟩
    · simp [hvout, stopIf, bind, Except.bind]
    · have hread : (readAt [txout] 0 : Access Reject CTxOut) = .ok txout := rfl
      simp [hvout, hread, hpos, stopIf, bind, Except.bind]
    · simp [hvout, stopIf, bind, Except.bind]

/-- The coin transactions are read within bounds. -/
theorem Indexed.checkCoinTransactions_eq :
    Indexed.checkCoinTransactions block = checks (Lytix.checkCoinTransactions block) := by
  have hstakes : (if block.isProofOfStake then Indexed.checkStakeTransactions block else pure ()) =
      checks (checkWhen (block.isProofOfStake = true) (do
        stopIf ((block.vtx.head?.any fun tx => tx.vout.length == 1 && tx.vout.all CTxOut.isEmpty) =
            false)
          ⟨100, "CheckBlock() : coinbase output not empty for proof-of-stake block"⟩
        stopIf (∃ tx ∈ block.vtx.drop 2, tx.isCoinStake = true)
          ⟨100, "CheckBlock() : more than one coinstake"⟩)) := by
    unfold checkWhen
    split_ifs with hpos
    · exact Indexed.checkStakeTransactions_eq hpos
    · rfl
  unfold Indexed.checkCoinTransactions Lytix.checkCoinTransactions
  rw [forM_readAt_kind Indexed.isCoinBase_eq, Indexed.isProofOfStake_eq]
  rcases hvtx : block.vtx with _ | ⟨coinBase, rest⟩
  · rfl
  · have hfirst : (readAt (coinBase :: rest) 0 : Access Reject CTransaction) = .ok coinBase := rfl
    rw [List.isEmpty_cons, if_neg Bool.false_ne_true, hfirst]
    rw [hvtx] at hstakes
    simp only [checks_bind, ← hstakes]
    simp only [bind, Except.bind, Indexed.isCoinBase_eq, List.head?_cons, Option.any_some]
    rfl

end

/-! So the transaction that pays is all that can be missing. -/

section
variable {env : ConsensusEnv} {node : ConsensusNode} {block : CBlock} {tx : CTransaction}

theorem Indexed.checkInputKind_eq {fZerocoinActive : Bool} :
    Indexed.checkInputKind node tx fZerocoinActive =
      checks (Lytix.checkInputKind node tx fZerocoinActive) := by
  unfold Indexed.checkInputKind
  rw [Indexed.isCoinBase_eq]
  cases hcoin : tx.isCoinBase with
  | false => rfl
  | true =>
    obtain ⟨txin, hvin⟩ : ∃ txin, tx.vin = [txin] := by
      unfold CTransaction.isCoinBase at hcoin
      split at hcoin
      · exact ⟨_, ‹_›⟩
      · contradiction
    unfold Lytix.checkInputKind
    rw [if_pos hcoin, hvin]
    rfl

theorem Indexed.checkTransaction_eq {fZerocoinActive : Bool} :
    Indexed.checkTransaction env node tx fZerocoinActive =
      checks (Lytix.checkTransaction env node tx fZerocoinActive) := by
  unfold Indexed.checkTransaction Lytix.checkTransaction
  simp only [checks_bind, Indexed.checkInputKind_eq]

theorem Indexed.checkBlockTransaction_eq {serials : List Int} :
    Indexed.checkBlockTransaction env node block serials tx =
      checks (Lytix.checkBlockTransaction env node block serials tx) := by
  unfold Indexed.checkBlockTransaction Lytix.checkBlockTransaction
  rw [Indexed.checkTransaction_eq, Indexed.isZerocoinSpend_eq, checks_bind]
  congr 1
  funext _
  rw [checks_ite]
  rfl

theorem Indexed.checkTransactions_eq :
    block.vtx.foldlM (Indexed.checkBlockTransaction env node block) [] =
      checks (block.vtx.foldlM (Lytix.checkBlockTransaction env node block) []) := by
  rw [checks_foldlM]
  congr 1
  funext serials tx
  exact Indexed.checkBlockTransaction_eq

theorem Indexed.isBlockPayeeValid_eq_outside {env : PayeeEnv} {budget : CBudgetManager}
    {nBlockHeight : Int} :
    Indexed.isBlockPayeeValid env budget block nBlockHeight = .error none ↔
      env.fSynced = true ∧
        block.vtx.length ≤ if (Params env.network).nLastPOWBlock < nBlockHeight then 1 else 0 := by
  unfold Indexed.isBlockPayeeValid
  generalize (if (Params env.network).nLastPOWBlock < nBlockHeight then 1 else 0) = i
  cases env.fSynced with
  | false => simp [pure, Except.pure]
  | true =>
    simp only [Bool.not_true, Bool.false_eq_true, if_false, bind_eq_error, readAt_eq_outside,
      pure, Except.pure, reduceCtorEq, and_false, exists_false, or_false, true_and]

theorem Indexed.checkPayee_eq_outside :
    Indexed.checkPayee node block = .error none ↔
      ∃ tip, node.view.tip = some tip ∧ node.heightOf block tip ≠ 0 ∧
        node.fInitialDownload = false ∧ node.fSynced = true ∧
        block.vtx.length ≤ if node.params.nLastPOWBlock < node.heightOf block tip then 1 else 0 := by
  unfold Indexed.checkPayee
  cases htip : node.view.tip with
  | none => simp [pure, Except.pure]
  | some tip =>
    simp only [Option.some.injEq, exists_eq_left']
    by_cases hchecked : node.heightOf block tip ≠ 0 ∧ node.fInitialDownload = false
    · rw [if_pos hchecked, bind_eq_error, Indexed.isBlockPayeeValid_eq_outside]
      simp only [checks_ne_outside, and_false, exists_false, or_false, hchecked.2, true_and,
        ne_eq, hchecked.1, not_false_eq_true]
      rfl
    · rw [if_neg hchecked]
      refine iff_of_false (by simp [pure, Except.pure]) ?_
      rintro ⟨hheight, hdownload, -⟩
      exact hchecked ⟨hheight, hdownload⟩

/-- A block on which `CheckBlock` gets to the payee check at a height of proof-of-stake blocks, and
that has one transaction only. -/
structure LacksPayingTransaction (env : ConsensusEnv) (node : ConsensusNode) (block : CBlock)
    (fCheckPOW fCheckMerkleRoot : Bool) : Prop where
  notGenesis : block.hash ≠ node.params.hashGenesisBlock
  header : checkBlockHeader env node block (fCheckPOW && block.isProofOfWork) = .ok ()
  time : block.getBlockTime ≤ node.adjustedTime + (if block.isProofOfStake then 180 else 7200)
  merkle : fCheckMerkleRoot = true → checkMerkleRoot env block = .ok ()
  size : env.blockSize block ≤ MAX_BLOCK_SIZE_CURRENT
  coins : checkCoinTransactions block = .ok ()
  locked : checkLockedInputs node block = .ok ()
  connected : node.fInitialDownload = false ∧ node.fSynced = true
  height : ∃ tip, node.view.tip = some tip ∧ node.params.nLastPOWBlock < node.heightOf block tip
  single : block.vtx.length = 1

theorem Indexed.checkBlock_eq_outside {fCheckPOW fCheckMerkleRoot : Bool} :
    Indexed.checkBlock env node block fCheckPOW fCheckMerkleRoot = .error none ↔
      LacksPayingTransaction env node block fCheckPOW fCheckMerkleRoot := by
  have hlast : 0 ≤ node.params.nLastPOWBlock := by
    unfold ConsensusNode.params
    cases node.network <;> decide
  have hloop : block.vtx.foldlM (Indexed.checkBlockTransaction env node block) [] ≠
      .error none := by
    rw [Indexed.checkTransactions_eq]
    exact checks_ne_outside
  unfold Indexed.checkBlock
  by_cases hgenesis : block.hash = node.params.hashGenesisBlock
  · rw [if_pos hgenesis]
    exact iff_of_false (by simp [pure, Except.pure]) fun hlacks => hlacks.notGenesis hgenesis
  · rw [if_neg hgenesis, Indexed.isProofOfStake_eq, Indexed.checkCoinTransactions_eq]
    simp only [bind_eq_error, checks_ne_outside, false_or, checks_eq_ok, hloop,
      Indexed.checkPayee_eq_outside, stopIf_eq_ok, checkWhen_eq_ok, and_false, exists_false,
      or_false, reduceCtorEq, Except.ok.injEq, exists_eq_left']
    constructor
    · rintro ⟨_, hheader, _, htime, _, hmerkle, _, hsize, _, hcoins, _, hlocked, tip, htip, -,
        hdownload, hsynced, hlen⟩
      rw [not_or, not_or, not_lt, not_lt] at hsize
      have hpos : 0 < block.vtx.length := List.length_pos_iff.mpr hsize.1
      split_ifs at hlen with hheight
      · exact ⟨hgenesis, hheader, not_lt.mp htime, hmerkle, hsize.2.2, hcoins, hlocked,
          ⟨hdownload, hsynced⟩, ⟨tip, htip, hheight⟩, by omega⟩
      · omega
    · intro hlacks
      obtain ⟨tip, htip, hheight⟩ := hlacks.height
      have hnonempty : block.vtx ≠ [] := by
        intro hnil
        have hone := hlacks.single
        rw [hnil] at hone
        contradiction
      have hsize : ¬ (block.vtx = [] ∨ MAX_BLOCK_SIZE_CURRENT < block.vtx.length ∨
          MAX_BLOCK_SIZE_CURRENT < env.blockSize block) := by
        rw [not_or, not_or, not_lt, not_lt, hlacks.single]
        exact ⟨hnonempty, by decide, hlacks.size⟩
      refine ⟨(), hlacks.header, (), not_lt.mpr hlacks.time, (), hlacks.merkle, (), hsize, (),
        hlacks.coins, (), hlacks.locked, tip, htip, by omega, hlacks.connected.1,
        hlacks.connected.2, ?_⟩
      rw [if_pos hheight, hlacks.single]

/-- The checks of a block read only what the block has, exactly unless it lacks the transaction
that pays. -/
theorem checkBlock_withinBounds_iff {fCheckPOW fCheckMerkleRoot : Bool} :
    Indexed.checkBlock env node block fCheckPOW fCheckMerkleRoot ≠ .error none ↔
      ¬ LacksPayingTransaction env node block fCheckPOW fCheckMerkleRoot := by
  rw [ne_eq, Indexed.checkBlock_eq_outside]

end

/-! A block with a coinbase and nothing else, on top of a long chain of the test network. -/

def loneNode (n : ℕ) (hn : n < 2 ^ 64) (hlarge : 100000005 ≤ n) : ConsensusNode :=
  { (deepAt n hn hlarge).toConsensusNode with fInitialDownload := false }

def loneBlock (n : ℕ) : CBlock :=
  ⟨deepHash (n + 2), 4, deepHash n, 0, 1700000000, 0, 0, 0, [deepCoinBase]⟩

theorem lacksPayingTransaction_loneBlock {n : ℕ} (hn : n < 2 ^ 64) (hlarge : 100000005 ≤ n) :
    LacksPayingTransaction deepEnv (loneNode n hn hlarge) (loneBlock n) true true where
  notGenesis := deepHash_not_genesis (by omega)
  header := rfl
  time := by
    show (1700000000 : Int) ≤ 1700000000 + 7200
    decide
  merkle _ := rfl
  size := by
    show 1000 ≤ MAX_BLOCK_SIZE_CURRENT
    decide
  coins := rfl
  locked := rfl
  connected := ⟨rfl, rfl⟩
  height := by
    have htip : (loneNode n hn hlarge).view.tip = some (deepHash n) := by
      show ((List.range (n + 1)).map deepHash).getLast? = _
      rw [List.range_succ, List.map_append, List.map_singleton, List.getLast?_append]
      rfl
    have hheight : (loneNode n hn hlarge).heightOf (loneBlock n) (deepHash n) = n + 1 := by
      have hprev : deepHash n = (loneBlock n).hashPrevBlock := rfl
      unfold ConsensusNode.heightOf
      rw [if_pos hprev]
      show (deepIndex n (deepHash n)).nHeight + 1 = _
      rw [deepIndex_deepHash hn (le_refl n)]
    refine ⟨deepHash n, htip, ?_⟩
    have hlast : (loneNode n hn hlarge).params.nLastPOWBlock = 250 := rfl
    rw [hheight, hlast]
    omega
  single := rfl

/-- The check reads past the only transaction of the block. -/
theorem checkBlock_loneBlock_outside :
    Indexed.checkBlock deepEnv (loneNode 100000100 (by omega) (by omega))
      (loneBlock 100000100) true true = .error none := by
  have hlacks := lacksPayingTransaction_loneBlock (by norm_num : 100000100 < 2 ^ 64)
    (by norm_num)
  exact Indexed.checkBlock_eq_outside.mpr hlacks

end Lytix
