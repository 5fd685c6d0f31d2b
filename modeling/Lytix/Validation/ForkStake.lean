import Lytix.Mempool.ConnectedCoins
import Lytix.Validation.ForkSerials

/-! A stake on a fork against the coins of the main chain. The coins tell when an output was
created, and not when it was spent, so an output of before the split that the main chain spent
after it counts as spent before it. -/
namespace Lytix
open Checks Ancestry

/-- The coins after blocks of the main chain, of which the first stands at `nHeight`. No transaction
overwrites coins that are there. -/
def CoinsMap.connectBlocks (nHeight : ℕ) (coins : CoinsMap) : List CBlock → Option CoinsMap
  | [] => some coins
  | block :: rest =>
    if ∃ tx ∈ block.vtx, coins.haveCoins tx.hash = true then none
    else (coinsAfter nHeight coins block.vtx).bind fun coins => connectBlocks (nHeight + 1) coins rest

/-- The branch that ends in `prev` leaves the active chain at `split`. -/
def IsSplit (view : ChainView) (prev split : Uint256) : Prop :=
  view.contains split = true ∧ ∃ first, OnBranch view prev first ∧ view.pprev first = some split

/-- The coins at the split, the blocks that the main chain has connected since, and what the coin
view answers now. A cache may still hold an entry of which everything is spent. -/
structure MainHistory (node : AcceptNode) (split : Uint256) where
  atSplit : CoinsMap
  blocks : List CBlock
  atTip : CoinsMap
  stored : (node.view.chainActive.drop ((node.view.index split).nHeight + 1)).map node.readBlock =
    blocks.map some
  connected : atSplit.connectBlocks ((node.view.index split).nHeight + 1) blocks = some atTip
  answers : ∀ txid, (node.accessCoins txid).bind CCoins.live? = atTip.get txid

/-- What the main chain has spent since the split. -/
def MainHistory.spent {node : AcceptNode} {split : Uint256} (main : MainHistory node split) :
    List COutPoint :=
  spentOutPoints (main.blocks.flatMap CBlock.vtx)

/-- A transaction of the branch has this output. -/
def CreatedOnBranch (node : AcceptNode) (prev : Uint256) (o : COutPoint) : Prop :=
  ∃ p, OnBranch node.view prev p ∧ ∃ bl, node.readBlock p = some bl ∧
    ∃ tx ∈ bl.vtx, tx.hash = o.hash ∧ tx.spendable o.n = true

/-- An input of a block of the branch spends this output. -/
def SpentOnBranch (node : AcceptNode) (prev : Uint256) (o : COutPoint) : Prop :=
  ∃ p, OnBranch node.view prev p ∧ ∃ bl, node.readBlock p = some bl ∧
    ∃ txin ∈ bl.vtx.flatMap CTransaction.vin, txin.prevout = o

/-- On its own branch, every input of the stake is there to be spent. -/
def UnspentOnBranch (node : AcceptNode) (prev : Uint256) (atSplit : CoinsMap)
    (stakeTxIn : CTransaction) : Prop :=
  ∀ txin ∈ stakeTxIn.vin,
    (CoinsAccess.available atSplit.get txin.prevout = true ∨
      CreatedOnBranch node prev txin.prevout) ∧
    ¬ SpentOnBranch node prev txin.prevout

/-- The coin view still has an entry of the transaction as it was created up to the split, and the
output was spent since the split or is not one of those that the split has. -/
def TakenForSpent {node : AcceptNode} {split : Uint256} (main : MainHistory node split)
    (o : COutPoint) : Prop :=
  (∃ coin ∈ node.accessCoins o.hash, coin.nHeight ≤ (node.view.index split).nHeight) ∧
    (o ∈ main.spent ∨ CoinsAccess.available main.atSplit.get o = false)

def spentInMainChain : Reject := ⟨0, "coin stake inputs already spent in main chain"⟩

/-- The checks that `AcceptBlock` makes before it looks the stake up in the coin view. -/
structure PassesBefore (env : ConsensusEnv) (node : AcceptNode) (block : CBlock)
    (fAlreadyCheckedBlock : Bool) : Prop where
  known : node.view.mapBlockIndex block.hashPrevBlock = true
  good : (node.view.index block.hashPrevBlock).nStatus.failed = false
  work : node.checkWork block block.hashPrevBlock = true
  kernel : acceptProofOfStake env node block (some block.hashPrevBlock) = .ok ()
  header : ∃ pindex, acceptBlockHeader env node block (some block.hashPrevBlock) = .ok pindex ∧
    pindex.nStatus.haveData = false ∧
    node.contextualCheckBlock block pindex.pprev = true ∧
    (node.params.nZerocoinStartHeight ≤ pindex.nHeight → checkInBlockSerials env block = .ok ())
  checked : fAlreadyCheckedBlock = false →
    checkBlock env node.toConsensusNode block true true = .ok ()
  onDisk : ∀ p, OnBranch node.view block.hashPrevBlock p → (node.readBlock p).isSome = true

/-! Old coins, while blocks are connected. -/

section
variable {m m' : CoinsMap} {o : COutPoint} {k : Uint256} {tx : CTransaction} {c c' : CCoins}

theorem available_iff :
    CoinsAccess.available m.get o = true ↔ ∃ c, m.get o.hash = some c ∧ c.isAvailable o.n = true :=
  Option.any_eq_true ..

theorem nHeight_set (h : (m.set k c).get k = some c') : c'.nHeight = c.nHeight := by
  rw [CoinsMap.get_set_self] at h
  rw [← (CCoins.live?_eq_some.mp h).2, CCoins.cleanup_nHeight]

/-- Spending keeps the height of an entry. -/
theorem nHeight_spendInput {txin : CTxIn} {undo : CTxInUndo}
    (h : spendInput m txin = some (undo, m')) (hc : m'.get k = some c) :
    ∃ c₀, m.get k = some c₀ ∧ c₀.nHeight = c.nHeight := by
  have hs := spends_of_spendInput h
  rw [hs.view_eq] at hc
  by_cases hk : k = txin.prevout.hash
  · rw [hk] at hc ⊢
    exact ⟨_, hs.get_eq, (nHeight_set hc).symm⟩
  · rw [CoinsMap.get_set_of_ne _ hk] at hc
    exact ⟨c, hc, rfl⟩

theorem nHeight_spendAll {vin : List CTxIn} {us : List CTxInUndo}
    (h : inputLog.applyAll m vin = some (us, m')) (hc : m'.get k = some c) :
    ∃ c₀, m.get k = some c₀ ∧ c₀.nHeight = c.nHeight := by
  induction vin generalizing m us with
  | nil =>
    obtain ⟨-, rfl⟩ := Prod.mk.inj (Option.some.inj h)
    exact ⟨c, hc, rfl⟩
  | cons txin vin ih =>
    obtain ⟨u, s, rest, -, hstep, hrest⟩ := UndoLog.System.applyAll_cons_eq_some h
    obtain ⟨c₁, hc₁, hheight₁⟩ := ih hrest
    obtain ⟨c₀, hc₀, hheight₀⟩ := nHeight_spendInput hstep hc₁
    exact ⟨c₀, hc₀, hheight₀.trans hheight₁⟩

/-- An entry after a transaction was there with the same height, or is the transaction's own. -/
theorem nHeight_updateCoins {nHeight : Int} {txundo : CTxUndo}
    (h : updateCoins nHeight m tx = some (txundo, m')) (hc : m'.get k = some c) :
    if k = tx.hash then c.nHeight = nHeight
    else ∃ c₀, m.get k = some c₀ ∧ c₀.nHeight = c.nHeight := by
  obtain ⟨inputs, hspend, rfl⟩ := updateCoins_eq_some h
  split_ifs with hk
  · rw [hk] at hc
    exact nHeight_set hc
  · rw [CoinsMap.get_set_of_ne _ hk] at hc
    unfold spendInputs at hspend
    split_ifs at hspend
    · exact nHeight_spendAll hspend hc
    · obtain ⟨-, rfl⟩ := Prod.mk.inj (Option.some.inj hspend)
      exact ⟨c, hc, rfl⟩

/-- A coin of before a block was available before it, and the block does not spend it. -/
theorem available_coinsAfter_old {nHeight : Int} {vtx : List CTransaction}
    (h : coinsAfter nHeight m vtx = some m') (hc : m'.get o.hash = some c)
    (havail : c.isAvailable o.n = true) (hold : c.nHeight < nHeight) :
    ∃ c₀, m.get o.hash = some c₀ ∧ c₀.isAvailable o.n = true ∧ c₀.nHeight = c.nHeight ∧
      o ∉ spentOutPoints vtx := by
  induction vtx generalizing m with
  | nil =>
    obtain rfl := Option.some.inj h
    exact ⟨c, hc, havail, rfl, by simp [spentOutPoints]⟩
  | cons tx vtx ih =>
    obtain ⟨txundo, mid, hupdate, hrest⟩ := coinsAfter_cons h
    obtain ⟨c₁, hc₁, havail₁, hheight₁, hunspent⟩ := ih hrest
    have hheight := nHeight_updateCoins hupdate hc₁
    by_cases hhash : o.hash = tx.hash
    · rw [if_pos hhash] at hheight
      omega
    · rw [if_neg hhash] at hheight
      obtain ⟨c₀, hc₀, hheight₀⟩ := hheight
      have hmid : CoinsAccess.available mid.get o = true := available_iff.mpr ⟨c₁, hc₁, havail₁⟩
      rw [available_updateCoins_of_ne hupdate hhash] at hmid
      split_ifs at hmid with hspent
      obtain ⟨c₀', hc₀', havail₀⟩ := available_iff.mp hmid
      rw [hc₀, Option.some.injEq] at hc₀'
      rw [← hc₀'] at havail₀
      refine ⟨c₀, hc₀, havail₀, hheight₀.trans hheight₁, ?_⟩
      rw [spentOutPoints, List.flatMap_cons, List.mem_append, not_or]
      exact ⟨hspent, hunspent⟩

/-- A coin that a block neither spends nor overwrites stays. -/
theorem available_coinsAfter_unspent {nHeight : Int} {vtx : List CTransaction}
    (h : coinsAfter nHeight m vtx = some m') (havail : CoinsAccess.available m.get o = true)
    (hhash : ∀ tx ∈ vtx, o.hash ≠ tx.hash) (hunspent : o ∉ spentOutPoints vtx) :
    CoinsAccess.available m'.get o = true := by
  induction vtx generalizing m with
  | nil =>
    obtain rfl := Option.some.inj h
    exact havail
  | cons tx vtx ih =>
    obtain ⟨txundo, mid, hupdate, hrest⟩ := coinsAfter_cons h
    rw [spentOutPoints, List.flatMap_cons, List.mem_append, not_or] at hunspent
    have hmid : CoinsAccess.available mid.get o = true := by
      rw [available_updateCoins_of_ne hupdate (hhash tx List.mem_cons_self), if_neg hunspent.1]
      exact havail
    exact ih hrest hmid (fun t ht => hhash t (List.mem_cons_of_mem _ ht)) hunspent.2

theorem connectBlocks_cons {nHeight : ℕ} {block : CBlock} {rest : List CBlock}
    (h : m.connectBlocks nHeight (block :: rest) = some m') :
    (∀ tx ∈ block.vtx, m.haveCoins tx.hash = false) ∧
      ∃ mid, coinsAfter nHeight m block.vtx = some mid ∧
        mid.connectBlocks (nHeight + 1) rest = some m' := by
  unfold CoinsMap.connectBlocks at h
  split_ifs at h with hover
  obtain ⟨mid, hblock, hrest⟩ := Option.bind_eq_some_iff.mp h
  refine ⟨?_, mid, hblock, hrest⟩
  intro tx htx
  by_contra hhave
  exact hover ⟨tx, htx, by simpa using hhave⟩

/-- What `ConnectBlock` does to the coins. -/
theorem connectBlocks_of_connectBlock {env : ConsensusEnv} {node : ConsensusNode} {block : CBlock}
    {hashBestBlock : Uint256} {pindex : CBlockIndex} {fJustCheck fAlreadyChecked : Bool}
    {outcome : ConnectOutcome}
    (h : connectBlock env node block m hashBestBlock pindex fJustCheck fAlreadyChecked =
      .ok outcome) : m.connectBlocks pindex.nHeight [block] = some outcome.coins := by
  obtain ⟨fScriptChecks, st, supplied, hheader, hloop, -, -, hcoins, -⟩ := connectBlock_eq_ok h
  simp only [connectBlockHeader, bind_eq_ok, stopIf_eq_ok] at hheader
  obtain ⟨-, -, -, -, -, -, -, -, hfresh⟩ := hheader
  unfold CoinsMap.connectBlocks
  rw [if_neg hfresh, foldlM_connectTx_coins hloop, hcoins]
  rfl

/-- A coin of before the blocks was available before them, and none of them spends it. -/
theorem available_connectBlocks_old {nHeight : ℕ} {blocks : List CBlock}
    (h : m.connectBlocks nHeight blocks = some m') (hc : m'.get o.hash = some c)
    (havail : c.isAvailable o.n = true) (hold : c.nHeight < nHeight) :
    ∃ c₀, m.get o.hash = some c₀ ∧ c₀.isAvailable o.n = true ∧ c₀.nHeight = c.nHeight ∧
      o ∉ spentOutPoints (blocks.flatMap CBlock.vtx) := by
  induction blocks generalizing m nHeight with
  | nil =>
    obtain rfl := Option.some.inj h
    exact ⟨c, hc, havail, rfl, by simp [spentOutPoints]⟩
  | cons block rest ih =>
    obtain ⟨-, mid, hblock, hrest⟩ := connectBlocks_cons h
    obtain ⟨c₁, hc₁, havail₁, hheight₁, hunspent₁⟩ := ih hrest (by push_cast; omega)
    obtain ⟨c₀, hc₀, havail₀, hheight₀, hunspent₀⟩ :=
      available_coinsAfter_old hblock hc₁ havail₁ (by omega)
    refine ⟨c₀, hc₀, havail₀, hheight₀.trans hheight₁, ?_⟩
    rw [List.flatMap_cons, spentOutPoints, List.flatMap_append, List.mem_append, not_or]
    exact ⟨hunspent₀, hunspent₁⟩

/-- A coin that no block spends stays. -/
theorem available_connectBlocks_unspent {nHeight : ℕ} {blocks : List CBlock}
    (h : m.connectBlocks nHeight blocks = some m') (havail : CoinsAccess.available m.get o = true)
    (hunspent : o ∉ spentOutPoints (blocks.flatMap CBlock.vtx)) :
    CoinsAccess.available m'.get o = true := by
  induction blocks generalizing m nHeight with
  | nil =>
    obtain rfl := Option.some.inj h
    exact havail
  | cons block rest ih =>
    obtain ⟨hfresh, mid, hblock, hrest⟩ := connectBlocks_cons h
    rw [List.flatMap_cons, spentOutPoints, List.flatMap_append, List.mem_append, not_or] at hunspent
    obtain ⟨c₀, hc₀, -⟩ := available_iff.mp havail
    have hhash : ∀ tx ∈ block.vtx, o.hash ≠ tx.hash := by
      intro tx htx heq
      have hnone := hfresh tx htx
      rw [CoinsMap.haveCoins, ← heq, hc₀] at hnone
      contradiction
    exact ih hrest (available_coinsAfter_unspent hblock havail hhash hunspent.1) hunspent.2

end

section
variable {node : AcceptNode} {split : Uint256} (main : MainHistory node split)

/-- An entry of before the split lacks the output exactly when the output was spent since, or was
not there at the split. -/
theorem MainHistory.unavailable_iff {o : COutPoint} {coin : CCoins}
    (hcoin : node.accessCoins o.hash = some coin)
    (hold : coin.nHeight ≤ (node.view.index split).nHeight) :
    coin.isAvailable o.n = false ↔
      o ∈ main.spent ∨ CoinsAccess.available main.atSplit.get o = false := by
  have hanswer := main.answers o.hash
  rw [hcoin, Option.bind_some] at hanswer
  constructor
  · intro hgone
    by_contra hkept
    rw [not_or, Bool.not_eq_false] at hkept
    have havail := available_connectBlocks_unspent main.connected hkept.2 hkept.1
    obtain ⟨c, hc, hav⟩ := available_iff.mp havail
    rw [← hanswer] at hc
    rw [← (CCoins.live?_eq_some.mp hc).2, hgone] at hav
    contradiction
  · intro hlost
    by_contra hav
    rw [Bool.not_eq_false] at hav
    have hlive : coin.live? = some coin := by
      rw [CCoins.live?_eq_some]
      refine ⟨?_, rfl⟩
      obtain ⟨txout, hget, hnull, -⟩ := CCoins.isAvailable_iff.mp hav
      by_contra hpruned
      rw [Bool.not_eq_false] at hpruned
      have hall := List.all_eq_true.mp hpruned txout (List.mem_of_getElem? hget)
      rw [hnull] at hall
      contradiction
    rw [hlive] at hanswer
    obtain ⟨c₀, hc₀, hav₀, -, hunspent⟩ :=
      available_connectBlocks_old main.connected hanswer.symm hav (by push_cast; omega)
    rcases hlost with hspent | hnone
    · exact hunspent hspent
    · rw [available_iff.mpr ⟨c₀, hc₀, hav₀⟩] at hnone
      contradiction

end

/-! No check but the last one gives the reason. -/

/-- An error for another reason. -/
def OtherReason (e : Reject) : Prop := e ≠ spentInMainChain

instance (e : Reject) : Decidable (OtherReason e) := inferInstanceAs (Decidable (¬ _))

section
variable {env : ConsensusEnv} {node : ConsensusNode} {tx : CTransaction} {txin : CTxIn}
  {block : CBlock}

theorem parseSpend_fails : OnlyFails OtherReason (parseSpend env txin) := .orStop (by decide)

theorem valueOut_fails : OnlyFails OtherReason (valueOut tx) := .orStop (by decide)

theorem checkSerial_fails {reason : String} {serials : List Int} :
    OnlyFails OtherReason (checkSerial env reason serials txin) := by
  refine .ite .ok (.bind parseSpend_fails fun _ => .bind (.stopIf ?_) fun _ => .pure)
  simp [OtherReason, spentInMainChain]

theorem checkSpendInput_fails {fVerifySignature : Bool} {hashTxOut : Uint256}
    {tally : SpendTally} :
    OnlyFails OtherReason (checkSpendInput env node fVerifySignature hashTxOut tally txin) := by
  have haccumulator : ∀ newSpend, OnlyFails OtherReason (verifyAccumulator env node newSpend) :=
    fun newSpend => .bind (.orStop (by decide)) fun _ => .stopIf (by decide)
  exact .ite .ok (.bind parseSpend_fails fun newSpend => .bind (.stopIf (by decide)) fun _ =>
    .bind (.stopIf (by decide)) fun _ => .bind (.stopIf (by decide)) fun _ =>
    .bind (.checkWhen (haccumulator newSpend)) fun _ => .bind (.stopIf (by decide)) fun _ => .pure)

theorem checkZerocoinSpend_fails {fVerifySignature : Bool} :
    OnlyFails OtherReason (checkZerocoinSpend env node tx fVerifySignature) :=
  .bind (.stopIf (by decide)) fun _ => .bind (.foldlM fun _ _ => checkSpendInput_fails) fun _ =>
    .bind (.checkWhen (.bind valueOut_fails fun _ => .stopIf (by decide))) fun _ =>
    .stopIf (by decide)

theorem checkOutput_fails {fZerocoinActive : Bool} {tally : OutputTally} {txout : CTxOut} :
    OnlyFails OtherReason (checkOutput env node tx fZerocoinActive tally txout) := by
  have hcoin : OnlyFails OtherReason (txOutToPublicCoin env txout) :=
    .ite (.error (by decide)) .ok
  have hmint : OnlyFails OtherReason (checkZerocoinMint env txout) :=
    .bind hcoin fun _ => .stopIf (by decide)
  exact .bind (.stopIf (by decide)) fun _ => .bind (.stopIf (by decide)) fun _ =>
    .bind (.stopIf (by decide)) fun _ => .bind (.stopIf (by decide)) fun _ =>
    .bind (.checkWhen hmint) fun _ => .pure

theorem checkDuplicateInputs_fails {vInOutPoints : List COutPoint} {vin : List CTxIn} :
    OnlyFails OtherReason (checkDuplicateInputs vInOutPoints vin) := by
  induction vin generalizing vInOutPoints with
  | nil => exact .ok
  | cons txin rest ih => exact .bind (.stopIf (by decide)) fun _ => ih

theorem checkTransaction_fails {fZerocoinActive : Bool} :
    OnlyFails OtherReason (checkTransaction env node tx fZerocoinActive) := by
  have hspend : ∀ nZCSpendCount, OnlyFails OtherReason (checkActiveSpend env node tx nZCSpendCount) :=
    fun _ => .bind (.stopIf (by decide)) fun _ => .checkWhen
      (.bind (.stopIf (by decide)) fun _ => checkZerocoinSpend_fails)
  have hkind : OnlyFails OtherReason (checkInputKind node tx fZerocoinActive) :=
    .ite (.stopIf (by decide)) (.ite (.stopIf (by decide)) (.stopIf (by decide)))
  exact .bind (.stopIf (by decide)) fun _ => .bind (.stopIf (by decide)) fun _ =>
    .bind (.stopIf (by decide)) fun _ => .bind (.foldlM fun _ _ => checkOutput_fails) fun tally =>
    .bind (.checkWhen (hspend tally.nZCSpendCount)) fun _ =>
    .bind checkDuplicateInputs_fails fun _ => hkind

theorem checkBlockHeader_fails {fCheckPOW : Bool} :
    OnlyFails OtherReason (checkBlockHeader env node block fCheckPOW) :=
  .bind (.stopIf (by decide)) fun _ => .ite (.stopIf (by decide)) (.stopIf (by decide))

theorem checkPayee_fails : OnlyFails OtherReason (checkPayee node block) := by
  unfold checkPayee
  cases node.view.tip with
  | none => exact .ok
  | some tip =>
    exact .checkWhen (.bind (.orStop (by decide)) fun _ => .stopIf (by decide))

theorem checkBlock_fails {fCheckPOW fCheckMerkleRoot : Bool} :
    OnlyFails OtherReason (checkBlock env node block fCheckPOW fCheckMerkleRoot) := by
  have hmerkle : OnlyFails OtherReason (checkMerkleRoot env block) :=
    .bind (.stopIf (by decide)) fun _ => .stopIf (by decide)
  have hcoins : OnlyFails OtherReason (checkCoinTransactions block) :=
    .bind (.stopIf (by decide)) fun _ => .bind (.stopIf (by decide)) fun _ =>
      .checkWhen (.bind (.stopIf (by decide)) fun _ => .stopIf (by decide))
  have hlocked : OnlyFails OtherReason (checkLockedInputs node block) :=
    .checkWhen (.stopIf (by decide))
  have hround : ∀ serials tx, OnlyFails OtherReason (checkBlockTransaction env node block serials tx) :=
    fun _ _ => .bind checkTransaction_fails fun _ => .ite (.foldlM fun _ _ => checkSerial_fails) .pure
  exact .ite .ok (.bind checkBlockHeader_fails fun _ => .bind (.stopIf (by decide)) fun _ =>
    .bind (.checkWhen hmerkle) fun _ => .bind (.stopIf (by decide)) fun _ =>
    .bind hcoins fun _ => .bind hlocked fun _ => .bind checkPayee_fails fun _ =>
    .bind (.foldlM hround) fun _ => .stopIf (by decide))

end

section
variable {env : ConsensusEnv} {node : AcceptNode} {block : CBlock} {stakeTxIn : CTransaction}
  {pindexPrev : Option Uint256}

theorem acceptProofOfStake_fails :
    OnlyFails OtherReason (acceptProofOfStake env node block pindexPrev) := by
  unfold acceptProofOfStake
  refine .bind (.orStop (by decide)) fun found => ?_
  obtain ⟨_, stake⟩ := found
  cases stake with
  | piv _ _ => exact .ok
  | zpiv _ _ _ _ =>
    refine .bind (.orStop (by decide)) fun prev => ?_
    split
    · exact .ok
    · exact .error (by decide)

theorem acceptBlockHeader_fails :
    OnlyFails OtherReason (acceptBlockHeader env node block pindexPrev) :=
  .ite (.bind (.stopIf (by decide)) fun _ => .pure)
    (.bind checkBlockHeader_fails fun _ => .bind (.stopIf (by decide)) fun _ => .pure)

theorem checkInBlockSerials_fails : OnlyFails OtherReason (checkInBlockSerials env block) :=
  .bind (.foldlM fun _ _ => checkSerial_fails) fun _ => .pure

theorem scanBranch_fails {plain : List CTxIn} {hasZPIVInputs : Bool} {rounds : ℕ} {prev : Uint256}
    {serials : List Int} :
    OnlyFails OtherReason (scanBranch env node plain hasZPIVInputs rounds prev serials) := by
  induction rounds generalizing prev serials with
  | zero => exact .error (by decide)
  | succ rounds ih =>
    have hscan : ∀ serials txin, OnlyFails OtherReason
        (scanInput env plain hasZPIVInputs serials txin) :=
      fun _ _ => .foldlM fun _ _ => .bind (.stopIf (by decide)) fun _ =>
        .ite (.bind parseSpend_fails fun _ => .pure) .pure
    exact .bind (.orStop (by decide)) fun _ => .bind (.foldlM hscan) fun _ =>
      .bind (.orStop (by decide)) fun _ => .ite .pure ih

theorem checkForkStake_fails {prev : Uint256} {nHeight : ℕ} :
    OnlyFails OtherReason (checkForkStake env node stakeTxIn prev nHeight) := by
  have hzpiv : ∀ splitHeight serials zPivInput, OnlyFails OtherReason
      (checkZPIVInput env node stakeTxIn nHeight splitHeight serials zPivInput) :=
    fun _ _ _ => .bind parseSpend_fails fun _ => .bind (.stopIf (by decide)) fun _ =>
      .bind (.stopIf (by decide)) fun _ => .bind (.stopIf (by decide)) fun _ =>
      .bind (.orStop (by decide)) fun _ => .stopIf (by decide)
  exact .bind scanBranch_fails fun _ => .bind (.forM fun _ => hzpiv _ _ _) fun _ => .pure

end

/-! What the scan of the branch finds for a plain stake. -/

section
variable {env : ConsensusEnv} {node : AcceptNode} {block : CBlock} {stakeTxIn : CTransaction}
  {plain : List CTxIn} {serials serials' : List Int} {prev first split : Uint256}

/-- A block that spends no input of the stake is passed over. -/
theorem foldlM_scanInput_free {vin : List CTxIn}
    (hfree : ∀ txin ∈ vin, ∀ stakeIn ∈ plain, txin.prevout ≠ stakeIn.prevout) :
    vin.foldlM (scanInput env plain false) serials = .ok serials := by
  induction vin with
  | nil => rfl
  | cons txin vin ih =>
    have hfirst : ∀ l : List CTxIn, (∀ stakeIn ∈ l, txin.prevout ≠ stakeIn.prevout) →
        l.foldlM (scanStakeInput env false txin) serials = .ok serials := by
      intro l hl
      induction l with
      | nil => rfl
      | cons stakeIn l ihl =>
        have hne := hl stakeIn List.mem_cons_self
        have hstep : scanStakeInput env false txin serials stakeIn = .ok serials := by
          simp [scanStakeInput, stopIf, Ne.symm hne]
        rw [List.foldlM_cons, hstep]
        exact ihl fun other hother => hl other (List.mem_cons_of_mem _ hother)
    rw [List.foldlM_cons, bind_eq_ok]
    exact ⟨serials, hfirst plain (hfree txin List.mem_cons_self),
      ih fun other hother => hfree other (List.mem_cons_of_mem _ hother)⟩

/-- The scan of a branch that spends no input of the stake ends at the split. -/
theorem scanBranch_free (hknown : node.view.mapBlockIndex prev = true)
    (hfirst : OnBranch node.view prev first) (hup : node.view.pprev first = some split)
    (hsplit : node.view.contains split = true)
    (hdisk : ∀ p, OnBranch node.view prev p → (node.readBlock p).isSome = true)
    (hfree : ∀ stakeIn ∈ plain, ¬ SpentOnBranch node prev stakeIn.prevout) :
    scanBranch env node plain false ((node.view.index prev).nHeight + 1) prev serials =
      .ok (serials, split) := by
  generalize hheight : (node.view.index prev).nHeight = n
  induction n using Nat.strong_induction_on generalizing prev with
  | _ n ih =>
    have hprev : node.view.contains prev = false := by
      by_contra hon
      rw [Bool.not_eq_false] at hon
      have hcontra := (ChainView.contains_of_isAncestor hon hfirst.1).symm.trans hfirst.2
      contradiction
    have hself : OnBranch node.view prev prev := ⟨IsAncestor.refl _ _, hprev⟩
    obtain ⟨bl, hbl⟩ := Option.isSome_iff_exists.mp (hdisk prev hself)
    have hscan : (bl.vtx.flatMap CTransaction.vin).foldlM (scanInput env plain false) serials =
        .ok serials := by
      apply foldlM_scanInput_free
      intro txin htxin stakeIn hstake heq
      exact hfree stakeIn hstake ⟨prev, hself, bl, hbl, txin, htxin, heq⟩
    simp only [scanBranch, bind_eq_ok, orStop_eq_ok]
    rcases Relation.ReflTransGen.cases_head hfirst.1 with heq | ⟨q, hq, hrest⟩
    · refine ⟨bl, hbl, serials, hscan, split, heq ▸ hup, ?_⟩
      rw [if_pos hsplit]
      rfl
    · have hqfirst : OnBranch node.view q first := ⟨hrest, hfirst.2⟩
      have hqoff : node.view.contains q = false := by
        by_contra hon
        rw [Bool.not_eq_false] at hon
        have hcontra := (ChainView.contains_of_isAncestor hon hrest).symm.trans hfirst.2
        contradiction
      obtain ⟨hqknown, hqheight⟩ := node.view.above prev q hknown hq
      have hlift : ∀ p, OnBranch node.view q p → OnBranch node.view prev p :=
        fun p hp => ⟨hp.1.trans (IsAncestor.of_parent hq), hp.2⟩
      refine ⟨bl, hbl, serials, hscan, q, hq, ?_⟩
      rw [if_neg (by simp [hqoff]), show n = (node.view.index q).nHeight + 1 by omega]
      refine ih (node.view.index q).nHeight (by omega) hqknown hqfirst
        (fun p hp => hdisk p (hlift p hp)) ?_ rfl
      rintro stakeIn hstake ⟨p, hp, hspent⟩
      exact hfree stakeIn hstake ⟨p, hlift p hp, hspent⟩

/-- A scan that ends has read every block of the branch. -/
theorem scanBranch_onDisk {hasZPIVInputs : Bool} {rounds : ℕ} {split' : Uint256}
    (h : scanBranch env node plain hasZPIVInputs rounds prev serials = .ok (serials', split')) :
    ∀ p, OnBranch node.view prev p → (node.readBlock p).isSome = true := by
  induction rounds generalizing prev serials with
  | zero => simp [scanBranch] at h
  | succ rounds ih =>
    simp only [scanBranch, bind_eq_ok, orStop_eq_ok] at h
    obtain ⟨bl, hbl, mid, -, next, hnext, h⟩ := h
    intro p hp
    rcases Relation.ReflTransGen.cases_head hp.1 with heq | ⟨q, hq, hrest⟩
    · rw [← heq, hbl]
      rfl
    · have hqnext : q = next := Option.some.inj (hq.symm.trans hnext)
      rw [hqnext] at hrest
      split_ifs at h with hsplit
      · have hon := ChainView.contains_of_isAncestor hsplit hrest
        rw [hp.2] at hon
        contradiction
      · exact ih h p ⟨hrest, hp.2⟩

theorem inputs_plain (hplain : ∀ txin ∈ stakeTxIn.vin, txin.scriptSig.isZerocoinSpend = false) :
    zpivInputs stakeTxIn = [] ∧ pivInputs stakeTxIn = stakeTxIn.vin ∧
      stakeTxIn.isZerocoinSpend = false := by
  refine ⟨?_, ?_, ?_⟩
  · rw [zpivInputs, List.filter_eq_nil_iff]
    intro txin htxin
    simp [hplain txin htxin]
  · rw [pivInputs, List.filter_eq_self]
    intro txin htxin
    simp [hplain txin htxin]
  · unfold CTransaction.isZerocoinSpend
    cases hvin : stakeTxIn.vin with
    | nil => rfl
    | cons txin vin =>
      have hfirst := hplain txin (by simp [hvin])
      simp [hfirst]

/-- The stake checks of a plain stake whose inputs the branch does not spend: once the branch is
read, those of the coin view decide. -/
theorem checkForkStake_plain {nHeight : ℕ}
    (hplain : ∀ txin ∈ stakeTxIn.vin, txin.scriptSig.isZerocoinSpend = false)
    (hknown : node.view.mapBlockIndex prev = true)
    (hsplit : IsSplit node.view prev split)
    (hfree : ∀ txin ∈ stakeTxIn.vin, ¬ SpentOnBranch node prev txin.prevout) :
    (∀ p, OnBranch node.view prev p → (node.readBlock p).isSome = true) →
      checkForkStake env node stakeTxIn prev nHeight = .ok (node.view.index split).nHeight := by
  intro hdisk
  obtain ⟨hon, first, hfirst, hup⟩ := hsplit
  obtain ⟨hzpiv, hpiv, -⟩ := inputs_plain hplain
  simp only [checkForkStake, hzpiv, hpiv, List.isEmpty_nil, Bool.not_true, bind_eq_ok, Prod.exists]
  exact ⟨[], split, scanBranch_free hknown hfirst hup hon hdisk hfree, (), rfl, rfl⟩

theorem checkForkStake_onDisk {nHeight splitHeight : ℕ}
    (h : checkForkStake env node stakeTxIn prev nHeight = .ok splitHeight) :
    ∀ p, OnBranch node.view prev p → (node.readBlock p).isSome = true := by
  simp only [checkForkStake, bind_eq_ok, Prod.exists] at h
  obtain ⟨_, _, hscan, -⟩ := h
  exact scanBranch_onDisk hscan

/-- The last check of a stake gives the reason for an input that the coin view lacks. -/
theorem checkStakeAvailable_eq_error {splitHeight : ℕ}
    (hplain : stakeTxIn.isZerocoinSpend = false) :
    checkStakeAvailable node stakeTxIn (some splitHeight) = .error spentInMainChain ↔
      ∃ txin ∈ stakeTxIn.vin, ∃ coin ∈ node.accessCoins txin.prevout.hash,
        coin.isAvailable txin.prevout.n = false ∧ coin.nHeight ≤ splitHeight := by
  unfold checkStakeAvailable stopIf checkWhen
  rw [if_pos hplain]
  split_ifs with hlacks
  · refine iff_of_true rfl ?_
    obtain ⟨txin, htxin, coin, hcoin, hgone, hheight⟩ := hlacks
    exact ⟨txin, htxin, coin, hcoin, hgone, by simpa using hheight⟩
  · refine iff_of_false (by simp) ?_
    rintro ⟨txin, htxin, coin, hcoin, hgone, hheight⟩
    exact hlacks ⟨txin, htxin, coin, hcoin, hgone, by simpa using hheight⟩

theorem checkStakeInputs_eq_error {nHeight : ℕ} (hstake : block.vtx[1]? = some stakeTxIn)
    (hplain : ∀ txin ∈ stakeTxIn.vin, txin.scriptSig.isZerocoinSpend = false)
    (hknown : node.view.mapBlockIndex prev = true) (hfork : node.view.contains prev = false)
    (hsplit : IsSplit node.view prev split)
    (hfree : ∀ txin ∈ stakeTxIn.vin, ¬ SpentOnBranch node prev txin.prevout) :
    checkStakeInputs env node block (some prev) nHeight = .error spentInMainChain ↔
      (node.params.nZerocoinStartHeight ≤ nHeight → checkInBlockSerials env block = .ok ()) ∧
      (∀ p, OnBranch node.view prev p → (node.readBlock p).isSome = true) ∧
      ∃ txin ∈ stakeTxIn.vin, ∃ coin ∈ node.accessCoins txin.prevout.hash,
        coin.isAvailable txin.prevout.n = false ∧
          coin.nHeight ≤ (node.view.index split).nHeight := by
  have hprev : forkPrev node (some prev) = some prev := by simp [forkPrev, hfork]
  have hserials : checkWhen (node.params.nZerocoinStartHeight ≤ nHeight)
      (checkInBlockSerials env block) ≠ .error spentInMainChain :=
    (OnlyFails.checkWhen checkInBlockSerials_fails).ne_error
  have hscan : checkForkStake env node stakeTxIn prev nHeight ≠ .error spentInMainChain :=
    checkForkStake_fails.ne_error
  have hsplitHeight := @checkForkStake_plain env node stakeTxIn prev split nHeight hplain hknown
    hsplit hfree
  simp only [checkStakeInputs, hstake, hprev, orStop, bind_eq_error, hserials, false_or,
    checkWhen_eq_ok, hscan, reduceCtorEq, Except.ok.injEq, exists_eq_left']
  rw [← checkStakeAvailable_eq_error (inputs_plain hplain).2.2]
  constructor
  · rintro ⟨_, hchecked, splitHeight, hforked, havail⟩
    have hdisk := checkForkStake_onDisk hforked
    rw [hsplitHeight hdisk, Except.ok.injEq] at hforked
    rw [hforked]
    exact ⟨hchecked, hdisk, havail⟩
  · rintro ⟨hchecked, hdisk, havail⟩
    exact ⟨(), hchecked, _, hsplitHeight hdisk, havail⟩

theorem acceptOnto_eq_error {fAlreadyCheckedBlock : Bool} (hpos : block.isProofOfStake = true) :
    acceptOnto env node block (some prev) fAlreadyCheckedBlock = .error spentInMainChain ↔
      node.checkWork block prev = true ∧
      acceptProofOfStake env node block (some prev) = .ok () ∧
      ∃ pindex, acceptBlockHeader env node block (some prev) = .ok pindex ∧
        pindex.nStatus.haveData = false ∧
        (fAlreadyCheckedBlock = false →
          checkBlock env node.toConsensusNode block true true = .ok ()) ∧
        node.contextualCheckBlock block pindex.pprev = true ∧
        checkStakeInputs env node block (some prev) pindex.nHeight = .error spentInMainChain := by
  have hwork : ∀ c [Decidable c] (text : String), text ≠ spentInMainChain.strRejectReason →
      stopIf c ⟨0, text⟩ ≠ .error spentInMainChain := by
    intro c _ text htext
    have hother : OtherReason ⟨0, text⟩ := fun heq => htext (congrArg Reject.strRejectReason heq)
    exact (OnlyFails.stopIf hother).ne_error
  have hkernel : checkWhen (block.isProofOfStake = true)
      (acceptProofOfStake env node block (some prev)) ≠ .error spentInMainChain :=
    (OnlyFails.checkWhen acceptProofOfStake_fails).ne_error
  have hheader : acceptBlockHeader env node block (some prev) ≠ .error spentInMainChain :=
    acceptBlockHeader_fails.ne_error
  have hblock : checkWhen (fAlreadyCheckedBlock = false)
      (checkBlock env node.toConsensusNode block true true) ≠ .error spentInMainChain :=
    (OnlyFails.checkWhen checkBlock_fails).ne_error
  have hinputs : ∀ nHeight, checkWhen (block.isProofOfStake = true)
      (checkStakeInputs env node block (some prev) nHeight) =
        checkStakeInputs env node block (some prev) nHeight := fun _ => if_pos hpos
  simp only [acceptOnto, bind_eq_error, hkernel, hheader, false_or, checkWhen_eq_ok, stopIf_eq_ok,
    hwork _ "incorrect proof of work" (by decide)]
  constructor
  · rintro ⟨_, hgood, _, hstakes, pindex, hindex, h⟩
    refine ⟨by simpa using hgood, hstakes hpos, pindex, hindex, ?_⟩
    split_ifs at h with hdata
    · simp [pure, Except.pure] at h
    · simp only [bind_eq_error, hblock, false_or, checkWhen_eq_ok, stopIf_eq_ok, hinputs,
        hwork _ "ContextualCheckBlock" (by decide), hwork _ "Failed to write block" (by decide)] at h
      obtain ⟨_, hchecked, _, hcontext, hlast⟩ := h
      refine ⟨by simpa using hdata, hchecked, by simpa using hcontext, ?_⟩
      rcases hlast with hinput | ⟨_, -, hwrite⟩
      · exact hinput
      · simp [pure, Except.pure] at hwrite
  · rintro ⟨hgood, hstakes, pindex, hindex, hdata, hchecked, hcontext, hinput⟩
    refine ⟨(), by simpa using hgood, (), fun _ => hstakes, pindex, hindex, ?_⟩
    rw [if_neg (by simp [hdata])]
    simp only [bind_eq_error, checkWhen_eq_ok, stopIf_eq_ok, hinputs]
    exact Or.inr ⟨(), hchecked, Or.inr ⟨(), by simpa using hcontext, Or.inl hinput⟩⟩

/-- The reason is given exactly when all else is in order and the coin view lacks an input. -/
theorem acceptBlock_eq_error {fAlreadyCheckedBlock : Bool}
    (hgenesis : block.hash ≠ node.params.hashGenesisBlock) (hpos : block.isProofOfStake = true)
    (hstake : block.vtx[1]? = some stakeTxIn)
    (hplain : ∀ txin ∈ stakeTxIn.vin, txin.scriptSig.isZerocoinSpend = false)
    (hfork : node.view.contains block.hashPrevBlock = false)
    (hsplit : IsSplit node.view block.hashPrevBlock split)
    (hfree : ∀ txin ∈ stakeTxIn.vin, ¬ SpentOnBranch node block.hashPrevBlock txin.prevout) :
    acceptBlock env node block fAlreadyCheckedBlock = .error spentInMainChain ↔
      PassesBefore env node block fAlreadyCheckedBlock ∧
      ∃ txin ∈ stakeTxIn.vin, ∃ coin ∈ node.accessCoins txin.prevout.hash,
        coin.isAvailable txin.prevout.n = false ∧
          coin.nHeight ≤ (node.view.index split).nHeight := by
  unfold acceptBlock
  rw [if_neg hgenesis]
  cases hknown : node.view.mapBlockIndex block.hashPrevBlock with
  | false =>
    rw [if_pos rfl]
    refine iff_of_false (by decide) ?_
    rintro ⟨hpasses, -⟩
    rw [hpasses.known] at hknown
    contradiction
  | true =>
    rw [if_neg (by simp)]
    cases hfailed : (node.view.index block.hashPrevBlock).nStatus.failed with
    | true =>
      rw [if_pos rfl]
      refine iff_of_false ?_ ?_
      · split_ifs <;> simp [spentInMainChain]
      · rintro ⟨hpasses, -⟩
        rw [hpasses.good] at hfailed
        contradiction
    | false =>
      have hinputs := fun nHeight => @checkStakeInputs_eq_error env node block stakeTxIn
        block.hashPrevBlock split nHeight hstake hplain hknown hfork hsplit hfree
      rw [if_neg (by simp), acceptOnto_eq_error hpos]
      constructor
      · rintro ⟨hwork, hkernel, pindex, hheader, hdata, hchecked, hcontext, herror⟩
        obtain ⟨hserials, hdisk, hlacks⟩ := (hinputs _).mp herror
        exact ⟨⟨hknown, hfailed, hwork, hkernel, ⟨pindex, hheader, hdata, hcontext, hserials⟩,
          hchecked, hdisk⟩, hlacks⟩
      · rintro ⟨hpasses, hlacks⟩
        obtain ⟨pindex, hheader, hdata, hcontext, hserials⟩ := hpasses.header
        exact ⟨hpasses.work, hpasses.kernel, pindex, hheader, hdata, hpasses.checked, hcontext,
          (hinputs _).mpr ⟨hserials, hpasses.onDisk, hlacks⟩⟩

/-- A stake that is unspent on its own branch is not turned away for what the main chain spent,
exactly unless the rest is in order and an input is taken for spent. -/
theorem acceptBlock_unspentOnBranch_iff {fAlreadyCheckedBlock : Bool}
    (hgenesis : block.hash ≠ node.params.hashGenesisBlock) (hpos : block.isProofOfStake = true)
    (hstake : block.vtx[1]? = some stakeTxIn)
    (hplain : ∀ txin ∈ stakeTxIn.vin, txin.scriptSig.isZerocoinSpend = false)
    (hfork : node.view.contains block.hashPrevBlock = false)
    (hsplit : IsSplit node.view block.hashPrevBlock split) (main : MainHistory node split)
    (hunspent : UnspentOnBranch node block.hashPrevBlock main.atSplit stakeTxIn) :
    acceptBlock env node block fAlreadyCheckedBlock ≠ .error spentInMainChain ↔
      ¬ (PassesBefore env node block fAlreadyCheckedBlock ∧
        ∃ txin ∈ stakeTxIn.vin, TakenForSpent main txin.prevout) := by
  have hfree : ∀ txin ∈ stakeTxIn.vin, ¬ SpentOnBranch node block.hashPrevBlock txin.prevout :=
    fun txin htxin => (hunspent txin htxin).2
  rw [ne_eq, acceptBlock_eq_error hgenesis hpos hstake hplain hfork hsplit hfree]
  have htaken : ∀ o, (∃ coin ∈ node.accessCoins o.hash, coin.isAvailable o.n = false ∧
      coin.nHeight ≤ (node.view.index split).nHeight) ↔ TakenForSpent main o := by
    intro o
    constructor
    · rintro ⟨coin, hcoin, hgone, hold⟩
      exact ⟨⟨coin, hcoin, hold⟩, (main.unavailable_iff hcoin hold).mp hgone⟩
    · rintro ⟨⟨coin, hcoin, hold⟩, hlost⟩
      exact ⟨coin, hcoin, (main.unavailable_iff hcoin hold).mpr hlost, hold⟩
  simp only [htaken]

end

/-! Block 2 holds a coin of two outputs. Block 3 of the main chain spends the first one; so does the
stake of block 7, on top of block 6, which is beside block 3. -/

def besideIndex (hash : Uint256) : CBlockIndex :=
  if hash = 6 then { pprev := some 2, nHeight := 2 } else sampleIndex hash

def besideView : ChainView where
  mapBlockIndex := fun hash => hash ∈ [1, 2, 3, 6]
  index := besideIndex
  chainActive := [1, 2, 3]
  heights := by
    intro i pindex h
    rcases i with _ | _ | _ | i <;> simp at h <;> subst h <;> decide
  linked := by
    intro i pindex h
    rcases i with _ | _ | _ | i <;> simp at h <;> subst h <;> decide
  above := by
    intro pindex p hknown hprev
    simp only [List.mem_cons, List.not_mem_nil, or_false, decide_eq_true_eq] at hknown
    rcases hknown with rfl | rfl | rfl | rfl
    · contradiction
    all_goals exact Option.some.inj hprev ▸ by decide

def twoOutputs : CTransaction := ⟨20, 1, [], [⟨100, [], -10⟩, ⟨100, [], -10⟩], 0⟩

def besideDisk (hash : Uint256) : Option CBlock :=
  if hash = 2 then some ⟨2, 3, 1, 0, 1000, 0, 0, 0, [twoOutputs]⟩
  else if hash = 3 then
    some ⟨3, 3, 2, 0, 5000, 0, 0, 0, [⟨24, 1, [⟨⟨20, 0⟩, [], 0⟩], [⟨100, [], -10⟩], 0⟩]⟩
  else if hash = 6 then some ⟨6, 3, 2, 0, 4000, 0, 0, 0, []⟩
  else none

def besideStake : CTransaction :=
  ⟨25, 1, [⟨⟨20, 0⟩, [], 0⟩], [⟨0, [], -10⟩, ⟨100, [5], -10⟩], 0⟩

def besideBlock : CBlock :=
  ⟨7, 4, 6, 0, 1700000000, 0x03000008, 0, 0, [deepCoinBase, besideStake]⟩

def besideAtSplit : CoinsMap := CoinsMap.empty.set 20 (CCoins.fromTx twoOutputs 1)

def besideBlocks : List CBlock := ([3].map besideDisk).reduceOption

def besideAtTip : CoinsMap := (besideAtSplit.connectBlocks 2 besideBlocks).getD CoinsMap.empty

def besideNode : AcceptNode :=
  { deepNode besideView besideDisk with accessCoins := besideAtTip.get }

def besideEnv : ConsensusEnv :=
  { deepEnv with hash := fun bytes => BitVec.ofNat 256 (bytes.headD 0).toNat }

theorem checkProofOfStake_beside :
    checkProofOfStake besideEnv.toKernelEnv besideNode.toNode besideBlock =
      some (7, .piv twoOutputs 0) := by
  have hinput : kernelStakeInput besideEnv.toKernelEnv besideNode.toNode besideStake
      ⟨⟨20, 0⟩, [], 0⟩ = some (.piv twoOutputs 0) := by decide
  have hblock : (CStakeInput.piv twoOutputs 0).blockFrom besideNode.toNode = besideDisk 2 := by
    decide
  have hmodifier : (CStakeInput.piv twoOutputs 0).getModifier besideNode.toNode = some 7 := by
    decide
  have hhit : checkStake besideEnv.toKernelEnv (CStakeInput.piv twoOutputs 0).getUniqueness
      (CStakeInput.piv twoOutputs 0).getValue 7 (setCompact 0x03000008) 1000 1700000000 =
        (true, 7) := by decide
  exact checkProofOfStake_of_hit rfl (by decide) rfl hinput hblock hmodifier hhit

/-- `CheckBlock` does not ask which output is staked. -/
theorem checkBlock_besideOutput (n : ℕ) :
    checkBlock besideEnv besideNode.toConsensusNode { besideBlock with
      vtx := [deepCoinBase, { besideStake with vin := [⟨⟨20, n⟩, [], 0⟩] }] } true true =
        .ok () := by
  have hgenesis : besideBlock.hash ≠ besideNode.toConsensusNode.params.hashGenesisBlock := by
    show (7 : Uint256) ≠ testNetParams.hashGenesisBlock
    decide
  have hstake : checkTransaction besideEnv besideNode.toConsensusNode
      { besideStake with vin := [⟨⟨20, n⟩, [], 0⟩] } true = .ok () := rfl
  unfold checkBlock
  rw [if_neg hgenesis]
  simp only [bind_eq_ok]
  refine ⟨(), rfl, (), rfl, (), rfl, (), rfl, (), rfl, (), rfl, (), checkPayee_downloading rfl, [],
    ?_, rfl⟩
  simp only [List.foldlM_cons, List.foldlM_nil, bind_eq_ok, pure_eq_ok]
  refine ⟨[], ?_, [], ?_, rfl⟩
  · unfold checkBlockTransaction
    rw [bind_eq_ok]
    exact ⟨(), checkTransaction_deepCoinBase _ besideView besideDisk, rfl⟩
  · unfold checkBlockTransaction
    rw [bind_eq_ok]
    exact ⟨(), hstake, rfl⟩

theorem checkBlock_beside :
    checkBlock besideEnv besideNode.toConsensusNode besideBlock true true = .ok () :=
  checkBlock_besideOutput 0

theorem isSplit_beside : IsSplit besideNode.view besideBlock.hashPrevBlock 2 :=
  ⟨by decide, 6, ⟨IsAncestor.refl _ _, by decide⟩, by decide⟩

/-- Block 6 is all there is of the branch. -/
theorem onBranch_beside {p : Uint256} (h : OnBranch besideNode.view besideBlock.hashPrevBlock p) :
    p = 6 := by
  rcases Relation.ReflTransGen.cases_head h.1 with heq | ⟨q, hq, hrest⟩
  · exact heq.symm
  · have htwo : q = 2 := (Option.some.inj hq).symm
    rw [htwo] at hrest
    have hon := ChainView.contains_of_isAncestor (by decide) hrest
    rw [h.2] at hon
    contradiction

theorem acceptBlockHeader_beside :
    acceptBlockHeader besideEnv besideNode besideBlock (some 6) =
      .ok { pprev := some 6, nHeight := 3, nVersion := 4, nTime := 1700000000,
            nBits := 0x03000008 } := by
  have hunknown : besideNode.view.mapBlockIndex besideBlock.hash = false := by decide
  have hheight : (besideNode.view.index 6).nHeight = 2 := by decide
  unfold acceptBlockHeader
  rw [hunknown, if_neg Bool.false_ne_true]
  simp only [bind_eq_ok]
  refine ⟨(), rfl, (), rfl, ?_⟩
  rw [pure_eq_ok, Option.map_some, Option.getD_some, hheight]
  rfl

theorem passesBefore_beside : PassesBefore besideEnv besideNode besideBlock false where
  known := by decide
  good := by decide
  work := rfl
  kernel := by
    unfold acceptProofOfStake
    rw [checkProofOfStake_beside]
    rfl
  header := by
    refine ⟨_, acceptBlockHeader_beside, rfl, rfl, ?_⟩
    intro hheight
    have hstart : besideNode.params.nZerocoinStartHeight = 100000 := rfl
    rw [hstart] at hheight
    contradiction
  checked _ := checkBlock_beside
  onDisk p hp := by
    rw [onBranch_beside hp]
    decide

def besideHistory : MainHistory besideNode 2 where
  atSplit := besideAtSplit
  blocks := besideBlocks
  atTip := besideAtTip
  stored := by decide
  connected := by
    have hsome : (besideAtSplit.connectBlocks 2 besideBlocks).isSome = true := by decide
    obtain ⟨coins, hcoins⟩ := Option.isSome_iff_exists.mp hsome
    show besideAtSplit.connectBlocks 2 besideBlocks = some besideAtTip
    rw [besideAtTip, hcoins, Option.getD_some]
  answers txid := by
    show (besideAtTip.get txid).bind CCoins.live? = besideAtTip.get txid
    cases hget : besideAtTip.get txid with
    | none => rfl
    | some coin => exact CCoins.live?_eq_some.mpr ⟨(besideAtTip.live txid coin hget).2, rfl⟩

theorem unspentOnBranch_beside :
    UnspentOnBranch besideNode besideBlock.hashPrevBlock besideHistory.atSplit besideStake := by
  intro txin htxin
  obtain rfl := List.mem_singleton.mp htxin
  refine ⟨Or.inl (by decide), ?_⟩
  rintro ⟨p, hp, bl, hbl, other, hother, -⟩
  rw [onBranch_beside hp] at hbl
  obtain rfl := Option.some.inj hbl
  exact absurd hother List.not_mem_nil

theorem takenForSpent_beside : TakenForSpent besideHistory ⟨20, 0⟩ := by
  refine ⟨?_, Or.inl (by decide)⟩
  have hentry : (besideNode.accessCoins 20).any (fun coin => decide (coin.nHeight ≤ 1)) = true := by
    decide
  obtain ⟨coin, hcoin, hold⟩ := (Option.any_eq_true _ _).mp hentry
  have hheight : (besideNode.view.index 2).nHeight = 1 := by decide
  refine ⟨coin, hcoin, ?_⟩
  rw [hheight]
  exact of_decide_eq_true hold

theorem besideStake_plain :
    ∀ txin ∈ besideStake.vin, txin.scriptSig.isZerocoinSpend = false := by decide

theorem besideBlock_not_genesis : besideBlock.hash ≠ besideNode.params.hashGenesisBlock := by
  show (7 : Uint256) ≠ testNetParams.hashGenesisBlock
  decide

/-- The stake is unspent on its branch, and it is turned away. -/
theorem acceptBlock_beside_spentInMainChain :
    besideBlock.isProofOfStake = true ∧
      besideNode.view.contains besideBlock.hashPrevBlock = false ∧
      (∃ main : MainHistory besideNode 2,
        UnspentOnBranch besideNode besideBlock.hashPrevBlock main.atSplit besideStake) ∧
      acceptBlock besideEnv besideNode besideBlock false = .error spentInMainChain := by
  refine ⟨by decide, by decide, ⟨besideHistory, unspentOnBranch_beside⟩, ?_⟩
  have hfree : ∀ txin ∈ besideStake.vin,
      ¬ SpentOnBranch besideNode besideBlock.hashPrevBlock txin.prevout :=
    fun txin htxin => (unspentOnBranch_beside txin htxin).2
  rw [acceptBlock_eq_error besideBlock_not_genesis (by decide) rfl besideStake_plain (by decide)
    isSplit_beside hfree]
  obtain ⟨⟨coin, hcoin, hold⟩, hspent⟩ := takenForSpent_beside
  exact ⟨passesBefore_beside, ⟨⟨20, 0⟩, [], 0⟩, List.mem_singleton_self _, coin, hcoin,
    (besideHistory.unavailable_iff hcoin hold).mpr hspent, hold⟩

theorem acceptBlock_unspentOnBranch_beside :
    acceptBlock besideEnv besideNode besideBlock false ≠ .error spentInMainChain ↔
      ¬ (PassesBefore besideEnv besideNode besideBlock false ∧
        ∃ txin ∈ besideStake.vin, TakenForSpent besideHistory txin.prevout) :=
  acceptBlock_unspentOnBranch_iff besideBlock_not_genesis (by decide) rfl besideStake_plain
    (by decide) isSplit_beside besideHistory unspentOnBranch_beside

end Lytix
