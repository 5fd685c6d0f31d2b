import Lytix.Validation.Conservation
import Lytix.Validation.DryRun
import Mathlib.Data.List.ReduceOption

/-! When a dry run of `ConnectBlock`, or a block refused by it, changes nothing that is stored. -/
namespace Lytix
open Checks CountEntries

/-! The recalculation does not read the records that it writes. -/

section
variable {env : ConsensusEnv} {node : Node} {store store' : IndexStore} {nLocked : Int}

theorem setSupplies_view (h : store.view = store'.view) (pindex : Uint256) (supplies : Supplies) :
    (store.setSupplies pindex supplies).view = (store'.setSupplies pindex supplies).view := by
  simp only [IndexStore.setSupplies, h]

theorem rel_recalculateMinted (h : store.view = store'.view) (pindex : Uint256) :
    Option.Rel (fun s t => s.view = t.view) (recalculateMinted node store pindex)
      (recalculateMinted node store' pindex) := by
  unfold recalculateMinted
  refine rel_bind_refl fun block => Option.Rel.some ?_
  rw [h]
  exact setSupplies_view h pindex _

theorem rel_recalculateSpent (h : store.view = store'.view) (pindex : Uint256) :
    Option.Rel (fun s t => s.view = t.view) (recalculateSpent env node store pindex)
      (recalculateSpent env node store' pindex) := by
  unfold recalculateSpent
  rw [h]
  refine rel_bind_refl fun block => rel_bind_refl fun pprev => rel_bind_refl fun supply => ?_
  exact Option.Rel.some (setSupplies_view h pindex _)

theorem rel_recalculateMoneySupply {nSupplyPrev : Int} (h : store.view = store'.view)
    (pindex : Uint256) :
    Option.Rel (fun s t => s.1.view = t.1.view ∧ s.2 = t.2)
      (recalculateMoneySupply node nLocked (store, nSupplyPrev) pindex)
      (recalculateMoneySupply node nLocked (store', nSupplyPrev) pindex) := by
  unfold recalculateMoneySupply
  refine rel_bind_refl fun block => rel_bind_refl fun values => ?_
  dsimp only
  rw [h]
  exact Option.Rel.some ⟨setSupplies_view h pindex _, rfl⟩

theorem rel_recalculatePIVSupply (h : store.view = store'.view) (nHeightStart : Int) :
    Option.Rel (fun s t => s.1.view = t.1.view)
      (recalculatePIVSupply node nLocked nHeightStart store)
      (recalculatePIVSupply node nLocked nHeightStart store') := by
  unfold recalculatePIVSupply
  rw [h]
  by_cases hheight : store'.view.height < nHeightStart
  · rw [if_pos hheight, if_pos hheight]
    exact Option.Rel.some h
  rw [if_neg hheight, if_neg hheight]
  refine rel_bind_refl fun chain => rel_bind_refl fun first => rel_bind_refl fun pprev => ?_
  have hloop : ∀ nSupplyPrev, Option.Rel (fun s t => s.1.view = t.1.view ∧ s.2 = t.2)
      (chain.foldlM (recalculateMoneySupply node nLocked) (store, nSupplyPrev))
      (chain.foldlM (recalculateMoneySupply node nLocked) (store', nSupplyPrev)) := by
    intro nSupplyPrev
    refine rel_foldlM ⟨h, rfl⟩ fun s t pindex hst => ?_
    obtain ⟨s, nSupply⟩ := s
    obtain ⟨t, nSupply'⟩ := t
    obtain ⟨hview, rfl⟩ := hst
    exact rel_recalculateMoneySupply hview pindex
  exact rel_bind (hloop _) fun s t hst => Option.Rel.some hst.1

theorem rel_recalculateOnce (h : store.view = store'.view) (nHeight : ℕ) :
    Option.Rel (fun s t => s.view = t.view) (recalculateOnce env node nLocked nHeight store)
      (recalculateOnce env node nLocked nHeight store') := by
  unfold recalculateOnce
  by_cases hheight : (nHeight : Int) = (Params node.network).nBlockRecalculateAccumulators + 1
  case neg =>
    rw [if_neg hheight, if_neg hheight]
    exact Option.Rel.some h
  rw [if_pos hheight, if_pos hheight]
  have hminted : Option.Rel (fun s t => s.view = t.view) (recalculateZPIVMinted node store)
      (recalculateZPIVMinted node store') := by
    unfold recalculateZPIVMinted
    rw [h]
    exact rel_bind_refl fun chain => rel_foldlM h fun s t pindex => (rel_recalculateMinted · pindex)
  refine rel_bind hminted fun store store' h => ?_
  have hspent : Option.Rel (fun s t => s.view = t.view) (recalculateZPIVSpent env node store)
      (recalculateZPIVSpent env node store') := by
    unfold recalculateZPIVSpent
    rw [h]
    exact rel_bind_refl fun chain => rel_foldlM h fun s t pindex => (rel_recalculateSpent · pindex)
  refine rel_bind hspent fun store store' h => ?_
  exact rel_bind (rel_recalculatePIVSupply h _) fun s t hst => Option.Rel.some hst

theorem chainFrom_ne_nil {view : ChainView} {nHeight : Int} {chain : List Uint256}
    (h : view.chainFrom nHeight = some chain) : chain ≠ [] := by
  unfold ChainView.chainFrom at h
  split_ifs at h with hfound
  rw [← Option.some.inj h]
  intro hempty
  have hpast : view.chainActive[nHeight.toNat]? = none :=
    List.getElem?_eq_none (List.drop_eq_nil_iff.mp hempty)
  simp [ChainView.chainAt, hpast] at hfound

/-- Every recalculation writes a record. -/
theorem recalculateOnce_writes {nHeight : ℕ}
    (hheight : (nHeight : Int) = (Params node.network).nBlockRecalculateAccumulators + 1)
    (h : recalculateOnce env node nLocked nHeight store = some store') :
    ∃ pindex, pindex ∈ store'.blockTree := by
  have hwrite : ∀ (store : IndexStore) (pindex : Uint256),
      ∃ k, k ∈ (store.writeBlockIndex pindex).blockTree :=
    fun store pindex => ⟨pindex, (AList.mem_insert _).mpr (Or.inl rfl)⟩
  unfold recalculateOnce at h
  rw [if_pos hheight] at h
  obtain ⟨minted, -, h⟩ := Option.bind_eq_some_iff.mp h
  obtain ⟨spent, hspent, h⟩ := Option.bind_eq_some_iff.mp h
  obtain ⟨⟨last, fDone⟩, hmoney, hlast⟩ := Option.bind_eq_some_iff.mp h
  obtain rfl : last = store' := Option.some.inj hlast
  have hspentWrites : ∃ k, k ∈ spent.blockTree := by
    unfold recalculateZPIVSpent at hspent
    obtain ⟨chain, hfrom, hloop⟩ := Option.bind_eq_some_iff.mp hspent
    refine @foldlM_of_step _ _ (fun s => ∃ k, k ∈ s.blockTree) _ _ _ _ (chainFrom_ne_nil hfrom)
      (fun s pindex s' hstep => ?_) hloop
    unfold recalculateSpent at hstep
    simp only [Option.bind_eq_bind, Option.bind_eq_some_iff] at hstep
    obtain ⟨_, -, _, -, supply, -, hset⟩ := hstep
    rw [← Option.some.inj hset]
    exact hwrite _ pindex
  unfold recalculatePIVSupply at hmoney
  by_cases hshort : spent.view.height < (Params node.network).nZerocoinStartHeight
  · rw [if_pos hshort] at hmoney
    obtain rfl : spent = last := (Prod.mk.inj (Option.some.inj hmoney)).1
    exact hspentWrites
  · rw [if_neg hshort] at hmoney
    simp only [Option.bind_eq_bind, Option.bind_eq_some_iff] at hmoney
    obtain ⟨chain, hfrom, first, -, pprev, -, ⟨final, nSupply⟩, hloop, hend⟩ := hmoney
    obtain rfl : final = last := (Prod.mk.inj (Option.some.inj hend)).1
    refine @foldlM_of_step _ _ (fun s => ∃ k, k ∈ s.1.blockTree) _ _ _ _ (chainFrom_ne_nil hfrom)
      (fun s pindex s' hstep => ?_) hloop
    unfold recalculateMoneySupply at hstep
    simp only [Option.bind_eq_bind, Option.bind_eq_some_iff] at hstep
    obtain ⟨_, -, ⟨nValueIn, nValueOut⟩, -, hset⟩ := hstep
    rw [← Option.some.inj hset]
    exact hwrite _ pindex

end

/-! Validating a checkpoint erases nothing: the height at which that would be done is no multiple of
ten on any network. -/

section
variable {acc : AccumulatorEnv} {env : ConsensusEnv} {node : Node} {nHeight : Int}
  {map : AccumulatorMap} {values : AccumulatorValues}

theorem nBlockRecalculateAccumulators_eq (network : Network) :
    (Params network).nBlockRecalculateAccumulators = 999999999 := by
  cases network <;> rfl

theorem initializeAccumulators_values
    (h : nHeight ≠ (Params node.network).nBlockRecalculateAccumulators) :
    (initializeAccumulators acc node nHeight map values).2 = values := by
  unfold initializeAccumulators
  rw [if_neg h]
  by_cases hstart : nHeight < (Params node.network).nZerocoinStartHeight
  · rw [if_pos hstart]
  rw [if_neg hstart]
  dsimp only
  by_cases hfirst : (Params node.network).nBlockZerocoinV2 ≤ nHeight ∧
      nHeight ≤ (Params node.network).nBlockZerocoinV2 + 20
  · rw [if_pos hfirst]
    cases getClosestCheckpoint acc nHeight with
    | none => rfl
    | some checkpoint => rfl
  rw [if_neg hfirst]
  cases node.view.chainAt (nHeight - 1) with
  | none => rfl
  | some pindex =>
    dsimp only
    by_cases hnone : (node.view.index pindex).nAccumulatorCheckpoint = 0
    · rw [if_pos hnone]
    · rw [if_neg hnone]
      split <;> rfl

theorem calculateAccumulatorCheckpoint_values :
    (calculateAccumulatorCheckpoint acc env node nHeight map values).2 = values := by
  unfold calculateAccumulatorCheckpoint
  split_ifs with hstart hround
  · rfl
  · rfl
  · have hnever : nHeight ≠ (Params node.network).nBlockRecalculateAccumulators := by
      rw [nBlockRecalculateAccumulators_eq]
      omega
    have hkept := @initializeAccumulators_values acc node nHeight (map.reset acc) values hnever
    split
    · rename_i hinit
      rw [hinit] at hkept
      exact hkept
    · rename_i hinit
      rw [hinit] at hkept
      exact hkept

theorem validateAccumulatorCheckpoint_values {fVerifyingBlocks : Bool} {block : CBlock}
    {pindex : CBlockIndex} :
    (validateAccumulatorCheckpoint acc env node fVerifyingBlocks block pindex map values).2 =
      values := by
  unfold validateAccumulatorCheckpoint
  have hkept := @calculateAccumulatorCheckpoint_values acc env node pindex.nHeight map values
  split_ifs
  · rfl
  · split
    · rename_i hcalc
      rw [hcalc] at hkept
      exact hkept
    · rename_i hcalc
      rw [hcalc] at hkept
      exact hkept
  · split <;> rfl

end

/-! What the wallet does with its own mints. -/

section
variable {M : Type} {calls : MintWallet M} {env : ConsensusEnv} {block : CBlock} {nHeight : ℕ}
  {st : TrackState M} {wallet : CWallet M}

theorem foldl_trackMint_of_none {mints : List (PublicCoin × Uint256)}
    (h : ∀ mint ∈ mints, calls.isMyMint st.wallet.mintRecords mint.1.value = false) :
    mints.foldl (trackMint calls block nHeight) st = st := by
  induction mints with
  | nil => rfl
  | cons mint mints ih =>
    obtain ⟨hfirst, hothers⟩ := List.forall_mem_cons.mp h
    have hsame : trackMint calls block nHeight st mint = st := by simp [trackMint, hfirst]
    rw [List.foldl_cons, hsame]
    exact ih hothers

theorem mem_addToWallet {mapWallet : Table Uint256 CWalletTx} {wtx : CWalletTx} {hash : Uint256} :
    hash ∈ addToWallet calls mapWallet wtx ↔ hash = wtx.tx.hash ∨ hash ∈ mapWallet := by
  unfold addToWallet
  split <;> exact AList.mem_insert _

/-- What was added to the wallet is in it. -/
def TrackState.Added (st : TrackState M) : Prop :=
  ∀ hash ∈ st.setAddedToWallet, hash ∈ st.wallet.mapWallet

theorem addMintTransaction_spec {txHash : Uint256} (tx : CTransaction) (h : st.Added) :
    (addMintTransaction calls block txHash st tx).Added ∧
      (∀ hash ∈ st.wallet.mapWallet,
        hash ∈ (addMintTransaction calls block txHash st tx).wallet.mapWallet) ∧
      (tx.hash = txHash →
        txHash ∈ (addMintTransaction calls block txHash st tx).wallet.mapWallet) := by
  unfold addMintTransaction
  split_ifs with hadded hmatch
  · refine ⟨h, fun hash hmem => hmem, ?_⟩
    rintro rfl
    exact h _ hadded
  · have hkept : ∀ hash, hash ∈ addToWallet calls st.wallet.mapWallet (walletTx calls block tx) ↔
        hash = tx.hash ∨ hash ∈ st.wallet.mapWallet := fun hash => mem_addToWallet
    refine ⟨fun hash hmem => (hkept hash).mpr ?_, fun hash hmem => (hkept hash).mpr (Or.inr hmem),
      fun _ => (hkept txHash).mpr (Or.inl hmatch.symm)⟩
    rcases List.mem_cons.mp hmem with rfl | hbefore
    · exact Or.inl rfl
    · exact Or.inr (h hash hbefore)
  · exact ⟨h, fun hash hmem => hmem, fun hmatch' => absurd hmatch' hmatch⟩

theorem foldl_addMintTransaction {txHash : Uint256} {vtx : List CTransaction} (h : st.Added) :
    (vtx.foldl (addMintTransaction calls block txHash) st).Added ∧
      (∀ hash ∈ st.wallet.mapWallet,
        hash ∈ (vtx.foldl (addMintTransaction calls block txHash) st).wallet.mapWallet) ∧
      ((∃ tx ∈ vtx, tx.hash = txHash) →
        txHash ∈ (vtx.foldl (addMintTransaction calls block txHash) st).wallet.mapWallet) := by
  induction vtx generalizing st with
  | nil => exact ⟨h, fun hash hmem => hmem, by simp⟩
  | cons tx vtx ih =>
    obtain ⟨hadded, hkept, hnew⟩ := @addMintTransaction_spec M calls block st txHash tx h
    obtain ⟨hadded', hkept', hnew'⟩ := ih hadded
    rw [List.foldl_cons]
    refine ⟨hadded', fun hash hmem => hkept' hash (hkept hash hmem), ?_⟩
    rintro ⟨found, hfound, hhash⟩
    rcases List.mem_cons.mp hfound with rfl | hlater
    · exact hkept' _ (hnew hhash)
    · exact hnew' ⟨found, hlater, hhash⟩

theorem trackMint_keeps (mint : PublicCoin × Uint256) (h : st.Added) :
    (trackMint calls block nHeight st mint).Added ∧
      ∀ hash ∈ st.wallet.mapWallet,
        hash ∈ (trackMint calls block nHeight st mint).wallet.mapWallet := by
  unfold trackMint
  split_ifs
  · have hupdated : ∀ hash ∈ st.wallet.mapWallet, hash ∈ (calls.updateMint st.wallet mint.1.value
        nHeight mint.2 mint.1.denomination).mapWallet :=
      fun hash => calls.updateMint_keeps _ _ _ _ _ hash
    obtain ⟨hadded, hkept, -⟩ := @foldl_addMintTransaction M calls block
      ⟨calls.updateMint st.wallet mint.1.value nHeight mint.2 mint.1.denomination,
        st.setAddedToWallet⟩ mint.2 block.vtx fun hash hmem => hupdated hash (h hash hmem)
    exact ⟨hadded, fun hash hmem => hkept hash (hupdated hash hmem)⟩
  · exact ⟨h, fun hash hmem => hmem⟩

/-- An own mint brings its transaction into the wallet. -/
theorem foldl_trackMint_adds {mints : List (PublicCoin × Uint256)} (hst : st.Added)
    (hblock : ∀ mint ∈ mints, ∃ tx ∈ block.vtx, tx.hash = mint.2)
    (h : (∃ mint ∈ mints, calls.isMyMint st.wallet.mintRecords mint.1.value = true) ∨
      ∃ hash, hash ∈ st.wallet.mapWallet) :
    ∃ hash, hash ∈ (mints.foldl (trackMint calls block nHeight) st).wallet.mapWallet := by
  induction mints generalizing st with
  | nil => simpa using h
  | cons mint mints ih =>
    obtain ⟨hfirst, hothers⟩ := List.forall_mem_cons.mp hblock
    obtain ⟨hadded, hkept⟩ := @trackMint_keeps M calls block nHeight st mint hst
    rw [List.foldl_cons]
    refine ih hadded hothers ?_
    by_cases hmine : calls.isMyMint st.wallet.mintRecords mint.1.value = true
    · right
      refine ⟨mint.2, ?_⟩
      unfold trackMint
      rw [if_pos hmine]
      refine (foldl_addMintTransaction fun hash hmem => ?_).2.2 hfirst
      exact calls.updateMint_keeps _ _ _ _ _ hash (hst hash hmem)
    · rcases h with ⟨own, hown, hisMine⟩ | ⟨hash, hmem⟩
      · left
        rcases List.mem_cons.mp hown with rfl | hlater
        · exact absurd hisMine hmine
        · have hsame : trackMint calls block nHeight st mint = st := by simp [trackMint, hmine]
          rw [hsame]
          exact ⟨own, hlater, hisMine⟩
      · exact Or.inr ⟨hash, hkept hash hmem⟩

theorem exists_tx_of_blockToZerocoinMints {mint : PublicCoin × Uint256}
    (h : mint ∈ blockToZerocoinMints env block) : ∃ tx ∈ block.vtx, tx.hash = mint.2 := by
  have hmem := (List.takeWhile_subset _) (List.reduceOption_mem_iff.mp h)
  obtain ⟨tx, htx, hout⟩ := List.mem_flatMap.mp hmem
  obtain ⟨out, -, hmint⟩ := List.mem_map.mp hout
  obtain ⟨coin, -, rfl⟩ := Option.map_eq_some_iff.mp hmint
  exact ⟨tx, htx, rfl⟩

end
/-! `ConnectBlock` up to the mark. -/

section
variable {M : Type} {calls : ConnectCalls M} {env : ConsensusEnv} {node : ConsensusNode}
  {s : StoredState M} {block : CBlock} {coins : CoinsMap} {hashBestBlock : Uint256}
  {pindex : CBlockIndex} {fJustCheck fAlreadyChecked : Bool} {st : ConnectState}

/-- A block that passes for good passes in a dry run, which checks less. -/
theorem connectTransactions_dry
    (h : connectTransactions env node block coins hashBestBlock pindex false fAlreadyChecked =
      .ok st) :
    connectTransactions env node block coins hashBestBlock pindex true fAlreadyChecked = .ok st := by
  have hcheck : checkBlock env node block true true = .ok () →
      checkBlock env node block false false = .ok () := by
    intro hpassed
    unfold checkBlock at hpassed ⊢
    by_cases hgenesis : block.hash = node.params.hashGenesisBlock
    · rw [if_pos hgenesis]
    · rw [if_neg hgenesis] at hpassed ⊢
      simp only [bind_eq_ok, checkWhen_eq_ok] at hpassed ⊢
      obtain ⟨_, hheader, _, htime, _, -, hrest⟩ := hpassed
      refine ⟨(), ?_, (), htime, (), fun hfalse => absurd hfalse (by decide), hrest⟩
      simp only [checkBlockHeader, bind_eq_ok, stopIf_eq_ok] at hheader ⊢
      obtain ⟨_, -, hversion⟩ := hheader
      exact ⟨(), by simp, hversion⟩
  simp only [connectTransactions, connectBlockHeader, bind_eq_ok, checkWhen_eq_ok] at h ⊢
  obtain ⟨_, ⟨_, hfirst, hrest⟩, hloop⟩ := h
  exact ⟨(), ⟨(), fun hneeded => hcheck (hfirst hneeded), hrest⟩, hloop⟩

/-- Every end of the call after the tracking has what the tracking stored. -/
theorem connectUpToMark_tracked {store : IndexStore}
    (hloop : connectTransactions env (node.reading calls s) block coins hashBestBlock pindex
      fJustCheck fAlreadyChecked = .ok st)
    (hstore : recalculateOnce env (node.reading calls s).toNode calls.nLocked pindex.nHeight
      s.store = some store) :
    (∃ reject, connectUpToMark calls env node s block coins hashBestBlock pindex fJustCheck
        fAlreadyChecked = .refused reject (storeTracked calls env block pindex store s)) ∨
      ∃ outcome, connectUpToMark calls env node s block coins hashBestBlock pindex fJustCheck
        fAlreadyChecked = .atMark outcome (storeTracked calls env block pindex store s) := by
  unfold connectUpToMark
  dsimp only
  rw [hloop]
  dsimp only
  rw [hstore]
  dsimp only
  cases connectSupplies env (node.reading calls (storeTracked calls env block pindex store s)) block
    pindex st with
  | error reject => exact Or.inl ⟨reject, rfl⟩
  | ok supplied =>
    dsimp only
    rw [validateAccumulatorCheckpoint_values]
    split_ifs
    · exact Or.inr ⟨_, rfl⟩
    · exact Or.inl ⟨_, rfl⟩

theorem leaves_tracked_iff {store : IndexStore}
    (hloop : connectTransactions env (node.reading calls s) block coins hashBestBlock pindex true
      fAlreadyChecked = .ok st)
    (hstore : recalculateOnce env (node.reading calls s).toNode calls.nLocked pindex.nHeight
      s.store = some store) :
    (connectUpToMark calls env node s block coins hashBestBlock pindex true fAlreadyChecked).Leaves
      true s ↔ storeTracked calls env block pindex store s = s := by
  rcases connectUpToMark_tracked hloop hstore with ⟨reject, hend⟩ | ⟨outcome, hend⟩
  · rw [hend]
    rfl
  · rw [hend]
    exact ⟨fun h => h rfl, fun h _ => h⟩

theorem storeTracked_of_noOwnMints (h : NoOwnMints calls env s block pindex) :
    storeTracked calls env block pindex s.store s = s := by
  unfold storeTracked
  by_cases hprev : pindex.pprev.isSome = true
  · rw [if_pos hprev]
    have hsame : s.pwalletMain.map (trackMints calls.wallet env block pindex.nHeight) =
        s.pwalletMain := by
      cases hwallet : s.pwalletMain with
      | none => rfl
      | some wallet =>
        have hnone := @foldl_trackMint_of_none M calls.wallet block pindex.nHeight ⟨wallet, []⟩ _
          (h hprev wallet hwallet)
        rw [Option.map_some, trackMints, hnone]
    rw [hsame]
  · rw [if_neg hprev]


variable {blockTree : Table Uint256 CBlockIndex} {mapWallet : Table Uint256 CWalletTx}

theorem reading_withRecords :
    node.reading calls (s.withRecords blockTree mapWallet) = node.reading calls s := rfl

theorem recalculateOnce_of_ne
    (h : (pindex.nHeight : Int) ≠ node.params.nBlockRecalculateAccumulators + 1) :
    recalculateOnce env (node.reading calls s).toNode calls.nLocked pindex.nHeight s.store =
      some s.store := if_neg h

/-- The recalculation ends the program whatever is on disk of the block tree. -/
theorem recalculateOnce_withRecords :
    recalculateOnce env (node.reading calls s).toNode calls.nLocked pindex.nHeight
        (s.withRecords blockTree mapWallet).store = none ↔
      recalculateOnce env (node.reading calls s).toNode calls.nLocked pindex.nHeight s.store =
        none := by
  have hview : (s.withRecords blockTree mapWallet).store.view = s.store.view := rfl
  exact rel_eq_none_iff (rel_recalculateOnce hview pindex.nHeight)

/-- From the state with nothing on disk and no transaction in the wallet, the recalculation writes a
record and the wallet adds a transaction. -/
theorem nothingTracked {store : IndexStore}
    (hstore : recalculateOnce env (node.reading calls s).toNode calls.nLocked pindex.nHeight
      (s.withRecords ∅ ∅).store = some store)
    (hsame : storeTracked calls env block pindex store (s.withRecords ∅ ∅) = s.withRecords ∅ ∅) :
    (pindex.nHeight : Int) ≠ node.params.nBlockRecalculateAccumulators + 1 ∧
      NoOwnMints calls env s block pindex := by
  constructor
  · intro hheight
    have hparams : Params (node.reading calls s).toNode.network = node.params := rfl
    rw [← hparams] at hheight
    obtain ⟨written, hwritten⟩ := recalculateOnce_writes hheight hstore
    have hnone : store.blockTree = ∅ :=
      congrArg (fun s : StoredState M => s.store.blockTree) hsame
    rw [hnone] at hwritten
    exact absurd hwritten (AList.notMem_empty written)
  · intro hprev wallet hwallet mint hmint
    by_contra hmine
    have hadded := @foldl_trackMint_adds M calls.wallet block pindex.nHeight
      ⟨⟨wallet.mintRecords, ∅⟩, []⟩ (blockToZerocoinMints env block) (by simp [TrackState.Added])
      (fun mint hmem => exists_tx_of_blockToZerocoinMints hmem)
      (Or.inl ⟨mint, hmint, by simpa using hmine⟩)
    obtain ⟨hash, hmem⟩ := hadded
    have hkept := congrArg (fun s : StoredState M => s.pwalletMain) hsame
    simp only [storeTracked, hprev, if_true, StoredState.withRecords, Option.map_map] at hkept
    rw [Option.mem_def.mp hwallet, Option.map_some, Option.map_some] at hkept
    have hnone := congrArg CWallet.mapWallet (Option.some.inj hkept)
    have hmem' : hash ∈ (∅ : Table Uint256 CWalletTx) :=
      hnone.subst (motive := fun table => hash ∈ table) hmem
    exact absurd hmem' (AList.notMem_empty hash)

/-- Where nothing is stored, the records that are there stay. -/
theorem StoresNothing.leaves
    (h : StoresNothing calls env node s block coins hashBestBlock pindex fAlreadyChecked) :
    (connectUpToMark calls env node (s.withRecords blockTree mapWallet) block coins hashBestBlock
      pindex fJustCheck fAlreadyChecked).Leaves fJustCheck (s.withRecords blockTree mapWallet) := by
  cases hloop : connectTransactions env (node.reading calls (s.withRecords blockTree mapWallet))
      block coins hashBestBlock pindex fJustCheck fAlreadyChecked with
  | error reject =>
    have hend : connectUpToMark calls env node (s.withRecords blockTree mapWallet) block coins
        hashBestBlock pindex fJustCheck fAlreadyChecked =
          .refused reject (s.withRecords blockTree mapWallet) := by
      unfold connectUpToMark
      dsimp only
      rw [hloop]
    rw [hend]
    rfl
  | ok st =>
    have hdry : connectTransactions env (node.reading calls s) block coins hashBestBlock pindex
        true fAlreadyChecked = .ok st := by
      rw [reading_withRecords] at hloop
      cases fJustCheck with
      | true => exact hloop
      | false => exact connectTransactions_dry hloop
    rcases h with ⟨reject, hrefused⟩ | habort | ⟨hheight, hmints⟩
    · rw [hrefused] at hdry
      contradiction
    · have hend : connectUpToMark calls env node (s.withRecords blockTree mapWallet) block coins
          hashBestBlock pindex fJustCheck fAlreadyChecked = .aborted := by
        have hnone := (@recalculateOnce_withRecords M calls env node s pindex blockTree
          mapWallet).mpr habort
        unfold connectUpToMark
        dsimp only
        rw [hloop]
        dsimp only
        rw [reading_withRecords, hnone]
      rw [hend]
      trivial
    · have hstore : recalculateOnce env (node.reading calls (s.withRecords blockTree
          mapWallet)).toNode calls.nLocked pindex.nHeight (s.withRecords blockTree mapWallet).store =
            some (s.withRecords blockTree mapWallet).store := recalculateOnce_of_ne hheight
      have hown : NoOwnMints calls env (s.withRecords blockTree mapWallet) block pindex := by
        intro hprev wallet hwallet mint hmint
        obtain ⟨own, hown, rfl⟩ := Option.map_eq_some_iff.mp (Option.mem_def.mp hwallet)
        exact hmints hprev own hown mint hmint
      have htracked := storeTracked_of_noOwnMints hown
      rcases connectUpToMark_tracked hloop hstore with ⟨reject, hend⟩ | ⟨outcome, hend⟩
      · rw [hend]
        exact htracked
      · rw [hend]
        exact fun _ => htracked

end

/-! A template above the genesis block of the test network, in a wallet whose own mint it has. -/

def launchCalls : ConnectCalls Unit where
  getHash := fun serial => serial.toNat
  wallet := ⟨fun _ _ => true, fun wallet _ _ _ _ => wallet, fun _ _ _ _ _ _ h => h,
    fun _ _ => [], 1600000000⟩
  acc := ⟨fun _ => 961, fun _ value bnValue => value * bnValue, fun value => .ofNat value.toNat, [],
    fun _ => false⟩
  nLocked := 0

def launchStored : StoredState Unit :=
  ⟨⟨∅, ∅⟩, ⟨∅, ∅⟩, ⟨launchView {} empty_pprev empty_nHeight, ∅⟩, some ⟨(), ∅⟩⟩

def mintTemplate : CBlock := launchBlock [launchCoinBase 0, launchMint]

theorem trackMints_mintTemplate :
    (trackMints launchCalls.wallet launchEnv mintTemplate 1 ⟨(), ∅⟩).mapWallet.keys = [21] := by
  decide

end Lytix
