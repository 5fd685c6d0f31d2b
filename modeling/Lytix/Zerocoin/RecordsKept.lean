import Lytix.Validation.Conservation
import Lytix.Zerocoin.RecordRuns

/-! When the zerocoin database goes on mirroring the active chain: what `ConnectBlock` looks up
before it writes, and the `VerifyDB` that puts back what it erases. -/
namespace Lytix
open Checks CountEntries RecordTables Runs

/-! `ConnectBlock` looks for every serial, and on most networks for every coin. -/

/-- No serial is recorded as spent in the chain, and no coin as minted where that is checked. -/
structure NotRecorded (node : ConsensusNode) (nHeight : Int) (spends mints : List (Int × Uint256)) :
    Prop where
  spends : ∀ r ∈ spends, node.serialHeight r.1 = none
  mints : node.params.nBlockZerocoinV2 ≤ nHeight → node.network ≠ .testnet →
    ∀ r ∈ mints, (node.readCoinMint r.1).bind node.transactionHeight = none

section
variable {env : ConsensusEnv} {node : ConsensusNode} {block : CBlock} {tx : CTransaction}
  {nHeight : Int} {fScriptChecks : Bool} {st st' : ConnectState}

theorem serialHeight_of_connectSpendInputs {vin : List CTxIn}
    (h : vin.foldlM (connectSpendInput env node tx nHeight) st = .ok st') :
    ∀ bnSerial ∈ serialsOf env vin, node.serialHeight bnSerial = none := by
  intro bnSerial hmem
  simp only [serialsOf, List.mem_filterMap, List.mem_filter, Option.map_eq_some_iff] at hmem
  obtain ⟨txin, ⟨hin, hspend⟩, spend, hread, rfl⟩ := hmem
  obtain ⟨s₁, s₂, hstep⟩ := foldlM_mem h hin
  unfold connectSpendInput at hstep
  simp only [hspend, Bool.true_eq_false, if_false, bind_eq_ok, stopIf_eq_ok, parseSpend,
    orStop_eq_ok, hread] at hstep
  obtain ⟨_, hsame, -, hcheck, -⟩ := hstep
  obtain rfl := Option.some.inj hsame
  rw [Bool.not_eq_false, contextualCheckZerocoinSpend, Bool.and_eq_true] at hcheck
  exact Option.isNone_iff_eq_none.mp hcheck.2

theorem readCoinMint_of_connectMintOutputs {vout : List CTxOut}
    (h : vout.foldlM (connectMintOutput env node tx nHeight) st = .ok st')
    (hheight : node.params.nBlockZerocoinV2 ≤ nHeight) (hnetwork : node.network ≠ .testnet) :
    ∀ coin ∈ pubcoinsOf env vout,
      (node.readCoinMint coin.value).bind node.transactionHeight = none := by
  intro coin hmem
  simp only [pubcoinsOf, List.mem_filterMap, List.mem_filter] at hmem
  obtain ⟨out, ⟨hout, hmint⟩, hcoin⟩ := hmem
  obtain ⟨s₁, s₂, hstep⟩ := foldlM_mem h hout
  unfold connectMintOutput at hstep
  simp only [hmint, Bool.true_eq_false, if_false, bind_eq_ok, stopIf_eq_ok] at hstep
  obtain ⟨_, hread, -, hcheck, -⟩ := hstep
  rw [hread] at hcoin
  obtain rfl := Option.some.inj hcoin
  rw [Bool.not_eq_false, contextualCheckZerocoinMint, if_pos ⟨hheight, hnetwork⟩] at hcheck
  exact Option.isNone_iff_eq_none.mp hcheck

theorem notRecorded_of_connectTx
    (h : connectTx env node block nHeight fScriptChecks st tx = .ok st') :
    NotRecorded node nHeight (coinSpends env tx) (coinMints env tx) := by
  simp only [connectTx, bind_eq_ok] at h
  obtain ⟨mid, hchecks, -⟩ := h
  simp only [connectTxChecks, bind_eq_ok, stopIf_eq_ok] at hchecks
  obtain ⟨-, -, -, -, hchecks⟩ := hchecks
  have hminted : ∀ {s s' : ConnectState},
      tx.vout.foldlM (connectMintOutput env node tx nHeight) s = .ok s' →
      node.params.nBlockZerocoinV2 ≤ nHeight → node.network ≠ .testnet →
      ∀ r ∈ coinMints env tx, (node.readCoinMint r.1).bind node.transactionHeight = none := by
    intro s s' hloop hheight hnetwork r hmem
    obtain ⟨coin, hcoin, rfl⟩ := List.mem_map.mp hmem
    exact readCoinMint_of_connectMintOutputs hloop hheight hnetwork coin hcoin
  split_ifs at hchecks with hspend hbase
  · simp only [connectZerocoinSpend, bind_eq_ok] at hchecks
    obtain ⟨-, -, inner, hspends, hmints⟩ := hchecks
    constructor
    case spends =>
      intro r hmem
      rw [coinSpends, if_pos hspend, List.mem_map] at hmem
      obtain ⟨bnSerial, hserial, rfl⟩ := hmem
      exact serialHeight_of_connectSpendInputs hspends bnSerial hserial
    case mints => exact hminted hmints
  · have hnone : tx.containsZerocoins = false := by
      by_contra hcontains
      rw [not_isCoinBase_of_containsZerocoins (by simpa using hcontains)] at hbase
      contradiction
    obtain ⟨hspends, hmints⟩ := @records_of_not_containsZerocoins env tx hnone
    rw [hspends, hmints]
    exact ⟨by simp, by simp⟩
  · simp only [connectSpendingTx, bind_eq_ok] at hchecks
    obtain ⟨-, -, inner, hmints, -⟩ := hchecks
    rw [coinSpends, if_neg hspend]
    exact ⟨by simp, hminted hmints⟩

/-- What a connected block records was not recorded in the chain before. -/
theorem notRecorded_of_connectBlock {coins : CoinsMap} {hashBestBlock : Uint256}
    {pindex : CBlockIndex} {fJustCheck fAlreadyChecked : Bool} {outcome : ConnectOutcome}
    (h : connectBlock env node block coins hashBestBlock pindex fJustCheck fAlreadyChecked =
      .ok outcome) :
    NotRecorded node pindex.nHeight (blockSpends env block) (blockMints env block) := by
  simp only [connectBlock, bind_eq_ok] at h
  obtain ⟨_, -, st, hloop, -⟩ := h
  constructor
  case spends =>
    intro r hmem
    obtain ⟨tx, htx, hr⟩ := List.mem_flatMap.mp hmem
    obtain ⟨s₁, s₂, hstep⟩ := foldlM_mem hloop htx
    exact (notRecorded_of_connectTx hstep).spends r hr
  case mints =>
    intro hheight hnetwork r hmem
    obtain ⟨tx, htx, hr⟩ := List.mem_flatMap.mp hmem
    obtain ⟨s₁, s₂, hstep⟩ := foldlM_mem hloop htx
    exact (notRecorded_of_connectTx hstep).mints hheight hnetwork r hr

end

/-! `VerifyDB`, level by level. -/

section
variable (env : ConsensusEnv) (chain : List CBlock) (run : VerifyRun)

/-- `VerifyDB` comes to disconnect the block: from the tip down to it, the caches have room. -/
structure VerifyRun.Disconnects (nHeight : ℕ) : Prop where
  level : 3 ≤ run.level
  verified : nHeight ∈ verifiedHeights run (chain.length - 1)
  fits : ∀ k, nHeight ≤ k → k < chain.length → run.cacheFits k = true

/-- No block that is disconnected has zerocoins. -/
def VerifyRun.SparesRecords : Prop :=
  ∀ nHeight, run.Disconnects chain nHeight → ∀ block ∈ chain[nHeight]?,
    blockSpends env block = [] ∧ blockMints env block = []

/-- Every block that was disconnected is connected again. -/
structure VerifyRun.Reconnects : Prop where
  level : 4 ≤ run.level
  readBlock : ∀ nHeight < chain.length, run.readBlock nHeight = true
  checkBlock : ∀ nHeight < chain.length, run.checkBlock nHeight = true
  readUndo : ∀ nHeight < chain.length, run.readUndo nHeight = true
  disconnect : ∀ nHeight < chain.length, run.disconnect nHeight = .done true
  goesOn : ∀ nHeight < chain.length, run.shutdownRequested nHeight = false
  readAgain : ∀ nHeight < chain.length, run.readAgain nHeight = true
  connect : ∀ nHeight < chain.length, run.connect nHeight = true

/-- The records are as before when `VerifyDB` is done. -/
def VerifyRun.KeepsRecords : Prop := run.SparesRecords env chain ∨ run.Reconnects chain

end

section
variable {env : ConsensusEnv} {getHash : Int → Uint256} {chain : List CBlock} {run : VerifyRun}
  {block : CBlock} {db db' db'' : CZerocoinDB} {spends mints spends' mints' : List (Int × Uint256)}

theorem mem_verifiedHeights {nHeight tip : ℕ} : nHeight ∈ verifiedHeights run tip ↔
    max 1 (tip - (run.depth tip).toNat) ≤ nHeight ∧ nHeight ≤ tip := by
  simp only [verifiedHeights, List.mem_reverse, List.mem_range'_1]
  omega

theorem erasesRecords_nil : ErasesRecords getHash [] [] db db := ⟨erases_nil, erases_nil⟩

theorem ErasesRecords.append (h : ErasesRecords getHash spends mints db db')
    (h' : ErasesRecords getHash spends' mints' db' db'') :
    ErasesRecords getHash (spends ++ spends') (mints ++ mints') db db'' :=
  ⟨h.spends.append h'.spends, h.mints.append h'.mints⟩

/-- A disconnection that gives up erases nothing in a block without zerocoins. -/
theorem disconnectSome_of_none (hspends : blockSpends env block = [])
    (hmints : blockMints env block = []) (undone : ℕ) :
    ErasesRecords getHash [] [] db (disconnectSome env getHash block undone db) := by
  have hloop : ∀ (vtx : List CTransaction) {db : CZerocoinDB}, (∀ tx ∈ vtx, tx ∈ block.vtx) →
      ErasesRecords getHash [] [] db
        (vtx.foldl (fun db tx => (disconnectTxRecords env getHash db tx).toOption.getD db) db) := by
    intro vtx
    induction vtx with
    | nil => exact fun _ => erasesRecords_nil
    | cons tx vtx ih =>
      intro db hmem
      obtain ⟨htx, hmem⟩ := List.forall_mem_cons.mp hmem
      rw [List.foldl_cons]
      have hstep : ErasesRecords getHash [] [] db
          ((disconnectTxRecords env getHash db tx).toOption.getD db) := by
        cases hdisconnect : disconnectTxRecords env getHash db tx with
        | error e => exact erasesRecords_nil
        | ok db' =>
          have herases := disconnectTxRecords_spec hdisconnect
          rw [List.flatMap_eq_nil_iff.mp hspends tx htx,
            List.flatMap_eq_nil_iff.mp hmints tx htx] at herases
          exact herases
      exact hstep.append (ih hmem)
  exact hloop _ fun tx hmem => List.mem_reverse.mp (List.mem_of_mem_take hmem)

/-- What is known in the first loop of a `VerifyDB` that spares the records. -/
structure Spared (getHash : Int → Uint256) (chain : List CBlock) (run : VerifyRun)
    (db : CZerocoinDB) (st : VerifyState) : Prop where
  same : ErasesRecords getHash [] [] db st.zerocoinDB
  fits : ∀ k, st.pindexState < k → k < chain.length → run.cacheFits k = true
  verified : ∀ k, st.pindexState < k → k < chain.length →
    k ∈ verifiedHeights run (chain.length - 1)

theorem meets_verifyDisconnect_spared (hrun : run.SparesRecords env chain) {st : VerifyState}
    {nHeight : ℕ} (hheight : nHeight ∈ verifiedHeights run (chain.length - 1))
    (hst : Spared getHash chain run db st) :
    Meets (fun e => ErasesRecords getHash [] [] db e.1) (Spared getHash chain run db)
      (verifyDisconnect env getHash chain run st nHeight) := by
  unfold verifyDisconnect
  refine Meets.ite (fun hnext => ?_) fun _ => Meets.ok hst
  obtain ⟨hlevel, hnow, hroom⟩ := hnext
  have hfits : ∀ k, nHeight ≤ k → k < chain.length → run.cacheFits k = true := by
    intro k hle hlt
    rcases Nat.eq_or_lt_of_le hle with rfl | habove
    · exact hroom
    · exact hst.fits k (by omega) hlt
  cases hblock : chain[nHeight]? with
  | none => exact hst.same
  | some block =>
    obtain ⟨hspends, hmints⟩ := hrun nHeight ⟨hlevel, hheight, hfits⟩ block hblock
    cases hend : run.disconnect nHeight with
    | failed undone =>
      have hnothing := @disconnectSome_of_none env getHash block st.zerocoinDB hspends hmints undone
      exact hst.same.append hnothing
    | done fClean =>
      dsimp only
      cases hdisconnect : disconnectRecords env getHash block st.zerocoinDB with
      | error e =>
        have hnothing := @disconnectSome_of_none env getHash block st.zerocoinDB hspends hmints
          block.vtx.length
        exact hst.same.append hnothing
      | ok db' =>
        have herases := disconnectRecords_spec hdisconnect
        rw [hspends, hmints] at herases
        have hlow := mem_verifiedHeights.mp hheight
        constructor
        case same => exact hst.same.append herases
        case fits => exact fun k hlt => hfits k (by dsimp only at hlt; omega)
        case verified =>
          intro k hlt hlength
          dsimp only at hlt
          rw [mem_verifiedHeights]
          omega

theorem meets_verifyBlock_spared (hrun : run.SparesRecords env chain) {st : VerifyState}
    {nHeight : ℕ} (hheight : nHeight ∈ verifiedHeights run (chain.length - 1))
    (hst : Spared getHash chain run db st) :
    Meets (fun e => ErasesRecords getHash [] [] db e.1) (Spared getHash chain run db)
      (verifyBlock env getHash chain run st nHeight) := by
  unfold verifyBlock
  have hstop : ∀ {st : VerifyState} {c : Prop} [Decidable c] {fValid : Bool},
      Spared getHash chain run db st →
      Meets (fun e => ErasesRecords getHash [] [] db e.1) (fun _ => True)
        (stopIf c (st.zerocoinDB, fValid)) :=
    fun hst => Meets.stopIf (fun _ => hst.same) fun _ => trivial
  refine (hstop hst).bind fun _ _ => (hstop hst).bind fun _ _ => (hstop hst).bind fun _ _ => ?_
  refine (meets_verifyDisconnect_spared hrun hheight hst).bind fun st' hst' => ?_
  exact (hstop hst').bind fun _ _ => hst'

theorem meets_reconnectBlock_spared {k : ℕ}
    (hnone : ∀ block ∈ chain[k]?, blockSpends env block = [] ∧ blockMints env block = [])
    (hdb : ErasesRecords getHash [] [] db db') :
    Meets (fun e => ErasesRecords getHash [] [] db e.1) (ErasesRecords getHash [] [] db)
      (reconnectBlock env getHash chain run db' k) := by
  unfold reconnectBlock
  refine Meets.bind (m := fun _ => True) (Meets.stopIf (fun _ => hdb) fun _ => trivial) fun _ _ => ?_
  cases hblock : chain[k]? with
  | none => exact hdb
  | some block =>
    obtain ⟨hspends, hmints⟩ := hnone block hblock
    dsimp only
    rw [hspends, hmints]
    exact hdb

/-- Blocks without zerocoins come and go without a trace. -/
theorem verifyDB_spared (hrun : run.SparesRecords env chain) :
    ErasesRecords getHash [] [] db (verifyDB env getHash chain run db) := by
  unfold verifyDB
  by_cases hshort : chain.length < 2
  · rw [if_pos hshort]
    exact erasesRecords_nil
  rw [if_neg hshort]
  have hloops : Meets (fun e => ErasesRecords getHash [] [] db e.1) (ErasesRecords getHash [] [] db)
      (verifyLoops env getHash chain run (chain.length - 1) db) := by
    unfold verifyLoops
    have hdown : Meets (fun e => ErasesRecords getHash [] [] db e.1) (Spared getHash chain run db)
        ((verifiedHeights run (chain.length - 1)).foldlM (verifyBlock env getHash chain run)
          ⟨db, chain.length - 1, false⟩) := by
      refine Meets.foldlM_mem ⟨erasesRecords_nil, fun k hlt => ?_, fun k hlt => ?_⟩
        fun st nHeight hheight hst => meets_verifyBlock_spared hrun hheight hst
      · dsimp only at hlt
        omega
      · dsimp only at hlt
        omega
    refine hdown.bind fun st hst => ?_
    refine Meets.bind (m := fun _ => True) (Meets.stopIf (fun _ => hst.same) fun _ => trivial)
      fun _ _ => ?_
    refine Meets.ite (fun hlevel => ?_) fun _ => hst.same
    refine Meets.foldlM_mem hst.same fun db' k hk hdb' => ?_
    rw [List.mem_range'_1] at hk
    refine meets_reconnectBlock_spared (hrun k ⟨by omega, hst.verified k ?_ ?_, ?_⟩) hdb'
    · omega
    · omega
    · exact fun k' hle => hst.fits k' (by omega)
  cases hend : verifyLoops env getHash chain run (chain.length - 1) db with
  | ok db' =>
    rw [hend] at hloops
    exact hloops
  | error e =>
    rw [hend] at hloops
    exact hloops

/-- What is known of the records of the chain below each height moves along with the blocks. -/
structure TracksRecords (env : ConsensusEnv) (getHash : Int → Uint256) (chain : List CBlock)
    (known : ℕ → CZerocoinDB → Prop) : Prop where
  down : ∀ k block db db', chain[k]? = some block →
    ErasesRecords getHash (blockSpends env block) (blockMints env block) db db' →
    known (k + 1) db → known k db'
  up : ∀ k block db, chain[k]? = some block → known k db →
    known (k + 1) ⟨writeAll db.spends (keyed getHash (blockSpends env block)),
      writeAll db.mints (keyed getHash (blockMints env block))⟩
  same : ∀ k db db', ErasesRecords getHash [] [] db db' → known k db → known k db'

section
variable {known : ℕ → CZerocoinDB → Prop}

/-- What is known in the first loop of a `VerifyDB` that reconnects all. -/
structure Undone (chain : List CBlock) (known : ℕ → CZerocoinDB → Prop) (st : VerifyState) :
    Prop where
  known : known (st.pindexState + 1) st.zerocoinDB
  inChain : st.pindexState < chain.length
  noFailure : st.fFailure = false

theorem meets_verifyBlock_undone (htracks : TracksRecords env getHash chain known)
    (hdecodes : ∀ block ∈ chain, ∀ tx ∈ block.vtx, Decodes env tx) (hrun : run.Reconnects chain)
    {st : VerifyState} {nHeight : ℕ} (hpos : 1 ≤ nHeight) (hheight : nHeight < chain.length)
    (hst : Undone chain known st) :
    Meets (fun _ => False) (Undone chain known) (verifyBlock env getHash chain run st nHeight) := by
  have hdisconnect : Meets (fun _ => False) (Undone chain known)
      (verifyDisconnect env getHash chain run st nHeight) := by
    unfold verifyDisconnect
    refine Meets.ite (fun hnext => ?_) fun _ => Meets.ok hst
    obtain ⟨-, rfl, -⟩ := hnext
    obtain ⟨block, hblock⟩ : ∃ block, chain[st.pindexState]? = some block :=
      ⟨_, List.getElem?_eq_getElem hst.inChain⟩
    rw [hblock, hrun.disconnect _ hst.inChain]
    dsimp only
    obtain ⟨db', hdb'⟩ := @exists_disconnectRecords env getHash block st.zerocoinDB
      (hdecodes block (List.mem_of_getElem? hblock))
    rw [hdb']
    have hlower := htracks.down _ block _ db' hblock (disconnectRecords_spec hdb') hst.known
    have hnext : st.pindexState - 1 + 1 = st.pindexState := by omega
    constructor
    case known =>
      dsimp only
      rw [hnext]
      exact hlower
    case inChain => exact lt_of_le_of_lt (Nat.sub_le _ 1) hst.inChain
    case noFailure => simp [hst.noFailure]
  unfold verifyBlock
  have hpass : ∀ {c : Prop} [Decidable c] {e : CZerocoinDB × Bool}, ¬ c →
      Meets (fun _ => False) (fun _ => True) (stopIf c e) :=
    fun hc => Meets.stopIf hc fun _ => trivial
  refine (hpass (by simp [hrun.readBlock _ hheight])).bind fun _ _ => ?_
  refine (hpass (by simp [hrun.checkBlock _ hheight])).bind fun _ _ => ?_
  refine (hpass (by simp [hrun.readUndo _ hheight])).bind fun _ _ => ?_
  refine hdisconnect.bind fun st' hst' => ?_
  exact (hpass (by simp [hrun.goesOn _ hheight])).bind fun _ _ => hst'

theorem meets_reconnectBlock_undone (htracks : TracksRecords env getHash chain known)
    (hrun : run.Reconnects chain) {k : ℕ} (hk : k < chain.length) (hdb : known k db) :
    Meets (fun _ => False) (known (k + 1)) (reconnectBlock env getHash chain run db k) := by
  unfold reconnectBlock
  have hpass : ¬ (run.readAgain k = false ∨ run.connect k = false) := by
    simp [hrun.readAgain k hk, hrun.connect k hk]
  refine Meets.bind (m := fun _ => True) (Meets.stopIf hpass fun _ => trivial) fun _ _ => ?_
  obtain ⟨block, hblock⟩ : ∃ block, chain[k]? = some block := ⟨_, List.getElem?_eq_getElem hk⟩
  rw [hblock]
  exact htracks.up k block db hblock hdb

/-- All that was taken away is put back. -/
theorem verifyDB_reconnects (htracks : TracksRecords env getHash chain known)
    (hdecodes : ∀ block ∈ chain, ∀ tx ∈ block.vtx, Decodes env tx) (hrun : run.Reconnects chain)
    (hdb : known chain.length db) : known chain.length (verifyDB env getHash chain run db) := by
  unfold verifyDB
  by_cases hshort : chain.length < 2
  · rw [if_pos hshort]
    exact hdb
  rw [if_neg hshort]
  have hloops : Meets (fun _ => False) (known chain.length)
      (verifyLoops env getHash chain run (chain.length - 1) db) := by
    unfold verifyLoops
    have hdown : Meets (fun _ => False) (Undone chain known)
        ((verifiedHeights run (chain.length - 1)).foldlM (verifyBlock env getHash chain run)
          ⟨db, chain.length - 1, false⟩) := by
      have hstart : Undone chain known ⟨db, chain.length - 1, false⟩ := by
        constructor
        case known =>
          dsimp only
          rw [Nat.sub_add_cancel (by omega)]
          exact hdb
        case inChain =>
          dsimp only
          omega
        case noFailure => rfl
      refine Meets.foldlM_mem hstart fun st nHeight hmem hst => ?_
      obtain ⟨hlow, hhigh⟩ := mem_verifiedHeights.mp hmem
      exact meets_verifyBlock_undone htracks hdecodes hrun (by omega) (by omega) hst
    refine hdown.bind fun st hst => ?_
    refine Meets.bind (m := fun _ => True)
      (Meets.stopIf (by simp [hst.noFailure]) fun _ => trivial) fun _ _ => ?_
    rw [if_pos hrun.level]
    have hinChain := hst.inChain
    have hend : st.pindexState + 1 + (chain.length - 1 - st.pindexState) = chain.length := by omega
    have hup : Meets (fun _ => False)
        (known (st.pindexState + 1 + (chain.length - 1 - st.pindexState)))
        ((List.range' (st.pindexState + 1) (chain.length - 1 - st.pindexState)).foldlM
          (reconnectBlock env getHash chain run) st.zerocoinDB) := by
      refine Meets.foldlM_range' hst.known fun db k hle hlt hdb => ?_
      exact meets_reconnectBlock_undone htracks hrun (by omega) hdb
    rwa [hend] at hup
  cases hend : verifyLoops env getHash chain run (chain.length - 1) db with
  | ok db' =>
    rw [hend] at hloops
    exact hloops
  | error e =>
    rw [hend] at hloops
    exact False.elim hloops

/-- What is known of the records is known after a `VerifyDB` that keeps them. -/
theorem verifyDB_keeps (htracks : TracksRecords env getHash chain known)
    (hdecodes : ∀ block ∈ chain, ∀ tx ∈ block.vtx, Decodes env tx)
    (hrun : run.KeepsRecords env chain) (hdb : known chain.length db) :
    known chain.length (verifyDB env getHash chain run db) := by
  rcases hrun with hspares | hreconnects
  · exact htracks.same _ _ _ (verifyDB_spared hspares) hdb
  · exact verifyDB_reconnects htracks hdecodes hreconnects hdb

end
end
end Lytix
