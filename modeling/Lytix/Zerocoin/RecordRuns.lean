import Lytix.Lib.Runs
import Lytix.Zerocoin.CoinRecords

/-! The zerocoin database along the active chain: what `ConnectTip` writes, what `DisconnectTip`
erases, and what `VerifyDB` does, which runs `DisconnectBlock` and `ConnectBlock` on coins that it
throws away. -/
namespace Lytix
open Checks CountEntries RecordTables Runs

section
variable (env : ConsensusEnv) (getHash : Int → Uint256)

/-! `ConnectBlock` records the serials and then the mints. -/

def CZerocoinDB.record (db : CZerocoinDB) (outcome : ConnectOutcome) : CZerocoinDB :=
  outcome.vMints.foldl (fun db pMint => db.writeCoinMint getHash pMint.1 pMint.2)
    (outcome.vSpends.foldl
      (fun db pSpend => db.writeCoinSpend getHash pSpend.1.coinSerialNumber pSpend.2) db)

/-! `DisconnectBlock` erases those of each transaction, the last transaction first. -/

def eraseSpend (db : CZerocoinDB) (txin : CTxIn) : Validation CZerocoinDB :=
  if txin.scriptSig.isZerocoinSpend = false then .ok db
  else do
    let spend ← parseSpend env txin
    pure (db.eraseCoinSpend getHash spend.coinSerialNumber)

def eraseMint (db : CZerocoinDB) (txout : CTxOut) : Validation CZerocoinDB :=
  if txout.isZerocoinMint = false then .ok db
  else do
    let pubCoin ← txOutToPublicCoin env txout
    pure (db.eraseCoinMint getHash pubCoin.value)

def eraseSpends (tx : CTransaction) (db : CZerocoinDB) : Validation CZerocoinDB :=
  if tx.isZerocoinSpend then tx.vin.foldlM (eraseSpend env getHash) db else pure db

def eraseMints (tx : CTransaction) (db : CZerocoinDB) : Validation CZerocoinDB :=
  if tx.isZerocoinMint then tx.vout.foldlM (eraseMint env getHash) db else pure db

def disconnectTxRecords (db : CZerocoinDB) (tx : CTransaction) : Validation CZerocoinDB :=
  if tx.containsZerocoins then do
    let db ← eraseSpends env getHash tx db
    eraseMints env getHash tx db
  else pure db

def disconnectRecords (block : CBlock) (db : CZerocoinDB) : Validation CZerocoinDB :=
  block.vtx.reverse.foldlM (disconnectTxRecords env getHash) db

/-- The records after a `DisconnectBlock` that gave up, with this many transactions undone. -/
def disconnectSome (block : CBlock) (undone : ℕ) (db : CZerocoinDB) : CZerocoinDB :=
  (block.vtx.reverse.take undone).foldl
    (fun db tx => (disconnectTxRecords env getHash db tx).toOption.getD db) db

/-! `VerifyDB`. -/

/-- How `DisconnectBlock` ends on the throw-away coins. -/
inductive DisconnectEnd where
  | done (fClean : Bool)
  | failed (undone : ℕ)
deriving DecidableEq

/-- What `VerifyDB` is asked, and what it meets at each height. -/
structure VerifyRun where
  nCheckLevel : Int
  nCheckDepth : Int
  readBlock : ℕ → Bool
  checkBlock : ℕ → Bool
  readUndo : ℕ → Bool
  cacheFits : ℕ → Bool
  disconnect : ℕ → DisconnectEnd
  shutdownRequested : ℕ → Bool
  readAgain : ℕ → Bool
  connect : ℕ → Bool

/-- What the loop carries along. -/
structure VerifyState where
  zerocoinDB : CZerocoinDB
  pindexState : ℕ
  fFailure : Bool := false

/-- The database and the answer of a `VerifyDB` that returns early. -/
abbrev Verifying := Except (CZerocoinDB × Bool)

section
variable (chain : List CBlock) (run : VerifyRun)

def VerifyRun.level : Int := max 0 (min 4 run.nCheckLevel)

/-- `nCheckDepth` within the chain, of which the tip stands at `nHeight`. -/
def VerifyRun.depth (nHeight : ℕ) : Int :=
  min (if run.nCheckDepth ≤ 0 then 1000000000 else run.nCheckDepth) nHeight

/-- The disconnection of one block, if it is the next and the caches have room. -/
def verifyDisconnect (st : VerifyState) (nHeight : ℕ) : Verifying VerifyState :=
  if 3 ≤ run.level ∧ nHeight = st.pindexState ∧ run.cacheFits nHeight = true then
    match chain[nHeight]?, run.disconnect nHeight with
    | some block, .done fClean =>
      match disconnectRecords env getHash block st.zerocoinDB with
      | .ok db => .ok ⟨db, nHeight - 1, st.fFailure || !fClean⟩
      | .error _ => .error (disconnectSome env getHash block block.vtx.length st.zerocoinDB, false)
    | some block, .failed undone =>
      .error (disconnectSome env getHash block undone st.zerocoinDB, false)
    | none, _ => .error (st.zerocoinDB, false)
  else .ok st

/-- One block on the way down. -/
def verifyBlock (st : VerifyState) (nHeight : ℕ) : Verifying VerifyState := do
  stopIf (run.readBlock nHeight = false) (st.zerocoinDB, false)
  stopIf (1 ≤ run.level ∧ run.checkBlock nHeight = false) (st.zerocoinDB, false)
  stopIf (2 ≤ run.level ∧ run.readUndo nHeight = false) (st.zerocoinDB, false)
  let st ← verifyDisconnect env getHash chain run st nHeight
  stopIf (run.shutdownRequested nHeight = true) (st.zerocoinDB, true)
  pure st

/-- One block on the way up. `ConnectBlock` records what the block has, if it accepts it. -/
def reconnectBlock (db : CZerocoinDB) (nHeight : ℕ) : Verifying CZerocoinDB := do
  stopIf (run.readAgain nHeight = false ∨ run.connect nHeight = false) (db, false)
  match chain[nHeight]? with
  | some block =>
    .ok ⟨writeAll db.spends (keyed getHash (blockSpends env block)),
      writeAll db.mints (keyed getHash (blockMints env block))⟩
  | none => .error (db, false)

/-- The heights from the tip down to the depth, without the genesis block. -/
def verifiedHeights (nHeight : ℕ) : List ℕ :=
  let lowest := max 1 (nHeight - (run.depth nHeight).toNat)
  (List.range' lowest (nHeight + 1 - lowest)).reverse

def verifyLoops (nHeight : ℕ) (db : CZerocoinDB) : Verifying CZerocoinDB := do
  let st ← (verifiedHeights run nHeight).foldlM (verifyBlock env getHash chain run) ⟨db, nHeight, false⟩
  stopIf (st.fFailure = true) (st.zerocoinDB, false)
  if 4 ≤ run.level then
    (List.range' (st.pindexState + 1) (nHeight - st.pindexState)).foldlM
      (reconnectBlock env getHash chain run) st.zerocoinDB
  else pure st.zerocoinDB

/-- The database that `VerifyDB` leaves, however it ends. -/
def verifyDB (db : CZerocoinDB) : CZerocoinDB :=
  if chain.length < 2 then db
  else
    match verifyLoops env getHash chain run (chain.length - 1) db with
    | .ok db => db
    | .error (db, _) => db

end

/-! The run. -/

structure RecordState where
  chainActive : List CBlock
  zerocoinDB : CZerocoinDB

inductive RecordEvent where
  /-- `ConnectTip`, in a node with these answers to everything but the database. -/
  | connectTip (node : ConsensusNode) (block : CBlock) (coins : CoinsMap) (hashBestBlock : Uint256)
      (pindex : CBlockIndex) (fAlreadyChecked : Bool)
  | disconnectTip
  | verify (run : VerifyRun)

/-- The node whose database this is. -/
def ConsensusNode.withRecords (node : ConsensusNode) (network : Network) (db : CZerocoinDB) :
    ConsensusNode :=
  { node with
    mempool_hash := node.hash_of_mempool
    network := network
    readCoinSpend := db.readCoinSpend getHash
    readCoinMint := db.readCoinMint getHash }

/-- A step of the run; `none` where `ConnectTip` or `DisconnectTip` does not succeed. -/
def recordStep (network : Network) (s : RecordState) : RecordEvent → Option RecordState
  | .connectTip node block coins hashBestBlock pindex fAlreadyChecked =>
    (connectBlock env (node.withRecords getHash network s.zerocoinDB) block coins hashBestBlock
        { pindex with nHeight := s.chainActive.length } false fAlreadyChecked).toOption.map
      fun outcome => ⟨s.chainActive ++ [block], s.zerocoinDB.record getHash outcome⟩
  | .disconnectTip =>
    match s.chainActive.getLast? with
    | none => none
    | some block =>
      (disconnectRecords env getHash block s.zerocoinDB).toOption.map fun db =>
        ⟨s.chainActive.dropLast, db⟩
  | .verify run => some { s with zerocoinDB := verifyDB env getHash s.chainActive run s.zerocoinDB }

def RecordState.start : RecordState := ⟨[], ⟨∅, ∅⟩⟩

end

/-! What connecting and disconnecting a block do to the tables. -/

section
variable {env : ConsensusEnv} {getHash : Int → Uint256} {tx : CTransaction} {block : CBlock}
  {db db' : CZerocoinDB}

theorem record_spends {vMints : List (PublicCoin × Uint256)} :
    (vMints.foldl (fun db pMint => db.writeCoinMint getHash pMint.1 pMint.2) db).spends =
      db.spends := by
  induction vMints generalizing db with
  | nil => rfl
  | cons pMint vMints ih =>
    rw [List.foldl_cons, ih]
    rfl

theorem record_mints {vMints : List (PublicCoin × Uint256)} :
    (vMints.foldl (fun db pMint => db.writeCoinMint getHash pMint.1 pMint.2) db).mints =
      writeAll db.mints (keyed getHash (vMints.map fun pMint => (pMint.1.value, pMint.2))) := by
  induction vMints generalizing db with
  | nil => rfl
  | cons pMint vMints ih =>
    rw [List.foldl_cons, ih]
    rfl

theorem record_serials {vSpends : List (CoinSpend × Uint256)} :
    (vSpends.foldl (fun db pSpend =>
        db.writeCoinSpend getHash pSpend.1.coinSerialNumber pSpend.2) db).mints = db.mints ∧
      (vSpends.foldl (fun db pSpend =>
        db.writeCoinSpend getHash pSpend.1.coinSerialNumber pSpend.2) db).spends =
        writeAll db.spends
          (keyed getHash (vSpends.map fun pSpend => (pSpend.1.coinSerialNumber, pSpend.2))) := by
  induction vSpends generalizing db with
  | nil => exact ⟨rfl, rfl⟩
  | cons pSpend vSpends ih =>
    obtain ⟨hmints, hspends⟩ :=
      @ih (db.writeCoinSpend getHash pSpend.1.coinSerialNumber pSpend.2)
    rw [List.foldl_cons, hmints, hspends]
    exact ⟨rfl, rfl⟩

/-- A connected block leaves its records. -/
theorem record_of_connectBlock {node : ConsensusNode} {coins : CoinsMap} {hashBestBlock : Uint256}
    {pindex : CBlockIndex} {fJustCheck fAlreadyChecked : Bool} {outcome : ConnectOutcome}
    (h : connectBlock env node block coins hashBestBlock pindex fJustCheck fAlreadyChecked =
      .ok outcome) :
    (db.record getHash outcome).spends = writeAll db.spends (keyed getHash (blockSpends env block)) ∧
      (db.record getHash outcome).mints =
        writeAll db.mints (keyed getHash (blockMints env block)) := by
  obtain ⟨hspends, hmints, -⟩ := connectBlock_records h
  obtain ⟨hkept, hserials⟩ := @record_serials getHash db outcome.vSpends
  unfold CZerocoinDB.record
  rw [record_spends, record_mints, hserials, hkept, hspends, hmints]
  exact ⟨rfl, rfl⟩

theorem foldlM_eraseSpend {vin : List CTxIn} {txid : Uint256}
    (h : vin.foldlM (eraseSpend env getHash) db = .ok db') :
    db'.mints = db.mints ∧ Erases getHash ((serialsOf env vin).map fun serial => (serial, txid))
      db.spends db'.spends := by
  induction vin generalizing db with
  | nil =>
    rw [List.foldlM_nil, pure_eq_ok] at h
    subst h
    exact ⟨rfl, erases_nil⟩
  | cons txin vin ih =>
    rw [List.foldlM_cons, bind_eq_ok] at h
    obtain ⟨mid, hstep, hrest⟩ := h
    obtain ⟨hmints, hspends⟩ := ih hrest
    unfold eraseSpend at hstep
    by_cases hspend : txin.scriptSig.isZerocoinSpend = true
    · rw [if_neg (by simp [hspend])] at hstep
      simp only [parseSpend, bind_eq_ok, orStop_eq_ok, pure_eq_ok] at hstep
      obtain ⟨spend, hread, rfl⟩ := hstep
      have hserials : serialsOf env (txin :: vin) = spend.coinSerialNumber :: serialsOf env vin := by
        simp [serialsOf, hspend, hread]
      rw [hserials, List.map_cons]
      exact ⟨hmints, erases_single.append hspends⟩
    · rw [Bool.not_eq_true] at hspend
      rw [if_pos hspend] at hstep
      obtain rfl := Except.ok.inj hstep
      have hserials : serialsOf env (txin :: vin) = serialsOf env vin := by
        simp [serialsOf, hspend]
      rw [hserials]
      exact ⟨hmints, hspends⟩

theorem foldlM_eraseMint {vout : List CTxOut} {txid : Uint256}
    (h : vout.foldlM (eraseMint env getHash) db = .ok db') :
    db'.spends = db.spends ∧ Erases getHash
      ((pubcoinsOf env vout).map fun coin => (coin.value, txid)) db.mints db'.mints := by
  induction vout generalizing db with
  | nil =>
    rw [List.foldlM_nil, pure_eq_ok] at h
    subst h
    exact ⟨rfl, erases_nil⟩
  | cons out vout ih =>
    rw [List.foldlM_cons, bind_eq_ok] at h
    obtain ⟨mid, hstep, hrest⟩ := h
    obtain ⟨hspends, hmints⟩ := ih hrest
    unfold eraseMint at hstep
    by_cases hmint : out.isZerocoinMint = true
    · rw [if_neg (by simp [hmint])] at hstep
      simp only [bind_eq_ok, pure_eq_ok] at hstep
      obtain ⟨coin, hcoin, rfl⟩ := hstep
      have hcoins : pubcoinsOf env (out :: vout) = coin :: pubcoinsOf env vout := by
        simp [pubcoinsOf, hmint, hcoin, Except.toOption]
      rw [hcoins, List.map_cons]
      exact ⟨hspends, erases_single.append hmints⟩
    · rw [Bool.not_eq_true] at hmint
      rw [if_pos hmint] at hstep
      obtain rfl := Except.ok.inj hstep
      have hcoins : pubcoinsOf env (out :: vout) = pubcoinsOf env vout := by
        simp [pubcoinsOf, hmint]
      rw [hcoins]
      exact ⟨hspends, hmints⟩

/-- What the records of lists lose in both tables. -/
structure ErasesRecords (getHash : Int → Uint256) (spends mints : List (Int × Uint256))
    (db db' : CZerocoinDB) : Prop where
  spends : Erases getHash spends db.spends db'.spends
  mints : Erases getHash mints db.mints db'.mints

theorem disconnectTxRecords_spec (h : disconnectTxRecords env getHash db tx = .ok db') :
    ErasesRecords getHash (coinSpends env tx) (coinMints env tx) db db' := by
  unfold disconnectTxRecords at h
  by_cases hcontains : tx.containsZerocoins = true
  · rw [if_pos hcontains, bind_eq_ok] at h
    obtain ⟨mid, hspent, hminted⟩ := h
    have hspends : mid.mints = db.mints ∧
        Erases getHash (coinSpends env tx) db.spends mid.spends := by
      unfold eraseSpends at hspent
      rw [coinSpends]
      split_ifs at hspent ⊢
      · exact foldlM_eraseSpend hspent
      · rw [pure_eq_ok] at hspent
        subst hspent
        exact ⟨rfl, erases_nil⟩
    have hmints : db'.spends = mid.spends ∧
        Erases getHash (coinMints env tx) mid.mints db'.mints := by
      unfold eraseMints at hminted
      split_ifs at hminted with hmint
      · exact foldlM_eraseMint hminted
      · rw [pure_eq_ok] at hminted
        subst hminted
        rw [coinMints, pubcoinsOf_of_not_mint (by simpa using hmint)]
        exact ⟨rfl, erases_nil⟩
    constructor
    · rw [hmints.1]
      exact hspends.2
    · rw [← hspends.1]
      exact hmints.2
  · rw [if_neg hcontains, pure_eq_ok] at h
    subst h
    obtain ⟨hspends, hmints⟩ := @records_of_not_containsZerocoins env tx (by simpa using hcontains)
    rw [hspends, hmints]
    exact ⟨erases_nil, erases_nil⟩

/-- A disconnected block takes its records away. -/
theorem disconnectRecords_spec (h : disconnectRecords env getHash block db = .ok db') :
    ErasesRecords getHash (blockSpends env block) (blockMints env block) db db' := by
  have hloop : ∀ (vtx : List CTransaction) {db : CZerocoinDB},
      vtx.foldlM (disconnectTxRecords env getHash) db = .ok db' →
      ErasesRecords getHash (vtx.flatMap (coinSpends env)) (vtx.flatMap (coinMints env)) db db' := by
    intro vtx
    induction vtx with
    | nil =>
      intro db h
      rw [List.foldlM_nil, pure_eq_ok] at h
      subst h
      exact ⟨erases_nil, erases_nil⟩
    | cons tx vtx ih =>
      intro db h
      rw [List.foldlM_cons, bind_eq_ok] at h
      obtain ⟨mid, hstep, hrest⟩ := h
      have hfirst := disconnectTxRecords_spec hstep
      have hothers := ih hrest
      rw [List.flatMap_cons, List.flatMap_cons]
      exact ⟨hfirst.spends.append hothers.spends, hfirst.mints.append hothers.mints⟩
  have hreversed := hloop block.vtx.reverse h
  constructor
  · refine hreversed.spends.congr fun r => ?_
    simp [blockSpends]
  · refine hreversed.mints.congr fun r => ?_
    simp [blockMints]

/-- The records of transactions that decode can be erased. -/
theorem exists_disconnectRecords (h : ∀ tx ∈ block.vtx, Decodes env tx) :
    ∃ db', disconnectRecords env getHash block db = .ok db' := by
  have hfold : ∀ {α : Type} {step : CZerocoinDB → α → Validation CZerocoinDB} {l : List α}
      {db : CZerocoinDB}, (∀ x ∈ l, ∀ db, ∃ db', step db x = .ok db') →
      ∃ db', l.foldlM step db = .ok db' := by
    intro α step l
    induction l with
    | nil => exact fun _ => ⟨_, rfl⟩
    | cons x l ih =>
      intro db hstep
      obtain ⟨hfirst, hstep⟩ := List.forall_mem_cons.mp hstep
      obtain ⟨mid, hmid⟩ := hfirst db
      obtain ⟨db', hrest⟩ := @ih mid hstep
      exact ⟨db', by rw [List.foldlM_cons, hmid]; exact hrest⟩
  refine hfold fun tx hmem db => ?_
  have hdecodes := h tx (List.mem_reverse.mp hmem)
  unfold disconnectTxRecords
  by_cases hcontains : tx.containsZerocoins = true
  · have hspends : ∃ mid, eraseSpends env getHash tx db = .ok mid := by
      unfold eraseSpends
      split_ifs with hspend
      · refine hfold fun txin hin db => ?_
        unfold eraseSpend
        by_cases hkind : txin.scriptSig.isZerocoinSpend = true
        · obtain ⟨spend, hread⟩ :=
            Option.isSome_iff_exists.mp (hdecodes.spends hspend txin hin hkind)
          rw [if_neg (by simp [hkind]), parseSpend, hread]
          exact ⟨_, rfl⟩
        · rw [Bool.not_eq_true] at hkind
          exact ⟨db, if_pos hkind⟩
      · exact ⟨db, rfl⟩
    obtain ⟨mid, hmid⟩ := hspends
    have hmints : ∃ db', eraseMints env getHash tx mid = .ok db' := by
      unfold eraseMints
      split_ifs
      · refine hfold fun out hout db => ?_
        unfold eraseMint
        by_cases hkind : out.isZerocoinMint = true
        · obtain ⟨coin, hcoin⟩ := hdecodes.mints out hout hkind
          rw [if_neg (by simp [hkind]), hcoin]
          exact ⟨_, rfl⟩
        · rw [Bool.not_eq_true] at hkind
          exact ⟨db, if_pos hkind⟩
      · exact ⟨mid, rfl⟩
    obtain ⟨db', hdb'⟩ := hmints
    exact ⟨db', by rw [if_pos hcontains, hmid]; exact hdb'⟩
  · exact ⟨db, if_neg hcontains⟩

end
end Lytix
