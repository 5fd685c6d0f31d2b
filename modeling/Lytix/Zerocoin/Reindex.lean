import Lytix.Validation.Conservation
import Lytix.Zerocoin.CoinRecords

/-! Rebuilding the zerocoin database from the active chain (`ReindexZerocoinDB`). -/
namespace Lytix
open Checks CountEntries RecordTables

section
variable (env : ConsensusEnv) (getHash : Int → Uint256)

/-- Record a serial. -/
def recordSpend (txid : Uint256) (db : CZerocoinDB) (txin : CTxIn) : Except String CZerocoinDB :=
  if txin.scriptSig.isZerocoinSpend = false then .ok db
  else do
    let spend ← orStop "error parsing the coin spend" (env.txInToZerocoinSpend txin)
    pure (db.writeCoinSpend getHash spend.coinSerialNumber txid)

/-- Record a mint. Whether it parsed is not looked at: one that did not is recorded as the coin
that it was to replace. -/
def recordMint (txid : Uint256) (db : CZerocoinDB) (out : CTxOut) : CZerocoinDB :=
  if out.isZerocoinMint = false then db
  else
    db.writeCoinMint getHash ((txOutToPublicCoin env out).toOption.getD ⟨0, .ZQ_ERROR⟩) txid

def recordSpends (tx : CTransaction) (db : CZerocoinDB) : Except String CZerocoinDB :=
  if tx.isZerocoinSpend then tx.vin.foldlM (recordSpend env getHash tx.hash) db else pure db

def recordMints (tx : CTransaction) (db : CZerocoinDB) : CZerocoinDB :=
  if tx.isZerocoinMint then tx.vout.foldl (recordMint env getHash tx.hash) db else db

/-- One round of the loop over the inputs, in which the whole transaction is recorded. -/
def reindexInput (tx : CTransaction) (db : CZerocoinDB) (_txin : CTxIn) :
    Except String CZerocoinDB :=
  if tx.isCoinBase then .ok db
  else if tx.containsZerocoins then do
    let db ← recordSpends env getHash tx db
    pure (recordMints env getHash tx db)
  else .ok db

def reindexTransaction (db : CZerocoinDB) (tx : CTransaction) : Except String CZerocoinDB :=
  tx.vin.foldlM (reindexInput env getHash tx) db

def reindexBlock (node : Node) (db : CZerocoinDB) (pindex : Uint256) :
    Except String CZerocoinDB := do
  let block ← orStop "Reindexing zerocoin failed" (node.readBlockFromDisk pindex)
  block.vtx.foldlM (reindexTransaction env getHash) db

/-- The active chain from `Zerocoin_StartHeight` on. -/
def zerocoinChain (node : Node) : List Uint256 :=
  node.view.chainActive.drop (Params node.network).nZerocoinStartHeight.toNat

def reindexZerocoinDB (node : Node) (db : CZerocoinDB) : Except String CZerocoinDB :=
  (zerocoinChain node).foldlM (reindexBlock env getHash node)
    ⟨CZerocoinDB.wipeCoins db.spends, CZerocoinDB.wipeCoins db.mints⟩

end

/-- The blocks of the active chain from `Zerocoin_StartHeight` on. -/
def zerocoinBlocks (node : Node) : List CBlock :=
  (zerocoinChain node).filterMap node.readBlockFromDisk

/-- A block that passed `CheckBlock` and `ConnectBlock`. -/
structure Connected (env : ConsensusEnv) (block : CBlock) : Prop where
  checked : ∃ (node : ConsensusNode) (fCheckPOW fCheckMerkleRoot : Bool),
    block.hash ≠ node.params.hashGenesisBlock ∧
      checkBlock env node block fCheckPOW fCheckMerkleRoot = .ok ()
  connected : ∃ (node : ConsensusNode) (coins : CoinsMap) (hashBestBlock : Uint256)
    (pindex : CBlockIndex) (fJustCheck fAlreadyChecked : Bool) (outcome : ConnectOutcome),
    connectBlock env node block coins hashBestBlock pindex fJustCheck fAlreadyChecked = .ok outcome

/-- Every key of an old record is written again, or is a transaction that an old record names. -/
def NothingLeft (getHash : Int → Uint256) (records : List (Int × Uint256))
    (table : Table Uint256 Uint256) : Prop :=
  ∀ key ∈ table, (∃ r ∈ records, getHash r.1 = key) ∨ ∃ key', table.lookup key' = some key

section
variable {env : ConsensusEnv} {getHash : Int → Uint256} {tx : CTransaction} {block : CBlock}
  {db db' : CZerocoinDB}

theorem Connected.decodes (h : Connected env block) : ∀ tx ∈ block.vtx, Decodes env tx := by
  obtain ⟨node, coins, hashBestBlock, pindex, fJustCheck, fAlreadyChecked, outcome, hconnect⟩ :=
    h.connected
  exact (connectBlock_records hconnect).2.2

theorem Connected.vin_ne_nil (h : Connected env block) : ∀ tx ∈ block.vtx, tx.vin ≠ [] := by
  obtain ⟨node, fCheckPOW, fCheckMerkleRoot, hgenesis, hcheck⟩ := h.checked
  intro tx hmem
  have hpassed := (checkBlock_eq_ok hgenesis hcheck).2 tx hmem
  simp only [checkTransaction, bind_eq_ok, stopIf_eq_ok] at hpassed
  exact hpassed.choose_spec.1

/-- A loop that writes the serials of inputs. -/
theorem foldlM_recordSpend {txid : Uint256} {vin : List CTxIn}
    (h : vin.foldlM (recordSpend env getHash txid) db = .ok db') :
    db'.mints = db.mints ∧ db'.spends =
      writeAll db.spends (keyed getHash ((serialsOf env vin).map fun serial => (serial, txid))) := by
  induction vin generalizing db with
  | nil =>
    rw [List.foldlM_nil, pure_eq_ok] at h
    subst h
    exact ⟨rfl, rfl⟩
  | cons txin vin ih =>
    rw [List.foldlM_cons, bind_eq_ok] at h
    obtain ⟨mid, hstep, hrest⟩ := h
    obtain ⟨hmints, hspends⟩ := ih hrest
    rw [hmints, hspends]
    unfold recordSpend at hstep
    by_cases hspend : txin.scriptSig.isZerocoinSpend = true
    · rw [if_neg (by simp [hspend])] at hstep
      simp only [bind_eq_ok, orStop_eq_ok, pure_eq_ok] at hstep
      obtain ⟨spend, hread, rfl⟩ := hstep
      refine ⟨rfl, ?_⟩
      simp [serialsOf, hspend, hread, keyed, writeAll, CZerocoinDB.writeCoinSpend]
    · rw [Bool.not_eq_true] at hspend
      rw [if_pos hspend] at hstep
      obtain rfl := Except.ok.inj hstep
      refine ⟨rfl, ?_⟩
      simp [serialsOf, hspend]

/-- A loop that writes the coins of outputs, all of which are of a denomination. -/
theorem foldl_recordMint {txid : Uint256} {vout : List CTxOut}
    (hdecode : ∀ out ∈ vout, out.isZerocoinMint = true →
      ∃ coin, txOutToPublicCoin env out = .ok coin) :
    (vout.foldl (recordMint env getHash txid) db).spends = db.spends ∧
      (vout.foldl (recordMint env getHash txid) db).mints = writeAll db.mints
        (keyed getHash ((pubcoinsOf env vout).map fun coin => (coin.value, txid))) := by
  induction vout generalizing db with
  | nil => exact ⟨rfl, rfl⟩
  | cons out vout ih =>
    obtain ⟨hfirst, hdecode⟩ := List.forall_mem_cons.mp hdecode
    obtain ⟨hspends, hmints⟩ := @ih (recordMint env getHash txid db out) hdecode
    rw [List.foldl_cons, hspends, hmints]
    unfold recordMint
    by_cases hmint : out.isZerocoinMint = true
    · obtain ⟨coin, hcoin⟩ := hfirst hmint
      rw [if_neg (by simp [hmint])]
      refine ⟨rfl, ?_⟩
      simp [pubcoinsOf, hmint, hcoin, Except.toOption, keyed, writeAll, CZerocoinDB.writeCoinMint]
    · rw [Bool.not_eq_true] at hmint
      rw [if_pos hmint]
      refine ⟨rfl, ?_⟩
      simp [pubcoinsOf, hmint]

theorem recordSpends_spec (h : recordSpends env getHash tx db = .ok db') :
    db'.mints = db.mints ∧
      db'.spends = writeAll db.spends (keyed getHash (coinSpends env tx)) := by
  unfold recordSpends at h
  rw [coinSpends]
  split_ifs at h ⊢
  · exact foldlM_recordSpend h
  · rw [pure_eq_ok] at h
    subst h
    exact ⟨rfl, rfl⟩

theorem recordMints_spec (hdecodes : Decodes env tx) :
    (recordMints env getHash tx db).spends = db.spends ∧
      (recordMints env getHash tx db).mints =
        writeAll db.mints (keyed getHash (coinMints env tx)) := by
  unfold recordMints
  split_ifs with hmint
  · exact foldl_recordMint hdecodes.mints
  · rw [coinMints, pubcoinsOf_of_not_mint (by simpa using hmint)]
    exact ⟨rfl, rfl⟩

theorem reindexInput_spec {txin : CTxIn} (hdecodes : Decodes env tx)
    (h : reindexInput env getHash tx db txin = .ok db') :
    db'.spends = writeAll db.spends (keyed getHash (coinSpends env tx)) ∧
      db'.mints = writeAll db.mints (keyed getHash (coinMints env tx)) := by
  unfold reindexInput at h
  split_ifs at h with hbase hcoins
  · obtain rfl := Except.ok.inj h
    have hnone : tx.containsZerocoins = false := by
      by_contra hcontains
      have hnot := not_isCoinBase_of_containsZerocoins (by simpa using hcontains)
      rw [hbase] at hnot
      contradiction
    obtain ⟨hspends, hmints⟩ := @records_of_not_containsZerocoins env tx hnone
    rw [hspends, hmints]
    exact ⟨rfl, rfl⟩
  · rw [bind_eq_ok] at h
    obtain ⟨mid, hspent, hend⟩ := h
    rw [pure_eq_ok] at hend
    obtain ⟨hsame, hwritten⟩ := recordSpends_spec hspent
    obtain ⟨hkept, hminted⟩ := @recordMints_spec env getHash tx mid hdecodes
    rw [← hend, hkept, hminted, hsame]
    exact ⟨hwritten, rfl⟩
  · obtain rfl := Except.ok.inj h
    obtain ⟨hspends, hmints⟩ := @records_of_not_containsZerocoins env tx (by simpa using hcoins)
    rw [hspends, hmints]
    exact ⟨rfl, rfl⟩

/-- What the records of a list add to both tables. -/
structure AddsRecords (getHash : Int → Uint256) (spends mints : List (Int × Uint256))
    (db db' : CZerocoinDB) : Prop where
  spends : Rewrites getHash spends db.spends db'.spends
  mints : Rewrites getHash mints db.mints db'.mints

theorem addsRecords_nil : AddsRecords getHash [] [] db db := ⟨rewrites_nil, rewrites_nil⟩

theorem AddsRecords.append {spends mints spends' mints' : List (Int × Uint256)} {db'' : CZerocoinDB}
    (h : AddsRecords getHash spends mints db db') (h' : AddsRecords getHash spends' mints' db' db'') :
    AddsRecords getHash (spends ++ spends') (mints ++ mints') db db'' :=
  ⟨h.spends.append h'.spends, h.mints.append h'.mints⟩

theorem reindexTransaction_spec (hdecodes : Decodes env tx) (hvin : tx.vin ≠ [])
    (h : reindexTransaction env getHash db tx = .ok db') :
    AddsRecords getHash (coinSpends env tx) (coinMints env tx) db db' := by
  have hround : ∀ {txin : CTxIn} {db db' : CZerocoinDB},
      reindexInput env getHash tx db txin = .ok db' →
      AddsRecords getHash (coinSpends env tx) (coinMints env tx) db db' := by
    intro txin db db' hstep
    obtain ⟨hspends, hmints⟩ := reindexInput_spec hdecodes hstep
    constructor
    · rw [hspends]
      exact rewrites_keyed
    · rw [hmints]
      exact rewrites_keyed
  unfold reindexTransaction at h
  cases hinputs : tx.vin with
  | nil => exact absurd hinputs hvin
  | cons txin vin =>
    rw [hinputs, List.foldlM_cons, bind_eq_ok] at h
    obtain ⟨mid, hfirst, hrest⟩ := h
    -- the rounds after the first write the same records again
    refine foldlM_invariant (AddsRecords getHash (coinSpends env tx) (coinMints env tx) db) ?_ hrest
      (hround hfirst)
    intro s txin s' _ hstep hs
    exact ⟨hs.spends.again (hround hstep).spends, hs.mints.again (hround hstep).mints⟩

theorem foldlM_reindexTransaction {vtx : List CTransaction}
    (hdecodes : ∀ tx ∈ vtx, Decodes env tx) (hvin : ∀ tx ∈ vtx, tx.vin ≠ [])
    (h : vtx.foldlM (reindexTransaction env getHash) db = .ok db') :
    AddsRecords getHash (vtx.flatMap (coinSpends env)) (vtx.flatMap (coinMints env)) db db' := by
  induction vtx generalizing db with
  | nil =>
    rw [List.foldlM_nil, pure_eq_ok] at h
    subst h
    exact addsRecords_nil
  | cons tx vtx ih =>
    rw [List.foldlM_cons, bind_eq_ok] at h
    obtain ⟨mid, hstep, hrest⟩ := h
    obtain ⟨hfirst, hdecodes⟩ := List.forall_mem_cons.mp hdecodes
    obtain ⟨hinputs, hvin⟩ := List.forall_mem_cons.mp hvin
    rw [List.flatMap_cons, List.flatMap_cons]
    exact (reindexTransaction_spec hfirst hinputs hstep).append (ih hdecodes hvin hrest)

theorem foldlM_reindexBlock {node : Node} {chain : List Uint256}
    (hchain : ∀ block ∈ chain.filterMap node.readBlockFromDisk, Connected env block)
    (h : chain.foldlM (reindexBlock env getHash node) db = .ok db') :
    AddsRecords getHash (chainSpends env (chain.filterMap node.readBlockFromDisk))
      (chainMints env (chain.filterMap node.readBlockFromDisk)) db db' := by
  induction chain generalizing db with
  | nil =>
    rw [List.foldlM_nil, pure_eq_ok] at h
    subst h
    exact addsRecords_nil
  | cons pindex chain ih =>
    rw [List.foldlM_cons, bind_eq_ok] at h
    obtain ⟨mid, hstep, hrest⟩ := h
    simp only [reindexBlock, bind_eq_ok, orStop_eq_ok] at hstep
    obtain ⟨block, hread, hloop⟩ := hstep
    rw [List.filterMap_cons_some hread] at hchain ⊢
    obtain ⟨hblock, hchain⟩ := List.forall_mem_cons.mp hchain
    have hfirst := foldlM_reindexTransaction hblock.decodes hblock.vin_ne_nil hloop
    rw [chainSpends, chainMints, List.flatMap_cons, List.flatMap_cons]
    exact hfirst.append (ih hchain hrest)

theorem nothingLeft_iff {records : List (Int × Uint256)} {table : Table Uint256 Uint256} :
    (∀ key ∈ CZerocoinDB.wipeCoins table, ∃ r ∈ records, getHash r.1 = key) ↔
      NothingLeft getHash records table := by
  unfold NothingLeft
  simp only [CZerocoinDB.mem_wipeCoins, and_imp]
  refine forall₂_congr fun key _ => ?_
  rw [or_iff_not_imp_right]
  simp only [not_exists, ne_eq]

/-- The rebuilt database mirrors the active chain from `Zerocoin_StartHeight` on, exactly when
nothing is left of the old one. -/
theorem reindexZerocoinDB_mirrors_iff {node : Node}
    (hchain : ∀ block ∈ zerocoinBlocks node, Connected env block)
    (h : reindexZerocoinDB env getHash node db = .ok db') :
    db'.MirrorsChain env getHash (zerocoinBlocks node) ↔
      NothingLeft getHash (chainSpends env (zerocoinBlocks node)) db.spends ∧
        NothingLeft getHash (chainMints env (zerocoinBlocks node)) db.mints := by
  have hrecorded := foldlM_reindexBlock hchain h
  have hspends := hrecorded.spends.mirrors_iff.trans nothingLeft_iff
  have hmints := hrecorded.mints.mirrors_iff.trans nothingLeft_iff
  exact ⟨fun h => ⟨hspends.mp h.spends, hmints.mp h.mints⟩,
    fun h => ⟨hspends.mpr h.1, hmints.mpr h.2⟩⟩

end

/-! A test network node at the genesis block, whose database has one record. -/

/-- The number itself as its hash. -/
def plainHash (n : Int) : Uint256 := BitVec.ofInt 256 n

def genesisNode : Node := (launchNode {} empty_pprev empty_nHeight).toNode

/-- The serial 5 was spent by transaction `txid`. -/
def oneSpend (txid : Uint256) : CZerocoinDB :=
  CZerocoinDB.writeCoinSpend plainHash ⟨∅, ∅⟩ 5 txid

theorem zerocoinChain_genesisNode : zerocoinChain genesisNode = [] := by
  refine List.drop_eq_nil_of_le ?_
  show 1 ≤ (100000 : Int).toNat
  decide

theorem zerocoinBlocks_genesisNode : zerocoinBlocks genesisNode = [] := by
  rw [zerocoinBlocks, zerocoinChain_genesisNode]
  rfl

theorem reindexZerocoinDB_genesisNode {db : CZerocoinDB} :
    reindexZerocoinDB launchEnv plainHash genesisNode db =
      .ok ⟨CZerocoinDB.wipeCoins db.spends, CZerocoinDB.wipeCoins db.mints⟩ := by
  rw [reindexZerocoinDB, zerocoinChain_genesisNode]
  rfl

/-- A record under the number of the transaction that it names is wiped. -/
theorem reindexZerocoinDB_mirrors_selfNamed :
    (CZerocoinDB.mk (CZerocoinDB.wipeCoins (oneSpend 5).spends)
        (CZerocoinDB.wipeCoins (oneSpend 5).mints)).MirrorsChain launchEnv plainHash
          (zerocoinBlocks genesisNode) := by
  refine (reindexZerocoinDB_mirrors_iff (by rw [zerocoinBlocks_genesisNode]; simp)
    reindexZerocoinDB_genesisNode).mpr ⟨fun key hkey => Or.inr ⟨5, ?_⟩, fun key hkey => ?_⟩
  · have hmem : key ∈ (∅ : Table Uint256 Uint256).insert 5 5 := hkey
    rw [AList.mem_insert] at hmem
    rcases hmem with rfl | hnone
    · rfl
    · exact absurd hnone (AList.notMem_empty key)
  · exact absurd hkey (AList.notMem_empty key)

/-- One under another number stays, though no block of the chain spends its serial. -/
theorem reindexZerocoinDB_leaves_record :
    reindexZerocoinDB launchEnv plainHash genesisNode (oneSpend 9) = .ok (oneSpend 9) ∧
      (∀ block ∈ zerocoinBlocks genesisNode, Connected launchEnv block) ∧
      (oneSpend 9).readCoinSpend plainHash 5 = some 9 ∧
      ¬ (oneSpend 9).MirrorsChain launchEnv plainHash (zerocoinBlocks genesisNode) := by
  refine ⟨?_, by rw [zerocoinBlocks_genesisNode]; simp, rfl, fun h => ?_⟩
  · rw [reindexZerocoinDB_genesisNode]
    rfl
  · obtain ⟨r, hr, -⟩ := h.spends.sound 5 9 rfl
    rw [zerocoinBlocks_genesisNode] at hr
    contradiction

end Lytix
