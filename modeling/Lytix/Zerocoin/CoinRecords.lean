import Lytix.Lib.RecordTables
import Lytix.Validation.ConnectBlock

/-! The zerocoin database: a record for each serial that was spent and for each coin that was
minted, under the hash of its number, with the transaction that did it. -/
namespace Lytix
open Checks CountEntries RecordTables

/-- The records of type `s` and of type `m`. -/
structure CZerocoinDB where
  spends : Table Uint256 Uint256
  mints : Table Uint256 Uint256

namespace CZerocoinDB

section
variable (getHash : Int → Uint256) (db : CZerocoinDB)

def writeCoinMint (pubCoin : PublicCoin) (hashTx : Uint256) : CZerocoinDB :=
  { db with mints := db.mints.insert (getHash pubCoin.value) hashTx }

def readCoinMint (bnPubcoin : Int) : Option Uint256 := db.mints.lookup (getHash bnPubcoin)

def eraseCoinMint (bnPubcoin : Int) : CZerocoinDB :=
  { db with mints := db.mints.erase (getHash bnPubcoin) }

def writeCoinSpend (bnSerial : Int) (txHash : Uint256) : CZerocoinDB :=
  { db with spends := db.spends.insert (getHash bnSerial) txHash }

def readCoinSpend (bnSerial : Int) : Option Uint256 := db.spends.lookup (getHash bnSerial)

def eraseCoinSpend (bnSerial : Int) : CZerocoinDB :=
  { db with spends := db.spends.erase (getHash bnSerial) }

end

/-- The set that `WipeCoins` collects: the values of the records, which are read as hashes. -/
def setDelete (records : Table Uint256 Uint256) : List Uint256 :=
  (records.entries.map Sigma.snd).dedup

/-- `WipeCoins` on the records of one type: what it erases are the keys in `setDelete`. -/
def wipeCoins (records : Table Uint256 Uint256) : Table Uint256 Uint256 :=
  eraseAll records (setDelete records)

theorem mem_setDelete {records : Table Uint256 Uint256} {hash : Uint256} :
    hash ∈ setDelete records ↔ ∃ key, records.lookup key = some hash := by
  simp only [setDelete, List.mem_dedup, List.mem_map, Sigma.exists,
    mem_entries_iff, exists_eq_right]

theorem mem_wipeCoins {records : Table Uint256 Uint256} {key : Uint256} :
    key ∈ wipeCoins records ↔ key ∈ records ∧ ∀ key', records.lookup key' ≠ some key := by
  rw [← AList.lookup_isSome, wipeCoins, lookup_eraseAll]
  by_cases hdelete : key ∈ setDelete records
  · rw [if_pos hdelete]
    obtain ⟨key', hkey'⟩ := mem_setDelete.mp hdelete
    exact iff_of_false (by simp) fun h => h.2 key' hkey'
  · rw [if_neg hdelete, AList.lookup_isSome]
    simp only [mem_setDelete, not_exists] at hdelete
    exact ⟨fun h => ⟨h, hdelete⟩, fun h => h.1⟩

end CZerocoinDB

/-! The serials and the coins of a transaction, each with the transaction's hash. -/

section
variable (env : ConsensusEnv) (tx : CTransaction)

def coinSpends : List (Int × Uint256) :=
  if tx.isZerocoinSpend then (serialsOf env tx.vin).map fun bnSerial => (bnSerial, tx.hash) else []

def pubcoinsOf (vout : List CTxOut) : List PublicCoin :=
  (vout.filter CTxOut.isZerocoinMint).filterMap fun out => (txOutToPublicCoin env out).toOption

def coinMints : List (Int × Uint256) :=
  (pubcoinsOf env tx.vout).map fun coin => (coin.value, tx.hash)

def blockSpends (block : CBlock) : List (Int × Uint256) := block.vtx.flatMap (coinSpends env)

def blockMints (block : CBlock) : List (Int × Uint256) := block.vtx.flatMap (coinMints env)

def chainSpends (chain : List CBlock) : List (Int × Uint256) := chain.flatMap (blockSpends env)

def chainMints (chain : List CBlock) : List (Int × Uint256) := chain.flatMap (blockMints env)

/-- The spends of a transaction parse, and its mints are of a denomination. -/
structure Decodes : Prop where
  spends : tx.isZerocoinSpend = true → ∀ txin ∈ tx.vin, txin.scriptSig.isZerocoinSpend = true →
    (env.txInToZerocoinSpend txin).isSome = true
  mints : ∀ out ∈ tx.vout, out.isZerocoinMint = true →
    ∃ coin, txOutToPublicCoin env out = .ok coin

end

/-- The mirror that the database is to be. -/
structure CZerocoinDB.MirrorsChain (env : ConsensusEnv) (getHash : Int → Uint256)
    (chain : List CBlock) (db : CZerocoinDB) : Prop where
  spends : Mirrors getHash (chainSpends env chain) db.spends
  mints : Mirrors getHash (chainMints env chain) db.mints

/-! What `ConnectBlock` collects for the database. -/

/-- The serials and the coins collected so far. -/
def ConnectState.spendRecords (st : ConnectState) : List (Int × Uint256) :=
  st.vSpends.map fun pSpend => (pSpend.1.coinSerialNumber, pSpend.2)

def ConnectState.mintRecords (st : ConnectState) : List (Int × Uint256) :=
  st.vMints.map fun pMint => (pMint.1.value, pMint.2)

section
variable {env : ConsensusEnv} {node : ConsensusNode} {block : CBlock} {tx : CTransaction}
  {nHeight : Int} {fScriptChecks : Bool} {st st' : ConnectState}

theorem foldlM_connectSpendInput_records {vin : List CTxIn}
    (h : vin.foldlM (connectSpendInput env node tx nHeight) st = .ok st') :
    st'.spendRecords = st.spendRecords ++ (serialsOf env vin).map (·, tx.hash) ∧
      st'.vMints = st.vMints ∧
      ∀ txin ∈ vin, txin.scriptSig.isZerocoinSpend = true →
        (env.txInToZerocoinSpend txin).isSome = true := by
  induction vin generalizing st with
  | nil =>
    rw [List.foldlM_nil, pure_eq_ok] at h
    subst h
    simp [serialsOf]
  | cons txin vin ih =>
    rw [List.foldlM_cons, bind_eq_ok] at h
    obtain ⟨mid, hstep, hrest⟩ := h
    obtain ⟨hspends, hmints, hparse⟩ := ih hrest
    rw [hspends, hmints, List.forall_mem_cons]
    unfold connectSpendInput at hstep
    by_cases hspend : txin.scriptSig.isZerocoinSpend = true
    · simp only [hspend, Bool.true_eq_false, if_false, bind_eq_ok, stopIf_eq_ok, pure_eq_ok,
        parseSpend, orStop_eq_ok] at hstep
      obtain ⟨spend, hread, -, -, rfl⟩ := hstep
      refine ⟨?_, rfl, fun _ => by rw [hread]; rfl, hparse⟩
      simp [ConnectState.spendRecords, serialsOf, hspend, hread]
    · rw [Bool.not_eq_true] at hspend
      rw [if_pos hspend] at hstep
      obtain rfl := Except.ok.inj hstep
      refine ⟨?_, rfl, fun h => absurd h (by simp [hspend]), hparse⟩
      simp [serialsOf, hspend]

theorem foldlM_connectMintOutput_records {vout : List CTxOut}
    (h : vout.foldlM (connectMintOutput env node tx nHeight) st = .ok st') :
    st'.mintRecords = st.mintRecords ++ (pubcoinsOf env vout).map (fun coin => (coin.value, tx.hash)) ∧
      ∀ out ∈ vout, out.isZerocoinMint = true → ∃ coin, txOutToPublicCoin env out = .ok coin := by
  induction vout generalizing st with
  | nil =>
    rw [List.foldlM_nil, pure_eq_ok] at h
    subst h
    simp [pubcoinsOf]
  | cons out vout ih =>
    rw [List.foldlM_cons, bind_eq_ok] at h
    obtain ⟨mid, hstep, hrest⟩ := h
    obtain ⟨hmints, hdecode⟩ := ih hrest
    rw [hmints, List.forall_mem_cons]
    unfold connectMintOutput at hstep
    by_cases hmint : out.isZerocoinMint = true
    · simp only [hmint, Bool.true_eq_false, if_false, bind_eq_ok, stopIf_eq_ok, pure_eq_ok]
        at hstep
      obtain ⟨coin, hcoin, -, -, rfl⟩ := hstep
      refine ⟨?_, fun _ => ⟨coin, hcoin⟩, hdecode⟩
      simp [ConnectState.mintRecords, pubcoinsOf, hmint, hcoin, Except.toOption]
    · rw [Bool.not_eq_true] at hmint
      rw [if_pos hmint] at hstep
      obtain rfl := Except.ok.inj hstep
      refine ⟨?_, fun h => absurd h (by simp [hmint]), hdecode⟩
      simp [pubcoinsOf, hmint]

theorem pubcoinsOf_of_not_mint (h : tx.isZerocoinMint = false) : pubcoinsOf env tx.vout = [] := by
  have hnone : tx.vout.filter CTxOut.isZerocoinMint = [] := by
    rw [List.filter_eq_nil_iff]
    intro out hmem hmint
    have hany : tx.isZerocoinMint = true := List.any_eq_true.mpr ⟨out, hmem, hmint⟩
    rw [h] at hany
    contradiction
  rw [pubcoinsOf, hnone, List.filterMap_nil]

theorem records_of_not_containsZerocoins (h : tx.containsZerocoins = false) :
    coinSpends env tx = [] ∧ coinMints env tx = [] := by
  rw [CTransaction.containsZerocoins, Bool.or_eq_false_iff] at h
  rw [coinSpends, if_neg (by simp [h.1]), coinMints, pubcoinsOf_of_not_mint h.2]
  exact ⟨rfl, rfl⟩

/-- What one transaction adds to the records. -/
theorem connectTx_records (h : connectTx env node block nHeight fScriptChecks st tx = .ok st') :
    st'.spendRecords = st.spendRecords ++ coinSpends env tx ∧
      st'.mintRecords = st.mintRecords ++ coinMints env tx ∧ Decodes env tx := by
  simp only [connectTx, bind_eq_ok, orStop_eq_ok, pure_eq_ok, Prod.exists] at h
  obtain ⟨mid, hchecks, _, -, _, _, -, rfl⟩ := h
  simp only [connectTxChecks, bind_eq_ok, stopIf_eq_ok] at hchecks
  obtain ⟨-, -, -, -, hchecks⟩ := hchecks
  split_ifs at hchecks with hspend hbase
  · simp only [connectZerocoinSpend, bind_eq_ok, stopIf_eq_ok] at hchecks
    obtain ⟨-, -, inner, hspends, hmints⟩ := hchecks
    obtain ⟨hserials, hsame, hparse⟩ := foldlM_connectSpendInput_records hspends
    obtain ⟨hcoins, hdecode⟩ := foldlM_connectMintOutput_records hmints
    have hkept : mid.vSpends = inner.vSpends := by rw [foldlM_connectMintOutput hmints]
    refine ⟨?_, ?_, ⟨fun _ => hparse, hdecode⟩⟩
    · rw [coinSpends, if_pos hspend]
      simp only [ConnectState.spendRecords, hkept] at hserials ⊢
      exact hserials
    · rw [coinMints]
      simp only [ConnectState.mintRecords] at hcoins ⊢
      rw [hcoins, hsame]
  · obtain rfl := Except.ok.inj hchecks
    have hnone : tx.isZerocoinMint = false := by
      by_contra hmint
      have hcontains : tx.containsZerocoins = true := by
        rw [CTransaction.containsZerocoins, eq_true_of_ne_false hmint, Bool.or_true]
      rw [not_isCoinBase_of_containsZerocoins hcontains] at hbase
      contradiction
    refine ⟨?_, ?_, ⟨fun h => absurd h hspend, fun out hmem hmint => ?_⟩⟩
    · rw [coinSpends, if_neg hspend]
      simp [ConnectState.spendRecords]
    · rw [coinMints, pubcoinsOf_of_not_mint hnone]
      simp [ConnectState.mintRecords]
    · have hany : tx.isZerocoinMint = true := List.any_eq_true.mpr ⟨out, hmem, hmint⟩
      rw [hnone] at hany
      contradiction
  · simp only [connectSpendingTx, bind_eq_ok, stopIf_eq_ok, pure_eq_ok] at hchecks
    obtain ⟨-, -, inner, hmints, -, -, _, -, -, -, rfl⟩ := hchecks
    obtain ⟨hcoins, hdecode⟩ := foldlM_connectMintOutput_records hmints
    have hkept : inner.vSpends = st.vSpends := by rw [foldlM_connectMintOutput hmints]
    refine ⟨?_, hcoins, ⟨fun h => absurd h hspend, hdecode⟩⟩
    rw [coinSpends, if_neg hspend]
    simp [ConnectState.spendRecords, hkept]

theorem foldlM_connectTx_records {vtx : List CTransaction}
    (h : vtx.foldlM (connectTx env node block nHeight fScriptChecks) st = .ok st') :
    st'.spendRecords = st.spendRecords ++ vtx.flatMap (coinSpends env) ∧
      st'.mintRecords = st.mintRecords ++ vtx.flatMap (coinMints env) ∧
      ∀ tx ∈ vtx, Decodes env tx := by
  induction vtx generalizing st with
  | nil =>
    rw [List.foldlM_nil, pure_eq_ok] at h
    subst h
    simp
  | cons tx vtx ih =>
    rw [List.foldlM_cons, bind_eq_ok] at h
    obtain ⟨mid, hstep, hrest⟩ := h
    obtain ⟨hspends, hmints, hdecodes⟩ := connectTx_records hstep
    obtain ⟨hspends', hmints', hdecodes'⟩ := ih hrest
    refine ⟨?_, ?_, List.forall_mem_cons.mpr ⟨hdecodes, hdecodes'⟩⟩
    · rw [hspends', hspends, List.flatMap_cons, List.append_assoc]
    · rw [hmints', hmints, List.flatMap_cons, List.append_assoc]

/-- The records that connecting a block leaves to the database are those of its transactions. -/
theorem connectBlock_records {coins : CoinsMap} {hashBestBlock : Uint256} {pindex : CBlockIndex}
    {fJustCheck fAlreadyChecked : Bool} {outcome : ConnectOutcome}
    (h : connectBlock env node block coins hashBestBlock pindex fJustCheck fAlreadyChecked =
      .ok outcome) :
    outcome.vSpends.map (fun pSpend => (pSpend.1.coinSerialNumber, pSpend.2)) =
        blockSpends env block ∧
      outcome.vMints.map (fun pMint => (pMint.1.value, pMint.2)) = blockMints env block ∧
      ∀ tx ∈ block.vtx, Decodes env tx := by
  simp only [connectBlock, bind_eq_ok, stopIf_eq_ok, pure_eq_ok] at h
  obtain ⟨_, -, st, hloop, _, -, _, -, -, -, rfl⟩ := h
  exact foldlM_connectTx_records hloop

/-- A block is connected only with zerocoin data that is understood. -/
theorem decodes_concat {chain : List CBlock} {coins : CoinsMap} {hashBestBlock : Uint256}
    {pindex : CBlockIndex} {fJustCheck fAlreadyChecked : Bool} {outcome : ConnectOutcome}
    (hdecodes : ∀ block' ∈ chain, ∀ tx ∈ block'.vtx, Decodes env tx)
    (h : connectBlock env node block coins hashBestBlock pindex fJustCheck fAlreadyChecked =
      .ok outcome) :
    ∀ block' ∈ chain ++ [block], ∀ tx ∈ block'.vtx, Decodes env tx := by
  obtain ⟨-, -, hlast⟩ := connectBlock_records h
  intro block' hmem
  rcases List.mem_append.mp hmem with hold | hnew
  · exact hdecodes block' hold
  · rw [List.mem_singleton.mp hnew]
    exact hlast

end
end Lytix
