import Lytix.Lib.Dependencies
import Lytix.Lib.Heaps
import Lytix.Mempool.TxMemPool
import Lytix.Validation.AcceptBlock

/-! What a miner reads, and the first loop of `CreateNewBlock`: which transactions of the memory
pool can be considered, at what priority, and what they wait for. -/
namespace Lytix

open CountEntries Dependencies Heaps

def LOCKTIME_THRESHOLD : Nat := 500000000

def CTxIn.isFinal (txin : CTxIn) : Bool := txin.nSequence == 0xffffffff

def isFinalTx (tx : CTransaction) (nBlockHeight nBlockTime : Int) : Bool :=
  tx.nLockTime == 0 ||
    decide ((tx.nLockTime : Int) <
      if tx.nLockTime < LOCKTIME_THRESHOLD then nBlockHeight else nBlockTime) ||
    tx.vin.all CTxIn.isFinal

/-- The satoshis per thousand bytes of a `CFeeRate`. The division is unsigned, and what it gives
is read as signed. -/
def feeRate (nFeePaid : Int) (nSize : Nat) : Int :=
  if 0 < nSize then (nFeePaid * 1000 % 2 ^ 64 / nSize).bmod (2 ^ 64) else 0

/-- A transaction with its priority, a double. -/
structure TxPriority (δ : Type) where
  dPriority : δ
  feeRate : Int
  tx : CTransaction
deriving DecidableEq

variable {δ : Type} [LinearOrder δ]

/-- Whether `a` is sorted before `b`; the greatest element is taken first. -/
def TxPriorityCompare (byFee : Bool) (a b : TxPriority δ) : Bool :=
  if byFee then
    if a.feeRate = b.feeRate then a.dPriority < b.dPriority else a.feeRate < b.feeRate
  else
    if a.dPriority = b.dPriority then a.feeRate < b.feeRate else a.dPriority < b.dPriority

theorem TxPriorityCompare_eq_false {byFee : Bool} {a b : TxPriority δ} :
    TxPriorityCompare byFee a b = false ↔
      if byFee then b.feeRate < a.feeRate ∨ b.feeRate = a.feeRate ∧ b.dPriority ≤ a.dPriority
      else b.dPriority < a.dPriority ∨ b.dPriority = a.dPriority ∧ b.feeRate ≤ a.feeRate := by
  unfold TxPriorityCompare
  cases byFee
  · by_cases heq : a.dPriority = b.dPriority
    · simp [heq]
    · simp [heq, Ne.symm heq, lt_iff_le_and_ne]
  · by_cases heq : a.feeRate = b.feeRate
    · simp [heq]
    · simp [heq, Ne.symm heq, lt_iff_le_and_ne]

theorem TxPriorityCompare_trans {byFee : Bool} {a b x : TxPriority δ}
    (hab : TxPriorityCompare byFee a b = false) (hbx : TxPriorityCompare byFee b x = false) :
    TxPriorityCompare byFee a x = false := by
  rw [TxPriorityCompare_eq_false] at hab hbx ⊢
  cases byFee
  · simp only [Bool.false_eq_true, if_false] at hab hbx ⊢
    rcases hab with hab | ⟨hab, hab'⟩ <;> rcases hbx with hbx | ⟨hbx, hbx'⟩
    · exact Or.inl (hbx.trans hab)
    · exact Or.inl (hbx ▸ hab)
    · exact Or.inl (hab ▸ hbx)
    · exact Or.inr ⟨hbx.trans hab, hbx'.trans hab'⟩
  · simp only [if_true] at hab hbx ⊢
    rcases hab with hab | ⟨hab, hab'⟩ <;> rcases hbx with hbx | ⟨hbx, hbx'⟩
    · exact Or.inl (hbx.trans hab)
    · exact Or.inl (hbx ▸ hab)
    · exact Or.inl (hab ▸ hbx)
    · exact Or.inr ⟨hbx.trans hab, hbx'.trans hab'⟩

theorem TxPriorityCompare_total (byFee : Bool) (a b : TxPriority δ) :
    TxPriorityCompare byFee a b = false ∨ TxPriorityCompare byFee b a = false := by
  simp only [TxPriorityCompare_eq_false]
  cases byFee
  · simp only [Bool.false_eq_true, if_false]
    rcases lt_trichotomy a.dPriority b.dPriority with hlt | heq | hgt
    · exact Or.inr (Or.inl hlt)
    · rcases le_total a.feeRate b.feeRate with hle | hle
      · exact Or.inr (Or.inr ⟨heq, hle⟩)
      · exact Or.inl (Or.inr ⟨heq.symm, hle⟩)
    · exact Or.inl (Or.inl hgt)
  · simp only [if_true]
    rcases lt_trichotomy a.feeRate b.feeRate with hlt | heq | hgt
    · exact Or.inr (Or.inl hlt)
    · rcases le_total a.dPriority b.dPriority with hle | hle
      · exact Or.inr (Or.inr ⟨heq, hle⟩)
      · exact Or.inl (Or.inr ⟨heq.symm, hle⟩)
    · exact Or.inl (Or.inl hgt)

instance (byFee : Bool) :
    Std.Total fun a b : TxPriority δ => TxPriorityCompare byFee a b = false :=
  ⟨TxPriorityCompare_total byFee⟩

instance (byFee : Bool) :
    IsTrans (TxPriority δ) fun a b => TxPriorityCompare byFee a b = false :=
  ⟨fun _ _ _ => TxPriorityCompare_trans⟩

/-- Besides the functions of validation: arithmetic on priorities, the zerocoin parameters and the
heap functions. -/
structure MinerEnv (δ : Type) [LinearOrder δ] extends ConsensusEnv where
  /-- A coin adds its value times its confirmations. -/
  addCoin : δ → Int → Int → δ
  /-- A zerocoin spend adds by its age, and multiplies by the value spent. -/
  addSpend : δ → Int → Int → δ
  computePriority : CTransaction → δ → Nat → δ
  allowFree : δ → Bool
  /-- `HasValidSerial` under the parameters that the version of the serial asks for. -/
  hasValidSerial : CoinSpend → Bool
  /-- `CScriptCheck` under `MANDATORY_SCRIPT_VERIFY_FLAGS`. -/
  mandatoryScriptCheck : CTxOut → CTransaction → Nat → Bool
  heap : (byFee : Bool) → HeapFunctions (@TxPriorityCompare δ _ byFee)

/-- The state of a miner: its memory pool and coins, its options, and what other code puts into
the block besides the transactions of the pool. -/
structure MinerNode (δ : Type) extends AcceptNode where
  pool : CTxMemPool
  pool_eq : ∀ hash, mempool hash = (pool.mapTx.lookup hash).map CTxMemPoolEntry.tx
  coins : CoinsMap
  coins_eq : ∀ hash, accessCoins hash = coins.get hash
  /-- `pcoinsTip->GetBestBlock()`. -/
  hashBestBlock : Uint256
  mapDeltas : Uint256 → Option (δ × Int)
  /-- When a zerocoin spend was first seen. -/
  mapZerocoinspends : Uint256 → Option Int
  minRelayTxFee : Int
  blockMaxSize : UInt32
  blockPrioritySize : UInt32
  blockMinSize : UInt32
  /-- What `CreateCoinStake` finds. -/
  coinStake : Option { tx : CTransaction // tx.isCoinStake = true }
  /-- The coinbase, from the fees collected. -/
  coinBase : Int → CTransaction
  blockTime : UInt32
  nextWorkRequired : UInt32
  accumulatorCheckpoint : Uint256
  blockHash : List CTransaction → Uint256

namespace MinerNode

variable (node : MinerNode δ)

/-- Limit to between 1K and MAX_BLOCK_SIZE-1K for sanity. -/
def nBlockMaxSize : Nat := max 1000 (min ( MAX_BLOCK_SIZE_CURRENT - 1000) node.blockMaxSize.toNat)

def nBlockPrioritySize : Nat := min node.nBlockMaxSize node.blockPrioritySize.toNat

def nBlockMinSize : Nat := min node.nBlockMaxSize node.blockMinSize.toNat

def applyDeltas [Add δ] (hash : Uint256) (dPriorityDelta : δ) (nFeeDelta : Int) : δ × Int :=
  match node.mapDeltas hash with
  | none => (dPriorityDelta, nFeeDelta)
  | some deltas => (dPriorityDelta + deltas.1, nFeeDelta + deltas.2)

end MinerNode

/-- What the loop over the inputs of one transaction carries along. The transaction is an orphan
as soon as it depends on anything. -/
structure InputScan (δ : Type) where
  dPriority : δ
  nTotalIn : Int := 0
  setDependsOn : List Uint256 := []
  fMissingInputs : Bool := false
  mapDependers : Uint256 → List Uint256

/-- A `COrphan` with its transaction, and the dependers by the hash they depend on. A depender is
named by its own hash. -/
structure PoolScan (δ : Type) where
  vecPriority : List (TxPriority δ) := []
  vOrphan : Table Uint256 (Waiting Uint256 (TxPriority δ)) := ∅
  mapDependers : Uint256 → List Uint256 := fun _ => []

section
variable [Zero δ] [Add δ] (env : MinerEnv δ) (node : MinerNode δ) (nHeight : Int)

def scanPoolInput (tx : CTransaction) (s : InputScan δ) (txin : CTxIn) : InputScan δ :=
  -- the loop was left at a missing input
  if s.fMissingInputs then s
  else if tx.isZerocoinSpend then
    let nTimeSeen := (node.mapZerocoinspends tx.hash).getD node.adjustedTime
    { s with
      nTotalIn := tx.getZerocoinSpent
      dPriority := env.addSpend s.dPriority (node.adjustedTime - nTimeSeen) tx.getZerocoinSpent }
  else if node.coins.haveCoins txin.prevout.hash then
    let nValueIn := (node.coins.outputFor txin).nValue
    let nConf := nHeight - (node.coins.coinsOf txin.prevout.hash).nHeight
    { s with
      nTotalIn := s.nTotalIn + nValueIn
      dPriority := env.addCoin s.dPriority nValueIn nConf }
  else
    match node.pool.mapTx.lookup txin.prevout.hash with
    | none => { s with fMissingInputs := true }
    | some parent =>
      -- has to wait for dependencies
      { s with
        mapDependers := Function.update s.mapDependers txin.prevout.hash
          (s.mapDependers txin.prevout.hash ++ [tx.hash])
        setDependsOn := s.setDependsOn.insert txin.prevout.hash
        nTotalIn := s.nTotalIn + ((parent.tx.vout[txin.prevout.n]?).getD CTxOut.null).nValue }

/-- Transactions that no block takes, or none at this time. -/
def skipsTx (tx : CTransaction) : Bool :=
  tx.isCoinBase || tx.isCoinStake || !isFinalTx tx nHeight node.adjustedTime ||
    (decide (getSporkValue node.sporks .SPORK_16_ZEROCOIN_MAINTENANCE_MODE < node.adjustedTime) &&
      tx.containsZerocoins)

def scanPoolInputs (tx : CTransaction) (mapDependers : Uint256 → List Uint256) : InputScan δ :=
  let start : InputScan δ := { dPriority := 0, mapDependers := mapDependers }
  tx.vin.foldl (scanPoolInput env node nHeight tx) start

/-- The priority and the fee rate, from what the inputs bring in. -/
def poolPriority (tx : CTransaction) (s : InputScan δ) (nValueOut : Int) : TxPriority δ :=
  let nTxSize := env.txSize tx
  let (dPriority, nTotalIn) :=
    node.applyDeltas tx.hash (env.computePriority tx s.dPriority nTxSize) s.nTotalIn
  ⟨dPriority, feeRate (nTotalIn - nValueOut) nTxSize, tx⟩

/-- One transaction of the pool; `none` is the exception of `GetValueOut`. -/
def scanPoolTx (scan : PoolScan δ) (tx : CTransaction) : Option (PoolScan δ) :=
  if skipsTx node nHeight tx then some scan
  else
    let s := scanPoolInputs env node nHeight tx scan.mapDependers
    let scan : PoolScan δ := { scan with mapDependers := s.mapDependers }
    if s.fMissingInputs then some scan
    else tx.getValueOut.map fun nValueOut =>
      let priority := poolPriority env node tx s nValueOut
      if s.setDependsOn = [] then { scan with vecPriority := scan.vecPriority ++ [priority] }
      else { scan with vOrphan := scan.vOrphan.insert tx.hash ⟨priority, s.setDependsOn⟩ }

def scanPool : Option (PoolScan δ) :=
  node.pool.transactions.foldlM (scanPoolTx env node nHeight) {}

end

namespace MinerNode

variable (node : MinerNode δ)

/-- The input spends an output that is no coin of the chain. -/
def waits (tx : CTransaction) (txin : CTxIn) : Bool :=
  !tx.isZerocoinSpend && !node.coins.haveCoins txin.prevout.hash

/-- The transactions that have to be in the block first. -/
def poolParents (tx : CTransaction) : List Uint256 :=
  (tx.vin.filter (node.waits tx)).map fun txin => txin.prevout.hash

/-- An input spends neither a coin of the chain nor a transaction of the pool. -/
def missesInput (tx : CTransaction) : Bool :=
  tx.vin.any fun txin =>
    node.waits tx txin && (node.pool.mapTx.lookup txin.prevout.hash).isNone

/-- The transaction is put to the queue or among the orphans. -/
def considers (nHeight : Int) (tx : CTransaction) : Bool :=
  !skipsTx node nHeight tx && !node.missesInput tx

omit [LinearOrder δ] in
theorem pool_hash {hash : Uint256} {entry : CTxMemPoolEntry}
    (h : node.pool.mapTx.lookup hash = some entry) : entry.tx.hash = hash := by
  refine node.mempool_hash hash entry.tx ?_
  rw [node.pool_eq, h, Option.map_some]

omit [LinearOrder δ] in
/-- The transactions of the pool are told apart by their hashes. -/
theorem nodup_pool_hash : (node.pool.transactions.map CTransaction.hash).Nodup := by
  have hperm := List.perm_insertionSort (· ≤ ·) node.pool.mapTx.keys
  have hkeys : node.pool.transactions.map CTransaction.hash =
      node.pool.mapTx.keys.insertionSort (· ≤ ·) := by
    refine Pending.map_key_filterMap fun hash hmem => ?_
    have hin : hash ∈ node.pool.mapTx := AList.mem_keys.mp (hperm.mem_iff.mp hmem)
    obtain ⟨entry, hentry⟩ := Option.isSome_iff_exists.mp (AList.lookup_isSome.mpr hin)
    exact ⟨entry.tx, by rw [hentry, Option.map_some], node.pool_hash hentry⟩
  rw [hkeys]
  exact hperm.nodup_iff.mpr node.pool.mapTx.keys_nodup

end MinerNode

section
variable [Zero δ] [Add δ] {env : MinerEnv δ} {node : MinerNode δ} {nHeight : Int}
  {tx : CTransaction}

omit [Zero δ] [Add δ] in
/-- What one input does to the dependencies. -/
theorem scanPoolInput_spec (s : InputScan δ) (txin : CTxIn) (hs : s.fMissingInputs = false) :
    let s' := scanPoolInput env node nHeight tx s txin
    (s'.fMissingInputs =
      (node.waits tx txin && (node.pool.mapTx.lookup txin.prevout.hash).isNone)) ∧
    (s'.fMissingInputs = false → ∀ p,
      p ∈ s'.setDependsOn ↔ p ∈ s.setDependsOn ∨ node.waits tx txin ∧ p = txin.prevout.hash) ∧
    (∀ p k, k ∈ s.mapDependers p → k ∈ s'.mapDependers p) ∧
    (s'.fMissingInputs = false → node.waits tx txin = true →
      tx.hash ∈ s'.mapDependers txin.prevout.hash) := by
  unfold scanPoolInput MinerNode.waits
  dsimp only
  rw [if_neg (by simp [hs])]
  by_cases hspend : tx.isZerocoinSpend = true
  · rw [if_pos hspend]
    simp [hspend, hs]
  · rw [if_neg hspend]
    rw [Bool.not_eq_true] at hspend
    by_cases hcoins : node.coins.haveCoins txin.prevout.hash = true
    · rw [if_pos hcoins]
      simp [hcoins, hs]
    · rw [if_neg hcoins]
      rw [Bool.not_eq_true] at hcoins
      cases hparent : node.pool.mapTx.lookup txin.prevout.hash with
      | none => simp [hspend, hcoins]
      | some parent =>
        simp only [hs, hspend, hcoins, Bool.not_false, Bool.and_self, Option.isNone_some,
          Bool.and_false, true_and, List.mem_insert_iff, forall_const]
        refine ⟨?_, ?_, ?_⟩
        · intro p
          exact or_comm
        · intro p k hk
          by_cases hp : p = txin.prevout.hash
          · subst hp
            simp [hk]
          · rw [Function.update_of_ne hp]
            exact hk
        · simp

omit [Zero δ] [Add δ] in
theorem scanPoolInput_of_missing {s : InputScan δ} {txin : CTxIn} (hs : s.fMissingInputs = true) :
    scanPoolInput env node nHeight tx s txin = s := by
  unfold scanPoolInput
  rw [if_pos hs]

omit [Zero δ] [Add δ] in
theorem foldl_scanPoolInput_of_missing {s : InputScan δ} {vin : List CTxIn}
    (hs : s.fMissingInputs = true) : vin.foldl (scanPoolInput env node nHeight tx) s = s := by
  induction vin with
  | nil => rfl
  | cons txin vin ih => rw [List.foldl_cons, scanPoolInput_of_missing hs, ih]

omit [Zero δ] [Add δ] in
theorem foldl_scanPoolInput (s : InputScan δ) (vin : List CTxIn) (hs : s.fMissingInputs = false) :
    let s' := vin.foldl (scanPoolInput env node nHeight tx) s
    (s'.fMissingInputs = vin.any fun txin =>
      node.waits tx txin && (node.pool.mapTx.lookup txin.prevout.hash).isNone) ∧
    (s'.fMissingInputs = false → ∀ p, p ∈ s'.setDependsOn ↔
      p ∈ s.setDependsOn ∨ p ∈ (vin.filter (node.waits tx)).map fun txin => txin.prevout.hash) ∧
    (∀ p k, k ∈ s.mapDependers p → k ∈ s'.mapDependers p) ∧
    (s'.fMissingInputs = false →
      ∀ p ∈ (vin.filter (node.waits tx)).map fun txin => txin.prevout.hash,
        tx.hash ∈ s'.mapDependers p) := by
  induction vin generalizing s with
  | nil => simp [hs]
  | cons txin vin ih =>
    obtain ⟨hmissing, hdepends, hkeeps, hknows⟩ := scanPoolInput_spec s txin hs
    rw [List.foldl_cons]
    cases hmid : (scanPoolInput env node nHeight tx s txin).fMissingInputs with
    | true =>
      rw [foldl_scanPoolInput_of_missing hmid]
      rw [hmid] at hmissing
      refine ⟨?_, ?_, hkeeps, ?_⟩
      · rw [hmid, List.any_cons, ← hmissing, Bool.true_or]
      · intro hfalse
        rw [hmid] at hfalse
        contradiction
      · intro hfalse
        rw [hmid] at hfalse
        contradiction
    | false =>
      obtain ⟨hmissing', hdepends', hkeeps', hknows'⟩ := ih _ hmid
      rw [hmid] at hmissing
      refine ⟨?_, ?_, fun p k hk => hkeeps' p k (hkeeps p k hk), ?_⟩
      · rw [hmissing', List.any_cons, ← hmissing, Bool.false_or]
      · intro hend p
        rw [hdepends' hend p, hdepends hmid p, or_assoc, List.filter_cons]
        by_cases hwaits : node.waits tx txin = true
        · simp [hwaits]
        · simp [hwaits]
      · intro hend p hp
        rw [List.filter_cons] at hp
        by_cases hwaits : node.waits tx txin = true
        · rw [if_pos hwaits, List.map_cons, List.mem_cons] at hp
          rcases hp with rfl | hp
          · exact hkeeps' _ _ (hknows hmid hwaits)
          · exact hknows' hend p hp
        · rw [if_neg hwaits] at hp
          exact hknows' hend p hp

omit [Add δ] in
/-- What the loop over the inputs finds: whether the transaction misses one, what it waits for,
and that its parents know. -/
theorem scanPoolInputs_spec (tx : CTransaction) (mapDependers : Uint256 → List Uint256) :
    let s := scanPoolInputs env node nHeight tx mapDependers
    s.fMissingInputs = node.missesInput tx ∧
    (s.fMissingInputs = false → ∀ p, p ∈ s.setDependsOn ↔ p ∈ node.poolParents tx) ∧
    (∀ p k, k ∈ mapDependers p → k ∈ s.mapDependers p) ∧
    (s.fMissingInputs = false → ∀ p ∈ node.poolParents tx, tx.hash ∈ s.mapDependers p) := by
  obtain ⟨hmissing, hdepends, hkeeps, hknows⟩ := @foldl_scanPoolInput _ _ env node nHeight tx
    { dPriority := 0, mapDependers := mapDependers } tx.vin rfl
  refine ⟨hmissing, ?_, hkeeps, hknows⟩
  intro hs p
  have hp := hdepends hs p
  rw [List.mem_nil_iff, false_or] at hp
  exact hp

/-- The state of the scan after some transactions. -/
structure Scanned (node : MinerNode δ) (nHeight : Int) (txs : List CTransaction)
    (items : List (TxPriority δ)) (scan : PoolScan δ) : Prop where
  pending : Pending (fun e : TxPriority δ => e.tx.hash) (fun e => node.poolParents e.tx)
    scan.mapDependers items [] [] scan.vecPriority scan.vOrphan
  items_eq : items.map TxPriority.tx = txs.filter (node.considers nHeight)

theorem Scanned.scanPoolTx {txs : List CTransaction} {items : List (TxPriority δ)}
    {scan scan' : PoolScan δ} (scanned : Scanned node nHeight txs items scan)
    (hfresh : tx.hash ∉ txs.map CTransaction.hash)
    (h : scanPoolTx env node nHeight scan tx = some scan') :
    ∃ items', Scanned node nHeight (txs ++ [tx]) items' scan' := by
  unfold Lytix.scanPoolTx at h
  by_cases hskip : skipsTx node nHeight tx = true
  · rw [if_pos hskip] at h
    obtain rfl := Option.some.inj h
    refine ⟨items, scanned.pending, ?_⟩
    rw [List.filter_append, scanned.items_eq]
    simp [MinerNode.considers, hskip]
  · rw [if_neg hskip] at h
    rw [Bool.not_eq_true] at hskip
    dsimp only at h
    obtain ⟨hmissing, hdepends, hkeeps, hknows⟩ :=
      @scanPoolInputs_spec _ _ _ env node nHeight tx scan.mapDependers
    by_cases hmiss : (scanPoolInputs env node nHeight tx scan.mapDependers).fMissingInputs = true
    · rw [if_pos hmiss] at h
      obtain rfl := Option.some.inj h
      refine ⟨items, scanned.pending.mono_dependers hkeeps, ?_⟩
      rw [List.filter_append, scanned.items_eq]
      simp [MinerNode.considers, ← hmissing, hmiss]
    · rw [if_neg hmiss] at h
      rw [Bool.not_eq_true] at hmiss
      obtain ⟨nValueOut, -, rfl⟩ := Option.map_eq_some_iff.mp h
      generalize hpriority : poolPriority env node tx
        (scanPoolInputs env node nHeight tx scan.mapDependers) nValueOut = priority
      have htx : priority.tx = tx := by
        rw [← hpriority]
        rfl
      have hconsiders : node.considers nHeight tx = true := by
        simp [MinerNode.considers, hskip, ← hmissing, hmiss]
      have hnew : (items ++ [priority]).map TxPriority.tx =
          (txs ++ [tx]).filter (node.considers nHeight) := by
        rw [List.filter_append, List.map_append, scanned.items_eq]
        simp [hconsiders, htx]
      have hother : ∀ y ∈ items, y.tx.hash ≠ priority.tx.hash := by
        intro y hy heq
        have hmem : y.tx ∈ txs.filter (node.considers nHeight) :=
          scanned.items_eq ▸ List.mem_map_of_mem hy
        rw [htx] at heq
        exact hfresh (heq ▸ List.mem_map_of_mem (List.mem_of_mem_filter hmem))
      have hwaits : ∀ p, p ∈ (scanPoolInputs env node nHeight tx scan.mapDependers).setDependsOn ↔
          p ∈ node.poolParents priority.tx := by
        intro p
        rw [htx]
        exact hdepends hmiss p
      by_cases halone : (scanPoolInputs env node nHeight tx scan.mapDependers).setDependsOn = []
      · rw [if_pos halone]
        have hparents : node.poolParents priority.tx = [] := by
          refine List.eq_nil_iff_forall_not_mem.mpr fun p hp => ?_
          rw [← hwaits p, halone] at hp
          contradiction
        refine ⟨items ++ [priority], ?_, hnew⟩
        exact (scanned.pending.mono_dependers hkeeps).add_ready hother hparents
      · rw [if_neg halone]
        have hparents : ∀ p ∈ node.poolParents priority.tx, priority.tx.hash ∈
            (scanPoolInputs env node nHeight tx scan.mapDependers).mapDependers p := by
          intro p hp
          rw [htx] at hp ⊢
          exact hknows hmiss p hp
        refine ⟨items ++ [priority], ?_, hnew⟩
        have hadd := scanned.pending.add_waiting hother halone hwaits hparents hkeeps
        rw [htx] at hadd
        exact hadd

/-- The scan puts every transaction that is considered to the queue or among the orphans. -/
theorem scanned_scanPool {scan : PoolScan δ} (h : scanPool env node nHeight = some scan) :
    ∃ items, Scanned node nHeight node.pool.transactions items scan := by
  have hrun : ∀ (txs done : List CTransaction) (items : List (TxPriority δ)) (start : PoolScan δ),
      Scanned node nHeight done items start → ((done ++ txs).map CTransaction.hash).Nodup →
      txs.foldlM (scanPoolTx env node nHeight) start = some scan →
      ∃ items', Scanned node nHeight (done ++ txs) items' scan := by
    intro txs
    induction txs with
    | nil =>
      intro done items start scanned _ hfold
      obtain rfl := Option.some.inj hfold
      exact ⟨items, by simpa using scanned⟩
    | cons tx txs ih =>
      intro done items start scanned hnodup hfold
      rw [List.foldlM_cons, Option.bind_eq_bind, Option.bind_eq_some_iff] at hfold
      obtain ⟨mid, hstep, hrest⟩ := hfold
      have hfresh : tx.hash ∉ done.map CTransaction.hash := by
        rw [List.map_append, List.map_cons, List.nodup_append] at hnodup
        exact fun hmem => hnodup.2.2 _ hmem _ List.mem_cons_self rfl
      obtain ⟨items', scanned'⟩ := scanned.scanPoolTx hfresh hstep
      have hsplit : done ++ tx :: txs = done ++ [tx] ++ txs := by simp
      rw [hsplit] at hnodup ⊢
      exact ih (done ++ [tx]) items' mid scanned' hnodup hrest
  have hstart : Scanned node nHeight [] [] ({} : PoolScan δ) := ⟨Pending.empty, rfl⟩
  simpa using hrun node.pool.transactions [] [] {} hstart (by simpa using node.nodup_pool_hash) h

end
end Lytix
