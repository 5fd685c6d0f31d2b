import Lytix.Coins.Coins
import Lytix.Lib.CountEntries
import Lytix.Params.ChainParams

/-! The memory pool, its index from outpoints to the inputs that spend them, and the removals. -/
namespace Lytix

open CountEntries

/-- Fake height for coins that are only in the memory pool. -/
def MEMPOOL_HEIGHT : Int := 0x7FFFFFFF

/-- What `AccessCoins` finds. An entry may be spent entirely. -/
abbrev CoinsAccess := Uint256 → Option CCoins

namespace CoinsAccess

variable (coins : CoinsAccess)

def available (o : COutPoint) : Bool := (coins o.hash).any fun c => c.isAvailable o.n

def haveCoins (txid : Uint256) : Bool := (coins txid).any fun c => !c.isPruned

end CoinsAccess

/-- Whether an output of a transaction of the pool can be spent. -/
def CTransaction.spendable (tx : CTransaction) (n : ℕ) : Bool :=
  (CCoins.fromTx tx MEMPOOL_HEIGHT).isAvailable n

structure CTxMemPoolEntry where
  tx : CTransaction
  nTxSize : UInt64
deriving DecidableEq

/-- `ptx` is the key of the entry that the pointer leads into. -/
structure CInPoint where
  ptx : Uint256
  n : ℕ
deriving DecidableEq

structure CTxMemPool where
  mapTx : Table Uint256 CTxMemPoolEntry
  mapNextTx : Table COutPoint CInPoint
  totalTxSize : UInt64

namespace CTxMemPool

def empty : CTxMemPool := ⟨∅, ∅, 0⟩

def markInputs (ptx : Uint256) :
    ℕ → List CTxIn → Table COutPoint CInPoint → Table COutPoint CInPoint
  | _, [], mapNextTx => mapNextTx
  | i, txin :: vin, mapNextTx =>
    markInputs ptx (i + 1) vin (mapNextTx.insert txin.prevout ⟨ptx, i⟩)

variable (pool : CTxMemPool)

/-- Add to the pool without checking anything. -/
def addUnchecked (hash : Uint256) (entry : CTxMemPoolEntry) : CTxMemPool where
  mapTx := pool.mapTx.insert hash entry
  mapNextTx :=
    if entry.tx.isZerocoinSpend then pool.mapNextTx
    else markInputs hash 0 entry.tx.vin pool.mapNextTx
  totalTxSize := pool.totalTxSize + entry.nTxSize

/-- The transactions of the pool that spend the first outputs of a transaction. -/
def children (hash : Uint256) (nOutputs : ℕ) : List Uint256 :=
  (List.range nOutputs).filterMap fun i => (pool.mapNextTx.lookup ⟨hash, i⟩).map CInPoint.ptx

def unmarkInputs (vin : List CTxIn) (mapNextTx : Table COutPoint CInPoint) :
    Table COutPoint CInPoint :=
  vin.foldl (fun mapNextTx txin => mapNextTx.erase txin.prevout) mapNextTx

/-- Take one entry out. -/
def takeOut (hash : Uint256) (entry : CTxMemPoolEntry) : CTxMemPool where
  mapTx := pool.mapTx.erase hash
  mapNextTx := unmarkInputs entry.tx.vin pool.mapNextTx
  totalTxSize := pool.totalTxSize - entry.nTxSize

/-- The outputs of all transactions of the pool. -/
def outputs : ℕ := total (fun _ entry => entry.tx.vout.length) pool.mapTx

theorem length_children_le (hash : Uint256) (nOutputs : ℕ) :
    (pool.children hash nOutputs).length ≤ nOutputs := by
  have h := List.length_filterMap_le
    (fun i => (pool.mapNextTx.lookup ⟨hash, i⟩).map CInPoint.ptx) (List.range nOutputs)
  rw [List.length_range] at h
  exact h

variable {pool} in
theorem outputs_takeOut {hash : Uint256} {entry : CTxMemPoolEntry}
    (h : pool.mapTx.lookup hash = some entry) :
    (pool.takeOut hash entry).outputs + entry.tx.vout.length = pool.outputs := by
  have htotal := @total_eq_add_erase _ _ _ _ _ _ (fun _ entry => entry.tx.vout.length) h
  dsimp only [outputs, takeOut]
  omega

/-- What a removal pushes for a transaction. -/
def pushed (fRecursive : Bool) (hash : Uint256) (nOutputs : ℕ) : List Uint256 :=
  if fRecursive then pool.children hash nOutputs else []

theorem length_pushed_le (fRecursive : Bool) (hash : Uint256) (nOutputs : ℕ) :
    (pool.pushed fRecursive hash nOutputs).length ≤ nOutputs := by
  unfold pushed
  split_ifs
  · exact length_children_le pool hash nOutputs
  · exact Nat.zero_le nOutputs

/-- The loop of `remove`. What it pushes are outputs of an entry that is taken out. -/
def removeLoop (fRecursive : Bool) (pool : CTxMemPool) : List Uint256 → CTxMemPool
  | [] => pool
  | hash :: txToRemove =>
    match _hfound : pool.mapTx.lookup hash with
    | none => removeLoop fRecursive pool txToRemove
    | some entry =>
      removeLoop fRecursive (pool.takeOut hash entry)
        (txToRemove ++ pool.pushed fRecursive hash entry.tx.vout.length)
termination_by txToRemove => txToRemove.length + pool.outputs
decreasing_by
  · rw [List.length_cons]
    omega
  · have houtputs := outputs_takeOut _hfound
    have hpushed := length_pushed_le pool fRecursive hash entry.tx.vout.length
    rw [List.length_append, List.length_cons]
    omega

/-- Children are removed too if their parent is not in the pool: this happens when a parent of
a disconnected block is not accepted again. -/
def remove (origTx : CTransaction) (fRecursive : Bool) : CTxMemPool :=
  removeLoop fRecursive pool (origTx.hash ::
    if (pool.mapTx.lookup origTx.hash).isNone then
      pool.pushed fRecursive origTx.hash origTx.vout.length
    else [])

/-- Whether a transaction spends a coin of the view that is gone or immature now. The height
difference is an `unsigned int`. -/
def spendsImmature (params : CChainParams) (coins : CoinsAccess) (nMemPoolHeight : ℕ)
    (tx : CTransaction) : Bool :=
  tx.vin.any fun txin =>
    (pool.mapTx.lookup txin.prevout.hash).isNone &&
      match coins txin.prevout.hash with
      | none => true
      | some c => (c.fCoinBase || c.fCoinStake) &&
          decide ((nMemPoolHeight - c.nHeight) % 2 ^ 32 < params.nMaturity)

/-- The transactions of the pool in the order of the map. -/
def transactions : List CTransaction :=
  (pool.mapTx.keys.insertionSort (· ≤ ·)).filterMap fun hash =>
    (pool.mapTx.lookup hash).map CTxMemPoolEntry.tx

def removeAll (transactionsToRemove : List CTransaction) : CTxMemPool :=
  transactionsToRemove.foldl (fun pool tx => pool.remove tx true) pool

def removeCoinbaseSpends (params : CChainParams) (coins : CoinsAccess) (nMemPoolHeight : ℕ) :
    CTxMemPool :=
  pool.removeAll (pool.transactions.filter (pool.spendsImmature params coins nMemPoolHeight))

/-- Remove the transaction that spends an input of `tx`, if it is another one. -/
def removeConflict (tx : CTransaction) (txin : CTxIn) : CTxMemPool :=
  match pool.mapNextTx.lookup txin.prevout with
  | none => pool
  | some it =>
    match pool.mapTx.lookup it.ptx with
    -- the pointer is dangling
    | none => pool
    | some txConflict =>
      if txConflict.tx.hash ≠ tx.hash then pool.remove txConflict.tx true else pool

def removeConflicts (tx : CTransaction) : CTxMemPool :=
  tx.vin.foldl (fun pool txin => pool.removeConflict tx txin) pool

def removeForBlock (vtx : List CTransaction) : CTxMemPool :=
  vtx.foldl (fun pool tx => (pool.remove tx false).removeConflicts tx) pool

/-- An input refers to an output of the pool or to an available coin, and it is marked. -/
def checkInput (coins : CoinsAccess) (ptx : Uint256) (txin : CTxIn) (i : ℕ) : Bool :=
  (match pool.mapTx.lookup txin.prevout.hash with
    | some tx2 => (tx2.tx.vout[txin.prevout.n]?).any fun txout => !txout.isNull
    | none => coins.available txin.prevout) &&
  decide (pool.mapNextTx.lookup txin.prevout = some ⟨ptx, i⟩)

/-- A mark leads to an input of the pool that spends the outpoint. -/
def checkNextTx (o : COutPoint) (it : CInPoint) : Bool :=
  match pool.mapTx.lookup it.ptx with
  -- the pointer is dangling
  | none => false
  | some entry => entry.tx.hash == it.ptx &&
      (entry.tx.vin[it.n]?).any fun txin => o == txin.prevout

def checkTotal : UInt64 :=
  pool.mapTx.entries.foldl (fun checkTotal it => checkTotal + it.2.nTxSize) 0

/-- The assertions of `check` on the maps and the sum; after them it connects the transactions
to a copy of the coins. -/
def check (coins : CoinsAccess) : Bool :=
  (pool.mapTx.entries.all fun it =>
    it.2.tx.vin.zipIdx.all fun (txin, i) => pool.checkInput coins it.1 txin i) &&
  (pool.mapNextTx.entries.all fun it => pool.checkNextTx it.1 it.2) &&
  pool.totalTxSize == pool.checkTotal

/-- `HaveInputs` on the coins of the pool over the coins of the view. -/
def haveInput (coins : CoinsAccess) (o : COutPoint) : Bool :=
  match pool.mapTx.lookup o.hash with
  | some entry => entry.tx.spendable o.n
  | none => coins.available o

/-- What `AcceptToMemoryPool` asks the pool and the coins. `CheckTransaction`, before, refuses a
transaction that spends an outpoint twice. -/
def acceptable (coins : CoinsAccess) (tx : CTransaction) : Bool :=
  (pool.mapTx.lookup tx.hash).isNone &&
  (tx.isZerocoinSpend ||
    (decide (tx.vin.map CTxIn.prevout).Nodup &&
      (tx.vin.all fun txin => (pool.mapNextTx.lookup txin.prevout).isNone) &&
      !coins.haveCoins tx.hash &&
      tx.vin.all fun txin => pool.haveInput coins txin.prevout))

end CTxMemPool
end Lytix
