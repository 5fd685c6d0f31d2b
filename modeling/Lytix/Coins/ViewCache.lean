import Lytix.Coins.Coins
import Lytix.Lib.WriteBack

/-! The stack of coin views: any number of `CCoinsViewCache` layers over a `CCoinsViewDB`.
A read fills the caches it passes through, so it returns the view it leaves behind. -/
namespace Lytix

/-- The `coins` of a cache entry with its `DIRTY` and `FRESH` flags. -/
abbrev CCoinsCacheEntry := WriteBack.Entry CCoins

abbrev CCoinsMap := AList fun _ : Uint256 => CCoinsCacheEntry

/-- The database at the bottom. Writes to it are taken to succeed. -/
structure CCoinsViewDB where
  coins : Uint256 → Option CCoins
  hashBestChain : Uint256

namespace CCoinsViewDB

/-- Reading an entry ends with a `Cleanup` (`CCoins::Unserialize`). -/
def getCoins (db : CCoinsViewDB) (txid : Uint256) : Option CCoins :=
  (db.coins txid).map CCoins.cleanup

def haveCoins (db : CCoinsViewDB) (txid : Uint256) : Bool := (db.coins txid).isSome

def batchWriteCoins (db : CCoinsViewDB) (it : Σ _ : Uint256, CCoinsCacheEntry) : CCoinsViewDB :=
  if it.2.dirty then
    { db with
      coins := Function.update db.coins it.1 (if it.2.val.isPruned then none else some it.2.val) }
  else db

def batchWrite (db : CCoinsViewDB) (mapCoins : CCoinsMap) (hashBlock : Uint256) : CCoinsViewDB :=
  let db' := mapCoins.entries.foldl batchWriteCoins db
  if hashBlock = 0 then db' else { db' with hashBestChain := hashBlock }

end CCoinsViewDB

inductive CCoinsView where
  | db (disk : CCoinsViewDB)
  | cache (base : CCoinsView) (hashBlock : Uint256) (cacheCoins : CCoinsMap)

namespace CCoinsView

/-- `GetCoins`, with `FetchCoins` inlined. An entry the parent only has pruned is fresh. -/
def getCoins : CCoinsView → Uint256 → Option CCoins × CCoinsView
  | db disk, txid => (disk.getCoins txid, db disk)
  | cache base hashBlock cacheCoins, txid =>
    match cacheCoins.lookup txid with
    | some it => (some it.val, cache base hashBlock cacheCoins)
    | none =>
      match base.getCoins txid with
      | (none, base') => (none, cache base' hashBlock cacheCoins)
      | (some tmp, base') =>
        (some tmp, cache base' hashBlock (cacheCoins.insert txid ⟨tmp, false, tmp.isPruned⟩))

/-- `AccessCoins` fetches as `GetCoins` does and returns a pointer instead of a copy. -/
def accessCoins (view : CCoinsView) (txid : Uint256) : Option CCoins × CCoinsView :=
  view.getCoins txid

/-- A cache looks at `vout.empty()` instead of `IsPruned`. -/
def haveCoins : CCoinsView → Uint256 → Bool × CCoinsView
  | db disk, txid => (disk.haveCoins txid, db disk)
  | cache base hashBlock cacheCoins, txid =>
    let (it, view') := getCoins (cache base hashBlock cacheCoins) txid
    (it.any (fun coins => !coins.vout.isEmpty), view')

/-- The entry a `CCoinsModifier` is opened on, before `DIRTY` is set. -/
def modifierEntry (base : CCoinsView) (cacheCoins : CCoinsMap) (txid : Uint256) :
    CCoinsCacheEntry × CCoinsView :=
  match cacheCoins.lookup txid with
  | some it => (it, base)
  | none =>
    match base.getCoins txid with
    | (none, base') => (⟨CCoins.clear, false, true⟩, base')
    | (some coins, base') => (⟨coins, false, coins.isPruned⟩, base')

/-- `ModifyCoins`, the mutation `f` made through the modifier, and the modifier's destructor.
A database has no such operation. -/
def modifyCoins (view : CCoinsView) (txid : Uint256) (f : CCoins → CCoins) : CCoinsView :=
  match view with
  | db disk => db disk
  | cache base hashBlock cacheCoins =>
    let (entry, base') := modifierEntry base cacheCoins txid
    let coins := (f entry.val).cleanup
    if entry.fresh && coins.isPruned then
      cache base' hashBlock (cacheCoins.erase txid)
    else
      cache base' hashBlock (cacheCoins.insert txid ⟨coins, true, entry.fresh⟩)

/-- One round of the loop of `BatchWrite`; `none` is its assertion failing. -/
def batchWriteEntry (cacheCoins : CCoinsMap) (it : Σ _ : Uint256, CCoinsCacheEntry) :
    Option CCoinsMap :=
  if it.2.dirty then
    match cacheCoins.lookup it.1 with
    | none =>
      if it.2.val.isPruned then some cacheCoins
      else if it.2.fresh then some (cacheCoins.insert it.1 ⟨it.2.val, true, true⟩)
      else none
    | some itUs =>
      if itUs.fresh && it.2.val.isPruned then some (cacheCoins.erase it.1)
      else some (cacheCoins.insert it.1 ⟨it.2.val, true, itUs.fresh⟩)
  else some cacheCoins

def batchWrite (view : CCoinsView) (mapCoins : CCoinsMap) (hashBlockIn : Uint256) :
    Option CCoinsView :=
  match view with
  | db disk => some (db (disk.batchWrite mapCoins hashBlockIn))
  | cache base _ cacheCoins =>
    (mapCoins.entries.foldlM batchWriteEntry cacheCoins).map (cache base hashBlockIn)

def flush : CCoinsView → Option CCoinsView
  | db disk => some (db disk)
  | cache base hashBlock cacheCoins =>
    (base.batchWrite cacheCoins hashBlock).map fun base' => cache base' hashBlock ∅

/-- A new layer on top of the stack. -/
def push (view : CCoinsView) : CCoinsView := cache view 0 ∅

/-- Delete the top layer (after a flush); the layer over the database stays. -/
def pop : CCoinsView → CCoinsView
  | cache (cache base hashBlock cacheCoins) _ _ => cache base hashBlock cacheCoins
  | view => view

def depth : CCoinsView → Nat
  | db _ => 0
  | cache base _ _ => base.depth + 1

/-- Flush layer after layer, each into the one below, down to the database. -/
def flushLayers : Nat → CCoinsView → Option CCoinsView
  | n + 1, cache base hashBlock cacheCoins =>
    (base.batchWrite cacheCoins hashBlock).bind (flushLayers n)
  | _, view => some view

def flushAll (view : CCoinsView) : Option CCoinsView := flushLayers view.depth view

end CCoinsView
end Lytix
