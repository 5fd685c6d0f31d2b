import Lytix.Lib.Checks
import Lytix.Lib.LittleEndian
import Lytix.Lib.OrderedTables
import Lytix.Lib.SlotTables
import Lytix.Net.NetAddress
import Lytix.Primitives.Transaction

/-! The address manager. Every known address has an entry, which stands in some places of the new
table or in one place of the tried table. `none` is an assertion that fails, or an entry that is
read and not there. -/
namespace Lytix
open Checks CountEntries OrderedTables SlotTables

/-- `CAddress`. -/
structure CAddress where
  service : CService
  nServices : UInt64
  nTime : UInt32

structure CAddrInfo where
  service : CService
  nServices : UInt64
  nTime : UInt32
  nLastTry : Int := 0
  source : CNetAddr
  nLastSuccess : Int := 0
  nAttempts : Int := 0
  nRefCount : Int := 0
  fInTried : Bool := false
  nRandomPos : Int := -1

def ADDRMAN_TRIED_BUCKET_COUNT : Nat := 256
def ADDRMAN_NEW_BUCKET_COUNT : Nat := 1024
def ADDRMAN_BUCKET_SIZE : Nat := 64
def ADDRMAN_TRIED_BUCKETS_PER_GROUP : Nat := 8
def ADDRMAN_NEW_BUCKETS_PER_SOURCE_GROUP : Nat := 64
def ADDRMAN_NEW_BUCKETS_PER_ADDRESS : Int := 8
def ADDRMAN_HORIZON_DAYS : Int := 30
def ADDRMAN_RETRIES : Int := 3
def ADDRMAN_MAX_FAILURES : Int := 10
def ADDRMAN_MIN_FAIL_DAYS : Int := 7
def ADDRMAN_GETADDR_MAX_PCT : Nat := 23
def ADDRMAN_GETADDR_MAX : Nat := 2500

/-- A short vector in a stream. -/
def vectorBytes (bytes : List UInt8) : List UInt8 := UInt8.ofNat bytes.length :: bytes

def CService.getKey (service : CService) : List UInt8 :=
  service.ip ++ [UInt8.ofNat (service.port.toNat / 0x100), UInt8.ofNat (service.port.toNat % 0x100)]

/-- A number converted to `unsigned int`. -/
def toUnsigned (n : Int) : UInt32 := UInt32.ofNat (n % 2 ^ 32).toNat

namespace CAddrInfo

/-- `CAddrInfo(addr, addrSource)`. -/
def ofAddress (addr : CAddress) (addrSource : CNetAddr) : CAddrInfo where
  service := addr.service
  nServices := addr.nServices
  nTime := addr.nTime
  source := addrSource

/-- The key of `mapAddr`. -/
def address (info : CAddrInfo) : CNetAddr := info.service.toCNetAddr

section
variable (hash : List UInt8 → UInt64) (nKey : Uint256) (info : CAddrInfo)

def getTriedBucket : Nat :=
  let hash1 := hash (LittleEndian.bytes 32 nKey.toNat ++ vectorBytes info.service.getKey)
  let hash2 := hash (LittleEndian.bytes 32 nKey.toNat ++
    vectorBytes (info.address.getGroup) ++
    LittleEndian.bytes 8 (hash1.toNat % ADDRMAN_TRIED_BUCKETS_PER_GROUP))
  hash2.toNat % ADDRMAN_TRIED_BUCKET_COUNT

def getNewBucket (src : CNetAddr) : Nat :=
  let vchSourceGroupKey := src.getGroup
  let hash1 := hash (LittleEndian.bytes 32 nKey.toNat ++
    vectorBytes (info.address.getGroup) ++ vectorBytes vchSourceGroupKey)
  let hash2 := hash (LittleEndian.bytes 32 nKey.toNat ++ vectorBytes vchSourceGroupKey ++
    LittleEndian.bytes 8 (hash1.toNat % ADDRMAN_NEW_BUCKETS_PER_SOURCE_GROUP))
  hash2.toNat % ADDRMAN_NEW_BUCKET_COUNT

def getBucketPosition (fNew : Bool) (nBucket : Nat) : Nat :=
  let hash1 := hash (LittleEndian.bytes 32 nKey.toNat ++ [if fNew then 78 else 75] ++
    LittleEndian.bytes 4 nBucket ++ vectorBytes info.service.getKey)
  hash1.toNat % ADDRMAN_BUCKET_SIZE

/-- The place for the address in a bucket of the new table. -/
def newPlace (nBucket : Nat) : Nat × Nat :=
  (nBucket, info.getBucketPosition hash nKey true nBucket)

/-- The place for the address in the tried table. -/
def triedPlace : Nat × Nat :=
  let nKBucket := info.getTriedBucket hash nKey
  (nKBucket, info.getBucketPosition hash nKey false nKBucket)

end

def isTerrible (info : CAddrInfo) (nNow : Int) : Bool :=
  -- never remove things tried in the last minute
  if info.nLastTry ≠ 0 ∧ nNow - 60 ≤ info.nLastTry then false
  else if nNow + 10 * 60 < info.nTime.toNat then true
  else if info.nTime = 0 ∨ ADDRMAN_HORIZON_DAYS * 24 * 60 * 60 < nNow - info.nTime.toNat then true
  else if info.nLastSuccess = 0 ∧ ADDRMAN_RETRIES ≤ info.nAttempts then true
  else
    decide (ADDRMAN_MIN_FAIL_DAYS * 24 * 60 * 60 < nNow - info.nLastSuccess ∧
      ADDRMAN_MAX_FAILURES ≤ info.nAttempts)

end CAddrInfo

/-- In the tables, `none` is -1. -/
structure CAddrMan where
  nKey : Uint256
  nIdCount : Nat
  mapInfo : Table Nat CAddrInfo
  mapAddr : CNetAddr → Option Nat
  vRandom : List Nat
  nTried : Int
  vvTried : Nat × Nat → Option Nat
  nNew : Int
  vvNew : Nat × Nat → Option Nat

namespace CAddrMan

section operations
variable (hash : List UInt8 → UInt64) (man : CAddrMan)

def find (addr : CNetAddr) : Option (Nat × CAddrInfo) :=
  (man.mapAddr addr).bind fun nId => (man.mapInfo.lookup nId).map fun info => (nId, info)

/-- `mapInfo[nId] = info`. -/
def setInfo (nId : Nat) (info : CAddrInfo) : CAddrMan :=
  { man with mapInfo := man.mapInfo.insert nId info }

/-- `Create`, of an entry with the id `nIdCount`. -/
def create (info : CAddrInfo) : CAddrMan :=
  { man with
    nIdCount := man.nIdCount + 1
    mapInfo := man.mapInfo.insert man.nIdCount { info with nRandomPos := man.vRandom.length }
    mapAddr := Function.update man.mapAddr info.address (some man.nIdCount)
    vRandom := man.vRandom ++ [man.nIdCount] }

/-- The id at a position; `none` beyond the end. -/
def atRandom (nRndPos : Int) : Option Nat :=
  if nRndPos < 0 then none else man.vRandom[nRndPos.toNat]?

def swapRandom (nRndPos1 nRndPos2 : Int) : Option CAddrMan :=
  if nRndPos1 = nRndPos2 then some man
  else do
    let nId1 ← man.atRandom nRndPos1
    let nId2 ← man.atRandom nRndPos2
    let info1 ← man.mapInfo.lookup nId1
    let info2 ← man.mapInfo.lookup nId2
    pure { man with
      mapInfo := (man.mapInfo.insert nId1 { info1 with nRandomPos := nRndPos2 }).insert nId2
        { info2 with nRandomPos := nRndPos1 }
      vRandom := (man.vRandom.set nRndPos1.toNat nId2).set nRndPos2.toNat nId1 }

def delete (nId : Nat) : Option CAddrMan := do
  let info ← man.mapInfo.lookup nId
  if info.fInTried = true ∨ info.nRefCount ≠ 0 then none
  else do
    let swapped ← man.swapRandom info.nRandomPos (man.vRandom.length - 1)
    pure { swapped with
      vRandom := swapped.vRandom.dropLast
      mapAddr := Function.update swapped.mapAddr info.address none
      mapInfo := swapped.mapInfo.erase nId
      nNew := swapped.nNew - 1 }

/-- Take the entry in a place of the new table out of it, and delete it if it was its last place. -/
def clearNew (place : Nat × Nat) : Option CAddrMan :=
  match man.vvNew place with
  | none => some man
  | some nIdDelete => do
    let infoDelete ← man.mapInfo.lookup nIdDelete
    if infoDelete.nRefCount ≤ 0 then none
    else
      let cleared :=
        { man with
          mapInfo := man.mapInfo.insert nIdDelete
            { infoDelete with nRefCount := infoDelete.nRefCount - 1 }
          vvNew := Function.update man.vvNew place none }
      if infoDelete.nRefCount - 1 = 0 then cleared.delete nIdDelete else some cleared

/-- Remove an entry from a bucket of the new table. -/
def removeFromBucket (nId : Nat) (man : CAddrMan) (bucket : Nat) : Option CAddrMan := do
  let info ← man.mapInfo.lookup nId
  let place := info.newPlace hash man.nKey bucket
  if man.vvNew place = some nId then
    pure { man with
      mapInfo := man.mapInfo.insert nId { info with nRefCount := info.nRefCount - 1 }
      vvNew := Function.update man.vvNew place none }
  else pure man

/-- Move the entry in a place of the tried table to the new table. -/
def evict (place : Nat × Nat) : Option CAddrMan :=
  match man.vvTried place with
  | none => some man
  | some nIdEvict => do
    let infoOld ← man.mapInfo.lookup nIdEvict
    let removed :=
      { man with
        mapInfo := man.mapInfo.insert nIdEvict { infoOld with fInTried := false }
        vvTried := Function.update man.vvTried place none
        nTried := man.nTried - 1 }
    let nUBucket := infoOld.getNewBucket hash man.nKey infoOld.source
    let newPlace := infoOld.newPlace hash man.nKey nUBucket
    let cleared ← removed.clearNew newPlace
    if cleared.vvNew newPlace ≠ none then none
    else do
      -- its position in `vRandom` may have changed
      let info ← cleared.mapInfo.lookup nIdEvict
      pure { cleared with
        mapInfo := cleared.mapInfo.insert nIdEvict { info with nRefCount := 1 }
        vvNew := Function.update cleared.vvNew newPlace (some nIdEvict)
        nNew := cleared.nNew + 1 }

def makeTried (nId : Nat) : Option CAddrMan := do
  let removed ← (List.range ADDRMAN_NEW_BUCKET_COUNT).foldlM (removeFromBucket hash nId) man
  let info ← removed.mapInfo.lookup nId
  if info.nRefCount ≠ 0 then none
  else do
    let place := info.triedPlace hash man.nKey
    let evicted ← evict hash { removed with nNew := removed.nNew - 1 } place
    if evicted.vvTried place ≠ none then none
    else do
      let info ← evicted.mapInfo.lookup nId
      pure { evicted with
        mapInfo := evicted.mapInfo.insert nId { info with fInTried := true }
        vvTried := Function.update evicted.vvTried place (some nId)
        nTried := evicted.nTried + 1 }

/-- `Good_`, where `GetRandInt` gives `nRnd`. -/
def good (addr : CService) (nTime : Int) (nRnd : Nat) : Option CAddrMan :=
  match man.find addr.toCNetAddr with
  | none => some man
  | some (nId, info) =>
    if info.service ≠ addr then some man
    else
      let updated := man.setInfo nId
        { info with
          nLastSuccess := nTime
          nLastTry := nTime
          nAttempts := 0 }
      if info.fInTried then some updated
      else if (List.range ADDRMAN_NEW_BUCKET_COUNT).any fun n =>
          let nB := (n + nRnd) % ADDRMAN_NEW_BUCKET_COUNT
          updated.vvNew (info.newPlace hash man.nKey nB) = some nId
      then updated.makeTried hash nId
      -- something bad happened
      else some updated

/-- Whether an entry may enter a place of the new table, in `Add_`. -/
def fInsert (info : CAddrInfo) (place : Nat × Nat) (nNow : Int) : Option Bool :=
  match man.vvNew place with
  | none => some true
  | some nIdExisting => (man.mapInfo.lookup nIdExisting).map fun infoExisting =>
    infoExisting.isTerrible nNow || decide (1 < infoExisting.nRefCount ∧ info.nRefCount = 0)

/-- Enter an entry into the place of the new table that its source gives it. -/
def enterNew (nId : Nat) (source : CNetAddr) (nNow : Int) : Option CAddrMan := do
  let info ← man.mapInfo.lookup nId
  let place := info.newPlace hash man.nKey (info.getNewBucket hash man.nKey source)
  if man.vvNew place = some nId then pure man
  else do
    let fInsert ← man.fInsert info place nNow
    if fInsert then do
      let cleared ← man.clearNew place
      let info ← cleared.mapInfo.lookup nId
      pure { cleared with
        mapInfo := cleared.mapInfo.insert nId { info with nRefCount := info.nRefCount + 1 }
        vvNew := Function.update cleared.vvNew place (some nId) }
    else if info.nRefCount = 0 then man.delete nId
    else pure man

/-- `Add_` of an address with an entry: whether the entry may enter another place, and the entry. -/
def refreshed (info : CAddrInfo) (addr : CAddress) (nTimePenalty nNow : Int) (nRand : Nat → Nat) :
    Bool × CAddrInfo :=
  let fCurrentlyOnline := nNow - addr.nTime.toNat < 24 * 60 * 60
  let nUpdateInterval : Int := if fCurrentlyOnline then 60 * 60 else 24 * 60 * 60
  let nTime :=
    if addr.nTime ≠ 0 ∧ (info.nTime = 0 ∨
        (info.nTime.toNat : Int) < addr.nTime.toNat - nUpdateInterval - nTimePenalty) then
      toUnsigned (max 0 (addr.nTime.toNat - nTimePenalty))
    else info.nTime
  let nFactor := 2 ^ info.nRefCount.toNat
  (decide ¬ (addr.nTime = 0 ∨ nTime ≠ 0 ∧ addr.nTime ≤ nTime) && !info.fInTried &&
      decide (info.nRefCount ≠ ADDRMAN_NEW_BUCKETS_PER_ADDRESS) &&
      decide ¬ (1 < nFactor ∧ nRand nFactor ≠ 0),
    { info with
      nTime := nTime
      nServices := info.nServices ||| addr.nServices })

/-- `Add_`, where `GetRandInt(nFactor)` gives `nRand nFactor`. -/
def add (addr : CAddress) (source : CNetAddr) (nTimePenalty nNow : Int) (nRand : Nat → Nat) :
    Option (Bool × CAddrMan) :=
  if !addr.service.isRoutable then some (false, man)
  else
    match man.find addr.service.toCNetAddr with
    | some (nId, info) =>
      let next := refreshed info addr nTimePenalty nNow nRand
      let updated := man.setInfo nId next.2
      if next.1 then (updated.enterNew hash nId source nNow).map fun man => (false, man)
      else some (false, updated)
    | none =>
      let info := CAddrInfo.ofAddress addr source
      let created := man.create
        { info with nTime := toUnsigned (max 0 (info.nTime.toNat - nTimePenalty)) }
      (enterNew hash { created with nNew := created.nNew + 1 } man.nIdCount source nNow).map
        fun man => (true, man)

/-- Change the entry of exactly this address and port. -/
def changeInfo (addr : CService) (change : CAddrInfo → CAddrInfo) : CAddrMan :=
  match man.find addr.toCNetAddr with
  | none => man
  | some (nId, info) => if info.service ≠ addr then man else man.setInfo nId (change info)

def attempt (addr : CService) (nTime : Int) : CAddrMan :=
  man.changeInfo addr fun info =>
    { info with
      nLastTry := nTime
      nAttempts := info.nAttempts + 1 }

def connected (addr : CService) (nTime : Int) : CAddrMan :=
  man.changeInfo addr fun info =>
    if 20 * 60 < nTime - info.nTime.toNat then { info with nTime := toUnsigned nTime } else info

/-- One round of the loop of `GetAddr_`, with the addresses gathered so far. -/
def gatherOne (nNodes : Nat) (nNow : Int) (nRand : Nat → Nat)
    (gathered : CAddrMan × List CAddrInfo) (n : Nat) : Option (CAddrMan × List CAddrInfo) :=
  if nNodes ≤ gathered.2.length then some gathered
  else do
    let nRndPos := nRand (gathered.1.vRandom.length - n) + n
    let swapped ← gathered.1.swapRandom n nRndPos
    let nId ← swapped.atRandom n
    let ai ← swapped.mapInfo.lookup nId
    pure (swapped, if ai.isTerrible nNow then gathered.2 else gathered.2 ++ [ai])

/-- `GetAddr_`, where `GetRandInt(nMax)` gives `nRand nMax`. -/
def getAddr (nNow : Int) (nRand : Nat → Nat) : Option (CAddrMan × List CAddrInfo) :=
  let nNodes := min ADDRMAN_GETADDR_MAX (ADDRMAN_GETADDR_MAX_PCT * man.vRandom.length / 100)
  (List.range man.vRandom.length).foldlM (gatherOne nNodes nNow nRand) (man, [])

/-- An entry in `Check_`, with the ids of the tried entries before it and the reference counts of
the new ones. -/
def checkInfo (seen : Finset Nat × Table Nat Int) (entry : Nat × CAddrInfo) :
    Except Int (Finset Nat × Table Nat Int) := do
  let n := entry.1
  let info := entry.2
  let seen ←
    if info.fInTried then do
      stopIf (info.nLastSuccess = 0) (-1)
      stopIf (info.nRefCount ≠ 0) (-2)
      pure (insert n seen.1, seen.2)
    else do
      stopIf (info.nRefCount < 0 ∨ ADDRMAN_NEW_BUCKETS_PER_ADDRESS < info.nRefCount) (-3)
      stopIf (info.nRefCount = 0) (-4)
      pure (seen.1, seen.2.insert n info.nRefCount)
  stopIf ((man.mapAddr info.address).getD 0 ≠ n) (-5)
  stopIf (man.atRandom info.nRandomPos ≠ some n) (-14)
  stopIf (info.nLastTry < 0) (-6)
  stopIf (info.nLastSuccess < 0) (-8)
  pure seen

/-- A place of the tried table in `Check_`. -/
def checkTried (setTried : Finset Nat) (place : Nat × Nat) : Except Int (Finset Nat) :=
  match man.vvTried place with
  | none => pure setTried
  | some nId => do
    stopIf (nId ∉ setTried) (-11)
    let info ← orStop (-11) (man.mapInfo.lookup nId)
    stopIf (info.getTriedBucket hash man.nKey ≠ place.1) (-17)
    stopIf (info.getBucketPosition hash man.nKey false place.1 ≠ place.2) (-18)
    pure (setTried.erase nId)

/-- A place of the new table in `Check_`. -/
def checkNew (mapNew : Table Nat Int) (place : Nat × Nat) : Except Int (Table Nat Int) :=
  match man.vvNew place with
  | none => pure mapNew
  | some nId => do
    let nRefCount ← orStop (-12) (mapNew.lookup nId)
    let info ← orStop (-12) (man.mapInfo.lookup nId)
    stopIf (info.getBucketPosition hash man.nKey true place.1 ≠ place.2) (-19)
    pure (if nRefCount - 1 = 0 then mapNew.erase nId else mapNew.insert nId (nRefCount - 1))

def triedPlaces : List (Nat × Nat) := places ADDRMAN_TRIED_BUCKET_COUNT ADDRMAN_BUCKET_SIZE

def newPlaces : List (Nat × Nat) := places ADDRMAN_NEW_BUCKET_COUNT ADDRMAN_BUCKET_SIZE

def checks : Except Int Unit := do
  stopIf (man.vRandom.length ≠ man.nTried + man.nNew) (-7)
  let seen ← (inOrder id man.mapInfo).foldlM man.checkInfo (∅, ∅)
  stopIf (seen.1.card ≠ man.nTried) (-9)
  stopIf (size seen.2 ≠ man.nNew) (-10)
  let setTried ← triedPlaces.foldlM (man.checkTried hash) seen.1
  let mapNew ← newPlaces.foldlM (man.checkNew hash) seen.2
  stopIf (setTried.card ≠ 0) (-13)
  stopIf (size mapNew ≠ 0) (-15)
  stopIf (man.nKey = 0) (-16)

/-- `Check_`: zero, or the first failed check. -/
def check_ : Int :=
  match man.checks hash with
  | .ok _ => 0
  | .error err => err

/-- `Clear`, which draws a new key. It leaves `mapInfo` and `mapAddr` as they are. -/
def clear (nKey : Uint256) : CAddrMan :=
  { man with
    vRandom := []
    nKey := nKey
    vvNew := fun _ => none
    vvTried := fun _ => none
    nIdCount := 0
    nTried := 0
    nNew := 0 }

/-- `CAddrMan()`. -/
def new (nKey : Uint256) : CAddrMan :=
  clear ⟨0, 0, ∅, fun _ => none, [], 0, fun _ => none, 0, fun _ => none⟩ nKey

end operations
end CAddrMan
end Lytix
