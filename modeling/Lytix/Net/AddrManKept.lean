import Lytix.Lib.SwapIndex
import Lytix.Net.AddrMan

/-! What an address manager keeps: each entry stands in exactly those places that the tables say,
the indexes lead back to it, and the counters count it. What one change of an entry does to this. -/
namespace Lytix
open CountEntries SlotTables SwapIndex

namespace CAddrInfo

/-- The entry, whatever its position in `vRandom`. -/
def unplaced (info : CAddrInfo) : CAddrInfo := { info with nRandomPos := 0 }

section
variable {hash : List UInt8 → UInt64} {nKey : Uint256} {info info' : CAddrInfo}

theorem newPlace_congr (h : info'.service = info.service) :
    info'.newPlace hash nKey = info.newPlace hash nKey := by
  unfold newPlace getBucketPosition
  rw [h]

theorem triedPlace_congr (h : info'.service = info.service) :
    info'.triedPlace hash nKey = info.triedPlace hash nKey := by
  unfold triedPlace getTriedBucket getBucketPosition address
  rw [h]

theorem address_congr (h : info'.service = info.service) : info'.address = info.address := by
  unfold address
  rw [h]

theorem getBucketPosition_lt {fNew : Bool} {nBucket : ℕ} :
    info.getBucketPosition hash nKey fNew nBucket < ADDRMAN_BUCKET_SIZE :=
  Nat.mod_lt _ (by decide)

theorem getNewBucket_lt {source : CNetAddr} :
    info.getNewBucket hash nKey source < ADDRMAN_NEW_BUCKET_COUNT :=
  Nat.mod_lt _ (by decide)

theorem getTriedBucket_lt : info.getTriedBucket hash nKey < ADDRMAN_TRIED_BUCKET_COUNT :=
  Nat.mod_lt _ (by decide)

theorem newPlace_mem {nBucket : ℕ} (h : nBucket < ADDRMAN_NEW_BUCKET_COUNT) :
    info.newPlace hash nKey nBucket ∈ CAddrMan.newPlaces :=
  mem_places.mpr ⟨h, getBucketPosition_lt⟩

theorem triedPlace_mem : info.triedPlace hash nKey ∈ CAddrMan.triedPlaces :=
  mem_places.mpr ⟨getTriedBucket_lt, getBucketPosition_lt⟩

theorem congr_unplaced {α : Type*} (f : CAddrInfo → α) (h : info'.unplaced = info.unplaced)
    (hf : ∀ info : CAddrInfo, f info.unplaced = f info := by exact fun _ => rfl) :
    f info' = f info := by
  rw [← hf info', h, hf info]

end
end CAddrInfo

namespace CAddrMan
open CAddrInfo

def triedCount (man : CAddrMan) : ℕ := count (fun _ info => info.fInTried) man.mapInfo

def newCount (man : CAddrMan) : ℕ := count (fun _ info => !info.fInTried) man.mapInfo

/-- The position in `vRandom` that an entry has. -/
def position (man : CAddrMan) (nId : ℕ) : Option ℤ :=
  (man.mapInfo.lookup nId).map CAddrInfo.nRandomPos

section
variable (hash : List UInt8 → UInt64)

/-- The entry says in which places it stands. -/
structure Stands (man : CAddrMan) (nId : ℕ) (info : CAddrInfo) : Prop where
  tried : info.fInTried = true → info.nRefCount = 0 ∧ 0 < info.nLastSuccess ∧
    man.vvTried (info.triedPlace hash man.nKey) = some nId
  new : info.fInTried = false → info.nRefCount = heldIn man.vvNew newPlaces (some nId) ∧
    info.nRefCount ≤ ADDRMAN_NEW_BUCKETS_PER_ADDRESS
  lastTry : 0 ≤ info.nLastTry
  lastSuccess : 0 ≤ info.nLastSuccess

/-- What holds between any two steps of an operation: new entries that are `loose` may stand in no
place, and there are so many new and tried entries more than the counters say. -/
structure Kept (loose : Set ℕ) (newAhead triedAhead : ℤ) (man : CAddrMan) : Prop where
  stands : ∀ nId info, man.mapInfo.lookup nId = some info → Stands hash man nId info
  tried : ∀ place nId, man.vvTried place = some nId → ∃ info,
    man.mapInfo.lookup nId = some info ∧ info.fInTried = true ∧
      place = info.triedPlace hash man.nKey
  new : ∀ place nId, man.vvNew place = some nId → place.1 < ADDRMAN_NEW_BUCKET_COUNT ∧
    ∃ info, man.mapInfo.lookup nId = some info ∧ info.fInTried = false ∧
      place = info.newPlace hash man.nKey place.1
  referred : ∀ nId info, man.mapInfo.lookup nId = some info → info.fInTried = false →
    nId ∉ loose → 0 < info.nRefCount
  old : ∀ nId info, man.mapInfo.lookup nId = some info → nId < man.nIdCount
  address : ∀ addr nId, man.mapAddr addr = some nId ↔
    ∃ info, man.mapInfo.lookup nId = some info ∧ info.address = addr
  positions : Inverse man.vRandom man.position
  key : man.nKey ≠ 0
  newCount : man.nNew + newAhead = man.newCount
  triedCount : man.nTried + triedAhead = man.triedCount

end

/-- The same manager with its entries in another order. -/
structure Reordered (man man' : CAddrMan) : Prop where
  nKey : man'.nKey = man.nKey
  nIdCount : man'.nIdCount = man.nIdCount
  mapAddr : man'.mapAddr = man.mapAddr
  nTried : man'.nTried = man.nTried
  vvTried : man'.vvTried = man.vvTried
  nNew : man'.nNew = man.nNew
  vvNew : man'.vvNew = man.vvNew
  entries : ∀ nId, (man'.mapInfo.lookup nId).map unplaced =
    (man.mapInfo.lookup nId).map unplaced
  triedCount : man'.triedCount = man.triedCount
  newCount : man'.newCount = man.newCount

section
variable {hash : List UInt8 → UInt64} {man man' : CAddrMan} {nId nId' : ℕ}
  {info info' : CAddrInfo} {loose loose' : Set ℕ} {place : ℕ × ℕ}
  {newAhead newAhead' triedAhead triedAhead' : ℤ}

theorem exists_info_of_map_eq
    (h : (man'.mapInfo.lookup nId).map unplaced =
      (man.mapInfo.lookup nId).map unplaced)
    (hinfo : man'.mapInfo.lookup nId = some info') :
    ∃ info, man.mapInfo.lookup nId = some info ∧ info'.unplaced = info.unplaced := by
  rw [hinfo, Option.map_some] at h
  obtain ⟨info, hlookup, heq⟩ := Option.map_eq_some_iff.mp h.symm
  exact ⟨info, hlookup, heq.symm⟩

theorem Reordered.refl (man : CAddrMan) : Reordered man man :=
  ⟨rfl, rfl, rfl, rfl, rfl, rfl, rfl, fun _ => rfl, rfl, rfl⟩

theorem Stands.reorder (h : Stands hash man nId info) (hinfo : info'.unplaced = info.unplaced)
    (hkey : man'.nKey = man.nKey) (htried : man'.vvTried = man.vvTried)
    (hnew : man'.vvNew = man.vvNew) : Stands hash man' nId info' := by
  have hservice := congr_unplaced CAddrInfo.service hinfo
  have hin := congr_unplaced CAddrInfo.fInTried hinfo
  have hcount := congr_unplaced CAddrInfo.nRefCount hinfo
  have htry := congr_unplaced CAddrInfo.nLastTry hinfo
  have hsuccess := congr_unplaced CAddrInfo.nLastSuccess hinfo
  constructor
  · rw [hin, hcount, hsuccess, hkey, htried, triedPlace_congr hservice]
    exact h.tried
  · rw [hin, hcount, hnew]
    exact h.new
  · rw [htry]
    exact h.lastTry
  · rw [hsuccess]
    exact h.lastSuccess

theorem Kept.reorder (h : Kept hash loose newAhead triedAhead man) (same : Reordered man man')
    (hpositions : Inverse man'.vRandom man'.position) :
    Kept hash loose newAhead triedAhead man' where
  stands := by
    intro nId info' hinfo'
    obtain ⟨info, hinfo, heq⟩ := exists_info_of_map_eq (same.entries nId) hinfo'
    exact (h.stands nId info hinfo).reorder heq same.nKey same.vvTried same.vvNew
  tried := by
    intro place nId hplace
    rw [same.vvTried] at hplace
    obtain ⟨info, hinfo, hin, heq⟩ := h.tried place nId hplace
    obtain ⟨info', hinfo', hsame⟩ := exists_info_of_map_eq (same.entries nId).symm hinfo
    have hservice := (congr_unplaced CAddrInfo.service hsame).symm
    have hin' := (congr_unplaced CAddrInfo.fInTried hsame).symm
    rw [same.nKey]
    refine ⟨info', hinfo', hin'.trans hin, ?_⟩
    rw [heq, triedPlace_congr hservice]
  new := by
    intro place nId hplace
    rw [same.vvNew] at hplace
    obtain ⟨hbucket, info, hinfo, hin, heq⟩ := h.new place nId hplace
    obtain ⟨info', hinfo', hsame⟩ := exists_info_of_map_eq (same.entries nId).symm hinfo
    have hservice := (congr_unplaced CAddrInfo.service hsame).symm
    have hin' := (congr_unplaced CAddrInfo.fInTried hsame).symm
    rw [same.nKey]
    refine ⟨hbucket, info', hinfo', hin'.trans hin, ?_⟩
    rw [newPlace_congr hservice, ← heq]
  referred := by
    intro nId info' hinfo' hin hloose
    obtain ⟨info, hinfo, heq⟩ := exists_info_of_map_eq (same.entries nId) hinfo'
    have hin' := congr_unplaced CAddrInfo.fInTried heq
    have hcount := congr_unplaced CAddrInfo.nRefCount heq
    rw [hcount]
    exact h.referred nId info hinfo (hin'.symm.trans hin) hloose
  old := by
    intro nId info' hinfo'
    obtain ⟨info, hinfo, -⟩ := exists_info_of_map_eq (same.entries nId) hinfo'
    rw [same.nIdCount]
    exact h.old nId info hinfo
  address := by
    intro addr nId
    rw [same.mapAddr, h.address addr nId]
    constructor
    · rintro ⟨info, hinfo, heq⟩
      obtain ⟨info', hinfo', hsame⟩ := exists_info_of_map_eq (same.entries nId).symm hinfo
      have hservice := (congr_unplaced CAddrInfo.service hsame).symm
      exact ⟨info', hinfo', (address_congr hservice).trans heq⟩
    · rintro ⟨info', hinfo', heq⟩
      obtain ⟨info, hinfo, hsame⟩ := exists_info_of_map_eq (same.entries nId) hinfo'
      have hservice := congr_unplaced CAddrInfo.service hsame
      exact ⟨info, hinfo, (address_congr hservice).symm.trans heq⟩
  positions := hpositions
  key := by
    rw [same.nKey]
    exact h.key
  newCount := by
    rw [same.nNew, same.newCount]
    exact h.newCount
  triedCount := by
    rw [same.nTried, same.triedCount]
    exact h.triedCount

/-- One entry and the places that it stands in are changed. -/
theorem Kept.change (h : Kept hash loose newAhead triedAhead man)
    (hinfo : man.mapInfo.lookup nId = some info)
    (hmap : man'.mapInfo = man.mapInfo.insert nId info')
    (hkey : man'.nKey = man.nKey) (hidCount : man'.nIdCount = man.nIdCount)
    (haddr : man'.mapAddr = man.mapAddr) (hrandom : man'.vRandom = man.vRandom)
    (hservice : info'.service = info.service) (hpos : info'.nRandomPos = info.nRandomPos)
    (htried : ∀ place nId', nId' ≠ nId →
      (man'.vvTried place = some nId' ↔ man.vvTried place = some nId'))
    (hnew : ∀ place nId', nId' ≠ nId →
      (man'.vvNew place = some nId' ↔ man.vvNew place = some nId'))
    (hstands : Stands hash man' nId info')
    (hinTried : ∀ place, man'.vvTried place = some nId → info'.fInTried = true ∧
      place = info.triedPlace hash man.nKey)
    (hinNew : ∀ place, man'.vvNew place = some nId → place.1 < ADDRMAN_NEW_BUCKET_COUNT ∧
      info'.fInTried = false ∧ place = info.newPlace hash man.nKey place.1)
    (hloose : ∀ nId', nId' ≠ nId → nId' ∈ loose → nId' ∈ loose')
    (hreferred : info'.fInTried = false → nId ∉ loose' → 0 < info'.nRefCount)
    (hnewCount : man'.nNew + newAhead' + (if info.fInTried then 0 else 1) =
      man.nNew + newAhead + if info'.fInTried then 0 else 1)
    (htriedCount : man'.nTried + triedAhead' + (if info.fInTried then 1 else 0) =
      man.nTried + triedAhead + if info'.fInTried then 1 else 0) :
    Kept hash loose' newAhead' triedAhead' man' where
  stands := by
    intro nId' info'' hinfo'
    rw [hmap, lookup_insert_eq] at hinfo'
    by_cases hsame : nId' = nId
    · rw [if_pos hsame, Option.some_inj] at hinfo'
      rw [hsame, ← hinfo']
      exact hstands
    · rw [if_neg hsame] at hinfo'
      have hold := h.stands nId' info'' hinfo'
      constructor
      · rw [hkey, htried _ _ hsame]
        exact hold.tried
      · have hheld : heldIn man'.vvNew newPlaces (some nId') =
            heldIn man.vvNew newPlaces (some nId') := by
          apply List.countP_congr
          intro place _
          simpa using hnew place nId' hsame
        rw [hheld]
        exact hold.new
      · exact hold.lastTry
      · exact hold.lastSuccess
  tried := by
    intro place nId' hplace
    rw [hmap, hkey]
    by_cases hsame : nId' = nId
    · subst hsame
      obtain ⟨hin, heq⟩ := hinTried place hplace
      refine ⟨info', AList.lookup_insert _, hin, ?_⟩
      rw [triedPlace_congr hservice, heq]
    · rw [htried place nId' hsame] at hplace
      obtain ⟨info'', hinfo', hrest⟩ := h.tried place nId' hplace
      exact ⟨info'', by rw [AList.lookup_insert_ne hsame, hinfo'], hrest⟩
  new := by
    intro place nId' hplace
    rw [hmap, hkey]
    by_cases hsame : nId' = nId
    · subst hsame
      obtain ⟨hbucket, hin, heq⟩ := hinNew place hplace
      refine ⟨hbucket, info', AList.lookup_insert _, hin, ?_⟩
      rw [newPlace_congr hservice, ← heq]
    · rw [hnew place nId' hsame] at hplace
      obtain ⟨hbucket, info'', hinfo', hrest⟩ := h.new place nId' hplace
      exact ⟨hbucket, info'', by rw [AList.lookup_insert_ne hsame, hinfo'], hrest⟩
  referred := by
    intro nId' info'' hinfo' hin hnot
    rw [hmap, lookup_insert_eq] at hinfo'
    by_cases hsame : nId' = nId
    · rw [if_pos hsame, Option.some_inj] at hinfo'
      rw [← hinfo'] at hin ⊢
      exact hreferred hin (hsame ▸ hnot)
    · rw [if_neg hsame] at hinfo'
      exact h.referred nId' info'' hinfo' hin fun hmem => hnot (hloose nId' hsame hmem)
  old := by
    intro nId' info'' hinfo'
    rw [hmap, lookup_insert_eq] at hinfo'
    rw [hidCount]
    by_cases hsame : nId' = nId
    · rw [hsame]
      exact h.old nId info hinfo
    · rw [if_neg hsame] at hinfo'
      exact h.old nId' info'' hinfo'
  address := by
    intro addr nId'
    rw [haddr, h.address addr nId', hmap, lookup_insert_eq]
    by_cases hsame : nId' = nId
    · rw [if_pos hsame, hsame, hinfo]
      simp [address_congr hservice]
    · rw [if_neg hsame]
  positions := by
    rw [hrandom]
    apply h.positions.congr
    intro nId'
    unfold position
    rw [hmap, lookup_insert_eq]
    by_cases hsame : nId' = nId
    · rw [if_pos hsame, hsame, hinfo, Option.map_some, Option.map_some, hpos]
    · rw [if_neg hsame]
  key := by
    rw [hkey]
    exact h.key
  newCount := by
    have hcount := h.newCount
    unfold CAddrMan.newCount at hcount ⊢
    have hold := @count_eq_add_erase _ _ _ (fun _ info => !info.fInTried) _ _ _ hinfo
    rw [hmap, count_insert]
    rw [hold] at hcount
    push_cast at hcount ⊢
    cases hin : info.fInTried <;> cases hin' : info'.fInTried <;>
      simp only [hin, hin', Bool.not_true, Bool.not_false, if_true, Bool.false_eq_true, if_false]
        at hcount hnewCount ⊢ <;> omega
  triedCount := by
    have hcount := h.triedCount
    unfold CAddrMan.triedCount at hcount ⊢
    have hold := @count_eq_add_erase _ _ _ (fun _ info => info.fInTried) _ _ _ hinfo
    rw [hmap, count_insert]
    rw [hold] at hcount
    push_cast at hcount ⊢
    cases hin : info.fInTried <;> cases hin' : info'.fInTried <;>
      simp only [hin, hin', if_true, Bool.false_eq_true, if_false] at hcount htriedCount ⊢ <;>
      omega

/-- A new entry without references stands in no place of the new table. -/
theorem Kept.vvNew_ne (h : Kept hash loose newAhead triedAhead man)
    (hinfo : man.mapInfo.lookup nId = some info) (hcount : info.nRefCount = 0)
    (place : ℕ × ℕ) : man.vvNew place ≠ some nId := by
  intro hplace
  obtain ⟨hbucket, info', hinfo', hin, heq⟩ := h.new place nId hplace
  obtain rfl := Option.some.inj (hinfo.symm.trans hinfo')
  have hheld := ((h.stands nId info hinfo).new hin).1
  have hnone : heldIn man.vvNew newPlaces (some nId) = 0 := by omega
  refine heldIn_eq_zero.mp hnone place ?_ hplace
  rw [heq]
  exact newPlace_mem hbucket

/-- A tried entry stands in no other place of the tried table. -/
theorem Kept.eq_triedPlace (h : Kept hash loose newAhead triedAhead man)
    (hinfo : man.mapInfo.lookup nId = some info) (hplace : man.vvTried place = some nId) :
    info.fInTried = true ∧ place = info.triedPlace hash man.nKey := by
  obtain ⟨info', hinfo', hrest⟩ := h.tried place nId hplace
  obtain rfl := Option.some.inj (hinfo.symm.trans hinfo')
  exact hrest

theorem Kept.eq_newPlace (h : Kept hash loose newAhead triedAhead man)
    (hinfo : man.mapInfo.lookup nId = some info) (hplace : man.vvNew place = some nId) :
    place.1 < ADDRMAN_NEW_BUCKET_COUNT ∧ info.fInTried = false ∧
      place = info.newPlace hash man.nKey place.1 := by
  obtain ⟨hbucket, info', hinfo', hrest⟩ := h.new place nId hplace
  obtain rfl := Option.some.inj (hinfo.symm.trans hinfo')
  exact ⟨hbucket, hrest⟩

/-- Other counters. -/
theorem Kept.recount (h : Kept hash loose newAhead triedAhead man) (nNew nTried : ℤ) :
    Kept hash loose (man.nNew + newAhead - nNew) (man.nTried + triedAhead - nTried)
      { man with
        nNew := nNew
        nTried := nTried } where
  stands := fun nId info hinfo =>
    let hstands := h.stands nId info hinfo
    ⟨hstands.tried, hstands.new, hstands.lastTry, hstands.lastSuccess⟩
  tried := h.tried
  new := h.new
  referred := h.referred
  old := h.old
  address := h.address
  positions := h.positions
  key := h.key
  newCount := by
    have hcount : man.nNew + newAhead = man.newCount := h.newCount
    change nNew + (man.nNew + newAhead - nNew) = man.newCount
    omega
  triedCount := by
    have hcount : man.nTried + triedAhead = man.triedCount := h.triedCount
    change nTried + (man.nTried + triedAhead - nTried) = man.triedCount
    omega

theorem Kept.mono (h : Kept hash loose newAhead triedAhead man) (hsub : loose ⊆ loose') :
    Kept hash loose' newAhead triedAhead man :=
  { h with
    referred := fun nId info hinfo hin hnot =>
      h.referred nId info hinfo hin fun hmem => hnot (hsub hmem) }

theorem nodup_newPlaces : newPlaces.Nodup := nodup_places

theorem update_eq_some_iff {table : ℕ × ℕ → Option ℕ} {v : Option ℕ}
    (hold : table place ≠ some nId) (hnew : v ≠ some nId) (place' : ℕ × ℕ) :
    Function.update table place v place' = some nId ↔ table place' = some nId := by
  by_cases hsame : place' = place
  · rw [hsame, Function.update_self]
    exact iff_of_false hnew hold
  · rw [Function.update_of_ne hsame]

/-- Services and times of an entry are changed. -/
theorem Kept.setInfo (h : Kept hash loose newAhead triedAhead man)
    (hinfo : man.mapInfo.lookup nId = some info) (info' : CAddrInfo)
    (hservice : info'.service = info.service) (hpos : info'.nRandomPos = info.nRandomPos)
    (hcount : info'.nRefCount = info.nRefCount) (hin : info'.fInTried = info.fInTried) (htry : 0 ≤ info'.nLastTry)
    (hsuccess : 0 ≤ info'.nLastSuccess)
    (htried : info.fInTried = true → 0 < info'.nLastSuccess) :
    Kept hash loose newAhead triedAhead (man.setInfo nId info') := by
  have hold := h.stands nId info hinfo
  refine h.change hinfo rfl rfl rfl rfl rfl hservice hpos ?_ ?_ ?_ ?_ ?_ ?_ ?_ ?_ ?_
  · exact fun _ _ _ => Iff.rfl
  · exact fun _ _ _ => Iff.rfl
  · constructor
    · intro hin'
      rw [hin] at hin'
      rw [hcount, triedPlace_congr hservice]
      exact ⟨(hold.tried hin').1, htried hin', (hold.tried hin').2.2⟩
    · rw [hin, hcount]
      exact hold.new
    · exact htry
    · exact hsuccess
  · intro place hplace
    rw [hin]
    exact h.eq_triedPlace hinfo hplace
  · intro place hplace
    rw [hin]
    exact h.eq_newPlace hinfo hplace
  · exact fun _ _ hmem => hmem
  · rw [hin, hcount]
    exact h.referred nId info hinfo
  · rw [hin]
    rfl
  · rw [hin]
    rfl

/-- A new entry enters a free place of the new table. -/
theorem Kept.enter (h : Kept hash loose newAhead triedAhead man)
    (hinfo : man.mapInfo.lookup nId = some info) (hin : info.fInTried = false) {nBucket : ℕ}
    (hbucket : nBucket < ADDRMAN_NEW_BUCKET_COUNT)
    (hplace : place = info.newPlace hash man.nKey nBucket) (hfree : man.vvNew place = none)
    (hmax : info.nRefCount < ADDRMAN_NEW_BUCKETS_PER_ADDRESS) :
    Kept hash (loose \ {nId}) newAhead triedAhead
      { man with
        mapInfo := man.mapInfo.insert nId { info with nRefCount := info.nRefCount + 1 }
        vvNew := Function.update man.vvNew place (some nId) } := by
  have hold := h.stands nId info hinfo
  have hcount := (hold.new hin).1
  refine h.change hinfo rfl rfl rfl rfl rfl rfl rfl ?_ ?_ ?_ ?_ ?_ ?_ ?_ ?_ ?_
  · exact fun _ _ _ => Iff.rfl
  · intro place' nId' hne
    apply update_eq_some_iff
    · rw [hfree]
      exact (Option.some_ne_none nId').symm
    · simpa using Ne.symm hne
  · constructor
    · intro hin'
      simp [hin] at hin'
    · intro _
      have hmem : place ∈ newPlaces := hplace ▸ newPlace_mem hbucket
      have hne : man.vvNew place ≠ some nId := by simp [hfree]
      have hheld := heldIn_enter nodup_newPlaces hmem hne
      have hcount' : info.nRefCount + 1 =
          heldIn (Function.update man.vvNew place (some nId)) newPlaces (some nId) := by
        rw [hheld, hcount, Nat.cast_add, Nat.cast_one]
      exact ⟨hcount', hmax⟩
    · exact hold.lastTry
    · exact hold.lastSuccess
  · intro place' hplace'
    have hold' := h.eq_triedPlace hinfo hplace'
    exact hold'
  · intro place' hplace'
    by_cases hsame : place' = place
    · rw [hsame, hplace]
      exact ⟨hbucket, hin, rfl⟩
    · have hentered : Function.update man.vvNew place (some nId) place' = some nId := hplace'
      rw [Function.update_of_ne hsame] at hentered
      have hold' := h.eq_newPlace hinfo hentered
      exact hold'
  · exact fun nId' hne hmem => ⟨hmem, hne⟩
  · intro _ _
    change 0 < info.nRefCount + 1
    omega
  · rfl
  · rfl

/-- An entry leaves a place of the new table. -/
theorem Kept.leave (h : Kept hash loose newAhead triedAhead man)
    (hinfo : man.mapInfo.lookup nId = some info) (hplace : man.vvNew place = some nId) :
    Kept hash (insert nId loose) newAhead triedAhead
      { man with
        mapInfo := man.mapInfo.insert nId { info with nRefCount := info.nRefCount - 1 }
        vvNew := Function.update man.vvNew place none } := by
  have hold := h.stands nId info hinfo
  obtain ⟨hbucket, hin, heq⟩ := h.eq_newPlace hinfo hplace
  obtain ⟨hcount, hmax⟩ := hold.new hin
  refine h.change hinfo rfl rfl rfl rfl rfl rfl rfl ?_ ?_ ?_ ?_ ?_ ?_ ?_ ?_ ?_
  · exact fun _ _ _ => Iff.rfl
  · intro place' nId' hne
    apply update_eq_some_iff
    · rw [hplace]
      simpa using Ne.symm hne
    · exact (Option.some_ne_none nId').symm
  · constructor
    · intro hin'
      simp [hin] at hin'
    · intro _
      have hmem : place ∈ newPlaces := heq ▸ newPlace_mem hbucket
      have hheld := heldIn_leave nodup_newPlaces hmem hplace (Option.some_ne_none nId).symm
      have hleft : info.nRefCount - 1 =
          heldIn (Function.update man.vvNew place none) newPlaces (some nId) := by omega
      have hless : info.nRefCount - 1 ≤ ADDRMAN_NEW_BUCKETS_PER_ADDRESS := by omega
      exact ⟨hleft, hless⟩
    · exact hold.lastTry
    · exact hold.lastSuccess
  · intro place' hplace'
    have hold' := h.eq_triedPlace hinfo hplace'
    exact hold'
  · intro place' hplace'
    have hleft : Function.update man.vvNew place none place' = some nId := hplace'
    by_cases hsame : place' = place
    · simp [hsame] at hleft
    · rw [Function.update_of_ne hsame] at hleft
      have hold' := h.eq_newPlace hinfo hleft
      exact hold'
  · exact fun nId' _ hmem => Set.mem_insert_of_mem nId hmem
  · exact fun _ hnot => absurd (Set.mem_insert nId loose) hnot
  · rfl
  · rfl

/-- An entry leaves the tried table. -/
theorem Kept.leaveTried (h : Kept hash loose newAhead triedAhead man)
    (hinfo : man.mapInfo.lookup nId = some info) (hplace : man.vvTried place = some nId) :
    Kept hash (insert nId loose) (newAhead + 1) triedAhead
      { man with
        mapInfo := man.mapInfo.insert nId { info with fInTried := false }
        vvTried := Function.update man.vvTried place none
        nTried := man.nTried - 1 } := by
  have hold := h.stands nId info hinfo
  obtain ⟨hin, heq⟩ := h.eq_triedPlace hinfo hplace
  have hcount := (hold.tried hin).1
  have hnone := h.vvNew_ne hinfo hcount
  refine h.change hinfo rfl rfl rfl rfl rfl rfl rfl ?_ ?_ ?_ ?_ ?_ ?_ ?_ ?_ ?_
  · intro place' nId' hne
    apply update_eq_some_iff
    · rw [hplace]
      simpa using Ne.symm hne
    · exact (Option.some_ne_none nId').symm
  · exact fun _ _ _ => Iff.rfl
  · constructor
    · intro hin'
      contradiction
    · intro _
      have hheld : heldIn man.vvNew newPlaces (some nId) = 0 :=
        heldIn_eq_zero.mpr fun place' _ => hnone place'
      have hcount' : info.nRefCount = heldIn man.vvNew newPlaces (some nId) := by
        rw [hcount, hheld, Nat.cast_zero]
      have hmax : info.nRefCount ≤ ADDRMAN_NEW_BUCKETS_PER_ADDRESS := by
        rw [hcount]
        decide
      exact ⟨hcount', hmax⟩
    · exact hold.lastTry
    · exact hold.lastSuccess
  · intro place' hplace'
    have hleft : Function.update man.vvTried place none place' = some nId := hplace'
    by_cases hsame : place' = place
    · simp [hsame] at hleft
    · rw [Function.update_of_ne hsame] at hleft
      have heq' := (h.eq_triedPlace hinfo hleft).2
      exact absurd (heq'.trans heq.symm) hsame
  · exact fun place' hplace' => absurd hplace' (hnone place')
  · exact fun nId' _ hmem => Set.mem_insert_of_mem nId hmem
  · exact fun _ hnot => absurd (Set.mem_insert nId loose) hnot
  · simp only [hin, if_true, Bool.false_eq_true, if_false]
    omega
  · simp only [hin, if_true, Bool.false_eq_true, if_false]
    omega

/-- A new entry without references enters its place of the tried table. -/
theorem Kept.enterTried (h : Kept hash loose newAhead triedAhead man)
    (hinfo : man.mapInfo.lookup nId = some info) (hin : info.fInTried = false)
    (hcount : info.nRefCount = 0) (hsuccess : 0 < info.nLastSuccess)
    (hplace : place = info.triedPlace hash man.nKey) (hfree : man.vvTried place = none) :
    Kept hash (loose \ {nId}) (newAhead - 1) triedAhead
      { man with
        mapInfo := man.mapInfo.insert nId { info with fInTried := true }
        vvTried := Function.update man.vvTried place (some nId)
        nTried := man.nTried + 1 } := by
  have hold := h.stands nId info hinfo
  have hnone := h.vvNew_ne hinfo hcount
  refine h.change hinfo rfl rfl rfl rfl rfl rfl rfl ?_ ?_ ?_ ?_ ?_ ?_ ?_ ?_ ?_
  · intro place' nId' hne
    apply update_eq_some_iff
    · rw [hfree]
      exact (Option.some_ne_none nId').symm
    · simpa using Ne.symm hne
  · exact fun _ _ _ => Iff.rfl
  · constructor
    · intro _
      refine ⟨hcount, hsuccess, ?_⟩
      change Function.update man.vvTried place (some nId) (info.triedPlace hash man.nKey) = some nId
      rw [← hplace, Function.update_self]
    · intro hin'
      contradiction
    · exact hold.lastTry
    · exact hold.lastSuccess
  · intro place' hplace'
    refine ⟨rfl, ?_⟩
    have hentered : Function.update man.vvTried place (some nId) place' = some nId := hplace'
    by_cases hsame : place' = place
    · exact hsame.trans hplace
    · rw [Function.update_of_ne hsame] at hentered
      exact (h.eq_triedPlace hinfo hentered).2
  · exact fun place' hplace' => absurd hplace' (hnone place')
  · exact fun nId' hne hmem => ⟨hmem, hne⟩
  · intro hin' _
    contradiction
  · simp only [hin, if_true, Bool.false_eq_true, if_false]
    omega
  · simp only [hin, if_true, Bool.false_eq_true, if_false]
    omega

end
end CAddrMan
end Lytix
