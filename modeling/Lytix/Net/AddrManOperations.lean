import Lytix.Net.AddrManSteps

/-! What an address manager is asked: each answer keeps it, and none of its assertions fails. -/
namespace Lytix
open Checks CountEntries SlotTables SwapIndex

namespace CAddrMan
open CAddrInfo

variable {hash : List UInt8 → UInt64} {man man' : CAddrMan} {nId : ℕ} {info info' : CAddrInfo}
  {loose : Set ℕ} {newAhead triedAhead : ℤ} {addr : CNetAddr}

theorem find_eq_some (h : man.find addr = some (nId, info)) :
    man.mapAddr addr = some nId ∧ man.mapInfo.lookup nId = some info := by
  obtain ⟨n, hn, hmap⟩ := Option.bind_eq_some_iff.mp h
  obtain ⟨found, hfound, heq⟩ := Option.map_eq_some_iff.mp hmap
  obtain ⟨rfl, rfl⟩ := Prod.mk.inj heq
  exact ⟨hn, hfound⟩

theorem Kept.find_eq_some_iff (h : Kept hash loose newAhead triedAhead man) :
    man.find addr = some (nId, info) ↔
      man.mapInfo.lookup nId = some info ∧ info.address = addr := by
  constructor
  · intro hfind
    obtain ⟨hmap, hinfo⟩ := find_eq_some hfind
    obtain ⟨info', hinfo', heq⟩ := (h.address addr nId).mp hmap
    obtain rfl := Option.some.inj (hinfo.symm.trans hinfo')
    exact ⟨hinfo, heq⟩
  · rintro ⟨hinfo, heq⟩
    have hmap := (h.address addr nId).mpr ⟨info, hinfo, heq⟩
    simp [find, hmap, hinfo]

theorem Kept.mapAddr_eq_none (h : Kept hash loose newAhead triedAhead man)
    (hfind : man.find addr = none) : man.mapAddr addr = none := by
  cases hmap : man.mapAddr addr with
  | none => rfl
  | some nId =>
    obtain ⟨info, hinfo, -⟩ := (h.address addr nId).mp hmap
    simp [find, hmap, hinfo] at hfind

/-- No entry has the next id. -/
theorem Kept.lookup_nIdCount (h : Kept hash loose newAhead triedAhead man) :
    man.mapInfo.lookup man.nIdCount = none := by
  cases hinfo : man.mapInfo.lookup man.nIdCount with
  | none => rfl
  | some info => exact absurd (h.old _ info hinfo) (lt_irrefl _)

/-- An entry of an address without one; it stands in no place yet. -/
theorem Kept.create (h : Kept hash ∅ 0 0 man) (info : CAddrInfo)
    (hfind : man.find info.address = none) (hin : info.fInTried = false)
    (hcount : info.nRefCount = 0) (htry : 0 ≤ info.nLastTry) (hsuccess : 0 ≤ info.nLastSuccess) :
    Kept hash {man.nIdCount} 0 0 { man.create info with nNew := man.nNew + 1 } := by
  have hfresh := h.lookup_nIdCount
  have hnew : man.nIdCount ∉ man.mapInfo := AList.lookup_eq_none.mp hfresh
  have hlookup : ∀ nId, (man.create info).mapInfo.lookup nId =
      if nId = man.nIdCount then some { info with nRandomPos := man.vRandom.length }
      else man.mapInfo.lookup nId := fun nId => lookup_insert_eq nId
  have hne : ∀ nId info', man.mapInfo.lookup nId = some info' → nId ≠ man.nIdCount := by
    rintro nId info' hinfo' rfl
    rw [hfresh] at hinfo'
    contradiction
  have hthere : ∀ nId info', man.mapInfo.lookup nId = some info' →
      (man.create info).mapInfo.lookup nId = some info' := by
    intro nId info' hinfo'
    rw [hlookup, if_neg (hne nId info' hinfo'), hinfo']
  constructor
  · intro nId info' hinfo'
    simp only [hlookup] at hinfo'
    split_ifs at hinfo' with hsame
    · obtain rfl := Option.some.inj hinfo'
      constructor
      · intro hin'
        simp [hin] at hin'
      · intro _
        have hheld : heldIn man.vvNew newPlaces (some nId) = 0 := by
          apply heldIn_eq_zero.mpr
          intro place _ hplace
          obtain ⟨-, info', hinfo', -⟩ := h.new place nId hplace
          exact hne nId info' hinfo' hsame
        have hcount' : info.nRefCount = heldIn man.vvNew newPlaces (some nId) := by
          rw [hheld, hcount, Nat.cast_zero]
        have hmax : info.nRefCount ≤ ADDRMAN_NEW_BUCKETS_PER_ADDRESS := by
          rw [hcount]
          decide
        exact ⟨hcount', hmax⟩
      · exact htry
      · exact hsuccess
    · have hstands := h.stands nId info' hinfo'
      exact ⟨hstands.tried, hstands.new, hstands.lastTry, hstands.lastSuccess⟩
  · intro place nId hplace
    obtain ⟨info', hinfo', hrest⟩ := h.tried place nId hplace
    exact ⟨info', hthere nId info' hinfo', hrest⟩
  · intro place nId hplace
    obtain ⟨hbucket, info', hinfo', hrest⟩ := h.new place nId hplace
    exact ⟨hbucket, info', hthere nId info' hinfo', hrest⟩
  · intro nId info' hinfo' hin' hnot
    simp only [hlookup] at hinfo'
    have hother : nId ≠ man.nIdCount := fun hsame => hnot (Set.mem_singleton_iff.mpr hsame)
    rw [if_neg hother] at hinfo'
    exact h.referred nId info' hinfo' hin' (Set.notMem_empty nId)
  · intro nId info' hinfo'
    simp only [hlookup] at hinfo'
    change nId < man.nIdCount + 1
    split_ifs at hinfo' with hsame
    · omega
    · have hold := h.old nId info' hinfo'
      omega
  · intro addr nId
    simp only [hlookup]
    change Function.update man.mapAddr info.address (some man.nIdCount) addr = some nId ↔ _
    have hnone := h.mapAddr_eq_none hfind
    by_cases haddr : addr = info.address
    · subst haddr
      rw [Function.update_self, Option.some_inj]
      constructor
      · rintro rfl
        exact ⟨_, if_pos rfl, rfl⟩
      · rintro ⟨info', hinfo', heq⟩
        by_contra hother
        rw [if_neg (Ne.symm hother)] at hinfo'
        have hmap := (h.address info.address nId).mpr ⟨info', hinfo', heq⟩
        rw [hnone] at hmap
        contradiction
    · rw [Function.update_of_ne haddr, h.address addr nId]
      by_cases hsame : nId = man.nIdCount
      · rw [if_pos hsame, hsame, hfresh]
        simp only [reduceCtorEq, false_and, exists_false, Option.some_inj, false_iff]
        rintro ⟨info', rfl, heq⟩
        exact haddr heq.symm
      · rw [if_neg hsame]
  · have hnone : man.position man.nIdCount = none := by
      unfold position
      rw [hfresh, Option.map_none]
    apply (h.positions.push hnone).congr
    intro nId
    unfold position
    simp only [hlookup]
    by_cases hsame : nId = man.nIdCount
    · rw [if_pos hsame, hsame, Function.update_self, Option.map_some]
    · rw [if_neg hsame, Function.update_of_ne hsame]
  · exact h.key
  · have hold := h.newCount
    unfold CAddrMan.newCount at hold ⊢
    unfold CAddrMan.create
    rw [count_insert_of_notMem hnew]
    simp only [hin, Bool.not_false, if_true]
    push_cast
    omega
  · have hold := h.triedCount
    unfold CAddrMan.triedCount at hold ⊢
    unfold CAddrMan.create
    rw [count_insert_of_notMem hnew]
    simpa [hin] using hold

/-- However the entry is entered, or not, it ends with a reference or is deleted. -/
theorem Kept.enterNew (h : Kept hash {nId} 0 0 man) (hinfo : man.mapInfo.lookup nId = some info)
    (hin : info.fInTried = false) (hmax : info.nRefCount < ADDRMAN_NEW_BUCKETS_PER_ADDRESS)
    (source : CNetAddr) (nNow : ℤ) :
    ∃ man', man.enterNew hash nId source nNow = some man' ∧ Kept hash ∅ 0 0 man' := by
  have hloose : ({nId} : Set ℕ) = insert nId ∅ := (LawfulSingleton.insert_empty_eq nId).symm
  have hheld := ((h.stands nId info hinfo).new hin).1
  unfold CAddrMan.enterNew
  simp only [hinfo, Option.bind_eq_bind, Option.bind_some]
  have hbucket : info.getNewBucket hash man.nKey source < ADDRMAN_NEW_BUCKET_COUNT :=
    getNewBucket_lt
  generalize info.getNewBucket hash man.nKey source = nUBucket at hbucket ⊢
  generalize hplace : info.newPlace hash man.nKey nUBucket = place
  by_cases hthere : man.vvNew place = some nId
  · rw [if_pos hthere]
    rw [hloose] at h
    refine ⟨man, rfl, h.tighten ?_⟩
    intro info' hinfo' _
    obtain rfl := Option.some.inj (hinfo.symm.trans hinfo')
    have hmem : place ∈ newPlaces := hplace ▸ newPlace_mem hbucket
    have hpos : 0 < heldIn man.vvNew newPlaces (some nId) := heldIn_pos.mpr ⟨place, hmem, hthere⟩
    omega
  · rw [if_neg hthere]
    have hdecided : ∃ fInsert, man.fInsert info place nNow = some fInsert := by
      unfold CAddrMan.fInsert
      cases hfound : man.vvNew place with
      | none => exact ⟨true, rfl⟩
      | some nIdExisting =>
        obtain ⟨-, infoExisting, hexisting, -⟩ := h.new place nIdExisting hfound
        simp [hexisting]
    obtain ⟨fInsert, hfInsert⟩ := hdecided
    rw [hfInsert, Option.bind_some]
    cases fInsert with
    | true =>
      obtain ⟨cleared, hclear, hkept, hcleared⟩ := h.clearNew place
      obtain ⟨info', hinfo', hunplaced⟩ := hcleared.entries nId info hthere hinfo
      have hin' : info'.fInTried = false := (congr_unplaced CAddrInfo.fInTried hunplaced).trans hin
      have hcount' := congr_unplaced CAddrInfo.nRefCount hunplaced
      have hservice := congr_unplaced CAddrInfo.service hunplaced
      have hfree : cleared.vvNew place = none := by rw [hcleared.vvNew, Function.update_self]
      have hat : place = info'.newPlace hash cleared.nKey nUBucket := by
        rw [hcleared.nKey, newPlace_congr hservice, hplace]
      have hentered := hkept.enter hinfo' hin' hbucket hat hfree (by omega)
      rw [if_pos rfl, hclear]
      simp only [Option.bind_some, hinfo']
      exact ⟨_, rfl, hentered.mono fun nId' hmem => absurd hmem.1 hmem.2⟩
    | false =>
      rw [if_neg Bool.false_ne_true]
      by_cases hzero : info.nRefCount = 0
      · obtain ⟨man', hdelete, hkept, -, -, hgone⟩ := h.delete hinfo hin hzero
        rw [if_pos hzero]
        rw [hloose] at hkept
        refine ⟨man', hdelete, hkept.tighten ?_⟩
        intro info' hinfo'
        rw [hgone] at hinfo'
        contradiction
      · rw [if_neg hzero]
        rw [hloose] at h
        refine ⟨man, rfl, h.tighten ?_⟩
        intro info' hinfo' _
        obtain rfl := Option.some.inj (hinfo.symm.trans hinfo')
        omega

theorem Kept.add (h : Kept hash ∅ 0 0 man) (addr : CAddress) (source : CNetAddr)
    (nTimePenalty nNow : ℤ) (nRand : ℕ → ℕ) :
    ∃ fNew man', man.add hash addr source nTimePenalty nNow nRand = some (fNew, man') ∧
      Kept hash ∅ 0 0 man' := by
  unfold CAddrMan.add
  cases addr.service.isRoutable with
  | false => exact ⟨false, man, rfl, h⟩
  | true =>
    simp only [Bool.not_true, Bool.false_eq_true, if_false]
    cases hfind : man.find addr.service.toCNetAddr with
    | none =>
      have hcreated := h.create { CAddrInfo.ofAddress addr source with
        nTime := toUnsigned (max 0 ((CAddrInfo.ofAddress addr source).nTime.toNat - nTimePenalty)) }
        hfind rfl rfl le_rfl le_rfl
      have hmax : (0 : ℤ) < ADDRMAN_NEW_BUCKETS_PER_ADDRESS := by decide
      obtain ⟨man', henter, hkept⟩ := hcreated.enterNew (AList.lookup_insert _) rfl hmax source
        nNow
      exact ⟨true, man', congrArg (Option.map fun man => (true, man)) henter, hkept⟩
    | some found =>
      obtain ⟨nId, info⟩ := found
      obtain ⟨-, hinfo⟩ := find_eq_some hfind
      have hstands := h.stands nId info hinfo
      have hupdated := h.setInfo hinfo (refreshed info addr nTimePenalty nNow nRand).2
        rfl rfl rfl rfl hstands.lastTry hstands.lastSuccess fun hin => (hstands.tried hin).2.1
      simp only
      cases hnext : (refreshed info addr nTimePenalty nNow nRand).1 with
      | false => exact ⟨false, _, rfl, hupdated⟩
      | true =>
        have hmay : info.fInTried = false ∧ info.nRefCount ≠ ADDRMAN_NEW_BUCKETS_PER_ADDRESS := by
          unfold refreshed at hnext
          simp only [Bool.and_eq_true, Bool.not_eq_true', decide_eq_true_eq] at hnext
          exact ⟨hnext.1.1.2, hnext.1.2⟩
        have hmax := ((hstands.new hmay.1).2).lt_of_ne hmay.2
        obtain ⟨man', henter, hkept⟩ := (hupdated.mono (Set.empty_subset {nId})).enterNew
          (AList.lookup_insert _) hmay.1 hmax source nNow
        rw [if_pos rfl, henter]
        exact ⟨false, man', rfl, hkept⟩

/-- A new entry stands in some bucket, so the search for it does not end without one. -/
theorem Kept.exists_bucket (h : Kept hash ∅ 0 0 man) (hinfo : man.mapInfo.lookup nId = some info)
    (hin : info.fInTried = false) (nRnd : ℕ) :
    ∃ n < ADDRMAN_NEW_BUCKET_COUNT,
      man.vvNew (info.newPlace hash man.nKey ((n + nRnd) % ADDRMAN_NEW_BUCKET_COUNT)) =
        some nId := by
  have hreferred := h.referred nId info hinfo hin (Set.notMem_empty nId)
  have hheld := ((h.stands nId info hinfo).new hin).1
  obtain ⟨place, -, hplace⟩ : ∃ place ∈ newPlaces, man.vvNew place = some nId :=
    heldIn_pos.mp (by omega)
  obtain ⟨hbucket, -, heq⟩ := h.eq_newPlace hinfo hplace
  -- the round in which the search comes to this bucket
  refine ⟨(place.1 + (ADDRMAN_NEW_BUCKET_COUNT - nRnd % ADDRMAN_NEW_BUCKET_COUNT)) %
    ADDRMAN_NEW_BUCKET_COUNT, Nat.mod_lt _ (by decide), ?_⟩
  have hround : ((place.1 + (ADDRMAN_NEW_BUCKET_COUNT - nRnd % ADDRMAN_NEW_BUCKET_COUNT)) %
      ADDRMAN_NEW_BUCKET_COUNT + nRnd) % ADDRMAN_NEW_BUCKET_COUNT = place.1 := by
    unfold ADDRMAN_NEW_BUCKET_COUNT at hbucket ⊢
    omega
  rw [hround, ← heq, hplace]

theorem Kept.good (h : Kept hash ∅ 0 0 man) (addr : CService) {nTime : ℤ} (htime : 0 < nTime)
    (nRnd : ℕ) : ∃ man', man.good hash addr nTime nRnd = some man' ∧ Kept hash ∅ 0 0 man' ∧
      ∀ nId info, man.find addr.toCNetAddr = some (nId, info) → info.service = addr →
        ∃ info', man'.find addr.toCNetAddr = some (nId, info') ∧ info'.service = addr ∧
          info'.fInTried = true := by
  unfold CAddrMan.good
  cases hfind : man.find addr.toCNetAddr with
  | none => exact ⟨man, rfl, h, by simp⟩
  | some found =>
    obtain ⟨nId, info⟩ := found
    have hown : ∀ {man' : CAddrMan} {info' : CAddrInfo}, Kept hash ∅ 0 0 man' →
        man'.mapInfo.lookup nId = some info' → info'.service = addr → info'.fInTried = true →
        ∀ nId' info'', some (nId, info) = some (nId', info'') → info''.service = addr →
          ∃ info', man'.find addr.toCNetAddr = some (nId', info') ∧ info'.service = addr ∧
            info'.fInTried = true := by
      intro man' info' hkept hinfo' hservice' hin' nId' info'' hsame _
      obtain ⟨rfl, -⟩ := Prod.mk.inj (Option.some.inj hsame)
      have haddr : info'.address = addr.toCNetAddr := by rw [CAddrInfo.address, hservice']
      exact ⟨info', hkept.find_eq_some_iff.mpr ⟨hinfo', haddr⟩, hservice', hin'⟩
    simp only
    by_cases hservice : info.service = addr
    · rw [if_neg (not_not.mpr hservice)]
      obtain ⟨-, hinfo⟩ := find_eq_some hfind
      have hupdated := h.setInfo hinfo { info with
          nLastSuccess := nTime
          nLastTry := nTime
          nAttempts := 0 } rfl rfl rfl rfl htime.le htime.le fun _ => htime
      have hlookup : (man.setInfo nId { info with
          nLastSuccess := nTime
          nLastTry := nTime
          nAttempts := 0 }).mapInfo.lookup nId = some _ := AList.lookup_insert _
      by_cases hin : info.fInTried = true
      · rw [if_pos hin]
        exact ⟨_, rfl, hupdated, hown hupdated hlookup hservice hin⟩
      · rw [Bool.not_eq_true] at hin
        have hsearch := hupdated.exists_bucket hlookup hin nRnd
        obtain ⟨man', hmake, hkept, info', hinfo', hsame, hin'⟩ := hupdated.makeTried hlookup hin
          htime
        rw [if_neg (by simp [hin]), if_pos]
        · exact ⟨man', hmake, hkept, hown hkept hinfo' (hsame.trans hservice) hin'⟩
        · obtain ⟨n, hn, hfound⟩ := hsearch
          simp only [List.any_eq_true, List.mem_range, decide_eq_true_eq]
          exact ⟨n, hn, hfound⟩
    · rw [if_pos hservice]
      refine ⟨man, rfl, h, ?_⟩
      intro nId' info' hsame hservice'
      obtain ⟨rfl, rfl⟩ := Prod.mk.inj (Option.some.inj hsame)
      exact absurd hservice' hservice

/-- Times and attempts of an entry are changed. -/
theorem Kept.changeInfo (h : Kept hash ∅ 0 0 man) (addr : CService)
    {change : CAddrInfo → CAddrInfo}
    (hchange : ∀ info, (change info).service = info.service ∧
      (change info).nRandomPos = info.nRandomPos ∧ (change info).nRefCount = info.nRefCount ∧
      (change info).fInTried = info.fInTried ∧ (change info).nLastSuccess = info.nLastSuccess ∧
      (0 ≤ info.nLastTry → 0 ≤ (change info).nLastTry)) :
    Kept hash ∅ 0 0 (man.changeInfo addr change) := by
  unfold CAddrMan.changeInfo
  cases hfind : man.find addr.toCNetAddr with
  | none => exact h
  | some found =>
    obtain ⟨nId, info⟩ := found
    obtain ⟨-, hinfo⟩ := find_eq_some hfind
    have hstands := h.stands nId info hinfo
    obtain ⟨hservice, hpos, hcount, hin, hsuccess, htry⟩ := hchange info
    simp only
    split_ifs with hother
    · exact h
    · apply h.setInfo hinfo _ hservice hpos hcount hin (htry hstands.lastTry)
      · rw [hsuccess]
        exact hstands.lastSuccess
      · rw [hsuccess]
        exact fun hin => (hstands.tried hin).2.1

theorem Kept.attempt (h : Kept hash ∅ 0 0 man) (addr : CService) {nTime : ℤ} (htime : 0 ≤ nTime) :
    Kept hash ∅ 0 0 (man.attempt addr nTime) :=
  h.changeInfo addr fun _ => ⟨rfl, rfl, rfl, rfl, rfl, fun _ => htime⟩

theorem Kept.connected (h : Kept hash ∅ 0 0 man) (addr : CService) (nTime : ℤ) :
    Kept hash ∅ 0 0 (man.connected addr nTime) := by
  apply h.changeInfo addr
  intro info
  split_ifs <;> exact ⟨rfl, rfl, rfl, rfl, rfl, id⟩

/-- A swap leaves the positions before both as they are. -/
theorem take_swapRandom {i j n : ℕ} (h : man.swapRandom i j = some man') (hi : n ≤ i)
    (hj : n ≤ j) : man'.vRandom.take n = man.vRandom.take n := by
  unfold CAddrMan.swapRandom at h
  split_ifs at h
  · rw [Option.some.inj h]
  · simp only [Option.bind_eq_bind, Option.bind_eq_some_iff, Option.pure_def,
      Option.some_inj] at h
    obtain ⟨nId1, -, nId2, -, info1, -, info2, -, rfl⟩ := h
    have hlength := List.length_take_le n man.vRandom
    simp only [List.take_set, Int.toNat_natCast, List.set_eq_of_length_le (hlength.trans hi),
      List.set_eq_of_length_le (hlength.trans hj)]

/-- An entry as the loop of `GetAddr_` finds it, wherever it has been swapped to. -/
def listed (man : CAddrMan) (nId : ℕ) : Option CAddrInfo :=
  (man.mapInfo.lookup nId).map unplaced

/-- What the loop of `GetAddr_` has come to: the good ones among the first entries. -/
structure Gathering (hash : List UInt8 → UInt64) (start : CAddrMan) (nNodes : ℕ) (nNow : ℤ)
    (n : ℕ) (gathered : CAddrMan × List CAddrInfo) : Prop where
  kept : Kept hash ∅ 0 0 gathered.1
  length : gathered.1.vRandom.length = start.vRandom.length
  entries : ∀ nId, gathered.1.listed nId = start.listed nId
  chosen : gathered.2.map unplaced = (((gathered.1.vRandom.take n).filterMap start.listed).filter
    fun info => !info.isTerrible nNow).take nNodes

theorem Gathering.step {start : CAddrMan} {nNodes n : ℕ} {nNow : ℤ} {nRand : ℕ → ℕ}
    {gathered : CAddrMan × List CAddrInfo} (hRand : ∀ m, 0 < m → nRand m < m)
    (h : Gathering hash start nNodes nNow n gathered) (hn : n < start.vRandom.length) :
    ∃ gathered', gatherOne nNodes nNow nRand gathered n = some gathered' ∧
      Gathering hash start nNodes nNow (n + 1) gathered' := by
  obtain ⟨man, vAddr⟩ := gathered
  have hlength : man.vRandom.length = start.vRandom.length := h.length
  have hchosen : vAddr.map unplaced = (((man.vRandom.take n).filterMap start.listed).filter
    fun info => !info.isTerrible nNow).take nNodes := h.chosen
  have hcount := congrArg List.length hchosen
  rw [List.length_map, List.length_take] at hcount
  unfold gatherOne
  by_cases hfull : nNodes ≤ vAddr.length
  · rw [if_pos hfull]
    refine ⟨_, rfl, h.kept, h.length, h.entries, ?_⟩
    simp only
    rw [hchosen, ← List.take_concat_get' _ n (hlength ▸ hn), List.filterMap_append,
      List.filter_append, List.take_append_of_le_length (by omega)]
  · rw [if_neg hfull]
    have hdraw := hRand (man.vRandom.length - n) (by omega)
    generalize nRand (man.vRandom.length - n) = draw at hdraw ⊢
    have hi : n < man.vRandom.length := by omega
    have hj : draw + n < man.vRandom.length := by omega
    obtain ⟨swapped, hswap, hkept, hsame, hsize, -⟩ := h.kept.swapRandom hi hj
    have hlength' : swapped.vRandom.length = man.vRandom.length := hsize
    have htake := take_swapRandom hswap le_rfl (Nat.le_add_left n draw)
    have hlast : n < swapped.vRandom.length := by omega
    have hget : swapped.vRandom[n]? = some swapped.vRandom[n] := List.getElem?_eq_getElem hlast
    generalize swapped.vRandom[n] = nId at hget
    obtain ⟨ai, hai, -⟩ := hkept.exists_info hget
    have hentries : ∀ nId, swapped.listed nId = start.listed nId := fun nId =>
      (hsame.entries nId).trans (h.entries nId)
    have hlisted : start.listed nId = some ai.unplaced := by
      rw [← hentries, listed, hai, Option.map_some]
    have hterrible : ai.unplaced.isTerrible nNow = ai.isTerrible nNow := rfl
    have hnext : (((swapped.vRandom.take (n + 1)).filterMap start.listed).filter
        fun info => !info.isTerrible nNow) =
        (((man.vRandom.take n).filterMap start.listed).filter fun info => !info.isTerrible nNow) ++
          if ai.isTerrible nNow then [] else [ai.unplaced] := by
      rw [List.take_add_one, hget, htake]
      simp only [Option.toList_some, List.filterMap_append, List.filter_append]
      cases hgood : ai.isTerrible nNow <;> simp [hlisted, hterrible, hgood]
    have hpos : ((n + draw : ℕ) : ℤ) = ((draw + n : ℕ) : ℤ) := by omega
    simp only [Option.bind_eq_bind, hswap, Option.bind_some, atRandom_natCast, hget, hai]
    refine ⟨_, rfl, hkept, hlength'.trans hlength, hentries, ?_⟩
    simp only
    rw [hnext]
    cases ai.isTerrible nNow with
    | true => simpa using hchosen
    | false =>
      generalize ((man.vRandom.take n).filterMap start.listed).filter
        (fun info => !info.isTerrible nNow) = good at hchosen hcount ⊢
      rw [List.take_of_length_le (by omega)] at hchosen
      have hmore : (good ++ [ai.unplaced]).length ≤ nNodes := by
        rw [List.length_append, List.length_singleton]
        omega
      rw [if_neg Bool.false_ne_true, if_neg Bool.false_ne_true, List.map_append, hchosen,
        List.take_of_length_le hmore]
      rfl

theorem Kept.getAddr (h : Kept hash ∅ 0 0 man) (nNow : ℤ) {nRand : ℕ → ℕ}
    (hRand : ∀ m, 0 < m → nRand m < m) : ∃ gathered, man.getAddr nNow nRand = some gathered ∧
      Gathering hash man
        (min ADDRMAN_GETADDR_MAX (ADDRMAN_GETADDR_MAX_PCT * man.vRandom.length / 100)) nNow
        man.vRandom.length gathered := by
  unfold CAddrMan.getAddr
  generalize min ADDRMAN_GETADDR_MAX (ADDRMAN_GETADDR_MAX_PCT * man.vRandom.length / 100) = nNodes
  have hstart : Gathering hash man nNodes nNow 0 (man, []) := ⟨h, rfl, fun _ => rfl, by simp⟩
  have hloop := @exists_foldlM_pure Option _ _ _ _ (gatherOne nNodes nNow nRand)
    (fun before => Gathering hash man nNodes nNow before.length) (List.range man.vRandom.length)
    (man, []) hstart (by
      intro before n after gathered hsplit hgathering
      have hn : n = before.length := by
        have hget := congrArg (·[before.length]?) hsplit
        simp only [List.getElem?_append_right le_rfl, Nat.sub_self, List.getElem?_cons_zero] at hget
        obtain ⟨hlt, heq⟩ := List.getElem?_eq_some_iff.mp hget
        rw [← heq, List.getElem_range]
      have hlt : n < man.vRandom.length := by
        rw [← List.mem_range, hsplit]
        simp
      rw [List.length_append, List.length_singleton, ← hn]
      rw [← hn] at hgathering
      exact hgathering.step hRand hlt)
  rw [List.length_range] at hloop
  exact hloop

theorem Kept.perm_vRandom (h : Kept hash ∅ 0 0 man) (h' : Kept hash ∅ 0 0 man')
    (same : ∀ nId, man'.listed nId = man.listed nId) : man'.vRandom.Perm man.vRandom := by
  have hsome : ∀ (man : CAddrMan) nId, (man.position nId).isSome = (man.listed nId).isSome := by
    intro man nId
    unfold position listed
    rw [Option.isSome_map, Option.isSome_map]
  apply (List.perm_ext_iff_of_nodup h'.positions.nodup h.positions.nodup).mpr
  intro nId
  rw [h'.positions.mem_iff, h.positions.mem_iff, hsome, hsome, same]

/-- The entries found at the positions are all the entries, each once. -/
theorem Kept.filterMap_listed (h : Kept hash ∅ 0 0 man) : (man.vRandom.filterMap man.listed).Perm
    ((OrderedTables.inOrder id man.mapInfo).map fun e => e.2.unplaced) := by
  have hperm : man.vRandom.Perm ((OrderedTables.inOrder id man.mapInfo).map Prod.fst) := by
    apply (List.perm_ext_iff_of_nodup h.positions.nodup OrderedTables.nodup_keys_inOrder).mpr
    intro nId
    rw [h.positions.mem_iff, Option.isSome_iff_exists, List.mem_map]
    constructor
    · rintro ⟨nRandomPos, hposition⟩
      obtain ⟨info, hinfo, -⟩ := Option.map_eq_some_iff.mp hposition
      exact ⟨(nId, info), OrderedTables.mem_inOrder.mpr hinfo, rfl⟩
    · rintro ⟨⟨n, info⟩, hentry, rfl⟩
      refine ⟨info.nRandomPos, ?_⟩
      unfold position
      rw [OrderedTables.mem_inOrder.mp hentry, Option.map_some]
  have hfound : ((OrderedTables.inOrder id man.mapInfo).map Prod.fst).filterMap man.listed =
      (OrderedTables.inOrder id man.mapInfo).map fun e => e.2.unplaced := by
    rw [List.filterMap_map, ← List.filterMap_eq_map]
    apply List.filterMap_congr
    rintro ⟨n, info⟩ hentry
    have hinfo := OrderedTables.mem_inOrder.mp hentry
    simp [listed, hinfo]
  rw [← hfound]
  exact hperm.filterMap _

end CAddrMan
end Lytix
