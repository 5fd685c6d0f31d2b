import Lytix.Net.AddrManKept

/-! The operations of an address manager keep it, and none of their assertions fails. -/
namespace Lytix
open Checks CountEntries SlotTables SwapIndex

namespace CAddrMan
open CAddrInfo

variable {hash : List UInt8 → UInt64} {man man' : CAddrMan} {nId nId' : ℕ}
  {info info' : CAddrInfo} {loose : Set ℕ} {place : ℕ × ℕ} {newAhead triedAhead : ℤ}

@[simp] theorem atRandom_natCast (i : ℕ) : man.atRandom i = man.vRandom[i]? := by
  unfold atRandom
  rw [if_neg (by omega), Int.toNat_natCast]

/-- The entry whose id stands at a position. -/
theorem Kept.exists_info (h : Kept hash loose newAhead triedAhead man) {i : ℕ}
    (hi : man.vRandom[i]? = some nId) :
    ∃ info, man.mapInfo.lookup nId = some info ∧ info.nRandomPos = i := by
  have hpos := (h.positions.iff i nId).mp hi
  exact Option.map_eq_some_iff.mp hpos

theorem Kept.exists_index (h : Kept hash loose newAhead triedAhead man)
    (hinfo : man.mapInfo.lookup nId = some info) :
    ∃ i : ℕ, info.nRandomPos = i ∧ man.vRandom[i]? = some nId := by
  apply h.positions.exists_index
  unfold position
  rw [hinfo, Option.map_some]

theorem Kept.swapRandom (h : Kept hash loose newAhead triedAhead man) {i j : ℕ}
    (hi : i < man.vRandom.length) (hj : j < man.vRandom.length) :
    ∃ man', man.swapRandom i j = some man' ∧ Kept hash loose newAhead triedAhead man' ∧
      Reordered man man' ∧ man'.vRandom.length = man.vRandom.length ∧
      man'.vRandom[j]? = man.vRandom[i]? := by
  unfold CAddrMan.swapRandom
  by_cases hij : i = j
  · subst hij
    exact ⟨man, if_pos rfl, h, Reordered.refl man, rfl, rfl⟩
  · have ha : man.vRandom[i]? = some man.vRandom[i] := List.getElem?_eq_getElem hi
    have hb : man.vRandom[j]? = some man.vRandom[j] := List.getElem?_eq_getElem hj
    generalize man.vRandom[i] = a at ha
    generalize man.vRandom[j] = b at hb
    obtain ⟨infoA, hinfoA, hposA⟩ := h.exists_info ha
    obtain ⟨infoB, hinfoB, hposB⟩ := h.exists_info hb
    have hne : b ≠ a := by
      rintro rfl
      have hsame := (h.positions.iff i b).mp ha
      rw [(h.positions.iff j b).mp hb, Option.some_inj] at hsame
      omega
    rw [if_neg (by omega), atRandom_natCast, atRandom_natCast, ha, hb]
    simp only [Option.bind_eq_bind, Option.bind_some, hinfoA, hinfoB, Int.toNat_natCast]
    have hlookup : ∀ nId, ((man.mapInfo.insert a { infoA with nRandomPos := j }).insert b
        { infoB with nRandomPos := i }).lookup nId =
        if nId = b then some { infoB with nRandomPos := (i : ℤ) }
        else if nId = a then some { infoA with nRandomPos := (j : ℤ) }
        else man.mapInfo.lookup nId := by
      intro nId
      rw [lookup_insert_eq, lookup_insert_eq]
    have hsame : Reordered man
        { man with
          mapInfo := (man.mapInfo.insert a { infoA with nRandomPos := j }).insert b
            { infoB with nRandomPos := i }
          vRandom := (man.vRandom.set i b).set j a } := by
      have hafter : (man.mapInfo.insert a { infoA with nRandomPos := (j : ℤ) }).lookup b =
          some infoB := by
        rw [AList.lookup_insert_ne hne, hinfoB]
      refine ⟨rfl, rfl, rfl, rfl, rfl, rfl, rfl, ?_, ?_, ?_⟩
      · intro nId
        rw [hlookup]
        by_cases hnb : nId = b
        · rw [if_pos hnb, hnb, hinfoB]
          rfl
        · rw [if_neg hnb]
          by_cases hna : nId = a
          · rw [if_pos hna, hna, hinfoA]
            rfl
          · rw [if_neg hna]
      · unfold CAddrMan.triedCount
        exact (count_insert_of_lookup hafter (by rfl)).trans
          (count_insert_of_lookup hinfoA (by rfl))
      · unfold CAddrMan.newCount
        exact (count_insert_of_lookup hafter (by rfl)).trans
          (count_insert_of_lookup hinfoA (by rfl))
    refine ⟨_, rfl, h.reorder hsame ?_, hsame, ?_, ?_⟩
    · apply (h.positions.swap ha hb hij).congr
      intro nId
      unfold position
      rw [hlookup]
      by_cases hnb : nId = b
      · rw [if_pos hnb, hnb, Function.update_self, Option.map_some]
      · rw [if_neg hnb, Function.update_of_ne hnb]
        by_cases hna : nId = a
        · rw [if_pos hna, hna, Function.update_self, Option.map_some]
        · rw [if_neg hna, Function.update_of_ne hna]
    · simp
    · simp [hj]

/-- What stays of all entries but one. -/
structure SameBut (nId : ℕ) (man man' : CAddrMan) : Prop where
  nKey : man'.nKey = man.nKey
  vvTried : man'.vvTried = man.vvTried
  entries : ∀ nId', nId' ≠ nId → (man'.mapInfo.lookup nId').map unplaced =
    (man.mapInfo.lookup nId').map unplaced

theorem SameBut.exists_info (h : SameBut nId man man') (hne : nId' ≠ nId)
    (hinfo : man.mapInfo.lookup nId' = some info) :
    ∃ info', man'.mapInfo.lookup nId' = some info' ∧ info'.unplaced = info.unplaced := by
  obtain ⟨info', hinfo', hsame⟩ := exists_info_of_map_eq (h.entries nId' hne).symm hinfo
  exact ⟨info', hinfo', hsame.symm⟩

/-- The last entry of the order is deleted, a new one that stands in no place. -/
theorem Kept.remove (h : Kept hash loose newAhead triedAhead man)
    (hinfo : man.mapInfo.lookup nId = some info) (hin : info.fInTried = false)
    (hcount : info.nRefCount = 0) {i : ℕ} (hlength : man.vRandom.length = i + 1)
    (hlast : man.vRandom[i]? = some nId) :
    Kept hash loose newAhead triedAhead
      { man with
        vRandom := man.vRandom.dropLast
        mapAddr := Function.update man.mapAddr info.address none
        mapInfo := man.mapInfo.erase nId
        nNew := man.nNew - 1 } where
  stands := by
    intro nId' info' hinfo'
    rw [lookup_erase_eq] at hinfo'
    split_ifs at hinfo'
    have hstands := h.stands nId' info' hinfo'
    exact ⟨hstands.tried, hstands.new, hstands.lastTry, hstands.lastSuccess⟩
  tried := by
    intro place nId' hplace
    obtain ⟨info', hinfo', hin', heq⟩ := h.tried place nId' hplace
    have hne : nId' ≠ nId := by
      rintro rfl
      obtain rfl := Option.some.inj (hinfo.symm.trans hinfo')
      rw [hin] at hin'
      contradiction
    exact ⟨info', by rw [AList.lookup_erase_ne hne, hinfo'], hin', heq⟩
  new := by
    intro place nId' hplace
    obtain ⟨hbucket, info', hinfo', hrest⟩ := h.new place nId' hplace
    have hne : nId' ≠ nId := by
      rintro rfl
      exact h.vvNew_ne hinfo hcount place hplace
    exact ⟨hbucket, info', by rw [AList.lookup_erase_ne hne, hinfo'], hrest⟩
  referred := by
    intro nId' info' hinfo'
    rw [lookup_erase_eq] at hinfo'
    split_ifs at hinfo'
    exact h.referred nId' info' hinfo'
  old := by
    intro nId' info' hinfo'
    rw [lookup_erase_eq] at hinfo'
    split_ifs at hinfo'
    exact h.old nId' info' hinfo'
  address := by
    intro addr nId'
    have hown := (h.address info.address nId).mpr ⟨info, hinfo, rfl⟩
    simp only [lookup_erase_eq]
    by_cases haddr : addr = info.address
    · subst haddr
      rw [Function.update_self]
      refine iff_of_false (Option.some_ne_none _).symm ?_
      rintro ⟨info', hinfo', heq⟩
      split_ifs at hinfo' with hne
      have hsame := (h.address info.address nId').mpr ⟨info', hinfo', heq⟩
      exact hne (Option.some.inj (hsame.symm.trans hown))
    · rw [Function.update_of_ne haddr, h.address addr nId']
      by_cases hne : nId' = nId
      · subst hne
        simp only [if_true, reduceCtorEq, false_and, exists_false, iff_false]
        rintro ⟨info', hinfo', heq⟩
        obtain rfl := Option.some.inj (hinfo.symm.trans hinfo')
        exact haddr heq.symm
      · rw [if_neg hne]
  positions := by
    apply (h.positions.pop hlength hlast).congr
    intro nId'
    unfold position
    rw [lookup_erase_eq]
    by_cases hne : nId' = nId
    · rw [if_pos hne, hne, Function.update_self, Option.map_none]
    · rw [if_neg hne, Function.update_of_ne hne]
  key := h.key
  newCount := by
    have hkept := h.newCount
    unfold CAddrMan.newCount at hkept ⊢
    have hold := @count_eq_add_erase _ _ _ (fun _ info => !info.fInTried) _ _ _ hinfo
    rw [hold, hin] at hkept
    simp only [Bool.not_false, if_true] at hkept ⊢
    push_cast at hkept ⊢
    omega
  triedCount := by
    have hkept := h.triedCount
    unfold CAddrMan.triedCount at hkept ⊢
    have hold := @count_eq_add_erase _ _ _ (fun _ info => info.fInTried) _ _ _ hinfo
    rw [hold, hin] at hkept
    simp only [Bool.false_eq_true, if_false] at hkept ⊢
    push_cast at hkept ⊢
    omega

theorem Kept.delete (h : Kept hash loose newAhead triedAhead man)
    (hinfo : man.mapInfo.lookup nId = some info) (hin : info.fInTried = false)
    (hcount : info.nRefCount = 0) :
    ∃ man', man.delete nId = some man' ∧ Kept hash loose newAhead triedAhead man' ∧
      SameBut nId man man' ∧ man'.vvNew = man.vvNew ∧ man'.mapInfo.lookup nId = none := by
  obtain ⟨i, hi, hget⟩ := h.exists_index hinfo
  have hlt : i < man.vRandom.length := (List.getElem?_eq_some_iff.mp hget).1
  have hlast : man.vRandom.length - 1 < man.vRandom.length := by omega
  obtain ⟨swapped, hswap, hkept, hsame, hlength, hget'⟩ := h.swapRandom hlt hlast
  obtain ⟨info', hinfo', hunplaced⟩ := exists_info_of_map_eq (hsame.entries nId).symm hinfo
  have hin' := congr_unplaced CAddrInfo.fInTried hunplaced
  have hcount' := congr_unplaced CAddrInfo.nRefCount hunplaced
  have haddr := congr_unplaced CAddrInfo.address hunplaced
  rw [hget] at hget'
  have hlength' : swapped.vRandom.length = man.vRandom.length - 1 + 1 := by omega
  have hremoved := hkept.remove hinfo' (hin'.symm.trans hin) (hcount'.symm.trans hcount) hlength'
    hget'
  rw [← haddr] at hremoved
  have hpos : ((man.vRandom.length - 1 : ℕ) : ℤ) = man.vRandom.length - 1 := by omega
  refine ⟨_, ?_, hremoved, ?_, hsame.vvNew, AList.lookup_erase _ _⟩
  · unfold CAddrMan.delete
    rw [hinfo]
    simp [hin, hcount, hi, ← hpos, hswap]
  · refine ⟨hsame.nKey, hsame.vvTried, ?_⟩
    intro nId' hne
    rw [← hsame.entries nId', AList.lookup_erase_ne hne]

/-- An entry that is referred to is not loose. -/
theorem Kept.tighten (h : Kept hash (insert nId loose) newAhead triedAhead man)
    (hreferred : ∀ info, man.mapInfo.lookup nId = some info → info.fInTried = false →
      0 < info.nRefCount) : Kept hash loose newAhead triedAhead man :=
  { h with
    referred := by
      intro nId' info hinfo hin hnot
      by_cases hsame : nId' = nId
      · exact hreferred info (hsame ▸ hinfo) hin
      · exact h.referred nId' info hinfo hin fun hmem =>
          hnot (Set.mem_of_mem_insert_of_ne hmem hsame) }

/-- What stays when a place is cleared: all entries that do not stand there. -/
structure Cleared (place : ℕ × ℕ) (man man' : CAddrMan) : Prop where
  nKey : man'.nKey = man.nKey
  vvTried : man'.vvTried = man.vvTried
  vvNew : man'.vvNew = Function.update man.vvNew place none
  entries : ∀ nId info, man.vvNew place ≠ some nId → man.mapInfo.lookup nId = some info →
    ∃ info', man'.mapInfo.lookup nId = some info' ∧ info'.unplaced = info.unplaced

theorem Kept.clearNew (h : Kept hash loose newAhead triedAhead man) (place : ℕ × ℕ) :
    ∃ man', man.clearNew place = some man' ∧ Kept hash loose newAhead triedAhead man' ∧
      Cleared place man man' := by
  unfold CAddrMan.clearNew
  cases hplace : man.vvNew place with
  | none =>
    refine ⟨man, rfl, h, rfl, rfl, ?_, fun nId info _ hinfo => ⟨info, hinfo, rfl⟩⟩
    rw [← hplace, Function.update_eq_self]
  | some nIdDelete =>
    obtain ⟨hbucket, info, hinfo, hin, heq⟩ := h.new place nIdDelete hplace
    have hstands := ((h.stands nIdDelete info hinfo).new hin).1
    have hheld : 0 < heldIn man.vvNew newPlaces (some nIdDelete) :=
      heldIn_pos.mpr ⟨place, heq ▸ newPlace_mem hbucket, hplace⟩
    have hcount : ¬info.nRefCount ≤ 0 := by omega
    have hleft := h.leave hinfo hplace
    simp only [hinfo, Option.bind_eq_bind, Option.bind_some, if_neg hcount]
    have hfound : (man.mapInfo.insert nIdDelete
        { info with nRefCount := info.nRefCount - 1 }).lookup nIdDelete =
          some { info with nRefCount := info.nRefCount - 1 } := AList.lookup_insert _
    have hothers (nId : ℕ) (info' : CAddrInfo) (hnot : man.vvNew place ≠ some nId)
        (hinfo' : man.mapInfo.lookup nId = some info') : nId ≠ nIdDelete ∧
          (man.mapInfo.insert nIdDelete
            { info with nRefCount := info.nRefCount - 1 }).lookup nId = some info' := by
      have hne : nId ≠ nIdDelete := fun hsame => hnot (hsame ▸ hplace)
      exact ⟨hne, by rw [AList.lookup_insert_ne hne, hinfo']⟩
    by_cases hlast : info.nRefCount - 1 = 0
    · obtain ⟨man', hdelete, hkept, hsame, hnew, hgone⟩ := hleft.delete hfound hin hlast
      rw [if_pos hlast]
      refine ⟨man', hdelete, hkept.tighten ?_, hsame.nKey, hsame.vvTried, hnew, ?_⟩
      · intro info' hinfo'
        cases hgone.symm.trans hinfo'
      · intro nId info' hnot hinfo'
        obtain ⟨hne, hinfo''⟩ := hothers nId info' hnot hinfo'
        exact hsame.exists_info hne hinfo''
    · rw [if_neg hlast]
      refine ⟨_, rfl, hleft.tighten ?_, rfl, rfl, rfl, ?_⟩
      · intro info' hinfo' _
        have hinfo'' := Option.some.inj (hfound.symm.trans hinfo')
        rw [← hinfo'']
        simp only
        omega
      · intro nId info' hnot hinfo'
        exact ⟨info', (hothers nId info' hnot hinfo').2, rfl⟩

/-- The loop has visited these buckets: the entry stands in none of their places. -/
structure Removing (hash : List UInt8 → UInt64) (nId : ℕ) (info : CAddrInfo) (visited : List ℕ)
    (start man : CAddrMan) : Prop where
  kept : Kept hash {nId} 0 0 man
  nKey : man.nKey = start.nKey
  vvTried : man.vvTried = start.vvTried
  entry : ∃ nRefCount, man.mapInfo.lookup nId = some { info with nRefCount := nRefCount }
  gone : ∀ bucket ∈ visited, man.vvNew (info.newPlace hash man.nKey bucket) ≠ some nId
  rest : ∀ place, man.vvNew place = some nId → start.vvNew place = some nId
  others : ∀ nId', nId' ≠ nId → man.mapInfo.lookup nId' = start.mapInfo.lookup nId'

theorem Removing.step {start : CAddrMan} {visited : List ℕ}
    (h : Removing hash nId info visited start man) (bucket : ℕ) :
    ∃ man', removeFromBucket hash nId man bucket = some man' ∧
      Removing hash nId info (visited ++ [bucket]) start man' := by
  obtain ⟨nRefCount, hinfo⟩ := h.entry
  have hservice : ({ info with nRefCount := nRefCount } : CAddrInfo).newPlace hash man.nKey =
      info.newPlace hash man.nKey := newPlace_congr rfl
  unfold removeFromBucket
  simp only [hinfo, Option.bind_eq_bind, Option.bind_some, hservice]
  by_cases hplace : man.vvNew (info.newPlace hash man.nKey bucket) = some nId
  · rw [if_pos hplace]
    have hleft := h.kept.leave hinfo hplace
    rw [Set.insert_eq_of_mem (Set.mem_singleton nId)] at hleft
    refine ⟨_, rfl, hleft, h.nKey, h.vvTried, ⟨_, AList.lookup_insert _⟩, ?_, ?_, ?_⟩
    · intro bucket' hbucket'
      simp only
      by_cases hsame : info.newPlace hash man.nKey bucket' = info.newPlace hash man.nKey bucket
      · rw [hsame, Function.update_self]
        exact (Option.some_ne_none nId).symm
      · rw [Function.update_of_ne hsame]
        rcases List.mem_append.mp hbucket' with hvisited | hnow
        · exact h.gone bucket' hvisited
        · rw [List.mem_singleton.mp hnow] at hsame
          contradiction
    · intro place hplace'
      apply h.rest
      have hupdated : Function.update man.vvNew (info.newPlace hash man.nKey bucket) none place =
          some nId := hplace'
      by_cases hsame : place = info.newPlace hash man.nKey bucket
      · rw [hsame, Function.update_self] at hupdated
        contradiction
      · rwa [Function.update_of_ne hsame] at hupdated
    · intro nId' hne
      rw [← h.others nId' hne, AList.lookup_insert_ne hne]
  · rw [if_neg hplace]
    refine ⟨man, rfl, h.kept, h.nKey, h.vvTried, h.entry, ?_, h.rest, h.others⟩
    intro bucket' hbucket'
    rcases List.mem_append.mp hbucket' with hvisited | hnow
    · exact h.gone bucket' hvisited
    · rwa [List.mem_singleton.mp hnow]

/-- Removed from all buckets, the entry has no reference left. -/
theorem Kept.removed (h : Kept hash ∅ 0 0 man) (hinfo : man.mapInfo.lookup nId = some info) :
    ∃ man', (List.range ADDRMAN_NEW_BUCKET_COUNT).foldlM (removeFromBucket hash nId) man =
        some man' ∧ Kept hash {nId} 0 0 man' ∧ man'.nKey = man.nKey ∧
      man'.vvTried = man.vvTried ∧ (info.fInTried = false →
        man'.mapInfo.lookup nId = some { info with nRefCount := 0 }) ∧
      ∀ nId', nId' ≠ nId → man'.mapInfo.lookup nId' = man.mapInfo.lookup nId' := by
  have hstart : Removing hash nId info [] man man :=
    ⟨h.mono (Set.empty_subset _), rfl, rfl, ⟨info.nRefCount, hinfo⟩, by simp, fun _ => id,
      fun _ _ => rfl⟩
  obtain ⟨man', hloop, hremoved⟩ := @exists_foldlM_pure Option _ _ _ _ _
    (fun visited => Removing hash nId info visited man) (List.range ADDRMAN_NEW_BUCKET_COUNT) man
    hstart fun _ bucket _ _ _ hremoving => hremoving.step bucket
  refine ⟨man', hloop, hremoved.kept, hremoved.nKey, hremoved.vvTried, ?_, hremoved.others⟩
  intro hin
  obtain ⟨nRefCount, hinfo'⟩ := hremoved.entry
  have hstands := ((hremoved.kept.stands nId _ hinfo').new hin).1
  have hnone : heldIn man'.vvNew newPlaces (some nId) = 0 := by
    apply heldIn_eq_zero.mpr
    intro place _ hplace
    obtain ⟨hbucket, -, heq⟩ := hremoved.kept.eq_newPlace hinfo' hplace
    refine hremoved.gone place.1 ?_ ?_
    · simpa using hbucket
    · have hservice : ({ info with nRefCount := nRefCount } : CAddrInfo).newPlace hash man'.nKey =
          info.newPlace hash man'.nKey := newPlace_congr rfl
      rw [← hservice, ← heq]
      exact hplace
  have hzero : nRefCount = 0 := by
    have hcount : nRefCount = heldIn man'.vvNew newPlaces (some nId) := hstands
    omega
  rw [← hzero]
  exact hinfo'

/-- Another count of the new entries. -/
theorem Kept.recountNew (h : Kept hash loose newAhead triedAhead man) (nNew ahead : ℤ)
    (hahead : nNew + ahead = man.nNew + newAhead) :
    Kept hash loose ahead triedAhead { man with nNew := nNew } := by
  have hkept := h.recount nNew man.nTried
  have hnew : man.nNew + newAhead - nNew = ahead := by omega
  have htried : man.nTried + triedAhead - man.nTried = triedAhead := by omega
  rw [hnew, htried] at hkept
  exact hkept

/-- The tried entry in a place goes back to the new table. Entries without a reference stay. -/
theorem Kept.evict (h : Kept hash loose newAhead triedAhead man) (place : ℕ × ℕ) :
    ∃ man', man.evict hash place = some man' ∧ Kept hash loose newAhead triedAhead man' ∧
      man'.nKey = man.nKey ∧ man'.vvTried = Function.update man.vvTried place none ∧
      ∀ nId info, man.mapInfo.lookup nId = some info → info.fInTried = false →
        info.nRefCount = 0 →
        ∃ info', man'.mapInfo.lookup nId = some info' ∧ info'.unplaced = info.unplaced := by
  unfold CAddrMan.evict
  cases hplace : man.vvTried place with
  | none =>
    refine ⟨man, rfl, h, rfl, ?_, fun nId info hinfo _ _ => ⟨info, hinfo, rfl⟩⟩
    rw [← hplace, Function.update_eq_self]
  | some nIdEvict =>
    obtain ⟨infoOld, hinfo, hin, -⟩ := h.tried place nIdEvict hplace
    have hcount : infoOld.nRefCount = 0 := ((h.stands nIdEvict infoOld hinfo).tried hin).1
    have hleft := h.leaveTried hinfo hplace
    have hnowhere := h.vvNew_ne hinfo hcount
    simp only [hinfo, Option.bind_eq_bind, Option.bind_some]
    generalize hnewPlace : infoOld.newPlace hash man.nKey
      (infoOld.getNewBucket hash man.nKey infoOld.source) = newPlace
    obtain ⟨cleared, hclear, hkept, hsame⟩ := hleft.clearNew newPlace
    obtain ⟨info, hinfo', hunplaced⟩ := hsame.entries nIdEvict _ (hnowhere newPlace)
      (AList.lookup_insert _)
    have hin' := congr_unplaced CAddrInfo.fInTried hunplaced
    have hcount' : info.nRefCount = 0 :=
      (congr_unplaced CAddrInfo.nRefCount hunplaced).trans hcount
    have hservice := congr_unplaced CAddrInfo.service hunplaced
    have hfree : cleared.vvNew newPlace = none := by rw [hsame.vvNew, Function.update_self]
    have hat : newPlace = info.newPlace hash cleared.nKey
        (infoOld.getNewBucket hash man.nKey infoOld.source) := by
      rw [hsame.nKey, newPlace_congr hservice]
      exact hnewPlace.symm
    have hentered := hkept.enter hinfo' hin' getNewBucket_lt hat hfree (by rw [hcount']; decide)
    have hone : info.nRefCount + 1 = 1 := by omega
    rw [hone] at hentered
    have hcounted := hentered.recountNew (cleared.nNew + 1) newAhead (by
      simp only
      omega)
    have hloose : insert nIdEvict loose \ {nIdEvict} ⊆ loose := by
      rintro nId ⟨hmem, hne⟩
      exact Set.mem_of_mem_insert_of_ne hmem hne
    rw [hclear]
    simp only [Option.bind_some, hfree, ne_eq, not_true_eq_false, if_false, hinfo']
    refine ⟨_, rfl, hcounted.mono hloose, hsame.nKey, hsame.vvTried, ?_⟩
    intro nId info₀ hinfo₀ hin₀ hcount₀
    have hne : nId ≠ nIdEvict := by
      rintro rfl
      obtain rfl := Option.some.inj (hinfo.symm.trans hinfo₀)
      rw [hin] at hin₀
      contradiction
    obtain ⟨info', hinfo'', hunplaced'⟩ := hsame.entries nId info₀ (h.vvNew_ne hinfo₀ hcount₀ _) (by
      rw [AList.lookup_insert_ne hne, hinfo₀])
    exact ⟨info', by rw [AList.lookup_insert_ne hne, hinfo''], hunplaced'⟩

/-- A new entry that was reached becomes a tried one. -/
theorem Kept.makeTried (h : Kept hash ∅ 0 0 man) (hinfo : man.mapInfo.lookup nId = some info)
    (hin : info.fInTried = false) (hsuccess : 0 < info.nLastSuccess) :
    ∃ man', man.makeTried hash nId = some man' ∧ Kept hash ∅ 0 0 man' ∧
      ∃ info', man'.mapInfo.lookup nId = some info' ∧ info'.service = info.service ∧
        info'.fInTried = true := by
  obtain ⟨removed, hloop, hkept, hkey, -, hfound, -⟩ := h.removed hinfo
  have hinfo' := hfound hin
  have hcounted := hkept.recountNew (removed.nNew - 1) 1 (by omega)
  generalize hplace : CAddrInfo.triedPlace hash man.nKey { info with nRefCount := 0 } = place
  obtain ⟨evicted, hevict, hkept', hkey', htried, hstay⟩ := hcounted.evict place
  obtain ⟨info', hinfo'', hunplaced⟩ := hstay nId _ hinfo' hin rfl
  have hin' : info'.fInTried = false := (congr_unplaced CAddrInfo.fInTried hunplaced).trans hin
  have hcount' : info'.nRefCount = 0 := congr_unplaced CAddrInfo.nRefCount hunplaced
  have hsuccess' : info'.nLastSuccess = info.nLastSuccess :=
    (congr_unplaced CAddrInfo.nLastSuccess hunplaced).trans rfl
  have hservice := congr_unplaced CAddrInfo.service hunplaced
  have hfree : evicted.vvTried place = none := by rw [htried, Function.update_self]
  have hat : place = info'.triedPlace hash evicted.nKey := by
    have hsame : evicted.nKey = man.nKey := hkey'.trans hkey
    rw [hsame, triedPlace_congr hservice]
    exact hplace.symm
  have hentered := hkept'.enterTried hinfo'' hin' hcount' (by omega) hat hfree
  refine ⟨_, ?_, hentered.mono ?_, _, AList.lookup_insert _, hservice, rfl⟩
  · unfold CAddrMan.makeTried
    rw [hloop]
    simp [hinfo', hplace, hevict, hfree, hinfo'']
  · intro nId' hmem
    exact absurd hmem.1 hmem.2

end CAddrMan
end Lytix
