import Lytix.Lib.Runs
import Lytix.Net.AddrManKept
import Lytix.Net.AddrManOperations

/-! The consistency check of an address manager passes wherever the manager is kept. -/
namespace Lytix
open Checks CountEntries OrderedTables SlotTables SwapIndex

namespace CAddrMan
open CAddrInfo

variable {hash : List UInt8 → UInt64} {man : CAddrMan} {nId : ℕ} {info : CAddrInfo}

theorem Kept.length_vRandom (h : Kept hash ∅ 0 0 man) :
    (man.vRandom.length : ℤ) = man.nTried + man.nNew := by
  have hperm : man.vRandom.Perm man.mapInfo.keys := by
    apply (List.perm_ext_iff_of_nodup h.positions.nodup man.mapInfo.nodupKeys).mpr
    intro nId
    have hmem : nId ∈ man.mapInfo.keys ↔ (man.mapInfo.lookup nId).isSome := by
      rw [← AList.mem_keys, AList.lookup_isSome]
    have hposition := h.positions.mem_iff (k := nId)
    unfold position at hposition
    rw [Option.isSome_map] at hposition
    exact hposition.trans hmem.symm
  have hsplit := @count_add_count_not _ _ (fun _ info => info.fInTried) man.mapInfo
  have htried := h.triedCount
  have hnew := h.newCount
  unfold CAddrMan.triedCount at htried
  unfold CAddrMan.newCount at hnew
  rw [hperm.length_eq]
  unfold size at hsplit
  omega

/-- Entries that all stand in a table are no more than its places. -/
theorem count_le_places {q : ℕ → CAddrInfo → Bool} {table : ℕ × ℕ → Option ℕ} {ps : List (ℕ × ℕ)}
    (h : ∀ nId info, man.mapInfo.lookup nId = some info → q nId info = true →
      ∃ place ∈ ps, table place = some nId) : count q man.mapInfo ≤ ps.length := by
  have hcount := @countP_inOrder _ _ id man.mapInfo q
  have hnodup := @nodup_keys_inOrder _ _ id man.mapInfo
  rw [← hcount, List.countP_eq_length_filter]
  have hsub : (((inOrder id man.mapInfo).filter fun e => q e.1 e.2).map Prod.fst).Sublist
      ((inOrder id man.mapInfo).map Prod.fst) := List.filter_sublist.map Prod.fst
  have hbound : ((((inOrder id man.mapInfo).filter fun e => q e.1 e.2).map Prod.fst).map
      some).length ≤ ps.length := by
    apply @length_le_places _ table
    · exact (hnodup.sublist hsub).map (Option.some_injective ℕ)
    · intro v hv
      obtain ⟨nId, hid, rfl⟩ := List.mem_map.mp hv
      obtain ⟨⟨n, info⟩, hentry, rfl⟩ := List.mem_map.mp hid
      obtain ⟨hmem, hq⟩ := List.mem_filter.mp hentry
      exact h n info (mem_inOrder.mp hmem) hq
  simpa using hbound

/-- However many addresses come in, there is an entry for at most as many as there are places. -/
theorem Kept.length_vRandom_le (h : Kept hash ∅ 0 0 man) : man.vRandom.length ≤
    (ADDRMAN_TRIED_BUCKET_COUNT + ADDRMAN_NEW_BUCKET_COUNT) * ADDRMAN_BUCKET_SIZE := by
  have htried : man.triedCount ≤ triedPlaces.length := by
    apply count_le_places
    intro nId info hinfo hin
    exact ⟨_, triedPlace_mem, ((h.stands nId info hinfo).tried hin).2.2⟩
  have hnew : man.newCount ≤ newPlaces.length := by
    apply count_le_places
    intro nId info hinfo hin
    rw [Bool.not_eq_true'] at hin
    have hpos := h.referred nId info hinfo hin (Set.notMem_empty nId)
    have hheld := ((h.stands nId info hinfo).new hin).1
    have hthere : ∃ place ∈ newPlaces, man.vvNew place = some nId := heldIn_pos.mp (by omega)
    exact hthere
  have hlength := h.length_vRandom
  have htriedCount := h.triedCount
  have hnewCount := h.newCount
  unfold triedPlaces at htried
  unfold newPlaces at hnew
  rw [length_places] at htried hnew
  rw [Nat.add_mul]
  omega

/-- What the check has gathered from the entries before. -/
structure SeenInfos (before : List (ℕ × CAddrInfo)) (seen : Finset ℕ × Table ℕ ℤ) : Prop where
  tried : ∀ n, n ∈ seen.1 ↔ ∃ info, (n, info) ∈ before ∧ info.fInTried = true
  card : seen.1.card = before.countP fun e => e.2.fInTried
  new : ∀ n c, seen.2.lookup n = some c ↔
    ∃ info, (n, info) ∈ before ∧ info.fInTried = false ∧ info.nRefCount = c
  size : size seen.2 = before.countP fun e => !e.2.fInTried

theorem SeenInfos.insertTried {before : List (ℕ × CAddrInfo)} {seen : Finset ℕ × Table ℕ ℤ}
    (h : SeenInfos before seen) (hfresh : nId ∉ before.map Prod.fst)
    (hin : info.fInTried = true) :
    SeenInfos (before ++ [(nId, info)]) (insert nId seen.1, seen.2) where
  tried := by
    intro n
    simp only [Finset.mem_insert, h.tried, List.mem_append, List.mem_singleton, Prod.mk.injEq]
    constructor
    · rintro (rfl | ⟨info', hmem, hin'⟩)
      · exact ⟨info, Or.inr ⟨rfl, rfl⟩, hin⟩
      · exact ⟨info', Or.inl hmem, hin'⟩
    · rintro ⟨info', hmem | ⟨rfl, -⟩, hin'⟩
      · exact Or.inr ⟨info', hmem, hin'⟩
      · exact Or.inl rfl
  card := by
    have hnot : nId ∉ seen.1 := by
      rw [h.tried]
      rintro ⟨info', hmem, -⟩
      exact hfresh (List.mem_map_of_mem hmem)
    rw [Finset.card_insert_of_notMem hnot, h.card, List.countP_append]
    simp [hin]
  new := by
    intro n c
    simp only [h.new, List.mem_append, List.mem_singleton, Prod.mk.injEq]
    constructor
    · rintro ⟨info', hmem, hrest⟩
      exact ⟨info', Or.inl hmem, hrest⟩
    · rintro ⟨info', hmem | ⟨-, rfl⟩, hin', hcount⟩
      · exact ⟨info', hmem, hin', hcount⟩
      · rw [hin] at hin'
        contradiction
  size := by
    rw [h.size, List.countP_append]
    simp [hin]

theorem SeenInfos.insertNew {before : List (ℕ × CAddrInfo)} {seen : Finset ℕ × Table ℕ ℤ}
    (h : SeenInfos before seen) (hfresh : nId ∉ before.map Prod.fst)
    (hin : info.fInTried = false) :
    SeenInfos (before ++ [(nId, info)]) (seen.1, seen.2.insert nId info.nRefCount) where
  tried := by
    intro n
    simp only [h.tried, List.mem_append, List.mem_singleton, Prod.mk.injEq]
    constructor
    · rintro ⟨info', hmem, hin'⟩
      exact ⟨info', Or.inl hmem, hin'⟩
    · rintro ⟨info', hmem | ⟨-, rfl⟩, hin'⟩
      · exact ⟨info', hmem, hin'⟩
      · rw [hin] at hin'
        contradiction
  card := by
    rw [h.card, List.countP_append]
    simp [hin]
  new := by
    intro n c
    simp only [List.mem_append, List.mem_singleton, Prod.mk.injEq]
    by_cases hsame : n = nId
    · subst hsame
      rw [AList.lookup_insert, Option.some_inj]
      constructor
      · rintro rfl
        exact ⟨info, Or.inr ⟨rfl, rfl⟩, hin, rfl⟩
      · rintro ⟨info', hmem | ⟨-, rfl⟩, -, hcount⟩
        · exact absurd (List.mem_map_of_mem hmem) hfresh
        · exact hcount
    · rw [AList.lookup_insert_ne hsame, h.new]
      simp [hsame]
  size := by
    have hnot : nId ∉ seen.2 := by
      rw [← AList.lookup_eq_none, Option.eq_none_iff_forall_ne_some]
      intro c hlookup
      obtain ⟨info', hmem, -⟩ := (h.new nId c).mp hlookup
      exact hfresh (List.mem_map_of_mem hmem)
    rw [size_insert, erase_of_notMem hnot, h.size, List.countP_append]
    simp [hin]

theorem Kept.checkInfo (h : Kept hash ∅ 0 0 man) {before : List (ℕ × CAddrInfo)}
    {seen : Finset ℕ × Table ℕ ℤ} (hseen : SeenInfos before seen)
    (hfresh : nId ∉ before.map Prod.fst) (hinfo : man.mapInfo.lookup nId = some info) :
    ∃ seen', man.checkInfo seen (nId, info) = .ok seen' ∧
      SeenInfos (before ++ [(nId, info)]) seen' := by
  have hstands := h.stands nId info hinfo
  have hposition : man.position nId = some info.nRandomPos := by
    unfold position
    rw [hinfo, Option.map_some]
  obtain ⟨i, hi, hget⟩ := h.positions.exists_index hposition
  have haddr : man.mapAddr info.address = some nId := (h.address _ _).mpr ⟨info, hinfo, rfl⟩
  have hplace : man.atRandom info.nRandomPos = some nId := by
    unfold atRandom
    rw [hi, if_neg (by omega), Int.toNat_natCast, hget]
  have htry : ¬info.nLastTry < 0 := not_lt.mpr hstands.lastTry
  have hsuccess : ¬info.nLastSuccess < 0 := not_lt.mpr hstands.lastSuccess
  unfold CAddrMan.checkInfo
  cases hin : info.fInTried with
  | true =>
    obtain ⟨hcount, hpos, -⟩ := hstands.tried hin
    refine ⟨_, ?_, hseen.insertTried hfresh hin⟩
    simp [stopIf, hin, hcount, hpos.ne', haddr, hplace, htry, hsuccess, bind, Except.bind, pure,
      Except.pure]
  | false =>
    have hmax := (hstands.new hin).2
    have hpos := h.referred nId info hinfo hin (Set.notMem_empty nId)
    have hrange : ¬(info.nRefCount < 0 ∨ ADDRMAN_NEW_BUCKETS_PER_ADDRESS < info.nRefCount) := by
      omega
    refine ⟨_, ?_, hseen.insertNew hfresh hin⟩
    simp only [stopIf, hin, hrange, hpos.ne', haddr, hplace, htry, hsuccess, bind, Except.bind,
      pure, Except.pure, if_false, Bool.false_eq_true, Option.getD_some, ne_eq, not_true_eq_false]

theorem Kept.checkInfos (h : Kept hash ∅ 0 0 man) :
    ∃ seen, (inOrder id man.mapInfo).foldlM man.checkInfo (∅, ∅) = .ok seen ∧
      SeenInfos (inOrder id man.mapInfo) seen := by
  have hstart : SeenInfos [] (∅, ∅) := ⟨by simp, by simp, by simp, rfl⟩
  apply exists_foldlM_pure hstart
  intro before entry after seen hsplit hseen
  have hmem : entry ∈ inOrder id man.mapInfo := by simp [hsplit]
  have hnodup := @nodup_keys_inOrder _ _ id man.mapInfo
  rw [hsplit, List.map_append, List.map_cons] at hnodup
  have hfresh : entry.1 ∉ before.map Prod.fst := by
    intro hbefore
    exact (List.nodup_append.mp hnodup).2.2 _ hbefore _ List.mem_cons_self rfl
  exact h.checkInfo hseen hfresh (mem_inOrder.mp hmem)

/-- The tried entries that the check has not come to in the tried table. -/
structure LeftTried (man : CAddrMan) (before : List (ℕ × ℕ)) (left : Finset ℕ) : Prop where
  mem : ∀ n, n ∈ left ↔ (∃ info, man.mapInfo.lookup n = some info ∧ info.fInTried = true) ∧
    ∀ place ∈ before, man.vvTried place ≠ some n

theorem Kept.checkTried (h : Kept hash ∅ 0 0 man) {before : List (ℕ × ℕ)} {left : Finset ℕ}
    {place : ℕ × ℕ} (hleft : LeftTried man before left) (hfresh : place ∉ before) :
    ∃ left', man.checkTried hash left place = .ok left' ∧
      LeftTried man (before ++ [place]) left' := by
  unfold CAddrMan.checkTried
  cases hplace : man.vvTried place with
  | none =>
    refine ⟨left, rfl, ⟨?_⟩⟩
    intro n
    rw [hleft.mem]
    simp [or_imp, forall_and, hplace]
  | some nId =>
    obtain ⟨info, hinfo, hin, heq⟩ := h.tried place nId hplace
    have hmem : nId ∈ left := by
      refine (hleft.mem nId).mpr ⟨⟨info, hinfo, hin⟩, ?_⟩
      intro place' hbefore hplace'
      have heq' := (h.eq_triedPlace hinfo hplace').2
      exact hfresh (heq.trans heq'.symm ▸ hbefore)
    have hbucket : info.getTriedBucket hash man.nKey = place.1 := by
      rw [heq]
      rfl
    have hposition : info.getBucketPosition hash man.nKey false place.1 = place.2 := by
      rw [heq]
      rfl
    refine ⟨left.erase nId, ?_, ⟨?_⟩⟩
    · simp [stopIf, orStop, hmem, hinfo, hbucket, hposition, bind, Except.bind, pure, Except.pure]
    · intro n
      rw [Finset.mem_erase, hleft.mem]
      constructor
      · rintro ⟨hne, hthere, hnone⟩
        refine ⟨hthere, ?_⟩
        intro place' hmem'
        rcases List.mem_append.mp hmem' with hbefore | hnow
        · exact hnone place' hbefore
        · rw [List.mem_singleton.mp hnow, hplace]
          simpa using Ne.symm hne
      · rintro ⟨hthere, hnone⟩
        refine ⟨?_, hthere, fun place' hbefore => hnone place' (List.mem_append_left _ hbefore)⟩
        rintro rfl
        exact hnone place (by simp) hplace

theorem Kept.checkTriedTable (h : Kept hash ∅ 0 0 man) {setTried : Finset ℕ}
    (hset : ∀ n, n ∈ setTried ↔ ∃ info, man.mapInfo.lookup n = some info ∧ info.fInTried = true) :
    triedPlaces.foldlM (man.checkTried hash) setTried = .ok ∅ := by
  have hstart : LeftTried man [] setTried := ⟨fun n => by simp [hset]⟩
  have hnodup : triedPlaces.Nodup := nodup_places
  have hloop := @exists_foldlM_pure (Except ℤ) _ _ _ _ (man.checkTried hash)
    (fun before => LeftTried man before) triedPlaces setTried hstart (by
      intro before place after left hsplit hleft
      rw [hsplit] at hnodup
      apply h.checkTried hleft
      intro hbefore
      exact (List.nodup_append.mp hnodup).2.2 _ hbefore _ List.mem_cons_self rfl)
  obtain ⟨left, hpass, hleft⟩ := hloop
  have hempty : left = ∅ := by
    rw [Finset.eq_empty_iff_forall_notMem]
    intro n hmem
    obtain ⟨⟨info, hinfo, hin⟩, hnone⟩ := (hleft.mem n).mp hmem
    exact hnone _ triedPlace_mem ((h.stands n info hinfo).tried hin).2.2
  rw [hpass, hempty]
  rfl

/-- How many places of each new entry the check has not come to. -/
structure LeftNew (man : CAddrMan) (before : List (ℕ × ℕ)) (left : Table ℕ ℤ) : Prop where
  lookup : ∀ n c, left.lookup n = some c ↔ 0 < c ∧ ∃ info, man.mapInfo.lookup n = some info ∧
    info.fInTried = false ∧ c = info.nRefCount - heldIn man.vvNew before (some n)

theorem heldIn_concat {table : ℕ × ℕ → Option ℕ} {ps : List (ℕ × ℕ)} {p : ℕ × ℕ} {v : Option ℕ} :
    heldIn table (ps ++ [p]) v = heldIn table ps v + if table p = v then 1 else 0 := by
  unfold heldIn
  rw [List.countP_append, List.countP_singleton]
  simp

theorem Kept.checkNew (h : Kept hash ∅ 0 0 man) {before after : List (ℕ × ℕ)} {left : Table ℕ ℤ}
    {place : ℕ × ℕ} (hleft : LeftNew man before left)
    (hsplit : newPlaces = before ++ place :: after) :
    ∃ left', man.checkNew hash left place = .ok left' ∧
      LeftNew man (before ++ [place]) left' := by
  unfold CAddrMan.checkNew
  cases hplace : man.vvNew place with
  | none =>
    refine ⟨left, rfl, ⟨?_⟩⟩
    intro n c
    rw [hleft.lookup, heldIn_concat, hplace]
    simp
  | some nId =>
    obtain ⟨-, info, hinfo, hin, heq⟩ := h.new place nId hplace
    have hheld := ((h.stands nId info hinfo).new hin).1
    have hless : heldIn man.vvNew before (some nId) + 1 ≤ heldIn man.vvNew newPlaces (some nId) := by
      rw [hsplit]
      unfold heldIn
      rw [List.countP_append, List.countP_cons]
      simp [hplace]
    have hfound : left.lookup nId =
        some (info.nRefCount - heldIn man.vvNew before (some nId)) :=
      (hleft.lookup nId _).mpr ⟨by omega, info, hinfo, hin, rfl⟩
    have hposition : info.getBucketPosition hash man.nKey true place.1 = place.2 := by
      have hsecond := congrArg Prod.snd heq
      exact hsecond.symm
    simp only [orStop, hfound, hinfo, stopIf, hposition, ne_eq, not_true_eq_false, if_false, bind,
      Except.bind, pure, Except.pure]
    refine ⟨_, rfl, ⟨?_⟩⟩
    intro n c
    rw [heldIn_concat, hplace]
    by_cases hsame : n = nId
    · subst hsame
      have hown : (∃ info, man.mapInfo.lookup n = some info ∧ info.fInTried = false ∧
          c = info.nRefCount - ((heldIn man.vvNew before (some n) +
            if some n = some n then 1 else 0 : ℕ) : ℤ)) ↔
          c = info.nRefCount - heldIn man.vvNew before (some n) - 1 := by
        rw [if_pos rfl]
        constructor
        · rintro ⟨info', hinfo', -, heq'⟩
          obtain rfl := Option.some.inj (hinfo.symm.trans hinfo')
          omega
        · intro heq'
          exact ⟨info, hinfo, hin, by omega⟩
      rw [hown]
      split_ifs with hlast
      · rw [AList.lookup_erase]
        refine iff_of_false (Option.some_ne_none c).symm ?_
        rintro ⟨hpos, heq'⟩
        omega
      · rw [AList.lookup_insert, Option.some_inj]
        constructor
        · rintro rfl
          exact ⟨by omega, rfl⟩
        · rintro ⟨-, rfl⟩
          rfl
    · have hother : (if some nId = some n then 1 else 0 : ℕ) = 0 := by
        rw [if_neg]
        simpa using Ne.symm hsame
      have hsame' : (if info.nRefCount - heldIn man.vvNew before (some nId) - 1 = 0
          then left.erase nId
          else left.insert nId
            (info.nRefCount - heldIn man.vvNew before (some nId) - 1)).lookup n =
          left.lookup n := by
        split_ifs
        · rw [AList.lookup_erase_ne hsame]
        · rw [AList.lookup_insert_ne hsame]
      rw [hsame', hleft.lookup, hother, Nat.add_zero]

theorem Kept.checkNewTable (h : Kept hash ∅ 0 0 man) {mapNew : Table ℕ ℤ}
    (hmap : ∀ n c, mapNew.lookup n = some c ↔ ∃ info, man.mapInfo.lookup n = some info ∧
      info.fInTried = false ∧ info.nRefCount = c) :
    newPlaces.foldlM (man.checkNew hash) mapNew = .ok ∅ := by
  have hstart : LeftNew man [] mapNew := by
    refine ⟨fun n c => ?_⟩
    rw [hmap]
    have hnone : heldIn man.vvNew [] (some n) = 0 := rfl
    rw [hnone]
    constructor
    · rintro ⟨info, hinfo, hin, rfl⟩
      have hpos := h.referred n info hinfo hin (Set.notMem_empty n)
      exact ⟨hpos, info, hinfo, hin, by omega⟩
    · rintro ⟨-, info, hinfo, hin, rfl⟩
      exact ⟨info, hinfo, hin, by omega⟩
  have hloop := @exists_foldlM_pure (Except ℤ) _ _ _ _ (man.checkNew hash)
    (fun before => LeftNew man before) newPlaces mapNew hstart
    fun _ _ _ _ hsplit hleft => h.checkNew hleft hsplit
  obtain ⟨left, hpass, hleft⟩ := hloop
  have hempty : left = ∅ := by
    apply AList.ext
    rw [AList.empty_entries, List.eq_nil_iff_forall_not_mem]
    intro entry hmem
    have hlookup : left.lookup entry.1 = some entry.2 := mem_entries_iff.mp hmem
    obtain ⟨hpos, info, hinfo, hin, heq⟩ := (hleft.lookup _ _).mp hlookup
    have hheld := ((h.stands entry.1 info hinfo).new hin).1
    omega
  rw [hpass, hempty]
  rfl

/-- `Check_` finds nothing. -/
theorem Kept.check_eq_zero (h : Kept hash ∅ 0 0 man) : man.check_ hash = 0 := by
  obtain ⟨seen, hpass, hseen⟩ := h.checkInfos
  have hmem : ∀ n info, (n, info) ∈ inOrder id man.mapInfo ↔ man.mapInfo.lookup n = some info :=
    fun n info => mem_inOrder
  have htried : (seen.1.card : ℤ) = man.nTried := by
    have hcounted : (inOrder id man.mapInfo).countP (fun e => e.2.fInTried) = man.triedCount :=
      countP_inOrder fun _ (info : CAddrInfo) => info.fInTried
    have hcount := h.triedCount
    rw [hseen.card, hcounted]
    omega
  have hnew : (size seen.2 : ℤ) = man.nNew := by
    have hcounted : (inOrder id man.mapInfo).countP (fun e => !e.2.fInTried) = man.newCount :=
      countP_inOrder fun _ (info : CAddrInfo) => !info.fInTried
    have hcount := h.newCount
    rw [hseen.size, hcounted]
    omega
  have htable : triedPlaces.foldlM (man.checkTried hash) seen.1 = .ok ∅ := by
    apply h.checkTriedTable
    intro n
    simp only [hseen.tried, hmem]
  have htable' : newPlaces.foldlM (man.checkNew hash) seen.2 = .ok ∅ := by
    apply h.checkNewTable
    intro n c
    simp only [hseen.new, hmem]
  have hsize : size (∅ : Table ℕ ℤ) = 0 := rfl
  have hkey : ¬man.nKey = 0#256 := h.key
  have hchecks : man.checks hash = .ok () := by
    unfold checks
    simp [stopIf, h.length_vRandom, hpass, htried, hnew, htable, htable', hsize, hkey, bind,
      Except.bind]
  unfold check_
  rw [hchecks]

end CAddrMan
end Lytix

/-! Runs of an address manager: whatever it is asked in whatever order, no assertion fails and it
stays consistent. -/
namespace Lytix
open CountEntries SwapIndex

/-- What an address manager is asked, with what it draws and the time it is. -/
inductive AddrManEvent where
  | add (addr : CAddress) (source : CNetAddr) (nTimePenalty nNow : Int) (nRand : Nat → Nat)
  | good (addr : CService) (nTime : Int) (nRnd : Nat)
  | attempt (addr : CService) (nTime : Int)
  | connected (addr : CService) (nTime : Int)
  | getAddr (nNow : Int) (nRand : Nat → Nat)

/-- Times are positive, and what is drawn is below its bound. -/
def AddrManEvent.Valid : AddrManEvent → Prop
  | .add _ _ _ _ _ => True
  | .good _ nTime _ => 0 < nTime
  | .attempt _ nTime => 0 ≤ nTime
  | .connected _ _ => True
  | .getAddr _ nRand => ∀ m, 0 < m → nRand m < m

namespace CAddrMan
open CAddrInfo

section
variable (hash : List UInt8 → UInt64)

def step (man : CAddrMan) : AddrManEvent → Option CAddrMan
  | .add addr source nTimePenalty nNow nRand =>
    (man.add hash addr source nTimePenalty nNow nRand).map Prod.snd
  | .good addr nTime nRnd => man.good hash addr nTime nRnd
  | .attempt addr nTime => some (man.attempt addr nTime)
  | .connected addr nTime => some (man.connected addr nTime)
  | .getAddr nNow nRand => (man.getAddr nNow nRand).map Prod.fst

end

variable {hash : List UInt8 → UInt64} {man : CAddrMan} {nKey : Uint256}

theorem kept_new (hkey : nKey ≠ 0) : Kept hash ∅ 0 0 (new nKey) where
  stands := by simp [new, clear]
  tried := by simp [new, clear]
  new := by simp [new, clear]
  referred := by simp [new, clear]
  old := by simp [new, clear]
  address := by simp [new, clear]
  positions := inverse_nil fun _ => rfl
  key := hkey
  newCount := rfl
  triedCount := rfl

theorem Kept.step (h : Kept hash ∅ 0 0 man) {event : AddrManEvent} (hvalid : event.Valid) :
    ∃ man', man.step hash event = some man' ∧ Kept hash ∅ 0 0 man' := by
  cases event with
  | add addr source nTimePenalty nNow nRand =>
    obtain ⟨fNew, man', hadd, hkept⟩ := h.add addr source nTimePenalty nNow nRand
    exact ⟨man', congrArg (Option.map Prod.snd) hadd, hkept⟩
  | good addr nTime nRnd =>
    obtain ⟨man', hgood, hkept, -⟩ := h.good addr hvalid nRnd
    exact ⟨man', hgood, hkept⟩
  | attempt addr nTime => exact ⟨_, rfl, h.attempt addr hvalid⟩
  | connected addr nTime => exact ⟨_, rfl, h.connected addr nTime⟩
  | getAddr nNow nRand =>
    obtain ⟨gathered, hgather, hgathering⟩ := h.getAddr nNow hvalid
    exact ⟨gathered.1, congrArg (Option.map Prod.fst) hgather, hgathering.kept⟩

theorem Kept.run (h : Kept hash ∅ 0 0 man) {events : List AddrManEvent}
    (hvalid : ∀ event ∈ events, event.Valid) :
    ∃ man', Runs.attempt (CAddrMan.step hash) man events = some man' ∧ Kept hash ∅ 0 0 man' := by
  induction events generalizing man with
  | nil => exact ⟨man, rfl, h⟩
  | cons event events ih =>
    obtain ⟨next, hstep, hnext⟩ := h.step (hvalid event List.mem_cons_self)
    obtain ⟨last, hrun, hlast⟩ := ih hnext fun later hmem =>
      hvalid later (List.mem_cons_of_mem event hmem)
    exact ⟨last, Runs.attempt_cons_eq_some.mpr ⟨next, hstep, hrun⟩, hlast⟩

/-- The address 8.8.8.8:9777, heard of from itself. -/
def exampleEvent : AddrManEvent :=
  .add ⟨⟨⟨pchIPv4 ++ [8, 8, 8, 8], by decide⟩, 9777⟩, 1, 1600000000⟩
    ⟨pchIPv4 ++ [8, 8, 8, 8], by decide⟩ 0 1600000000 id

end CAddrMan
end Lytix
