import Lytix.Masternodes.Pings

/-! What `CheckAndRemove` forgets. The loop over the expired broadcasts takes the hash for the sync
table from its iterator after it moved on, so it erases the entry of the next broadcast. -/
namespace Lytix.Masternodes

/-- `masternodeSync.mapSeenSyncMNB`. -/
abbrev SyncTable := Uint256 → Option Int

def SyncTable.erase (mapSeenSyncMNB : SyncTable) (hash : Uint256) : SyncTable :=
  Function.update mapSeenSyncMNB hash none

/-- `mapSeenMasternodeBroadcast` in its order: each broadcast is stored under its own hash. -/
structure SeenBroadcasts (getHash : CMasternodeBroadcast → Uint256) where
  entries : List (Uint256 × CMasternodeBroadcast)
  ordered : (entries.map Prod.fst).Pairwise fun a b => a.toNat < b.toNat
  keyed : ∀ entry ∈ entries, getHash entry.2 = entry.1

/-- Broadcasts are erased, and the others stay where they are. -/
def SeenBroadcasts.keep {getHash : CMasternodeBroadcast → Uint256} (seen : SeenBroadcasts getHash)
    (kept : List (Uint256 × CMasternodeBroadcast)) (hsub : kept.Sublist seen.entries) :
    SeenBroadcasts getHash where
  entries := kept
  ordered := seen.ordered.sublist (hsub.map Prod.fst)
  keyed := fun entry hmem => seen.keyed entry (hsub.subset hmem)

def SeenBroadcasts.hashes {getHash : CMasternodeBroadcast → Uint256}
    (seen : SeenBroadcasts getHash) : List Uint256 :=
  seen.entries.map Prod.fst

theorem SeenBroadcasts.nodup {getHash : CMasternodeBroadcast → Uint256}
    (seen : SeenBroadcasts getHash) : seen.hashes.Nodup :=
  seen.ordered.imp fun hless hsame => absurd (congrArg BitVec.toNat hsame) hless.ne

/-- The containers of `CMasternodeMan`, and the table of `masternodeSync`. -/
structure CMasternodeMan (getHash : CMasternodeBroadcast → Uint256) where
  vMasternodes : List CMasternode
  mAskedUsForMasternodeList : List (CNetAddr × Int)
  mWeAskedForMasternodeList : List (CNetAddr × Int)
  mWeAskedForMasternodeListEntry : List (COutPoint × Int)
  mapSeenMasternodeBroadcast : SeenBroadcasts getHash
  mapSeenMasternodePing : List (Uint256 × CMasternodePing)
  mapSeenSyncMNB : SyncTable

/-- A masternode that is inactive or outdated. -/
def CMasternode.isRemovable (env : CallEnv) (forceExpiredRemoval : Bool) (mn : CMasternode) : Bool :=
  mn.activeState = .MASTERNODE_REMOVE || mn.activeState = .MASTERNODE_VIN_SPENT ||
    forceExpiredRemoval && mn.activeState = .MASTERNODE_EXPIRED ||
    mn.protocolVersion.toInt < env.minPaymentsProto

/-- A ping or broadcast of this time is no longer needed. -/
def isExpired (env : CallEnv) (sigTime : Int64) : Bool :=
  sigTime.toInt < env.time - MASTERNODE_REMOVAL_SECONDS * 2

namespace CMasternodeMan

variable {getHash : CMasternodeBroadcast → Uint256} (env : CallEnv)

def check (m : CMasternodeMan getHash) : CMasternodeMan getHash :=
  { m with vMasternodes := m.vMasternodes.map fun mn => mn.check env }

/-- Erase the broadcasts seen from a masternode, and what was asked for it. -/
def forget (m : CMasternodeMan getHash) (mn : CMasternode) : CMasternodeMan getHash :=
  let entries := m.mapSeenMasternodeBroadcast.entries
  { m with
    mapSeenSyncMNB := (entries.filter fun entry => entry.2.vin = mn.vin).foldl
      (fun sync entry => sync.erase entry.1) m.mapSeenSyncMNB
    mapSeenMasternodeBroadcast := m.mapSeenMasternodeBroadcast.keep
      (entries.filter fun entry => entry.2.vin ≠ mn.vin) List.filter_sublist
    mWeAskedForMasternodeListEntry :=
      m.mWeAskedForMasternodeListEntry.filter fun entry => entry.1 ≠ mn.vin.prevout }

/-- One masternode is removed or stays. -/
def removeOrKeep (forceExpiredRemoval : Bool) (m : CMasternodeMan getHash) (mn : CMasternode) :
    CMasternodeMan getHash :=
  if mn.isRemovable env forceExpiredRemoval then m.forget mn
  else { m with vMasternodes := m.vMasternodes ++ [mn] }

/-- The loop over the masternodes. -/
def removeInactive (forceExpiredRemoval : Bool) (m : CMasternodeMan getHash) :
    CMasternodeMan getHash :=
  m.vMasternodes.foldl (removeOrKeep env forceExpiredRemoval) { m with vMasternodes := [] }

/-- The loop over the expired broadcasts, which are erased before the iterator is read. `none` where
it is read at the end. -/
def eraseExpired (getHash : CMasternodeBroadcast → Uint256) :
    List (Uint256 × CMasternodeBroadcast) → SyncTable →
      Option (List (Uint256 × CMasternodeBroadcast) × SyncTable)
  | [], sync => some ([], sync)
  | entry :: rest, sync =>
    if isExpired env entry.2.lastPing.sigTime then
      match rest.head? with
      | none => none
      | some next => eraseExpired getHash rest (sync.erase (getHash next.2))
    else do
      let (kept, sync) ← eraseExpired getHash rest sync
      return (entry :: kept, sync)

variable {env} in
theorem eraseExpired_sublist {entries kept : List (Uint256 × CMasternodeBroadcast)}
    {sync sync' : SyncTable} (h : eraseExpired env getHash entries sync = some (kept, sync')) :
    kept.Sublist entries := by
  induction entries generalizing sync kept sync' with
  | nil =>
    rw [eraseExpired] at h
    have hkept := (Prod.mk.inj (Option.some.inj h)).1
    rw [← hkept]
  | cons entry rest ih =>
    rw [eraseExpired] at h
    split_ifs at h
    · cases hnext : rest.head? with
      | none => simp [hnext] at h
      | some next =>
        rw [hnext] at h
        exact (ih h).cons entry
    · cases hrest : eraseExpired env getHash rest sync with
      | none => simp [hrest] at h
      | some result =>
        simp only [hrest, Option.bind_eq_bind, Option.bind_some] at h
        have hkept := (Prod.mk.inj (Option.some.inj h)).1
        rw [← hkept]
        exact (ih hrest).cons_cons entry

/-- `none` where a past-the-end element is read. -/
def checkAndRemove (forceExpiredRemoval : Bool) (m : CMasternodeMan getHash) :
    Option (CMasternodeMan getHash) :=
  let m := removeInactive env forceExpiredRemoval (check env m)
  let mAskedUsForMasternodeList :=
    m.mAskedUsForMasternodeList.filter fun entry => ¬entry.2 < env.time
  let mWeAskedForMasternodeList :=
    m.mWeAskedForMasternodeList.filter fun entry => ¬entry.2 < env.time
  let mWeAskedForMasternodeListEntry :=
    m.mWeAskedForMasternodeListEntry.filter fun entry => ¬entry.2 < env.time
  match h : eraseExpired env getHash m.mapSeenMasternodeBroadcast.entries m.mapSeenSyncMNB with
  | none => none
  | some (kept, sync) => some
    { vMasternodes := m.vMasternodes
      mAskedUsForMasternodeList := mAskedUsForMasternodeList
      mWeAskedForMasternodeList := mWeAskedForMasternodeList
      mWeAskedForMasternodeListEntry := mWeAskedForMasternodeListEntry
      mapSeenMasternodeBroadcast :=
        m.mapSeenMasternodeBroadcast.keep kept (eraseExpired_sublist h)
      mapSeenMasternodePing :=
        m.mapSeenMasternodePing.filter fun entry => !isExpired env entry.2.sigTime
      mapSeenSyncMNB := sync }

/-- No element is read that is not there, and the sync table loses the entries of the broadcasts
that are erased and no other. -/
def ForgetsConsistently (forceExpiredRemoval : Bool) (m : CMasternodeMan getHash) : Prop :=
  ∃ m', checkAndRemove env forceExpiredRemoval m = some m' ∧
    ∀ hash, m'.mapSeenSyncMNB hash =
      if hash ∈ m.mapSeenMasternodeBroadcast.hashes ∧ hash ∉ m'.mapSeenMasternodeBroadcast.hashes
      then none else m.mapSeenSyncMNB hash

/-- Some masternode that is removed has the input of the broadcast. -/
def forgotten (forceExpiredRemoval : Bool) (mns : List CMasternode) (mnb : CMasternodeBroadcast) :
    Bool :=
  mns.any fun mn => mn.isRemovable env forceExpiredRemoval && decide (mnb.vin = mn.vin)

/-- The broadcasts that are left when the masternodes to remove are forgotten. -/
def remaining (forceExpiredRemoval : Bool) (m : CMasternodeMan getHash) :
    List (Uint256 × CMasternodeBroadcast) :=
  m.mapSeenMasternodeBroadcast.entries.filter fun entry =>
    !forgotten env forceExpiredRemoval (check env m).vMasternodes entry.2

/-- Each broadcast with a sync entry is expired where the one before it is, and the last one is
not. -/
def ShiftHarmless (sync : SyncTable) : Bool → List (Uint256 × CMasternodeBroadcast) → Prop
  | before, [] => before = false
  | before, entry :: rest =>
    (sync entry.1 ≠ none → isExpired env entry.2.lastPing.sigTime = before) ∧
      ShiftHarmless sync (isExpired env entry.2.lastPing.sigTime) rest

/-! The loop erases the entries after the expired ones. -/

/-- The hashes that are erased from the sync table. -/
def shifted : Bool → List (Uint256 × CMasternodeBroadcast) → List Uint256
  | _, [] => []
  | before, entry :: rest =>
    let after := shifted (isExpired env entry.2.lastPing.sigTime) rest
    if before then entry.1 :: after else after

/-- Whether the last broadcast is expired. -/
def endsExpired : Bool → List (Uint256 × CMasternodeBroadcast) → Bool
  | before, [] => before
  | _, entry :: rest => endsExpired (isExpired env entry.2.lastPing.sigTime) rest

def eraseAll (sync : SyncTable) (hashes : List Uint256) : SyncTable :=
  fun hash => if hash ∈ hashes then none else sync hash

section
variable {env} {sync : SyncTable} {entries rest : List (Uint256 × CMasternodeBroadcast)}
  {entry : Uint256 × CMasternodeBroadcast} {hash : Uint256} {before : Bool}

theorem eraseAll_nil : eraseAll sync [] = sync := by
  funext hash
  simp [eraseAll]

theorem eraseAll_erase {hashes : List Uint256} :
    eraseAll (sync.erase hash) hashes = eraseAll sync (hash :: hashes) := by
  funext other
  by_cases hsame : other = hash
  · simp [eraseAll, SyncTable.erase, hsame]
  · simp [eraseAll, SyncTable.erase, hsame]

theorem eraseExpired_eq (hkeyed : ∀ entry ∈ entries, getHash entry.2 = entry.1) :
    eraseExpired env getHash entries sync =
      if endsExpired env false entries then none
      else some (entries.filter fun entry => !isExpired env entry.2.lastPing.sigTime,
        eraseAll sync (shifted env false entries)) := by
  induction entries generalizing sync with
  | nil => simp [eraseExpired, endsExpired, eraseAll_nil, shifted]
  | cons entry rest ih =>
    have hlater := fun e he => hkeyed e (List.mem_cons_of_mem entry he)
    rw [eraseExpired, endsExpired, shifted]
    cases hexpired : isExpired env entry.2.lastPing.sigTime with
    | true =>
      cases rest with
      | nil => rfl
      | cons next later =>
        have hnext := hlater next List.mem_cons_self
        simp only [List.head?_cons, if_true, hnext]
        rw [ih hlater, eraseAll_erase]
        simp [endsExpired, shifted, hexpired]
    | false =>
      simp only [Bool.false_eq_true, if_false]
      rw [ih hlater]
      cases hends : endsExpired env false rest with
      | true => rfl
      | false => simp [hexpired]

theorem mem_of_mem_shifted (h : hash ∈ shifted env before entries) :
    hash ∈ entries.map Prod.fst := by
  induction entries generalizing before with
  | nil => contradiction
  | cons entry rest ih =>
    rw [shifted] at h
    rw [List.map_cons, List.mem_cons]
    split_ifs at h
    · exact (List.mem_cons.mp h).imp_right ih
    · exact Or.inr (ih h)

/-- The entries erased are the expired ones, as far as the sync table has them. -/
theorem shiftHarmless_iff (hdistinct : (entries.map Prod.fst).Nodup) :
    ShiftHarmless env sync before entries ↔ endsExpired env before entries = false ∧
      ∀ hash, sync hash ≠ none → (hash ∈ shifted env before entries ↔
        hash ∈ (entries.filter fun entry => isExpired env entry.2.lastPing.sigTime).map
          Prod.fst) := by
  induction entries generalizing before with
  | nil => simp [ShiftHarmless, endsExpired, shifted]
  | cons entry rest ih =>
    rw [List.map_cons, List.nodup_cons] at hdistinct
    have hnot : ∀ {b}, entry.1 ∉ shifted env b rest :=
      fun hmem => hdistinct.1 (mem_of_mem_shifted hmem)
    have hnotExpired : entry.1 ∉
        (rest.filter fun entry => isExpired env entry.2.lastPing.sigTime).map Prod.fst :=
      fun hmem => hdistinct.1 ((List.filter_sublist.map Prod.fst).subset hmem)
    have hshifted : ∀ hash, hash ∈ shifted env before (entry :: rest) ↔
        before = true ∧ hash = entry.1 ∨
          hash ∈ shifted env (isExpired env entry.2.lastPing.sigTime) rest := by
      intro hash
      rw [shifted]
      cases before <;> simp
    have hexpired : ∀ hash, hash ∈ ((entry :: rest).filter fun entry =>
        isExpired env entry.2.lastPing.sigTime).map Prod.fst ↔
          isExpired env entry.2.lastPing.sigTime = true ∧ hash = entry.1 ∨
            hash ∈ (rest.filter fun entry => isExpired env entry.2.lastPing.sigTime).map
              Prod.fst := by
      intro hash
      rw [List.filter_cons]
      cases isExpired env entry.2.lastPing.sigTime <;> simp
    rw [ShiftHarmless, ih hdistinct.2, endsExpired]
    simp only [hshifted, hexpired]
    constructor
    · rintro ⟨hhead, hends, hall⟩
      refine ⟨hends, ?_⟩
      intro hash hpresent
      by_cases hsame : hash = entry.1
      · rw [hsame] at hpresent ⊢
        simp [hnot, hnotExpired, hhead hpresent]
      · simpa [hsame] using hall hash hpresent
    · rintro ⟨hends, hall⟩
      refine ⟨?_, hends, ?_⟩
      · intro hpresent
        have hhead := hall entry.1 hpresent
        simp only [hnot, hnotExpired, or_false, and_true] at hhead
        exact (Bool.eq_iff_iff.mpr hhead).symm
      · intro hash hpresent
        by_cases hsame : hash = entry.1
        · rw [hsame]
          exact iff_of_false hnot hnotExpired
        · simpa [hsame] using hall hash hpresent

theorem foldl_erase : entries.foldl (fun sync entry => sync.erase entry.1) sync =
    eraseAll sync (entries.map Prod.fst) := by
  induction entries generalizing sync with
  | nil => exact eraseAll_nil.symm
  | cons entry rest ih => rw [List.foldl_cons, ih, eraseAll_erase, List.map_cons]

end

section
variable {env} {forceExpiredRemoval : Bool} {m : CMasternodeMan getHash} {mns : List CMasternode}

theorem entries_forget {mn : CMasternode} :
    (m.forget mn).mapSeenMasternodeBroadcast.entries =
      m.mapSeenMasternodeBroadcast.entries.filter fun entry => entry.2.vin ≠ mn.vin := rfl

theorem sync_forget {mn : CMasternode} : (m.forget mn).mapSeenSyncMNB =
    eraseAll m.mapSeenSyncMNB ((m.mapSeenMasternodeBroadcast.entries.filter fun entry =>
      entry.2.vin = mn.vin).map Prod.fst) :=
  foldl_erase

/-- The masternodes that are removed take their broadcasts with them, and the sync entries of
these. -/
theorem foldl_removeOrKeep (m : CMasternodeMan getHash) (mns : List CMasternode) :
    (mns.foldl (removeOrKeep env forceExpiredRemoval) m).mapSeenMasternodeBroadcast.entries =
        m.mapSeenMasternodeBroadcast.entries.filter
          (fun entry => !forgotten env forceExpiredRemoval mns entry.2) ∧
      (mns.foldl (removeOrKeep env forceExpiredRemoval) m).mapSeenSyncMNB =
        eraseAll m.mapSeenSyncMNB ((m.mapSeenMasternodeBroadcast.entries.filter fun entry =>
          forgotten env forceExpiredRemoval mns entry.2).map Prod.fst) := by
  induction mns generalizing m with
  | nil => simp [forgotten, eraseAll_nil]
  | cons mn rest ih =>
    obtain ⟨hentries, hsync⟩ := ih (removeOrKeep env forceExpiredRemoval m mn)
    rw [List.foldl_cons, hentries, hsync]
    unfold removeOrKeep
    cases hremovable : mn.isRemovable env forceExpiredRemoval with
    | false => simp [forgotten, hremovable]
    | true =>
      have hmore : ∀ mnb, forgotten env forceExpiredRemoval (mn :: rest) mnb =
          (decide (mnb.vin = mn.vin) || forgotten env forceExpiredRemoval rest mnb) := by
        intro mnb
        simp [forgotten, hremovable]
      simp only [if_true, entries_forget, sync_forget, hmore]
      constructor
      · rw [List.filter_filter]
        refine List.filter_congr fun entry _ => ?_
        by_cases hvin : entry.2.vin = mn.vin
        · simp [hvin]
        · simp [hvin]
      · funext hash
        have hone : (hash ∈ ((m.mapSeenMasternodeBroadcast.entries.filter fun entry =>
            entry.2.vin ≠ mn.vin).filter fun entry =>
              forgotten env forceExpiredRemoval rest entry.2).map Prod.fst ∨
            hash ∈ (m.mapSeenMasternodeBroadcast.entries.filter fun entry =>
              entry.2.vin = mn.vin).map Prod.fst) ↔
            hash ∈ (m.mapSeenMasternodeBroadcast.entries.filter fun entry =>
              decide (entry.2.vin = mn.vin) ||
                forgotten env forceExpiredRemoval rest entry.2).map Prod.fst := by
          simp only [List.mem_map, List.mem_filter, Bool.or_eq_true, decide_eq_true_eq]
          constructor
          · rintro (⟨entry, ⟨⟨hmem, _⟩, hrest⟩, hhash⟩ | ⟨entry, ⟨hmem, hvin⟩, hhash⟩)
            · exact ⟨entry, ⟨hmem, Or.inr hrest⟩, hhash⟩
            · exact ⟨entry, ⟨hmem, Or.inl hvin⟩, hhash⟩
          · rintro ⟨entry, ⟨hmem, hcase⟩, hhash⟩
            by_cases hvin : entry.2.vin = mn.vin
            · exact Or.inr ⟨entry, ⟨hmem, hvin⟩, hhash⟩
            · exact Or.inl ⟨entry, ⟨⟨hmem, hvin⟩, hcase.resolve_left hvin⟩, hhash⟩
        simp only [eraseAll, ← hone]
        split_ifs <;> tauto

theorem entries_removeInactive : (removeInactive env forceExpiredRemoval
    (check env m)).mapSeenMasternodeBroadcast.entries = remaining env forceExpiredRemoval m :=
  (foldl_removeOrKeep _ _).1

theorem sync_removeInactive : (removeInactive env forceExpiredRemoval
    (check env m)).mapSeenSyncMNB = eraseAll m.mapSeenSyncMNB
      ((m.mapSeenMasternodeBroadcast.entries.filter fun entry =>
        forgotten env forceExpiredRemoval (check env m).vMasternodes entry.2).map Prod.fst) :=
  (foldl_removeOrKeep _ _).2

theorem checkAndRemove_eq :
    (checkAndRemove env forceExpiredRemoval m).map (fun m' =>
        (m'.mapSeenMasternodeBroadcast.entries, m'.mapSeenSyncMNB)) =
      eraseExpired env getHash (remaining env forceExpiredRemoval m)
        (removeInactive env forceExpiredRemoval (check env m)).mapSeenSyncMNB := by
  rw [← entries_removeInactive, checkAndRemove]
  split
  · rename_i hnone
    exact hnone.symm
  · rename_i kept sync hsome
    exact hsome.symm

/-- A hash is that of an entry that is taken or of one that is left, and not of both. -/
theorem mem_hashes_split {entries : List (Uint256 × CMasternodeBroadcast)}
    (hdistinct : (entries.map Prod.fst).Nodup) (p : Uint256 × CMasternodeBroadcast → Bool)
    (hash : Uint256) :
    (hash ∈ entries.map Prod.fst ↔ hash ∈ (entries.filter p).map Prod.fst ∨
      hash ∈ (entries.filter fun entry => !p entry).map Prod.fst) ∧
    (hash ∈ (entries.filter p).map Prod.fst →
      hash ∉ (entries.filter fun entry => !p entry).map Prod.fst) := by
  constructor
  · simp only [List.mem_map, List.mem_filter]
    constructor
    · rintro ⟨entry, hmem, hhash⟩
      cases htaken : p entry with
      | true => exact Or.inl ⟨entry, ⟨hmem, htaken⟩, hhash⟩
      | false => exact Or.inr ⟨entry, ⟨hmem, by simp [htaken]⟩, hhash⟩
    · rintro (⟨entry, ⟨hmem, _⟩, hhash⟩ | ⟨entry, ⟨hmem, _⟩, hhash⟩)
      · exact ⟨entry, hmem, hhash⟩
      · exact ⟨entry, hmem, hhash⟩
  · intro htaken hleft
    obtain ⟨entry, hentry, rfl⟩ := List.mem_map.mp htaken
    obtain ⟨other, hother, hsame⟩ := List.mem_map.mp hleft
    rw [List.mem_filter] at hentry hother
    have heq := List.inj_on_of_nodup_map hdistinct hother.1 hentry.1 hsame
    rw [heq, hentry.2] at hother
    simp at hother

end

/-- The expired broadcasts are forgotten consistently exactly where it does no harm that the entry
of the next one is erased. -/
theorem checkAndRemove_consistent_iff (getHash : CMasternodeBroadcast → Uint256) (env : CallEnv)
    (forceExpiredRemoval : Bool) (m : CMasternodeMan getHash) :
    ForgetsConsistently env forceExpiredRemoval m ↔
      ShiftHarmless env m.mapSeenSyncMNB false (remaining env forceExpiredRemoval m) := by
  have hdistinct := m.mapSeenMasternodeBroadcast.nodup
  have hremaining : ((remaining env forceExpiredRemoval m).map Prod.fst).Nodup :=
    hdistinct.sublist (List.filter_sublist.map Prod.fst)
  have hkeyed : ∀ entry ∈ remaining env forceExpiredRemoval m, getHash entry.2 = entry.1 :=
    fun entry hmem => m.mapSeenMasternodeBroadcast.keyed entry (List.filter_sublist.subset hmem)
  have hresult := @checkAndRemove_eq getHash env forceExpiredRemoval m
  rw [eraseExpired_eq hkeyed, sync_removeInactive] at hresult
  rw [shiftHarmless_iff hremaining]
  cases hends : endsExpired env false (remaining env forceExpiredRemoval m) with
  | true =>
    rw [hends, if_pos rfl, Option.map_eq_none_iff] at hresult
    simp [ForgetsConsistently, hresult]
  | false =>
    rw [hends, if_neg Bool.false_ne_true, Option.map_eq_some_iff] at hresult
    obtain ⟨m', hm', hstate⟩ := hresult
    obtain ⟨hentries, hsync⟩ := Prod.mk.inj hstate
    have hsplit : ∀ hash, (if hash ∈ m.mapSeenMasternodeBroadcast.hashes ∧
        hash ∉ m'.mapSeenMasternodeBroadcast.hashes then none else m.mapSeenSyncMNB hash) =
        if hash ∈ (m.mapSeenMasternodeBroadcast.entries.filter fun entry =>
            forgotten env forceExpiredRemoval (check env m).vMasternodes entry.2).map Prod.fst ∨
          hash ∈ ((remaining env forceExpiredRemoval m).filter fun entry =>
            isExpired env entry.2.lastPing.sigTime).map Prod.fst then none
        else m.mapSeenSyncMNB hash := by
      intro hash
      obtain ⟨hall, hleft⟩ := mem_hashes_split hdistinct (fun entry =>
        forgotten env forceExpiredRemoval (check env m).vMasternodes entry.2) hash
      obtain ⟨hrest, hkept⟩ := mem_hashes_split hremaining (fun entry =>
        isExpired env entry.2.lastPing.sigTime) hash
      rw [remaining] at hrest
      refine if_congr ?_ rfl rfl
      rw [SeenBroadcasts.hashes, SeenBroadcasts.hashes, hentries, hall, hrest]
      rw [hrest] at hleft
      unfold remaining at hkept ⊢
      tauto
    have hsame : ForgetsConsistently env forceExpiredRemoval m ↔ ∀ hash,
        m'.mapSeenSyncMNB hash = if hash ∈ m.mapSeenMasternodeBroadcast.hashes ∧
          hash ∉ m'.mapSeenMasternodeBroadcast.hashes then none else m.mapSeenSyncMNB hash := by
      constructor
      · rintro ⟨m'', hm'', hall⟩
        rw [hm', Option.some.injEq] at hm''
        exact hm'' ▸ hall
      · exact fun hall => ⟨m', hm', hall⟩
    rw [hsame]
    simp only [hsplit, hsync, true_and]
    refine forall_congr' fun hash => ?_
    have hforgotten := (mem_hashes_split hdistinct (fun entry =>
      forgotten env forceExpiredRemoval (check env m).vMasternodes entry.2) hash).2
    have hshifted := @mem_of_mem_shifted env (remaining env forceExpiredRemoval m) hash false
    have hexpired : hash ∈ ((remaining env forceExpiredRemoval m).filter fun entry =>
        isExpired env entry.2.lastPing.sigTime).map Prod.fst →
          hash ∈ (remaining env forceExpiredRemoval m).map Prod.fst :=
      fun hmem => (List.filter_sublist.map Prod.fst).subset hmem
    unfold remaining at hshifted hexpired ⊢
    unfold eraseAll
    by_cases hpresent : m.mapSeenSyncMNB hash = none
    · simp [hpresent]
    · by_cases hgone : hash ∈ (m.mapSeenMasternodeBroadcast.entries.filter fun entry =>
          forgotten env forceExpiredRemoval (check env m).vMasternodes entry.2).map Prod.fst
      · have hnot := hforgotten hgone
        rw [if_pos hgone, if_pos (Or.inl hgone), ite_self]
        exact iff_of_true rfl fun _ => iff_of_false (fun h => hnot (hshifted h))
          fun h => hnot (hexpired h)
      · simp only [hgone, if_false, false_or]
        split_ifs with hs he
        · exact iff_of_true rfl fun _ => iff_of_true hs he
        · refine iff_of_false (fun h => hpresent h.symm) fun h => ?_
          exact he ((h hpresent).mp hs)
        · rename_i he
          refine iff_of_false hpresent fun h => ?_
          exact hs ((h hpresent).mpr he)
        · rename_i he
          exact iff_of_true rfl fun _ => iff_of_false hs he

/-- One broadcast was seen, long ago, and no masternode is listed. -/
def oneSeen : CMasternodeMan fun _ => 7 where
  vMasternodes := []
  mAskedUsForMasternodeList := []
  mWeAskedForMasternodeList := []
  mWeAskedForMasternodeListEntry := []
  mapSeenMasternodeBroadcast :=
    { entries := [(7, announcement)]
      ordered := List.pairwise_singleton _ _
      keyed := by simp }
  mapSeenMasternodePing := []
  mapSeenSyncMNB := fun hash => if hash = 7 then some 1 else none

/-- Three days after its ping the iterator is read at the end of the map. -/
theorem not_checkAndRemove_consistent :
    ¬∀ (getHash : CMasternodeBroadcast → Uint256) (env : CallEnv) (forceExpiredRemoval : Bool)
      (m : CMasternodeMan getHash), ForgetsConsistently env forceExpiredRemoval m := by
  intro h
  obtain ⟨m', hm', _⟩ := h (fun _ => 7) { sampleCall with time := sampleCall.time + 259200 } false
    oneSeen
  have hresult := @checkAndRemove_eq _ { sampleCall with time := sampleCall.time + 259200 } false
    oneSeen
  have hends : endsExpired { sampleCall with time := sampleCall.time + 259200 } false
      (remaining { sampleCall with time := sampleCall.time + 259200 } false oneSeen) = true := by
    decide
  rw [hm', eraseExpired_eq (by simp [remaining, oneSeen]), hends] at hresult
  contradiction

end CMasternodeMan
end Lytix.Masternodes
