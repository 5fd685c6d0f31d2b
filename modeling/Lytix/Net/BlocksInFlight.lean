import Lytix.Lib.Maps
import Lytix.Lib.CountEntries
import Lytix.Lib.Runs
import Lytix.Net.OrphanTransactions

/-! Blocks that are being downloaded from peers: the list of each peer, the map from a hash to
its place in such a list, and the counters beside them. -/
namespace Lytix

open CountEntries Runs

/-- The entry of the block index that `pindex` points to is named by its hash. -/
structure QueuedBlock where
  hash : Uint256
  pindex : Option Uint256
  nTime : Int
  nValidatedQueuedBefore : Int
  fValidatedHeaders : Bool
deriving DecidableEq

/-- A list cell with its address, which is what a `list<QueuedBlock>::iterator` holds. -/
structure QueueCell where
  address : ℕ
  entry : QueuedBlock
deriving DecidableEq

structure CNodeState where
  nStallingSince : Int := 0
  vBlocksInFlight : List QueueCell := []
  nBlocksInFlight : Int := 0

/-- `allocated` is the address of the next list cell. -/
structure DownloadState where
  mapNodeState : Table NodeId CNodeState
  mapBlocksInFlight : Uint256 → Option (NodeId × ℕ)
  nQueuedValidatedHeaders : Int
  allocated : ℕ

namespace CNodeState

def find (state : CNodeState) (address : ℕ) : Option QueueCell :=
  state.vBlocksInFlight.find? fun cell => cell.address = address

def received (state : CNodeState) (address : ℕ) : CNodeState :=
  { nStallingSince := 0
    vBlocksInFlight := state.vBlocksInFlight.filter fun cell => cell.address ≠ address
    nBlocksInFlight := state.nBlocksInFlight - 1 }

def queued (state : CNodeState) (cell : QueueCell) : CNodeState :=
  { state with
    vBlocksInFlight := state.vBlocksInFlight ++ [cell]
    nBlocksInFlight := state.nBlocksInFlight + 1 }

/-- How many of the queued blocks have validated headers. -/
def validated (state : CNodeState) : ℕ :=
  state.vBlocksInFlight.countP fun cell => cell.entry.fValidatedHeaders

end CNodeState

namespace DownloadState

def empty : DownloadState := ⟨∅, fun _ => none, 0, 0⟩

def initializeNode (s : DownloadState) (nodeid : NodeId) : DownloadState :=
  if (s.mapNodeState.lookup nodeid).isSome then s
  else { s with mapNodeState := s.mapNodeState.insert nodeid {} }

/-- `none`: the code reads through a null pointer. -/
def finalizeNode (s : DownloadState) (nodeid : NodeId) : Option DownloadState :=
  match s.mapNodeState.lookup nodeid with
  | none => none
  | some state =>
    some { s with
      mapBlocksInFlight := Maps.eraseAll s.mapBlocksInFlight
        (state.vBlocksInFlight.map fun cell => cell.entry.hash)
      mapNodeState := s.mapNodeState.erase nodeid }

/-- `none`: a null pointer, or an iterator to a cell that is gone. -/
def markBlockAsReceived (s : DownloadState) (hash : Uint256) : Option DownloadState :=
  match s.mapBlocksInFlight hash with
  | none => some s
  | some (nodeid, address) =>
    match s.mapNodeState.lookup nodeid with
    | none => none
    | some state =>
      match state.find address with
      | none => none
      | some cell =>
        some { s with
          nQueuedValidatedHeaders :=
            s.nQueuedValidatedHeaders - cell.entry.fValidatedHeaders.toNat
          mapNodeState := s.mapNodeState.insert nodeid (state.received address)
          mapBlocksInFlight := Function.update s.mapBlocksInFlight hash none }

/-- The new entry at the end of the list of a peer. -/
def enqueue (s : DownloadState) (nodeid : NodeId) (state : CNodeState) (hash : Uint256)
    (pindex : Option Uint256) (now : Int) : DownloadState :=
  { mapNodeState := s.mapNodeState.insert nodeid (state.queued
      ⟨s.allocated, hash, pindex, now, s.nQueuedValidatedHeaders, pindex.isSome⟩)
    mapBlocksInFlight := Function.update s.mapBlocksInFlight hash (some (nodeid, s.allocated))
    nQueuedValidatedHeaders := s.nQueuedValidatedHeaders + pindex.isSome.toNat
    allocated := s.allocated + 1 }

/-- `now` is `GetTimeMicros()`. `none`: the assertion that the peer is known fails, or the
block cannot be marked as received first. -/
def markBlockAsInFlight (s : DownloadState) (nodeid : NodeId) (hash : Uint256)
    (pindex : Option Uint256) (now : Int) : Option DownloadState :=
  match s.mapNodeState.lookup nodeid with
  | none => none
  | some _ =>
    match s.markBlockAsReceived hash with
    | none => none
    | some s =>
      match s.mapNodeState.lookup nodeid with
      | none => none
      | some state => some (s.enqueue nodeid state hash pindex now)

end DownloadState

inductive DownloadEvent where
  | initializeNode (nodeid : NodeId)
  | finalizeNode (nodeid : NodeId)
  | markBlockAsReceived (hash : Uint256)
  | markBlockAsInFlight (nodeid : NodeId) (hash : Uint256) (pindex : Option Uint256) (now : Int)

def DownloadState.step (s : DownloadState) : DownloadEvent → Option DownloadState
  | .initializeNode nodeid => some (s.initializeNode nodeid)
  | .finalizeNode nodeid => s.finalizeNode nodeid
  | .markBlockAsReceived hash => s.markBlockAsReceived hash
  | .markBlockAsInFlight nodeid hash pindex now => s.markBlockAsInFlight nodeid hash pindex now

namespace DownloadState

def queuedValidated (s : DownloadState) : ℕ := total (fun _ state => state.validated) s.mapNodeState

/-- The cells of a peer's list that are about a block. -/
def cellsFor (s : DownloadState) (nodeid : NodeId) (hash : Uint256) : List QueueCell :=
  match s.mapNodeState.lookup nodeid with
  | none => []
  | some state => state.vBlocksInFlight.filter fun cell => cell.entry.hash = hash

/-- What the containers have to agree on: a hash in flight leads to its one cell, in the list
of one live peer, and the length of each list is counted. -/
structure Placed (s : DownloadState) : Prop where
  inFlight : ∀ hash nodeid address, s.mapBlocksInFlight hash = some (nodeid, address) →
    (∃ cell, s.cellsFor nodeid hash = [cell] ∧ cell.address = address) ∧
      ∀ nodeid' ≠ nodeid, s.cellsFor nodeid' hash = []
  lengths : ∀ nodeid state, s.mapNodeState.lookup nodeid = some state →
    state.nBlocksInFlight = state.vBlocksInFlight.length

/-- The whole accounting. -/
def Accounted (s : DownloadState) : Prop :=
  s.nQueuedValidatedHeaders = s.queuedValidated ∧ s.Placed

/-- A peer leaves with no block with validated headers in its list. -/
def NoneDropped (s : DownloadState) : DownloadEvent → Prop
  | .finalizeNode nodeid => ∀ state, s.mapNodeState.lookup nodeid = some state → state.validated = 0
  | _ => True

end DownloadState

/-- The list of a peer: counted, and with cells that have been allocated once each. -/
structure CNodeState.Sound (allocated : ℕ) (state : CNodeState) : Prop where
  length : state.nBlocksInFlight = state.vBlocksInFlight.length
  distinct : (state.vBlocksInFlight.map QueueCell.address).Nodup
  fresh : ∀ cell ∈ state.vBlocksInFlight, cell.address < allocated

namespace CNodeState

variable {allocated : ℕ} {state : CNodeState} {cell cell' : QueueCell}

theorem sound_new : Sound allocated {} := by
  constructor
  case length => rfl
  case distinct => exact List.nodup_nil
  case fresh =>
    intro cell hcell
    contradiction

theorem Sound.nodup (h : Sound allocated state) : state.vBlocksInFlight.Nodup := h.distinct.of_map

/-- A cell is known by its address. -/
theorem Sound.eq_of_address (h : Sound allocated state) (hcell : cell ∈ state.vBlocksInFlight)
    (hcell' : cell' ∈ state.vBlocksInFlight) (haddress : cell.address = cell'.address) :
    cell = cell' :=
  List.inj_on_of_nodup_map h.distinct hcell hcell' haddress

theorem Sound.find_eq (h : Sound allocated state) (hcell : cell ∈ state.vBlocksInFlight) :
    state.find cell.address = some cell := by
  cases hfind : state.find cell.address with
  | none =>
    have hnone := List.find?_eq_none.mp hfind cell hcell
    simp at hnone
  | some found =>
    have hfound := List.find?_some hfind
    have haddress : found.address = cell.address := by simpa using hfound
    rw [h.eq_of_address (List.mem_of_find?_eq_some hfind) hcell haddress]

/-- What `received` leaves is the list without the one cell. -/
theorem Sound.perm_received (h : Sound allocated state) (hcell : cell ∈ state.vBlocksInFlight) :
    List.Perm state.vBlocksInFlight (cell :: (state.received cell.address).vBlocksInFlight) := by
  have herase : state.vBlocksInFlight.erase cell =
      (state.received cell.address).vBlocksInFlight := by
    rw [h.nodup.erase_eq_filter]
    apply List.filter_congr
    intro other hother
    by_cases hsame : other = cell
    · simp [hsame]
    · have hne : other.address ≠ cell.address := by
        intro haddress
        exact hsame (h.eq_of_address hother hcell haddress)
      simp [hsame, hne]
  rw [← herase]
  exact List.perm_cons_erase hcell

theorem Sound.received (h : Sound allocated state) (hcell : cell ∈ state.vBlocksInFlight) :
    Sound allocated (state.received cell.address) := by
  constructor
  case length =>
    have hlength := (h.perm_received hcell).length_eq
    have hcounted := h.length
    have hminus : (state.received cell.address).nBlocksInFlight = state.nBlocksInFlight - 1 := rfl
    rw [List.length_cons] at hlength
    omega
  case distinct => exact (List.filter_sublist.map _).nodup h.distinct
  case fresh =>
    intro other hother
    exact h.fresh other (List.mem_of_mem_filter hother)

theorem Sound.validated_received (h : Sound allocated state) (hcell : cell ∈ state.vBlocksInFlight) :
    state.validated =
      (state.received cell.address).validated + cell.entry.fValidatedHeaders.toNat := by
  unfold validated
  rw [(h.perm_received hcell).countP_eq, List.countP_cons]
  cases cell.entry.fValidatedHeaders with
  | false => rfl
  | true => rfl

theorem Sound.mem_received (h : Sound allocated state) (hcell : cell ∈ state.vBlocksInFlight) :
    cell' ∈ (state.received cell.address).vBlocksInFlight ↔
      cell' ∈ state.vBlocksInFlight ∧ cell' ≠ cell := by
  unfold CNodeState.received
  rw [List.mem_filter]
  constructor
  · intro hkept
    refine ⟨hkept.1, ?_⟩
    intro hsame
    rw [hsame] at hkept
    exact of_decide_eq_true hkept.2 rfl
  · intro hkept
    refine ⟨hkept.1, decide_eq_true ?_⟩
    intro haddress
    exact hkept.2 (h.eq_of_address hkept.1 hcell haddress)

theorem Sound.queued (h : Sound allocated state) (haddress : cell.address = allocated) :
    Sound (allocated + 1) (state.queued cell) := by
  constructor
  case length =>
    have hcounted := h.length
    unfold CNodeState.queued
    dsimp only
    rw [List.length_append, List.length_singleton]
    omega
  case distinct =>
    unfold CNodeState.queued
    dsimp only
    rw [List.map_append, List.nodup_append]
    refine ⟨h.distinct, List.nodup_singleton _, ?_⟩
    intro old hold new hnew
    obtain ⟨other, hother, rfl⟩ := List.mem_map.mp hold
    have hlt := h.fresh other hother
    have hlast : new = cell.address := List.mem_singleton.mp hnew
    omega
  case fresh =>
    intro other hother
    rcases List.mem_append.mp hother with hold | hnew
    · have hlt := h.fresh other hold
      omega
    · rw [List.mem_singleton.mp hnew, haddress]
      omega

end CNodeState

namespace DownloadState

/-- What the steps keep; `dropped` counts the validated entries that went with their peers. -/
structure Tracked (s : DownloadState) (dropped : ℕ) : Prop where
  sound : ∀ nodeid state, s.mapNodeState.lookup nodeid = some state → state.Sound s.allocated
  index : ∀ hash nodeid address, s.mapBlocksInFlight hash = some (nodeid, address) ↔
    ∃ state, s.mapNodeState.lookup nodeid = some state ∧ ∃ cell ∈ state.vBlocksInFlight,
      cell.address = address ∧ cell.entry.hash = hash
  queued : s.nQueuedValidatedHeaders = s.queuedValidated + dropped

variable {s s' : DownloadState} {dropped : ℕ} {nodeid : NodeId} {state : CNodeState}
  {cell cell' : QueueCell} {hash : Uint256} {address : ℕ}

theorem tracked_empty : Tracked empty 0 := by
  constructor
  case sound =>
    intro nodeid state hnone
    contradiction
  case index =>
    intro hash nodeid address
    constructor
    · intro hnone
      contradiction
    · intro hcell
      obtain ⟨state, hnone, -⟩ := hcell
      contradiction
  case queued => rfl

theorem Tracked.index_of_mem (hs : Tracked s dropped)
    (hstate : s.mapNodeState.lookup nodeid = some state) (hcell : cell ∈ state.vBlocksInFlight) :
    s.mapBlocksInFlight cell.entry.hash = some (nodeid, cell.address) :=
  (hs.index _ _ _).mpr ⟨state, hstate, cell, hcell, rfl, rfl⟩

/-- Two cells that are about one block are one. -/
theorem Tracked.eq_of_hash {nodeid' : NodeId} {state' : CNodeState} (hs : Tracked s dropped)
    (hstate : s.mapNodeState.lookup nodeid = some state) (hcell : cell ∈ state.vBlocksInFlight)
    (hstate' : s.mapNodeState.lookup nodeid' = some state')
    (hcell' : cell' ∈ state'.vBlocksInFlight) (h : cell'.entry.hash = cell.entry.hash) :
    nodeid' = nodeid ∧ cell' = cell := by
  have hfirst := hs.index_of_mem hstate hcell
  have hsecond := hs.index_of_mem hstate' hcell'
  rw [h, hfirst] at hsecond
  have hpair := Option.some.inj hsecond
  have hnode : nodeid' = nodeid := (congrArg Prod.fst hpair).symm
  subst hnode
  rw [hstate] at hstate'
  have hsame := Option.some.inj hstate'
  subst hsame
  have haddress : cell'.address = cell.address := (congrArg Prod.snd hpair).symm
  exact ⟨rfl, (hs.sound _ _ hstate).eq_of_address hcell' hcell haddress⟩

theorem Tracked.cellsFor_eq (hs : Tracked s dropped)
    (hstate : s.mapNodeState.lookup nodeid = some state) (hcell : cell ∈ state.vBlocksInFlight) :
    s.cellsFor nodeid cell.entry.hash = [cell] := by
  have hnodup := (hs.sound nodeid state hstate).nodup
  unfold cellsFor
  rw [hstate]
  apply List.perm_singleton.mp
  apply (List.perm_ext_iff_of_nodup (hnodup.filter _) (List.nodup_singleton cell)).mpr
  intro other
  simp only [List.mem_filter, List.mem_singleton, decide_eq_true_eq]
  constructor
  · intro hother
    exact (hs.eq_of_hash hstate hcell hstate hother.1 hother.2).2
  · intro hsame
    subst hsame
    exact ⟨hcell, rfl⟩

theorem Tracked.placed (hs : Tracked s dropped) : s.Placed := by
  constructor
  case inFlight =>
    intro hash nodeid address hindex
    obtain ⟨state, hstate, cell, hcell, haddress, hhash⟩ := (hs.index _ _ _).mp hindex
    subst hhash
    constructor
    · exact ⟨cell, hs.cellsFor_eq hstate hcell, haddress⟩
    · intro nodeid' hne
      unfold cellsFor
      cases hstate' : s.mapNodeState.lookup nodeid' with
      | none => rfl
      | some state' =>
        apply List.filter_eq_nil_iff.mpr
        intro other hother hsame
        exact hne (hs.eq_of_hash hstate hcell hstate' hother (of_decide_eq_true hsame)).1
  case lengths =>
    intro nodeid state hstate
    exact (hs.sound nodeid state hstate).length

theorem Tracked.accounted_iff (hs : Tracked s dropped) : s.Accounted ↔ dropped = 0 := by
  have hqueued := hs.queued
  unfold Accounted
  constructor
  · intro h
    have hequal := h.1
    omega
  · intro h
    exact ⟨by omega, hs.placed⟩

/-- Where a peer without blocks in flight comes in, or the list of one changes. -/
theorem lookup_insert_cases {nodes : Table NodeId CNodeState} {nodeid nodeid' : NodeId}
    {new state' : CNodeState} (h : (nodes.insert nodeid new).lookup nodeid' = some state') :
    nodeid' = nodeid ∧ state' = new ∨ nodeid' ≠ nodeid ∧ nodes.lookup nodeid' = some state' := by
  rw [lookup_insert_eq] at h
  split_ifs at h with hsame
  · exact Or.inl ⟨hsame, (Option.some.inj h).symm⟩
  · exact Or.inr ⟨hsame, h⟩

theorem Tracked.initializeNode (hs : Tracked s dropped) (nodeid : NodeId) :
    Tracked (s.initializeNode nodeid) dropped := by
  unfold DownloadState.initializeNode
  by_cases hknown : (s.mapNodeState.lookup nodeid).isSome
  · rw [if_pos hknown]
    exact hs
  rw [if_neg hknown]
  have hnone : s.mapNodeState.lookup nodeid = none := by simpa using hknown
  constructor
  case sound =>
    intro nodeid' state' h
    rcases lookup_insert_cases h with ⟨-, hnew⟩ | ⟨-, hold⟩
    · rw [hnew]
      exact CNodeState.sound_new
    · exact hs.sound nodeid' state' hold
  case index =>
    intro hash nodeid' address
    rw [hs.index]
    constructor
    · intro hcell
      obtain ⟨state, hstate, hrest⟩ := hcell
      have hne : nodeid' ≠ nodeid := by
        intro hsame
        rw [hsame, hnone] at hstate
        contradiction
      refine ⟨state, ?_, hrest⟩
      rw [lookup_insert_eq, if_neg hne, hstate]
    · intro hcell
      obtain ⟨state, hstate, cell, hmem, hrest⟩ := hcell
      rcases lookup_insert_cases hstate with ⟨-, hnew⟩ | ⟨-, hold⟩
      · rw [hnew] at hmem
        contradiction
      · exact ⟨state, hold, cell, hmem, hrest⟩
  case queued =>
    have htotal : queuedValidated { s with mapNodeState := s.mapNodeState.insert nodeid {} } =
        s.queuedValidated := by
      unfold queuedValidated
      dsimp only
      rw [total_insert, erase_of_notMem (AList.lookup_eq_none.mp hnone)]
      exact Nat.zero_add _
    rw [htotal]
    exact hs.queued

theorem Tracked.finalizeNode (hs : Tracked s dropped)
    (hstate : s.mapNodeState.lookup nodeid = some state)
    (hstep : s.finalizeNode nodeid = some s') : Tracked s' (dropped + state.validated) := by
  unfold DownloadState.finalizeNode at hstep
  rw [hstate] at hstep
  have hafter := Option.some.inj hstep
  subst hafter
  have hlookup : ∀ nodeid' state', (s.mapNodeState.erase nodeid).lookup nodeid' = some state' →
      nodeid' ≠ nodeid ∧ s.mapNodeState.lookup nodeid' = some state' := by
    intro nodeid' state' h
    rw [lookup_erase_eq] at h
    split_ifs at h with hsame
    exact ⟨hsame, h⟩
  constructor
  case sound =>
    intro nodeid' state' h
    exact hs.sound nodeid' state' (hlookup nodeid' state' h).2
  case index =>
    intro hash nodeid' address
    dsimp only
    rw [Maps.eraseAll_apply]
    by_cases hown : hash ∈ state.vBlocksInFlight.map fun cell => cell.entry.hash
    · rw [if_pos hown]
      obtain ⟨cell, hcell, hhash⟩ := List.mem_map.mp hown
      constructor
      · intro hnone
        contradiction
      · intro hother
        obtain ⟨state', hstate', cell', hcell', -, hhash'⟩ := hother
        obtain ⟨hne, hold⟩ := hlookup nodeid' state' hstate'
        exact absurd (hs.eq_of_hash hstate hcell hold hcell' (hhash'.trans hhash.symm)).1 hne
    · rw [if_neg hown, hs.index]
      constructor
      · intro hcell
        obtain ⟨state', hstate', cell, hmem, haddress, hhash⟩ := hcell
        refine ⟨state', ?_, cell, hmem, haddress, hhash⟩
        rw [lookup_erase_eq, if_neg, hstate']
        intro hsame
        rw [hsame, hstate] at hstate'
        rw [← Option.some.inj hstate'] at hmem
        exact hown (List.mem_map.mpr ⟨cell, hmem, hhash⟩)
      · intro hcell
        obtain ⟨state', hstate', hrest⟩ := hcell
        exact ⟨state', (hlookup nodeid' state' hstate').2, hrest⟩
  case queued =>
    have hqueued := hs.queued
    have htotal : s.queuedValidated =
        state.validated + total (fun _ state => state.validated) (s.mapNodeState.erase nodeid) :=
      total_eq_add_erase hstate
    unfold queuedValidated
    dsimp only
    omega

/-- Where a hash is in flight, exactly its cell goes. -/
theorem Tracked.received (hs : Tracked s dropped)
    (hstate : s.mapNodeState.lookup nodeid = some state) (hcell : cell ∈ state.vBlocksInFlight) :
    Tracked { s with
      nQueuedValidatedHeaders := s.nQueuedValidatedHeaders - cell.entry.fValidatedHeaders.toNat
      mapNodeState := s.mapNodeState.insert nodeid (state.received cell.address)
      mapBlocksInFlight := Function.update s.mapBlocksInFlight cell.entry.hash none } dropped := by
  have hsound := hs.sound nodeid state hstate
  constructor
  case sound =>
    intro nodeid' state' h
    rcases lookup_insert_cases h with ⟨-, hnew⟩ | ⟨-, hold⟩
    · rw [hnew]
      exact hsound.received hcell
    · exact hs.sound nodeid' state' hold
  case index =>
    intro hash nodeid' address
    dsimp only
    by_cases hsame : hash = cell.entry.hash
    · subst hsame
      rw [Function.update_self]
      constructor
      · intro hnone
        contradiction
      · intro hother
        obtain ⟨state', hstate', other, hmem, -, hhash⟩ := hother
        rcases lookup_insert_cases hstate' with ⟨-, hnew⟩ | ⟨hne, hold⟩
        · rw [hnew] at hmem
          obtain ⟨hmem, hne⟩ := (hsound.mem_received hcell).mp hmem
          exact absurd (hs.eq_of_hash hstate hcell hstate hmem hhash).2 hne
        · exact absurd (hs.eq_of_hash hstate hcell hold hmem hhash).1 hne
    · rw [Function.update_of_ne hsame, hs.index]
      constructor
      · intro hother
        obtain ⟨state', hstate', other, hmem, haddress, hhash⟩ := hother
        by_cases hnode : nodeid' = nodeid
        · subst hnode
          rw [hstate] at hstate'
          rw [← Option.some.inj hstate'] at hmem
          refine ⟨state.received cell.address, ?_, other, ?_, haddress, hhash⟩
          · rw [lookup_insert_eq, if_pos rfl]
          · apply (hsound.mem_received hcell).mpr
            refine ⟨hmem, ?_⟩
            intro hcells
            rw [hcells] at hhash
            exact hsame hhash.symm
        · refine ⟨state', ?_, other, hmem, haddress, hhash⟩
          rw [lookup_insert_eq, if_neg hnode, hstate']
      · intro hother
        obtain ⟨state', hstate', other, hmem, hrest⟩ := hother
        rcases lookup_insert_cases hstate' with ⟨hnode, hnew⟩ | ⟨-, hold⟩
        · rw [hnew] at hmem
          rw [hnode]
          exact ⟨state, hstate, other, ((hsound.mem_received hcell).mp hmem).1, hrest⟩
        · exact ⟨state', hold, other, hmem, hrest⟩
  case queued =>
    have hqueued := hs.queued
    have htotal : s.queuedValidated =
        state.validated + total (fun _ state => state.validated) (s.mapNodeState.erase nodeid) :=
      total_eq_add_erase hstate
    have hcount := hsound.validated_received hcell
    unfold queuedValidated
    dsimp only
    rw [total_insert]
    omega

/-- No pointer that `MarkBlockAsReceived` follows is stale, and the hash is in flight no more. -/
theorem Tracked.markBlockAsReceived (hs : Tracked s dropped) (hash : Uint256) :
    ∃ s', s.markBlockAsReceived hash = some s' ∧ Tracked s' dropped ∧
      s'.mapBlocksInFlight hash = none ∧
      ∀ nodeid, (s'.mapNodeState.lookup nodeid).isSome = (s.mapNodeState.lookup nodeid).isSome := by
  unfold DownloadState.markBlockAsReceived
  cases hindex : s.mapBlocksInFlight hash with
  | none => exact ⟨s, rfl, hs, hindex, fun _ => rfl⟩
  | some place =>
    obtain ⟨nodeid, address⟩ := place
    obtain ⟨state, hstate, cell, hcell, haddress, hhash⟩ := (hs.index _ _ _).mp hindex
    subst haddress hhash
    dsimp only
    rw [hstate]
    dsimp only
    rw [(hs.sound nodeid state hstate).find_eq hcell]
    refine ⟨_, rfl, hs.received hstate hcell, Function.update_self _ _ _, ?_⟩
    intro nodeid'
    dsimp only
    rw [lookup_insert_eq]
    by_cases hsame : nodeid' = nodeid
    · rw [if_pos hsame, hsame, hstate]
      rfl
    · rw [if_neg hsame]

theorem Tracked.enqueue (hs : Tracked s dropped)
    (hstate : s.mapNodeState.lookup nodeid = some state) (hnew : s.mapBlocksInFlight hash = none)
    (pindex : Option Uint256) (now : Int) :
    Tracked (s.enqueue nodeid state hash pindex now) dropped := by
  have hsound := hs.sound nodeid state hstate
  constructor
  case sound =>
    intro nodeid' state' h
    rcases lookup_insert_cases h with ⟨-, hown⟩ | ⟨-, hold⟩
    · rw [hown]
      exact hsound.queued rfl
    · have hother := hs.sound nodeid' state' hold
      refine ⟨hother.length, hother.distinct, ?_⟩
      intro cell hcell
      exact Nat.lt_succ_of_lt (hother.fresh cell hcell)
  case index =>
    intro hash' nodeid' address
    unfold DownloadState.enqueue
    dsimp only
    by_cases hsame : hash' = hash
    · subst hsame
      rw [Function.update_self]
      constructor
      · intro hplace
        have hpair := Option.some.inj hplace
        have hnode : nodeid = nodeid' := congrArg Prod.fst hpair
        have haddress : s.allocated = address := congrArg Prod.snd hpair
        subst hnode
        refine ⟨_, AList.lookup_insert _, ⟨s.allocated, hash', pindex, now,
          s.nQueuedValidatedHeaders, pindex.isSome⟩, ?_, haddress, rfl⟩
        exact List.mem_append_right _ List.mem_cons_self
      · intro hother
        obtain ⟨state', hstate', cell, hmem, haddress, hhash⟩ := hother
        rcases lookup_insert_cases hstate' with ⟨hnode, hown⟩ | ⟨-, hold⟩
        · rw [hown] at hmem
          rcases List.mem_append.mp hmem with hbefore | hlast
          · have hindex := hs.index_of_mem hstate hbefore
            rw [hhash, hnew] at hindex
            contradiction
          · rw [List.mem_singleton.mp hlast] at haddress
            rw [hnode, ← haddress]
        · have hindex := hs.index_of_mem hold hmem
          rw [hhash, hnew] at hindex
          contradiction
    · rw [Function.update_of_ne hsame, hs.index]
      constructor
      · intro hother
        obtain ⟨state', hstate', cell, hmem, hrest⟩ := hother
        by_cases hnode : nodeid' = nodeid
        · subst hnode
          rw [hstate] at hstate'
          rw [← Option.some.inj hstate'] at hmem
          exact ⟨_, AList.lookup_insert _, cell, List.mem_append_left _ hmem, hrest⟩
        · refine ⟨state', ?_, cell, hmem, hrest⟩
          rw [lookup_insert_eq, if_neg hnode, hstate']
      · intro hother
        obtain ⟨state', hstate', cell, hmem, haddress, hhash⟩ := hother
        rcases lookup_insert_cases hstate' with ⟨hnode, hown⟩ | ⟨-, hold⟩
        · rw [hown] at hmem
          rcases List.mem_append.mp hmem with hbefore | hlast
          · rw [hnode]
            exact ⟨state, hstate, cell, hbefore, haddress, hhash⟩
          · rw [List.mem_singleton.mp hlast] at hhash
            exact absurd hhash.symm hsame
        · exact ⟨state', hold, cell, hmem, haddress, hhash⟩
  case queued =>
    have hqueued := hs.queued
    have htotal : s.queuedValidated =
        state.validated + total (fun _ state => state.validated) (s.mapNodeState.erase nodeid) :=
      total_eq_add_erase hstate
    have hcount : ∀ cell, (state.queued cell).validated =
        state.validated + cell.entry.fValidatedHeaders.toNat := by
      intro cell
      unfold CNodeState.validated CNodeState.queued
      dsimp only
      rw [List.countP_append, List.countP_singleton]
      cases cell.entry.fValidatedHeaders with
      | false => rfl
      | true => rfl
    unfold queuedValidated DownloadState.enqueue
    dsimp only
    rw [total_insert, hcount]
    dsimp only
    omega

theorem Tracked.markBlockAsInFlight (hs : Tracked s dropped)
    (hstate : s.mapNodeState.lookup nodeid = some state) (hash : Uint256)
    (pindex : Option Uint256) (now : Int) :
    ∃ s', s.markBlockAsInFlight nodeid hash pindex now = some s' ∧ Tracked s' dropped := by
  obtain ⟨s₁, hreceived, htracked, hnone, hnodes⟩ := hs.markBlockAsReceived hash
  have hsome : (s₁.mapNodeState.lookup nodeid).isSome := by
    rw [hnodes, hstate]
    rfl
  obtain ⟨state₁, hstate₁⟩ := Option.isSome_iff_exists.mp hsome
  unfold DownloadState.markBlockAsInFlight
  rw [hstate]
  dsimp only
  rw [hreceived]
  dsimp only
  rw [hstate₁]
  exact ⟨_, rfl, htracked.enqueue hstate₁ hnone pindex now⟩

/-- What a step adds to the validated entries that have been dropped. -/
def dropsNow (s : DownloadState) : DownloadEvent → ℕ
  | .finalizeNode nodeid => ((s.mapNodeState.lookup nodeid).map CNodeState.validated).getD 0
  | _ => 0

theorem noneDropped_iff (s : DownloadState) (event : DownloadEvent) :
    s.NoneDropped event ↔ s.dropsNow event = 0 := by
  cases event with
  | finalizeNode nodeid =>
    unfold NoneDropped dropsNow
    dsimp only
    cases s.mapNodeState.lookup nodeid with
    | none => simp
    | some state => simp
  | initializeNode nodeid => simp [NoneDropped, dropsNow]
  | markBlockAsReceived hash => simp [NoneDropped, dropsNow]
  | markBlockAsInFlight nodeid hash pindex now => simp [NoneDropped, dropsNow]

theorem Tracked.step {event : DownloadEvent} (hs : Tracked s dropped)
    (hstep : s.step event = some s') : Tracked s' (dropped + s.dropsNow event) := by
  cases event with
  | initializeNode nodeid =>
    rw [← Option.some.inj hstep]
    exact hs.initializeNode nodeid
  | finalizeNode nodeid =>
    cases hstate : s.mapNodeState.lookup nodeid with
    | none =>
      unfold DownloadState.step DownloadState.finalizeNode at hstep
      dsimp only at hstep
      rw [hstate] at hstep
      contradiction
    | some state =>
      unfold dropsNow
      dsimp only
      rw [hstate]
      exact hs.finalizeNode hstate hstep
  | markBlockAsReceived hash =>
    obtain ⟨s₁, hreceived, htracked, -, -⟩ := hs.markBlockAsReceived hash
    have hsame : s₁ = s' := Option.some.inj (hreceived.symm.trans hstep)
    rw [← hsame]
    exact htracked
  | markBlockAsInFlight nodeid hash pindex now =>
    cases hstate : s.mapNodeState.lookup nodeid with
    | none =>
      unfold DownloadState.step DownloadState.markBlockAsInFlight at hstep
      dsimp only at hstep
      rw [hstate] at hstep
      contradiction
    | some state =>
      obtain ⟨s₁, hmarked, htracked⟩ := hs.markBlockAsInFlight hstate hash pindex now
      have hsame : s₁ = s' := Option.some.inj (hmarked.symm.trans hstep)
      rw [← hsame]
      exact htracked

/-- The drift never goes back, so it stays away exactly when no step adds to it. -/
theorem Tracked.attempt (hs : Tracked s dropped) {events : List DownloadEvent}
    (hrun : attempt DownloadState.step s events = some s') :
    ∃ more, Tracked s' (dropped + more) ∧
      (more = 0 ↔ AttemptAlong DownloadState.step NoneDropped s events) := by
  induction events generalizing s dropped with
  | nil =>
    have hsame : s = s' := Option.some.inj hrun
    subst hsame
    refine ⟨0, hs, ?_⟩
    simp [AttemptAlong]
  | cons event events ih =>
    obtain ⟨next, hnext, hrest⟩ := attempt_cons_eq_some.mp hrun
    obtain ⟨more, htracked, hmore⟩ := ih (hs.step hnext) hrest
    refine ⟨s.dropsNow event + more, ?_, ?_⟩
    · rw [← Nat.add_assoc]
      exact htracked
    · unfold AttemptAlong
      rw [noneDropped_iff, Nat.add_eq_zero_iff, hmore, hnext]
      simp

/-- After a run the accounting is right exactly when no peer left with a block in flight whose
headers were validated. -/
theorem accounted_iff_noneDropped (events : List DownloadEvent)
    (hrun : attempt DownloadState.step empty events = some s) :
    s.Accounted ↔ AttemptAlong DownloadState.step NoneDropped empty events := by
  obtain ⟨more, htracked, hmore⟩ := tracked_empty.attempt hrun
  rw [htracked.accounted_iff, Nat.zero_add]
  exact hmore

/-- One peer, one block, received before the peer leaves. -/
def receivedRun : List DownloadEvent :=
  [.initializeNode 1, .markBlockAsInFlight 1 5 (some 5) 0, .markBlockAsReceived 5, .finalizeNode 1]

def afterReceivedRun : DownloadState := (attempt DownloadState.step empty receivedRun).get rfl

theorem attempt_receivedRun :
    attempt DownloadState.step empty receivedRun = some afterReceivedRun :=
  (Option.some_get _).symm

theorem noneDropped_receivedRun : AttemptAlong DownloadState.step NoneDropped empty receivedRun := by
  constructor
  · trivial
  intro first hfirst
  constructor
  · trivial
  intro second hsecond
  constructor
  · trivial
  intro third hthird
  constructor
  · intro state hstate
    have hone := Option.some.inj hfirst
    subst hone
    have htwo := Option.some.inj hsecond
    subst htwo
    have hthree := Option.some.inj hthird
    subst hthree
    have hempty := Option.some.inj hstate
    subst hempty
    rfl
  · intro last hlast
    trivial

theorem accounted_receivedRun : afterReceivedRun.Accounted :=
  (accounted_iff_noneDropped receivedRun attempt_receivedRun).mpr noneDropped_receivedRun

/-- The peer leaves with the block outstanding. -/
def outstandingRun : List DownloadEvent :=
  [.initializeNode 1, .markBlockAsInFlight 1 5 (some 5) 0, .finalizeNode 1]

def afterOutstandingRun : DownloadState :=
  (attempt DownloadState.step empty outstandingRun).get rfl

theorem not_accounted_outstandingRun :
    ¬ ∀ events s, attempt DownloadState.step empty events = some s → s.Accounted := by
  intro h
  have hrun : attempt DownloadState.step empty outstandingRun = some afterOutstandingRun :=
    (Option.some_get _).symm
  have hequal := (h outstandingRun afterOutstandingRun hrun).1
  have hone : afterOutstandingRun.nQueuedValidatedHeaders = 1 := rfl
  have hzero : afterOutstandingRun.queuedValidated = 0 := rfl
  rw [hone, hzero] at hequal
  contradiction

end DownloadState
end Lytix
