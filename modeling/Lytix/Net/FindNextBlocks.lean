import Lytix.Chain.CandidateRuns
import Lytix.Chain.GroundedIndex
import Lytix.Chain.SkipList
import Lytix.Net.OrphanTransactions

/-! Which blocks are asked of a peer next. `FindNextBlocksToDownload` goes from the last block that
the peer has in common with us towards the best one that it announced. -/
namespace Lytix
open Ancestry SkipLists

def BLOCK_DOWNLOAD_WINDOW : ℕ := 1024

/-- What `CNodeState` knows of the blocks of a peer. -/
structure PeerBlocks where
  pindexBestKnownBlock : Option Uint256 := none
  hashLastUnknownBlock : Uint256 := 0
  pindexLastCommonBlock : Option Uint256 := none

/-- The variables that the loop of `FindNextBlocksToDownload` changes. -/
structure Fetching where
  pindexLastCommonBlock : Uint256
  vBlocks : List Uint256
  waitingfor : NodeId
  nodeStaller : NodeId

/-- What a call leaves behind. -/
structure FetchResult where
  peer : PeerBlocks
  vBlocks : List Uint256
  nodeStaller : NodeId

namespace PeerBlocks

variable (s : ChainState) (peer : PeerBlocks)

/-- A block with work is the best one known of the peer, unless a better one is. -/
def withBlock (pindex : Uint256) : PeerBlocks :=
  { peer with pindexBestKnownBlock :=
      if peer.pindexBestKnownBlock.all fun best =>
          decide ((s.index best).nChainWork ≤ (s.index pindex).nChainWork) then some pindex
      else peer.pindexBestKnownBlock }

def processBlockAvailability : PeerBlocks :=
  if peer.hashLastUnknownBlock ≠ 0 ∧ peer.hashLastUnknownBlock ∈ s.mapBlockIndex ∧
      0 < (s.index peer.hashLastUnknownBlock).nChainWork then
    { peer.withBlock s peer.hashLastUnknownBlock with hashLastUnknownBlock := 0 }
  else peer

def updateBlockAvailability (hash : Uint256) : PeerBlocks :=
  let known := peer.processBlockAvailability s
  if hash ∈ s.mapBlockIndex ∧ 0 < (s.index hash).nChainWork then
    -- An actually better block was announced.
    known.withBlock s hash
  -- An unknown block was announced; just assume that the latest one is the best one.
  else { known with hashLastUnknownBlock := hash }

end PeerBlocks

namespace ChainState

variable (s : ChainState)

/-- The loop of `LastCommonAncestor`, with null as `some none`. It has no result if the assertion
behind it fails, or if it does not end in the rounds given. -/
def meet : ℕ → Option Uint256 → Option Uint256 → Option (Option Uint256)
  | rounds + 1, some pa, some pb =>
    if pa = pb then some (some pa) else meet rounds (s.pprev pa) (s.pprev pb)
  | _, pa, pb => if pa = pb then some pa else none

def lastCommonAncestor (pa pb : Uint256) : Option (Option Uint256) :=
  if (s.index pb).nHeight < (s.index pa).nHeight then
    s.meet ((s.index pb).nHeight + 1) (s.getAncestor pa (s.index pb).nHeight) (some pb)
  else if (s.index pa).nHeight < (s.index pb).nHeight then
    s.meet ((s.index pa).nHeight + 1) (some pa) (s.getAncestor pb (s.index pa).nHeight)
  else s.meet ((s.index pa).nHeight + 1) (some pa) (some pb)

/-- `vToFetch`: an entry and the `n` ones before it, from the back. -/
def fetchBack : ℕ → Uint256 → Option (List Uint256)
  | 0, pindex => some [pindex]
  | n + 1, pindex => (s.pprev pindex).bind fun p => (fetchBack n p).map (· ++ [pindex])

/-- `nToFetch`, with the difference of the unsigned counts as an `int`. -/
def batchSize (count size left : ℕ) : ℕ :=
  min left (max (((count : Int) - size).bmod (2 ^ 32)) 128).toNat

section
variable (mapBlocksInFlight : Uint256 → Option NodeId) (nodeid : NodeId) (count nWindowEnd : ℕ)

/-- One block of the inner loop, and whether the function returns there. -/
def visit (f : Fetching) (pindex : Uint256) : Bool × Fetching :=
  if !(s.index pindex).isValid BLOCK_VALID_TREE then (true, f)
  else if (s.index pindex).nStatus.haveData then
    if (s.index pindex).nChainTx ≠ 0 then (false, { f with pindexLastCommonBlock := pindex })
    else (false, f)
  else
    match mapBlocksInFlight pindex with
    | none =>
      -- The block is not already downloaded, and not yet in flight.
      if nWindowEnd < (s.index pindex).nHeight then
        (true, if f.vBlocks.length = 0 ∧ f.waitingfor ≠ nodeid then
          { f with nodeStaller := f.waitingfor } else f)
      else
        (decide ((f.vBlocks ++ [pindex]).length = count), { f with vBlocks := f.vBlocks ++ [pindex] })
    | some owner =>
      -- This is the first already-in-flight block.
      if f.waitingfor = -1 then (false, { f with waitingfor := owner }) else (false, f)

def visitAll : List Uint256 → Fetching → Bool × Fetching
  | [], f => (false, f)
  | pindex :: vToFetch, f =>
    match s.visit mapBlocksInFlight nodeid count nWindowEnd f pindex with
    | (true, f) => (true, f)
    | (false, f) => visitAll vToFetch f

/-- The outer loop. It has no result if it reads a null pointer, or does not end in the rounds
given. -/
def fetchBlocks (best : Uint256) (nMaxHeight : ℕ) : ℕ → Uint256 → Fetching → Option Fetching
  | rounds, pindexWalk, f =>
    if (s.index pindexWalk).nHeight < nMaxHeight then
      match rounds with
      | 0 => none
      | rounds + 1 => do
        let nToFetch := batchSize count f.vBlocks.length (nMaxHeight - (s.index pindexWalk).nHeight)
        let pindexWalk ← s.getAncestor best ((s.index pindexWalk).nHeight + nToFetch)
        let vToFetch ← s.fetchBack (nToFetch - 1) pindexWalk
        match s.visitAll mapBlocksInFlight nodeid count nWindowEnd vToFetch f with
        | (true, f) => some f
        | (false, f) => fetchBlocks best nMaxHeight rounds pindexWalk f
    else some f

end

section
variable (mapBlocksInFlight : Uint256 → Option NodeId) (nodeid : NodeId) (count : ℕ)

/-- The part of `FindNextBlocksToDownload` for a peer that has something interesting. -/
def fetchFrom (peer : PeerBlocks) (best : Uint256) (vBlocks : List Uint256) (nodeStaller : NodeId) :
    Option FetchResult := do
  -- Bootstrap quickly by guessing a parent of our best tip is the forking point.
  let start ← peer.pindexLastCommonBlock.or
    s.chainActive[min (s.index best).nHeight (s.chainActive.length - 1)]?
  -- If the peer reorganized, our previous block may not be an ancestor of their current tip anymore.
  let fork ← (s.lastCommonAncestor start best).join
  if fork = best then some ⟨{ peer with pindexLastCommonBlock := some fork }, vBlocks, nodeStaller⟩
  else
    let nWindowEnd := (s.index fork).nHeight + BLOCK_DOWNLOAD_WINDOW
    let nMaxHeight := min (s.index best).nHeight (nWindowEnd + 1)
    let f ← s.fetchBlocks mapBlocksInFlight nodeid count nWindowEnd best nMaxHeight
      (BLOCK_DOWNLOAD_WINDOW + 1) fork ⟨fork, vBlocks, -1, nodeStaller⟩
    some ⟨{ peer with pindexLastCommonBlock := some f.pindexLastCommonBlock }, f.vBlocks,
      f.nodeStaller⟩

def findNextBlocksToDownload (peer : PeerBlocks) (vBlocks : List Uint256) (nodeStaller : NodeId) :
    Option FetchResult :=
  if count = 0 then some ⟨peer, vBlocks, nodeStaller⟩
  else
    let peer := peer.processBlockAvailability s
    match peer.pindexBestKnownBlock with
    | none => some ⟨peer, vBlocks, nodeStaller⟩
    | some best => s.tip.bind fun tip =>
      -- This peer has nothing interesting.
      if (s.index best).nChainWork < (s.index tip).nChainWork then some ⟨peer, vBlocks, nodeStaller⟩
      else s.fetchFrom mapBlocksInFlight nodeid count peer best vBlocks nodeStaller

end

/-- All blocks from the first one to this one have their data. -/
def HasAllData (x : Uint256) : Prop :=
  ∀ a, IsAncestor s.pprev a x → (s.index a).nStatus.haveData = true

/-- The entries form one tree, the chain of a counted block has all data, and the active chain is
not empty and counted. -/
structure Downloadable : Prop where
  skips : s.Skips
  oneRoot : ∀ x ∈ s.mapBlockIndex, ∀ y ∈ s.mapBlockIndex, s.pprev x = none → s.pprev y = none → x = y
  counted : ∀ x ∈ s.mapBlockIndex, (s.index x).nChainTx ≠ 0 →
    (s.index x).nStatus.haveData = true ∧ ∀ p, s.pprev x = some p → (s.index p).nChainTx ≠ 0
  active : ∀ x ∈ s.chainActive, x ∈ s.mapBlockIndex ∧ (s.index x).nChainTx ≠ 0
  nonempty : s.chainActive ≠ []

/-- The entries of `s` are entries of `s'`, where they stood, and no data is lost. -/
structure Extends (s' : ChainState) : Prop where
  mem : ∀ x ∈ s.mapBlockIndex, x ∈ s'.mapBlockIndex
  pprev : ∀ x ∈ s.mapBlockIndex, s'.pprev x = s.pprev x
  haveData : ∀ x ∈ s.mapBlockIndex, (s.index x).nStatus.haveData = true →
    (s'.index x).nStatus.haveData = true

end ChainState

/-- The best known block is an entry, and all blocks up to the last common one are stored. -/
structure PeerBlocks.Sound (s : ChainState) (peer : PeerBlocks) : Prop where
  best : ∀ x ∈ peer.pindexBestKnownBlock, x ∈ s.mapBlockIndex
  common : ∀ x ∈ peer.pindexLastCommonBlock, x ∈ s.mapBlockIndex ∧ s.HasAllData x

namespace ChainState

/-- What a call asks for, and where it leaves the last common block: the blocks are above that
block, within the window that starts at or below it. -/
structure Scheduled (s : ChainState) (mapBlocksInFlight : Uint256 → Option NodeId) (count : ℕ)
    (before : PeerBlocks) (result : FetchResult) : Prop where
  length : result.vBlocks.length ≤ count
  ascending : result.vBlocks.Pairwise fun a b => (s.index a).nHeight < (s.index b).nHeight
  nodup : result.vBlocks.Nodup
  blocks : ∀ x ∈ result.vBlocks, ∃ best ∈ result.peer.pindexBestKnownBlock,
    ∃ common ∈ result.peer.pindexLastCommonBlock, ∃ fork, IsAncestor s.pprev fork common ∧
      IsAncestor s.pprev x best ∧ (s.index x).nStatus.haveData = false ∧
        mapBlocksInFlight x = none ∧ (s.index common).nHeight < (s.index x).nHeight ∧
          (s.index x).nHeight ≤ (s.index fork).nHeight + BLOCK_DOWNLOAD_WINDOW
  common : result.peer.pindexLastCommonBlock = before.pindexLastCommonBlock ∨
    ∃ best ∈ result.peer.pindexBestKnownBlock, ∃ common ∈ result.peer.pindexLastCommonBlock,
      IsAncestor s.pprev common best ∧ s.HasAllData common

/-- The blocks between a fork and a height have been looked at. -/
structure Progress (s : ChainState) (mapBlocksInFlight : Uint256 → Option NodeId)
    (nWindowEnd : ℕ) (fork best : Uint256) (level : ℕ) (f : Fetching) : Prop where
  above : IsAncestor s.pprev fork f.pindexLastCommonBlock
  below : IsAncestor s.pprev f.pindexLastCommonBlock best
  stored : s.HasAllData f.pindexLastCommonBlock
  blocks : ∀ x ∈ f.vBlocks, IsAncestor s.pprev x best ∧ (s.index x).nStatus.haveData = false ∧
    mapBlocksInFlight x = none ∧ (s.index x).nHeight ≤ level ∧ (s.index x).nHeight ≤ nWindowEnd
  ascending : f.vBlocks.Pairwise fun a b => (s.index a).nHeight < (s.index b).nHeight

/-- The list goes up towards an entry, from one above a height. -/
def Ascends (s : ChainState) (best : Uint256) : ℕ → List Uint256 → Prop
  | _, [] => True
  | level, x :: l => IsAncestor s.pprev x best ∧ (s.index x).nHeight = level + 1 ∧
      Ascends s best (level + 1) l

section
variable {s s' : ChainState} {mapBlocksInFlight : Uint256 → Option NodeId} {nodeid : NodeId}
  {count nWindowEnd level more rounds : ℕ} {fork best x y a b : Uint256} {f : Fetching}
  {l : List Uint256}

/-! `LastCommonAncestor`. -/

theorem Downloadable.meet_spec (index : s.Downloadable) (ha : a ∈ s.mapBlockIndex)
    (hb : b ∈ s.mapBlockIndex) (hlevel : (s.index a).nHeight = (s.index b).nHeight)
    (hrounds : (s.index a).nHeight < rounds) :
    ∃ fork, s.meet rounds (some a) (some b) = some (some fork) ∧
      IsAncestor s.pprev fork a ∧ IsAncestor s.pprev fork b := by
  induction rounds generalizing a b with
  | zero => omega
  | succ rounds ih =>
    rw [meet]
    by_cases heq : a = b
    · rw [if_pos heq]
      exact ⟨a, rfl, IsAncestor.refl _ _, heq ▸ IsAncestor.refl _ _⟩
    · rw [if_neg heq]
      cases hpa : s.pprev a with
      | none =>
        have hbottom := index.skips.root a ha hpa
        cases hpb : s.pprev b with
        | none => exact absurd (index.oneRoot a ha b hb hpa hpb) heq
        | some q =>
          have hheight := (index.skips.parent_mem b hb q hpb).2
          omega
      | some p =>
        obtain ⟨hp, hpheight⟩ := index.skips.parent_mem a ha p hpa
        cases hpb : s.pprev b with
        | none =>
          have hbottom := index.skips.root b hb hpb
          omega
        | some q =>
          obtain ⟨hq, hqheight⟩ := index.skips.parent_mem b hb q hpb
          obtain ⟨fork, hmeet, hforka, hforkb⟩ := ih hp hq (by omega) (by omega)
          exact ⟨fork, hmeet, hforka.trans (IsAncestor.of_parent hpa),
            hforkb.trans (IsAncestor.of_parent hpb)⟩

theorem Downloadable.lastCommonAncestor_spec (index : s.Downloadable) (ha : a ∈ s.mapBlockIndex)
    (hb : b ∈ s.mapBlockIndex) :
    ∃ fork, s.lastCommonAncestor a b = some (some fork) ∧
      IsAncestor s.pprev fork a ∧ IsAncestor s.pprev fork b := by
  unfold lastCommonAncestor
  by_cases hab : (s.index b).nHeight < (s.index a).nHeight
  · obtain ⟨x, hup, hx, hsum⟩ :=
      index.skips.up_exists ha (Nat.sub_le (s.index a).nHeight (s.index b).nHeight)
    obtain ⟨fork, hmeet, hforkx, hforkb⟩ := index.meet_spec hx hb (by omega)
      (show (s.index x).nHeight < (s.index b).nHeight + 1 by omega)
    rw [if_pos hab, index.skips.getAncestor_eq ha hab.le, hup]
    exact ⟨fork, hmeet, hforkx.trans (isAncestor_iff_up.mpr ⟨_, hup⟩), hforkb⟩
  · rw [if_neg hab]
    by_cases hba : (s.index a).nHeight < (s.index b).nHeight
    · obtain ⟨x, hup, hx, hsum⟩ :=
        index.skips.up_exists hb (Nat.sub_le (s.index b).nHeight (s.index a).nHeight)
      obtain ⟨fork, hmeet, hforka, hforkx⟩ := index.meet_spec ha hx (by omega)
        (Nat.lt_succ_self _)
      rw [if_pos hba, index.skips.getAncestor_eq hb hba.le, hup]
      exact ⟨fork, hmeet, hforka, hforkx.trans (isAncestor_iff_up.mpr ⟨_, hup⟩)⟩
    · rw [if_neg hba]
      exact index.meet_spec ha hb (by omega) (Nat.lt_succ_self _)

/-! Counted blocks. -/

theorem Downloadable.hasAllData (index : s.Downloadable) (hx : x ∈ s.mapBlockIndex)
    (hcounted : (s.index x).nChainTx ≠ 0) : s.HasAllData x := by
  intro a ha
  have hchain : a ∈ s.mapBlockIndex ∧ (s.index a).nChainTx ≠ 0 := by
    induction ha with
    | refl => exact ⟨hx, hcounted⟩
    | tail _ hparent ih =>
      obtain ⟨hmem, hcount⟩ := ih
      exact ⟨(index.skips.parent_mem _ hmem _ hparent).1, (index.counted _ hmem hcount).2 _ hparent⟩
  exact (index.counted a hchain.1 hchain.2).1

/-! The loop over the blocks. -/

theorem Progress.mono (progress : Progress s mapBlocksInFlight nWindowEnd fork best level f)
    (hle : level ≤ more) : Progress s mapBlocksInFlight nWindowEnd fork best more f where
  above := progress.above
  below := progress.below
  stored := progress.stored
  blocks := by
    intro x hx
    obtain ⟨hanc, hdata, hflight, hlevel, hwindow⟩ := progress.blocks x hx
    exact ⟨hanc, hdata, hflight, hlevel.trans hle, hwindow⟩
  ascending := progress.ascending

/-- A block that is asked for lies above all that were asked for before. -/
theorem Progress.push (progress : Progress s mapBlocksInFlight nWindowEnd fork best level f)
    (hx : IsAncestor s.pprev x best) (hheight : (s.index x).nHeight = level + 1)
    (hdata : (s.index x).nStatus.haveData = false) (hflight : mapBlocksInFlight x = none)
    (hend : (s.index x).nHeight ≤ nWindowEnd) :
    Progress s mapBlocksInFlight nWindowEnd fork best (level + 1)
      { f with vBlocks := f.vBlocks ++ [x] } := by
  have hsame := progress.mono (Nat.le_succ level)
  refine ⟨hsame.above, hsame.below, hsame.stored, ?_, ?_⟩
  · intro y hy
    rcases List.mem_append.mp hy with hy | hy
    · exact hsame.blocks y hy
    · rw [List.mem_singleton.mp hy]
      exact ⟨hx, hdata, hflight, hheight.le, hend⟩
  · rw [List.pairwise_append]
    refine ⟨hsame.ascending, List.pairwise_singleton _ _, ?_⟩
    intro y hy z hz
    rw [List.mem_singleton.mp hz, hheight]
    exact Nat.lt_succ_of_le (progress.blocks y hy).2.2.2.1

/-- A look at the next block. -/
theorem Progress.visit (progress : Progress s mapBlocksInFlight nWindowEnd fork best level f)
    (index : s.Downloadable) (hbest : best ∈ s.mapBlockIndex) (hfork : IsAncestor s.pprev fork best)
    (hlevel : (s.index fork).nHeight ≤ level) (hx : IsAncestor s.pprev x best)
    (hheight : (s.index x).nHeight = level + 1) (hcount : f.vBlocks.length < count) :
    Progress s mapBlocksInFlight nWindowEnd fork best (level + 1)
        (s.visit mapBlocksInFlight nodeid count nWindowEnd f x).2 ∧
      (s.visit mapBlocksInFlight nodeid count nWindowEnd f x).2.vBlocks.length ≤ count ∧
        ((s.visit mapBlocksInFlight nodeid count nWindowEnd f x).1 = false →
          (s.visit mapBlocksInFlight nodeid count nWindowEnd f x).2.vBlocks.length < count) := by
  have hsame := progress.mono (Nat.le_succ level)
  have hmem := index.skips.mem_of_isAncestor hbest hx
  have hforkx := index.skips.isAncestor_of_le hbest hfork hx (by omega)
  unfold ChainState.visit
  by_cases hvalid : !(s.index x).isValid BLOCK_VALID_TREE
  · rw [if_pos hvalid]
    exact ⟨hsame, hcount.le, fun _ => hcount⟩
  rw [if_neg hvalid]
  by_cases hdata : (s.index x).nStatus.haveData = true
  · rw [if_pos hdata]
    split_ifs with hcounted
    · exact ⟨⟨hforkx, hx, index.hasAllData hmem hcounted, hsame.blocks, hsame.ascending⟩, hcount.le,
        fun _ => hcount⟩
    · exact ⟨hsame, hcount.le, fun _ => hcount⟩
  · rw [if_neg hdata]
    cases hflight : mapBlocksInFlight x with
    | none =>
      dsimp only
      by_cases hend : nWindowEnd < (s.index x).nHeight
      · rw [if_pos hend]
        split_ifs
        · exact ⟨⟨hsame.above, hsame.below, hsame.stored, hsame.blocks, hsame.ascending⟩, hcount.le,
            fun _ => hcount⟩
        · exact ⟨hsame, hcount.le, fun _ => hcount⟩
      · rw [if_neg hend]
        have hpushed : (f.vBlocks ++ [x]).length = f.vBlocks.length + 1 := List.length_append
        refine ⟨progress.push hx hheight (eq_false_of_ne_true hdata) hflight (not_lt.mp hend), ?_, ?_⟩
        · dsimp only
          omega
        · intro hgo
          have hne := of_decide_eq_false hgo
          dsimp only
          omega
    | some owner =>
      dsimp only
      split_ifs
      · exact ⟨⟨hsame.above, hsame.below, hsame.stored, hsame.blocks, hsame.ascending⟩, hcount.le,
          fun _ => hcount⟩
      · exact ⟨hsame, hcount.le, fun _ => hcount⟩

theorem Progress.visitAll (progress : Progress s mapBlocksInFlight nWindowEnd fork best level f)
    (index : s.Downloadable) (hbest : best ∈ s.mapBlockIndex) (hfork : IsAncestor s.pprev fork best)
    (hlevel : (s.index fork).nHeight ≤ level) (hl : s.Ascends best level l)
    (hcount : f.vBlocks.length < count) :
    Progress s mapBlocksInFlight nWindowEnd fork best (level + l.length)
        (s.visitAll mapBlocksInFlight nodeid count nWindowEnd l f).2 ∧
      (s.visitAll mapBlocksInFlight nodeid count nWindowEnd l f).2.vBlocks.length ≤ count ∧
        ((s.visitAll mapBlocksInFlight nodeid count nWindowEnd l f).1 = false →
          (s.visitAll mapBlocksInFlight nodeid count nWindowEnd l f).2.vBlocks.length < count) := by
  induction l generalizing level f with
  | nil => exact ⟨progress, hcount.le, fun _ => hcount⟩
  | cons x l ih =>
    obtain ⟨hx, hheight, hrest⟩ := hl
    obtain ⟨hnext, hle, hgo⟩ := @Progress.visit s mapBlocksInFlight nodeid count nWindowEnd level
      fork best x f progress index hbest hfork hlevel hx hheight hcount
    have hlength : level + (x :: l).length = level + 1 + l.length := by
      rw [List.length_cons]
      omega
    rw [hlength, ChainState.visitAll]
    cases hvisit : s.visit mapBlocksInFlight nodeid count nWindowEnd f x with
    | mk returned f' =>
      rw [hvisit] at hnext hle hgo
      cases returned with
      | true => exact ⟨hnext.mono (Nat.le_add_right _ _), hle, fun h => absurd h (by simp)⟩
      | false => exact ih hnext (by omega) hrest (hgo rfl)

/-! The batches. -/

theorem ascends_append (hl : s.Ascends best level l) (hx : IsAncestor s.pprev x best)
    (hheight : (s.index x).nHeight = level + l.length + 1) : s.Ascends best level (l ++ [x]) := by
  induction l generalizing level with
  | nil => exact ⟨hx, hheight, trivial⟩
  | cons y l ih =>
    obtain ⟨hy, hyheight, hrest⟩ := hl
    rw [List.length_cons] at hheight
    exact ⟨hy, hyheight, ih hrest (by omega)⟩

theorem Downloadable.fetchBack_spec (index : s.Downloadable) (hbest : best ∈ s.mapBlockIndex)
    {n : ℕ} (hx : IsAncestor s.pprev x best) (hheight : (s.index x).nHeight = level + n + 1) :
    ∃ l, s.fetchBack n x = some l ∧ l.length = n + 1 ∧ s.Ascends best level l := by
  induction n generalizing x with
  | zero => exact ⟨[x], rfl, rfl, hx, hheight, trivial⟩
  | succ n ih =>
    have hmem := index.skips.mem_of_isAncestor hbest hx
    cases hparent : s.pprev x with
    | none =>
      have hroot := index.skips.root x hmem hparent
      omega
    | some p =>
      have hpheight := (index.skips.parent_mem x hmem p hparent).2
      obtain ⟨l, hback, hlength, hl⟩ :=
        @ih p ((IsAncestor.of_parent hparent).trans hx) (by omega)
      refine ⟨l ++ [x], ?_, ?_, ascends_append hl hx (by omega)⟩
      · rw [fetchBack, hparent, Option.bind_some, hback]
        rfl
      · rw [List.length_append, hlength]
        rfl

theorem batchSize_bounds {size left : ℕ} (hleft : 0 < left) :
    0 < batchSize count size left ∧ batchSize count size left ≤ left := by
  unfold batchSize
  have hmax := le_max_right (((count : Int) - size).bmod (2 ^ 32)) 128
  omega

/-- The outer loop ends, for it goes up in every round. -/
theorem Progress.fetchBlocks (index : s.Downloadable) (hbest : best ∈ s.mapBlockIndex)
    (hfork : IsAncestor s.pprev fork best) {nMaxHeight : ℕ}
    (hmax : nMaxHeight ≤ (s.index best).nHeight) (hx : IsAncestor s.pprev x best)
    (progress : Progress s mapBlocksInFlight nWindowEnd fork best (s.index x).nHeight f)
    (hlevel : (s.index fork).nHeight ≤ (s.index x).nHeight) (hcount : f.vBlocks.length < count)
    (hrounds : nMaxHeight ≤ (s.index x).nHeight + rounds) :
    ∃ f', s.fetchBlocks mapBlocksInFlight nodeid count nWindowEnd best nMaxHeight rounds x f =
        some f' ∧
      Progress s mapBlocksInFlight nWindowEnd fork best (s.index best).nHeight f' ∧
        f'.vBlocks.length ≤ count := by
  have hxle := ((index.skips.isAncestor_iff hbest).mp hx).1
  induction rounds generalizing x f with
  | zero =>
    rw [ChainState.fetchBlocks, if_neg (by omega)]
    exact ⟨f, rfl, progress.mono hxle, hcount.le⟩
  | succ rounds ih =>
    rw [ChainState.fetchBlocks]
    by_cases hgo : (s.index x).nHeight < nMaxHeight
    · obtain ⟨hpos, hle⟩ :=
        @batchSize_bounds count f.vBlocks.length (nMaxHeight - (s.index x).nHeight) (by omega)
      rw [if_pos hgo]
      dsimp only
      generalize batchSize count f.vBlocks.length (nMaxHeight - (s.index x).nHeight) = nToFetch at *
      obtain ⟨w, hup, -, hsum⟩ := index.skips.up_exists hbest
        (Nat.sub_le (s.index best).nHeight ((s.index x).nHeight + nToFetch))
      have hw := isAncestor_iff_up.mpr ⟨_, hup⟩
      obtain ⟨l, hback, hlength, hl⟩ := @Downloadable.fetchBack_spec s (s.index x).nHeight best w
        index hbest (nToFetch - 1) hw (by omega)
      obtain ⟨hnext, hbound, hunfinished⟩ := @Progress.visitAll s mapBlocksInFlight nodeid count
        nWindowEnd (s.index x).nHeight fork best f l progress index hbest hfork hlevel hl hcount
      have hreached : (s.index x).nHeight + l.length = (s.index w).nHeight := by omega
      rw [hreached] at hnext
      rw [index.skips.getAncestor_eq hbest (by omega), hup]
      simp only [Option.bind_eq_bind, Option.bind_some, hback]
      cases hvisit : s.visitAll mapBlocksInFlight nodeid count nWindowEnd l f with
      | mk returned f' =>
        rw [hvisit] at hnext hbound hunfinished
        cases returned with
        | true => exact ⟨f', rfl, hnext.mono (by omega), hbound⟩
        | false => exact ih hw hnext (by omega) (hunfinished rfl) (by omega) (by omega)
    · rw [if_neg hgo]
      exact ⟨f, rfl, progress.mono hxle, hcount.le⟩

/-! The whole call. -/

theorem Progress.scheduled (progress : Progress s mapBlocksInFlight
      ((s.index fork).nHeight + BLOCK_DOWNLOAD_WINDOW) fork best level f) (index : s.Downloadable)
    (hbest : best ∈ s.mapBlockIndex) (hcount : f.vBlocks.length ≤ count) {before peer : PeerBlocks}
    (hpeer : peer.pindexBestKnownBlock = some best) :
    Scheduled s mapBlocksInFlight count before
      ⟨{ peer with pindexLastCommonBlock := some f.pindexLastCommonBlock }, f.vBlocks,
        f.nodeStaller⟩ where
  length := hcount
  ascending := progress.ascending
  nodup := by
    apply progress.ascending.imp
    rintro a b hlt rfl
    exact lt_irrefl _ hlt
  blocks := by
    intro x hx
    obtain ⟨hanc, hdata, hflight, -, hwindow⟩ := progress.blocks x hx
    refine ⟨best, hpeer, f.pindexLastCommonBlock, rfl, fork, progress.above, hanc, hdata, hflight, ?_,
      hwindow⟩
    by_contra hle
    have hbelow := index.skips.isAncestor_of_le hbest hanc progress.below (not_lt.mp hle)
    rw [progress.stored x hbelow] at hdata
    contradiction
  common := Or.inr ⟨best, hpeer, f.pindexLastCommonBlock, rfl, progress.below, progress.stored⟩

/-- A call that asks for nothing and keeps the last common block. -/
theorem scheduled_nothing {before peer : PeerBlocks} {nodeStaller : NodeId}
    (hkept : peer.pindexLastCommonBlock = before.pindexLastCommonBlock) :
    Scheduled s mapBlocksInFlight count before ⟨peer, [], nodeStaller⟩ where
  length := Nat.zero_le _
  ascending := List.Pairwise.nil
  nodup := List.nodup_nil
  blocks := fun _ hx => absurd hx List.not_mem_nil
  common := Or.inl hkept

theorem Downloadable.fetchFrom_spec (index : s.Downloadable) {peer before : PeerBlocks}
    (sound : peer.Sound s) (hpeer : peer.pindexBestKnownBlock = some best) (hcount : 0 < count)
    (nodeStaller : NodeId) :
    ∃ result, s.fetchFrom mapBlocksInFlight nodeid count peer best [] nodeStaller = some result ∧
      result.peer.pindexBestKnownBlock = some best ∧
        Scheduled s mapBlocksInFlight count before result := by
  have hbest := sound.best best hpeer
  have hlength := List.length_pos_iff.mpr index.nonempty
  have hguess : min (s.index best).nHeight (s.chainActive.length - 1) < s.chainActive.length := by
    omega
  -- the old last common block, or one of the active chain
  obtain ⟨start, hstart, hmem, hstored⟩ : ∃ start, peer.pindexLastCommonBlock.or
      s.chainActive[min (s.index best).nHeight (s.chainActive.length - 1)]? = some start ∧
        start ∈ s.mapBlockIndex ∧ s.HasAllData start := by
    cases hcommon : peer.pindexLastCommonBlock with
    | some x =>
      obtain ⟨hx, hdata⟩ := sound.common x hcommon
      exact ⟨x, rfl, hx, hdata⟩
    | none =>
      obtain ⟨hx, hcounted⟩ := index.active _ (List.getElem_mem hguess)
      exact ⟨_, List.getElem?_eq_getElem hguess, hx, index.hasAllData hx hcounted⟩
  obtain ⟨fork, hmeet, hforkstart, hfork⟩ := index.lastCommonAncestor_spec hmem hbest
  have hforkstored : s.HasAllData fork := fun a ha => hstored a (ha.trans hforkstart)
  unfold fetchFrom
  rw [hstart]
  simp only [Option.bind_eq_bind, Option.bind_some, hmeet, Option.join_some]
  by_cases hreached : fork = best
  · rw [if_pos hreached]
    refine ⟨_, rfl, hpeer, Nat.zero_le _, List.Pairwise.nil, List.nodup_nil,
      fun x hx => absurd hx List.not_mem_nil, Or.inr ⟨best, hpeer, fork, rfl, hfork, hforkstored⟩⟩
  · rw [if_neg hreached]
    have hfirst : Progress s mapBlocksInFlight ((s.index fork).nHeight + BLOCK_DOWNLOAD_WINDOW)
        fork best (s.index fork).nHeight ⟨fork, [], -1, nodeStaller⟩ :=
      ⟨IsAncestor.refl _ _, hfork, hforkstored, fun x hx => absurd hx List.not_mem_nil,
        List.Pairwise.nil⟩
    obtain ⟨f, hfetch, hprogress, hbound⟩ := @Progress.fetchBlocks s mapBlocksInFlight nodeid count
      ((s.index fork).nHeight + BLOCK_DOWNLOAD_WINDOW) (BLOCK_DOWNLOAD_WINDOW + 1) fork best fork _
      index hbest hfork (min (s.index best).nHeight
        ((s.index fork).nHeight + BLOCK_DOWNLOAD_WINDOW + 1)) (min_le_left _ _) hfork hfirst le_rfl
      hcount (by omega)
    rw [hfetch]
    exact ⟨_, rfl, hpeer, hprogress.scheduled index hbest hbound hpeer⟩

end

end ChainState

namespace PeerBlocks

variable {s s' : ChainState} {peer : PeerBlocks} {hash x : Uint256}

theorem Sound.withBlock (sound : peer.Sound s) (hx : x ∈ s.mapBlockIndex) :
    (peer.withBlock s x).Sound s where
  best := by
    intro y hy
    unfold PeerBlocks.withBlock at hy
    dsimp only at hy
    split_ifs at hy
    · rw [← Option.mem_some_iff.mp hy]
      exact hx
    · exact sound.best y hy
  common := sound.common

theorem Sound.processBlockAvailability (sound : peer.Sound s) :
    (peer.processBlockAvailability s).Sound s := by
  unfold PeerBlocks.processBlockAvailability
  split_ifs with hknown
  · exact ⟨(sound.withBlock hknown.2.1).best, sound.common⟩
  · exact sound

theorem common_processBlockAvailability :
    (peer.processBlockAvailability s).pindexLastCommonBlock = peer.pindexLastCommonBlock := by
  unfold PeerBlocks.processBlockAvailability
  split_ifs
  · rfl
  · rfl

theorem Sound.updateBlockAvailability (sound : peer.Sound s) (hash : Uint256) :
    (peer.updateBlockAvailability s hash).Sound s := by
  unfold PeerBlocks.updateBlockAvailability
  dsimp only
  split_ifs with hknown
  · exact sound.processBlockAvailability.withBlock hknown.1
  · exact ⟨sound.processBlockAvailability.best, sound.processBlockAvailability.common⟩

/-- A block index that has grown keeps what is known of a peer. -/
theorem Sound.extends (sound : peer.Sound s) (index : s.Downloadable) (h : s.Extends s') :
    peer.Sound s' where
  best := fun x hx => h.mem x (sound.best x hx)
  common := by
    intro x hx
    obtain ⟨hmem, hdata⟩ := sound.common x hx
    refine ⟨h.mem x hmem, ?_⟩
    have hsame (z : Uint256) (hz : IsAncestor s.pprev z x) : s'.pprev z = s.pprev z :=
      h.pprev z (index.skips.mem_of_isAncestor hmem hz)
    intro a ha
    have hold := (isAncestor_congr hsame).mp ha
    exact h.haveData a (index.skips.mem_of_isAncestor hmem hold) (hdata a hold)

end PeerBlocks

namespace ChainState

/-- A peer's blocks over any time: the block index changes, the peer announces blocks, and blocks
are chosen for it, with whatever is in flight then. -/
inductive DownloadRun : ChainState → PeerBlocks → Prop
  | start {s : ChainState} (index : s.Downloadable) : DownloadRun s {}
  | index {s s' : ChainState} {peer : PeerBlocks} (run : DownloadRun s peer)
      (index : s'.Downloadable) (grows : s.Extends s') : DownloadRun s' peer
  | announce {s : ChainState} {peer : PeerBlocks} (run : DownloadRun s peer) (hash : Uint256) :
      DownloadRun s (peer.updateBlockAvailability s hash)
  | fetch {s : ChainState} {peer : PeerBlocks} (run : DownloadRun s peer)
      (mapBlocksInFlight : Uint256 → Option NodeId) (nodeid nodeStaller : NodeId) (count : ℕ)
      {result : FetchResult} (h : s.findNextBlocksToDownload mapBlocksInFlight nodeid count peer []
        nodeStaller = some result) : DownloadRun s result.peer

section
variable {s : ChainState} {peer : PeerBlocks} {mapBlocksInFlight : Uint256 → Option NodeId}
  {nodeid nodeStaller : NodeId} {count : ℕ}

theorem Downloadable.findNextBlocksToDownload_spec (index : s.Downloadable) (sound : peer.Sound s) :
    ∃ result, s.findNextBlocksToDownload mapBlocksInFlight nodeid count peer [] nodeStaller =
        some result ∧
      (∀ x ∈ result.peer.pindexBestKnownBlock, x ∈ s.mapBlockIndex) ∧
        Scheduled s mapBlocksInFlight count peer result := by
  unfold findNextBlocksToDownload
  by_cases hzero : count = 0
  · rw [if_pos hzero]
    exact ⟨_, rfl, sound.best, scheduled_nothing rfl⟩
  rw [if_neg hzero]
  have hknown := sound.processBlockAvailability
  have hkept := @PeerBlocks.common_processBlockAvailability s peer
  cases hbest : (peer.processBlockAvailability s).pindexBestKnownBlock with
  | none =>
    simp only [hbest]
    exact ⟨_, rfl, hknown.best, scheduled_nothing hkept⟩
  | some best =>
    have htip : s.tip = some (s.chainActive.getLast index.nonempty) :=
      List.getLast?_eq_getLast_of_ne_nil index.nonempty
    simp only [hbest]
    rw [htip, Option.bind_some]
    split_ifs
    · exact ⟨_, rfl, hknown.best, scheduled_nothing hkept⟩
    · obtain ⟨result, hfetch, hresult, hscheduled⟩ := @Downloadable.fetchFrom_spec s
        mapBlocksInFlight nodeid count best index _ peer hknown hbest (Nat.pos_of_ne_zero hzero)
        nodeStaller
      refine ⟨result, hfetch, ?_, hscheduled⟩
      intro x hx
      rw [hresult] at hx
      rw [← Option.mem_some_iff.mp hx]
      exact hknown.best best hbest

theorem Scheduled.sound {result : FetchResult}
    (scheduled : Scheduled s mapBlocksInFlight count peer result) (index : s.Downloadable)
    (hbest : ∀ x ∈ result.peer.pindexBestKnownBlock, x ∈ s.mapBlockIndex) (sound : peer.Sound s) :
    result.peer.Sound s where
  best := hbest
  common := by
    intro x hx
    rcases scheduled.common with hkept | ⟨best, hmem, common, hcommon, hanc, hdata⟩
    · rw [hkept] at hx
      exact sound.common x hx
    · rw [← Option.mem_unique hcommon hx]
      exact ⟨index.skips.mem_of_isAncestor (hbest best hmem) hanc, hdata⟩

theorem DownloadRun.sound (run : DownloadRun s peer) : s.Downloadable ∧ peer.Sound s := by
  induction run with
  | start index => exact ⟨index, ⟨fun _ hx => (nomatch hx), fun _ hx => (nomatch hx)⟩⟩
  | index _ index grows ih => exact ⟨index, ih.2.extends ih.1 grows⟩
  | announce _ hash ih => exact ⟨ih.1, ih.2.updateBlockAvailability hash⟩
  | @fetch s peer _ mapBlocksInFlight nodeid nodeStaller count result h ih =>
    obtain ⟨result', hcall, hbest, hscheduled⟩ :=
      @Downloadable.findNextBlocksToDownload_spec s peer mapBlocksInFlight nodeid nodeStaller count
        ih.1 ih.2
    rw [← Option.some.inj (hcall.symm.trans h)]
    exact ⟨ih.1, hscheduled.sound ih.1 hbest ih.2⟩

/-- Every call comes to an end, and asks the peer for blocks that it has and we miss. -/
theorem findNextBlocksToDownload_scheduled (run : DownloadRun s peer)
    (mapBlocksInFlight : Uint256 → Option NodeId) (nodeid nodeStaller : NodeId) (count : ℕ) :
    ∃ result, s.findNextBlocksToDownload mapBlocksInFlight nodeid count peer [] nodeStaller =
      some result ∧ Scheduled s mapBlocksInFlight count peer result := by
  obtain ⟨index, sound⟩ := run.sound
  obtain ⟨result, hcall, -, hscheduled⟩ := index.findNextBlocksToDownload_spec sound
  exact ⟨result, hcall, hscheduled⟩

end

/-- A node whose block index is sound can download. -/
theorem Sound.downloadable {env : ChainEnv} {s : ChainState} (sound : Sound env s) :
    s.Downloadable where
  skips := sound.tree.skips
  oneRoot := by
    intro x hx y hy hxroot hyroot
    rw [sound.tree.eq_genesis hx hxroot, sound.tree.eq_genesis hy hyroot]
  counted := fun x hx hcounted => (sound.data.linked x hx List.not_mem_nil).mp hcounted
  active := fun x hx => ⟨(sound.chained.blocks x hx).1, (sound.chained.blocks x hx).2.1⟩
  nonempty := by
    intro hempty
    have hgenesis := sound.chained.genesis
    rw [hempty] at hgenesis
    contradiction

/-! The steps of a node's block index lose no entries and no data. -/
section
variable {env : ChainEnv} {s s' s'' : ChainState} {x : Uint256} {above queue : List Uint256}

end

theorem downloadable_headerNode : headerNode.Downloadable := by
  have hfits : ChainEvent.Regular easyEnv (initBlockIndex easyEnv (easyBlock 1 0))
      (.addToBlockIndex (easyBlock 2 1)) := fun _ => by decide
  have hrun := ChainRun.step (ChainRun.start (easyBlock 1 0) rfl (List.cons_ne_nil _ _)) hfits
    (step_addToBlockIndex (by decide))
  exact hrun.settled.toSound.downloadable

/-- The node knows the header of block 2, and a peer announces the block. -/
theorem findNextBlocksToDownload_scheduled_header :
    ∃ result, headerNode.findNextBlocksToDownload (fun _ => none) 7 16
        (({} : PeerBlocks).updateBlockAvailability headerNode 2) [] (-1) = some result ∧
      Scheduled headerNode (fun _ => none) 16
        (({} : PeerBlocks).updateBlockAvailability headerNode 2) result :=
  findNextBlocksToDownload_scheduled (DownloadRun.announce (DownloadRun.start
    downloadable_headerNode) 2) (fun _ => none) 7 (-1) 16

example : (headerNode.findNextBlocksToDownload (fun _ => none) 7 16
    (({} : PeerBlocks).updateBlockAvailability headerNode 2) [] (-1)).map FetchResult.vBlocks =
      some [2] := by decide

end ChainState

end Lytix
