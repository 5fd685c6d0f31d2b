import Lytix.Swifttx.LostVotes

/-! The votes in a lock are from different masternodes. Every vote in a lock is among the seen ones,
and no two votes in any locks have the same key there. -/
namespace Lytix
open Maps

/-- The votes that `CountSignatures` counts. -/
def CTransactionLock.countedVotes (lock : CTransactionLock) : List CConsensusVote :=
  lock.vecConsensusVotes.filter fun v => v.nBlockHeight = lock.nBlockHeight

def CConsensusVote.masternode (vote : CConsensusVote) : COutPoint := vote.vinMasternode.prevout

namespace SwiftNode

/-- What keeps a masternode from voting twice. -/
structure DistinctVotes (node : SwiftNode) : Prop where
  own : ∀ h, ∀ v ∈ node.votesOn h, v.txHash = h
  seen : ∀ h, ∀ v ∈ node.votesOn h, (node.mapTxLockVote v.getHash).isSome
  nodup : ∀ h, ((node.votesOn h).map CConsensusVote.getHash).Nodup
  apart : ∀ h h', ∀ v ∈ node.votesOn h, ∀ v' ∈ node.votesOn h', v.getHash = v'.getHash → h = h'

section
variable {ctx : SwiftContext} {node node' : SwiftNode} {tx : CTransaction}
  {vote v : CConsensusVote} {h : Uint256} {lock : CTransactionLock} {now : Int}

theorem DistinctVotes.keepsVotes (distinct : node.DistinctVotes) (hkeeps : KeepsVotes node node') :
    node'.DistinctVotes where
  own := by
    intro h v hv
    rw [hkeeps.votes] at hv
    exact distinct.own h v hv
  seen := by
    intro h v hv
    rw [hkeeps.votes] at hv
    exact hkeeps.seen _ (distinct.seen h v hv)
  nodup := by
    intro h
    rw [hkeeps.votes]
    exact distinct.nodup h
  apart := by
    intro h h' v hv v' hv'
    rw [hkeeps.votes] at hv hv'
    exact distinct.apart h h' v hv v' hv'

/-- A vote that is added was not seen, so no vote in any lock has its key. -/
theorem DistinctVotes.processTxlvote (distinct : node.DistinctVotes) :
    (node.processTxlvote ctx vote).DistinctVotes := by
  rcases @processTxlvote_cases ctx node vote with ⟨-, hsame⟩ | ⟨htakes, hseen, hkeeps, hvotes⟩
  · rw [hsame]
    exact distinct
  · have hnew : ∀ h, ∀ v ∈ node.votesOn h, v.getHash ≠ vote.getHash := by
      intro h v hv heq
      have hsome := distinct.seen h v hv
      rw [heq] at hsome
      simp only [takesUpVote, Bool.and_eq_true, Option.isNone_iff_eq_none] at htakes
      rw [htakes.2] at hsome
      contradiction
    have hmem : ∀ h v, v ∈ (node.processTxlvote ctx vote).votesOn h →
        v ∈ node.votesOn h ∨ v = vote ∧ h = vote.txHash := by
      intro h v hv
      rw [hvotes] at hv
      split_ifs at hv with hadded
      · rcases List.mem_append.mp hv with hold | hlast
        · exact Or.inl hold
        · exact Or.inr ⟨List.mem_singleton.mp hlast, hadded.2⟩
      · exact Or.inl hv
    constructor
    case own =>
      intro h v hv
      rcases hmem h v hv with hold | ⟨rfl, rfl⟩
      · exact distinct.own h v hold
      · rfl
    case seen =>
      intro h v hv
      rcases hmem h v hv with hold | ⟨rfl, -⟩
      · exact hkeeps _ (distinct.seen h v hold)
      · exact hseen
    case nodup =>
      intro h
      rw [hvotes]
      split_ifs with hadded
      · rw [List.map_append, List.map_singleton, List.nodup_append]
        refine ⟨distinct.nodup h, List.nodup_singleton _, ?_⟩
        intro k hk k' hk' heq
        obtain ⟨v, hv, rfl⟩ := List.mem_map.mp hk
        exact hnew h v hv (heq.trans (List.mem_singleton.mp hk'))
      · exact distinct.nodup h
    case apart =>
      intro h h' v hv v' hv' heq
      rcases hmem h v hv with hold | ⟨rfl, rfl⟩
      · rcases hmem h' v' hv' with hold' | ⟨rfl, rfl⟩
        · exact distinct.apart h h' v hold v' hold' heq
        · exact absurd heq (hnew h v hold)
      · rcases hmem h' v' hv' with hold' | ⟨rfl, rfl⟩
        · exact absurd heq.symm (hnew h' v' hold')
        · rfl

theorem votesOn_of_find (hfind : node.mapTxLocks.find h = some lock) :
    node.votesOn h = lock.vecConsensusVotes := by
  unfold votesOn
  rw [hfind]
  rfl

theorem votesOn_cleanLock : (cleanLock now node lock).votesOn h =
    if lock.txHash = h ∧ lock.nExpiration < now then [] else node.votesOn h := by
  rcases lt_or_ge lock.nExpiration now with hexpired | hlive
  · unfold votesOn
    rw [mapTxLocks_cleanLock hexpired, TransactionLocks.find_erase]
    by_cases hh : h = lock.txHash
    · simp [hh, hexpired]
    · simp [hh, Ne.symm hh]
  · rw [cleanLock_of_live hlive]
    simp [not_lt.mpr hlive]

/-- Only the keys of the votes in the lock are removed from the seen ones. -/
theorem mapTxLockVote_cleanLock {k : Uint256} (hk : (node.mapTxLockVote k).isSome)
    (hother : k ∉ lock.vecConsensusVotes.map CConsensusVote.getHash) :
    ((cleanLock now node lock).mapTxLockVote k).isSome := by
  unfold cleanLock
  split_ifs
  · cases node.mapTxLockReq lock.txHash with
    | none => exact hk
    | some tx =>
      dsimp only
      rw [eraseAll_apply, if_neg hother]
      exact hk
  · exact hk

/-- A lock that is cleared takes the keys of its own votes with it. -/
theorem DistinctVotes.cleanLock (distinct : node.DistinctVotes)
    (hlock : node.mapTxLocks.find lock.txHash = some lock) :
    (cleanLock now node lock).DistinctVotes := by
  have hmem : ∀ h v, v ∈ (SwiftNode.cleanLock now node lock).votesOn h → v ∈ node.votesOn h := by
    intro h v hv
    rw [votesOn_cleanLock] at hv
    split_ifs at hv
    · contradiction
    · exact hv
  constructor
  case own => exact fun h v hv => distinct.own h v (hmem h v hv)
  case seen =>
    intro h v hv
    by_cases hexpired : lock.nExpiration < now
    · apply mapTxLockVote_cleanLock (distinct.seen h v (hmem h v hv))
      intro hkey
      obtain ⟨v', hv', heq⟩ := List.mem_map.mp hkey
      rw [← votesOn_of_find hlock] at hv'
      have hsame : lock.txHash = h := distinct.apart _ _ v' hv' v (hmem h v hv) heq
      rw [votesOn_cleanLock, if_pos ⟨hsame, hexpired⟩] at hv
      contradiction
    · rw [cleanLock_of_live (not_lt.mp hexpired)] at hv ⊢
      exact distinct.seen h v hv
  case nodup =>
    intro h
    rw [votesOn_cleanLock]
    split_ifs
    · exact List.nodup_nil
    · exact distinct.nodup h
  case apart =>
    intro h h' v hv v' hv'
    exact distinct.apart h h' v (hmem h v hv) v' (hmem h' v' hv')

theorem DistinctVotes.foldl_cleanLock {locks : List CTransactionLock}
    (distinct : node.DistinctVotes) (hnodup : (locks.map CTransactionLock.txHash).Nodup)
    (hlocks : ∀ lock ∈ locks, node.mapTxLocks.find lock.txHash = some lock) :
    (locks.foldl (SwiftNode.cleanLock now) node).DistinctVotes := by
  induction locks generalizing node with
  | nil => exact distinct
  | cons lock locks ih =>
    rw [List.map_cons, List.nodup_cons] at hnodup
    apply ih (distinct.cleanLock (hlocks lock List.mem_cons_self)) hnodup.2
    intro lock' hlock'
    apply find_cleanLock.mpr
    refine ⟨hlocks lock' (List.mem_cons_of_mem _ hlock'), fun heq => ?_⟩
    exact absurd (heq ▸ List.mem_map_of_mem hlock') hnodup.1

theorem DistinctVotes.step {event : SwiftEvent} (distinct : node.DistinctVotes) :
    (node.step event).DistinctVotes := by
  cases event with
  | ix ctx tx => exact distinct.keepsVotes keepsVotes_processIx
  | txlvote ctx vote => exact distinct.processTxlvote
  | requestLock ctx tx => exact distinct.keepsVotes keepsVotes_requestLock
  | cleanTransactionLocksList ctx =>
    unfold SwiftNode.step cleanTransactionLocksList
    dsimp only
    split_ifs
    · exact distinct
    · exact distinct.foldl_cleanLock TransactionLocks.nodup_txHash_toList
        fun lock hlock => TransactionLocks.mem_toList.mp hlock

theorem distinctVotes_run (events : List SwiftEvent) :
    (Runs.run SwiftNode.step {} events).DistinctVotes := by
  apply Runs.run_invariant
  · constructor
    case own => exact fun h v hv => absurd hv List.not_mem_nil
    case seen => exact fun h v hv => absurd hv List.not_mem_nil
    case nodup => exact fun h => List.nodup_nil
    case apart => exact fun h h' v hv => absurd hv List.not_mem_nil
  · intro node event distinct
    exact distinct.step

/-- A vote in a lock was there before, or the message brought it. -/
theorem mem_votesOn_step {event : SwiftEvent} (hv : v ∈ (node.step event).votesOn h) :
    v ∈ node.votesOn h ∨ v ∈ node.newVotes event := by
  cases event with
  | ix ctx tx =>
    rw [SwiftNode.step, keepsVotes_processIx.votes] at hv
    exact Or.inl hv
  | txlvote ctx vote =>
    rcases @processTxlvote_cases ctx node vote with ⟨-, hsame⟩ | ⟨htakes, -, -, hvotes⟩
    · rw [SwiftNode.step, hsame] at hv
      exact Or.inl hv
    · rw [SwiftNode.step, hvotes] at hv
      split_ifs at hv with hadded
      · rcases List.mem_append.mp hv with hold | hlast
        · exact Or.inl hold
        · rw [List.mem_singleton.mp hlast]
          simp [newVotes, htakes, hadded.1]
      · exact Or.inl hv
  | requestLock ctx tx =>
    rw [SwiftNode.step, keepsVotes_requestLock.votes] at hv
    exact Or.inl hv
  | cleanTransactionLocksList ctx =>
    left
    unfold SwiftNode.step cleanTransactionLocksList at hv
    dsimp only at hv
    split_ifs at hv
    · exact hv
    · generalize node.mapTxLocks.toList = locks at hv
      induction locks generalizing node with
      | nil => exact hv
      | cons lock locks ih =>
        have hcleaned := ih hv
        rw [votesOn_cleanLock] at hcleaned
        split_ifs at hcleaned
        · contradiction
        · exact hcleaned

end

/-- The vote came in a message of the run, when its masternode had one of the allowed ranks at the
height of the vote, and had signed the vote. -/
def SignedInRank (events : List SwiftEvent) (vote : CConsensusVote) : Prop :=
  ∃ before ctx after, events = before ++ .txlvote ctx vote :: after ∧
    ctx.signatureValid vote = true ∧
    ∃ n, ((Runs.run SwiftNode.step {} before).voteRank ctx vote.vinMasternode
      vote.nBlockHeight).1 = n ∧ n ≠ -1 ∧ n ≤ SWIFTTX_SIGNATURES_TOTAL

theorem signedInRank_of_valid {events : List SwiftEvent} {vote : CConsensusVote}
    (hvalid : vote ∈ validVotes events) : SignedInRank events vote := by
  obtain ⟨before, event, after, hsplit, hnew⟩ := Runs.mem_collect.mp hvalid
  cases event with
  | txlvote ctx new =>
    unfold newVotes at hnew
    dsimp only at hnew
    split_ifs at hnew with haccepted
    · obtain rfl := List.mem_singleton.mp hnew
      simp only [acceptsVote, Bool.and_eq_true, Bool.not_eq_true', decide_eq_false_iff_not,
        not_lt] at haccepted
      obtain ⟨-, ⟨hknown, hrank⟩, hsigned⟩ := haccepted
      exact ⟨before, ctx, after, hsplit, hsigned, _, rfl, hknown, hrank⟩
    · contradiction
  | ix ctx tx => contradiction
  | requestLock ctx tx => contradiction
  | cleanTransactionLocksList ctx => contradiction

end SwiftNode

section
variable {events : List SwiftEvent} {txHash : Uint256} {lock : CTransactionLock}

theorem mem_validVotes {v : CConsensusVote}
    (hv : v ∈ (Runs.run SwiftNode.step {} events).votesOn txHash) : v ∈ validVotes events := by
  have halong : Runs.Along SwiftNode.step (fun _ _ => True) {} events :=
    Runs.along_of_forall fun _ _ _ => trivial
  have horigin := @Runs.Along.has_or_collect _ _ _ _ _ _ _ SwiftNode.newVotes
    (fun node v => v ∈ node.votesOn txHash) v halong
    (fun _ _ _ _ => SwiftNode.mem_votesOn_step) hv
  rcases horigin with hstart | hvalid
  · exact absurd hstart List.not_mem_nil
  · exact hvalid

theorem nodup_masternode_votes
    (hlock : (Runs.run SwiftNode.step {} events).mapTxLocks.find txHash = some lock) :
    (lock.vecConsensusVotes.map CConsensusVote.masternode).Nodup := by
  have hdistinct := SwiftNode.distinctVotes_run events
  have hvotes := SwiftNode.votesOn_of_find hlock
  have hkeys := hdistinct.nodup txHash
  rw [hvotes] at hkeys
  -- in one lock the masternode decides about the key
  refine List.Nodup.map_on ?_ hkeys.of_map
  intro v hv v' hv' heq
  have htx : ∀ u ∈ lock.vecConsensusVotes, u.txHash = txHash := by
    intro u hu
    exact hdistinct.own txHash u (hvotes ▸ hu)
  have hkey : v.getHash = v'.getHash :=
    SwiftNode.getHash_congr heq ((htx v hv).trans (htx v' hv').symm)
  exact List.inj_on_of_nodup_map hkeys hv hv' hkey

theorem countSignatures_eq (lock : CTransactionLock) : lock.countSignatures =
    if lock.nBlockHeight = 0 then -1 else (lock.countedVotes.length : Int) := by
  unfold CTransactionLock.countSignatures CTransactionLock.countedVotes
  rw [List.countP_eq_length_filter]

/-- After any messages, `CountSignatures` counts every masternode at most once, and a lock with
enough signatures has those of as many masternodes, each in one of the allowed ranks when its
vote came, for one height. -/
theorem countSignatures_distinct
    (hlock : (Runs.run SwiftNode.step {} events).mapTxLocks.find txHash = some lock) :
    (lock.countedVotes.map CConsensusVote.masternode).Nodup ∧
      (SWIFTTX_SIGNATURES_REQUIRED ≤ lock.countSignatures →
        ∃ masternodes : Finset COutPoint, SWIFTTX_SIGNATURES_REQUIRED ≤ masternodes.card ∧
          ∀ o ∈ masternodes, ∃ vote : CConsensusVote, vote.masternode = o ∧
            vote.txHash = txHash ∧ vote.nBlockHeight = lock.nBlockHeight ∧
            SwiftNode.SignedInRank events vote) := by
  have hnodup : (lock.countedVotes.map CConsensusVote.masternode).Nodup :=
    (nodup_masternode_votes hlock).sublist (List.filter_sublist.map _)
  refine ⟨hnodup, fun hcount => ?_⟩
  refine ⟨(lock.countedVotes.map CConsensusVote.masternode).toFinset, ?_, ?_⟩
  · rw [List.toFinset_card_of_nodup hnodup, List.length_map]
    rw [countSignatures_eq] at hcount
    split_ifs at hcount
    · exact absurd hcount (by decide)
    · exact hcount
  · intro o ho
    obtain ⟨vote, hmem, rfl⟩ := List.mem_map.mp (List.mem_toFinset.mp ho)
    obtain ⟨hvote, hheight⟩ := List.mem_filter.mp hmem
    rw [← SwiftNode.votesOn_of_find hlock] at hvote
    exact ⟨vote, rfl, (SwiftNode.distinctVotes_run events).own txHash vote hvote,
      by simpa using hheight, SwiftNode.signedInRank_of_valid (mem_validVotes hvote)⟩

/-- Six masternodes, and their votes. -/
theorem countSignatures_distinct_lockedBySix : ∃ lock,
    (Runs.run SwiftNode.step {} lockedBySix).mapTxLocks.find 21 = some lock ∧
      lock.countSignatures = 6 ∧
      ∃ masternodes : Finset COutPoint, SWIFTTX_SIGNATURES_REQUIRED ≤ masternodes.card ∧
        ∀ o ∈ masternodes, ∃ vote : CConsensusVote, vote.masternode = o ∧
          vote.txHash = 21 ∧ vote.nBlockHeight = lock.nBlockHeight ∧
          SwiftNode.SignedInRank lockedBySix vote := by
  have hcount : ((Runs.run SwiftNode.step {} lockedBySix).mapTxLocks.find 21).map
      CTransactionLock.countSignatures = some 6 := by decide
  obtain ⟨lock, hlock, hsix⟩ := Option.map_eq_some_iff.mp hcount
  exact ⟨lock, hlock, hsix, (countSignatures_distinct hlock).2 (by rw [hsix]; decide)⟩

end
end Lytix
