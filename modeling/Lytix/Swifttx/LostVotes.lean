import Lytix.Swifttx.CompletedLocks

/-! Votes that never get counted. A vote is put among the seen ones before it is checked, and the
node's own votes are put there without being counted. -/
namespace Lytix
open Maps

namespace SwiftNode

/-- The votes counted in the lock of a transaction. -/
def votesOn (node : SwiftNode) (txHash : Uint256) : List CConsensusVote :=
  ((node.mapTxLocks.find txHash).map CTransactionLock.vecConsensusVotes).getD []

/-- The message adds the vote to the lock. -/
def Counts (ctx : SwiftContext) (node : SwiftNode) (vote : CConsensusVote) : Prop :=
  (node.processTxlvote ctx vote).votesOn vote.txHash = node.votesOn vote.txHash ++ [vote]

/-- Whatever happens later, a vote of the same masternode for the same transaction that is counted
from the one state on is counted from the other. -/
def NotPrevented (before after : SwiftNode) (vote : CConsensusVote) : Prop :=
  ∀ events ctx later, later.vinMasternode.prevout = vote.vinMasternode.prevout →
    later.txHash = vote.txHash → Counts ctx (Runs.run step before events) later →
    Counts ctx (Runs.run step after events) later

/-- The vote that `DoConsensusVote` makes. -/
def ownVote (ctx : SwiftContext) (node : SwiftNode) (tx : CTransaction) (nBlockHeight : Int) :
    Option CConsensusVote :=
  match ctx.activeMasternode with
  | none => none
  | some vin =>
    let rank := node.voteRank ctx vin nBlockHeight
    if rank.1 = -1 ∨ SWIFTTX_SIGNATURES_TOTAL < rank.1 then none
    else
      match ctx.sign tx.hash nBlockHeight with
      | none => none
      | some vchMasterNodeSignature =>
        let vote : CConsensusVote := ⟨vin, tx.hash, nBlockHeight, vchMasterNodeSignature⟩
        if ctx.signatureValid vote = false then none else some vote

/-- Requests and votes, but no clearing of old locks. -/
def IsMessage : SwiftEvent → Prop
  | .cleanTransactionLocksList _ => False
  | _ => True

/-- As long as no lock is cleared, the vote stands in its lock once. -/
def CountedOnce (node : SwiftNode) (vote : CConsensusVote) : Prop :=
  ∀ events, (∀ e ∈ events, IsMessage e) →
    ((Runs.run step node events).votesOn vote.txHash).count vote = 1

/-- No lock gains or loses votes, and every vote that was seen stays so. -/
structure KeepsVotes (node node' : SwiftNode) : Prop where
  votes : ∀ h, node'.votesOn h = node.votesOn h
  seen : ∀ k, (node.mapTxLockVote k).isSome → (node'.mapTxLockVote k).isSome

section
variable {ctx : SwiftContext} {node node' node'' : SwiftNode} {tx : CTransaction}
  {vote later : CConsensusVote} {h txHash : Uint256} {nBlockHeight : Int}

theorem KeepsVotes.same (hlocks : node'.mapTxLocks = node.mapTxLocks)
    (hseen : node'.mapTxLockVote = node.mapTxLockVote) : KeepsVotes node node' := by
  constructor
  · intro h
    unfold votesOn
    rw [hlocks]
  · intro k hk
    rw [hseen]
    exact hk

theorem KeepsVotes.refl : KeepsVotes node node := KeepsVotes.same rfl rfl

theorem KeepsVotes.trans (h₁ : KeepsVotes node node') (h₂ : KeepsVotes node' node'') :
    KeepsVotes node node'' := by
  constructor
  · intro h
    rw [h₂.votes h, h₁.votes h]
  · intro k hk
    exact h₂.seen k (h₁.seen k hk)

theorem keepsVotes_checkForConflictingLocks :
    KeepsVotes node (node.checkForConflictingLocks ctx tx).2 := by
  rcases @checkForConflictingLocks_cases node ctx tx with ⟨-, hnone⟩ | ⟨locked, hsome⟩
  · rw [hnone]
    exact KeepsVotes.refl
  · rw [hsome]
    constructor
    · intro h
      unfold votesOn
      dsimp only
      rw [TransactionLocks.find_expire, TransactionLocks.find_expire]
      cases node.mapTxLocks.find h with
      | none => rfl
      | some lock =>
        simp only [Option.map_some, Option.getD_some]
        split_ifs
        all_goals rfl
    · intro k hk
      exact hk

theorem keepsVotes_createNewLock : KeepsVotes node (node.createNewLock ctx tx).2 := by
  unfold createNewLock
  cases ctx.lockHeight tx with
  | none => exact KeepsVotes.refl
  | some nBlockHeight =>
    constructor
    · intro h
      unfold votesOn
      dsimp only
      rw [TransactionLocks.find_put, txHash_lockAt]
      by_cases hh : h = tx.hash
      · rw [if_pos hh, hh]
        cases node.mapTxLocks.find tx.hash with
        | none => rfl
        | some lock => rfl
      · rw [if_neg hh]
    · intro k hk
      exact hk

theorem doConsensusVote_eq : ∃ mapCacheBlockHashes,
    node.doConsensusVote ctx tx nBlockHeight = { node with
      mapCacheBlockHashes := mapCacheBlockHashes
      mapTxLockVote := match node.ownVote ctx tx nBlockHeight with
        | none => node.mapTxLockVote
        | some vote => Function.update node.mapTxLockVote vote.getHash (some vote) } := by
  unfold doConsensusVote ownVote
  cases ctx.activeMasternode with
  | none => exact ⟨node.mapCacheBlockHashes, rfl⟩
  | some vin =>
    refine ⟨(node.voteRank ctx vin nBlockHeight).2, ?_⟩
    dsimp only
    by_cases hrank : (node.voteRank ctx vin nBlockHeight).1 = -1 ∨
        SWIFTTX_SIGNATURES_TOTAL < (node.voteRank ctx vin nBlockHeight).1
    · rw [if_pos hrank, if_pos hrank]
    · rw [if_neg hrank, if_neg hrank]
      cases ctx.sign tx.hash nBlockHeight with
      | none => rfl
      | some vchMasterNodeSignature =>
        dsimp only
        split_ifs
        · rfl
        · rfl

theorem keepsVotes_doConsensusVote : KeepsVotes node (node.doConsensusVote ctx tx nBlockHeight) := by
  obtain ⟨mapCacheBlockHashes, heq⟩ := @doConsensusVote_eq ctx node tx nBlockHeight
  rw [heq]
  constructor
  · intro h
    rfl
  · intro k hk
    dsimp only
    cases node.ownVote ctx tx nBlockHeight with
    | none => exact hk
    | some vote =>
      dsimp only
      by_cases hkey : k = vote.getHash
      · rw [hkey, Function.update_self]
        rfl
      · rw [Function.update_of_ne hkey]
        exact hk

theorem keepsVotes_resolveRejected : KeepsVotes node (node.resolveRejected ctx tx) := by
  unfold resolveRejected
  cases node.mapTxLocks.find tx.hash with
  | none => exact KeepsVotes.refl
  | some lock =>
    dsimp only
    split_ifs
    · exact KeepsVotes.refl
    · exact keepsVotes_checkForConflictingLocks
    · exact keepsVotes_checkForConflictingLocks.trans (KeepsVotes.same rfl rfl)

theorem keepsVotes_processIx : KeepsVotes node (node.processIx ctx tx) := by
  unfold processIx
  by_cases htakes : node.takesUp ctx tx = false
  · rw [if_pos htakes]
    exact KeepsVotes.refl
  · rw [if_neg htakes]
    have hcreated : KeepsVotes node (node.createNewLock ctx tx).2 := keepsVotes_createNewLock
    dsimp only
    split_ifs
    · apply hcreated.trans
      apply keepsVotes_doConsensusVote.trans
      exact KeepsVotes.same rfl rfl
    · apply hcreated.trans
      apply KeepsVotes.trans _ keepsVotes_resolveRejected
      exact KeepsVotes.same rfl rfl

theorem keepsVotes_requestLock : KeepsVotes node (node.requestLock ctx tx) := by
  apply KeepsVotes.trans _ keepsVotes_createNewLock
  exact KeepsVotes.same rfl rfl

theorem keepsVotes_completeLock : KeepsVotes node (node.completeLock ctx txHash) := by
  unfold completeLock
  dsimp only
  generalize (node.mapTxLockReq txHash).getD CTransaction.null = tx
  have hmade : KeepsVotes node
      { node with mapTxLockReq := Function.update node.mapTxLockReq txHash (some tx) } :=
    KeepsVotes.same rfl rfl
  have hchecked := hmade.trans (@keepsVotes_checkForConflictingLocks ctx _ tx)
  split_ifs
  · exact hchecked
  · exact hchecked.trans (KeepsVotes.same rfl rfl)

/-- A rejected vote leaves all locks alone. -/
theorem keepsVotes_of_rejected (hrejected : node.acceptsVote ctx vote = false) :
    KeepsVotes node (node.processConsensusVote ctx vote) := by
  unfold processConsensusVote
  dsimp only
  rw [if_pos hrejected]
  exact KeepsVotes.same rfl rfl

/-- An accepted one is added to its lock. -/
theorem votesOn_of_accepted (haccepts : node.acceptsVote ctx vote = true) :
    (node.processConsensusVote ctx vote).votesOn h =
        (if h = vote.txHash then node.votesOn h ++ [vote] else node.votesOn h) ∧
      ∀ k, (node.mapTxLockVote k).isSome →
        ((node.processConsensusVote ctx vote).mapTxLockVote k).isSome := by
  have hnot : ¬ node.acceptsVote ctx vote = false := by
    rw [haccepts]
    exact Bool.true_eq_false_eq_False
  unfold processConsensusVote
  dsimp only
  rw [if_neg hnot]
  generalize hlock : ((node.mapTxLocks.find vote.txHash).getD
    (CTransactionLock.new 0 vote.txHash ctx.getTime)) = lock
  have hkey : lock.txHash = vote.txHash := by
    rw [← hlock]
    cases hfind : node.mapTxLocks.find vote.txHash with
    | none => rfl
    | some old => exact TransactionLocks.txHash_of_find hfind
  have hbefore : node.votesOn vote.txHash = lock.vecConsensusVotes := by
    rw [← hlock]
    unfold votesOn
    cases node.mapTxLocks.find vote.txHash with
    | none => rfl
    | some old => rfl
  have hput : ∀ mapCacheBlockHashes, votesOn { node with
      mapTxLocks := node.mapTxLocks.put (lock.addSignature vote)
      mapCacheBlockHashes := mapCacheBlockHashes } h =
        if h = vote.txHash then node.votesOn h ++ [vote] else node.votesOn h := by
    intro mapCacheBlockHashes
    have hadded : (lock.addSignature vote).txHash = vote.txHash := hkey
    by_cases hh : h = vote.txHash
    · rw [if_pos hh, hh, hbefore]
      unfold votesOn
      dsimp only
      rw [TransactionLocks.find_put, if_pos hadded.symm]
      rfl
    · rw [if_neg hh]
      unfold votesOn
      dsimp only
      rw [TransactionLocks.find_put, hadded, if_neg hh]
  by_cases hcount : (lock.addSignature vote).countSignatures < SWIFTTX_SIGNATURES_REQUIRED
  · rw [if_pos hcount]
    exact ⟨hput _, fun _ hk => hk⟩
  · rw [if_neg hcount]
    have hkeeps := @keepsVotes_completeLock ctx { node with
      mapTxLocks := node.mapTxLocks.put (lock.addSignature vote)
      mapCacheBlockHashes := (node.voteRank ctx vote.vinMasternode vote.nBlockHeight).2 } vote.txHash
    rw [hkeeps.votes h]
    exact ⟨hput _, hkeeps.seen⟩

/-- The three ways a vote can go. -/
theorem processTxlvote_cases :
    node.takesUpVote ctx vote = false ∧ node.processTxlvote ctx vote = node ∨
    node.takesUpVote ctx vote = true ∧
      ((node.processTxlvote ctx vote).mapTxLockVote vote.getHash).isSome ∧
      (∀ k, (node.mapTxLockVote k).isSome →
        ((node.processTxlvote ctx vote).mapTxLockVote k).isSome) ∧
      ∀ h, (node.processTxlvote ctx vote).votesOn h =
        if node.acceptsVote ctx vote = true ∧ h = vote.txHash then node.votesOn h ++ [vote]
        else node.votesOn h := by
  unfold processTxlvote
  by_cases htakes : node.takesUpVote ctx vote = false
  · left
    rw [if_pos htakes]
    exact ⟨htakes, rfl⟩
  · right
    refine ⟨by simpa using htakes, ?_⟩
    rw [if_neg htakes]
    dsimp only
    generalize hseen : ({ node with
      mapTxLockVote := Function.update node.mapTxLockVote vote.getHash (some vote) } : SwiftNode) =
        seen
    have hown : (seen.mapTxLockVote vote.getHash).isSome := by
      rw [← hseen]
      dsimp only
      rw [Function.update_self]
      rfl
    have hkeeps : ∀ k, (node.mapTxLockVote k).isSome → (seen.mapTxLockVote k).isSome := by
      intro k hk
      rw [← hseen]
      dsimp only
      by_cases hkey : k = vote.getHash
      · rw [hkey, Function.update_self]
        rfl
      · rw [Function.update_of_ne hkey]
        exact hk
    have hvotes : ∀ h, seen.votesOn h = node.votesOn h := by
      intro h
      rw [← hseen]
      rfl
    have haccepts : seen.acceptsVote ctx vote = node.acceptsVote ctx vote := by
      rw [← hseen]
      rfl
    cases hverdict : node.acceptsVote ctx vote with
    | false =>
      have hrejected := @keepsVotes_of_rejected ctx seen vote (haccepts.trans hverdict)
      refine ⟨hrejected.seen _ hown, fun k hk => hrejected.seen k (hkeeps k hk), ?_⟩
      intro h
      rw [hrejected.votes h, hvotes h]
      simp
    | true =>
      have hadded := fun h => @votesOn_of_accepted ctx seen vote h (haccepts.trans hverdict)
      refine ⟨(hadded vote.txHash).2 _ hown, fun k hk => (hadded k).2 k (hkeeps k hk), ?_⟩
      intro h
      rw [(hadded h).1, hvotes h]
      simp

theorem counts_iff :
    Counts ctx node vote ↔ node.takesUpVote ctx vote = true ∧ node.acceptsVote ctx vote = true := by
  unfold Counts
  rcases @processTxlvote_cases ctx node vote with ⟨hnot, hsame⟩ | ⟨htakes, -, -, hvotes⟩
  · rw [hsame, hnot]
    simp
  · rw [hvotes, htakes]
    by_cases haccepts : node.acceptsVote ctx vote = true
    · rw [if_pos ⟨haccepts, rfl⟩]
      simp [haccepts]
    · rw [if_neg]
      · simp [haccepts]
      · intro hboth
        exact haccepts hboth.1

theorem getHash_congr (hmasternode : later.vinMasternode.prevout = vote.vinMasternode.prevout)
    (htx : later.txHash = vote.txHash) : later.getHash = vote.getHash := by
  unfold CConsensusVote.getHash
  rw [hmasternode, htx]

/-- No vote that was seen is counted. -/
theorem not_counts_of_seen (hseen : (node.mapTxLockVote vote.getHash).isSome) :
    ¬ Counts ctx node vote := by
  intro hcounts
  have htakes := (counts_iff.mp hcounts).1
  unfold takesUpVote at htakes
  rw [Option.isSome_iff_ne_none] at hseen
  simp [hseen] at htakes

end

section later
variable {node : SwiftNode} {vote : CConsensusVote}

/-- A chain on which a masternode is the only one. -/
def aloneContext (vin : CTxIn) : SwiftContext :=
  { sampleSwiftContext true 1600000000 with
    mnodeman :=
      { hashBlockHash := fun hash => hash
        hashBlockHashWith := fun hash aux => hash + aux
        vMasternodes := [⟨vin, 71033, 0⟩]
        sporks := ⟨fun _ => none, 1600000000⟩
        adjustedTime := 1600000000
        enabled := fun _ => true } }

theorem scoreMasternodes_alone (vin : CTxIn) (cache : BlockHashCache) :
    ∃ score, (scoreMasternodes (aloneContext vin).mnodeman sixView 3 MIN_SWIFTTX_PROTO_VERSION true
      (aloneContext vin).mnodeman.vMasternodes cache).1 = [(score, vin)] :=
  ⟨_, rfl⟩

theorem voteRank_alone (vin : CTxIn) : (node.voteRank (aloneContext vin) vin 3).1 = 1 := by
  have hview : (aloneContext vin).view = sixView := rfl
  have htip : sixView.tip ≠ none := by decide
  have hheight : toInt32 3 = 3 := by decide
  have hhash : (sixView.getBlockHash node.mapCacheBlockHashes (toInt32 3)).1 ≠ none := by
    rw [hheight, ChainView.getBlockHash_eq_ask htip (by decide)]
    unfold Memo.ask
    cases node.mapCacheBlockHashes (sixView.resolve 3) with
    | some hash => exact Option.some_ne_none hash
    | none =>
      have hbelow : sixView.blockBelow (sixView.resolve 3) = some 3 := by decide
      rw [hbelow]
      exact Option.some_ne_none 3
  obtain ⟨score, hscores⟩ := scoreMasternodes_alone vin
    (sixView.getBlockHash node.mapCacheBlockHashes (toInt32 3)).2
  have hsorted : sortScores [(score, vin)] = [(score, vin)] := rfl
  unfold voteRank getMasternodeRank
  dsimp only
  rw [hview, if_neg hhash, hscores, hsorted, List.findIdx?_cons, beq_self_eq_true]
  rfl

/-- On that chain a new vote of the masternode is counted. -/
theorem counts_alone (htakes : node.mapTxLockVote vote.getHash = none)
    (hheight : vote.nBlockHeight = 3) :
    Counts (aloneContext vote.vinMasternode) node vote := by
  apply counts_iff.mpr
  constructor
  · have hhandles : (aloneContext vote.vinMasternode).handlesSwiftTX = true := rfl
    unfold takesUpVote
    rw [hhandles, htakes]
    rfl
  · have hfind : (aloneContext vote.vinMasternode).mnodeman.find vote.vinMasternode =
        some ⟨vote.vinMasternode, 71033, 0⟩ := by
      unfold RankEnv.find
      exact List.find?_cons_of_pos (beq_self_eq_true _)
    have hsigned : (aloneContext vote.vinMasternode).signatureValid vote = true := by
      unfold SwiftContext.signatureValid
      rw [hfind]
      rfl
    unfold acceptsVote
    rw [hheight, voteRank_alone, hsigned]
    rfl

/-- A vote leaves room for others of its kind exactly when it is not put among the seen ones. -/
theorem notPrevented_iff {ctx : SwiftContext} :
    NotPrevented node (node.processTxlvote ctx vote) vote ↔ node.takesUpVote ctx vote = false := by
  rcases @processTxlvote_cases ctx node vote with ⟨hnot, hsame⟩ | ⟨htakes, hseen, -, -⟩
  · rw [hsame, hnot]
    constructor
    · intro _
      rfl
    · intro _ events ctx' later _ _ hcounts
      exact hcounts
  · rw [htakes]
    constructor
    · intro hharmless
      exfalso
      have hnone : node.mapTxLockVote vote.getHash = none := by
        unfold takesUpVote at htakes
        rw [Bool.and_eq_true] at htakes
        exact Option.isNone_iff_eq_none.mp htakes.2
      obtain ⟨later, hlater⟩ : ∃ later : CConsensusVote,
          later.vinMasternode = vote.vinMasternode ∧ later.txHash = vote.txHash ∧
            later.nBlockHeight = 3 := ⟨{ vote with nBlockHeight := 3 }, rfl, rfl, rfl⟩
      obtain ⟨hvin, htx, hheight⟩ := hlater
      have hprevout := congrArg CTxIn.prevout hvin
      have hhash : later.getHash = vote.getHash := getHash_congr hprevout htx
      rw [← hhash] at hnone hseen
      have hafter := hharmless [] _ later hprevout htx (counts_alone hnone hheight)
      exact not_counts_of_seen hseen hafter
    · intro hfalse
      contradiction

/-- A seen vote stays as often in its lock as it is. -/
theorem count_of_message {event : SwiftEvent} (hmessage : IsMessage event)
    (hseen : (node.mapTxLockVote vote.getHash).isSome) :
    ((node.step event).mapTxLockVote vote.getHash).isSome ∧
      ((node.step event).votesOn vote.txHash).count vote = (node.votesOn vote.txHash).count vote := by
  cases event with
  | ix ctx tx =>
    have hkeeps : KeepsVotes node (node.step (.ix ctx tx)) := keepsVotes_processIx
    rw [hkeeps.votes]
    exact ⟨hkeeps.seen _ hseen, rfl⟩
  | txlvote ctx other =>
    unfold step
    dsimp only
    rcases @processTxlvote_cases ctx node other with ⟨-, hsame⟩ | ⟨htakes, -, hkeeps, hvotes⟩
    · rw [hsame]
      exact ⟨hseen, rfl⟩
    · refine ⟨hkeeps _ hseen, ?_⟩
      have hother : other ≠ vote := by
        intro heq
        unfold takesUpVote at htakes
        rw [heq, Bool.and_eq_true] at htakes
        rw [Option.isNone_iff_eq_none.mp htakes.2] at hseen
        contradiction
      rw [hvotes]
      split_ifs
      · rw [List.count_append, List.count_singleton, if_neg (by simpa using hother)]
        exact Nat.add_zero _
      · rfl
  | requestLock ctx tx =>
    have hkeeps : KeepsVotes node (node.step (.requestLock ctx tx)) := keepsVotes_requestLock
    rw [hkeeps.votes]
    exact ⟨hkeeps.seen _ hseen, rfl⟩
  | cleanTransactionLocksList ctx => exact absurd hmessage not_false

theorem count_run {events : List SwiftEvent} (hmessages : ∀ e ∈ events, IsMessage e)
    (hseen : (node.mapTxLockVote vote.getHash).isSome) :
    ((Runs.run step node events).votesOn vote.txHash).count vote =
      (node.votesOn vote.txHash).count vote := by
  induction events generalizing node with
  | nil => rfl
  | cons event events ih =>
    obtain ⟨hkept, hcount⟩ := count_of_message (hmessages event List.mem_cons_self) hseen
    have hrest : ∀ e ∈ events, IsMessage e := by
      intro e he
      exact hmessages e (List.mem_cons_of_mem event he)
    rw [Runs.run_cons, ih hrest hkept, hcount]

/-- The node's own vote is seen from then on, and stands in its lock as often as before. -/
theorem countedOnce_ownVote_iff {ctx : SwiftContext} {tx : CTransaction} {nBlockHeight : Int}
    (hown : node.ownVote ctx tx nBlockHeight = some vote) :
    CountedOnce (node.doConsensusVote ctx tx nBlockHeight) vote ↔
      (node.votesOn vote.txHash).count vote = 1 := by
  have hkeeps := @keepsVotes_doConsensusVote ctx node tx nBlockHeight
  have hseen : ((node.doConsensusVote ctx tx nBlockHeight).mapTxLockVote vote.getHash).isSome := by
    obtain ⟨mapCacheBlockHashes, heq⟩ := @doConsensusVote_eq ctx node tx nBlockHeight
    rw [heq, hown]
    dsimp only
    rw [Function.update_self]
    rfl
  unfold CountedOnce
  constructor
  · intro honce
    have hnow := honce [] (fun e he => absurd he List.not_mem_nil)
    rw [Runs.run_nil, hkeeps.votes] at hnow
    exact hnow
  · intro hcount events hmessages
    rw [count_run hmessages hseen, hkeeps.votes, hcount]

end later

/-- Rejected votes are harmless exactly when they are not taken up, and a vote of the node's own is
counted once exactly when its very copy is in the lock already. -/
theorem lostVotes_iff (node : SwiftNode) (ctx : SwiftContext) (rejected own : CConsensusVote)
    (tx : CTransaction) (nBlockHeight : Int) :
    (node.acceptsVote ctx rejected = false →
      (NotPrevented node (node.processTxlvote ctx rejected) rejected ↔
        node.takesUpVote ctx rejected = false)) ∧
    (node.ownVote ctx tx nBlockHeight = some own →
      (CountedOnce (node.doConsensusVote ctx tx nBlockHeight) own ↔
        (node.votesOn own.txHash).count own = 1)) := by
  constructor
  · intro _
    exact notPrevented_iff
  · intro hown
    exact countedOnce_ownVote_iff hown

/-! A node that is the first of the six masternodes. -/

def votingContext : SwiftContext :=
  { sampleSwiftContext true 1600000000 with
    activeMasternode := some (sampleMasternode 11)
    sign := fun _ _ => some [] }

def firstVote : CConsensusVote := ⟨sampleMasternode 11, 21, 3, []⟩

/-- A vote of a masternode that nobody knows. -/
def strangeVote : CConsensusVote := ⟨sampleMasternode 99, 21, 3, []⟩

theorem ownVote_voting : ownVote votingContext {} (sampleSpend 21 [⟨1, 0⟩]) 3 = some firstVote := by
  decide

theorem not_lostVotes :
    (¬ ∀ (node : SwiftNode) (ctx : SwiftContext) (vote : CConsensusVote),
      node.acceptsVote ctx vote = false →
        NotPrevented node (node.processTxlvote ctx vote) vote) ∧
    (¬ ∀ (node : SwiftNode) (ctx : SwiftContext) (tx : CTransaction) (nBlockHeight : Int)
      (vote : CConsensusVote), node.ownVote ctx tx nBlockHeight = some vote →
        CountedOnce (node.doConsensusVote ctx tx nBlockHeight) vote) := by
  constructor
  · intro hharmless
    have hrejected : acceptsVote votingContext {} strangeVote = false := by decide
    have htakes := notPrevented_iff.mp (hharmless {} votingContext strangeVote hrejected)
    contradiction
  · intro honce
    have hone := (countedOnce_ownVote_iff ownVote_voting).mp
      (honce {} votingContext (sampleSpend 21 [⟨1, 0⟩]) 3 firstVote ownVote_voting)
    contradiction

/-- A node in lite mode, and one that had its vote back from a peer before it votes. -/
theorem lostVotes_harmless :
    NotPrevented {} (processTxlvote { votingContext with fLiteMode := true } {} strangeVote)
        strangeVote ∧
      CountedOnce (doConsensusVote votingContext (processTxlvote votingContext {} firstVote)
        (sampleSpend 21 [⟨1, 0⟩]) 3) firstVote := by
  constructor
  · have hrejected := (lostVotes_iff {} { votingContext with fLiteMode := true } strangeVote
      firstVote (sampleSpend 21 [⟨1, 0⟩]) 3).1
    apply (hrejected _).mpr
    · rfl
    · decide
  · have hown := (lostVotes_iff (processTxlvote votingContext {} firstVote) votingContext
      strangeVote firstVote (sampleSpend 21 [⟨1, 0⟩]) 3).2
    apply (hown _).mpr
    · decide
    · decide

end SwiftNode
end Lytix
