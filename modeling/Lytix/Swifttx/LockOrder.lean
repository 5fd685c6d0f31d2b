import Lytix.Swifttx.DistinctVoters

/-! A request and the votes on it in whatever order they come. The inputs are locked by a vote that
comes after the request, and by nothing else. -/
namespace Lytix
open Maps

namespace SwiftNode

/-- Nothing is known of the transaction, and none of its inputs is locked. -/
structure Fresh (node : SwiftNode) (tx : CTransaction) : Prop where
  requested : node.mapTxLockReq tx.hash = none
  rejected : node.mapTxLockReqRejected tx.hash = none
  voted : node.mapTxLocks.find tx.hash = none
  inputs : ∀ prevout ∈ tx.prevouts, node.mapLockedInputs prevout = none

/-- The request is kept, and its inputs are locked for it. -/
def LocksInputs (node : SwiftNode) (tx : CTransaction) : Prop :=
  node.mapTxLockReq tx.hash = some tx ∧
    ∀ prevout ∈ tx.prevouts, node.mapLockedInputs prevout = some tx.hash

/-- The request is well formed and gets this height, and the memory pool accepts it. -/
def ValidRequest (ctx : SwiftContext) (tx : CTransaction) (nBlockHeight : Int) : Prop :=
  ctx.handlesSwiftTX = true ∧ ctx.isIXTXValid tx = true ∧
    (tx.vout.all fun o => o.scriptPubKey.isNormalPaymentScript || o.scriptPubKey.isUnspendable) =
      true ∧
    ctx.lockHeight tx = some nBlockHeight ∧ ctx.mempoolAccepts tx = true

/-- A vote for the transaction at this height, from a masternode in the top, which signed it. -/
def ValidVote (txHash : Uint256) (nBlockHeight : Int) (node : SwiftNode)
    (message : SwiftContext × CConsensusVote) : Prop :=
  message.1.handlesSwiftTX = true ∧ node.acceptsVote message.1 message.2 = true ∧
    message.2.txHash = txHash ∧ message.2.nBlockHeight = nBlockHeight

def processVotes (node : SwiftNode) (messages : List (SwiftContext × CConsensusVote)) : SwiftNode :=
  Runs.run (fun node message => node.processTxlvote message.1 message.2) node messages

/-- All votes are valid when they come. -/
def ValidVotes (txHash : Uint256) (nBlockHeight : Int) :
    SwiftNode → List (SwiftContext × CConsensusVote) → Prop :=
  Runs.Along (fun node message => node.processTxlvote message.1 message.2)
    (ValidVote txHash nBlockHeight)

def hasSeen (node : SwiftNode) (h : Uint256) : Bool := (node.mapTxLockVote h).isSome

/-- The votes that are not seen when they come. -/
def unseenVotes : (Uint256 → Bool) → List (SwiftContext × CConsensusVote) → List CConsensusVote
  | _, [] => []
  | seen, message :: messages =>
    if seen message.2.getHash then unseenVotes seen messages
    else message.2 :: unseenVotes (fun h => seen h || h == message.2.getHash) messages

/-- The votes that are seen once these have come, and the request with the node's own vote. -/
def seenWith (seen : Uint256 → Bool) (messages : List (SwiftContext × CConsensusVote))
    (own : Option CConsensusVote) (h : Uint256) : Bool :=
  seen h || messages.any (fun message => h == message.2.getHash) ||
    own.any fun vote => h == vote.getHash

/-! The lock of the transaction, exactly. -/

/-- The lock has `n` votes, all at its height once the request gave it one. -/
structure VotedBy (node : SwiftNode) (txHash : Uint256) (nBlockHeight : Int) (n : ℕ) : Prop where
  length : (node.votesOn txHash).length = n
  heights : ∀ v ∈ node.votesOn txHash, v.nBlockHeight = nBlockHeight

/-- Before the request: the lock has no height. -/
structure Awaiting (node : SwiftNode) (tx : CTransaction) (nBlockHeight : Int) (n : ℕ) : Prop where
  requested : node.mapTxLockReq tx.hash = none
  rejected : node.mapTxLockReqRejected tx.hash = none
  inputs : ∀ prevout ∈ tx.prevouts, node.mapLockedInputs prevout = none
  unset : ∀ lock, node.mapTxLocks.find tx.hash = some lock → lock.nBlockHeight = 0
  voted : node.VotedBy tx.hash nBlockHeight n

/-- After the request: the inputs are locked or not. -/
structure Locking (node : SwiftNode) (tx : CTransaction) (nBlockHeight : Int) (n : ℕ)
    (locked : Bool) : Prop where
  requested : node.mapTxLockReq tx.hash = some tx
  inputs : ∀ prevout ∈ tx.prevouts,
    node.mapLockedInputs prevout = if locked then some tx.hash else none
  set : ∃ lock, node.mapTxLocks.find tx.hash = some lock ∧ lock.nBlockHeight = nBlockHeight
  voted : node.VotedBy tx.hash nBlockHeight n

section
variable {node : SwiftNode} {ctx : SwiftContext} {tx : CTransaction} {vote : CConsensusVote}
  {nBlockHeight : Int} {n : ℕ} {locked : Bool} {h : Uint256}

theorem mapTxLockVote_completeLock :
    (node.completeLock ctx h).mapTxLockVote = node.mapTxLockVote := by
  unfold completeLock
  dsimp only
  generalize (node.mapTxLockReq h).getD CTransaction.null = tx
  rcases @checkForConflictingLocks_cases
    { node with mapTxLockReq := Function.update node.mapTxLockReq h (some tx) } ctx tx with
      ⟨-, hnone⟩ | ⟨locked, hsome⟩
  · rw [hnone]
    rfl
  · rw [hsome]
    rfl

theorem mapTxLockVote_processConsensusVote :
    (node.processConsensusVote ctx vote).mapTxLockVote = node.mapTxLockVote := by
  unfold processConsensusVote
  dsimp only
  split_ifs
  · rfl
  · rfl
  · rw [mapTxLockVote_completeLock]

theorem hasSeen_processTxlvote (hhandles : ctx.handlesSwiftTX = true) :
    (node.processTxlvote ctx vote).hasSeen h = (node.hasSeen h || h == vote.getHash) := by
  have htakes : node.takesUpVote ctx vote = !node.hasSeen vote.getHash := by
    unfold takesUpVote hasSeen
    rw [hhandles, Bool.true_and, Option.not_isSome]
  unfold processTxlvote
  rw [htakes]
  cases hseen : node.hasSeen vote.getHash with
  | true =>
    rw [Bool.not_true, if_pos rfl]
    cases hsame : h == vote.getHash with
    | false => rw [Bool.or_false]
    | true => rw [eq_of_beq hsame, hseen, Bool.or_true]
  | false =>
    rw [Bool.not_false, if_neg Bool.true_eq_false_eq_False]
    unfold hasSeen
    rw [mapTxLockVote_processConsensusVote]
    dsimp only
    rw [Function.update_apply]
    by_cases hsame : h = vote.getHash
    · rw [if_pos hsame, beq_iff_eq.mpr hsame, Bool.or_true, Option.isSome_some]
    · rw [if_neg hsame, beq_false_of_ne hsame, Bool.or_false]

/-- An unseen vote that is accepted is added to the lock, which it may complete. -/
theorem processTxlvote_of_unseen (hhandles : ctx.handlesSwiftTX = true)
    (hunseen : node.hasSeen vote.getHash = false) (haccepts : node.acceptsVote ctx vote = true) :
    ∃ added : SwiftNode, added.mapTxLockReq = node.mapTxLockReq ∧
      added.mapTxLockReqRejected = node.mapTxLockReqRejected ∧
      added.mapLockedInputs = node.mapLockedInputs ∧
      ∃ lock : CTransactionLock,
        lock.nBlockHeight = ((node.mapTxLocks.find vote.txHash).map
          CTransactionLock.nBlockHeight).getD 0 ∧
        lock.vecConsensusVotes = node.votesOn vote.txHash ++ [vote] ∧
        added.mapTxLocks.find vote.txHash = some lock ∧
        node.processTxlvote ctx vote =
          if lock.countSignatures < SWIFTTX_SIGNATURES_REQUIRED then added
          else added.completeLock ctx vote.txHash := by
  unfold processTxlvote
  have htakes : node.takesUpVote ctx vote = true := by
    unfold takesUpVote
    unfold hasSeen at hunseen
    rw [hhandles, Bool.true_and]
    simpa using hunseen
  rw [if_neg (by rw [htakes]; exact Bool.true_eq_false_eq_False)]
  dsimp only
  unfold processConsensusVote
  dsimp only
  have haccepts' : acceptsVote ctx { node with
      mapTxLockVote := Function.update node.mapTxLockVote vote.getHash (some vote) } vote = true :=
    haccepts
  rw [if_neg (by rw [haccepts']; exact Bool.true_eq_false_eq_False)]
  generalize hlock : (node.mapTxLocks.find vote.txHash).getD
    (CTransactionLock.new 0 vote.txHash ctx.getTime) = lock
  have hkey : lock.txHash = vote.txHash := by
    rw [← hlock]
    cases hfind : node.mapTxLocks.find vote.txHash with
    | none => rfl
    | some old => exact TransactionLocks.txHash_of_find hfind
  refine ⟨{ node with
      mapTxLockVote := Function.update node.mapTxLockVote vote.getHash (some vote)
      mapTxLocks := node.mapTxLocks.put (lock.addSignature vote)
      mapCacheBlockHashes := (node.voteRank ctx vote.vinMasternode vote.nBlockHeight).2 },
    rfl, rfl, rfl, lock.addSignature vote, ?_, ?_, ?_, rfl⟩
  · rw [← hlock]
    cases node.mapTxLocks.find vote.txHash with
    | none => rfl
    | some old => rfl
  · rw [← hlock]
    unfold votesOn
    cases node.mapTxLocks.find vote.txHash with
    | none => rfl
    | some old => rfl
  · have hadded : (lock.addSignature vote).txHash = vote.txHash := hkey
    dsimp only
    rw [TransactionLocks.find_put, if_pos hadded.symm]

theorem countSignatures_of_heights {lock : CTransactionLock} (hset : lock.nBlockHeight ≠ 0)
    (hall : ∀ v ∈ lock.vecConsensusVotes, v.nBlockHeight = lock.nBlockHeight) :
    lock.countSignatures = lock.vecConsensusVotes.length := by
  unfold CTransactionLock.countSignatures
  rw [if_neg hset, List.countP_eq_length.mpr]
  intro v hv
  exact decide_eq_true (hall v hv)

/-- A lock without a height is not complete, however many votes it has. -/
theorem Awaiting.txlvote (awaiting : node.Awaiting tx nBlockHeight n)
    (valid : node.ValidVote tx.hash nBlockHeight (ctx, vote))
    (hunseen : node.hasSeen vote.getHash = false) :
    (node.processTxlvote ctx vote).Awaiting tx nBlockHeight (n + 1) := by
  obtain ⟨hhandles, haccepts, hhash, hheight⟩ := valid
  dsimp only at hhandles haccepts hhash hheight
  obtain ⟨added, hreq, hrejected, hinputs, lock, hset, hvotes, hfind, hresult⟩ :=
    processTxlvote_of_unseen hhandles hunseen haccepts
  rw [hhash] at hset hvotes hfind
  have hunset : lock.nBlockHeight = 0 := by
    rw [hset]
    cases hold : node.mapTxLocks.find tx.hash with
    | none => rfl
    | some old => exact awaiting.unset old hold
  have hcount : lock.countSignatures < SWIFTTX_SIGNATURES_REQUIRED := by
    unfold CTransactionLock.countSignatures
    rw [if_pos hunset]
    decide
  rw [hresult, if_pos hcount]
  have hvotesOn : added.votesOn tx.hash = node.votesOn tx.hash ++ [vote] := by
    rw [votesOn_of_find hfind, hvotes]
  constructor
  case requested => rw [hreq, awaiting.requested]
  case rejected => rw [hrejected, awaiting.rejected]
  case inputs =>
    intro prevout hprevout
    rw [hinputs, awaiting.inputs prevout hprevout]
  case unset =>
    intro found hfound
    rw [hfind, Option.some.injEq] at hfound
    rw [← hfound, hunset]
  case voted =>
    constructor
    case length => rw [hvotesOn, List.length_append, awaiting.voted.length, List.length_singleton]
    case heights =>
      intro v hv
      rw [hvotesOn] at hv
      rcases List.mem_append.mp hv with hold | hnew
      · exact awaiting.voted.heights v hold
      · rw [List.mem_singleton.mp hnew, hheight]

/-- The lock with a height is complete with the sixth vote, and every vote from there on locks the
inputs. -/
theorem Locking.txlvote (locking : node.Locking tx nBlockHeight n locked) (hnonzero : nBlockHeight ≠ 0)
    (valid : node.ValidVote tx.hash nBlockHeight (ctx, vote))
    (hunseen : node.hasSeen vote.getHash = false) :
    (node.processTxlvote ctx vote).Locking tx nBlockHeight (n + 1)
      (locked || decide (SWIFTTX_SIGNATURES_REQUIRED ≤ n + 1)) := by
  obtain ⟨hhandles, haccepts, hhash, hheight⟩ := valid
  dsimp only at hhandles haccepts hhash hheight
  obtain ⟨added, hreq, -, hinputs, lock, hset, hvotes, hfind, hresult⟩ :=
    processTxlvote_of_unseen hhandles hunseen haccepts
  rw [hhash] at hset hvotes hfind hresult
  obtain ⟨old, hold, holdHeight⟩ := locking.set
  have hlockHeight : lock.nBlockHeight = nBlockHeight := by
    rw [hset, hold, Option.map_some, Option.getD_some, holdHeight]
  have hvotesOn : added.votesOn tx.hash = node.votesOn tx.hash ++ [vote] := by
    rw [votesOn_of_find hfind, hvotes]
  have hvoted : added.VotedBy tx.hash nBlockHeight (n + 1) := by
    constructor
    case length => rw [hvotesOn, List.length_append, locking.voted.length, List.length_singleton]
    case heights =>
      intro v hv
      rw [hvotesOn] at hv
      rcases List.mem_append.mp hv with hbefore | hnew
      · exact locking.voted.heights v hbefore
      · rw [List.mem_singleton.mp hnew, hheight]
  have hcount : lock.countSignatures = n + 1 := by
    have hlength := hvoted.length
    rw [votesOn_of_find hfind] at hlength
    rw [countSignatures_of_heights (by rw [hlockHeight]; exact hnonzero), hlength]
    · exact Nat.cast_succ n
    · intro v hv
      rw [hlockHeight]
      exact hvoted.heights v (by rw [votesOn_of_find hfind]; exact hv)
  have hrequested : added.mapTxLockReq tx.hash = some tx := by
    rw [hreq, locking.requested]
  rw [hresult, hcount]
  by_cases hfew : (n : ℤ) + 1 < SWIFTTX_SIGNATURES_REQUIRED
  · rw [if_pos hfew, decide_eq_false (not_le.mpr hfew), Bool.or_false]
    refine ⟨hrequested, ?_, ⟨lock, hfind, hlockHeight⟩, hvoted⟩
    intro prevout hprevout
    rw [hinputs, locking.inputs prevout hprevout]
  · rw [if_neg hfew, decide_eq_true (not_lt.mp hfew), Bool.or_true]
    have hpasses : passesLockChecks { added with
        mapTxLockReq := Function.update added.mapTxLockReq tx.hash (some tx) } tx = true := by
      unfold passesLockChecks
      rw [List.all_eq_true]
      intro prevout hprevout
      unfold lockedForOther
      dsimp only
      rw [hinputs, locking.inputs prevout hprevout]
      cases locked with
      | false => rfl
      | true => simp
    unfold completeLock
    rw [hrequested, Option.getD_some]
    dsimp only
    rw [checkForConflictingLocks_of_passes hpasses, if_neg Bool.false_ne_true]
    unfold lockInputs
    constructor
    case requested => exact Function.update_self _ _ _
    case inputs =>
      intro prevout hprevout
      dsimp only
      rw [insertAll_apply, hinputs, locking.inputs prevout hprevout]
      cases locked with
      | false => simp [hprevout]
      | true => simp
    case set => exact ⟨lock, hfind, hlockHeight⟩
    case voted => exact ⟨hvoted.length, hvoted.heights⟩

/-! The votes of a run, by induction on them. -/

section
variable {messages : List (SwiftContext × CConsensusVote)} {own : Option CConsensusVote}

theorem seenWith_nil {seen : Uint256 → Bool} : seenWith seen [] none = seen := by
  funext h
  unfold seenWith
  rw [List.any_nil, Option.any_none, Bool.or_false, Bool.or_false]

theorem hasSeen_processVotes (valid : ValidVotes tx.hash nBlockHeight node messages) :
    (node.processVotes messages).hasSeen = seenWith node.hasSeen messages none := by
  induction messages generalizing node with
  | nil => exact seenWith_nil.symm
  | cons message messages ih =>
    have hstep : node.processVotes (message :: messages) =
        (node.processTxlvote message.1 message.2).processVotes messages := rfl
    rw [hstep, ih valid.2]
    funext h
    unfold seenWith
    rw [hasSeen_processTxlvote valid.1.1, List.any_cons, Bool.or_assoc (node.hasSeen h)]

/-- A vote that was seen changes nothing. -/
theorem processTxlvote_of_seen (hseen : node.hasSeen vote.getHash = true) :
    node.processTxlvote ctx vote = node := by
  have htakes : node.takesUpVote ctx vote = false := by
    unfold takesUpVote
    unfold hasSeen at hseen
    rw [← Option.not_isSome, hseen, Bool.not_true, Bool.and_false]
  unfold processTxlvote
  rw [if_pos htakes]

theorem hasSeen_unseen (hhandles : ctx.handlesSwiftTX = true) :
    (node.processTxlvote ctx vote).hasSeen = fun h => node.hasSeen h || h == vote.getHash := by
  funext h
  exact hasSeen_processTxlvote hhandles

theorem Awaiting.processVotes (awaiting : node.Awaiting tx nBlockHeight n)
    (valid : ValidVotes tx.hash nBlockHeight node messages) :
    (node.processVotes messages).Awaiting tx nBlockHeight
      (n + (unseenVotes node.hasSeen messages).length) := by
  induction messages generalizing node n with
  | nil => exact awaiting
  | cons message messages ih =>
    have hstep : node.processVotes (message :: messages) =
        (node.processTxlvote message.1 message.2).processVotes messages := rfl
    rw [hstep, unseenVotes]
    cases hseen : node.hasSeen message.2.getHash with
    | true =>
      have hrest := valid.2
      dsimp only at hrest
      rw [processTxlvote_of_seen hseen] at hrest ⊢
      exact ih awaiting hrest
    | false =>
      have hafter := ih (awaiting.txlvote valid.1 hseen) valid.2
      rw [hasSeen_unseen valid.1.1] at hafter
      rw [if_neg Bool.false_ne_true, List.length_cons, Nat.add_comm _ 1, ← Nat.add_assoc]
      exact hafter

/-- Some vote finds the lock complete exactly when there is one, and the last does. -/
theorem Locking.processVotes (locking : node.Locking tx nBlockHeight n locked)
    (hnonzero : nBlockHeight ≠ 0) (valid : ValidVotes tx.hash nBlockHeight node messages) :
    (node.processVotes messages).Locking tx nBlockHeight
      (n + (unseenVotes node.hasSeen messages).length)
      (locked || (!(unseenVotes node.hasSeen messages).isEmpty &&
        decide (SWIFTTX_SIGNATURES_REQUIRED ≤
          (n + (unseenVotes node.hasSeen messages).length : ℕ)))) := by
  induction messages generalizing node n locked with
  | nil =>
    rw [unseenVotes, List.isEmpty_nil, Bool.not_true, Bool.false_and, Bool.or_false]
    exact locking
  | cons message messages ih =>
    have hstep : node.processVotes (message :: messages) =
        (node.processTxlvote message.1 message.2).processVotes messages := rfl
    rw [hstep, unseenVotes]
    cases hseen : node.hasSeen message.2.getHash with
    | true =>
      have hrest := valid.2
      dsimp only at hrest
      rw [processTxlvote_of_seen hseen] at hrest ⊢
      exact ih locking hrest
    | false =>
      have hafter := ih (locking.txlvote hnonzero valid.1 hseen) valid.2
      rw [hasSeen_unseen valid.1.1] at hafter
      rw [if_neg Bool.false_ne_true, List.length_cons, List.isEmpty_cons, Bool.not_false,
        Bool.true_and]
      generalize unseenVotes _ messages = later at hafter
      have hsum : n + 1 + later.length = n + (later.length + 1) := by omega
      rw [hsum] at hafter
      have hlocked : ((locked || decide (SWIFTTX_SIGNATURES_REQUIRED ≤ (n : ℤ) + 1)) ||
          (!later.isEmpty && decide (SWIFTTX_SIGNATURES_REQUIRED ≤
            ((n + (later.length + 1) : ℕ) : ℤ)))) =
          (locked || decide (SWIFTTX_SIGNATURES_REQUIRED ≤ ((n + (later.length + 1) : ℕ) : ℤ))) := by
        rw [Bool.or_assoc]
        congr 1
        cases later with
        | nil =>
          rw [List.isEmpty_nil, Bool.not_true, Bool.false_and, Bool.or_false]
          exact decide_eq_decide.mpr (by push_cast; simp)
        | cons first later =>
          rw [List.isEmpty_cons, Bool.not_false, Bool.true_and, ← Bool.decide_or]
          refine decide_eq_decide.mpr ⟨fun hor => ?_, Or.inr⟩
          rcases hor with hnow | hlater
          · rw [List.length_cons]
            push_cast
            omega
          · exact hlater
      rw [hlocked] at hafter
      exact hafter

theorem Fresh.awaiting (fresh : node.Fresh tx) : node.Awaiting tx nBlockHeight 0 where
  requested := fresh.requested
  rejected := fresh.rejected
  inputs := fresh.inputs
  unset := by
    intro lock hlock
    rw [fresh.voted] at hlock
    contradiction
  voted := by
    have hnone : node.votesOn tx.hash = [] := by
      unfold votesOn
      rw [fresh.voted]
      rfl
    constructor
    case length => rw [hnone, List.length_nil]
    case heights =>
      intro v hv
      rw [hnone] at hv
      contradiction

/-- The request gives the lock its height, and locks no input. -/
theorem Awaiting.ix (awaiting : node.Awaiting tx nBlockHeight n)
    (valid : ValidRequest ctx tx nBlockHeight) :
    (node.processIx ctx tx).Locking tx nBlockHeight n false ∧
      (node.processIx ctx tx).hasSeen =
        seenWith node.hasSeen [] (node.ownVote ctx tx nBlockHeight) := by
  obtain ⟨hhandles, hvalid, hscripts, hheight, haccepts⟩ := valid
  have htakes : node.takesUp ctx tx = true := by
    unfold takesUp
    rw [hhandles, awaiting.requested, awaiting.rejected, hvalid, hscripts]
    rfl
  have hcreated : node.createNewLock ctx tx = (nBlockHeight, { node with
      mapTxLocks := node.mapTxLocks.put
        (lockAt ctx nBlockHeight tx.hash (node.mapTxLocks.find tx.hash)) }) := by
    unfold createNewLock
    rw [hheight]
  have hpasses : (node.createNewLock ctx tx).2.acceptToMemoryPool ctx tx = true := by
    unfold acceptToMemoryPool
    rw [haccepts, Bool.true_and, passesLockChecks_createNewLock]
    unfold passesLockChecks
    rw [List.all_eq_true]
    intro prevout hprevout
    unfold lockedForOther
    rw [awaiting.inputs prevout hprevout]
    rfl
  have hkeeps : KeepsVotes node (node.createNewLock ctx tx).2 := keepsVotes_createNewLock
  unfold processIx
  rw [if_neg (by rw [htakes]; exact Bool.true_eq_false_eq_False)]
  dsimp only
  rw [if_pos hpasses]
  unfold acceptRequest
  dsimp only
  obtain ⟨mapCacheBlockHashes, hvote⟩ := @doConsensusVote_eq ctx (node.createNewLock ctx tx).2 tx
    (node.createNewLock ctx tx).1
  rw [hvote]
  have hown : (node.createNewLock ctx tx).2.ownVote ctx tx (node.createNewLock ctx tx).1 =
      node.ownVote ctx tx nBlockHeight := by
    rw [hcreated]
    rfl
  rw [hown]
  constructor
  · constructor
    case requested =>
      dsimp only
      rw [mapTxLockReq_createNewLock]
      exact insertNew_of_none awaiting.requested
    case inputs =>
      intro prevout hprevout
      dsimp only
      rw [mapLockedInputs_createNewLock, awaiting.inputs prevout hprevout]
      rfl
    case set =>
      dsimp only
      rw [hcreated]
      dsimp only
      rw [TransactionLocks.find_put, txHash_lockAt, if_pos rfl]
      refine ⟨_, rfl, ?_⟩
      unfold lockAt
      split
      · rfl
      · rfl
    case voted =>
      have hvotes := hkeeps.votes tx.hash
      constructor
      case length => exact (congrArg List.length hvotes).trans awaiting.voted.length
      case heights =>
        intro v hv
        have hbefore : v ∈ node.votesOn tx.hash := by
          rw [← hvotes]
          exact hv
        exact awaiting.voted.heights v hbefore
  · funext h
    unfold hasSeen seenWith
    rw [hcreated]
    dsimp only
    rw [List.any_nil, Bool.or_false]
    cases node.ownVote ctx tx nBlockHeight with
    | none => rw [Option.any_none, Bool.or_false]
    | some vote =>
      dsimp only
      rw [Function.update_apply, Option.any_some]
      by_cases hsame : h = vote.getHash
      · rw [if_pos hsame, beq_iff_eq.mpr hsame, Bool.or_true, Option.isSome_some]
      · rw [if_neg hsame, beq_false_of_ne hsame, Bool.or_false]

theorem Locking.locks_iff (locking : node.Locking tx nBlockHeight n locked)
    (hinputs : tx.vin ≠ []) : node.LocksInputs tx ↔ locked = true := by
  constructor
  · rintro ⟨-, hall⟩
    obtain ⟨txin, hmem⟩ := List.exists_mem_of_ne_nil _ hinputs
    have hprevout : txin.prevout ∈ tx.prevouts := List.mem_map_of_mem hmem
    have hlocked := hall txin.prevout hprevout
    rw [locking.inputs txin.prevout hprevout] at hlocked
    cases locked with
    | false => contradiction
    | true => rfl
  · rintro rfl
    exact ⟨locking.requested, fun prevout hprevout => locking.inputs prevout hprevout⟩

end
end

/-- The inputs are locked exactly when some vote that was not seen comes after the request, and
there are enough votes with those before. -/
theorem locksInputs_iff {node : SwiftNode} {tx : CTransaction} {nBlockHeight : Int}
    {ctx : SwiftContext} {before after : List (SwiftContext × CConsensusVote)}
    (fresh : node.Fresh tx) (hinputs : tx.vin ≠ []) (hnonzero : nBlockHeight ≠ 0)
    (votesBefore : ValidVotes tx.hash nBlockHeight node before)
    (request : ValidRequest ctx tx nBlockHeight)
    (votesAfter : ValidVotes tx.hash nBlockHeight
      ((node.processVotes before).processIx ctx tx) after) :
    (((node.processVotes before).processIx ctx tx).processVotes after).LocksInputs tx ↔
      unseenVotes (seenWith node.hasSeen before
          ((node.processVotes before).ownVote ctx tx nBlockHeight)) after ≠ [] ∧
        SWIFTTX_SIGNATURES_REQUIRED ≤ (unseenVotes node.hasSeen before).length +
          (unseenVotes (seenWith node.hasSeen before
            ((node.processVotes before).ownVote ctx tx nBlockHeight)) after).length := by
  have awaiting : node.Awaiting tx nBlockHeight 0 := fresh.awaiting
  obtain ⟨locking, hseen⟩ := (awaiting.processVotes votesBefore).ix request
  have hafter := locking.processVotes hnonzero votesAfter
  have hsame : ((node.processVotes before).processIx ctx tx).hasSeen =
      seenWith node.hasSeen before ((node.processVotes before).ownVote ctx tx nBlockHeight) := by
    rw [hseen, hasSeen_processVotes votesBefore]
    funext h
    unfold seenWith
    rw [List.any_nil, Option.any_none, Bool.or_false, Bool.or_false]
  rw [hsame] at hafter
  rw [hafter.locks_iff hinputs, Bool.false_or, Bool.and_eq_true, Bool.not_eq_true',
    List.isEmpty_eq_false_iff, decide_eq_true_eq, Nat.zero_add, Nat.cast_add]

/-! Six votes, and the request after them. -/

def sixVotes : List (SwiftContext × CConsensusVote) :=
  [11, 12, 13, 14, 15, 16].map fun i =>
    (sampleSwiftContext true 1600000000, ⟨sampleMasternode i, 21, 3, []⟩)

instance (txHash : Uint256) (nBlockHeight : Int) (node : SwiftNode)
    (message : SwiftContext × CConsensusVote) :
    Decidable (node.ValidVote txHash nBlockHeight message) :=
  inferInstanceAs (Decidable (_ ∧ _ ∧ _ ∧ _))

theorem fresh_sampleSpend : ({} : SwiftNode).Fresh (sampleSpend 21 [⟨1, 0⟩]) :=
  ⟨rfl, rfl, rfl, fun _ _ => rfl⟩

theorem validRequest_sampleSpend :
    ValidRequest (sampleSwiftContext true 1600000000) (sampleSpend 21 [⟨1, 0⟩]) 3 := by
  unfold ValidRequest
  decide

theorem locksInputs_iff_requestFirst :
    ((({} : SwiftNode).processIx (sampleSwiftContext true 1600000000)
      (sampleSpend 21 [⟨1, 0⟩])).processVotes sixVotes).LocksInputs (sampleSpend 21 [⟨1, 0⟩]) :=
  (@locksInputs_iff {} (sampleSpend 21 [⟨1, 0⟩]) 3 (sampleSwiftContext true 1600000000) [] sixVotes
    fresh_sampleSpend (by decide) (by decide) trivial validRequest_sampleSpend
    ⟨by decide, by decide, by decide, by decide, by decide,
      by decide, trivial⟩).mpr (by decide)

theorem not_locksInputs_requestLast :
    ({} : SwiftNode).Fresh (sampleSpend 21 [⟨1, 0⟩]) ∧
      ValidVotes 21 3 {} sixVotes ∧
      ValidRequest (sampleSwiftContext true 1600000000) (sampleSpend 21 [⟨1, 0⟩]) 3 ∧
      ¬ ((({} : SwiftNode).processVotes sixVotes).processIx (sampleSwiftContext true 1600000000)
        (sampleSpend 21 [⟨1, 0⟩])).LocksInputs (sampleSpend 21 [⟨1, 0⟩]) := by
  refine ⟨fresh_sampleSpend, ?_, validRequest_sampleSpend, ?_⟩
  · exact ⟨by decide, by decide, by decide, by decide,
      by decide, by decide, trivial⟩
  · intro h
    have hlocked := h.2 ⟨1, 0⟩ (by decide)
    revert hlocked
    decide

end SwiftNode
end Lytix
