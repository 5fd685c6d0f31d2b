import Lytix.Swifttx.ProcessMessage

/-! What a message may do to the tables of transaction locks. Requests and complete locks stay, and
an input is locked for a transaction only together with its request and its complete lock. -/
namespace Lytix
open Maps

/-- A lock is there and has enough signatures. -/
def IsComplete (lock : Option CTransactionLock) : Prop :=
  ∃ complete ∈ lock, SWIFTTX_SIGNATURES_REQUIRED ≤ complete.countSignatures

instance (lock : Option CTransactionLock) : Decidable (IsComplete lock) :=
  match lock with
  | none => isFalse (by
      rintro ⟨complete, hmem, -⟩
      contradiction)
  | some complete => decidable_of_iff
      (SWIFTTX_SIGNATURES_REQUIRED ≤ complete.countSignatures) (by simp [IsComplete])

/-- The signatures a lock has do not depend on when it expires. -/
theorem isComplete_map {lock : Option CTransactionLock}
    {f : CTransactionLock → CTransactionLock}
    (h : ∀ l, (f l).countSignatures = l.countSignatures) :
    IsComplete (lock.map f) ↔ IsComplete lock := by
  cases lock with
  | none => rfl
  | some l => simp [IsComplete, h]

namespace CTransactionLock

variable {lock : CTransactionLock} {cv : CConsensusVote}

theorem countSignatures_addSignature :
    lock.countSignatures ≤ (lock.addSignature cv).countSignatures := by
  unfold countSignatures addSignature
  dsimp only
  by_cases h : lock.nBlockHeight = 0
  · rw [if_pos h, if_pos h]
  · rw [if_neg h, if_neg h, List.countP_append]
    omega

end CTransactionLock

namespace TransactionLocks

variable {mapTxLocks : TransactionLocks} {lock : CTransactionLock} {h h' : Uint256} {now : Int}
  {v : CConsensusVote}

theorem isComplete_find_expire :
    IsComplete ((mapTxLocks.expire h now).find h') ↔ IsComplete (mapTxLocks.find h') := by
  rw [find_expire]
  apply isComplete_map
  intro l
  split_ifs
  · rfl
  · rfl

/-- A vote that some lock has. -/
def HasVote (mapTxLocks : TransactionLocks) (v : CConsensusVote) : Prop :=
  ∃ h, ∃ lock ∈ mapTxLocks.find h, v ∈ lock.vecConsensusVotes

theorem hasVote_of_expire (hv : (mapTxLocks.expire h now).HasVote v) : mapTxLocks.HasVote v := by
  obtain ⟨h', lock, hlock, hmem⟩ := hv
  rw [find_expire] at hlock
  obtain ⟨lock', hlock', rfl⟩ := Option.map_eq_some_iff.mp hlock
  refine ⟨h', lock', hlock', ?_⟩
  split_ifs at hmem
  · exact hmem
  · exact hmem

theorem hasVote_of_put (hv : (mapTxLocks.put lock).HasVote v) :
    v ∈ lock.vecConsensusVotes ∨ mapTxLocks.HasVote v := by
  obtain ⟨h, lock', hlock', hmem⟩ := hv
  rw [find_put] at hlock'
  split_ifs at hlock' with hh
  · rw [Option.mem_def, Option.some.injEq] at hlock'
    rw [← hlock'] at hmem
    exact Or.inl hmem
  · exact Or.inr ⟨h, lock', hlock', hmem⟩

theorem hasVote_of_erase (hv : (mapTxLocks.erase h).HasVote v) : mapTxLocks.HasVote v := by
  obtain ⟨h', lock, hlock, hmem⟩ := hv
  rw [find_erase] at hlock
  split_ifs at hlock
  · contradiction
  · exact ⟨h', lock, hlock, hmem⟩

end TransactionLocks

namespace SwiftNode

/-- The transaction of a request spends the outpoint. -/
def Requests (node : SwiftNode) (h : Uint256) (prevout : COutPoint) : Prop :=
  ∃ tx ∈ node.mapTxLockReq h, prevout ∈ tx.prevouts

/-- From `node` to `node'` no request and no complete lock of a request is lost, inputs are locked
only for requests with a complete lock, and locks get only the votes `new`. -/
structure Extends (new : CConsensusVote → Prop) (node node' : SwiftNode) : Prop where
  requests : ∀ h tx, node.mapTxLockReq h = some tx → node'.mapTxLockReq h = some tx
  locked : ∀ prevout h, node'.mapLockedInputs prevout = some h →
    node.mapLockedInputs prevout = some h ∨
      node'.Requests h prevout ∧ IsComplete (node'.mapTxLocks.find h)
  complete : ∀ h, node.mapTxLockReq h ≠ none → IsComplete (node.mapTxLocks.find h) →
    IsComplete (node'.mapTxLocks.find h)
  votes : ∀ v, node'.mapTxLocks.HasVote v → node.mapTxLocks.HasVote v ∨ new v

section
variable {new : CConsensusVote → Prop} {node node' node'' : SwiftNode} {ctx : SwiftContext}
  {tx : CTransaction} {vote : CConsensusVote} {h txHash : Uint256} {prevout : COutPoint}

theorem Extends.same (hreq : node'.mapTxLockReq = node.mapTxLockReq)
    (hlocked : node'.mapLockedInputs = node.mapLockedInputs)
    (hlocks : node'.mapTxLocks = node.mapTxLocks) : Extends new node node' where
  requests := by
    intro h tx htx
    rw [hreq, htx]
  locked := by
    intro prevout h hprevout
    rw [hlocked] at hprevout
    exact Or.inl hprevout
  complete := by
    intro h _ hcomplete
    rw [hlocks]
    exact hcomplete
  votes := by
    intro v hv
    rw [hlocks] at hv
    exact Or.inl hv

theorem Extends.refl : Extends new node node := Extends.same rfl rfl rfl

theorem Extends.trans (h₁ : Extends new node node') (h₂ : Extends new node' node'') :
    Extends new node node'' where
  requests := by
    intro h tx htx
    exact h₂.requests h tx (h₁.requests h tx htx)
  locked := by
    intro prevout h hprevout
    rcases h₂.locked prevout h hprevout with hbefore | hnow
    · rcases h₁.locked prevout h hbefore with hfirst | ⟨⟨tx, htx, hmem⟩, hcomplete⟩
      · exact Or.inl hfirst
      · have hrequested : node'.mapTxLockReq h ≠ none := Option.ne_none_iff_exists'.mpr ⟨tx, htx⟩
        exact Or.inr ⟨⟨tx, h₂.requests h tx htx, hmem⟩, h₂.complete h hrequested hcomplete⟩
    · exact Or.inr hnow
  complete := by
    intro h hrequested hcomplete
    obtain ⟨tx, htx⟩ := Option.ne_none_iff_exists'.mp hrequested
    have hrequested' : node'.mapTxLockReq h ≠ none :=
      Option.ne_none_iff_exists'.mpr ⟨tx, h₁.requests h tx htx⟩
    exact h₂.complete h hrequested' (h₁.complete h hrequested hcomplete)
  votes := by
    intro v hv
    rcases h₂.votes v hv with hbefore | hnow
    · exact h₁.votes v hbefore
    · exact Or.inr hnow

/-- The request of a transaction is inserted. -/
theorem extends_insertRequest : Extends new node
    { node with mapTxLockReq := insertNew node.mapTxLockReq tx.hash tx } where
  requests := by
    intro h tx' htx'
    exact insertNew_keeps htx'
  locked := by
    intro prevout h hprevout
    exact Or.inl hprevout
  complete := by
    intro h _ hcomplete
    exact hcomplete
  votes := by
    intro v hv
    exact Or.inl hv

/-- Either no input is locked for another transaction, or the two locks expire. -/
theorem checkForConflictingLocks_cases :
    node.passesLockChecks tx = true ∧ node.checkForConflictingLocks ctx tx = (false, node) ∨
      ∃ locked, node.checkForConflictingLocks ctx tx = (true, { node with
        mapTxLocks := (node.mapTxLocks.expire tx.hash ctx.getTime).expire locked ctx.getTime }) := by
  unfold checkForConflictingLocks passesLockChecks
  cases hconflict : tx.prevouts.findSome? (node.lockedForOther tx.hash) with
  | none =>
    rw [List.findSome?_eq_none_iff] at hconflict
    left
    constructor
    · rw [List.all_eq_true]
      intro prevout hprevout
      rw [hconflict prevout hprevout, Option.isNone_none]
    · rfl
  | some locked => exact Or.inr ⟨locked, rfl⟩

theorem checkForConflictingLocks_of_passes (hpasses : node.passesLockChecks tx = true) :
    node.checkForConflictingLocks ctx tx = (false, node) := by
  have hnone : tx.prevouts.findSome? (node.lockedForOther tx.hash) = none := by
    rw [List.findSome?_eq_none_iff]
    intro prevout hprevout
    exact Option.isNone_iff_eq_none.mp (List.all_eq_true.mp hpasses prevout hprevout)
  unfold checkForConflictingLocks
  rw [hnone]

theorem extends_checkForConflictingLocks :
    Extends new node (node.checkForConflictingLocks ctx tx).2 := by
  rcases @checkForConflictingLocks_cases node ctx tx with ⟨-, hnone⟩ | ⟨locked, hsome⟩
  · rw [hnone]
    exact Extends.refl
  · rw [hsome]
    constructor
    · intro h tx' htx'
      exact htx'
    · intro prevout h hprevout
      exact Or.inl hprevout
    · intro h _ hcomplete
      dsimp only
      rw [TransactionLocks.isComplete_find_expire, TransactionLocks.isComplete_find_expire]
      exact hcomplete
    · intro v hv
      exact Or.inl (TransactionLocks.hasVote_of_expire (TransactionLocks.hasVote_of_expire hv))

theorem txHash_lockAt {nBlockHeight : Int} {mapTxLocks : TransactionLocks} :
    (lockAt ctx nBlockHeight h (mapTxLocks.find h)).txHash = h := by
  unfold lockAt
  split
  · rfl
  · next lock hlock =>
    have hkey : lock.txHash = h := TransactionLocks.txHash_of_find hlock
    exact hkey

theorem mem_votes_lockAt {nBlockHeight : Int} {old : Option CTransactionLock}
    (hmem : vote ∈ (lockAt ctx nBlockHeight h old).vecConsensusVotes) :
    ∃ lock ∈ old, vote ∈ lock.vecConsensusVotes := by
  cases old with
  | none => exact absurd hmem List.not_mem_nil
  | some lock => exact ⟨lock, rfl, hmem⟩

/-- The lock of a transaction that is not requested yet gets its height. -/
theorem extends_createNewLock (hnew : node.mapTxLockReq tx.hash = none) :
    Extends new node (node.createNewLock ctx tx).2 := by
  unfold createNewLock
  cases hheight : ctx.lockHeight tx with
  | none => exact Extends.refl
  | some nBlockHeight =>
    constructor
    · intro h tx' htx'
      exact htx'
    · intro prevout h hprevout
      exact Or.inl hprevout
    · intro h hrequested hcomplete
      have hother : h ≠ tx.hash := by
        rintro rfl
        exact hrequested hnew
      dsimp only
      rw [TransactionLocks.find_put, txHash_lockAt, if_neg hother]
      exact hcomplete
    · intro v hv
      rcases TransactionLocks.hasVote_of_put hv with hmem | hbefore
      · obtain ⟨lock, hlock, hold⟩ := mem_votes_lockAt hmem
        exact Or.inl ⟨tx.hash, lock, hlock, hold⟩
      · exact Or.inl hbefore

theorem extends_doConsensusVote {nBlockHeight : Int} :
    Extends new node (node.doConsensusVote ctx tx nBlockHeight) := by
  unfold doConsensusVote
  cases ctx.activeMasternode with
  | none => exact Extends.refl
  | some vin =>
    dsimp only
    by_cases hrank : (node.voteRank ctx vin nBlockHeight).1 = -1 ∨
        SWIFTTX_SIGNATURES_TOTAL < (node.voteRank ctx vin nBlockHeight).1
    · rw [if_pos hrank]
      exact Extends.same rfl rfl rfl
    · rw [if_neg hrank]
      cases ctx.sign tx.hash nBlockHeight with
      | none => exact Extends.same rfl rfl rfl
      | some vchMasterNodeSignature =>
        dsimp only
        split_ifs
        · exact Extends.same rfl rfl rfl
        · exact Extends.same rfl rfl rfl

theorem extends_resolveRejected : Extends new node (node.resolveRejected ctx tx) := by
  unfold resolveRejected
  cases node.mapTxLocks.find tx.hash with
  | none => exact Extends.refl
  | some lock =>
    dsimp only
    split_ifs
    · exact Extends.refl
    · exact extends_checkForConflictingLocks
    · exact extends_checkForConflictingLocks.trans extends_insertRequest

theorem lockedForOther_insertAll {prevouts : List COutPoint} :
    ({ node with mapLockedInputs := insertAll node.mapLockedInputs h prevouts }).lockedForOther
      h prevout = node.lockedForOther h prevout := by
  unfold lockedForOther
  dsimp only
  rw [insertAll_apply]
  split_ifs with hnew
  · rw [hnew.2]
    simp
  · rfl

/-- Locking inputs for a transaction conflicts with no lock of its own. -/
theorem passesLockChecks_lockInputs :
    (node.lockInputs tx tx.hash).passesLockChecks tx = node.passesLockChecks tx := by
  unfold passesLockChecks lockInputs
  congr 1
  funext prevout
  rw [lockedForOther_insertAll]

/-- A rejected request with a complete lock which does not conflict stays a request. -/
theorem resolveRejected_of_complete (hpasses : node.passesLockChecks tx = true)
    (hcomplete : IsComplete (node.mapTxLocks.find tx.hash)) : node.resolveRejected ctx tx =
      { node with mapTxLockReq := insertNew node.mapTxLockReq tx.hash tx } := by
  obtain ⟨lock, hlock, hcount⟩ := hcomplete
  rw [Option.mem_def] at hlock
  unfold resolveRejected
  rw [hlock]
  dsimp only
  rw [if_neg (not_lt.mpr hcount), checkForConflictingLocks_of_passes hpasses,
    if_neg Bool.noConfusion]

/-- A rejected request locks no input, or it stays a request and its lock is complete. -/
theorem extends_rejectRequest (hnew : node.mapTxLockReq tx.hash = none)
    (hok : (∀ prevout ∈ tx.prevouts, node.mapLockedInputs prevout ≠ none) ∨
      node.passesLockChecks tx = true ∧ IsComplete (node.mapTxLocks.find tx.hash)) :
    Extends new node (node.rejectRequest ctx tx) := by
  unfold rejectRequest
  dsimp only
  have hrejected : Extends new node { node with
      mapTxLockReqRejected := insertNew node.mapTxLockReqRejected tx.hash tx } :=
    Extends.same rfl rfl rfl
  rcases hok with hlocked | ⟨hpasses, hcomplete⟩
  · apply (hrejected.trans _).trans extends_resolveRejected
    apply Extends.same
    · rfl
    · exact insertAll_of_forall hlocked
    · rfl
  · have hpasses' : SwiftNode.passesLockChecks { node with
        mapTxLockReqRejected := insertNew node.mapTxLockReqRejected tx.hash tx } tx = true := hpasses
    rw [resolveRejected_of_complete (passesLockChecks_lockInputs.trans hpasses') hcomplete]
    have hrequest : insertNew node.mapTxLockReq tx.hash tx tx.hash = some tx :=
      insertNew_of_none hnew
    constructor
    · intro h tx' htx'
      exact insertNew_keeps htx'
    · intro prevout h hprevout
      rcases insertAll_eq_some.mp hprevout with hbefore | ⟨-, hmem, rfl⟩
      · exact Or.inl hbefore
      · exact Or.inr ⟨⟨tx, hrequest, hmem⟩, hcomplete⟩
    · intro h _ hcomplete'
      exact hcomplete'
    · intro v hv
      exact Or.inl hv

theorem extends_completeLock (hcomplete : IsComplete (node.mapTxLocks.find txHash)) :
    Extends new node (node.completeLock ctx txHash) := by
  unfold completeLock
  dsimp only
  generalize hrequest : (node.mapTxLockReq txHash).getD CTransaction.null = tx
  have hmade : Extends new node
      { node with mapTxLockReq := Function.update node.mapTxLockReq txHash (some tx) } := by
    constructor
    · intro h tx' htx'
      dsimp only
      by_cases hh : h = txHash
      · rw [← hh, htx', Option.getD_some] at hrequest
        rw [hh, Function.update_self, hrequest]
      · rw [Function.update_of_ne hh, htx']
    · intro prevout h hprevout
      exact Or.inl hprevout
    · intro h _ hcomplete'
      exact hcomplete'
    · intro v hv
      exact Or.inl hv
  split_ifs with hconflict
  · exact hmade.trans extends_checkForConflictingLocks
  · have hsame := (@checkForConflictingLocks_cases
      { node with mapTxLockReq := Function.update node.mapTxLockReq txHash (some tx) } ctx tx)
    rcases hsame with ⟨-, hnone⟩ | ⟨locked, hsome⟩
    · rw [hnone]
      apply hmade.trans
      constructor
      · intro h tx' htx'
        exact htx'
      · intro prevout h hprevout
        rcases insertAll_eq_some.mp hprevout with hbefore | ⟨-, hmem, rfl⟩
        · exact Or.inl hbefore
        · exact Or.inr ⟨⟨tx, Function.update_self _ _ _, hmem⟩, hcomplete⟩
      · intro h _ hcomplete'
        exact hcomplete'
      · intro v hv
        exact Or.inl hv
    · rw [hsome] at hconflict
      exact absurd rfl hconflict

theorem passesLockChecks_createNewLock :
    (node.createNewLock ctx tx).2.passesLockChecks tx = node.passesLockChecks tx := by
  unfold createNewLock
  cases ctx.lockHeight tx with
  | none => rfl
  | some nBlockHeight => rfl

theorem mapLockedInputs_createNewLock :
    (node.createNewLock ctx tx).2.mapLockedInputs = node.mapLockedInputs := by
  unfold createNewLock
  cases ctx.lockHeight tx with
  | none => rfl
  | some nBlockHeight => rfl

theorem mapTxLockReq_createNewLock :
    (node.createNewLock ctx tx).2.mapTxLockReq = node.mapTxLockReq := by
  unfold createNewLock
  cases ctx.lockHeight tx with
  | none => rfl
  | some nBlockHeight => rfl

theorem mapTxLockReq_of_takesUp (htakes : node.takesUp ctx tx = true) :
    node.mapTxLockReq tx.hash = none := by
  simp only [takesUp, Bool.and_eq_true, Option.isNone_iff_eq_none] at htakes
  exact htakes.1.1.1.2

end

/-- The lock that `CreateNewLock` gives a transaction. -/
def requestedLock (ctx : SwiftContext) (node : SwiftNode) (tx : CTransaction) :
    Option CTransactionLock :=
  match ctx.lockHeight tx with
  | none => node.mapTxLocks.find tx.hash
  | some nBlockHeight => some (lockAt ctx nBlockHeight tx.hash (node.mapTxLocks.find tx.hash))

/-- A request that the memory pool rejects has only inputs that are locked already, or it has a
complete lock and spends no input that is locked for another transaction. -/
def RejectsSettled (ctx : SwiftContext) (node : SwiftNode) (tx : CTransaction) : Prop :=
  node.takesUp ctx tx = true → node.acceptToMemoryPool ctx tx = false →
    (∀ prevout ∈ tx.prevouts, node.mapLockedInputs prevout ≠ none) ∨
      node.passesLockChecks tx = true ∧ IsComplete (requestedLock ctx node tx)

/-- The votes that a message brings. -/
def newVotes (node : SwiftNode) : SwiftEvent → List CConsensusVote
  | .txlvote ctx vote =>
    if node.takesUpVote ctx vote && node.acceptsVote ctx vote then [vote] else []
  | _ => []

section
variable {new : CConsensusVote → Prop} {node : SwiftNode} {ctx : SwiftContext}
  {tx : CTransaction} {vote : CConsensusVote}

theorem find_createNewLock :
    (node.createNewLock ctx tx).2.mapTxLocks.find tx.hash = requestedLock ctx node tx := by
  unfold createNewLock requestedLock
  cases ctx.lockHeight tx with
  | none => rfl
  | some nBlockHeight =>
    dsimp only
    rw [TransactionLocks.find_put, txHash_lockAt, if_pos rfl]

theorem extends_processIx (hok : RejectsSettled ctx node tx) :
    Extends new node (node.processIx ctx tx) := by
  unfold processIx
  by_cases htakes : node.takesUp ctx tx = false
  · rw [if_pos htakes]
    exact Extends.refl
  · rw [if_neg htakes]
    rw [Bool.not_eq_false] at htakes
    have hnew : node.mapTxLockReq tx.hash = none := mapTxLockReq_of_takesUp htakes
    have hcreated : Extends new node (node.createNewLock ctx tx).2 := extends_createNewLock hnew
    dsimp only
    by_cases haccept : (node.createNewLock ctx tx).2.acceptToMemoryPool ctx tx = true
    · rw [if_pos haccept]
      exact (hcreated.trans extends_doConsensusVote).trans extends_insertRequest
    · rw [if_neg haccept]
      apply hcreated.trans
      apply extends_rejectRequest
      · rw [mapTxLockReq_createNewLock]
        exact hnew
      · have hreject : node.acceptToMemoryPool ctx tx = false := by
          unfold acceptToMemoryPool at haccept ⊢
          rw [passesLockChecks_createNewLock] at haccept
          exact eq_false_of_ne_true haccept
        rw [mapLockedInputs_createNewLock, passesLockChecks_createNewLock, find_createNewLock]
        exact hok htakes hreject

theorem extends_processConsensusVote (hnew : node.acceptsVote ctx vote = true → new vote) :
    Extends new node (node.processConsensusVote ctx vote) := by
  unfold processConsensusVote
  dsimp only
  by_cases haccept : node.acceptsVote ctx vote = false
  · rw [if_pos haccept]
    exact Extends.same rfl rfl rfl
  · rw [if_neg haccept]
    generalize hlock : ((node.mapTxLocks.find vote.txHash).getD
      (CTransactionLock.new 0 vote.txHash ctx.getTime)) = lock
    have hkey : lock.txHash = vote.txHash := by
      cases hfind : node.mapTxLocks.find vote.txHash with
      | none =>
        rw [hfind] at hlock
        rw [← hlock]
        rfl
      | some old =>
        rw [hfind] at hlock
        rw [← hlock]
        exact TransactionLocks.txHash_of_find hfind
    have hput : (node.mapTxLocks.put (lock.addSignature vote)).find vote.txHash =
        some (lock.addSignature vote) := by
      rw [TransactionLocks.find_put]
      exact if_pos hkey.symm
    have hstored : Extends new node { node with
        mapTxLocks := node.mapTxLocks.put (lock.addSignature vote)
        mapCacheBlockHashes := (node.voteRank ctx vote.vinMasternode vote.nBlockHeight).2 } := by
      constructor
      · intro h tx' htx'
        exact htx'
      · intro prevout h hprevout
        exact Or.inl hprevout
      · rintro h - ⟨complete, hcomplete, hcount⟩
        rw [Option.mem_def] at hcomplete
        dsimp only
        by_cases hh : h = vote.txHash
        · rw [hh, hput]
          rw [hh] at hcomplete
          rw [hcomplete, Option.getD_some] at hlock
          rw [hlock] at hcount
          exact ⟨_, rfl, hcount.trans CTransactionLock.countSignatures_addSignature⟩
        · have hother : h ≠ (lock.addSignature vote).txHash := fun heq => hh (heq.trans hkey)
          rw [TransactionLocks.find_put, if_neg hother]
          exact ⟨complete, hcomplete, hcount⟩
      · intro v hv
        rcases TransactionLocks.hasVote_of_put hv with hmem | hbefore
        · rcases List.mem_append.mp hmem with hold | hlast
          · left
            cases hfind : node.mapTxLocks.find vote.txHash with
            | none =>
              rw [hfind] at hlock
              rw [← hlock] at hold
              exact absurd hold List.not_mem_nil
            | some old =>
              rw [hfind, Option.getD_some] at hlock
              rw [← hlock] at hold
              exact ⟨vote.txHash, old, hfind, hold⟩
          · right
            rw [List.mem_singleton.mp hlast]
            rw [Bool.not_eq_false] at haccept
            exact hnew haccept
        · exact Or.inl hbefore
    split_ifs with hcount
    · exact hstored
    · apply hstored.trans
      apply extends_completeLock
      exact ⟨_, hput, not_lt.mp hcount⟩

theorem extends_processTxlvote : Extends (fun v => v ∈ node.newVotes (.txlvote ctx vote)) node
    (node.processTxlvote ctx vote) := by
  unfold processTxlvote
  by_cases htakes : node.takesUpVote ctx vote = false
  · rw [if_pos htakes]
    exact Extends.refl
  · rw [if_neg htakes]
    rw [Bool.not_eq_false] at htakes
    have hseen : Extends (fun v => v ∈ node.newVotes (.txlvote ctx vote)) node { node with
        mapTxLockVote := Function.update node.mapTxLockVote vote.getHash (some vote) } :=
      Extends.same rfl rfl rfl
    apply hseen.trans
    apply extends_processConsensusVote
    intro haccept
    have haccept' : node.acceptsVote ctx vote = true := haccept
    simp [newVotes, htakes, haccept']

end
end SwiftNode

end Lytix
