import Lytix.Swifttx.CleanLocks
import Lytix.Validation.Conservation

/-! Which transactions inputs are locked for. A rejected request locks its inputs without any vote,
so a block is rejected for a complete lock only in runs without such requests. -/
namespace Lytix
open Checks Maps

namespace SwiftNode

/-- Every input is locked for a request that spends it and whose lock is complete. -/
def Settled (node : SwiftNode) : Prop :=
  ∀ prevout h, node.mapLockedInputs prevout = some h →
    node.Requests h prevout ∧ IsComplete (node.mapTxLocks.find h)

section
variable {new : CConsensusVote → Prop} {node node' : SwiftNode} {ctx : SwiftContext}
  {tx : CTransaction}

theorem Settled.extends (hsettled : node.Settled) (hextends : Extends new node node') :
    node'.Settled := by
  intro prevout h hprevout
  rcases hextends.locked prevout h hprevout with hbefore | hnow
  · obtain ⟨⟨tx, htx, hmem⟩, hcomplete⟩ := hsettled prevout h hbefore
    have hrequested : node.mapTxLockReq h ≠ none := Option.ne_none_iff_exists'.mpr ⟨tx, htx⟩
    exact ⟨⟨tx, hextends.requests h tx htx, hmem⟩, hextends.complete h hrequested hcomplete⟩
  · exact hnow

/-- The inputs of a transaction whose lock expires are not locked for it any more. -/
theorem Settled.clean (hsettled : node.Settled) :
    (node.cleanTransactionLocksList ctx).Settled := by
  by_cases htip : ctx.view.tip = none
  · unfold cleanTransactionLocksList
    rw [if_pos htip]
    exact hsettled
  · intro prevout h hprevout
    rw [mapLockedInputs_clean htip] at hprevout
    obtain ⟨hbefore, hkeeps⟩ := hprevout
    obtain ⟨⟨tx, htx, hmem⟩, complete, hcomplete, hcount⟩ := hsettled prevout h hbefore
    have hlive : ¬ Expired ctx node h := fun hexpired => hkeeps h hexpired ⟨tx, htx, hmem⟩
    constructor
    · exact ⟨tx, (mapTxLockReq_clean htip).mpr ⟨htx, hlive⟩, hmem⟩
    · exact ⟨complete, (find_clean htip).mpr ⟨hcomplete, hlive⟩, hcount⟩

end

/-- The lock of the node's own request is complete, or no input is locked for it. -/
def RequestsSettled (ctx : SwiftContext) (node : SwiftNode) (tx : CTransaction) : Prop :=
  IsComplete (requestedLock ctx node tx) ∨
    ∀ prevout, node.mapLockedInputs prevout ≠ some tx.hash

section
variable {node : SwiftNode} {ctx : SwiftContext} {tx : CTransaction} {v : CConsensusVote}
  {h : Uint256} {prevout : COutPoint}

theorem find_createNewLock_of_ne (hh : h ≠ tx.hash) :
    (node.createNewLock ctx tx).2.mapTxLocks.find h = node.mapTxLocks.find h := by
  unfold createNewLock
  cases ctx.lockHeight tx with
  | none => rfl
  | some nBlockHeight =>
    dsimp only
    rw [TransactionLocks.find_put, txHash_lockAt, if_neg hh]

theorem Requests.requestLock (hrequests : node.Requests h prevout) :
    (node.requestLock ctx tx).Requests h prevout := by
  obtain ⟨tx', htx', hmem⟩ := hrequests
  refine ⟨tx', ?_, hmem⟩
  unfold SwiftNode.requestLock
  rw [mapTxLockReq_createNewLock]
  exact insertNew_keeps htx'

theorem mapLockedInputs_requestLock :
    (node.requestLock ctx tx).mapLockedInputs = node.mapLockedInputs :=
  mapLockedInputs_createNewLock

theorem Settled.requestLock (hsettled : node.Settled) (hok : RequestsSettled ctx node tx) :
    (node.requestLock ctx tx).Settled := by
  intro prevout h hprevout
  rw [mapLockedInputs_requestLock] at hprevout
  obtain ⟨hrequests, hcomplete⟩ := hsettled prevout h hprevout
  constructor
  · exact hrequests.requestLock
  · unfold SwiftNode.requestLock
    by_cases hh : h = tx.hash
    · rcases hok with hcreated | hnone
      · rw [hh, find_createNewLock]
        exact hcreated
      · rw [hh] at hprevout
        exact absurd hprevout (hnone prevout)
    · rw [find_createNewLock_of_ne hh]
      exact hcomplete

theorem hasVote_requestLock (hv : (node.requestLock ctx tx).mapTxLocks.HasVote v) :
    node.mapTxLocks.HasVote v := by
  obtain ⟨h, lock, hlock, hmem⟩ := hv
  unfold SwiftNode.requestLock at hlock
  by_cases hh : h = tx.hash
  · rw [hh, find_createNewLock] at hlock
    unfold requestedLock at hlock
    cases hheight : ctx.lockHeight tx with
    | none =>
      rw [hheight] at hlock
      exact ⟨tx.hash, lock, hlock, hmem⟩
    | some nBlockHeight =>
      rw [hheight] at hlock
      rw [← Option.some.inj hlock] at hmem
      obtain ⟨old, hold, hvote⟩ := mem_votes_lockAt hmem
      exact ⟨tx.hash, old, hold, hvote⟩
  · rw [find_createNewLock_of_ne hh] at hlock
    exact ⟨h, lock, hlock, hmem⟩

end

/-- The transaction that a message brings passes the scan of the locks. -/
def passedLockChecks (node : SwiftNode) : SwiftEvent → List Uint256
  | .ix ctx tx => if node.takesUp ctx tx && node.passesLockChecks tx then [tx.hash] else []
  | _ => []

/-- The lock of a transaction has enough signatures, and only `valid` votes. -/
def CompleteLock (node : SwiftNode) (valid : List CConsensusVote) (h : Uint256) : Prop :=
  ∃ lock ∈ node.mapTxLocks.find h, SWIFTTX_SIGNATURES_REQUIRED ≤ lock.countSignatures ∧
    ∀ v ∈ lock.vecConsensusVotes, v ∈ valid

end SwiftNode

def SwiftEvent.LocksSettled (node : SwiftNode) : SwiftEvent → Prop
  | .ix ctx tx => SwiftNode.RejectsSettled ctx node tx
  | .requestLock ctx tx => SwiftNode.RequestsSettled ctx node tx
  | _ => True

section
variable (events : List SwiftEvent)

/-- The votes that were valid when they were received. -/
def validVotes : List CConsensusVote :=
  Runs.collect SwiftNode.step SwiftNode.newVotes {} events

/-- An input is locked for a transaction that passed the scan of the locks, or that has a complete
lock. -/
def LockedByChecksOrVotes : Prop :=
  ∀ prevout h, (Runs.run SwiftNode.step {} events).mapLockedInputs prevout = some h →
    h ∈ Runs.collect SwiftNode.step SwiftNode.passedLockChecks {} events ∨
      (Runs.run SwiftNode.step {} events).CompleteLock (validVotes events) h

/-- Where `CheckBlock` rejects a block for the locks, each transaction that the block conflicts with
has a complete lock. -/
def RejectsForCompleteLocks : Prop :=
  ∀ (node : ConsensusNode) block,
    node.mapLockedInputs = (Runs.run SwiftNode.step {} events).mapLockedInputs →
    checkLockedInputs node block ≠ .ok () →
      ∀ tx ∈ block.vtx, tx.isCoinBase = false → ∀ txin ∈ tx.vin,
        ∀ h ∈ node.mapLockedInputs txin.prevout, h ≠ tx.hash →
          (Runs.run SwiftNode.step {} events).CompleteLock (validVotes events) h

def OnlyCompletedLocks : Prop := LockedByChecksOrVotes events ∧ RejectsForCompleteLocks events

end

section
variable {node : SwiftNode} {event : SwiftEvent} {events : List SwiftEvent} {v : CConsensusVote}

theorem settled_step (hsettled : node.Settled) (hok : event.LocksSettled node) :
    (node.step event).Settled := by
  cases event with
  | ix ctx tx => exact hsettled.extends (@SwiftNode.extends_processIx (fun _ => False) _ _ _ hok)
  | txlvote ctx vote => exact hsettled.extends SwiftNode.extends_processTxlvote
  | requestLock ctx tx => exact hsettled.requestLock hok
  | cleanTransactionLocksList ctx => exact hsettled.clean

theorem hasVote_step (hok : event.LocksSettled node)
    (hv : (node.step event).mapTxLocks.HasVote v) :
    node.mapTxLocks.HasVote v ∨ v ∈ node.newVotes event := by
  cases event with
  | ix ctx tx =>
    rcases (@SwiftNode.extends_processIx (fun _ => False) _ _ _ hok).votes v hv with hold | hnone
    · exact Or.inl hold
    · exact hnone.elim
  | txlvote ctx vote => exact SwiftNode.extends_processTxlvote.votes v hv
  | requestLock ctx tx => exact Or.inl (SwiftNode.hasVote_requestLock hv)
  | cleanTransactionLocksList ctx => exact Or.inl (SwiftNode.hasVote_clean hv)

/-- A step lemma and the votes give the lock of every locked input. -/
theorem completeLock_of_locked
    (along : Runs.Along SwiftNode.step (fun node event => event.LocksSettled node) {} events)
    {prevout : COutPoint} {h : Uint256}
    (hprevout : (Runs.run SwiftNode.step {} events).mapLockedInputs prevout = some h) :
    (Runs.run SwiftNode.step {} events).CompleteLock (validVotes events) h := by
  have hstart : SwiftNode.Settled {} := by
    intro prevout h hprevout
    contradiction
  have hsettled : (Runs.run SwiftNode.step {} events).Settled :=
    @Runs.Along.invariant _ _ _ _ (fun node => node.Settled) _ _ along hstart
      (fun _ _ => settled_step)
  obtain ⟨-, lock, hlock, hcount⟩ := hsettled prevout h hprevout
  refine ⟨lock, hlock, hcount, ?_⟩
  intro v hv
  have hhas : (Runs.run SwiftNode.step {} events).mapTxLocks.HasVote v := ⟨h, lock, hlock, hv⟩
  have hvotes := @Runs.Along.has_or_collect _ _ _ _ _ _ _ SwiftNode.newVotes
    (fun node v => node.mapTxLocks.HasVote v) v along (fun _ _ _ => hasVote_step) hhas
  rcases hvotes with ⟨h', lock', hlock', -⟩ | hvalid
  · contradiction
  · exact hvalid

end

/-! A chain of six blocks, whose coins are all in the first one, and six masternodes. -/

def sixIndex (hash : Uint256) : CBlockIndex :=
  if hash = 1 then { nHeight := 0 } else { pprev := some (hash - 1), nHeight := hash.toNat - 1 }

def sixView : ChainView where
  mapBlockIndex := fun hash => hash ∈ [1, 2, 3, 4, 5, 6]
  index := sixIndex
  chainActive := [1, 2, 3, 4, 5, 6]
  heights := by
    intro i pindex h
    rcases i with _ | _ | _ | _ | _ | _ | i <;> simp at h <;> subst h <;> decide
  linked := by
    intro i pindex h
    rcases i with _ | _ | _ | _ | _ | _ | i <;> simp at h <;> subst h <;> decide
  above := by
    intro pindex p hknown hprev
    simp only [List.mem_cons, List.not_mem_nil, or_false, decide_eq_true_eq] at hknown
    rcases hknown with rfl | rfl | rfl | rfl | rfl | rfl
    · contradiction
    all_goals exact Option.some.inj hprev ▸ by decide

def sampleMasternode (i : Uint256) : CTxIn := ⟨⟨i, 0⟩, [], 0⟩

def sampleSwiftContext (accepts : Bool) (now : Int) : SwiftContext where
  view := sixView
  mnodeman :=
    { hashBlockHash := fun hash => hash
      hashBlockHashWith := fun hash aux => hash + aux
      vMasternodes := [11, 12, 13, 14, 15, 16].map fun i => ⟨sampleMasternode i, 71033, 0⟩
      sporks := ⟨fun _ => none, now⟩
      adjustedTime := now
      enabled := fun _ => true }
  fLiteMode := false
  fBlockchainSynced := true
  getTransaction := fun _ => none
  accessCoins := fun _ => some ⟨false, false, [], 0, 1⟩
  mempoolAccepts := fun _ => accepts
  verifyMessage := fun _ _ => true
  activeMasternode := none
  sign := fun _ _ => none

/-- A transaction that spends these outpoints. -/
def sampleSpend (hash : Uint256) (prevouts : List COutPoint) : CTransaction :=
  ⟨hash, 1, prevouts.map fun prevout => ⟨prevout, [], 0⟩, [⟨0, [OP_RETURN], -10⟩], 0⟩

/-- Two requests that the memory pool rejects, the second one for the lock of the first. -/
def rejectedTwice : List SwiftEvent :=
  [.ix (sampleSwiftContext false 1600000000) (sampleSpend 21 [⟨1, 0⟩]),
    .ix (sampleSwiftContext false 1600000000) (sampleSpend 22 [⟨1, 0⟩, ⟨2, 0⟩])]

/-- A node with the locks that the two requests leave. -/
def rejectedTwiceNode : ConsensusNode :=
  { launchNode {} empty_pprev empty_nHeight with
    mempool_hash := mempool_hash_none
    sporks := ⟨fun _ => none, 1600000000⟩
    mapLockedInputs := (Runs.run SwiftNode.step {} rejectedTwice).mapLockedInputs }

/-- A block that spends the second input of the second request. -/
def spendingBlock : CBlock := { sampleBlockFrom with vtx := [sampleSpend 23 [⟨2, 0⟩]] }

/-- A request that the memory pool accepts, and the votes of six masternodes. -/
def lockedBySix : List SwiftEvent :=
  .ix (sampleSwiftContext true 1600000000) (sampleSpend 21 [⟨1, 0⟩]) ::
    [11, 12, 13, 14, 15, 16].map fun i =>
      .txlvote (sampleSwiftContext true 1600000000) ⟨sampleMasternode i, 21, 3, []⟩

end Lytix

/-! What expiry does to the locked inputs. Inputs are erased through the request of the expired
lock, so they stay locked without one, and they are erased for every transaction. -/
namespace Lytix
open Maps

namespace SwiftNode

/-- Every input is locked for a request that spends it. -/
def Requested (node : SwiftNode) : Prop :=
  ∀ prevout h, node.mapLockedInputs prevout = some h → node.Requests h prevout

section
variable {new : CConsensusVote → Prop} {node node' : SwiftNode} {ctx : SwiftContext}
  {tx : CTransaction}

theorem Requested.extends (hrequested : node.Requested) (hextends : Extends new node node') :
    node'.Requested := by
  intro prevout h hprevout
  rcases hextends.locked prevout h hprevout with hbefore | ⟨hnow, -⟩
  · obtain ⟨tx, htx, hmem⟩ := hrequested prevout h hbefore
    exact ⟨tx, hextends.requests h tx htx, hmem⟩
  · exact hnow

theorem Requested.clean (hrequested : node.Requested) :
    (node.cleanTransactionLocksList ctx).Requested := by
  by_cases htip : ctx.view.tip = none
  · unfold cleanTransactionLocksList
    rw [if_pos htip]
    exact hrequested
  · intro prevout h hprevout
    rw [mapLockedInputs_clean htip] at hprevout
    obtain ⟨hbefore, hkeeps⟩ := hprevout
    obtain ⟨tx, htx, hmem⟩ := hrequested prevout h hbefore
    have hlive : ¬ Expired ctx node h := fun hexpired => hkeeps h hexpired ⟨tx, htx, hmem⟩
    exact ⟨tx, (mapTxLockReq_clean htip).mpr ⟨htx, hlive⟩, hmem⟩

theorem Requested.requestLock (hrequested : node.Requested) :
    (node.requestLock ctx tx).Requested := by
  intro prevout h hprevout
  rw [mapLockedInputs_requestLock] at hprevout
  exact (hrequested prevout h hprevout).requestLock

end

/-- A transaction whose lock is gone after the call has no input locked, and a transaction that
still has its lock has the same inputs locked as before. -/
def ExpiryExact (ctx : SwiftContext) (node : SwiftNode) : Prop :=
  (∀ h, node.mapTxLocks.find h ≠ none →
      (node.cleanTransactionLocksList ctx).mapTxLocks.find h = none →
    ∀ prevout, (node.cleanTransactionLocksList ctx).mapLockedInputs prevout ≠ some h) ∧
  ∀ h, (node.cleanTransactionLocksList ctx).mapTxLocks.find h ≠ none →
    ∀ prevout, (node.cleanTransactionLocksList ctx).mapLockedInputs prevout = some h ↔
      node.mapLockedInputs prevout = some h

/-- No input that is locked for a transaction with a live lock is spent by the request of an expired
one. -/
def ExpiredApart (ctx : SwiftContext) (node : SwiftNode) : Prop :=
  ctx.view.tip ≠ none → ∀ h prevout live, Expired ctx node h → node.Requests h prevout →
    node.mapLockedInputs prevout = some live → node.mapTxLocks.find live ≠ none →
      Expired ctx node live

section
variable {node : SwiftNode} {ctx : SwiftContext} {h : Uint256}

theorem find_clean_eq_none (htip : ctx.view.tip ≠ none) (hlock : node.mapTxLocks.find h ≠ none) :
    (node.cleanTransactionLocksList ctx).mapTxLocks.find h = none ↔ Expired ctx node h := by
  constructor
  · intro hgone
    by_contra hlive
    obtain ⟨lock, hfind⟩ := Option.ne_none_iff_exists'.mp hlock
    have hkept := (find_clean htip).mpr ⟨hfind, hlive⟩
    rw [hgone] at hkept
    contradiction
  · intro hexpired
    rw [Option.eq_none_iff_forall_ne_some]
    intro lock hkept
    exact ((find_clean htip).mp hkept).2 hexpired

/-- Where inputs are locked for requests only, expiry is exact unless it erases the input of a
transaction with a live lock. -/
theorem Requested.expiryExact_iff (hrequested : node.Requested) :
    ExpiryExact ctx node ↔ ExpiredApart ctx node := by
  by_cases htip : ctx.view.tip = none
  · have hsame : node.cleanTransactionLocksList ctx = node := if_pos htip
    unfold ExpiryExact ExpiredApart
    rw [hsame]
    constructor
    · intro _ htip'
      exact absurd htip htip'
    · intro _
      constructor
      · intro h hlock hgone
        exact absurd hgone hlock
      · intro h _ prevout
        rfl
  · constructor
    · rintro ⟨-, hunchanged⟩ - h prevout live hexpired hrequests hprevout hlock
      by_contra hlive
      have hkept : (node.cleanTransactionLocksList ctx).mapTxLocks.find live ≠ none := by
        intro hgone
        exact hlive ((find_clean_eq_none htip hlock).mp hgone)
      have hafter := (hunchanged live hkept prevout).mpr hprevout
      rw [mapLockedInputs_clean htip] at hafter
      exact hafter.2 h hexpired hrequests
    · intro hapart
      constructor
      · intro h hlock hgone prevout hprevout
        rw [mapLockedInputs_clean htip] at hprevout
        have hexpired : Expired ctx node h := (find_clean_eq_none htip hlock).mp hgone
        exact hprevout.2 h hexpired (hrequested prevout h hprevout.1)
      · intro h hkept prevout
        obtain ⟨lock, hlock⟩ := Option.ne_none_iff_exists'.mp hkept
        obtain ⟨hfind, hlive⟩ := (find_clean htip).mp hlock
        have hfound : node.mapTxLocks.find h ≠ none :=
          Option.ne_none_iff_exists'.mpr ⟨lock, hfind⟩
        rw [mapLockedInputs_clean htip]
        constructor
        · intro hafter
          exact hafter.1
        · intro hbefore
          refine ⟨hbefore, ?_⟩
          intro h' hexpired hrequests
          exact hlive (hapart htip h' prevout h hexpired hrequests hbefore hfound)

end

end SwiftNode

/-- The condition on the messages alone: the node's own requests are free. -/
def SwiftEvent.RequestsLocked (node : SwiftNode) : SwiftEvent → Prop
  | .ix ctx tx => SwiftNode.RejectsSettled ctx node tx
  | _ => True

theorem requested_step {node : SwiftNode} {event : SwiftEvent} (hrequested : node.Requested)
    (hok : event.RequestsLocked node) : (node.step event).Requested := by
  cases event with
  | ix ctx tx =>
    exact hrequested.extends (@SwiftNode.extends_processIx (fun _ => False) _ _ _ hok)
  | txlvote ctx vote => exact hrequested.extends SwiftNode.extends_processTxlvote
  | requestLock ctx tx => exact hrequested.requestLock
  | cleanTransactionLocksList ctx => exact hrequested.clean

end Lytix
