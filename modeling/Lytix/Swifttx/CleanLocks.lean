import Lytix.Swifttx.LockInvariant

/-! What is left of the tables after `CleanTransactionLocksList`: everything but the expired locks,
their requests, and the inputs of these requests. -/
namespace Lytix
open Maps

namespace SwiftNode

section
variable {node : SwiftNode} {ctx : SwiftContext} {lock lock' : CTransactionLock}
  {locks : List CTransactionLock} {tx : CTransaction} {h locked : Uint256} {prevout : COutPoint}
  {now : Int} {v : CConsensusVote}

theorem cleanLock_of_live (hlive : now ≤ lock.nExpiration) : cleanLock now node lock = node :=
  if_neg (not_lt.mpr hlive)

theorem mapTxLocks_cleanLock (hexpired : lock.nExpiration < now) :
    (cleanLock now node lock).mapTxLocks = node.mapTxLocks.erase lock.txHash := by
  unfold cleanLock
  rw [if_pos hexpired]
  dsimp only
  cases node.mapTxLockReq lock.txHash with
  | none => rfl
  | some tx => rfl

theorem find_cleanLock : (cleanLock now node lock).mapTxLocks.find h = some lock' ↔
    node.mapTxLocks.find h = some lock' ∧ (lock.txHash = h → now ≤ lock.nExpiration) := by
  rcases lt_or_ge lock.nExpiration now with hexpired | hlive
  · rw [mapTxLocks_cleanLock hexpired, TransactionLocks.find_erase]
    by_cases hh : h = lock.txHash
    · simp [hh, hexpired]
    · simp [hh, Ne.symm hh]
  · rw [cleanLock_of_live hlive]
    simp [hlive]

theorem mapTxLockReq_cleanLock : (cleanLock now node lock).mapTxLockReq h = some tx ↔
    node.mapTxLockReq h = some tx ∧ (lock.txHash = h → now ≤ lock.nExpiration) := by
  rcases lt_or_ge lock.nExpiration now with hexpired | hlive
  · unfold cleanLock
    rw [if_pos hexpired]
    dsimp only
    cases hreq : node.mapTxLockReq lock.txHash with
    | none =>
      by_cases hh : lock.txHash = h
      · rw [← hh, hreq]
        simp
      · simp [hh]
    | some tx' =>
      dsimp only
      by_cases hh : h = lock.txHash
      · simp [hh, hexpired]
      · simp [hh, Ne.symm hh]
  · rw [cleanLock_of_live hlive]
    simp [hlive]

theorem mapLockedInputs_cleanLock :
    (cleanLock now node lock).mapLockedInputs prevout = some locked ↔
      node.mapLockedInputs prevout = some locked ∧
        (node.Requests lock.txHash prevout → now ≤ lock.nExpiration) := by
  rcases lt_or_ge lock.nExpiration now with hexpired | hlive
  · unfold cleanLock Requests
    rw [if_pos hexpired]
    dsimp only
    cases node.mapTxLockReq lock.txHash with
    | none => simp
    | some tx' =>
      dsimp only
      rw [eraseAll_apply]
      by_cases hmem : prevout ∈ tx'.prevouts
      · simp [hmem, hexpired]
      · simp [hmem]
  · rw [cleanLock_of_live hlive]
    simp [hlive]

theorem find_foldl_cleanLock :
    (locks.foldl (cleanLock now) node).mapTxLocks.find h = some lock' ↔
      node.mapTxLocks.find h = some lock' ∧
        ∀ lock ∈ locks, lock.txHash = h → now ≤ lock.nExpiration := by
  induction locks generalizing node with
  | nil => simp
  | cons lock locks ih =>
    rw [List.foldl_cons, ih, find_cleanLock, List.forall_mem_cons, and_assoc]

theorem mapTxLockReq_foldl_cleanLock :
    (locks.foldl (cleanLock now) node).mapTxLockReq h = some tx ↔
      node.mapTxLockReq h = some tx ∧
        ∀ lock ∈ locks, lock.txHash = h → now ≤ lock.nExpiration := by
  induction locks generalizing node with
  | nil => simp
  | cons lock locks ih =>
    rw [List.foldl_cons, ih, mapTxLockReq_cleanLock, List.forall_mem_cons, and_assoc]

/-- The requests of the other locks are still there when their turn comes. -/
theorem mapLockedInputs_foldl_cleanLock
    (hnodup : (locks.map CTransactionLock.txHash).Nodup) :
    (locks.foldl (cleanLock now) node).mapLockedInputs prevout = some locked ↔
      node.mapLockedInputs prevout = some locked ∧
        ∀ lock ∈ locks, node.Requests lock.txHash prevout → now ≤ lock.nExpiration := by
  induction locks generalizing node with
  | nil => simp
  | cons lock locks ih =>
    rw [List.map_cons, List.nodup_cons] at hnodup
    have hother : ∀ lock' ∈ locks, (cleanLock now node lock).Requests lock'.txHash prevout ↔
        node.Requests lock'.txHash prevout := by
      intro lock' hlock'
      have hne : lock.txHash ≠ lock'.txHash := by
        intro heq
        apply hnodup.1
        rw [heq]
        exact List.mem_map_of_mem hlock'
      unfold Requests
      simp only [Option.mem_def, mapTxLockReq_cleanLock, hne, false_implies, and_true]
    rw [List.foldl_cons, ih hnodup.2, mapLockedInputs_cleanLock, List.forall_mem_cons, and_assoc]
    apply and_congr_right
    intro _
    apply and_congr_right
    intro _
    apply forall₂_congr
    intro lock' hlock'
    rw [hother lock' hlock']

theorem hasVote_cleanLock (hv : (cleanLock now node lock).mapTxLocks.HasVote v) :
    node.mapTxLocks.HasVote v := by
  rcases lt_or_ge lock.nExpiration now with hexpired | hlive
  · rw [mapTxLocks_cleanLock hexpired] at hv
    exact TransactionLocks.hasVote_of_erase hv
  · rw [cleanLock_of_live hlive] at hv
    exact hv

/-- The lock of a transaction has expired. -/
def Expired (ctx : SwiftContext) (node : SwiftNode) (h : Uint256) : Prop :=
  ∃ lock ∈ node.mapTxLocks.find h, lock.nExpiration < ctx.getTime

theorem not_expired_iff : ¬ Expired ctx node h ↔
    ∀ lock ∈ node.mapTxLocks.toList, lock.txHash = h → ctx.getTime ≤ lock.nExpiration := by
  unfold Expired
  push Not
  constructor
  · rintro hlive lock hmem rfl
    exact hlive lock (TransactionLocks.mem_toList.mp hmem)
  · intro hlive lock hlock
    have hkey : lock.txHash = h := TransactionLocks.txHash_of_find hlock
    apply hlive lock
    · rw [TransactionLocks.mem_toList, hkey]
      exact hlock
    · exact hkey

theorem find_clean (htip : ctx.view.tip ≠ none) :
    (node.cleanTransactionLocksList ctx).mapTxLocks.find h = some lock ↔
      node.mapTxLocks.find h = some lock ∧ ¬ Expired ctx node h := by
  unfold cleanTransactionLocksList
  rw [if_neg htip, find_foldl_cleanLock, not_expired_iff]

theorem mapTxLockReq_clean (htip : ctx.view.tip ≠ none) :
    (node.cleanTransactionLocksList ctx).mapTxLockReq h = some tx ↔
      node.mapTxLockReq h = some tx ∧ ¬ Expired ctx node h := by
  unfold cleanTransactionLocksList
  rw [if_neg htip, mapTxLockReq_foldl_cleanLock, not_expired_iff]

theorem mapLockedInputs_clean (htip : ctx.view.tip ≠ none) :
    (node.cleanTransactionLocksList ctx).mapLockedInputs prevout = some locked ↔
      node.mapLockedInputs prevout = some locked ∧
        ∀ h, Expired ctx node h → ¬ node.Requests h prevout := by
  unfold cleanTransactionLocksList
  rw [if_neg htip, mapLockedInputs_foldl_cleanLock TransactionLocks.nodup_txHash_toList]
  apply and_congr_right
  intro _
  constructor
  · rintro hlive h ⟨lock, hlock, hexpired⟩ hrequests
    have hkey : lock.txHash = h := TransactionLocks.txHash_of_find hlock
    subst hkey
    exact absurd (hlive lock (TransactionLocks.mem_toList.mpr hlock) hrequests)
      (not_le.mpr hexpired)
  · intro hkeeps lock hmem hrequests
    by_contra hexpired
    have hlock := TransactionLocks.mem_toList.mp hmem
    exact hkeeps lock.txHash ⟨lock, hlock, not_le.mp hexpired⟩ hrequests

theorem hasVote_clean (hv : (node.cleanTransactionLocksList ctx).mapTxLocks.HasVote v) :
    node.mapTxLocks.HasVote v := by
  unfold cleanTransactionLocksList at hv
  split_ifs at hv
  · exact hv
  · generalize node.mapTxLocks.toList = locks at hv
    induction locks generalizing node with
    | nil => exact hv
    | cons lock locks ih => exact hasVote_cleanLock (ih hv)

end
end SwiftNode

end Lytix
