import Lytix.Coins.Coins
import Lytix.Lib.Maps
import Lytix.Payments.WinnerVotes
import Lytix.Wallet.Solver

/-! Transaction locks. A request to lock the inputs of a transaction is voted on by masternodes,
and a lock with enough votes keeps other transactions from spending the inputs. -/
namespace Lytix
open CountEntries Maps

def SWIFTTX_SIGNATURES_REQUIRED : Int := 6
def SWIFTTX_SIGNATURES_TOTAL : Int := 10
def MIN_SWIFTTX_PROTO_VERSION : Int := 70103

/-- The operand of `nSize` bytes is skipped, if it is there. -/
def Script.skipOperand (opcode : UInt8) (nSize : Nat) (pc : Script) : Option UInt8 × Script :=
  if pc.length < nSize then (none, pc) else (some opcode, pc.drop nSize)

/-- `GetOp`, where `none` is `OP_INVALIDOPCODE`, and where it leaves the position. -/
def Script.getOp : Script → Option UInt8 × Script
  | [] => (none, [])
  | opcode :: pc =>
    if opcode < OP_PUSHDATA1 then Script.skipOperand opcode opcode.toNat pc
    else if opcode = OP_PUSHDATA1 then
      match pc with
      | n :: pc => Script.skipOperand opcode n.toNat pc
      | [] => (none, [])
    else if opcode = OP_PUSHDATA2 then
      match pc with
      | n₀ :: n₁ :: pc => Script.skipOperand opcode (n₀.toNat + 2 ^ 8 * n₁.toNat) pc
      | pc => (none, pc)
    else if opcode = OP_PUSHDATA4 then
      match pc with
      | n₀ :: n₁ :: n₂ :: n₃ :: pc =>
        Script.skipOperand opcode
          (n₀.toNat + 2 ^ 8 * n₁.toNat + 2 ^ 16 * n₂.toNat + 2 ^ 24 * n₃.toNat) pc
      | pc => (none, pc)
    else (some opcode, pc)

/-- The script has no more operations than these, where `none` may be any. -/
def Script.matchesOps : List (Option UInt8) → Script → Bool
  | _, [] => true
  | [], _ => false
  | opcode :: opcodes, pc =>
    (opcode.isNone || pc.getOp.1 == opcode) && Script.matchesOps opcodes pc.getOp.2

def Script.isNormalPaymentScript (script : Script) : Bool :=
  script.length == 25 &&
    script.matchesOps [some OP_DUP, some OP_HASH160, none, some OP_EQUALVERIFY, some OP_CHECKSIG]

structure CConsensusVote where
  vinMasternode : CTxIn
  txHash : Uint256
  nBlockHeight : Int
  vchMasterNodeSignature : List UInt8
deriving DecidableEq

def CConsensusVote.getHash (vote : CConsensusVote) : Uint256 :=
  vote.vinMasternode.prevout.hash + BitVec.ofNat 256 vote.vinMasternode.prevout.n + vote.txHash

structure CTransactionLock where
  nBlockHeight : Int
  txHash : Uint256
  vecConsensusVotes : List CConsensusVote
  nExpiration : Int
  nTimeout : Int

namespace CTransactionLock

/-- A lock made at the time `now`. -/
def new (nBlockHeight : Int) (txHash : Uint256) (now : Int) : CTransactionLock :=
  ⟨nBlockHeight, txHash, [], toInt32 (now + 60 * 60), toInt32 (now + 60 * 5)⟩

def addSignature (lock : CTransactionLock) (cv : CConsensusVote) : CTransactionLock :=
  { lock with vecConsensusVotes := lock.vecConsensusVotes ++ [cv] }

/-- Only count signatures where the height matches the transaction's height. -/
def countSignatures (lock : CTransactionLock) : Int :=
  if lock.nBlockHeight = 0 then -1
  else lock.vecConsensusVotes.countP fun v => decide (v.nBlockHeight = lock.nBlockHeight)

end CTransactionLock

/-- `mapTxLocks`, where a lock stands under the hash of its transaction. -/
structure TransactionLocks where
  locks : Table Uint256 CTransactionLock
  keyed : ∀ h lock, locks.lookup h = some lock → lock.txHash = h

namespace TransactionLocks

def empty : TransactionLocks where
  locks := ∅
  keyed := by
    intro h lock hlock
    contradiction

def find (mapTxLocks : TransactionLocks) (h : Uint256) : Option CTransactionLock :=
  mapTxLocks.locks.lookup h

def put (mapTxLocks : TransactionLocks) (lock : CTransactionLock) : TransactionLocks where
  locks := mapTxLocks.locks.insert lock.txHash lock
  keyed := by
    intro h lock' hlock'
    by_cases hh : h = lock.txHash
    · subst hh
      rw [AList.lookup_insert] at hlock'
      rw [← Option.some.inj hlock']
    · rw [AList.lookup_insert_ne hh] at hlock'
      exact mapTxLocks.keyed h lock' hlock'

def erase (mapTxLocks : TransactionLocks) (h : Uint256) : TransactionLocks where
  locks := mapTxLocks.locks.erase h
  keyed := by
    intro h' lock hlock
    by_cases hh : h' = h
    · subst hh
      rw [AList.lookup_erase] at hlock
      contradiction
    · rw [AList.lookup_erase_ne hh] at hlock
      exact mapTxLocks.keyed h' lock hlock

/-- A lock that is there expires at the time `now`. -/
def expire (mapTxLocks : TransactionLocks) (h : Uint256) (now : Int) : TransactionLocks :=
  match mapTxLocks.find h with
  | none => mapTxLocks
  | some lock => mapTxLocks.put { lock with nExpiration := toInt32 now }

/-- The locks in the table. -/
def toList (mapTxLocks : TransactionLocks) : List CTransactionLock :=
  mapTxLocks.locks.entries.map fun entry => entry.2

section
variable {mapTxLocks : TransactionLocks} {lock : CTransactionLock} {h h' : Uint256} {now : Int}

theorem find_put : (mapTxLocks.put lock).find h =
    if h = lock.txHash then some lock else mapTxLocks.find h := by
  unfold find put
  by_cases hh : h = lock.txHash
  · rw [if_pos hh, hh]
    exact AList.lookup_insert mapTxLocks.locks
  · rw [if_neg hh]
    exact AList.lookup_insert_ne hh

theorem find_erase : (mapTxLocks.erase h).find h' =
    if h' = h then none else mapTxLocks.find h' := by
  unfold find erase
  by_cases hh : h' = h
  · rw [if_pos hh, hh]
    exact AList.lookup_erase h mapTxLocks.locks
  · rw [if_neg hh]
    exact AList.lookup_erase_ne hh

theorem txHash_of_find (hfind : mapTxLocks.find h = some lock) : lock.txHash = h :=
  mapTxLocks.keyed h lock hfind

/-- Only the expiration of one lock changes. -/
theorem find_expire : (mapTxLocks.expire h now).find h' =
    (mapTxLocks.find h').map fun lock =>
      if h' = h then { lock with nExpiration := toInt32 now } else lock := by
  unfold expire
  cases hlock : mapTxLocks.find h with
  | none =>
    by_cases hh : h' = h
    · rw [hh, hlock]
      rfl
    · simp [hh]
  | some lock =>
    have hkey : lock.txHash = h := txHash_of_find hlock
    dsimp only
    rw [find_put]
    dsimp only
    by_cases hh : h' = h
    · rw [if_pos (hh.trans hkey.symm), hh, hlock, Option.map_some, if_pos rfl]
    · rw [hkey, if_neg hh]
      simp [hh]

theorem mem_toList : lock ∈ mapTxLocks.toList ↔ mapTxLocks.find lock.txHash = some lock := by
  unfold toList find
  rw [List.mem_map]
  constructor
  · rintro ⟨⟨h, lock'⟩, hmem, rfl⟩
    have hlookup := mem_entries_iff.mp hmem
    rw [mapTxLocks.keyed h lock' hlookup]
    exact hlookup
  · intro hlookup
    exact ⟨⟨lock.txHash, lock⟩, mem_entries_iff.mpr hlookup, rfl⟩

/-- No two locks in the table are for the same transaction. -/
theorem nodup_txHash_toList : (mapTxLocks.toList.map CTransactionLock.txHash).Nodup := by
  have hkeys : mapTxLocks.toList.map CTransactionLock.txHash = mapTxLocks.locks.keys := by
    unfold toList AList.keys List.keys
    rw [List.map_map]
    apply List.map_congr_left
    rintro ⟨h, lock⟩ hmem
    exact mapTxLocks.keyed h lock (mem_entries_iff.mp hmem)
  rw [hkeys]
  exact mapTxLocks.locks.keys_nodup

end

end TransactionLocks

end Lytix

/-! The scripts that `IsNormalPaymentScript` takes for payments to a key hash. -/
namespace Lytix

/-- `GetScriptForDestination` of a `CKeyID`. -/
def getScriptForKeyID (keyID : Vector UInt8 20) : Script :=
  [OP_DUP, OP_HASH160] ++ Script.push keyID.toList ++ [OP_EQUALVERIFY, OP_CHECKSIG]

namespace Script

/-- 25 bytes that push something else than 20 bytes in the usual way, with nothing behind the push
but `OP_EQUALVERIFY` and `OP_CHECKSIG`, or the first of them, or neither. -/
def PushesOtherwise (script : Script) : Prop :=
  script.length = 25 ∧ script.take 2 = [OP_DUP, OP_HASH160] ∧
    ∃ opcode rest, getOp (script.drop 2) = (some opcode, rest) ∧ opcode ≠ 20 ∧
      rest <+: [OP_EQUALVERIFY, OP_CHECKSIG]

section
variable {script pc rest : Script} {opcode opcode' : UInt8} {nSize : ℕ}

theorem skipOperand_cases (opcode : UInt8) (nSize : ℕ) (pc : Script) :
    skipOperand opcode nSize pc = (some opcode, pc.drop nSize) ∨
      skipOperand opcode nSize pc = (none, pc) := by
  unfold skipOperand
  split_ifs
  · exact Or.inr rfl
  · exact Or.inl rfl

/-- An opcode is read as it is, or the operand is cut off and at most its size is skipped. -/
theorem getOp_cases (opcode : UInt8) (pc : Script) :
    (getOp (opcode :: pc)).1 = some opcode ∨
      (getOp (opcode :: pc)).1 = none ∧ pc.length ≤ (getOp (opcode :: pc)).2.length + 4 := by
  have hskip (nSize : ℕ) (pc' : Script) (hle : pc.length ≤ pc'.length + 4) :
      (skipOperand opcode nSize pc').1 = some opcode ∨
        (skipOperand opcode nSize pc').1 = none ∧
          pc.length ≤ (skipOperand opcode nSize pc').2.length + 4 := by
    rcases skipOperand_cases opcode nSize pc' with heq | heq
    · exact Or.inl (congrArg Prod.fst heq)
    · rw [heq]
      exact Or.inr ⟨rfl, hle⟩
  rw [getOp.eq_def]
  dsimp only
  split_ifs
  · exact hskip _ _ (Nat.le_add_right _ _)
  · split
    · exact hskip _ _ (by simp)
    · exact Or.inr ⟨rfl, Nat.zero_le _⟩
  · split
    · exact hskip _ _ (by simp)
    · exact Or.inr ⟨rfl, Nat.le_add_right _ _⟩
  · split
    · exact hskip _ _ (by simp)
    · exact Or.inr ⟨rfl, Nat.le_add_right _ _⟩
  · exact Or.inl rfl

theorem fst_getOp_eq_some (h : (getOp (opcode :: pc)).1 = some opcode') : opcode = opcode' := by
  rcases getOp_cases opcode pc with heq | ⟨hnone, -⟩
  · exact Option.some.inj (heq.symm.trans h)
  · rw [h] at hnone
    contradiction

/-- An opcode that has no operand. -/
theorem matchesOps_cons_iff {opcodes : List (Option UInt8)}
    (hread : ∀ pc, getOp (opcode :: pc) = (some opcode, pc)) :
    matchesOps (some opcode :: opcodes) pc = true ↔
      pc = [] ∨ ∃ rest, pc = opcode :: rest ∧ matchesOps opcodes rest = true := by
  cases pc with
  | nil => simp [matchesOps]
  | cons first pc =>
    simp only [matchesOps, Option.isNone_some, Bool.false_or, Bool.and_eq_true, beq_iff_eq,
      List.cons.injEq, reduceCtorEq, false_or]
    constructor
    · rintro ⟨hfirst, hrest⟩
      obtain rfl := fst_getOp_eq_some hfirst
      rw [hread] at hrest
      exact ⟨pc, ⟨rfl, rfl⟩, hrest⟩
    · rintro ⟨rest, ⟨rfl, rfl⟩, hrest⟩
      rw [hread]
      exact ⟨rfl, hrest⟩

theorem matchesOps_nil_iff : matchesOps [] pc = true ↔ pc = [] := by
  cases pc <;> simp [matchesOps]

/-- What the walk over the opcodes checks: it ends at any point behind the push. -/
theorem isNormalPaymentScript_iff : script.isNormalPaymentScript = true ↔
    script.length = 25 ∧ script.take 2 = [OP_DUP, OP_HASH160] ∧
      (getOp (script.drop 2)).2 <+: [OP_EQUALVERIFY, OP_CHECKSIG] := by
  unfold isNormalPaymentScript
  rw [Bool.and_eq_true, beq_iff_eq]
  refine and_congr_right fun hlength => ?_
  obtain ⟨a, b, c, pc, rfl⟩ : ∃ a b c pc, script = a :: b :: c :: pc := by
    match script, hlength with
    | a :: b :: c :: pc, _ => exact ⟨a, b, c, pc, rfl⟩
  have htail (rest : Script) :
      matchesOps [some OP_EQUALVERIFY, some OP_CHECKSIG] rest = true ↔
        rest <+: [OP_EQUALVERIFY, OP_CHECKSIG] := by
    rw [matchesOps_cons_iff fun _ => rfl, List.prefix_cons_iff]
    refine or_congr_right (exists_congr fun t => and_congr_right fun _ => ?_)
    rw [matchesOps_cons_iff fun _ => rfl, List.prefix_cons_iff]
    refine or_congr_right (exists_congr fun t => and_congr_right fun _ => ?_)
    rw [matchesOps_nil_iff, List.prefix_nil]
  have hany : matchesOps [none, some OP_EQUALVERIFY, some OP_CHECKSIG] (c :: pc) = true ↔
      (getOp (c :: pc)).2 <+: [OP_EQUALVERIFY, OP_CHECKSIG] := by
    rw [← htail]
    simp [matchesOps]
  rw [matchesOps_cons_iff fun _ => rfl]
  simp only [reduceCtorEq, false_or, List.cons.injEq, List.take_succ_cons, List.take_zero,
    List.drop_succ_cons, List.drop_zero, and_true]
  constructor
  · rintro ⟨rest, ⟨rfl, rfl⟩, hrest⟩
    rw [matchesOps_cons_iff fun _ => rfl] at hrest
    rcases hrest with hnil | ⟨rest, heq, hrest⟩
    · contradiction
    · obtain ⟨rfl, rfl⟩ := List.cons.inj heq
      exact ⟨⟨rfl, rfl⟩, hany.mp hrest⟩
  · rintro ⟨⟨rfl, rfl⟩, hrest⟩
    refine ⟨_, ⟨rfl, rfl⟩, ?_⟩
    rw [matchesOps_cons_iff fun _ => rfl]
    exact Or.inr ⟨_, rfl, hany.mpr hrest⟩

theorem getOp_push20 (h : 20 ≤ pc.length) : getOp (20 :: pc) = (some 20, pc.drop 20) := by
  have hsize : ¬ pc.length < 20 := not_lt.mpr h
  have hread : getOp (20 :: pc) = skipOperand 20 20 pc := rfl
  rw [hread, skipOperand, if_neg hsize]

end
end Script

/-- The scripts for key hashes are those whose push is the usual one of 20 bytes. -/
theorem exists_keyID_iff {script : Script} : (∃ keyID, script = getScriptForKeyID keyID) ↔
    script.isNormalPaymentScript = true ∧ script[2]? = some 20 := by
  constructor
  · rintro ⟨keyID, rfl⟩
    have hform : getScriptForKeyID keyID =
        OP_DUP :: OP_HASH160 :: 20 :: (keyID.toList ++ [OP_EQUALVERIFY, OP_CHECKSIG]) := by
      simp [getScriptForKeyID, Script.push, OP_PUSHDATA1]
    rw [hform, Script.isNormalPaymentScript_iff]
    have hread := @Script.getOp_push20 (keyID.toList ++ [OP_EQUALVERIFY, OP_CHECKSIG]) (by simp)
    refine ⟨⟨by simp, rfl, ?_⟩, rfl⟩
    simp only [List.drop_succ_cons, List.drop_zero]
    rw [hread, List.drop_left' (by simp)]
  · rintro ⟨hnormal, hpush⟩
    obtain ⟨hlength, hfront, htail⟩ := Script.isNormalPaymentScript_iff.mp hnormal
    match script, hlength with
    | a :: b :: c :: pc, hlength =>
      simp only [List.take_succ_cons, List.take_zero, List.cons.injEq, and_true] at hfront
      obtain ⟨rfl, rfl⟩ := hfront
      obtain rfl : c = 20 := Option.some.inj hpush
      have hpc : pc.length = 22 := by simpa using hlength
      simp only [List.drop_succ_cons, List.drop_zero] at htail
      rw [Script.getOp_push20 (by omega)] at htail
      have hback : pc.drop 20 = [OP_EQUALVERIFY, OP_CHECKSIG] :=
        htail.eq_of_length (by simp [hpc])
      refine ⟨⟨(pc.take 20).toArray, by simp [hpc]⟩, ?_⟩
      simp [getScriptForKeyID, Script.push, OP_PUSHDATA1, hpc]
      rw [← hback, List.take_append_drop]

/-- A script is taken for a payment to a key hash exactly when it is one, unless its push is
another one. -/
theorem isNormalPaymentScript_exact_iff (script : Script) :
    (script.isNormalPaymentScript = true ↔ ∃ keyID, script = getScriptForKeyID keyID) ↔
      ¬ script.PushesOtherwise := by
  rw [exists_keyID_iff]
  have hpush (h : script.isNormalPaymentScript = true) :
      ∃ opcode, script[2]? = some opcode ∧ (Script.getOp (script.drop 2)).1 = some opcode := by
    obtain ⟨hlength, -, htail⟩ := Script.isNormalPaymentScript_iff.mp h
    match script, hlength with
    | _ :: _ :: c :: pc, hlength =>
      rcases Script.getOp_cases c pc with hread | ⟨-, hlong⟩
      · exact ⟨c, rfl, hread⟩
      · -- a push that is cut off leaves more behind it than two opcodes
        have hshort := htail.length_le
        simp at hshort hlength hlong
        omega
  constructor
  · rintro hexact ⟨hlength, hfront, opcode, rest, hread, hother, htail⟩
    have hnormal : script.isNormalPaymentScript = true :=
      Script.isNormalPaymentScript_iff.mpr ⟨hlength, hfront, by rw [hread]; exact htail⟩
    obtain ⟨opcode', hget, hread'⟩ := hpush hnormal
    rw [hread, Option.some.injEq] at hread'
    rw [(hexact.mp hnormal).2, ← hread', Option.some.injEq] at hget
    exact hother hget.symm
  · intro hnot
    refine ⟨fun hnormal => ⟨hnormal, ?_⟩, fun h => h.1⟩
    obtain ⟨opcode, hget, hread⟩ := hpush hnormal
    obtain ⟨hlength, hfront, htail⟩ := Script.isNormalPaymentScript_iff.mp hnormal
    rw [hget, Option.some.injEq]
    by_contra hother
    exact hnot ⟨hlength, hfront, opcode, _, Prod.ext hread rfl, hother, htail⟩

/-- Everything behind `OP_HASH160` is one push of 22 bytes. -/
theorem not_isNormalPaymentScript_exact :
    ¬ (Script.isNormalPaymentScript ([OP_DUP, OP_HASH160, 22] ++ List.replicate 22 0) = true ↔
      ∃ keyID, [OP_DUP, OP_HASH160, 22] ++ List.replicate 22 0 = getScriptForKeyID keyID) := by
  rw [exists_keyID_iff]
  decide

end Lytix
