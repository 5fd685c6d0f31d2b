import Lytix.Lib.UndoLog
import Lytix.Primitives.Transaction
import Mathlib.Data.List.DropRight

/-! The unspent outputs of one transaction (`CCoins`), and the flat unspent output set the
cache layers stand for: a map from transaction ids to entries that are cleaned up and not
spent entirely. -/
namespace Lytix

theorem getElem?_rdropWhile {α : Type*} {p : α → Bool} {l : List α} {n : ℕ} {x : α}
    (hget : l[n]? = some x) (hx : p x = false) : (l.rdropWhile p)[n]? = some x := by
  have hsplit : l.rdropWhile p ++ l.rtakeWhile p = l := List.rdropWhile_append_rtakeWhile ..
  by_cases hlt : n < (l.rdropWhile p).length
  · rw [← hsplit, List.getElem?_append_left hlt] at hget
    exact hget
  · rw [← hsplit, List.getElem?_append_right (by omega)] at hget
    have hdropped : p x = true := List.mem_rtakeWhile_imp (List.mem_of_getElem? hget)
    rw [hdropped] at hx
    contradiction

theorem of_getElem?_rdropWhile {α : Type*} {p : α → Bool} {l : List α} {n : ℕ} {x : α}
    (hget : (l.rdropWhile p)[n]? = some x) : l[n]? = some x := by
  obtain ⟨dropped, hsplit⟩ := List.rdropWhile_prefix p l
  have hlt := (List.getElem?_eq_some_iff.mp hget).1
  have happend : (l.rdropWhile p ++ dropped)[n]? = some x := by
    rw [List.getElem?_append_left hlt, hget]
  rw [hsplit] at happend
  exact happend

/-- Spent outputs are null; spent outputs at the end of the array are dropped. -/
structure CCoins where
  fCoinBase : Bool
  fCoinStake : Bool
  vout : List CTxOut
  nHeight : Int
  nVersion : Int
deriving DecidableEq, Repr

namespace CCoins

/-- The default constructor, and what `Clear` leaves. -/
def clear : CCoins := ⟨false, false, [], 0, 0⟩

/-- Remove spent outputs at the end of `vout`. -/
def cleanup (c : CCoins) : CCoins := { c with vout := c.vout.rdropWhile CTxOut.isNull }

def clearUnspendable (c : CCoins) : CCoins :=
  cleanup { c with
    vout := c.vout.map fun txout =>
      if txout.scriptPubKey.isUnspendable then CTxOut.null else txout }

def fromTx (tx : CTransaction) (nHeightIn : Int) : CCoins :=
  clearUnspendable ⟨tx.isCoinBase, tx.isCoinStake, tx.vout, nHeightIn, tx.nVersion⟩

def isPruned (c : CCoins) : Bool := c.vout.all CTxOut.isNull

/-- Whether a particular output is still available. -/
def isAvailable (c : CCoins) (nPos : Nat) : Bool :=
  match c.vout[nPos]? with
  | some txout => !txout.isNull && !txout.scriptPubKey.isZerocoinMint
  | none => false

/-- `operator==`: empty `CCoins` objects are always equal. -/
def equal (a b : CCoins) : Bool := (a.isPruned && b.isPruned) || a == b

/-- The entry a flat map keeps: none once everything is spent. -/
def live? (c : CCoins) : Option CCoins := if c.isPruned then none else some c

def Cleaned (c : CCoins) : Prop := c.cleanup = c

instance (c : CCoins) : Decidable c.Cleaned := inferInstanceAs (Decidable (_ = _))

@[simp] theorem cleanup_fCoinBase (c : CCoins) : c.cleanup.fCoinBase = c.fCoinBase := rfl
@[simp] theorem cleanup_fCoinStake (c : CCoins) : c.cleanup.fCoinStake = c.fCoinStake := rfl
@[simp] theorem cleanup_nHeight (c : CCoins) : c.cleanup.nHeight = c.nHeight := rfl
@[simp] theorem cleanup_nVersion (c : CCoins) : c.cleanup.nVersion = c.nVersion := rfl
@[simp] theorem isPruned_clear : clear.isPruned = true := rfl
@[simp] theorem live?_clear : clear.live? = none := rfl

theorem cleaned_clear : clear.Cleaned := by
  simp [Cleaned, cleanup, clear]

theorem cleaned_cleanup (c : CCoins) : c.cleanup.Cleaned := by
  simp only [Cleaned, cleanup, List.rdropWhile_idempotent]

theorem Cleaned.vout_eq {c : CCoins} (h : c.Cleaned) :
    c.vout.rdropWhile CTxOut.isNull = c.vout := congrArg CCoins.vout h

@[simp] theorem isPruned_cleanup (c : CCoins) : c.cleanup.isPruned = c.isPruned := by
  rw [Bool.eq_iff_iff]
  simp only [isPruned, cleanup, List.all_eq_true]
  refine ⟨fun h => ?_, fun h o ho => h o ((List.rdropWhile_prefix _ _).subset ho)⟩
  have hnil : c.vout.rdropWhile CTxOut.isNull = [] := by
    have hidem := List.rdropWhile_idempotent CTxOut.isNull c.vout
    rw [← hidem]
    exact List.rdropWhile_eq_nil_iff.mpr h
  exact List.rdropWhile_eq_nil_iff.mp hnil

theorem isPruned_iff_vout_nil {c : CCoins} (h : c.Cleaned) : c.isPruned = true ↔ c.vout = [] := by
  rw [← h.vout_eq, List.rdropWhile_eq_nil_iff]
  simp only [isPruned, List.all_eq_true]

theorem live?_eq_some {c d : CCoins} : c.live? = some d ↔ c.isPruned = false ∧ c = d := by
  unfold live?
  split_ifs with h <;> simp [h]

theorem live?_isNone (c : CCoins) : c.live?.isNone = c.isPruned := by
  unfold live?
  split_ifs with h <;> simp [h]

end CCoins

/-- The flat unspent output set. -/
@[ext] structure CoinsMap where
  get : Uint256 → Option CCoins
  live : ∀ txid c, get txid = some c → c.Cleaned ∧ c.isPruned = false

namespace CoinsMap

def empty : CoinsMap := ⟨fun _ => none, fun _ _ h => absurd h (by simp)⟩

/-- Replace the entry of one transaction; the entry is cleaned up, and dropped when nothing
in it is unspent. -/
def set (m : CoinsMap) (txid : Uint256) (c : CCoins) : CoinsMap where
  get := Function.update m.get txid c.cleanup.live?
  live := by
    intro k d hd
    by_cases hk : k = txid
    · subst hk
      rw [Function.update_self] at hd
      obtain ⟨hp, rfl⟩ := CCoins.live?_eq_some.mp hd
      exact ⟨c.cleaned_cleanup, hp⟩
    · rw [Function.update_of_ne hk] at hd
      exact m.live k d hd

/-- What `ModifyCoins` hands out: the entry, or an empty one. -/
def coinsOf (m : CoinsMap) (txid : Uint256) : CCoins := (m.get txid).getD CCoins.clear

def modifyCoins (m : CoinsMap) (txid : Uint256) (f : CCoins → CCoins) : CoinsMap :=
  m.set txid (f (m.coinsOf txid))

def haveCoins (m : CoinsMap) (txid : Uint256) : Bool := (m.get txid).isSome

@[simp] theorem get_set_self (m : CoinsMap) (txid : Uint256) (c : CCoins) :
    (m.set txid c).get txid = c.cleanup.live? := Function.update_self ..

theorem get_set_of_ne (m : CoinsMap) {txid k : Uint256} (h : k ≠ txid) (c : CCoins) :
    (m.set txid c).get k = m.get k := Function.update_of_ne h ..

end CoinsMap
end Lytix

/-! Spending with undo records, connecting the transactions of a block to the flat unspent
output set (`UpdateCoins`), and the restore loop of `DisconnectBlock`. The zerocoin database
that `DisconnectBlock` erases from, and the best-block pointer, are not part of the set. -/
namespace Lytix

/-- The output spent and, if it was the last one of its transaction, its metadata. -/
structure CTxInUndo where
  txout : CTxOut
  fCoinBase : Bool := false
  fCoinStake : Bool := false
  nHeight : Int := 0
  nVersion : Int := 0
deriving DecidableEq, Repr

/-- The undo records of all inputs of a transaction (`vprevout`). -/
abbrev CTxUndo := List CTxInUndo

namespace CCoins

/-- `CCoins::Spend`; `none` where it returns false. -/
def spend (c : CCoins) (out : COutPoint) : Option (CTxInUndo × CCoins) :=
  match c.vout[out.n]? with
  | none => none
  | some txout =>
    if txout.isNull then none
    else
      let c' := ({ c with vout := c.vout.set out.n CTxOut.null }).cleanup
      if c'.vout.isEmpty then
        some (⟨txout, c'.fCoinBase, c'.fCoinStake, c'.nHeight, c'.nVersion⟩, c')
      else
        some ({ txout := txout }, c')

/-- The body of the loop over the inputs in `DisconnectBlock`: whether it was clean, and the
coins it leaves. It sets every field a record has but `fCoinStake`. -/
def restore (out : COutPoint) (undo : CTxInUndo) (coins : CCoins) : Bool × CCoins :=
  let (fClean, coins) :=
    if undo.nHeight ≠ 0 then
      (coins.isPruned, { clear with
        fCoinBase := undo.fCoinBase, nHeight := undo.nHeight, nVersion := undo.nVersion })
    else (!coins.isPruned, coins)
  let resized := coins.vout ++ List.replicate (out.n + 1 - coins.vout.length) CTxOut.null
  (fClean && !coins.isAvailable out.n, { coins with vout := resized.set out.n undo.txout })

end CCoins

open CoinsMap

def spendInput (view : CoinsMap) (txin : CTxIn) : Option (CTxInUndo × CoinsMap) :=
  ((view.coinsOf txin.prevout.hash).spend txin.prevout).map fun (undo, coins) =>
    (undo, view.set txin.prevout.hash coins)

def restoreInput (txin : CTxIn) (undo : CTxInUndo) (view : CoinsMap) : Bool × CoinsMap :=
  let (fClean, coins) := (view.coinsOf txin.prevout.hash).restore txin.prevout undo
  (fClean, view.set txin.prevout.hash coins)

/-- Spending the inputs of a transaction one after the other, and restoring them from the last
to the first. -/
def inputLog : UndoLog.System CoinsMap CTxIn CTxInUndo := ⟨spendInput, restoreInput⟩

/-- Coinbases and zerocoin spends have no traditional inputs. -/
def CTransaction.spendsCoins (tx : CTransaction) : Bool :=
  !tx.isCoinBase && !tx.isZerocoinSpend

/-- The first half of `UpdateCoins`: mark inputs spent. -/
def spendInputs (view : CoinsMap) (tx : CTransaction) : Option (CTxUndo × CoinsMap) :=
  if tx.spendsCoins then inputLog.applyAll view tx.vin else some ([], view)

/-- `UpdateCoins`; `none` is its assertion failing. -/
def updateCoins (nHeight : Int) (view : CoinsMap) (tx : CTransaction) :
    Option (CTxUndo × CoinsMap) :=
  (spendInputs view tx).map fun (txundo, inputs) =>
    (txundo, inputs.modifyCoins tx.hash fun _ => CCoins.fromTx tx nHeight)

/-- The coins as they stand after some transactions of a block. -/
def coinsAfter (nHeight : Int) (coins : CoinsMap) (vtx : List CTransaction) : Option CoinsMap :=
  vtx.foldlM (fun coins tx => (updateCoins nHeight coins tx).map Prod.snd) coins

/-- Check that the outputs match those of the block itself exactly, and remove them. -/
def disconnectOutputs (nHeight : Int) (tx : CTransaction) (view : CoinsMap) : Bool × CoinsMap :=
  let outs := (view.coinsOf tx.hash).clearUnspendable
  let outsBlock := CCoins.fromTx tx nHeight
  let outs := if outsBlock.nVersion < 0 then { outs with nVersion := outsBlock.nVersion } else outs
  (outs.equal outsBlock, view.modifyCoins tx.hash fun _ => CCoins.clear)

def disconnectTx (nHeight : Int) (tx : CTransaction) (txundo : CTxUndo) (view : CoinsMap) :
    Bool × CoinsMap :=
  let (fClean, view) := disconnectOutputs nHeight tx view
  if tx.spendsCoins then
    let (fClean', view) := inputLog.undoAll (tx.vin.zip txundo) view
    (fClean' && fClean, view)
  else (fClean, view)

def txLog (nHeight : Int) : UndoLog.System CoinsMap CTransaction CTxUndo :=
  ⟨updateCoins nHeight, disconnectTx nHeight⟩

/-- The `UpdateCoins` calls of `ConnectBlock`: the first transaction leaves no record. -/
def connectCoins (nHeight : Int) (view : CoinsMap) :
    List CTransaction → Option (List CTxUndo × CoinsMap)
  | [] => some ([], view)
  | tx :: vtx =>
    (updateCoins nHeight view tx).bind fun (_undoDummy, view) => (txLog nHeight).applyAll view vtx

/-- The loop of `DisconnectBlock` over the transactions with their records, from the last to
the first. A record is missing for the first one only; `none` is an error, or a read past the
records. -/
def disconnectLoop (nHeight : Int) (view : CoinsMap) :
    List (CTransaction × Option CTxUndo) → Option (Bool × CoinsMap)
  | [] => some (true, view)
  | (tx, txundo) :: rest =>
    (disconnectLoop nHeight view rest).bind fun (fClean, view) =>
      let recorded := txundo.any fun vprevout => vprevout.length == tx.vin.length
      if tx.spendsCoins && !recorded then none
      else
        let (fClean', view) := disconnectTx nHeight tx (txundo.getD []) view
        some (fClean && fClean', view)

def disconnectCoins (nHeight : Int) (view : CoinsMap) (vtx : List CTransaction)
    (vtxundo : List CTxUndo) : Option (Bool × CoinsMap) :=
  if vtxundo.length + 1 ≠ vtx.length then none
  else disconnectLoop nHeight view (vtx.zip (none :: vtxundo.map some))

end Lytix
