import Lytix.Coins.SpentOnce
import Lytix.Mempool.PoolRuns

/-! Connecting the transactions of a block to the coins keeps the promises that the memory pool
relies on, in both directions. -/
namespace Lytix

namespace CCoins

theorem isAvailable_cleanup (c : CCoins) (n : ℕ) : c.cleanup.isAvailable n = c.isAvailable n := by
  rw [Bool.eq_iff_iff, isAvailable_iff, isAvailable_iff]
  constructor
  · rintro ⟨txout, hget, hnull, hmint⟩
    exact ⟨txout, of_getElem?_rdropWhile hget, hnull, hmint⟩
  · rintro ⟨txout, hget, hnull, hmint⟩
    exact ⟨txout, getElem?_rdropWhile hget hnull, hnull, hmint⟩

end CCoins

section
variable {m m' : CoinsMap} {o : COutPoint} {tx : CTransaction} {nHeight : Int}

theorem available_set (k : Uint256) (c : CCoins) :
    CoinsAccess.available (m.set k c).get o =
      if o.hash = k then c.isAvailable o.n else CoinsAccess.available m.get o := by
  unfold CoinsAccess.available
  by_cases hk : o.hash = k
  · rw [if_pos hk, hk, CoinsMap.get_set_self, ← c.isAvailable_cleanup]
    cases hlive : c.cleanup.live? with
    | some d =>
      rw [(CCoins.live?_eq_some.mp hlive).2, Option.any_some]
    | none =>
      have hpruned : c.cleanup.isPruned = true := by
        rw [← CCoins.live?_isNone, hlive]
        rfl
      rw [Option.any_none]
      symm
      apply Bool.eq_false_iff.mpr
      intro havail
      obtain ⟨txout, hget, hnull, -⟩ := CCoins.isAvailable_iff.mp havail
      have hall := List.all_eq_true.mp hpruned txout (List.mem_of_getElem? hget)
      rw [hnull] at hall
      contradiction
  · rw [if_neg hk, CoinsMap.get_set_of_ne _ hk]

theorem available_spendInput {txin : CTxIn} {undo : CTxInUndo}
    (h : spendInput m txin = some (undo, m')) : CoinsAccess.available m'.get o =
      if o = txin.prevout then false else CoinsAccess.available m.get o := by
  have hs := spends_of_spendInput h
  rw [hs.view_eq, available_set]
  by_cases hhash : o.hash = txin.prevout.hash
  · rw [if_pos hhash]
    by_cases hn : o.n = txin.prevout.n
    · have heq : o = txin.prevout := by
        cases o
        cases hprevout : txin.prevout
        rw [hprevout] at hhash hn
        dsimp only at hhash hn
        rw [hhash, hn]
      rw [if_pos heq, heq]
      exact CCoins.isAvailable_spentVout _ _
    · have hne : o ≠ txin.prevout := fun heq => hn (congrArg COutPoint.n heq)
      rw [if_neg hne]
      unfold CoinsAccess.available
      rw [hhash, hs.get_eq, Option.any_some]
      generalize m.coinsOf txin.prevout.hash = c
      have hclean : ({ c with vout := c.spentVout txin.prevout.n } : CCoins) =
          ({ c with vout := c.vout.set txin.prevout.n CTxOut.null } : CCoins).cleanup := rfl
      rw [hclean, CCoins.isAvailable_cleanup]
      unfold CCoins.isAvailable
      dsimp only
      rw [List.getElem?_set_ne (Ne.symm hn)]
  · have hne : o ≠ txin.prevout := fun heq => hhash (congrArg COutPoint.hash heq)
    rw [if_neg hhash, if_neg hne]

/-- Spending inputs takes away what is spent, and nothing else. -/
theorem available_spendAll {vin : List CTxIn} {us : List CTxInUndo}
    (h : inputLog.applyAll m vin = some (us, m')) : CoinsAccess.available m'.get o =
      if ∃ txin ∈ vin, txin.prevout = o then false else CoinsAccess.available m.get o := by
  induction vin generalizing m us with
  | nil =>
    obtain ⟨-, rfl⟩ := Prod.mk.inj (Option.some.inj h)
    rw [if_neg]
    rintro ⟨txin, htxin, -⟩
    contradiction
  | cons txin vin ih =>
    obtain ⟨u, s, rest, -, hstep, hrest⟩ := UndoLog.System.applyAll_cons_eq_some h
    rw [ih hrest, available_spendInput hstep]
    exact CTxMemPool.ite_named_cons

theorem spendable_eq (tx : CTransaction) (nHeight : Int) (n : ℕ) :
    (CCoins.fromTx tx nHeight).isAvailable n = tx.spendable n := rfl

/-- What `UpdateCoins` does to an outpoint of another transaction. -/
theorem available_updateCoins_of_ne {txundo : CTxUndo}
    (h : updateCoins nHeight m tx = some (txundo, m')) (hhash : o.hash ≠ tx.hash) :
    CoinsAccess.available m'.get o =
      if o ∈ tx.spentOutPoints then false else CoinsAccess.available m.get o := by
  obtain ⟨inputs, hspend, rfl⟩ := updateCoins_eq_some h
  rw [available_set, if_neg hhash]
  unfold spendInputs at hspend
  unfold CTransaction.spentOutPoints
  by_cases hcoins : tx.spendsCoins = true
  · rw [if_pos hcoins] at hspend ⊢
    rw [available_spendAll hspend]
    simp only [List.mem_map]
  · rw [if_neg hcoins] at hspend ⊢
    obtain ⟨-, rfl⟩ := Prod.mk.inj (Option.some.inj hspend)
    rw [if_neg List.not_mem_nil]

theorem mem_vin_of_mem_spentOutPoints (h : o ∈ tx.spentOutPoints) :
    ∃ txin ∈ tx.vin, txin.prevout = o := by
  unfold CTransaction.spentOutPoints at h
  split_ifs at h
  · exact List.mem_map.mp h
  · exact absurd h List.not_mem_nil

/-- What `UpdateCoins` does to one outpoint. -/
theorem available_updateCoins {txundo : CTxUndo}
    (h : updateCoins nHeight m tx = some (txundo, m')) :
    (o.hash = tx.hash → CoinsAccess.available m'.get o = tx.spendable o.n) ∧
    (o.hash ≠ tx.hash → CoinsAccess.available m'.get o = true →
      CoinsAccess.available m.get o = true) ∧
    (o.hash ≠ tx.hash → (∀ txin ∈ tx.vin, txin.prevout ≠ o) →
      CoinsAccess.available m'.get o = CoinsAccess.available m.get o) := by
  refine ⟨?_, ?_, ?_⟩
  · intro hhash
    obtain ⟨inputs, -, rfl⟩ := updateCoins_eq_some h
    rw [available_set, if_pos hhash, spendable_eq]
  · intro hhash havail
    rw [available_updateCoins_of_ne h hhash] at havail
    split_ifs at havail
    exact havail
  · intro hhash hfree
    rw [available_updateCoins_of_ne h hhash, if_neg]
    intro hspent
    obtain ⟨txin, htxin, heq⟩ := mem_vin_of_mem_spentOutPoints hspent
    exact hfree txin htxin heq

theorem applyAll_of_connectCoins {vtx : List CTransaction} {vtxundo : List CTxUndo}
    (h : connectCoins nHeight m vtx = some (vtxundo, m')) :
    ∃ us, (txLog nHeight).applyAll m vtx = some (us, m') := by
  cases vtx with
  | nil =>
    obtain ⟨-, rfl⟩ := Prod.mk.inj (Option.some.inj h)
    exact ⟨[], rfl⟩
  | cons tx vtx =>
    obtain ⟨⟨u, s⟩, hstep, hrest⟩ := Option.bind_eq_some_iff.mp h
    refine ⟨u :: vtxundo, ?_⟩
    have hfirst : (txLog nHeight).apply m tx = some (u, s) := hstep
    have hothers : (txLog nHeight).applyAll s vtx = some (vtxundo, m') := hrest
    rw [UndoLog.System.applyAll, hfirst, Option.bind_some]
    dsimp only
    rw [hothers, Option.map_some]

/-- What is a coin or becomes one, and is not spent, is a coin after the block. -/
theorem available_connected {vtx : List CTransaction} {us : List CTxUndo}
    (h : (txLog nHeight).applyAll m vtx = some (us, m'))
    (hsource : CoinsAccess.available m.get o = true ∨ ∃ tx ∈ vtx, tx.hash = o.hash)
    (hspendable : ∀ tx ∈ vtx, tx.hash = o.hash → tx.spendable o.n = true)
    (hfree : ∀ tx ∈ vtx, ∀ txin ∈ tx.vin, txin.prevout ≠ o) :
    CoinsAccess.available m'.get o = true := by
  induction vtx generalizing m us with
  | nil =>
    obtain ⟨-, rfl⟩ := Prod.mk.inj (Option.some.inj h)
    rcases hsource with havail | ⟨tx, htx, -⟩
    · exact havail
    · contradiction
  | cons tx vtx ih =>
    obtain ⟨u, s, rest, -, hstep, hrest⟩ := UndoLog.System.applyAll_cons_eq_some h
    obtain ⟨hcreated, -, hkept⟩ := @available_updateCoins m s o tx nHeight u hstep
    apply ih hrest
    · by_cases hhash : o.hash = tx.hash
      · left
        rw [hcreated hhash]
        exact hspendable tx List.mem_cons_self hhash.symm
      · rcases hsource with havail | ⟨other, hother, heq⟩
        · left
          rw [hkept hhash (hfree tx List.mem_cons_self)]
          exact havail
        · rcases List.mem_cons.mp hother with rfl | hmem
          · exact absurd heq.symm hhash
          · exact Or.inr ⟨other, hmem, heq⟩
    · intro other hother
      exact hspendable other (List.mem_cons_of_mem _ hother)
    · intro other hother
      exact hfree other (List.mem_cons_of_mem _ hother)

/-- A coin after the block was one before it, or the block created it. -/
theorem available_before {vtx : List CTransaction} {us : List CTxUndo}
    (h : (txLog nHeight).applyAll m vtx = some (us, m'))
    (havail : CoinsAccess.available m'.get o = true) : CoinsAccess.available m.get o = true ∨
      ∃ tx ∈ vtx, o.hash = tx.hash ∧ tx.spendable o.n = true := by
  induction vtx generalizing m us with
  | nil =>
    obtain ⟨-, rfl⟩ := Prod.mk.inj (Option.some.inj h)
    exact Or.inl havail
  | cons tx vtx ih =>
    obtain ⟨u, s, rest, -, hstep, hrest⟩ := UndoLog.System.applyAll_cons_eq_some h
    obtain ⟨hcreated, hbefore, -⟩ := @available_updateCoins m s o tx nHeight u hstep
    rcases ih hrest with hs | ⟨other, hother, hhash, hspendable⟩
    · by_cases hhash : o.hash = tx.hash
      · right
        rw [hcreated hhash] at hs
        exact ⟨tx, List.mem_cons_self, hhash, hs⟩
      · exact Or.inl (hbefore hhash hs)
    · exact Or.inr ⟨other, List.mem_cons_of_mem _ hother, hhash, hspendable⟩

/-- A connected block keeps what the pool relies on, if no transaction of the block has coins
before it and each hash is of one transaction. -/
theorem blockConnected_of_connectCoins {txOf : Uint256 → CTransaction} {vtx : List CTransaction}
    {vtxundo : List CTxUndo} (h : connectCoins nHeight m vtx = some (vtxundo, m'))
    (hnew : ∀ tx ∈ vtx, m.get tx.hash = none) (hknown : ∀ tx ∈ vtx, txOf tx.hash = tx) :
    BlockConnected m.get vtx m'.get := by
  obtain ⟨us, happly⟩ := applyAll_of_connectCoins h
  constructor
  case kept =>
    intro o havail hfree
    apply available_connected happly (Or.inl havail)
    · intro tx htx hhash
      unfold CoinsAccess.available at havail
      rw [← hhash, hnew tx htx] at havail
      contradiction
    · exact hfree
  case created =>
    intro tx htx n hspendable hfree
    apply available_connected happly (Or.inr ⟨tx, htx, rfl⟩)
    · intro other hother hhash
      have hsame : other = tx := by
        rw [← hknown other hother, hhash, hknown tx htx]
      rw [hsame]
      exact hspendable
    · exact hfree

/-- The coins before a block have all the coins after it but the block's own outputs. -/
theorem blockDisconnected_of_connectCoins {vtx : List CTransaction} {vtxundo : List CTxUndo}
    (h : connectCoins nHeight m vtx = some (vtxundo, m')) :
    BlockDisconnected m'.get vtx m.get := by
  obtain ⟨us, happly⟩ := applyAll_of_connectCoins h
  intro o havail
  exact available_before happly havail

end
end Lytix
