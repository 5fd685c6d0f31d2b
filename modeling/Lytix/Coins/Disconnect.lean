import Lytix.Coins.RestoreInput

/-! When disconnecting a block restores the unspent output set it was connected to. -/
namespace Lytix

/-- The condition on one transaction: its inputs are restorable, and under its own id nothing
unspent is left to be overwritten by its outputs. -/
def TxRestorable (view : CoinsMap) (tx : CTransaction) : Prop :=
  (tx.spendsCoins = true → inputLog.AllGood SpendRestorable view tx.vin) ∧
    ∀ txundo inputs, spendInputs view tx = some (txundo, inputs) → inputs.get tx.hash = none

/-- `CheckTransaction` and `GetValueOut` refuse a negative output. -/
def CTransaction.OutputsValid (tx : CTransaction) : Prop := ∀ o ∈ tx.vout, 0 ≤ o.nValue

namespace CCoins

theorem isNull_eq_false_of_nonneg {o : CTxOut} (h : 0 ≤ o.nValue) : o.isNull = false := by
  unfold CTxOut.isNull
  rw [beq_eq_false_iff_ne]
  omega

theorem fromTx_nullsCanonical {tx : CTransaction} (h : tx.OutputsValid) (nHeight : Int) :
    (fromTx tx nHeight).NullsCanonical := by
  refine cleanup_nullsCanonical fun o ho hnull => ?_
  obtain ⟨o₀, ho₀, rfl⟩ := List.mem_map.mp ho
  by_cases hu : o₀.scriptPubKey.isUnspendable = true
  · rw [if_pos hu]
  · rw [if_neg hu] at hnull
    have hvalue : 0 ≤ o₀.nValue := h o₀ ho₀
    rw [isNull_eq_false_of_nonneg hvalue] at hnull
    exact absurd hnull (by simp)

theorem fromTx_cleaned (tx : CTransaction) (nHeight : Int) : (fromTx tx nHeight).Cleaned :=
  cleaned_cleanup _

theorem fromTx_clearUnspendable (tx : CTransaction) (nHeight : Int) :
    (fromTx tx nHeight).clearUnspendable = fromTx tx nHeight := by
  have hspendable : ∀ o ∈ (fromTx tx nHeight).vout, o.scriptPubKey.isUnspendable = false := by
    intro o ho
    have hmem := (List.rdropWhile_prefix _ _).subset ho
    obtain ⟨o₀, -, rfl⟩ := List.mem_map.mp hmem
    by_cases hu : o₀.scriptPubKey.isUnspendable = true
    · rw [if_pos hu]
      rfl
    · rw [if_neg hu]
      simpa using hu
  have hmap : (fromTx tx nHeight).vout.map (fun txout : CTxOut =>
      if txout.scriptPubKey.isUnspendable then CTxOut.null else txout) =
        (fromTx tx nHeight).vout := by
    have hid : ∀ o ∈ (fromTx tx nHeight).vout,
        (if o.scriptPubKey.isUnspendable then CTxOut.null else o) = id o := by
      intro o ho
      rw [hspendable o ho]
      rfl
    rw [List.map_congr_left hid, List.map_id]
  unfold clearUnspendable
  rw [hmap]
  exact fromTx_cleaned tx nHeight

theorem clear_clearUnspendable : clear.clearUnspendable = clear := by
  simp [clearUnspendable, cleanup, clear]

theorem equal_of_isPruned {a b : CCoins} (ha : a.isPruned = true) (hb : b.isPruned = true) :
    a.equal b = true := by
  simp [equal, ha, hb]

theorem equal_self (c : CCoins) : c.equal c = true := by
  simp [equal]

/-- Against unspent outputs only an entry with the same metadata compares equal. -/
theorem eq_of_equal {a b : CCoins} (hb : b.isPruned = false) (h : a.equal b = true) :
    a = b := by
  simpa [equal, hb] using h

end CCoins

section tx
variable {view view' : CoinsMap} {tx : CTransaction} {txundo : CTxUndo} {nHeight : Int}

theorem updateCoins_eq_some (h : updateCoins nHeight view tx = some (txundo, view')) :
    ∃ inputs, spendInputs view tx = some (txundo, inputs) ∧
      view' = inputs.set tx.hash (CCoins.fromTx tx nHeight) := by
  obtain ⟨⟨txundo₀, inputs⟩, hspend, heq⟩ := Option.map_eq_some_iff.mp h
  obtain ⟨rfl, rfl⟩ := Prod.mk.inj heq
  exact ⟨inputs, hspend, rfl⟩

theorem nullsCanonical_spendInputs {inputs : CoinsMap} (hinv : view.NullsCanonical)
    (h : spendInputs view tx = some (txundo, inputs)) : inputs.NullsCanonical := by
  unfold spendInputs at h
  split_ifs at h
  · exact inputLog_lawful.inv_applyAll hinv (fun _ _ => trivial) h
  · obtain ⟨-, rfl⟩ := Prod.mk.inj (Option.some.inj h)
    exact hinv

/-- The second half of `disconnectTx`. -/
def restoreInputs (tx : CTransaction) (txundo : CTxUndo) (view : CoinsMap) : Bool × CoinsMap :=
  if tx.spendsCoins then inputLog.undoAll (tx.vin.zip txundo) view else (true, view)

theorem disconnectTx_eq (nHeight : Int) (tx : CTransaction) (txundo : CTxUndo) (w : CoinsMap) :
    disconnectTx nHeight tx txundo w =
      ((restoreInputs tx txundo (w.set tx.hash CCoins.clear)).1 &&
        (disconnectOutputs nHeight tx w).1,
        (restoreInputs tx txundo (w.set tx.hash CCoins.clear)).2) := by
  unfold disconnectTx restoreInputs disconnectOutputs
  split_ifs with hs
  · rfl
  · simp only [Bool.true_and]
    rfl

theorem restoreInputs_good {inputs : CoinsMap} (hinv : view.NullsCanonical)
    (h : spendInputs view tx = some (txundo, inputs))
    (hgood : tx.spendsCoins = true → inputLog.AllGood SpendRestorable view tx.vin) :
    restoreInputs tx txundo inputs = (true, view) := by
  unfold spendInputs at h
  unfold restoreInputs
  split_ifs at h ⊢ with hs
  · exact inputLog_lawful.undoAll_good hinv (fun _ _ => trivial) h (hgood hs)
  · obtain ⟨-, rfl⟩ := Prod.mk.inj (Option.some.inj h)
    rfl

theorem restoreInputs_bad {inputs : CoinsMap} (hinv : view.NullsCanonical)
    (h : spendInputs view tx = some (txundo, inputs))
    (hbad : ¬(tx.spendsCoins = true → inputLog.AllGood SpendRestorable view tx.vin)) :
    (restoreInputs tx txundo inputs).1 = false ∨
      Damaged (restoreInputs tx txundo inputs).2 view := by
  obtain ⟨hs, hbad⟩ := Classical.not_imp.mp hbad
  unfold spendInputs at h
  unfold restoreInputs
  rw [if_pos hs] at h ⊢
  exact inputLog_lawful.undoAll_bad hinv (fun _ _ => trivial) h hbad

theorem restoreInputs_damaged {inputs w : CoinsMap} (hinv : view.NullsCanonical)
    (h : spendInputs view tx = some (txundo, inputs)) (hw : Damaged w inputs) :
    (restoreInputs tx txundo w).1 = false ∨ Damaged (restoreInputs tx txundo w).2 view := by
  unfold spendInputs at h
  unfold restoreInputs
  split_ifs at h ⊢ with hs
  · exact inputLog_lawful.undoAll_damaged hinv (fun _ _ => trivial) h hw
  · obtain ⟨-, rfl⟩ := Prod.mk.inj (Option.some.inj h)
    exact Or.inr hw

/-- The outputs of a transaction are found again just as it created them. -/
theorem disconnectOutputs_clean (inputs : CoinsMap) :
    (disconnectOutputs nHeight tx (inputs.set tx.hash (CCoins.fromTx tx nHeight))).1 = true := by
  have hclean := CCoins.fromTx_cleaned tx nHeight
  simp only [disconnectOutputs, CoinsMap.coinsOf, CoinsMap.get_set_self]
  rw [show (CCoins.fromTx tx nHeight).cleanup = CCoins.fromTx tx nHeight from hclean]
  cases hlive : (CCoins.fromTx tx nHeight).live? with
  | some c =>
    obtain ⟨-, rfl⟩ := CCoins.live?_eq_some.mp hlive
    rw [Option.getD_some, CCoins.fromTx_clearUnspendable]
    split_ifs <;> exact CCoins.equal_self _
  | none =>
    have hpruned : (CCoins.fromTx tx nHeight).isPruned = true := by
      rw [← CCoins.live?_isNone, hlive]
      rfl
    rw [Option.getD_none, CCoins.clear_clearUnspendable]
    refine CCoins.equal_of_isPruned ?_ hpruned
    split_ifs <;> rfl

/-- A damaged entry of the transaction itself is noticed. -/
theorem disconnectOutputs_damaged {w : CoinsMap} {c : CCoins}
    (hc : (CCoins.fromTx tx nHeight).cleanup.live? = some c)
    (hdiff : ∀ c', w.get tx.hash = some c' → c'.fCoinStake ≠ c.fCoinStake) :
    (disconnectOutputs nHeight tx w).1 = false := by
  rw [show (CCoins.fromTx tx nHeight).cleanup = CCoins.fromTx tx nHeight from
    CCoins.fromTx_cleaned tx nHeight] at hc
  obtain ⟨hlive, rfl⟩ := CCoins.live?_eq_some.mp hc
  by_contra hclean
  have hequal := CCoins.eq_of_equal hlive (by simpa [disconnectOutputs] using hclean)
  cases hw : w.get tx.hash with
  | none =>
    have hpruned := congrArg CCoins.isPruned hequal
    rw [hlive, CoinsMap.coinsOf, hw, Option.getD_none, CCoins.clear_clearUnspendable] at hpruned
    split_ifs at hpruned <;> exact absurd hpruned (by simp [CCoins.isPruned, CCoins.clear])
  | some c' =>
    have hstake := congrArg CCoins.fCoinStake hequal
    rw [CoinsMap.coinsOf_of_get hw] at hstake
    refine hdiff c' hw ?_
    rw [← hstake]
    split_ifs <;> rfl

end tx

/-- Transactions can be undone one by one, exactly when each is restorable. -/
theorem txLog_lawful (nHeight : Int) : (txLog nHeight).Lawful CoinsMap.NullsCanonical
    CTransaction.OutputsValid TxRestorable Damaged where
  irrefl := not_damaged_self
  inv_apply := by
    intro view tx txundo view' hinv hvalid happly
    obtain ⟨inputs, hspend, rfl⟩ := updateCoins_eq_some happly
    exact (nullsCanonical_spendInputs hinv hspend).set _ (CCoins.fromTx_nullsCanonical hvalid _)
  undo_good := by
    intro view tx txundo view' hinv _ happly hgood
    obtain ⟨inputs, hspend, rfl⟩ := updateCoins_eq_some happly
    have hback : (inputs.set tx.hash (CCoins.fromTx tx nHeight)).set tx.hash CCoins.clear =
        inputs := by
      apply CoinsMap.set_set_of_live
      rw [hgood.2 txundo inputs hspend]
      rfl
    show disconnectTx nHeight tx txundo _ = _
    rw [disconnectTx_eq, hback, restoreInputs_good hinv hspend hgood.1, disconnectOutputs_clean]
    rfl
  undo_bad := by
    intro view tx txundo view' hinv _ happly hbad
    obtain ⟨inputs, hspend, rfl⟩ := updateCoins_eq_some happly
    show (disconnectTx nHeight tx txundo _).1 = false ∨ Damaged (disconnectTx nHeight tx txundo _).2 _
    rw [disconnectTx_eq, CoinsMap.set_set, disconnectOutputs_clean, Bool.and_true]
    cases hget : inputs.get tx.hash with
    | some c =>
      -- the entry overwritten by the outputs is gone once they are removed
      refine restoreInputs_damaged hinv hspend ⟨tx.hash, c, hget, fun c' hc' => ?_⟩
      rw [CoinsMap.get_set_self] at hc'
      exact absurd hc' (by simp [CCoins.cleanup, CCoins.clear, CCoins.live?, CCoins.isPruned])
    | none =>
      have hback : inputs.set tx.hash CCoins.clear = inputs := by
        rw [← CoinsMap.set_set inputs tx.hash CCoins.clear, CoinsMap.set_set_of_live]
        rw [hget]
        rfl
      rw [hback]
      refine restoreInputs_bad hinv hspend fun hgood => hbad ⟨hgood, fun txundo₁ inputs₁ h₁ => ?_⟩
      obtain ⟨rfl, rfl⟩ := Prod.mk.inj (Option.some.inj (hspend.symm.trans h₁))
      exact hget
  undo_damaged := by
    intro view tx txundo view' w hinv _ happly hdamaged
    obtain ⟨inputs, hspend, rfl⟩ := updateCoins_eq_some happly
    obtain ⟨k, c, hc, hdiff⟩ := hdamaged
    show (disconnectTx nHeight tx txundo _).1 = false ∨ Damaged (disconnectTx nHeight tx txundo _).2 _
    rw [disconnectTx_eq]
    by_cases hk : k = tx.hash
    · subst hk
      rw [CoinsMap.get_set_self] at hc
      left
      rw [disconnectOutputs_damaged hc hdiff, Bool.and_false]
    · rw [CoinsMap.get_set_of_ne _ hk] at hc
      have hstill : Damaged (w.set tx.hash CCoins.clear) inputs := by
        refine ⟨k, c, hc, fun c' hc' => hdiff c' ?_⟩
        rwa [CoinsMap.get_set_of_ne _ hk] at hc'
      rcases restoreInputs_damaged hinv hspend hstill with hdirty | hdamaged
      · exact Or.inl (by rw [hdirty, Bool.false_and])
      · exact Or.inr hdamaged

theorem txundo_length {nHeight : Int} {view view' : CoinsMap} {tx : CTransaction}
    {txundo : CTxUndo} (h : updateCoins nHeight view tx = some (txundo, view'))
    (hs : tx.spendsCoins = true) : txundo.length = tx.vin.length := by
  obtain ⟨inputs, hspend, -⟩ := updateCoins_eq_some h
  unfold spendInputs at hspend
  rw [if_pos hs] at hspend
  exact UndoLog.System.applyAll_length hspend

/-- On the records of the block itself the loop of `DisconnectBlock` meets no error. -/
theorem disconnectLoop_eq_undoAll {nHeight : Int} {view t : CoinsMap} {vtx : List CTransaction}
    {vtxundo : List CTxUndo} (h : (txLog nHeight).applyAll view vtx = some (vtxundo, t))
    (w : CoinsMap) : disconnectLoop nHeight w (vtx.zip (vtxundo.map some)) =
      some ((txLog nHeight).undoAll (vtx.zip vtxundo) w) := by
  induction vtx generalizing view vtxundo with
  | nil => rfl
  | cons tx vtx ih =>
    obtain ⟨txundo, view₁, rest, rfl, hstep, hrun⟩ := UndoLog.System.applyAll_cons_eq_some h
    have hrecorded : (tx.spendsCoins && !(txundo.length == tx.vin.length)) = false := by
      cases hs : tx.spendsCoins with
      | false => rfl
      | true => simp [txundo_length hstep hs]
    simp only [List.map_cons, List.zip_cons_cons, disconnectLoop, ih hrun, Option.bind_some,
      Option.any_some, hrecorded, Bool.false_eq_true, if_false, Option.getD_some]
    rfl

theorem disconnectCoins_eq_undoAll {nHeight : Int} {view view' : CoinsMap} {tx : CTransaction}
    {vtx : List CTransaction} {vtxundo : List CTxUndo} (hbase : tx.isCoinBase = true)
    (h : connectCoins nHeight view (tx :: vtx) = some (vtxundo, view')) :
    (txLog nHeight).applyAll view (tx :: vtx) = some ([] :: vtxundo, view') ∧
      disconnectCoins nHeight view' (tx :: vtx) vtxundo =
        some ((txLog nHeight).undoAll ((tx :: vtx).zip ([] :: vtxundo)) view') := by
  have hs : tx.spendsCoins = false := by
    simp [CTransaction.spendsCoins, hbase]
  obtain ⟨⟨undoDummy, view₁⟩, hfirst, hrest⟩ := Option.bind_eq_some_iff.mp h
  have hdummy : undoDummy = [] := by
    obtain ⟨inputs, hspend, -⟩ := updateCoins_eq_some hfirst
    rw [spendInputs, hs] at hspend
    exact (Prod.mk.inj (Option.some.inj hspend)).1.symm
  subst hdummy
  have happly : (txLog nHeight).apply view tx = some ([], view₁) := hfirst
  constructor
  · simp only [UndoLog.System.applyAll, happly, Option.bind_some, hrest, Option.map_some]
  · have hlength : vtxundo.length + 1 = (tx :: vtx).length := by
      rw [List.length_cons, UndoLog.System.applyAll_length hrest]
    unfold disconnectCoins
    rw [if_neg (not_not.mpr hlength)]
    simp only [List.zip_cons_cons, disconnectLoop, disconnectLoop_eq_undoAll hrest,
      Option.bind_some, hs, Bool.false_and, Bool.false_eq_true, if_false, Option.getD_none]
    rfl

/-- Disconnecting a block gives back the view it was connected to, and reports it clean, exactly
when every transaction was restorable in the view it was connected in. -/
theorem disconnectCoins_restores_iff {nHeight : Int} {view view' : CoinsMap} {tx : CTransaction}
    {vtx : List CTransaction} {vtxundo : List CTxUndo} (hview : view.NullsCanonical)
    (hvalid : ∀ t ∈ tx :: vtx, t.OutputsValid) (hbase : tx.isCoinBase = true)
    (h : connectCoins nHeight view (tx :: vtx) = some (vtxundo, view')) :
    disconnectCoins nHeight view' (tx :: vtx) vtxundo = some (true, view) ↔
      (txLog nHeight).AllGood TxRestorable view (tx :: vtx) := by
  obtain ⟨hrun, hloop⟩ := disconnectCoins_eq_undoAll hbase h
  rw [hloop, Option.some_inj]
  exact (txLog_lawful nHeight).undoAll_iff hview hvalid hrun

def coinbaseAtNine : CTransaction := ⟨9, 1, [⟨COutPoint.null, [], 0⟩], [⟨50, [], -10⟩], 0⟩

def spendOfOne : CTransaction := ⟨10, 1, [⟨⟨1, 0⟩, [], 0⟩], [⟨40, [], -10⟩], 0⟩

/-- One unspent output under id 1, of a coinstake or of a plain transaction. -/
def viewOfOne (fCoinStake : Bool) : CoinsMap :=
  CoinsMap.empty.set 1 ⟨false, fCoinStake, [⟨40, [], -10⟩], 3, 1⟩

theorem disconnectCoins_restores_iff_plain : ∃ vtxundo view',
    connectCoins 5 (viewOfOne false) [coinbaseAtNine, spendOfOne] = some (vtxundo, view') ∧
      (disconnectCoins 5 view' [coinbaseAtNine, spendOfOne] vtxundo = some (true, viewOfOne false) ↔
        (txLog 5).AllGood TxRestorable (viewOfOne false) [coinbaseAtNine, spendOfOne]) := by
  have hconnects : (connectCoins 5 (viewOfOne false) [coinbaseAtNine, spendOfOne]).isSome = true := by
    decide
  obtain ⟨⟨vtxundo, view'⟩, h⟩ := Option.isSome_iff_exists.mp hconnects
  have hview : (viewOfOne false).NullsCanonical := by
    refine CoinsMap.NullsCanonical.set (fun txid c hc => absurd hc (by simp [CoinsMap.empty])) 1 ?_
    intro o ho hnull
    simp only [List.mem_singleton] at ho
    subst ho
    exact absurd hnull (by decide)
  refine ⟨vtxundo, view', h, disconnectCoins_restores_iff hview ?_ (by decide) h⟩
  intro t ht o ho
  simp only [List.mem_cons, List.not_mem_nil, or_false] at ht
  rcases ht with rfl | rfl
  all_goals
    simp only [coinbaseAtNine, spendOfOne, List.mem_singleton] at ho
    subst ho
    decide

/-- The coinstake flag of a fully spent coinstake is lost, and nothing reports it. -/
theorem disconnectCoins_loses_fCoinStake : ∃ vtxundo view' view'',
    connectCoins 5 (viewOfOne true) [coinbaseAtNine, spendOfOne] = some (vtxundo, view') ∧
      disconnectCoins 5 view' [coinbaseAtNine, spendOfOne] vtxundo = some (true, view'') ∧
      (view''.get 1).map CCoins.fCoinStake = some false ∧
      ((viewOfOne true).get 1).map CCoins.fCoinStake = some true := by
  have hrun : ((connectCoins 5 (viewOfOne true) [coinbaseAtNine, spendOfOne]).bind fun connected =>
      (disconnectCoins 5 connected.2 [coinbaseAtNine, spendOfOne] connected.1).map fun restored =>
        (restored.1, (restored.2.get 1).map CCoins.fCoinStake)) = some (true, some false) := by
    decide
  obtain ⟨⟨vtxundo, view'⟩, hconnect, hrest⟩ := Option.bind_eq_some_iff.mp hrun
  obtain ⟨⟨fClean, view''⟩, hdisconnect, hseen⟩ := Option.map_eq_some_iff.mp hrest
  obtain ⟨rfl, hstake⟩ := Prod.mk.inj hseen
  exact ⟨vtxundo, view', view'', hconnect, hdisconnect, hstake, by decide⟩

end Lytix
