import Lytix.Coins.Disconnect

/-! No outpoint is spent twice by transactions that update the coins one after the other, as long
as none of them brings back coins under a hash that was used before. -/
namespace Lytix

/-- The outpoints that a transaction spends. -/
def CTransaction.spentOutPoints (tx : CTransaction) : List COutPoint :=
  if tx.spendsCoins then tx.vin.map CTxIn.prevout else []

/-- The outpoints that transactions spend, in their order. -/
def spentOutPoints (vtx : List CTransaction) : List COutPoint :=
  vtx.flatMap CTransaction.spentOutPoints

/-- The output is there, and it was not spent. -/
def CoinsMap.Unspent (m : CoinsMap) (o : COutPoint) : Prop :=
  ∃ txout, (m.coinsOf o.hash).vout[o.n]? = some txout ∧ txout.isNull = false

section
variable {m m' inputs : CoinsMap} {o : COutPoint} {tx : CTransaction} {nHeight : Int}
  {txundo : CTxUndo}

theorem CoinsMap.Unspent.haveCoins (h : m.Unspent o) : m.haveCoins o.hash = true := by
  obtain ⟨txout, hget, -⟩ := h
  rw [CoinsMap.haveCoins, CoinsMap.get_of_unspent hget]
  rfl

theorem coinsOf_set_vout (k : Uint256) (c : CCoins) {n : ℕ} {txout : CTxOut}
    (h : ((m.set k c).coinsOf k).vout[n]? = some txout) : c.vout[n]? = some txout := by
  rw [CoinsMap.coinsOf, CoinsMap.get_set_self] at h
  cases hlive : c.cleanup.live? with
  | none =>
    rw [hlive] at h
    exact absurd h (by simp [CCoins.clear])
  | some d =>
    rw [hlive, Option.getD_some, ← (CCoins.live?_eq_some.mp hlive).2] at h
    exact of_getElem?_rdropWhile h

/-- An input that is spent was unspent; afterwards only other outputs are. -/
theorem unspent_spendInput {txin : CTxIn} {undo : CTxInUndo}
    (h : spendInput m txin = some (undo, m')) :
    m.Unspent txin.prevout ∧ ∀ o, m'.Unspent o → m.Unspent o ∧ o ≠ txin.prevout := by
  have hs := spends_of_spendInput h
  refine ⟨⟨undo.txout, hs.unspent, hs.notNull⟩, ?_⟩
  rintro ⟨hash, n⟩ ⟨txout, hget, hnull⟩
  rw [hs.view_eq] at hget
  by_cases hhash : hash = txin.prevout.hash
  · subst hhash
    have hspent := of_getElem?_rdropWhile (coinsOf_set_vout _ _ hget)
    by_cases hn : n = txin.prevout.n
    · rw [hn] at hspent
      obtain ⟨hlt, hnullOut⟩ := List.getElem?_eq_some_iff.mp hspent
      rw [List.getElem_set_self] at hnullOut
      rw [← hnullOut, CTxOut.isNull_null] at hnull
      contradiction
    · rw [List.getElem?_set_ne (Ne.symm hn)] at hspent
      exact ⟨⟨txout, hspent, hnull⟩, fun heq => hn (congrArg COutPoint.n heq)⟩
  · have hother : (m.set txin.prevout.hash { m.coinsOf txin.prevout.hash with
        vout := (m.coinsOf txin.prevout.hash).spentVout txin.prevout.n }).coinsOf hash =
        m.coinsOf hash := by
      rw [CoinsMap.coinsOf, CoinsMap.get_set_of_ne _ hhash, CoinsMap.coinsOf]
    rw [hother] at hget
    exact ⟨⟨txout, hget, hnull⟩, fun heq => hhash (congrArg COutPoint.hash heq)⟩

theorem haveCoins_set {k k' : Uint256} {c : CCoins} (h : (m.set k c).haveCoins k' = true)
    (hne : k' ≠ k) : m.haveCoins k' = true := by
  rw [CoinsMap.haveCoins, CoinsMap.get_set_of_ne _ hne] at h
  exact h

theorem haveCoins_spendInput {txin : CTxIn} {undo : CTxInUndo} {k : Uint256}
    (h : spendInput m txin = some (undo, m')) (hk : m'.haveCoins k = true) :
    m.haveCoins k = true := by
  have hs := spends_of_spendInput h
  rw [hs.view_eq] at hk
  by_cases hhash : k = txin.prevout.hash
  · rw [hhash, CoinsMap.haveCoins, hs.get_eq]
    rfl
  · exact haveCoins_set hk hhash

theorem unspent_spendAll {vin : List CTxIn} {us : List CTxInUndo}
    (h : inputLog.applyAll m vin = some (us, m')) :
    (vin.map CTxIn.prevout).Nodup ∧ (∀ o ∈ vin.map CTxIn.prevout, m.Unspent o) ∧
      (∀ o, m'.Unspent o → m.Unspent o ∧ o ∉ vin.map CTxIn.prevout) ∧
      ∀ k, m'.haveCoins k = true → m.haveCoins k = true := by
  induction vin generalizing m us with
  | nil =>
    obtain ⟨-, rfl⟩ := Prod.mk.inj (Option.some.inj h)
    simp
  | cons txin vin ih =>
    obtain ⟨u, s, rest, -, hstep, hrest⟩ := UndoLog.System.applyAll_cons_eq_some h
    obtain ⟨hnodup, hwere, hare, hcoins⟩ := ih hrest
    obtain ⟨hwas, hkeeps⟩ := unspent_spendInput hstep
    refine ⟨?_, ?_, ?_, ?_⟩
    · rw [List.map_cons, List.nodup_cons]
      exact ⟨fun hmem => (hkeeps _ (hwere _ hmem)).2 rfl, hnodup⟩
    · intro o ho
      rcases List.mem_cons.mp ho with rfl | hmem
      · exact hwas
      · exact (hkeeps o (hwere o hmem)).1
    · intro o ho
      obtain ⟨hmid, hnot⟩ := hare o ho
      obtain ⟨hbefore, hne⟩ := hkeeps o hmid
      rw [List.map_cons, List.mem_cons, not_or]
      exact ⟨hbefore, hne, hnot⟩
    · intro k hk
      exact haveCoins_spendInput hstep (hcoins k hk)

/-- What `UpdateCoins` does to the outputs of other transactions. -/
theorem unspent_updateCoins (h : updateCoins nHeight m tx = some (txundo, m')) :
    tx.spentOutPoints.Nodup ∧ (∀ o ∈ tx.spentOutPoints, m.Unspent o) ∧
      (∀ o, o.hash ≠ tx.hash → m'.Unspent o → m.Unspent o ∧ o ∉ tx.spentOutPoints) ∧
      ∀ k, k ≠ tx.hash → m'.haveCoins k = true → m.haveCoins k = true := by
  obtain ⟨inputs, hspend, rfl⟩ := updateCoins_eq_some h
  have hset : ∀ o : COutPoint, o.hash ≠ tx.hash →
      (inputs.set tx.hash (CCoins.fromTx tx nHeight)).Unspent o → inputs.Unspent o := by
    rintro o hne ⟨txout, hget, hnull⟩
    rw [CoinsMap.coinsOf, CoinsMap.get_set_of_ne _ hne] at hget
    exact ⟨txout, hget, hnull⟩
  unfold spendInputs at hspend
  unfold CTransaction.spentOutPoints
  by_cases hcoins : tx.spendsCoins = true
  · rw [if_pos hcoins] at hspend ⊢
    obtain ⟨hnodup, hwere, hare, hkeeps⟩ := unspent_spendAll hspend
    exact ⟨hnodup, hwere, fun o hne ho => hare o (hset o hne ho),
      fun k hne hk => hkeeps k (haveCoins_set hk hne)⟩
  · rw [if_neg hcoins] at hspend ⊢
    obtain ⟨-, rfl⟩ := Prod.mk.inj (Option.some.inj hspend)
    exact ⟨List.nodup_nil, by simp, fun o hne ho => ⟨hset o hne ho, by simp⟩,
      fun k hne hk => haveCoins_set hk hne⟩

theorem coinsAfter_cons {vtx : List CTransaction} (h : coinsAfter nHeight m (tx :: vtx) = some m') :
    ∃ txundo mid, updateCoins nHeight m tx = some (txundo, mid) ∧
      coinsAfter nHeight mid vtx = some m' := by
  unfold coinsAfter at h
  rw [List.foldlM_cons, Option.bind_eq_bind, Option.bind_eq_some_iff] at h
  obtain ⟨mid, hstep, hrest⟩ := h
  obtain ⟨⟨txundo, mid'⟩, hupdate, rfl⟩ := Option.map_eq_some_iff.mp hstep
  exact ⟨txundo, mid', hupdate, hrest⟩

/-- What is spent and not created again is not spent later. -/
theorem notMem_spentOutPoints {vtx : List CTransaction} (h : coinsAfter nHeight m vtx = some m')
    (hgone : ¬m.Unspent o) (hhash : o.hash ∉ vtx.map CTransaction.hash) :
    o ∉ spentOutPoints vtx := by
  induction vtx generalizing m with
  | nil => simp [spentOutPoints]
  | cons tx vtx ih =>
    obtain ⟨txundo, mid, hupdate, hrest⟩ := coinsAfter_cons h
    obtain ⟨-, hwere, hare, -⟩ := unspent_updateCoins hupdate
    rw [List.map_cons, List.mem_cons, not_or] at hhash
    rw [spentOutPoints, List.flatMap_cons, List.mem_append, not_or]
    constructor
    · exact fun hmem => hgone (hwere o hmem)
    · exact ih hrest (fun hmid => hgone (hare o hhash.1 hmid).1) hhash.2

/-- Transactions of different hashes, none of which has coins at first, spend no outpoint
twice. -/
theorem nodup_spentOutPoints {vtx : List CTransaction} (h : coinsAfter nHeight m vtx = some m')
    (hfresh : ∀ tx ∈ vtx, m.haveCoins tx.hash = false)
    (hdistinct : (vtx.map CTransaction.hash).Nodup) : (spentOutPoints vtx).Nodup := by
  induction vtx generalizing m with
  | nil => simp [spentOutPoints]
  | cons tx vtx ih =>
    obtain ⟨txundo, mid, hupdate, hrest⟩ := coinsAfter_cons h
    obtain ⟨hnodup, hwere, hare, hcoins⟩ := unspent_updateCoins hupdate
    rw [List.map_cons, List.nodup_cons] at hdistinct
    have hmid : ∀ later ∈ vtx, mid.haveCoins later.hash = false := by
      intro later hlater
      have hne : later.hash ≠ tx.hash := fun heq =>
        hdistinct.1 (heq ▸ List.mem_map_of_mem hlater)
      by_contra hhave
      rw [Bool.not_eq_false] at hhave
      have hstart := hfresh later (List.mem_cons_of_mem _ hlater)
      rw [hcoins _ hne hhave] at hstart
      contradiction
    rw [spentOutPoints, List.flatMap_cons, List.nodup_append]
    refine ⟨hnodup, ih hrest hmid hdistinct.2, ?_⟩
    rintro o ho _ ho' rfl
    have hhave := (hwere o ho).haveCoins
    have hother : ∀ t ∈ tx :: vtx, o.hash ≠ t.hash := by
      intro t ht heq
      rw [heq, hfresh t ht] at hhave
      contradiction
    have hgone : ¬mid.Unspent o := fun hmid =>
      (hare o (hother tx List.mem_cons_self) hmid).2 ho
    refine notMem_spentOutPoints hrest hgone ?_ ho'
    intro hmem
    obtain ⟨t, ht, heq⟩ := List.mem_map.mp hmem
    exact hother t (List.mem_cons_of_mem _ ht) heq.symm

end
end Lytix
