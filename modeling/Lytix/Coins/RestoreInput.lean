import Lytix.Coins.Coins

/-! When the restore loop undoes the spending of an input. It is the exact inverse unless the
record loses metadata: `fCoinStake` is recorded but never restored, and height zero stands for
"no metadata". -/
namespace Lytix

/-- Spent outputs are exactly `SetNull`, as every code path that nulls one leaves them. -/
def CCoins.NullsCanonical (c : CCoins) : Prop := ∀ o ∈ c.vout, o.isNull = true → o = CTxOut.null

def CoinsMap.NullsCanonical (m : CoinsMap) : Prop :=
  ∀ txid c, m.get txid = some c → c.NullsCanonical

namespace CCoins

/-- No other output than number `n` is unspent. -/
def OnlyUnspent (c : CCoins) (n : Nat) : Prop :=
  ∀ i o, c.vout[i]? = some o → i ≠ n → o.isNull = true

theorem cleanup_nullsCanonical {c : CCoins} (h : c.NullsCanonical) :
    c.cleanup.NullsCanonical :=
  fun o ho => h o ((List.rdropWhile_prefix _ _).subset ho)

/-- What `Spend` leaves in `vout`. -/
def spentVout (c : CCoins) (n : Nat) : List CTxOut :=
  (c.vout.set n CTxOut.null).rdropWhile CTxOut.isNull

theorem spend_eq_some {c c' : CCoins} {out : COutPoint} {undo : CTxInUndo}
    (h : c.spend out = some (undo, c')) :
    ∃ o, c.vout[out.n]? = some o ∧ o.isNull = false ∧
      c' = { c with vout := c.spentVout out.n } ∧
      undo = if (c.spentVout out.n).isEmpty
        then ⟨o, c.fCoinBase, c.fCoinStake, c.nHeight, c.nVersion⟩ else { txout := o } := by
  unfold spend at h
  split at h
  · exact absurd h (by simp)
  · rename_i o ho
    split_ifs at h with hnull
    dsimp only at h
    split_ifs at h with hlast
    all_goals
      obtain ⟨rfl, rfl⟩ := Prod.mk.inj (Option.some.inj h)
      refine ⟨o, ho, by simpa using hnull, rfl, ?_⟩
    · exact (if_pos hlast).symm
    · exact (if_neg hlast).symm

theorem spentVout_eq_nil_iff (c : CCoins) (n : Nat) : c.spentVout n = [] ↔ c.OnlyUnspent n := by
  rw [spentVout, List.rdropWhile_eq_nil_iff]
  constructor
  · intro h i o hi hne
    refine h o (List.mem_of_getElem? (i := i) ?_)
    rwa [List.getElem?_set_ne (Ne.symm hne)]
  · intro h o ho
    obtain ⟨i, hi⟩ := List.getElem?_of_mem ho
    by_cases hin : i = n
    · subst hin
      have hlt : i < c.vout.length := by
        have := (List.getElem?_eq_some_iff.mp hi).1
        simpa using this
      rw [List.getElem?_set_self hlt] at hi
      rw [← Option.some.inj hi]
      rfl
    · rw [List.getElem?_set_ne (Ne.symm hin)] at hi
      exact h i o hi hin

/-- The nulls dropped from the end come back when the output is written again. -/
theorem restore_spentVout {c : CCoins} {n : Nat} {o : CTxOut} (hclean : c.Cleaned)
    (hnulls : c.NullsCanonical) (ho : c.vout[n]? = some o) :
    (c.spentVout n ++ List.replicate (n + 1 - (c.spentVout n).length) CTxOut.null).set n o =
      c.vout := by
  have hlt : n < c.vout.length := (List.getElem?_eq_some_iff.mp ho).1
  have hsplit : c.spentVout n ++ (c.vout.set n CTxOut.null).rtakeWhile CTxOut.isNull =
      c.vout.set n CTxOut.null := List.rdropWhile_append_rtakeWhile ..
  generalize hdropped : (c.vout.set n CTxOut.null).rtakeWhile CTxOut.isNull = dropped at hsplit
  have hdropped_null : dropped = List.replicate dropped.length CTxOut.null := by
    refine List.eq_replicate_iff.mpr ⟨rfl, fun x hx => ?_⟩
    have hnull : x.isNull = true := List.mem_rtakeWhile_imp (hdropped ▸ hx)
    have hmem : x ∈ c.vout.set n CTxOut.null := hsplit ▸ List.mem_append_right _ hx
    rcases List.mem_or_eq_of_mem_set hmem with hmem | rfl
    · exact hnulls x hmem hnull
    · rfl
  have hlen : (c.spentVout n).length + dropped.length = c.vout.length := by
    rw [← List.length_append, hsplit, List.length_set]
  -- nothing past position `n` was dropped beyond what the resize puts back
  have hkept : dropped.length ≤ n + 1 - (c.spentVout n).length := by
    by_contra hlong
    have hlast : ∀ hl : c.vout ≠ [], ¬ (c.vout.getLast hl).isNull = true :=
      List.rdropWhile_eq_self_iff.mp hclean.vout_eq
    have hne : c.vout ≠ [] := List.ne_nil_of_length_pos (by omega)
    refine hlast hne ?_
    have hget : (c.vout.set n CTxOut.null)[c.vout.length - 1]? = some CTxOut.null := by
      rw [← hsplit, List.getElem?_append_right (by omega), hdropped_null,
        List.getElem?_replicate_of_lt (by omega)]
    rw [List.getElem?_set_ne (by omega)] at hget
    rw [List.getLast_eq_getElem]
    have hlast_eq := (List.getElem?_eq_some_iff.mp hget).2
    rw [hlast_eq]
    rfl
  have hsame : List.replicate (n + 1 - (c.spentVout n).length) CTxOut.null = dropped := by
    rw [hdropped_null]
    congr 1
    omega
  rw [hsame, hsplit, List.set_set]
  apply List.ext_getElem?
  intro i
  by_cases hin : i = n
  · subst hin
    rw [List.getElem?_set_self hlt, ho]
  · rw [List.getElem?_set_ne (Ne.symm hin)]

theorem isAvailable_spentVout (c : CCoins) (n : Nat) :
    ({ c with vout := c.spentVout n } : CCoins).isAvailable n = false := by
  unfold isAvailable
  cases hget : (c.spentVout n)[n]? with
  | none => rfl
  | some o =>
    obtain ⟨dropped, hsplit⟩ : c.spentVout n <+: c.vout.set n CTxOut.null :=
      List.rdropWhile_prefix ..
    have hlt : n < (c.spentVout n).length := (List.getElem?_eq_some_iff.mp hget).1
    have hlen := congrArg List.length hsplit
    rw [List.length_append, List.length_set] at hlen
    have ho : o = CTxOut.null := by
      have hfull : (c.spentVout n ++ dropped)[n]? = some o := by
        rw [List.getElem?_append_left hlt, hget]
      rw [hsplit, List.getElem?_set_self (by omega)] at hfull
      exact (Option.some.inj hfull).symm
    simp [ho]

theorem restore_vout (c : CCoins) (out : COutPoint) (undo : CTxInUndo) (coins : CCoins)
    (hvout : coins.vout = c.spentVout out.n) (hpruned : undo.nHeight ≠ 0 → coins.vout = [])
    (hclean : c.Cleaned) (hnulls : c.NullsCanonical) (ho : c.vout[out.n]? = some undo.txout) :
    (coins.restore out undo).2.vout = c.vout ∧
      (coins.restore out undo).1 =
        if undo.nHeight ≠ 0 then coins.isPruned else !coins.isPruned := by
  have hback := restore_spentVout hclean hnulls ho
  have havail := isAvailable_spentVout c out.n
  rw [← hvout] at hback havail
  unfold restore
  by_cases hh : undo.nHeight ≠ 0
  · rw [hpruned hh] at hback
    simp only [if_pos hh, clear]
    exact ⟨hback, by simp [isAvailable]⟩
  · simp only [if_neg hh]
    refine ⟨hback, ?_⟩
    have hsame : coins.isAvailable out.n = false := havail
    rw [hsame, Bool.not_false, Bool.and_true]

end CCoins

/-- The condition on one input: a record that takes the last unspent output of a transaction
carries metadata, which must not be a coinstake's nor at height zero. -/
def SpendRestorable (view : CoinsMap) (txin : CTxIn) : Prop :=
  (view.coinsOf txin.prevout.hash).OnlyUnspent txin.prevout.n →
    (view.coinsOf txin.prevout.hash).fCoinStake = false ∧
      (view.coinsOf txin.prevout.hash).nHeight ≠ 0

/-- An entry that should be there is missing or has the wrong coinstake flag. -/
def Damaged (w view : CoinsMap) : Prop :=
  ∃ txid c, view.get txid = some c ∧ ∀ c', w.get txid = some c' → c'.fCoinStake ≠ c.fCoinStake

theorem not_damaged_self (view : CoinsMap) : ¬Damaged view view := by
  rintro ⟨txid, c, hc, hdiff⟩
  exact hdiff c hc rfl

theorem CoinsMap.set_set_of_live {m : CoinsMap} {txid : Uint256} {c d : CCoins}
    (h : d.cleanup.live? = m.get txid) : (m.set txid c).set txid d = m := by
  apply CoinsMap.ext
  funext k
  by_cases hk : k = txid
  · subst hk
    rw [CoinsMap.get_set_self, h]
  · rw [CoinsMap.get_set_of_ne _ hk, CoinsMap.get_set_of_ne _ hk]

theorem CoinsMap.set_set (m : CoinsMap) (txid : Uint256) (c d : CCoins) :
    (m.set txid c).set txid d = m.set txid d := by
  apply CoinsMap.ext
  funext k
  by_cases hk : k = txid
  · subst hk
    simp only [CoinsMap.get_set_self]
  · simp only [CoinsMap.get_set_of_ne _ hk]

theorem CoinsMap.NullsCanonical.set {m : CoinsMap} (h : m.NullsCanonical) (txid : Uint256)
    {c : CCoins} (hc : c.NullsCanonical) : (m.set txid c).NullsCanonical := by
  intro k d hd
  by_cases hk : k = txid
  · subst hk
    rw [CoinsMap.get_set_self] at hd
    obtain ⟨-, rfl⟩ := CCoins.live?_eq_some.mp hd
    exact CCoins.cleanup_nullsCanonical hc
  · rw [CoinsMap.get_set_of_ne _ hk] at hd
    exact h k d hd

theorem CoinsMap.coinsOf_of_get {m : CoinsMap} {txid : Uint256} {c : CCoins}
    (h : m.get txid = some c) : m.coinsOf txid = c := by
  rw [CoinsMap.coinsOf, h, Option.getD_some]

theorem CoinsMap.get_of_unspent {m : CoinsMap} {txid : Uint256} {i : Nat} {o : CTxOut}
    (h : (m.coinsOf txid).vout[i]? = some o) : m.get txid = some (m.coinsOf txid) := by
  cases hget : m.get txid with
  | some c => rw [m.coinsOf_of_get hget]
  | none =>
    rw [CoinsMap.coinsOf, hget] at h
    exact absurd h (by simp [CCoins.clear])

/-- What one input does when it is spent, read back from the view before it. -/
structure Spends (view : CoinsMap) (txin : CTxIn) (undo : CTxInUndo) (view' : CoinsMap) : Prop where
  get_eq : view.get txin.prevout.hash = some (view.coinsOf txin.prevout.hash)
  unspent : (view.coinsOf txin.prevout.hash).vout[txin.prevout.n]? = some undo.txout
  notNull : undo.txout.isNull = false
  view_eq : view' = view.set txin.prevout.hash { view.coinsOf txin.prevout.hash with
    vout := (view.coinsOf txin.prevout.hash).spentVout txin.prevout.n }
  undo_last : (view.coinsOf txin.prevout.hash).OnlyUnspent txin.prevout.n →
    undo.fCoinBase = (view.coinsOf txin.prevout.hash).fCoinBase ∧
      undo.nHeight = (view.coinsOf txin.prevout.hash).nHeight ∧
      undo.nVersion = (view.coinsOf txin.prevout.hash).nVersion
  undo_partial : ¬(view.coinsOf txin.prevout.hash).OnlyUnspent txin.prevout.n → undo.nHeight = 0

theorem spends_of_spendInput {view view' : CoinsMap} {txin : CTxIn} {undo : CTxInUndo}
    (h : spendInput view txin = some (undo, view')) : Spends view txin undo view' := by
  obtain ⟨⟨undo₀, c'⟩, hspend, heq⟩ := Option.map_eq_some_iff.mp h
  obtain ⟨rfl, rfl⟩ := Prod.mk.inj heq
  obtain ⟨o, ho, hnull, rfl, hundo⟩ := CCoins.spend_eq_some hspend
  have hnil := CCoins.spentVout_eq_nil_iff (view.coinsOf txin.prevout.hash) txin.prevout.n
  have htxout : undo₀.txout = o := by
    rw [hundo]
    split_ifs <;> rfl
  refine ⟨CoinsMap.get_of_unspent ho, by rw [htxout]; exact ho, by rw [htxout]; exact hnull, rfl,
    fun hlast => ?_, fun hpart => ?_⟩
  · rw [hundo, if_pos (by simp [hnil.mpr hlast])]
    exact ⟨rfl, rfl, rfl⟩
  · rw [hundo, if_neg]
    simpa using fun h => hpart (hnil.mp h)

theorem CoinsMap.cleaned_and_live {m : CoinsMap} {txid : Uint256}
    (h : m.get txid = some (m.coinsOf txid)) :
    (m.coinsOf txid).cleanup = m.coinsOf txid ∧ (m.coinsOf txid).isPruned = false := m.live _ _ h

theorem CoinsMap.set_eq_self {m : CoinsMap} {txid : Uint256} {c : CCoins}
    (hc : c = m.coinsOf txid) (h : m.get txid = some (m.coinsOf txid)) : m.set txid c = m := by
  obtain ⟨hclean, hlive⟩ := CoinsMap.cleaned_and_live h
  apply CoinsMap.ext
  funext k
  by_cases hk : k = txid
  · subst hk
    rw [CoinsMap.get_set_self, hc, hclean, h]
    exact CCoins.live?_eq_some.mpr ⟨hlive, rfl⟩
  · rw [CoinsMap.get_set_of_ne _ hk]

namespace Spends
variable {view view' : CoinsMap} {txin : CTxIn} {undo : CTxInUndo}

theorem cleanup_spent (view : CoinsMap) (txin : CTxIn) :
    ({ view.coinsOf txin.prevout.hash with
      vout := (view.coinsOf txin.prevout.hash).spentVout txin.prevout.n } : CCoins).cleanup =
    { view.coinsOf txin.prevout.hash with
      vout := (view.coinsOf txin.prevout.hash).spentVout txin.prevout.n } := by
  simp only [CCoins.cleanup, CCoins.spentVout, List.rdropWhile_idempotent]

theorem isPruned_spent (view : CoinsMap) (txin : CTxIn) :
    ({ view.coinsOf txin.prevout.hash with
      vout := (view.coinsOf txin.prevout.hash).spentVout txin.prevout.n } : CCoins).isPruned =
      true ↔ (view.coinsOf txin.prevout.hash).OnlyUnspent txin.prevout.n := by
  rw [CCoins.isPruned_iff_vout_nil (cleanup_spent view txin)]
  exact CCoins.spentVout_eq_nil_iff _ _

/-- Spending the last unspent output removes the entry. -/
theorem get_last (hs : Spends view txin undo view')
    (hlast : (view.coinsOf txin.prevout.hash).OnlyUnspent txin.prevout.n) :
    view'.get txin.prevout.hash = none := by
  rw [hs.view_eq, CoinsMap.get_set_self, cleanup_spent, CCoins.live?,
    if_pos ((isPruned_spent view txin).mpr hlast)]

theorem get_partial (hs : Spends view txin undo view')
    (hpart : ¬(view.coinsOf txin.prevout.hash).OnlyUnspent txin.prevout.n) :
    view'.get txin.prevout.hash = some { view.coinsOf txin.prevout.hash with
      vout := (view.coinsOf txin.prevout.hash).spentVout txin.prevout.n } := by
  rw [hs.view_eq, CoinsMap.get_set_self, cleanup_spent, CCoins.live?,
    if_neg (fun h => hpart ((isPruned_spent view txin).mp h))]

theorem get_of_ne (hs : Spends view txin undo view') {k : Uint256} (hk : k ≠ txin.prevout.hash) :
    view'.get k = view.get k := by
  rw [hs.view_eq, CoinsMap.get_set_of_ne _ hk]

theorem nullsCanonical (hs : Spends view txin undo view') (h : view.NullsCanonical) :
    view'.NullsCanonical := by
  rw [hs.view_eq]
  refine h.set _ fun o ho hnull => ?_
  have hmem : o ∈ (view.coinsOf txin.prevout.hash).vout.set txin.prevout.n CTxOut.null :=
    (List.rdropWhile_prefix _ _).subset ho
  rcases List.mem_or_eq_of_mem_set hmem with hmem | rfl
  · exact h _ _ hs.get_eq o hmem hnull
  · rfl

theorem restoreInput_partial (hs : Spends view txin undo view') (h : view.NullsCanonical)
    (hpart : ¬(view.coinsOf txin.prevout.hash).OnlyUnspent txin.prevout.n) :
    restoreInput txin undo view' = (true, view) := by
  have hget := hs.get_partial hpart
  have hcoins := CoinsMap.coinsOf_of_get hget
  have hheight : undo.nHeight = 0 := hs.undo_partial hpart
  obtain ⟨hclean, hlive⟩ := CoinsMap.cleaned_and_live hs.get_eq
  obtain ⟨hvout, hok⟩ := CCoins.restore_vout (view.coinsOf txin.prevout.hash) txin.prevout undo
    (view'.coinsOf txin.prevout.hash) (by rw [hcoins]) (fun hne => absurd hheight hne) hclean
    (h _ _ hs.get_eq) hs.unspent
  have hunpruned : (view'.coinsOf txin.prevout.hash).isPruned = false := by
    rw [hcoins]
    simpa using fun hp => hpart ((isPruned_spent view txin).mp hp)
  have hsame : ((view'.coinsOf txin.prevout.hash).restore txin.prevout undo).2 =
      view.coinsOf txin.prevout.hash := by
    have hrest : ((view'.coinsOf txin.prevout.hash).restore txin.prevout undo).2 =
        { view.coinsOf txin.prevout.hash with
          vout := ((view'.coinsOf txin.prevout.hash).restore txin.prevout undo).2.vout } := by
      simp only [CCoins.restore, hheight, hcoins, ne_eq, not_true_eq_false, if_false]
    rw [hrest, hvout]
  simp only [restoreInput, hok, hsame, hheight, ne_eq, not_true_eq_false, if_false, hunpruned,
    Bool.not_false]
  rw [hs.view_eq, CoinsMap.set_set_of_live]
  rw [hs.get_eq, hclean]
  exact CCoins.live?_eq_some.mpr ⟨hlive, rfl⟩

/-- A last output at height zero is restored onto a missing entry. -/
theorem restoreInput_last_zero (hs : Spends view txin undo view')
    (hlast : (view.coinsOf txin.prevout.hash).OnlyUnspent txin.prevout.n)
    (hzero : (view.coinsOf txin.prevout.hash).nHeight = 0) :
    (restoreInput txin undo view').1 = false := by
  have hcoins : view'.coinsOf txin.prevout.hash = CCoins.clear := by
    rw [CoinsMap.coinsOf, hs.get_last hlast, Option.getD_none]
  have hheight : undo.nHeight = 0 := (hs.undo_last hlast).2.1.trans hzero
  simp [restoreInput, CCoins.restore, hcoins, hheight]

/-- A last output is restored with its metadata, less the coinstake flag. -/
theorem restoreInput_last (hs : Spends view txin undo view') (h : view.NullsCanonical)
    (hlast : (view.coinsOf txin.prevout.hash).OnlyUnspent txin.prevout.n)
    (hheight : (view.coinsOf txin.prevout.hash).nHeight ≠ 0) :
    restoreInput txin undo view' = (true, view.set txin.prevout.hash
      { view.coinsOf txin.prevout.hash with fCoinStake := false }) := by
  have hcoins : view'.coinsOf txin.prevout.hash = CCoins.clear := by
    rw [CoinsMap.coinsOf, hs.get_last hlast, Option.getD_none]
  obtain ⟨hbase, huheight, hversion⟩ := hs.undo_last hlast
  have hne : undo.nHeight ≠ 0 := by rwa [huheight]
  obtain ⟨hclean, -⟩ := CoinsMap.cleaned_and_live hs.get_eq
  have hspent := (CCoins.spentVout_eq_nil_iff _ _).mpr hlast
  obtain ⟨hvout, hok⟩ := CCoins.restore_vout (view.coinsOf txin.prevout.hash) txin.prevout undo
    (view'.coinsOf txin.prevout.hash) (by rw [hcoins, hspent]; rfl) (fun _ => by rw [hcoins]; rfl)
    hclean (h _ _ hs.get_eq) hs.unspent
  have hsame : ((view'.coinsOf txin.prevout.hash).restore txin.prevout undo).2 =
      { view.coinsOf txin.prevout.hash with fCoinStake := false } := by
    have hrest : ((view'.coinsOf txin.prevout.hash).restore txin.prevout undo).2 =
        ⟨undo.fCoinBase, false,
          ((view'.coinsOf txin.prevout.hash).restore txin.prevout undo).2.vout, undo.nHeight,
          undo.nVersion⟩ := by
      simp only [CCoins.restore, if_pos hne, CCoins.clear]
    rw [hrest, hvout, hbase, huheight, hversion]
  rw [hcoins] at hok hsame
  rw [if_pos hne, CCoins.isPruned_clear] at hok
  simp only [restoreInput, hcoins, hok, hsame]
  rw [hs.view_eq, CoinsMap.set_set]

end Spends

/-- Whatever the view, restoring a recorded output leaves an entry whose coinstake flag is that
of the entry it is added to. -/
theorem restoreInput_get {w : CoinsMap} {txin : CTxIn} {undo : CTxInUndo} {c' : CCoins}
    (hheight : undo.nHeight = 0) (hw : w.get txin.prevout.hash = some c')
    {d : CCoins} (hd : (restoreInput txin undo w).2.get txin.prevout.hash = some d) :
    d.fCoinStake = c'.fCoinStake := by
  have hcoins := CoinsMap.coinsOf_of_get hw
  simp only [restoreInput, CoinsMap.get_set_self] at hd
  obtain ⟨-, rfl⟩ := CCoins.live?_eq_some.mp hd
  simp [CCoins.restore, hheight, hcoins]

theorem restoreInput_get_of_ne (w : CoinsMap) {txin : CTxIn} (undo : CTxInUndo) {k : Uint256}
    (hk : k ≠ txin.prevout.hash) : (restoreInput txin undo w).2.get k = w.get k := by
  simp only [restoreInput, CoinsMap.get_set_of_ne _ hk]

/-- Inputs can be undone one by one, exactly when each is restorable. -/
theorem inputLog_lawful : inputLog.Lawful CoinsMap.NullsCanonical (fun _ => True)
    SpendRestorable Damaged where
  inv_apply hinv _ h := (spends_of_spendInput h).nullsCanonical hinv
  irrefl := not_damaged_self
  undo_good := by
    intro view txin undo view' hinv _ happly hgood
    have hs := spends_of_spendInput happly
    by_cases hlast : (view.coinsOf txin.prevout.hash).OnlyUnspent txin.prevout.n
    · obtain ⟨hstake, hheight⟩ := hgood hlast
      have hrestored := hs.restoreInput_last hinv hlast hheight
      rw [CoinsMap.set_eq_self (by rw [← hstake]) hs.get_eq] at hrestored
      exact hrestored
    · exact hs.restoreInput_partial hinv hlast
  undo_bad := by
    intro view txin undo view' hinv _ happly hbad
    have hs := spends_of_spendInput happly
    have hlast : (view.coinsOf txin.prevout.hash).OnlyUnspent txin.prevout.n := by
      by_contra hpart
      exact hbad fun hlast => absurd hlast hpart
    by_cases hheight : (view.coinsOf txin.prevout.hash).nHeight = 0
    · exact Or.inl (hs.restoreInput_last_zero hlast hheight)
    · right
      have hstake : (view.coinsOf txin.prevout.hash).fCoinStake = true := by
        by_contra hfalse
        exact hbad fun _ => ⟨by simpa using hfalse, hheight⟩
      have hrestored : inputLog.undo txin undo view' = _ := hs.restoreInput_last hinv hlast hheight
      refine ⟨txin.prevout.hash, _, hs.get_eq, fun c' hc' => ?_⟩
      rw [hrestored, CoinsMap.get_set_self] at hc'
      obtain ⟨-, rfl⟩ := CCoins.live?_eq_some.mp hc'
      simp [hstake]
  undo_damaged := by
    intro view txin undo view' w hinv _ happly hdamaged
    have hs := spends_of_spendInput happly
    obtain ⟨k, c, hc, hdiff⟩ := hdamaged
    by_cases hk : k = txin.prevout.hash
    · subst hk
      by_cases hlast : (view.coinsOf txin.prevout.hash).OnlyUnspent txin.prevout.n
      · rw [hs.get_last hlast] at hc
        exact absurd hc (by simp)
      · have hheight := hs.undo_partial hlast
        rw [hs.get_partial hlast] at hc
        obtain rfl := Option.some.inj hc
        cases hw : w.get txin.prevout.hash with
        | none =>
          left
          have hcoins : w.coinsOf txin.prevout.hash = CCoins.clear := by
            rw [CoinsMap.coinsOf, hw, Option.getD_none]
          simp [inputLog, restoreInput, CCoins.restore, hcoins, hheight]
        | some c' =>
          right
          refine ⟨txin.prevout.hash, _, hs.get_eq, fun d hd => ?_⟩
          rw [restoreInput_get hheight hw hd]
          exact hdiff c' hw
    · right
      refine ⟨k, c, by rw [← hs.get_of_ne hk, hc], fun c' hc' => hdiff c' ?_⟩
      rwa [← restoreInput_get_of_ne w undo hk]

end Lytix
