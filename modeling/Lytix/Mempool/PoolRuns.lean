import Lytix.Coins.Disconnect
import Lytix.Lib.Runs
import Lytix.Mempool.PoolInvariant

/-! Runs of the memory pool beside the coins of the active chain. -/
namespace Lytix

open CountEntries Runs

/-- What connecting a block promises of the coins after it. -/
structure BlockConnected (coins : CoinsAccess) (vtx : List CTransaction) (coins' : CoinsAccess) :
    Prop where
  kept : ∀ o, coins.available o = true → (∀ tx ∈ vtx, ∀ txin ∈ tx.vin, txin.prevout ≠ o) →
    coins'.available o = true
  created : ∀ tx ∈ vtx, ∀ n, tx.spendable n = true →
    (∀ spender ∈ vtx, ∀ txin ∈ spender.vin, txin.prevout ≠ ⟨tx.hash, n⟩) →
    coins'.available ⟨tx.hash, n⟩ = true

/-- Disconnecting a block takes away outputs of its transactions only. -/
def BlockDisconnected (coins : CoinsAccess) (vtx : List CTransaction) (coins' : CoinsAccess) :
    Prop :=
  ∀ o, coins.available o = true → coins'.available o = true ∨
    ∃ tx ∈ vtx, o.hash = tx.hash ∧ tx.spendable o.n = true

structure PoolNode where
  pool : CTxMemPool
  coins : CoinsAccess

/-- A block comes with the coins after it. For a transaction of a disconnected block there is a
size if the checks of `AcceptToMemoryPool` on the transaction itself pass. -/
inductive PoolEvent where
  | addUnchecked (entry : CTxMemPoolEntry)
  | remove (origTx : CTransaction) (fRecursive : Bool)
  | removeConflicts (tx : CTransaction)
  | removeCoinbaseSpends (nMemPoolHeight : ℕ)
  | connectTip (vtx : List CTransaction) (coins : CoinsAccess)
  | disconnectTip (vtx : List (CTransaction × Option UInt64)) (coins : CoinsAccess)
      (nMemPoolHeight : ℕ)

namespace CTxMemPool

/-- Resurrect one transaction of a disconnected block. -/
def resurrect (coins : CoinsAccess) (pool : CTxMemPool) (it : CTransaction × Option UInt64) :
    CTxMemPool :=
  match it.2 with
  | none => pool.remove it.1 true
  | some nTxSize =>
    if it.1.isCoinBase || it.1.isCoinStake || !pool.acceptable coins it.1 then
      pool.remove it.1 true
    else pool.addUnchecked it.1.hash ⟨it.1, nTxSize⟩

end CTxMemPool

namespace PoolNode

def step (params : CChainParams) (node : PoolNode) : PoolEvent → PoolNode
  | .addUnchecked entry => { node with pool := node.pool.addUnchecked entry.tx.hash entry }
  | .remove origTx fRecursive => { node with pool := node.pool.remove origTx fRecursive }
  | .removeConflicts tx => { node with pool := node.pool.removeConflicts tx }
  | .removeCoinbaseSpends nMemPoolHeight =>
    { node with pool := node.pool.removeCoinbaseSpends params node.coins nMemPoolHeight }
  | .connectTip vtx coins => ⟨node.pool.removeForBlock vtx, coins⟩
  | .disconnectTip vtx coins nMemPoolHeight =>
    ⟨(vtx.foldl (CTxMemPool.resurrect coins) node.pool).removeCoinbaseSpends params coins
      nMemPoolHeight, coins⟩

/-- What the callers promise. What is added was accepted, only a transaction whose spent outputs
are coins is removed alone, and `txOf` says that no two transactions have one hash. -/
def Promised (txOf : Uint256 → CTransaction) (node : PoolNode) : PoolEvent → Prop
  | .addUnchecked entry =>
    txOf entry.tx.hash = entry.tx ∧ node.pool.acceptable node.coins entry.tx = true
  | .remove origTx fRecursive => fRecursive = true ∨
    ∀ n, node.pool.mapNextTx.lookup ⟨origTx.hash, n⟩ ≠ none →
      node.coins.available ⟨origTx.hash, n⟩ = true
  | .removeConflicts _ => True
  | .removeCoinbaseSpends _ => True
  | .connectTip vtx coins =>
    (∀ tx ∈ vtx, txOf tx.hash = tx) ∧ BlockConnected node.coins vtx coins
  | .disconnectTip vtx coins _ =>
    (∀ it ∈ vtx, txOf it.1.hash = it.1) ∧
      BlockDisconnected node.coins (vtx.map Prod.fst) coins

end PoolNode

/-- No zerocoin spend comes into the pool. -/
def PoolEvent.addsNoSpend : PoolEvent → Prop
  | .addUnchecked entry => entry.tx.isZerocoinSpend = false
  | .disconnectTip vtx _ _ => ∀ it ∈ vtx, it.1.isZerocoinSpend = true →
    it.1.isCoinStake = true ∨ it.2 = none
  | _ => True

namespace PoolNode
open CTxMemPool

variable {txOf : Uint256 → CTransaction} {node : PoolNode} {pool pool' : CTxMemPool}
  {coins coins' : CoinsAccess} {avail avail' : COutPoint → Prop} {entry : CTxMemPoolEntry}
  {tx : CTransaction}

/-- Every entry is the transaction of its hash. -/
def Known (txOf : Uint256 → CTransaction) (pool : CTxMemPool) : Prop :=
  ∀ hash entry, pool.mapTx.lookup hash = some entry → txOf hash = entry.tx

/-- The invariant of a run. -/
structure Consistent (txOf : Uint256 → CTransaction) (avail : COutPoint → Prop)
    (pool : CTxMemPool) : Prop where
  indexed : pool.Indexed
  found : pool.InputsFound avail []
  known : Known txOf pool

theorem Consistent.removes (consistent : Consistent txOf avail' pool)
    (removes : Removes avail pool pool') : Consistent txOf avail pool' := by
  constructor
  case indexed => exact removes.indexed
  case found => exact removes.found
  case known =>
    intro hash entry hentry
    exact consistent.known hash entry (removes.within.entries hash entry hentry)

theorem haveCoins_of_available {o : COutPoint} (h : coins.available o = true) :
    coins.haveCoins o.hash = true := by
  unfold CoinsAccess.available at h
  unfold CoinsAccess.haveCoins
  cases hcoins : coins o.hash with
  | none =>
    rw [hcoins] at h
    contradiction
  | some c =>
    rw [hcoins, Option.any_some] at h
    rw [Option.any_some]
    unfold CCoins.isAvailable at h
    split at h
    · rename_i txout hget
      have hmem : txout ∈ c.vout := List.mem_of_getElem? hget
      have hpruned : c.isPruned = false := by
        apply List.all_eq_false.mpr
        refine ⟨txout, hmem, ?_⟩
        intro hnull
        rw [hnull] at h
        contradiction
      rw [hpruned]
      rfl
    · contradiction

/-- What a transaction passes that is accepted and is not a zerocoin spend. -/
structure Accepted (pool : CTxMemPool) (coins : CoinsAccess) (tx : CTransaction) : Prop where
  absent : pool.mapTx.lookup tx.hash = none
  nodup : (tx.vin.map CTxIn.prevout).Nodup
  free : ∀ txin ∈ tx.vin, pool.mapNextTx.lookup txin.prevout = none
  new : ∀ n, coins.available ⟨tx.hash, n⟩ = false
  inputs : ∀ txin ∈ tx.vin, pool.haveInput coins txin.prevout = true

theorem accepted_of_acceptable (h : pool.acceptable coins tx = true)
    (hspend : tx.isZerocoinSpend = false) : Accepted pool coins tx := by
  unfold acceptable at h
  simp only [hspend, Bool.false_or, Bool.and_eq_true, Option.isNone_iff_eq_none,
    decide_eq_true_eq, List.all_eq_true, Bool.not_eq_true'] at h
  obtain ⟨habsent, ⟨⟨hnodup, hfree⟩, hnew⟩, hinputs⟩ := h
  constructor
  case absent => exact habsent
  case nodup => exact hnodup
  case free => exact hfree
  case new =>
    intro n
    cases havail : coins.available ⟨tx.hash, n⟩ with
    | false => rfl
    | true =>
      rw [haveCoins_of_available havail] at hnew
      contradiction
  case inputs => exact hinputs

/-- An accepted transaction takes the place of its outputs among what was available. -/
theorem Consistent.addUnchecked {nTxSize : UInt64} (consistent : Consistent txOf avail pool)
    (accepted : Accepted pool coins tx) (hspend : tx.isZerocoinSpend = false)
    (hknown : txOf tx.hash = tx) (hcoins : ∀ o, coins.available o = true → avail' o)
    (hown : ∀ n, avail ⟨tx.hash, n⟩ → tx.spendable n = true)
    (hrest : ∀ o, o.hash ≠ tx.hash → avail o → avail' o) :
    Consistent txOf avail' (pool.addUnchecked tx.hash ⟨tx, nTxSize⟩) := by
  have hentries : ∀ k, (pool.addUnchecked tx.hash ⟨tx, nTxSize⟩).mapTx.lookup k =
      if k = tx.hash then some ⟨tx, nTxSize⟩ else pool.mapTx.lookup k := lookup_insert_eq
  constructor
  case indexed =>
    exact @Indexed.addUnchecked pool ⟨tx, nTxSize⟩ consistent.indexed hspend accepted.absent
      accepted.nodup accepted.free
  case found =>
    intro hash entry hentry _ txin htxin
    rw [hentries] at hentry
    unfold InputFound
    rw [hentries]
    by_cases hself : hash = tx.hash
    · rw [if_pos hself] at hentry
      have htx : entry.tx = tx := by rw [← Option.some.inj hentry]
      rw [htx] at htxin
      have hinput := accepted.inputs txin htxin
      unfold haveInput at hinput
      by_cases hparent : txin.prevout.hash = tx.hash
      · rw [hparent, accepted.absent] at hinput
        have hnew := accepted.new txin.prevout.n
        have hcoin : coins.available txin.prevout = true := hinput
        rw [← hparent] at hnew
        exact absurd (hnew.symm.trans hcoin) Bool.false_ne_true
      · rw [if_neg hparent]
        cases hlookup : pool.mapTx.lookup txin.prevout.hash with
        | some parent =>
          rw [hlookup] at hinput
          exact hinput
        | none =>
          rw [hlookup] at hinput
          exact hcoins _ hinput
    · rw [if_neg hself] at hentry
      have hinput := consistent.found hash entry hentry List.not_mem_nil txin htxin
      unfold InputFound at hinput
      by_cases hparent : txin.prevout.hash = tx.hash
      · rw [if_pos hparent]
        rw [hparent, accepted.absent] at hinput
        apply hown
        rw [← hparent]
        exact hinput
      · rw [if_neg hparent]
        cases hlookup : pool.mapTx.lookup txin.prevout.hash with
        | some parent =>
          rw [hlookup] at hinput
          exact hinput
        | none =>
          rw [hlookup] at hinput
          exact hrest _ hparent hinput
  case known =>
    intro hash entry hentry
    rw [hentries] at hentry
    split_ifs at hentry with heq
    · rw [← Option.some.inj hentry, heq]
      exact hknown
    · exact consistent.known hash entry hentry

/-- The coins of the shorter chain, and outputs of the transactions that are still to be
resurrected. -/
def Pending (coins : CoinsAccess) (vtx : List CTransaction) (o : COutPoint) : Prop :=
  coins.available o = true ∨ ∃ tx ∈ vtx, o.hash = tx.hash ∧ tx.spendable o.n = true

theorem resurrect_consistent {it : CTransaction × Option UInt64} {rest : List CTransaction}
    (consistent : Consistent txOf (Pending coins (it.1 :: rest)) pool)
    (hknown : ∀ tx ∈ it.1 :: rest, txOf tx.hash = tx)
    (hspend : it.1.isZerocoinSpend = true → it.1.isCoinStake = true ∨ it.2 = none) :
    Consistent txOf (Pending coins rest) (resurrect coins pool it) := by
  have hremoved : Consistent txOf (Pending coins rest) (pool.remove it.1 true) := by
    apply consistent.removes
    apply remove_recursive_of_gone consistent.indexed consistent.found
    rintro o (havail | ⟨tx, htx, hhash, hspendable⟩)
    · exact Or.inl (Or.inl havail)
    · rcases List.mem_cons.mp htx with rfl | hmem
      · exact Or.inr ⟨hhash, hspendable⟩
      · exact Or.inl (Or.inr ⟨tx, hmem, hhash, hspendable⟩)
  unfold resurrect
  split
  · exact hremoved
  · rename_i nTxSize hsize
    split_ifs with hrefused
    · exact hremoved
    · simp only [Bool.or_eq_true, not_or, Bool.not_eq_true', Bool.not_eq_false] at hrefused
      have hordinary : it.1.isZerocoinSpend = false := by
        cases hzc : it.1.isZerocoinSpend with
        | false => rfl
        | true =>
          rcases hspend hzc with hstake | hnone
          · exact absurd hstake hrefused.1.2
          · rw [hsize] at hnone
            contradiction
      have haccepted : Accepted pool coins it.1 := accepted_of_acceptable hrefused.2 hordinary
      apply consistent.addUnchecked haccepted hordinary (hknown it.1 List.mem_cons_self)
      · intro o havail
        exact Or.inl havail
      · rintro n (havail | ⟨tx, htx, hhash, hspendable⟩)
        · rw [haccepted.new n] at havail
          contradiction
        · have hsame : tx = it.1 := by
            rw [← hknown tx htx, ← hhash, hknown it.1 List.mem_cons_self]
          rw [← hsame]
          exact hspendable
      · rintro o hother (havail | ⟨tx, htx, hhash, hspendable⟩)
        · exact Or.inl havail
        · rcases List.mem_cons.mp htx with rfl | hmem
          · exact absurd hhash hother
          · exact Or.inr ⟨tx, hmem, hhash, hspendable⟩

theorem resurrect_all_consistent {vtx : List (CTransaction × Option UInt64)}
    (consistent : Consistent txOf (Pending coins (vtx.map Prod.fst)) pool)
    (hknown : ∀ it ∈ vtx, txOf it.1.hash = it.1)
    (hspend : ∀ it ∈ vtx, it.1.isZerocoinSpend = true → it.1.isCoinStake = true ∨ it.2 = none) :
    Consistent txOf (Pending coins []) (vtx.foldl (resurrect coins) pool) := by
  induction vtx generalizing pool with
  | nil => exact consistent
  | cons it vtx ih =>
    have hall : ∀ tx ∈ it.1 :: vtx.map Prod.fst, txOf tx.hash = tx := by
      intro tx htx
      rcases List.mem_cons.mp htx with rfl | hmem
      · exact hknown it List.mem_cons_self
      · obtain ⟨it', hit', rfl⟩ := List.mem_map.mp hmem
        exact hknown it' (List.mem_cons_of_mem _ hit')
    apply ih
    · exact resurrect_consistent consistent hall (hspend it List.mem_cons_self)
    · intro it' hit'
      exact hknown it' (List.mem_cons_of_mem _ hit')
    · intro it' hit'
      exact hspend it' (List.mem_cons_of_mem _ hit')

/-- What is available while a connected block is taken out of the pool: its own inputs are. -/
def Connecting (vtx : List CTransaction) (coins : CoinsAccess) (o : COutPoint) : Prop :=
  coins.available o = true ∨ ∃ tx ∈ vtx, ∃ txin ∈ tx.vin, txin.prevout = o

theorem connecting_of_not {vtx : List CTransaction} {o : COutPoint}
    (h : (∀ tx ∈ vtx, ∀ txin ∈ tx.vin, txin.prevout ≠ o) → coins.available o = true) :
    Connecting vtx coins o := by
  by_cases hspent : ∃ tx ∈ vtx, ∃ txin ∈ tx.vin, txin.prevout = o
  · exact Or.inr hspent
  · left
    apply h
    intro tx htx txin htxin heq
    exact hspent ⟨tx, htx, txin, htxin, heq⟩

theorem removeForBlock_consistent {vtx : List CTransaction}
    (consistent : Consistent txOf (fun o => coins.available o = true) pool)
    (hknown : ∀ tx ∈ vtx, txOf tx.hash = tx) (connected : BlockConnected coins vtx coins') :
    Consistent txOf (fun o => coins'.available o = true) (pool.removeForBlock vtx) := by
  have hfound : pool.InputsFound (Connecting vtx coins') [] := by
    intro hash entry hentry hnot txin htxin
    have hinput := consistent.found hash entry hentry hnot txin htxin
    refine hinput.mono ?_
    intro havail
    exact connecting_of_not (connected.kept _ havail)
  obtain ⟨removes, hunmarked⟩ := removeForBlock_removes vtx consistent.indexed hfound (by
    intro tx htx entry hentry n hspendable
    have hsame : entry.tx = tx := by
      rw [← consistent.known tx.hash entry hentry, hknown tx htx]
    rw [hsame] at hspendable
    exact connecting_of_not (connected.created tx htx n hspendable))
  constructor
  case indexed => exact removes.indexed
  case found =>
    intro hash entry hentry hnot txin htxin
    have hinput := removes.found hash entry hentry hnot txin htxin
    refine hinput.mono ?_
    rintro (havail | ⟨tx, htx, spender, hspender, heq⟩)
    · exact havail
    · obtain ⟨m, hmark⟩ := removes.indexed.marked hentry htxin
      rw [← heq, hunmarked tx htx spender hspender] at hmark
      contradiction
  case known =>
    intro hash entry hentry
    exact consistent.known hash entry (removes.within.entries hash entry hentry)

/-- What the invariant is of a node. -/
def Valid (txOf : Uint256 → CTransaction) (node : PoolNode) : Prop :=
  Consistent txOf (fun o => node.coins.available o = true) node.pool

theorem valid_step (params : CChainParams) (event : PoolEvent) (valid : node.Valid txOf)
    (promised : node.Promised txOf event) (hspend : event.addsNoSpend) :
    (node.step params event).Valid txOf := by
  cases event with
  | addUnchecked entry =>
    have haccepted := accepted_of_acceptable promised.2 hspend
    refine Consistent.addUnchecked valid haccepted hspend promised.1 (fun _ h => h) ?_
      (fun _ _ h => h)
    intro n havail
    rw [haccepted.new n] at havail
    contradiction
  | remove origTx fRecursive =>
    cases fRecursive with
    | true => exact valid.removes (remove_recursive valid.indexed valid.found)
    | false =>
      rcases promised with hrecursive | hcoins
      · contradiction
      · apply valid.removes
        apply remove_alone valid.indexed valid.found
        intro entry hentry n _ hmark
        exact hcoins n hmark
  | removeConflicts tx => exact valid.removes (removeConflicts_removes tx valid.indexed valid.found)
  | removeCoinbaseSpends nMemPoolHeight =>
    exact valid.removes (removeAll_removes _ valid.indexed valid.found)
  | connectTip vtx coins => exact removeForBlock_consistent valid promised.1 promised.2
  | disconnectTip vtx coins nMemPoolHeight =>
    have hstart : Consistent txOf (Pending coins (vtx.map Prod.fst)) node.pool := by
      constructor
      case indexed => exact valid.indexed
      case found =>
        intro hash entry hentry hnot txin htxin
        have hinput := valid.found hash entry hentry hnot txin htxin
        exact hinput.mono (promised.2 _)
      case known => exact valid.known
    have hresurrected := resurrect_all_consistent hstart promised.1 hspend
    have hcoins : InputsFound (vtx.foldl (resurrect coins) node.pool)
        (fun o => coins.available o = true) [] := by
      intro hash entry hentry hnot txin htxin
      have hinput := hresurrected.found hash entry hentry hnot txin htxin
      refine hinput.mono ?_
      rintro (havail | ⟨tx, htx, -⟩)
      · exact havail
      · contradiction
    exact hresurrected.removes (removeAll_removes _ hresurrected.indexed hcoins)

theorem valid_empty (coins : CoinsAccess) : Valid txOf ⟨CTxMemPool.empty, coins⟩ := by
  constructor
  case indexed => exact indexed_empty
  case found =>
    intro hash entry hentry
    rw [CTxMemPool.empty, AList.lookup_empty] at hentry
    contradiction
  case known =>
    intro hash entry hentry
    rw [CTxMemPool.empty, AList.lookup_empty] at hentry
    contradiction

/-- Right after a zerocoin spend is added, its first input is not marked. -/
theorem not_check_addUnchecked (indexed : node.pool.Indexed)
    (hnew : node.pool.mapTx.lookup entry.tx.hash = none)
    (hspend : entry.tx.isZerocoinSpend = true) :
    (node.pool.addUnchecked entry.tx.hash entry).check coins = false := by
  apply Bool.eq_false_iff.mpr
  intro hcheck
  unfold CTxMemPool.check at hcheck
  rw [Bool.and_eq_true, Bool.and_eq_true] at hcheck
  have hentry : (node.pool.addUnchecked entry.tx.hash entry).mapTx.lookup entry.tx.hash =
      some entry := AList.lookup_insert _
  have hall := List.all_eq_true.mp hcheck.1.1 ⟨entry.tx.hash, entry⟩ (mem_entries_iff.mpr hentry)
  unfold CTransaction.isZerocoinSpend at hspend
  cases hvin : entry.tx.vin with
  | nil =>
    rw [hvin] at hspend
    contradiction
  | cons txin vin =>
    have hinput := List.all_eq_true.mp hall (txin, 0) (by
      rw [hvin]
      exact List.mem_zipIdx_iff_getElem?.mpr rfl)
    dsimp only [checkInput] at hinput
    rw [Bool.and_eq_true, decide_eq_true_eq] at hinput
    have hmarks : (node.pool.addUnchecked entry.tx.hash entry).mapNextTx =
        node.pool.mapNextTx := by
      unfold CTxMemPool.addUnchecked
      dsimp only
      apply if_pos
      unfold CTransaction.isZerocoinSpend
      exact hspend
    rw [hmarks] at hinput
    obtain ⟨spender, hspender, -⟩ := indexed.spender hinput.2
    rw [hnew] at hspender
    contradiction

end PoolNode

open PoolNode in
/-- The pool passes `check` after every run in which the callers keep their promises and no
zerocoin spend is added. -/
theorem check_of_run (params : CChainParams) (txOf : Uint256 → CTransaction)
    (coins : CoinsAccess) (events : List PoolEvent)
    (hpromised : Along (step params) (Promised txOf) ⟨CTxMemPool.empty, coins⟩ events)
    (hspend : ∀ event ∈ events, event.addsNoSpend) :
    (run (step params) ⟨CTxMemPool.empty, coins⟩ events).pool.check
      (run (step params) ⟨CTxMemPool.empty, coins⟩ events).coins = true := by
  have hvalid : Valid txOf (run (step params) ⟨CTxMemPool.empty, coins⟩ events) := by
    apply (hpromised.and_forall hspend).invariant (valid_empty coins)
    intro node event valid hok
    exact valid_step params event valid hok.1 hok.2
  exact hvalid.indexed.check hvalid.found

namespace PoolTrace
open PoolNode

def fund : CTxOut := ⟨50, [], -10⟩

/-- A coin with hash 1, a transaction that spends it, and a child of that. -/
def coinsOfOne : CoinsAccess := fun hash =>
  if hash = 1 then some ⟨false, false, [fund], 5, 1⟩ else none

def parent : CTransaction := ⟨10, 1, [⟨⟨1, 0⟩, [], 0⟩], [fund], 0⟩
def child : CTransaction := ⟨11, 1, [⟨⟨10, 0⟩, [], 0⟩], [fund], 0⟩
def spend : CTransaction := ⟨12, 1, [⟨⟨0, 0⟩, [OP_ZEROCOINSPEND], 1⟩], [fund], 0⟩

def txOf (hash : Uint256) : CTransaction :=
  if hash = 10 then parent else if hash = 11 then child else spend

def family : List PoolEvent :=
  [.addUnchecked ⟨parent, 100⟩, .addUnchecked ⟨child, 200⟩, .remove parent true]

theorem promised_family :
    Along (step mainParams) (Promised txOf) ⟨CTxMemPool.empty, coinsOfOne⟩ family := by
  refine ⟨⟨rfl, ?_⟩, ⟨rfl, ?_⟩, Or.inl rfl, trivial⟩
  · decide
  · decide

theorem check_of_run_family :
    (run (step mainParams) ⟨CTxMemPool.empty, coinsOfOne⟩ family).pool.check
      (run (step mainParams) ⟨CTxMemPool.empty, coinsOfOne⟩ family).coins = true := by
  refine check_of_run mainParams txOf coinsOfOne family promised_family ?_
  intro event hevent
  simp only [family, List.mem_cons, List.not_mem_nil, or_false] at hevent
  rcases hevent with rfl | rfl | rfl
  · exact rfl
  · exact rfl
  · exact trivial

/-- A zerocoin spend may be added, and the check fails after it. -/
theorem not_check_of_run : ¬ ∀ (params : CChainParams) (txOf : Uint256 → CTransaction)
    (coins : CoinsAccess) (events : List PoolEvent),
    Along (step params) (Promised txOf) ⟨CTxMemPool.empty, coins⟩ events →
    (run (step params) ⟨CTxMemPool.empty, coins⟩ events).pool.check
      (run (step params) ⟨CTxMemPool.empty, coins⟩ events).coins = true := by
  intro h
  have hcheck := h mainParams txOf coinsOfOne [.addUnchecked ⟨spend, 100⟩]
    ⟨⟨rfl, by decide⟩, trivial⟩
  have hfails := @not_check_addUnchecked ⟨CTxMemPool.empty, coinsOfOne⟩ coinsOfOne ⟨spend, 100⟩
    CTxMemPool.indexed_empty rfl rfl
  rw [run_cons, run_nil] at hcheck
  exact absurd (hfails.symm.trans hcheck) Bool.false_ne_true

end PoolTrace

end Lytix
