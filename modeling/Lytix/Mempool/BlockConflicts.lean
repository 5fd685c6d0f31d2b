import Lytix.Mempool.ConnectedCoins
import Lytix.Validation.Conservation

/-! What `removeForBlock` leaves in the pool. Zerocoin spends are in the pool but not in its index, so
beside the pool we follow the pool of its other transactions. -/
namespace Lytix

open CountEntries

namespace CTxMemPool

/-- A pool with zerocoin spends in it. The index is the inverse of the inputs of the other
transactions, whose inputs are outputs of the pool or available, and no zerocoin spend names an outpoint
of the index. -/
structure IndexedWithSpends (pool : CTxMemPool) (avail : COutPoint → Prop) : Prop where
  hash : ∀ hash entry, pool.mapTx.lookup hash = some entry → entry.tx.hash = hash
  next : ∀ o ptx n, pool.mapNextTx.lookup o = some ⟨ptx, n⟩ ↔
    ∃ entry, pool.mapTx.lookup ptx = some entry ∧ entry.tx.isZerocoinSpend = false ∧
      (entry.tx.vin[n]?).map CTxIn.prevout = some o
  found : ∀ hash entry, pool.mapTx.lookup hash = some entry → entry.tx.isZerocoinSpend = false →
    ∀ txin ∈ entry.tx.vin, pool.InputFound avail txin.prevout
  spends : ∀ hash entry, pool.mapTx.lookup hash = some entry → entry.tx.isZerocoinSpend = true →
    ∀ txin ∈ entry.tx.vin, pool.mapNextTx.lookup txin.prevout = none

/-- `removeForBlock` puts the transaction on its list of conflicts. -/
def RemovedAsConflicting (pool : CTxMemPool) (vtx : List CTransaction) (hash : Uint256) : Prop :=
  ∃ before tx after, vtx = before ++ tx :: after ∧
    (((pool.removeForBlock before).remove tx false).mapTx.lookup hash).isSome = true ∧
    (((pool.removeForBlock before).remove tx false).removeConflicts tx).mapTx.lookup hash = none

/-- What a connected block leaves spends no outpoint and reveals no serial that the block does, and
depends on nothing that was removed as conflicting. -/
structure LeavesNoConflict (env : ConsensusEnv) (pool : CTxMemPool) (vtx : List CTransaction) :
    Prop where
  outpoints : ∀ hash entry, (pool.removeForBlock vtx).mapTx.lookup hash = some entry →
    List.Disjoint (spentOutPoints vtx) entry.tx.spentOutPoints
  serials : ∀ hash entry, (pool.removeForBlock vtx).mapTx.lookup hash = some entry →
    List.Disjoint (zerocoinSerials env vtx) (zerocoinSerials env [entry.tx])
  dependents : ∀ hash entry, (pool.removeForBlock vtx).mapTx.lookup hash = some entry →
    ∀ o ∈ entry.tx.spentOutPoints, ¬ pool.RemovedAsConflicting vtx o.hash

/-- A transaction of the pool that reveals a serial of the block is a transaction of the block. -/
def SerialsApart (env : ConsensusEnv) (pool : CTxMemPool) (vtx : List CTransaction) : Prop :=
  ∀ hash entry, pool.mapTx.lookup hash = some entry → (∀ tx ∈ vtx, tx.hash ≠ hash) →
    List.Disjoint (zerocoinSerials env vtx) (zerocoinSerials env [entry.tx])

/-- `ordinary` has the transactions of the pool that are no zerocoin spends, and the same marks, which
lead to them. -/
structure Ordinary (pool ordinary : CTxMemPool) : Prop where
  entries : ∀ hash, ordinary.mapTx.lookup hash =
    (pool.mapTx.lookup hash).filter fun entry => !entry.tx.isZerocoinSpend
  marks : ∀ o, ordinary.mapNextTx.lookup o = pool.mapNextTx.lookup o
  leads : ∀ o it entry, pool.mapNextTx.lookup o = some it →
    pool.mapTx.lookup it.ptx = some entry → entry.tx.isZerocoinSpend = false
  hash : ∀ hash entry, pool.mapTx.lookup hash = some entry → entry.tx.hash = hash
  spends : ∀ hash entry, pool.mapTx.lookup hash = some entry → entry.tx.isZerocoinSpend = true →
    ∀ txin ∈ entry.tx.vin, pool.mapNextTx.lookup txin.prevout = none

/-- The zerocoin spends of one pool are in the other. -/
def KeepsSpends (pool pool' : CTxMemPool) : Prop :=
  ∀ hash entry, entry.tx.isZerocoinSpend = true → pool.mapTx.lookup hash = some entry →
    pool'.mapTx.lookup hash = some entry

/-- The pool without its zerocoin spends. -/
def withoutSpends (pool : CTxMemPool) : CTxMemPool where
  mapTx := filter (fun _ entry => !entry.tx.isZerocoinSpend) pool.mapTx
  mapNextTx := pool.mapNextTx
  totalTxSize := UInt64.ofNat (total (fun _ entry => entry.nTxSize.toNat)
    (filter (fun _ entry => !entry.tx.isZerocoinSpend) pool.mapTx))

section
variable {pool pool' plain plain' : CTxMemPool} {avail : COutPoint → Prop} {hash : Uint256}
  {entry : CTxMemPoolEntry} {txToRemove : List Uint256} {tx : CTransaction}
  {vtx : List CTransaction}

/-! The pool of the other transactions. -/

theorem Ordinary.lookup_iff (h : Ordinary pool plain) : plain.mapTx.lookup hash = some entry ↔
    pool.mapTx.lookup hash = some entry ∧ entry.tx.isZerocoinSpend = false := by
  rw [h.entries, Option.filter_eq_some_iff, Bool.not_eq_true']

theorem Ordinary.lookup_of_spend (h : Ordinary pool plain)
    (hentry : pool.mapTx.lookup hash = some entry) (hspend : entry.tx.isZerocoinSpend = true) :
    plain.mapTx.lookup hash = none := by
  rw [h.entries, hentry, Option.filter_some, hspend]
  rfl

theorem Ordinary.absent (h : Ordinary pool plain) (habsent : pool.mapTx.lookup hash = none) :
    plain.mapTx.lookup hash = none := by
  rw [h.entries, habsent]
  rfl

theorem Ordinary.pushed_eq (h : Ordinary pool plain) (fRecursive : Bool) (nOutputs : ℕ) :
    plain.pushed fRecursive hash nOutputs = pool.pushed fRecursive hash nOutputs := by
  unfold pushed children
  simp only [h.marks]

theorem IndexedWithSpends.ordinary (indexed : pool.IndexedWithSpends avail) :
    Ordinary pool pool.withoutSpends := by
  constructor
  case entries => exact fun hash => lookup_filter
  case marks => exact fun o => rfl
  case leads =>
    intro o it entry hmark hentry
    obtain ⟨found, hfound, hplain, -⟩ := (indexed.next o it.ptx it.n).mp hmark
    rw [Option.some.inj (hentry.symm.trans hfound)]
    exact hplain
  case hash => exact indexed.hash
  case spends => exact indexed.spends

theorem IndexedWithSpends.indexed (indexed : pool.IndexedWithSpends avail) :
    pool.withoutSpends.Indexed := by
  have hordinary := indexed.ordinary
  constructor
  case hash =>
    intro hash entry hentry
    exact indexed.hash hash entry (hordinary.lookup_iff.mp hentry).1
  case next =>
    intro o ptx n
    rw [hordinary.marks, indexed.next]
    constructor
    · rintro ⟨entry, hentry, hplain, hget⟩
      exact ⟨entry, hordinary.lookup_iff.mpr ⟨hentry, hplain⟩, hget⟩
    · rintro ⟨entry, hentry, hget⟩
      obtain ⟨hpool, hplain⟩ := hordinary.lookup_iff.mp hentry
      exact ⟨entry, hpool, hplain, hget⟩
  case total => rfl

/-- An input is an output of the pool that can be spent, or its transaction is not in the pool. -/
theorem IndexedWithSpends.inputsFound (indexed : pool.IndexedWithSpends avail) :
    pool.withoutSpends.InputsFound (fun _ => True) [] := by
  have hordinary := indexed.ordinary
  intro hash entry hentry _ txin htxin
  obtain ⟨hpool, hplain⟩ := hordinary.lookup_iff.mp hentry
  have hinput := indexed.found hash entry hpool hplain txin htxin
  unfold InputFound at hinput ⊢
  cases hparent : pool.withoutSpends.mapTx.lookup txin.prevout.hash with
  | none => trivial
  | some parent =>
    rw [(hordinary.lookup_iff.mp hparent).1] at hinput
    exact hinput

/-- A pool without zerocoin spends. -/
theorem Indexed.withSpends (indexed : pool.Indexed) (found : pool.InputsFound avail [])
    (hplain : ∀ hash entry, pool.mapTx.lookup hash = some entry →
      entry.tx.isZerocoinSpend = false) : pool.IndexedWithSpends avail where
  hash := indexed.hash
  next := by
    intro o ptx n
    rw [indexed.next]
    constructor
    · rintro ⟨entry, hentry, hget⟩
      exact ⟨entry, hentry, hplain ptx entry hentry, hget⟩
    · rintro ⟨entry, hentry, -, hget⟩
      exact ⟨entry, hentry, hget⟩
  found := by
    intro hash entry hentry _
    exact found hash entry hentry List.not_mem_nil
  spends := by
    intro hash entry hentry hspend
    rw [hplain hash entry hentry] at hspend
    contradiction

/-- A zerocoin spend comes into the pool. -/
theorem IndexedWithSpends.addUnchecked (indexed : pool.IndexedWithSpends avail)
    (hspend : entry.tx.isZerocoinSpend = true)
    (hnew : pool.mapTx.lookup entry.tx.hash = none)
    (hfree : ∀ txin ∈ entry.tx.vin, pool.mapNextTx.lookup txin.prevout = none)
    (hunspent : ∀ n, pool.mapNextTx.lookup ⟨entry.tx.hash, n⟩ = none) :
    (pool.addUnchecked entry.tx.hash entry).IndexedWithSpends avail := by
  have hentries : ∀ k, (pool.addUnchecked entry.tx.hash entry).mapTx.lookup k =
      if k = entry.tx.hash then some entry else pool.mapTx.lookup k := lookup_insert_eq
  have hmarks : (pool.addUnchecked entry.tx.hash entry).mapNextTx = pool.mapNextTx := if_pos hspend
  have hold : ∀ k other, pool.mapTx.lookup k = some other →
      (pool.addUnchecked entry.tx.hash entry).mapTx.lookup k = some other := by
    intro k other hother
    rw [hentries, if_neg]
    · exact hother
    · intro heq
      rw [heq, hnew] at hother
      contradiction
  have hplain : ∀ k other, (pool.addUnchecked entry.tx.hash entry).mapTx.lookup k = some other →
      other.tx.isZerocoinSpend = false → pool.mapTx.lookup k = some other := by
    intro k other hother hnot
    rw [hentries] at hother
    split_ifs at hother
    · rw [← Option.some.inj hother, hspend] at hnot
      contradiction
    · exact hother
  constructor
  case hash =>
    intro k other hother
    rw [hentries] at hother
    split_ifs at hother with heq
    · rw [← Option.some.inj hother, heq]
    · exact indexed.hash k other hother
  case next =>
    intro o ptx n
    rw [hmarks, indexed.next]
    constructor
    · rintro ⟨other, hother, hnot, hget⟩
      exact ⟨other, hold ptx other hother, hnot, hget⟩
    · rintro ⟨other, hother, hnot, hget⟩
      exact ⟨other, hplain ptx other hother hnot, hnot, hget⟩
  case found =>
    intro k other hother hnot txin htxin
    have hother' := hplain k other hother hnot
    apply (inputFound_congr _).mpr (indexed.found k other hother' hnot txin htxin)
    rw [hentries, if_neg]
    intro heq
    obtain ⟨n, hget⟩ := exists_prevout_iff.mpr ⟨txin, htxin, rfl⟩
    have hmark := (indexed.next _ _ _).mpr ⟨other, hother', hnot, hget⟩
    have hnone := hunspent txin.prevout.n
    rw [← heq] at hnone
    exact Option.some_ne_none _ (hmark.symm.trans hnone)
  case spends =>
    intro k other hother hspends txin htxin
    rw [hentries] at hother
    rw [hmarks]
    split_ifs at hother
    · rw [← Option.some.inj hother] at htxin
      exact hfree txin htxin
    · exact indexed.spends k other hother hspends txin htxin

/-! The removals do the same to both pools. -/

theorem KeepsSpends.refl (pool : CTxMemPool) : KeepsSpends pool pool := fun _ _ _ h => h

theorem KeepsSpends.trans {pool'' : CTxMemPool} (h : KeepsSpends pool pool')
    (h' : KeepsSpends pool' pool'') : KeepsSpends pool pool'' :=
  fun hash entry hspend hentry => h' hash entry hspend (h hash entry hspend hentry)

/-- A part of the pool keeps what its marks and its spends promise. -/
theorem Ordinary.within (h : Ordinary pool plain) (hwithin : Within pool' pool)
    (hentries : ∀ hash, plain'.mapTx.lookup hash =
      (pool'.mapTx.lookup hash).filter fun entry => !entry.tx.isZerocoinSpend)
    (hmarks : ∀ o, plain'.mapNextTx.lookup o = pool'.mapNextTx.lookup o) :
    Ordinary pool' plain' where
  entries := hentries
  marks := hmarks
  leads := by
    intro o it entry hmark hentry
    exact h.leads o it entry (hwithin.marks o it hmark) (hwithin.entries it.ptx entry hentry)
  hash := by
    intro k entry hentry
    exact h.hash k entry (hwithin.entries k entry hentry)
  spends := by
    intro k entry hentry hspend txin htxin
    exact hwithin.unmarked (h.spends k entry (hwithin.entries k entry hentry) hspend txin htxin)

theorem Ordinary.takeOut (h : Ordinary pool plain)
    (hentry : pool.mapTx.lookup hash = some entry) (hplain : entry.tx.isZerocoinSpend = false) :
    Ordinary (pool.takeOut hash entry) (plain.takeOut hash entry) ∧
      KeepsSpends pool (pool.takeOut hash entry) := by
  have hwithin : Within (pool.takeOut hash entry) pool := within_takeOut hash entry
  constructor
  · apply h.within hwithin
    · intro k
      rw [lookup_takeOut, lookup_takeOut]
      split_ifs
      · rfl
      · exact h.entries k
    · intro o
      dsimp only [CTxMemPool.takeOut]
      rw [lookup_unmarkInputs, lookup_unmarkInputs, h.marks]
  · intro k other hspend hother
    rw [lookup_takeOut, if_neg]
    · exact hother
    · intro heq
      rw [heq, hentry] at hother
      rw [Option.some.inj hother, hspend] at hplain
      contradiction

/-- A zerocoin spend that is taken out takes no mark with it. -/
theorem Ordinary.takeOut_spend (h : Ordinary pool plain)
    (hentry : pool.mapTx.lookup hash = some entry) (hspend : entry.tx.isZerocoinSpend = true) :
    Ordinary (pool.takeOut hash entry) plain := by
  have hwithin : Within (pool.takeOut hash entry) pool := within_takeOut hash entry
  have hmarks : ∀ o, (pool.takeOut hash entry).mapNextTx.lookup o = pool.mapNextTx.lookup o := by
    intro o
    dsimp only [CTxMemPool.takeOut]
    rw [lookup_unmarkInputs]
    split_ifs with hnamed
    · obtain ⟨txin, htxin, rfl⟩ := hnamed
      exact (h.spends hash entry hentry hspend txin htxin).symm
    · rfl
  apply h.within hwithin
  · intro k
    rw [lookup_takeOut]
    split_ifs with heq
    · rw [heq]
      exact h.lookup_of_spend hentry hspend
    · exact h.entries k
  · intro o
    rw [hmarks, h.marks]

/-- The marks lead to no zerocoin spend, so a recursive removal takes none out. -/
theorem Ordinary.removeLoop (h : Ordinary pool plain)
    (hqueue : ∀ k ∈ txToRemove, ∀ entry, pool.mapTx.lookup k = some entry →
      entry.tx.isZerocoinSpend = false) :
    Ordinary (removeLoop true pool txToRemove) (removeLoop true plain txToRemove) ∧
      KeepsSpends pool (CTxMemPool.removeLoop true pool txToRemove) := by
  fun_induction CTxMemPool.removeLoop true pool txToRemove generalizing plain with
  | case1 pool =>
    rw [removeLoop_nil]
    exact ⟨h, KeepsSpends.refl pool⟩
  | case2 pool hash txToRemove habsent ih =>
    rw [removeLoop_none true (h.absent habsent)]
    exact ih h fun k hk => hqueue k (List.mem_cons_of_mem _ hk)
  | case3 pool hash txToRemove entry hentry ih =>
    have hplain := hqueue hash List.mem_cons_self entry hentry
    have hwithin : Within (pool.takeOut hash entry) pool := within_takeOut hash entry
    obtain ⟨htaken, hkept⟩ := h.takeOut hentry hplain
    rw [removeLoop_some true (h.lookup_iff.mpr ⟨hentry, hplain⟩), h.pushed_eq]
    obtain ⟨hloop, hrest⟩ := ih htaken (by
      intro k hk other hother
      have hother' := hwithin.entries k other hother
      rcases List.mem_append.mp hk with hk | hk
      · exact hqueue k (List.mem_cons_of_mem _ hk) other hother'
      · obtain ⟨i, -, hmark⟩ := List.mem_filterMap.mp hk
        obtain ⟨it, hit, rfl⟩ := Option.map_eq_some_iff.mp hmark
        exact h.leads _ it other hit hother')
    exact ⟨hloop, hkept.trans hrest⟩

/-- A transaction of the pool that is removed is the first of the queue, and the only one. -/
theorem remove_of_entry {fRecursive : Bool} (hentry : pool.mapTx.lookup tx.hash = some entry) :
    pool.remove tx fRecursive = removeLoop fRecursive pool [tx.hash] := by
  unfold remove
  rw [hentry]
  rfl

theorem Ordinary.remove (h : Ordinary pool plain) (hentry : pool.mapTx.lookup tx.hash = some entry)
    (hplain : entry.tx.isZerocoinSpend = false) :
    Ordinary (pool.remove tx true) (plain.remove tx true) ∧
      KeepsSpends pool (pool.remove tx true) := by
  rw [remove_of_entry hentry, remove_of_entry (h.lookup_iff.mpr ⟨hentry, hplain⟩)]
  apply h.removeLoop
  intro k hk other hother
  rw [List.mem_singleton.mp hk, hentry] at hother
  rw [← Option.some.inj hother]
  exact hplain

/-- A transaction that is removed alone, whatever it is. -/
theorem Ordinary.remove_alone (h : Ordinary pool plain) (tx : CTransaction) :
    Ordinary (pool.remove tx false) (plain.remove tx false) ∧
      ∀ hash entry, entry.tx.isZerocoinSpend = true → pool.mapTx.lookup hash = some entry →
        hash ≠ tx.hash → (pool.remove tx false).mapTx.lookup hash = some entry := by
  have hnothing : ∀ {p : CTxMemPool}, p.mapTx.lookup tx.hash = none → p.remove tx false = p := by
    intro p habsent
    unfold CTxMemPool.remove
    rw [removeLoop_none false habsent, habsent]
    exact removeLoop_nil false
  have htaken : ∀ {p : CTxMemPool} {e : CTxMemPoolEntry}, p.mapTx.lookup tx.hash = some e →
      p.remove tx false = p.takeOut tx.hash e := by
    intro p e he
    rw [remove_of_entry he, removeLoop_some false he]
    exact removeLoop_nil false
  cases hentry : pool.mapTx.lookup tx.hash with
  | none =>
    rw [hnothing hentry, hnothing (h.absent hentry)]
    exact ⟨h, fun hash entry _ hlookup _ => hlookup⟩
  | some taken =>
    have hkept : ∀ hash entry, entry.tx.isZerocoinSpend = true →
        pool.mapTx.lookup hash = some entry → hash ≠ tx.hash →
        (pool.remove tx false).mapTx.lookup hash = some entry := by
      intro hash entry _ hlookup hne
      rw [htaken hentry, lookup_takeOut, if_neg hne]
      exact hlookup
    refine ⟨?_, hkept⟩
    rw [htaken hentry]
    cases hspend : taken.tx.isZerocoinSpend with
    | true =>
      rw [hnothing (h.lookup_of_spend hentry hspend)]
      exact h.takeOut_spend hentry hspend
    | false =>
      rw [htaken (h.lookup_iff.mpr ⟨hentry, hspend⟩)]
      exact (h.takeOut hentry hspend).1

theorem Ordinary.removeConflict (h : Ordinary pool plain) (txin : CTxIn) :
    Ordinary (pool.removeConflict tx txin) (plain.removeConflict tx txin) ∧
      KeepsSpends pool (pool.removeConflict tx txin) := by
  unfold CTxMemPool.removeConflict
  rw [h.marks]
  cases hmark : pool.mapNextTx.lookup txin.prevout with
  | none => exact ⟨h, KeepsSpends.refl pool⟩
  | some it =>
    dsimp only
    cases hentry : pool.mapTx.lookup it.ptx with
    | none =>
      rw [h.absent hentry]
      exact ⟨h, KeepsSpends.refl pool⟩
    | some txConflict =>
      have hplain := h.leads _ it txConflict hmark hentry
      rw [h.lookup_iff.mpr ⟨hentry, hplain⟩]
      dsimp only
      split_ifs
      · rw [← h.hash it.ptx txConflict hentry] at hentry
        exact h.remove hentry hplain
      · exact ⟨h, KeepsSpends.refl pool⟩

theorem Ordinary.removeConflicts (h : Ordinary pool plain) (tx : CTransaction) :
    Ordinary (pool.removeConflicts tx) (plain.removeConflicts tx) ∧
      KeepsSpends pool (pool.removeConflicts tx) := by
  unfold CTxMemPool.removeConflicts
  generalize tx.vin = vin
  induction vin generalizing pool plain with
  | nil => exact ⟨h, KeepsSpends.refl pool⟩
  | cons txin vin ih =>
    obtain ⟨hfirst, hkept⟩ := @Ordinary.removeConflict pool plain tx h txin
    obtain ⟨hrest, hkept'⟩ := ih hfirst
    exact ⟨hrest, hkept.trans hkept'⟩

/-- Only the block takes zerocoin spends out of the pool. -/
theorem Ordinary.removeForBlock (h : Ordinary pool plain) (vtx : List CTransaction) :
    Ordinary (pool.removeForBlock vtx) (plain.removeForBlock vtx) ∧
      ∀ hash entry, entry.tx.isZerocoinSpend = true → pool.mapTx.lookup hash = some entry →
        (∀ tx ∈ vtx, tx.hash ≠ hash) →
        (pool.removeForBlock vtx).mapTx.lookup hash = some entry := by
  induction vtx generalizing pool plain with
  | nil => exact ⟨h, fun hash entry _ hlookup _ => hlookup⟩
  | cons tx vtx ih =>
    obtain ⟨halone, hother⟩ := h.remove_alone tx
    obtain ⟨hconflicts, hkept⟩ := halone.removeConflicts tx
    obtain ⟨hrest, hkept'⟩ := ih hconflicts
    refine ⟨hrest, ?_⟩
    intro hash entry hspend hlookup hnot
    apply hkept' hash entry hspend
    · apply hkept hash entry hspend
      exact hother hash entry hspend hlookup (Ne.symm (hnot tx List.mem_cons_self))
    · intro other hmem
      exact hnot other (List.mem_cons_of_mem _ hmem)

/-! What is left after the block. -/

theorem plain_of_mem_spentOutPoints {o : COutPoint} (h : o ∈ tx.spentOutPoints) :
    tx.isZerocoinSpend = false := by
  unfold CTransaction.spentOutPoints at h
  split_ifs at h with hcoins
  · unfold CTransaction.spendsCoins at hcoins
    simp only [Bool.and_eq_true, Bool.not_eq_true'] at hcoins
    exact hcoins.2
  · exact absurd h List.not_mem_nil

/-- No transaction of the block is left. -/
theorem within_removeForBlock (vtx : List CTransaction) :
    Within (pool.removeForBlock vtx) pool ∧
      ∀ tx ∈ vtx, (pool.removeForBlock vtx).mapTx.lookup tx.hash = none := by
  have hremove : ∀ {p : CTxMemPool} (tx : CTransaction) (fRecursive : Bool),
      Within (p.remove tx fRecursive) p := fun tx fRecursive => within_removeLoop fRecursive
  have hconflict : ∀ {p : CTxMemPool} (tx : CTransaction) (txin : CTxIn),
      Within (p.removeConflict tx txin) p := by
    intro p tx txin
    unfold removeConflict
    split
    · exact Within.refl p
    · split
      · exact Within.refl p
      · split_ifs
        · exact hremove _ true
        · exact Within.refl p
  have hconflicts : ∀ {p : CTxMemPool} (tx : CTransaction), Within (p.removeConflicts tx) p := by
    intro p tx
    unfold removeConflicts
    generalize tx.vin = vin
    induction vin generalizing p with
    | nil => exact Within.refl p
    | cons txin vin ih => exact (hconflict tx txin).trans ih
  induction vtx generalizing pool with
  | nil => exact ⟨Within.refl pool, fun tx htx => absurd htx List.not_mem_nil⟩
  | cons tx vtx ih =>
    have hfirst : Within ((pool.remove tx false).removeConflicts tx) (pool.remove tx false) :=
      hconflicts tx
    obtain ⟨hrest, habsent⟩ := @ih ((pool.remove tx false).removeConflicts tx)
    refine ⟨((hremove tx false).trans hfirst).trans hrest, ?_⟩
    intro other hother
    rcases List.mem_cons.mp hother with rfl | hmem
    · exact hrest.absent (hfirst.absent (remove_absent other false))
    · exact habsent other hmem

/-- What is left of the other transactions has its inputs marked, and nothing is marked that a
transaction of the block names. -/
theorem IndexedWithSpends.not_spent (indexed : pool.IndexedWithSpends avail)
    (hentry : (pool.removeForBlock vtx).mapTx.lookup hash = some entry) :
    List.Disjoint (spentOutPoints vtx) entry.tx.spentOutPoints := by
  obtain ⟨hafter, -⟩ := indexed.ordinary.removeForBlock vtx
  obtain ⟨removes, hunmarked⟩ := removeForBlock_removes vtx indexed.indexed indexed.inputsFound
    fun _ _ _ _ _ _ => trivial
  intro o hblock hleft
  obtain ⟨tx, htx, hspent⟩ := List.mem_flatMap.mp hblock
  obtain ⟨txin, htxin, rfl⟩ := mem_vin_of_mem_spentOutPoints hspent
  obtain ⟨txin', htxin', heq⟩ := mem_vin_of_mem_spentOutPoints hleft
  have hplain := plain_of_mem_spentOutPoints hleft
  obtain ⟨n, hmark⟩ := removes.indexed.marked (hafter.lookup_iff.mpr ⟨hentry, hplain⟩) htxin'
  rw [heq, hunmarked tx htx txin htxin] at hmark
  contradiction

theorem removeForBlock_append (before after : List CTransaction) :
    pool.removeForBlock (before ++ tx :: after) =
      (((pool.removeForBlock before).remove tx false).removeConflicts tx).removeForBlock after := by
  unfold removeForBlock
  rw [List.foldl_append, List.foldl_cons]

/-- A conflict is removed with all that depends on it. -/
theorem IndexedWithSpends.not_dependent (indexed : pool.IndexedWithSpends avail)
    (hentry : (pool.removeForBlock vtx).mapTx.lookup hash = some entry) {o : COutPoint}
    (ho : o ∈ entry.tx.spentOutPoints) : ¬ pool.RemovedAsConflicting vtx o.hash := by
  rintro ⟨before, tx, after, rfl, hbefore, habsent⟩
  obtain ⟨hstart, -⟩ := indexed.ordinary.removeForBlock before
  obtain ⟨halone, -⟩ := hstart.remove_alone tx
  obtain ⟨hconflicts, hkept⟩ := halone.removeConflicts tx
  obtain ⟨hafter, -⟩ := hconflicts.removeForBlock after
  obtain ⟨hremoved, -⟩ := removeForBlock_removes before indexed.indexed indexed.inputsFound
    fun _ _ _ _ _ _ => trivial
  have hmid := @CTxMemPool.remove_alone _ _ tx hremoved.indexed hremoved.found
    fun _ _ _ _ _ => trivial
  rw [removeForBlock_append] at hentry
  have hplain := plain_of_mem_spentOutPoints ho
  have hleft := hafter.lookup_iff.mpr ⟨hentry, hplain⟩
  -- what was not in the pool before the conflicts were removed counts as available
  let outside : COutPoint → Prop := fun o =>
    ((pool.withoutSpends.removeForBlock before).remove tx false).mapTx.lookup o.hash = none
  have hfound : ((pool.withoutSpends.removeForBlock before).remove tx false).InputsFound
      outside [] := by
    intro k other hother hnot txin htxin
    have hinput := hmid.found k other hother hnot txin htxin
    unfold InputFound at hinput ⊢
    cases hparent : ((pool.withoutSpends.removeForBlock before).remove tx false).mapTx.lookup
        txin.prevout.hash with
    | none => exact hparent
    | some parent =>
      rw [hparent] at hinput
      exact hinput
  have hstep := removeConflicts_removes tx hmid.indexed hfound
  have hchild := (within_removeForBlock after).1.entries hash entry hleft
  obtain ⟨txin, htxin, rfl⟩ := mem_vin_of_mem_spentOutPoints ho
  have hinput := hstep.found hash entry hchild List.not_mem_nil txin htxin
  unfold InputFound at hinput
  rw [hconflicts.absent habsent] at hinput
  obtain ⟨parent, hparent⟩ := Option.isSome_iff_exists.mp hbefore
  cases hspend : parent.tx.isZerocoinSpend with
  | true =>
    rw [hkept _ parent hspend hparent] at habsent
    contradiction
  | false =>
    have hthere := halone.lookup_iff.mpr ⟨hparent, hspend⟩
    have hgone : ((pool.withoutSpends.removeForBlock before).remove tx false).mapTx.lookup
        txin.prevout.hash = none := hinput
    rw [hgone] at hthere
    contradiction

end
end CTxMemPool

namespace PoolTrace
open PoolNode CTxMemPool Runs

/-- Another transaction that spends the coin, and another spend of the serial. -/
def rival : CTransaction := ⟨13, 1, [⟨⟨1, 0⟩, [], 0⟩], [fund], 0⟩
def rivalSpend : CTransaction := ⟨14, 1, [⟨⟨0, 0⟩, [OP_ZEROCOINSPEND, 1], 1⟩], [fund], 0⟩

/-- The transaction that spends the coin and its child are in the pool. -/
def familyPool : CTxMemPool :=
  (CTxMemPool.empty.addUnchecked parent.hash ⟨parent, 100⟩).addUnchecked child.hash ⟨child, 200⟩

/-- So is a zerocoin spend. -/
def spendPool : CTxMemPool := familyPool.addUnchecked spend.hash ⟨spend, 300⟩

theorem valid_familyPool : Valid txOf ⟨familyPool, coinsOfOne⟩ := by
  have hpromised : Along (step mainParams) (Promised txOf) ⟨CTxMemPool.empty, coinsOfOne⟩
      [.addUnchecked ⟨parent, 100⟩, .addUnchecked ⟨child, 200⟩] := by
    refine ⟨⟨rfl, ?_⟩, ⟨rfl, ?_⟩, trivial⟩
    · decide
    · decide
  have hplain : ∀ event ∈ [PoolEvent.addUnchecked ⟨parent, 100⟩, .addUnchecked ⟨child, 200⟩],
      event.addsNoSpend := by
    simp [PoolEvent.addsNoSpend, parent, child, CTransaction.isZerocoinSpend]
  exact (hpromised.and_forall hplain).invariant (valid_empty coinsOfOne)
    fun node event valid hok => valid_step mainParams event valid hok.1 hok.2

theorem eq_of_familyPool {hash : Uint256} {entry : CTxMemPoolEntry}
    (hentry : familyPool.mapTx.lookup hash = some entry) : entry.tx = parent ∨ entry.tx = child := by
  unfold familyPool addUnchecked at hentry
  rw [lookup_insert_eq, lookup_insert_eq] at hentry
  split_ifs at hentry
  · rw [← Option.some.inj hentry]
    exact Or.inr rfl
  · rw [← Option.some.inj hentry]
    exact Or.inl rfl
  · contradiction

theorem indexedWithSpends_spendPool :
    spendPool.IndexedWithSpends fun o => coinsOfOne.available o = true := by
  have valid := valid_familyPool
  have hplain : ∀ hash entry, familyPool.mapTx.lookup hash = some entry →
      entry.tx.isZerocoinSpend = false := by
    intro hash entry hentry
    rcases eq_of_familyPool hentry with heq | heq
    · rw [heq]
      rfl
    · rw [heq]
      rfl
  have hwith := valid.indexed.withSpends valid.found hplain
  refine @IndexedWithSpends.addUnchecked _ _ ⟨spend, 300⟩ hwith rfl (by decide)
    (by decide) ?_
  intro n
  cases hmark : familyPool.mapNextTx.lookup ⟨spend.hash, n⟩ with
  | none => rfl
  | some it =>
    obtain ⟨entry, hentry, txin, htxin, hprevout⟩ := valid.indexed.spender hmark
    have hhash := congrArg COutPoint.hash hprevout
    rcases eq_of_familyPool hentry with heq | heq
    · rw [heq, parent, List.mem_singleton] at htxin
      rw [htxin] at hhash
      have hne : (1 : Uint256) ≠ 12 := by decide
      exact absurd hhash hne
    · rw [heq, child, List.mem_singleton] at htxin
      rw [htxin] at hhash
      have hne : (10 : Uint256) ≠ 12 := by decide
      exact absurd hhash hne

end PoolTrace
end Lytix
