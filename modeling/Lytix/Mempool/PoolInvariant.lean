import Lytix.Mempool.TxMemPool

/-! What the assertions of `check` need, and what an insertion and a removal keep of it. -/
namespace Lytix

open CountEntries

namespace CCoins

theorem isAvailable_iff {c : CCoins} {n : ℕ} : c.isAvailable n = true ↔ ∃ txout,
    c.vout[n]? = some txout ∧ txout.isNull = false ∧ txout.scriptPubKey.isZerocoinMint = false := by
  unfold isAvailable
  cases c.vout[n]? with
  | none => simp
  | some txout => simp

end CCoins

namespace CTxMemPool

/-- The index is the inverse of the inputs of the pool, and the sum is the sum of the sizes. -/
structure Indexed (pool : CTxMemPool) : Prop where
  hash : ∀ hash entry, pool.mapTx.lookup hash = some entry → entry.tx.hash = hash
  next : ∀ o ptx n, pool.mapNextTx.lookup o = some ⟨ptx, n⟩ ↔
    ∃ entry, pool.mapTx.lookup ptx = some entry ∧
      (entry.tx.vin[n]?).map CTxIn.prevout = some o
  total : pool.totalTxSize =
    UInt64.ofNat (total (fun _ entry => entry.nTxSize.toNat) pool.mapTx)

/-- The outpoint is an output of the pool that can be spent, or a coin. -/
def InputFound (pool : CTxMemPool) (avail : COutPoint → Prop) (o : COutPoint) : Prop :=
  match pool.mapTx.lookup o.hash with
  | some parent => parent.tx.spendable o.n = true
  | none => avail o

/-- All inputs of the pool are found, but for the transactions that are still to be removed. -/
def InputsFound (pool : CTxMemPool) (avail : COutPoint → Prop) (txToRemove : List Uint256) :
    Prop :=
  ∀ hash entry, pool.mapTx.lookup hash = some entry → hash ∉ txToRemove →
    ∀ txin ∈ entry.tx.vin, pool.InputFound avail txin.prevout

/-- Entries and marks of one pool are those of the other. -/
structure Within (pool' pool : CTxMemPool) : Prop where
  entries : ∀ hash entry, pool'.mapTx.lookup hash = some entry →
    pool.mapTx.lookup hash = some entry
  marks : ∀ o it, pool'.mapNextTx.lookup o = some it → pool.mapNextTx.lookup o = some it

section
variable {pool pool' pool'' : CTxMemPool} {avail avail' : COutPoint → Prop} {hash : Uint256}
  {entry : CTxMemPoolEntry} {o : COutPoint} {txToRemove : List Uint256} {tx : CTransaction}

theorem Within.refl (pool : CTxMemPool) : Within pool pool :=
  ⟨fun _ _ h => h, fun _ _ h => h⟩

theorem Within.trans (h : Within pool' pool) (h' : Within pool'' pool') : Within pool'' pool := by
  constructor
  case entries =>
    intro hash entry hentry
    exact h.entries hash entry (h'.entries hash entry hentry)
  case marks =>
    intro o it hmark
    exact h.marks o it (h'.marks o it hmark)

theorem Within.unmarked (h : Within pool' pool) (hnone : pool.mapNextTx.lookup o = none) :
    pool'.mapNextTx.lookup o = none := by
  cases hmark : pool'.mapNextTx.lookup o with
  | none => rfl
  | some it =>
    rw [h.marks o it hmark] at hnone
    contradiction

theorem Within.absent (h : Within pool' pool) (hnone : pool.mapTx.lookup hash = none) :
    pool'.mapTx.lookup hash = none := by
  cases hentry : pool'.mapTx.lookup hash with
  | none => rfl
  | some entry =>
    rw [h.entries hash entry hentry] at hnone
    contradiction

theorem exists_prevout_iff {vin : List CTxIn} :
    (∃ n : ℕ, (vin[n]?).map CTxIn.prevout = some o) ↔ ∃ txin ∈ vin, txin.prevout = o := by
  constructor
  · rintro ⟨n, h⟩
    obtain ⟨txin, hget, heq⟩ := Option.map_eq_some_iff.mp h
    exact ⟨txin, List.mem_of_getElem? hget, heq⟩
  · rintro ⟨txin, hmem, heq⟩
    obtain ⟨n, hget⟩ := List.mem_iff_getElem?.mp hmem
    refine ⟨n, ?_⟩
    rw [hget, Option.map_some, heq]

/-- Every input of the pool is marked. -/
theorem Indexed.marked (indexed : pool.Indexed) (hentry : pool.mapTx.lookup hash = some entry)
    {txin : CTxIn} (htxin : txin ∈ entry.tx.vin) :
    ∃ n, pool.mapNextTx.lookup txin.prevout = some ⟨hash, n⟩ := by
  obtain ⟨n, hget⟩ := exists_prevout_iff.mpr ⟨txin, htxin, rfl⟩
  exact ⟨n, (indexed.next _ _ _).mpr ⟨entry, hentry, hget⟩⟩

/-- A mark leads to an entry that spends the outpoint. -/
theorem Indexed.spender (indexed : pool.Indexed) {it : CInPoint}
    (hmark : pool.mapNextTx.lookup o = some it) : ∃ entry,
      pool.mapTx.lookup it.ptx = some entry ∧ ∃ txin ∈ entry.tx.vin, txin.prevout = o := by
  obtain ⟨entry, hentry, hget⟩ := (indexed.next o it.ptx it.n).mp hmark
  exact ⟨entry, hentry, exists_prevout_iff.mp ⟨it.n, hget⟩⟩

/-- Later inputs are looked at before the first. -/
theorem ite_named_cons {β : Type*} {txin : CTxIn} {vin : List CTxIn} {a b : β} :
    (if ∃ txin ∈ vin, txin.prevout = o then a else if o = txin.prevout then a else b) =
      if ∃ txin' ∈ txin :: vin, txin'.prevout = o then a else b := by
  by_cases htail : ∃ txin ∈ vin, txin.prevout = o
  · obtain ⟨found, hfound, heq⟩ := htail
    rw [if_pos ⟨found, hfound, heq⟩, if_pos ⟨found, List.mem_cons_of_mem _ hfound, heq⟩]
  · rw [if_neg htail]
    by_cases hhead : o = txin.prevout
    · rw [if_pos hhead, if_pos ⟨txin, List.mem_cons_self, hhead.symm⟩]
    · rw [if_neg hhead, if_neg]
      rintro ⟨found, hfound, heq⟩
      rcases List.mem_cons.mp hfound with rfl | hmem
      · exact hhead heq.symm
      · exact htail ⟨found, hmem, heq⟩

theorem lookup_unmarkInputs (vin : List CTxIn) (mapNextTx : Table COutPoint CInPoint) :
    (unmarkInputs vin mapNextTx).lookup o =
      if ∃ txin ∈ vin, txin.prevout = o then none else mapNextTx.lookup o := by
  induction vin generalizing mapNextTx with
  | nil => simp [unmarkInputs]
  | cons txin vin ih =>
    have hrest : (unmarkInputs (txin :: vin) mapNextTx).lookup o =
        (unmarkInputs vin (mapNextTx.erase txin.prevout)).lookup o := rfl
    rw [hrest, ih, lookup_erase_eq]
    exact ite_named_cons

theorem lookup_markInputs {ptx : Uint256} {vin : List CTxIn} (i : ℕ)
    (mapNextTx : Table COutPoint CInPoint) (hnodup : (vin.map CTxIn.prevout).Nodup)
    (it : CInPoint) : (markInputs ptx i vin mapNextTx).lookup o = some it ↔
      (∃ n, (vin[n]?).map CTxIn.prevout = some o ∧ it = ⟨ptx, i + n⟩) ∨
      ((∀ txin ∈ vin, txin.prevout ≠ o) ∧ mapNextTx.lookup o = some it) := by
  induction vin generalizing i mapNextTx with
  | nil => simp [markInputs]
  | cons txin vin ih =>
    rw [List.map_cons, List.nodup_cons] at hnodup
    rw [markInputs, ih (i + 1) _ hnodup.2, lookup_insert_eq]
    constructor
    · rintro (⟨n, hget, hit⟩ | ⟨htail, hlookup⟩)
      · left
        refine ⟨n + 1, hget, ?_⟩
        rw [hit, Nat.add_right_comm i 1 n, Nat.add_assoc]
      · split_ifs at hlookup with heq
        · left
          exact ⟨0, congrArg some heq.symm, (Option.some.inj hlookup).symm⟩
        · right
          refine ⟨?_, hlookup⟩
          intro other hother
          rcases List.mem_cons.mp hother with rfl | hmem
          · exact Ne.symm heq
          · exact htail other hmem
    · rintro (⟨n, hget, hit⟩ | ⟨hall, hlookup⟩)
      · cases n with
        | zero =>
          right
          have heq : txin.prevout = o := Option.some.inj hget
          constructor
          · intro other hother hother'
            apply hnodup.1
            rw [heq, ← hother']
            exact List.mem_map_of_mem hother
          · rw [if_pos heq.symm, hit, Nat.add_zero]
        | succ n =>
          left
          refine ⟨n, hget, ?_⟩
          rw [hit, Nat.add_right_comm i 1 n, Nat.add_assoc]
      · right
        constructor
        · intro other hother
          exact hall other (List.mem_cons_of_mem _ hother)
        · rw [if_neg (Ne.symm (hall txin List.mem_cons_self)), hlookup]

theorem indexed_empty : empty.Indexed := by
  constructor
  case hash =>
    intro hash entry hentry
    rw [empty, AList.lookup_empty] at hentry
    contradiction
  case next =>
    intro o ptx n
    simp only [empty, AList.lookup_empty]
    simp
  case total => rfl

/-- A transaction that has no input in common with the pool is indexed. -/
theorem Indexed.addUnchecked (indexed : pool.Indexed)
    (hspend : entry.tx.isZerocoinSpend = false)
    (hnew : pool.mapTx.lookup entry.tx.hash = none)
    (hnodup : (entry.tx.vin.map CTxIn.prevout).Nodup)
    (hfree : ∀ txin ∈ entry.tx.vin, pool.mapNextTx.lookup txin.prevout = none) :
    (pool.addUnchecked entry.tx.hash entry).Indexed := by
  have hmarks : (pool.addUnchecked entry.tx.hash entry).mapNextTx =
      markInputs entry.tx.hash 0 entry.tx.vin pool.mapNextTx := by
    simp only [CTxMemPool.addUnchecked, hspend]
    rfl
  have hentries : ∀ k, (pool.addUnchecked entry.tx.hash entry).mapTx.lookup k =
      if k = entry.tx.hash then some entry else pool.mapTx.lookup k := lookup_insert_eq
  constructor
  case hash =>
    intro hash entry' hentry'
    rw [hentries] at hentry'
    split_ifs at hentry' with heq
    · rw [← Option.some.inj hentry', heq]
    · exact indexed.hash hash entry' hentry'
  case next =>
    intro o ptx n
    rw [hmarks, lookup_markInputs 0 _ hnodup]
    constructor
    · rintro (⟨m, hget, hit⟩ | ⟨-, hold⟩)
      · obtain ⟨hptx, hn⟩ := CInPoint.mk.inj hit
        refine ⟨entry, ?_, ?_⟩
        · rw [hentries, if_pos hptx]
        · rw [hn, Nat.zero_add]
          exact hget
      · obtain ⟨entry', hentry', hget⟩ := (indexed.next o ptx n).mp hold
        refine ⟨entry', ?_, hget⟩
        rw [hentries, if_neg, hentry']
        intro heq
        rw [heq, hnew] at hentry'
        contradiction
    · rintro ⟨entry', hentry', hget⟩
      rw [hentries] at hentry'
      split_ifs at hentry' with heq
      · left
        rw [← Option.some.inj hentry'] at hget
        exact ⟨n, hget, by rw [heq, Nat.zero_add]⟩
      · right
        have hold := (indexed.next o ptx n).mpr ⟨entry', hentry', hget⟩
        refine ⟨?_, hold⟩
        intro txin htxin hprevout
        rw [← hprevout, hfree txin htxin] at hold
        contradiction
  case total =>
    have hnotMem : entry.tx.hash ∉ pool.mapTx := AList.lookup_eq_none.mp hnew
    dsimp only [CTxMemPool.addUnchecked]
    rw [total_insert, erase_of_notMem hnotMem, UInt64.ofNat_add, UInt64.ofNat_toNat,
      indexed.total, UInt64.add_comm]

theorem Indexed.takeOut (indexed : pool.Indexed) (hentry : pool.mapTx.lookup hash = some entry) :
    (pool.takeOut hash entry).Indexed := by
  have hentries : ∀ k, (pool.takeOut hash entry).mapTx.lookup k =
      if k = hash then none else pool.mapTx.lookup k := lookup_erase_eq
  have hmarks : ∀ o, (pool.takeOut hash entry).mapNextTx.lookup o =
      if ∃ txin ∈ entry.tx.vin, txin.prevout = o then none else pool.mapNextTx.lookup o :=
    fun o => lookup_unmarkInputs _ _
  constructor
  case hash =>
    intro k entry' hentry'
    rw [hentries] at hentry'
    split_ifs at hentry'
    exact indexed.hash k entry' hentry'
  case next =>
    intro o ptx n
    rw [hmarks]
    constructor
    · intro hmark
      split_ifs at hmark with hspent
      obtain ⟨entry', hentry', hget⟩ := (indexed.next o ptx n).mp hmark
      refine ⟨entry', ?_, hget⟩
      rw [hentries, if_neg, hentry']
      intro heq
      rw [heq, hentry] at hentry'
      apply hspent
      rw [Option.some.inj hentry']
      exact exists_prevout_iff.mp ⟨n, hget⟩
    · rintro ⟨entry', hentry', hget⟩
      rw [hentries] at hentry'
      split_ifs at hentry' with hne
      have hmark := (indexed.next o ptx n).mpr ⟨entry', hentry', hget⟩
      rw [if_neg, hmark]
      rintro ⟨txin, htxin, rfl⟩
      obtain ⟨m, hother⟩ := indexed.marked hentry htxin
      rw [hmark] at hother
      exact hne (CInPoint.mk.inj (Option.some.inj hother)).1
  case total =>
    dsimp only [CTxMemPool.takeOut]
    have htotal := @total_eq_add_erase _ _ _ _ _ _ (fun _ entry => entry.nTxSize.toNat) hentry
    rw [indexed.total, htotal, UInt64.ofNat_add, UInt64.ofNat_toNat, UInt64.add_comm,
      UInt64.add_sub_cancel]

theorem within_takeOut (hash : Uint256) (entry : CTxMemPoolEntry) :
    Within (pool.takeOut hash entry) pool := by
  constructor
  case entries =>
    intro k entry' hentry'
    dsimp only [CTxMemPool.takeOut] at hentry'
    rw [lookup_erase_eq] at hentry'
    split_ifs at hentry'
    exact hentry'
  case marks =>
    intro o it hmark
    dsimp only [CTxMemPool.takeOut] at hmark
    rw [lookup_unmarkInputs] at hmark
    split_ifs at hmark
    exact hmark

theorem isSome_of_spendable {n : ℕ} (h : tx.spendable n = true) :
    ∃ txout, tx.vout[n]? = some txout ∧ txout.isNull = false := by
  obtain ⟨txout, hget, hnull, -⟩ := CCoins.isAvailable_iff.mp h
  have hmap : (tx.vout.map fun txout =>
      if txout.scriptPubKey.isUnspendable then CTxOut.null else txout)[n]? = some txout :=
    of_getElem?_rdropWhile hget
  rw [List.getElem?_map] at hmap
  obtain ⟨source, hsource, heq⟩ := Option.map_eq_some_iff.mp hmap
  refine ⟨source, hsource, ?_⟩
  split_ifs at heq
  · rw [← heq, CTxOut.isNull_null] at hnull
    contradiction
  · rw [heq]
    exact hnull

theorem mem_children_of_marked {n nOutputs : ℕ} {it : CInPoint} (hn : n < nOutputs)
    (hmark : pool.mapNextTx.lookup ⟨hash, n⟩ = some it) :
    it.ptx ∈ pool.children hash nOutputs := by
  apply List.mem_filterMap.mpr
  refine ⟨n, List.mem_range.mpr hn, ?_⟩
  rw [hmark, Option.map_some]

/-- A child of a transaction is pushed when the transaction is taken out. -/
theorem Indexed.mem_children (indexed : pool.Indexed)
    (hentry : pool.mapTx.lookup hash = some entry) {txin : CTxIn} (htxin : txin ∈ entry.tx.vin)
    (hspendable : tx.spendable txin.prevout.n = true) :
    hash ∈ pool.children txin.prevout.hash tx.vout.length := by
  obtain ⟨txout, hget, -⟩ := isSome_of_spendable hspendable
  have hlt := (List.getElem?_eq_some_iff.mp hget).1
  obtain ⟨m, hmark⟩ := indexed.marked hentry htxin
  exact mem_children_of_marked hlt hmark

theorem inputFound_congr (h : pool'.mapTx.lookup o.hash = pool.mapTx.lookup o.hash) :
    pool'.InputFound avail o ↔ pool.InputFound avail o := by
  unfold InputFound
  rw [h]

theorem InputFound.mono (h : avail o → avail' o) (found : pool.InputFound avail o) :
    pool.InputFound avail' o := by
  unfold InputFound at *
  cases hentry : pool.mapTx.lookup o.hash with
  | none =>
    rw [hentry] at found
    exact h found
  | some parent =>
    rw [hentry] at found
    exact found

theorem lookup_takeOut (k : Uint256) : (pool.takeOut hash entry).mapTx.lookup k =
    if k = hash then none else pool.mapTx.lookup k := lookup_erase_eq k

/-- A step of a recursive removal: the children of what is taken out are pushed. -/
theorem Indexed.takeOut_recursive (indexed : pool.Indexed)
    (hentry : pool.mapTx.lookup hash = some entry)
    (found : pool.InputsFound avail (hash :: txToRemove)) :
    (pool.takeOut hash entry).InputsFound avail
      (txToRemove ++ pool.pushed true hash entry.tx.vout.length) := by
  intro k child hchild hnot txin htxin
  rw [lookup_takeOut] at hchild
  split_ifs at hchild with hk
  rw [List.mem_append, not_or] at hnot
  have hinput := found k child hchild (List.not_mem_cons_of_ne_of_not_mem hk hnot.1) txin htxin
  by_cases hparent : txin.prevout.hash = hash
  · unfold InputFound at hinput
    rw [hparent, hentry] at hinput
    have hpushed := indexed.mem_children hchild htxin hinput
    rw [hparent] at hpushed
    exact absurd hpushed hnot.2
  · apply (inputFound_congr _).mpr hinput
    rw [lookup_takeOut, if_neg hparent]

/-- A transaction that is removed alone leaves its spent outputs to the coins. -/
theorem Indexed.takeOut_alone (indexed : pool.Indexed)
    (hentry : pool.mapTx.lookup hash = some entry)
    (hcoins : ∀ n, entry.tx.spendable n = true → pool.mapNextTx.lookup ⟨hash, n⟩ ≠ none →
      avail ⟨hash, n⟩)
    (found : pool.InputsFound avail (hash :: txToRemove)) :
    (pool.takeOut hash entry).InputsFound avail txToRemove := by
  intro k child hchild hnot txin htxin
  rw [lookup_takeOut] at hchild
  split_ifs at hchild with hk
  have hinput := found k child hchild (List.not_mem_cons_of_ne_of_not_mem hk hnot) txin htxin
  by_cases hparent : txin.prevout.hash = hash
  · unfold InputFound at hinput ⊢
    rw [hparent, hentry] at hinput
    rw [lookup_takeOut, if_pos hparent]
    obtain ⟨m, hmark⟩ := indexed.marked hchild htxin
    rw [← hparent] at hcoins
    apply hcoins _ hinput
    rw [hmark]
    exact Option.some_ne_none _
  · apply (inputFound_congr _).mpr hinput
    rw [lookup_takeOut, if_neg hparent]

theorem InputsFound.skip (habsent : pool.mapTx.lookup hash = none)
    (found : pool.InputsFound avail (hash :: txToRemove)) : pool.InputsFound avail txToRemove := by
  intro k entry hentry hnot
  have hne : k ≠ hash := by
    intro heq
    rw [heq, habsent] at hentry
    contradiction
  exact found k entry hentry (List.not_mem_cons_of_ne_of_not_mem hne hnot)

/-- What a removal keeps, whatever the coins are. -/
structure Removes (avail : COutPoint → Prop) (pool pool' : CTxMemPool) : Prop where
  indexed : pool'.Indexed
  found : pool'.InputsFound avail []
  within : Within pool' pool

theorem Removes.trans (h : Removes avail pool pool') (h' : Removes avail pool' pool'') :
    Removes avail pool pool'' :=
  ⟨h'.indexed, h'.found, h.within.trans h'.within⟩

theorem removeLoop_nil (fRecursive : Bool) : removeLoop fRecursive pool [] = pool := by
  rw [removeLoop]

theorem removeLoop_none (fRecursive : Bool) (habsent : pool.mapTx.lookup hash = none) :
    removeLoop fRecursive pool (hash :: txToRemove) = removeLoop fRecursive pool txToRemove := by
  rw [removeLoop]
  split
  · rfl
  · rename_i entry hentry
    rw [hentry] at habsent
    contradiction

theorem removeLoop_some (fRecursive : Bool) (hentry : pool.mapTx.lookup hash = some entry) :
    removeLoop fRecursive pool (hash :: txToRemove) =
      removeLoop fRecursive (pool.takeOut hash entry)
        (txToRemove ++ pool.pushed fRecursive hash entry.tx.vout.length) := by
  rw [removeLoop]
  split
  · rename_i habsent
    rw [hentry] at habsent
    contradiction
  · rename_i found hfound
    rw [hentry] at hfound
    rw [Option.some.inj hfound]

theorem within_removeLoop (fRecursive : Bool) :
    Within (removeLoop fRecursive pool txToRemove) pool := by
  fun_induction removeLoop fRecursive pool txToRemove with
  | case1 pool => exact Within.refl pool
  | case2 pool hash txToRemove habsent ih => exact ih
  | case3 pool hash txToRemove entry hentry ih => exact (within_takeOut hash entry).trans ih

theorem remove_absent (tx : CTransaction) (fRecursive : Bool) :
    (pool.remove tx fRecursive).mapTx.lookup tx.hash = none := by
  unfold remove
  cases hentry : pool.mapTx.lookup tx.hash with
  | none => exact (within_removeLoop fRecursive).absent hentry
  | some entry =>
    rw [removeLoop_some fRecursive hentry]
    apply (within_removeLoop fRecursive).absent
    rw [lookup_takeOut, if_pos rfl]

theorem removeLoop_recursive (indexed : pool.Indexed)
    (found : pool.InputsFound avail txToRemove) :
    Removes avail pool (removeLoop true pool txToRemove) := by
  fun_induction removeLoop true pool txToRemove with
  | case1 pool => exact ⟨indexed, found, Within.refl pool⟩
  | case2 pool hash txToRemove habsent ih => exact ih indexed (found.skip habsent)
  | case3 pool hash txToRemove entry hentry ih =>
    have htaken := ih (indexed.takeOut hentry) (indexed.takeOut_recursive hentry found)
    exact ⟨htaken.indexed, htaken.found, (within_takeOut hash entry).trans htaken.within⟩

/-- A recursive removal, after which the outputs of the transaction may be gone. -/
theorem remove_recursive_of_gone (indexed : pool.Indexed) (found : pool.InputsFound avail' [])
    (hgone : ∀ o, avail' o → avail o ∨ o.hash = tx.hash ∧ tx.spendable o.n = true) :
    Removes avail pool (pool.remove tx true) := by
  apply removeLoop_recursive indexed
  intro hash entry hentry hnot txin htxin
  have hinput := found hash entry hentry List.not_mem_nil txin htxin
  unfold InputFound at hinput ⊢
  cases hparent : pool.mapTx.lookup txin.prevout.hash with
  | some parent =>
    rw [hparent] at hinput
    exact hinput
  | none =>
    rw [hparent] at hinput
    rcases hgone _ hinput with havail | ⟨hhash, hspendable⟩
    · exact havail
    · rw [hhash] at hparent
      have hchild := indexed.mem_children hentry htxin hspendable
      rw [hhash] at hchild
      exfalso
      apply hnot
      rw [hparent]
      exact List.mem_cons_of_mem _ hchild

theorem remove_recursive (indexed : pool.Indexed) (found : pool.InputsFound avail []) :
    Removes avail pool (pool.remove tx true) :=
  remove_recursive_of_gone indexed found fun _ havail => Or.inl havail

theorem remove_alone (indexed : pool.Indexed) (found : pool.InputsFound avail [])
    (hcoins : ∀ entry, pool.mapTx.lookup tx.hash = some entry → ∀ n,
      entry.tx.spendable n = true → pool.mapNextTx.lookup ⟨tx.hash, n⟩ ≠ none →
      avail ⟨tx.hash, n⟩) :
    Removes avail pool (pool.remove tx false) := by
  have hqueue : InputsFound pool avail [tx.hash] := by
    intro hash entry hentry _
    exact found hash entry hentry List.not_mem_nil
  cases hentry : pool.mapTx.lookup tx.hash with
  | none =>
    have hsame : pool.remove tx false = pool := by
      unfold remove
      rw [removeLoop_none false hentry, hentry]
      exact removeLoop_nil false
    rw [hsame]
    exact ⟨indexed, found, Within.refl pool⟩
  | some entry =>
    have htaken : pool.remove tx false = pool.takeOut tx.hash entry := by
      unfold remove
      rw [removeLoop_some false hentry, hentry]
      exact removeLoop_nil false
    rw [htaken]
    exact ⟨indexed.takeOut hentry,
      indexed.takeOut_alone hentry (hcoins entry hentry) hqueue, within_takeOut tx.hash entry⟩

theorem removes_self (indexed : pool.Indexed) (found : pool.InputsFound avail []) :
    Removes avail pool pool := ⟨indexed, found, Within.refl pool⟩

theorem removeAll_removes (transactionsToRemove : List CTransaction) (indexed : pool.Indexed)
    (found : pool.InputsFound avail []) :
    Removes avail pool (pool.removeAll transactionsToRemove) := by
  induction transactionsToRemove generalizing pool with
  | nil => exact removes_self indexed found
  | cons tx rest ih =>
    have hfirst : Removes avail pool (pool.remove tx true) := remove_recursive indexed found
    exact hfirst.trans (ih hfirst.indexed hfirst.found)

theorem removeConflict_removes (txin : CTxIn) (indexed : pool.Indexed)
    (found : pool.InputsFound avail []) :
    Removes avail pool (pool.removeConflict tx txin) := by
  unfold removeConflict
  split
  · exact removes_self indexed found
  · split
    · exact removes_self indexed found
    · split_ifs
      · exact remove_recursive indexed found
      · exact removes_self indexed found

/-- Nothing spends what a transaction spends that is not in the pool, once its conflicts are
removed. -/
theorem removeConflict_unmarked (txin : CTxIn) (indexed : pool.Indexed)
    (found : pool.InputsFound avail []) (habsent : pool.mapTx.lookup tx.hash = none) :
    (pool.removeConflict tx txin).mapNextTx.lookup txin.prevout = none := by
  have hremoves : Removes avail pool (pool.removeConflict tx txin) :=
    removeConflict_removes txin indexed found
  cases hmark : pool.mapNextTx.lookup txin.prevout with
  | none => exact hremoves.within.unmarked hmark
  | some it =>
    obtain ⟨entry, hentry, -⟩ := indexed.spender hmark
    have hhash : entry.tx.hash = it.ptx := indexed.hash it.ptx entry hentry
    have hne : entry.tx.hash ≠ tx.hash := by
      intro heq
      rw [← heq, hhash, hentry] at habsent
      contradiction
    have hresult : pool.removeConflict tx txin = pool.remove entry.tx true := by
      unfold removeConflict
      rw [hmark]
      dsimp only
      rw [hentry]
      exact if_pos hne
    cases hafter : (pool.removeConflict tx txin).mapNextTx.lookup txin.prevout with
    | none => rfl
    | some it' =>
      have hsame : it' = it :=
        Option.some.inj ((hremoves.within.marks _ it' hafter).symm.trans hmark)
      obtain ⟨entry', hentry', -⟩ := hremoves.indexed.spender hafter
      rw [hresult, hsame, ← hhash, remove_absent] at hentry'
      contradiction

theorem conflictsLoop_removes (vin : List CTxIn) (indexed : pool.Indexed)
    (found : pool.InputsFound avail []) :
    Removes avail pool (vin.foldl (fun pool txin => pool.removeConflict tx txin) pool) := by
  induction vin generalizing pool with
  | nil => exact removes_self indexed found
  | cons first rest ih =>
    have hfirst : Removes avail pool (pool.removeConflict tx first) :=
      removeConflict_removes first indexed found
    exact hfirst.trans (ih hfirst.indexed hfirst.found)

theorem conflictsLoop_unmarked (vin : List CTxIn) (indexed : pool.Indexed)
    (found : pool.InputsFound avail []) (habsent : pool.mapTx.lookup tx.hash = none)
    (txin : CTxIn) (htxin : txin ∈ vin) :
    (vin.foldl (fun pool txin => pool.removeConflict tx txin) pool).mapNextTx.lookup
      txin.prevout = none := by
  induction vin generalizing pool with
  | nil => contradiction
  | cons first rest ih =>
    have hfirst : Removes avail pool (pool.removeConflict tx first) :=
      removeConflict_removes first indexed found
    rcases List.mem_cons.mp htxin with rfl | hmem
    · have hrest : Removes avail (pool.removeConflict tx txin)
          (rest.foldl (fun pool txin => pool.removeConflict tx txin)
            (pool.removeConflict tx txin)) :=
        conflictsLoop_removes rest hfirst.indexed hfirst.found
      exact hrest.within.unmarked (removeConflict_unmarked txin indexed found habsent)
    · exact ih hfirst.indexed hfirst.found (hfirst.within.absent habsent) hmem

theorem removeConflicts_removes (tx : CTransaction) (indexed : pool.Indexed)
    (found : pool.InputsFound avail []) : Removes avail pool (pool.removeConflicts tx) :=
  conflictsLoop_removes tx.vin indexed found

/-- The loop of `removeForBlock`: the transactions of the block are taken out alone, and nothing
spends what they spend any more. -/
theorem removeForBlock_removes (vtx : List CTransaction) (indexed : pool.Indexed)
    (found : pool.InputsFound avail [])
    (hcoins : ∀ tx ∈ vtx, ∀ entry, pool.mapTx.lookup tx.hash = some entry → ∀ n,
      entry.tx.spendable n = true → avail ⟨tx.hash, n⟩) :
    Removes avail pool (pool.removeForBlock vtx) ∧ ∀ tx ∈ vtx, ∀ txin ∈ tx.vin,
      (pool.removeForBlock vtx).mapNextTx.lookup txin.prevout = none := by
  induction vtx generalizing pool with
  | nil =>
    refine ⟨removes_self indexed found, ?_⟩
    intro tx htx
    contradiction
  | cons first rest ih =>
    have hremoved : Removes avail pool (pool.remove first false) := by
      apply remove_alone indexed found
      intro entry hentry n hspendable _
      exact hcoins first List.mem_cons_self entry hentry n hspendable
    have hfirst : Removes avail (pool.remove first false)
        ((pool.remove first false).removeConflicts first) :=
      removeConflicts_removes first hremoved.indexed hremoved.found
    have hboth := hremoved.trans hfirst
    obtain ⟨hrest, hunmarked⟩ := ih hboth.indexed hboth.found fun tx htx entry hentry =>
      hcoins tx (List.mem_cons_of_mem _ htx) entry (hboth.within.entries _ entry hentry)
    refine ⟨hboth.trans hrest, ?_⟩
    intro tx htx txin htxin
    rcases List.mem_cons.mp htx with rfl | hmem
    · apply hrest.within.unmarked
      exact conflictsLoop_unmarked tx.vin hremoved.indexed hremoved.found
        (remove_absent tx false) txin htxin
    · exact hunmarked tx hmem txin htxin

theorem foldl_sizes (entries : List (Σ _ : Uint256, CTxMemPoolEntry)) (start : UInt64) :
    entries.foldl (fun checkTotal it => checkTotal + it.2.nTxSize) start =
      start + UInt64.ofNat (entries.map fun it => it.2.nTxSize.toNat).sum := by
  induction entries generalizing start with
  | nil => simp
  | cons it entries ih =>
    rw [List.foldl_cons, ih, List.map_cons, List.sum_cons, UInt64.ofNat_add, UInt64.ofNat_toNat,
      UInt64.add_assoc]

/-- The assertions of `check` hold of a pool with its index, its sum and all its inputs. -/
theorem Indexed.check {coins : CoinsAccess} (indexed : pool.Indexed)
    (found : pool.InputsFound (fun o => coins.available o = true) []) :
    pool.check coins = true := by
  unfold CTxMemPool.check
  rw [Bool.and_eq_true, Bool.and_eq_true]
  refine ⟨⟨?_, ?_⟩, ?_⟩
  · apply List.all_eq_true.mpr
    rintro ⟨hash, entry⟩ hmem
    have hentry := mem_entries_iff.mp hmem
    apply List.all_eq_true.mpr
    rintro ⟨txin, i⟩ hinput
    have hget : entry.tx.vin[i]? = some txin := List.mem_zipIdx_iff_getElem?.mp hinput
    have hmark : pool.mapNextTx.lookup txin.prevout = some ⟨hash, i⟩ := by
      apply (indexed.next _ _ _).mpr
      exact ⟨entry, hentry, by rw [hget, Option.map_some]⟩
    have hsource := found hash entry hentry List.not_mem_nil txin (List.mem_of_getElem? hget)
    unfold InputFound at hsource
    dsimp only [checkInput]
    rw [hmark, decide_eq_true rfl, Bool.and_true]
    cases hparent : pool.mapTx.lookup txin.prevout.hash with
    | none =>
      rw [hparent] at hsource
      exact hsource
    | some parent =>
      rw [hparent] at hsource
      obtain ⟨txout, hout, hnull⟩ := isSome_of_spendable hsource
      dsimp only
      rw [hout, Option.any_some, hnull]
      rfl
  · apply List.all_eq_true.mpr
    rintro ⟨o, it⟩ hmem
    obtain ⟨entry, hentry, hget⟩ := (indexed.next o it.ptx it.n).mp (mem_entries_iff.mp hmem)
    obtain ⟨txin, hinput, heq⟩ := Option.map_eq_some_iff.mp hget
    dsimp only [checkNextTx]
    rw [hentry]
    dsimp only
    rw [indexed.hash _ _ hentry, hinput, Option.any_some, heq]
    simp
  · rw [beq_iff_eq, indexed.total]
    unfold checkTotal
    rw [foldl_sizes, UInt64.zero_add]
    rfl

end
end CTxMemPool
end Lytix
