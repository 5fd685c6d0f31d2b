import Lytix.Lib.Worklists
import Lytix.Mempool.PoolInvariant

/-! What a recursive removal takes out of the pool. The index leaves out the inputs of zerocoin
spends when they are added, but the removal erases the marks of their outpoints, too. -/
namespace Lytix

open CountEntries Worklists

namespace CTxMemPool

/-- The loop of `remove`, with the list of what it takes out. -/
def removeLoopInto (fRecursive : Bool) (pool : CTxMemPool) :
    List Uint256 → List CTransaction → CTxMemPool × List CTransaction
  | [], removed => (pool, removed)
  | hash :: txToRemove, removed =>
    match _hfound : pool.mapTx.lookup hash with
    | none => removeLoopInto fRecursive pool txToRemove removed
    | some entry =>
      removeLoopInto fRecursive (pool.takeOut hash entry)
        (txToRemove ++ pool.pushed fRecursive hash entry.tx.vout.length) (removed ++ [entry.tx])
termination_by txToRemove => txToRemove.length + pool.outputs
decreasing_by
  · rw [List.length_cons]
    omega
  · have houtputs := outputs_takeOut _hfound
    have hpushed := length_pushed_le pool fRecursive hash entry.tx.vout.length
    rw [List.length_append, List.length_cons]
    omega

/-- `remove`, with its argument `removed`. -/
def removeInto (pool : CTxMemPool) (origTx : CTransaction) (removed : List CTransaction)
    (fRecursive : Bool) : CTxMemPool × List CTransaction :=
  removeLoopInto fRecursive pool (origTx.hash ::
    if (pool.mapTx.lookup origTx.hash).isNone then
      pool.pushed fRecursive origTx.hash origTx.vout.length
    else []) removed

/-- The index is the inverse of the inputs of the pool, but for the zerocoin spends and some
outpoints. -/
structure IndexedBut (named : COutPoint → Prop) (pool : CTxMemPool) : Prop where
  hash : ∀ hash entry, pool.mapTx.lookup hash = some entry → entry.tx.hash = hash
  next : ∀ o ptx n, pool.mapNextTx.lookup o = some ⟨ptx, n⟩ ↔ ¬ named o ∧
    ∃ entry, pool.mapTx.lookup ptx = some entry ∧ entry.tx.isZerocoinSpend = false ∧
      (entry.tx.vin[n]?).map CTxIn.prevout = some o

/-- The index is what `addUnchecked` makes it. -/
def Consistent (pool : CTxMemPool) : Prop := IndexedBut (fun _ => False) pool

/-- A removal takes out the transactions of a set, lists each of them once, and leaves the others
with their marks. -/
structure TakesOut (gone : Uint256 → Prop) (pool : CTxMemPool) (removed : List CTransaction)
    (result : CTxMemPool × List CTransaction) : Prop where
  entries : ∀ hash entry, result.1.mapTx.lookup hash = some entry ↔
    pool.mapTx.lookup hash = some entry ∧ ¬ gone hash
  marks : ∀ o it, result.1.mapNextTx.lookup o = some it ↔
    pool.mapNextTx.lookup o = some it ∧ ¬ gone it.ptx
  listed : ∃ listed, result.2 = removed ++ listed ∧ (listed.map CTransaction.hash).Nodup ∧
    ∀ tx, tx ∈ listed ↔
      ∃ entry, pool.mapTx.lookup tx.hash = some entry ∧ entry.tx = tx ∧ gone tx.hash

section
variable (pool : CTxMemPool) (origTx : CTransaction)

def Pooled (hash : Uint256) : Prop := ∃ entry, pool.mapTx.lookup hash = some entry

/-- How many outputs a transaction has: the one that is to be removed, or another of the pool. -/
def outputCount (hash : Uint256) : ℕ :=
  match pool.mapTx.lookup hash with
  | some entry => entry.tx.vout.length
  | none => if hash = origTx.hash then origTx.vout.length else 0

/-- A transaction of the pool spends an output of another one, by an outpoint. The inputs of a
zerocoin spend name no outputs. -/
def SpendsBy (o : COutPoint) (parent child : Uint256) : Prop :=
  o.hash = parent ∧ o.n < pool.outputCount origTx parent ∧
    ∃ entry, pool.mapTx.lookup child = some entry ∧ entry.tx.isZerocoinSpend = false ∧
      ∃ txin ∈ entry.tx.vin, txin.prevout = o

def Spends (parent child : Uint256) : Prop := ∃ o, pool.SpendsBy origTx o parent child

/-- A transaction of the pool spends an output directly, or through others of the pool. -/
inductive Descends : Uint256 → Prop
  | child {c : Uint256} (h : pool.Spends origTx origTx.hash c) : Descends c
  | next {d c : Uint256} (hd : Descends d) (h : pool.Spends origTx d c) : Descends c

/-- What a recursive removal is to take out: the transaction, if it is in the pool, and all that
descends from it. -/
def Gone (hash : Uint256) : Prop :=
  pool.Pooled hash ∧ (hash = origTx.hash ∨ pool.Descends origTx hash)

/-- An outpoint that the transaction names as an input, if it is a zerocoin spend of the pool. -/
def NamedByRoot (o : COutPoint) : Prop :=
  ∃ entry, pool.mapTx.lookup origTx.hash = some entry ∧ entry.tx.isZerocoinSpend = true ∧
    ∃ txin ∈ entry.tx.vin, txin.prevout = o

/-- The marks that the walk still finds: those of the transaction itself, and those of outpoints
that it does not name. -/
def Found (parent child : Uint256) : Prop :=
  ∃ o, pool.SpendsBy origTx o parent child ∧ (parent = origTx.hash ∨ ¬ pool.NamedByRoot origTx o)

/-- The outpoints that a zerocoin spend names are spent by nothing in the pool, or by what descends
from it without them. -/
def NamesNothingElse : Prop :=
  ∀ o it, pool.NamedByRoot origTx o → pool.mapNextTx.lookup o = some it →
    Reached pool.Pooled (pool.Found origTx) [origTx.hash] it.ptx

end

section
variable {pool pool' : CTxMemPool} {named : COutPoint → Prop} {hash ptx : Uint256}
  {entry : CTxMemPoolEntry} {o : COutPoint} {it : CInPoint} {txToRemove : List Uint256}
  {removed : List CTransaction} {tx origTx : CTransaction} {fRecursive : Bool}

/-! The list of what is removed changes nothing. -/

theorem removeLoopInto_fst :
    (removeLoopInto fRecursive pool txToRemove removed).1 =
      removeLoop fRecursive pool txToRemove := by
  fun_induction removeLoopInto fRecursive pool txToRemove removed with
  | case1 pool removed => exact (removeLoop_nil fRecursive).symm
  | case2 pool hash txToRemove removed habsent ih =>
    rw [removeLoop_none fRecursive habsent]
    exact ih
  | case3 pool hash txToRemove removed entry hentry ih =>
    rw [removeLoop_some fRecursive hentry]
    exact ih

theorem removeInto_fst :
    (pool.removeInto tx removed fRecursive).1 = pool.remove tx fRecursive := removeLoopInto_fst

/-! Marks. -/

theorem IndexedBut.mark_iff (indexed : IndexedBut named pool) :
    (∃ n, pool.mapNextTx.lookup o = some ⟨ptx, n⟩) ↔ ¬ named o ∧
      ∃ entry, pool.mapTx.lookup ptx = some entry ∧ entry.tx.isZerocoinSpend = false ∧
        ∃ txin ∈ entry.tx.vin, txin.prevout = o := by
  simp only [indexed.next]
  constructor
  · rintro ⟨n, hfree, entry, hentry, hspend, hget⟩
    exact ⟨hfree, entry, hentry, hspend, exists_prevout_iff.mp ⟨n, hget⟩⟩
  · rintro ⟨hfree, entry, hentry, hspend, hnamed⟩
    obtain ⟨n, hget⟩ := exists_prevout_iff.mpr hnamed
    exact ⟨n, hfree, entry, hentry, hspend, hget⟩

/-- The children of a transaction are those that its outputs are marked with. -/
theorem IndexedBut.mem_children (indexed : IndexedBut named pool) {nOutputs : ℕ} :
    ptx ∈ pool.children hash nOutputs ↔ ∃ o : COutPoint, o.hash = hash ∧ o.n < nOutputs ∧
      ¬ named o ∧ ∃ entry, pool.mapTx.lookup ptx = some entry ∧
        entry.tx.isZerocoinSpend = false ∧ ∃ txin ∈ entry.tx.vin, txin.prevout = o := by
  unfold children
  rw [List.mem_filterMap]
  constructor
  · rintro ⟨i, hi, hmark⟩
    obtain ⟨it, hit, rfl⟩ := Option.map_eq_some_iff.mp hmark
    have hchild := indexed.mark_iff.mp ⟨it.n, hit⟩
    exact ⟨⟨hash, i⟩, rfl, List.mem_range.mp hi, hchild⟩
  · rintro ⟨o, rfl, hlt, hchild⟩
    obtain ⟨n, hmark⟩ := indexed.mark_iff.mpr hchild
    refine ⟨o.n, List.mem_range.mpr hlt, ?_⟩
    rw [hmark]
    rfl

theorem lookup_mapNextTx_takeOut :
    (pool.takeOut hash entry).mapNextTx.lookup o =
      if ∃ txin ∈ entry.tx.vin, txin.prevout = o then none else pool.mapNextTx.lookup o :=
  lookup_unmarkInputs _ _

/-- To take out a transaction of the index. -/
theorem IndexedBut.takeOut (indexed : IndexedBut named pool)
    (hentry : pool.mapTx.lookup hash = some entry) (hspend : entry.tx.isZerocoinSpend = false) :
    IndexedBut named (pool.takeOut hash entry) := by
  constructor
  case hash =>
    intro k entry' hentry'
    rw [lookup_takeOut] at hentry'
    split_ifs at hentry'
    exact indexed.hash k entry' hentry'
  case next =>
    intro o ptx n
    rw [lookup_mapNextTx_takeOut]
    constructor
    · intro hmark
      split_ifs at hmark with hspent
      obtain ⟨hfree, entry', hentry', hspend', hget⟩ := (indexed.next o ptx n).mp hmark
      refine ⟨hfree, entry', ?_, hspend', hget⟩
      rw [lookup_takeOut, if_neg, hentry']
      intro heq
      rw [heq, hentry] at hentry'
      apply hspent
      rw [Option.some.inj hentry']
      exact exists_prevout_iff.mp ⟨n, hget⟩
    · rintro ⟨hfree, entry', hentry', hspend', hget⟩
      rw [lookup_takeOut] at hentry'
      split_ifs at hentry' with hne
      have hmark := (indexed.next o ptx n).mpr ⟨hfree, entry', hentry', hspend', hget⟩
      rw [if_neg, hmark]
      intro hnamed
      obtain ⟨m, hother⟩ := indexed.mark_iff.mpr ⟨hfree, entry, hentry, hspend, hnamed⟩
      rw [hmark] at hother
      exact hne (CInPoint.mk.inj (Option.some.inj hother)).1

/-- To take out a zerocoin spend loses the marks of the outpoints that it names. -/
theorem Consistent.takeOut_spend (consistent : pool.Consistent)
    (hentry : pool.mapTx.lookup hash = some entry) (hspend : entry.tx.isZerocoinSpend = true) :
    IndexedBut (fun o => ∃ txin ∈ entry.tx.vin, txin.prevout = o) (pool.takeOut hash entry) := by
  constructor
  case hash =>
    intro k entry' hentry'
    rw [lookup_takeOut] at hentry'
    split_ifs at hentry'
    exact consistent.hash k entry' hentry'
  case next =>
    intro o ptx n
    rw [lookup_mapNextTx_takeOut]
    have hkept (entry' : CTxMemPoolEntry) (hspend' : entry'.tx.isZerocoinSpend = false) :
        (pool.takeOut hash entry).mapTx.lookup ptx = some entry' ↔
          pool.mapTx.lookup ptx = some entry' := by
      rw [lookup_takeOut]
      by_cases heq : ptx = hash
      · rw [if_pos heq, heq, hentry]
        simp only [Option.some.injEq, reduceCtorEq, false_iff]
        rintro rfl
        rw [hspend] at hspend'
        contradiction
      · rw [if_neg heq]
    constructor
    · intro hmark
      split_ifs at hmark with hnamed
      obtain ⟨-, entry', hentry', hspend', hget⟩ := (consistent.next o ptx n).mp hmark
      exact ⟨hnamed, entry', (hkept entry' hspend').mpr hentry', hspend', hget⟩
    · rintro ⟨hfree, entry', hentry', hspend', hget⟩
      rw [if_neg hfree]
      exact (consistent.next o ptx n).mpr ⟨not_false, entry', (hkept entry' hspend').mp hentry',
        hspend', hget⟩

/-! How a consistent pool comes about. -/

theorem consistent_empty : empty.Consistent := by
  constructor
  case hash =>
    intro hash entry hentry
    rw [empty, AList.lookup_empty] at hentry
    contradiction
  case next =>
    intro o ptx n
    simp only [empty, AList.lookup_empty]
    simp

theorem lookup_addUnchecked (k : Uint256) : (pool.addUnchecked hash entry).mapTx.lookup k =
    if k = hash then some entry else pool.mapTx.lookup k := lookup_insert_eq k

/-- A new transaction, which is a zerocoin spend or spends what is not marked yet. -/
theorem Consistent.addUnchecked (consistent : pool.Consistent)
    (hnew : pool.mapTx.lookup entry.tx.hash = none)
    (hfree : entry.tx.isZerocoinSpend = false → (entry.tx.vin.map CTxIn.prevout).Nodup ∧
      ∀ txin ∈ entry.tx.vin, pool.mapNextTx.lookup txin.prevout = none) :
    (pool.addUnchecked entry.tx.hash entry).Consistent := by
  have hold (o : COutPoint) (ptx : Uint256) (n : ℕ) : pool.mapNextTx.lookup o = some ⟨ptx, n⟩ ↔
      ptx ≠ entry.tx.hash ∧ ∃ entry', pool.mapTx.lookup ptx = some entry' ∧
        entry'.tx.isZerocoinSpend = false ∧ (entry'.tx.vin[n]?).map CTxIn.prevout = some o := by
    rw [consistent.next]
    constructor
    · rintro ⟨-, entry', hentry', hrest⟩
      refine ⟨?_, entry', hentry', hrest⟩
      rintro rfl
      rw [hnew] at hentry'
      contradiction
    · rintro ⟨-, hrest⟩
      exact ⟨not_false, hrest⟩
  constructor
  case hash =>
    intro hash entry' hentry'
    rw [lookup_addUnchecked] at hentry'
    split_ifs at hentry' with heq
    · rw [← Option.some.inj hentry', heq]
    · exact consistent.hash hash entry' hentry'
  case next =>
    intro o ptx n
    simp only [lookup_addUnchecked, not_false_eq_true, true_and]
    cases hspend : entry.tx.isZerocoinSpend with
    | true =>
      have hmarks : (pool.addUnchecked entry.tx.hash entry).mapNextTx = pool.mapNextTx := by
        simp only [CTxMemPool.addUnchecked, hspend, if_true]
      rw [hmarks, hold]
      by_cases heq : ptx = entry.tx.hash
      · simp [heq, hspend]
      · simp [heq]
    | false =>
      obtain ⟨hnodup, hunmarked⟩ := hfree hspend
      have hmarks : (pool.addUnchecked entry.tx.hash entry).mapNextTx =
          markInputs entry.tx.hash 0 entry.tx.vin pool.mapNextTx := by
        simp only [CTxMemPool.addUnchecked, hspend]
        rfl
      rw [hmarks, lookup_markInputs 0 _ hnodup]
      by_cases heq : ptx = entry.tx.hash
      · simp [heq, hspend, hold]
      · simp only [heq, if_false, CInPoint.mk.injEq, false_and, and_false, exists_false, false_or]
        rw [hold]
        constructor
        · rintro ⟨-, -, hrest⟩
          exact hrest
        · intro hrest
          refine ⟨?_, heq, hrest⟩
          rintro txin htxin rfl
          have hmark := (hold txin.prevout ptx n).mpr ⟨heq, hrest⟩
          rw [hunmarked txin htxin] at hmark
          contradiction

/-! The walk. -/

/-- A walk over the pool finds the links of every transaction that it takes out. -/
structure Walkable (named : COutPoint → Prop) (link : Uint256 → Uint256 → Prop) (pool : CTxMemPool)
    (txToRemove : List Uint256) : Prop where
  indexed : IndexedBut named pool
  link : ∀ d entry, pool.mapTx.lookup d = some entry → ∀ c, pool.Pooled c → (link d c ↔
    ∃ o : COutPoint, o.hash = d ∧ o.n < entry.tx.vout.length ∧ ¬ named o ∧
      ∃ child, pool.mapTx.lookup c = some child ∧ child.tx.isZerocoinSpend = false ∧
        ∃ txin ∈ child.tx.vin, txin.prevout = o)
  queue : ∀ hash ∈ txToRemove, ∀ entry, pool.mapTx.lookup hash = some entry →
    entry.tx.isZerocoinSpend = false

variable {link : Uint256 → Uint256 → Prop} {gone : Uint256 → Prop}
  {result : CTxMemPool × List CTransaction}

theorem pooled_takeOut {k : Uint256} :
    (pool.takeOut hash entry).Pooled k ↔ pool.Pooled k ∧ k ≠ hash := by
  unfold Pooled
  rw [lookup_takeOut]
  by_cases heq : k = hash
  · simp [heq]
  · simp [heq]

theorem Walkable.mem_children (walkable : Walkable named link pool txToRemove)
    (hentry : pool.mapTx.lookup hash = some entry) {c : Uint256} (hc : pool.Pooled c) :
    c ∈ pool.children hash entry.tx.vout.length ↔ link hash c := by
  rw [walkable.indexed.mem_children, walkable.link hash entry hentry c hc]

theorem Walkable.takeOut (walkable : Walkable named link pool (hash :: txToRemove))
    (hentry : pool.mapTx.lookup hash = some entry) :
    Walkable named link (pool.takeOut hash entry)
      (txToRemove ++ pool.pushed true hash entry.tx.vout.length) where
  indexed := walkable.indexed.takeOut hentry (walkable.queue hash List.mem_cons_self entry hentry)
  link := by
    intro d entry' hentry' c hc
    rw [lookup_takeOut] at hentry'
    split_ifs at hentry' with hd
    obtain ⟨hc', hne⟩ := pooled_takeOut.mp hc
    rw [walkable.link d entry' hentry' c hc', lookup_takeOut, if_neg hne]
  queue := by
    intro k hk entry' hentry'
    rw [lookup_takeOut] at hentry'
    split_ifs at hentry' with hne
    rcases List.mem_append.mp hk with hk | hk
    · exact walkable.queue k (List.mem_cons_of_mem _ hk) entry' hentry'
    · obtain ⟨o, -, -, -, child, hchild, hspend, -⟩ := walkable.indexed.mem_children.mp hk
      rw [← Option.some.inj (hchild.symm.trans hentry')]
      exact hspend

/-- The list of what is taken out starts with the first. -/
theorem TakesOut.listed_step
    (rest : TakesOut gone (pool.takeOut hash entry) (removed ++ [entry.tx]) result)
    (hhash : entry.tx.hash = hash) (hentry : pool.mapTx.lookup hash = some entry) :
    ∃ listed, result.2 = removed ++ listed ∧ (listed.map CTransaction.hash).Nodup ∧
      ∀ tx, tx ∈ listed ↔ ∃ entry, pool.mapTx.lookup tx.hash = some entry ∧ entry.tx = tx ∧
        (tx.hash = hash ∨ gone tx.hash) := by
  obtain ⟨listed, hresult, hnodup, hlisted⟩ := rest.listed
  have hother : ∀ tx ∈ listed, tx.hash ≠ hash := by
    intro tx htx heq
    obtain ⟨entry', hentry', -⟩ := (hlisted tx).mp htx
    rw [lookup_takeOut, if_pos heq] at hentry'
    contradiction
  refine ⟨entry.tx :: listed, ?_, ?_, ?_⟩
  · rw [hresult, List.append_assoc]
    rfl
  · rw [List.map_cons, List.nodup_cons, hhash]
    refine ⟨?_, hnodup⟩
    intro hmem
    obtain ⟨tx, htx, heq⟩ := List.mem_map.mp hmem
    exact hother tx htx heq
  · intro tx
    rw [List.mem_cons, hlisted, lookup_takeOut]
    constructor
    · rintro (rfl | ⟨entry', hentry', htx, hgone⟩)
      · rw [hhash]
        exact ⟨entry, hentry, rfl, Or.inl rfl⟩
      · split_ifs at hentry'
        exact ⟨entry', hentry', htx, Or.inr hgone⟩
    · rintro ⟨entry', hentry', rfl, hgone⟩
      by_cases heq : entry'.tx.hash = hash
      · left
        rw [heq, hentry] at hentry'
        rw [Option.some.inj hentry']
      · right
        rw [if_neg heq]
        exact ⟨entry', hentry', rfl, hgone.resolve_left heq⟩

/-- A transaction of the index is taken out, and then others. -/
theorem IndexedBut.takesOut_step (indexed : IndexedBut named pool)
    (hentry : pool.mapTx.lookup hash = some entry) (hspend : entry.tx.isZerocoinSpend = false)
    (rest : TakesOut gone (pool.takeOut hash entry) (removed ++ [entry.tx]) result) :
    TakesOut (fun k => k = hash ∨ gone k) pool removed result where
  entries := by
    intro k entry'
    rw [rest.entries, lookup_takeOut, not_or]
    by_cases heq : k = hash
    · simp [heq]
    · simp [heq]
  marks := by
    intro o it
    rw [rest.marks, lookup_mapNextTx_takeOut, not_or]
    constructor
    · rintro ⟨hmark, hstays⟩
      split_ifs at hmark with hnamed
      refine ⟨hmark, ?_, hstays⟩
      rintro rfl
      obtain ⟨-, entry', hentry', -, hnamed'⟩ := indexed.mark_iff.mp ⟨it.n, hmark⟩
      rw [hentry] at hentry'
      rw [← Option.some.inj hentry'] at hnamed'
      exact hnamed hnamed'
    · rintro ⟨hmark, hne, hstays⟩
      refine ⟨?_, hstays⟩
      rw [if_neg, hmark]
      intro hnamed
      have hfree := (indexed.mark_iff.mp ⟨it.n, hmark⟩).1
      obtain ⟨m, hother⟩ := indexed.mark_iff.mpr ⟨hfree, entry, hentry, hspend, hnamed⟩
      rw [hmark] at hother
      exact hne (congrArg CInPoint.ptx (Option.some.inj hother))
  listed := rest.listed_step (indexed.hash hash entry hentry) hentry

theorem takesOut_nothing (pool : CTxMemPool) (removed : List CTransaction)
    (hgone : ∀ hash, ¬ gone hash) : TakesOut gone pool removed (pool, removed) where
  entries := by simp [hgone]
  marks := by simp [hgone]
  listed := ⟨[], (List.append_nil _).symm, List.nodup_nil, by simp [hgone]⟩

/-- The loop takes out what is reached from the queue. -/
theorem Walkable.removeLoopInto (walkable : Walkable named link pool txToRemove) :
    TakesOut (Reached pool.Pooled link txToRemove) pool removed
      (removeLoopInto true pool txToRemove removed) := by
  fun_induction CTxMemPool.removeLoopInto true pool txToRemove removed with
  | case1 pool removed => exact takesOut_nothing pool removed fun _ => not_reached_nil
  | case2 pool hash txToRemove removed habsent ih =>
    have hdead : ¬ pool.Pooled hash := by
      rintro ⟨entry, hentry⟩
      rw [habsent] at hentry
      contradiction
    have hsame : Reached pool.Pooled link (hash :: txToRemove) =
        Reached pool.Pooled link txToRemove :=
      funext fun _ => propext (reached_cons_of_dead hdead)
    rw [hsame]
    exact ih ⟨walkable.indexed, walkable.link,
      fun k hk => walkable.queue k (List.mem_cons_of_mem _ hk)⟩
  | case3 pool hash txToRemove removed entry hentry ih =>
    have hspend := walkable.queue hash List.mem_cons_self entry hentry
    have hpooled : (pool.takeOut hash entry).Pooled = fun k => pool.Pooled k ∧ k ≠ hash :=
      funext fun _ => propext pooled_takeOut
    have hsame : Reached pool.Pooled link (hash :: txToRemove) = fun k => k = hash ∨
        Reached (pool.takeOut hash entry).Pooled link
          (txToRemove ++ pool.pushed true hash entry.tx.vout.length) k := by
      funext k
      rw [hpooled]
      exact propext (reached_cons_of_alive ⟨entry, hentry⟩ fun c hc =>
        walkable.mem_children hentry hc)
    rw [hsame]
    exact walkable.indexed.takesOut_step hentry hspend (ih (walkable.takeOut hentry))

/-! What is to be taken out, and what the walk reaches. -/

theorem outputCount_of_lookup (hentry : pool.mapTx.lookup hash = some entry) :
    pool.outputCount origTx hash = entry.tx.vout.length := by
  rw [outputCount, hentry]

theorem Spends.pooled {d c : Uint256} (h : pool.Spends origTx d c) : pool.Pooled c := by
  obtain ⟨o, -, -, entry, hentry, -⟩ := h
  exact ⟨entry, hentry⟩

theorem Descends.pooled {c : Uint256} (h : pool.Descends origTx c) : pool.Pooled c := by
  cases h with
  | child h => exact h.pooled
  | next _ h => exact h.pooled

/-- What is reached from the transaction itself and from those that spend its outputs. -/
theorem reached_eq_gone {queue : List Uint256} (hroot : origTx.hash ∈ queue)
    (hqueue : ∀ c ∈ queue, c = origTx.hash ∨ pool.Spends origTx origTx.hash c)
    (hkids : ¬ pool.Pooled origTx.hash → ∀ c, pool.Spends origTx origTx.hash c → c ∈ queue) :
    Reached pool.Pooled (pool.Spends origTx) queue = pool.Gone origTx := by
  funext c
  apply propext
  constructor
  · intro h
    refine ⟨h.living, ?_⟩
    induction h with
    | queued hc _ =>
      rcases hqueue _ hc with heq | hspends
      · exact Or.inl heq
      · exact Or.inr (Descends.child hspends)
    | next _ hlink _ ih =>
      rcases ih with rfl | hd
      · exact Or.inr (Descends.child hlink)
      · exact Or.inr (Descends.next hd hlink)
  · rintro ⟨hpooled, rfl | hdescends⟩
    · exact Reached.queued hroot hpooled
    · induction hdescends with
      | child hspends =>
        by_cases hin : pool.Pooled origTx.hash
        · exact Reached.next (Reached.queued hroot hin) hspends hspends.pooled
        · exact Reached.queued (hkids hin _ hspends) hspends.pooled
      | next hd hspends ih => exact Reached.next (ih hd.pooled) hspends hspends.pooled

/-- The walk of a transaction that is not a zerocoin spend of the pool. -/
theorem Consistent.walkable (consistent : pool.Consistent) {queue : List Uint256}
    (hqueue : ∀ hash ∈ queue, ∀ entry, pool.mapTx.lookup hash = some entry →
      entry.tx.isZerocoinSpend = false) :
    Walkable (fun _ => False) (pool.Spends origTx) pool queue where
  indexed := consistent
  link := by
    intro d entry hentry c _
    unfold Spends SpendsBy
    rw [outputCount_of_lookup hentry]
    simp only [not_false_eq_true, true_and]
  queue := hqueue

theorem Consistent.mem_children_iff (consistent : pool.Consistent) {nOutputs : ℕ} {c : Uint256}
    (hcount : pool.outputCount origTx hash = nOutputs) :
    c ∈ pool.children hash nOutputs ↔ pool.Spends origTx hash c := by
  rw [IndexedBut.mem_children consistent, ← hcount]
  simp only [Spends, SpendsBy, not_false_eq_true, true_and]

theorem Consistent.removeInto_absent (consistent : pool.Consistent)
    (habsent : pool.mapTx.lookup origTx.hash = none) :
    TakesOut (pool.Gone origTx) pool removed (pool.removeInto origTx removed true) := by
  have hcount : pool.outputCount origTx origTx.hash = origTx.vout.length := by
    rw [outputCount, habsent]
    exact if_pos rfl
  have hkids (c : Uint256) :=
    @Consistent.mem_children_iff pool origTx.hash origTx consistent _ c hcount
  have walkable : Walkable (fun _ => False) (pool.Spends origTx) pool
      (origTx.hash :: pool.children origTx.hash origTx.vout.length) := by
    apply consistent.walkable
    intro c hc entry hentry
    rcases List.mem_cons.mp hc with rfl | hc
    · rw [habsent] at hentry
      contradiction
    · obtain ⟨o, -, -, child, hchild, hspend, -⟩ := (hkids c).mp hc
      rw [← Option.some.inj (hchild.symm.trans hentry)]
      exact hspend
  rw [removeInto, habsent, ← reached_eq_gone List.mem_cons_self]
  · exact walkable.removeLoopInto
  · intro c hc
    rcases List.mem_cons.mp hc with heq | hc
    · exact Or.inl heq
    · exact Or.inr ((hkids c).mp hc)
  · intro _ c hspends
    exact List.mem_cons_of_mem _ ((hkids c).mpr hspends)

theorem Consistent.removeInto_indexed (consistent : pool.Consistent)
    (hentry : pool.mapTx.lookup origTx.hash = some entry)
    (hspend : entry.tx.isZerocoinSpend = false) :
    TakesOut (pool.Gone origTx) pool removed (pool.removeInto origTx removed true) := by
  have walkable : Walkable (fun _ => False) (pool.Spends origTx) pool [origTx.hash] := by
    apply consistent.walkable
    intro c hc entry' hentry'
    rw [List.mem_singleton.mp hc, hentry] at hentry'
    rw [← Option.some.inj hentry']
    exact hspend
  rw [removeInto, hentry, ← reached_eq_gone (List.mem_singleton_self _)]
  · exact walkable.removeLoopInto
  · intro c hc
    exact Or.inl (List.mem_singleton.mp hc)
  · intro habsent
    exact absurd ⟨entry, hentry⟩ habsent

/-! A zerocoin spend of the pool. -/

theorem namedByRoot_iff (hentry : pool.mapTx.lookup origTx.hash = some entry)
    (hspend : entry.tx.isZerocoinSpend = true) :
    pool.NamedByRoot origTx o ↔ ∃ txin ∈ entry.tx.vin, txin.prevout = o := by
  constructor
  · rintro ⟨entry', hentry', -, hnamed⟩
    rw [Option.some.inj (hentry.symm.trans hentry')]
    exact hnamed
  · intro hnamed
    exact ⟨entry, hentry, hspend, hnamed⟩

/-- Where a zerocoin spend is taken out first, the marks that are left lead the walk on. -/
theorem Consistent.walkable_spend (consistent : pool.Consistent)
    (hentry : pool.mapTx.lookup origTx.hash = some entry)
    (hspend : entry.tx.isZerocoinSpend = true) :
    Walkable (fun o => ∃ txin ∈ entry.tx.vin, txin.prevout = o) (pool.Found origTx)
      (pool.takeOut origTx.hash entry) (pool.children origTx.hash entry.tx.vout.length) := by
  have hcount := @outputCount_of_lookup pool origTx.hash entry origTx hentry
  have hnamed (o : COutPoint) := @namedByRoot_iff pool entry o origTx hentry hspend
  refine ⟨consistent.takeOut_spend hentry hspend, ?_, ?_⟩
  · intro d entry' hentry' c hc
    have hne := (pooled_takeOut.mp hc).2
    rw [lookup_takeOut] at hentry'
    split_ifs at hentry' with hd
    unfold Found SpendsBy
    rw [outputCount_of_lookup hentry', lookup_takeOut, if_neg hne]
    simp only [hnamed]
    constructor
    · rintro ⟨o, ⟨hhash, hlt, hchild⟩, hfree⟩
      exact ⟨o, hhash, hlt, hfree.resolve_left hd, hchild⟩
    · rintro ⟨o, hhash, hlt, hfree, hchild⟩
      exact ⟨o, ⟨hhash, hlt, hchild⟩, Or.inr hfree⟩
  · intro c hc entry' hentry'
    obtain ⟨o, -, -, child, hchild, hspend', -⟩ := (consistent.mem_children_iff hcount).mp hc
    rw [lookup_takeOut] at hentry'
    split_ifs at hentry'
    rw [← Option.some.inj (hchild.symm.trans hentry')]
    exact hspend'

/-- What is behind a zerocoin spend that is taken out first. -/
theorem Consistent.removeInto_spend (consistent : pool.Consistent)
    (hentry : pool.mapTx.lookup origTx.hash = some entry)
    (hspend : entry.tx.isZerocoinSpend = true) :
    TakesOut (Reached (pool.takeOut origTx.hash entry).Pooled (pool.Found origTx)
        (pool.children origTx.hash entry.tx.vout.length))
      (pool.takeOut origTx.hash entry) (removed ++ [entry.tx])
      (pool.removeInto origTx removed true) := by
  have walkable := @Consistent.walkable_spend pool entry origTx consistent hentry hspend
  have hrest := @Walkable.removeLoopInto _ _ _ (removed ++ [entry.tx]) _ walkable
  have hloop : pool.removeInto origTx removed true = CTxMemPool.removeLoopInto true
      (pool.takeOut origTx.hash entry) (pool.children origTx.hash entry.tx.vout.length)
      (removed ++ [entry.tx]) := by
    rw [removeInto, hentry, CTxMemPool.removeLoopInto]
    split
    · rename_i habsent
      rw [hentry] at habsent
      contradiction
    · rename_i found hfound
      rw [← Option.some.inj (hentry.symm.trans hfound)]
      rfl
  rw [hloop]
  exact hrest

/-- The walk reaches the spend and what is behind it. -/
theorem Consistent.reached_spend (consistent : pool.Consistent)
    (hentry : pool.mapTx.lookup origTx.hash = some entry) {c : Uint256} :
    Reached pool.Pooled (pool.Found origTx) [origTx.hash] c ↔ c = origTx.hash ∨
      Reached (pool.takeOut origTx.hash entry).Pooled (pool.Found origTx)
        (pool.children origTx.hash entry.tx.vout.length) c := by
  have hcount := @outputCount_of_lookup pool origTx.hash entry origTx hentry
  have hpooled : (pool.takeOut origTx.hash entry).Pooled =
      fun k => pool.Pooled k ∧ k ≠ origTx.hash := funext fun _ => propext pooled_takeOut
  have hkids (c : Uint256) (_ : pool.Pooled c) :
      c ∈ pool.children origTx.hash entry.tx.vout.length ↔ pool.Found origTx origTx.hash c := by
    rw [consistent.mem_children_iff hcount]
    constructor
    · rintro ⟨o, hby⟩
      exact ⟨o, hby, Or.inl rfl⟩
    · rintro ⟨o, hby, -⟩
      exact ⟨o, hby⟩
  rw [hpooled]
  exact reached_cons_of_alive ⟨entry, hentry⟩ hkids

/-- Where the spend names nothing else, the walk reaches all that descends from it. -/
theorem Consistent.gone_eq_reached (consistent : pool.Consistent)
    (hentry : pool.mapTx.lookup origTx.hash = some entry)
    (hnames : pool.NamesNothingElse origTx) :
    pool.Gone origTx = Reached pool.Pooled (pool.Found origTx) [origTx.hash] := by
  rw [← reached_eq_gone (List.mem_singleton_self origTx.hash)
    (fun c hc => Or.inl (List.mem_singleton.mp hc)) fun habsent => absurd ⟨entry, hentry⟩ habsent]
  funext c
  apply propext
  constructor
  · intro h
    induction h with
    | queued hc hpooled => exact Reached.queued hc hpooled
    | next _ hlink hpooled ih =>
      obtain ⟨o, hby⟩ := hlink
      by_cases hnamed : pool.NamedByRoot origTx o
      · obtain ⟨-, -, hchild⟩ := hby
        obtain ⟨n, hmark⟩ := (IndexedBut.mark_iff consistent).mpr ⟨not_false, hchild⟩
        exact hnames o _ hnamed hmark
      · exact Reached.next ih ⟨o, hby, Or.inr hnamed⟩ hpooled
  · intro h
    apply h.mono
    rintro d c ⟨o, hby, -⟩
    exact ⟨o, hby⟩

/-- A mark leads to a transaction of the index, so to no zerocoin spend. -/
theorem Consistent.ne_of_spend (consistent : pool.Consistent)
    (hentry : pool.mapTx.lookup origTx.hash = some entry)
    (hspend : entry.tx.isZerocoinSpend = true) {it : CInPoint}
    (hmark : pool.mapNextTx.lookup o = some it) : it.ptx ≠ origTx.hash := by
  intro heq
  obtain ⟨-, entry', hentry', hspend', -⟩ := (IndexedBut.mark_iff consistent).mp ⟨it.n, hmark⟩
  rw [heq, hentry] at hentry'
  rw [← Option.some.inj hentry', hspend] at hspend'
  contradiction

theorem Consistent.removeInto_spend_iff (consistent : pool.Consistent)
    (hentry : pool.mapTx.lookup origTx.hash = some entry)
    (hspend : entry.tx.isZerocoinSpend = true) :
    TakesOut (pool.Gone origTx) pool removed (pool.removeInto origTx removed true) ↔
      pool.NamesNothingElse origTx := by
  have rest := @Consistent.removeInto_spend pool entry removed origTx consistent hentry hspend
  have hreached (c : Uint256) := @Consistent.reached_spend pool entry origTx consistent hentry c
  have hnamed (o : COutPoint) := @namedByRoot_iff pool entry o origTx hentry hspend
  have hother (o : COutPoint) (it : CInPoint) :=
    @Consistent.ne_of_spend pool entry o origTx consistent hentry hspend it
  constructor
  · intro hexact o it ho hmark
    have hlost : (pool.removeInto origTx removed true).1.mapNextTx.lookup o ≠ some it := by
      intro hkept
      have hstill := ((rest.marks o it).mp hkept).1
      rw [lookup_mapNextTx_takeOut, if_pos ((hnamed o).mp ho)] at hstill
      contradiction
    have hgone : pool.Gone origTx it.ptx := by
      by_contra hstays
      exact hlost ((hexact.marks o it).mpr ⟨hmark, hstays⟩)
    obtain ⟨entry', hentry'⟩ := hgone.1
    have hout : (pool.removeInto origTx removed true).1.mapTx.lookup it.ptx ≠ some entry' :=
      fun hkept => ((hexact.entries it.ptx entry').mp hkept).2 hgone
    rw [hreached]
    right
    by_contra hstays
    apply hout
    rw [rest.entries, lookup_takeOut, if_neg (hother o it hmark)]
    exact ⟨hentry', hstays⟩
  · intro hnames
    rw [consistent.gone_eq_reached hentry hnames]
    constructor
    case entries =>
      intro k entry'
      rw [rest.entries, lookup_takeOut, hreached, not_or]
      by_cases heq : k = origTx.hash
      · simp [heq]
      · simp [heq]
    case marks =>
      intro o it
      rw [rest.marks, lookup_mapNextTx_takeOut, hreached, not_or]
      constructor
      · rintro ⟨hmark, hstays⟩
        split_ifs at hmark
        exact ⟨hmark, hother o it hmark, hstays⟩
      · rintro ⟨hmark, hne, hstays⟩
        refine ⟨?_, hstays⟩
        rw [if_neg, hmark]
        intro ho
        rcases (hreached it.ptx).mp (hnames o it ((hnamed o).mpr ho) hmark) with heq | hin
        · exact hne heq
        · exact hstays hin
    case listed =>
      simp only [hreached]
      exact rest.listed_step (consistent.hash _ entry hentry) hentry

/-- A recursive removal is exact, exactly when the transaction is not a zerocoin spend of the pool
that names an outpoint which something else spends. -/
theorem removeInto_exact_iff (consistent : pool.Consistent) (origTx : CTransaction)
    (removed : List CTransaction) :
    TakesOut (pool.Gone origTx) pool removed (pool.removeInto origTx removed true) ↔
      pool.NamesNothingElse origTx := by
  cases hentry : pool.mapTx.lookup origTx.hash with
  | none =>
    have hnames : pool.NamesNothingElse origTx := by
      rintro o it ⟨entry, hin, -⟩
      rw [hentry] at hin
      contradiction
    exact iff_of_true (consistent.removeInto_absent hentry) hnames
  | some entry =>
    cases hspend : entry.tx.isZerocoinSpend with
    | true => exact consistent.removeInto_spend_iff hentry hspend
    | false =>
      have hnames : pool.NamesNothingElse origTx := by
        rintro o it ⟨entry', hin, hspend', -⟩
        rw [← Option.some.inj (hentry.symm.trans hin), hspend] at hspend'
        contradiction
      exact iff_of_true (consistent.removeInto_indexed hentry hspend) hnames

end

/-! A zerocoin spend whose second input names the outpoint that another transaction spends. -/

def payment : CTxMemPoolEntry := ⟨⟨5, 1, [⟨⟨9, 0⟩, [], 0⟩], [⟨10, [3], -10⟩], 0⟩, 200⟩

def namingSpend : CTxMemPoolEntry :=
  ⟨⟨6, 1, [⟨⟨0, 0⟩, [OP_ZEROCOINSPEND], 1⟩, ⟨⟨9, 0⟩, [OP_ZEROCOINSPEND], 1⟩],
    [⟨2, [4], -10⟩], 0⟩, 200⟩

def namingPool : CTxMemPool := (empty.addUnchecked 5 payment).addUnchecked 6 namingSpend

theorem consistent_payment : (empty.addUnchecked 5 payment).Consistent :=
  @Consistent.addUnchecked empty payment consistent_empty rfl fun _ => ⟨by decide, by decide⟩

theorem consistent_namingPool : namingPool.Consistent :=
  @Consistent.addUnchecked _ namingSpend consistent_payment rfl
    fun hspend => absurd hspend (by decide)

/-- The payment stays in the pool, and its mark goes. -/
theorem not_removeInto_exact : namingPool.Consistent ∧
    ¬ TakesOut (namingPool.Gone namingSpend.tx) namingPool []
      (namingPool.removeInto namingSpend.tx [] true) := by
  refine ⟨consistent_namingPool, ?_⟩
  intro hexact
  have hparent (d : Uint256) (h : namingPool.Spends namingSpend.tx d 5) : d = 9 := by
    obtain ⟨o, hhash, -, entry, hentry, -, txin, htxin, hprevout⟩ := h
    have hpayment : payment = entry := Option.some.inj hentry
    rw [← hpayment] at htxin
    rw [← hhash, ← hprevout, List.mem_singleton.mp htxin]
  have hstays : ¬ namingPool.Gone namingSpend.tx 5 := by
    rintro ⟨-, heq | hdescends⟩
    · exact absurd heq (by decide)
    · cases hdescends with
      | child h => exact absurd (hparent _ h) (by decide)
      | @next d _ hd h =>
        obtain ⟨entry, hentry⟩ := hd.pooled
        have habsent : namingPool.mapTx.lookup 9 = none := rfl
        rw [hparent d h, habsent] at hentry
        contradiction
  have hmark := (hexact.marks ⟨9, 0⟩ ⟨5, 0⟩).mpr ⟨rfl, hstays⟩
  have hfound : namingPool.mapTx.lookup namingSpend.tx.hash = some namingSpend := rfl
  rw [removeInto_fst, remove, removeLoop_some true hfound] at hmark
  have htaken := (within_removeLoop true).marks _ _ hmark
  exact absurd htaken (by decide)

theorem removeInto_exact_iff_payment :
    TakesOut ((empty.addUnchecked 5 payment).Gone payment.tx) (empty.addUnchecked 5 payment) []
        ((empty.addUnchecked 5 payment).removeInto payment.tx [] true) ↔
      (empty.addUnchecked 5 payment).NamesNothingElse payment.tx :=
  removeInto_exact_iff consistent_payment payment.tx []

end CTxMemPool
end Lytix
