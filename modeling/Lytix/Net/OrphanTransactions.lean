import Lytix.Lib.OrderedTables
import Lytix.Lib.SetIndex
import Lytix.Lib.Runs
import Lytix.Primitives.Transaction

/-! Transactions whose parents are missing, and the index from a parent to the orphans that
spend it. -/
namespace Lytix

open CountEntries OrderedTables SetIndex Runs

/-- `typedef int NodeId`. -/
abbrev NodeId := Int

structure COrphanTx where
  tx : CTransaction
  fromPeer : NodeId
deriving DecidableEq

def COrphanTx.prevHashes (orphan : COrphanTx) : List Uint256 :=
  orphan.tx.vin.map fun txin => txin.prevout.hash

structure OrphanPool where
  mapOrphanTransactions : Table Uint256 COrphanTx
  mapOrphanTransactionsByPrev : Index Uint256 Uint256

namespace OrphanPool

def empty : OrphanPool := ⟨∅, fun _ => none⟩

/-- `serializeSize` is `GetSerializeSize` for the network; the answer is the returned `bool`. -/
def addOrphanTx (serializeSize : CTransaction → ℕ) (s : OrphanPool) (tx : CTransaction)
    (peer : NodeId) : OrphanPool × Bool :=
  if (s.mapOrphanTransactions.lookup tx.hash).isSome then (s, false)
  else if 5000 < serializeSize tx then (s, false)
  else
    ({ mapOrphanTransactions := s.mapOrphanTransactions.insert tx.hash ⟨tx, peer⟩
       mapOrphanTransactionsByPrev :=
        addUnder s.mapOrphanTransactionsByPrev tx.hash (tx.vin.map fun txin => txin.prevout.hash) },
      true)

def eraseOrphanTx (s : OrphanPool) (hash : Uint256) : OrphanPool :=
  match s.mapOrphanTransactions.lookup hash with
  | none => s
  | some orphan =>
    { mapOrphanTransactions := s.mapOrphanTransactions.erase hash
      mapOrphanTransactionsByPrev :=
        removeUnder s.mapOrphanTransactionsByPrev hash orphan.prevHashes }

theorem eraseOrphanTx_keys_sublist (s : OrphanPool) (hash : Uint256) :
    List.Sublist (s.eraseOrphanTx hash).mapOrphanTransactions.keys s.mapOrphanTransactions.keys := by
  unfold eraseOrphanTx
  cases s.mapOrphanTransactions.lookup hash with
  | none => exact List.Sublist.refl _
  | some orphan =>
    dsimp only
    rw [AList.keys_erase]
    exact List.erase_sublist

/-- The body of the loop of `EraseOrphansFor`, after the iterator has moved on. -/
def eraseIfFrom (peer : NodeId) (s : OrphanPool) (orphan : COrphanTx) : OrphanPool :=
  if orphan.fromPeer = peer then s.eraseOrphanTx orphan.tx.hash else s

theorem eraseIfFrom_keys_sublist (peer : NodeId) (s : OrphanPool) (orphan : COrphanTx) :
    List.Sublist (s.eraseIfFrom peer orphan).mapOrphanTransactions.keys
      s.mapOrphanTransactions.keys := by
  unfold eraseIfFrom
  split_ifs
  · exact eraseOrphanTx_keys_sublist s orphan.tx.hash
  · exact List.Sublist.refl _

/-- `none` is an iterator to an entry that is gone. -/
def eraseOrphansLoop (peer : NodeId) (s : OrphanPool) (iter : Option Uint256) :
    Option OrphanPool :=
  match iter with
  | none => some s
  | some key =>
    match _hfound : s.mapOrphanTransactions.lookup key with
    | none => none
    | some orphan =>
      eraseOrphansLoop peer (s.eraseIfFrom peer orphan)
        (after BitVec.toNat s.mapOrphanTransactions key)
termination_by ahead BitVec.toNat s.mapOrphanTransactions iter
decreasing_by
  apply ahead_after_lt
  · exact AList.lookup_isSome.mp (by rw [_hfound]; rfl)
  · exact eraseIfFrom_keys_sublist peer s orphan

def eraseOrphansFor (s : OrphanPool) (peer : NodeId) : Option OrphanPool :=
  eraseOrphansLoop peer s (first BitVec.toNat s.mapOrphanTransactions)

/-- The orphan at or above a random hash, or the first one. -/
def evictOne (s : OrphanPool) (randomhash : Uint256) : OrphanPool :=
  match (lowerBound BitVec.toNat s.mapOrphanTransactions randomhash).or
      (first BitVec.toNat s.mapOrphanTransactions) with
  | none => s
  | some key => s.eraseOrphanTx key

def size (s : OrphanPool) : ℕ := CountEntries.size s.mapOrphanTransactions

theorem size_eraseOrphanTx {s : OrphanPool} {hash : Uint256} (h : hash ∈ s.mapOrphanTransactions) :
    (s.eraseOrphanTx hash).size + 1 = s.size := by
  obtain ⟨orphan, hlookup⟩ := Option.isSome_iff_exists.mp (AList.lookup_isSome.mpr h)
  unfold eraseOrphanTx
  rw [hlookup]
  exact size_erase_of_mem h

theorem size_evictOne {s : OrphanPool} (h : 0 < s.size) (randomhash : Uint256) :
    (s.evictOne randomhash).size + 1 = s.size := by
  obtain ⟨begin, hfirst⟩ := @exists_first _ _ BitVec.toNat s.mapOrphanTransactions
    (List.ne_nil_of_length_pos h)
  unfold evictOne
  cases hbound : lowerBound BitVec.toNat s.mapOrphanTransactions randomhash with
  | none =>
    rw [hfirst]
    exact size_eraseOrphanTx (mem_of_first hfirst)
  | some key => exact size_eraseOrphanTx (mem_of_lowerBound hbound)

/-- `randomHashes` is what `GetRandHash` gives, call after call. -/
def limitLoop (randomHashes : ℕ → Uint256) (nMaxOrphans nEvicted : ℕ) (s : OrphanPool) :
    OrphanPool × ℕ :=
  if nMaxOrphans < s.size then
    limitLoop randomHashes nMaxOrphans (nEvicted + 1) (s.evictOne (randomHashes nEvicted))
  else (s, nEvicted)
termination_by s.size
decreasing_by
  have hsize := size_evictOne (by omega : 0 < s.size) (randomHashes nEvicted)
  omega

/-- The answer is the number of the evicted orphans. -/
def limitOrphanTxSize (s : OrphanPool) (randomHashes : ℕ → Uint256) (nMaxOrphans : ℕ) :
    OrphanPool × ℕ :=
  limitLoop randomHashes nMaxOrphans 0 s

end OrphanPool

inductive OrphanEvent where
  | addOrphanTx (tx : CTransaction) (peer : NodeId)
  | eraseOrphanTx (hash : Uint256)
  | eraseOrphansFor (peer : NodeId)
  | limitOrphanTxSize (randomHashes : ℕ → Uint256) (nMaxOrphans : ℕ)

def OrphanPool.step (serializeSize : CTransaction → ℕ) (s : OrphanPool) :
    OrphanEvent → Option OrphanPool
  | .addOrphanTx tx peer => some (s.addOrphanTx serializeSize tx peer).1
  | .eraseOrphanTx hash => some (s.eraseOrphanTx hash)
  | .eraseOrphansFor peer => s.eraseOrphansFor peer
  | .limitOrphanTxSize randomHashes nMaxOrphans =>
    some (s.limitOrphanTxSize randomHashes nMaxOrphans).1

namespace OrphanPool

/-- The parents lead to the stored orphans that spend them and to nothing else. -/
structure Indexed (s : OrphanPool) : Prop where
  keys : ∀ h orphan, s.mapOrphanTransactions.lookup h = some orphan → orphan.tx.hash = h
  byPrev : ∀ p h, Has s.mapOrphanTransactionsByPrev p h ↔
    ∃ orphan, s.mapOrphanTransactions.lookup h = some orphan ∧ p ∈ orphan.prevHashes
  noEmptySet : NoEmptySet s.mapOrphanTransactionsByPrev

variable {s s' : OrphanPool} {hash h : Uint256} {peer : NodeId} {orphan : COrphanTx}

theorem indexed_empty : Indexed empty := by
  constructor
  case keys =>
    intro h orphan hlookup
    contradiction
  case byPrev =>
    intro p h
    constructor
    · intro hhas
      obtain ⟨hs, hnone, -⟩ := hhas
      contradiction
    · intro hstored
      obtain ⟨orphan, hnone, -⟩ := hstored
      contradiction
  case noEmptySet =>
    intro p hp
    contradiction

theorem Indexed.addOrphanTx (hs : Indexed s) (serializeSize : CTransaction → ℕ)
    (tx : CTransaction) (peer : NodeId) :
    Indexed (s.addOrphanTx serializeSize tx peer).1 := by
  unfold OrphanPool.addOrphanTx
  by_cases hknown : (s.mapOrphanTransactions.lookup tx.hash).isSome
  · rw [if_pos hknown]
    exact hs
  rw [if_neg hknown]
  by_cases hbig : 5000 < serializeSize tx
  · rw [if_pos hbig]
    exact hs
  rw [if_neg hbig]
  have hnone : s.mapOrphanTransactions.lookup tx.hash = none := by simpa using hknown
  constructor
  case keys =>
    intro h orphan hlookup
    rw [lookup_insert_eq] at hlookup
    split_ifs at hlookup with hsame
    · rw [← Option.some.inj hlookup, hsame]
    · exact hs.keys h orphan hlookup
  case byPrev =>
    intro p h
    rw [has_addUnder, hs.byPrev, lookup_insert_eq]
    by_cases hsame : h = tx.hash
    · subst hsame
      rw [if_pos rfl, hnone]
      simp [COrphanTx.prevHashes]
    · rw [if_neg hsame]
      simp [hsame]
  case noEmptySet => exact hs.noEmptySet.addUnder

theorem lookup_eraseOrphanTx (hash h : Uint256) :
    (s.eraseOrphanTx hash).mapOrphanTransactions.lookup h =
      if h = hash then none else s.mapOrphanTransactions.lookup h := by
  unfold OrphanPool.eraseOrphanTx
  cases hlookup : s.mapOrphanTransactions.lookup hash with
  | none =>
    by_cases hsame : h = hash
    · rw [if_pos hsame, hsame, hlookup]
    · rw [if_neg hsame]
  | some orphan => exact lookup_erase_eq h

theorem Indexed.eraseOrphanTx (hs : Indexed s) (hash : Uint256) :
    Indexed (s.eraseOrphanTx hash) := by
  constructor
  case keys =>
    intro h orphan hlookup
    rw [lookup_eraseOrphanTx] at hlookup
    split_ifs at hlookup
    exact hs.keys h orphan hlookup
  case byPrev =>
    intro p h
    rw [lookup_eraseOrphanTx]
    unfold OrphanPool.eraseOrphanTx
    cases hlookup : s.mapOrphanTransactions.lookup hash with
    | none =>
      rw [hs.byPrev]
      by_cases hsame : h = hash
      · rw [if_pos hsame, hsame, hlookup]
      · rw [if_neg hsame]
    | some orphan =>
      dsimp only
      rw [has_removeUnder, hs.byPrev]
      by_cases hsame : h = hash
      · subst hsame
        simp [hlookup]
      · simp [hsame]
  case noEmptySet =>
    unfold OrphanPool.eraseOrphanTx
    cases s.mapOrphanTransactions.lookup hash with
    | none => exact hs.noEmptySet
    | some orphan => exact hs.noEmptySet.removeUnder

theorem Indexed.eraseIfFrom (hs : Indexed s) (peer : NodeId) (orphan : COrphanTx) :
    Indexed (s.eraseIfFrom peer orphan) := by
  unfold OrphanPool.eraseIfFrom
  split_ifs
  · exact hs.eraseOrphanTx orphan.tx.hash
  · exact hs

/-- Only the entry of the orphan itself goes, since it is stored under its own hash. -/
theorem Indexed.lookup_eraseIfFrom (hs : Indexed s)
    (hlookup : s.mapOrphanTransactions.lookup hash = some orphan) :
    (s.eraseIfFrom peer orphan).mapOrphanTransactions.lookup h =
      if h = hash then (s.mapOrphanTransactions.lookup h).filter (·.fromPeer ≠ peer)
      else s.mapOrphanTransactions.lookup h := by
  have hkey := hs.keys hash orphan hlookup
  unfold OrphanPool.eraseIfFrom
  by_cases hpeer : orphan.fromPeer = peer
  · rw [if_pos hpeer, lookup_eraseOrphanTx, hkey]
    by_cases hsame : h = hash
    · subst hsame
      rw [if_pos rfl, if_pos rfl, hlookup]
      simp [Option.filter, hpeer]
    · rw [if_neg hsame, if_neg hsame]
  · rw [if_neg hpeer]
    by_cases hsame : h = hash
    · subst hsame
      rw [if_pos rfl, hlookup]
      simp [Option.filter, hpeer]
    · rw [if_neg hsame]

/-- What the loop has passed when it comes to an iterator. -/
def Behind (iter : Option Uint256) (h : Uint256) : Prop :=
  match iter with
  | none => True
  | some key => h.toNat < key.toNat

instance (iter : Option Uint256) (h : Uint256) : Decidable (Behind iter h) :=
  match iter with
  | none => inferInstanceAs (Decidable True)
  | some key => inferInstanceAs (Decidable (h.toNat < key.toNat))

theorem behind_after_of_le (hle : h.toNat ≤ hash.toNat) :
    Behind (after BitVec.toNat s.mapOrphanTransactions hash) h := by
  cases hnext : after BitVec.toNat s.mapOrphanTransactions hash with
  | none => trivial
  | some next => exact lt_of_le_of_lt hle (rank_lt_of_after hnext)

theorem not_behind_after (hh : h ∈ s.mapOrphanTransactions) (hlt : hash.toNat < h.toNat) :
    ¬ Behind (after BitVec.toNat s.mapOrphanTransactions hash) h := by
  cases hnext : after BitVec.toNat s.mapOrphanTransactions hash with
  | none =>
    have hle := le_of_after_eq_none hnext hh
    omega
  | some next => exact not_lt.mpr (after_le hnext hh hlt)

theorem Indexed.eraseOrphansLoop (hs : Indexed s) (iter : Option Uint256)
    (hiter : ∀ key ∈ iter, key ∈ s.mapOrphanTransactions) :
    ∃ s', OrphanPool.eraseOrphansLoop peer s iter = some s' ∧ Indexed s' ∧
      ∀ h, s'.mapOrphanTransactions.lookup h =
        if Behind iter h then s.mapOrphanTransactions.lookup h
        else (s.mapOrphanTransactions.lookup h).filter (·.fromPeer ≠ peer) := by
  induction s, iter using OrphanPool.eraseOrphansLoop.induct peer with
  | case1 s =>
    refine ⟨s, ?_, hs, ?_⟩
    · rw [OrphanPool.eraseOrphansLoop]
    · intro h
      have hpassed : Behind none h := trivial
      rw [if_pos hpassed]
  | case2 s key hnone =>
    have hmem := AList.lookup_isSome.mpr (hiter key rfl)
    rw [hnone] at hmem
    contradiction
  | case3 s key orphan hlookup ih =>
    have hkept : ∀ next ∈ after BitVec.toNat s.mapOrphanTransactions key,
        next ∈ (s.eraseIfFrom peer orphan).mapOrphanTransactions := by
      intro next hnext
      have hlt := rank_lt_of_after hnext
      have hne : next ≠ key := by
        intro hsame
        rw [hsame] at hlt
        omega
      apply AList.lookup_isSome.mp
      rw [hs.lookup_eraseIfFrom hlookup, if_neg hne]
      exact AList.lookup_isSome.mpr (mem_of_after hnext)
    obtain ⟨s', hloop, hindexed, hlookups⟩ := ih (hs.eraseIfFrom peer orphan) hkept
    refine ⟨s', ?_, hindexed, ?_⟩
    · rw [OrphanPool.eraseOrphansLoop]
      split
      · rename_i hnone
        rw [hlookup] at hnone
        contradiction
      · rename_i found hfound
        rw [hlookup] at hfound
        rw [← Option.some.inj hfound]
        exact hloop
    · intro h
      rw [hlookups, hs.lookup_eraseIfFrom hlookup]
      rcases Nat.lt_trichotomy h.toNat key.toNat with hbelow | hsame | habove
      · have hpassed : Behind (some key) h := hbelow
        have hne : h ≠ key := by
          intro hkey
          rw [hkey] at hbelow
          omega
        rw [if_pos (behind_after_of_le hbelow.le), if_pos hpassed, if_neg hne]
      · have hkey : h = key := BitVec.eq_of_toNat_eq hsame
        have hpassed : ¬ Behind (some key) h := not_lt.mpr hsame.ge
        rw [if_pos (behind_after_of_le hsame.le), if_neg hpassed, if_pos hkey]
      · have hne : h ≠ key := by
          intro hkey
          rw [hkey] at habove
          omega
        have hpassed : ¬ Behind (some key) h := not_lt.mpr habove.le
        rw [if_neg hpassed, if_neg hne]
        by_cases hh : h ∈ s.mapOrphanTransactions
        · rw [if_neg (not_behind_after hh habove)]
        · rw [AList.lookup_eq_none.mpr hh]
          simp

/-- Every orphan of the peer goes, and no other. -/
theorem Indexed.eraseOrphansFor (hs : Indexed s) (peer : NodeId) :
    ∃ s', s.eraseOrphansFor peer = some s' ∧ Indexed s' ∧
      ∀ h, s'.mapOrphanTransactions.lookup h =
        (s.mapOrphanTransactions.lookup h).filter (·.fromPeer ≠ peer) := by
  have hiter : ∀ key ∈ first BitVec.toNat s.mapOrphanTransactions,
      key ∈ s.mapOrphanTransactions := by
    intro key hkey
    exact mem_of_first hkey
  obtain ⟨s', hloop, hindexed, hlookups⟩ := hs.eraseOrphansLoop _ hiter
  refine ⟨s', hloop, hindexed, ?_⟩
  intro h
  rw [hlookups]
  by_cases hh : h ∈ s.mapOrphanTransactions
  · rw [if_neg]
    cases hfirst : first BitVec.toNat s.mapOrphanTransactions with
    | none =>
      have hempty := List.argmin_eq_none.mp hfirst
      have hkeys := AList.mem_keys.mp hh
      rw [hempty] at hkeys
      contradiction
    | some key => exact not_lt.mpr (first_le hfirst hh)
  · rw [AList.lookup_eq_none.mpr hh]
    simp

theorem Indexed.evictOne (hs : Indexed s) (randomhash : Uint256) :
    Indexed (s.evictOne randomhash) := by
  unfold OrphanPool.evictOne
  split
  · exact hs
  · exact hs.eraseOrphanTx _

theorem Indexed.limitLoop (hs : Indexed s) (randomHashes : ℕ → Uint256)
    (nMaxOrphans nEvicted : ℕ) :
    Indexed (OrphanPool.limitLoop randomHashes nMaxOrphans nEvicted s).1 := by
  induction nEvicted, s using OrphanPool.limitLoop.induct randomHashes nMaxOrphans with
  | case1 nEvicted s hlarge ih =>
    rw [OrphanPool.limitLoop, if_pos hlarge]
    exact ih (hs.evictOne _)
  | case2 nEvicted s hsmall =>
    rw [OrphanPool.limitLoop, if_neg hsmall]
    exact hs

/-- The loop ends when the limit is reached, whatever the random hashes are, and evicts no
more than it has to. -/
theorem size_limitLoop (s : OrphanPool) (randomHashes : ℕ → Uint256) (nMaxOrphans nEvicted : ℕ) :
    (limitLoop randomHashes nMaxOrphans nEvicted s).1.size = min s.size nMaxOrphans ∧
      (limitLoop randomHashes nMaxOrphans nEvicted s).2 = nEvicted + (s.size - nMaxOrphans) := by
  induction nEvicted, s using limitLoop.induct randomHashes nMaxOrphans with
  | case1 nEvicted s hlarge ih =>
    have hsize := size_evictOne (by omega : 0 < s.size) (randomHashes nEvicted)
    rw [limitLoop, if_pos hlarge, ih.1, ih.2]
    omega
  | case2 nEvicted s hsmall =>
    rw [limitLoop, if_neg hsmall]
    dsimp only
    omega

theorem Indexed.step (hs : Indexed s) (serializeSize : CTransaction → ℕ) (event : OrphanEvent) :
    ∃ s', s.step serializeSize event = some s' ∧ Indexed s' := by
  cases event with
  | addOrphanTx tx peer => exact ⟨_, rfl, hs.addOrphanTx serializeSize tx peer⟩
  | eraseOrphanTx hash => exact ⟨_, rfl, hs.eraseOrphanTx hash⟩
  | eraseOrphansFor peer =>
    obtain ⟨s', herase, hindexed, -⟩ := hs.eraseOrphansFor peer
    exact ⟨s', herase, hindexed⟩
  | limitOrphanTxSize randomHashes nMaxOrphans =>
    exact ⟨_, rfl, hs.limitLoop randomHashes nMaxOrphans 0⟩

/-- Along every run the index is the inverse of the stored orphans; erasing those of a peer
leaves exactly the others, and a limit on their number is reached. -/
theorem orphanIndex_of_run (serializeSize : CTransaction → ℕ) (events : List OrphanEvent) :
    ∃ s, attempt (OrphanPool.step serializeSize) empty events = some s ∧
      (∀ p h, Has s.mapOrphanTransactionsByPrev p h ↔
        ∃ orphan, s.mapOrphanTransactions.lookup h = some orphan ∧
          ∃ txin ∈ orphan.tx.vin, txin.prevout.hash = p) ∧
      NoEmptySet s.mapOrphanTransactionsByPrev ∧
      (∀ peer, ∃ s', s.eraseOrphansFor peer = some s' ∧
        ∀ h, s'.mapOrphanTransactions.lookup h =
          (s.mapOrphanTransactions.lookup h).filter (·.fromPeer ≠ peer)) ∧
      ∀ randomHashes nMaxOrphans,
        (s.limitOrphanTxSize randomHashes nMaxOrphans).1.size ≤ nMaxOrphans := by
  have hstep : ∀ s event, Indexed s → ∃ s', s.step serializeSize event = some s' ∧ Indexed s' := by
    intro s event hs
    exact hs.step serializeSize event
  obtain ⟨s, hrun, hs⟩ := exists_attempt indexed_empty hstep events
  refine ⟨s, hrun, ?_, hs.noEmptySet, ?_, ?_⟩
  · intro p h
    rw [hs.byPrev]
    simp only [COrphanTx.prevHashes, List.mem_map]
  · intro peer
    obtain ⟨s', herase, -, hlookups⟩ := hs.eraseOrphansFor peer
    exact ⟨s', herase, hlookups⟩
  · intro randomHashes nMaxOrphans
    have hsize := (size_limitLoop s randomHashes nMaxOrphans 0).1
    unfold limitOrphanTxSize
    rw [hsize]
    exact min_le_right s.size nMaxOrphans

end OrphanPool
end Lytix
