import Lytix.Lib.Multimaps
import Lytix.Lib.Runs

/-! `limitedmap`: a map with an index of its entries by value, which is to keep those with the
highest values. An iterator into `map` is the key that it stands at. -/
namespace Lytix

open CountEntries Multimaps Runs

/-- With `nMaxSize` 0 there is no limit. -/
structure LimitedMap (K V : Type*) [LinearOrder V] where
  map : Table K V := ∅
  rmap : Multimap V K := Multimap.empty
  nMaxSize : ℕ := 0

/-- A call of one of the member functions that change the map. -/
inductive LimitedMapCall (K V : Type*) where
  | insert (x : K × V)
  | erase (k : K)
  | update (k : K) (v : V)
  | maxSize (s : ℕ)

variable {K V : Type*} [DecidableEq K] [LinearOrder V]

namespace LimitedMap

/-- Erases the begin of `rmap` and what it points to. There is no result where `rmap` is empty, or
where its begin points to no entry. -/
def evict (m : LimitedMap K V) : Option (LimitedMap K V) :=
  match m.rmap.popFirst with
  | none => none
  | some (lowest, rmap) =>
    if lowest.2 ∈ m.map then some { m with map := m.map.erase lowest.2, rmap } else none

def insert (m : LimitedMap K V) (x : K × V) : Option (LimitedMap K V) :=
  if x.1 ∈ m.map then some m
  else do
    let inserted := { m with map := m.map.insert x.1 x.2 }
    -- The new entry is counted before it is in rmap.
    let m ← if m.nMaxSize ≠ 0 ∧ size inserted.map = m.nMaxSize then inserted.evict
      else some inserted
    some { m with rmap := m.rmap.insert (x.2, x.1) }

/-- There is no result where `assert(0)` is reached. -/
def erase (m : LimitedMap K V) (k : K) : Option (LimitedMap K V) :=
  match m.map.lookup k with
  | none => some m
  | some v => (m.rmap.erase (v, k)).map fun rmap => { m with map := m.map.erase k, rmap }

/-- There is no result where `assert(0)` is reached. -/
def update (m : LimitedMap K V) (k : K) (v : V) : Option (LimitedMap K V) :=
  match m.map.lookup k with
  | none => some m
  | some old => (m.rmap.erase (old, k)).map fun rmap =>
    { m with map := m.map.insert k v, rmap := rmap.insert (v, k) }

theorem of_evict_eq_some {m smaller : LimitedMap K V} (h : m.evict = some smaller) :
    size smaller.map + 1 = size m.map ∧ smaller.nMaxSize = m.nMaxSize := by
  unfold evict at h
  split at h
  · contradiction
  · split_ifs at h with hmem
    have hsmaller := Option.some.inj h
    rw [← hsmaller]
    exact ⟨size_erase_of_mem hmem, rfl⟩

/-- `while (map.size() > s)`. -/
def shrink (m : LimitedMap K V) (s : ℕ) : Option (LimitedMap K V) :=
  if s < size m.map then
    match _hevict : m.evict with
    | none => none
    | some smaller => smaller.shrink s
  else some m
termination_by size m.map
decreasing_by
  have hsize := of_evict_eq_some _hevict
  omega

/-- The new limit is also what it returns. -/
def maxSize (m : LimitedMap K V) (s : ℕ) : Option (LimitedMap K V) :=
  (if s ≠ 0 then m.shrink s else some m).map fun m => { m with nMaxSize := s }

def call (m : LimitedMap K V) : LimitedMapCall K V → Option (LimitedMap K V)
  | .insert x => m.insert x
  | .erase k => m.erase k
  | .update k v => m.update k v
  | .maxSize s => m.maxSize s

section
variable {m : LimitedMap K V} {k : K} {v : V}

theorem evict_spec (h : Indexes m.rmap m.map) (hpos : 0 < size m.map) :
    ∃ smaller, m.evict = some smaller ∧ Indexes smaller.rmap smaller.map ∧
      Highest (size m.map - 1) smaller.map m.map := by
  obtain ⟨e, rest, hpop⟩ := h.exists_popFirst hpos
  obtain ⟨hlookup, hlow, hrest⟩ := h.of_popFirst hpop
  have hmem : e.2 ∈ m.map := mem_iff_lookup.mpr ⟨e.1, hlookup⟩
  refine ⟨{ m with map := m.map.erase e.2, rmap := rest }, ?_, hrest, highest_erase hlookup hlow⟩
  rw [evict, hpop]
  simp [hmem]

/-- The loop leaves the entries with the highest values, and its index. -/
theorem shrink_spec (s : ℕ) (h : Indexes m.rmap m.map) :
    ∃ smaller, m.shrink s = some smaller ∧ Indexes smaller.rmap smaller.map ∧
      Highest s smaller.map m.map := by
  induction hn : size m.map using Nat.strong_induction_on generalizing m with
  | _ n ih =>
    rw [shrink]
    split_ifs with hmore
    · obtain ⟨next, hnext, hindexes, hhighest⟩ := evict_spec h (Nat.zero_lt_of_lt hmore)
      have hsize := (of_evict_eq_some hnext).1
      obtain ⟨last, hlast, hindexes', hhighest'⟩ := ih (size next.map) (by omega) hindexes rfl
      refine ⟨last, ?_, hindexes', hhighest'.trans hhighest (by omega)⟩
      split
      · rename_i hnone
        rw [hnone] at hnext
        contradiction
      · rename_i hsome
        rw [hsome] at hnext
        rwa [Option.some.inj hnext]
    · exact ⟨m, rfl, h, highest_of_size_eq (fun _ _ => id) rfl (by omega)⟩

theorem erase_missing (hk : m.map.lookup k = none) : m.erase k = some m := by simp [erase, hk]

theorem update_missing (hk : m.map.lookup k = none) : m.update k v = some m := by
  simp [update, hk]

theorem erase_spec (h : Indexes m.rmap m.map) (hk : m.map.lookup k = some v) :
    ∃ rmap, m.erase k = some { m with map := m.map.erase k, rmap } ∧
      Indexes rmap (m.map.erase k) := by
  obtain ⟨rest, hrest, hindexes⟩ := h.erase hk
  refine ⟨rest, ?_, hindexes⟩
  simp [erase, hk, hrest]

theorem update_spec (h : Indexes m.rmap m.map) {old : V} (hk : m.map.lookup k = some old) :
    ∃ rmap, m.update k v = some { m with map := m.map.insert k v, rmap } ∧
      Indexes rmap (m.map.insert k v) := by
  obtain ⟨rest, hrest, hindexes⟩ := h.erase hk
  refine ⟨rest.insert (v, k), ?_, hindexes.insert⟩
  simp [update, hk, hrest]

theorem maxSize_spec (s : ℕ) (h : Indexes m.rmap m.map) :
    ∃ smaller, m.maxSize s = some smaller ∧ smaller.nMaxSize = s ∧
      Indexes smaller.rmap smaller.map ∧
      Highest (if s = 0 then size m.map else s) smaller.map m.map := by
  unfold maxSize
  by_cases hs : s = 0
  · refine ⟨{ m with nMaxSize := s }, by simp [hs], rfl, h, ?_⟩
    rw [if_pos hs]
    exact highest_of_size_eq (fun _ _ => id) rfl le_rfl
  · obtain ⟨smaller, hsmaller, hindexes, hhighest⟩ := shrink_spec s h
    refine ⟨{ smaller with nMaxSize := s }, by simp [hs, hsmaller], rfl, hindexes, ?_⟩
    rwa [if_neg hs]

theorem insert_of_room (hk : k ∉ m.map)
    (hroom : m.nMaxSize = 0 ∨ size m.map + 1 ≠ m.nMaxSize) :
    m.insert (k, v) =
      some { m with map := m.map.insert k v, rmap := m.rmap.insert (v, k) } := by
  have hsize : size (m.map.insert k v) = size m.map + 1 := by
    rw [size_insert, erase_of_notMem hk]
  have hkeeps : ¬(m.nMaxSize ≠ 0 ∧ size m.map + 1 = m.nMaxSize) := by tauto
  simp [insert, hk, hsize, hkeeps]

/-- One entry goes for the one that comes. -/
theorem size_of_insert_full (hk : k ∉ m.map) (hfull : size m.map + 1 = m.nMaxSize)
    {m' : LimitedMap K V} (h : m.insert (k, v) = some m') :
    size m'.map + 1 = m.nMaxSize ∧ m'.nMaxSize = m.nMaxSize := by
  have hsize : size (m.map.insert k v) = size m.map + 1 := by
    rw [size_insert, erase_of_notMem hk]
  have hevicts : m.nMaxSize ≠ 0 ∧ size m.map + 1 = m.nMaxSize := ⟨by omega, hfull⟩
  simp only [insert, if_neg hk, hsize, if_pos hevicts] at h
  obtain ⟨smaller, hevict, hm'⟩ := Option.bind_eq_some_iff.mp h
  have hsmaller := of_evict_eq_some hevict
  rw [← Option.some.inj hm']
  simp only at hsmaller ⊢
  omega

end
end LimitedMap

/-- A limited map, and what has been inserted into it and not erased, with the value that it was
given last. -/
structure LimitedHistory (K V : Type*) [LinearOrder V] where
  limited : LimitedMap K V
  live : Table K V := ∅

namespace LimitedHistory

/-- `limitedmap(nMaxSizeIn)`. -/
def start (nMaxSizeIn : ℕ) : LimitedHistory K V := { limited := { nMaxSize := nMaxSizeIn } }

/-- An evicted entry cannot be updated; a key that is not in the map can be inserted again. -/
def record (history : LimitedHistory K V) : LimitedMapCall K V → Table K V
  | .insert x =>
    if x.1 ∈ history.limited.map then history.live else history.live.insert x.1 x.2
  | .erase k => history.live.erase k
  | .update k v =>
    if k ∈ history.limited.map then history.live.insert k v else history.live
  | .maxSize _ => history.live

def step (history : LimitedHistory K V) (call : LimitedMapCall K V) :
    Option (LimitedHistory K V) :=
  (history.limited.call call).map fun limited => ⟨limited, history.record call⟩

/-- How many entries there can be: all, where there is no limit. -/
def room (limit : ℕ) (live : Table K V) : ℕ := if limit = 0 then size live else limit

/-- The index has one entry for each entry of the map, which holds those of the highest values. -/
structure KeepsHighest (history : LimitedHistory K V) : Prop where
  indexes : Indexes history.limited.rmap history.limited.map
  highest : Highest (room history.limited.nMaxSize history.live) history.limited.map history.live

/-- An insertion evicts nothing. Nothing has been evicted that should come back with an erasure or
a higher limit, or that has a higher value than an update gives. -/
def Within (history : LimitedHistory K V) : LimitedMapCall K V → Prop
  | .insert x => x.1 ∈ history.limited.map ∨ history.limited.nMaxSize = 0 ∨
      size history.limited.map + 1 < history.limited.nMaxSize
  | .erase k => k ∉ history.limited.map ∨ size history.live = size history.limited.map
  | .update k v => k ∉ history.limited.map ∨ ∀ k' v', history.live.lookup k' = some v' →
      k' ∉ history.limited.map → v' ≤ v
  | .maxSize s => size history.live = size history.limited.map ∨
      0 < s ∧ s ≤ size history.limited.map

section
variable {history : LimitedHistory K V} {k : K} {v : V}

theorem exists_step_iff (call : LimitedMapCall K V) {m : LimitedMap K V}
    (hcall : history.limited.call call = some m) :
    (∃ history', history.step call = some history' ∧ history'.KeepsHighest) ↔
      KeepsHighest ⟨m, history.record call⟩ := by
  simp [step, hcall]

theorem KeepsHighest.notMem_live (h : history.KeepsHighest) (hk : k ∉ history.limited.map)
    (hsize : size history.limited.map = size history.live) : k ∉ history.live :=
  fun hlive => hk (mem_of_size_eq h.highest.sub hsize hlive)

omit [LinearOrder V] in
theorem size_insert_of_notMem {table : Table K V} (hk : k ∉ table) :
    size (table.insert k v) = size table + 1 := by
  rw [size_insert, erase_of_notMem hk]

/-- A new entry, where none is evicted for it. -/
theorem keeps_insert_iff (h : history.KeepsHighest) (hk : k ∉ history.limited.map)
    (hroom : history.limited.nMaxSize = 0 ∨
      size history.limited.map + 1 ≠ history.limited.nMaxSize) :
    KeepsHighest ⟨{ history.limited with
        map := history.limited.map.insert k v, rmap := history.limited.rmap.insert (v, k) },
      history.live.insert k v⟩ ↔
      history.limited.nMaxSize = 0 ∨
        size history.limited.map + 1 < history.limited.nMaxSize := by
  have hsize := h.highest.size_eq
  constructor
  · intro hkeeps
    have hsize' := hkeeps.highest.size_eq
    simp only [size_insert_of_notMem hk, room] at hsize'
    split_ifs at hsize' <;> omega
  · intro hwithin
    have hfew : size history.limited.map = size history.live := by
      rcases hwithin with hlimit | hlt
      · simpa [room, hlimit] using hsize
      · rw [room, if_neg (by omega)] at hsize
        omega
    have hnew : k ∉ history.live := h.notMem_live hk hfew
    have hsizes : size (history.limited.map.insert k v) = size (history.live.insert k v) := by
      rw [size_insert_of_notMem hk, size_insert_of_notMem hnew, hfew]
    have hfits : size (history.live.insert k v) ≤
        room history.limited.nMaxSize (history.live.insert k v) := by
      rw [size_insert_of_notMem hnew, room, size_insert_of_notMem hnew]
      split_ifs <;> omega
    constructor
    · exact Indexes.insert (by rw [erase_of_notMem hk]; exact h.indexes)
    · exact highest_of_size_eq (sub_insert h.highest.sub k v) hsizes hfits

/-- Where one entry is evicted for a new one, one is missing. -/
theorem not_keeps_of_full (h : history.KeepsHighest) (hk : k ∉ history.limited.map)
    (hlimit : history.limited.nMaxSize ≠ 0)
    (hfull : size history.limited.map + 1 = history.limited.nMaxSize) {m : LimitedMap K V}
    (hinsert : history.limited.insert (k, v) = some m) :
    ¬KeepsHighest ⟨m, history.live.insert k v⟩ := by
  intro hkeeps
  obtain ⟨hless, hsame⟩ := LimitedMap.size_of_insert_full hk hfull hinsert
  have hsize := h.highest.size_eq
  rw [room, if_neg hlimit] at hsize
  have hfew : size history.limited.map = size history.live := by omega
  have hnew : k ∉ history.live := h.notMem_live hk hfew
  have hsize' := hkeeps.highest.size_eq
  simp only [size_insert_of_notMem hnew, hsame, room, if_neg hlimit] at hsize'
  omega

theorem step_insert_iff (h : history.KeepsHighest) :
    (∃ history', history.step (.insert (k, v)) = some history' ∧ history'.KeepsHighest) ↔
      history.Within (.insert (k, v)) := by
  by_cases hk : k ∈ history.limited.map
  · have hcall : history.limited.call (.insert (k, v)) = some history.limited := if_pos hk
    rw [exists_step_iff _ hcall]
    exact iff_of_true (by simpa [record, hk] using h) (Or.inl hk)
  have hrecord : history.record (.insert (k, v)) = history.live.insert k v := if_neg hk
  have hwithin : history.Within (.insert (k, v)) ↔ history.limited.nMaxSize = 0 ∨
      size history.limited.map + 1 < history.limited.nMaxSize := or_iff_right hk
  by_cases hroom : history.limited.nMaxSize = 0 ∨
      size history.limited.map + 1 ≠ history.limited.nMaxSize
  · have hcall : history.limited.call (.insert (k, v)) = some _ :=
      LimitedMap.insert_of_room hk hroom
    rw [exists_step_iff _ hcall, hrecord, hwithin, keeps_insert_iff h hk hroom]
  · have hlimit : history.limited.nMaxSize ≠ 0 := fun hnone => hroom (Or.inl hnone)
    have hfull : size history.limited.map + 1 = history.limited.nMaxSize := by tauto
    rw [hwithin]
    refine iff_of_false ?_ (by omega)
    rintro ⟨history', hstep, hkeeps⟩
    obtain ⟨m, hinsert, rfl⟩ := Option.map_eq_some_iff.mp hstep
    rw [hrecord] at hkeeps
    exact not_keeps_of_full h hk hlimit hfull hinsert hkeeps

/-- An entry that was evicted is erased from what is live alone. -/
theorem KeepsHighest.erase_missing (h : history.KeepsHighest) (hk : k ∉ history.limited.map) :
    KeepsHighest ⟨history.limited, history.live.erase k⟩ := by
  refine ⟨h.indexes, ?_⟩
  by_cases hlive : k ∈ history.live
  · have herased := h.highest.erase_missing hk hlive
    have hfew : size history.limited.map ≠ size history.live :=
      fun hsize => h.notMem_live hk hsize hlive
    have hlimit : history.limited.nMaxSize ≠ 0 := by
      intro hnone
      have hsize := h.highest.size_eq
      rw [room, if_pos hnone, min_self] at hsize
      exact hfew hsize
    simpa only [room, if_neg hlimit] using herased
  · rw [erase_of_notMem hlive]
    exact h.highest

theorem step_erase_iff (h : history.KeepsHighest) :
    (∃ history', history.step (.erase k) = some history' ∧ history'.KeepsHighest) ↔
      history.Within (.erase k) := by
  cases hk : history.limited.map.lookup k with
  | none =>
    have hgone : k ∉ history.limited.map := AList.lookup_eq_none.mp hk
    rw [exists_step_iff (.erase k) (LimitedMap.erase_missing hk)]
    exact iff_of_true (h.erase_missing hgone) (Or.inl hgone)
  | some v =>
    have hmem : k ∈ history.limited.map := mem_iff_lookup.mpr ⟨v, hk⟩
    have hlive : k ∈ history.live := mem_of_sub h.highest.sub hmem
    obtain ⟨rmap, hcall, hindexes⟩ := LimitedMap.erase_spec h.indexes hk
    have hsize := h.highest.size_eq
    have hheld := size_erase_of_mem hmem
    have hleft := size_erase_of_mem hlive
    have hwithin : history.Within (.erase k) ↔ size history.live = size history.limited.map :=
      or_iff_right (not_not_intro hmem)
    rw [exists_step_iff (.erase k) hcall, hwithin]
    constructor
    · intro hkeeps
      have hsize' := hkeeps.highest.size_eq
      simp only [record, room] at hsize hsize'
      split_ifs at hsize hsize' <;> omega
    · intro hsame
      have hsizes : size (history.limited.map.erase k) = size (history.live.erase k) := by omega
      refine ⟨hindexes, highest_of_size_eq (sub_erase h.highest.sub k) hsizes ?_⟩
      simp only [record, room] at hsize ⊢
      split_ifs at hsize ⊢ <;> omega

theorem step_update_iff (h : history.KeepsHighest) :
    (∃ history', history.step (.update k v) = some history' ∧ history'.KeepsHighest) ↔
      history.Within (.update k v) := by
  cases hk : history.limited.map.lookup k with
  | none =>
    have hgone : k ∉ history.limited.map := AList.lookup_eq_none.mp hk
    rw [exists_step_iff (.update k v) (LimitedMap.update_missing hk)]
    exact iff_of_true (by simpa [record, hgone] using h) (Or.inl hgone)
  | some old =>
    have hmem : k ∈ history.limited.map := mem_iff_lookup.mpr ⟨old, hk⟩
    have hlive : k ∈ history.live := mem_of_sub h.highest.sub hmem
    obtain ⟨rmap, hcall, hindexes⟩ := LimitedMap.update_spec h.indexes hk
    have hwithin : history.Within (.update k v) ↔ ∀ k' v', history.live.lookup k' = some v' →
        k' ∉ history.limited.map → v' ≤ v := or_iff_right (not_not_intro hmem)
    have hrecord : history.record (.update k v) = history.live.insert k v := if_pos hmem
    have hroom : room history.limited.nMaxSize (history.live.insert k v) =
        room history.limited.nMaxSize history.live := by
      rw [room, room, size_insert_of_mem hlive]
    rw [exists_step_iff (.update k v) hcall, hwithin, hrecord, ← h.highest.update_iff hmem]
    constructor
    · intro hkeeps
      rw [← hroom]
      exact hkeeps.highest
    · intro hhighest
      refine ⟨hindexes, ?_⟩
      rw [hroom]
      exact hhighest

theorem step_maxSize_iff (h : history.KeepsHighest) (s : ℕ) :
    (∃ history', history.step (.maxSize s) = some history' ∧ history'.KeepsHighest) ↔
      history.Within (.maxSize s) := by
  obtain ⟨m, hcall, hlimit, hindexes, hkept⟩ := LimitedMap.maxSize_spec s h.indexes
  rw [exists_step_iff (.maxSize s) hcall]
  have hsize := h.highest.size_eq
  have hsize' := hkept.size_eq
  constructor
  · intro hkeeps
    have hsize'' := hkeeps.highest.size_eq
    simp only [record, hlimit, room] at hsize''
    by_contra hnot
    have hmore : ¬(size history.live = size history.limited.map ∨
      0 < s ∧ s ≤ size history.limited.map) := hnot
    split_ifs at hsize' hsize'' <;> omega
  · rintro (hsame | ⟨hpos, hle⟩)
    · have hall : Highest (s + size history.live) history.limited.map history.live :=
        highest_of_size_eq h.highest.sub hsame.symm (Nat.le_add_left _ s)
      rw [← hsame] at hkept
      refine ⟨hindexes, ?_⟩
      simp only [record, hlimit, room]
      refine hkept.trans hall ?_
      split_ifs <;> omega
    · rw [if_neg (by omega)] at hkept
      refine ⟨hindexes, ?_⟩
      simp only [record, hlimit, room, if_neg (show s ≠ 0 by omega)]
      refine hkept.trans h.highest ?_
      omega

/-- Each call is defined and keeps what the map is for, exactly where it is within bounds. -/
theorem step_iff (h : history.KeepsHighest) (call : LimitedMapCall K V) :
    (∃ history', history.step call = some history' ∧ history'.KeepsHighest) ↔
      history.Within call := by
  cases call with
  | insert x => exact step_insert_iff h
  | erase k => exact step_erase_iff h
  | update k v => exact step_update_iff h
  | maxSize s => exact step_maxSize_iff h s

end

theorem start_keepsHighest (nMaxSizeIn : ℕ) :
    (start nMaxSizeIn : LimitedHistory K V).KeepsHighest :=
  ⟨indexes_empty, highest_of_size_eq (fun _ _ => id) rfl (Nat.zero_le _)⟩

/-- In a run from an empty map no assertion fires, the begin of an empty index is not used, and the
map is indexed and has the entries with the highest values, exactly where every call is within
bounds. -/
theorem keepsHighest_iff (nMaxSizeIn : ℕ) (calls : List (LimitedMapCall K V)) :
    (∀ before after, calls = before ++ after →
      ∃ history, attempt step (start nMaxSizeIn) before = some history ∧ history.KeepsHighest) ↔
      AttemptAlong step Within (start nMaxSizeIn) calls :=
  forall_prefix_attempt_iff_along (start_keepsHighest nMaxSizeIn) fun _ call h => step_iff h call

/-- With room for one entry, the first insertion uses the begin of an empty index. -/
theorem not_keepsHighest : ¬∀ before after : List (LimitedMapCall ℕ ℤ),
    [.insert (7, 5)] = before ++ after → ∃ history : LimitedHistory ℕ ℤ,
      attempt step (start 1) before = some history ∧ history.KeepsHighest := by
  intro h
  obtain ⟨history, hrun, -⟩ := h [.insert (7, 5)] [] rfl
  have hnone : attempt step (start 1) [.insert (7, 5)] = (none : Option (LimitedHistory ℕ ℤ)) := by
    decide
  rw [hnone] at hrun
  contradiction

end LimitedHistory
end Lytix
