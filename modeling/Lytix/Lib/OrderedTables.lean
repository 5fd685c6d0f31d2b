import Lytix.Lib.CountEntries
import Mathlib.Data.List.MinMax
import Mathlib.Data.List.Sort

/-! Tables whose entries are visited in the order of their keys, as those of a `std::map` are.
The order is given by a rank of the keys. -/
namespace OrderedTables

open CountEntries

variable {κ V : Type*} [DecidableEq κ] (rank : κ → ℕ)

/-- `begin()`; `none` stands for `end()`. -/
def first (table : Table κ V) : Option κ := table.keys.argmin rank

/-- `lower_bound`. -/
def lowerBound (table : Table κ V) (k : κ) : Option κ :=
  (table.keys.filter fun k' => rank k ≤ rank k').argmin rank

/-- The iterator after the one at `k`. -/
def after (table : Table κ V) (k : κ) : Option κ :=
  (table.keys.filter fun k' => rank k < rank k').argmin rank

/-- How many entries an iterator has still to come to, its own among them. -/
def ahead (table : Table κ V) : Option κ → ℕ
  | none => 0
  | some k => (table.keys.filter fun k' => rank k ≤ rank k').length

/-- The entries one after another. -/
def inOrder (table : Table κ V) : List (κ × V) :=
  (table.entries.map fun e => (e.1, e.2)).insertionSort fun a b => rank a.1 ≤ rank b.1

section
variable {rank} {table : Table κ V} {k k' : κ} {v : V}

omit [DecidableEq κ] in
theorem inOrder_perm : (inOrder rank table).Perm (table.entries.map fun e => (e.1, e.2)) :=
  List.perm_insertionSort _ _

theorem mem_inOrder : (k, v) ∈ inOrder rank table ↔ table.lookup k = some v := by
  rw [inOrder_perm.mem_iff, List.mem_map, ← mem_entries_iff]
  constructor
  · rintro ⟨e, he, heq⟩
    obtain ⟨rfl, rfl⟩ := Prod.mk.inj heq
    exact he
  · intro h
    exact ⟨⟨k, v⟩, h, rfl⟩

omit [DecidableEq κ] in
theorem keys_inOrder_perm : ((inOrder rank table).map Prod.fst).Perm table.keys := by
  have hperm := (@inOrder_perm κ V rank table).map Prod.fst
  rw [List.map_map] at hperm
  exact hperm

omit [DecidableEq κ] in
theorem nodup_keys_inOrder : ((inOrder rank table).map Prod.fst).Nodup :=
  keys_inOrder_perm.nodup_iff.mpr table.nodupKeys

omit [DecidableEq κ] in
theorem countP_inOrder (q : κ → V → Bool) :
    (inOrder rank table).countP (fun e => q e.1 e.2) = count q table := by
  rw [inOrder_perm.countP_eq, List.countP_map]
  rfl

omit [DecidableEq κ] in
theorem mem_of_first (h : first rank table = some k) : k ∈ table :=
  AList.mem_keys.mpr (List.argmin_mem h)

omit [DecidableEq κ] in
theorem mem_of_lowerBound (h : lowerBound rank table k = some k') : k' ∈ table :=
  AList.mem_keys.mpr (List.mem_of_mem_filter (List.argmin_mem h))

omit [DecidableEq κ] in
theorem mem_of_after (h : after rank table k = some k') : k' ∈ table :=
  AList.mem_keys.mpr (List.mem_of_mem_filter (List.argmin_mem h))

omit [DecidableEq κ] in
theorem rank_lt_of_after (h : after rank table k = some k') : rank k < rank k' := by
  have hkept := List.of_mem_filter (List.argmin_mem h)
  simpa using hkept

omit [DecidableEq κ] in
theorem exists_first (h : table.keys ≠ []) : ∃ k, first rank table = some k := by
  apply Option.ne_none_iff_exists'.mp
  intro hnone
  exact h (List.argmin_eq_none.mp hnone)

omit [DecidableEq κ] in
/-- Nothing comes before the first entry. -/
theorem first_le (h : first rank table = some k) (hk' : k' ∈ table) : rank k ≤ rank k' :=
  List.le_of_mem_argmin (AList.mem_keys.mp hk') h

omit [DecidableEq κ] in
/-- Nothing lies between an entry and the one after it. -/
theorem after_le {next : κ} (h : after rank table k = some next) (hk' : k' ∈ table)
    (hlt : rank k < rank k') : rank next ≤ rank k' := by
  apply List.le_of_mem_argmin _ h
  apply List.mem_filter.mpr
  exact ⟨AList.mem_keys.mp hk', by simpa using hlt⟩

omit [DecidableEq κ] in
theorem le_of_after_eq_none (h : after rank table k = none) (hk' : k' ∈ table) :
    rank k' ≤ rank k := by
  by_contra hlt
  have hempty := List.argmin_eq_none.mp h
  have hmem : k' ∈ table.keys.filter fun k' => rank k < rank k' := by
    apply List.mem_filter.mpr
    exact ⟨AList.mem_keys.mp hk', by simpa using hlt⟩
  rw [hempty] at hmem
  contradiction

omit [DecidableEq κ] in
/-- Past an entry there are fewer still to come, whatever is erased on the way. -/
theorem ahead_after_lt {smaller : Table κ V} (hk : k ∈ table)
    (hsub : List.Sublist smaller.keys table.keys) :
    ahead rank smaller (after rank table k) < ahead rank table (some k) := by
  have hown : k ∈ table.keys.filter fun k' => rank k ≤ rank k' := by
    apply List.mem_filter.mpr
    exact ⟨AList.mem_keys.mp hk, by simp⟩
  cases hnext : after rank table k with
  | none => exact List.length_pos_of_mem hown
  | some next =>
    have hlt := rank_lt_of_after hnext
    have hstricter : List.Sublist (smaller.keys.filter fun k' => rank next ≤ rank k')
        ((table.keys.filter fun k' => rank k ≤ rank k').filter fun k' => rank next ≤ rank k') := by
      have hagain : (table.keys.filter fun k' => rank k ≤ rank k').filter
          (fun k' => rank next ≤ rank k') = table.keys.filter fun k' => rank next ≤ rank k' := by
        rw [List.filter_filter]
        apply List.filter_congr
        intro k' _
        by_cases hle : rank next ≤ rank k'
        · have hbelow : rank k ≤ rank k' := by omega
          simp [hle, hbelow]
        · simp [hle]
      rw [hagain]
      exact hsub.filter _
    apply lt_of_le_of_lt hstricter.length_le
    apply List.length_filter_lt_length_iff_exists.mpr
    exact ⟨k, hown, by simpa using hlt⟩

end
end OrderedTables
