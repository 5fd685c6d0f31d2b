import Mathlib.Data.List.AList
import Mathlib.Tactic

/-! Finite tables, how many of their entries satisfy a predicate, and sums over the entries. -/
namespace CountEntries

abbrev Table (κ V : Type*) := AList fun _ : κ => V

variable {κ V : Type*} [DecidableEq κ]

/-- Other values under the same keys. -/
def mapValues {W : Type*} (f : κ → V → W) (table : Table κ V) : Table κ W :=
  ⟨table.entries.map (Sigma.map id f), List.NodupKeys.map₂ f table.entries table.nodupKeys⟩

/-- The entries that satisfy a predicate. -/
def filter (q : κ → V → Bool) (table : Table κ V) : Table κ V :=
  ⟨table.entries.filter fun e => q e.1 e.2,
    List.NodupKeys.sublist List.filter_sublist table.nodupKeys⟩

def count (q : κ → V → Bool) (table : Table κ V) : ℕ := table.entries.countP fun e => q e.1 e.2

def total (f : κ → V → ℕ) (table : Table κ V) : ℕ := (table.entries.map fun e => f e.1 e.2).sum

def size (table : Table κ V) : ℕ := table.keys.length

section
variable {q : κ → V → Bool} {table : Table κ V} {k : κ} {v : V}

theorem mem_entries_iff : ⟨k, v⟩ ∈ table.entries ↔ table.lookup k = some v := by
  rw [← Option.mem_def, AList.mem_lookup_iff]

omit [DecidableEq κ] in
theorem count_empty : count q (∅ : Table κ V) = 0 := rfl

theorem count_insert_of_notMem (h : k ∉ table) :
    count q (table.insert k v) = count q table + if q k v then 1 else 0 := by
  unfold count
  rw [AList.entries_insert_of_notMem h, List.countP_cons]

theorem erase_of_notMem (h : k ∉ table) : table.erase k = table := by
  apply AList.ext
  exact List.kerase_of_notMem_keys h

/-- An entry with what stands before and behind it. -/
theorem exists_split (h : table.lookup k = some v) : ∃ before after,
    table.entries = before ++ ⟨k, v⟩ :: after ∧ (table.erase k).entries = before ++ after := by
  have hk : k ∈ table := AList.lookup_isSome.mp (by rw [h]; rfl)
  obtain ⟨w, before, after, -, hentries, herased⟩ := List.exists_of_kerase (AList.mem_keys.mp hk)
  have hlookup : table.lookup k = some w := by
    apply mem_entries_iff.mp
    rw [hentries]
    exact List.mem_append_right before List.mem_cons_self
  have hvalue : w = v := Option.some.inj (hlookup.symm.trans h)
  exact ⟨before, after, hvalue ▸ hentries, herased⟩

theorem count_eq_add_erase (h : table.lookup k = some v) :
    count q table = (if q k v then 1 else 0) + count q (table.erase k) := by
  obtain ⟨before, after, hentries, herased⟩ := exists_split h
  unfold count
  rw [herased, hentries]
  simp only [List.countP_append, List.countP_cons]
  omega

theorem count_insert :
    count q (table.insert k v) = (if q k v then 1 else 0) + count q (table.erase k) := by
  have hentries : (table.insert k v).entries = ⟨k, v⟩ :: (table.erase k).entries := rfl
  unfold count
  rw [hentries, List.countP_cons, Nat.add_comm]

omit [DecidableEq κ] in
theorem count_add_count_not : count q table + count (fun k v => !q k v) table = size table := by
  have hlength : size table = table.entries.length := List.length_map _
  rw [hlength, List.length_eq_countP_add_countP (fun e => q e.1 e.2)]
  simp [count]

/-- Another value that is counted as the old one. -/
theorem count_insert_of_lookup {v' : V} (h : table.lookup k = some v) (hq : q k v' = q k v) :
    count q (table.insert k v') = count q table := by
  have hsplit : count q table = _ + count q (table.erase k) := count_eq_add_erase h
  rw [count_insert, hsplit, hq]

/-- Erasing an entry that is not counted. -/
theorem count_erase_of_not (h : ∀ v, table.lookup k = some v → q k v = false) :
    count q (table.erase k) = count q table := by
  cases hlookup : table.lookup k with
  | none => rw [erase_of_notMem (AList.lookup_eq_none.mp hlookup)]
  | some v =>
    have hsplit : count q table = _ + count q (table.erase k) := count_eq_add_erase hlookup
    rw [hsplit, h v hlookup]
    simp

theorem count_erase_le : count q (table.erase k) ≤ count q table :=
  List.Sublist.countP_le (List.kerase_sublist k table.entries)

theorem total_eq_add_erase {f : κ → V → ℕ} (h : table.lookup k = some v) :
    total f table = f k v + total f (table.erase k) := by
  obtain ⟨before, after, hentries, herased⟩ := exists_split h
  unfold total
  rw [herased, hentries]
  simp only [List.map_append, List.map_cons, List.sum_append, List.sum_cons]
  omega

theorem total_insert {f : κ → V → ℕ} :
    total f (table.insert k v) = f k v + total f (table.erase k) := rfl

theorem size_erase_of_mem (h : k ∈ table) : size (table.erase k) + 1 = size table := by
  have hmem : k ∈ table.keys := AList.mem_keys.mp h
  have hpos : 0 < table.keys.length := List.length_pos_of_mem hmem
  unfold size
  rw [AList.keys_erase, List.length_erase_of_mem hmem]
  omega

theorem size_insert : size (table.insert k v) = size (table.erase k) + 1 := rfl

theorem lookup_erase_eq (k' : κ) :
    (table.erase k).lookup k' = if k' = k then none else table.lookup k' := by
  by_cases h : k' = k
  · rw [if_pos h, h, AList.lookup_erase]
  · rw [if_neg h, AList.lookup_erase_ne h]

theorem lookup_insert_eq (k' : κ) :
    (table.insert k v).lookup k' = if k' = k then some v else table.lookup k' := by
  by_cases h : k' = k
  · rw [if_pos h, h, AList.lookup_insert]
  · rw [if_neg h, AList.lookup_insert_ne h]

theorem count_eq_zero_iff : count q table = 0 ↔ ∀ k v, table.lookup k = some v → q k v = false := by
  unfold count
  rw [List.countP_eq_zero]
  constructor
  · intro h k v hlookup
    have hnot := h ⟨k, v⟩ (mem_entries_iff.mpr hlookup)
    simpa using hnot
  · intro h e he
    have hnot := h e.1 e.2 (mem_entries_iff.mp he)
    simp [hnot]

theorem count_eq_size_iff :
    count q table = size table ↔ ∀ k v, table.lookup k = some v → q k v = true := by
  have hlength : size table = table.entries.length := List.length_map _
  unfold count
  rw [hlength, List.countP_eq_length]
  constructor
  · intro h k v hlookup
    exact h ⟨k, v⟩ (mem_entries_iff.mpr hlookup)
  · intro h e he
    exact h e.1 e.2 (mem_entries_iff.mp he)

theorem lookup_mapValues {W : Type*} {f : κ → V → W} :
    (mapValues f table).lookup k = (table.lookup k).map (f k) :=
  List.dlookup_map₂ k

theorem lookup_filter : (filter q table).lookup k = (table.lookup k).filter (q k) := by
  apply Option.ext
  intro v
  have hentry : ⟨k, v⟩ ∈ (filter q table).entries ↔ ⟨k, v⟩ ∈ table.entries ∧ q k v = true :=
    List.mem_filter
  rw [Option.filter_eq_some_iff, ← mem_entries_iff, hentry, mem_entries_iff]

end
end CountEntries
