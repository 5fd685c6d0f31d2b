import Lytix.Lib.CountEntries
import Mathlib.Data.List.Sort

/-! Multimaps, the index that one keeps of a table by value, and the entries of a table that have
the highest values. -/
namespace Multimaps

open CountEntries

/-- The entries stand in the order of their values. -/
structure Multimap (V ι : Type*) [LinearOrder V] where
  entries : List (V × ι)
  sorted : entries.Pairwise fun e e' => e.1 ≤ e'.1

variable {κ V : Type*} [LinearOrder V] [DecidableEq κ]

namespace Multimap

def empty : Multimap V κ := ⟨[], List.Pairwise.nil⟩

omit [DecidableEq κ] in
theorem sorted_orderedInsert {l : List (V × κ)} {e : V × κ}
    (h : l.Pairwise fun e e' => e.1 ≤ e'.1) :
    (l.orderedInsert (fun e e' => e.1 < e'.1) e).Pairwise fun e e' => e.1 ≤ e'.1 := by
  induction l with
  | nil => simp
  | cons first rest ih =>
    obtain ⟨hfirst, hrest⟩ := List.pairwise_cons.mp h
    rw [List.orderedInsert_cons]
    split_ifs with hlt
    · refine List.pairwise_cons.mpr ⟨?_, h⟩
      intro e' he'
      rcases List.mem_cons.mp he' with rfl | hlater
      · exact hlt.le
      · exact hlt.le.trans (hfirst e' hlater)
    · refine List.pairwise_cons.mpr ⟨?_, ih hrest⟩
      intro e' he'
      rcases (List.mem_orderedInsert _).mp he' with rfl | hlater
      · exact not_lt.mp hlt
      · exact hfirst e' hlater

/-- A new entry stands behind those of an equal value. -/
def insert (index : Multimap V κ) (e : V × κ) : Multimap V κ :=
  ⟨index.entries.orderedInsert (fun e e' => e.1 < e'.1) e, sorted_orderedInsert index.sorted⟩

/-- Erases the first entry with this value that points there. -/
def erase (index : Multimap V κ) (e : V × κ) : Option (Multimap V κ) :=
  if e ∈ index.entries then
    some ⟨index.entries.erase e, index.sorted.sublist List.erase_sublist⟩
  else none

/-- `begin()`, and the multimap without it. -/
def popFirst (index : Multimap V κ) : Option ((V × κ) × Multimap V κ) :=
  match index with
  | ⟨[], _⟩ => none
  | ⟨e :: rest, sorted⟩ => some (e, ⟨rest, (List.pairwise_cons.mp sorted).2⟩)

end Multimap

/-- An index has exactly one entry for each entry of a table. -/
def Indexes (index : Multimap V κ) (table : Table κ V) : Prop :=
  index.entries.Perm (table.entries.map fun e => (e.2, e.1))

section
variable {index : Multimap V κ} {table : Table κ V} {k : κ} {v : V}

omit [DecidableEq κ] in
theorem indexes_empty : Indexes (Multimap.empty : Multimap V κ) ∅ := List.Perm.refl _

theorem Indexes.mem_iff (h : Indexes index table) :
    (v, k) ∈ index.entries ↔ table.lookup k = some v := by
  have hentry : (v, k) ∈ index.entries ↔ (v, k) ∈ table.entries.map fun e => (e.2, e.1) :=
    List.Perm.mem_iff h
  rw [hentry, ← mem_entries_iff, List.mem_map]
  constructor
  · rintro ⟨e, he, heq⟩
    obtain ⟨rfl, rfl⟩ := Prod.mk.inj heq
    exact he
  · intro he
    exact ⟨⟨k, v⟩, he, rfl⟩

/-- A table with another value for one of its keys, or with a new key. -/
theorem Indexes.insert (h : Indexes index (table.erase k)) :
    Indexes (index.insert (v, k)) (table.insert k v) := by
  have hnew : (index.insert (v, k)).entries.Perm ((v, k) :: index.entries) :=
    List.perm_orderedInsert _ (v, k) index.entries
  exact hnew.trans (h.cons (v, k))

theorem indexes_erase_iff (h : table.lookup k = some v) {rest : Multimap V κ} :
    Indexes rest (table.erase k) ↔
      ((v, k) :: rest.entries).Perm (table.entries.map fun e => (e.2, e.1)) := by
  obtain ⟨before, after, hentries, herased⟩ := exists_split h
  have hmiddle : (table.entries.map fun e => (e.2, e.1)).Perm
      ((v, k) :: (table.erase k).entries.map fun e => (e.2, e.1)) := by
    rw [hentries, herased, List.map_append, List.map_cons, List.map_append]
    exact List.perm_middle
  constructor
  · intro hrest
    exact (List.Perm.cons (v, k) hrest).trans hmiddle.symm
  · intro hall
    exact List.Perm.cons_inv (hall.trans hmiddle)

/-- The entry of a key is found under its value. -/
theorem Indexes.erase (h : Indexes index table) (hk : table.lookup k = some v) :
    ∃ rest, index.erase (v, k) = some rest ∧ Indexes rest (table.erase k) := by
  have hmem : (v, k) ∈ index.entries := h.mem_iff.mpr hk
  refine ⟨_, if_pos hmem, ?_⟩
  rw [indexes_erase_iff hk]
  exact (List.perm_cons_erase hmem).symm.trans h

/-- The first entry points to a lowest value of the table. -/
theorem Indexes.of_popFirst (h : Indexes index table) {e : V × κ} {rest : Multimap V κ}
    (hpop : index.popFirst = some (e, rest)) : table.lookup e.2 = some e.1 ∧
      (∀ k' v', table.lookup k' = some v' → e.1 ≤ v') ∧ Indexes rest (table.erase e.2) := by
  obtain ⟨entries, sorted⟩ := index
  cases entries with
  | nil => simp [Multimap.popFirst] at hpop
  | cons first later =>
    obtain ⟨rfl, rfl⟩ := Prod.mk.inj (Option.some.inj hpop)
    have hfound : table.lookup first.2 = some first.1 := h.mem_iff.mp List.mem_cons_self
    refine ⟨hfound, ?_, (indexes_erase_iff hfound).mpr h⟩
    intro k' v' hlookup
    rcases List.mem_cons.mp (h.mem_iff.mpr hlookup) with heq | hlater
    · exact le_of_eq (congrArg Prod.fst heq).symm
    · exact (List.pairwise_cons.mp sorted).1 (v', k') hlater

omit [DecidableEq κ] in
theorem Indexes.exists_popFirst (h : Indexes index table) (hpos : 0 < size table) :
    ∃ e rest, index.popFirst = some (e, rest) := by
  obtain ⟨entries, sorted⟩ := index
  cases entries with
  | nil =>
    have hnone : table.entries = [] := List.map_eq_nil_iff.mp (List.Perm.nil_eq h).symm
    simp [size, AList.keys, hnone] at hpos
  | cons e rest => exact ⟨e, _, rfl⟩

omit [DecidableEq κ] in
end

/-- `held` has entries of `all` whose values no other exceeds, `n` of them if there are so many. -/
structure Highest (n : ℕ) (held all : Table κ V) : Prop where
  sub : ∀ k v, held.lookup k = some v → all.lookup k = some v
  size_eq : size held = min n (size all)
  le : ∀ k v k' v', all.lookup k = some v → k ∉ held → held.lookup k' = some v' → v ≤ v'

section
variable {n n' : ℕ} {held all : Table κ V} {k : κ} {v : V}

omit [LinearOrder V] in
theorem mem_iff_lookup {table : Table κ V} : k ∈ table ↔ ∃ v, table.lookup k = some v := by
  rw [← AList.lookup_isSome, Option.isSome_iff_exists]

omit [LinearOrder V] in
theorem sub_insert (sub : ∀ k v, held.lookup k = some v → all.lookup k = some v) (k : κ) (v : V) :
    ∀ k' v', (held.insert k v).lookup k' = some v' → (all.insert k v).lookup k' = some v' := by
  intro k' v'
  rw [lookup_insert_eq, lookup_insert_eq]
  split_ifs
  · exact id
  · exact sub k' v'

omit [LinearOrder V] in
theorem sub_erase (sub : ∀ k v, held.lookup k = some v → all.lookup k = some v) (k : κ) :
    ∀ k' v', (held.erase k).lookup k' = some v' → (all.erase k).lookup k' = some v' := by
  intro k' v'
  rw [lookup_erase_eq, lookup_erase_eq]
  split_ifs
  · exact id
  · exact sub k' v'

omit [LinearOrder V] in
theorem mem_of_sub (sub : ∀ k v, held.lookup k = some v → all.lookup k = some v) (hk : k ∈ held) :
    k ∈ all := by
  obtain ⟨v, hv⟩ := mem_iff_lookup.mp hk
  exact mem_iff_lookup.mpr ⟨v, sub k v hv⟩

omit [LinearOrder V] in
/-- A table with as many entries as the one that it is part of has all its keys. -/
theorem mem_of_size_eq (sub : ∀ k v, held.lookup k = some v → all.lookup k = some v)
    (hsize : size held = size all) (hk : k ∈ all) : k ∈ held := by
  have hsubperm : held.keys.Subperm all.keys := by
    apply List.subperm_of_subset held.keys_nodup
    intro k' hk'
    exact AList.mem_keys.mp (mem_of_sub sub (AList.mem_keys.mpr hk'))
  have hperm : held.keys.Perm all.keys := hsubperm.perm_of_length_le (le_of_eq hsize.symm)
  exact AList.mem_keys.mpr (hperm.mem_iff.mpr (AList.mem_keys.mp hk))

theorem highest_of_size_eq (sub : ∀ k v, held.lookup k = some v → all.lookup k = some v)
    (hsize : size held = size all) (hle : size all ≤ n) : Highest n held all where
  sub := sub
  size_eq := by rw [hsize, min_eq_right hle]
  le := by
    intro k v _ _ hall hmissing _
    exact absurd (mem_of_size_eq sub hsize (mem_iff_lookup.mpr ⟨v, hall⟩)) hmissing

/-- The highest of the highest. -/
theorem Highest.trans {middle : Table κ V} (h : Highest n held middle)
    (h' : Highest n' middle all) (hle : n ≤ n') : Highest n held all where
  sub := fun k v hheld => h'.sub k v (h.sub k v hheld)
  size_eq := by rw [h.size_eq, h'.size_eq, ← min_assoc, min_eq_left hle]
  le := by
    intro k v k' v' hall hmissing hheld
    by_cases hmiddle : k ∈ middle
    · obtain ⟨w, hw⟩ := mem_iff_lookup.mp hmiddle
      have hsame : w = v := Option.some.inj ((h'.sub k w hw).symm.trans hall)
      exact h.le k v k' v' (hsame ▸ hw) hmissing hheld
    · exact h'.le k v k' v' hall hmiddle (h.sub k' v' hheld)

/-- A table without a lowest entry. -/
theorem highest_erase (hk : all.lookup k = some v)
    (hlow : ∀ k' v', all.lookup k' = some v' → v ≤ v') :
    Highest (size all - 1) (all.erase k) all where
  sub := by
    intro k' v'
    rw [lookup_erase_eq]
    split_ifs
    · exact fun h => absurd h (by simp)
    · exact id
  size_eq := by
    have hsize := size_erase_of_mem (mem_iff_lookup.mpr ⟨v, hk⟩)
    omega
  le := by
    intro k' v' k'' v'' hall hmissing hheld
    rw [lookup_erase_eq] at hheld
    split_ifs at hheld with hne
    have hkey : k' = k := by
      by_contra hother
      apply hmissing
      rw [AList.mem_erase]
      exact ⟨hother, mem_iff_lookup.mpr ⟨v', hall⟩⟩
    have hvalue : v = v' := Option.some.inj (hk.symm.trans (hkey ▸ hall))
    rw [← hvalue]
    exact hlow k'' v'' hheld

/-- An entry that is not held is erased from the others. -/
theorem Highest.erase_missing (h : Highest n held all) (hk : k ∉ held) (hall : k ∈ all) :
    Highest n held (all.erase k) where
  sub := by
    intro k' v' hheld
    have hne : k' ≠ k := fun heq => hk (heq ▸ mem_iff_lookup.mpr ⟨v', hheld⟩)
    rw [AList.lookup_erase_ne hne]
    exact h.sub k' v' hheld
  size_eq := by
    have hmissing : size held ≠ size all := fun hsize => hk (mem_of_size_eq h.sub hsize hall)
    have hsize := h.size_eq
    have hleft := size_erase_of_mem hall
    omega
  le := by
    intro k' v' k'' v'' hlookup hmissing hheld
    rw [lookup_erase_eq] at hlookup
    split_ifs at hlookup
    exact h.le k' v' k'' v'' hlookup hmissing hheld

omit [LinearOrder V] in
theorem size_insert_of_mem {table : Table κ V} (hk : k ∈ table) :
    size (table.insert k v) = size table := by
  rw [size_insert, size_erase_of_mem hk]

/-- An entry that is held may be given any value that none of the others exceeds. -/
theorem Highest.update_iff (h : Highest n held all) (hk : k ∈ held) :
    Highest n (held.insert k v) (all.insert k v) ↔
      ∀ k' v', all.lookup k' = some v' → k' ∉ held → v' ≤ v := by
  have hall : k ∈ all := mem_of_sub h.sub hk
  have hother {k' : κ} (hmissing : k' ∉ held) :
      (all.insert k v).lookup k' = all.lookup k' ∧ k' ∉ held.insert k v := by
    have hne : k' ≠ k := fun heq => hmissing (heq ▸ hk)
    exact ⟨AList.lookup_insert_ne hne, by simp [AList.mem_insert, hne, hmissing]⟩
  constructor
  · intro hupdated k' v' hlookup hmissing
    obtain ⟨hsame, hmissing'⟩ := hother hmissing
    exact hupdated.le k' v' k v (hsame.trans hlookup) hmissing' (AList.lookup_insert held)
  · intro hbelow
    refine ⟨sub_insert h.sub k v, ?_, ?_⟩
    · rw [size_insert_of_mem hk, size_insert_of_mem hall, h.size_eq]
    · intro k' v' k'' v'' hlookup hmissing hheld
      have hgone : k' ∉ held := fun hmem => hmissing ((AList.mem_insert held).mpr (Or.inr hmem))
      rw [(hother hgone).1] at hlookup
      rw [lookup_insert_eq] at hheld
      split_ifs at hheld
      · exact Option.some.inj hheld ▸ hbelow k' v' hlookup hgone
      · exact h.le k' v' k'' v'' hlookup hgone hheld

end
end Multimaps
