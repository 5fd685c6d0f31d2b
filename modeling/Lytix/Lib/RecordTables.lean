import Lytix.Lib.CountEntries

/-! Tables that keep one record for each thing of a list, under a key made from it. Two things may
have the same key. -/
namespace RecordTables
open CountEntries

variable {α κ V : Type*} [DecidableEq κ]

def writeAll (table : Table κ V) (records : List (κ × V)) : Table κ V :=
  records.foldl (fun table r => table.insert r.1 r.2) table

def eraseAll (table : Table κ V) (keys : List κ) : Table κ V :=
  keys.foldl (fun table k => table.erase k) table

/-- The records under their keys. -/
def keyed (key : α → κ) (records : List (α × V)) : List (κ × V) :=
  records.map fun r => (key r.1, r.2)

/-- Every record has its key in the table, and what the table holds is one of the records. -/
structure Mirrors (key : α → κ) (records : List (α × V)) (table : Table κ V) : Prop where
  complete : ∀ r ∈ records, (table.lookup (key r.1)).isSome = true
  sound : ∀ k v, table.lookup k = some v → ∃ r ∈ records, key r.1 = k ∧ r.2 = v

section
variable {table : Table κ V} {written : List (κ × V)} {keys : List κ} {k : κ} {v : V}
  {key : α → κ} {records added : List (α × V)}

theorem lookup_eraseAll :
    (eraseAll table keys).lookup k = if k ∈ keys then none else table.lookup k := by
  induction keys generalizing table with
  | nil => simp [eraseAll]
  | cons k' keys ih =>
    have hstep : eraseAll table (k' :: keys) = eraseAll (table.erase k') keys := rfl
    rw [hstep, ih, lookup_erase_eq]
    by_cases hkey : k = k'
    · subst hkey
      simp
    · simp [hkey]

theorem lookup_writeAll_of_notMem (h : k ∉ written.map Prod.fst) :
    (writeAll table written).lookup k = table.lookup k := by
  induction written generalizing table with
  | nil => rfl
  | cons r written ih =>
    rw [List.map_cons, List.mem_cons, not_or] at h
    have hstep : writeAll table (r :: written) = writeAll (table.insert r.1 r.2) written := rfl
    rw [hstep, ih h.2, lookup_insert_eq, if_neg h.1]

/-- A key that is written holds one of the records written to it. -/
theorem lookup_writeAll_of_mem (h : k ∈ written.map Prod.fst) :
    ∃ v, (k, v) ∈ written ∧ (writeAll table written).lookup k = some v := by
  induction written generalizing table with
  | nil => contradiction
  | cons r written ih =>
    have hstep : writeAll table (r :: written) = writeAll (table.insert r.1 r.2) written := rfl
    rw [hstep]
    by_cases hlater : k ∈ written.map Prod.fst
    · obtain ⟨v, hmem, hlookup⟩ := @ih (table.insert r.1 r.2) hlater
      exact ⟨v, List.mem_cons_of_mem r hmem, hlookup⟩
    · have hkey : k = r.1 := by simpa [hlater] using h
      refine ⟨r.2, ?_, ?_⟩
      · rw [hkey]
        exact List.mem_cons_self
      · rw [lookup_writeAll_of_notMem hlater, lookup_insert_eq, if_pos hkey]

omit [DecidableEq κ] in
theorem mem_keyed_fst : k ∈ (keyed key records).map Prod.fst ↔ ∃ r ∈ records, key r.1 = k := by
  simp [keyed]

omit [DecidableEq κ] in
theorem mem_keyed : (k, v) ∈ keyed key records ↔ ∃ r ∈ records, key r.1 = k ∧ r.2 = v := by
  simp [keyed]

/-- Records written to a table that held others leave a mirror exactly when every key that the
table had is written. -/
theorem mirrors_writeAll_iff (hwritten : ∀ r, r ∈ written ↔ r ∈ keyed key records) :
    Mirrors key records (writeAll table written) ↔
      ∀ k ∈ table, ∃ r ∈ records, key r.1 = k := by
  have hkeys : ∀ k, k ∈ written.map Prod.fst ↔ ∃ r ∈ records, key r.1 = k := by
    intro k
    rw [← mem_keyed_fst, List.mem_map, List.mem_map]
    simp only [hwritten]
  constructor
  · intro h k hmem
    by_contra hunwritten
    have hold := @lookup_writeAll_of_notMem κ V _ table written k (mt (hkeys k).mp hunwritten)
    obtain ⟨v, hv⟩ := Option.isSome_iff_exists.mp (AList.lookup_isSome.mpr hmem)
    rw [hv] at hold
    obtain ⟨r, hr, hkey, -⟩ := h.sound k v hold
    exact hunwritten ⟨r, hr, hkey⟩
  · intro h
    constructor
    case complete =>
      intro r hmem
      obtain ⟨v, -, hlookup⟩ := @lookup_writeAll_of_mem κ V _ table written _
        ((hkeys (key r.1)).mpr ⟨r, hmem, rfl⟩)
      rw [hlookup]
      rfl
    case sound =>
      intro k v hlookup
      by_cases hkey : k ∈ written.map Prod.fst
      · obtain ⟨v', hmem, hvalue⟩ := @lookup_writeAll_of_mem κ V _ table _ _ hkey
        have hsame : v' = v := Option.some.inj (hvalue.symm.trans hlookup)
        rw [hwritten, hsame] at hmem
        exact mem_keyed.mp hmem
      · rw [lookup_writeAll_of_notMem hkey] at hlookup
        have hmem : k ∈ table := AList.lookup_isSome.mp (by rw [hlookup]; rfl)
        exact absurd ((hkeys k).mpr (h k hmem)) hkey

/-- The second table is the first with the records written to it, in some order, some of them more
than once. -/
def Rewrites (key : α → κ) (records : List (α × V)) (table table' : Table κ V) : Prop :=
  ∃ written, table' = writeAll table written ∧ ∀ r, r ∈ written ↔ r ∈ keyed key records

variable {table' table'' : Table κ V}

theorem rewrites_nil : Rewrites key ([] : List (α × V)) table table :=
  ⟨[], rfl, fun r => by simp [keyed]⟩

theorem rewrites_keyed : Rewrites key records table (writeAll table (keyed key records)) :=
  ⟨keyed key records, rfl, fun _ => Iff.rfl⟩

theorem Rewrites.append (h : Rewrites key records table table')
    (h' : Rewrites key added table' table'') :
    Rewrites key (records ++ added) table table'' := by
  obtain ⟨first, rfl, hfirst⟩ := h
  obtain ⟨second, rfl, hsecond⟩ := h'
  refine ⟨first ++ second, ?_, fun r => ?_⟩
  · rw [writeAll, writeAll, writeAll, List.foldl_append]
  · rw [List.mem_append, hfirst, hsecond, keyed, keyed, keyed, List.map_append, List.mem_append]

theorem Rewrites.again (h : Rewrites key records table table')
    (h' : Rewrites key records table' table'') : Rewrites key records table table'' := by
  obtain ⟨written, hwritten, hmem⟩ := h.append h'
  refine ⟨written, hwritten, fun r => ?_⟩
  rw [hmem, keyed, keyed, List.map_append, List.mem_append, or_self]

theorem Rewrites.mirrors_iff (h : Rewrites key records table table') :
    Mirrors key records table' ↔ ∀ k ∈ table, ∃ r ∈ records, key r.1 = k := by
  obtain ⟨written, rfl, hwritten⟩ := h
  exact mirrors_writeAll_iff hwritten

end

/-- The second table is the first without the keys of the records. -/
structure Erases (key : α → κ) (records : List (α × V)) (table table' : Table κ V) : Prop where
  gone : ∀ r ∈ records, table'.lookup (key r.1) = none
  kept : ∀ k, (∀ r ∈ records, key r.1 ≠ k) → table'.lookup k = table.lookup k

section
variable {key : α → κ} {records erased : List (α × V)} {table table' table'' : Table κ V}

theorem erases_nil : Erases key ([] : List (α × V)) table table := ⟨by simp, fun _ _ => rfl⟩

theorem erases_single {r : α × V} : Erases key [r] table (table.erase (key r.1)) where
  gone := by
    intro r' hr'
    obtain rfl := List.mem_singleton.mp hr'
    exact AList.lookup_erase _ _
  kept := by
    intro k hother
    exact AList.lookup_erase_ne (hother r (List.mem_singleton_self r)).symm

theorem Erases.append (h : Erases key records table table')
    (h' : Erases key erased table' table'') : Erases key (records ++ erased) table table'' where
  gone := by
    intro r hr
    by_cases hagain : ∃ r' ∈ erased, key r'.1 = key r.1
    · obtain ⟨r', hr', hsame⟩ := hagain
      rw [← hsame]
      exact h'.gone r' hr'
    · have hfirst : r ∈ records := by
        rcases List.mem_append.mp hr with hfirst | hsecond
        · exact hfirst
        · exact absurd ⟨r, hsecond, rfl⟩ hagain
      rw [h'.kept _ fun r' hr' hsame => hagain ⟨r', hr', hsame⟩]
      exact h.gone r hfirst
  kept := by
    intro k hother
    rw [h'.kept k fun r hr => hother r (List.mem_append_right records hr)]
    exact h.kept k fun r hr => hother r (List.mem_append_left erased hr)

theorem Erases.congr (h : Erases key records table table')
    (hsame : ∀ r, r ∈ records ↔ r ∈ erased) : Erases key erased table table' where
  gone := fun r hr => h.gone r ((hsame r).mpr hr)
  kept := fun k hother => h.kept k fun r hr => hother r ((hsame r).mp hr)

end

/-! Records that come and go in groups, the last group first. -/

/-- No two groups share a key. -/
def Apart (key : α → κ) (groups : List (List (α × V))) : Prop :=
  groups.Pairwise fun g g' => ∀ r ∈ g, ∀ r' ∈ g', key r.1 ≠ key r'.1

/-- Under the key of a record of a group, the table holds one of that group. -/
def HoldsGroups (key : α → κ) (groups : List (List (α × V))) (table : Table κ V) : Prop :=
  ∀ g ∈ groups, ∀ r ∈ g, ∃ r' ∈ g, key r'.1 = key r.1 ∧ table.lookup (key r.1) = some r'.2

/-- What the table holds is a record of some group. -/
def HoldsOnly (key : α → κ) (groups : List (List (α × V))) (table : Table κ V) : Prop :=
  ∀ k v, table.lookup k = some v → ∃ g ∈ groups, ∃ r ∈ g, key r.1 = k ∧ r.2 = v

/-- No record of the group has a key of the others. -/
def Fresh (key : α → κ) (groups : List (List (α × V))) (group : List (α × V)) : Prop :=
  ∀ g ∈ groups, ∀ r ∈ g, ∀ r' ∈ group, key r.1 ≠ key r'.1

section
variable {key : α → κ} {groups : List (List (α × V))} {group : List (α × V)} {table : Table κ V}

omit [DecidableEq κ] in
theorem apart_concat : Apart key (groups ++ [group]) ↔
    Apart key groups ∧ Fresh key groups group := by
  unfold Apart Fresh
  rw [List.pairwise_append]
  simp

theorem HoldsGroups.write (h : HoldsGroups key groups table) (hfresh : Fresh key groups group) :
    HoldsGroups key (groups ++ [group]) (writeAll table (keyed key group)) := by
  intro g hg r hr
  rcases List.mem_append.mp hg with hold | hnew
  · have hunwritten : key r.1 ∉ (keyed key group).map Prod.fst := by
      rw [mem_keyed_fst]
      rintro ⟨r', hr', hsame⟩
      exact hfresh g hold r hr r' hr' hsame.symm
    rw [lookup_writeAll_of_notMem hunwritten]
    exact h g hold r hr
  · obtain rfl := List.mem_singleton.mp hnew
    obtain ⟨v, hmem, hlookup⟩ := @lookup_writeAll_of_mem κ V _ table _ _
      (mem_keyed_fst.mpr ⟨r, hr, rfl⟩)
    obtain ⟨r', hr', hkey, rfl⟩ := mem_keyed.mp hmem
    exact ⟨r', hr', hkey, hlookup⟩

theorem HoldsGroups.erase {table' : Table κ V} (h : HoldsGroups key (groups ++ [group]) table)
    (hfresh : Fresh key groups group) (herases : Erases key group table table') :
    HoldsGroups key groups table' := by
  intro g hg r hr
  rw [herases.kept _ fun r' hr' => (hfresh g hg r hr r' hr').symm]
  exact h g (List.mem_append_left [group] hg) r hr

theorem HoldsGroups.congr {table' : Table κ V} (h : HoldsGroups key groups table)
    (hsame : ∀ k, table'.lookup k = table.lookup k) : HoldsGroups key groups table' := by
  intro g hg r hr
  rw [hsame]
  exact h g hg r hr

theorem HoldsOnly.congr {table' : Table κ V} (h : HoldsOnly key groups table)
    (hsame : ∀ k, table'.lookup k = table.lookup k) : HoldsOnly key groups table' := by
  intro k v hlookup
  rw [hsame] at hlookup
  exact h k v hlookup

theorem HoldsOnly.write (h : HoldsOnly key groups table) :
    HoldsOnly key (groups ++ [group]) (writeAll table (keyed key group)) := by
  intro k v hlookup
  by_cases hkey : k ∈ (keyed key group).map Prod.fst
  · obtain ⟨v', hmem, hwritten⟩ := @lookup_writeAll_of_mem κ V _ table _ _ hkey
    obtain rfl : v' = v := Option.some.inj (hwritten.symm.trans hlookup)
    exact ⟨group, List.mem_append_right groups (List.mem_singleton_self group),
      mem_keyed.mp hmem⟩
  · rw [lookup_writeAll_of_notMem hkey] at hlookup
    obtain ⟨g, hg, hrest⟩ := h k v hlookup
    exact ⟨g, List.mem_append_left [group] hg, hrest⟩

theorem HoldsOnly.erase {table' : Table κ V} (h : HoldsOnly key (groups ++ [group]) table)
    (herases : Erases key group table table') : HoldsOnly key groups table' := by
  intro k v hlookup
  have hother : ∀ r ∈ group, key r.1 ≠ k := by
    rintro r hr rfl
    rw [herases.gone r hr] at hlookup
    contradiction
  rw [herases.kept k hother] at hlookup
  obtain ⟨g, hg, r, hr, hrest⟩ := h k v hlookup
  rcases List.mem_append.mp hg with hold | hnew
  · exact ⟨g, hold, r, hr, hrest⟩
  · obtain rfl := List.mem_singleton.mp hnew
    exact absurd hrest.1 (hother r hr)

theorem mirrors_of_holds (h : HoldsGroups key groups table) (honly : HoldsOnly key groups table) :
    Mirrors key groups.flatten table where
  complete := by
    intro r hmem
    obtain ⟨g, hg, hr⟩ := List.mem_flatten.mp hmem
    obtain ⟨r', -, -, hlookup⟩ := h g hg r hr
    rw [hlookup]
    rfl
  sound := by
    intro k v hlookup
    obtain ⟨g, hg, r, hr, hrest⟩ := honly k v hlookup
    exact ⟨r, List.mem_flatten.mpr ⟨g, hg, hr⟩, hrest⟩

end
end RecordTables
