import Mathlib.Data.List.Nodup
import Mathlib.Data.List.Perm.Basic
import Lytix.Lib.CountEntries

/-! Work that waits for other work. An item is ready once all its parents are placed; until then it
stands in a table with the parents it still depends on, and every parent knows its dependers. -/
namespace Dependencies

open CountEntries

/-- An item with what it still depends on. -/
structure Waiting (κ α : Type*) where
  item : α
  dependsOn : List κ

variable {κ α : Type*} [DecidableEq κ]

def Waiting.without (w : Waiting κ α) (p : κ) : Waiting κ α :=
  { w with dependsOn := w.dependsOn.filter (· ≠ p) }

/-- One depender of something that is done. It becomes ready when it depends on nothing else;
there is no result for an unknown depender. -/
def release (p : κ) (s : Table κ (Waiting κ α) × List α) (k : κ) :
    Option (Table κ (Waiting κ α) × List α) :=
  match s.1.lookup k with
  | none => none
  | some w =>
    if w.dependsOn = [] then some s
    else some (s.1.insert k (w.without p),
      if (w.without p).dependsOn = [] then s.2 ++ [w.item] else s.2)

def releaseAll (p : κ) (ks : List κ) (s : Table κ (Waiting κ α) × List α) :
    Option (Table κ (Waiting κ α) × List α) :=
  ks.foldlM (release p) s

section
variable {p k : κ} {ks : List κ} {table table' : Table κ (Waiting κ α)} {ready ready' : List α}

/-- The key is freed: the item waits for what is done, and for nothing else. -/
def Frees (p : κ) (table : Table κ (Waiting κ α)) (k : κ) : Prop :=
  ∃ w, table.lookup k = some w ∧ w.dependsOn ≠ [] ∧ (w.without p).dependsOn = []

theorem without_of_empty {w : Waiting κ α} (h : w.dependsOn = []) : w.without p = w := by
  unfold Waiting.without
  rw [h, List.filter_nil, ← h]

@[simp] theorem without_without (w : Waiting κ α) : (w.without p).without p = w.without p := by
  simp [Waiting.without, List.filter_filter]

theorem release_spec (h : release p (table, ready) k = some (table', ready')) :
    (∀ k', table'.lookup k' =
      (table.lookup k').map fun w => if k' = k then w.without p else w) ∧
    ∃ freed, ready' = ready ++ freed ∧
      ((¬Frees p table k ∧ freed = []) ∨
        ∃ w, table.lookup k = some w ∧ Frees p table k ∧ freed = [w.item]) := by
  unfold release at h
  dsimp only at h
  split at h
  · contradiction
  · rename_i w hw
    by_cases hempty : w.dependsOn = []
    · rw [if_pos hempty] at h
      obtain ⟨rfl, rfl⟩ := Prod.mk.inj (Option.some.inj h)
      refine ⟨?_, [], by simp, Or.inl ⟨?_, rfl⟩⟩
      · intro k'
        by_cases hk : k' = k
        · rw [hk, hw, Option.map_some, if_pos rfl, without_of_empty hempty]
        · simp [hk]
      · rintro ⟨w', hw', hne, -⟩
        rw [hw] at hw'
        exact hne (Option.some.inj hw' ▸ hempty)
    · rw [if_neg hempty] at h
      obtain ⟨rfl, rfl⟩ := Prod.mk.inj (Option.some.inj h)
      constructor
      · intro k'
        by_cases hk : k' = k
        · rw [hk, AList.lookup_insert, hw, Option.map_some, if_pos rfl]
        · rw [AList.lookup_insert_ne hk]
          simp [hk]
      · by_cases hfree : (w.without p).dependsOn = []
        · rw [if_pos hfree]
          exact ⟨[w.item], rfl, Or.inr ⟨w, hw, ⟨w, hw, hempty, hfree⟩, rfl⟩⟩
        · rw [if_neg hfree]
          refine ⟨[], by simp, Or.inl ⟨?_, rfl⟩⟩
          rintro ⟨w', hw', -, hfree'⟩
          rw [hw] at hw'
          exact hfree (Option.some.inj hw' ▸ hfree')

/-- All dependers lose the parent. Those that had no other one become ready, each of them once. -/
theorem releaseAll_spec (h : releaseAll p ks (table, ready) = some (table', ready')) :
    (∀ k, table'.lookup k =
      (table.lookup k).map fun w => if k ∈ ks then w.without p else w) ∧
    ∃ freed : List κ, freed.Nodup ∧ (∀ k, k ∈ freed ↔ k ∈ ks ∧ Frees p table k) ∧
      ready' = ready ++ freed.filterMap fun k => (table.lookup k).map Waiting.item := by
  induction ks generalizing table ready with
  | nil =>
    obtain ⟨rfl, rfl⟩ := Prod.mk.inj (Option.some.inj h)
    exact ⟨by simp, [], by simp⟩
  | cons k₀ ks ih =>
    unfold releaseAll at h
    rw [List.foldlM_cons, Option.bind_eq_bind, Option.bind_eq_some_iff] at h
    obtain ⟨⟨table₁, ready₁⟩, hstep, hrest⟩ := h
    obtain ⟨hlookup₁, freed₁, hready₁, hfreed₁⟩ := release_spec hstep
    obtain ⟨hlookup, freed, hnodup, hmem, hready⟩ := ih hrest
    have hfrees : ∀ k, Frees p table₁ k ↔ Frees p table k ∧ k ≠ k₀ := by
      intro k
      unfold Frees
      rw [hlookup₁ k]
      by_cases hk : k = k₀
      · simp only [hk, ne_eq, not_true_eq_false, and_false, iff_false, if_true]
        rintro ⟨w, hw, hne, hempty⟩
        obtain ⟨w₀, -, rfl⟩ := Option.map_eq_some_iff.mp hw
        rw [without_without] at hempty
        exact hne hempty
      · simp [hk]
    have hitem : ∀ k, (table₁.lookup k).map Waiting.item = (table.lookup k).map Waiting.item := by
      intro k
      rw [hlookup₁ k, Option.map_map]
      congr 1
      funext w
      dsimp only [Function.comp]
      split_ifs <;> rfl
    refine ⟨?_, ?_⟩
    · intro k
      rw [hlookup k, hlookup₁ k, Option.map_map]
      congr 1
      funext w
      by_cases hk : k = k₀
      · subst hk
        simp
      · simp [hk]
    · simp only [hitem] at hready
      rcases hfreed₁ with ⟨hnot, rfl⟩ | ⟨w, hw, hfree, rfl⟩
      · refine ⟨freed, hnodup, ?_, ?_⟩
        · intro k
          rw [hmem k, hfrees k, List.mem_cons]
          constructor
          · rintro ⟨hks, hk, -⟩
            exact ⟨Or.inr hks, hk⟩
          · rintro ⟨hks, hk⟩
            have hne : k ≠ k₀ := fun heq => hnot (heq ▸ hk)
            exact ⟨hks.resolve_left hne, hk, hne⟩
        · rw [hready, hready₁, List.append_nil]
      · refine ⟨k₀ :: freed, ?_, ?_, ?_⟩
        · refine List.nodup_cons.mpr ⟨?_, hnodup⟩
          intro hk₀
          exact ((hfrees k₀).mp ((hmem k₀).mp hk₀).2).2 rfl
        · intro k
          rw [List.mem_cons, hmem k, hfrees k, List.mem_cons]
          constructor
          · rintro (rfl | ⟨hks, hk, -⟩)
            · exact ⟨Or.inl rfl, hfree⟩
            · exact ⟨Or.inr hks, hk⟩
          · rintro ⟨hks, hk⟩
            by_cases hne : k = k₀
            · exact Or.inl hne
            · exact Or.inr ⟨hks.resolve_left hne, hk, hne⟩
        · rw [hready, hready₁, List.filterMap_cons, hw, List.append_assoc]
          rfl

end

/-- The state of the work on some items: those seen, those placed, those ready, and the rest
waiting for a parent that is not placed. -/
structure Pending (key : α → κ) (parents : α → List κ) (dependers : κ → List κ) (items : List α)
    (seen placed : List κ) (ready : List α) (waiting : Table κ (Waiting κ α)) : Prop where
  distinct : (seen ++ ready.map key).Nodup
  ready_mem : ∀ x ∈ ready, x ∈ items
  ready_placed : ∀ x ∈ ready, ∀ p ∈ parents x, p ∈ placed
  waiting_mem : ∀ k w, waiting.lookup k = some w → w.dependsOn ≠ [] →
    key w.item = k ∧ w.item ∈ items ∧ k ∉ seen ∧ k ∉ ready.map key
  waiting_parents : ∀ k w, waiting.lookup k = some w → w.dependsOn ≠ [] →
    ∀ p ∈ parents w.item, p ∈ w.dependsOn ∨ p ∈ placed
  waiting_depends : ∀ k w, waiting.lookup k = some w →
    ∀ p ∈ w.dependsOn, p ∈ parents w.item ∧ p ∉ placed ∧ k ∈ dependers p
  covered : ∀ x ∈ items, key x ∈ seen ∨ x ∈ ready ∨
    ∃ w, waiting.lookup (key x) = some w ∧ w.dependsOn ≠ [] ∧ w.item = x

namespace Pending

variable {key : α → κ} {parents : α → List κ} {dependers dependers' : κ → List κ}
  {items : List α} {seen placed : List κ} {ready rest ready' freed : List α} {x : α} {p : κ}
  {waiting waiting' : Table κ (Waiting κ α)}

theorem empty : Pending key parents dependers [] [] [] [] ∅ where
  distinct := by simp
  ready_mem := by simp
  ready_placed := by simp
  waiting_mem := by simp
  waiting_parents := by simp
  waiting_depends := by simp
  covered := by simp

/-- One more item, without parents. -/
theorem add_ready (h : Pending key parents dependers items [] [] ready waiting)
    (hfresh : ∀ y ∈ items, key y ≠ key x) (hparents : parents x = []) :
    Pending key parents dependers (items ++ [x]) [] [] (ready ++ [x]) waiting where
  distinct := by
    have hnew : key x ∉ ready.map key := by
      intro hmem
      obtain ⟨y, hy, heq⟩ := List.mem_map.mp hmem
      exact hfresh y (h.ready_mem y hy) heq
    rw [List.nil_append, List.map_append, List.nodup_append]
    refine ⟨by simpa using h.distinct, by simp, ?_⟩
    intro k hk k' hk' heq
    rw [List.map_singleton, List.mem_singleton] at hk'
    rw [heq, hk'] at hk
    exact hnew hk
  ready_mem := by
    intro y hy
    rcases List.mem_append.mp hy with hold | hnew
    · exact List.mem_append_left _ (h.ready_mem y hold)
    · exact List.mem_append_right _ hnew
  ready_placed := by
    intro y hy p hp
    rcases List.mem_append.mp hy with hold | hnew
    · exact h.ready_placed y hold p hp
    · rw [List.mem_singleton.mp hnew, hparents] at hp
      contradiction
  waiting_mem := by
    intro k w hw hne
    obtain ⟨hkey, hmem, hseen, hready⟩ := h.waiting_mem k w hw hne
    refine ⟨hkey, List.mem_append_left _ hmem, hseen, ?_⟩
    rw [List.map_append, List.mem_append, List.map_singleton, List.mem_singleton]
    rintro (hold | heq)
    · exact hready hold
    · exact hfresh w.item hmem (hkey.trans heq)
  waiting_parents := h.waiting_parents
  waiting_depends := h.waiting_depends
  covered := by
    intro y hy
    rcases List.mem_append.mp hy with hold | hnew
    · rcases h.covered y hold with hseen | hready | hwaiting
      · exact Or.inl hseen
      · exact Or.inr (Or.inl (List.mem_append_left _ hready))
      · exact Or.inr (Or.inr hwaiting)
    · exact Or.inr (Or.inl (List.mem_append_right _ hnew))

/-- One more item, which waits for its parents. They know it, and no depender is forgotten. -/
theorem add_waiting {dependsOn : List κ}
    (h : Pending key parents dependers items [] [] ready waiting)
    (hfresh : ∀ y ∈ items, key y ≠ key x) (hne : dependsOn ≠ [])
    (hparents : ∀ p, p ∈ dependsOn ↔ p ∈ parents x)
    (hnew : ∀ p ∈ parents x, key x ∈ dependers' p)
    (hold : ∀ p k, k ∈ dependers p → k ∈ dependers' p) :
    Pending key parents dependers' (items ++ [x]) [] [] ready
      (waiting.insert (key x) ⟨x, dependsOn⟩) where
  distinct := h.distinct
  ready_mem := fun y hy => List.mem_append_left _ (h.ready_mem y hy)
  ready_placed := h.ready_placed
  waiting_mem := by
    intro k w hw hne
    by_cases hk : k = key x
    · rw [hk, AList.lookup_insert] at hw
      obtain rfl := Option.some.inj hw
      refine ⟨hk.symm, by simp, by simp, ?_⟩
      rw [hk]
      intro hmem
      obtain ⟨y, hy, heq⟩ := List.mem_map.mp hmem
      exact hfresh y (h.ready_mem y hy) heq
    · rw [AList.lookup_insert_ne hk] at hw
      obtain ⟨hkey, hmem, hseen, hready⟩ := h.waiting_mem k w hw hne
      exact ⟨hkey, List.mem_append_left _ hmem, hseen, hready⟩
  waiting_parents := by
    intro k w hw hne p hp
    by_cases hk : k = key x
    · rw [hk, AList.lookup_insert] at hw
      obtain rfl := Option.some.inj hw
      exact Or.inl ((hparents p).mpr hp)
    · rw [AList.lookup_insert_ne hk] at hw
      exact h.waiting_parents k w hw hne p hp
  waiting_depends := by
    intro k w hw p hp
    by_cases hk : k = key x
    · rw [hk, AList.lookup_insert] at hw
      obtain rfl := Option.some.inj hw
      have hparent := (hparents p).mp hp
      exact ⟨hparent, by simp, hk ▸ hnew p hparent⟩
    · rw [AList.lookup_insert_ne hk] at hw
      obtain ⟨hparent, hplaced, hk'⟩ := h.waiting_depends k w hw p hp
      exact ⟨hparent, hplaced, hold p k hk'⟩
  covered := by
    intro y hy
    rcases List.mem_append.mp hy with hmem | hnewest
    · have hother : key y ≠ key x := hfresh y hmem
      rcases h.covered y hmem with hseen | hready | ⟨w, hw, hrest⟩
      · exact Or.inl hseen
      · exact Or.inr (Or.inl hready)
      · exact Or.inr (Or.inr ⟨w, by rw [AList.lookup_insert_ne hother, hw], hrest⟩)
    · rw [List.mem_singleton.mp hnewest]
      exact Or.inr (Or.inr ⟨⟨x, dependsOn⟩, AList.lookup_insert _, hne, rfl⟩)

/-- More dependers may be recorded than there are. -/
theorem mono_dependers (h : Pending key parents dependers items seen placed ready waiting)
    (hold : ∀ p k, k ∈ dependers p → k ∈ dependers' p) :
    Pending key parents dependers' items seen placed ready waiting :=
  { h with
    waiting_depends := fun k w hw p hp =>
      let ⟨hparent, hplaced, hk⟩ := h.waiting_depends k w hw p hp
      ⟨hparent, hplaced, hold p k hk⟩ }

/-- What is left of the ready items once one is taken. -/
theorem key_notMem (h : Pending key parents dependers items seen placed ready waiting)
    (hperm : ready.Perm (x :: rest)) : key x ∉ seen ∧ key x ∉ rest.map key := by
  have hdistinct := (List.Perm.append_left seen (hperm.map key)).nodup_iff.mp h.distinct
  rw [List.map_cons, List.nodup_append, List.nodup_cons] at hdistinct
  obtain ⟨-, ⟨hrest, -⟩, hdisjoint⟩ := hdistinct
  exact ⟨fun hseen => hdisjoint _ hseen _ List.mem_cons_self rfl, hrest⟩

/-- A ready item is seen, and not placed. -/
theorem skip (h : Pending key parents dependers items seen placed ready waiting)
    (hperm : ready.Perm (x :: rest)) :
    Pending key parents dependers items (seen ++ [key x]) placed rest waiting where
  distinct := by
    have hmove := (List.Perm.append_left seen (hperm.map key)).nodup_iff.mp h.distinct
    simpa using hmove
  ready_mem := fun y hy => h.ready_mem y (hperm.mem_iff.mpr (List.mem_cons_of_mem _ hy))
  ready_placed := fun y hy => h.ready_placed y (hperm.mem_iff.mpr (List.mem_cons_of_mem _ hy))
  waiting_mem := by
    intro k w hw hne
    obtain ⟨hkey, hmem, hseen, hready⟩ := h.waiting_mem k w hw hne
    rw [(hperm.map key).mem_iff, List.map_cons, List.mem_cons, not_or] at hready
    refine ⟨hkey, hmem, ?_, hready.2⟩
    rw [List.mem_append, List.mem_singleton, not_or]
    exact ⟨hseen, hready.1⟩
  waiting_parents := h.waiting_parents
  waiting_depends := h.waiting_depends
  covered := by
    intro y hy
    rcases h.covered y hy with hseen | hready | hwaiting
    · exact Or.inl (List.mem_append_left _ hseen)
    · rcases List.mem_cons.mp (hperm.mem_iff.mp hready) with rfl | hrest
      · exact Or.inl (by simp)
      · exact Or.inr (Or.inl hrest)
    · exact Or.inr (Or.inr hwaiting)

/-- What a depender has left once its parent is placed. -/
theorem left_of_without {w : Waiting κ α} {ks : List κ} {k : κ} {p' : κ}
    (hks : p ∈ w.dependsOn → k ∈ ks) :
    p' ∈ (if k ∈ ks then w.without p else w).dependsOn ↔ p' ∈ w.dependsOn ∧ p' ≠ p := by
  split_ifs with hk
  · simp [Waiting.without]
  · constructor
    · intro hp'
      refine ⟨hp', ?_⟩
      rintro rfl
      exact hk (hks hp')
    · exact fun hp' => hp'.1

omit [DecidableEq κ] in
theorem map_key_filterMap {freed : List κ} {f : κ → Option α}
    (h : ∀ k ∈ freed, ∃ y, f k = some y ∧ key y = k) : (freed.filterMap f).map key = freed := by
  induction freed with
  | nil => rfl
  | cons k freed ih =>
    obtain ⟨y, hy, hkey⟩ := h k List.mem_cons_self
    rw [List.filterMap_cons, hy, List.map_cons, hkey,
      ih fun k hk => h k (List.mem_cons_of_mem _ hk)]

/-- The order of the ready items does not matter. -/
theorem perm (h : Pending key parents dependers items seen placed ready waiting)
    (hperm : ready'.Perm ready) : Pending key parents dependers items seen placed ready' waiting where
  distinct := (List.Perm.append_left seen (hperm.map key)).nodup_iff.mpr h.distinct
  ready_mem := fun y hy => h.ready_mem y (hperm.mem_iff.mp hy)
  ready_placed := fun y hy => h.ready_placed y (hperm.mem_iff.mp hy)
  waiting_mem := by
    intro k w hw hne
    obtain ⟨hkey, hmem, hseen, hready⟩ := h.waiting_mem k w hw hne
    exact ⟨hkey, hmem, hseen, fun hk => hready ((hperm.map key).mem_iff.mp hk)⟩
  waiting_parents := h.waiting_parents
  waiting_depends := h.waiting_depends
  covered := by
    intro y hy
    rcases h.covered y hy with hseen | hready | hwaiting
    · exact Or.inl hseen
    · exact Or.inr (Or.inl (hperm.mem_iff.mpr hready))
    · exact Or.inr (Or.inr hwaiting)

/-- A ready item is seen and placed, and its dependers are released. -/
theorem place (h : Pending key parents dependers items seen placed ready waiting)
    (hperm : ready.Perm (x :: rest))
    (hrelease : releaseAll (key x) (dependers (key x)) (waiting, []) = some (waiting', freed)) :
    Pending key parents dependers items (seen ++ [key x]) (placed ++ [key x]) (rest ++ freed)
      waiting' := by
  have hskip := h.skip hperm
  obtain ⟨hlookup, freed, hnodup, hmem, hready'⟩ := releaseAll_spec hrelease
  rw [List.nil_append] at hready'
  subst hready'
  have hleft : ∀ k w', waiting'.lookup k = some w' → ∃ w, waiting.lookup k = some w ∧
      w'.item = w.item ∧ ∀ p', p' ∈ w'.dependsOn ↔ p' ∈ w.dependsOn ∧ p' ≠ key x := by
    intro k w' hw'
    rw [hlookup k] at hw'
    obtain ⟨w, hw, rfl⟩ := Option.map_eq_some_iff.mp hw'
    refine ⟨w, hw, ?_, fun p' => ?_⟩
    · split_ifs <;> rfl
    · exact left_of_without fun hp => (h.waiting_depends k w hw _ hp).2.2
  have hfreed : ∀ k ∈ freed, ∃ w, waiting.lookup k = some w ∧ w.dependsOn ≠ [] ∧
      ∀ p' ∈ w.dependsOn, p' = key x := by
    intro k hk
    obtain ⟨-, w, hw, hne, hempty⟩ := (hmem k).mp hk
    refine ⟨w, hw, hne, fun p' hp' => ?_⟩
    by_contra hother
    have hstays : p' ∈ (w.without (key x)).dependsOn := by
      simp [Waiting.without, hp', hother]
    rw [hempty] at hstays
    contradiction
  have hitems : ∀ y, y ∈ freed.filterMap (fun k => (waiting.lookup k).map Waiting.item) ↔
      ∃ k ∈ freed, ∃ w, waiting.lookup k = some w ∧ w.item = y := by
    intro y
    simp only [List.mem_filterMap, Option.map_eq_some_iff]
  have hkeys : (freed.filterMap fun k => (waiting.lookup k).map Waiting.item).map key = freed := by
    refine map_key_filterMap fun k hk => ?_
    obtain ⟨w, hw, hne, -⟩ := hfreed k hk
    exact ⟨w.item, by rw [hw, Option.map_some], (h.waiting_mem k w hw hne).1⟩
  constructor
  case distinct =>
    rw [List.map_append, hkeys, ← List.append_assoc, List.nodup_append]
    refine ⟨hskip.distinct, hnodup, ?_⟩
    rintro k hk _ hk' rfl
    obtain ⟨w, hw, hne, -⟩ := hfreed k hk'
    obtain ⟨-, -, hseen, hready⟩ := hskip.waiting_mem k w hw hne
    rcases List.mem_append.mp hk with hin | hin
    · exact hseen hin
    · exact hready hin
  case ready_mem =>
    intro y hy
    rcases List.mem_append.mp hy with hrest | hnew
    · exact hskip.ready_mem y hrest
    · obtain ⟨k, hk, w, hw, rfl⟩ := (hitems y).mp hnew
      obtain ⟨w', hw', hne, -⟩ := hfreed k hk
      obtain rfl := Option.some.inj (hw.symm.trans hw')
      exact (h.waiting_mem k w hw hne).2.1
  case ready_placed =>
    intro y hy p hp
    rcases List.mem_append.mp hy with hrest | hnew
    · exact List.mem_append_left _ (hskip.ready_placed y hrest p hp)
    · obtain ⟨k, hk, w, hw, rfl⟩ := (hitems y).mp hnew
      obtain ⟨w', hw', hne, honly⟩ := hfreed k hk
      obtain rfl := Option.some.inj (hw.symm.trans hw')
      rcases h.waiting_parents k w hw hne p hp with hwaits | hplaced
      · rw [honly p hwaits]
        simp
      · exact List.mem_append_left _ hplaced
  case waiting_mem =>
    intro k w' hw' hne'
    obtain ⟨w, hw, hitem, hleft⟩ := hleft k w' hw'
    obtain ⟨p', hp'⟩ := List.exists_mem_of_ne_nil _ hne'
    have hne : w.dependsOn ≠ [] := List.ne_nil_of_mem ((hleft p').mp hp').1
    obtain ⟨hkey, hin, hseen, hready⟩ := hskip.waiting_mem k w hw hne
    rw [hitem]
    refine ⟨hkey, hin, hseen, ?_⟩
    rw [List.map_append, hkeys, List.mem_append, not_or]
    refine ⟨hready, fun hk => ?_⟩
    obtain ⟨w₀, hw₀, -, honly⟩ := hfreed k hk
    obtain rfl := Option.some.inj (hw.symm.trans hw₀)
    exact ((hleft p').mp hp').2 (honly p' ((hleft p').mp hp').1)
  case waiting_parents =>
    intro k w' hw' hne' p hp
    obtain ⟨w, hw, hitem, hleft⟩ := hleft k w' hw'
    obtain ⟨p', hp'⟩ := List.exists_mem_of_ne_nil _ hne'
    have hne : w.dependsOn ≠ [] := List.ne_nil_of_mem ((hleft p').mp hp').1
    rw [hitem] at hp
    by_cases hx : p = key x
    · exact Or.inr (by simp [hx])
    · rcases h.waiting_parents k w hw hne p hp with hwaits | hplaced
      · exact Or.inl ((hleft p).mpr ⟨hwaits, hx⟩)
      · exact Or.inr (List.mem_append_left _ hplaced)
  case waiting_depends =>
    intro k w' hw' p hp
    obtain ⟨w, hw, hitem, hleft⟩ := hleft k w' hw'
    obtain ⟨hwaits, hx⟩ := (hleft p).mp hp
    obtain ⟨hparent, hplaced, hk⟩ := h.waiting_depends k w hw p hwaits
    rw [hitem]
    refine ⟨hparent, ?_, hk⟩
    rw [List.mem_append, List.mem_singleton, not_or]
    exact ⟨hplaced, hx⟩
  case covered =>
    intro y hy
    rcases hskip.covered y hy with hseen | hready | ⟨w, hw, hne, hitem⟩
    · exact Or.inl hseen
    · exact Or.inr (Or.inl (List.mem_append_left _ hready))
    · by_cases hk : key y ∈ freed
      · exact Or.inr (Or.inl (List.mem_append_right _ ((hitems y).mpr ⟨_, hk, w, hw, hitem⟩)))
      · refine Or.inr (Or.inr ⟨if key y ∈ dependers (key x) then w.without (key x) else w, ?_, ?_, ?_⟩)
        · rw [hlookup, hw, Option.map_some]
        · split_ifs with hin
          · intro hempty
            exact hk ((hmem _).mpr ⟨hin, w, hw, hne, hempty⟩)
          · exact hne
        · split_ifs
          · exact hitem
          · exact hitem

/-- An item that is neither seen nor ready has a parent that is not placed. -/
theorem seen_or_waits (h : Pending key parents dependers items seen placed [] waiting)
    (hx : x ∈ items) : key x ∈ seen ∨ ∃ p ∈ parents x, p ∉ placed := by
  rcases h.covered x hx with hseen | hready | ⟨w, hw, hne, rfl⟩
  · exact Or.inl hseen
  · contradiction
  · obtain ⟨p, hp⟩ := List.exists_mem_of_ne_nil _ hne
    obtain ⟨hparent, hplaced, -⟩ := h.waiting_depends _ w hw p hp
    exact Or.inr ⟨p, hparent, hplaced⟩

/-- There are no more keys seen and ready than items. -/
theorem length_le (h : Pending key parents dependers items seen placed ready waiting)
    (hseen : seen ⊆ items.map key) : seen.length + ready.length ≤ items.length := by
  have hsub : seen ++ ready.map key ⊆ items.map key := by
    intro k hk
    rcases List.mem_append.mp hk with hin | hin
    · exact hseen hin
    · obtain ⟨y, hy, rfl⟩ := List.mem_map.mp hin
      exact List.mem_map_of_mem (h.ready_mem y hy)
  have hle := (h.distinct.subperm hsub).length_le
  simpa using hle

end Pending

/-- Every item comes after its parents. -/
def Ordered (key : α → κ) (parents : α → List κ) (order : List α) : Prop :=
  ∀ before x after, order = before ++ x :: after → parents x ⊆ before.map key

omit [DecidableEq κ] in
theorem Ordered.snoc {key : α → κ} {parents : α → List κ} {order : List α} {x : α}
    (h : Ordered key parents order) (hx : parents x ⊆ order.map key) :
    Ordered key parents (order ++ [x]) := by
  intro before y after heq
  rcases List.eq_nil_or_concat after with rfl | ⟨after', z, rfl⟩
  · obtain ⟨horder, hy⟩ := List.append_inj' heq rfl
    obtain rfl : x = y := by simpa using hy
    rw [← horder]
    exact hx
  · have hassoc : order ++ [x] = (before ++ y :: after') ++ [z] := by simpa using heq
    exact h before y after' (List.append_inj' hassoc rfl).1

end Dependencies
