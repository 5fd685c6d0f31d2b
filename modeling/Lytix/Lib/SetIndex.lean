import Mathlib.Data.Finset.Basic
import Mathlib.Tactic

/-! Indices that lead from a key to a set of values and drop a key whose set gets empty. -/
namespace SetIndex

variable {κ V : Type*} [DecidableEq κ] [DecidableEq V]

abbrev Index (κ V : Type*) := κ → Option (Finset V)

/-- `index[k].insert(v)`, which makes an empty set first where there is none. -/
def add (index : Index κ V) (k : κ) (v : V) : Index κ V :=
  Function.update index k (some (insert v ((index k).getD ∅)))

def remove (index : Index κ V) (k : κ) (v : V) : Index κ V :=
  match index k with
  | none => index
  | some vs =>
    if vs.erase v = ∅ then Function.update index k none
    else Function.update index k (some (vs.erase v))

def addUnder (index : Index κ V) (v : V) (ks : List κ) : Index κ V :=
  ks.foldl (fun index k => add index k v) index

def removeUnder (index : Index κ V) (v : V) (ks : List κ) : Index κ V :=
  ks.foldl (fun index k => remove index k v) index

def Has (index : Index κ V) (k : κ) (v : V) : Prop := ∃ vs, index k = some vs ∧ v ∈ vs

def NoEmptySet (index : Index κ V) : Prop := ∀ k, index k ≠ some ∅

section
variable {index : Index κ V} {k k' : κ} {v v' : V} {ks : List κ}

theorem has_add : Has (add index k v) k' v' ↔ Has index k' v' ∨ k' = k ∧ v' = v := by
  unfold Has add
  by_cases hkey : k' = k
  · subst hkey
    cases hk : index k' with
    | none => simp
    | some vs => simp [or_comm]
  · simp [hkey]

theorem has_remove : Has (remove index k v) k' v' ↔ Has index k' v' ∧ ¬ (k' = k ∧ v' = v) := by
  unfold Has remove
  cases hk : index k with
  | none =>
    by_cases hkey : k' = k
    · simp [hkey, hk]
    · simp [hkey]
  | some vs =>
    dsimp only
    by_cases hempty : vs.erase v = ∅
    · rw [if_pos hempty]
      by_cases hkey : k' = k
      · subst hkey
        have honly : v' ∈ vs → v' = v := by
          intro hmem
          by_contra hne
          have hleft : v' ∈ vs.erase v := Finset.mem_erase.mpr ⟨hne, hmem⟩
          rw [hempty] at hleft
          exact Finset.notMem_empty v' hleft
        simpa [hk] using honly
      · simp [hkey]
    · rw [if_neg hempty]
      by_cases hkey : k' = k
      · subst hkey
        simp [hk, and_comm]
      · simp [hkey]

theorem NoEmptySet.add (h : NoEmptySet index) : NoEmptySet (add index k v) := by
  intro k'
  unfold SetIndex.add
  by_cases hkey : k' = k
  · simp [hkey]
  · rw [Function.update_of_ne hkey]
    exact h k'

theorem NoEmptySet.remove (h : NoEmptySet index) : NoEmptySet (remove index k v) := by
  intro k'
  unfold SetIndex.remove
  cases hk : index k with
  | none => exact h k'
  | some vs =>
    dsimp only
    by_cases hkey : k' = k
    · subst hkey
      by_cases hempty : vs.erase v = ∅
      · simp [hempty]
      · simp [hempty]
    · by_cases hempty : vs.erase v = ∅
      · rw [if_pos hempty, Function.update_of_ne hkey]
        exact h k'
      · rw [if_neg hempty, Function.update_of_ne hkey]
        exact h k'

theorem has_addUnder : Has (addUnder index v ks) k' v' ↔ Has index k' v' ∨ k' ∈ ks ∧ v' = v := by
  induction ks generalizing index with
  | nil => simp [addUnder]
  | cons k ks ih =>
    have hstep : addUnder index v (k :: ks) = addUnder (add index k v) v ks := rfl
    rw [hstep, ih, has_add, List.mem_cons]
    tauto

theorem has_removeUnder :
    Has (removeUnder index v ks) k' v' ↔ Has index k' v' ∧ ¬ (k' ∈ ks ∧ v' = v) := by
  induction ks generalizing index with
  | nil => simp [removeUnder]
  | cons k ks ih =>
    have hstep : removeUnder index v (k :: ks) = removeUnder (remove index k v) v ks := rfl
    rw [hstep, ih, has_remove, List.mem_cons]
    tauto

theorem NoEmptySet.addUnder (h : NoEmptySet index) : NoEmptySet (addUnder index v ks) := by
  induction ks generalizing index with
  | nil => exact h
  | cons k ks ih => exact ih h.add

theorem NoEmptySet.removeUnder (h : NoEmptySet index) : NoEmptySet (removeUnder index v ks) := by
  induction ks generalizing index with
  | nil => exact h
  | cons k ks ih => exact ih h.remove

end
end SetIndex
