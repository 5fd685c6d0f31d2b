import Mathlib.Logic.Function.Basic
import Mathlib.Data.List.Basic
import Mathlib.Tactic

/-! Maps that are inserted into without overwriting, as `std::map::insert` does, and erased from,
one key after another. -/
namespace Maps

variable {κ V : Type*} [DecidableEq κ]

def insertNew (m : κ → Option V) (k : κ) (v : V) : κ → Option V :=
  if (m k).isSome then m else Function.update m k (some v)

/-- The same value under every key that has none. -/
def insertAll (m : κ → Option V) (v : V) (ks : List κ) : κ → Option V :=
  ks.foldl (fun m k => insertNew m k v) m

def eraseAll (m : κ → Option V) (ks : List κ) : κ → Option V :=
  ks.foldl (fun m k => Function.update m k none) m

section
variable {m : κ → Option V} {k k' : κ} {v x : V} {ks : List κ}

theorem insertNew_apply : insertNew m k v k' =
    if k' = k ∧ m k = none then some v else m k' := by
  unfold insertNew
  cases hk : m k with
  | none =>
    by_cases h : k' = k
    · subst h
      simp
    · simp [h]
  | some y => simp

theorem insertNew_of_none (h : m k = none) : insertNew m k v k = some v := by
  rw [insertNew_apply, if_pos ⟨rfl, h⟩]

/-- What is there stays there. -/
theorem insertNew_keeps (h : m k' = some x) : insertNew m k v k' = some x := by
  rw [insertNew_apply]
  by_cases hnew : k' = k ∧ m k = none
  · obtain ⟨rfl, hnone⟩ := hnew
    rw [hnone] at h
    contradiction
  · rw [if_neg hnew, h]

theorem insertAll_apply : insertAll m v ks k' =
    if k' ∈ ks ∧ m k' = none then some v else m k' := by
  induction ks generalizing m with
  | nil => simp [insertAll]
  | cons k ks ih =>
    have hstep : insertAll m v (k :: ks) = insertAll (insertNew m k v) v ks := rfl
    rw [hstep, ih, insertNew_apply]
    by_cases hkey : k' = k
    · subst hkey
      cases hk : m k' with
      | none => simp
      | some y => simp
    · simp [hkey]

theorem insertAll_eq_some : insertAll m v ks k' = some x ↔
    m k' = some x ∨ m k' = none ∧ k' ∈ ks ∧ v = x := by
  rw [insertAll_apply]
  cases hk : m k' with
  | none => simp
  | some y => simp

/-- Where every key has a value nothing is inserted. -/
theorem insertAll_of_forall (h : ∀ k ∈ ks, m k ≠ none) : insertAll m v ks = m := by
  funext k
  rw [insertAll_apply, if_neg]
  rintro ⟨hk, hnone⟩
  exact h k hk hnone

theorem eraseAll_apply : eraseAll m ks k' = if k' ∈ ks then none else m k' := by
  induction ks generalizing m with
  | nil => simp [eraseAll]
  | cons k ks ih =>
    have hstep : eraseAll m (k :: ks) = eraseAll (Function.update m k none) ks := rfl
    rw [hstep, ih]
    by_cases hkey : k' = k
    · subst hkey
      simp
    · simp [hkey]

end
end Maps
