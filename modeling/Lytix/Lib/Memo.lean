import Mathlib.Logic.Function.Basic
import Mathlib.Tactic

/-! A memo table in front of a partial function, and what happens to it when the function changes. -/
namespace Memo

variable {κ α : Type*} [DecidableEq κ]

/-- What the table holds is what the function says. -/
def Valid (f cache : κ → Option α) : Prop := ∀ k v, cache k = some v → f k = some v

/-- The remembered value, or a new one that is remembered. -/
def ask (f cache : κ → Option α) (k : κ) : Option α × (κ → Option α) :=
  match cache k with
  | some v => (some v, cache)
  | none =>
    match f k with
    | some v => (some v, Function.update cache k (some v))
    | none => (none, cache)

section
variable {f f' cache cache' : κ → Option α} {k : κ}

omit [DecidableEq κ] in
theorem valid_empty : Valid f fun _ => none := by
  intro k v h
  contradiction

omit [DecidableEq κ] in
/-- The table stays valid when the function keeps its values where something is remembered. -/
theorem Valid.of_agree (h : Valid f cache) (hagree : ∀ k v, cache k = some v → f' k = f k) :
    Valid f' cache := by
  intro k v hv
  rw [hagree k v hv]
  exact h k v hv

theorem Valid.ask_fst (h : Valid f cache) : (ask f cache k).1 = f k := by
  unfold ask
  cases hcache : cache k with
  | some v => exact (h k v hcache).symm
  | none =>
    cases hf : f k with
    | some v => rfl
    | none => rfl

theorem Valid.ask_snd (h : Valid f cache) : Valid f (ask f cache k).2 := by
  unfold ask
  cases hcache : cache k with
  | some v => exact h
  | none =>
    cases hf : f k with
    | none => exact h
    | some v =>
      intro k' v' hv
      change Function.update cache k (some v) k' = some v' at hv
      by_cases hk : k' = k
      · subst hk
        rw [Function.update_self] at hv
        rw [hf, hv]
      · rw [Function.update_of_ne hk] at hv
        exact h k' v' hv

end
end Memo
