import Mathlib.Data.List.Perm.Basic
import Mathlib.Tactic

/-! A list of keys in any order, and the position of each key in it. A key is taken out by swapping
it with the last one. -/
namespace SwapIndex

variable {K : Type*}

/-- The positions are those of the list. -/
structure Inverse (order : List K) (position : K → Option ℤ) : Prop where
  iff : ∀ (i : ℕ) k, order[i]? = some k ↔ position k = some (i : ℤ)
  nonneg : ∀ k i, position k = some i → 0 ≤ i

section
variable {order : List K} {position : K → Option ℤ} {k a b : K} {i j : ℕ}

theorem Inverse.exists_index (h : Inverse order position) {z : ℤ} (hk : position k = some z) :
    ∃ i : ℕ, z = i ∧ order[i]? = some k := by
  obtain ⟨i, rfl⟩ := Int.eq_ofNat_of_zero_le (h.nonneg k z hk)
  exact ⟨i, rfl, (h.iff i k).mpr hk⟩

theorem Inverse.mem_iff (h : Inverse order position) : k ∈ order ↔ (position k).isSome := by
  rw [List.mem_iff_getElem?, Option.isSome_iff_exists]
  constructor
  · rintro ⟨i, hi⟩
    exact ⟨i, (h.iff i k).mp hi⟩
  · rintro ⟨z, hz⟩
    obtain ⟨i, -, hi⟩ := h.exists_index hz
    exact ⟨i, hi⟩

theorem Inverse.nodup (h : Inverse order position) : order.Nodup := by
  rw [List.nodup_iff_getElem?_ne_getElem?]
  intro i j hij hj heq
  have hget : order[j]? = some order[j] := List.getElem?_eq_getElem hj
  have hi := (h.iff i _).mp (heq.trans hget)
  have hj' := (h.iff j _).mp hget
  rw [hi, Option.some_inj] at hj'
  omega

/-- The list of no keys. -/
theorem inverse_nil (h : ∀ k, position k = none) : Inverse [] position where
  iff := fun i k => by simp [h k]
  nonneg := fun k i hi => by simp [h k] at hi

theorem Inverse.congr {position' : K → Option ℤ} (h : Inverse order position)
    (hsame : ∀ k, position' k = position k) : Inverse order position' where
  iff := fun i k => by rw [hsame, h.iff]
  nonneg := fun k i hi => h.nonneg k i (by rw [← hsame, hi])

variable [DecidableEq K]

theorem Inverse.push (h : Inverse order position) (hnew : position k = none) :
    Inverse (order ++ [k]) (Function.update position k (some order.length)) where
  iff := by
    intro i k'
    rw [List.getElem?_append]
    by_cases hlt : i < order.length
    · rw [if_pos hlt, h.iff]
      by_cases hsame : k' = k
      · rw [hsame, hnew, Function.update_self]
        refine iff_of_false (Option.some_ne_none _).symm ?_
        rw [Option.some_inj]
        omega
      · rw [Function.update_of_ne hsame]
    · rw [if_neg hlt]
      by_cases hsame : k' = k
      · rw [hsame, Function.update_self, Option.some_inj]
        by_cases hlast : i = order.length
        · simp [hlast]
        · have hpast : [k].length ≤ i - order.length := by
            rw [List.length_singleton]
            omega
          rw [List.getElem?_eq_none hpast]
          exact iff_of_false (Option.some_ne_none _).symm (by omega)
      · have hpast : order[i]? = none := List.getElem?_eq_none (by omega)
        rw [Function.update_of_ne hsame, ← h.iff, hpast]
        refine iff_of_false ?_ (Option.some_ne_none _).symm
        intro hget
        exact hsame (List.mem_singleton.mp (List.mem_of_getElem? hget))
  nonneg := by
    intro k' z hz
    by_cases hsame : k' = k
    · rw [hsame, Function.update_self, Option.some_inj] at hz
      omega
    · rw [Function.update_of_ne hsame] at hz
      exact h.nonneg k' z hz

theorem Inverse.swap (h : Inverse order position) (ha : order[i]? = some a)
    (hb : order[j]? = some b) (hij : i ≠ j) :
    Inverse ((order.set i b).set j a)
      (Function.update (Function.update position a (some j)) b (some i)) where
  iff := by
    have hi := (List.getElem?_eq_some_iff.mp ha).1
    have hj := (List.getElem?_eq_some_iff.mp hb).1
    have hne : a ≠ b := by
      rintro rfl
      have hsame := ((h.iff i a).mp ha).symm.trans ((h.iff j a).mp hb)
      rw [Option.some_inj] at hsame
      omega
    intro n k
    rw [List.getElem?_set, List.getElem?_set, List.length_set]
    by_cases hnj : j = n
    · subst hnj
      rw [if_pos rfl, if_pos hj, Option.some_inj]
      by_cases hkb : k = b
      · rw [hkb, Function.update_self, Option.some_inj]
        exact iff_of_false hne (by omega)
      · rw [Function.update_of_ne hkb]
        by_cases hka : k = a
        · rw [hka, Function.update_self]
          exact iff_of_true rfl rfl
        · rw [Function.update_of_ne hka, ← h.iff, hb, Option.some_inj]
          exact iff_of_false (Ne.symm hka) (Ne.symm hkb)
    · rw [if_neg hnj]
      by_cases hni : i = n
      · subst hni
        rw [if_pos rfl, if_pos hi, Option.some_inj]
        by_cases hkb : k = b
        · rw [hkb, Function.update_self]
          exact iff_of_true rfl rfl
        · rw [Function.update_of_ne hkb]
          by_cases hka : k = a
          · rw [hka, Function.update_self, Option.some_inj]
            exact iff_of_false (Ne.symm hne) (by omega)
          · rw [Function.update_of_ne hka, ← h.iff, ha, Option.some_inj]
            exact iff_of_false (Ne.symm hkb) (Ne.symm hka)
      · rw [if_neg hni, h.iff]
        by_cases hkb : k = b
        · rw [hkb, Function.update_self, (h.iff j b).mp hb, Option.some_inj, Option.some_inj]
          exact iff_of_false (by omega) (by omega)
        · rw [Function.update_of_ne hkb]
          by_cases hka : k = a
          · rw [hka, Function.update_self, (h.iff i a).mp ha, Option.some_inj, Option.some_inj]
            exact iff_of_false (by omega) (by omega)
          · rw [Function.update_of_ne hka]
  nonneg := by
    intro k z hz
    by_cases hkb : k = b
    · rw [hkb, Function.update_self, Option.some_inj] at hz
      omega
    · rw [Function.update_of_ne hkb] at hz
      by_cases hka : k = a
      · rw [hka, Function.update_self, Option.some_inj] at hz
        omega
      · rw [Function.update_of_ne hka] at hz
        exact h.nonneg k z hz

theorem Inverse.pop (h : Inverse order position) (hlength : order.length = i + 1)
    (hlast : order[i]? = some k) : Inverse order.dropLast (Function.update position k none) where
  iff := by
    intro n k'
    rw [List.getElem?_dropLast, hlength, Nat.add_sub_cancel]
    by_cases hsame : k' = k
    · rw [hsame, Function.update_self]
      refine iff_of_false ?_ (Option.some_ne_none _).symm
      by_cases hlt : n < i
      · rw [if_pos hlt, h.iff, (h.iff i k).mp hlast, Option.some_inj]
        omega
      · rw [if_neg hlt]
        exact (Option.some_ne_none _).symm
    · rw [Function.update_of_ne hsame, ← h.iff]
      by_cases hlt : n < i
      · rw [if_pos hlt]
      · rw [if_neg hlt]
        refine iff_of_false (Option.some_ne_none _).symm ?_
        intro hget
        have hn := (List.getElem?_eq_some_iff.mp hget).1
        have hlastn : n = i := by omega
        rw [hlastn, hlast, Option.some_inj] at hget
        exact hsame hget.symm
  nonneg := by
    intro k' z hz
    by_cases hsame : k' = k
    · rw [hsame, Function.update_self] at hz
      exact absurd hz.symm (Option.some_ne_none z)
    · rw [Function.update_of_ne hsame] at hz
      exact h.nonneg k' z hz

end
end SwapIndex
