import Mathlib.Data.List.Basic
import Mathlib.Data.List.Nodup
import Mathlib.Tactic

/-! Tables of rows and columns, in how many places of a table a value stands, and the values that
stand there one after another. -/
namespace SlotTables

variable {V : Type*} [DecidableEq V]

/-- The places of a table, row by row. -/
def places (rows cols : ℕ) : List (ℕ × ℕ) := List.range rows ×ˢ List.range cols

/-- In how many of these places the value stands. -/
def heldIn (table : ℕ × ℕ → V) (ps : List (ℕ × ℕ)) (v : V) : ℕ := ps.countP fun p => table p = v

section
variable {rows cols : ℕ} {table : ℕ × ℕ → V} {ps : List (ℕ × ℕ)} {p : ℕ × ℕ} {v w : V}

theorem mem_places : p ∈ places rows cols ↔ p.1 < rows ∧ p.2 < cols := by
  unfold places
  rw [List.mem_product, List.mem_range, List.mem_range]

theorem nodup_places : (places rows cols).Nodup :=
  List.Nodup.product List.nodup_range List.nodup_range

theorem length_places : (places rows cols).length = rows * cols := by
  unfold places
  rw [List.length_product, List.length_range, List.length_range]

theorem heldIn_pos : 0 < heldIn table ps v ↔ ∃ p ∈ ps, table p = v := by
  simp [heldIn, List.countP_pos_iff]

theorem heldIn_eq_zero : heldIn table ps v = 0 ↔ ∀ p ∈ ps, table p ≠ v := by
  simp [heldIn, List.countP_eq_zero]

/-- When a value is put into a place, the old value loses the place. -/
theorem heldIn_update (hnodup : ps.Nodup) (hp : p ∈ ps) :
    heldIn (Function.update table p v) ps w + (if table p = w then 1 else 0) =
      heldIn table ps w + if v = w then 1 else 0 := by
  have hperm := List.perm_cons_erase hp
  have hrest : (ps.erase p).countP (fun q => Function.update table p v q = w) =
      (ps.erase p).countP fun q => table q = w := by
    apply List.countP_congr
    intro q hq
    have hne : q ≠ p := fun heq => hnodup.not_mem_erase (heq ▸ hq)
    rw [Function.update_of_ne hne]
  unfold heldIn
  rw [hperm.countP_eq, hperm.countP_eq, List.countP_cons, List.countP_cons, hrest]
  simp only [Function.update_self, decide_eq_true_eq]
  omega

theorem heldIn_enter (hnodup : ps.Nodup) (hp : p ∈ ps) (hne : table p ≠ v) :
    heldIn (Function.update table p v) ps v = heldIn table ps v + 1 := by
  have hheld := @heldIn_update _ _ table ps p v v hnodup hp
  rw [if_neg hne, if_pos rfl, Nat.add_zero] at hheld
  exact hheld

theorem heldIn_leave (hnodup : ps.Nodup) (hp : p ∈ ps) (heq : table p = w) (hne : v ≠ w) :
    heldIn (Function.update table p v) ps w + 1 = heldIn table ps w := by
  have hheld := @heldIn_update _ _ table ps p v w hnodup hp
  rw [if_pos heq, if_neg hne, Nat.add_zero] at hheld
  exact hheld

omit [DecidableEq V] in
/-- Different values that all stand in the table are no more than its places. -/
theorem length_le_places {vs : List V} (hnodup : vs.Nodup)
    (hheld : ∀ v ∈ vs, ∃ p ∈ ps, table p = v) :
    vs.length ≤ ps.length := by
  have hsub : vs ⊆ ps.map table := by
    intro v hv
    obtain ⟨p, hp, heq⟩ := hheld v hv
    exact List.mem_map.mpr ⟨p, hp, heq⟩
  calc vs.length ≤ (ps.map table).length := (hnodup.subperm hsub).length_le
    _ = ps.length := List.length_map table

end
end SlotTables
