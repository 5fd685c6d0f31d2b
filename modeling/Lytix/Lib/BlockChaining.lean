import Mathlib.Algebra.Order.Ring.Nat
import Mathlib.Data.List.Basic
import Mathlib.Tactic

/-! A message that is taken in block by block: what its whole blocks make of a state. -/
namespace BlockChaining

variable {α σ : Type*} (f : σ → List α → σ) (n : ℕ)

/-- The first blocks of a message. -/
def absorbBlocks : ℕ → σ → List α → σ
  | 0, s, _ => s
  | k + 1, s, msg => absorbBlocks k (f s (msg.take n)) (msg.drop n)

/-- All whole blocks of a message. -/
def absorb (s : σ) (msg : List α) : σ := absorbBlocks f n (msg.length / n) s msg

section
variable {f n} {s : σ} {whole msg block : List α}

theorem absorb_of_lt (h : msg.length < n) : absorb f n s msg = s := by
  unfold absorb
  rw [Nat.div_eq_of_lt h, absorbBlocks]

theorem absorb_block_append (hn : 0 < n) (hblock : block.length = n) :
    absorb f n s (block ++ msg) = absorb f n (f s block) msg := by
  have hcount : (block ++ msg).length / n = msg.length / n + 1 := by
    rw [List.length_append, hblock, Nat.add_comm, Nat.add_div_right _ hn]
  unfold absorb
  rw [hcount, absorbBlocks, List.take_left' hblock, List.drop_left' hblock]

/-- Whole blocks may be taken in before the rest is there. -/
theorem absorb_append (hn : 0 < n) (hwhole : n ∣ whole.length) :
    absorb f n s (whole ++ msg) = absorb f n (absorb f n s whole) msg := by
  obtain ⟨k, hk⟩ := hwhole
  induction k generalizing s whole with
  | zero =>
    have hempty : whole = [] := List.length_eq_zero_iff.mp (by omega)
    have hnone : absorb f n s ([] : List α) = s := absorb_of_lt hn
    rw [hempty, List.nil_append, hnone]
  | succ k ih =>
    have hfirst : (whole.take n).length = n := by
      rw [List.length_take, hk]
      exact min_eq_left (Nat.le_mul_of_pos_right n (Nat.succ_pos k))
    have hrest : (whole.drop n).length = n * k := by
      rw [List.length_drop, hk, Nat.mul_succ, Nat.add_sub_cancel]
    have hsplit : whole = whole.take n ++ whole.drop n := (List.take_append_drop n whole).symm
    rw [hsplit, List.append_assoc, absorb_block_append hn hfirst, absorb_block_append hn hfirst,
      ih hrest]

theorem absorb_concat (hn : 0 < n) (hwhole : n ∣ whole.length) (hblock : block.length = n) :
    absorb f n s (whole ++ block) = f (absorb f n s whole) block := by
  have hnone : absorb f n (f (absorb f n s whole) block) [] = f (absorb f n s whole) block :=
    absorb_of_lt hn
  rw [absorb_append hn hwhole, ← List.append_nil block, absorb_block_append hn hblock, hnone,
    List.append_nil]

end
end BlockChaining
