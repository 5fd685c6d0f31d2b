import Mathlib.Data.List.Basic
import Mathlib.Data.List.Pairwise
import Mathlib.Tactic

/-! A limit that is filled in the order of a ranking: each element is taken that still fits. -/
namespace FirstFit

variable {α : Type*} (cost : α → ℤ) (limit : ℤ)

/-- What is taken where so much is used already. -/
def fill : ℤ → List α → List α
  | _, [] => []
  | used, x :: xs =>
    if cost x + used ≤ limit then x :: fill (used + cost x) xs else fill used xs

variable {cost limit} {used : ℤ} {xs : List α} {x : α}

theorem fill_sublist (used : ℤ) (xs : List α) : (fill cost limit used xs).Sublist xs := by
  induction xs generalizing used with
  | nil => exact List.Sublist.refl []
  | cons x xs ih =>
    rw [fill]
    split
    · exact (ih _).cons_cons x
    · exact (ih _).cons x

/-- What is taken stays within the limit. -/
theorem sum_fill_le (hused : used ≤ limit) :
    used + ((fill cost limit used xs).map cost).sum ≤ limit := by
  induction xs generalizing used with
  | nil => simpa [fill] using hused
  | cons x xs ih =>
    rw [fill]
    split_ifs with hfits
    · have hrest := @ih (used + cost x) (by linarith)
      rw [List.map_cons, List.sum_cons]
      linarith
    · exact ih hused

/-- What is left out does not fit with what was taken before it. -/
theorem fill_leftOut {before : α → α → Bool}
    (hranked : xs.Pairwise fun x y => before x y = true ∧ before y x = false) (hx : x ∈ xs)
    (hout : x ∉ fill cost limit used xs) :
    limit < cost x + used + (((fill cost limit used xs).filter (before · x)).map cost).sum := by
  induction xs generalizing used with
  | nil => contradiction
  | cons y ys ih =>
    obtain ⟨hfirst, hlater⟩ := List.pairwise_cons.mp hranked
    rw [fill] at hout ⊢
    split_ifs at hout ⊢ with hfits
    · rw [List.mem_cons, not_or] at hout
      have hmem : x ∈ ys := (List.mem_cons.mp hx).resolve_left hout.1
      have hrest := ih hlater hmem hout.2
      have hbefore := (hfirst x hmem).1
      simp only [List.filter_cons, hbefore, if_true, List.map_cons, List.sum_cons]
      linarith
    · rcases List.mem_cons.mp hx with rfl | hmem
      · -- nothing that follows comes before it
        have hnone : (fill cost limit used ys).filter (before · x) = [] := by
          rw [List.filter_eq_nil_iff]
          intro y hy
          have hafter := (hfirst y ((fill_sublist used ys).subset hy)).2
          simp [hafter]
        rw [hnone, List.map_nil, List.sum_nil]
        linarith
      · exact ih hlater hmem hout

end FirstFit
