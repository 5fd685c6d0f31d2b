import Mathlib.Algebra.BigOperators.Group.List.Basic
import Mathlib.Data.List.Basic

/-! Elements picked from a list by flags that stand beside it. -/
namespace Picks

variable {α M : Type*} [AddCommMonoid M]

def pick : List Bool → List α → List α
  | true :: flags, x :: xs => x :: pick flags xs
  | false :: flags, _ :: xs => pick flags xs
  | _, _ => []

variable {flags : List Bool} {xs : List α} {x : α} {i : ℕ}

theorem pick_sublist (flags : List Bool) (xs : List α) : (pick flags xs).Sublist xs := by
  induction xs generalizing flags with
  | nil =>
    cases flags with
    | nil => exact List.Sublist.refl []
    | cons flag flags => cases flag <;> exact List.Sublist.refl []
  | cons x xs ih =>
    cases flags with
    | nil => exact List.nil_sublist _
    | cons flag flags =>
      cases flag with
      | false => exact (ih flags).cons x
      | true => exact (ih flags).cons_cons x

theorem pick_replicate_false (xs : List α) : pick (List.replicate xs.length false) xs = [] := by
  induction xs with
  | nil => rfl
  | cons x xs ih => exact ih

theorem pick_replicate_true (xs : List α) : pick (List.replicate xs.length true) xs = xs := by
  induction xs with
  | nil => rfl
  | cons x xs ih => exact congrArg (x :: ·) ih

/-- A further pick adds its value. -/
theorem sum_pick_set (value : α → M) (hflag : flags[i]? = some false) (hx : xs[i]? = some x) :
    ((pick (flags.set i true) xs).map value).sum = ((pick flags xs).map value).sum + value x := by
  induction xs generalizing flags i with
  | nil => simp at hx
  | cons y ys ih =>
    cases flags with
    | nil => simp at hflag
    | cons flag flags =>
      cases i with
      | zero =>
        have hflag : flag = false := by simpa using hflag
        have hx : y = x := by simpa using hx
        subst hflag hx
        simp [pick, add_comm]
      | succ i =>
        have hrest := @ih flags i (by simpa using hflag) (by simpa using hx)
        cases flag with
        | false => simpa [pick] using hrest
        | true => simp [pick, hrest, add_assoc]

end Picks
