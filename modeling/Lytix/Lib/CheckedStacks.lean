import Lytix.Lib.Checks

/-! Stacks that are read by the distance from their top, where a distance that is out of range is
an error of its own. The top stands first. -/
namespace CheckedStacks

open Checks

variable {ε α : Type} (out : ε)

/-- The element at a distance from the top, which is at distance 1. -/
def top (stack : List α) : ℕ → Except ε α
  | 0 => .error out
  | i + 1 =>
    match stack[i]? with
    | some v => .ok v
    | none => .error out

def pop : List α → Except ε (List α)
  | [] => .error out
  | _ :: stack => .ok stack

def popN : ℕ → List α → Except ε (List α)
  | 0, stack => .ok stack
  | n + 1, stack => pop out stack >>= popN n

/-- The elements whose distance is above `last` and at most `first` are removed. -/
def erase (stack : List α) (first last : ℕ) : Except ε (List α) :=
  if stack.length < first ∨ first < last then .error out
  else .ok (stack.take last ++ stack.drop first)

/-- An element is put below the top `n`. -/
def insert (stack : List α) (n : ℕ) (v : α) : Except ε (List α) :=
  if stack.length < n then .error out else .ok (stack.take n ++ v :: stack.drop n)

def swap (stack : List α) (i j : ℕ) : Except ε (List α) := do
  let a ← top out stack i
  let b ← top out stack j
  return (stack.set (i - 1) b).set (j - 1) a

variable {out} {fails : ε → Prop} {stack : List α} {i j n : ℕ}

/-- A distance in range reads an element. -/
theorem meets_top (hpos : 0 < i) (hle : i ≤ stack.length) :
    Meets fails (· ∈ stack) (top out stack i) := by
  obtain ⟨k, rfl⟩ := Nat.exists_eq_add_of_le' hpos
  rw [top, List.getElem?_eq_getElem (by omega)]
  exact List.getElem_mem _

theorem meets_pop (hpos : 0 < stack.length) :
    Meets fails (fun s => s ⊆ stack ∧ s.length + 1 = stack.length) (pop out stack) := by
  cases stack with
  | nil => contradiction
  | cons v s => exact ⟨List.subset_cons_self v s, rfl⟩

theorem meets_popN (hle : n ≤ stack.length) :
    Meets fails (fun s => s ⊆ stack ∧ s.length + n = stack.length) (popN out n stack) := by
  induction n generalizing stack with
  | zero => exact ⟨List.Subset.refl stack, rfl⟩
  | succ n ih =>
    refine (meets_pop (by omega)).bind fun s hs => (ih (by omega)).mono ?_
    rintro s' ⟨hsub, hlength⟩
    exact ⟨List.Subset.trans hsub hs.1, by omega⟩

theorem meets_erase {first last : ℕ} (hfirst : first ≤ stack.length) (hlast : last ≤ first) :
    Meets fails (fun s => s ⊆ stack ∧ s.length + (first - last) = stack.length)
      (erase out stack first last) := by
  rw [erase, if_neg (by omega)]
  constructor
  · exact List.append_subset.mpr ⟨List.take_subset last stack, List.drop_subset first stack⟩
  · rw [List.length_append, List.length_take, List.length_drop]
    omega

theorem meets_insert {v : α} (hle : n ≤ stack.length) :
    Meets fails (fun s => s ⊆ v :: stack) (insert out stack n v) := by
  rw [insert, if_neg (by omega)]
  refine List.append_subset.mpr ⟨?_, List.cons_subset_cons v (List.drop_subset n stack)⟩
  exact List.Subset.trans (List.take_subset n stack) (List.subset_cons_self v stack)

theorem meets_swap (hi : 0 < i) (hile : i ≤ stack.length) (hj : 0 < j) (hjle : j ≤ stack.length) :
    Meets fails (fun s => s ⊆ stack ∧ s.length = stack.length) (swap out stack i j) := by
  refine (meets_top hi hile).bind fun a ha => (meets_top hj hjle).bind fun b hb => ?_
  refine Meets.ok ⟨?_, by simp⟩
  intro x hx
  rcases List.mem_or_eq_of_mem_set hx with hx | rfl
  · rcases List.mem_or_eq_of_mem_set hx with hx | rfl
    · exact hx
    · exact hb
  · exact ha

end CheckedStacks
