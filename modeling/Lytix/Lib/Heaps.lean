import Mathlib.Data.List.Sort

/-! Binary heaps laid out in a list, under a comparison that need not tell all elements apart. -/
namespace Heaps

variable {α : Type*} {less : α → α → Bool} {q rest : List α} {x y : α}

/-- No element is greater than its parent. -/
def IsHeap (less : α → α → Bool) (q : List α) : Prop :=
  ∀ i x y, 0 < i → q[(i - 1) / 2]? = some x → q[i]? = some y → less x y = false

/-- The heap functions of a standard library: `push` sifts the last element into place, `pop`
moves the first one to the end. -/
structure HeapFunctions (less : α → α → Bool) where
  make : List α → List α
  push : List α → List α
  pop : List α → List α
  make_perm : ∀ q, (make q).Perm q
  make_isHeap : ∀ q, IsHeap less (make q)
  push_perm : ∀ q, (push q).Perm q
  push_isHeap : ∀ q x, IsHeap less q → IsHeap less (push (q ++ [x]))
  pop_spec : ∀ q x, IsHeap less (x :: q) →
    ∃ rest, pop (x :: q) = rest ++ [x] ∧ rest.Perm q ∧ IsHeap less rest

namespace HeapFunctions

variable (f : HeapFunctions less)

/-- The first element, and the heap without it. -/
def takeFirst (q : List α) : Option (α × List α) :=
  match q with
  | [] => none
  | x :: q => some (x, (f.pop (x :: q)).dropLast)

/-- Append some elements, and sift each into place. -/
def pushAll (q xs : List α) : List α := xs.foldl (fun q x => f.push (q ++ [x])) q

variable {f}

theorem takeFirst_eq_none : f.takeFirst q = none ↔ q = [] := by
  cases q <;> simp [takeFirst]

theorem takeFirst_spec (hq : IsHeap less q) (h : f.takeFirst q = some (x, rest)) :
    q.Perm (x :: rest) ∧ IsHeap less rest := by
  cases q with
  | nil => contradiction
  | cons z q =>
    obtain ⟨left, hpop, hperm, hleft⟩ := f.pop_spec q z hq
    obtain ⟨rfl, rfl⟩ := Prod.mk.inj (Option.some.inj h)
    rw [hpop, List.dropLast_concat]
    exact ⟨hperm.symm.cons z, hleft⟩

theorem pushAll_spec (hq : IsHeap less q) (xs : List α) :
    (f.pushAll q xs).Perm (q ++ xs) ∧ IsHeap less (f.pushAll q xs) := by
  induction xs generalizing q with
  | nil => simpa [pushAll] using hq
  | cons x xs ih =>
    obtain ⟨hperm, hheap⟩ := ih (f.push_isHeap q x hq)
    refine ⟨?_, hheap⟩
    have hpush : (f.push (q ++ [x]) ++ xs).Perm (q ++ x :: xs) := by
      simpa using (f.push_perm (q ++ [x])).append_right xs
    exact hperm.trans hpush

end HeapFunctions

/-- A list in descending order is a heap. -/
theorem IsHeap.of_pairwise (h : q.Pairwise fun a b => less a b = false) : IsHeap less q := by
  intro i x y hi hx hy
  obtain ⟨hparent, rfl⟩ := List.getElem?_eq_some_iff.mp hx
  obtain ⟨hchild, rfl⟩ := List.getElem?_eq_some_iff.mp hy
  exact List.pairwise_iff_getElem.mp h _ _ hparent hchild (by omega)

section
variable (less) [Std.Total fun a b => less a b = false] [IsTrans α fun a b => less a b = false]

/-- The heap functions that keep everything in descending order. Sifting a last element into such
a list is sorting it. -/
def descending : HeapFunctions less where
  make := List.insertionSort fun a b => less a b = false
  push := List.insertionSort fun a b => less a b = false
  pop := fun q => match q with
    | [] => []
    | x :: q => List.insertionSort (fun a b => less a b = false) q ++ [x]
  make_perm := fun q => List.perm_insertionSort _ q
  make_isHeap := fun q => IsHeap.of_pairwise (List.pairwise_insertionSort _ q)
  push_perm := fun q => List.perm_insertionSort _ q
  push_isHeap := fun q x _ => IsHeap.of_pairwise (List.pairwise_insertionSort _ (q ++ [x]))
  pop_spec := fun q _ _ => ⟨_, rfl, List.perm_insertionSort _ q,
    IsHeap.of_pairwise (List.pairwise_insertionSort _ q)⟩

end
end Heaps
