import Mathlib.Logic.Relation
import Mathlib.Data.List.Basic
import Mathlib.Tactic

/-! Nodes with a parent each, and lists that hold a node at its depth. Two such lists that meet
at a node are equal up to it. -/
namespace Ancestry

variable {α : Type*}

/-- `a` is `b`, or an ancestor of `b`. -/
def IsAncestor (parent : α → Option α) (a b : α) : Prop :=
  Relation.ReflTransGen (fun x y => parent x = some y) b a

/-- The nodes that a walk from parent to parent passes before one that it stops at, if it does not end
where there is no parent. -/
inductive Passes (parent : α → Option α) (stop : α → Bool) : Option α → List α → Prop
  | ended : Passes parent stop none []
  | stopped {x : α} (h : stop x = true) : Passes parent stop (some x) []
  | passed {x : α} {path : List α} (h : stop x = false) (rest : Passes parent stop (parent x) path) :
      Passes parent stop (some x) (x :: path)

/-- Every node of the list has the one before it as its parent, and the first has none. -/
def Linked (parent : α → Option α) (l : List α) : Prop :=
  ∀ i x, l[i]? = some x → parent x = if i = 0 then none else l[i - 1]?

section
variable {parent parent' : α → Option α} {l m : List α} {a b c x y : α} {i j : ℕ}

theorem IsAncestor.refl (parent : α → Option α) (a : α) : IsAncestor parent a a :=
  Relation.ReflTransGen.refl

theorem IsAncestor.trans (hab : IsAncestor parent a b) (hbc : IsAncestor parent b c) :
    IsAncestor parent a c :=
  Relation.ReflTransGen.trans hbc hab

theorem IsAncestor.of_parent (h : parent b = some a) : IsAncestor parent a b :=
  Relation.ReflTransGen.single h

/-- Ancestry depends on the parents of the ancestors alone. -/
theorem isAncestor_congr (h : ∀ z, IsAncestor parent z x → parent' z = parent z) :
    IsAncestor parent' a x ↔ IsAncestor parent a x := by
  constructor
  · intro ha
    induction ha with
    | refl => exact IsAncestor.refl parent x
    | tail _ hup ih =>
      rw [h _ ih] at hup
      exact (IsAncestor.of_parent hup).trans ih
  · intro ha
    induction ha with
    | refl => exact IsAncestor.refl parent' x
    | tail hz hup ih =>
      rw [← h _ hz] at hup
      exact (IsAncestor.of_parent hup).trans ih

theorem linked_parent_zero (hl : Linked parent l) (hx : l[0]? = some x) : parent x = none := by
  simpa using hl 0 x hx

theorem linked_parent_succ (hl : Linked parent l) (hx : l[i + 1]? = some x) :
    parent x = l[i]? := by
  simpa using hl (i + 1) x hx

theorem linked_getElem?_isAncestor (hl : Linked parent l) (hx : l[i]? = some x) (hj : j ≤ i)
    (hy : l[j]? = some y) : IsAncestor parent y x := by
  induction i generalizing x with
  | zero =>
    have hji : j = 0 := by omega
    subst hji
    have hxy : x = y := Option.some.inj (hx.symm.trans hy)
    rw [hxy]
    exact IsAncestor.refl parent y
  | succ i ih =>
    by_cases hji : j = i + 1
    · have hxy : x = y := by
        rw [hji] at hy
        exact Option.some.inj (hx.symm.trans hy)
      rw [hxy]
      exact IsAncestor.refl parent y
    · have hlen : i < l.length := by
        have hlt := (List.getElem?_eq_some_iff.mp hx).1
        omega
      have hz : l[i]? = some l[i] := List.getElem?_eq_getElem hlen
      have hparent : parent x = some l[i] := by rw [linked_parent_succ hl hx, hz]
      exact (ih hz (by omega)).trans (IsAncestor.of_parent hparent)

/-- Two linked lists with one node at one position agree up to that position, when the two
parent functions agree on the node's ancestors. -/
theorem linked_agree (hl : Linked parent l) (hm : Linked parent' m)
    (hparent : ∀ z, IsAncestor parent z x → parent' z = parent z)
    (hx : l[i]? = some x) (hx' : m[i]? = some x) (hj : j ≤ i) : l[j]? = m[j]? := by
  induction i generalizing x with
  | zero =>
    have hji : j = 0 := by omega
    rw [hji, hx, hx']
  | succ i ih =>
    by_cases hji : j = i + 1
    · rw [hji, hx, hx']
    · have hlen : i < l.length := by
        have hlt := (List.getElem?_eq_some_iff.mp hx).1
        omega
      have hz : l[i]? = some l[i] := List.getElem?_eq_getElem hlen
      have hup : parent x = some l[i] := by rw [linked_parent_succ hl hx, hz]
      have hz' : m[i]? = some l[i] := by
        rw [← linked_parent_succ hm hx', hparent x (IsAncestor.refl parent x), hup]
      have hbelow : ∀ z, IsAncestor parent z l[i] → parent' z = parent z := by
        intro z hza
        exact hparent z (hza.trans (IsAncestor.of_parent hup))
      exact ih hbelow hz hz' (by omega)

/-! Lists that go from a node to its parent. -/

theorem isAncestor_of_mem_chain (hl : l.IsChain fun a b => parent a = some b)
    (hx : l.head? = some x) (hy : y ∈ l) : IsAncestor parent y x := by
  induction l generalizing x with
  | nil => exact absurd hy List.not_mem_nil
  | cons a l ih =>
    obtain ⟨hhead, htail⟩ := List.isChain_cons.mp hl
    rw [← Option.some.inj hx]
    rcases List.mem_cons.mp hy with rfl | hy
    · exact IsAncestor.refl parent y
    · obtain ⟨b, m, rfl⟩ := List.exists_cons_of_ne_nil (List.ne_nil_of_mem hy)
      exact (ih htail rfl hy).trans (IsAncestor.of_parent (hhead b rfl))

theorem isAncestor_of_mem_before (hl : (l ++ x :: m).IsChain fun a b => parent a = some b)
    (hy : y ∈ l) : IsAncestor parent x y := by
  obtain ⟨before, after, rfl⟩ := List.append_of_mem hy
  rw [List.append_assoc] at hl
  exact isAncestor_of_mem_chain hl.right_of_append rfl (by simp)

/-- An ancestor of the first node is on the list, or an ancestor of the last one. -/
theorem isAncestor_chain_cases (hl : (l ++ [c]).IsChain fun a b => parent a = some b)
    (hx : (l ++ [c]).head? = some x) (hy : IsAncestor parent y x) :
    y ∈ l ∨ IsAncestor parent y c := by
  induction l generalizing x with
  | nil =>
    rw [List.nil_append] at hx
    rw [Option.some.inj hx]
    exact Or.inr hy
  | cons a l ih =>
    rw [List.cons_append, List.isChain_cons] at hl
    obtain ⟨hhead, htail⟩ := hl
    rw [← Option.some.inj hx] at hy
    rcases Relation.ReflTransGen.cases_head hy with heq | ⟨b, hparent, hrest⟩
    · rw [← heq]
      exact Or.inl List.mem_cons_self
    · have hb : (l ++ [c]).head? = some b := by
        obtain ⟨d, m, hd⟩ := List.exists_cons_of_ne_nil (List.append_ne_nil_of_right_ne_nil l
          (List.cons_ne_nil c []))
        have hda := hhead d (by rw [hd]; rfl)
        rw [hd, ← Option.some.inj (hparent.symm.trans hda)]
        rfl
      rcases ih htail hb hrest with hmem | hanc
      · exact Or.inl (List.mem_cons_of_mem _ hmem)
      · exact Or.inr hanc

/-! Walks from parent to parent. -/

variable {stop : α → Bool} {start : Option α} {path path' : List α}

theorem Passes.unique (h : Passes parent stop start path) (h' : Passes parent stop start path') :
    path = path' := by
  induction h generalizing path' with
  | ended =>
    cases h'
    rfl
  | stopped hstop =>
    cases h' with
    | stopped => rfl
    | passed hgo =>
      rw [hstop] at hgo
      contradiction
  | passed hgo _ ih =>
    cases h' with
    | stopped hstop =>
      rw [hgo] at hstop
      contradiction
    | passed _ hrest => rw [ih hrest]

/-- A walk that passes a node goes on as the walk from it does. -/
theorem Passes.of_append (h : Passes parent stop start (l ++ x :: m)) :
    Passes parent stop (some x) (x :: m) := by
  induction l generalizing start with
  | nil =>
    cases h with
    | passed hgo hrest => exact Passes.passed hgo hrest
  | cons a l ih =>
    cases h with
    | passed _ hrest => exact ih hrest

/-- So it passes what that walk passes. -/
theorem Passes.mem_of_mem (h : Passes parent stop start path) (hx : x ∈ path)
    (h' : Passes parent stop (some x) path') (hy : y ∈ path') : y ∈ path := by
  obtain ⟨before, after, rfl⟩ := List.append_of_mem hx
  rw [h'.unique h.of_append] at hy
  exact List.mem_append_right _ hy

end
end Ancestry
