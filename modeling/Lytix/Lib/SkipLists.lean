import Lytix.Lib.Ancestry

/-! Forests whose nodes know their parent, their height and one ancestor further back. A walk that
takes either way back finds the ancestor of every height. -/
namespace SkipLists
open Ancestry

variable {α : Type*}

/-- The `n`-th node on the way from a node to its root. -/
def up (parent : α → Option α) : ℕ → α → Option α
  | 0, x => some x
  | n + 1, x => (parent x).bind (up parent n)

/-- Every node stands one above its parent, and the roots stand at the bottom. -/
structure Forest (parent : α → Option α) (height : α → ℕ) (nodes : Set α) : Prop where
  parent_mem : ∀ x ∈ nodes, ∀ p, parent x = some p → p ∈ nodes ∧ height x = height p + 1
  root : ∀ x ∈ nodes, parent x = none → height x = 0

/-- Every node above the bottom also knows its ancestor at the height that `jump` gives. -/
structure SkipForest (parent skip : α → Option α) (height : α → ℕ) (jump : ℕ → ℕ) (nodes : Set α) :
    Prop extends Forest parent height nodes where
  skip : ∀ x ∈ nodes, height x ≠ 0 → skip x = up parent (height x - jump (height x)) x

/-- The walk from a node at `level` down to `height`. It has no result if it comes to a pointer that
is missing, or does not end in the rounds given. -/
def walk (parent skip : α → Option α) (jump : ℕ → ℕ) (prefers : ℕ → ℕ → Bool) (height : ℕ) :
    ℕ → α → ℕ → Option α
  | 0, x, level => if level ≤ height then some x else none
  | rounds + 1, x, level =>
    if level ≤ height then some x
    else if prefers height level then
      (skip x).bind fun q => walk parent skip jump prefers height rounds q (jump level)
    else (parent x).bind fun p => walk parent skip jump prefers height rounds p (level - 1)

section
variable {parent skip parent' : α → Option α} {height : α → ℕ} {jump : ℕ → ℕ}
  {prefers : ℕ → ℕ → Bool} {nodes : Set α} {x y a b : α} {n m bottom : ℕ}

theorem up_add : up parent (n + m) x = (up parent n x).bind (up parent m) := by
  induction n generalizing x with
  | zero => simp [up]
  | succ n ih =>
    rw [Nat.succ_add, up, up]
    cases parent x with
    | none => rfl
    | some p => exact ih

theorem isAncestor_iff_up : IsAncestor parent a x ↔ ∃ n, up parent n x = some a := by
  constructor
  · intro hanc
    induction hanc with
    | refl => exact ⟨0, rfl⟩
    | tail _ hparent ih =>
      obtain ⟨n, hn⟩ := ih
      refine ⟨n + 1, ?_⟩
      rw [up_add, hn, Option.bind_some, up, hparent]
      rfl
  · rintro ⟨n, hn⟩
    induction n generalizing x with
    | zero =>
      rw [Option.some.inj hn]
      exact IsAncestor.refl _ _
    | succ n ih =>
      obtain ⟨p, hparent, hp⟩ := Option.bind_eq_some_iff.mp hn
      exact (ih hp).trans (IsAncestor.of_parent hparent)

/-- The way back depends on the parents of the ancestors alone. -/
theorem up_congr (h : ∀ z, IsAncestor parent z x → parent' z = parent z) :
    up parent' n x = up parent n x := by
  induction n generalizing x with
  | zero => rfl
  | succ n ih =>
    rw [up, up, h x (IsAncestor.refl _ _)]
    cases hparent : parent x with
    | none => rfl
    | some p =>
      have hbelow (z : α) (hz : IsAncestor parent z p) : parent' z = parent z :=
        h z (hz.trans (IsAncestor.of_parent hparent))
      exact ih hbelow

theorem Forest.up_exists (forest : Forest parent height nodes) (hx : x ∈ nodes)
    (hn : n ≤ height x) : ∃ a, up parent n x = some a ∧ a ∈ nodes ∧ height a + n = height x := by
  induction n generalizing x with
  | zero => exact ⟨x, rfl, hx, rfl⟩
  | succ n ih =>
    cases hparent : parent x with
    | none =>
      have hroot := forest.root x hx hparent
      omega
    | some p =>
      obtain ⟨hp, hheight⟩ := forest.parent_mem x hx p hparent
      obtain ⟨a, ha, hmem, hsum⟩ := ih hp (by omega)
      refine ⟨a, ?_, hmem, by omega⟩
      rw [up, hparent]
      exact ha

theorem Forest.of_up (forest : Forest parent height nodes) (hx : x ∈ nodes)
    (ha : up parent n x = some a) : a ∈ nodes ∧ height a + n = height x := by
  induction n generalizing x with
  | zero =>
    rw [← Option.some.inj ha]
    exact ⟨hx, rfl⟩
  | succ n ih =>
    obtain ⟨p, hparent, hp⟩ := Option.bind_eq_some_iff.mp ha
    obtain ⟨hmem, hheight⟩ := forest.parent_mem x hx p hparent
    obtain ⟨hnode, hsum⟩ := ih hmem hp
    exact ⟨hnode, by omega⟩

/-- The ancestor at a height, found from below the node. -/
theorem Forest.up_of_up (forest : Forest parent height nodes) (hx : x ∈ nodes)
    (ha : up parent n x = some a) (hbottom : bottom ≤ height a) :
    up parent (height a - bottom) a = up parent (height x - bottom) x := by
  have hsum := (forest.of_up hx ha).2
  have hsplit : height x - bottom = n + (height a - bottom) := by omega
  rw [hsplit, up_add, ha]
  rfl

theorem Forest.isAncestor_iff (forest : Forest parent height nodes) (hx : x ∈ nodes) :
    IsAncestor parent a x ↔ height a ≤ height x ∧ up parent (height x - height a) x = some a := by
  rw [isAncestor_iff_up]
  constructor
  · rintro ⟨n, hn⟩
    have hsum := (forest.of_up hx hn).2
    have hsteps : height x - height a = n := by omega
    rw [hsteps]
    exact ⟨by omega, hn⟩
  · rintro ⟨-, hn⟩
    exact ⟨_, hn⟩

theorem Forest.mem_of_isAncestor (forest : Forest parent height nodes) (hx : x ∈ nodes)
    (ha : IsAncestor parent a x) : a ∈ nodes := by
  obtain ⟨n, hn⟩ := isAncestor_iff_up.mp ha
  exact (forest.of_up hx hn).1

/-- Of two ancestors of a node, the lower one is an ancestor of the other. -/
theorem Forest.isAncestor_of_le (forest : Forest parent height nodes) (hx : x ∈ nodes)
    (ha : IsAncestor parent a x) (hb : IsAncestor parent b x) (hle : height a ≤ height b) :
    IsAncestor parent a b := by
  have hbmem := forest.mem_of_isAncestor hx hb
  obtain ⟨-, haup⟩ := (forest.isAncestor_iff hx).mp ha
  obtain ⟨-, hbup⟩ := (forest.isAncestor_iff hx).mp hb
  refine (forest.isAncestor_iff hbmem).mpr ⟨hle, ?_⟩
  rw [forest.up_of_up hx hbup hle]
  exact haup

/-- The walk ends in as many rounds as there are levels, at the ancestor of the height asked for. -/
theorem SkipForest.walk_eq (forest : SkipForest parent skip height jump nodes)
    (hjump : ∀ level, 0 < level → jump level < level)
    (hprefers : ∀ level, prefers bottom level = true → bottom ≤ jump level) (hx : x ∈ nodes)
    (hbottom : bottom ≤ height x) {rounds : ℕ} (hrounds : height x ≤ bottom + rounds) :
    walk parent skip jump prefers bottom rounds x (height x) =
      up parent (height x - bottom) x := by
  induction rounds generalizing x with
  | zero =>
    have hlevel : height x = bottom := by omega
    rw [walk, if_pos hlevel.le, hlevel, Nat.sub_self]
    rfl
  | succ rounds ih =>
    rw [walk]
    by_cases hdone : height x ≤ bottom
    · have hlevel : height x = bottom := by omega
      rw [if_pos hdone, hlevel, Nat.sub_self]
      rfl
    · rw [if_neg hdone]
      by_cases hskip : prefers bottom (height x) = true
      · have hlt := hjump (height x) (by omega)
        have hle := hprefers (height x) hskip
        obtain ⟨q, hq, hmem, hsum⟩ := forest.up_exists hx (Nat.sub_le (height x) (jump (height x)))
        have hlevel : jump (height x) = height q := by omega
        rw [if_pos hskip, forest.skip x hx (by omega), hq, Option.bind_some, hlevel,
          ih hmem (by omega) (by omega)]
        exact forest.up_of_up hx hq (by omega)
      · obtain ⟨p, hp, hmem, hsum⟩ := forest.up_exists hx (show 1 ≤ height x by omega)
        have hparent : parent x = some p := by
          rw [up] at hp
          obtain ⟨p', hparent, hp'⟩ := Option.bind_eq_some_iff.mp hp
          rw [hparent, ← hp']
          rfl
        have hlevel : height x - 1 = height p := by omega
        rw [if_neg hskip, hparent, Option.bind_some, hlevel, ih hmem (by omega) (by omega)]
        exact forest.up_of_up hx hp (by omega)

end
end SkipLists
