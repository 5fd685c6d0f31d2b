import Mathlib.Data.List.Basic
import Mathlib.Tactic

/-! Hash trees over lists of any length. A level that is odd has its last node twice, so lists of
different lengths can have one root. -/
namespace MerkleTrees

variable {α : Type*}

/-- The pairs of nodes of a level that are hashed. -/
def pairs : List α → List (α × α)
  | [] => []
  | [a] => [(a, a)]
  | a :: b :: rest => (a, b) :: pairs rest

/-- The number of nodes at a height, over `n` leaves. -/
def width (n k : ℕ) : ℕ := (n + 2 ^ k - 1) / 2 ^ k

/-- The last two nodes of an even level are equal. -/
def EndsTwice (l : List α) : Prop :=
  ∃ n a, l.length = 2 * n + 2 ∧ l[2 * n]? = some a ∧ l[2 * n + 1]? = some a

theorem not_endsTwice_tail {a b : α} {rest : List α} (h : ¬ EndsTwice (a :: b :: rest)) :
    ¬ EndsTwice rest := by
  rintro ⟨n, c, hlength, hfirst, hsecond⟩
  refine h ⟨n + 1, c, ?_, ?_, ?_⟩
  · rw [List.length_cons, List.length_cons, hlength]
    omega
  · exact hfirst
  · exact hsecond

theorem length_pairs (l : List α) : (pairs l).length = (l.length + 1) / 2 := by
  fun_induction pairs l with
  | case1 => simp
  | case2 a => simp
  | case3 a b rest ih =>
    rw [List.length_cons, ih, List.length_cons, List.length_cons]
    omega

/-- A node stands for itself where its neighbour is missing. -/
theorem getElem?_pairs (l : List α) {k : ℕ} (hk : 2 * k < l.length) :
    ∃ a b, l[2 * k]? = some a ∧ l[min (2 * k + 1) (l.length - 1)]? = some b ∧
      (pairs l)[k]? = some (a, b) := by
  fun_induction pairs l generalizing k with
  | case1 => contradiction
  | case2 a =>
    have hzero : k = 0 := by
      rw [List.length_singleton] at hk
      omega
    rw [hzero]
    exact ⟨a, a, rfl, rfl, rfl⟩
  | case3 a b rest ih =>
    cases k with
    | zero =>
      have hmin : min (2 * 0 + 1) ((a :: b :: rest).length - 1) = 1 := by
        simp only [List.length_cons]
        omega
      rw [hmin]
      exact ⟨a, b, rfl, rfl, rfl⟩
    | succ k =>
      simp only [List.length_cons] at hk
      obtain ⟨c, d, hc, hd, hpair⟩ := @ih k (by omega)
      have hmin : min (2 * (k + 1) + 1) ((a :: b :: rest).length - 1) =
          min (2 * k + 1) (rest.length - 1) + 2 := by
        simp only [List.length_cons]
        omega
      rw [hmin]
      exact ⟨c, d, hc, hd, hpair⟩

/-- A level is known from its pairs, unless it ends with one node twice. -/
theorem pairs_injective {xs ys : List α} (hx : ¬ EndsTwice xs) (hy : ¬ EndsTwice ys)
    (h : pairs xs = pairs ys) : xs = ys := by
  fun_induction pairs xs generalizing ys with
  | case1 =>
    cases ys with
    | nil => rfl
    | cons a ys => cases ys <;> contradiction
  | case2 a =>
    match ys with
    | [] => contradiction
    | [b] =>
      simp only [pairs, List.cons.injEq, Prod.mk.injEq] at h
      rw [h.1.1]
    | [b, c] =>
      -- the pair of one node is a pair of two equal nodes
      simp only [pairs, List.cons.injEq, Prod.mk.injEq] at h
      rw [← h.1.1, ← h.1.2] at hy
      exact absurd ⟨0, a, rfl, rfl, rfl⟩ hy
    | b :: c :: d :: rest =>
      have hlength := congrArg List.length h
      simp only [pairs, List.length_cons, length_pairs, List.length_nil] at hlength
      omega
  | case3 a b rest ih =>
    match ys with
    | [] => contradiction
    | [c] =>
      simp only [pairs, List.cons.injEq, Prod.mk.injEq] at h
      have hlength := congrArg List.length h.2
      rw [length_pairs, List.length_nil] at hlength
      have hrest : rest = [] := List.length_eq_zero_iff.mp (by omega)
      rw [hrest, h.1.1, h.1.2] at hx
      exact absurd ⟨0, c, rfl, rfl, rfl⟩ hx
    | c :: d :: rest' =>
      simp only [pairs, List.cons.injEq, Prod.mk.injEq] at h
      rw [h.1.1, h.1.2, ih (not_endsTwice_tail hx) (not_endsTwice_tail hy) h.2]

theorem width_zero (n : ℕ) : width n 0 = n := by
  unfold width
  rw [pow_zero, Nat.div_one]
  omega

theorem width_succ (n k : ℕ) : width n (k + 1) = (width n k + 1) / 2 := by
  have hpos : 0 < 2 ^ k := Nat.two_pow_pos k
  unfold width
  have hshift : (n + 2 ^ k - 1) / 2 ^ k + 1 = (n + 2 ^ k - 1 + 2 ^ k) / 2 ^ k :=
    (Nat.add_div_right _ hpos).symm
  rw [hshift, Nat.div_div_eq_div_mul, pow_succ]
  congr 1
  omega

theorem width_succ_lt {n k : ℕ} (h : 1 < width n k) : width n (k + 1) < width n k := by
  rw [width_succ]
  omega

section levels
variable (h : α → α → α)

def levelUp (l : List α) : List α := (pairs l).map fun p => h p.1 p.2

/-- The nodes at a height. -/
def level (l : List α) : ℕ → List α
  | 0 => l
  | k + 1 => levelUp h (level l k)

theorem length_levelUp (l : List α) : (levelUp h l).length = (l.length + 1) / 2 := by
  unfold levelUp
  rw [List.length_map, length_pairs]

theorem length_level (l : List α) (k : ℕ) : (level h l k).length = width l.length k := by
  induction k with
  | zero => exact (width_zero _).symm
  | succ k ih => rw [level, length_levelUp, ih, width_succ]

theorem level_levelUp (l : List α) (k : ℕ) : level h (levelUp h l) k = level h l (k + 1) := by
  induction k with
  | zero => rfl
  | succ k ih => rw [level, ih, ← level]

/-- The children of a node. -/
theorem getElem?_levelUp (l : List α) {k : ℕ} (hk : 2 * k < l.length) :
    ∃ a b, l[2 * k]? = some a ∧ l[min (2 * k + 1) (l.length - 1)]? = some b ∧ (a, b) ∈ pairs l ∧
      (levelUp h l)[k]? = some (h a b) := by
  obtain ⟨a, b, ha, hb, hpair⟩ := getElem?_pairs l hk
  refine ⟨a, b, ha, hb, List.mem_of_getElem? hpair, ?_⟩
  unfold levelUp
  rw [List.getElem?_map, hpair]
  rfl

/-- No other pair has the hash of a pair in the tree. -/
def UniquePreimages (l : List α) : Prop :=
  ∀ k, 1 < (level h l k).length → ∀ p ∈ pairs (level h l k), ∀ a b, h a b = h p.1 p.2 → (a, b) = p

/-- No leaf is the hash of a pair. -/
def LeavesApart (l : List α) : Prop := ∀ x ∈ l, ∀ a b, x ≠ h a b

/-- Some level of more than one node ends with one node twice. -/
def Mutated (l : List α) : Prop := ∃ k, 1 < (level h l k).length ∧ EndsTwice (level h l k)

/-- The nodes of all levels, from the leaves to the root. -/
def nodes (l : List α) : List α := l ++ if 1 < l.length then nodes (levelUp h l) else []
termination_by l.length
decreasing_by
  rw [length_levelUp]
  omega

variable {h}

theorem nodes_of_large {l : List α} (hl : 1 < l.length) :
    nodes h l = l ++ nodes h (levelUp h l) := by
  rw [nodes, if_pos hl]

theorem nodes_of_small {l : List α} (hl : ¬ 1 < l.length) : nodes h l = l := by
  rw [nodes, if_neg hl, List.append_nil]

theorem EndsTwice.large {l : List α} (htwice : EndsTwice l) : 1 < l.length := by
  obtain ⟨n, -, hlength, -, -⟩ := htwice
  omega

/-- The first level decides, or one of the others. -/
theorem mutated_iff (l : List α) : Mutated h l ↔ EndsTwice l ∨ Mutated h (levelUp h l) := by
  constructor
  · rintro ⟨k, hlarge, htwice⟩
    cases k with
    | zero => exact Or.inl htwice
    | succ k =>
      rw [← level_levelUp] at hlarge htwice
      exact Or.inr ⟨k, hlarge, htwice⟩
  · rintro (htwice | ⟨k, hlarge, htwice⟩)
    · exact ⟨0, htwice.large, htwice⟩
    · rw [level_levelUp] at hlarge htwice
      exact ⟨k + 1, hlarge, htwice⟩

theorem level_small {l : List α} (hl : ¬ 1 < l.length) (k : ℕ) : ¬ 1 < (level h l k).length := by
  induction k with
  | zero => exact hl
  | succ k ih =>
    rw [level, length_levelUp]
    omega

theorem not_mutated_of_small {l : List α} (hl : ¬ 1 < l.length) : ¬ Mutated h l := by
  rintro ⟨k, hlarge, -⟩
  exact level_small hl k hlarge

theorem uniquePreimages_of_small {l : List α} (hl : ¬ 1 < l.length) : UniquePreimages h l :=
  fun k hlarge => absurd hlarge (level_small hl k)

/-- A level is known from the next one, unless it ends with one node twice. -/
theorem levelUp_injective {xs ys : List α} (hx : ¬ EndsTwice xs) (hy : ¬ EndsTwice ys)
    (hunique : ∀ p ∈ pairs xs, ∀ a b, h a b = h p.1 p.2 → (a, b) = p)
    (heq : levelUp h xs = levelUp h ys) : xs = ys := by
  apply pairs_injective hx hy
  unfold levelUp at heq
  generalize pairs xs = ps at heq hunique
  generalize pairs ys = qs at heq
  induction ps generalizing qs with
  | nil => exact (List.map_eq_nil_iff.mp heq.symm).symm
  | cons p ps ih =>
    cases qs with
    | nil => contradiction
    | cons q qs =>
      simp only [List.map_cons, List.cons.injEq] at heq
      have hhead : q = p := hunique p List.mem_cons_self q.1 q.2 heq.1.symm
      have htail := ih (fun p hp => hunique p (List.mem_cons_of_mem _ hp)) qs heq.2
      rw [hhead, htail]

theorem head?_levelUp {l : List α} (hl : l ≠ []) :
    ∃ a b, l.head? = some a ∧ (a, b) ∈ pairs l ∧ (levelUp h l).head? = some (h a b) := by
  match l with
  | [] => contradiction
  | [a] => exact ⟨a, a, rfl, List.mem_singleton_self _, rfl⟩
  | a :: b :: rest => exact ⟨a, b, rfl, List.mem_cons_self, rfl⟩

theorem levelUp_ne_nil {l : List α} (hl : l ≠ []) : levelUp h l ≠ [] := by
  obtain ⟨a, b, -, -, hhead⟩ := @head?_levelUp _ h _ hl
  intro hnil
  rw [hnil] at hhead
  contradiction

theorem level_ne_nil {l : List α} (hl : l ≠ []) (k : ℕ) : level h l k ≠ [] := by
  induction k with
  | zero => exact hl
  | succ k ih => exact levelUp_ne_nil ih

/-- The first nodes of two trees agree from a common first node downwards. -/
theorem head?_eq_of_head?_eq {xs ys : List α} (hx : xs ≠ []) (hy : ys ≠ [])
    (hunique : UniquePreimages h xs) {j k : ℕ} (i : ℕ)
    (hlarge : ∀ i' < i, 1 < (level h xs (j + i')).length)
    (heq : (level h xs (j + i)).head? = (level h ys (k + i)).head?) :
    (level h xs j).head? = (level h ys k).head? := by
  induction i with
  | zero => exact heq
  | succ i ih =>
    apply ih fun i' hi' => hlarge i' (by omega)
    obtain ⟨a, b, ha, hpair, hup⟩ := @head?_levelUp _ h _ (@level_ne_nil _ h _ hx (j + i))
    obtain ⟨c, d, hc, -, hup'⟩ := @head?_levelUp _ h _ (@level_ne_nil _ h _ hy (k + i))
    have hhash : some (h a b) = some (h c d) := hup.symm.trans (heq.trans hup')
    have hsame := hunique _ (hlarge i (by omega)) _ hpair c d (Option.some.inj hhash).symm
    rw [ha, hc, (Prod.mk.inj hsame).1]

/-- Two lists of which one level agrees are equal, unless a tree repeats its end below it. -/
theorem eq_of_level_eq {xs ys : List α} (hunique : UniquePreimages h xs)
    (hx : ¬ Mutated h xs) (hy : ¬ Mutated h ys) (k : ℕ)
    (hlarge : ∀ j < k, 1 < (level h xs j).length) (hlarge' : ∀ j < k, 1 < (level h ys j).length)
    (heq : level h xs k = level h ys k) : xs = ys := by
  induction k with
  | zero => exact heq
  | succ k ih =>
    apply ih (fun j hj => hlarge j (by omega)) fun j hj => hlarge' j (by omega)
    have hlast := hlarge k (Nat.lt_succ_self k)
    have hlast' := hlarge' k (Nat.lt_succ_self k)
    exact levelUp_injective (fun htwice => hx ⟨k, hlast, htwice⟩)
      (fun htwice => hy ⟨k, hlast', htwice⟩) (hunique k hlast) heq

/-- The root is the only node at a height, and all levels below have more nodes. -/
structure IsRoot (h : α → α → α) (l : List α) (height : ℕ) (root : α) : Prop where
  top : level h l height = [root]
  large : ∀ k < height, 1 < (level h l k).length

theorem IsRoot.ne_nil {l : List α} {height : ℕ} {root : α} (hroot : IsRoot h l height root) :
    l ≠ [] := by
  intro hnil
  have hzero : ∀ k, level h ([] : List α) k = [] := by
    intro k
    induction k with
    | zero => rfl
    | succ k ih =>
      rw [level, ih]
      rfl
  have htop := hroot.top
  rw [hnil, hzero] at htop
  contradiction

theorem IsRoot.singleton (a : α) : IsRoot h [a] 0 a where
  top := rfl
  large := fun k hk => absurd hk (Nat.not_lt_zero k)

theorem IsRoot.of_levelUp {l : List α} {height : ℕ} {root : α} (hl : 1 < l.length)
    (hroot : IsRoot h (levelUp h l) height root) : IsRoot h l (height + 1) root where
  top := by
    rw [← level_levelUp]
    exact hroot.top
  large := by
    intro k hk
    cases k with
    | zero => exact hl
    | succ k =>
      rw [← level_levelUp]
      exact hroot.large k (by omega)

/-- Every tree has a root, which is its last node. -/
theorem exists_isRoot {l : List α} (hl : l ≠ []) :
    ∃ height root, IsRoot h l height root ∧ (nodes h l).getLast? = some root := by
  fun_induction nodes h l with
  | case1 l ih =>
    by_cases hlarge : 1 < l.length
    · obtain ⟨height, root, hroot, hlast⟩ := ih hlarge (levelUp_ne_nil hl)
      rw [if_pos hlarge]
      exact ⟨height + 1, root, hroot.of_levelUp hlarge, by rw [List.getLast?_append, hlast]; rfl⟩
    · obtain ⟨a, rfl⟩ : ∃ a, l = [a] := by
        apply List.length_eq_one_iff.mp
        have hpos := List.length_pos_iff.mpr hl
        omega
      rw [if_neg hlarge]
      exact ⟨0, a, IsRoot.singleton a, rfl⟩

/-- A leaf of one tree is at no height of another tree with the same root. -/
theorem IsRoot.height_le {xs ys : List α} {m n : ℕ} {root : α} (hx : IsRoot h xs m root)
    (hy : IsRoot h ys n root) (hunique : UniquePreimages h xs) (hleaves : LeavesApart h xs) :
    n ≤ m := by
  by_contra hlt
  obtain ⟨k, hk⟩ : ∃ k, n = k + 1 + m := ⟨n - m - 1, by omega⟩
  have heq : (level h xs (0 + m)).head? = (level h ys (k + 1 + m)).head? := by
    rw [Nat.zero_add, ← hk, hx.top, hy.top]
  have hhead := head?_eq_of_head?_eq hx.ne_nil hy.ne_nil hunique m
    (fun i hi => by
      rw [Nat.zero_add]
      exact hx.large i hi) heq
  obtain ⟨c, d, -, -, hup⟩ := @head?_levelUp _ h _ (@level_ne_nil _ h _ hy.ne_nil k)
  have hleaf : xs.head? = some (h c d) := hhead.trans hup
  exact hleaves _ (List.mem_of_mem_head? hleaf) c d rfl

theorem IsRoot.le_height {xs ys : List α} {m n : ℕ} {root : α} (hx : IsRoot h xs m root)
    (hy : IsRoot h ys n root) (hunique : UniquePreimages h xs) (hleaves : LeavesApart h ys) :
    m ≤ n := by
  by_contra hlt
  obtain ⟨k, hk⟩ : ∃ k, m = k + 1 + n := ⟨m - n - 1, by omega⟩
  have heq : (level h xs (k + 1 + n)).head? = (level h ys (0 + n)).head? := by
    rw [Nat.zero_add, ← hk, hx.top, hy.top]
  have hhead := head?_eq_of_head?_eq hx.ne_nil hy.ne_nil hunique n
    (fun i hi => hx.large _ (by omega)) heq
  obtain ⟨a, b, -, -, hup⟩ := @head?_levelUp _ h _ (@level_ne_nil _ h _ hx.ne_nil k)
  have hleaf : ys.head? = some (h a b) := hhead.symm.trans hup
  exact hleaves _ (List.mem_of_mem_head? hleaf) a b rfl

/-- The root tells the leaves, of trees that do not repeat an end. -/
theorem IsRoot.leaves_eq {xs ys : List α} {m n : ℕ} {root : α} (hx : IsRoot h xs m root)
    (hy : IsRoot h ys n root) (hunique : UniquePreimages h xs) (hleaves : LeavesApart h xs)
    (hleaves' : LeavesApart h ys) (hmx : ¬ Mutated h xs) (hmy : ¬ Mutated h ys) : xs = ys := by
  have hheight : m = n :=
    Nat.le_antisymm (hx.le_height hy hunique hleaves') (hx.height_le hy hunique hleaves)
  rw [← hheight] at hy
  exact eq_of_level_eq hunique hmx hmy m hx.large hy.large (hx.top.trans hy.top.symm)

end levels

end MerkleTrees
