import Lytix.Chain.ChainState

/-! The entries of the block index form a tree over the genesis block. A path back to it has one
entry of each height, and the skip list finds it. -/
namespace Lytix
open Ancestry

theorem invertLowestOne_le (n : ℕ) : invertLowestOne n ≤ n - 1 := Nat.and_le_right

theorem getSkipHeight_lt {height : ℕ} (h : 0 < height) : getSkipHeight height < height := by
  unfold getSkipHeight
  have hone := invertLowestOne_le height
  have hprev := invertLowestOne_le (height - 1)
  have htwo := invertLowestOne_le (invertLowestOne (height - 1))
  split_ifs
  · exact h
  · omega
  · omega

namespace ChainState

/-- Every entry but the genesis block stands one above its predecessor, adds its own proof to the
work, and knows an ancestor at the height its skip pointer jumps to. -/
structure Tree (env : ChainEnv) (s : ChainState) : Prop where
  genesis_mem : env.hashGenesisBlock ∈ s.mapBlockIndex
  genesis_pprev : s.pprev env.hashGenesisBlock = none
  genesis_height : (s.index env.hashGenesisBlock).nHeight = 0
  parent : ∀ x ∈ s.mapBlockIndex, x ≠ env.hashGenesisBlock → ∃ p ∈ s.mapBlockIndex,
    s.pprev x = some p ∧ (s.index x).nHeight = (s.index p).nHeight + 1 ∧
      (s.index x).nChainWork = (s.index p).nChainWork + getBlockProof (s.index x).nBits
  skip : ∀ x ∈ s.mapBlockIndex, x ≠ env.hashGenesisBlock → ∃ q, s.pskip x = some q ∧
    IsAncestor s.pprev q x ∧ (s.index q).nHeight = getSkipHeight (s.index x).nHeight

section
variable {env : ChainEnv} {s : ChainState} {x y a b p : Uint256} {height : ℕ}

theorem Tree.of_pprev (tree : Tree env s) (hx : x ∈ s.mapBlockIndex) (hp : s.pprev x = some p) :
    p ∈ s.mapBlockIndex ∧ (s.index x).nHeight = (s.index p).nHeight + 1 ∧
      (s.index x).nChainWork = (s.index p).nChainWork + getBlockProof (s.index x).nBits := by
  have hne : x ≠ env.hashGenesisBlock := by
    rintro rfl
    rw [tree.genesis_pprev] at hp
    contradiction
  obtain ⟨p', hp', hparent, hheight, hwork⟩ := tree.parent x hx hne
  have hsame : p' = p := Option.some.inj (hparent.symm.trans hp)
  rw [← hsame]
  exact ⟨hp', hheight, hwork⟩

theorem Tree.eq_genesis (tree : Tree env s) (hx : x ∈ s.mapBlockIndex) (hp : s.pprev x = none) :
    x = env.hashGenesisBlock := by
  by_contra hne
  obtain ⟨p, -, hparent, -⟩ := tree.parent x hx hne
  rw [hparent] at hp
  contradiction

theorem Tree.of_ancestor (tree : Tree env s) (hx : x ∈ s.mapBlockIndex)
    (ha : IsAncestor s.pprev a x) : a ∈ s.mapBlockIndex ∧
      (s.index a).nHeight ≤ (s.index x).nHeight ∧
      ((s.index a).nHeight = (s.index x).nHeight → a = x) := by
  induction ha with
  | refl => exact ⟨hx, le_rfl, fun _ => rfl⟩
  | tail _ hparent ih =>
    obtain ⟨hmem, hle, -⟩ := ih
    obtain ⟨hp, hheight, -⟩ := tree.of_pprev hmem hparent
    refine ⟨hp, by omega, ?_⟩
    intro heq
    omega

/-- What is above an ancestor goes through a child. -/
theorem isAncestor_cases (ha : IsAncestor s.pprev a x) :
    a = x ∨ ∃ p, s.pprev x = some p ∧ IsAncestor s.pprev a p := by
  rcases Relation.ReflTransGen.cases_head ha with heq | ⟨p, hparent, hrest⟩
  · exact Or.inl heq.symm
  · exact Or.inr ⟨p, hparent, hrest⟩

/-- Two ancestors of an entry lie on one path. -/
theorem Tree.ancestor_of_le (tree : Tree env s) (hx : x ∈ s.mapBlockIndex)
    (ha : IsAncestor s.pprev a x) (hb : IsAncestor s.pprev b x)
    (hle : (s.index a).nHeight ≤ (s.index b).nHeight) : IsAncestor s.pprev a b := by
  induction hn : (s.index x).nHeight generalizing x with
  | zero =>
    have hbx : b = x := (tree.of_ancestor hx hb).2.2 (by have := (tree.of_ancestor hx hb).2.1; omega)
    rw [hbx]
    exact ha
  | succ n ih =>
    rcases isAncestor_cases hb with rfl | ⟨p, hparent, hbp⟩
    · exact ha
    · rcases isAncestor_cases ha with rfl | ⟨p', hparent', hap⟩
      · have hab := (tree.of_ancestor hx hb).2.1
        have heq := (tree.of_ancestor hx hb).2.2 (by omega)
        rw [heq]
        exact IsAncestor.refl _ _
      · have hpp : p' = p := Option.some.inj (hparent'.symm.trans hparent)
        rw [hpp] at hap
        obtain ⟨hp, hheight, -⟩ := tree.of_pprev hx hparent
        exact ih hp hap hbp (by omega)

theorem Tree.ancestor_unique (tree : Tree env s) (hx : x ∈ s.mapBlockIndex)
    (ha : IsAncestor s.pprev a x) (hb : IsAncestor s.pprev b x)
    (heq : (s.index a).nHeight = (s.index b).nHeight) : a = b := by
  have hab := tree.ancestor_of_le hx ha hb heq.le
  exact (tree.of_ancestor (tree.of_ancestor hx hb).1 hab).2.2 heq

/-- The walk over the skip list ends at the ancestor of the height asked for. -/
theorem Tree.ancestorWalk_spec (tree : Tree env s) {rounds : ℕ} (hx : x ∈ s.mapBlockIndex)
    (hrounds : (s.index x).nHeight ≤ rounds) (hheight : height ≤ (s.index x).nHeight) :
    ∃ a, s.ancestorWalk height rounds x (s.index x).nHeight = some a ∧
      IsAncestor s.pprev a x ∧ (s.index a).nHeight = height := by
  induction rounds generalizing x with
  | zero => exact ⟨x, rfl, IsAncestor.refl _ _, by omega⟩
  | succ rounds ih =>
    unfold ancestorWalk
    by_cases hdone : (s.index x).nHeight ≤ height
    · rw [if_pos hdone]
      exact ⟨x, rfl, IsAncestor.refl _ _, by omega⟩
    · rw [if_neg hdone]
      have hne : x ≠ env.hashGenesisBlock := by
        rintro rfl
        rw [tree.genesis_height] at hdone
        omega
      have hlt := @getSkipHeight_lt (s.index x).nHeight (by omega)
      by_cases hskip : followsSkip height (s.index x).nHeight = true
      · obtain ⟨q, hq, hanc, hqheight⟩ := tree.skip x hx hne
        have hle : height ≤ getSkipHeight (s.index x).nHeight := by
          unfold followsSkip at hskip
          simp only [Bool.or_eq_true, decide_eq_true_eq, Bool.and_eq_true] at hskip
          rcases hskip with heq | ⟨habove, -⟩
          · omega
          · omega
        rw [if_pos hskip, hq, Option.bind_some, ← hqheight]
        obtain ⟨a, hwalk, ha, haheight⟩ :=
          ih (tree.of_ancestor hx hanc).1 (by omega) (by omega)
        exact ⟨a, hwalk, ha.trans hanc, haheight⟩
      · obtain ⟨p, hp, hparent, hpheight, -⟩ := tree.parent x hx hne
        have hprev : (s.index x).nHeight - 1 = (s.index p).nHeight := by omega
        rw [if_neg hskip, hparent, Option.bind_some, hprev]
        obtain ⟨a, hwalk, ha, haheight⟩ := ih hp (by omega) (by omega)
        exact ⟨a, hwalk, ha.trans (IsAncestor.of_parent hparent), haheight⟩

theorem Tree.getAncestor_spec (tree : Tree env s) (hx : x ∈ s.mapBlockIndex)
    (hheight : height ≤ (s.index x).nHeight) : ∃ a, s.getAncestor x height = some a ∧
      IsAncestor s.pprev a x ∧ (s.index a).nHeight = height := by
  unfold getAncestor
  rw [if_neg (not_lt.mpr hheight)]
  exact tree.ancestorWalk_spec hx le_rfl hheight

/-- `GetAncestor` at the height of an entry tells whether the entry is an ancestor. -/
theorem Tree.getAncestor_eq_some (tree : Tree env s) (hx : x ∈ s.mapBlockIndex) :
    s.getAncestor x (s.index p).nHeight = some p ↔ IsAncestor s.pprev p x := by
  constructor
  · intro hwalk
    have hle : (s.index p).nHeight ≤ (s.index x).nHeight := by
      by_contra hlt
      unfold getAncestor at hwalk
      rw [if_pos (not_le.mp hlt)] at hwalk
      contradiction
    obtain ⟨a, ha, hanc, -⟩ := tree.getAncestor_spec hx hle
    rw [← Option.some.inj (ha.symm.trans hwalk)]
    exact hanc
  · intro hanc
    obtain ⟨a, ha, hanc', hheight⟩ := tree.getAncestor_spec hx (tree.of_ancestor hx hanc).2.1
    rw [ha, tree.ancestor_unique hx hanc' hanc hheight]

theorem Tree.mem_ancestors (tree : Tree env s) {rounds : ℕ} (hx : x ∈ s.mapBlockIndex)
    (hrounds : (s.index x).nHeight < rounds) :
    a ∈ s.ancestors rounds x ↔ IsAncestor s.pprev a x := by
  induction rounds generalizing x with
  | zero => omega
  | succ rounds ih =>
    unfold ancestors
    cases hp : s.pprev x with
    | none =>
      dsimp only
      rw [List.mem_singleton]
      constructor
      · rintro rfl
        exact IsAncestor.refl _ _
      · intro hanc
        rcases isAncestor_cases hanc with heq | ⟨p, hparent, -⟩
        · exact heq
        · rw [hp] at hparent
          contradiction
    | some p =>
      obtain ⟨hmem, hheight, -⟩ := tree.of_pprev hx hp
      dsimp only
      rw [List.mem_cons, ih hmem (by omega)]
      constructor
      · rintro (rfl | hanc)
        · exact IsAncestor.refl _ _
        · exact hanc.trans (IsAncestor.of_parent hp)
      · intro hanc
        rcases isAncestor_cases hanc with heq | ⟨p', hparent, hrest⟩
        · exact Or.inl heq
        · rw [hp] at hparent
          rw [Option.some.inj hparent]
          exact Or.inr hrest

theorem Tree.mem_pathTo (tree : Tree env s) (hx : x ∈ s.mapBlockIndex) :
    a ∈ s.pathTo x ↔ IsAncestor s.pprev a x := by
  unfold pathTo
  rw [List.mem_reverse]
  exact tree.mem_ancestors hx (Nat.lt_succ_self _)

theorem Tree.length_ancestors (tree : Tree env s) {rounds : ℕ} (hx : x ∈ s.mapBlockIndex)
    (hrounds : (s.index x).nHeight < rounds) :
    (s.ancestors rounds x).length = (s.index x).nHeight + 1 ∧
      (s.ancestors rounds x).getLast? = some env.hashGenesisBlock := by
  induction rounds generalizing x with
  | zero => omega
  | succ rounds ih =>
    unfold ancestors
    cases hp : s.pprev x with
    | none =>
      have hgenesis := tree.eq_genesis hx hp
      rw [hgenesis, tree.genesis_height]
      exact ⟨rfl, rfl⟩
    | some p =>
      obtain ⟨hmem, hheight, -⟩ := tree.of_pprev hx hp
      obtain ⟨hlength, hlast⟩ := ih hmem (by omega)
      dsimp only
      constructor
      · rw [List.length_cons, hlength, hheight]
      · rw [List.getLast?_cons, hlast]
        rfl

/-- An entry on the path has the property that is searched, or there is none. -/
theorem Tree.firstOnPath_eq_none (tree : Tree env s) (hx : x ∈ s.mapBlockIndex)
    {test : CBlockIndex → Bool} :
    s.firstOnPath x test = none ↔ ∀ a, IsAncestor s.pprev a x → test (s.index a) = false := by
  unfold firstOnPath
  rw [List.find?_eq_none]
  constructor
  · intro hnone a hanc
    exact eq_false_of_ne_true (hnone a ((tree.mem_pathTo hx).mpr hanc))
  · intro hnone a hmem
    rw [hnone a ((tree.mem_pathTo hx).mp hmem)]
    exact Bool.false_ne_true

end

end ChainState

end Lytix
