import Mathlib.Data.Nat.Bitwise
import Lytix.Lib.MerkleTrees
import Lytix.Primitives.Transaction

/-! The merkle tree of a block. All its levels stand in one list, the transaction ids first. -/
namespace Lytix

open MerkleTrees

namespace CBlock

section code
variable (hash : Uint256 → Uint256 → Uint256)

/-- One round of the inner loop of `BuildMerkleTree`, on the tree and the flag `mutated`. -/
def hashPair (j nSize : ℕ) (state : List Uint256 × Bool) (i : ℕ) : List Uint256 × Bool :=
  let vMerkleTree := state.1
  let i2 := min (i + 1) (nSize - 1)
  -- Two identical hashes at the end of the list at a particular level.
  let mutated := if i2 = i + 1 ∧ i2 + 1 = nSize ∧ vMerkleTree[j + i]! = vMerkleTree[j + i2]!
    then true else state.2
  (vMerkleTree ++ [hash vMerkleTree[j + i]! vMerkleTree[j + i2]!], mutated)

/-- The inner loop: `i` takes every second position of the level. -/
def hashLevel (j nSize : ℕ) (state : List Uint256 × Bool) : List Uint256 × Bool :=
  (List.range ((nSize + 1) / 2)).foldl (fun state k => hashPair hash j nSize state (2 * k)) state

/-- The outer loop, at the level of `nSize` nodes that starts at `j`. -/
def hashLevels (j nSize : ℕ) (state : List Uint256 × Bool) : List Uint256 × Bool :=
  if 1 < nSize then hashLevels (j + nSize) ((nSize + 1) / 2) (hashLevel hash j nSize state)
  else state
termination_by nSize
decreasing_by omega

/-- `vMerkleTree`, the root and the flag `fMutated`. -/
def buildMerkleTree (txids : List Uint256) : List Uint256 × Uint256 × Bool :=
  let (vMerkleTree, mutated) := hashLevels hash 0 txids.length (txids, false)
  (vMerkleTree, vMerkleTree.getLastD 0, mutated)

/-- The loop of `GetMerkleBranch`. -/
def branchLoop (vMerkleTree : List Uint256) (j nSize nIndex : ℕ) : List Uint256 :=
  if 1 < nSize then
    vMerkleTree[j + min (nIndex ^^^ 1) (nSize - 1)]! ::
      branchLoop vMerkleTree (j + nSize) ((nSize + 1) / 2) (nIndex / 2)
  else []
termination_by nSize
decreasing_by omega

/-- The block keeps its tree once it is built. -/
def getMerkleBranch (vMerkleTree txids : List Uint256) (nIndex : ℕ) : List Uint256 :=
  let vMerkleTree := if vMerkleTree.isEmpty then (buildMerkleTree hash txids).1 else vMerkleTree
  branchLoop vMerkleTree 0 txids.length nIndex

def checkMerkleBranch (leaf : Uint256) (vMerkleBranch : List Uint256) (nIndex : Int) : Uint256 :=
  if nIndex = -1 then 0
  else
    (vMerkleBranch.foldl (fun (node, nIndex) sibling =>
      (if nIndex % 2 = 1 then hash sibling node else hash node sibling, nIndex / 2))
      (leaf, nIndex)).1

end code

variable {hash : Uint256 → Uint256 → Uint256}

/-- Nodes of a level are read past the levels before it. -/
theorem getElem!_level (before level after : List Uint256) {i : ℕ} (hi : i < level.length) :
    (before ++ level ++ after)[before.length + i]! = level[i]! := by
  simp only [List.getElem!_eq_getElem?_getD]
  rw [List.append_assoc, List.getElem?_append_right (by omega), Nat.add_sub_cancel_left,
    List.getElem?_append_left hi]

/-- The rounds up to the `n`-th one hash the first pairs of the level. -/
theorem hashLevel_rounds (before level : List Uint256) (mutated : Bool) {n : ℕ}
    (hn : n ≤ (level.length + 1) / 2) :
    let state := (List.range n).foldl
      (fun state k => hashPair hash before.length level.length state (2 * k))
      (before ++ level, mutated)
    state.1 = before ++ level ++ (levelUp hash level).take n ∧
      (state.2 = true ↔ mutated = true ∨ EndsTwice level ∧ level.length ≤ 2 * n) := by
  induction n with
  | zero =>
    constructor
    · simp
    · constructor
      · exact Or.inl
      · rintro (hmutated | ⟨⟨n, a, hlength, -, -⟩, hle⟩)
        · exact hmutated
        · omega
  | succ n ih =>
    have hlt : 2 * n < level.length := by omega
    obtain ⟨htree, hflag⟩ := ih (by omega)
    rw [List.range_succ, List.foldl_append]
    generalize (List.range n).foldl
      (fun state k => hashPair hash before.length level.length state (2 * k))
      (before ++ level, mutated) = state at htree hflag
    obtain ⟨a, b, ha, hb, -, hup⟩ := getElem?_levelUp hash level hlt
    have hfirst : state.1[before.length + 2 * n]! = a := by
      rw [htree, getElem!_level _ _ _ hlt, List.getElem!_eq_getElem?_getD, ha]
      rfl
    have hsecond : state.1[before.length + min (2 * n + 1) (level.length - 1)]! = b := by
      rw [htree, getElem!_level _ _ _ (by omega), List.getElem!_eq_getElem?_getD, hb]
      rfl
    dsimp only [List.foldl_cons, List.foldl_nil, hashPair]
    rw [hfirst, hsecond]
    constructor
    · rw [htree, List.take_add_one, hup, List.append_assoc]
      rfl
    · split_ifs with hend
      · obtain ⟨hinside, hlast, hequal⟩ := hend
        rw [hinside] at hb
        simp only [true_iff]
        right
        exact ⟨⟨n, a, by omega, ha, hequal ▸ hb⟩, by omega⟩
      · rw [hflag]
        constructor
        · rintro (hmutated | ⟨htwice, hle⟩)
          · exact Or.inl hmutated
          · exact Or.inr ⟨htwice, by omega⟩
        · rintro (hmutated | ⟨htwice, hle⟩)
          · exact Or.inl hmutated
          · exfalso
            obtain ⟨k, c, hlength, hc, hc'⟩ := htwice
            have hk : k = n := by omega
            have hmin : min (2 * n + 1) (level.length - 1) = 2 * n + 1 := by omega
            rw [hk] at hc hc'
            rw [hmin] at hb
            rw [ha] at hc
            rw [hb] at hc'
            apply hend
            refine ⟨hmin, by omega, ?_⟩
            rw [Option.some.inj hc, Option.some.inj hc']

/-- The inner loop appends the next level, and finds whether the level ends with one node twice. -/
theorem hashLevel_spec (before level : List Uint256) (mutated : Bool) :
    let state := hashLevel hash before.length level.length (before ++ level, mutated)
    state.1 = before ++ level ++ levelUp hash level ∧
      (state.2 = true ↔ mutated = true ∨ EndsTwice level) := by
  obtain ⟨htree, hflag⟩ := @hashLevel_rounds hash before level mutated _ (Nat.le_refl _)
  have hlength := length_levelUp hash level
  constructor
  · rw [List.take_of_length_le (by omega)] at htree
    exact htree
  · rw [show level.length ≤ 2 * ((level.length + 1) / 2) ↔ True from ⟨fun _ => trivial, by omega⟩,
      and_true] at hflag
    exact hflag

/-- The loops build all levels. -/
theorem hashLevels_spec (before level : List Uint256) (mutated : Bool) :
    let state := hashLevels hash before.length level.length (before ++ level, mutated)
    state.1 = before ++ nodes hash level ∧
      (state.2 = true ↔ mutated = true ∨ Mutated hash level) := by
  induction hsize : level.length using Nat.strong_induction_on generalizing before level mutated with
  | h nSize ih =>
    rw [hashLevels]
    by_cases hlarge : 1 < nSize
    · rw [if_pos hlarge]
      obtain ⟨htree, hflag⟩ := @hashLevel_spec hash before level mutated
      rw [hsize] at htree hflag
      generalize hashLevel hash before.length nSize (before ++ level, mutated) = state
        at htree hflag
      have hlength : (levelUp hash level).length = (nSize + 1) / 2 := by
        rw [length_levelUp, hsize]
      have hrest := ih ((nSize + 1) / 2) (by omega) (before ++ level) (levelUp hash level) state.2
        hlength
      rw [List.length_append, hsize, ← htree] at hrest
      rw [nodes_of_large (by omega), mutated_iff, ← or_assoc, ← hflag, ← List.append_assoc]
      exact hrest
    · have hnone : ¬ Mutated hash level := not_mutated_of_small (by omega)
      rw [if_neg hlarge, nodes_of_small (by omega)]
      exact ⟨rfl, by simp [hnone]⟩

theorem buildMerkleTree_tree (txids : List Uint256) :
    (buildMerkleTree hash txids).1 = nodes hash txids :=
  (@hashLevels_spec hash [] txids false).1

theorem buildMerkleTree_root (txids : List Uint256) :
    (buildMerkleTree hash txids).2.1 = (nodes hash txids).getLastD 0 := by
  rw [← buildMerkleTree_tree]
  rfl

theorem buildMerkleTree_mutated (txids : List Uint256) :
    (buildMerkleTree hash txids).2.2 = true ↔ Mutated hash txids := by
  have hflag := (@hashLevels_spec hash [] txids false).2
  rw [show (false = true) ↔ False by simp, false_or] at hflag
  exact hflag

/-- One round of `CheckMerkleBranch`. -/
def branchStep (hash : Uint256 → Uint256 → Uint256) (state : Uint256 × Int) (sibling : Uint256) :
    Uint256 × Int :=
  (if state.2 % 2 = 1 then hash sibling state.1 else hash state.1 sibling, state.2 / 2)

/-- A node and its sibling are hashed in the order of their positions. -/
theorem branchStep_level {level : List Uint256} {nIndex : ℕ} (hindex : nIndex < level.length) :
    branchStep hash (level[nIndex]!, nIndex) level[min (nIndex ^^^ 1) (level.length - 1)]! =
      ((levelUp hash level)[nIndex / 2]!, ((nIndex / 2 : ℕ) : Int)) := by
  obtain ⟨a, b, ha, hb, -, hup⟩ :=
    getElem?_levelUp hash level (by omega : 2 * (nIndex / 2) < level.length)
  have hnode : (levelUp hash level)[nIndex / 2]! = hash a b := by
    rw [List.getElem!_eq_getElem?_getD, hup]
    rfl
  have hnext : (nIndex : Int) / 2 = ((nIndex / 2 : ℕ) : Int) := by omega
  unfold branchStep
  rw [hnode, hnext]
  rcases Nat.even_or_odd nIndex with heven | hodd
  · have hself : 2 * (nIndex / 2) = nIndex := Nat.two_mul_div_two_of_even heven
    rw [hself] at ha hb
    have hbit : ¬ (nIndex : Int) % 2 = 1 := by omega
    rw [Nat.xor_one_of_even heven, if_neg hbit, List.getElem!_eq_getElem?_getD, ha,
      List.getElem!_eq_getElem?_getD, hb]
    rfl
  · have hself : 2 * (nIndex / 2) + 1 = nIndex := Nat.two_mul_div_two_add_one_of_odd hodd
    have hbit : (nIndex : Int) % 2 = 1 := by omega
    have hsibling : min (nIndex ^^^ 1) (level.length - 1) = 2 * (nIndex / 2) := by
      rw [Nat.xor_one_of_odd hodd]
      omega
    have hlast : min (2 * (nIndex / 2) + 1) (level.length - 1) = nIndex := by omega
    rw [hlast] at hb
    rw [hsibling, if_pos hbit, List.getElem!_eq_getElem?_getD, ha,
      List.getElem!_eq_getElem?_getD, hb]
    rfl

/-- The branch of a node leads from the node to the root. -/
theorem branchLoop_spec (before level : List Uint256) {nIndex : ℕ}
    (hindex : nIndex < level.length) :
    ((branchLoop (before ++ nodes hash level) before.length level.length nIndex).foldl
      (branchStep hash) (level[nIndex]!, nIndex)).1 = (nodes hash level).getLastD 0 := by
  induction hsize : level.length using Nat.strong_induction_on
    generalizing before level nIndex with
  | h nSize ih =>
    rw [branchLoop]
    by_cases hlarge : 1 < nSize
    · have hup : (levelUp hash level).length = (nSize + 1) / 2 := by
        rw [length_levelUp, hsize]
      have hrest := @ih ((nSize + 1) / 2) (by omega) (before ++ level) (levelUp hash level)
        (nIndex / 2) (by omega) hup
      have hsibling := getElem!_level before level (nodes hash (levelUp hash level))
        (by omega : min (nIndex ^^^ 1) (nSize - 1) < level.length)
      have hstep := @branchStep_level hash _ _ hindex
      rw [hsize] at hstep
      rw [List.length_append, hsize] at hrest
      rw [if_pos hlarge, nodes_of_large (by omega), ← List.append_assoc, hsibling,
        List.foldl_cons, hstep, hrest]
      have hne : nodes hash (levelUp hash level) ≠ [] := by
        rw [nodes]
        intro hnil
        have hempty := (List.append_eq_nil_iff.mp hnil).1
        rw [hempty] at hup
        simp only [List.length_nil] at hup
        omega
      rw [List.getLastD_eq_getLast?, List.getLastD_eq_getLast?, List.getLast?_append_of_ne_nil _ hne]
    · obtain ⟨a, rfl⟩ : ∃ a, level = [a] := List.length_eq_one_iff.mp (by omega)
      have hzero : nIndex = 0 := by
        rw [List.length_singleton] at hindex
        omega
      rw [if_neg hlarge, nodes_of_small (by simp), hzero]
      rfl

/-- Equal roots of trees that are not mutated are those of equal lists. -/
theorem eq_of_root_eq {xs ys : List Uint256} (hempty : xs = [] ↔ ys = [])
    (hunique : UniquePreimages hash xs) (hleaves : LeavesApart hash xs)
    (hleaves' : LeavesApart hash ys) (hmutated : (buildMerkleTree hash xs).2.2 = false)
    (hmutated' : (buildMerkleTree hash ys).2.2 = false)
    (hroot : (buildMerkleTree hash xs).2.1 = (buildMerkleTree hash ys).2.1) : xs = ys := by
  by_cases hnil : xs = []
  · rw [hnil, hempty.mp hnil]
  · obtain ⟨m, root, hx, hlast⟩ := exists_isRoot (h := hash) hnil
    obtain ⟨n, root', hy, hlast'⟩ := exists_isRoot (h := hash) (mt hempty.mpr hnil)
    rw [buildMerkleTree_root, buildMerkleTree_root, List.getLastD_eq_getLast?,
      List.getLastD_eq_getLast?, hlast, hlast'] at hroot
    have hsame : root = root' := hroot
    rw [← hsame] at hy
    apply hx.leaves_eq hy hunique hleaves hleaves'
    · rw [← buildMerkleTree_mutated, hmutated]
      exact Bool.false_ne_true
    · rw [← buildMerkleTree_mutated, hmutated']
      exact Bool.false_ne_true

theorem checkMerkleBranch_getMerkleBranch {txids vMerkleTree : List Uint256} {nIndex : ℕ}
    (hindex : nIndex < txids.length)
    (hcache : vMerkleTree = [] ∨ vMerkleTree = (buildMerkleTree hash txids).1) :
    checkMerkleBranch hash txids[nIndex]! (getMerkleBranch hash vMerkleTree txids nIndex) nIndex =
      (buildMerkleTree hash txids).2.1 := by
  have htree : (if vMerkleTree.isEmpty then (buildMerkleTree hash txids).1 else vMerkleTree) =
      [] ++ nodes hash txids := by
    rw [List.nil_append, ← buildMerkleTree_tree]
    rcases hcache with hnil | hbuilt
    · rw [hnil]
      rfl
    · rw [hbuilt, ite_self]
  have hbranch := @branchLoop_spec hash [] txids _ hindex
  unfold checkMerkleBranch getMerkleBranch
  rw [if_neg (by omega), buildMerkleTree_root, htree]
  exact hbranch

/-- Roots identify the transactions of a block, and branches lead to the root. A list with no
transaction has the root 0, which may be that of another list. -/
theorem merkleTree_identifies (hash : Uint256 → Uint256 → Uint256) :
    (∀ xs ys, (xs = [] ↔ ys = []) → UniquePreimages hash xs →
      LeavesApart hash xs → LeavesApart hash ys →
      (buildMerkleTree hash xs).2.2 = false → (buildMerkleTree hash ys).2.2 = false →
      (buildMerkleTree hash xs).2.1 = (buildMerkleTree hash ys).2.1 → xs = ys) ∧
    ∀ txids nIndex vMerkleTree, nIndex < txids.length →
      (vMerkleTree = [] ∨ vMerkleTree = (buildMerkleTree hash txids).1) →
      checkMerkleBranch hash txids[nIndex]! (getMerkleBranch hash vMerkleTree txids nIndex)
        nIndex = (buildMerkleTree hash txids).2.1 := by
  constructor
  · intro xs ys hempty hunique hleaves hleaves' hmutated hmutated' hroot
    exact eq_of_root_eq hempty hunique hleaves hleaves' hmutated hmutated' hroot
  · intro txids nIndex vMerkleTree hindex hcache
    exact checkMerkleBranch_getMerkleBranch hindex hcache

/-- One pair has a hash of its own. -/
def pairHash (a b : Uint256) : Uint256 := if a = 1 ∧ b = 2 then 3 else 4

theorem uniquePreimages_pairHash : UniquePreimages pairHash [1, 2] := by
  intro k hlarge p hp a b heq
  cases k with
  | zero =>
    obtain rfl := List.mem_singleton.mp hp
    have hthree : pairHash a b = 3 := heq
    unfold pairHash at hthree
    split_ifs at hthree with hboth
    · rw [hboth.1, hboth.2]
    · contradiction
  | succ k =>
    rw [← level_levelUp] at hlarge
    exact absurd hlarge (level_small (by decide) k)

theorem leavesApart_pairHash {txids : List Uint256} (hthree : 3 ∉ txids) (hfour : 4 ∉ txids) :
    LeavesApart pairHash txids := by
  intro x hx a b heq
  unfold pairHash at heq
  split_ifs at heq
  · exact hthree (heq ▸ hx)
  · exact hfour (heq ▸ hx)

theorem merkleTree_identifies_two : ([1, 2] : List Uint256) = [1, 2] ∧
    checkMerkleBranch pairHash 2 (getMerkleBranch pairHash [] [1, 2] 1) 1 =
      (buildMerkleTree pairHash [1, 2]).2.1 :=
  ⟨(merkleTree_identifies pairHash).1 [1, 2] [1, 2] Iff.rfl uniquePreimages_pairHash
      (leavesApart_pairHash (by decide) (by decide))
      (leavesApart_pairHash (by decide) (by decide)) (by decide +kernel) (by decide +kernel) rfl,
    (merkleTree_identifies pairHash).2 [1, 2] 1 [] (by decide) (Or.inl rfl)⟩

/-- The empty list and that of the one id 0. -/
theorem not_merkleTree_identifies : ¬ ∀ (hash : Uint256 → Uint256 → Uint256) (xs ys),
    UniquePreimages hash xs → UniquePreimages hash ys →
    LeavesApart hash xs → LeavesApart hash ys →
    (buildMerkleTree hash xs).2.2 = false → (buildMerkleTree hash ys).2.2 = false →
    (buildMerkleTree hash xs).2.1 = (buildMerkleTree hash ys).2.1 → xs = ys := by
  intro h
  have heq := h pairHash [] [0] (uniquePreimages_of_small (by decide))
    (uniquePreimages_of_small (by decide)) (leavesApart_pairHash (by decide) (by decide))
    (leavesApart_pairHash (by decide) (by decide)) (by decide +kernel) (by decide +kernel)
    (by decide +kernel)
  contradiction

end CBlock

end Lytix
