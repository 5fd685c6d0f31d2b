import Lytix.Coins.DiskFormat
import Lytix.Primitives.MerkleTree
import Lytix.Validation.CheckBlock

/-! Partial merkle trees: the transaction ids that match, with what is needed to compute the root.
Nodes are visited in depth-first order. A bit says whether a node has a match below it, and the
hashes are those of the nodes where the descent ends. -/
namespace Lytix

open MerkleTrees

structure CPartialMerkleTree where
  nTransactions : ℕ
  vBits : List Bool
  vHash : List Uint256
  fBad : Bool

namespace CPartialMerkleTree

/-- The number of nodes at a height. -/
def calcTreeWidth (nTransactions height : ℕ) : ℕ :=
  (nTransactions + (1 <<< height) - 1) >>> height

theorem calcTreeWidth_eq (nTransactions height : ℕ) :
    calcTreeWidth nTransactions height = width nTransactions height := by
  unfold calcTreeWidth width
  rw [Nat.shiftRight_eq_div_pow, Nat.one_shiftLeft]

/-- The loop that looks for the height of the tree. -/
def calcHeight (nTransactions nHeight : ℕ) : ℕ :=
  if 1 < calcTreeWidth nTransactions nHeight then calcHeight nTransactions (nHeight + 1)
  else nHeight
termination_by calcTreeWidth nTransactions nHeight
decreasing_by
  rename_i hlarge
  rw [calcTreeWidth_eq] at hlarge
  rw [calcTreeWidth_eq, calcTreeWidth_eq]
  exact width_succ_lt hlarge

section build
variable (hash : Uint256 → Uint256 → Uint256) (vTxid : List Uint256)

def calcHash : ℕ → ℕ → Uint256
  | 0, pos => vTxid[pos]!
  | height + 1, pos =>
    let left := calcHash height (pos * 2)
    -- the left hash stands for a right one beyond the end
    let right := if pos * 2 + 1 < calcTreeWidth vTxid.length height then
      calcHash height (pos * 2 + 1) else left
    hash left right

variable (vMatch : List Bool)

/-- The positions of the transactions below a node. -/
def leavesBelow (height pos : ℕ) : List ℕ :=
  (List.range' (pos <<< height) (1 <<< height)).filter fun p => p < vTxid.length

/-- `fParentOfMatch`. -/
def isParentOfMatch (height pos : ℕ) : Bool :=
  (leavesBelow vTxid height pos).any fun p => vMatch[p]!

/-- The bits and the hashes, which the visits append to. -/
def traverseAndBuild : ℕ → ℕ → List Bool × List Uint256 → List Bool × List Uint256
  | 0, pos, (vBits, vHash) =>
    (vBits ++ [isParentOfMatch vTxid vMatch 0 pos], vHash ++ [calcHash hash vTxid 0 pos])
  | height + 1, pos, (vBits, vHash) =>
    let fParentOfMatch := isParentOfMatch vTxid vMatch (height + 1) pos
    let vBits := vBits ++ [fParentOfMatch]
    if fParentOfMatch then
      let left := traverseAndBuild height (pos * 2) (vBits, vHash)
      if pos * 2 + 1 < calcTreeWidth vTxid.length height then
        traverseAndBuild height (pos * 2 + 1) left
      else left
    else (vBits, vHash ++ [calcHash hash vTxid (height + 1) pos])

/-- The constructor for a list of transaction ids and their matches. -/
def ofMatches : CPartialMerkleTree :=
  let (vBits, vHash) :=
    traverseAndBuild hash vTxid vMatch (calcHeight vTxid.length 0) 0 ([], [])
  ⟨vTxid.length, vBits, vHash, false⟩

end build

/-- What a traversal keeps: how many bits and hashes it used, the matches and whether it
failed. -/
structure Extraction where
  nBitsUsed : ℕ
  nHashUsed : ℕ
  vMatch : List Uint256
  fBad : Bool

section extract
variable (hash : Uint256 → Uint256 → Uint256) (tree : CPartialMerkleTree)

/-- The end of a descent: the hash of the node is stored. -/
def takeHash (isLeaf fParentOfMatch : Bool) (state : Extraction) : Uint256 × Extraction :=
  match tree.vHash[state.nHashUsed]? with
  | none => (0, { state with fBad := true })
  | some node =>
    (node, { state with
      nHashUsed := state.nHashUsed + 1
      vMatch := if isLeaf && fParentOfMatch then state.vMatch ++ [node] else state.vMatch })

def traverseAndExtract : ℕ → ℕ → Extraction → Uint256 × Extraction
  | 0, _, state =>
    match tree.vBits[state.nBitsUsed]? with
    | none => (0, { state with fBad := true })
    | some fParentOfMatch =>
      takeHash tree true fParentOfMatch { state with nBitsUsed := state.nBitsUsed + 1 }
  | height + 1, pos, state =>
    match tree.vBits[state.nBitsUsed]? with
    | none => (0, { state with fBad := true })
    | some false => takeHash tree false false { state with nBitsUsed := state.nBitsUsed + 1 }
    | some true =>
      let left := traverseAndExtract height (pos * 2)
        { state with nBitsUsed := state.nBitsUsed + 1 }
      let right := if pos * 2 + 1 < calcTreeWidth tree.nTransactions height then
        traverseAndExtract height (pos * 2 + 1) left.2 else left
      (hash left.1 right.1, right.2)

/-- The root, or 0 in case of failure, and the matches. -/
def extractMatches : Uint256 × List Uint256 :=
  if tree.nTransactions = 0 then (0, [])
  else if MAX_BLOCK_SIZE_CURRENT / 60 < tree.nTransactions then (0, [])
  else if tree.nTransactions < tree.vHash.length then (0, [])
  else if tree.vBits.length < tree.vHash.length then (0, [])
  else
    let (hashMerkleRoot, state) :=
      traverseAndExtract hash tree (calcHeight tree.nTransactions 0) 0 ⟨0, 0, [], tree.fBad⟩
    if state.fBad then (0, state.vMatch)
    else if (state.nBitsUsed + 7) / 8 ≠ (tree.vBits.length + 7) / 8 then (0, state.vMatch)
    else if state.nHashUsed ≠ tree.vHash.length then (0, state.vMatch)
    else (hashMerkleRoot, state.vMatch)

end extract

/-- The flag bits in bytes, the lowest bit first. -/
def writeBits (vBits : List Bool) : List UInt8 :=
  (List.range ((vBits.length + 7) / 8)).map fun b => byteOf fun i => vBits.getD (8 * b + i) false

/-- The tree that is read back from the stream it was written to. -/
def readBack (tree : CPartialMerkleTree) : CPartialMerkleTree :=
  ⟨tree.nTransactions, (writeBits tree.vBits).flatMap bitsOf, tree.vHash, false⟩

/-- The ids that match, in their order. -/
def matched (vTxid : List Uint256) (vMatch : List Bool) : List Uint256 :=
  ((vTxid.zip vMatch).filter Prod.snd).map Prod.fst

section
variable {hash : Uint256 → Uint256 → Uint256} {vTxid : List Uint256} {vMatch : List Bool}

theorem calcHeight_spec (nTransactions nHeight : ℕ)
    (hlarge : ∀ k < nHeight, 1 < width nTransactions k) :
    (∀ k < calcHeight nTransactions nHeight, 1 < width nTransactions k) ∧
      width nTransactions (calcHeight nTransactions nHeight) ≤ 1 := by
  fun_induction calcHeight nTransactions nHeight with
  | case1 nHeight hwidth ih =>
    apply ih
    intro k hk
    rw [calcTreeWidth_eq] at hwidth
    rcases Nat.lt_succ_iff_lt_or_eq.mp hk with hlt | rfl
    · exact hlarge k hlt
    · exact hwidth
  | case2 nHeight hwidth =>
    rw [calcTreeWidth_eq] at hwidth
    exact ⟨hlarge, Nat.not_lt.mp hwidth⟩

/-- A node is inside the tree when its first leaf is. -/
theorem lt_width_iff (n height pos : ℕ) : pos < width n height ↔ pos * 2 ^ height < n := by
  have hpos : 0 < 2 ^ height := Nat.two_pow_pos height
  unfold width
  rw [Nat.lt_iff_add_one_le, Nat.le_div_iff_mul_le hpos, Nat.add_one_mul]
  omega

/-- The children of a node are hashed together. -/
theorem calcHash_succ {height pos : ℕ} (hpos : pos < width vTxid.length (height + 1))
    (hlevel : ∀ pos < width vTxid.length height,
      (level hash vTxid height)[pos]? = some (calcHash hash vTxid height pos)) :
    ∃ right, calcHash hash vTxid (height + 1) pos =
        hash (calcHash hash vTxid height (pos * 2)) right ∧
      right = (if pos * 2 + 1 < calcTreeWidth vTxid.length height then
        calcHash hash vTxid height (pos * 2 + 1) else calcHash hash vTxid height (pos * 2)) ∧
      (calcHash hash vTxid height (pos * 2), right) ∈ pairs (level hash vTxid height) ∧
      (level hash vTxid (height + 1))[pos]? =
        some (hash (calcHash hash vTxid height (pos * 2)) right) := by
  have hwidth := width_succ vTxid.length height
  have hlength := length_level hash vTxid height
  refine ⟨_, rfl, rfl, ?_⟩
  obtain ⟨a, b, ha, hb, hpair, hup⟩ := getElem?_levelUp hash (level hash vTxid height)
    (by omega : 2 * pos < (level hash vTxid height).length)
  have hleft := hlevel (pos * 2) (by omega)
  rw [Nat.mul_comm 2 pos] at ha hb
  rw [ha] at hleft
  have hb' : b = if pos * 2 + 1 < calcTreeWidth vTxid.length height then
      calcHash hash vTxid height (pos * 2 + 1) else calcHash hash vTxid height (pos * 2) := by
    rw [calcTreeWidth_eq]
    by_cases hright : pos * 2 + 1 < width vTxid.length height
    · have hmin : min (pos * 2 + 1) ((level hash vTxid height).length - 1) = pos * 2 + 1 := by
        omega
      rw [hmin, hlevel _ hright] at hb
      rw [if_pos hright, Option.some.inj hb]
    · have hmin : min (pos * 2 + 1) ((level hash vTxid height).length - 1) = pos * 2 := by
        omega
      rw [hmin, ha] at hb
      rw [if_neg hright, ← Option.some.inj hb, Option.some.inj hleft]
  rw [← hb', ← Option.some.inj hleft]
  exact ⟨hpair, hup⟩

/-- The hashes of nodes are those of the levels. -/
theorem calcHash_eq {height pos : ℕ} (hpos : pos < width vTxid.length height) :
    (level hash vTxid height)[pos]? = some (calcHash hash vTxid height pos) := by
  induction height generalizing pos with
  | zero =>
    rw [width_zero] at hpos
    unfold calcHash
    rw [level, List.getElem?_eq_getElem hpos, getElem!_pos vTxid pos hpos]
  | succ height ih =>
    obtain ⟨right, hnode, -, -, hup⟩ := calcHash_succ hpos fun pos hpos => ih hpos
    rw [hup, hnode]

/-- The traversals reach the root of the tree. -/
theorem calcHash_root (hne : vTxid ≠ []) :
    calcHash hash vTxid (calcHeight vTxid.length 0) 0 =
      (CBlock.buildMerkleTree hash vTxid).2.1 := by
  obtain ⟨hlarge, hsmall⟩ := calcHeight_spec vTxid.length 0 fun k hk =>
    absurd hk (Nat.not_lt_zero k)
  obtain ⟨height, root, hroot, hlast⟩ := exists_isRoot (h := hash) hne
  have htop := congrArg List.length hroot.top
  rw [length_level, List.length_singleton] at htop
  have hheight : calcHeight vTxid.length 0 = height := by
    rcases Nat.lt_trichotomy (calcHeight vTxid.length 0) height with hlt | heq | hgt
    · have hbelow := hroot.large _ hlt
      rw [length_level] at hbelow
      omega
    · exact heq
    · have hbelow := hlarge _ hgt
      omega
  have hnode := @calcHash_eq hash vTxid height 0 (by omega)
  rw [hroot.top] at hnode
  rw [CBlock.buildMerkleTree_root, List.getLastD_eq_getLast?, hlast, hheight,
    ← Option.some.inj hnode]
  rfl

theorem leavesBelow_zero {pos : ℕ} (hpos : pos < vTxid.length) :
    leavesBelow vTxid 0 pos = [pos] := by
  unfold leavesBelow
  rw [Nat.shiftLeft_zero, Nat.shiftLeft_zero, List.range'_one]
  exact List.filter_cons_of_pos (by simpa using hpos)

theorem leavesBelow_succ (height pos : ℕ) : leavesBelow vTxid (height + 1) pos =
    leavesBelow vTxid height (pos * 2) ++ leavesBelow vTxid height (pos * 2 + 1) := by
  unfold leavesBelow
  have hstart : (pos * 2 + 1) <<< height = (pos * 2) <<< height + 1 * (1 <<< height) := by
    simp only [Nat.shiftLeft_eq]
    ring
  have hsame : pos <<< (height + 1) = (pos * 2) <<< height := by
    simp only [Nat.shiftLeft_eq]
    ring
  have hcount : 1 <<< (height + 1) = 1 <<< height + 1 <<< height := by
    simp only [Nat.shiftLeft_eq]
    ring
  rw [hsame, hcount, hstart, ← List.filter_append, List.range'_append]

theorem leavesBelow_outside {height pos : ℕ} (hpos : ¬ pos < width vTxid.length height) :
    leavesBelow vTxid height pos = [] := by
  apply List.filter_eq_nil_iff.mpr
  intro p hp
  obtain ⟨i, -, rfl⟩ := List.mem_range'.mp hp
  rw [lt_width_iff] at hpos
  rw [Nat.shiftLeft_eq, decide_eq_true_eq]
  omega

/-- The ids below a node that match. -/
def matchedBelow (vTxid : List Uint256) (vMatch : List Bool) (height pos : ℕ) : List Uint256 :=
  ((leavesBelow vTxid height pos).filter fun p => vMatch[p]!).map fun p => vTxid[p]!

theorem matchedBelow_succ (height pos : ℕ) : matchedBelow vTxid vMatch (height + 1) pos =
    matchedBelow vTxid vMatch height (pos * 2) ++
      matchedBelow vTxid vMatch height (pos * 2 + 1) := by
  unfold matchedBelow
  rw [leavesBelow_succ, List.filter_append, List.map_append]

theorem matchedBelow_outside {height pos : ℕ} (hpos : ¬ pos < width vTxid.length height) :
    matchedBelow vTxid vMatch height pos = [] := by
  unfold matchedBelow
  rw [leavesBelow_outside hpos]
  rfl

theorem matchedBelow_not_parent {height pos : ℕ}
    (hparent : isParentOfMatch vTxid vMatch height pos = false) :
    matchedBelow vTxid vMatch height pos = [] := by
  unfold matchedBelow
  rw [List.map_eq_nil_iff, List.filter_eq_nil_iff]
  intro p hp
  have hnone := List.any_eq_false.mp hparent p hp
  exact hnone

/-- What the visit of a node writes, and that it is read back from anywhere in the streams. -/
structure Visited (hash : Uint256 → Uint256 → Uint256) (vTxid : List Uint256)
    (vMatch : List Bool) (height pos : ℕ) (bits : List Bool) (hashes : List Uint256) : Prop where
  build : ∀ vBits vHash, traverseAndBuild hash vTxid vMatch height pos (vBits, vHash) =
    (vBits ++ bits, vHash ++ hashes)
  le_bits : hashes.length ≤ bits.length
  le_leaves : hashes.length ≤ (leavesBelow vTxid height pos).length
  extract : ∀ (tree : CPartialMerkleTree) bitsBefore bitsAfter hashesBefore hashesAfter vMatch' fBad,
    tree.nTransactions = vTxid.length → tree.vBits = bitsBefore ++ (bits ++ bitsAfter) →
    tree.vHash = hashesBefore ++ (hashes ++ hashesAfter) →
    traverseAndExtract hash tree height pos
        ⟨bitsBefore.length, hashesBefore.length, vMatch', fBad⟩ =
      (calcHash hash vTxid height pos, ⟨bitsBefore.length + bits.length,
        hashesBefore.length + hashes.length,
        vMatch' ++ matchedBelow vTxid vMatch height pos, fBad⟩)

theorem getElem?_middle {α : Type*} {l before after : List α} {a : α}
    (h : l = before ++ ([a] ++ after)) : l[before.length]? = some a := by
  rw [h, List.getElem?_append_right (Nat.le_refl _), Nat.sub_self]
  rfl

theorem visited_leaf {pos : ℕ} (hpos : pos < vTxid.length) :
    Visited hash vTxid vMatch 0 pos [isParentOfMatch vTxid vMatch 0 pos]
      [calcHash hash vTxid 0 pos] where
  build := fun _ _ => rfl
  le_bits := Nat.le_refl _
  le_leaves := by
    rw [leavesBelow_zero hpos]
    exact Nat.le_refl _
  extract := by
    intro tree bitsBefore bitsAfter hashesBefore hashesAfter vMatch' fBad _ hbits hhashes
    have hparent : isParentOfMatch vTxid vMatch 0 pos = vMatch[pos]! := by
      unfold isParentOfMatch
      rw [leavesBelow_zero hpos, List.any_cons, List.any_nil, Bool.or_false]
    have hbelow : matchedBelow vTxid vMatch 0 pos =
        if isParentOfMatch vTxid vMatch 0 pos then [calcHash hash vTxid 0 pos] else [] := by
      unfold matchedBelow calcHash
      rw [leavesBelow_zero hpos, hparent, List.filter_cons]
      cases vMatch[pos]! <;> rfl
    unfold traverseAndExtract
    rw [getElem?_middle hbits, hbelow]
    dsimp only
    unfold takeHash
    rw [getElem?_middle hhashes]
    dsimp only
    cases isParentOfMatch vTxid vMatch 0 pos with
    | true => rfl
    | false => simp

theorem leavesBelow_pos {height pos : ℕ} (hpos : pos < width vTxid.length height) :
    0 < (leavesBelow vTxid height pos).length := by
  apply List.length_pos_of_mem (a := pos * 2 ^ height)
  unfold leavesBelow
  rw [List.mem_filter, List.mem_range', Nat.one_shiftLeft, decide_eq_true_eq]
  refine ⟨⟨0, Nat.two_pow_pos height, ?_⟩, (lt_width_iff _ _ _).mp hpos⟩
  rw [Nat.shiftLeft_eq, Nat.mul_zero, Nat.add_zero]

theorem visited_pruned {height pos : ℕ} (hpos : pos < width vTxid.length (height + 1))
    (hparent : isParentOfMatch vTxid vMatch (height + 1) pos = false) :
    Visited hash vTxid vMatch (height + 1) pos [false]
      [calcHash hash vTxid (height + 1) pos] where
  build := by
    intro vBits vHash
    unfold traverseAndBuild
    rw [hparent]
    rfl
  le_bits := Nat.le_refl _
  le_leaves := leavesBelow_pos hpos
  extract := by
    intro tree bitsBefore bitsAfter hashesBefore hashesAfter vMatch' fBad _ hbits hhashes
    unfold traverseAndExtract
    rw [getElem?_middle hbits, matchedBelow_not_parent hparent, List.append_nil]
    dsimp only
    unfold takeHash
    rw [getElem?_middle hhashes]
    rfl

/-- Both subtrees are visited, the left one first. -/
theorem Visited.both {height pos : ℕ} {bitsLeft bitsRight : List Bool}
    {hashesLeft hashesRight : List Uint256}
    (hright : pos * 2 + 1 < width vTxid.length height)
    (hparent : isParentOfMatch vTxid vMatch (height + 1) pos = true)
    (left : Visited hash vTxid vMatch height (pos * 2) bitsLeft hashesLeft)
    (right : Visited hash vTxid vMatch height (pos * 2 + 1) bitsRight hashesRight) :
    Visited hash vTxid vMatch (height + 1) pos (true :: (bitsLeft ++ bitsRight))
      (hashesLeft ++ hashesRight) where
  build := by
    intro vBits vHash
    unfold traverseAndBuild
    dsimp only
    rw [hparent, if_pos rfl, calcTreeWidth_eq, if_pos hright, left.build, right.build]
    simp
  le_bits := by
    have hleft := left.le_bits
    have hright := right.le_bits
    simp only [List.length_cons, List.length_append]
    omega
  le_leaves := by
    have hleft := left.le_leaves
    have hright := right.le_leaves
    rw [leavesBelow_succ]
    simp only [List.length_append]
    omega
  extract := by
    intro tree bitsBefore bitsAfter hashesBefore hashesAfter vMatch' fBad hcount hbits hhashes
    have hbits' : tree.vBits = (bitsBefore ++ [true]) ++ (bitsLeft ++ (bitsRight ++ bitsAfter)) := by
      rw [hbits]
      simp
    have hhashes' : tree.vHash = hashesBefore ++ (hashesLeft ++ (hashesRight ++ hashesAfter)) := by
      rw [hhashes]
      simp
    have hbits'' : tree.vBits = (bitsBefore ++ [true] ++ bitsLeft) ++ (bitsRight ++ bitsAfter) := by
      rw [hbits']
      simp
    have hhashes'' : tree.vHash = (hashesBefore ++ hashesLeft) ++ (hashesRight ++ hashesAfter) := by
      rw [hhashes']
      simp
    have hfirst : tree.vBits = bitsBefore ++ ([true] ++ (bitsLeft ++ bitsRight ++ bitsAfter)) := hbits
    have hleft := left.extract tree _ _ _ _ vMatch' fBad hcount hbits' hhashes'
    have hright' := right.extract tree _ _ _ _
      (vMatch' ++ matchedBelow vTxid vMatch height (pos * 2)) fBad hcount hbits'' hhashes''
    simp only [List.length_append, List.length_singleton] at hleft hright'
    unfold traverseAndExtract
    rw [getElem?_middle hfirst]
    dsimp only
    rw [hleft, hcount, calcTreeWidth_eq, if_pos hright]
    dsimp only
    rw [hright', matchedBelow_succ, calcHash, calcTreeWidth_eq, if_pos hright]
    simp only [List.length_cons, List.length_append, List.append_assoc, Prod.mk.injEq, true_and,
      Extraction.mk.injEq, and_true]
    omega

/-- The right subtree is beyond the end. -/
theorem Visited.leftOnly {height pos : ℕ} {bits : List Bool} {hashes : List Uint256}
    (hright : ¬ pos * 2 + 1 < width vTxid.length height)
    (hparent : isParentOfMatch vTxid vMatch (height + 1) pos = true)
    (left : Visited hash vTxid vMatch height (pos * 2) bits hashes) :
    Visited hash vTxid vMatch (height + 1) pos (true :: bits) hashes where
  build := by
    intro vBits vHash
    unfold traverseAndBuild
    dsimp only
    rw [hparent, if_pos rfl, calcTreeWidth_eq, if_neg hright, left.build]
    simp
  le_bits := by
    have hleft := left.le_bits
    rw [List.length_cons]
    omega
  le_leaves := by
    have hleft := left.le_leaves
    rw [leavesBelow_succ, leavesBelow_outside hright, List.append_nil]
    exact hleft
  extract := by
    intro tree bitsBefore bitsAfter hashesBefore hashesAfter vMatch' fBad hcount hbits hhashes
    have hbits' : tree.vBits = (bitsBefore ++ [true]) ++ (bits ++ bitsAfter) := by
      rw [hbits]
      simp
    have hfirst : tree.vBits = bitsBefore ++ ([true] ++ (bits ++ bitsAfter)) := hbits
    have hleft := left.extract tree _ _ _ _ vMatch' fBad hcount hbits' hhashes
    simp only [List.length_append, List.length_singleton] at hleft
    unfold traverseAndExtract
    rw [getElem?_middle hfirst]
    dsimp only
    rw [hleft, hcount, calcTreeWidth_eq, if_neg hright]
    dsimp only
    rw [matchedBelow_succ, matchedBelow_outside hright, List.append_nil, calcHash,
      calcTreeWidth_eq, if_neg hright]
    simp only [List.length_cons, Prod.mk.injEq, true_and, Extraction.mk.injEq, and_true]
    omega

theorem exists_visited {height pos : ℕ} (hpos : pos < width vTxid.length height) :
    ∃ bits hashes, Visited hash vTxid vMatch height pos bits hashes := by
  induction height generalizing pos with
  | zero =>
    rw [width_zero] at hpos
    exact ⟨_, _, visited_leaf hpos⟩
  | succ height ih =>
    cases hparent : isParentOfMatch vTxid vMatch (height + 1) pos with
    | false => exact ⟨_, _, visited_pruned hpos hparent⟩
    | true =>
      have hwidth := width_succ vTxid.length height
      obtain ⟨bitsLeft, hashesLeft, left⟩ := @ih (pos * 2) (by omega)
      by_cases hright : pos * 2 + 1 < width vTxid.length height
      · obtain ⟨bitsRight, hashesRight, right⟩ := ih hright
        exact ⟨_, _, left.both hright hparent right⟩
      · exact ⟨_, _, left.leftOnly hright hparent⟩

/-- Bits come back with the padding of their last byte. -/
theorem bits_of_writeBits (vBits : List Bool) : ∃ padding,
    (writeBits vBits).flatMap bitsOf = vBits ++ padding ∧
      ((vBits ++ padding).length + 7) / 8 = (vBits.length + 7) / 8 := by
  have hbytes : ∀ n, ((List.range n).map fun b =>
      byteOf fun i => vBits.getD (8 * b + i) false).flatMap bitsOf =
        (List.range (8 * n)).map fun p => vBits.getD p false := by
    intro n
    induction n with
    | zero => rfl
    | succ n ih =>
      have hlast : (List.range (8 * (n + 1))).map (fun p => vBits.getD p false) =
          (List.range (8 * n)).map (fun p => vBits.getD p false) ++
            (List.range 8).map fun i => vBits.getD (8 * n + i) false := by
        rw [Nat.mul_succ, List.range_add, List.map_append, List.map_map]
        rfl
      rw [List.range_succ, List.map_append, List.flatMap_append, ih, hlast, List.map_singleton,
        List.flatMap_singleton, bitsOf_byteOf]
  refine ⟨List.replicate (8 * ((vBits.length + 7) / 8) - vBits.length) false, ?_, ?_⟩
  · unfold writeBits
    rw [hbytes]
    apply List.ext_getElem?
    intro p
    rw [List.getElem?_map]
    by_cases hp : p < 8 * ((vBits.length + 7) / 8)
    · rw [List.getElem?_range hp, Option.map_some]
      by_cases hin : p < vBits.length
      · rw [List.getElem?_append_left hin, List.getD_eq_getElem?_getD,
          List.getElem?_eq_getElem hin, Option.getD_some]
      · rw [List.getElem?_append_right (by omega), List.getElem?_replicate, if_pos (by omega),
          List.getD_eq_getElem?_getD, List.getElem?_eq_none (by omega), Option.getD_none]
    · rw [List.getElem?_eq_none (by rw [List.length_range]; omega), Option.map_none,
        List.getElem?_eq_none]
      rw [List.length_append, List.length_replicate]
      omega
  · rw [List.length_append, List.length_replicate]
    omega

theorem leavesBelow_root {height : ℕ} (hsmall : width vTxid.length height ≤ 1) :
    leavesBelow vTxid height 0 = List.range vTxid.length := by
  have hcount : vTxid.length ≤ 1 * 2 ^ height :=
    Nat.not_lt.mp (mt (lt_width_iff _ _ _).mpr (by omega))
  obtain ⟨k, hk⟩ := Nat.exists_eq_add_of_le hcount
  have hsplit : List.range' (0 <<< height) (1 <<< height) =
      List.range vTxid.length ++ List.range' vTxid.length k := by
    rw [Nat.zero_shiftLeft, Nat.one_shiftLeft, ← Nat.one_mul (2 ^ height), hk,
      List.range_eq_range']
    have happend := @List.range'_append 0 vTxid.length k 1
    rw [Nat.zero_add, Nat.one_mul] at happend
    exact happend.symm
  unfold leavesBelow
  rw [hsplit, List.filter_append, List.filter_eq_self.mpr, List.filter_eq_nil_iff.mpr,
    List.append_nil]
  · intro p hp
    obtain ⟨i, -, rfl⟩ := List.mem_range'.mp hp
    rw [decide_eq_true_eq]
    omega
  · intro p hp
    exact decide_eq_true (List.mem_range.mp hp)

theorem matchedBelow_root {height : ℕ} (hsmall : width vTxid.length height ≤ 1)
    (hlength : vMatch.length = vTxid.length) :
    matchedBelow vTxid vMatch height 0 = matched vTxid vMatch := by
  have hzip : vTxid.zip vMatch =
      (List.range vTxid.length).map fun p => (vTxid[p]!, vMatch[p]!) := by
    apply List.ext_getElem
    · rw [List.length_zip, List.length_map, List.length_range]
      omega
    · intro p hp _
      rw [List.length_zip] at hp
      rw [List.getElem_zip, List.getElem_map, List.getElem_range,
        getElem!_pos vTxid p (by omega), getElem!_pos vMatch p (by omega)]
  unfold matchedBelow matched
  rw [leavesBelow_root hsmall, hzip, List.filter_map, List.map_map]
  rfl

/-- The tree of a list is read back, whatever pads its bits to whole bytes. -/
theorem extractMatches_ofMatches (hne : vTxid ≠ [])
    (hcount : vTxid.length ≤ MAX_BLOCK_SIZE_CURRENT / 60)
    (hlength : vMatch.length = vTxid.length) (padding : List Bool)
    (hpadding : (((ofMatches hash vTxid vMatch).vBits ++ padding).length + 7) / 8 =
      ((ofMatches hash vTxid vMatch).vBits.length + 7) / 8) :
    extractMatches hash ⟨vTxid.length, (ofMatches hash vTxid vMatch).vBits ++ padding,
        (ofMatches hash vTxid vMatch).vHash, false⟩ =
      ((CBlock.buildMerkleTree hash vTxid).2.1, matched vTxid vMatch) := by
  have hpos := List.length_pos_iff.mpr hne
  obtain ⟨-, hsmall⟩ := calcHeight_spec vTxid.length 0 fun k hk => absurd hk (Nat.not_lt_zero k)
  have hinside : 0 < width vTxid.length (calcHeight vTxid.length 0) := by
    rw [lt_width_iff]
    omega
  obtain ⟨bits, hashes, visited⟩ := @exists_visited hash vTxid vMatch _ _ hinside
  have hbuild : ofMatches hash vTxid vMatch = ⟨vTxid.length, bits, hashes, false⟩ := by
    unfold ofMatches
    rw [visited.build]
    rfl
  have hbits := visited.le_bits
  have hleaves := visited.le_leaves
  rw [leavesBelow_root hsmall, List.length_range] at hleaves
  rw [hbuild] at hpadding ⊢
  dsimp only at hpadding ⊢
  have hextract := visited.extract ⟨vTxid.length, bits ++ padding, hashes, false⟩ [] padding [] []
    [] false rfl rfl (by simp)
  simp only [List.length_nil, Nat.zero_add, List.nil_append] at hextract
  unfold extractMatches
  dsimp only
  rw [if_neg (by omega), if_neg (by omega), if_neg (by omega),
    if_neg (by rw [List.length_append]; omega), hextract]
  dsimp only
  rw [if_neg Bool.false_ne_true, if_neg (not_not_intro hpadding.symm),
    if_neg (not_not_intro rfl), calcHash_root hne, matchedBelow_root hsmall hlength]

theorem fBad_of_takeHash {tree : CPartialMerkleTree} {isLeaf flag : Bool} {state : Extraction}
    (h : (takeHash tree isLeaf flag state).2.fBad = false) : state.fBad = false := by
  unfold takeHash at h
  cases hnode : tree.vHash[state.nHashUsed]? with
  | none =>
    rw [hnode] at h
    contradiction
  | some node =>
    rw [hnode] at h
    exact h

/-- A failure is kept. -/
theorem fBad_of_traverse {tree : CPartialMerkleTree} {height pos : ℕ} {state : Extraction}
    (h : (traverseAndExtract hash tree height pos state).2.fBad = false) :
    state.fBad = false := by
  induction height generalizing pos state with
  | zero =>
    unfold traverseAndExtract at h
    cases hbit : tree.vBits[state.nBitsUsed]? with
    | none =>
      rw [hbit] at h
      contradiction
    | some flag =>
      rw [hbit] at h
      dsimp only at h
      have hstate := fBad_of_takeHash h
      exact hstate
  | succ height ih =>
    unfold traverseAndExtract at h
    cases hbit : tree.vBits[state.nBitsUsed]? with
    | none =>
      rw [hbit] at h
      contradiction
    | some flag =>
      rw [hbit] at h
      cases flag with
      | false =>
        dsimp only at h
        have hstate := fBad_of_takeHash h
        exact hstate
      | true =>
        dsimp only at h
        split_ifs at h with hright
        · have hstate := ih (ih h)
          exact hstate
        · have hstate := ih h
          exact hstate

/-- The hash that ends a descent at a leaf is the only match that is added. -/
theorem mem_takeHash {tree : CPartialMerkleTree} {isLeaf flag : Bool} {state : Extraction}
    (h : (takeHash tree isLeaf flag state).2.fBad = false) {m : Uint256}
    (hm : m ∈ (takeHash tree isLeaf flag state).2.vMatch) :
    m ∈ state.vMatch ∨ isLeaf = true ∧ m = (takeHash tree isLeaf flag state).1 := by
  unfold takeHash at h hm ⊢
  cases hnode : tree.vHash[state.nHashUsed]? with
  | none =>
    rw [hnode] at h
    contradiction
  | some node =>
    rw [hnode] at hm
    dsimp only at hm ⊢
    split_ifs at hm with hleaf
    · rcases List.mem_append.mp hm with hold | hnew
      · exact Or.inl hold
      · rw [Bool.and_eq_true] at hleaf
        exact Or.inr ⟨hleaf.1, List.mem_singleton.mp hnew⟩
    · exact Or.inl hm

/-- A node that has its hash in the tree of the list has only ids of the list as matches. -/
theorem traverse_sound {tree : CPartialMerkleTree} (hcount : tree.nTransactions = vTxid.length)
    (hunique : UniquePreimages hash vTxid) {height pos : ℕ} {state : Extraction}
    (hheight : ∀ k < height, 1 < width vTxid.length k)
    (hpos : pos < width vTxid.length height)
    (hbad : (traverseAndExtract hash tree height pos state).2.fBad = false)
    (hnode : (traverseAndExtract hash tree height pos state).1 =
      calcHash hash vTxid height pos)
    (hstate : ∀ m ∈ state.vMatch, m ∈ vTxid) :
    ∀ m ∈ (traverseAndExtract hash tree height pos state).2.vMatch, m ∈ vTxid := by
  induction height generalizing pos state with
  | zero =>
    intro m hm
    rw [width_zero] at hpos
    unfold traverseAndExtract at hbad hnode hm
    cases hbit : tree.vBits[state.nBitsUsed]? with
    | none =>
      rw [hbit] at hbad
      contradiction
    | some flag =>
      rw [hbit] at hbad hnode hm
      dsimp only at hbad hnode hm
      rcases mem_takeHash hbad hm with hold | ⟨-, hnew⟩
      · exact hstate m hold
      · rw [hnew, hnode, calcHash, getElem!_pos vTxid pos hpos]
        exact List.getElem_mem hpos
  | succ height ih =>
    have hwidth := width_succ vTxid.length height
    have hheight' : ∀ k < height, 1 < width vTxid.length k := fun k hk => hheight k (by omega)
    unfold traverseAndExtract at hbad hnode ⊢
    cases hbit : tree.vBits[state.nBitsUsed]? with
    | none =>
      rw [hbit] at hbad
      contradiction
    | some flag =>
      rw [hbit] at hbad hnode
      cases flag with
      | false =>
        intro m hm
        dsimp only at hbad hm
        rcases mem_takeHash hbad hm with hold | ⟨hleaf, -⟩
        · exact hstate m hold
        · contradiction
      | true =>
        dsimp only at hbad hnode ⊢
        obtain ⟨right, hsucc, hchoice, hpair, -⟩ :=
          @calcHash_succ hash vTxid height pos hpos fun pos hpos => calcHash_eq hpos
        have hlarge : 1 < (level hash vTxid height).length := by
          rw [length_level]
          exact hheight height (Nat.lt_succ_self height)
        rw [hsucc] at hnode
        have hchildren := hunique height hlarge _ hpair _ _ hnode
        obtain ⟨hleft, hright⟩ := Prod.mk.inj hchildren
        rw [hcount, calcTreeWidth_eq] at hbad hright ⊢
        rw [calcTreeWidth_eq] at hchoice
        by_cases hinside : pos * 2 + 1 < width vTxid.length height
        · rw [if_pos hinside] at hbad hright hchoice ⊢
          have hlefts := ih hheight' (by omega) (fBad_of_traverse hbad) hleft hstate
          exact ih hheight' hinside hbad (hright.trans hchoice) hlefts
        · rw [if_neg hinside] at hbad ⊢
          exact ih hheight' (by omega) hbad hleft hstate

/-- An answer other than 0 is that of a traversal without failure. -/
theorem extractMatches_of_ne_zero {tree : CPartialMerkleTree}
    (h : (extractMatches hash tree).1 ≠ 0) :
    ∃ root state, traverseAndExtract hash tree (calcHeight tree.nTransactions 0) 0
        ⟨0, 0, [], tree.fBad⟩ = (root, state) ∧ tree.nTransactions ≠ 0 ∧ state.fBad = false ∧
      extractMatches hash tree = (root, state.vMatch) := by
  unfold extractMatches at h ⊢
  by_cases hzero : tree.nTransactions = 0
  · rw [if_pos hzero] at h
    contradiction
  · rw [if_neg hzero] at h ⊢
    generalize traverseAndExtract hash tree (calcHeight tree.nTransactions 0) 0
      ⟨0, 0, [], tree.fBad⟩ = result at h ⊢
    obtain ⟨root, state⟩ := result
    dsimp only at h ⊢
    split_ifs at h ⊢ with _ _ _ hbad
    · contradiction
    · contradiction
    · contradiction
    · contradiction
    · contradiction
    · contradiction
    · exact ⟨root, state, rfl, hzero, Bool.eq_false_iff.mpr hbad, rfl⟩

/-- Whatever tree has the root of the list, its matches are ids of the list. -/
theorem extractMatches_sound {tree : CPartialMerkleTree}
    (hcount : tree.nTransactions = vTxid.length) (hunique : UniquePreimages hash vTxid)
    (hroot : (CBlock.buildMerkleTree hash vTxid).2.1 ≠ 0)
    (hextract : (extractMatches hash tree).1 = (CBlock.buildMerkleTree hash vTxid).2.1) :
    ∀ m ∈ (extractMatches hash tree).2, m ∈ vTxid := by
  rw [← hextract] at hroot
  obtain ⟨root, state, htraverse, hpositive, hbad, hresult⟩ := extractMatches_of_ne_zero hroot
  rw [hcount] at htraverse hpositive
  have hne : vTxid ≠ [] := by
    intro hnil
    rw [hnil] at hpositive
    contradiction
  obtain ⟨hlarge, -⟩ := calcHeight_spec vTxid.length 0 fun k hk => absurd hk (Nat.not_lt_zero k)
  have hinside : 0 < width vTxid.length (calcHeight vTxid.length 0) := by
    rw [lt_width_iff]
    omega
  rw [hresult] at hextract ⊢
  have hsound := @traverse_sound hash vTxid tree hcount hunique _ 0 ⟨0, 0, [], tree.fBad⟩ hlarge
    hinside
  rw [htraverse, calcHash_root hne] at hsound
  exact hsound hbad hextract fun m hm => absurd hm List.not_mem_nil

end

/-- Trees of lists are read back, also from a stream, and what other trees with the root of a
list match is in the list. The root 0 stands for a failure. -/
theorem partialMerkleTree_sound (hash : Uint256 → Uint256 → Uint256) (vTxid : List Uint256) :
    (∀ vMatch, vTxid ≠ [] → vTxid.length ≤ MAX_BLOCK_SIZE_CURRENT / 60 →
      vMatch.length = vTxid.length →
      extractMatches hash (ofMatches hash vTxid vMatch) =
          ((CBlock.buildMerkleTree hash vTxid).2.1, matched vTxid vMatch) ∧
        extractMatches hash (readBack (ofMatches hash vTxid vMatch)) =
          ((CBlock.buildMerkleTree hash vTxid).2.1, matched vTxid vMatch)) ∧
    ∀ tree : CPartialMerkleTree, tree.nTransactions = vTxid.length →
      UniquePreimages hash vTxid → (CBlock.buildMerkleTree hash vTxid).2.1 ≠ 0 →
      (extractMatches hash tree).1 = (CBlock.buildMerkleTree hash vTxid).2.1 →
      ∀ m ∈ (extractMatches hash tree).2, m ∈ vTxid := by
  constructor
  · intro vMatch hne hcount hlength
    constructor
    · have hextract := @extractMatches_ofMatches hash vTxid vMatch hne hcount hlength []
        (by rw [List.append_nil])
      rw [List.append_nil] at hextract
      exact hextract
    · obtain ⟨padding, hbits, hpadding⟩ := bits_of_writeBits (ofMatches hash vTxid vMatch).vBits
      have hextract := extractMatches_ofMatches hne hcount hlength padding hpadding
      unfold readBack
      rw [hbits]
      exact hextract
  · intro tree hcount hunique hroot hextract
    exact extractMatches_sound hcount hunique hroot hextract

/-- The tree of two ids of which the second one matches, and its bits in whole bytes. -/
theorem partialMerkleTree_sound_two :
    extractMatches CBlock.pairHash (ofMatches CBlock.pairHash [1, 2] [false, true]) = (3, [2]) ∧
    ∀ m ∈ (extractMatches CBlock.pairHash ⟨2, [true, false, true], [1, 2], false⟩).2,
      m ∈ ([1, 2] : List Uint256) :=
  ⟨((partialMerkleTree_sound CBlock.pairHash [1, 2]).1 [false, true] (by decide) (by decide)
      rfl).1.trans (by decide +kernel),
    (partialMerkleTree_sound CBlock.pairHash [1, 2]).2 ⟨2, [true, false, true], [1, 2], false⟩ rfl
      CBlock.uniquePreimages_pairHash (by decide +kernel) (by decide +kernel)⟩

/-- Two bytes of bits are too many for one id, but the id 5 was taken before that is seen. -/
theorem not_partialMerkleTree_sound : ¬ ∀ (hash : Uint256 → Uint256 → Uint256) (vTxid)
    (tree : CPartialMerkleTree), vTxid ≠ [] → vTxid.length ≤ MAX_BLOCK_SIZE_CURRENT / 60 →
    tree.nTransactions = vTxid.length → UniquePreimages hash vTxid →
    (extractMatches hash tree).1 = (CBlock.buildMerkleTree hash vTxid).2.1 →
    ∀ m ∈ (extractMatches hash tree).2, m ∈ vTxid := by
  intro h
  have hmember := h CBlock.pairHash [0] ⟨1, List.replicate 16 true, [5], false⟩ (by decide)
    (by decide) rfl (uniquePreimages_of_small (by decide)) (by decide +kernel) 5
    (by decide +kernel)
  revert hmember
  decide

end CPartialMerkleTree

end Lytix
