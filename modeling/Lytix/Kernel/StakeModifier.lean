import Lytix.Kernel.StakeInput
import Lytix.Lib.Runs

/-! Stake modifiers, as they are computed when a block comes into the index. The first block above
the genesis block gets the address of a string literal as its modifier. -/
namespace Lytix
open Ancestry

/-- What the computation reads of the entry of a block; the two flags are those of `nFlags`. -/
structure ModifierEntry where
  pprev : Option Uint256
  nHeight : Nat
  nTime : UInt32
  proofOfStake : Bool
  generatedStakeModifier : Bool
  nStakeModifier : UInt64
deriving DecidableEq

abbrev ModifierIndex := Uint256 → Option ModifierEntry

namespace ModifierEntry

def getBlockTime (entry : ModifierEntry) : Int := entry.nTime.toNat

end ModifierEntry

/-- `GetHash().Get64() & 1`. -/
def getStakeEntropyBit (hash : Uint256) : UInt64 := UInt64.ofNat (hash.toNat % 2)

namespace ModifierIndex

variable (index : ModifierIndex)

def parent (pindex : Uint256) : Option Uint256 := (index pindex).bind ModifierEntry.pprev

/-- The loop of `GetLastStakeModifier`, over at most `n` predecessors. -/
def getLastStakeModifier : ℕ → Uint256 → Option ModifierEntry
  | 0, pindex => (index pindex).filter ModifierEntry.generatedStakeModifier
  | n + 1, pindex =>
    match index pindex with
    | none => none
    | some entry =>
      if entry.generatedStakeModifier then some entry
      else entry.pprev.bind (getLastStakeModifier n)

/-- The candidates from a block backwards, over at most `n` predecessors. -/
def candidates (nSelectionIntervalStart : Int) : ℕ → Uint256 → List (Int × Uint256)
  | 0, pindex =>
    match index pindex with
    | none => []
    | some entry =>
      if nSelectionIntervalStart ≤ entry.getBlockTime then [(entry.getBlockTime, pindex)] else []
  | n + 1, pindex =>
    match index pindex with
    | none => []
    | some entry =>
      if nSelectionIntervalStart ≤ entry.getBlockTime then
        (entry.getBlockTime, pindex) :: (match entry.pprev with
          | none => []
          | some pprev => candidates nSelectionIntervalStart n pprev)
      else []

/-- The order of `pair<int64_t, uint256>`. -/
def sortByTimestamp (items : List (Int × Uint256)) : List (Int × Uint256) :=
  items.insertionSort fun a b => a.1 < b.1 ∨ a.1 = b.1 ∧ a.2 ≤ b.2

section select
variable (env : KernelEnv)

/-- The selection hash of a block. Proof-of-stake blocks are favored. -/
def hashSelection (nStakeModifierPrev : UInt64) (pindex : Uint256) (entry : ModifierEntry) :
    Uint256 :=
  let hash := env.hash (leBytes 32 pindex.toNat ++ leBytes 8 nStakeModifierPrev.toNat)
  if entry.proofOfStake then hash >>> 32 else hash

/-- The loop of `SelectBlockFromCandidates`, with the best hash and its block so far. `none`: a
candidate is not in the index. -/
def selectBlock (mapSelectedBlocks : List Uint256) (nSelectionIntervalStop : Int)
    (nStakeModifierPrev : UInt64) :
    Option (Uint256 × Uint256) → List (Int × Uint256) → Option (Option (Uint256 × Uint256))
  | best, [] => some best
  | best, item :: rest =>
    match index item.2 with
    | none => none
    | some entry =>
      if best.isSome ∧ nSelectionIntervalStop < entry.getBlockTime then some best
      else if item.2 ∈ mapSelectedBlocks then
        selectBlock mapSelectedBlocks nSelectionIntervalStop nStakeModifierPrev best rest
      else
        let hash := hashSelection env nStakeModifierPrev item.2 entry
        let better := match best with
          | none => true
          | some (hashBest, _) => decide (hash < hashBest)
        selectBlock mapSelectedBlocks nSelectionIntervalStop nStakeModifierPrev
          (if better then some (hash, item.2) else best) rest

/-- `SelectBlockFromCandidates`; `none` where it fails. -/
def selectBlockFromCandidates (vSortedByTimestamp : List (Int × Uint256))
    (mapSelectedBlocks : List Uint256) (nSelectionIntervalStop : Int)
    (nStakeModifierPrev : UInt64) : Option Uint256 :=
  ((selectBlock index env mapSelectedBlocks nSelectionIntervalStop nStakeModifierPrev none
    vSortedByTimestamp).bind id).map Prod.snd

/-- The rounds that select blocks, each of which gives a bit of the new modifier. -/
def selectRounds (vSortedByTimestamp : List (Int × Uint256)) (nStakeModifier : UInt64) :
    List ℕ → Int → UInt64 → List Uint256 → Option UInt64
  | [], _, nStakeModifierNew, _ => some nStakeModifierNew
  | nRound :: rounds, nSelectionIntervalStop, nStakeModifierNew, mapSelectedBlocks =>
    let nSelectionIntervalStop :=
      nSelectionIntervalStop + getStakeModifierSelectionIntervalSection nRound
    match selectBlockFromCandidates index env vSortedByTimestamp mapSelectedBlocks
        nSelectionIntervalStop nStakeModifier with
    | none => none
    | some pindex =>
      selectRounds vSortedByTimestamp nStakeModifier rounds nSelectionIntervalStop
        (nStakeModifierNew ||| getStakeEntropyBit pindex <<< UInt64.ofNat nRound)
        (pindex :: mapSelectedBlocks)

/-- A new modifier on top of a block, from up to 64 of the candidates. -/
def selectModifier (pindexPrev : Uint256) (entry : ModifierEntry) (nStakeModifier : UInt64) :
    Option UInt64 :=
  let nSelectionIntervalStart := entry.getBlockTime / MODIFIER_INTERVAL * MODIFIER_INTERVAL -
    getStakeModifierSelectionInterval
  let vSortedByTimestamp := sortByTimestamp
    (candidates index nSelectionIntervalStart entry.nHeight pindexPrev).reverse
  selectRounds index env vSortedByTimestamp nStakeModifier
    (List.range (min 64 vSortedByTimestamp.length)) nSelectionIntervalStart 0 []

/-- `ComputeNextStakeModifier`: whether it succeeds, the modifier, and whether it is a new one.
`literal` is the address of the literal `"stakemodifier"`. -/
def computeNextStakeModifier (literal : UInt64) :
    Option Uint256 → Bool × UInt64 × Bool
  | none => (true, 0, true)
  | some pindexPrev =>
    match index pindexPrev with
    -- a pointer leads to an entry
    | none => (false, 0, false)
    | some entry =>
      if entry.nHeight = 0 then (true, literal, true)
      else
        match getLastStakeModifier index entry.nHeight pindexPrev with
        | none => (false, 0, false)
        | some last =>
          if entry.getBlockTime / MODIFIER_INTERVAL ≤ last.getBlockTime / MODIFIER_INTERVAL then
            (true, last.nStakeModifier, false)
          else
            match selectModifier index env pindexPrev entry last.nStakeModifier with
            | none => (false, last.nStakeModifier, false)
            | some nStakeModifierNew => (true, nStakeModifierNew, true)

end select
end ModifierIndex

/-- The block index of a process, and where its string literal is loaded. -/
structure ModifierNode where
  literal : UInt64
  mapBlockIndex : ModifierIndex := fun _ => none

namespace ModifierNode

variable (env : KernelEnv) (node : ModifierNode)

/-- The new entry of `AddToBlockIndex`. No block is its own predecessor. -/
def newEntry (block : CBlock) : ModifierEntry :=
  match node.mapBlockIndex block.hashPrevBlock with
  | none => ⟨none, 0, block.nTime, block.isProofOfStake, false, 0⟩
  | some pprev =>
    let next := ModifierIndex.computeNextStakeModifier node.mapBlockIndex env node.literal
      (some block.hashPrevBlock)
    ⟨some block.hashPrevBlock, pprev.nHeight + 1, block.nTime, block.isProofOfStake, next.2.2,
      next.2.1⟩

def addToBlockIndex (block : CBlock) : ModifierNode :=
  if (node.mapBlockIndex block.hash).isSome then node
  else { node with
    mapBlockIndex := Function.update node.mapBlockIndex block.hash (some (node.newEntry env block)) }

def stakeModifier (hash : Uint256) : Option UInt64 :=
  (node.mapBlockIndex hash).map ModifierEntry.nStakeModifier

end ModifierNode

/-- The index has the blocks of a chain, the newest first and the genesis block last. -/
def ModifierIndex.Holds (index : ModifierIndex) : List CBlock → Prop
  | [] => False
  | [genesis] => ∃ entry, index genesis.hash = some entry ∧ entry.pprev = none ∧
      entry.nTime = genesis.nTime ∧ entry.proofOfStake = genesis.isProofOfStake
  | block :: prev :: chain => (∃ entry, index block.hash = some entry ∧
      entry.pprev = some prev.hash ∧ entry.nTime = block.nTime ∧
      entry.proofOfStake = block.isProofOfStake) ∧ Holds index (prev :: chain)

namespace ModifierIndex

section congr
variable {index index' : ModifierIndex} {env : KernelEnv} {literal : UInt64}
  {nSelectionIntervalStart nSelectionIntervalStop : Int} {nStakeModifier : UInt64}
  {pindex : Uint256} {entry : ModifierEntry} {items : List (Int × Uint256)}

theorem parent_eq (hentry : index pindex = some entry) : index.parent pindex = entry.pprev := by
  rw [parent, hentry]
  rfl

/-- The ancestors of the predecessor of a block are ancestors of the block. -/
theorem ancestor_of_pprev {pprev a : Uint256} (hentry : index pindex = some entry)
    (hpprev : entry.pprev = some pprev) (ha : IsAncestor index.parent a pprev) :
    IsAncestor index.parent a pindex := by
  have hup : index.parent pindex = some pprev := (parent_eq hentry).trans hpprev
  exact ha.trans (IsAncestor.of_parent hup)

theorem getLastStakeModifier_congr {n : ℕ}
    (h : ∀ a, IsAncestor index.parent a pindex → index' a = index a) :
    getLastStakeModifier index' n pindex = getLastStakeModifier index n pindex := by
  induction n generalizing pindex with
  | zero => rw [getLastStakeModifier, getLastStakeModifier, h pindex (IsAncestor.refl _ _)]
  | succ n ih =>
    rw [getLastStakeModifier, getLastStakeModifier, h pindex (IsAncestor.refl _ _)]
    cases hentry : index pindex with
    | none => rfl
    | some entry =>
      dsimp only
      cases hpprev : entry.pprev with
      | none => rfl
      | some pprev =>
        have hrest : getLastStakeModifier index' n pprev = getLastStakeModifier index n pprev :=
          ih fun a ha => h a (ancestor_of_pprev hentry hpprev ha)
        rw [Option.bind_some, Option.bind_some, hrest]

theorem candidates_congr {n : ℕ}
    (h : ∀ a, IsAncestor index.parent a pindex → index' a = index a) :
    candidates index' nSelectionIntervalStart n pindex =
      candidates index nSelectionIntervalStart n pindex := by
  induction n generalizing pindex with
  | zero => rw [candidates, candidates, h pindex (IsAncestor.refl _ _)]
  | succ n ih =>
    rw [candidates, candidates, h pindex (IsAncestor.refl _ _)]
    cases hentry : index pindex with
    | none => rfl
    | some entry =>
      dsimp only
      cases hpprev : entry.pprev with
      | none => rfl
      | some pprev =>
        dsimp only
        rw [ih fun a ha => h a (ancestor_of_pprev hentry hpprev ha)]

theorem ancestor_of_mem_candidates {n : ℕ} {item : Int × Uint256}
    (h : item ∈ candidates index nSelectionIntervalStart n pindex) :
    IsAncestor index.parent item.2 pindex := by
  induction n generalizing pindex with
  | zero =>
    rw [candidates] at h
    split at h
    · contradiction
    · split_ifs at h
      · rw [List.mem_singleton.mp h]
        exact IsAncestor.refl _ _
      · contradiction
  | succ n ih =>
    rw [candidates] at h
    split at h
    · contradiction
    · rename_i entry hentry
      split_ifs at h
      · rcases List.mem_cons.mp h with rfl | hrest
        · exact IsAncestor.refl _ _
        · split at hrest
          · contradiction
          · rename_i pprev hpprev
            exact ancestor_of_pprev hentry hpprev (ih hrest)
      · contradiction

theorem selectBlock_congr {mapSelectedBlocks : List Uint256} {best : Option (Uint256 × Uint256)}
    (h : ∀ item ∈ items, index' item.2 = index item.2) :
    selectBlock index' env mapSelectedBlocks nSelectionIntervalStop nStakeModifier best items =
      selectBlock index env mapSelectedBlocks nSelectionIntervalStop nStakeModifier best items := by
  induction items generalizing best with
  | nil => rfl
  | cons item rest ih =>
    have hrest : ∀ item ∈ rest, index' item.2 = index item.2 := by
      intro item hitem
      exact h item (List.mem_cons_of_mem _ hitem)
    rw [selectBlock, selectBlock, h item List.mem_cons_self]
    split
    · rfl
    · split_ifs
      · rfl
      · exact ih hrest
      · exact ih hrest

theorem selectRounds_congr {rounds : List ℕ} {nStakeModifierNew : UInt64}
    {mapSelectedBlocks : List Uint256} (h : ∀ item ∈ items, index' item.2 = index item.2) :
    selectRounds index' env items nStakeModifier rounds nSelectionIntervalStop nStakeModifierNew
        mapSelectedBlocks =
      selectRounds index env items nStakeModifier rounds nSelectionIntervalStop nStakeModifierNew
        mapSelectedBlocks := by
  induction rounds generalizing nSelectionIntervalStop nStakeModifierNew mapSelectedBlocks with
  | nil => rfl
  | cons nRound rounds ih =>
    rw [selectRounds, selectRounds]
    dsimp only [selectBlockFromCandidates]
    rw [selectBlock_congr h]
    split
    · rfl
    · exact ih

theorem selectModifier_congr
    (h : ∀ a, IsAncestor index.parent a pindex → index' a = index a) :
    selectModifier index' env pindex entry nStakeModifier =
      selectModifier index env pindex entry nStakeModifier := by
  dsimp only [selectModifier]
  rw [candidates_congr h]
  apply selectRounds_congr
  intro item hitem
  have hmem := (List.mem_insertionSort _).mp hitem
  exact h item.2 (ancestor_of_mem_candidates (List.mem_reverse.mp hmem))

/-- The modifier on top of a block depends on the entries of the block and its ancestors. -/
theorem computeNextStakeModifier_congr
    (h : ∀ a, IsAncestor index.parent a pindex → index' a = index a) :
    computeNextStakeModifier index' env literal (some pindex) =
      computeNextStakeModifier index env literal (some pindex) := by
  rw [computeNextStakeModifier, computeNextStakeModifier, h pindex (IsAncestor.refl _ _)]
  cases index pindex with
  | none => rfl
  | some entry => simp only [getLastStakeModifier_congr h, selectModifier_congr h]

end congr

/-- Every entry is the one that `AddToBlockIndex` made of its block. -/
structure EntryComputed (index : ModifierIndex) (env : KernelEnv) (literal : UInt64)
    (entry : ModifierEntry) : Prop where
  root : entry.pprev = none →
    entry.nHeight = 0 ∧ entry.generatedStakeModifier = false ∧ entry.nStakeModifier = 0
  next : ∀ pprev, entry.pprev = some pprev → ∃ prev, index pprev = some prev ∧
    entry.nHeight = prev.nHeight + 1 ∧ (entry.nStakeModifier, entry.generatedStakeModifier) =
      (computeNextStakeModifier index env literal (some pprev)).2

def Computed (index : ModifierIndex) (env : KernelEnv) (literal : UInt64) : Prop :=
  ∀ hash entry, index hash = some entry → EntryComputed index env literal entry

variable {index index₁ index₂ : ModifierIndex} {env : KernelEnv} {literal : UInt64}
  {chain : List CBlock}

theorem Computed.isSome_of_ancestor (computed : Computed index env literal) {a pindex : Uint256}
    (hpindex : (index pindex).isSome) (ha : IsAncestor index.parent a pindex) :
    (index a).isSome := by
  induction ha with
  | refl => exact hpindex
  | tail _ hup ih =>
    obtain ⟨entry, hentry⟩ := Option.isSome_iff_exists.mp ih
    have hpprev : entry.pprev = some _ := (parent_eq hentry).symm.trans hup
    obtain ⟨prev, hprev, -⟩ := (computed _ entry hentry).next _ hpprev
    rw [hprev]
    rfl

/-- A new entry changes nothing that the entries before it were computed of. -/
theorem Computed.agree_update (computed : Computed index env literal) {hash pindex : Uint256}
    {entry : ModifierEntry} (hnew : index hash = none) (hpindex : (index pindex).isSome)
    (a : Uint256) (ha : IsAncestor index.parent a pindex) :
    Function.update index hash (some entry) a = index a := by
  have hne : a ≠ hash := by
    intro heq
    have hsome := computed.isSome_of_ancestor hpindex ha
    rw [heq, hnew] at hsome
    contradiction
  exact Function.update_of_ne hne _ _

theorem EntryComputed.update (computed : Computed index env literal) {hash : Uint256}
    {entry entry' : ModifierEntry} (hnew : index hash = none)
    (hentry : EntryComputed index env literal entry) :
    EntryComputed (Function.update index hash (some entry')) env literal entry := by
  constructor
  case root => exact hentry.root
  case next =>
    intro pprev hpprev
    obtain ⟨prev, hprev, hheight, hmodifier⟩ := hentry.next pprev hpprev
    have hsome : (index pprev).isSome := by
      rw [hprev]
      rfl
    have hagree : ∀ a, IsAncestor index.parent a pprev →
        Function.update index hash (some entry') a = index a := computed.agree_update hnew hsome
    refine ⟨prev, ?_, hheight, ?_⟩
    · rw [hagree pprev (IsAncestor.refl _ _), hprev]
    · rw [hmodifier, computeNextStakeModifier_congr hagree]

theorem computed_empty : Computed (fun _ => none) env literal := by
  intro hash entry hentry
  contradiction

/-- The predecessor of a block of the chain is a block of the chain. -/
theorem Holds.parent_mem (holds : index.Holds chain) {block : CBlock} (hblock : block ∈ chain)
    {pprev : Uint256} (hparent : index.parent block.hash = some pprev) :
    ∃ prev ∈ chain, prev.hash = pprev := by
  induction chain with
  | nil => contradiction
  | cons newest older ih =>
    cases older with
    | nil =>
      obtain ⟨entry, hentry, hroot, -⟩ := holds
      rw [List.mem_singleton.mp hblock, parent_eq hentry, hroot] at hparent
      contradiction
    | cons prev older =>
      rcases List.mem_cons.mp hblock with rfl | hold
      · obtain ⟨entry, hentry, hprev, -⟩ := holds.1
        have heq : prev.hash = pprev := by
          rw [parent_eq hentry, hprev] at hparent
          exact Option.some.inj hparent
        exact ⟨prev, List.mem_cons_of_mem _ List.mem_cons_self, heq⟩
      · obtain ⟨found, hfound, heq⟩ := ih holds.2 hold
        exact ⟨found, List.mem_cons_of_mem _ hfound, heq⟩

theorem Holds.ancestor_mem (holds : index.Holds chain) {block : CBlock} (hblock : block ∈ chain)
    {a : Uint256} (ha : IsAncestor index.parent a block.hash) : ∃ b ∈ chain, b.hash = a := by
  induction ha with
  | refl => exact ⟨block, hblock, rfl⟩
  | tail _ hup ih =>
    obtain ⟨found, hfound, heq⟩ := ih
    rw [← heq] at hup
    exact holds.parent_mem hfound hup

/-- What a chain and the computation determine of the entry of a block. -/
theorem EntryComputed.unique {entry₁ entry₂ : ModifierEntry} {block : CBlock}
    {pprev : Option Uint256}
    (computed₁ : EntryComputed index₁ env literal entry₁)
    (computed₂ : EntryComputed index₂ env literal entry₂)
    (hprev₁ : entry₁.pprev = pprev) (hprev₂ : entry₂.pprev = pprev)
    (htime₁ : entry₁.nTime = block.nTime) (htime₂ : entry₂.nTime = block.nTime)
    (hstake₁ : entry₁.proofOfStake = block.isProofOfStake)
    (hstake₂ : entry₂.proofOfStake = block.isProofOfStake)
    (hagree : ∀ prev, pprev = some prev → ∀ a, IsAncestor index₁.parent a prev →
      index₂ a = index₁ a) : entry₁ = entry₂ := by
  cases entry₁ with
  | mk pprev₁ height₁ time₁ stake₁ generated₁ modifier₁ =>
    cases entry₂ with
    | mk pprev₂ height₂ time₂ stake₂ generated₂ modifier₂ =>
      dsimp only at hprev₁ hprev₂ htime₁ htime₂ hstake₁ hstake₂
      subst hprev₁ hprev₂ htime₁ htime₂ hstake₁ hstake₂
      cases pprev₂ with
      | none =>
        obtain ⟨hheight₁, hgenerated₁, hmodifier₁⟩ := computed₁.root rfl
        obtain ⟨hheight₂, hgenerated₂, hmodifier₂⟩ := computed₂.root rfl
        dsimp only at *
        subst_vars
        rfl
      | some prev =>
        obtain ⟨entry₁, hentry₁, hheight₁, hnext₁⟩ := computed₁.next prev rfl
        obtain ⟨entry₂, hentry₂, hheight₂, hnext₂⟩ := computed₂.next prev rfl
        have hprev : index₂ prev = index₁ prev := hagree prev rfl prev (IsAncestor.refl _ _)
        have hsame : entry₂ = entry₁ := by
          rw [hentry₁, hentry₂] at hprev
          exact Option.some.inj hprev
        rw [computeNextStakeModifier_congr (hagree prev rfl), ← hnext₁] at hnext₂
        dsimp only at *
        obtain ⟨hmodifier, hgenerated⟩ := Prod.mk.inj hnext₂
        subst_vars
        rfl

/-- Two computations from one literal give the blocks of a chain the same entries. -/
theorem Computed.entry_eq (computed₁ : Computed index₁ env literal)
    (computed₂ : Computed index₂ env literal) (holds₁ : index₁.Holds chain)
    (holds₂ : index₂.Holds chain) {block : CBlock} (hblock : block ∈ chain) :
    index₂ block.hash = index₁ block.hash := by
  induction chain generalizing block with
  | nil => contradiction
  | cons newest older ih =>
    cases older with
    | nil =>
      obtain ⟨entry₁, hentry₁, hprev₁, htime₁, hstake₁⟩ := holds₁
      obtain ⟨entry₂, hentry₂, hprev₂, htime₂, hstake₂⟩ := holds₂
      rw [List.mem_singleton.mp hblock, hentry₁, hentry₂]
      apply congrArg some
      apply EntryComputed.unique (computed₂ _ _ hentry₂) (computed₁ _ _ hentry₁) hprev₂ hprev₁
        htime₂ htime₁ hstake₂ hstake₁
      intro prev hprev
      contradiction
    | cons prev older =>
      have hold : ∀ b ∈ prev :: older, index₂ b.hash = index₁ b.hash := by
        intro b hb
        exact ih holds₁.2 holds₂.2 hb
      rcases List.mem_cons.mp hblock with rfl | hmem
      · obtain ⟨entry₁, hentry₁, hprev₁, htime₁, hstake₁⟩ := holds₁.1
        obtain ⟨entry₂, hentry₂, hprev₂, htime₂, hstake₂⟩ := holds₂.1
        rw [hentry₁, hentry₂]
        apply congrArg some
        symm
        apply EntryComputed.unique (computed₁ _ _ hentry₁) (computed₂ _ _ hentry₂) hprev₁ hprev₂
          htime₁ htime₂ hstake₁ hstake₂
        intro hash hhash a ha
        rw [← Option.some.inj hhash] at ha
        obtain ⟨b, hb, rfl⟩ := holds₁.2.ancestor_mem List.mem_cons_self ha
        exact hold b hb
      · exact hold block hmem

/-- The block above the genesis block gets the address of the literal. -/
theorem exists_literal (hlength : 2 ≤ chain.length) : ∃ block ∈ chain,
    ∀ (index : ModifierIndex) (literal : UInt64), Computed index env literal →
      index.Holds chain → (index block.hash).map ModifierEntry.nStakeModifier = some literal := by
  induction chain with
  | nil => contradiction
  | cons newest older ih =>
    match older with
    | [] => contradiction
    | [genesis] =>
      refine ⟨newest, List.mem_cons_self, ?_⟩
      intro index literal computed holds
      obtain ⟨⟨entry, hentry, hpprev, -⟩, root, hroot, hnone, -⟩ := holds
      obtain ⟨prev, hprev, -, hmodifier⟩ := (computed _ entry hentry).next _ hpprev
      have hsame : prev = root := Option.some.inj (hprev.symm.trans hroot)
      have hheight : root.nHeight = 0 := ((computed _ root hroot).root hnone).1
      rw [computeNextStakeModifier, hprev, hsame] at hmodifier
      dsimp only at hmodifier
      rw [if_pos hheight] at hmodifier
      rw [hentry, Option.map_some, (Prod.mk.inj hmodifier).1]
    | prev :: first :: older =>
      have hrest : 2 ≤ (prev :: first :: older).length := by
        simp only [List.length_cons]
        omega
      obtain ⟨block, hblock, h⟩ := ih hrest
      refine ⟨block, List.mem_cons_of_mem _ hblock, ?_⟩
      intro index literal computed holds
      exact h index literal computed holds.2

end ModifierIndex

namespace ModifierNode
open ModifierIndex

variable {env : KernelEnv} {node : ModifierNode}

theorem newEntry_computed (computed : Computed node.mapBlockIndex env node.literal)
    {block : CBlock} (hnew : node.mapBlockIndex block.hash = none) :
    EntryComputed (Function.update node.mapBlockIndex block.hash (some (node.newEntry env block)))
      env node.literal (node.newEntry env block) := by
  cases hprev : node.mapBlockIndex block.hashPrevBlock with
  | none =>
    simp only [newEntry, hprev]
    constructor
    case root =>
      intro _
      exact ⟨rfl, rfl, rfl⟩
    case next =>
      intro pprev hpprev
      contradiction
  | some prev =>
    have hsome : (node.mapBlockIndex block.hashPrevBlock).isSome := by
      rw [hprev]
      rfl
    have hagree : ∀ a, IsAncestor node.mapBlockIndex.parent a block.hashPrevBlock →
        Function.update node.mapBlockIndex block.hash (some (node.newEntry env block)) a =
          node.mapBlockIndex a := computed.agree_update hnew hsome
    constructor
    case root =>
      intro hnone
      simp only [newEntry, hprev] at hnone
      contradiction
    case next =>
      intro pprev hpprev
      have heq : block.hashPrevBlock = pprev := by
        simp only [newEntry, hprev] at hpprev
        exact Option.some.inj hpprev
      rw [← heq]
      refine ⟨prev, ?_, ?_, ?_⟩
      · rw [hagree _ (IsAncestor.refl _ _), hprev]
      · simp only [newEntry, hprev]
      · rw [computeNextStakeModifier_congr hagree]
        simp only [newEntry, hprev]

theorem computed_addToBlockIndex (block : CBlock)
    (computed : Computed node.mapBlockIndex env node.literal) :
    Computed (node.addToBlockIndex env block).mapBlockIndex env node.literal := by
  unfold addToBlockIndex
  split_ifs with hseen
  · exact computed
  · have hnew : node.mapBlockIndex block.hash = none := Option.not_isSome_iff_eq_none.mp hseen
    intro hash entry hentry
    dsimp only at hentry ⊢
    by_cases heq : hash = block.hash
    · rw [heq, Function.update_self] at hentry
      rw [← Option.some.inj hentry]
      exact newEntry_computed computed hnew
    · rw [Function.update_of_ne heq] at hentry
      exact (computed hash entry hentry).update computed hnew

@[simp] theorem addToBlockIndex_literal (block : CBlock) :
    (node.addToBlockIndex env block).literal = node.literal := by
  unfold addToBlockIndex
  split_ifs <;> rfl

/-- The index of a process after it received blocks, in any order and with any others. -/
def received (env : KernelEnv) (literal : UInt64) (blocks : List CBlock) : ModifierNode :=
  Runs.run (addToBlockIndex env) ⟨literal, fun _ => none⟩ blocks

/-- The invariant of a process: its literal never moves. -/
def ComputedFrom (env : KernelEnv) (literal : UInt64) (node : ModifierNode) : Prop :=
  node.literal = literal ∧ Computed node.mapBlockIndex env literal

theorem computed_received (literal : UInt64) (blocks : List CBlock) :
    Computed (received env literal blocks).mapBlockIndex env literal := by
  have hstart : ComputedFrom env literal ⟨literal, fun _ => none⟩ := ⟨rfl, computed_empty⟩
  have hrun : ComputedFrom env literal (received env literal blocks) := by
    apply Runs.run_invariant hstart
    intro node block h
    constructor
    · rw [addToBlockIndex_literal]
      exact h.1
    · rw [← h.1]
      apply computed_addToBlockIndex
      rw [h.1]
      exact h.2
  exact hrun.2

end ModifierNode

open ModifierIndex ModifierNode in
/-- Two processes that hold one chain agree on the modifiers of its blocks exactly if their
literal `"stakemodifier"` has one address, or the chain ends with the genesis block. -/
theorem stakeModifiers_agree_iff (env : KernelEnv) (literal₁ literal₂ : UInt64)
    (received₁ received₂ chain : List CBlock)
    (holds₁ : (received env literal₁ received₁).mapBlockIndex.Holds chain)
    (holds₂ : (received env literal₂ received₂).mapBlockIndex.Holds chain) :
    (∀ block ∈ chain, (received env literal₁ received₁).stakeModifier block.hash =
      (received env literal₂ received₂).stakeModifier block.hash) ↔
      literal₁ = literal₂ ∨ chain.length = 1 := by
  have computed₁ := @computed_received env literal₁ received₁
  have computed₂ := @computed_received env literal₂ received₂
  constructor
  · intro hagree
    by_cases hlength : 2 ≤ chain.length
    · left
      obtain ⟨first, hfirst, hmodifier⟩ := exists_literal hlength
      have heq := hagree first hfirst
      rw [stakeModifier, stakeModifier, hmodifier _ _ computed₁ holds₁,
        hmodifier _ _ computed₂ holds₂] at heq
      exact Option.some.inj heq
    · right
      have hne : chain ≠ [] := by
        intro hnil
        rw [hnil] at holds₁
        exact holds₁
      have hpos := List.length_pos_iff.mpr hne
      omega
  · rintro (hliteral | hlength) block hblock
    · subst hliteral
      rw [stakeModifier, stakeModifier, computed₁.entry_eq computed₂ holds₁ holds₂ hblock]
    · obtain ⟨genesis, rfl⟩ := List.length_eq_one_iff.mp hlength
      rw [List.mem_singleton.mp hblock]
      obtain ⟨entry₁, hentry₁, hnone₁, -⟩ := holds₁
      obtain ⟨entry₂, hentry₂, hnone₂, -⟩ := holds₂
      rw [stakeModifier, stakeModifier, hentry₁, hentry₂, Option.map_some, Option.map_some,
        ((computed₁ _ _ hentry₁).root hnone₁).2.2, ((computed₂ _ _ hentry₂).root hnone₂).2.2]

namespace ModifierChain
open ModifierNode

def kernelEnv : KernelEnv where
  hash _ := 0
  verifyScript _ _ _ := false
  txInToZerocoinSpend _ := none

def genesis : CBlock := ⟨100, 1, 0, 0, 0, 0, 0, 0, []⟩
def first : CBlock := ⟨101, 1, 100, 0, 60, 0, 0, 0, []⟩
def second : CBlock := ⟨102, 1, 101, 0, 120, 0, 0, 0, []⟩

def sibling : CBlock := ⟨103, 1, 100, 0, 90, 0, 0, 0, []⟩

theorem holds_second (literal : UInt64) :
    (received kernelEnv literal [genesis, first, second]).mapBlockIndex.Holds
      [second, first, genesis] := by
  constructor
  · exact ⟨_, rfl, rfl, rfl, rfl⟩
  constructor
  · exact ⟨_, rfl, rfl, rfl, rfl⟩
  · exact ⟨_, rfl, rfl, rfl, rfl⟩

theorem holds_second_sibling (literal : UInt64) :
    (received kernelEnv literal [genesis, sibling, first, second]).mapBlockIndex.Holds
      [second, first, genesis] := by
  constructor
  · exact ⟨_, rfl, rfl, rfl, rfl⟩
  constructor
  · exact ⟨_, rfl, rfl, rfl, rfl⟩
  · exact ⟨_, rfl, rfl, rfl, rfl⟩

theorem stakeModifiers_agree_oneImage :
    (received kernelEnv 7 [genesis, first, second]).stakeModifier first.hash =
        (received kernelEnv 7 [genesis, sibling, first, second]).stakeModifier first.hash ∧
      (received kernelEnv 7 [genesis, first, second]).stakeModifier second.hash =
        (received kernelEnv 7 [genesis, sibling, first, second]).stakeModifier second.hash := by
  have hagree := (stakeModifiers_agree_iff kernelEnv 7 7 _ _ _ (holds_second 7)
    (holds_second_sibling 7)).mpr (Or.inl rfl)
  exact ⟨hagree first (by simp), hagree second (by simp)⟩

/-- Where the literal is at one address in one process and at another address in the other, the
first block has two modifiers. -/
theorem not_stakeModifiers_agree : ¬ ∀ (env : KernelEnv) (literal₁ literal₂ : UInt64)
    (received₁ received₂ chain : List CBlock),
    (received env literal₁ received₁).mapBlockIndex.Holds chain →
    (received env literal₂ received₂).mapBlockIndex.Holds chain →
    ∀ block ∈ chain, (received env literal₁ received₁).stakeModifier block.hash =
      (received env literal₂ received₂).stakeModifier block.hash := by
  intro h
  have heq := h kernelEnv 1 2 _ _ _ (holds_second 1) (holds_second 2) first
    (List.mem_cons_of_mem _ List.mem_cons_self)
  have h₁ : (received kernelEnv 1 [genesis, first, second]).stakeModifier first.hash = some 1 :=
    rfl
  have h₂ : (received kernelEnv 2 [genesis, first, second]).stakeModifier first.hash = some 2 :=
    rfl
  rw [h₁, h₂] at heq
  contradiction

end ModifierChain

end Lytix
