import Lytix.Chain.BlockTree

/-! What holds of the block index between two steps, and that `CheckBlockIndex` then finds nothing
wrong. -/
namespace Lytix
open Ancestry

namespace ChainState

/-- Data and counts of the entries. The blocks of the queue have all data below them but are not
counted yet. -/
structure Data (queue : List Uint256) (s : ChainState) : Prop where
  stored : ∀ x ∈ s.mapBlockIndex, ((s.index x).nStatus.haveData = true ↔ 0 < (s.index x).nTx) ∧
    (BLOCK_VALID_TRANSACTIONS ≤ (s.index x).nStatus.valid ↔ 0 < (s.index x).nTx) ∧
      BLOCK_VALID_TREE ≤ (s.index x).nStatus.valid
  grows : ∀ x ∈ s.mapBlockIndex, (s.index x).nStatus.haveData = true → ∀ p, s.pprev x = some p →
    (s.index p).nChainWork < (s.index x).nChainWork
  linked : ∀ x ∈ s.mapBlockIndex, x ∉ queue → ((s.index x).nChainTx ≠ 0 ↔
    (s.index x).nStatus.haveData = true ∧ ∀ p, s.pprev x = some p → (s.index p).nChainTx ≠ 0)
  queued : ∀ x ∈ queue, x ∈ s.mapBlockIndex ∧ (s.index x).nChainTx = 0 ∧
    (s.index x).nStatus.haveData = true ∧ ∀ p, s.pprev x = some p → (s.index p).nChainTx ≠ 0
  queue_nodup : queue.Nodup
  sequence : ∀ x ∈ s.mapBlockIndex, (s.index x).nChainTx = 0 → (s.index x).nSequenceId = 0
  unlinked : ∀ p x, (p, x) ∈ s.mapBlocksUnlinked ↔ x ∈ s.mapBlockIndex ∧ x ∉ queue ∧
    s.pprev x = some p ∧ (s.index x).nStatus.haveData = true ∧ (s.index x).nChainTx = 0
  unlinked_nodup : s.mapBlocksUnlinked.Nodup

/-- A block that failed is not below the first failure, and scripts are checked from below. -/
structure Status (env : ChainEnv) (s : ChainState) : Prop where
  failed : ∀ x ∈ s.mapBlockIndex, (s.index x).nStatus.failed = true →
    ∃ a, IsAncestor s.pprev a x ∧ (s.index a).nStatus.failedValid = true
  scripts : ∀ x ∈ s.mapBlockIndex, BLOCK_VALID_CHAIN ≤ (s.index x).nStatus.valid →
    BLOCK_VALID_SCRIPTS ≤ (s.index x).nStatus.valid ∧
      ∀ p, s.pprev x = some p → p ≠ env.hashGenesisBlock →
        BLOCK_VALID_SCRIPTS ≤ (s.index p).nStatus.valid

/-- The active chain is a path of counted blocks, and no candidate is worse than its tip. -/
structure Chained (env : ChainEnv) (s : ChainState) : Prop where
  genesis : s.chainActive.head? = some env.hashGenesisBlock
  path : Linked s.pprev s.chainActive
  blocks : ∀ x ∈ s.chainActive, x ∈ s.mapBlockIndex ∧ (s.index x).nChainTx ≠ 0 ∧
    (x ≠ env.hashGenesisBlock → BLOCK_VALID_SCRIPTS ≤ (s.index x).nStatus.valid)
  candidates : ∀ x ∈ s.setBlockIndexCandidates, x ∈ s.mapBlockIndex ∧ (s.index x).nChainTx ≠ 0 ∧
    ∀ tip ∈ s.tip, s.worse env x tip = false

/-- No block of the active chain has failed. -/
def Clear (s : ChainState) : Prop := ∀ x ∈ s.chainActive, (s.index x).nStatus.failed = false

/-- Every counted block that has not failed itself and is not worse than `r` is a candidate. -/
def Complete (env : ChainEnv) (s : ChainState) (r : Uint256) : Prop :=
  ∀ x ∈ s.mapBlockIndex, (s.index x).nChainTx ≠ 0 → (s.index x).nStatus.failed = false →
    s.worse env x r = false → x ∈ s.setBlockIndexCandidates

/-- What holds of the block index also while the best chain is activated. -/
structure Sound (env : ChainEnv) (s : ChainState) : Prop where
  tree : Tree env s
  data : Data [] s
  status : Status env s
  chained : Chained env s
  clear : Clear s

/-- The block index as it is left between two steps. -/
structure Settled (env : ChainEnv) (s : ChainState) : Prop extends Sound env s where
  complete : ∀ tip ∈ s.tip, Complete env s tip

section
variable {env : ChainEnv} {s : ChainState} {x y z a p tip : Uint256} {queue : List Uint256}

/-! The order of the candidates. -/

theorem worse_iff : s.worse env x y = true ↔
    (s.index x).nChainWork < (s.index y).nChainWork ∨
      (s.index x).nChainWork = (s.index y).nChainWork ∧
        ((s.index y).nSequenceId < (s.index x).nSequenceId ∨
          (s.index y).nSequenceId = (s.index x).nSequenceId ∧ env.address y < env.address x) := by
  unfold worse
  dsimp only
  split_ifs
  · simp
    omega
  · simp
    omega
  · simp
    omega
  · simp
    omega
  · simp
    omega

theorem worse_false_iff : s.worse env x y = false ↔
    (s.index y).nChainWork < (s.index x).nChainWork ∨
      (s.index y).nChainWork = (s.index x).nChainWork ∧
        ((s.index x).nSequenceId < (s.index y).nSequenceId ∨
          (s.index x).nSequenceId = (s.index y).nSequenceId ∧ env.address x ≤ env.address y) := by
  rw [← Bool.not_eq_true, worse_iff]
  omega

theorem worse_self : s.worse env x x = false := by
  rw [worse_false_iff]
  omega

/-- Not being worse is transitive. -/
theorem not_worse_trans (hxy : s.worse env x y = false) (hyz : s.worse env y z = false) :
    s.worse env x z = false := by
  rw [worse_false_iff] at hxy hyz ⊢
  omega

theorem not_worse_of_worse (h : s.worse env x y = true) : s.worse env y x = false := by
  rw [worse_iff] at h
  rw [worse_false_iff]
  omega

/-- Of two blocks that are not worse than one another, one is the other. -/
theorem eq_of_not_worse (hxy : s.worse env x y = false) (hyx : s.worse env y x = false) : x = y := by
  rw [worse_false_iff] at hxy hyx
  apply env.address_injective
  omega

theorem Complete.of_not_worse (hcomplete : Complete env s x) (h : s.worse env y x = false) :
    Complete env s y := by
  intro z hz hcounted hclear hworse
  exact hcomplete z hz hcounted hclear (not_worse_trans hworse h)

/-! Paths to blocks with all data. -/

/-- A block is counted when every block from the genesis block to it has data. -/
theorem Data.counted_iff (data : Data [] s) (tree : Tree env s) (hx : x ∈ s.mapBlockIndex) :
    (s.index x).nChainTx ≠ 0 ↔
      ∀ a, IsAncestor s.pprev a x → (s.index a).nStatus.haveData = true := by
  induction hn : (s.index x).nHeight generalizing x with
  | zero =>
    have hroot : ∀ p, s.pprev x ≠ some p := by
      intro p hp
      have hheight := (tree.of_pprev hx hp).2.1
      omega
    rw [data.linked x hx List.not_mem_nil]
    constructor
    · rintro ⟨hdata, -⟩ a hanc
      rcases isAncestor_cases hanc with rfl | ⟨p, hparent, -⟩
      · exact hdata
      · exact absurd hparent (hroot p)
    · intro hall
      refine ⟨hall x (IsAncestor.refl _ _), ?_⟩
      intro p hp
      exact absurd hp (hroot p)
  | succ n ih =>
    rw [data.linked x hx List.not_mem_nil]
    constructor
    · rintro ⟨hdata, hparents⟩ a hanc
      rcases isAncestor_cases hanc with rfl | ⟨p, hparent, hrest⟩
      · exact hdata
      · obtain ⟨hp, hheight, -⟩ := tree.of_pprev hx hparent
        exact (ih hp (by omega)).mp (hparents p hparent) a hrest
    · intro hall
      refine ⟨hall x (IsAncestor.refl _ _), ?_⟩
      intro p hparent
      obtain ⟨hp, hheight, -⟩ := tree.of_pprev hx hparent
      apply (ih hp (by omega)).mpr
      intro a hanc
      exact hall a (hanc.trans (IsAncestor.of_parent hparent))

theorem Data.counted_of_ancestor (data : Data [] s) (tree : Tree env s) (hx : x ∈ s.mapBlockIndex)
    (hcounted : (s.index x).nChainTx ≠ 0) (ha : IsAncestor s.pprev a x) :
    (s.index a).nChainTx ≠ 0 := by
  rw [data.counted_iff tree (tree.of_ancestor hx ha).1]
  intro b hb
  exact (data.counted_iff tree hx).mp hcounted b (hb.trans ha)

/-- A counted block has more work than any block below it. -/
theorem Data.work_lt_of_ancestor (data : Data [] s) (tree : Tree env s) (hx : x ∈ s.mapBlockIndex)
    (hcounted : (s.index x).nChainTx ≠ 0) (ha : IsAncestor s.pprev a x) (hne : a ≠ x) :
    (s.index a).nChainWork < (s.index x).nChainWork := by
  induction hn : (s.index x).nHeight using Nat.strong_induction_on generalizing x with
  | _ n ih =>
    rcases isAncestor_cases ha with rfl | ⟨p, hparent, hrest⟩
    · exact absurd rfl hne
    · obtain ⟨hp, hheight, -⟩ := tree.of_pprev hx hparent
      have hdata : (s.index x).nStatus.haveData = true :=
        (data.counted_iff tree hx).mp hcounted x (IsAncestor.refl _ _)
      have hstep := data.grows x hx hdata p hparent
      by_cases hap : a = p
      · rw [hap]
        exact hstep
      · have hpcounted := data.counted_of_ancestor tree hx hcounted (IsAncestor.of_parent hparent)
        exact (ih _ (by omega) hp hpcounted hrest hap rfl).trans hstep

theorem Data.not_worse_of_ancestor (data : Data [] s) (tree : Tree env s)
    (hx : x ∈ s.mapBlockIndex) (hcounted : (s.index x).nChainTx ≠ 0)
    (ha : IsAncestor s.pprev a x) : s.worse env x a = false := by
  by_cases hne : a = x
  · rw [hne]
    exact worse_self
  · have hwork := data.work_lt_of_ancestor tree hx hcounted ha hne
    rw [worse_false_iff]
    exact Or.inl hwork

/-- Above a block whose scripts were not checked there is none whose scripts were. -/
theorem Status.scripts_of_ancestor (status : Status env s) (tree : Tree env s)
    (hx : x ∈ s.mapBlockIndex) (hscripts : BLOCK_VALID_CHAIN ≤ (s.index x).nStatus.valid)
    (ha : IsAncestor s.pprev a x) (hne : a ≠ env.hashGenesisBlock) :
    BLOCK_VALID_SCRIPTS ≤ (s.index a).nStatus.valid := by
  induction hn : (s.index x).nHeight using Nat.strong_induction_on generalizing x with
  | _ n ih =>
    obtain ⟨hself, hparents⟩ := status.scripts x hx hscripts
    rcases isAncestor_cases ha with rfl | ⟨p, hparent, hrest⟩
    · exact hself
    · obtain ⟨hp, hheight, -⟩ := tree.of_pprev hx hparent
      by_cases hpg : p = env.hashGenesisBlock
      · rw [hpg] at hrest
        rcases isAncestor_cases hrest with heq | ⟨q, hq, -⟩
        · exact absurd heq hne
        · rw [tree.genesis_pprev] at hq
          contradiction
      · have hpscripts := hparents p hparent hpg
        have hlevel : BLOCK_VALID_CHAIN ≤ (s.index p).nStatus.valid :=
          le_trans (by decide) hpscripts
        exact ih _ (by omega) hp hlevel hrest rfl

/-! What `CheckBlockIndex` asks for. -/

theorem Chained.tip_eq (chained : Chained env s) : ∃ tip, s.tip = some tip ∧ tip ∈ s.chainActive := by
  have hne : s.chainActive ≠ [] := by
    intro hnil
    have hhead := chained.genesis
    rw [hnil] at hhead
    contradiction
  exact ⟨_, List.getLast?_eq_some_getLast hne, List.getLast_mem hne⟩

theorem Chained.tip_mem (chained : Chained env s) (ht : s.tip = some tip) :
    tip ∈ s.mapBlockIndex :=
  (chained.blocks tip (List.mem_of_getLast? ht)).1

theorem Settled.firstMissing_eq_none (settled : Settled env s) (hx : x ∈ s.mapBlockIndex) :
    s.firstMissing x = none ↔ (s.index x).nChainTx ≠ 0 := by
  unfold firstMissing
  rw [settled.tree.firstOnPath_eq_none hx, settled.data.counted_iff settled.tree hx]
  simp only [Bool.not_eq_false']

theorem Settled.firstNotValid_eq_none (settled : Settled env s) (hx : x ∈ s.mapBlockIndex)
    {nLevel : ℕ} (hlevel : nLevel ≤ BLOCK_VALID_SCRIPTS)
    (hvalid : BLOCK_VALID_CHAIN ≤ (s.index x).nStatus.valid) : s.firstNotValid x nLevel = none := by
  unfold firstNotValid
  rw [settled.tree.firstOnPath_eq_none hx]
  intro a hanc
  rw [Bool.and_eq_false_iff, decide_eq_false_iff_not, not_lt]
  by_cases hgenesis : a = env.hashGenesisBlock
  · left
    rw [hgenesis, Option.isSome_eq_false_iff, Option.isNone_iff_eq_none]
    exact settled.tree.genesis_pprev
  · right
    exact hlevel.trans (settled.status.scripts_of_ancestor settled.tree hx hvalid hanc hgenesis)

theorem Settled.not_failed (settled : Settled env s) (hx : x ∈ s.mapBlockIndex)
    (hinvalid : s.firstInvalid x = none) : (s.index x).nStatus.failed = false := by
  by_contra hfailed
  obtain ⟨a, hanc, ha⟩ := settled.status.failed x hx (eq_true_of_ne_false hfailed)
  have hnone := (settled.tree.firstOnPath_eq_none hx).mp hinvalid a hanc
  rw [ha] at hnone
  contradiction

/-- A block with data waits exactly as long as it is not counted. -/
theorem Settled.mem_mapBlocksUnlinked (settled : Settled env s) (hx : x ∈ s.mapBlockIndex)
    (hp : s.pprev x = some p) : (p, x) ∈ s.mapBlocksUnlinked ↔
      (s.index x).nStatus.haveData = true ∧ s.firstMissing x ≠ none := by
  rw [settled.data.unlinked, ne_eq, settled.firstMissing_eq_none hx, not_not]
  constructor
  · rintro ⟨-, -, -, hdata, huncounted⟩
    exact ⟨hdata, huncounted⟩
  · rintro ⟨hdata, huncounted⟩
    exact ⟨hx, List.not_mem_nil, hp, hdata, huncounted⟩

theorem Settled.entryChecked (settled : Settled env s) (htip : s.tip = some tip)
    (hx : x ∈ s.mapBlockIndex) : EntryChecked env s tip x where
  genesis := by
    intro hp
    have hgenesis := settled.tree.eq_genesis hx hp
    rw [hgenesis]
    exact ⟨rfl, settled.chained.genesis⟩
  haveData := by
    have hstored := (settled.data.stored x hx).1
    rw [← Bool.not_eq_true, hstored]
    omega
  transactions := (settled.data.stored x hx).2.1
  sequence := settled.data.sequence x hx
  chainTx := by rw [ne_eq, settled.firstMissing_eq_none hx, not_not]
  height := by
    unfold pathTo
    rw [List.length_reverse, (settled.tree.length_ancestors hx (Nat.lt_succ_self _)).1]
  work := by
    intro p hp
    have hwork := (settled.tree.of_pprev hx hp).2.2
    omega
  skip := by
    intro hheight
    have hne : x ≠ env.hashGenesisBlock := by
      intro heq
      rw [heq, settled.tree.genesis_height] at hheight
      omega
    obtain ⟨q, hq, -, hqheight⟩ := settled.tree.skip x hx hne
    refine ⟨q, hq, ?_⟩
    rw [hqheight]
    exact getSkipHeight_lt (by omega)
  tree := by
    unfold firstNotValid
    rw [settled.tree.firstOnPath_eq_none hx]
    intro a hanc
    have hvalid := (settled.data.stored a (settled.tree.of_ancestor hx hanc).1).2.2
    rw [Bool.and_eq_false_iff, decide_eq_false_iff_not, not_lt]
    exact Or.inr hvalid
  chain := settled.firstNotValid_eq_none hx (by decide)
  scripts := by
    intro hvalid
    exact settled.firstNotValid_eq_none hx le_rfl (le_trans (by decide) hvalid)
  notFailed := settled.not_failed hx
  candidate := by
    intro hworse hmissing hinvalid
    exact settled.complete tip htip x hx ((settled.firstMissing_eq_none hx).mp hmissing)
      (settled.not_failed hx hinvalid) hworse
  notCandidate := by
    intro hor hmem
    obtain ⟨-, hcounted, hnotworse⟩ := settled.chained.candidates x hmem
    rcases hor with hworse | hmissing
    · rw [hnotworse tip htip] at hworse
      contradiction
    · exact hmissing ((settled.firstMissing_eq_none hx).mpr hcounted)
  unlinked := by
    intro p hp hdata hmissing _
    exact (settled.mem_mapBlocksUnlinked hx hp).mpr ⟨hdata, hmissing⟩
  notUnlinked := by
    intro hor p hp hmem
    obtain ⟨hdata, hmissing⟩ := (settled.mem_mapBlocksUnlinked hx hp).mp hmem
    rcases hor with hnodata | hnone
    · rw [hdata] at hnodata
      contradiction
    · exact hmissing hnone

theorem Settled.checkBlockIndex (settled : Settled env s) : CheckBlockIndex env s where
  noTip := by
    intro hnone
    obtain ⟨tip, htip, -⟩ := settled.chained.tip_eq
    rw [hnone] at htip
    contradiction
  oneRoot := by
    intro x hx y hy hxroot hyroot
    rw [settled.tree.eq_genesis hx hxroot, settled.tree.eq_genesis hy hyroot]
  traversed := by
    intro x hx
    refine ⟨_, settled.tree.genesis_mem, ?_, settled.tree.genesis_pprev⟩
    unfold pathTo
    rw [List.head?_reverse]
    exact (settled.tree.length_ancestors hx (Nat.lt_succ_self _)).2
  entries := by
    intro tip htip x hx
    exact settled.entryChecked htip hx

theorem Settled.candidatesComplete (settled : Settled env s) : CandidatesComplete env s where
  candidates := by
    intro tip htip x hx hcounted hclear hworse
    have hself := hclear x ((settled.tree.mem_pathTo hx).mpr (IsAncestor.refl _ _))
    exact settled.complete tip htip x hx hcounted hself hworse
  unlinked := by
    intro p x
    rw [settled.data.unlinked]
    constructor
    · rintro ⟨hx, -, hp, hdata, huncounted⟩
      refine ⟨hx, hp, hdata, ?_⟩
      have hpmem := (settled.tree.of_pprev hx hp).1
      by_contra hall
      push Not at hall
      have hpcounted : (s.index p).nChainTx ≠ 0 := by
        rw [settled.data.counted_iff settled.tree hpmem]
        intro a hanc
        exact eq_true_of_ne_false (hall a ((settled.tree.mem_pathTo hpmem).mpr hanc))
      have hcounted := (settled.data.linked x hx List.not_mem_nil).mpr ⟨hdata, by
        intro q hq
        rw [← Option.some.inj (hp.symm.trans hq)]
        exact hpcounted⟩
      exact hcounted huncounted
    · rintro ⟨hx, hp, hdata, a, ha, hmissing⟩
      refine ⟨hx, List.not_mem_nil, hp, hdata, ?_⟩
      have hpmem := (settled.tree.of_pprev hx hp).1
      have hanc := (settled.tree.mem_pathTo hpmem).mp ha
      by_contra hcounted
      have hall := (settled.data.counted_iff settled.tree hx).mp hcounted a
        (hanc.trans (IsAncestor.of_parent hp))
      rw [hmissing] at hall
      contradiction

end

end ChainState

end Lytix
