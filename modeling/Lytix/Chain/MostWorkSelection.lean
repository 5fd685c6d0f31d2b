import Lytix.Chain.CandidateRuns
import Lytix.Chain.LoadBlockIndex

/-! `FindMostWorkChain` ends wherever it is called, at the best candidate that can be connected. The
candidates need not be complete for this: it is enough that the entries stand on one another. -/
namespace Lytix
open Ancestry

namespace ChainState

/-- Every block down to the active chain has data and has not failed. -/
def Connectable (s : ChainState) (x : Uint256) : Prop :=
  ∃ path, Passes s.pprev s.contains (some x) path ∧ ∀ y ∈ path, s.usable y = true

/-- The answer of the search: a candidate that can be connected, with none ahead of it that can, or
`NULL` once every candidate is erased, and then none can. -/
inductive Selects (env : ChainEnv) (s : ChainState) : Option Uint256 × ChainState → Prop
  | found {m : Uint256} {s' : ChainState} (candidate : m ∈ s.setBlockIndexCandidates)
      (connectable : s.Connectable m)
      (best : ∀ x ∈ s.setBlockIndexCandidates, s.Connectable x → s.worse env m x = false) :
      Selects env s (some m, s')
  | null {s' : ChainState} (erased : s'.setBlockIndexCandidates = [])
      (hopeless : ∀ x ∈ s.setBlockIndexCandidates, ¬ s.Connectable x) : Selects env s (none, s')

section
variable {env : ChainEnv} {s s' : ChainState} {x y z m t : Uint256}
  {above before after path : List Uint256} {rounds : ℕ}

/-! The loop from a candidate down to the active chain. -/

theorem Grounded.passes_offChain (grounded : Grounded s) (hx : x ∈ s.mapBlockIndex)
    (hrounds : (s.index x).nHeight < rounds) :
    Passes s.pprev s.contains (some x) (s.offChain rounds x) ∧
      ∀ y ∈ s.offChain rounds x, y ∈ s.mapBlockIndex := by
  induction rounds generalizing x with
  | zero => omega
  | succ rounds ih =>
    unfold offChain
    by_cases hon : s.contains x = true
    · rw [if_pos hon]
      exact ⟨Passes.stopped hon, fun y hy => absurd hy List.not_mem_nil⟩
    · rw [if_neg hon]
      cases hp : s.pprev x with
      | none =>
        dsimp only
        have hend : Passes s.pprev s.contains (s.pprev x) [] := by
          rw [hp]
          exact Passes.ended
        refine ⟨Passes.passed (eq_false_of_ne_true hon) hend, ?_⟩
        intro y hy
        rw [List.mem_singleton.mp hy]
        exact hx
      | some p =>
        dsimp only
        obtain ⟨hpmem, hheight⟩ := grounded.parent x hx p hp
        obtain ⟨hpasses, hmem⟩ := ih hpmem (by omega)
        rw [← hp] at hpasses
        refine ⟨Passes.passed (eq_false_of_ne_true hon) hpasses, ?_⟩
        intro y hy
        rcases List.mem_cons.mp hy with rfl | hy
        · exact hx
        · exact hmem y hy

theorem Grounded.passes_pathToChain (grounded : Grounded s) (hx : x ∈ s.mapBlockIndex) :
    Passes s.pprev s.contains (some x) (s.pathToChain x) ∧
      ∀ y ∈ s.pathToChain x, y ∈ s.mapBlockIndex :=
  grounded.passes_offChain hx (Nat.lt_succ_self _)

/-- The assertion in the loop: below a candidate every block is counted. -/
theorem Grounded.counted_of_passes (grounded : Grounded s) {start : Option Uint256}
    (hpasses : Passes s.pprev s.contains start path)
    (hstart : ∀ x ∈ start, x ∈ s.mapBlockIndex ∧ ((s.index x).nChainTx ≠ 0 ∨ s.pprev x = none)) :
    ∀ y ∈ path, (s.index y).nChainTx ≠ 0 ∨ (s.index y).nHeight = 0 := by
  induction hpasses with
  | ended => exact fun y hy => absurd hy List.not_mem_nil
  | stopped _ => exact fun y hy => absurd hy List.not_mem_nil
  | @passed x path _ _ ih =>
    obtain ⟨hx, hcounted⟩ := hstart x rfl
    intro y hy
    rcases List.mem_cons.mp hy with rfl | hy
    · rcases hcounted with hcounted | hroot
      · exact Or.inl hcounted
      · exact Or.inr (grounded.root y hx hroot)
    · refine ih ?_ y hy
      intro p hp
      refine ⟨(grounded.parent x hx p hp).1, Or.inl ?_⟩
      rcases hcounted with hcounted | hroot
      · exact (grounded.counted x hx hcounted).2 p hp
      · rw [hroot] at hp
        contradiction

theorem connectable_iff (hpasses : Passes s.pprev s.contains (some x) path) :
    s.Connectable x ↔ ∀ y ∈ path, s.usable y = true := by
  constructor
  · rintro ⟨path', hpasses', husable⟩
    rw [hpasses.unique hpasses']
    exact husable
  · intro husable
    exact ⟨path, hpasses, husable⟩

/-! A round of the search that finds a block which cannot be used. -/

theorem index_dropChain : (s.dropChain above t).index y =
    if (s.index t).nStatus.failed = true ∧ y ∈ above then setFailedChild (s.index y)
    else s.index y := by
  unfold dropChain eraseCandidates
  dsimp only
  by_cases hfailed : (s.index t).nStatus.failed = true
  · simp only [hfailed, if_true, true_and]
  · rw [if_neg hfailed, if_neg fun h => hfailed h.1]

theorem dropChain_rest : (s.dropChain above t).chainActive = s.chainActive ∧
    (s.dropChain above t).setBlockIndexCandidates =
      s.setBlockIndexCandidates.filter fun y => !(t :: above).contains y := by
  unfold dropChain eraseCandidates
  dsimp only
  split_ifs
  · exact ⟨rfl, rfl⟩
  · exact ⟨rfl, rfl⟩

theorem mem_candidates_dropChain : y ∈ (s.dropChain above t).setBlockIndexCandidates ↔
    y ∈ s.setBlockIndexCandidates ∧ y ∉ t :: above := by
  rw [dropChain_rest.2, List.mem_filter, Bool.not_eq_true', List.contains_eq_mem,
    decide_eq_false_iff_not]

theorem pprev_dropChain : (s.dropChain above t).pprev = s.pprev := by
  funext y
  unfold ChainState.pprev
  rw [index_dropChain]
  split_ifs
  · rfl
  · rfl

theorem contains_dropChain : (s.dropChain above t).contains = s.contains := by
  funext y
  unfold contains
  rw [index_dropChain, dropChain_rest.1]
  split_ifs
  · rfl
  · rfl

theorem worse_dropChain : (s.dropChain above t).worse env x y = s.worse env x y := by
  have hsame : ∀ z, ((s.dropChain above t).index z).nChainWork = (s.index z).nChainWork ∧
      ((s.dropChain above t).index z).nSequenceId = (s.index z).nSequenceId := by
    intro z
    rw [index_dropChain]
    split_ifs
    · exact ⟨rfl, rfl⟩
    · exact ⟨rfl, rfl⟩
  unfold worse
  dsimp only
  rw [(hsame x).1, (hsame x).2, (hsame y).1, (hsame y).2]

theorem usable_dropChain : (s.dropChain above t).usable y = true ↔
    s.usable y = true ∧ ((s.index t).nStatus.failed = true → y ∉ above) := by
  unfold usable
  rw [index_dropChain]
  by_cases hmarked : (s.index t).nStatus.failed = true ∧ y ∈ above
  · have hfailed : (setFailedChild (s.index y)).nStatus.failed = true := Bool.or_true _
    rw [if_pos hmarked, hfailed]
    constructor
    · intro hfalse
      contradiction
    · rintro ⟨-, hnot⟩
      exact absurd hmarked.2 (hnot hmarked.1)
  · rw [if_neg hmarked]
    constructor
    · intro husable
      exact ⟨husable, fun hfailed hy => hmarked ⟨hfailed, hy⟩⟩
    · intro h
      exact h.1

/-- The blocks above `t` are marked, but none of them could be connected anyway. -/
theorem connectable_dropChain
    (hm : Passes s.pprev s.contains (some m) (before ++ t :: after)) (ht : s.usable t = false)
    (hx : Passes s.pprev s.contains (some x) path) :
    (s.dropChain before t).Connectable x ↔ s.Connectable x := by
  have hx' : Passes (s.dropChain before t).pprev (s.dropChain before t).contains (some x) path := by
    rw [pprev_dropChain, contains_dropChain]
    exact hx
  rw [connectable_iff hx, connectable_iff hx']
  constructor
  · intro husable y hy
    exact (usable_dropChain.mp (husable y hy)).1
  · intro husable y hy
    refine usable_dropChain.mpr ⟨husable y hy, ?_⟩
    intro _ hbefore
    obtain ⟨first, second, rfl⟩ := List.append_of_mem hbefore
    rw [List.append_assoc] at hm
    have hbelow : t ∈ y :: (second ++ t :: after) := by simp
    have hpassed := husable t (hx.mem_of_mem hy hm.of_append hbelow)
    rw [ht] at hpassed
    contradiction

/-- What the round erases cannot be connected: `t` is on its way. -/
theorem not_connectable_of_mem
    (hm : Passes s.pprev s.contains (some m) (before ++ t :: after)) (ht : s.usable t = false)
    (hx : x ∈ t :: before) : ¬ s.Connectable x := by
  have hpath : ∃ path, Passes s.pprev s.contains (some x) path ∧ t ∈ path := by
    rcases List.mem_cons.mp hx with rfl | hx
    · exact ⟨_, hm.of_append, List.mem_cons_self⟩
    · obtain ⟨first, second, rfl⟩ := List.append_of_mem hx
      rw [List.append_assoc] at hm
      exact ⟨_, hm.of_append, by simp⟩
  obtain ⟨path, hpasses, hmem⟩ := hpath
  rw [connectable_iff hpasses]
  intro husable
  have hpassed := husable t hmem
  rw [ht] at hpassed
  contradiction

/-- What a round sees: the best candidate, and the first block below it that cannot be used. -/
structure Blocked (env : ChainEnv) (s : ChainState) (m t : Uint256) (before after : List Uint256) :
    Prop where
  candidate : m ∈ s.setBlockIndexCandidates
  passes : Passes s.pprev s.contains (some m) (before ++ t :: after)
  usable : ∀ y ∈ before, s.usable y = true
  unusable : s.usable t = false
  mem : ∀ y ∈ before ++ t :: after, y ∈ s.mapBlockIndex

theorem Blocked.mem_dropped (blocked : Blocked env s m t before after) : m ∈ t :: before := by
  have hpasses := blocked.passes
  cases before with
  | nil =>
    cases hpasses
    exact List.mem_cons_self
  | cons b before =>
    cases hpasses
    exact List.mem_cons_of_mem _ List.mem_cons_self

theorem Blocked.fewer (blocked : Blocked env s m t before after) :
    (s.dropChain before t).setBlockIndexCandidates.length < s.setBlockIndexCandidates.length := by
  rw [dropChain_rest.2, List.length_filter_lt_length_iff_exists]
  refine ⟨m, blocked.candidate, ?_⟩
  rw [Bool.not_eq_true', List.contains_eq_mem, decide_eq_false_iff_not, not_not]
  exact blocked.mem_dropped

theorem Blocked.grounded (blocked : Blocked env s m t before after) (grounded : Grounded s) :
    Grounded (s.dropChain before t) := by
  apply grounded.keep
  apply keeps_dropChain
  intro y hy
  have husable := blocked.usable y hy
  unfold ChainState.usable at husable
  rw [Bool.and_eq_true] at husable
  exact ⟨blocked.mem y (List.mem_append_left _ hy), husable.2⟩

theorem Blocked.selects (blocked : Blocked env s m t before after) (grounded : Grounded s)
    {result : Option Uint256 × ChainState} (h : Selects env (s.dropChain before t) result) :
    Selects env s result := by
  have hsame : ∀ x ∈ s.setBlockIndexCandidates,
      ((s.dropChain before t).Connectable x ↔ s.Connectable x) := by
    intro x hx
    obtain ⟨hpasses, -⟩ := grounded.passes_pathToChain (grounded.candidates x hx).1
    exact connectable_dropChain blocked.passes blocked.unusable hpasses
  have hkept : ∀ x ∈ s.setBlockIndexCandidates, s.Connectable x →
      x ∈ (s.dropChain before t).setBlockIndexCandidates := by
    intro x hx hconnectable
    refine mem_candidates_dropChain.mpr ⟨hx, ?_⟩
    intro hdropped
    exact not_connectable_of_mem blocked.passes blocked.unusable hdropped hconnectable
  cases h with
  | found candidate connectable best =>
    have hcandidate := (mem_candidates_dropChain.mp candidate).1
    refine Selects.found hcandidate ((hsame _ hcandidate).mp connectable) ?_
    intro x hx hconnectable
    have hbest := best x (hkept x hx hconnectable) ((hsame x hx).mpr hconnectable)
    rw [worse_dropChain] at hbest
    exact hbest
  | null erased hopeless =>
    refine Selects.null erased ?_
    intro x hx hconnectable
    exact hopeless x (hkept x hx hconnectable) ((hsame x hx).mpr hconnectable)

theorem findMostWorkChain_of_empty (hempty : s.setBlockIndexCandidates = []) (n : ℕ) :
    findMostWorkChain env n s = (none, s) := by
  have hnone : s.bestCandidate env = none := by
    unfold bestCandidate
    rw [hempty]
    rfl
  cases n with
  | zero => rfl
  | succ n =>
    unfold findMostWorkChain
    rw [hnone]

theorem selects_of_empty (hempty : s.setBlockIndexCandidates = []) : Selects env s (none, s) := by
  refine Selects.null hempty ?_
  intro x hx
  rw [hempty] at hx
  exact absurd hx List.not_mem_nil

/-- A round returns, or goes on with fewer candidates. -/
theorem Grounded.round (grounded : Grounded s) :
    (∃ result, Selects env s result ∧ result.2 = s ∧
      ∀ n, findMostWorkChain env (n + 1) s = result) ∨
    ∃ m t before after, Blocked env s m t before after ∧
      ∀ n, findMostWorkChain env (n + 1) s = findMostWorkChain env n (s.dropChain before t) := by
  by_cases hempty : s.setBlockIndexCandidates = []
  · exact Or.inl ⟨(none, s), selects_of_empty hempty, rfl,
      fun n => findMostWorkChain_of_empty hempty (n + 1)⟩
  · obtain ⟨r, hr⟩ := List.exists_mem_of_ne_nil _ hempty
    obtain ⟨m, hbest, hm, hahead⟩ := @exists_bestCandidate env s r hr
    obtain ⟨hpasses, hmem⟩ := grounded.passes_pathToChain (grounded.candidates m hm).1
    cases hfind : (s.pathToChain m).find? fun x => !s.usable x with
    | none =>
      have husable : ∀ y ∈ s.pathToChain m, s.usable y = true := by
        intro y hy
        have hnot := List.find?_eq_none.mp hfind y hy
        rw [Bool.not_eq_true', Bool.not_eq_false] at hnot
        exact hnot
      refine Or.inl ⟨(some m, s), Selects.found hm ⟨_, hpasses, husable⟩ fun x hx _ => hahead x hx,
        rfl, ?_⟩
      intro n
      rw [findMostWorkChain, hbest]
      dsimp only
      rw [hfind]
    | some t =>
      obtain ⟨hunusable, before, after, hsplit, hbefore⟩ := List.find?_eq_some_iff_append.mp hfind
      rw [Bool.not_eq_true'] at hunusable
      simp only [Bool.not_not] at hbefore
      have htake : (s.pathToChain m).takeWhile s.usable = before := by
        rw [hsplit, List.takeWhile_append_of_pos hbefore, List.takeWhile_cons, hunusable]
        exact List.append_nil before
      rw [hsplit] at hpasses hmem
      refine Or.inr ⟨m, t, before, after, ⟨hm, hpasses, hbefore, hunusable, hmem⟩, ?_⟩
      intro n
      rw [findMostWorkChain, hbest]
      dsimp only
      rw [hfind]
      dsimp only
      rw [htake]

/-- The search answers within as many rounds as there are candidates. -/
theorem Grounded.selects (grounded : Grounded s)
    (hrounds : s.setBlockIndexCandidates.length ≤ rounds) :
    Selects env s (findMostWorkChain env rounds s) := by
  induction rounds generalizing s with
  | zero => exact selects_of_empty (List.length_eq_zero_iff.mp (Nat.le_zero.mp hrounds))
  | succ rounds ih =>
    rcases @Grounded.round env s grounded with ⟨result, hselects, -, hend⟩ |
      ⟨m, t, before, after, blocked, hround⟩
    · rw [hend rounds]
      exact hselects
    · have hfewer := blocked.fewer
      rw [hround rounds]
      exact blocked.selects grounded (ih (blocked.grounded grounded) (by omega))

/-- Further rounds change nothing. -/
theorem Grounded.findMostWorkChain_eq (grounded : Grounded s) {n : ℕ}
    (hrounds : s.setBlockIndexCandidates.length ≤ rounds)
    (hn : s.setBlockIndexCandidates.length ≤ n) :
    findMostWorkChain env rounds s = findMostWorkChain env n s := by
  induction rounds generalizing s n with
  | zero =>
    have hempty := List.length_eq_zero_iff.mp (Nat.le_zero.mp hrounds)
    rw [findMostWorkChain_of_empty hempty, findMostWorkChain_of_empty hempty]
  | succ rounds ih =>
    cases n with
    | zero =>
      have hempty := List.length_eq_zero_iff.mp (Nat.le_zero.mp hn)
      rw [findMostWorkChain_of_empty hempty, findMostWorkChain_of_empty hempty]
    | succ n =>
      rcases @Grounded.round env s grounded with ⟨result, -, -, hend⟩ |
        ⟨m, t, before, after, blocked, hround⟩
      · rw [hend rounds, hend n]
      · have hfewer := blocked.fewer
        rw [hround rounds, hround n]
        exact ih (blocked.grounded grounded) (by omega) (by omega)

/-- What the search has marked and erased leaves the entries where they stand. -/
theorem Grounded.findMostWorkChain (grounded : Grounded s) :
    Grounded (findMostWorkChain env rounds s).2 := by
  induction rounds generalizing s with
  | zero => exact grounded
  | succ rounds ih =>
    rcases @Grounded.round env s grounded with ⟨result, -, hsame, hend⟩ |
      ⟨m, t, before, after, blocked, hround⟩
    · rw [hend rounds, hsame]
      exact grounded
    · rw [hround rounds]
      exact ih (blocked.grounded grounded)

/-! Every step keeps what the search needs. -/

theorem grounded_initBlockIndex {genesis : CBlock} : Grounded (initBlockIndex env genesis) := by
  obtain ⟨hmap, -, hcandidates, hunlinked, hindex⟩ := @initBlockIndex_rest env genesis
  generalize initBlockIndex env genesis = s at *
  have hpprev : s.pprev genesis.hash = none := by
    unfold pprev
    rw [hindex]
  have heq : ∀ x ∈ s.mapBlockIndex, x = genesis.hash := by
    intro x hx
    rw [hmap] at hx
    exact List.mem_singleton.mp hx
  constructor
  case root =>
    intro x hx _
    rw [heq x hx, hindex]
  case parent =>
    intro x hx p hp
    rw [heq x hx, hpprev] at hp
    contradiction
  case counted =>
    intro x hx _
    rw [heq x hx, hindex, hpprev]
    refine ⟨rfl, ?_⟩
    intro p hp
    contradiction
  case candidates =>
    intro x hx
    rw [hcandidates] at hx
    rw [List.mem_singleton.mp hx, hmap]
    exact ⟨List.mem_singleton_self _, Or.inr hpprev⟩
  case unlinked =>
    intro p x hx
    rw [hunlinked] at hx
    exact absurd hx List.not_mem_nil

theorem Grounded.activateBestChain {connect : ChainState → Uint256 → ConnectTipOutcome}
    (grounded : Grounded s) (h : s.activateBestChain env connect rounds = some s') :
    Grounded s' := by
  induction rounds generalizing s with
  | zero => contradiction
  | succ rounds ih =>
    have hfound := @Grounded.findMostWorkChain env s s.setBlockIndexCandidates.length grounded
    unfold ChainState.activateBestChain at h
    generalize ChainState.findMostWorkChain env s.setBlockIndexCandidates.length s = search at *
    obtain ⟨mostWork, found⟩ := search
    cases mostWork with
    | none =>
      dsimp only at h
      rw [← Option.some.inj h]
      exact hfound
    | some m =>
      have hstepped := hfound.keep (@keeps_activateBestChainStep env found m connect)
      dsimp only at h
      generalize found.activateBestChainStep env connect m = step at *
      obtain ⟨ok, stepped⟩ := step
      split_ifs at h
      · rw [← Option.some.inj h]
        exact hfound
      · cases ok with
        | false =>
          rw [← Option.some.inj h]
          exact hstepped
        | true =>
          dsimp only at h
          split_ifs at h
          · rw [← Option.some.inj h]
            exact hstepped
          · exact ih hstepped h

theorem Grounded.step {event : ChainEvent} (grounded : Grounded s)
    (hstep : s.step env event = some s') : Grounded s' := by
  unfold ChainState.step at hstep
  cases event with
  | addToBlockIndex block =>
    rw [← Option.some.inj hstep]
    split_ifs with hprev
    · exact grounded.addToBlockIndex hprev
    · exact grounded
  | receivedBlockTransactions block =>
    rw [← Option.some.inj hstep]
    split_ifs with haccepts
    · exact grounded.receivedBlockTransactions haccepts
    · exact grounded
  | invalidateBlock pindex =>
    dsimp only at hstep
    split_ifs at hstep
    · exact grounded.keep (keeps_invalidateBlock hstep)
    · rw [← Option.some.inj hstep]
      exact grounded
  | reconsiderBlock pindex =>
    rw [← Option.some.inj hstep]
    split_ifs
    · exact grounded.keep keeps_reconsiderBlock
    · exact grounded
  | activateBestChain connect rounds => exact grounded.activateBestChain hstep

end

end ChainState

open ChainState

/-- The states in which `FindMostWorkChain` may be called. `ActivateBestChain` gives the lock back after
each of its rounds, so other steps may come in between. A node that starts again has its entries
at other addresses. -/
inductive SearchRun : ChainEnv → ChainState → Prop
  | start {env : ChainEnv} (genesis : CBlock) (hash : genesis.hash = env.hashGenesisBlock)
      (vtx : genesis.vtx ≠ []) : SearchRun env (initBlockIndex env genesis)
  | step {env : ChainEnv} {s s' : ChainState} {event : ChainEvent} (run : SearchRun env s)
      (hstep : s.step env event = some s') : SearchRun env s'
  | round {env : ChainEnv} {s found stepped : ChainState} {pindexMostWork : Uint256}
      {connect : ChainState → Uint256 → ConnectTipOutcome} (run : SearchRun env s)
      (hfound : findMostWorkChain env s.setBlockIndexCandidates.length s =
        (some pindexMostWork, found))
      (hstep : found.activateBestChainStep env connect pindexMostWork = (true, stepped)) :
      SearchRun env stepped
  | load {env env' : ChainEnv} {s : ChainState} (run : SearchRun env s)
      (hgenesis : env'.hashGenesisBlock = env.hashGenesisBlock) (hashBestBlock : Uint256) :
      SearchRun env' (s.loadBlockIndexDB env' hashBestBlock)

theorem SearchRun.grounded {env : ChainEnv} {s : ChainState} (run : SearchRun env s) :
    Grounded s := by
  induction run with
  | start genesis hash vtx => exact grounded_initBlockIndex
  | step _ hstep ih => exact ih.step hstep
  | @round env s found stepped m connect _ hfound hstep ih =>
    have hgrounded := @Grounded.findMostWorkChain env s s.setBlockIndexCandidates.length ih
    have hkeeps := @keeps_activateBestChainStep env found m connect
    rw [hfound] at hgrounded
    rw [hstep] at hkeeps
    exact hgrounded.keep hkeeps
  | load _ _ hashBestBlock ih => exact ih.loadBlockIndexDB hashBestBlock

/-- Blocks 2 and 3 have data. -/
def twoBlocksNode : ChainState :=
  twoHeadersNode.receivedBlockTransactions easyEnv (easyBlock 3 2).hash (easyBlock 3 2).vtx.length

/-- Block 2 is declared invalid: block 3 is still a candidate. -/
def blockedNode : ChainState := (twoBlocksNode.invalidateBlock easyEnv 2).getD {}

theorem searchRun_blockedNode : SearchRun easyEnv blockedNode := by
  have hstart : SearchRun easyEnv (initBlockIndex easyEnv (easyBlock 1 0)) :=
    SearchRun.start (easyBlock 1 0) rfl (List.cons_ne_nil _ _)
  have hheader : SearchRun easyEnv headerNode :=
    hstart.step (step_addToBlockIndex (by decide))
  have hdata : SearchRun easyEnv dataNode :=
    hheader.step (step_receivedBlockTransactions (by decide))
  have htwo : SearchRun easyEnv twoHeadersNode :=
    hdata.step (step_addToBlockIndex (by decide))
  have hboth : SearchRun easyEnv twoBlocksNode :=
    htwo.step (step_receivedBlockTransactions (by decide))
  exact hboth.step (step_invalidateBlock (by decide) (by decide))

end Lytix
