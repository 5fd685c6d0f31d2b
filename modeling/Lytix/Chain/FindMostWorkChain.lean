import Lytix.Chain.InvalidateBlock

/-! `FindMostWorkChain`. While the best chain is activated, the candidates need not be complete for the
tip. They are complete for a block `r` that the tip has been at: one that can be connected again. -/
namespace Lytix
open Ancestry

namespace ChainState

/-- The block index while the best chain is activated. -/
structure Working (env : ChainEnv) (s : ChainState) (r : Uint256) : Prop extends Sound env s where
  candidate : r ∈ s.setBlockIndexCandidates
  connected : ∀ a, IsAncestor s.pprev a r → (s.index a).nStatus.failed = false ∧
    (a ≠ env.hashGenesisBlock → BLOCK_VALID_SCRIPTS ≤ (s.index a).nStatus.valid)
  complete : Complete env s r

section
variable {env : ChainEnv} {s s' : ChainState} {x y m p r t fork : Uint256} {c above : List Uint256}
  {rounds : ℕ}

theorem Settled.working (settled : Settled env s) (ht : s.tip = some t) : Working env s t := by
  have hmem := List.mem_of_getLast? ht
  have placed := settled.chained.placed settled.tree
  obtain ⟨htmem, hcounted, -⟩ := settled.chained.blocks t hmem
  constructor
  case toSound => exact settled.toSound
  case candidate => exact settled.complete t ht t htmem hcounted (settled.clear t hmem) worse_self
  case connected =>
    intro a ha
    have hamem := placed.ancestor_mem hmem ha
    exact ⟨settled.clear a hamem, (settled.chained.blocks a hamem).2.2⟩
  case complete => exact settled.complete t ht

/-! The last candidate of the set. -/

theorem exists_foldl_best (l : List Uint256) (b : Uint256) : ∃ m,
    l.foldl (fun best x => match best with
      | none => some x
      | some b => if s.worse env b x then some x else some b) (some b) = some m ∧
    (m = b ∨ m ∈ l) ∧ s.worse env m b = false ∧ ∀ x ∈ l, s.worse env m x = false := by
  induction l generalizing b with
  | nil => exact ⟨b, rfl, Or.inl rfl, worse_self, fun x hx => absurd hx List.not_mem_nil⟩
  | cons x l ih =>
    rw [List.foldl_cons]
    dsimp only
    by_cases hworse : s.worse env b x = true
    · obtain ⟨m, hfold, hm, hmx, hml⟩ := ih x
      rw [if_pos hworse]
      refine ⟨m, hfold, ?_, not_worse_trans hmx (not_worse_of_worse hworse), ?_⟩
      · rcases hm with rfl | hm
        · exact Or.inr List.mem_cons_self
        · exact Or.inr (List.mem_cons_of_mem _ hm)
      · intro y hy
        rcases List.mem_cons.mp hy with rfl | hy
        · exact hmx
        · exact hml y hy
    · obtain ⟨m, hfold, hm, hmb, hml⟩ := ih b
      rw [if_neg hworse]
      refine ⟨m, hfold, ?_, hmb, ?_⟩
      · rcases hm with rfl | hm
        · exact Or.inl rfl
        · exact Or.inr (List.mem_cons_of_mem _ hm)
      · intro y hy
        rcases List.mem_cons.mp hy with rfl | hy
        · exact not_worse_trans hmb (eq_false_of_ne_true hworse)
        · exact hml y hy

theorem exists_bestCandidate (hr : r ∈ s.setBlockIndexCandidates) : ∃ m,
    s.bestCandidate env = some m ∧ m ∈ s.setBlockIndexCandidates ∧
      ∀ x ∈ s.setBlockIndexCandidates, s.worse env m x = false := by
  unfold bestCandidate
  obtain ⟨b, l, hcandidates⟩ := List.exists_cons_of_ne_nil (List.ne_nil_of_mem hr)
  rw [hcandidates, List.foldl_cons]
  obtain ⟨m, hfold, hm, hmb, hml⟩ := @exists_foldl_best env s l b
  refine ⟨m, hfold, List.mem_cons.mpr hm, ?_⟩
  intro x hx
  rcases List.mem_cons.mp hx with rfl | hx
  · exact hmb
  · exact hml x hx

/-! The way from a block back to the active chain. -/

/-- The blocks that are passed, down to the first one of the active chain. -/
theorem Sound.offChain_spec (sound : Sound env s) (hx : x ∈ s.mapBlockIndex)
    (hrounds : (s.index x).nHeight < rounds) : ∃ fork ∈ s.chainActive,
      (s.offChain rounds x ++ [fork]).IsChain (fun a b => s.pprev a = some b) ∧
      (s.offChain rounds x ++ [fork]).head? = some x ∧
      ∀ y ∈ s.offChain rounds x, y ∉ s.chainActive := by
  have placed := sound.chained.placed sound.tree
  induction rounds generalizing x with
  | zero => omega
  | succ rounds ih =>
    unfold offChain
    by_cases hon : s.contains x = true
    · rw [if_pos hon]
      exact ⟨x, placed.contains_iff.mp hon, List.isChain_singleton x, rfl,
        fun y hy => absurd hy List.not_mem_nil⟩
    · have hoff : x ∉ s.chainActive := fun hmem => hon (placed.contains_iff.mpr hmem)
      rw [if_neg hon]
      cases hp : s.pprev x with
      | none =>
        have hgenesis := sound.tree.eq_genesis hx hp
        rw [hgenesis] at hoff
        exact absurd (List.mem_of_head? sound.chained.genesis) hoff
      | some p =>
        obtain ⟨hpmem, hheight, -⟩ := sound.tree.of_pprev hx hp
        obtain ⟨fork, hfork, hchain, hhead, hnot⟩ := ih hpmem (by omega)
        refine ⟨fork, hfork, ?_, rfl, ?_⟩
        · rw [List.cons_append, List.isChain_cons]
          refine ⟨?_, hchain⟩
          intro y hy
          rw [hp, ← Option.mem_unique hhead hy]
        · intro y hy
          rcases List.mem_cons.mp hy with rfl | hy
          · exact hoff
          · exact hnot y hy

theorem Sound.pathToChain_spec (sound : Sound env s) (hx : x ∈ s.mapBlockIndex) :
    ∃ fork ∈ s.chainActive,
      (s.pathToChain x ++ [fork]).IsChain (fun a b => s.pprev a = some b) ∧
      (s.pathToChain x ++ [fork]).head? = some x ∧
      ∀ y ∈ s.pathToChain x, y ∉ s.chainActive :=
  sound.offChain_spec hx (Nat.lt_succ_self _)

/-- What `dropChain` does: the blocks of the chain above a failed block have failed too, and none of
them is a candidate any more. -/
structure Dropped (s s' : ChainState) (t : Uint256) (above : List Uint256) : Prop where
  flags : OnlyFlags s s'
  chain : s'.chainActive = s.chainActive
  failedValid : ∀ y, (s'.index y).nStatus.failedValid = (s.index y).nStatus.failedValid
  failed : ∀ y, (s'.index y).nStatus.failed = true ↔
    (s.index y).nStatus.failed = true ∨ y ∈ above
  candidates : s'.setBlockIndexCandidates =
    s.setBlockIndexCandidates.filter fun y => !(t :: above).contains y

theorem dropped_dropChain (hfailed : (s.index t).nStatus.failed = true) :
    Dropped s (s.dropChain above t) t above := by
  unfold dropChain
  rw [if_pos hfailed]
  constructor
  case flags =>
    refine ⟨rfl, rfl, rfl, ?_⟩
    intro y
    unfold eraseCandidates
    dsimp only
    split_ifs
    · exact ⟨_, _, rfl⟩
    · exact ⟨_, _, rfl⟩
  case chain => rfl
  case failedValid =>
    intro y
    unfold eraseCandidates
    dsimp only
    split_ifs
    · rfl
    · rfl
  case failed =>
    intro y
    unfold eraseCandidates
    dsimp only
    split_ifs with habove
    · simp [habove, setFailedChild, BlockStatus.failed]
    · simp [habove]
  case candidates => rfl

theorem Working.dropped (working : Working env s r) (hs' : Dropped s s' t above)
    (hfailed : (s.index t).nStatus.failed = true) (htmem : t ∈ s.mapBlockIndex)
    (habove : ∀ y ∈ above, IsAncestor s.pprev t y) (hoff : ∀ y ∈ above, y ∉ s.chainActive) :
    Working env s' r := by
  have hsame := hs'.flags.sameData
  have hmem : ∀ y, y ∈ s'.setBlockIndexCandidates ↔
      y ∈ s.setBlockIndexCandidates ∧ y ∉ t :: above := by
    intro y
    rw [hs'.candidates, List.mem_filter, Bool.not_eq_true', List.contains_eq_mem,
      decide_eq_false_iff_not]
  have hnotabove : ∀ a, IsAncestor s.pprev a r → a ∉ t :: above := by
    intro a ha hmem
    have htr : IsAncestor s.pprev t r := by
      rcases List.mem_cons.mp hmem with rfl | hmem
      · exact ha
      · exact (habove a hmem).trans ha
    rw [(working.connected t htr).1] at hfailed
    contradiction
  constructor
  case toSound =>
    constructor
    case tree => exact working.tree.same hsame.toSameTree
    case data => exact working.data.same hsame
    case status =>
      apply working.status.raise hs'.flags
      · intro y hy
        rw [hs'.failedValid]
        exact hy
      · intro y _ hyfailed
        rcases (hs'.failed y).mp hyfailed with hold | hy
        · exact Or.inl hold
        · obtain ⟨a, hanc, ha⟩ := working.status.failed t htmem hfailed
          right
          refine ⟨a, hanc.trans (habove y hy), ?_⟩
          rw [hs'.failedValid]
          exact ha
    case chained =>
      have htip : s'.tip = s.tip := by
        unfold tip
        rw [hs'.chain]
      constructor
      case genesis =>
        rw [hs'.chain]
        exact working.chained.genesis
      case path =>
        rw [hs'.chain, hsame.pprev_eq]
        exact working.chained.path
      case blocks =>
        intro y hy
        rw [hs'.chain] at hy
        rw [hsame.mapBlockIndex, hsame.nChainTx, hs'.flags.valid_eq]
        exact working.chained.blocks y hy
      case candidates =>
        intro y hy
        rw [hsame.mapBlockIndex, hsame.nChainTx, htip]
        simp only [hsame.worse_eq]
        exact working.chained.candidates y ((hmem y).mp hy).1
    case clear =>
      intro y hy
      rw [hs'.chain] at hy
      rw [← Bool.not_eq_true, hs'.failed, working.clear y hy]
      rintro (hfalse | hyabove)
      · contradiction
      · exact hoff y hyabove hy
  case candidate => exact (hmem r).mpr ⟨working.candidate, hnotabove r (IsAncestor.refl _ _)⟩
  case connected =>
    intro a ha
    rw [hsame.pprev_eq] at ha
    obtain ⟨hclear, hscripts⟩ := working.connected a ha
    rw [← Bool.not_eq_true, hs'.failed, hs'.flags.valid_eq, hclear]
    refine ⟨?_, hscripts⟩
    rintro (hfalse | haabove)
    · contradiction
    · exact hnotabove a ha (List.mem_cons_of_mem _ haabove)
  case complete =>
    intro y hy hcounted hclear hbest
    rw [hsame.mapBlockIndex] at hy
    rw [hsame.nChainTx] at hcounted
    rw [hsame.worse_eq] at hbest
    rw [← Bool.not_eq_true, hs'.failed, not_or] at hclear
    have hyt : y ≠ t := by
      rintro rfl
      exact hclear.1 hfailed
    refine (hmem y).mpr ⟨?_, ?_⟩
    · exact working.complete y hy hcounted (eq_false_of_ne_true hclear.1) hbest
    · rw [List.mem_cons, not_or]
      exact ⟨hyt, hclear.2⟩

/-- The block that `FindMostWorkChain` returns: no candidate is better, and it can be reached. -/
structure MostWork (env : ChainEnv) (s : ChainState) (r m : Uint256) : Prop where
  candidate : m ∈ s.setBlockIndexCandidates
  best : s.worse env m r = false
  clear : ∀ a, IsAncestor s.pprev a m → (s.index a).nStatus.failed = false

/-- The search ends at a candidate that can be reached. -/
theorem Working.findMostWorkChain (working : Working env s r)
    (hrounds : s.setBlockIndexCandidates.length ≤ rounds) : ∃ m s',
      findMostWorkChain env rounds s = (some m, s') ∧ Working env s' r ∧ MostWork env s' r m := by
  induction rounds generalizing s with
  | zero =>
    have hnil := List.length_eq_zero_iff.mp (Nat.le_zero.mp hrounds)
    have hr := working.candidate
    rw [hnil] at hr
    exact absurd hr List.not_mem_nil
  | succ rounds ih =>
    obtain ⟨m, hbest, hmcandidate, hmbest⟩ := @exists_bestCandidate env s r working.candidate
    obtain ⟨hmmem, hmcounted, -⟩ := working.chained.candidates m hmcandidate
    obtain ⟨fork, hfork, hpath, hhead, hoff⟩ := working.toSound.pathToChain_spec hmmem
    have placed := working.chained.placed working.tree
    unfold ChainState.findMostWorkChain
    rw [hbest]
    dsimp only
    cases hfind : (s.pathToChain m).find? fun x => !s.usable x with
    | none =>
      dsimp only
      refine ⟨m, s, rfl, working, hmcandidate, hmbest r working.candidate, ?_⟩
      intro a ha
      rcases isAncestor_chain_cases hpath hhead ha with hmem | hanc
      · have husable := List.find?_eq_none.mp hfind a hmem
        unfold usable at husable
        simp only [Bool.not_eq_true', Bool.and_eq_false_iff, Bool.not_eq_false', not_or,
          Bool.not_eq_true] at husable
        exact husable.1
      · exact working.clear a (placed.ancestor_mem hfork hanc)
    | some t =>
      dsimp only
      obtain ⟨hunusable, before, after, hsplit, hbefore⟩ := List.find?_eq_some_iff_append.mp hfind
      have hunusable' : s.usable t = false := by
        rw [Bool.not_eq_true'] at hunusable
        exact hunusable
      have htake : (s.pathToChain m).takeWhile s.usable = before := by
        have hall : ∀ a ∈ before, s.usable a = true := by
          intro a ha
          rw [← Bool.not_not (s.usable a)]
          exact hbefore a ha
        rw [hsplit, List.takeWhile_append_of_pos hall, List.takeWhile_cons, hunusable']
        exact List.append_nil before
      have htm : IsAncestor s.pprev t m := by
        apply isAncestor_of_mem_chain hpath hhead
        rw [hsplit]
        simp
      have htmem := (working.tree.of_ancestor hmmem htm).1
      have hfailed : (s.index t).nStatus.failed = true := by
        have hdata := (working.data.counted_iff working.tree hmmem).mp hmcounted t htm
        unfold usable at hunusable'
        rw [hdata, Bool.and_true, Bool.not_eq_false'] at hunusable'
        exact hunusable'
      have habove : ∀ y ∈ before, IsAncestor s.pprev t y := by
        intro y hy
        rw [hsplit, List.append_assoc] at hpath
        exact isAncestor_of_mem_before hpath hy
      have hbeforeoff : ∀ y ∈ before, y ∉ s.chainActive := by
        intro y hy
        apply hoff
        rw [hsplit]
        exact List.mem_append_left _ hy
      have hdropped : Dropped s (s.dropChain before t) t before := dropped_dropChain hfailed
      have hworking := working.dropped hdropped hfailed htmem habove hbeforeoff
      have hm : m ∈ t :: before := by
        rw [hsplit, List.append_assoc] at hhead
        cases before with
        | nil =>
          rw [Option.some.inj hhead.symm]
          exact List.mem_cons_self
        | cons b before =>
          rw [Option.some.inj hhead.symm]
          simp
      have hshorter : (s.dropChain before t).setBlockIndexCandidates.length <
          s.setBlockIndexCandidates.length := by
        rw [hdropped.candidates, List.length_filter_lt_length_iff_exists]
        refine ⟨m, hmcandidate, ?_⟩
        rw [Bool.not_eq_true', List.contains_eq_mem, decide_eq_false_iff_not, not_not]
        exact hm
      rw [htake]
      exact ih hworking (by omega)

end

end ChainState

end Lytix
