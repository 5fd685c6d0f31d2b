import Lytix.Chain.FindMostWorkChain

/-! `ActivateBestChain`: every block that is connected or refused on the way keeps the candidates
complete for a block the tip has been at, and at the end that is the tip. -/
namespace Lytix
open Ancestry

namespace ChainState

/-- What `ConnectTip` may answer: there is no error, and a block it has connected before is not found
invalid. -/
def Answers (connect : ChainState → Uint256 → ConnectTipOutcome) : Prop :=
  ∀ s pindex, connect s pindex ≠ .error ∧
    (BLOCK_VALID_SCRIPTS ≤ (s.index pindex).nStatus.valid → connect s pindex ≠ .invalid false)

section
variable {env : ChainEnv} {s s' : ChainState} {x y m p r t fork : Uint256} {c above : List Uint256}
  {rounds : ℕ} {connect : ChainState → Uint256 → ConnectTipOutcome}

/-! Down to the fork. -/

theorem Working.below (working : Working env s r) (hc : s.chainActive = c ++ above)
    (hlast : c.getLast? = some fork) : Working env { s with chainActive := c } r := by
  have placed := working.chained.placed working.tree
  have hsub : ∀ y ∈ c, y ∈ s.chainActive := by
    intro y hy
    rw [hc]
    exact List.mem_append_left _ hy
  obtain ⟨t, ht, htmem⟩ := working.chained.tip_eq
  obtain ⟨htindex, htcounted, -⟩ := working.chained.blocks t htmem
  have hforkmem := hsub fork (List.mem_of_getLast? hlast)
  have hnotworse : s.worse env t fork = false :=
    working.data.not_worse_of_ancestor working.tree htindex htcounted
      (placed.isAncestor_tip hforkmem ht)
  have hsame : OnlyFlags s { s with chainActive := c } := ⟨rfl, rfl, rfl, fun _ => ⟨_, _, rfl⟩⟩
  constructor
  case toSound =>
    constructor
    case tree => exact working.tree.same hsame.sameData.toSameTree
    case data => exact working.data.same hsame.sameData
    case status => exact ⟨working.status.failed, working.status.scripts⟩
    case chained =>
      constructor
      case genesis =>
        have hgenesis := working.chained.genesis
        have hne : c ≠ [] := by
          rintro rfl
          contradiction
        rw [hc, List.head?_append_of_ne_nil _ hne] at hgenesis
        exact hgenesis
      case path => exact (placed.below hc).path
      case blocks =>
        intro y hy
        exact working.chained.blocks y (hsub y hy)
      case candidates =>
        intro y hy
        obtain ⟨hmem, hcounted, hbest⟩ := working.chained.candidates y hy
        refine ⟨hmem, hcounted, ?_⟩
        intro tip htip
        have htip' : tip = fork := Option.some.inj (htip.symm.trans hlast)
        rw [htip']
        exact not_worse_trans (hbest t ht) hnotworse
    case clear =>
      intro y hy
      exact working.clear y (hsub y hy)
  case candidate => exact working.candidate
  case connected => exact working.connected
  case complete => exact working.complete

/-! One block is connected. -/

/-- The entry of a block that is connected. -/
theorem raiseValidity_of_clear {entry : CBlockIndex} (hclear : entry.nStatus.failed = false)
    (nUpTo : ℕ) : entry.raiseValidity nUpTo = { entry with nStatus :=
      { entry.nStatus with valid := max entry.nStatus.valid nUpTo } } := by
  unfold CBlockIndex.raiseValidity
  rw [if_neg (by rw [hclear]; exact Bool.false_ne_true)]
  split_ifs with hlt
  · rw [max_eq_right hlt.le]
  · rw [max_eq_left (not_lt.mp hlt)]

/-- What connecting a block `x` does: it is the new tip, its scripts are valid, and candidates that
are worse are gone. -/
structure Connected (env : ChainEnv) (s s' : ChainState) (x : Uint256) : Prop where
  same : SameData s s'
  chain : s'.chainActive = s.chainActive ++ [x]
  flags : ∀ y, (s'.index y).nStatus.failed = (s.index y).nStatus.failed ∧
    (s'.index y).nStatus.failedValid = (s.index y).nStatus.failedValid
  valid : ∀ y, (s'.index y).nStatus.valid =
    if y = x then max (s.index y).nStatus.valid BLOCK_VALID_SCRIPTS else (s.index y).nStatus.valid
  candidates : ∀ y, y ∈ s'.setBlockIndexCandidates ↔
    y ∈ s.setBlockIndexCandidates ∧ s.worse env y x = false

theorem Placed.same (placed : Placed s) (h : SameTree s s')
    (hc : s'.chainActive = s.chainActive) : Placed s' where
  path := by
    rw [hc, h.pprev_eq]
    exact placed.path
  heights := by
    intro i x hx
    rw [hc] at hx
    rw [h.height]
    exact placed.heights i x hx

/-- The scripts of a block are found valid. -/
def raised (s : ChainState) (pindex : Uint256) : ChainState :=
  s.modify pindex fun entry => entry.raiseValidity BLOCK_VALID_SCRIPTS

theorem index_raised_of_ne (hne : y ≠ x) : (s.raised x).index y = s.index y :=
  Function.update_of_ne hne _ _

theorem index_raised_self (hclear : (s.index x).nStatus.failed = false) :
    (s.raised x).index x = { s.index x with nStatus := { (s.index x).nStatus with
      valid := max (s.index x).nStatus.valid BLOCK_VALID_SCRIPTS } } := by
  have hself : (s.raised x).index x = (s.index x).raiseValidity BLOCK_VALID_SCRIPTS :=
    Function.update_self _ _ _
  rw [hself, raiseValidity_of_clear hclear]

/-- What does not depend on how far a block is validated. -/
theorem field_raised {β : Type*} {field : CBlockIndex → β}
    (hclear : (s.index x).nStatus.failed = false)
    (hfield : ∀ entry valid,
      field { entry with nStatus := { entry.nStatus with valid := valid } } = field entry) :
    field ((s.raised x).index y) = field (s.index y) := by
  by_cases hne : y = x
  · rw [hne, index_raised_self hclear, hfield]
  · rw [index_raised_of_ne hne]

theorem sameData_raised (hclear : (s.index x).nStatus.failed = false)
    (hvalid : BLOCK_VALID_TRANSACTIONS ≤ (s.index x).nStatus.valid) :
    SameData s (s.raised x) := by
  constructor
  case toSameTree =>
    constructor
    case mapBlockIndex => rfl
    case pskip => rfl
    case pprev => exact fun y => field_raised hclear fun _ _ => rfl
    case height => exact fun y => field_raised hclear fun _ _ => rfl
    case work => exact fun y => field_raised hclear fun _ _ => rfl
    case bits => exact fun y => field_raised hclear fun _ _ => rfl
  case mapBlocksUnlinked => rfl
  case haveData =>
    exact fun y => @field_raised _ _ _ _ (fun entry => entry.nStatus.haveData) hclear fun _ _ => rfl
  case nTx => exact fun y => field_raised hclear fun _ _ => rfl
  case nChainTx => exact fun y => field_raised hclear fun _ _ => rfl
  case sequence => exact fun y => field_raised hclear fun _ _ => rfl
  case valid =>
    intro y _
    by_cases hne : y = x
    · rw [hne, index_raised_self hclear]
      exact ⟨le_max_left _ _, fun _ => hvalid⟩
    · rw [index_raised_of_ne hne]
      exact ⟨le_rfl, id⟩

theorem Sound.connectTip (sound : Sound env s) (ht : s.tip = some t) (hp : s.pprev x = some t)
    (hx : x ∈ s.mapBlockIndex) (hcounted : (s.index x).nChainTx ≠ 0)
    (hclear : (s.index x).nStatus.failed = false) :
    Connected env s ((s.connectTip x).pruneBlockIndexCandidates env) x := by
  have hheight := (sound.tree.of_pprev hx hp).2.1
  have hvalid : BLOCK_VALID_TRANSACTIONS ≤ (s.index x).nStatus.valid := by
    have hdata := ((sound.data.linked x hx List.not_mem_nil).mp hcounted).1
    obtain ⟨hstored, htransactions, -⟩ := sound.data.stored x hx
    exact htransactions.mpr (hstored.mp hdata)
  have hsame : SameData s (s.raised x) := sameData_raised hclear hvalid
  have placed : Placed (s.raised x) :=
    (sound.chained.placed sound.tree).same hsame.toSameTree rfl
  have hraised : (s.raised x).setTip (some x) =
      { s.raised x with chainActive := s.chainActive ++ [x] } := by
    apply placed.setTip_child
    · exact ht
    · exact (hsame.pprev x).trans hp
    · rw [hsame.height, hsame.height]
      exact hheight
  have hconnect : s.connectTip x = { s.raised x with chainActive := s.chainActive ++ [x] } := by
    unfold ChainState.connectTip
    dsimp only
    rw [if_pos (by omega)]
    exact hraised
  rw [hconnect]
  constructor
  case same => exact ⟨⟨rfl, rfl, hsame.pprev, hsame.height, hsame.work, hsame.bits⟩, rfl,
    hsame.haveData, hsame.nTx, hsame.nChainTx, hsame.sequence, hsame.valid⟩
  case chain => rfl
  case flags =>
    intro y
    show ((s.raised x).index y).nStatus.failed = _ ∧ ((s.raised x).index y).nStatus.failedValid = _
    by_cases hne : y = x
    · rw [hne, index_raised_self hclear]
      exact ⟨rfl, rfl⟩
    · rw [index_raised_of_ne hne]
      exact ⟨rfl, rfl⟩
  case valid =>
    intro y
    show ((s.raised x).index y).nStatus.valid = _
    by_cases hne : y = x
    · rw [if_pos hne, hne, index_raised_self hclear]
    · rw [if_neg hne, index_raised_of_ne hne]
  case candidates =>
    intro y
    have htip : ({ s.raised x with chainActive := s.chainActive ++ [x] } : ChainState).tip =
        some x := List.getLast?_concat
    unfold pruneBlockIndexCandidates
    dsimp only
    rw [List.mem_filter, htip, Option.any_some, Bool.not_eq_true', ← hsame.worse_eq]
    exact Iff.rfl

theorem Connected.sound (hs' : Connected env s s' x) (sound : Sound env s) (ht : s.tip = some t)
    (hp : s.pprev x = some t) (hx : x ∈ s.mapBlockIndex) (hcounted : (s.index x).nChainTx ≠ 0)
    (hclear : (s.index x).nStatus.failed = false) : Sound env s' := by
  have hsame := hs'.same
  have hmono : ∀ y, (s.index y).nStatus.valid ≤ (s'.index y).nStatus.valid := by
    intro y
    rw [hs'.valid]
    split_ifs
    · exact le_max_left _ _
    · exact le_rfl
  have hself : BLOCK_VALID_SCRIPTS ≤ (s'.index x).nStatus.valid := by
    rw [hs'.valid, if_pos rfl]
    exact le_max_right _ _
  have htmem := List.mem_of_getLast? ht
  constructor
  case tree => exact sound.tree.same hsame.toSameTree
  case data => exact sound.data.same hsame
  case status =>
    constructor
    case failed =>
      intro y hy hfailed
      rw [hsame.mapBlockIndex] at hy
      rw [(hs'.flags y).1] at hfailed
      rw [hsame.pprev_eq]
      obtain ⟨a, hanc, ha⟩ := sound.status.failed y hy hfailed
      refine ⟨a, hanc, ?_⟩
      rw [(hs'.flags a).2]
      exact ha
    case scripts =>
      intro y hy hvalid
      rw [hsame.mapBlockIndex] at hy
      simp only [hsame.pprev]
      by_cases hne : y = x
      · rw [hne]
        refine ⟨hself, ?_⟩
        intro p hparent hpgenesis
        rw [← Option.some.inj (hp.symm.trans hparent)] at hpgenesis ⊢
        exact ((sound.chained.blocks t htmem).2.2 hpgenesis).trans (hmono t)
      · rw [hs'.valid, if_neg hne] at hvalid
        obtain ⟨hscripts, hparents⟩ := sound.status.scripts y hy hvalid
        exact ⟨hscripts.trans (hmono y), fun p hparent hpgenesis =>
          (hparents p hparent hpgenesis).trans (hmono p)⟩
  case chained =>
    constructor
    case genesis =>
      have hne : s.chainActive ≠ [] := List.ne_nil_of_mem htmem
      rw [hs'.chain, List.head?_append_of_ne_nil _ hne]
      exact sound.chained.genesis
    case path =>
      rw [hs'.chain, hsame.pprev_eq]
      intro i y hy
      by_cases hi : i < s.chainActive.length
      · rw [List.getElem?_append_left hi] at hy
        rw [List.getElem?_append_left (by omega)]
        exact sound.chained.path i y hy
      · have hlt := (List.getElem?_eq_some_iff.mp hy).1
        rw [List.length_append, List.length_singleton] at hlt
        have hlen : i = s.chainActive.length := by omega
        have hpos : 0 < s.chainActive.length := List.length_pos_of_mem htmem
        have hyx : y = x := by
          rw [hlen, List.getElem?_append_right le_rfl, Nat.sub_self] at hy
          exact (Option.some.inj hy).symm
        rw [hyx, hp, hlen, if_neg (by omega), List.getElem?_append_left (by omega),
          ← List.getLast?_eq_getElem?]
        exact ht.symm
    case blocks =>
      intro y hy
      rw [hs'.chain] at hy
      rw [hsame.mapBlockIndex, hsame.nChainTx]
      rcases List.mem_append.mp hy with hy | hy
      · obtain ⟨hmem, hycounted, hscripts⟩ := sound.chained.blocks y hy
        exact ⟨hmem, hycounted, fun hne => (hscripts hne).trans (hmono y)⟩
      · rw [List.mem_singleton.mp hy]
        exact ⟨hx, hcounted, fun _ => hself⟩
    case candidates =>
      intro y hy
      obtain ⟨hold, hbest⟩ := (hs'.candidates y).mp hy
      obtain ⟨hmem, hycounted, -⟩ := sound.chained.candidates y hold
      rw [hsame.mapBlockIndex, hsame.nChainTx]
      refine ⟨hmem, hycounted, ?_⟩
      intro tip htip
      have htipx : tip = x := by
        unfold ChainState.tip at htip
        rw [hs'.chain, List.getLast?_concat] at htip
        exact (Option.some.inj htip).symm
      rw [hsame.worse_eq, htipx]
      exact hbest
  case clear =>
    intro y hy
    rw [hs'.chain] at hy
    rw [(hs'.flags y).1]
    rcases List.mem_append.mp hy with hy | hy
    · exact sound.clear y hy
    · rw [List.mem_singleton.mp hy]
      exact hclear

/-- A block that is no worse than the one to come back to, and than the one that is connected, is
still a candidate. -/
theorem Working.still_complete (working : Working env s r) (hs' : Connected env s s' x)
    {y : Uint256} (hy : y ∈ s'.mapBlockIndex) (hcounted : (s'.index y).nChainTx ≠ 0)
    (hclear : (s'.index y).nStatus.failed = false) (hr : s.worse env y r = false)
    (hx : s.worse env y x = false) : y ∈ s'.setBlockIndexCandidates := by
  rw [hs'.same.mapBlockIndex] at hy
  rw [hs'.same.nChainTx] at hcounted
  rw [(hs'.flags y).1] at hclear
  exact (hs'.candidates y).mpr ⟨working.complete y hy hcounted hclear hr, hx⟩

/-- A block that is connected is the new block to come back to if it is better than the old one. -/
theorem Working.connected_block (working : Working env s r) (hs' : Connected env s s' x)
    (ht : s.tip = some t) (hp : s.pprev x = some t) (hx : x ∈ s.mapBlockIndex)
    (hcounted : (s.index x).nChainTx ≠ 0) (hclear : (s.index x).nStatus.failed = false)
    (hmr : s.worse env m r = false) (hmx : s.worse env m x = false) :
    ∃ r', Working env s' r' ∧ s'.worse env m r' = false := by
  have hsame := hs'.same
  have sound := hs'.sound working.toSound ht hp hx hcounted hclear
  by_cases hworse : s.worse env r x = true
  · have hnot := not_worse_of_worse hworse
    have hxchain : x ∈ s'.chainActive := by
      rw [hs'.chain]
      exact List.mem_append_right _ (List.mem_singleton_self x)
    refine ⟨x, ?_, by rw [hsame.worse_eq]; exact hmx⟩
    constructor
    case toSound => exact sound
    case candidate =>
      exact (hs'.candidates x).mpr ⟨working.complete x hx hcounted hclear hnot, worse_self⟩
    case connected =>
      intro a ha
      have hamem := (sound.chained.placed sound.tree).ancestor_mem hxchain ha
      exact ⟨sound.clear a hamem, (sound.chained.blocks a hamem).2.2⟩
    case complete =>
      intro y hy hycounted hyclear hbest
      rw [hsame.worse_eq] at hbest
      exact working.still_complete hs' hy hycounted hyclear (not_worse_trans hbest hnot) hbest
  · have hnot := eq_false_of_ne_true hworse
    refine ⟨r, ?_, by rw [hsame.worse_eq]; exact hmr⟩
    constructor
    case toSound => exact sound
    case candidate => exact (hs'.candidates r).mpr ⟨working.candidate, hnot⟩
    case connected =>
      intro a ha
      rw [hsame.pprev_eq] at ha
      obtain ⟨haclear, hscripts⟩ := working.connected a ha
      rw [(hs'.flags a).1, hs'.valid]
      refine ⟨haclear, ?_⟩
      intro hne
      split_ifs
      · exact le_max_right _ _
      · exact hscripts hne
    case complete =>
      intro y hy hycounted hyclear hbest
      rw [hsame.worse_eq] at hbest
      exact working.still_complete hs' hy hycounted hyclear hbest (not_worse_trans hbest hnot)

/-! A block is refused. -/

/-- A block that was never connected may be found invalid. -/
theorem Working.invalidBlockFound (working : Working env s r) (hx : x ∈ s.mapBlockIndex)
    (hgenesis : x ≠ env.hashGenesisBlock)
    (hscripts : ¬ BLOCK_VALID_SCRIPTS ≤ (s.index x).nStatus.valid) :
    Working env (s.invalidBlockFound x) r := by
  have hflags : OnlyFlags s (s.invalidBlockFound x) := by
    have hmodify : OnlyFlags s (s.modify x setFailedValid) := onlyFlags_modify
      fun entry => ⟨_, _, rfl⟩
    exact ⟨rfl, rfl, rfl, hmodify.entry⟩
  have hsame := hflags.sameData
  have hindex : ∀ y, (s.invalidBlockFound x).index y =
      if y = x then setFailedValid (s.index x) else s.index y := fun y => index_setFailedValid
  have hfailed : ∀ y, y ≠ x →
      ((s.invalidBlockFound x).index y).nStatus.failed = (s.index y).nStatus.failed := by
    intro y hne
    rw [hindex, if_neg hne]
  have hself : ((s.invalidBlockFound x).index x).nStatus.failedValid = true := by
    rw [hindex, if_pos rfl]
    rfl
  have hchain : ∀ y ∈ s.chainActive, y ≠ x := by
    rintro y hy rfl
    exact hscripts ((working.chained.blocks y hy).2.2 hgenesis)
  have hconnected : ∀ a, IsAncestor s.pprev a r → a ≠ x := by
    rintro a ha rfl
    exact hscripts ((working.connected a ha).2 hgenesis)
  have hcandidates : ∀ y, y ∈ (s.invalidBlockFound x).setBlockIndexCandidates ↔
      y ∈ s.setBlockIndexCandidates ∧ y ≠ x := by
    intro y
    unfold ChainState.invalidBlockFound
    rw [mem_eraseCandidates, List.mem_singleton]
    exact Iff.rfl
  constructor
  case toSound =>
    constructor
    case tree => exact working.tree.same hsame.toSameTree
    case data => exact working.data.same hsame
    case status =>
      apply working.status.raise hflags
      · intro y hy
        by_cases hne : y = x
        · rw [hne]
          exact hself
        · rw [hindex, if_neg hne]
          exact hy
      · intro y _ hyfailed
        by_cases hne : y = x
        · right
          rw [hne]
          exact ⟨x, IsAncestor.refl _ _, hself⟩
        · rw [hfailed y hne] at hyfailed
          exact Or.inl hyfailed
    case chained =>
      constructor
      case genesis => exact working.chained.genesis
      case path =>
        rw [hsame.pprev_eq]
        exact working.chained.path
      case blocks =>
        intro y hy
        rw [hsame.nChainTx, hflags.valid_eq]
        exact working.chained.blocks y hy
      case candidates =>
        intro y hy
        rw [hsame.nChainTx]
        simp only [hsame.worse_eq]
        exact working.chained.candidates y ((hcandidates y).mp hy).1
    case clear =>
      intro y hy
      rw [hfailed y (hchain y hy)]
      exact working.clear y hy
  case candidate =>
    exact (hcandidates r).mpr ⟨working.candidate, hconnected r (IsAncestor.refl _ _)⟩
  case connected =>
    intro a ha
    rw [hsame.pprev_eq] at ha
    rw [hfailed a (hconnected a ha), hflags.valid_eq]
    exact working.connected a ha
  case complete =>
    intro y hy hcounted hclear hbest
    rw [hsame.nChainTx] at hcounted
    rw [hsame.worse_eq] at hbest
    have hne : y ≠ x := by
      rintro rfl
      unfold BlockStatus.failed at hclear
      rw [hself] at hclear
      contradiction
    rw [hfailed y hne] at hclear
    exact (hcandidates y).mpr ⟨working.complete y hy hcounted hclear hbest, hne⟩

/-! The blocks on the way. -/

/-- Connecting the blocks up to `m` keeps the candidates complete for a block that `m` is not worse
than. -/
theorem Working.connectBlocks (hconnect : Answers connect) (pindexOldTip : Option Uint256)
    (path : List Uint256) (working : Working env s r) (ht : s.tip = some t)
    (hpath : (t :: path).IsChain fun p x => s.pprev x = some p)
    (habove : ∀ x ∈ path, IsAncestor s.pprev x m) (hm : m ∈ s.mapBlockIndex)
    (hcounted : (s.index m).nChainTx ≠ 0)
    (hclear : ∀ a, IsAncestor s.pprev a m → (s.index a).nStatus.failed = false)
    (hmr : s.worse env m r = false) :
    ∃ s' r', connectBlocks env connect pindexOldTip path s = (true, s') ∧ Working env s' r' ∧
      s'.worse env m r' = false := by
  induction path generalizing s r t with
  | nil => exact ⟨s, r, rfl, working, hmr⟩
  | cons x path ih =>
    obtain ⟨hp, htail⟩ := List.isChain_cons_cons.mp hpath
    have hxm := habove x List.mem_cons_self
    have hx := (working.tree.of_ancestor hm hxm).1
    have hxcounted := working.data.counted_of_ancestor working.tree hm hcounted hxm
    have hxgenesis : x ≠ env.hashGenesisBlock := by
      rintro rfl
      rw [working.tree.genesis_pprev] at hp
      contradiction
    obtain ⟨hnoerror, hagain⟩ := hconnect s x
    unfold ChainState.connectBlocks
    cases houtcome : connect s x with
    | error => exact absurd houtcome hnoerror
    | invalid corruptionPossible =>
      dsimp only
      cases corruptionPossible with
      | true => exact ⟨s, r, rfl, working, hmr⟩
      | false =>
        have hscripts : ¬ BLOCK_VALID_SCRIPTS ≤ (s.index x).nStatus.valid := by
          intro hvalid
          exact hagain hvalid houtcome
        have hrefused := working.invalidBlockFound hx hxgenesis hscripts
        have hsame : OnlyFlags s (s.invalidBlockFound x) := by
          have hmodify : OnlyFlags s (s.modify x setFailedValid) := onlyFlags_modify
            fun entry => ⟨_, _, rfl⟩
          exact ⟨rfl, rfl, rfl, hmodify.entry⟩
        refine ⟨s.invalidBlockFound x, r, rfl, hrefused, ?_⟩
        rw [hsame.sameData.worse_eq]
        exact hmr
    | connected =>
      dsimp only
      have hs' := working.toSound.connectTip ht hp hx hxcounted (hclear x hxm)
      have hmx := working.data.not_worse_of_ancestor working.tree hm hcounted hxm
      obtain ⟨r', hworking, hmr'⟩ :=
        working.connected_block hs' ht hp hx hxcounted (hclear x hxm) hmr hmx
      generalize (s.connectTip x).pruneBlockIndexCandidates env = s' at *
      split_ifs
      · exact ⟨s', r', rfl, hworking, hmr'⟩
      · have hsame := hs'.same
        have htip : s'.tip = some x := by
          unfold tip
          rw [hs'.chain]
          exact List.getLast?_concat
        apply ih hworking htip
        · simp only [hsame.pprev]
          exact htail
        · intro y hy
          rw [hsame.pprev_eq]
          exact habove y (List.mem_cons_of_mem _ hy)
        · rw [hsame.mapBlockIndex]
          exact hm
        · rw [hsame.nChainTx]
          exact hcounted
        · intro a ha
          rw [hsame.pprev_eq] at ha
          rw [(hs'.flags a).1]
          exact hclear a ha
        · exact hmr'

theorem Working.activateBestChainStep (hconnect : Answers connect) (working : Working env s r)
    (most : MostWork env s r m) : ∃ s' r',
      s.activateBestChainStep env connect m = (true, s') ∧ Working env s' r' ∧
        s'.worse env m r' = false := by
  obtain ⟨hm, hcounted, -⟩ := working.chained.candidates m most.candidate
  obtain ⟨fork, hfork, hpath, hhead, hoff⟩ := working.toSound.pathToChain_spec hm
  have hforkAt : s.findFork m = some fork := by
    unfold findFork
    cases hlast : (s.pathToChain m).getLast? with
    | none =>
      rw [List.getLast?_eq_none_iff.mp hlast] at hhead
      exact hhead.symm
    | some first => exact (List.isChain_append.mp hpath).2.2 first hlast fork rfl
  obtain ⟨c, above, hsplit⟩ := List.append_of_mem hfork
  have hc : s.chainActive = (c ++ [fork]) ++ above := by
    rw [hsplit, List.append_assoc]
    rfl
  have hlast : (c ++ [fork]).getLast? = some fork := List.getLast?_concat
  have placed := working.chained.placed working.tree
  have hbelow := working.below hc hlast
  have hlength : above.length ≤ s.chainActive.length := by
    rw [hsplit, List.length_append, List.length_cons]
    omega
  have hreverse : (fork :: (s.pathToChain m).reverse).IsChain fun p x => s.pprev x = some p := by
    have hrev := List.isChain_reverse.mpr hpath
    rw [List.reverse_append] at hrev
    exact hrev
  have habove : ∀ x ∈ (s.pathToChain m).reverse, IsAncestor s.pprev x m := by
    intro x hx
    apply isAncestor_of_mem_chain hpath hhead
    exact List.mem_append_left _ (List.mem_reverse.mp hx)
  unfold ChainState.activateBestChainStep
  rw [hforkAt, placed.disconnectTo_eq hc hlast hlength]
  exact hbelow.connectBlocks hconnect s.tip (s.pathToChain m).reverse hlast hreverse habove hm
    hcounted most.clear most.best

/-- When the best candidate is the tip, the block index is settled. -/
theorem Working.settled (working : Working env s r) (ht : s.tip = some m)
    (hmr : s.worse env m r = false) : Settled env s where
  toSound := working.toSound
  complete := by
    intro tip htip
    rw [Option.mem_unique htip ht]
    exact working.complete.of_not_worse hmr

theorem Working.activateBestChain (hconnect : Answers connect) (working : Working env s r)
    (h : s.activateBestChain env connect rounds = some s') : Settled env s' := by
  induction rounds generalizing s r with
  | zero =>
    unfold ChainState.activateBestChain at h
    contradiction
  | succ rounds ih =>
    unfold ChainState.activateBestChain at h
    obtain ⟨m, found, hfound, hworking, most⟩ := working.findMostWorkChain le_rfl
    rw [hfound] at h
    dsimp only at h
    by_cases hdone : found.tip = some m
    · rw [if_pos hdone] at h
      rw [← Option.some.inj h]
      exact hworking.settled hdone most.best
    · rw [if_neg hdone] at h
      obtain ⟨stepped, r', hstep, hstepped, hmr⟩ :=
        hworking.activateBestChainStep hconnect most
      rw [hstep] at h
      dsimp only at h
      by_cases htip : stepped.tip = some m
      · rw [if_pos htip] at h
        rw [← Option.some.inj h]
        exact hstepped.settled htip hmr
      · rw [if_neg htip] at h
        exact ih hstepped h

/-- The best chain is activated, and the block index is left settled. -/
theorem Settled.activateBestChain (settled : Settled env s) (hconnect : Answers connect)
    (h : s.activateBestChain env connect rounds = some s') : Settled env s' := by
  obtain ⟨t, ht, -⟩ := settled.chained.tip_eq
  exact (settled.working ht).activateBestChain hconnect h

end

end ChainState

end Lytix
