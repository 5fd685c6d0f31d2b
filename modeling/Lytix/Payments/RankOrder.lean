import Mathlib.Data.List.Sort
import Mathlib.Logic.Equiv.Basic
import Lytix.Payments.WinnerVotes

/-! `GetMasternodeRank` and `GetMasternodeByRank` at one block. Each scores its own selection of
`vMasternodes`, and `sort` only sees the scores. -/
namespace Lytix

/-- What `sort(rbegin, rend, CompareScoreTxIn())` promises, and that it looks at the elements only
through the comparison. -/
structure SortsByScore (sort : List (Nat × CTxIn) → List (Nat × CTxIn)) : Prop where
  perm (scores : List (Nat × CTxIn)) : (sort scores).Perm scores
  descending (scores : List (Nat × CTxIn)) : (sort scores).Pairwise fun s t => t.1 ≤ s.1
  blind (scores : List (Nat × CTxIn)) (f : CTxIn → CTxIn) :
    sort (scores.map fun s => (s.1, f s.2)) = (sort scores).map fun s => (s.1, f s.2)

theorem sortsByScore_sortScores : SortsByScore sortScores where
  perm scores := by
    have hsort := List.perm_insertionSort (fun s t : Nat × CTxIn => s.1 ≤ t.1) scores.reverse
    exact (List.reverse_perm _).trans (hsort.trans (List.reverse_perm _))
  descending scores := by
    unfold sortScores
    rw [List.pairwise_reverse]
    have : Std.Total fun s t : Nat × CTxIn => s.1 ≤ t.1 := ⟨fun s t => Nat.le_total _ _⟩
    have : IsTrans (Nat × CTxIn) fun s t => s.1 ≤ t.1 := ⟨fun s t u => Nat.le_trans⟩
    exact List.pairwise_insertionSort _ _
  blind scores f := by
    unfold sortScores
    simp only [List.map_reverse]
    congr 1
    rw [← List.map_reverse]
    symm
    apply List.map_insertionSort
    intro s _ t _
    rfl

section ranks
variable (env : RankEnv) (view : ChainView) (sort : List (Nat × CTxIn) → List (Nat × CTxIn))

/-- `getMasternodeRank` for any sort. -/
def getMasternodeRankBy (cache : BlockHashCache) (vin : CTxIn) (nBlockHeight minProtocol : Int)
    (fOnlyActive : Bool) : Int × BlockHashCache :=
  let result := view.getBlockHash cache (toInt32 nBlockHeight)
  if result.1 = none then (-1, result.2)
  else
    let scores :=
      scoreMasternodes env view nBlockHeight minProtocol fOnlyActive env.vMasternodes result.2
    match (sort scores.1).findIdx? fun s => s.2.prevout == vin.prevout with
    | some i => ((i : Int) + 1, scores.2)
    | none => (-1, scores.2)

/-- The loop of `GetMasternodeByRank` over the masternodes, which does not look at their age. -/
def scoreOfAnyAge (nBlockHeight minProtocol : Int) (fOnlyActive : Bool) :
    List CMasternode → BlockHashCache → List (Nat × CTxIn) × BlockHashCache
  | [], cache => ([], cache)
  | mn :: rest, cache =>
    if mn.protocolVersion < minProtocol then
      scoreOfAnyAge nBlockHeight minProtocol fOnlyActive rest cache
    else if fOnlyActive ∧ env.enabled mn = false then
      scoreOfAnyAge nBlockHeight minProtocol fOnlyActive rest cache
    else
      let score := calculateScore env view cache mn nBlockHeight
      let scores := scoreOfAnyAge nBlockHeight minProtocol fOnlyActive rest score.2
      ((getCompact score.1, mn.vin) :: scores.1, scores.2)

def getMasternodeByRank (cache : BlockHashCache) (nRank nBlockHeight minProtocol : Int)
    (fOnlyActive : Bool) : Option CMasternode × BlockHashCache :=
  let scores := scoreOfAnyAge env view nBlockHeight minProtocol fOnlyActive env.vMasternodes cache
  let vecMasternodeScores := sort scores.1
  if 1 ≤ nRank then
    match vecMasternodeScores[(nRank - 1).toNat]? with
    | some s => (env.find s.2, scores.2)
    | none => (none, scores.2)
  else (none, scores.2)

end ranks

/-- Whether `GetMasternodeRank` scores the masternode. -/
def RankEnv.ranked (env : RankEnv) (minProtocol : Int) (fOnlyActive : Bool) (mn : CMasternode) :
    Bool :=
  decide (minProtocol ≤ mn.protocolVersion) &&
    (!isSporkActive env.sporks .SPORK_8_MASTERNODE_PAYMENT_ENFORCEMENT ||
      decide (MN_WINNER_MINIMUM_AGE ≤ env.adjustedTime - mn.sigTime)) &&
    (!fOnlyActive || env.enabled mn)

/-- Whether `GetMasternodeByRank` scores the masternode. -/
def RankEnv.rankedAnyAge (env : RankEnv) (minProtocol : Int) (fOnlyActive : Bool)
    (mn : CMasternode) : Bool :=
  decide (minProtocol ≤ mn.protocolVersion) && (!fOnlyActive || env.enabled mn)

/-- The score of a masternode as it is sorted. -/
def compactScore (env : RankEnv) (view : ChainView) (cache : BlockHashCache) (nBlockHeight : Int)
    (mn : CMasternode) : Nat :=
  getCompact (calculateScore env view cache mn nBlockHeight).1

/-- The position of a masternode in a sorted list, from 1, and -1 where it is not in it. -/
def rankIn (scores : List (Nat × CTxIn)) (vin : CTxIn) : Int :=
  match scores.findIdx? fun s => s.2.prevout == vin.prevout with
  | some i => (i : Int) + 1
  | none => -1

section loops
variable {env : RankEnv} {view : ChainView} {cache cache' : BlockHashCache}
  {nBlockHeight minProtocol : Int} {fOnlyActive : Bool}

/-- An answer is remembered, and a failure changes nothing. -/
theorem getBlockHash_again (view : ChainView) (cache : BlockHashCache) (nBlockHeight : Int) :
    view.getBlockHash (view.getBlockHash cache nBlockHeight).2 nBlockHeight =
      view.getBlockHash cache nBlockHeight := by
  unfold ChainView.getBlockHash
  cases htip : view.tip with
  | none => rfl
  | some tip =>
    dsimp only
    generalize hasked : (if nBlockHeight = 0 then ((view.index tip).nHeight : Int)
      else nBlockHeight) = asked
    cases hcached : cache asked with
    | some hash => simp [hcached]
    | none =>
      dsimp only
      by_cases hout : ((view.index tip).nHeight : Int) = 0 ∨ (view.index tip).nHeight + 1 < asked
      · rw [if_pos hout]
        dsimp only
        rw [hcached]
        exact if_pos hout
      · rw [if_neg hout]
        cases hago : view.blocksAgo tip
            (if 0 < asked then ((view.index tip).nHeight + 1 - asked).toNat else 0) with
        | some hash => simp
        | none => simp [hcached]

theorem calculateScore_fst_congr (env : RankEnv) (mn : CMasternode)
    (hasked : view.getBlockHash cache' (toInt32 nBlockHeight) =
      view.getBlockHash cache (toInt32 nBlockHeight)) :
    (calculateScore env view cache' mn nBlockHeight).1 =
      (calculateScore env view cache mn nBlockHeight).1 := by
  unfold calculateScore
  rw [hasked]
  split_ifs
  · rfl
  · rfl

/-- A score asks for the block hash, so that asking after it gives the same answer. -/
theorem getBlockHash_calculateScore (env : RankEnv) (view : ChainView) (cache : BlockHashCache)
    (nBlockHeight : Int) (mn : CMasternode) :
    view.getBlockHash (calculateScore env view cache mn nBlockHeight).2 (toInt32 nBlockHeight) =
      view.getBlockHash cache (toInt32 nBlockHeight) := by
  have hagain := getBlockHash_again view cache (toInt32 nBlockHeight)
  unfold calculateScore
  split_ifs
  · rfl
  · dsimp only
    split
    · exact hagain
    · exact hagain

/-- The list that is sorted: the selected masternodes, scored. -/
def scored (env : RankEnv) (view : ChainView) (cache : BlockHashCache) (nBlockHeight : Int)
    (keep : CMasternode → Bool) (vMasternodes : List CMasternode) : List (Nat × CTxIn) :=
  (vMasternodes.filter keep).map fun mn => (compactScore env view cache nBlockHeight mn, mn.vin)

theorem scoreMasternodes_fst {vMasternodes : List CMasternode}
    (hasked : view.getBlockHash cache' (toInt32 nBlockHeight) =
      view.getBlockHash cache (toInt32 nBlockHeight)) :
    (scoreMasternodes env view nBlockHeight minProtocol fOnlyActive vMasternodes cache').1 =
      scored env view cache nBlockHeight (env.ranked minProtocol fOnlyActive) vMasternodes := by
  induction vMasternodes generalizing cache' with
  | nil => rfl
  | cons mn rest ih =>
    unfold scoreMasternodes scored
    split_ifs with hold hyoung hinactive
    · have hkeep : ¬ env.ranked minProtocol fOnlyActive mn = true := by
        simp [RankEnv.ranked, hold]
      rw [List.filter_cons_of_neg hkeep]
      exact ih hasked
    · have hkeep : ¬ env.ranked minProtocol fOnlyActive mn = true := by
        simp [RankEnv.ranked, hyoung]
      rw [List.filter_cons_of_neg hkeep]
      exact ih hasked
    · have hkeep : ¬ env.ranked minProtocol fOnlyActive mn = true := by
        simp [RankEnv.ranked, hinactive]
      rw [List.filter_cons_of_neg hkeep]
      exact ih hasked
    · have hkeep : env.ranked minProtocol fOnlyActive mn = true := by
        simp only [not_and_or, not_lt, Bool.not_eq_true, Bool.not_eq_false] at hold hyoung hinactive
        simp [RankEnv.ranked, hold, hyoung, hinactive]
      rw [List.filter_cons_of_pos hkeep, List.map_cons]
      have hscore := calculateScore_fst_congr env mn hasked
      have hafter := getBlockHash_calculateScore env view cache' nBlockHeight mn
      have hrest := ih (hafter.trans hasked)
      dsimp only
      rw [hscore, hrest]
      rfl

theorem scoreOfAnyAge_fst {vMasternodes : List CMasternode}
    (hasked : view.getBlockHash cache' (toInt32 nBlockHeight) =
      view.getBlockHash cache (toInt32 nBlockHeight)) :
    (scoreOfAnyAge env view nBlockHeight minProtocol fOnlyActive vMasternodes cache').1 =
      scored env view cache nBlockHeight (env.rankedAnyAge minProtocol fOnlyActive)
        vMasternodes := by
  induction vMasternodes generalizing cache' with
  | nil => rfl
  | cons mn rest ih =>
    unfold scoreOfAnyAge scored
    split_ifs with hold hinactive
    · have hkeep : ¬ env.rankedAnyAge minProtocol fOnlyActive mn = true := by
        simp [RankEnv.rankedAnyAge, hold]
      rw [List.filter_cons_of_neg hkeep]
      exact ih hasked
    · have hkeep : ¬ env.rankedAnyAge minProtocol fOnlyActive mn = true := by
        simp [RankEnv.rankedAnyAge, hinactive]
      rw [List.filter_cons_of_neg hkeep]
      exact ih hasked
    · have hkeep : env.rankedAnyAge minProtocol fOnlyActive mn = true := by
        simp only [not_and_or, not_lt, Bool.not_eq_true, Bool.not_eq_false] at hold hinactive
        simp [RankEnv.rankedAnyAge, hold, hinactive]
      rw [List.filter_cons_of_pos hkeep, List.map_cons]
      have hscore := calculateScore_fst_congr env mn hasked
      have hafter := getBlockHash_calculateScore env view cache' nBlockHeight mn
      have hrest := ih (hafter.trans hasked)
      dsimp only
      rw [hscore, hrest]
      rfl

end loops

section positions
variable {scores : List (Nat × CTxIn)} {vin : CTxIn}

theorem rankIn_eq_neg_one_iff :
    rankIn scores vin = -1 ↔ ∀ s ∈ scores, s.2.prevout ≠ vin.prevout := by
  unfold rankIn
  cases hfound : scores.findIdx? fun s => s.2.prevout == vin.prevout with
  | none =>
    rw [List.findIdx?_eq_none_iff] at hfound
    simpa using hfound
  | some i =>
    obtain ⟨hi, hprevout, -⟩ := List.findIdx?_eq_some_iff_getElem.mp hfound
    have hmem : scores[i] ∈ scores := List.getElem_mem hi
    constructor
    · intro h
      dsimp only at h
      omega
    · intro h
      exact absurd (eq_of_beq hprevout) (h _ hmem)

theorem one_le_rankIn (h : rankIn scores vin ≠ -1) : 1 ≤ rankIn scores vin := by
  unfold rankIn at h ⊢
  split
  · omega
  · simp_all

/-- Where no output occurs twice, the rank is the only position at which the output stands. -/
theorem rankIn_eq_iff (hnodup : (scores.map fun s => s.2.prevout).Nodup) {nRank : Int}
    (h : 1 ≤ nRank) :
    rankIn scores vin = nRank ↔
      ∃ s, scores[(nRank - 1).toNat]? = some s ∧ s.2.prevout = vin.prevout := by
  unfold rankIn
  cases hfound : scores.findIdx? fun s => s.2.prevout == vin.prevout with
  | none =>
    rw [List.findIdx?_eq_none_iff] at hfound
    constructor
    · intro hrank
      dsimp only at hrank
      omega
    · rintro ⟨s, hs, hprevout⟩
      have hne := hfound s (List.mem_of_getElem? hs)
      simp [hprevout] at hne
  | some i =>
    obtain ⟨hi, hprevout, -⟩ := List.findIdx?_eq_some_iff_getElem.mp hfound
    have hprevout : scores[i].2.prevout = vin.prevout := eq_of_beq hprevout
    dsimp only
    constructor
    · intro hrank
      have hindex : (nRank - 1).toNat = i := by omega
      rw [hindex]
      exact ⟨scores[i], List.getElem?_eq_getElem hi, hprevout⟩
    · rintro ⟨s, hs, hvin⟩
      have hat : (scores.map fun s => s.2.prevout)[i]? =
          (scores.map fun s => s.2.prevout)[(nRank - 1).toNat]? := by
        rw [List.getElem?_map, List.getElem?_map, List.getElem?_eq_getElem hi, hs]
        simp [hprevout, hvin]
      have hindex := (List.getElem?_inj (by simpa using hi) hnodup).mp hat
      omega

end positions

/-! The sorted list of one selection. -/
section selection
variable {env : RankEnv} {view : ChainView} {sort : List (Nat × CTxIn) → List (Nat × CTxIn)}
  {cache : BlockHashCache} {nBlockHeight : Int} {keep : CMasternode → Bool}
  {vMasternodes : List CMasternode}

theorem mem_sort_scored (hsort : SortsByScore sort) {s : Nat × CTxIn} :
    s ∈ sort (scored env view cache nBlockHeight keep vMasternodes) ↔
      ∃ mn ∈ vMasternodes, keep mn ∧ s = (compactScore env view cache nBlockHeight mn, mn.vin) := by
  rw [(hsort.perm _).mem_iff]
  unfold scored
  simp only [List.mem_map, List.mem_filter]
  constructor
  · rintro ⟨mn, ⟨hmem, hkeep⟩, rfl⟩
    exact ⟨mn, hmem, hkeep, rfl⟩
  · rintro ⟨mn, hmem, hkeep, rfl⟩
    exact ⟨mn, ⟨hmem, hkeep⟩, rfl⟩

theorem nodup_sort_scored (hsort : SortsByScore sort)
    (hnodup : (vMasternodes.map fun mn => mn.vin.prevout).Nodup) :
    ((sort (scored env view cache nBlockHeight keep vMasternodes)).map
      fun s => s.2.prevout).Nodup := by
  have hperm := (hsort.perm (scored env view cache nBlockHeight keep vMasternodes)).map
    fun s => s.2.prevout
  rw [hperm.nodup_iff]
  have hsame : (scored env view cache nBlockHeight keep vMasternodes).map (fun s => s.2.prevout) =
      (vMasternodes.filter keep).map fun mn => mn.vin.prevout := by
    unfold scored
    rw [List.map_map]
    rfl
  rw [hsame]
  have hsub : (vMasternodes.filter keep).Sublist vMasternodes := List.filter_sublist
  exact hnodup.sublist (hsub.map _)

theorem eq_of_prevout (hnodup : (vMasternodes.map fun mn => mn.vin.prevout).Nodup)
    {mn mn' : CMasternode} (hmn : mn ∈ vMasternodes) (hmn' : mn' ∈ vMasternodes)
    (h : mn.vin.prevout = mn'.vin.prevout) : mn = mn' :=
  List.inj_on_of_nodup_map hnodup hmn hmn' h

/-- Exactly the masternodes that are selected have a rank. -/
theorem rankIn_sort_scored (hsort : SortsByScore sort)
    (hnodup : (vMasternodes.map fun mn => mn.vin.prevout).Nodup) {mn : CMasternode}
    (hmn : mn ∈ vMasternodes) :
    rankIn (sort (scored env view cache nBlockHeight keep vMasternodes)) mn.vin ≠ -1 ↔
      keep mn = true := by
  rw [Ne, rankIn_eq_neg_one_iff]
  push Not
  constructor
  · rintro ⟨s, hs, hprevout⟩
    obtain ⟨mn', hmn', hkeep, rfl⟩ := (mem_sort_scored hsort).mp hs
    have hsame : mn' = mn := eq_of_prevout hnodup hmn' hmn hprevout
    rwa [← hsame]
  · intro hkeep
    exact ⟨_, (mem_sort_scored hsort).mpr ⟨mn, hmn, hkeep, rfl⟩, rfl⟩

theorem eq_of_rankIn_eq (hsort : SortsByScore sort)
    (hnodup : (vMasternodes.map fun mn => mn.vin.prevout).Nodup) {mn mn' : CMasternode}
    (hmn : mn ∈ vMasternodes) (hmn' : mn' ∈ vMasternodes) (hkeep : keep mn = true)
    (h : rankIn (sort (scored env view cache nBlockHeight keep vMasternodes)) mn.vin =
      rankIn (sort (scored env view cache nBlockHeight keep vMasternodes)) mn'.vin) :
    mn = mn' := by
  have hsorted : ((sort (scored env view cache nBlockHeight keep vMasternodes)).map
      fun s => s.2.prevout).Nodup := nodup_sort_scored hsort hnodup
  have hfound : rankIn (sort (scored env view cache nBlockHeight keep vMasternodes)) mn.vin ≠ -1 :=
    (rankIn_sort_scored hsort hnodup hmn).mpr hkeep
  have hrank := one_le_rankIn hfound
  obtain ⟨s, hs, hprevout⟩ := (rankIn_eq_iff hsorted hrank).mp rfl
  obtain ⟨s', hs', hprevout'⟩ := (rankIn_eq_iff hsorted hrank).mp h.symm
  rw [hs] at hs'
  cases hs'
  exact eq_of_prevout hnodup hmn hmn' (hprevout.symm.trans hprevout')

/-- Equal scores aside, sorting forgets the order of the masternodes. -/
theorem sort_scored_perm (hsort : SortsByScore sort) {vMasternodes' : List CMasternode}
    (hperm : vMasternodes'.Perm vMasternodes)
    (hdistinct : ∀ mn ∈ vMasternodes, ∀ mn' ∈ vMasternodes, keep mn → keep mn' →
      compactScore env view cache nBlockHeight mn = compactScore env view cache nBlockHeight mn' →
        mn = mn') :
    sort (scored env view cache nBlockHeight keep vMasternodes') =
      sort (scored env view cache nBlockHeight keep vMasternodes) := by
  have hscored : (scored env view cache nBlockHeight keep vMasternodes').Perm
      (scored env view cache nBlockHeight keep vMasternodes) := (hperm.filter _).map _
  have hsorted := (hsort.perm _).trans (hscored.trans (hsort.perm _).symm)
  refine List.Perm.eq_of_pairwise ?_ (hsort.descending _) (hsort.descending _) hsorted
  intro s t hs ht hle hge
  obtain ⟨mn, hmn, hkeep, rfl⟩ := (mem_sort_scored hsort).mp hs
  obtain ⟨mn', hmn', hkeep', rfl⟩ := (mem_sort_scored hsort).mp ht
  have hsame := hdistinct mn (hperm.mem_iff.mp hmn) mn' hmn' hkeep hkeep' (Nat.le_antisymm hge hle)
  rw [hsame]

section swap
variable {mn mn' : CMasternode}

open Classical in
/-- What changing places with each other leaves as it was, for two masternodes that are selected and
have one score. -/
theorem swap_cases (hnodup : (vMasternodes.map fun mn => mn.vin.prevout).Nodup)
    (hmn : mn ∈ vMasternodes) (hmn' : mn' ∈ vMasternodes) (hkeep : keep mn = keep mn')
    (htie : compactScore env view cache nBlockHeight mn =
      compactScore env view cache nBlockHeight mn') {m : CMasternode} (hm : m ∈ vMasternodes) :
    Equiv.swap mn mn' m ∈ vMasternodes ∧ keep (Equiv.swap mn mn' m) = keep m ∧
      compactScore env view cache nBlockHeight (Equiv.swap mn mn' m) =
        compactScore env view cache nBlockHeight m ∧
      (Equiv.swap mn mn' m).vin = Equiv.swap mn.vin mn'.vin m.vin := by
  by_cases h : m = mn
  · subst h
    simp [hmn', hkeep, htie]
  · by_cases h' : m = mn'
    · subst h'
      simp [hmn, hkeep, htie]
    · have hvin : m.vin ≠ mn.vin := fun hvin => h (eq_of_prevout hnodup hm hmn (by rw [hvin]))
      have hvin' : m.vin ≠ mn'.vin := fun hvin => h' (eq_of_prevout hnodup hm hmn' (by rw [hvin]))
      rw [Equiv.swap_apply_of_ne_of_ne h h']
      exact ⟨hm, rfl, rfl, (Equiv.swap_apply_of_ne_of_ne hvin hvin').symm⟩

open Classical in
theorem map_swap_perm {α : Type} {l : List α} {x y : α} (hnodup : l.Nodup)
    (hmem : ∀ z ∈ l, Equiv.swap x y z ∈ l) : (l.map (Equiv.swap x y)).Perm l := by
  rw [List.perm_ext_iff_of_nodup (hnodup.map (Equiv.injective _)) hnodup]
  intro z
  constructor
  · intro hz
    obtain ⟨z', hz', rfl⟩ := List.mem_map.mp hz
    exact hmem z' hz'
  · intro hz
    exact List.mem_map.mpr ⟨_, hmem z hz, Equiv.swap_apply_self x y z⟩

open Classical in
/-- The scores stay where they are, and the two names change places. -/
theorem scored_map_swap (hnodup : (vMasternodes.map fun mn => mn.vin.prevout).Nodup)
    (hmn : mn ∈ vMasternodes) (hmn' : mn' ∈ vMasternodes) (hkeep : keep mn = keep mn')
    (htie : compactScore env view cache nBlockHeight mn =
      compactScore env view cache nBlockHeight mn') :
    scored env view cache nBlockHeight keep (vMasternodes.map (Equiv.swap mn mn')) =
      (scored env view cache nBlockHeight keep vMasternodes).map
        fun s => (s.1, Equiv.swap mn.vin mn'.vin s.2) := by
  have hfilter : vMasternodes.filter (keep ∘ Equiv.swap mn mn') = vMasternodes.filter keep :=
    List.filter_congr fun m hm => (swap_cases hnodup hmn hmn' hkeep htie hm).2.1
  unfold scored
  rw [List.filter_map, hfilter, List.map_map, List.map_map]
  apply List.map_congr_left
  intro m hm
  obtain ⟨-, -, hscore, hvin⟩ :=
    swap_cases hnodup hmn hmn' hkeep htie (List.mem_of_mem_filter hm)
  simp [hscore, hvin]

open Classical in
/-- Two masternodes of equal score change their ranks when they change their places. -/
theorem exists_perm_of_tie (hsort : SortsByScore sort)
    (hnodup : (vMasternodes.map fun mn => mn.vin.prevout).Nodup)
    (hmn : mn ∈ vMasternodes) (hmn' : mn' ∈ vMasternodes) (hkeep : keep mn = true)
    (hkeep' : keep mn' = true)
    (htie : compactScore env view cache nBlockHeight mn =
      compactScore env view cache nBlockHeight mn') :
    ∃ vMasternodes' : List CMasternode, vMasternodes'.Perm vMasternodes ∧
      rankIn (sort (scored env view cache nBlockHeight keep vMasternodes')) mn.vin =
        rankIn (sort (scored env view cache nBlockHeight keep vMasternodes)) mn'.vin := by
  have hsame : keep mn = keep mn' := hkeep.trans hkeep'.symm
  have hperm : (vMasternodes.map (Equiv.swap mn mn')).Perm vMasternodes :=
    map_swap_perm hnodup.of_map fun m hm => (swap_cases hnodup hmn hmn' hsame htie hm).1
  refine ⟨vMasternodes.map (Equiv.swap mn mn'), hperm, ?_⟩
  have hsorted : ((sort (scored env view cache nBlockHeight keep vMasternodes)).map
      fun s => s.2.prevout).Nodup := nodup_sort_scored hsort hnodup
  have hsorted' : ((sort (scored env view cache nBlockHeight keep
      (vMasternodes.map (Equiv.swap mn mn')))).map fun s => s.2.prevout).Nodup := by
    have hprevouts := hperm.map fun mn : CMasternode => mn.vin.prevout
    exact nodup_sort_scored hsort (hprevouts.nodup_iff.mpr hnodup)
  have hfound : rankIn (sort (scored env view cache nBlockHeight keep vMasternodes)) mn'.vin ≠ -1 :=
    (rankIn_sort_scored hsort hnodup hmn').mpr hkeep'
  have hrank := one_le_rankIn hfound
  -- the entry of the one became the entry of the other
  obtain ⟨s, hs, hprevout⟩ := (rankIn_eq_iff hsorted hrank).mp rfl
  obtain ⟨m, hm, -, rfl⟩ := (mem_sort_scored hsort).mp (List.mem_of_getElem? hs)
  have hmn_eq : m = mn' := eq_of_prevout hnodup hm hmn' hprevout
  rw [rankIn_eq_iff hsorted' hrank, scored_map_swap hnodup hmn hmn' hsame htie, hsort.blind,
    List.getElem?_map, hs, hmn_eq]
  have hback : Equiv.swap mn.vin mn'.vin mn'.vin = mn.vin := Equiv.swap_apply_right _ _
  exact ⟨_, rfl, congrArg CTxIn.prevout hback⟩

end swap

end selection

/-- Ranks do not depend on the order of the masternodes, those that are ranked have different ranks,
and the masternode of a rank is the one that has it. -/
structure RanksAgree (env : RankEnv) (view : ChainView)
    (sort : List (Nat × CTxIn) → List (Nat × CTxIn)) (cache : BlockHashCache)
    (nBlockHeight minProtocol : Int) (fOnlyActive : Bool) : Prop where
  orderFree : ∀ vMasternodes : List CMasternode, vMasternodes.Perm env.vMasternodes →
    ∀ mn ∈ env.vMasternodes,
      (getMasternodeRankBy { env with vMasternodes := vMasternodes } view sort cache mn.vin
        nBlockHeight minProtocol fOnlyActive).1 =
      (getMasternodeRankBy env view sort cache mn.vin nBlockHeight minProtocol fOnlyActive).1
  distinct : ∀ mn ∈ env.vMasternodes, ∀ mn' ∈ env.vMasternodes,
    env.ranked minProtocol fOnlyActive mn → env.ranked minProtocol fOnlyActive mn' → mn ≠ mn' →
      (getMasternodeRankBy env view sort cache mn.vin nBlockHeight minProtocol fOnlyActive).1 ≠
      (getMasternodeRankBy env view sort cache mn'.vin nBlockHeight minProtocol fOnlyActive).1
  inverse : ∀ mn ∈ env.vMasternodes, ∀ nRank : Int, 1 ≤ nRank →
    ((getMasternodeRankBy env view sort cache mn.vin nBlockHeight minProtocol fOnlyActive).1 =
      nRank ↔
      (getMasternodeByRank env view sort cache nRank nBlockHeight minProtocol fOnlyActive).1 =
        some mn)

/-- The block is known, no masternode is left out for its age alone, and no two that are ranked have
one score; or the block is unknown and there is nobody to rank. -/
def RanksWellDefined (env : RankEnv) (view : ChainView) (cache : BlockHashCache)
    (nBlockHeight minProtocol : Int) (fOnlyActive : Bool) : Prop :=
  if (view.getBlockHash cache (toInt32 nBlockHeight)).1 = none then
    ∀ mn ∈ env.vMasternodes, ¬ env.rankedAnyAge minProtocol fOnlyActive mn
  else
    (∀ mn ∈ env.vMasternodes, env.rankedAnyAge minProtocol fOnlyActive mn →
      env.ranked minProtocol fOnlyActive mn) ∧
    ∀ mn ∈ env.vMasternodes, ∀ mn' ∈ env.vMasternodes,
      env.ranked minProtocol fOnlyActive mn → env.ranked minProtocol fOnlyActive mn' →
      compactScore env view cache nBlockHeight mn = compactScore env view cache nBlockHeight mn' →
        mn = mn'

section
variable {env : RankEnv} {view : ChainView} {sort : List (Nat × CTxIn) → List (Nat × CTxIn)}
  {cache : BlockHashCache} {nBlockHeight minProtocol : Int} {fOnlyActive : Bool}

theorem getMasternodeRankBy_of_none {vin : CTxIn}
    (h : (view.getBlockHash cache (toInt32 nBlockHeight)).1 = none) :
    (getMasternodeRankBy env view sort cache vin nBlockHeight minProtocol fOnlyActive).1 = -1 := by
  unfold getMasternodeRankBy
  simp [h]

theorem getMasternodeRankBy_fst {vin : CTxIn}
    (h : (view.getBlockHash cache (toInt32 nBlockHeight)).1 ≠ none) :
    (getMasternodeRankBy env view sort cache vin nBlockHeight minProtocol fOnlyActive).1 =
      rankIn (sort (scored env view cache nBlockHeight (env.ranked minProtocol fOnlyActive)
        env.vMasternodes)) vin := by
  unfold getMasternodeRankBy rankIn
  dsimp only
  rw [if_neg h, scoreMasternodes_fst (getBlockHash_again view cache (toInt32 nBlockHeight))]
  split <;> rfl

theorem RankEnv.find_vin (hnodup : (env.vMasternodes.map fun mn => mn.vin.prevout).Nodup)
    {mn : CMasternode} (hmn : mn ∈ env.vMasternodes) : env.find mn.vin = some mn := by
  unfold RankEnv.find
  cases hfound : env.vMasternodes.find? fun other => other.vin.prevout == mn.vin.prevout with
  | none =>
    have hnot := List.find?_eq_none.mp hfound mn hmn
    simp at hnot
  | some other =>
    have hprevout := List.find?_some hfound
    have hsame := eq_of_prevout hnodup (List.mem_of_find?_eq_some hfound) hmn (eq_of_beq hprevout)
    rw [hsame]

/-- The masternode of a rank is the one at this place of its own sorted list. -/
theorem getMasternodeByRank_eq_some_iff (hsort : SortsByScore sort)
    (hnodup : (env.vMasternodes.map fun mn => mn.vin.prevout).Nodup) {mn : CMasternode}
    (hmn : mn ∈ env.vMasternodes) {nRank : Int} (h : 1 ≤ nRank) :
    (getMasternodeByRank env view sort cache nRank nBlockHeight minProtocol fOnlyActive).1 =
        some mn ↔
      rankIn (sort (scored env view cache nBlockHeight (env.rankedAnyAge minProtocol fOnlyActive)
        env.vMasternodes)) mn.vin = nRank := by
  rw [rankIn_eq_iff (nodup_sort_scored hsort hnodup) h]
  unfold getMasternodeByRank
  dsimp only
  rw [scoreOfAnyAge_fst rfl, if_pos h]
  cases hat : (sort (scored env view cache nBlockHeight (env.rankedAnyAge minProtocol fOnlyActive)
      env.vMasternodes))[(nRank - 1).toNat]? with
  | none => simp
  | some s =>
    obtain ⟨other, hother, -, rfl⟩ := (mem_sort_scored hsort).mp (List.mem_of_getElem? hat)
    have hfind := RankEnv.find_vin hnodup hother
    dsimp only
    rw [hfind]
    constructor
    · intro hsame
      have hsame : other = mn := Option.some.inj hsame
      exact ⟨_, rfl, by rw [hsame]⟩
    · rintro ⟨s, hs, hprevout⟩
      cases hs
      rw [eq_of_prevout hnodup hother hmn hprevout]

theorem RankEnv.rankedAnyAge_of_ranked {mn : CMasternode}
    (h : env.ranked minProtocol fOnlyActive mn = true) :
    env.rankedAnyAge minProtocol fOnlyActive mn = true := by
  simp only [RankEnv.ranked, RankEnv.rankedAnyAge, Bool.and_eq_true] at h ⊢
  exact ⟨h.1.1, h.2⟩

theorem ranksAgree_iff_of_unknown (hsort : SortsByScore sort)
    (hnodup : (env.vMasternodes.map fun mn => mn.vin.prevout).Nodup)
    (h : (view.getBlockHash cache (toInt32 nBlockHeight)).1 = none) :
    RanksAgree env view sort cache nBlockHeight minProtocol fOnlyActive ↔
      ∀ mn ∈ env.vMasternodes, ¬ env.rankedAnyAge minProtocol fOnlyActive mn := by
  constructor
  · intro hagree mn hmn hkeep
    have hfound : rankIn (sort (scored env view cache nBlockHeight
        (env.rankedAnyAge minProtocol fOnlyActive) env.vMasternodes)) mn.vin ≠ -1 :=
      (rankIn_sort_scored hsort hnodup hmn).mpr hkeep
    have hrank := one_le_rankIn hfound
    have hby := (getMasternodeByRank_eq_some_iff hsort hnodup hmn hrank).mpr rfl
    have hnone := (hagree.inverse mn hmn _ hrank).mpr hby
    rw [getMasternodeRankBy_of_none h] at hnone
    exact hfound hnone.symm
  · intro hnobody
    refine ⟨?_, ?_, ?_⟩
    · intro vMasternodes hperm mn hmn
      rw [getMasternodeRankBy_of_none h, getMasternodeRankBy_of_none h]
    · intro mn hmn mn' hmn' hkeep
      exact absurd (RankEnv.rankedAnyAge_of_ranked hkeep) (hnobody mn hmn)
    · intro mn hmn nRank hrank
      have hout : rankIn (sort (scored env view cache nBlockHeight
          (env.rankedAnyAge minProtocol fOnlyActive) env.vMasternodes)) mn.vin = -1 := by
        by_contra hfound
        exact hnobody mn hmn ((rankIn_sort_scored hsort hnodup hmn).mp hfound)
      rw [getMasternodeRankBy_of_none h, getMasternodeByRank_eq_some_iff hsort hnodup hmn hrank,
        hout]

theorem orderFree_iff (hsort : SortsByScore sort)
    (hnodup : (env.vMasternodes.map fun mn => mn.vin.prevout).Nodup)
    (h : (view.getBlockHash cache (toInt32 nBlockHeight)).1 ≠ none) :
    (∀ vMasternodes : List CMasternode, vMasternodes.Perm env.vMasternodes →
      ∀ mn ∈ env.vMasternodes,
        (getMasternodeRankBy { env with vMasternodes := vMasternodes } view sort cache mn.vin
          nBlockHeight minProtocol fOnlyActive).1 =
        (getMasternodeRankBy env view sort cache mn.vin nBlockHeight minProtocol fOnlyActive).1) ↔
    ∀ mn ∈ env.vMasternodes, ∀ mn' ∈ env.vMasternodes,
      env.ranked minProtocol fOnlyActive mn → env.ranked minProtocol fOnlyActive mn' →
      compactScore env view cache nBlockHeight mn = compactScore env view cache nBlockHeight mn' →
        mn = mn' := by
  constructor
  · intro hfree mn hmn mn' hmn' hkeep hkeep' htie
    obtain ⟨vMasternodes, hperm, hrank⟩ :=
      exists_perm_of_tie hsort hnodup hmn hmn' hkeep hkeep' htie
    have hsame := hfree vMasternodes hperm mn hmn
    rw [getMasternodeRankBy_fst h, getMasternodeRankBy_fst h] at hsame
    exact eq_of_rankIn_eq hsort hnodup hmn hmn' hkeep (hsame.symm.trans hrank)
  · intro hdistinct vMasternodes hperm mn hmn
    rw [getMasternodeRankBy_fst h, getMasternodeRankBy_fst h]
    have hsorted := sort_scored_perm hsort hperm hdistinct
    exact congrArg (rankIn · mn.vin) hsorted

theorem inverse_iff (hsort : SortsByScore sort)
    (hnodup : (env.vMasternodes.map fun mn => mn.vin.prevout).Nodup)
    (h : (view.getBlockHash cache (toInt32 nBlockHeight)).1 ≠ none) :
    (∀ mn ∈ env.vMasternodes, ∀ nRank : Int, 1 ≤ nRank →
      ((getMasternodeRankBy env view sort cache mn.vin nBlockHeight minProtocol fOnlyActive).1 =
        nRank ↔
        (getMasternodeByRank env view sort cache nRank nBlockHeight minProtocol fOnlyActive).1 =
          some mn)) ↔
    ∀ mn ∈ env.vMasternodes, env.rankedAnyAge minProtocol fOnlyActive mn →
      env.ranked minProtocol fOnlyActive mn := by
  constructor
  · intro hinverse mn hmn hkeep
    have hfound : rankIn (sort (scored env view cache nBlockHeight
        (env.rankedAnyAge minProtocol fOnlyActive) env.vMasternodes)) mn.vin ≠ -1 :=
      (rankIn_sort_scored hsort hnodup hmn).mpr hkeep
    have hrank := one_le_rankIn hfound
    have hby := (getMasternodeByRank_eq_some_iff hsort hnodup hmn hrank).mpr rfl
    have hsame := (hinverse mn hmn _ hrank).mpr hby
    rw [getMasternodeRankBy_fst h] at hsame
    exact (rankIn_sort_scored hsort hnodup hmn).mp (by rwa [hsame])
  · intro hkept mn hmn nRank hrank
    have hfilter : env.vMasternodes.filter (env.rankedAnyAge minProtocol fOnlyActive) =
        env.vMasternodes.filter (env.ranked minProtocol fOnlyActive) := by
      apply List.filter_congr
      intro mn hmn
      rw [Bool.eq_iff_iff]
      exact ⟨hkept mn hmn, RankEnv.rankedAnyAge_of_ranked⟩
    rw [getMasternodeRankBy_fst h, getMasternodeByRank_eq_some_iff hsort hnodup hmn hrank]
    unfold scored
    rw [hfilter]

end

/-- The ranks agree exactly when they are well defined. -/
theorem ranksAgree_iff_wellDefined {env : RankEnv} {view : ChainView}
    {sort : List (Nat × CTxIn) → List (Nat × CTxIn)} (hsort : SortsByScore sort)
    (hnodup : (env.vMasternodes.map fun mn => mn.vin.prevout).Nodup) (cache : BlockHashCache)
    (nBlockHeight minProtocol : Int) (fOnlyActive : Bool) :
    RanksAgree env view sort cache nBlockHeight minProtocol fOnlyActive ↔
      RanksWellDefined env view cache nBlockHeight minProtocol fOnlyActive := by
  unfold RanksWellDefined
  split_ifs with h
  · exact ranksAgree_iff_of_unknown hsort hnodup h
  · constructor
    · intro hagree
      exact ⟨(inverse_iff hsort hnodup h).mp hagree.inverse,
        (orderFree_iff hsort hnodup h).mp hagree.orderFree⟩
    · rintro ⟨hkept, hdistinct⟩
      refine ⟨(orderFree_iff hsort hnodup h).mpr hdistinct, ?_,
        (inverse_iff hsort hnodup h).mpr hkept⟩
      intro mn hmn mn' hmn' hkeep _ hne hsame
      rw [getMasternodeRankBy_fst h, getMasternodeRankBy_fst h] at hsame
      exact hne (eq_of_rankIn_eq hsort hnodup hmn hmn' hkeep hsame)

/-! One block is asked about, and hashes are numbers added up. -/

/-- Masternodes that were announced a day before and one that was announced just now. -/
def agedMasternode (hash : Uint256) (sigTime : Int) : CMasternode :=
  ⟨⟨⟨hash, 0⟩, [], 0⟩, 70000, sigTime⟩

def sampleRankEnv (vMasternodes : List CMasternode) : RankEnv where
  hashBlockHash := id
  hashBlockHashWith hash aux := hash + aux
  vMasternodes := vMasternodes
  sporks := ⟨fun _ => some 0, 1000000⟩
  adjustedTime := 1000000
  enabled _ := true

def rankedPair : List CMasternode :=
  [agedMasternode 0x1000000 913600, agedMasternode 0x2000000 913600]

theorem ranksAgree_rankedPair :
    RanksAgree (sampleRankEnv rankedPair) lateNode.view sortScores (fun _ => none) 2 70000 true := by
  have hagree : RanksAgree (sampleRankEnv rankedPair) lateNode.view sortScores (fun _ => none) 2
      70000 true ↔ RanksWellDefined (sampleRankEnv rankedPair) lateNode.view (fun _ => none) 2 70000
        true :=
    ranksAgree_iff_wellDefined sortsByScore_sortScores (by decide) (fun _ => none) 2 70000 true
  have hknown : (lateNode.view.getBlockHash (fun _ => none) (toInt32 2)).1 ≠ none := by decide
  have hscores : ∀ i j : Fin 2, compactScore (sampleRankEnv rankedPair) lateNode.view
      (fun _ => none) 2 (rankedPair.get i) = compactScore (sampleRankEnv rankedPair) lateNode.view
      (fun _ => none) 2 (rankedPair.get j) → i = j := by
    decide
  rw [hagree]
  unfold RanksWellDefined
  rw [if_neg hknown]
  constructor
  · intro mn hmn _
    have hold : (sampleRankEnv rankedPair).vMasternodes.all
        ((sampleRankEnv rankedPair).ranked 70000 true) = true := by decide
    exact List.all_eq_true.mp hold mn hmn
  · intro mn hmn mn' hmn' _ _ htie
    obtain ⟨i, rfl⟩ := List.get_of_mem hmn
    obtain ⟨j, rfl⟩ := List.get_of_mem hmn'
    rw [hscores i j htie]

/-- The masternode of rank 1 has no rank, for it is young; and two whose scores agree in their first
three bytes change their ranks with their places. -/
theorem not_ranksAgree :
    ¬ RanksAgree (sampleRankEnv [agedMasternode 0x1000000 999000]) lateNode.view sortScores
      (fun _ => none) 2 70000 true ∧
    ¬ RanksAgree (sampleRankEnv [agedMasternode 0x1000000 913600,
        agedMasternode 0x1000001 913600]) lateNode.view sortScores (fun _ => none) 2 70000 true := by
  constructor
  · intro hagree
    have hyoung := hagree.inverse (agedMasternode 0x1000000 999000) List.mem_cons_self 1 (by decide)
    exact absurd (hyoung.mpr rfl) (by decide)
  · intro hagree
    have hfree := hagree.orderFree
      [agedMasternode 0x1000001 913600, agedMasternode 0x1000000 913600] (List.Perm.swap _ _ _)
      (agedMasternode 0x1000000 913600) List.mem_cons_self
    exact absurd hfree (by decide)

end Lytix
