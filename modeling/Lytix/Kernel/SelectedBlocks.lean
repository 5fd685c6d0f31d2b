import Lytix.Kernel.StakeModifier

/-! The blocks whose entropy bits make a stake modifier: each round selects one of the candidates
that is not selected yet. -/
namespace Lytix
namespace ModifierIndex

/-- The predecessor of a block is in the index, one below it. -/
def Rooted (index : ModifierIndex) : Prop :=
  ∀ hash entry pprev, index hash = some entry → entry.pprev = some pprev →
    ∃ prev, index pprev = some prev ∧ entry.nHeight = prev.nHeight + 1

section selected
variable (index : ModifierIndex) (env : KernelEnv) (vSortedByTimestamp : List (Int × Uint256))
  (nSelectionIntervalStart : Int) (nStakeModifier : UInt64)

/-- The start and the sections of the first rounds. -/
def selectionIntervalStop : ℕ → Int
  | 0 => nSelectionIntervalStart
  | nRound + 1 =>
    selectionIntervalStop nRound + getStakeModifierSelectionIntervalSection nRound

/-- The blocks that the first rounds select, the latest first; `none` where a round fails. -/
def selectedBlocks : ℕ → Option (List Uint256)
  | 0 => some []
  | nRound + 1 => do
    let mapSelectedBlocks ← selectedBlocks nRound
    let pindex ← selectBlockFromCandidates index env vSortedByTimestamp mapSelectedBlocks
      (selectionIntervalStop nSelectionIntervalStart (nRound + 1)) nStakeModifier
    pure (pindex :: mapSelectedBlocks)

/-- The modifier of the selected blocks, the latest first. -/
def modifierOf : List Uint256 → UInt64
  | [] => 0
  | pindex :: earlier =>
    modifierOf earlier ||| getStakeEntropyBit pindex <<< UInt64.ofNat earlier.length

end selected

section candidates
variable {index : ModifierIndex} {nSelectionIntervalStart : Int} {pindex : Uint256}
  {entry : ModifierEntry} {n : ℕ}

/-- The candidates are in the index, at most as high as the block they end with. -/
theorem Rooted.candidates_height (rooted : index.Rooted) {item : Int × Uint256}
    (hentry : index pindex = some entry)
    (hitem : item ∈ candidates index nSelectionIntervalStart n pindex) :
    ∃ found, index item.2 = some found ∧ found.nHeight ≤ entry.nHeight := by
  induction n generalizing pindex entry with
  | zero =>
    rw [candidates, hentry] at hitem
    dsimp only at hitem
    split_ifs at hitem
    · rw [List.mem_singleton.mp hitem]
      exact ⟨entry, hentry, le_refl _⟩
    · contradiction
  | succ n ih =>
    rw [candidates, hentry] at hitem
    dsimp only at hitem
    split_ifs at hitem
    · obtain rfl | hrest := List.mem_cons.mp hitem
      · exact ⟨entry, hentry, le_refl _⟩
      · cases hpprev : entry.pprev with
        | none =>
          rw [hpprev] at hrest
          contradiction
        | some pprev =>
          rw [hpprev] at hrest
          obtain ⟨prev, hprev, hheight⟩ := rooted pindex entry pprev hentry hpprev
          obtain ⟨found, hfound, hle⟩ := ih hprev hrest
          exact ⟨found, hfound, by omega⟩
    · contradiction

/-- No block is a candidate twice. -/
theorem Rooted.candidates_nodup (rooted : index.Rooted) :
    ((candidates index nSelectionIntervalStart n pindex).map Prod.snd).Nodup := by
  induction n generalizing pindex with
  | zero =>
    rw [candidates]
    split
    · exact List.nodup_nil
    · split_ifs
      · exact List.nodup_singleton _
      · exact List.nodup_nil
  | succ n ih =>
    rw [candidates]
    cases hentry : index pindex with
    | none => exact List.nodup_nil
    | some entry =>
      dsimp only
      split_ifs
      · cases hpprev : entry.pprev with
        | none => exact List.nodup_singleton _
        | some pprev =>
          rw [List.map_cons, List.nodup_cons]
          refine ⟨?_, ih⟩
          intro hmem
          obtain ⟨item, hitem, hsame⟩ := List.mem_map.mp hmem
          obtain ⟨prev, hprev, hheight⟩ := rooted pindex entry pprev hentry hpprev
          obtain ⟨found, hfound, hle⟩ := rooted.candidates_height hprev hitem
          rw [hsame, hentry, Option.some.injEq] at hfound
          rw [← hfound] at hle
          omega
      · exact List.nodup_nil

end candidates

section select
variable {index : ModifierIndex} {env : KernelEnv} {items : List (Int × Uint256)}
  {mapSelectedBlocks : List Uint256} {nSelectionIntervalStart nSelectionIntervalStop : Int}
  {nStakeModifier : UInt64} {n : ℕ}

variable (env nStakeModifier) in
/-- At a block that is not selected the loop has a block to go on with. -/
theorem selectBlock_cons {best : Option (Uint256 × Uint256)} {item : Int × Uint256}
    {entry : ModifierEntry} (rest : List (Int × Uint256)) (hentry : index item.2 = some entry)
    (hgoes : ¬ (best.isSome ∧ nSelectionIntervalStop < entry.getBlockTime))
    (hnew : item.2 ∉ mapSelectedBlocks) :
    ∃ taken, (best = some taken ∨ taken.2 = item.2) ∧
      selectBlock index env mapSelectedBlocks nSelectionIntervalStop nStakeModifier best
          (item :: rest) =
        selectBlock index env mapSelectedBlocks nSelectionIntervalStop nStakeModifier (some taken)
          rest := by
  rw [selectBlock, hentry]
  dsimp only
  rw [if_neg hgoes, if_neg hnew]
  cases best with
  | none => exact ⟨(_, item.2), Or.inr rfl, rfl⟩
  | some found =>
    dsimp only
    by_cases hbetter : hashSelection env nStakeModifier item.2 entry < found.1
    · exact ⟨(_, item.2), Or.inr rfl, by rw [if_pos (decide_eq_true hbetter)]⟩
    · exact ⟨found, Or.inl rfl, by rw [if_neg (by simpa using hbetter)]⟩

/-- The loop stops early only with a block, so it finds one that is not selected if there is any. -/
theorem selectBlock_found {best : Option (Uint256 × Uint256)}
    (hindex : ∀ item ∈ items, (index item.2).isSome)
    (hleft : best.isSome ∨ ∃ item ∈ items, item.2 ∉ mapSelectedBlocks) :
    ∃ found, selectBlock index env mapSelectedBlocks nSelectionIntervalStop nStakeModifier best
        items = some (some found) ∧
      (best = some found ∨ found.2 ∉ mapSelectedBlocks ∧ found.2 ∈ items.map Prod.snd) := by
  induction items generalizing best with
  | nil =>
    obtain hbest | ⟨item, hitem, -⟩ := hleft
    · obtain ⟨found, rfl⟩ := Option.isSome_iff_exists.mp hbest
      exact ⟨found, rfl, Or.inl rfl⟩
    · exact absurd hitem List.not_mem_nil
  | cons item rest ih =>
    obtain ⟨entry, hentry⟩ := Option.isSome_iff_exists.mp (hindex item List.mem_cons_self)
    have hrest : ∀ later ∈ rest, (index later.2).isSome :=
      fun later hlater => hindex later (List.mem_cons_of_mem item hlater)
    by_cases hbreak : best.isSome ∧ nSelectionIntervalStop < entry.getBlockTime
    · obtain ⟨found, rfl⟩ := Option.isSome_iff_exists.mp hbreak.1
      refine ⟨found, ?_, Or.inl rfl⟩
      rw [selectBlock, hentry]
      dsimp only
      rw [if_pos hbreak]
    · by_cases hselected : item.2 ∈ mapSelectedBlocks
      · have hleft' : best.isSome ∨ ∃ later ∈ rest, later.2 ∉ mapSelectedBlocks := by
          refine hleft.imp_right ?_
          rintro ⟨later, hlater, hnot⟩
          obtain rfl | hlater := List.mem_cons.mp hlater
          · exact absurd hselected hnot
          · exact ⟨later, hlater, hnot⟩
        obtain ⟨found, hfound, hfrom⟩ := ih hrest hleft'
        refine ⟨found, ?_, hfrom.imp_right fun h => ⟨h.1, List.mem_cons_of_mem _ h.2⟩⟩
        rw [selectBlock, hentry]
        dsimp only
        rw [if_neg hbreak, if_pos hselected, hfound]
      · obtain ⟨taken, htaken, hgo⟩ := selectBlock_cons env nStakeModifier rest hentry hbreak
          hselected
        obtain ⟨found, hfound, hfrom⟩ := @ih (some taken) hrest (Or.inl rfl)
        refine ⟨found, hgo.trans hfound, ?_⟩
        obtain hsame | hlater := hfrom
        · rw [← Option.some.inj hsame]
          refine htaken.imp_right fun hitem => ?_
          rw [hitem]
          exact ⟨hselected, List.mem_cons_self⟩
        · exact Or.inr ⟨hlater.1, List.mem_cons_of_mem _ hlater.2⟩

variable (env nSelectionIntervalStop nStakeModifier) in
theorem selectBlockFromCandidates_found (hindex : ∀ item ∈ items, (index item.2).isSome)
    (hleft : ∃ item ∈ items, item.2 ∉ mapSelectedBlocks) :
    ∃ pindex, selectBlockFromCandidates index env items mapSelectedBlocks nSelectionIntervalStop
        nStakeModifier = some pindex ∧
      pindex ∉ mapSelectedBlocks ∧ pindex ∈ items.map Prod.snd := by
  obtain ⟨found, hfound, hfrom⟩ : ∃ found, selectBlock index env mapSelectedBlocks
      nSelectionIntervalStop nStakeModifier none items = some (some found) ∧
        (none = some found ∨ found.2 ∉ mapSelectedBlocks ∧ found.2 ∈ items.map Prod.snd) :=
    selectBlock_found hindex (Or.inr hleft)
  refine ⟨found.2, ?_, hfrom.resolve_left (Option.some_ne_none found).symm⟩
  rw [selectBlockFromCandidates, hfound]
  rfl

/-- Fewer blocks than there are candidates leave one. -/
theorem exists_unselected (hnodup : (items.map Prod.snd).Nodup)
    (hlt : mapSelectedBlocks.length < items.length) :
    ∃ item ∈ items, item.2 ∉ mapSelectedBlocks := by
  by_contra hall
  have hsub : items.map Prod.snd ⊆ mapSelectedBlocks := by
    intro pindex hpindex
    obtain ⟨item, hitem, rfl⟩ := List.mem_map.mp hpindex
    by_contra hnot
    exact hall ⟨item, hitem, hnot⟩
  have hle := (List.subperm_of_subset hnodup hsub).length_le
  rw [List.length_map] at hle
  omega

/-- One more round. -/
theorem selectedBlocks_succ {earlier : List Uint256}
    (h : selectedBlocks index env items nSelectionIntervalStart nStakeModifier n = some earlier) :
    selectedBlocks index env items nSelectionIntervalStart nStakeModifier (n + 1) =
      (selectBlockFromCandidates index env items earlier
        (selectionIntervalStop nSelectionIntervalStart (n + 1)) nStakeModifier).map
          fun pindex => pindex :: earlier := by
  rw [selectedBlocks, h]
  exact (Option.map_eq_bind).symm

/-- Each round selects a candidate that is not selected yet, while there is one. -/
theorem exists_selectedBlocks (hindex : ∀ item ∈ items, (index item.2).isSome)
    (hnodup : (items.map Prod.snd).Nodup) (hn : n ≤ items.length) :
    ∃ selected, selectedBlocks index env items nSelectionIntervalStart nStakeModifier n =
        some selected ∧
      selected.length = n ∧ selected.Nodup ∧ selected ⊆ items.map Prod.snd := by
  induction n with
  | zero => exact ⟨[], rfl, rfl, List.nodup_nil, List.nil_subset _⟩
  | succ nRound ih =>
    obtain ⟨selected, hselected, hlength, hdistinct, hsub⟩ := ih (by omega)
    have hleft : ∃ item ∈ items, item.2 ∉ selected := exists_unselected hnodup (by omega)
    obtain ⟨pindex, hpindex, hnew, hmem⟩ := selectBlockFromCandidates_found env
      (selectionIntervalStop nSelectionIntervalStart (nRound + 1)) nStakeModifier hindex hleft
    refine ⟨pindex :: selected, ?_, ?_, List.nodup_cons.mpr ⟨hnew, hdistinct⟩, ?_⟩
    · rw [selectedBlocks_succ hselected, hpindex]
      rfl
    · rw [List.length_cons, hlength]
    · exact List.cons_subset.mpr ⟨hmem, hsub⟩

theorem length_selectedBlocks {selected : List Uint256}
    (h : selectedBlocks index env items nSelectionIntervalStart nStakeModifier n = some selected) :
    selected.length = n := by
  induction n generalizing selected with
  | zero =>
    rw [selectedBlocks, Option.some.injEq] at h
    rw [← h]
    rfl
  | succ nRound ih =>
    rw [selectedBlocks] at h
    obtain ⟨earlier, hearlier, h⟩ := Option.bind_eq_some_iff.mp h
    obtain ⟨pindex, -, h⟩ := Option.bind_eq_some_iff.mp h
    rw [← Option.some.inj h, List.length_cons, ih hearlier]

/-- A round that fails is the last one. -/
theorem selectedBlocks_of_le {m : ℕ} {selected : List Uint256} (hle : n ≤ m)
    (h : selectedBlocks index env items nSelectionIntervalStart nStakeModifier m = some selected) :
    ∃ earlier, selectedBlocks index env items nSelectionIntervalStart nStakeModifier n =
      some earlier := by
  induction m, hle using Nat.le_induction generalizing selected with
  | base => exact ⟨selected, h⟩
  | succ m hle ih =>
    rw [selectedBlocks] at h
    obtain ⟨earlier, hearlier, -⟩ := Option.bind_eq_some_iff.mp h
    exact ih hearlier

/-- The rounds, from the blocks that the earlier ones selected, end with the modifier of all. -/
theorem selectRounds_eq {k : ℕ} {earlier selected : List Uint256}
    (hearlier : selectedBlocks index env items nSelectionIntervalStart nStakeModifier n =
      some earlier)
    (h : selectedBlocks index env items nSelectionIntervalStart nStakeModifier (n + k) =
      some selected) :
    selectRounds index env items nStakeModifier (List.range' n k)
      (selectionIntervalStop nSelectionIntervalStart n) (modifierOf earlier) earlier =
        some (modifierOf selected) := by
  induction k generalizing n earlier with
  | zero =>
    have hsame : earlier = selected := Option.some.inj (hearlier.symm.trans h)
    rw [hsame]
    rfl
  | succ k ih =>
    have hrounds : n + (k + 1) = n + 1 + k := by omega
    rw [hrounds] at h
    obtain ⟨next, hnext⟩ := selectedBlocks_of_le (Nat.le_add_right (n + 1) k) h
    have hlength := length_selectedBlocks hearlier
    have hstep := (selectedBlocks_succ hearlier).symm.trans hnext
    obtain ⟨pindex, hpindex, hcons⟩ := Option.map_eq_some_iff.mp hstep
    have hmodifier : modifierOf next =
        modifierOf earlier ||| getStakeEntropyBit pindex <<< UInt64.ofNat n := by
      rw [← hcons, modifierOf, hlength]
    have hrest := ih hnext h
    rw [selectionIntervalStop] at hpindex hrest
    rw [List.range'_succ, selectRounds, hpindex]
    dsimp only
    rw [← hmodifier, hcons]
    exact hrest

end select

section bits
variable {selected : List Uint256} {i : ℕ}

theorem toNat_getStakeEntropyBit (hash : Uint256) :
    (getStakeEntropyBit hash).toNat = hash.toNat % 2 := by
  rw [getStakeEntropyBit, UInt64.toNat_ofNat', Nat.mod_eq_of_lt]
  exact lt_trans (Nat.mod_lt _ two_pos) (by decide)

theorem testBit_getStakeEntropyBit (hash : Uint256) :
    (getStakeEntropyBit hash).toNat.testBit i =
      (decide (i = 0) && decide (getStakeEntropyBit hash = 1)) := by
  have hlt : (getStakeEntropyBit hash).toNat < 2 := by
    rw [toNat_getStakeEntropyBit]
    exact Nat.mod_lt _ two_pos
  have hone : (getStakeEntropyBit hash = 1) = ((getStakeEntropyBit hash).toNat = 1) := by
    rw [eq_iff_iff, ← UInt64.toNat_inj]
    rfl
  simp only [hone]
  cases i with
  | zero => simp [Nat.testBit_zero, Nat.mod_eq_of_lt hlt]
  | succ i =>
    have hpow : (getStakeEntropyBit hash).toNat < 2 ^ (i + 1) :=
      lt_of_lt_of_le hlt (Nat.le_pow (Nat.succ_pos i))
    rw [Nat.testBit_lt_two_pow hpow]
    simp

/-- Bit `i` of the modifier is the entropy bit of the block that was selected after `i` others. -/
theorem testBit_modifierOf (hlength : selected.length ≤ 64) :
    (modifierOf selected).toNat.testBit i =
      decide (∃ pindex ∈ selected.reverse[i]?, getStakeEntropyBit pindex = 1) := by
  induction selected with
  | nil => simp [modifierOf]
  | cons pindex earlier ih =>
    rw [List.length_cons] at hlength
    have hshift : (UInt64.ofNat earlier.length).toNat % 64 = earlier.length := by
      rw [UInt64.toNat_ofNat']
      omega
    rw [modifierOf, UInt64.toNat_or, UInt64.toNat_shiftLeft, hshift, Nat.testBit_or, ih (by omega),
      Nat.testBit_mod_two_pow, Nat.testBit_shiftLeft, testBit_getStakeEntropyBit, List.reverse_cons]
    obtain hlt | rfl | hgt := lt_trichotomy i earlier.length
    · have hleft : (earlier.reverse ++ [pindex])[i]? = earlier.reverse[i]? :=
        List.getElem?_append_left (by rwa [List.length_reverse])
      rw [hleft]
      simp [not_le.mpr hlt]
    · have hlast : (earlier.reverse ++ [pindex])[earlier.length]? = some pindex := by
        simp
      have hnone : earlier.reverse[earlier.length]? = none := by simp
      rw [hlast, hnone]
      have hin : earlier.length < 64 := by omega
      simp [hin]
    · have hnone : (earlier.reverse ++ [pindex])[i]? = none := by
        rw [List.getElem?_eq_none_iff, List.length_append, List.length_reverse,
          List.length_singleton]
        omega
      have hnone' : earlier.reverse[i]? = none := by
        rw [List.getElem?_eq_none_iff, List.length_reverse]
        omega
      rw [hnone, hnone']
      have hne : i - earlier.length ≠ 0 := by omega
      simp [hne]

end bits

section modifier
variable (index : ModifierIndex) (pindexPrev : Uint256) (entry last : ModifierEntry)

def selectionIntervalStart : Int :=
  entry.getBlockTime / MODIFIER_INTERVAL * MODIFIER_INTERVAL - getStakeModifierSelectionInterval

/-- The candidates on top of a block, by time. -/
def sortedCandidates : List (Int × Uint256) :=
  sortByTimestamp (candidates index (selectionIntervalStart entry) entry.nHeight pindexPrev).reverse

/-- A new modifier is due on top of a block. -/
structure NewModifierDue : Prop where
  indexed : index pindexPrev = some entry
  above : entry.nHeight ≠ 0
  generated : getLastStakeModifier index entry.nHeight pindexPrev = some last
  later : last.getBlockTime / MODIFIER_INTERVAL < entry.getBlockTime / MODIFIER_INTERVAL

variable {index pindexPrev entry last} {env : KernelEnv} {nStakeModifier : UInt64}

theorem mem_sortedCandidates {item : Int × Uint256} :
    item ∈ sortedCandidates index pindexPrev entry ↔
      item ∈ candidates index (selectionIntervalStart entry) entry.nHeight pindexPrev := by
  rw [sortedCandidates, sortByTimestamp, List.mem_insertionSort, List.mem_reverse]

theorem Rooted.sortedCandidates_nodup (rooted : index.Rooted) :
    ((sortedCandidates index pindexPrev entry).map Prod.snd).Nodup := by
  have hperm : (sortedCandidates index pindexPrev entry).Perm
      (candidates index (selectionIntervalStart entry) entry.nHeight pindexPrev) :=
    (List.perm_insertionSort _ _).trans (List.reverse_perm _)
  exact (hperm.map Prod.snd).nodup_iff.mpr rooted.candidates_nodup

/-- The block below is always a candidate. -/
theorem sortedCandidates_pos (hentry : index pindexPrev = some entry) :
    0 < (sortedCandidates index pindexPrev entry).length := by
  have hstart : selectionIntervalStart entry ≤ entry.getBlockTime := by
    have hinterval : (0 : ℤ) < MODIFIER_INTERVAL := by decide
    have hfloor := Int.ediv_mul_le entry.getBlockTime (ne_of_gt hinterval)
    unfold selectionIntervalStart
    omega
  apply List.length_pos_of_mem (a := (entry.getBlockTime, pindexPrev))
  rw [mem_sortedCandidates]
  cases hheight : entry.nHeight with
  | zero =>
    rw [candidates, hentry]
    dsimp only
    rw [if_pos hstart]
    exact List.mem_singleton_self _
  | succ n =>
    rw [candidates, hentry]
    dsimp only
    rw [if_pos hstart]
    exact List.mem_cons_self

theorem selectModifier_eq {selected : List Uint256}
    (h : selectedBlocks index env (sortedCandidates index pindexPrev entry)
      (selectionIntervalStart entry) nStakeModifier
      (min 64 (sortedCandidates index pindexPrev entry).length) = some selected) :
    selectModifier index env pindexPrev entry nStakeModifier = some (modifierOf selected) := by
  have hnone : selectedBlocks index env (sortedCandidates index pindexPrev entry)
      (selectionIntervalStart entry) nStakeModifier 0 = some [] := rfl
  rw [← Nat.zero_add (min 64 _)] at h
  have hrounds := selectRounds_eq hnone h
  rw [← List.range_eq_range'] at hrounds
  exact hrounds

/-- Where a new modifier is due, each of its rounds selects a candidate that is not selected yet;
there are 64 of them or as many as there are candidates, and each gives its bit. -/
theorem computeNextStakeModifier_selects (index : ModifierIndex) (rooted : index.Rooted)
    (env : KernelEnv) (literal : UInt64) (pindexPrev : Uint256) (entry last : ModifierEntry)
    (due : NewModifierDue index pindexPrev entry last) :
    ∃ (selected : List Uint256) (nStakeModifierNew : UInt64),
      selectedBlocks index env (sortedCandidates index pindexPrev entry)
        (selectionIntervalStart entry) last.nStakeModifier
        (min 64 (sortedCandidates index pindexPrev entry).length) = some selected ∧
      selected.length = min 64 (sortedCandidates index pindexPrev entry).length ∧
      0 < selected.length ∧ selected.Nodup ∧
      selected ⊆ (sortedCandidates index pindexPrev entry).map Prod.snd ∧
      computeNextStakeModifier index env literal (some pindexPrev) =
        (true, nStakeModifierNew, true) ∧
      ∀ i, nStakeModifierNew.toNat.testBit i =
        decide (∃ pindex ∈ selected.reverse[i]?, getStakeEntropyBit pindex = 1) := by
  have hindex : ∀ item ∈ sortedCandidates index pindexPrev entry, (index item.2).isSome := by
    intro item hitem
    obtain ⟨found, hfound, -⟩ :=
      rooted.candidates_height due.indexed (mem_sortedCandidates.mp hitem)
    rw [hfound]
    rfl
  obtain ⟨selected, hselected, hlength, hdistinct, hsub⟩ :=
    exists_selectedBlocks hindex rooted.sortedCandidates_nodup (Nat.min_le_right 64 _)
  have hpositive := sortedCandidates_pos due.indexed
  refine ⟨selected, modifierOf selected, hselected, hlength, by omega, hdistinct, hsub, ?_, ?_⟩
  · rw [computeNextStakeModifier, due.indexed]
    dsimp only
    rw [if_neg due.above, due.generated]
    dsimp only
    rw [if_neg (not_le.mpr due.later), selectModifier_eq hselected]
  · intro i
    exact testBit_modifierOf (by omega)

end modifier

/-- Every block that comes into the index comes in above its predecessor. -/
theorem Computed.rooted {index : ModifierIndex} {env : KernelEnv} {literal : UInt64}
    (computed : Computed index env literal) : index.Rooted := by
  intro hash entry pprev hentry hpprev
  obtain ⟨prev, hprev, hheight, -⟩ := (computed hash entry hentry).next pprev hpprev
  exact ⟨prev, hprev, hheight⟩

end ModifierIndex

namespace ModifierNode
open ModifierIndex ModifierChain

theorem rooted_received (env : KernelEnv) (literal : UInt64) (blocks : List CBlock) :
    (received env literal blocks).mapBlockIndex.Rooted :=
  (computed_received literal blocks).rooted

/-- On top of the second block a new modifier is due. -/
theorem due_second : NewModifierDue (received kernelEnv 7 [genesis, first, second]).mapBlockIndex
    second.hash ⟨some 101, 2, 120, false, false, 7⟩ ⟨some 100, 1, 60, false, true, 7⟩ where
  indexed := rfl
  above := by decide
  generated := rfl
  later := by decide

theorem computeNextStakeModifier_second : ∃ (selected : List Uint256) (nStakeModifierNew : UInt64),
    selected.Nodup ∧ 0 < selected.length ∧
      computeNextStakeModifier (received kernelEnv 7 [genesis, first, second]).mapBlockIndex
        kernelEnv 7 (some second.hash) = (true, nStakeModifierNew, true) := by
  obtain ⟨selected, nStakeModifierNew, -, -, hpositive, hdistinct, -, hnext, -⟩ :=
    computeNextStakeModifier_selects _ (rooted_received kernelEnv 7 [genesis, first, second])
      kernelEnv 7 second.hash _ _ due_second
  exact ⟨selected, nStakeModifierNew, hdistinct, hpositive, hnext⟩

end ModifierNode
end Lytix
