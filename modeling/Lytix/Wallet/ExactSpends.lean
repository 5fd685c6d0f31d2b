import Lytix.Wallet.MintSelection

/-! An amount that some of the unused mints are worth is spent exactly, with the fewest mints. -/
namespace Lytix.SelectMints

open BoundedLoops CoinSystems

/-- The mints are different entries of the list, unused, and worth the amount. -/
structure Spends (listMints : List CMintMeta) (amount : Int) (mints : List CMintMeta) : Prop where
  unused : mints.Subperm (listMints.filter fun mint => !mint.isUsed)
  worth : (mints.map fun mint => mint.denom.toAmount).sum = amount

/-- How many of the mints have the denomination. -/
def countOf (mints : List CMintMeta) : CoinMap := fun coin =>
  mints.countP fun mint => coin = mint.denom

section
variable {held : CoinMap} {nValueTarget : Int} {coin : CoinDenomination} {mint : CMintMeta}
  {mints listMints : List CMintMeta}

theorem countOf_cons : countOf (mint :: mints) = (countOf mints).incr mint.denom := by
  funext coin
  by_cases hdenom : coin = mint.denom
  · rw [hdenom, CoinMap.incr_self]
    simp [countOf]
  · rw [CoinMap.incr_of_ne hdenom]
    simp [countOf, hdenom]

theorem mem_zerocoinDenomList_of_ne (hdenom : coin ≠ .ZQ_ERROR) : coin ∈ zerocoinDenomList := by
  cases coin <;> first | contradiction | decide

theorem worth_countOf :
    (countOf mints).worth = (mints.map fun mint => mint.denom.toAmount).sum := by
  induction mints with
  | nil => exact CoinMap.worth_zero
  | cons mint mints ih =>
    rw [countOf_cons, List.map_cons, List.sum_cons]
    by_cases hdenom : mint.denom = .ZQ_ERROR
    · -- no coin, and worth nothing
      have hother : mint.denom ∉ zerocoinDenomList := by rw [hdenom]; decide
      have hnothing : mint.denom.toAmount = 0 := by rw [hdenom]; decide
      rw [hnothing, zero_add, ← ih, CoinMap.incr, CoinMap.worth, worth_update_of_notMem hother,
        CoinMap.worth]
    · rw [CoinMap.worth_incr (mem_zerocoinDenomList_of_ne hdenom), ih, add_comm]

theorem number_countOf_le : getNumberOfCoinsUsed (countOf mints) ≤ mints.length := by
  induction mints with
  | nil => exact le_of_eq getNumberOfCoinsUsed_zero
  | cons mint mints ih =>
    rw [countOf_cons, List.length_cons]
    push_cast
    by_cases hdenom : mint.denom = .ZQ_ERROR
    · have hother : mint.denom ∉ zerocoinDenomList := by rw [hdenom]; decide
      have hsame : getNumberOfCoinsUsed ((countOf mints).incr mint.denom) =
          getNumberOfCoinsUsed (countOf mints) := by
        refine congrArg List.sum (List.map_congr_left ?_)
        intro c hc
        exact CoinMap.incr_of_ne (ne_of_mem_of_not_mem hc hother)
      linarith
    · rw [getNumberOfCoinsUsed_incr (mem_zerocoinDenomList_of_ne hdenom)]
      linarith

theorem countP_filter_unused : (listMints.filter fun mint => !mint.isUsed).countP
    (fun mint => coin = mint.denom) = (unusedOf coin listMints).length := by
  rw [List.countP_eq_length_filter, List.filter_filter, unusedOf]
  congr 2
  funext mint
  rw [Bool.and_comm]

/-- Any spend of the amount is a way to pay it with the coins held. -/
theorem Spends.payableIn (counts : held.Counts listMints)
    (spends : Spends listMints nValueTarget mints) :
    ∃ number : Int, number ≤ mints.length ∧
      PayableIn CoinDenomination.toAmount held zerocoinDenomList.reverse nValueTarget number := by
  have hwithin : CoinSystems.Within zerocoinDenomList.reverse (countOf mints) held := by
    intro coin hcoin
    have hcount := spends.unused.countP_le fun mint => decide (coin = mint.denom)
    rw [countP_filter_unused] at hcount
    refine ⟨Int.natCast_nonneg _, ?_⟩
    rw [counts coin (List.mem_reverse.mp hcoin)]
    exact Int.ofNat_le.mpr hcount
  have hpayable := @Within.payableIn _ CoinDenomination.toAmount _ _ _ hwithin
  rw [worth_reverse, List.map_reverse, List.sum_reverse] at hpayable
  have hworth : CoinSystems.worth CoinDenomination.toAmount (countOf mints) zerocoinDenomList =
      nValueTarget := worth_countOf.trans spends.worth
  rw [hworth] at hpayable
  exact ⟨getNumberOfCoinsUsed (countOf mints), number_countOf_le, hpayable⟩

/-- A pass takes all mints of the denomination, or as many as fit. -/
theorem takeIdeal_spec (s : Taken) (hpos : 0 < coin.toAmount) (hnonneg : 0 ≤ s.nRemainingValue) :
    ∃ n : ℕ, takeIdeal coin mints s =
        { mapUsed := Function.update s.mapUsed coin (s.mapUsed coin + n)
          nRemainingValue := s.nRemainingValue - n * coin.toAmount } ∧
      0 ≤ s.nRemainingValue - n * coin.toAmount ∧ n ≤ (unusedOf coin mints).length ∧
      (s.nRemainingValue - n * coin.toAmount < coin.toAmount ∨
        n = (unusedOf coin mints).length) := by
  induction mints generalizing s with
  | nil => exact ⟨0, by simp [takeIdeal], by simpa using hnonneg, le_rfl, Or.inr rfl⟩
  | cons mint mints ih =>
    rw [takeIdeal]
    cases hused : mint.isUsed with
    | true =>
      rw [unusedOf_cons_of_used hused]
      exact ih s hnonneg
    | false =>
      by_cases htake : coin.toAmount ≤ s.nRemainingValue ∧ coin = mint.denom
      · simp only [Bool.false_eq_true, if_false, if_pos htake]
        rw [unusedOf_cons_of_eq hused htake.2]
        by_cases hless : (s.take coin).nRemainingValue < coin.toAmount
        · rw [if_pos hless]
          refine ⟨1, ?_, ?_, ?_, Or.inl ?_⟩
          · simp [Taken.take, CoinMap.incr]
          · simpa using htake.1
          · simp
          · simpa [Taken.take] using hless
        · rw [if_neg hless]
          obtain ⟨n, hresult, hleft, hle, hend⟩ := ih (s.take coin) (by linarith)
          have hremaining : (s.take coin).nRemainingValue - n * coin.toAmount =
              s.nRemainingValue - (n + 1 : ℕ) * coin.toAmount := by
            simp only [Taken.take]
            push_cast
            ring
          rw [hremaining] at hresult hleft hend
          refine ⟨n + 1, ?_, hleft, by simpa using hle, ?_⟩
          · rw [hresult]
            simp [Taken.take, CoinMap.incr, add_assoc, add_comm (1 : ℤ)]
          · rcases hend with hless | hall
            · exact Or.inl hless
            · exact Or.inr (by rw [hall, List.length_cons])
      · simp only [Bool.false_eq_true, if_false, if_neg htake]
        by_cases hless : s.nRemainingValue < coin.toAmount
        · rw [if_pos hless]
          exact ⟨0, by simp, by simpa using hnonneg, Nat.zero_le _, Or.inl (by simpa using hless)⟩
        · have hdenom : coin ≠ mint.denom := fun h => htake ⟨not_lt.mp hless, h⟩
          rw [if_neg hless, unusedOf_cons_of_ne hdenom]
          exact ih s hnonneg

/-- The coins taken can be completed to the target with no more than so many coins. -/
structure Taken.Fewest (held : CoinMap) (number : Int) (coins : List CoinDenomination)
    (s : Taken) : Prop where
  fresh : ∀ c ∈ coins, s.mapUsed c = 0
  completed : ∃ fewer, getNumberOfCoinsUsed s.mapUsed + fewer ≤ number ∧
    PayableIn CoinDenomination.toAmount held coins s.nRemainingValue fewer

/-- A pass takes as many coins as are held and fit, and the smaller coins need not be more than
they would have been. -/
theorem Taken.Fewest.pass {number : Int} {rest : List CoinDenomination} {s : Taken}
    (counts : held.Counts listMints) (hsuffix : coin :: rest <:+ zerocoinDenomList.reverse)
    (fewest : s.Fewest held number (coin :: rest)) :
    (takeIdeal coin listMints s).Fewest held number rest := by
  have descending := descending_zerocoinDenomList.sublist hsuffix.sublist
  have hnodup := (List.nodup_reverse.mpr nodup_zerocoinDenomList).sublist hsuffix.sublist
  have hcoin := List.mem_reverse.mp (hsuffix.subset List.mem_cons_self)
  have hfresh := fewest.fresh coin List.mem_cons_self
  obtain ⟨before, hnumber, hpayable⟩ := fewest.completed
  obtain ⟨n, hresult, hleft, _, hend⟩ := @takeIdeal_spec coin listMints s
    (toAmount_pos hcoin) (hpayable.payable.nonneg descending)
  have hmax : s.nRemainingValue - n * coin.toAmount < coin.toAmount ∨ (n : Int) = held coin := by
    rw [counts coin hcoin]
    exact hend.imp_right fun hall => congrArg Int.ofNat hall
  obtain ⟨fewer, hfewer, hrest⟩ := hpayable.greedy descending hleft hmax
  rw [hresult, hfresh, zero_add]
  constructor
  case fresh =>
    intro c hc
    simp only [Function.update_of_ne (ne_of_mem_of_not_mem hc (List.nodup_cons.mp hnodup).1)]
    exact fewest.fresh c (List.mem_cons_of_mem coin hc)
  case completed =>
    refine ⟨fewer, ?_, hrest⟩
    rw [getNumberOfCoinsUsed_update hcoin, hfresh]
    linarith

/-- Where the coins held can pay the target, the ideal spends do, with no more coins. -/
theorem getIdealSpends_payable {number : Int} (counts : held.Counts listMints)
    (hpayable : PayableIn CoinDenomination.toAmount held zerocoinDenomList.reverse nValueTarget
      number) :
    (getIdealSpends nValueTarget listMints).2 = true ∧
      getNumberOfCoinsUsed (getIdealSpends nValueTarget listMints).1 ≤ number := by
  have hall : ∀ coins, coins <:+ zerocoinDenomList.reverse → ∀ s : Taken,
      s.Fewest held number coins →
        (coins.foldl (fun s coin => takeIdeal coin listMints s) s).Fewest held number [] := by
    intro coins hsuffix
    induction coins with
    | nil => exact fun s fewest => fewest
    | cons coin rest ih =>
      intro s fewest
      exact ih ((List.suffix_cons coin rest).trans hsuffix) _ (fewest.pass counts hsuffix)
  have hstart : Taken.Fewest held number zerocoinDenomList.reverse
      ⟨CoinMap.zero, nValueTarget⟩ := by
    refine ⟨fun c _ => rfl, number, ?_, hpayable⟩
    simp [getNumberOfCoinsUsed_zero]
  obtain ⟨fewer, hnumber, hremaining, hnone⟩ := (hall _ List.suffix_rfl _ hstart).completed
  rw [hnone, add_zero] at hnumber
  exact ⟨decide_eq_true hremaining, hnumber⟩

/-- As many mints have been selected as coins were used of the denominations passed. -/
structure SpentMints.Numbered (used : CoinMap) (coins : List CoinDenomination) (s : SpentMints) :
    Prop where
  fresh : ∀ coin ∈ coins, s.mapOfDenomsUsed coin = used coin
  number : s.vSelectedMints.length + (coins.map used).sum = getNumberOfCoinsUsed used

theorem SpentMints.Numbered.pass {used : CoinMap} {coin : CoinDenomination}
    {rest : List CoinDenomination} {s : SpentMints} (numbered : s.Numbered used (coin :: rest))
    (hcoin : coin ∉ rest) (hnonneg : 0 ≤ used coin)
    (hle : used coin ≤ (unusedOf coin listMints).length) :
    (listMints.foldl (selectMint coin) s).Numbered used rest := by
  have hused := numbered.fresh coin List.mem_cons_self
  rw [foldl_selectMint (by rw [hused]; exact hnonneg) (by rw [hused]; exact hle), hused]
  constructor
  case fresh =>
    intro c hc
    simp only [Function.update_of_ne (ne_of_mem_of_not_mem hc hcoin)]
    exact numbered.fresh c (List.mem_cons_of_mem coin hc)
  case number =>
    have hnumber := numbered.number
    have hlength : ((unusedOf coin listMints).take (used coin).toNat).length =
        (used coin).toNat := by
      rw [List.length_take]
      omega
    rw [List.map_cons, List.sum_cons] at hnumber
    rw [List.length_append, hlength]
    push_cast
    rw [Int.toNat_of_nonneg hnonneg]
    linarith

theorem getSpends_number {used : CoinMap} (within : used.Within held)
    (counts : held.Counts listMints) :
    Total (fun fuel => getSpends fuel listMints used) (SpentMints.Numbered used []) := by
  have hstart : SpentMints.Numbered used zerocoinDenomList.reverse ⟨[], used, 0⟩ := by
    refine ⟨fun coin _ => rfl, ?_⟩
    simp [getNumberOfCoinsUsed, List.sum_reverse]
  exact getSpends_rule within counts hstart
    (fun numbered => numbered.fresh _ List.mem_cons_self)
    fun hcoin hnonneg hle numbered => numbered.pass hcoin hnonneg hle

end

/-- The unused mints of each denomination. -/
def unusedCounts (listMints : List CMintMeta) : CoinMap := fun coin =>
  (unusedOf coin listMints).length

/-- Where some of the unused mints are worth the target, the ideal spends are exact, and they
select unused mints that are worth it and are the fewest. -/
theorem getIdealSpends_fewest (nValueTarget : Int) (listMints : List CMintMeta)
    (hexists : ∃ mints, Spends listMints nValueTarget mints) :
    (getIdealSpends nValueTarget listMints).2 = true ∧
      ∃ s, Returns (fun fuel =>
          getSpends fuel listMints (getIdealSpends nValueTarget listMints).1) s ∧
        Spends listMints nValueTarget s.vSelectedMints ∧ s.nCoinsSpentValue = nValueTarget ∧
        ∀ mints, Spends listMints nValueTarget mints → s.vSelectedMints.length ≤ mints.length := by
  have counts : (unusedCounts listMints).Counts listMints := fun coin _ => rfl
  obtain ⟨hwithin, hworth⟩ := @getIdealSpends_sound _ nValueTarget _ counts
  have hexact : ∀ mints, Spends listMints nValueTarget mints →
      (getIdealSpends nValueTarget listMints).2 = true ∧
        getNumberOfCoinsUsed (getIdealSpends nValueTarget listMints).1 ≤ mints.length := by
    intro mints spends
    obtain ⟨number, hnumber, hpayable⟩ := spends.payableIn counts
    obtain ⟨hexact, hfewest⟩ := getIdealSpends_payable counts hpayable
    exact ⟨hexact, hfewest.trans hnumber⟩
  obtain ⟨mints, hmints⟩ := hexists
  have htrue := (hexact mints hmints).1
  obtain ⟨s, hreturns, selecting, numbered⟩ :=
    (getSpends_total hwithin counts).and (getSpends_number hwithin counts)
  refine ⟨htrue, s, hreturns, ?_, ?_, ?_⟩
  · refine ⟨by simpa using selecting.unused, ?_⟩
    rw [← selecting.total, selecting.value_eq, hworth htrue]
  · rw [selecting.value_eq, hworth htrue]
  · intro mints spends
    have hnumber := numbered.number
    rw [List.map_nil, List.sum_nil, add_zero] at hnumber
    have hfewest := (hexact mints spends).2
    omega

/-- Two fives and three ones. -/
def fivesAndOnes : List CMintMeta :=
  [⟨1, .ZQ_ONE, false⟩, ⟨2, .ZQ_FIVE, false⟩, ⟨3, .ZQ_ONE, false⟩, ⟨4, .ZQ_FIVE, false⟩,
    ⟨5, .ZQ_ONE, false⟩]

/-- Six coins are one of each. -/
theorem getIdealSpends_fewest_six :
    (getIdealSpends (6 * COIN) fivesAndOnes).2 = true ∧
      ∃ s, Returns (fun fuel =>
          getSpends fuel fivesAndOnes (getIdealSpends (6 * COIN) fivesAndOnes).1) s ∧
        Spends fivesAndOnes (6 * COIN) s.vSelectedMints ∧ s.nCoinsSpentValue = 6 * COIN ∧
        ∀ mints, Spends fivesAndOnes (6 * COIN) mints → s.vSelectedMints.length ≤ mints.length :=
  getIdealSpends_fewest (6 * COIN) fivesAndOnes
    ⟨[⟨1, .ZQ_ONE, false⟩, ⟨2, .ZQ_FIVE, false⟩],
      List.Sublist.subperm (by simp [fivesAndOnes]), by decide⟩

end Lytix.SelectMints
