import Lytix.Wallet.SelectMints

/-! The selected mints are unused, cover the target, and leave the change that is reported. -/
namespace Lytix.SelectMints

open BoundedLoops CoinSystems

section
variable {held : CoinMap} {nValueTarget : Int} {coin : CoinDenomination} {mint : CMintMeta}
  {mints listMints : List CMintMeta}

theorem unusedOf_cons_of_used (hused : mint.isUsed = true) :
    unusedOf coin (mint :: mints) = unusedOf coin mints := by
  simp [unusedOf, hused]

theorem unusedOf_cons_of_eq (hused : mint.isUsed = false) (hdenom : coin = mint.denom) :
    unusedOf coin (mint :: mints) = mint :: unusedOf coin mints := by
  simp [unusedOf, hused, hdenom]

theorem unusedOf_cons_of_ne (hdenom : coin ≠ mint.denom) :
    unusedOf coin (mint :: mints) = unusedOf coin mints := by
  simp [unusedOf, hdenom]

theorem CoinMap.Counts.nonneg (counts : held.Counts listMints) :
    ∀ coin ∈ zerocoinDenomList, 0 ≤ held coin := by
  intro coin hcoin
  rw [counts coin hcoin]
  exact Int.natCast_nonneg _

theorem CoinMap.Within.le_length {used : CoinMap} (within : used.Within held)
    (counts : held.Counts listMints) (hcoin : coin ∈ zerocoinDenomList) :
    used coin ≤ (unusedOf coin listMints).length := by
  rw [← counts coin hcoin]
  exact (within coin hcoin).2

/-- A pass takes at most one coin for each unused mint of its denomination. -/
theorem Taken.Sound.takeIdeal {s : Taken} (sound : s.Sound held nValueTarget)
    (hcoin : coin ∈ zerocoinDenomList)
    (hroom : s.mapUsed coin + (unusedOf coin mints).length ≤ held coin) :
    (takeIdeal coin mints s).Sound held nValueTarget ∧
      ∀ c, c ≠ coin → (takeIdeal coin mints s).mapUsed c = s.mapUsed c := by
  induction mints generalizing s with
  | nil => exact ⟨sound, fun c _ => rfl⟩
  | cons mint mints ih =>
    rw [SelectMints.takeIdeal]
    cases hused : mint.isUsed with
    | true =>
      rw [unusedOf_cons_of_used hused] at hroom
      exact ih sound hroom
    | false =>
      by_cases htake : coin.toAmount ≤ s.nRemainingValue ∧ coin = mint.denom
      · rw [unusedOf_cons_of_eq hused htake.2, List.length_cons] at hroom
        push_cast at hroom
        have htaken := sound.take hcoin (by omega)
        have hnext : (s.take coin).mapUsed coin + (unusedOf coin mints).length ≤ held coin := by
          rw [Taken.take_self]
          omega
        simp only [Bool.false_eq_true, if_false, if_pos htake]
        split
        · exact ⟨htaken, fun c hc => Taken.take_of_ne hc⟩
        · obtain ⟨hsound, hothers⟩ := ih htaken hnext
          refine ⟨hsound, ?_⟩
          intro c hc
          rw [hothers c hc, Taken.take_of_ne hc]
      · have hle : (unusedOf coin mints).length ≤ (unusedOf coin (mint :: mints)).length :=
          ((List.sublist_cons_self mint mints).filter _).length_le
        simp only [Bool.false_eq_true, if_false, if_neg htake]
        split
        · exact ⟨sound, fun c _ => rfl⟩
        · exact ih sound (by omega)

theorem getIdealSpends_sound (counts : held.Counts listMints) :
    (getIdealSpends nValueTarget listMints).1.Within held ∧
      ((getIdealSpends nValueTarget listMints).2 = true →
        (getIdealSpends nValueTarget listMints).1.worth = nValueTarget) := by
  have hall : ∀ coins : List CoinDenomination, coins.Nodup → (∀ c ∈ coins, c ∈ zerocoinDenomList) →
      ∀ s : Taken, s.Sound held nValueTarget → (∀ c ∈ coins, s.mapUsed c = 0) →
        (coins.foldl (fun s coin => takeIdeal coin listMints s) s).Sound held nValueTarget := by
    intro coins hnodup hcoins
    induction coins with
    | nil => exact fun s sound _ => sound
    | cons coin rest ih =>
      intro s sound hfresh
      rw [List.nodup_cons] at hnodup
      have hcoin := hcoins coin List.mem_cons_self
      have hroom : s.mapUsed coin + (unusedOf coin listMints).length ≤ held coin := by
        rw [hfresh coin List.mem_cons_self, counts coin hcoin]
        omega
      obtain ⟨hsound, hothers⟩ := sound.takeIdeal hcoin hroom
      refine ih hnodup.2 (fun c hc => hcoins c (List.mem_cons_of_mem coin hc)) _ hsound ?_
      intro c hc
      rw [hothers c (ne_of_mem_of_not_mem hc hnodup.1)]
      exact hfresh c (List.mem_cons_of_mem coin hc)
  have sound := hall zerocoinDenomList.reverse (List.nodup_reverse.mpr nodup_zerocoinDenomList)
    (fun c hc => List.mem_reverse.mp hc) ⟨CoinMap.zero, nValueTarget⟩
    (Taken.Sound.start counts.nonneg) fun c _ => rfl
  refine ⟨sound.within, ?_⟩
  intro hexact
  have hzero := of_decide_eq_true hexact
  have hpaid := sound.paid
  rw [hzero, add_zero] at hpaid
  exact hpaid

/-- A pass selects as many unused mints as are to be selected. -/
theorem foldl_selectMint {s : SpentMints} (hnonneg : 0 ≤ s.mapOfDenomsUsed coin)
    (hle : s.mapOfDenomsUsed coin ≤ (unusedOf coin mints).length) :
    mints.foldl (selectMint coin) s =
      { vSelectedMints := s.vSelectedMints ++
          (unusedOf coin mints).take (s.mapOfDenomsUsed coin).toNat
        mapOfDenomsUsed := Function.update s.mapOfDenomsUsed coin 0
        nCoinsSpentValue := s.nCoinsSpentValue + s.mapOfDenomsUsed coin * coin.toAmount } := by
  induction mints generalizing s with
  | nil =>
    have hzero : s.mapOfDenomsUsed coin = 0 := by
      simp [unusedOf] at hle
      omega
    have hsame : Function.update s.mapOfDenomsUsed coin 0 = s.mapOfDenomsUsed := by
      rw [← hzero, Function.update_eq_self]
    simp [hzero, hsame, unusedOf]
  | cons mint mints ih =>
    rw [List.foldl_cons, selectMint]
    cases hused : mint.isUsed with
    | true =>
      rw [unusedOf_cons_of_used hused] at hle ⊢
      exact ih hnonneg hle
    | false =>
      simp only [Bool.false_eq_true, if_false]
      by_cases hselect : coin = mint.denom ∧ s.mapOfDenomsUsed coin ≠ 0
      · rw [unusedOf_cons_of_eq hused hselect.1, List.length_cons] at hle
        push_cast at hle
        obtain ⟨n, hn⟩ : ∃ n : ℕ, s.mapOfDenomsUsed coin = n + 1 := by
          refine ⟨(s.mapOfDenomsUsed coin).toNat - 1, ?_⟩
          have := hselect.2
          omega
        rw [if_pos hselect, unusedOf_cons_of_eq hused hselect.1, ih]
        · -- the first of `n + 1` mints
          have htoNat : ((n : ℤ) + 1).toNat = n + 1 := by omega
          simp [hn, htoNat, CoinMap.decr, add_mul, add_assoc, add_comm coin.toAmount]
        · simp only [CoinMap.decr_self]
          omega
        · simp only [CoinMap.decr_self]
          omega
      · rw [if_neg hselect]
        by_cases hdenom : coin = mint.denom
        · have hzero : s.mapOfDenomsUsed coin = 0 := by
            by_contra hne
            exact hselect ⟨hdenom, hne⟩
          rw [ih hnonneg (by omega)]
          simp [hzero]
        · rw [unusedOf_cons_of_ne hdenom] at hle ⊢
          exact ih hnonneg hle

/-- Mints have been selected of the denominations that are not still to come. -/
structure SpentMints.Selecting (listMints : List CMintMeta) (used : CoinMap)
    (coins : List CoinDenomination) (s : SpentMints) : Prop where
  fresh : ∀ coin ∈ coins, s.mapOfDenomsUsed coin = used coin
  unused : s.vSelectedMints.Subperm
    (listMints.filter fun mint => !mint.isUsed && !coins.contains mint.denom)
  total : s.nCoinsSpentValue = (s.vSelectedMints.map fun mint => mint.denom.toAmount).sum
  toCome : s.nCoinsSpentValue + worth CoinDenomination.toAmount used coins = used.worth

theorem SpentMints.Selecting.pass {used : CoinMap} {rest : List CoinDenomination} {s : SpentMints}
    (selecting : s.Selecting listMints used (coin :: rest)) (hcoin : coin ∉ rest)
    (hnonneg : 0 ≤ used coin) (hle : used coin ≤ (unusedOf coin listMints).length) :
    (listMints.foldl (selectMint coin) s).Selecting listMints used rest := by
  have hused := selecting.fresh coin List.mem_cons_self
  rw [foldl_selectMint (by rw [hused]; exact hnonneg) (by rw [hused]; exact hle), hused]
  constructor
  case fresh =>
    intro c hc
    simp only [Function.update_of_ne (ne_of_mem_of_not_mem hc hcoin)]
    exact selecting.fresh c (List.mem_cons_of_mem coin hc)
  case unused =>
    have hothers : listMints.filter (fun mint => !mint.isUsed && !(coin :: rest).contains mint.denom)
        = (listMints.filter fun mint => !mint.isUsed && !rest.contains mint.denom).filter
          fun mint => coin ≠ mint.denom := by
      rw [List.filter_filter]
      refine List.filter_congr fun mint _ => ?_
      by_cases hdenom : coin = mint.denom
      · simp [hdenom]
      · simp [hdenom, Ne.symm hdenom]
    have hthese : unusedOf coin listMints =
        (listMints.filter fun mint => !mint.isUsed && !rest.contains mint.denom).filter
          fun mint => !decide (coin ≠ mint.denom) := by
      rw [List.filter_filter, unusedOf]
      refine List.filter_congr fun mint _ => ?_
      by_cases hdenom : coin = mint.denom
      · rw [hdenom] at hcoin
        simp [hdenom, hcoin]
      · simp [hdenom]
    have hsplit := List.filter_append_perm (fun mint : CMintMeta => decide (coin ≠ mint.denom))
      (listMints.filter fun mint => !mint.isUsed && !rest.contains mint.denom)
    rw [← hothers, ← hthese] at hsplit
    have hchosen := (List.take_sublist (used coin).toNat (unusedOf coin listMints)).subperm
    exact (selecting.unused.append hchosen).trans hsplit.subperm
  case total =>
    have hsame : ∀ mint ∈ (unusedOf coin listMints).take (used coin).toNat,
        mint.denom.toAmount = coin.toAmount := by
      intro mint hmint
      have hmem := List.mem_of_mem_take hmint
      rw [unusedOf, List.mem_filter, Bool.and_eq_true] at hmem
      rw [of_decide_eq_true hmem.2.2]
    have hlength : ((unusedOf coin listMints).take (used coin).toNat).length =
        (used coin).toNat := by
      rw [List.length_take]
      omega
    rw [List.map_append, List.sum_append, List.map_congr_left hsame, selecting.total,
      List.map_const', List.sum_replicate, hlength]
    simp [hnonneg]
  case toCome =>
    have htoCome := selecting.toCome
    simp only [worth, List.map_cons, List.sum_cons] at htoCome ⊢
    linarith

/-- Where no more is to be spent than is unused, one pass for each denomination is enough. -/
theorem getSpends_rule {used : CoinMap} {I : List CoinDenomination → SpentMints → Prop}
    (within : used.Within held) (counts : held.Counts listMints)
    (hstart : I zerocoinDenomList.reverse ⟨[], used, 0⟩)
    (hfresh : ∀ {coin rest s}, I (coin :: rest) s → s.mapOfDenomsUsed coin = used coin)
    (hpass : ∀ {coin rest s}, coin ∉ rest → 0 ≤ used coin →
      used coin ≤ (unusedOf coin listMints).length → I (coin :: rest) s →
        I rest (listMints.foldl (selectMint coin) s)) :
    Total (fun fuel => getSpends fuel listMints used) (I []) := by
  refine Total.foldlM hstart ?_
  intro coin rest s hsuffix invariant
  have hnodup := (List.nodup_reverse.mpr nodup_zerocoinDenomList).sublist hsuffix.sublist
  have hcoin := List.mem_reverse.mp (hsuffix.subset List.mem_cons_self)
  have hnonneg := (within coin hcoin).1
  have hle := within.le_length counts hcoin
  refine Total.doWhile (fun _ => 0) invariant ?_ ?_
  · intro s invariant hagain
    have hused := hfresh invariant
    rw [foldl_selectMint (by rw [hused]; exact hnonneg) (by rw [hused]; exact hle)] at hagain
    simp at hagain
  · intro s invariant _
    exact hpass (List.nodup_cons.mp hnodup).1 hnonneg hle invariant

theorem getSpends_total {used : CoinMap} (within : used.Within held)
    (counts : held.Counts listMints) :
    Total (fun fuel => getSpends fuel listMints used) (SpentMints.Selecting listMints used []) := by
  have hstart : SpentMints.Selecting listMints used zerocoinDenomList.reverse ⟨[], used, 0⟩ := by
    constructor
    case fresh => exact fun coin _ => rfl
    case unused => exact List.nil_subperm
    case total => rfl
    case toCome => rw [zero_add, worth_reverse, CoinMap.worth]
  exact getSpends_rule within counts hstart
    (fun selecting => selecting.fresh _ List.mem_cons_self)
    fun hcoin hnonneg hle selecting => selecting.pass hcoin hnonneg hle

/-- The coins used are held, and their amount is kept. -/
structure Used.Sound (held : CoinMap) (s : Used) : Prop where
  within : s.mapOfDenomsUsed.Within held
  amount : s.AmountUsed = s.mapOfDenomsUsed.worth

section
variable {s : Used}

theorem Used.Sound.start (hheld : ∀ coin ∈ zerocoinDenomList, 0 ≤ held coin) :
    (Used.start nValueTarget).Sound held where
  within := CoinMap.Within.zero hheld
  amount := CoinMap.worth_zero.symm

theorem Used.Sound.take (sound : s.Sound held) (hcoin : coin ∈ zerocoinDenomList)
    (hfree : s.mapOfDenomsUsed coin < held coin) : (s.take coin).Sound held where
  within := sound.within.incr hfree
  amount := by
    rw [Used.take, CoinMap.worth_incr hcoin, sound.amount]

theorem Used.Sound.giveBack (sound : s.Sound held) (hcoin : coin ∈ zerocoinDenomList)
    (hused : s.mapOfDenomsUsed coin ≠ 0) : (s.giveBack coin).Sound held where
  within := sound.within.decr hused
  amount := by
    rw [Used.giveBack, CoinMap.worth_decr hcoin, sound.amount]

theorem stayBelow_total {nextToMaxDenom : CoinDenomination} (sound : s.Sound held) :
    Total (fun fuel => stayBelow fuel held nextToMaxDenom s) (Used.Sound held) := by
  refine Total.foldlM (I := fun _ => Used.Sound held) sound ?_
  intro coin rest s hsuffix sound
  have hcoin := List.mem_reverse.mp (hsuffix.subset List.mem_cons_self)
  have hpos := toAmount_pos hcoin
  by_cases hdenom : coin.toInt ≤ nextToMaxDenom.toInt
  · simp only [if_pos hdenom]
    refine (Total.repeatWhile (fun s => s.nRemainingValue.toNat) sound ?_).mono fun _ h => h.1
    intro s sound hmore
    obtain ⟨hfits, hfree⟩ := of_decide_eq_true hmore
    refine ⟨sound.take hcoin hfree, ?_⟩
    simp only [Used.take]
    omega
  · simp only [if_neg hdenom]
    exact Total.pure sound

theorem fillUp_sound {coins : List CoinDenomination}
    (hcoins : ∀ coin ∈ coins, coin ∈ zerocoinDenomList) (sound : s.Sound held) :
    (fillUp held coins s).Sound held := by
  induction coins generalizing s with
  | nil => exact sound
  | cons coin coins ih =>
    have hcoin := hcoins coin List.mem_cons_self
    have hlater := fun c hc => hcoins c (List.mem_cons_of_mem coin hc)
    rw [fillUp]
    by_cases hlarger : s.nRemainingValue < coin.toAmount ∧ s.mapOfDenomsUsed coin < held coin
    · have htaken := sound.take hcoin hlarger.2
      simp only [if_pos hlarger]
      split
      · exact htaken
      · exact ih hlater htaken
    · simp only [if_neg hlarger]
      split
      · exact sound
      · exact ih hlater sound

theorem cancelOverlap_total {mapAltChange : CoinMap} (sound : s.Sound held) :
    Total (fun fuel => cancelOverlap fuel s mapAltChange) fun s : Used × CoinMap => s.1.Sound held := by
  refine Total.foldlM (I := fun _ (s : Used × CoinMap) => s.1.Sound held) sound ?_
  intro coin rest s hsuffix sound
  have hcoin := hsuffix.subset List.mem_cons_self
  refine (Total.repeatWhile (I := fun s : Used × CoinMap => s.1.Sound held)
    (fun s => (s.1.mapOfDenomsUsed coin).toNat) sound ?_).mono fun _ h => h.1
  intro s sound hmore
  obtain ⟨_, hused⟩ := of_decide_eq_true hmore
  refine ⟨sound.giveBack hcoin hused, ?_⟩
  have hnonneg := (sound.within coin hcoin).1
  simp only [Used.giveBack, CoinMap.decr_self]
  omega

/-- The coins used are held, and the change that they leave has the number of coins given. -/
structure LeavesChange (held : CoinMap) (nValueTarget : Int) (result : Int × CoinMap) : Prop where
  within : result.2.Within held
  change : result.1 = coinsInChangeOf (result.2.worth - nValueTarget)

/-- Whichever coins the overlap leaves, their amount can be paid, and greed pays it. -/
theorem minimizeChange_total {nMaxNumberOfSpends nChangeCount : Int}
    {nextToMaxDenom : CoinDenomination} {mapOfDenomsUsed : CoinMap}
    (hheld : ∀ coin ∈ zerocoinDenomList, 0 ≤ held coin)
    (before : LeavesChange held nValueTarget (nChangeCount, mapOfDenomsUsed)) :
    Total (fun fuel => minimizeChange fuel held nMaxNumberOfSpends nChangeCount nextToMaxDenom
      nValueTarget mapOfDenomsUsed) (LeavesChange held nValueTarget) := by
  refine Total.bind (stayBelow_total (Used.Sound.start hheld)) ?_
  intro below hbelow
  have hfilled := fillUp_sound (fun coin hcoin => hcoin) hbelow
  refine Total.bind (getChange_total _) ?_
  intro mapAltChange _
  refine Total.bind (cancelOverlap_total hfilled) ?_
  rintro ⟨s, _⟩ hs
  have hpayable := hs.within.payable
  rw [← hs.amount] at hpayable
  refine Total.bind (getSpendCoins_total hheld hpayable) ?_
  rintro used ⟨hwithin, hworth⟩
  refine Total.bind (getChange_total _) ?_
  intro change hchange
  by_cases hbetter : getNumberOfCoinsUsed change < nChangeCount ∧
      getNumberOfCoinsUsed used ≤ nMaxNumberOfSpends
  · simp only [if_pos hbetter]
    refine Total.pure ⟨hwithin, ?_⟩
    rw [hchange, hworth]
  · simp only [if_neg hbetter]
    exact Total.pure before

theorem Used.take_of_ne {c : CoinDenomination} (h : c ≠ coin) :
    (s.take coin).mapOfDenomsUsed c = s.mapOfDenomsUsed c :=
  CoinMap.incr_of_ne h

/-- Coins of the denominations still to come are left alone by a pass of `spendLargest`. -/
theorem Used.Sound.pass {rest : List CoinDenomination} (sound : s.Sound held)
    (hcoin : coin ∈ zerocoinDenomList) (hnew : coin ∉ rest)
    (hrest : ∀ c ∈ rest, s.mapOfDenomsUsed c = 0)
    (hroom : held coin ≠ 0 → s.mapOfDenomsUsed coin < held coin) :
    let s' := if held coin ≠ 0 ∧ 0 < s.nRemainingValue then s.take coin else s
    s'.Sound held ∧ ∀ c ∈ rest, s'.mapOfDenomsUsed c = 0 := by
  by_cases htake : held coin ≠ 0 ∧ 0 < s.nRemainingValue
  · simp only [if_pos htake]
    refine ⟨sound.take hcoin (hroom htake.1), ?_⟩
    intro c hc
    rw [Used.take_of_ne (ne_of_mem_of_not_mem hc hnew)]
    exact hrest c hc
  · simp only [if_neg htake]
    exact ⟨sound, hrest⟩

theorem spendLargest_total {coins : List CoinDenomination} (hnodup : coins.Nodup)
    (hcoins : ∀ coin ∈ coins, coin ∈ zerocoinDenomList) (sound : s.Sound held)
    (hfresh : ∀ coin ∈ coins, s.mapOfDenomsUsed coin = 0) :
    Total (fun fuel => spendLargest fuel held coins s) (Used.Sound held) := by
  induction coins generalizing s with
  | nil => exact Total.pure sound
  | cons coin rest ih =>
    rw [List.nodup_cons] at hnodup
    have hcoin := hcoins coin List.mem_cons_self
    refine Total.bind (M := fun s => s.Sound held ∧ ∀ c ∈ rest, s.mapOfDenomsUsed c = 0) ?_ ?_
    · -- a coin that is held is not used up before the last pass
      refine Total.doWhile (I := fun s => (s.Sound held ∧ ∀ c ∈ rest, s.mapOfDenomsUsed c = 0) ∧
        (held coin ≠ 0 → s.mapOfDenomsUsed coin < held coin))
        (fun s => (held coin - s.mapOfDenomsUsed coin).toNat) ?_ ?_ ?_
      · refine ⟨⟨sound, fun c hc => hfresh c (List.mem_cons_of_mem coin hc)⟩, ?_⟩
        have hwithin := sound.within coin hcoin
        rw [hfresh coin List.mem_cons_self] at hwithin ⊢
        omega
      · rintro s ⟨⟨sound, hrest⟩, hroom⟩ hmore
        obtain ⟨hremaining, hless⟩ := of_decide_eq_true hmore
        refine ⟨⟨sound.pass hcoin hnodup.1 hrest hroom, fun _ => hless⟩, ?_⟩
        by_cases htake : held coin ≠ 0 ∧ 0 < s.nRemainingValue
        · simp only [if_pos htake, Used.take, CoinMap.incr_self] at hless ⊢
          omega
        · -- without a coin taken, the loop does not go on
          simp only [if_neg htake] at hremaining hless
          have hnonneg := (sound.within coin hcoin).1
          omega
      · rintro s ⟨⟨sound, hrest⟩, hroom⟩ _
        exact sound.pass hcoin hnodup.1 hrest hroom
    · rintro s ⟨sound, hfresh⟩
      split
      · exact Total.pure sound
      · exact ih hnodup.2 (fun c hc => hcoins c (List.mem_cons_of_mem coin hc)) sound hfresh

end

theorem calculateChange_total {nMaxNumberOfSpends : Int} {fMinimizeChange : Bool}
    (hheld : ∀ coin ∈ zerocoinDenomList, 0 ≤ held coin) :
    Total (fun fuel => calculateChange fuel held nMaxNumberOfSpends fMinimizeChange nValueTarget)
      (LeavesChange held nValueTarget) := by
  unfold calculateChange
  cases hmin : zerocoinDenomList.find? fun denom =>
      nValueTarget < denom.toAmount ∧ held denom ≠ 0 with
  | some denom =>
    have hdenom := List.mem_of_find?_eq_some hmin
    have hfound : nValueTarget < denom.toAmount ∧ held denom ≠ 0 := by
      have htest := List.find?_some hmin
      exact of_decide_eq_true htest
    have hfree : CoinMap.zero denom < held denom :=
      lt_of_le_of_ne (hheld denom hdenom) (Ne.symm hfound.2)
    have hwithin := (CoinMap.Within.zero hheld).incr hfree
    refine Total.bind (getChange_total _) ?_
    intro change hchange
    have hone : LeavesChange held nValueTarget
        (getNumberOfCoinsUsed change, CoinMap.zero.incr denom) := by
      refine ⟨hwithin, ?_⟩
      rw [hchange, CoinMap.worth_incr hdenom, CoinMap.worth_zero, zero_add]
    cases fMinimizeChange with
    | true =>
      simp only [if_true]
      refine Total.bind (minimizeChange_total hheld hone) ?_
      rintro ⟨newChangeCount, mapOfMinDenomsUsed⟩ hmin
      by_cases hbetter : newChangeCount < getNumberOfCoinsUsed change
      · simp only [if_pos hbetter]
        exact Total.pure hmin
      · simp only [if_neg hbetter]
        exact Total.pure hone
    | false => exact Total.pure hone
  | none =>
    refine Total.bind (spendLargest_total (List.nodup_reverse.mpr nodup_zerocoinDenomList)
      (fun coin hcoin => List.mem_reverse.mp hcoin) (Used.Sound.start hheld) fun _ _ => rfl) ?_
    intro s sound
    refine Total.bind (getChange_total _) ?_
    intro change hchange
    have hlargest : LeavesChange held nValueTarget
        (getNumberOfCoinsUsed change, s.mapOfDenomsUsed) := by
      refine ⟨sound.within, ?_⟩
      rw [hchange, sound.amount]
    refine Total.bind (minimizeChange_total hheld hlargest) ?_
    rintro ⟨nChangeCount, mapOfMinDenomsUsed⟩ hmin
    by_cases hfewer : fMinimizeChange = false ∧ s.nCoinCount < getNumberOfCoinsUsed mapOfMinDenomsUsed
    · simp only [if_pos hfewer]
      exact Total.pure hlargest
    · simp only [if_neg hfewer]
      exact Total.pure hmin

/-- The selected mints are different entries of the list and unused, they are worth the value
selected, which covers the target, and the coins returned are the change. -/
structure Selection.Sound (nValueTarget : Int) (listMints : List CMintMeta) (s : Selection) :
    Prop where
  unused : s.vSelectedMints.Subperm (listMints.filter fun mint => !mint.isUsed)
  different : listMints.Nodup → s.vSelectedMints.Nodup
  total : (s.vSelectedMints.map fun mint => mint.denom.toAmount).sum = s.nSelectedValue
  covers : nValueTarget ≤ s.nSelectedValue
  change : s.nCoinsReturned = coinsInChange CoinDenomination.toAmount zerocoinDenomList.reverse
    (s.nSelectedValue - nValueTarget)

theorem coinsInChangeOf_of_nonneg {amount : Int} (h : 0 ≤ amount) : coinsInChangeOf amount =
    coinsInChange CoinDenomination.toAmount zerocoinDenomList.reverse amount := by
  rw [coinsInChangeOf, max_eq_right h]

theorem coinsInChangeOf_of_nonpos {amount : Int} (h : amount ≤ 0) : coinsInChangeOf amount = 0 := by
  rw [coinsInChangeOf, max_eq_left h, coinsInChange_zero]

theorem SpentMints.Selecting.value_eq {used : CoinMap} {s : SpentMints}
    (selecting : s.Selecting listMints used []) : s.nCoinsSpentValue = used.worth := by
  have htoCome := selecting.toCome
  simpa [worth] using htoCome

/-- Mints of coins that cover the target are a sound selection, with the change that they leave. -/
theorem SpentMints.Selecting.sound {used : CoinMap} {s : SpentMints} {nNeededSpends : ℕ}
    (selecting : s.Selecting listMints used []) (hcovers : nValueTarget ≤ used.worth) :
    Selection.Sound nValueTarget listMints ⟨s.vSelectedMints, s.nCoinsSpentValue,
      coinsInChangeOf (used.worth - nValueTarget), nNeededSpends⟩ := by
  have hvalue := selecting.value_eq
  have hunused : s.vSelectedMints.Subperm (listMints.filter fun mint => !mint.isUsed) := by
    have hselected := selecting.unused
    simpa using hselected
  constructor
  case unused => exact hunused
  case different =>
    intro hnodup
    obtain ⟨chosen, hperm, hsublist⟩ := hunused
    exact hperm.nodup ((hnodup.filter _).sublist hsublist)
  case total => exact selecting.total.symm
  case covers => exact hvalue ▸ hcovers
  case change =>
    simp only [hvalue]
    exact coinsInChangeOf_of_nonneg (sub_nonneg.mpr hcovers)

theorem selectWithChange_total {nMaxNumberOfSpends nSelectedValue : Int} {fMinimizeChange : Bool}
    {nNeededSpends : ℕ} (counts : held.Counts listMints) :
    Total (fun fuel => selectMintsFromList.selectWithChange fuel nValueTarget nMaxNumberOfSpends
      fMinimizeChange listMints held nSelectedValue nNeededSpends)
      fun s => s.vSelectedMints = [] ∨ s.Sound nValueTarget listMints := by
  refine Total.bind (calculateChange_total counts.nonneg) ?_
  rintro ⟨nCoinsReturned, used⟩ ⟨hwithin, hchange⟩
  dsimp only at hwithin hchange
  by_cases hnone : nCoinsReturned = 0
  · simp only [if_pos hnone]
    exact Total.pure (Or.inl rfl)
  · simp only [if_neg hnone]
    have hcovers : nValueTarget ≤ used.worth := by
      by_contra hless
      rw [coinsInChangeOf_of_nonpos (by omega)] at hchange
      exact hnone hchange
    refine Total.bind (getSpends_total hwithin counts) ?_
    intro spends selecting
    rw [hchange]
    exact Total.pure (Or.inr (selecting.sound hcovers))

end

/-- Whatever the target and the limit are, the selection ends, with no mints or with a sound
selection. -/
theorem selectMintsFromList_sound (nValueTarget nSelectedValue nMaxNumberOfSpends : Int)
    (fMinimizeChange : Bool) (listMints : List CMintMeta) (mapOfDenomsHeld : CoinMap)
    (counts : mapOfDenomsHeld.Counts listMints) :
    ∃ s, Returns (fun fuel => selectMintsFromList fuel nValueTarget nSelectedValue
        nMaxNumberOfSpends fMinimizeChange listMints mapOfDenomsHeld) s ∧
      (s.vSelectedMints = [] ∨ s.Sound nValueTarget listMints) := by
  obtain ⟨hwithin, hworth⟩ := @getIdealSpends_sound _ nValueTarget _ counts
  change Total _ _
  unfold selectMintsFromList
  generalize getIdealSpends nValueTarget listMints = ideal at hwithin hworth
  obtain ⟨mapOfDenomsIdeal, fCanMeetExactly⟩ := ideal
  cases fCanMeetExactly with
  | false => exact selectWithChange_total counts
  | true =>
    have hvalue : mapOfDenomsIdeal.worth = nValueTarget := hworth rfl
    refine Total.bind (getSpends_total hwithin counts) ?_
    intro spends selecting
    by_cases hfew : spends.vSelectedMints.length ≤ toSizeT nMaxNumberOfSpends
    · simp only [if_pos hfew]
      have hsound := @SpentMints.Selecting.sound _ _ _ _ 0 selecting hvalue.ge
      rw [hvalue, sub_self, coinsInChangeOf_of_nonpos le_rfl] at hsound
      exact Total.pure (Or.inr hsound)
    · simp only [if_neg hfew]
      exact selectWithChange_total counts

/-- Three coins are to be spent, from a mint of five. -/
theorem selectMintsFromList_sound_five :
    ∃ s, Returns (fun fuel => selectMintsFromList fuel (3 * COIN) 0 1 true
        [⟨1, .ZQ_FIVE, false⟩] fun denom => if denom = .ZQ_FIVE then 1 else 0) s ∧
      (s.vSelectedMints = [] ∨ s.Sound (3 * COIN) [⟨1, .ZQ_FIVE, false⟩]) :=
  selectMintsFromList_sound (3 * COIN) 0 1 true [⟨1, .ZQ_FIVE, false⟩] _ (by
    intro denom hdenom
    fin_cases hdenom <;> rfl)

example : (selectMintsFromList 9 (3 * COIN) 0 1 true [⟨1, .ZQ_FIVE, false⟩]
    fun denom => if denom = .ZQ_FIVE then 1 else 0).map Selection.nCoinsReturned = some 2 := by
  decide

end Lytix.SelectMints
