import Lytix.Lib.BoundedLoops
import Lytix.Lib.CoinSystems
import Lytix.Primitives.Zerocoin

/-! The selection of zerocoin mints for a spend. -/
namespace Lytix.SelectMints

open BoundedLoops CoinSystems

/-- What the selection reads of a mint. -/
structure CMintMeta where
  hashSerial : Uint256
  denom : CoinDenomination
  isUsed : Bool
deriving DecidableEq

/-- A map that has every denomination as a key. -/
abbrev CoinMap := CoinDenomination → Int

namespace CoinMap

def zero : CoinMap := fun _ => 0

def incr (coins : CoinMap) (coin : CoinDenomination) : CoinMap :=
  Function.update coins coin (coins coin + 1)

def decr (coins : CoinMap) (coin : CoinDenomination) : CoinMap :=
  Function.update coins coin (coins coin - 1)

end CoinMap

def getNumberOfCoinsUsed (mapChange : CoinMap) : Int := (zerocoinDenomList.map mapChange).sum

def getMaxDenomHeld (mapCoinsHeld : CoinMap) : CoinDenomination :=
  (zerocoinDenomList.reverse.find? fun coin => mapCoinsHeld coin ≠ 0).getD .ZQ_ERROR

/-- The coins taken so far, and what is still to be paid. -/
structure Taken where
  mapUsed : CoinMap
  nRemainingValue : Int

def Taken.take (s : Taken) (coin : CoinDenomination) : Taken where
  mapUsed := s.mapUsed.incr coin
  nRemainingValue := s.nRemainingValue - coin.toAmount

def getSpendCoins (fuel : ℕ) (nValueTarget : Int) (mapOfDenomsHeld : CoinMap) :
    Option CoinMap := do
  let s ← zerocoinDenomList.reverse.foldlM (fun s coin =>
    repeatWhile (fun s : Taken => s.take coin)
      (fun s => coin.toAmount ≤ s.nRemainingValue ∧ s.mapUsed coin < mapOfDenomsHeld coin)
      fuel s) ⟨CoinMap.zero, nValueTarget⟩
  return s.mapUsed

def getChange (fuel : ℕ) (nValueTarget : Int) : Option CoinMap := do
  let s ← zerocoinDenomList.reverse.foldlM (fun s coin =>
    repeatWhile (fun s : Taken => s.take coin) (fun s => coin.toAmount ≤ s.nRemainingValue)
      fuel s) ⟨CoinMap.zero, nValueTarget⟩
  return s.mapUsed

/-- One denomination's pass over the mints. -/
def takeIdeal (coin : CoinDenomination) : List CMintMeta → Taken → Taken
  | [], s => s
  | mint :: mints, s =>
    if mint.isUsed then takeIdeal coin mints s
    else
      let s' := if coin.toAmount ≤ s.nRemainingValue ∧ coin = mint.denom then s.take coin else s
      if s'.nRemainingValue < coin.toAmount then s' else takeIdeal coin mints s'

/-- The coins taken, and whether they are worth exactly the target. -/
def getIdealSpends (nValueTarget : Int) (listMints : List CMintMeta) : CoinMap × Bool :=
  let s := zerocoinDenomList.reverse.foldl (fun s coin => takeIdeal coin listMints s)
    ⟨CoinMap.zero, nValueTarget⟩
  (s.mapUsed, s.nRemainingValue = 0)

/-- The mints selected so far, and the coins still to be selected. -/
structure SpentMints where
  vSelectedMints : List CMintMeta
  mapOfDenomsUsed : CoinMap
  nCoinsSpentValue : Int

def selectMint (coin : CoinDenomination) (s : SpentMints) (mint : CMintMeta) : SpentMints :=
  if mint.isUsed then s
  else if coin = mint.denom ∧ s.mapOfDenomsUsed coin ≠ 0 then
    { vSelectedMints := s.vSelectedMints ++ [mint]
      mapOfDenomsUsed := s.mapOfDenomsUsed.decr coin
      nCoinsSpentValue := s.nCoinsSpentValue + coin.toAmount }
  else s

def getSpends (fuel : ℕ) (listMints : List CMintMeta) (mapOfDenomsUsed : CoinMap) :
    Option SpentMints :=
  zerocoinDenomList.reverse.foldlM (fun s coin =>
    doWhile (fun s => listMints.foldl (selectMint coin) s) (fun s => s.mapOfDenomsUsed coin ≠ 0)
      fuel s) ⟨[], mapOfDenomsUsed, 0⟩

def getNextLowerDenomHeld (thisDenom : CoinDenomination) (mapCoinsHeld : CoinMap) :
    CoinDenomination :=
  (zerocoinDenomList.reverse.find? fun denom =>
    denom.toInt < thisDenom.toInt ∧ mapCoinsHeld denom ≠ 0).getD .ZQ_ERROR

/-- The coins used so far, their amount and number, and what is still to be paid. -/
structure Used where
  mapOfDenomsUsed : CoinMap
  nRemainingValue : Int
  AmountUsed : Int
  nCoinCount : Int

namespace Used

def start (nValueTarget : Int) : Used := ⟨CoinMap.zero, nValueTarget, 0, 0⟩

def take (s : Used) (denom : CoinDenomination) : Used where
  mapOfDenomsUsed := s.mapOfDenomsUsed.incr denom
  nRemainingValue := s.nRemainingValue - denom.toAmount
  AmountUsed := s.AmountUsed + denom.toAmount
  nCoinCount := s.nCoinCount + 1

def giveBack (s : Used) (denom : CoinDenomination) : Used where
  mapOfDenomsUsed := s.mapOfDenomsUsed.decr denom
  nRemainingValue := s.nRemainingValue
  AmountUsed := s.AmountUsed - denom.toAmount
  nCoinCount := s.nCoinCount - 1

end Used

section
variable (fuel : ℕ) (mapOfDenomsHeld : CoinMap)

/-- The coins up to a denomination that stay below the target. -/
def stayBelow (nextToMaxDenom : CoinDenomination) (s : Used) : Option Used :=
  zerocoinDenomList.reverse.foldlM (fun s denom =>
    if denom.toInt ≤ nextToMaxDenom.toInt then
      repeatWhile (fun s : Used => s.take denom)
        (fun s => denom.toAmount < s.nRemainingValue ∧
          s.mapOfDenomsUsed denom < mapOfDenomsHeld denom)
        fuel s
    else some s) s

/-- From the smallest denomination up, one coin that is larger than what remains. -/
def fillUp : List CoinDenomination → Used → Used
  | [], s => s
  | denom :: denoms, s =>
    let s' := if s.nRemainingValue < denom.toAmount ∧
        s.mapOfDenomsUsed denom < mapOfDenomsHeld denom then s.take denom else s
    if s'.nRemainingValue < 0 then s' else fillUp denoms s'

/-- Coins that are both spent and given as change are taken out of both. -/
def cancelOverlap (s : Used) (mapAltChange : CoinMap) : Option (Used × CoinMap) :=
  zerocoinDenomList.foldlM (fun s denom =>
    repeatWhile (fun s : Used × CoinMap => (s.1.giveBack denom, s.2.decr denom))
      (fun s => s.2 denom ≠ 0 ∧ s.1.mapOfDenomsUsed denom ≠ 0)
      fuel s) (s, mapAltChange)

/-- The coins in the change, and the coins used. -/
def minimizeChange (nMaxNumberOfSpends nChangeCount : Int) (nextToMaxDenom : CoinDenomination)
    (nValueTarget : Int) (mapOfDenomsUsed : CoinMap) : Option (Int × CoinMap) := do
  let below ← stayBelow fuel mapOfDenomsHeld nextToMaxDenom (Used.start nValueTarget)
  let filled := fillUp mapOfDenomsHeld zerocoinDenomList below
  let mapAltChange ← getChange fuel (filled.AmountUsed - nValueTarget)
  let (s, _) ← cancelOverlap fuel filled mapAltChange
  let mapOfDenomsUsed' ← getSpendCoins fuel s.AmountUsed mapOfDenomsHeld
  let nCoinCount := getNumberOfCoinsUsed mapOfDenomsUsed'
  let mapAltChange ← getChange fuel (s.AmountUsed - nValueTarget)
  let AltChangeCount := getNumberOfCoinsUsed mapAltChange
  if AltChangeCount < nChangeCount ∧ nCoinCount ≤ nMaxNumberOfSpends then
    return (AltChangeCount, mapOfDenomsUsed')
  else return (nChangeCount, mapOfDenomsUsed)

/-- The largest coins first, until the target is reached. -/
def spendLargest : List CoinDenomination → Used → Option Used
  | [], s => some s
  | denom :: denoms, s => do
    let s' ← doWhile
      (fun s : Used =>
        if mapOfDenomsHeld denom ≠ 0 ∧ 0 < s.nRemainingValue then s.take denom else s)
      (fun s => 0 < s.nRemainingValue ∧ s.mapOfDenomsUsed denom < mapOfDenomsHeld denom)
      fuel s
    if s'.nRemainingValue < 0 then return s' else spendLargest denoms s'

/-- The coins in the change, and the coins used. -/
def calculateChange (nMaxNumberOfSpends : Int) (fMinimizeChange : Bool) (nValueTarget : Int) :
    Option (Int × CoinMap) := do
  match zerocoinDenomList.find? fun denom =>
      nValueTarget < denom.toAmount ∧ mapOfDenomsHeld denom ≠ 0 with
  | some minDenomOverTarget =>
    -- one coin is enough
    let mapOfDenomsUsed := CoinMap.zero.incr minDenomOverTarget
    let mapChange ← getChange fuel (minDenomOverTarget.toAmount - nValueTarget)
    let nChangeCount := getNumberOfCoinsUsed mapChange
    if fMinimizeChange then
      let nextToMaxDenom := getNextLowerDenomHeld minDenomOverTarget mapOfDenomsHeld
      let (newChangeCount, mapOfMinDenomsUsed) ← minimizeChange fuel mapOfDenomsHeld
        nMaxNumberOfSpends nChangeCount nextToMaxDenom nValueTarget mapOfDenomsUsed
      if newChangeCount < nChangeCount then return (newChangeCount, mapOfMinDenomsUsed)
      else return (nChangeCount, mapOfDenomsUsed)
    else return (nChangeCount, mapOfDenomsUsed)
  | none =>
    let s ← spendLargest fuel mapOfDenomsHeld zerocoinDenomList.reverse (Used.start nValueTarget)
    let mapChange ← getChange fuel (s.AmountUsed - nValueTarget)
    let nMaxChangeCount := getNumberOfCoinsUsed mapChange
    let maxDenomHeld := getMaxDenomHeld mapOfDenomsHeld
    let (nChangeCount, mapOfMinDenomsUsed) ← minimizeChange fuel mapOfDenomsHeld
      nMaxNumberOfSpends nMaxChangeCount maxDenomHeld nValueTarget s.mapOfDenomsUsed
    let nNumSpends := getNumberOfCoinsUsed mapOfMinDenomsUsed
    if fMinimizeChange = false ∧ s.nCoinCount < nNumSpends then
      return (nMaxChangeCount, s.mapOfDenomsUsed)
    else return (nChangeCount, mapOfMinDenomsUsed)

end

/-- What `SelectMintsFromList` returns and writes. -/
structure Selection where
  vSelectedMints : List CMintMeta
  nSelectedValue : Int
  nCoinsReturned : Int
  nNeededSpends : ℕ

/-- A conversion to the 64 bits of `size_t`. -/
def toSizeT (n : Int) : Int := n % 2 ^ 64

def selectMintsFromList (fuel : ℕ) (nValueTarget nSelectedValue nMaxNumberOfSpends : Int)
    (fMinimizeChange : Bool) (listMints : List CMintMeta) (mapOfDenomsHeld : CoinMap) :
    Option Selection := do
  let (mapOfDenomsIdeal, fCanMeetExactly) := getIdealSpends nValueTarget listMints
  if fCanMeetExactly then
    let exact ← getSpends fuel listMints mapOfDenomsIdeal
    if exact.vSelectedMints.length ≤ toSizeT nMaxNumberOfSpends then
      return ⟨exact.vSelectedMints, exact.nCoinsSpentValue, 0, 0⟩
    else
      selectWithChange exact.nCoinsSpentValue exact.vSelectedMints.length
  else selectWithChange nSelectedValue 0
where
  /-- Too many spends, or no exact amount. -/
  selectWithChange (nSelectedValue : Int) (nNeededSpends : ℕ) : Option Selection := do
    let (nCoinsReturned, mapOfDenomsUsed) ←
      calculateChange fuel mapOfDenomsHeld nMaxNumberOfSpends fMinimizeChange nValueTarget
    if nCoinsReturned = 0 then return ⟨[], nSelectedValue, nCoinsReturned, nNeededSpends⟩
    else
      let spends ← getSpends fuel listMints mapOfDenomsUsed
      return ⟨spends.vSelectedMints, spends.nCoinsSpentValue, nCoinsReturned, nNeededSpends⟩

/-- What the coins of a map are worth. -/
def CoinMap.worth (coins : CoinMap) : Int :=
  CoinSystems.worth CoinDenomination.toAmount coins zerocoinDenomList

/-- No denomination is used more often than it is held. -/
def CoinMap.Within (used held : CoinMap) : Prop := CoinSystems.Within zerocoinDenomList used held

/-- The number of coins that an amount is changed into, the largest first. -/
def coinsInChangeOf (amount : Int) : Int :=
  coinsInChange CoinDenomination.toAmount zerocoinDenomList.reverse (max 0 amount)

/-- The unused mints of a denomination. -/
def unusedOf (coin : CoinDenomination) (mints : List CMintMeta) : List CMintMeta :=
  mints.filter fun mint => !mint.isUsed && coin = mint.denom

/-- The map counts the unused mints of each denomination. -/
def CoinMap.Counts (held : CoinMap) (mints : List CMintMeta) : Prop :=
  ∀ coin ∈ zerocoinDenomList, held coin = (unusedOf coin mints).length

theorem nodup_zerocoinDenomList : zerocoinDenomList.Nodup := by decide

theorem descending_zerocoinDenomList :
    Descending CoinDenomination.toAmount zerocoinDenomList.reverse where
  positive := by decide
  divides := by decide

theorem toAmount_pos {coin : CoinDenomination} (hcoin : coin ∈ zerocoinDenomList) :
    0 < coin.toAmount :=
  descending_zerocoinDenomList.positive coin (List.mem_reverse.mpr hcoin)

section
variable {used held coins : CoinMap} {coin : CoinDenomination}

@[simp] theorem CoinMap.incr_self : coins.incr coin coin = coins coin + 1 := by
  simp [CoinMap.incr]

@[simp] theorem CoinMap.decr_self : coins.decr coin coin = coins coin - 1 := by
  simp [CoinMap.decr]

theorem CoinMap.incr_of_ne {c : CoinDenomination} (h : c ≠ coin) : coins.incr coin c = coins c := by
  simp [CoinMap.incr, h]

theorem CoinMap.decr_of_ne {c : CoinDenomination} (h : c ≠ coin) : coins.decr coin c = coins c := by
  simp [CoinMap.decr, h]

theorem CoinMap.worth_zero : CoinMap.zero.worth = 0 := by
  simp [CoinMap.worth, CoinSystems.worth, CoinMap.zero]

theorem CoinMap.worth_incr (hcoin : coin ∈ zerocoinDenomList) :
    (coins.incr coin).worth = coins.worth + coin.toAmount := by
  rw [CoinMap.worth, CoinMap.incr, worth_update nodup_zerocoinDenomList hcoin, CoinMap.worth]
  ring

theorem CoinMap.worth_decr (hcoin : coin ∈ zerocoinDenomList) :
    (coins.decr coin).worth = coins.worth - coin.toAmount := by
  rw [CoinMap.worth, CoinMap.decr, worth_update nodup_zerocoinDenomList hcoin, CoinMap.worth]
  ring

theorem getNumberOfCoinsUsed_zero : getNumberOfCoinsUsed CoinMap.zero = 0 := by decide

theorem getNumberOfCoinsUsed_update {n : Int} (hcoin : coin ∈ zerocoinDenomList) :
    getNumberOfCoinsUsed (Function.update coins coin n) =
      getNumberOfCoinsUsed coins + (n - coins coin) := by
  have hnumber : CoinSystems.worth (fun _ => 1) (Function.update coins coin n) zerocoinDenomList =
      CoinSystems.worth (fun _ => 1) coins zerocoinDenomList + (n - coins coin) * 1 :=
    worth_update nodup_zerocoinDenomList hcoin
  simpa [CoinSystems.worth, getNumberOfCoinsUsed] using hnumber

theorem getNumberOfCoinsUsed_incr (hcoin : coin ∈ zerocoinDenomList) :
    getNumberOfCoinsUsed (coins.incr coin) = getNumberOfCoinsUsed coins + 1 := by
  rw [CoinMap.incr, getNumberOfCoinsUsed_update hcoin]
  ring

theorem CoinMap.Within.incr (within : used.Within held) (hfree : used coin < held coin) :
    (used.incr coin).Within held := by
  intro c hc
  have hbefore := within c hc
  by_cases hsame : c = coin
  · rw [hsame, CoinMap.incr_self]
    rw [hsame] at hbefore
    omega
  · rw [CoinMap.incr_of_ne hsame]
    exact hbefore

theorem CoinMap.Within.decr (within : used.Within held) (hused : used coin ≠ 0) :
    (used.decr coin).Within held := by
  intro c hc
  have hbefore := within c hc
  by_cases hsame : c = coin
  · rw [hsame, CoinMap.decr_self]
    rw [hsame] at hbefore
    omega
  · rw [CoinMap.decr_of_ne hsame]
    exact hbefore

theorem CoinMap.Within.payable (within : used.Within held) :
    Payable CoinDenomination.toAmount held zerocoinDenomList.reverse used.worth := by
  have hreverse : CoinSystems.Within zerocoinDenomList.reverse used held :=
    fun c hc => within c (List.mem_reverse.mp hc)
  rw [CoinMap.worth, ← worth_reverse]
  exact hreverse.payable

end

/-- The coins taken are held, and with what remains they make up the target. -/
structure Taken.Sound (held : CoinMap) (nValueTarget : Int) (s : Taken) : Prop where
  within : s.mapUsed.Within held
  paid : s.mapUsed.worth + s.nRemainingValue = nValueTarget

section
variable {held : CoinMap} {nValueTarget : Int} {coin : CoinDenomination} {s : Taken}

theorem CoinMap.Within.zero (hheld : ∀ coin ∈ zerocoinDenomList, 0 ≤ held coin) :
    CoinMap.zero.Within held :=
  fun coin hcoin => ⟨le_rfl, hheld coin hcoin⟩

theorem Taken.Sound.start (hheld : ∀ coin ∈ zerocoinDenomList, 0 ≤ held coin) :
    Taken.Sound held nValueTarget ⟨CoinMap.zero, nValueTarget⟩ where
  within := CoinMap.Within.zero hheld
  paid := by rw [CoinMap.worth_zero, zero_add]

theorem Taken.Sound.take (sound : s.Sound held nValueTarget) (hcoin : coin ∈ zerocoinDenomList)
    (hfree : s.mapUsed coin < held coin) : (s.take coin).Sound held nValueTarget where
  within := sound.within.incr hfree
  paid := by
    have hpaid := sound.paid
    rw [Taken.take, CoinMap.worth_incr hcoin]
    linarith

@[simp] theorem Taken.take_self : (s.take coin).mapUsed coin = s.mapUsed coin + 1 :=
  CoinMap.incr_self

theorem Taken.take_of_ne {c : CoinDenomination} (h : c ≠ coin) :
    (s.take coin).mapUsed c = s.mapUsed c :=
  CoinMap.incr_of_ne h

/-- Greed has come to these denominations: they can pay what remains. -/
structure Taken.Greedy (held : CoinMap) (nValueTarget : Int) (coins : List CoinDenomination)
    (s : Taken) : Prop where
  sound : s.Sound held nValueTarget
  fresh : ∀ c ∈ coins, s.mapUsed c = 0
  payable : Payable CoinDenomination.toAmount held coins s.nRemainingValue

/-- As many coins as are held and fit leave an amount that the smaller ones can pay. -/
theorem Taken.Greedy.takeAll {rest : List CoinDenomination}
    (hsuffix : coin :: rest <:+ zerocoinDenomList.reverse)
    (greedy : s.Greedy held nValueTarget (coin :: rest)) :
    Total (fun fuel => repeatWhile (fun s : Taken => s.take coin)
      (fun s => coin.toAmount ≤ s.nRemainingValue ∧ s.mapUsed coin < held coin) fuel s)
      (Taken.Greedy held nValueTarget rest) := by
  have descending := descending_zerocoinDenomList.sublist hsuffix.sublist
  have hnodup := (List.nodup_reverse.mpr nodup_zerocoinDenomList).sublist hsuffix.sublist
  have hcoin := List.mem_reverse.mp (hsuffix.subset List.mem_cons_self)
  have hpos := toAmount_pos hcoin
  refine (Total.repeatWhile (I := fun s' => s'.Sound held nValueTarget ∧
    (∀ c ∈ rest, s'.mapUsed c = 0) ∧ 0 ≤ s'.nRemainingValue ∧
    s'.nRemainingValue = s.nRemainingValue - s'.mapUsed coin * coin.toAmount)
    (fun s => s.nRemainingValue.toNat) ?_ ?_).mono ?_
  · refine ⟨greedy.sound, fun c hc => greedy.fresh c (List.mem_cons_of_mem coin hc),
      greedy.payable.nonneg descending, ?_⟩
    rw [greedy.fresh coin List.mem_cons_self]
    ring
  · rintro s' ⟨hsound, hrest, hnonneg, hremaining⟩ hmore
    obtain ⟨hfits, hfree⟩ := of_decide_eq_true hmore
    refine ⟨⟨hsound.take hcoin hfree, ?_, ?_, ?_⟩, ?_⟩
    · intro c hc
      rw [Taken.take_of_ne (ne_of_mem_of_not_mem hc (List.nodup_cons.mp hnodup).1)]
      exact hrest c hc
    · simpa [Taken.take] using hfits
    · simp only [Taken.take, CoinMap.incr_self]
      rw [hremaining]
      ring
    · simp only [Taken.take]
      omega
  · rintro s' ⟨⟨hsound, hrest, hnonneg, hremaining⟩, hmore⟩
    refine ⟨hsound, hrest, ?_⟩
    have hstop := of_decide_eq_false hmore
    have hheld := (hsound.within coin hcoin).2
    rw [hremaining] at hnonneg hstop ⊢
    refine greedy.payable.greedy descending hnonneg ?_
    by_cases hless : s.nRemainingValue - s'.mapUsed coin * coin.toAmount < coin.toAmount
    · exact Or.inl hless
    · right
      by_contra hne
      exact hstop ⟨not_lt.mp hless, lt_of_le_of_ne hheld hne⟩

/-- Greed pays each amount that the coins held can pay. -/
theorem getSpendCoins_total (hheld : ∀ coin ∈ zerocoinDenomList, 0 ≤ held coin)
    (payable : Payable CoinDenomination.toAmount held zerocoinDenomList.reverse nValueTarget) :
    Total (fun fuel => getSpendCoins fuel nValueTarget held)
      fun used => used.Within held ∧ used.worth = nValueTarget := by
  refine Total.bind (M := Taken.Greedy held nValueTarget []) ?_ ?_
  · have hstart : Taken.Greedy held nValueTarget zerocoinDenomList.reverse
        ⟨CoinMap.zero, nValueTarget⟩ :=
      ⟨Taken.Sound.start hheld, fun c _ => rfl, payable⟩
    refine Total.foldlM hstart ?_
    intro coin rest s hsuffix greedy
    exact greedy.takeAll hsuffix
  · intro s greedy
    refine Total.pure ⟨greedy.sound.within, ?_⟩
    have hpaid := greedy.sound.paid
    have hzero : s.nRemainingValue = 0 := greedy.payable
    rw [hzero, add_zero] at hpaid
    exact hpaid

/-- The change has the number of coins that greed gives. -/
theorem getChange_total (nValueTarget : Int) :
    Total (fun fuel => getChange fuel nValueTarget)
      fun change => getNumberOfCoinsUsed change = coinsInChangeOf nValueTarget := by
  refine Total.bind
    (M := fun s => getNumberOfCoinsUsed s.mapUsed = coinsInChangeOf nValueTarget) ?_
    fun s hs => Total.pure hs
  refine (Total.foldlM (I := fun coins s => getNumberOfCoinsUsed s.mapUsed +
    coinsInChange CoinDenomination.toAmount coins (max 0 s.nRemainingValue) =
      coinsInChangeOf nValueTarget) ?_ ?_).mono ?_
  · rw [getNumberOfCoinsUsed_zero, zero_add, coinsInChangeOf]
  · intro coin rest s hsuffix hnumber
    have hcoin := List.mem_reverse.mp (hsuffix.subset List.mem_cons_self)
    have hpos := toAmount_pos hcoin
    refine (Total.repeatWhile (I := fun s => getNumberOfCoinsUsed s.mapUsed +
      coinsInChange CoinDenomination.toAmount (coin :: rest) (max 0 s.nRemainingValue) =
        coinsInChangeOf nValueTarget) (fun s => s.nRemainingValue.toNat) hnumber ?_).mono ?_
    · intro s' hnumber' hmore
      have hfits := of_decide_eq_true hmore
      constructor
      · have hmax : max 0 (s'.nRemainingValue - coin.toAmount) =
            max 0 s'.nRemainingValue - coin.toAmount := by omega
        simp only [Taken.take]
        rw [getNumberOfCoinsUsed_incr hcoin, hmax, coinsInChange_sub hpos]
        linarith
      · simp only [Taken.take]
        omega
    · rintro s' ⟨hnumber', hmore⟩
      have hless := not_le.mp (of_decide_eq_false hmore)
      rw [coinsInChange_of_lt (le_max_left _ _) (max_lt hpos hless)] at hnumber'
      exact hnumber'
  · intro s hnumber
    simpa [coinsInChange] using hnumber

end

end Lytix.SelectMints
