import Mathlib.Data.List.Sort
import Lytix.Lib.Picks
import Lytix.Primitives.Transaction

/-! `SelectCoinsMinConf` and its search for a subset of the smaller coins whose value is close to
the target from above. -/
namespace Lytix.CoinSelection
open Picks

def CENT : Int := 1000000

theorem CENT_pos : 0 < CENT := by decide

/-- An output of a wallet transaction. -/
structure COutput where
  tx : CTransaction
  i : Nat
  nDepth : Int
  fSpendable : Bool
deriving DecidableEq, Repr

abbrev WalletCoin := CTransaction × Nat

/-- `pcoin->vout[i].nValue`. -/
def WalletCoin.nValue (coin : WalletCoin) : Int :=
  match coin.1.vout[coin.2]? with
  | some txout => txout.nValue
  | none => 0

def COutput.coin (output : COutput) : WalletCoin := (output.tx, output.i)

/-- The denominations, which transactions are from the wallet itself, and the setting
`-spendzeroconfchange`. -/
structure CoinWallet where
  obfuScationDenominations : List Int
  isFromMe : CTransaction → Bool
  bSpendZeroConfChange : Bool

namespace CoinWallet

def isDenominatedAmount (wallet : CoinWallet) (nInputAmount : Int) : Bool :=
  wallet.obfuScationDenominations.any fun d => nInputAmount == d

def lessThenDenom (wallet : CoinWallet) (out1 out2 : COutput) : Bool :=
  let found1 := wallet.obfuScationDenominations.any fun d => out1.coin.nValue == d
  let found2 := wallet.obfuScationDenominations.any fun d => out2.coin.nValue == d
  !found1 && found2

end CoinWallet

/-- What is left to chance in one call: the shuffle, the order of what the sorts hold for equal, and
the bits of `insecure_rand`, by the call of the search, the repetition and the place. -/
structure CoinChance (wallet : CoinWallet) where
  randomShuffle : List COutput → List COutput
  randomShuffle_perm (vCoins : List COutput) : (randomShuffle vCoins).Perm vCoins
  sortDenoms : List COutput → List COutput
  sortDenoms_perm (vCoins : List COutput) : (sortDenoms vCoins).Perm vCoins
  sortDenoms_sorted (vCoins : List COutput) :
    (sortDenoms vCoins).Pairwise fun out1 out2 => wallet.lessThenDenom out2 out1 = false
  sortValues : List (Int × WalletCoin) → List (Int × WalletCoin)
  sortValues_perm (vValue : List (Int × WalletCoin)) : (sortValues vValue).Perm vValue
  sortValues_sorted (vValue : List (Int × WalletCoin)) :
    (sortValues vValue).Pairwise fun t1 t2 => t2.1 ≤ t1.1
  bits : Nat → Nat → Nat → Bool

/-! `ApproximateBestSubset`. -/

/-- The variables of one repetition. -/
structure SubsetSearch where
  nTotal : Int
  vfIncluded : List Bool
  fReachedTarget : Bool
  nBest : Int
  vfBest : List Bool

namespace SubsetSearch

/-- A coin is included, and left out again where the target is reached with it. -/
def addCoin (nTargetValue : Int) (i : Nat) (value : Int) (s : SubsetSearch) : SubsetSearch :=
  let nTotal := s.nTotal + value
  let vfIncluded := s.vfIncluded.set i true
  if nTargetValue ≤ nTotal then
    { nTotal := nTotal - value
      vfIncluded := vfIncluded.set i false
      fReachedTarget := true
      nBest := if nTotal < s.nBest then nTotal else s.nBest
      vfBest := if nTotal < s.nBest then vfIncluded else s.vfBest }
  else { s with
    nTotal := nTotal
    vfIncluded := vfIncluded }

end SubsetSearch

section search
variable {α : Type} (nTargetValue : Int)

/-- One pass over the coins from a place on. -/
def subsetPass (includes : SubsetSearch → Nat → Bool) :
    List (Int × α) → Nat → SubsetSearch → SubsetSearch
  | [], _, s => s
  | coin :: rest, i, s =>
    let s := if includes s i then s.addCoin nTargetValue i coin.1 else s
    subsetPass includes rest (i + 1) s

/-- In the first pass chance includes, in the second what is not included yet is. -/
def subsetRep (vValue : List (Int × α)) (bits : Nat → Bool) (nBest : Int) (vfBest : List Bool) :
    SubsetSearch :=
  let s : SubsetSearch := ⟨0, List.replicate vValue.length false, false, nBest, vfBest⟩
  let s := subsetPass nTargetValue (fun _ i => bits i) vValue 0 s
  if s.fReachedTarget then s
  else subsetPass nTargetValue (fun s i => s.vfIncluded[i]? == some false) vValue 0 s

def subsetReps (vValue : List (Int × α)) (bits : Nat → Nat → Bool) :
    (iterations nRep : Nat) → Int → List Bool → List Bool × Int
  | 0, _, nBest, vfBest => (vfBest, nBest)
  | iterations + 1, nRep, nBest, vfBest =>
    if nBest = nTargetValue then (vfBest, nBest)
    else
      let s := subsetRep nTargetValue vValue (bits nRep) nBest vfBest
      subsetReps vValue bits iterations (nRep + 1) s.nBest s.vfBest

def approximateBestSubset (vValue : List (Int × α)) (nTotalLower : Int) (bits : Nat → Nat → Bool)
    (iterations : Nat) : List Bool × Int :=
  subsetReps nTargetValue vValue bits iterations 0 nTotalLower
    (List.replicate vValue.length true)

end search

namespace SubsetSearch
variable {α : Type} {nTargetValue : Int} {vValue : List (Int × α)} {s start : SubsetSearch}

/-- The total is the value of what is included, and the best total that of the best subset. -/
structure Adds (nTargetValue : Int) (vValue : List (Int × α)) (s : SubsetSearch) : Prop where
  total : s.nTotal = ((pick s.vfIncluded vValue).map Prod.fst).sum
  best : s.nBest = ((pick s.vfBest vValue).map Prod.fst).sum
  enough : nTargetValue ≤ s.nBest

theorem Adds.addCoin {i : Nat} {coin : Int × α} (hadds : s.Adds nTargetValue vValue)
    (hflag : s.vfIncluded[i]? = some false) (hcoin : vValue[i]? = some coin) :
    (s.addCoin nTargetValue i coin.1).Adds nTargetValue vValue := by
  have hsum : s.nTotal + coin.1 =
      ((pick (s.vfIncluded.set i true) vValue).map Prod.fst).sum := by
    rw [sum_pick_set Prod.fst hflag hcoin, hadds.total]
  have hback : (s.vfIncluded.set i true).set i false = s.vfIncluded := by
    obtain ⟨hi, hfalse⟩ := List.getElem?_eq_some_iff.mp hflag
    rw [List.set_set, ← hfalse, List.set_getElem_self]
  unfold SubsetSearch.addCoin
  dsimp only
  split_ifs with hreached hbetter
  · refine ⟨?_, hsum, hreached⟩
    simp only [hback]
    rw [add_sub_cancel_right, hadds.total]
  · refine ⟨?_, hadds.best, hadds.enough⟩
    simp only [hback]
    rw [add_sub_cancel_right, hadds.total]
  · exact ⟨hsum, hadds.best, hadds.enough⟩

theorem getElem?_addCoin {i j : Nat} {value : Int} (h : i ≠ j) :
    (s.addCoin nTargetValue i value).vfIncluded[j]? = s.vfIncluded[j]? := by
  unfold SubsetSearch.addCoin
  dsimp only
  split_ifs
  · simp [h]
  · simp [h]
  · exact List.getElem?_set_ne h

/-- A pass only includes what is not included, where this holds of each flag as the pass found it. -/
theorem Adds.subsetPass {includes : SubsetSearch → Nat → Bool} {rest : List (Int × α)} {i : Nat}
    (hincludes : ∀ s : SubsetSearch, ∀ j < vValue.length, s.vfIncluded[j]? = start.vfIncluded[j]? →
      includes s j = true → s.vfIncluded[j]? = some false)
    (hrest : rest = vValue.drop i) (hsame : ∀ j, i ≤ j → s.vfIncluded[j]? = start.vfIncluded[j]?)
    (hadds : s.Adds nTargetValue vValue) :
    (subsetPass nTargetValue includes rest i s).Adds nTargetValue vValue := by
  induction rest generalizing i s with
  | nil => exact hadds
  | cons coin rest ih =>
    have hcoin : vValue[i]? = some coin := by
      rw [← List.head?_drop, ← hrest, List.head?_cons]
    have hi : i < vValue.length := (List.getElem?_eq_some_iff.mp hcoin).1
    have hrest : rest = vValue.drop (i + 1) := by
      rw [← List.tail_drop, ← hrest, List.tail_cons]
    unfold CoinSelection.subsetPass
    dsimp only
    by_cases hinclude : includes s i = true
    · have hflag := hincludes s i hi (hsame i (le_refl i)) hinclude
      rw [if_pos hinclude]
      refine ih hrest ?_ (hadds.addCoin hflag hcoin)
      intro j hj
      rw [getElem?_addCoin (by omega), hsame j (by omega)]
    · rw [if_neg hinclude]
      exact ih hrest (fun j hj => hsame j (by omega)) hadds

end SubsetSearch

section search
variable {α : Type} {nTargetValue : Int} {vValue : List (Int × α)}

theorem adds_subsetRep {bits : Nat → Bool} {nBest : Int} {vfBest : List Bool}
    (hbest : nBest = ((pick vfBest vValue).map Prod.fst).sum) (henough : nTargetValue ≤ nBest) :
    (subsetRep nTargetValue vValue bits nBest vfBest).Adds nTargetValue vValue := by
  have hstart : SubsetSearch.Adds nTargetValue vValue
      ⟨0, List.replicate vValue.length false, false, nBest, vfBest⟩ := by
    refine ⟨?_, hbest, henough⟩
    simp [pick_replicate_false]
  unfold subsetRep
  dsimp only
  have hfirst : (subsetPass nTargetValue (fun _ i => bits i) vValue 0
      ⟨0, List.replicate vValue.length false, false, nBest, vfBest⟩).Adds nTargetValue vValue := by
    refine hstart.subsetPass ?_ rfl (fun _ _ => rfl)
    intro s j hj hsame _
    rw [hsame, List.getElem?_replicate, if_pos hj]
  split_ifs
  · exact hfirst
  · refine hfirst.subsetPass ?_ rfl (fun _ _ => rfl)
    intro s j _ _ hnot
    exact eq_of_beq hnot

theorem sound_subsetReps {bits : Nat → Nat → Bool} {iterations nRep : Nat} {nBest : Int}
    {vfBest : List Bool} (hbest : nBest = ((pick vfBest vValue).map Prod.fst).sum)
    (henough : nTargetValue ≤ nBest) :
    let best := subsetReps nTargetValue vValue bits iterations nRep nBest vfBest
    best.2 = ((pick best.1 vValue).map Prod.fst).sum ∧ nTargetValue ≤ best.2 := by
  induction iterations generalizing nRep nBest vfBest with
  | zero => exact ⟨hbest, henough⟩
  | succ iterations ih =>
    unfold subsetReps
    split_ifs
    · exact ⟨hbest, henough⟩
    · have hrep := @adds_subsetRep _ _ _ (bits nRep) _ _ hbest henough
      exact ih hrep.best hrep.enough

/-- Whatever the bits, the best total is the value of the best subset and reaches the target, if the
value of all coins does. -/
theorem approximateBestSubset_sound {nTotalLower : Int} {bits : Nat → Nat → Bool}
    {iterations : Nat} (htotal : nTotalLower = (vValue.map Prod.fst).sum)
    (henough : nTargetValue ≤ nTotalLower) :
    let best := approximateBestSubset nTargetValue vValue nTotalLower bits iterations
    best.2 = ((pick best.1 vValue).map Prod.fst).sum ∧ nTargetValue ≤ best.2 := by
  unfold approximateBestSubset
  refine sound_subsetReps ?_ henough
  rw [pick_replicate_true, htotal]

end search

/-! `SelectCoinsMinConf`. -/

/-- What a call leaves in `setCoinsRet` and `nValueRet`, and what it returns. -/
structure CoinsRet where
  ret : Bool
  setCoinsRet : List WalletCoin
  nValueRet : Int
deriving DecidableEq, Repr

/-- `std::numeric_limits<CAmount>::max()`. -/
def maxCAmount : Int := 2 ^ 63 - 1

structure CoinScan where
  vValue : List (Int × WalletCoin) := []
  nTotalLower : Int := 0
  coinLowestLarger : Int × Option WalletCoin := (maxCAmount, none)

/-- Coins inserted into an empty set. -/
def insertCoins (coins : List (Int × WalletCoin)) : CoinsRet :=
  coins.foldl (fun ret coin =>
    ⟨true, ret.setCoinsRet.insert coin.2, ret.nValueRet + coin.1⟩) ⟨true, [], 0⟩

section select
variable (wallet : CoinWallet) (nTargetValue nConfMine nConfTheirs : Int)

/-- Whether a coin may be spent and has the depth asked for. -/
def CoinWallet.eligible (output : COutput) : Bool :=
  output.fSpendable &&
    decide ((if wallet.isFromMe output.tx then nConfMine else nConfTheirs) ≤ output.nDepth)

/-- The loop over the coins: a coin of exactly the target's value ends it. -/
def scanCoins (tryDenom : Nat) : List COutput → CoinScan → (Int × WalletCoin) ⊕ CoinScan
  | [], scan => .inr scan
  | output :: vCoins, scan =>
    if output.fSpendable = false then scanCoins tryDenom vCoins scan
    else if output.nDepth < (if wallet.isFromMe output.tx then nConfMine else nConfTheirs) then
      scanCoins tryDenom vCoins scan
    else
      let n := output.coin.nValue
      if tryDenom = 0 ∧ wallet.isDenominatedAmount n then scanCoins tryDenom vCoins scan
      else if n = nTargetValue then .inl (n, output.coin)
      else if n < nTargetValue + CENT then
        scanCoins tryDenom vCoins { scan with
          vValue := scan.vValue ++ [(n, output.coin)]
          nTotalLower := scan.nTotalLower + n }
      else if n < scan.coinLowestLarger.1 then
        scanCoins tryDenom vCoins { scan with coinLowestLarger := (n, some output.coin) }
      else scanCoins tryDenom vCoins scan

variable {wallet} (chance : CoinChance wallet)

/-- The smaller coins are worth more than the target: the best subset found, or a larger coin. -/
def solveSubset (scan : CoinScan) : CoinsRet :=
  let vValue := chance.sortValues scan.vValue
  let best := approximateBestSubset nTargetValue vValue scan.nTotalLower (chance.bits 0) 1000
  let best :=
    if best.2 ≠ nTargetValue ∧ nTargetValue + CENT ≤ scan.nTotalLower then
      approximateBestSubset (nTargetValue + CENT) vValue scan.nTotalLower (chance.bits 1) 1000
    else best
  match scan.coinLowestLarger.2 with
  | some coin =>
    if (best.2 ≠ nTargetValue ∧ best.2 < nTargetValue + CENT) ∨
        scan.coinLowestLarger.1 ≤ best.2 then
      insertCoins [(scan.coinLowestLarger.1, coin)]
    else insertCoins (pick best.1 vValue)
  | none => insertCoins (pick best.1 vValue)

def selectPasses (vCoins : List COutput) : List Nat → CoinScan → CoinsRet
  | [], scan => solveSubset nTargetValue chance scan
  | tryDenom :: rest, scan =>
    let scanned := scanCoins wallet nTargetValue nConfMine nConfTheirs tryDenom vCoins { scan with
      vValue := []
      nTotalLower := 0 }
    match scanned with
    | .inl coin => insertCoins [coin]
    | .inr scan =>
      if scan.nTotalLower = nTargetValue then insertCoins scan.vValue
      else if scan.nTotalLower < nTargetValue then
        match scan.coinLowestLarger.2 with
        | none =>
          -- denominated coins were not looked at yet
          if tryDenom = 0 then selectPasses vCoins rest scan else ⟨false, [], 0⟩
        | some coin => insertCoins [(scan.coinLowestLarger.1, coin)]
      else solveSubset nTargetValue chance scan

def selectCoinsMinConf (vCoins : List COutput) : CoinsRet :=
  let vCoins := chance.sortDenoms (chance.randomShuffle vCoins)
  selectPasses nTargetValue nConfMine nConfTheirs chance vCoins [0, 1] {}

end select

/-- A set of eligible candidates, with the sum of its values, that reaches the target. -/
structure CoinsFound (wallet : CoinWallet) (vCoins : List COutput)
    (nTargetValue nConfMine nConfTheirs : Int) (found : CoinsRet) : Prop where
  nodup : found.setCoinsRet.Nodup
  eligible : ∀ coin ∈ found.setCoinsRet, ∃ output ∈ vCoins,
    output.coin = coin ∧ wallet.eligible nConfMine nConfTheirs output = true
  value : found.nValueRet = (found.setCoinsRet.map WalletCoin.nValue).sum
  enough : nTargetValue ≤ found.nValueRet

section sound
variable {wallet : CoinWallet} {nTargetValue nConfMine nConfTheirs : Int} {tryDenom : Nat}
  {vCoins : List COutput} {scan scan' : CoinScan} {coins coins' : List (Int × WalletCoin)}
  {output : COutput}

/-- A coin with its value, as it is collected. -/
def COutput.valued (output : COutput) : Int × WalletCoin := (output.coin.nValue, output.coin)

/-- Distinct eligible candidates with their values. -/
structure Collected (wallet : CoinWallet) (vCoins : List COutput) (nConfMine nConfTheirs : Int)
    (coins : List (Int × WalletCoin)) : Prop where
  nodup : (coins.map Prod.snd).Nodup
  valued : ∀ coin ∈ coins, ∃ output ∈ vCoins,
    output.valued = coin ∧ wallet.eligible nConfMine nConfTheirs output = true

theorem Collected.sublist (h : Collected wallet vCoins nConfMine nConfTheirs coins)
    (hsub : coins'.Sublist coins) : Collected wallet vCoins nConfMine nConfTheirs coins' where
  nodup := h.nodup.sublist (hsub.map Prod.snd)
  valued coin hmem := h.valued coin (hsub.mem hmem)

theorem Collected.perm (h : Collected wallet vCoins nConfMine nConfTheirs coins)
    (hperm : coins'.Perm coins) : Collected wallet vCoins nConfMine nConfTheirs coins' where
  nodup := (hperm.map Prod.snd).nodup_iff.mpr h.nodup
  valued coin hmem := h.valued coin (hperm.mem_iff.mp hmem)

theorem insertCoins_of_nodup (hnodup : (coins.map Prod.snd).Nodup) :
    insertCoins coins = ⟨true, (coins.map Prod.snd).reverse, (coins.map Prod.fst).sum⟩ := by
  have hfold : ∀ start : CoinsRet, start.ret = true → (∀ c ∈ coins, c.2 ∉ start.setCoinsRet) →
      coins.foldl (fun ret coin => ⟨true, ret.setCoinsRet.insert coin.2, ret.nValueRet + coin.1⟩)
        start = ⟨true, (coins.map Prod.snd).reverse ++ start.setCoinsRet,
          start.nValueRet + (coins.map Prod.fst).sum⟩ := by
    induction coins with
    | nil =>
      intro start hret _
      rcases start with ⟨ret, set, value⟩
      simp_all
    | cons c rest ih =>
      intro start hret hnew
      rw [List.map_cons, List.nodup_cons] at hnodup
      have hfresh : c.2 ∉ start.setCoinsRet := hnew c List.mem_cons_self
      rw [List.foldl_cons, ih hnodup.2 _ rfl, List.insert_of_not_mem hfresh]
      · simp [add_assoc]
      · intro d hd hin
        rw [List.insert_of_not_mem hfresh] at hin
        rcases List.mem_cons.mp hin with hsame | hin
        · exact hnodup.1 (List.mem_map.mpr ⟨d, hd, hsame⟩)
        · exact hnew d (List.mem_cons_of_mem _ hd) hin
  have hempty := hfold ⟨true, [], 0⟩ rfl (fun _ _ => List.not_mem_nil)
  unfold insertCoins
  simpa using hempty

theorem Collected.found (h : Collected wallet vCoins nConfMine nConfTheirs coins)
    (henough : nTargetValue ≤ (coins.map Prod.fst).sum) :
    (insertCoins coins).ret = true ∧
      CoinsFound wallet vCoins nTargetValue nConfMine nConfTheirs (insertCoins coins) := by
  rw [insertCoins_of_nodup h.nodup]
  refine ⟨rfl, List.nodup_reverse.mpr h.nodup, ?_, ?_, henough⟩
  · intro coin hcoin
    rw [List.mem_reverse, List.mem_map] at hcoin
    obtain ⟨c, hc, rfl⟩ := hcoin
    obtain ⟨output, hmem, rfl, heligible⟩ := h.valued c hc
    exact ⟨output, hmem, rfl, heligible⟩
  · have hvalues : coins.map Prod.fst = (coins.map Prod.snd).map WalletCoin.nValue := by
      rw [List.map_map]
      apply List.map_congr_left
      intro c hc
      obtain ⟨output, -, rfl, -⟩ := h.valued c hc
      rfl
    rw [List.map_reverse, List.sum_reverse, hvalues]

/-- Whether a round looks at the value of a coin. -/
def CoinWallet.counts (wallet : CoinWallet) (nConfMine nConfTheirs : Int) (tryDenom : Nat)
    (output : COutput) : Bool :=
  wallet.eligible nConfMine nConfTheirs output &&
    !(decide (tryDenom = 0) && wallet.isDenominatedAmount output.coin.nValue)

theorem scanCoins_cons :
    scanCoins wallet nTargetValue nConfMine nConfTheirs tryDenom (output :: vCoins) scan =
      if wallet.counts nConfMine nConfTheirs tryDenom output then
        if output.coin.nValue = nTargetValue then .inl output.valued
        else if output.coin.nValue < nTargetValue + CENT then
          scanCoins wallet nTargetValue nConfMine nConfTheirs tryDenom vCoins { scan with
            vValue := scan.vValue ++ [output.valued]
            nTotalLower := scan.nTotalLower + output.coin.nValue }
        else if output.coin.nValue < scan.coinLowestLarger.1 then
          scanCoins wallet nTargetValue nConfMine nConfTheirs tryDenom vCoins
            { scan with coinLowestLarger := (output.coin.nValue, some output.coin) }
        else scanCoins wallet nTargetValue nConfMine nConfTheirs tryDenom vCoins scan
      else scanCoins wallet nTargetValue nConfMine nConfTheirs tryDenom vCoins scan := by
  have hcounts : wallet.counts nConfMine nConfTheirs tryDenom output = true ↔
      ¬ output.fSpendable = false ∧
      ¬ output.nDepth < (if wallet.isFromMe output.tx then nConfMine else nConfTheirs) ∧
      ¬ (tryDenom = 0 ∧ wallet.isDenominatedAmount output.coin.nValue) := by
    simp only [CoinWallet.counts, CoinWallet.eligible, Bool.and_eq_true, Bool.not_eq_true',
      decide_eq_true_eq, Bool.not_eq_false, not_lt, Bool.and_eq_false_iff, decide_eq_false_iff_not,
      not_and_or, Bool.not_eq_true, and_assoc]
  rw [scanCoins]
  dsimp only
  by_cases hspendable : output.fSpendable = false
  · rw [if_pos hspendable, if_neg (by simp [hcounts, hspendable])]
  · by_cases hdepth :
        output.nDepth < (if wallet.isFromMe output.tx then nConfMine else nConfTheirs)
    · rw [if_neg hspendable, if_pos hdepth, if_neg (by rw [hcounts]; tauto)]
    · by_cases hdenom : tryDenom = 0 ∧ wallet.isDenominatedAmount output.coin.nValue
      · rw [if_neg hspendable, if_neg hdepth, if_pos hdenom, if_neg (by rw [hcounts]; tauto)]
      · rw [if_neg hspendable, if_neg hdepth, if_neg hdenom, if_pos (hcounts.mpr (by tauto))]
        rfl

/-- An exact coin ends the loop. -/
theorem exists_of_scanCoins_inl {coin : Int × WalletCoin}
    (h : scanCoins wallet nTargetValue nConfMine nConfTheirs tryDenom vCoins scan = .inl coin) :
    ∃ output ∈ vCoins, output.valued = coin ∧ wallet.eligible nConfMine nConfTheirs output = true ∧
      output.coin.nValue = nTargetValue := by
  induction vCoins generalizing scan with
  | nil => simp [scanCoins] at h
  | cons output vCoins ih =>
    have hlater : ∀ {scan}, scanCoins wallet nTargetValue nConfMine nConfTheirs tryDenom vCoins
        scan = .inl coin → ∃ output' ∈ output :: vCoins, output'.valued = coin ∧
          wallet.eligible nConfMine nConfTheirs output' = true ∧
          output'.coin.nValue = nTargetValue := by
      intro scan h
      obtain ⟨output', hmem, hfound⟩ := ih h
      exact ⟨output', List.mem_cons_of_mem _ hmem, hfound⟩
    rw [scanCoins_cons] at h
    split_ifs at h with hcounts hexact
    · have heligible : wallet.eligible nConfMine nConfTheirs output = true := by
        unfold CoinWallet.counts at hcounts
        exact (Bool.and_eq_true_iff.mp hcounts).1
      exact ⟨output, List.mem_cons_self, Sum.inl.inj h, heligible, hexact⟩
    · exact hlater h
    · exact hlater h
    · exact hlater h
    · exact hlater h

/-- What the loop has at its end: the smaller coins with their total, and some larger coin unless
there is none. -/
structure Scanned (wallet : CoinWallet) (nTargetValue nConfMine nConfTheirs : Int)
    (tryDenom : Nat) (vCoins : List COutput) (scan scan' : CoinScan) : Prop where
  vValue : scan'.vValue = scan.vValue ++ (vCoins.filter fun output =>
    wallet.counts nConfMine nConfTheirs tryDenom output &&
      decide (output.coin.nValue < nTargetValue + CENT)).map COutput.valued
  nTotalLower : scan.nTotalLower = (scan.vValue.map Prod.fst).sum →
    scan'.nTotalLower = (scan'.vValue.map Prod.fst).sum
  larger : scan'.coinLowestLarger = scan.coinLowestLarger ∨ ∃ output ∈ vCoins,
    wallet.eligible nConfMine nConfTheirs output = true ∧
      nTargetValue + CENT ≤ output.coin.nValue ∧
      scan'.coinLowestLarger = (output.coin.nValue, some output.coin)
  noLarger : (∀ output ∈ vCoins, output.coin.nValue < maxCAmount) →
    (scan.coinLowestLarger.2 = none → scan.coinLowestLarger.1 = maxCAmount) →
    scan'.coinLowestLarger.2 = none → scan.coinLowestLarger.2 = none ∧ ∀ output ∈ vCoins,
      wallet.counts nConfMine nConfTheirs tryDenom output →
        output.coin.nValue < nTargetValue + CENT

theorem scanned_of_scanCoins_inr
    (h : scanCoins wallet nTargetValue nConfMine nConfTheirs tryDenom vCoins scan = .inr scan') :
    Scanned wallet nTargetValue nConfMine nConfTheirs tryDenom vCoins scan scan' := by
  induction vCoins generalizing scan with
  | nil =>
    have hsame : scan = scan' := Sum.inr.inj h
    subst hsame
    exact ⟨by simp, id, Or.inl rfl, by simp⟩
  | cons output vCoins ih =>
    have hlater : ∀ {larger : Int × Option WalletCoin},
        (scan'.coinLowestLarger = larger ∨ ∃ other ∈ vCoins,
          wallet.eligible nConfMine nConfTheirs other = true ∧
            nTargetValue + CENT ≤ other.coin.nValue ∧
            scan'.coinLowestLarger = (other.coin.nValue, some other.coin)) →
        scan'.coinLowestLarger = larger ∨ ∃ other ∈ output :: vCoins,
          wallet.eligible nConfMine nConfTheirs other = true ∧
            nTargetValue + CENT ≤ other.coin.nValue ∧
            scan'.coinLowestLarger = (other.coin.nValue, some other.coin) :=
      Or.imp_right fun ⟨other, hmem, hother⟩ => ⟨other, List.mem_cons_of_mem _ hmem, hother⟩
    rw [scanCoins_cons] at h
    split_ifs at h with hcounts hexact hsmaller hlower
    · have hrest := ih h
      refine ⟨?_, ?_, hlater hrest.larger, ?_⟩
      · rw [hrest.vValue, List.filter_cons_of_pos (by simp [hcounts, hsmaller])]
        simp
      · intro htotal
        apply hrest.nTotalLower
        simp [htotal, COutput.valued]
      · intro hrange hmax hnone
        rw [List.forall_mem_cons] at hrange ⊢
        obtain ⟨hbefore, hall⟩ := hrest.noLarger hrange.2 hmax hnone
        exact ⟨hbefore, fun _ => hsmaller, hall⟩
    · have hrest := ih h
      have heligible : wallet.eligible nConfMine nConfTheirs output = true := by
        unfold CoinWallet.counts at hcounts
        exact (Bool.and_eq_true_iff.mp hcounts).1
      refine ⟨?_, hrest.nTotalLower, ?_, ?_⟩
      · rw [hrest.vValue, List.filter_cons_of_neg (by simp [hsmaller])]
      · rcases hlater hrest.larger with hsame | hother
        · exact Or.inr ⟨output, List.mem_cons_self, heligible, not_lt.mp hsmaller, hsame⟩
        · exact Or.inr hother
      · intro hrange _ hnone
        rw [List.forall_mem_cons] at hrange
        have hbefore := (hrest.noLarger hrange.2 (by simp) hnone).1
        simp at hbefore
    · have hrest := ih h
      refine ⟨?_, hrest.nTotalLower, hlater hrest.larger, ?_⟩
      · rw [hrest.vValue, List.filter_cons_of_neg (by simp [hsmaller])]
      · intro hrange hmax hnone
        rw [List.forall_mem_cons] at hrange
        have hbefore := (hrest.noLarger hrange.2 hmax hnone).1
        rw [hmax hbefore] at hlower
        exact absurd hrange.1 hlower
    · have hrest := ih h
      refine ⟨?_, hrest.nTotalLower, hlater hrest.larger, ?_⟩
      · rw [hrest.vValue, List.filter_cons_of_neg (by simp [hcounts])]
      · intro hrange hmax hnone
        rw [List.forall_mem_cons] at hrange ⊢
        obtain ⟨hbefore, hall⟩ := hrest.noLarger hrange.2 hmax hnone
        exact ⟨hbefore, fun hcounts' => absurd hcounts' hcounts, hall⟩

theorem CoinWallet.eligible_of_counts
    (h : wallet.counts nConfMine nConfTheirs tryDenom output = true) :
    wallet.eligible nConfMine nConfTheirs output = true := by
  unfold CoinWallet.counts at h
  exact (Bool.and_eq_true_iff.mp h).1

theorem collected_filter {keep : COutput → Bool} (hdistinct : (vCoins.map COutput.coin).Nodup)
    (hkeep : ∀ output, keep output = true → wallet.eligible nConfMine nConfTheirs output = true) :
    Collected wallet vCoins nConfMine nConfTheirs ((vCoins.filter keep).map COutput.valued) where
  nodup := by
    have hsub : (vCoins.filter keep).Sublist vCoins := List.filter_sublist
    have hcoins : ((vCoins.filter keep).map COutput.valued).map Prod.snd =
        (vCoins.filter keep).map COutput.coin := by
      rw [List.map_map]
      rfl
    rw [hcoins]
    exact hdistinct.sublist (hsub.map COutput.coin)
  valued coin hcoin := by
    obtain ⟨output, hmem, rfl⟩ := List.mem_map.mp hcoin
    exact ⟨output, List.mem_of_mem_filter hmem, rfl, hkeep output (List.mem_filter.mp hmem).2⟩

/-- One eligible coin that is worth enough. -/
theorem found_singleton (hmem : output ∈ vCoins)
    (heligible : wallet.eligible nConfMine nConfTheirs output = true)
    (henough : nTargetValue ≤ output.coin.nValue) :
    (insertCoins [output.valued]).ret = true ∧
      CoinsFound wallet vCoins nTargetValue nConfMine nConfTheirs
        (insertCoins [output.valued]) := by
  have hone : Collected wallet vCoins nConfMine nConfTheirs [output.valued] := by
    refine ⟨List.nodup_singleton _, ?_⟩
    intro coin hcoin
    exact ⟨output, hmem, (List.mem_singleton.mp hcoin).symm, heligible⟩
  apply hone.found
  simpa [COutput.valued] using henough

/-- The larger coin, if there is one, is eligible and worth enough. -/
def LargerFits (wallet : CoinWallet) (vCoins : List COutput)
    (nTargetValue nConfMine nConfTheirs : Int) (scan : CoinScan) : Prop :=
  ∀ coin, scan.coinLowestLarger.2 = some coin → ∃ output ∈ vCoins,
    wallet.eligible nConfMine nConfTheirs output = true ∧ nTargetValue ≤ output.coin.nValue ∧
      (scan.coinLowestLarger.1, coin) = output.valued

theorem LargerFits.found {coin : WalletCoin}
    (h : LargerFits wallet vCoins nTargetValue nConfMine nConfTheirs scan)
    (hsome : scan.coinLowestLarger.2 = some coin) :
    (insertCoins [(scan.coinLowestLarger.1, coin)]).ret = true ∧
      CoinsFound wallet vCoins nTargetValue nConfMine nConfTheirs
        (insertCoins [(scan.coinLowestLarger.1, coin)]) := by
  obtain ⟨output, hmem, heligible, henough, hvalued⟩ := h coin hsome
  rw [hvalued]
  exact found_singleton hmem heligible henough

theorem solveSubset_found (chance : CoinChance wallet)
    (hcollected : Collected wallet vCoins nConfMine nConfTheirs scan.vValue)
    (htotal : scan.nTotalLower = (scan.vValue.map Prod.fst).sum)
    (henough : nTargetValue ≤ scan.nTotalLower)
    (hlarger : LargerFits wallet vCoins nTargetValue nConfMine nConfTheirs scan) :
    (solveSubset nTargetValue chance scan).ret = true ∧
      CoinsFound wallet vCoins nTargetValue nConfMine nConfTheirs
        (solveSubset nTargetValue chance scan) := by
  have hsorted := chance.sortValues_perm scan.vValue
  have htotal' : scan.nTotalLower = ((chance.sortValues scan.vValue).map Prod.fst).sum := by
    rw [htotal, (hsorted.map Prod.fst).sum_eq]
  have hpicked : ∀ best : List Bool × Int,
      best.2 = ((pick best.1 (chance.sortValues scan.vValue)).map Prod.fst).sum ∧
        nTargetValue ≤ best.2 →
      (insertCoins (pick best.1 (chance.sortValues scan.vValue))).ret = true ∧
        CoinsFound wallet vCoins nTargetValue nConfMine nConfTheirs
          (insertCoins (pick best.1 (chance.sortValues scan.vValue))) := by
    rintro best ⟨hsum, hreached⟩
    apply ((hcollected.perm hsorted).sublist (pick_sublist _ _)).found
    rwa [← hsum]
  unfold solveSubset
  dsimp only
  generalize hbest : (if (approximateBestSubset nTargetValue (chance.sortValues scan.vValue)
      scan.nTotalLower (chance.bits 0) 1000).2 ≠ nTargetValue ∧
        nTargetValue + CENT ≤ scan.nTotalLower then
      approximateBestSubset (nTargetValue + CENT) (chance.sortValues scan.vValue) scan.nTotalLower
        (chance.bits 1) 1000
    else approximateBestSubset nTargetValue (chance.sortValues scan.vValue) scan.nTotalLower
      (chance.bits 0) 1000) = best
  have hsound : best.2 = ((pick best.1 (chance.sortValues scan.vValue)).map Prod.fst).sum ∧
      nTargetValue ≤ best.2 := by
    rw [← hbest]
    split_ifs with hagain
    · have hsecond := @approximateBestSubset_sound _ _ _ _ (chance.bits 1) 1000 htotal' hagain.2
      have hmore := hsecond.2
      have hcent := CENT_pos
      exact ⟨hsecond.1, by omega⟩
    · exact approximateBestSubset_sound htotal' henough
  cases hcoin : scan.coinLowestLarger.2 with
  | none => exact hpicked best hsound
  | some coin =>
    dsimp only
    split_ifs
    · exact hlarger.found hcoin
    · exact hpicked best hsound

/-- What is found is sound, and nothing is found only where all eligible coins are not enough,
unless a value is so large that it counts for no coin. -/
structure Selects (wallet : CoinWallet) (vCoins : List COutput)
    (nTargetValue nConfMine nConfTheirs : Int) (result : CoinsRet) : Prop where
  found : result.ret = true → CoinsFound wallet vCoins nTargetValue nConfMine nConfTheirs result
  complete : (∀ output ∈ vCoins, output.coin.nValue < maxCAmount) → result.ret = false →
    ((vCoins.filter (wallet.eligible nConfMine nConfTheirs)).map fun output =>
      output.coin.nValue).sum < nTargetValue

theorem selects_of_found {result : CoinsRet} (h : result.ret = true ∧
    CoinsFound wallet vCoins nTargetValue nConfMine nConfTheirs result) :
    Selects wallet vCoins nTargetValue nConfMine nConfTheirs result where
  found _ := h.2
  complete _ hfalse := by
    rw [h.1] at hfalse
    contradiction

/-- A round that starts with no smaller coins ends with eligible ones. -/
theorem Scanned.collected (hdistinct : (vCoins.map COutput.coin).Nodup)
    (h : Scanned wallet nTargetValue nConfMine nConfTheirs tryDenom vCoins scan scan')
    (hstart : scan.vValue = []) :
    Collected wallet vCoins nConfMine nConfTheirs scan'.vValue := by
  rw [h.vValue, hstart, List.nil_append]
  apply collected_filter hdistinct
  intro output hkeep
  exact CoinWallet.eligible_of_counts (Bool.and_eq_true_iff.mp hkeep).1

theorem Scanned.largerFits
    (h : Scanned wallet nTargetValue nConfMine nConfTheirs tryDenom vCoins scan scan')
    (hstart : scan.coinLowestLarger = (maxCAmount, none)) :
    LargerFits wallet vCoins nTargetValue nConfMine nConfTheirs scan' := by
  intro coin hsome
  rcases h.larger with hsame | ⟨output, hmem, heligible, henough, hlarger⟩
  · rw [hsame, hstart] at hsome
    contradiction
  · rw [hlarger] at hsome ⊢
    have hcoin : output.coin = coin := Option.some.inj hsome
    have hcent := CENT_pos
    exact ⟨output, hmem, heligible, by omega, by rw [← hcoin]; rfl⟩

theorem Scanned.coinLowestLarger_of_none
    (h : Scanned wallet nTargetValue nConfMine nConfTheirs tryDenom vCoins scan scan')
    (hstart : scan.coinLowestLarger = (maxCAmount, none))
    (hnone : scan'.coinLowestLarger.2 = none) :
    scan'.coinLowestLarger = (maxCAmount, none) := by
  rcases h.larger with hsame | ⟨output, -, -, -, hlarger⟩
  · rw [hsame, hstart]
  · rw [hlarger] at hnone
    contradiction

/-- With no larger coin, the smaller ones of a round over all coins are all that are eligible. -/
theorem Scanned.values_of_noLarger
    (h : Scanned wallet nTargetValue nConfMine nConfTheirs tryDenom vCoins scan scan')
    (hvalue : scan.vValue = []) (hstart : scan.coinLowestLarger = (maxCAmount, none))
    (hrange : ∀ output ∈ vCoins, output.coin.nValue < maxCAmount)
    (hnone : scan'.coinLowestLarger.2 = none) (hall : tryDenom ≠ 0) :
    scan'.vValue.map Prod.fst = (vCoins.filter (wallet.eligible nConfMine nConfTheirs)).map
      fun output => output.coin.nValue := by
  have hsmall := (h.noLarger hrange (by simp [hstart]) hnone).2
  have hsame : ∀ output ∈ vCoins, (wallet.counts nConfMine nConfTheirs tryDenom output &&
      decide (output.coin.nValue < nTargetValue + CENT)) =
        wallet.eligible nConfMine nConfTheirs output := by
    intro output hmem
    have hless := hsmall output hmem
    have hcounts : wallet.counts nConfMine nConfTheirs tryDenom output =
        wallet.eligible nConfMine nConfTheirs output := by
      simp [CoinWallet.counts, hall]
    rw [hcounts] at hless ⊢
    cases heligible : wallet.eligible nConfMine nConfTheirs output with
    | false => rfl
    | true => simpa using hless heligible
  rw [h.vValue, hvalue, List.nil_append, List.filter_congr hsame, List.map_map]
  rfl

/-- One round, and what follows if the round has found nothing at all. -/
theorem selectPasses_selects (chance : CoinChance wallet) {rest : List Nat}
    (hdistinct : (vCoins.map COutput.coin).Nodup)
    (hstart : scan.coinLowestLarger = (maxCAmount, none))
    (hrest : tryDenom = 0 → ∀ scan : CoinScan, scan.coinLowestLarger = (maxCAmount, none) →
      Selects wallet vCoins nTargetValue nConfMine nConfTheirs
        (selectPasses nTargetValue nConfMine nConfTheirs chance vCoins rest scan)) :
    Selects wallet vCoins nTargetValue nConfMine nConfTheirs
      (selectPasses nTargetValue nConfMine nConfTheirs chance vCoins (tryDenom :: rest) scan) := by
  rw [selectPasses]
  cases hscan : scanCoins wallet nTargetValue nConfMine nConfTheirs tryDenom vCoins { scan with
      vValue := []
      nTotalLower := 0 } with
  | inl coin =>
    obtain ⟨output, hmem, rfl, heligible, hexact⟩ := exists_of_scanCoins_inl hscan
    exact selects_of_found (found_singleton hmem heligible hexact.ge)
  | inr scan' =>
    have hscanned := scanned_of_scanCoins_inr hscan
    have htotal := hscanned.nTotalLower rfl
    have hcollected := hscanned.collected hdistinct rfl
    have hlarger := hscanned.largerFits hstart
    dsimp only
    by_cases hexact : scan'.nTotalLower = nTargetValue
    · rw [if_pos hexact]
      exact selects_of_found (hcollected.found (by rw [← htotal, hexact]))
    · by_cases hless : scan'.nTotalLower < nTargetValue
      · rw [if_neg hexact, if_pos hless]
        cases hcoin : scan'.coinLowestLarger.2 with
        | some coin => exact selects_of_found (hlarger.found hcoin)
        | none =>
          dsimp only
          by_cases hdenom : tryDenom = 0
          · rw [if_pos hdenom]
            exact hrest hdenom scan' (hscanned.coinLowestLarger_of_none hstart hcoin)
          · rw [if_neg hdenom]
            refine ⟨fun h => absurd h (by simp), fun hrange _ => ?_⟩
            have hvalues := hscanned.values_of_noLarger rfl hstart hrange hcoin hdenom
            rwa [← hvalues, ← htotal]
      · rw [if_neg hexact, if_neg hless]
        exact selects_of_found (solveSubset_found chance hcollected htotal (by omega) hlarger)

end sound

/-- Whatever is left to chance. -/
theorem selectCoinsMinConf_selects {wallet : CoinWallet} (chance : CoinChance wallet)
    {vCoins : List COutput} (hdistinct : (vCoins.map COutput.coin).Nodup)
    (nTargetValue nConfMine nConfTheirs : Int) :
    Selects wallet vCoins nTargetValue nConfMine nConfTheirs
      (selectCoinsMinConf nTargetValue nConfMine nConfTheirs chance vCoins) := by
  have hperm := (chance.sortDenoms_perm (chance.randomShuffle vCoins)).trans
    (chance.randomShuffle_perm vCoins)
  have hdistinct' : ((chance.sortDenoms (chance.randomShuffle vCoins)).map COutput.coin).Nodup :=
    (hperm.map COutput.coin).nodup_iff.mpr hdistinct
  have hselects : Selects wallet (chance.sortDenoms (chance.randomShuffle vCoins)) nTargetValue
      nConfMine nConfTheirs (selectCoinsMinConf nTargetValue nConfMine nConfTheirs chance vCoins) :=
    selectPasses_selects chance hdistinct' rfl fun _ scan hstart =>
      selectPasses_selects chance hdistinct' hstart (by simp)
  constructor
  · intro hret
    have hfound := hselects.found hret
    refine ⟨hfound.nodup, ?_, hfound.value, hfound.enough⟩
    intro coin hcoin
    obtain ⟨output, hmem, heligible⟩ := hfound.eligible coin hcoin
    exact ⟨output, hperm.mem_iff.mp hmem, heligible⟩
  · intro hrange hret
    have hrange' : ∀ output ∈ chance.sortDenoms (chance.randomShuffle vCoins),
        output.coin.nValue < maxCAmount := fun output hmem =>
      hrange output (hperm.mem_iff.mp hmem)
    have hless := hselects.complete hrange' hret
    have hsum := ((hperm.filter (wallet.eligible nConfMine nConfTheirs)).map fun output =>
      output.coin.nValue).sum_eq
    rwa [← hsum]

def CoinWallet.denominated (wallet : CoinWallet) (output : COutput) : Bool :=
  wallet.obfuScationDenominations.any fun d => output.coin.nValue == d

def steadyChance (wallet : CoinWallet) (bits : Nat → Nat → Nat → Bool) : CoinChance wallet where
  randomShuffle := id
  randomShuffle_perm vCoins := List.Perm.refl vCoins
  sortDenoms := List.insertionSort fun out1 out2 =>
    wallet.denominated out1 = true → wallet.denominated out2 = true
  sortDenoms_perm := List.perm_insertionSort _
  sortDenoms_sorted vCoins := by
    have : Std.Total fun out1 out2 : COutput =>
        wallet.denominated out1 = true → wallet.denominated out2 = true :=
      ⟨fun out1 out2 => by tauto⟩
    have : IsTrans COutput fun out1 out2 =>
        wallet.denominated out1 = true → wallet.denominated out2 = true :=
      ⟨fun _ _ _ h h' => h' ∘ h⟩
    refine (List.pairwise_insertionSort _ vCoins).imp ?_
    intro out1 out2 h
    change (!wallet.denominated out2 && wallet.denominated out1) = false
    cases hfound : wallet.denominated out1 with
    | false => exact Bool.and_false _
    | true => rw [h hfound]; rfl
  sortValues := List.insertionSort fun t1 t2 => t2.1 ≤ t1.1
  sortValues_perm := List.perm_insertionSort _
  sortValues_sorted vValue := by
    have : Std.Total fun t1 t2 : Int × WalletCoin => t2.1 ≤ t1.1 := ⟨fun s t => Int.le_total _ _⟩
    have : IsTrans (Int × WalletCoin) fun t1 t2 => t2.1 ≤ t1.1 :=
      ⟨fun _ _ _ h h' => Int.le_trans h' h⟩
    exact List.pairwise_insertionSort _ _
  bits := bits

/-- One output of a transaction of its own. -/
def soleOutput (hash : Uint256) (nValue : Int) : COutput where
  tx := ⟨hash, 1, [], [⟨nValue, [], -10⟩], 0⟩
  i := 0
  nDepth := 10
  fSpendable := true

@[simp] theorem nValue_soleOutput (hash : Uint256) (nValue : Int) :
    (soleOutput hash nValue).coin.nValue = nValue := rfl

def smallWallet : CoinWallet := ⟨[100100000], fun _ => false, true⟩

end Lytix.CoinSelection
