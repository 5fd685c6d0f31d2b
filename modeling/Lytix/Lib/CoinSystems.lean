import Mathlib.Data.List.Basic
import Mathlib.Data.List.Nodup
import Mathlib.Tactic

/-! Paying an amount with a limited number of coins of each denomination. Where every value divides
all larger ones, greed pays each amount that can be paid at all. -/
namespace CoinSystems

variable {ι : Type*} (value : ι → ℤ)

/-- From the largest to the smallest, and each value divides those before it. -/
structure Descending (coins : List ι) : Prop where
  positive : ∀ coin ∈ coins, 0 < value coin
  divides : coins.Pairwise fun larger smaller => value smaller ∣ value larger

/-- What the coins used are worth together. -/
def worth (used : ι → ℤ) (coins : List ι) : ℤ := (coins.map fun coin => used coin * value coin).sum

/-- No denomination is used more often than it is held. -/
def Within (coins : List ι) (used held : ι → ℤ) : Prop :=
  ∀ coin ∈ coins, 0 ≤ used coin ∧ used coin ≤ held coin

/-- Some of the coins held are worth the amount. -/
def Payable (held : ι → ℤ) : List ι → ℤ → Prop
  | [], amount => amount = 0
  | coin :: coins, amount =>
    ∃ n, 0 ≤ n ∧ n ≤ held coin ∧ Payable held coins (amount - n * value coin)

/-- Some of the coins held, so many of them, are worth the amount. -/
def PayableIn (held : ι → ℤ) : List ι → ℤ → ℤ → Prop
  | [], amount, number => amount = 0 ∧ number = 0
  | coin :: coins, amount, number =>
    ∃ n, 0 ≤ n ∧ n ≤ held coin ∧ PayableIn held coins (amount - n * value coin) (number - n)

/-- The number of coins that greed changes an amount into. -/
def coinsInChange : List ι → ℤ → ℤ
  | [], _ => 0
  | coin :: coins, amount => amount / value coin + coinsInChange coins (amount % value coin)

variable {value} {held used : ι → ℤ} {coins : List ι} {coin : ι} {amount number : ℤ}

theorem Descending.sublist {coins' : List ι} (descending : Descending value coins)
    (hsub : coins'.Sublist coins) : Descending value coins' where
  positive := fun c hc => descending.positive c (hsub.subset hc)
  divides := descending.divides.sublist hsub

theorem Descending.tail (descending : Descending value (coin :: coins)) :
    Descending value coins :=
  descending.sublist (List.sublist_cons_self coin coins)

theorem Descending.head_pos (descending : Descending value (coin :: coins)) : 0 < value coin :=
  descending.positive coin List.mem_cons_self

theorem Descending.dvd_head (descending : Descending value (coin :: coins)) :
    ∀ c ∈ coins, value c ∣ value coin :=
  (List.pairwise_cons.mp descending.divides).1

theorem worth_reverse : worth value used coins.reverse = worth value used coins := by
  simp [worth, List.map_reverse, List.sum_reverse]

theorem Within.payableIn (within : Within coins used held) :
    PayableIn value held coins (worth value used coins) (coins.map used).sum := by
  induction coins with
  | nil => exact ⟨rfl, rfl⟩
  | cons coin coins ih =>
    obtain ⟨hnonneg, hheld⟩ := within coin List.mem_cons_self
    refine ⟨used coin, hnonneg, hheld, ?_⟩
    simpa [worth] using ih fun c hc => within c (List.mem_cons_of_mem coin hc)

theorem payable_iff_payableIn :
    Payable value held coins amount ↔ ∃ number, PayableIn value held coins amount number := by
  induction coins generalizing amount with
  | nil => simp [Payable, PayableIn]
  | cons coin coins ih =>
    constructor
    · rintro ⟨n, hn, hheld, hrest⟩
      obtain ⟨number, hrest⟩ := ih.mp hrest
      refine ⟨number + n, n, hn, hheld, ?_⟩
      rw [add_sub_cancel_right]
      exact hrest
    · rintro ⟨number, n, hn, hheld, hrest⟩
      exact ⟨n, hn, hheld, ih.mpr ⟨number - n, hrest⟩⟩

theorem PayableIn.payable (payable : PayableIn value held coins amount number) :
    Payable value held coins amount :=
  payable_iff_payableIn.mpr ⟨number, payable⟩

theorem Within.payable (within : Within coins used held) :
    Payable value held coins (worth value used coins) :=
  within.payableIn.payable

theorem Payable.nonneg (descending : Descending value coins)
    (payable : Payable value held coins amount) : 0 ≤ amount := by
  induction coins generalizing amount with
  | nil => exact le_of_eq payable.symm
  | cons coin coins ih =>
    obtain ⟨n, hn, _, hrest⟩ := payable
    have hafter := ih descending.tail hrest
    have hcoins := mul_nonneg hn descending.head_pos.le
    linarith

/-- Coins that each divide a part of what they are worth can be left out to its amount, and there
are as many of these as coins that are no smaller make up the part. -/
theorem PayableIn.sub (descending : Descending value coins) {part largest : ℤ}
    (payable : PayableIn value held coins amount number) (hpart : 0 ≤ part) (hle : part ≤ amount)
    (hdvd : ∀ coin ∈ coins, value coin ∣ part) (hlargest : ∀ coin ∈ coins, value coin ≤ largest) :
    ∃ left, part ≤ left * largest ∧ PayableIn value held coins (amount - part) (number - left) := by
  induction coins generalizing amount part number with
  | nil =>
    obtain ⟨rfl, rfl⟩ := payable
    have hzero : part = 0 := le_antisymm hle hpart
    exact ⟨0, by rw [hzero, zero_mul], by rw [hzero]; exact ⟨sub_zero 0, sub_zero 0⟩⟩
  | cons coin coins ih =>
    obtain ⟨n, hn, hheld, hrest⟩ := payable
    have hcoin := hlargest coin List.mem_cons_self
    by_cases hfits : part ≤ n * value coin
    · -- the largest coins alone make up the part
      obtain ⟨k, rfl⟩ := hdvd coin List.mem_cons_self
      have hk : 0 ≤ k := nonneg_of_mul_nonneg_right hpart descending.head_pos
      have hkn : k ≤ n := by
        rw [mul_comm n] at hfits
        exact le_of_mul_le_mul_left hfits descending.head_pos
      refine ⟨k, ?_, n - k, by linarith, by linarith, ?_⟩
      · rw [mul_comm (value coin)]
        exact mul_le_mul_of_nonneg_left hcoin hk
      · have hamount : amount - value coin * k - (n - k) * value coin =
            amount - n * value coin := by
          ring
        have hnumber : number - k - (n - k) = number - n := by ring
        rw [hamount, hnumber]
        exact hrest
    · have hrestDvd : ∀ c ∈ coins, value c ∣ part - n * value coin := by
        intro c hc
        have hmultiple := Dvd.dvd.mul_left (descending.dvd_head c hc) n
        exact dvd_sub (hdvd c (List.mem_cons_of_mem coin hc)) hmultiple
      obtain ⟨left, hleft, hpaid⟩ := ih descending.tail hrest (by linarith) (by linarith) hrestDvd
        fun c hc => hlargest c (List.mem_cons_of_mem coin hc)
      refine ⟨n + left, ?_, 0, le_rfl, le_trans hn hheld, ?_⟩
      · have hthese := mul_le_mul_of_nonneg_left hcoin hn
        linarith
      · have hamount : amount - part - 0 * value coin =
            amount - n * value coin - (part - n * value coin) := by
          ring
        have hnumber : number - (n + left) - 0 = number - n - left := by ring
        rw [hamount, hnumber]
        exact hpaid

/-- As many of the largest coin as are held and fit leave an amount that the smaller coins can
still pay, and with no more coins than before. -/
theorem PayableIn.greedy (descending : Descending value (coin :: coins)) {n : ℤ}
    (payable : PayableIn value held (coin :: coins) amount number)
    (hfits : 0 ≤ amount - n * value coin)
    (hmax : amount - n * value coin < value coin ∨ n = held coin) :
    ∃ fewer, fewer ≤ number - n ∧ PayableIn value held coins (amount - n * value coin) fewer := by
  obtain ⟨m, hm, hheld, hrest⟩ := payable
  have hpos := descending.head_pos
  have hmn : m ≤ n := by
    rcases hmax with hless | hall
    · have hnonneg := hrest.payable.nonneg descending.tail
      have hlt : m * value coin < (n + 1) * value coin := by linarith
      have := lt_of_mul_lt_mul_right hlt hpos.le
      omega
    · omega
  have hpart : 0 ≤ (n - m) * value coin := mul_nonneg (by linarith) hpos.le
  have hdvd : ∀ c ∈ coins, value c ∣ (n - m) * value coin :=
    fun c hc => Dvd.dvd.mul_left (descending.dvd_head c hc) (n - m)
  have hsmaller : ∀ c ∈ coins, value c ≤ value coin :=
    fun c hc => Int.le_of_dvd hpos (descending.dvd_head c hc)
  obtain ⟨left, hleft, hpaid⟩ :=
    hrest.sub descending.tail hpart (by linarith) hdvd hsmaller
  -- the coins taken instead are at most as many as those left out
  have hfewer : n - m ≤ left := le_of_mul_le_mul_right hleft hpos
  refine ⟨number - m - left, by linarith, ?_⟩
  have hamount : amount - n * value coin = amount - m * value coin - (n - m) * value coin := by
    ring
  rw [hamount]
  exact hpaid

/-- As many of the largest coin as are held and fit leave an amount that the smaller coins can
still pay. -/
theorem Payable.greedy (descending : Descending value (coin :: coins)) {n : ℤ}
    (payable : Payable value held (coin :: coins) amount)
    (hfits : 0 ≤ amount - n * value coin)
    (hmax : amount - n * value coin < value coin ∨ n = held coin) :
    Payable value held coins (amount - n * value coin) := by
  obtain ⟨number, hpayable⟩ := payable_iff_payableIn.mp payable
  obtain ⟨fewer, _, hpaid⟩ := hpayable.greedy descending hfits hmax
  exact hpaid.payable

/-- A coin that fits is one coin of the change. -/
theorem coinsInChange_sub (hpos : 0 < value coin) (amount : ℤ) :
    coinsInChange value (coin :: coins) (amount - value coin) =
      coinsInChange value (coin :: coins) amount - 1 := by
  have hdiv : (amount - value coin) / value coin = amount / value coin - 1 := by
    rw [Int.sub_ediv_of_dvd amount (dvd_refl _), Int.ediv_self hpos.ne']
  have hmod : (amount - value coin) % value coin = amount % value coin := by
    simp
  simp only [coinsInChange, hdiv, hmod]
  ring

/-- A coin that does not fit is none. -/
theorem coinsInChange_of_lt (hnonneg : 0 ≤ amount) (hlt : amount < value coin) :
    coinsInChange value (coin :: coins) amount = coinsInChange value coins amount := by
  simp [coinsInChange, Int.ediv_eq_zero_of_lt hnonneg hlt, Int.emod_eq_of_lt hnonneg hlt]

theorem coinsInChange_zero : coinsInChange value coins 0 = 0 := by
  induction coins with
  | nil => rfl
  | cons coin coins ih => simp [coinsInChange, ih]

variable [DecidableEq ι]

theorem worth_update_of_notMem {n : ℤ} (hcoin : coin ∉ coins) :
    worth value (Function.update used coin n) coins = worth value used coins := by
  refine congrArg List.sum (List.map_congr_left ?_)
  intro c hc
  rw [Function.update_of_ne (ne_of_mem_of_not_mem hc hcoin)]

/-- Using some coins more changes the worth by what these are worth. -/
theorem worth_update {n : ℤ} (hnodup : coins.Nodup) (hcoin : coin ∈ coins) :
    worth value (Function.update used coin n) coins =
      worth value used coins + (n - used coin) * value coin := by
  induction coins with
  | nil => contradiction
  | cons first rest ih =>
    rw [List.nodup_cons] at hnodup
    rcases List.mem_cons.mp hcoin with rfl | hrest
    · have hsame : worth value (Function.update used coin n) rest = worth value used rest :=
        worth_update_of_notMem hnodup.1
      simp only [worth, List.map_cons, List.sum_cons, Function.update_self] at hsame ⊢
      rw [hsame]
      ring
    · have hne : first ≠ coin := fun h => hnodup.1 (h ▸ hrest)
      have hsame := ih hnodup.2 hrest
      simp only [worth, List.map_cons, List.sum_cons, Function.update_of_ne hne] at hsame ⊢
      rw [hsame]
      ring

end CoinSystems
