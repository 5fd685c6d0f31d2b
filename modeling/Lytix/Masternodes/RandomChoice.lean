import Lytix.Masternodes.Pings
import Lytix.Params.ChainParams

/-! The choice of a random masternode that is not in an exclusion list. The bound of the draw is the
number of enabled masternodes less the length of the list, whether or not these are the same
masternodes, and the skip counter is compared after it was decremented. -/
namespace Lytix.Masternodes

/-- `GetRand`, with the random bits that its loop keeps. -/
def getRand (nMax : ℕ) (nRand : UInt64) : ℕ := if nMax = 0 then 0 else nRand.toNat % nMax

def getRandInt (nMax : Int) (nRand : UInt64) : Int := toInt32 (getRand (nMax % 2 ^ 64).toNat nRand)

/-- The protocol version asked for, where -1 stands for the one of the payments. -/
def protocolAsked (env : CallEnv) (protocolVersion : Int) : Int :=
  if protocolVersion = -1 then env.minPaymentsProto else protocolVersion

/-- Enabled, and of the protocol version. -/
def CMasternode.isEligible (protocolVersion : Int) (mn : CMasternode) : Bool :=
  !(decide (mn.protocolVersion.toInt < protocolVersion) || !mn.isEnabled)

def checkAll (env : CallEnv) (vMasternodes : List CMasternode) : List CMasternode :=
  vMasternodes.map fun mn => mn.check env

/-- `CountEnabled`, and the masternodes it has checked. -/
def countEnabled (env : CallEnv) (protocolVersion : Int) (vMasternodes : List CMasternode) :
    Int × List CMasternode :=
  let checked := checkAll env vMasternodes
  (toInt32 (checked.countP (CMasternode.isEligible (protocolAsked env protocolVersion))), checked)

def isExcluded (vecToExclude : List CTxIn) (mn : CMasternode) : Bool :=
  vecToExclude.any fun usedVin => mn.vin.prevout == usedVin.prevout

/-- The loop of `FindRandomNotInVec`, from a position in the list on. -/
def findFrom (protocolVersion : Int) (vecToExclude : List CTxIn) :
    Int → ℕ → List CMasternode → Option ℕ
  | _, _, [] => none
  | rand, i, mn :: rest =>
    if !mn.isEligible protocolVersion then findFrom protocolVersion vecToExclude rand (i + 1) rest
    else if isExcluded vecToExclude mn then
      findFrom protocolVersion vecToExclude rand (i + 1) rest
    else if rand - 1 < 1 then some i
    else findFrom protocolVersion vecToExclude (rand - 1) (i + 1) rest

/-- The position of the masternode that is returned. The difference is one of a `size_t`, and it is
passed on as an `int`. -/
def findRandomNotInVec (env : CallEnv) (vMasternodes : List CMasternode) (vecToExclude : List CTxIn)
    (protocolVersion : Int) (nRand : UInt64) : Option ℕ :=
  let protocolVersion := protocolAsked env protocolVersion
  let (nCountEnabled, checked) := countEnabled env protocolVersion vMasternodes
  let nLeft := (nCountEnabled - vecToExclude.length) % 2 ^ 64
  if nLeft < 1 then none
  else
    findFrom protocolVersion vecToExclude (getRandInt (toInt32 nLeft) nRand) 0 checked

/-- Sound and complete over the draws. -/
structure ChoiceSound (env : CallEnv) (vMasternodes : List CMasternode)
    (vecToExclude : List CTxIn) (protocolVersion : Int) : Prop where
  null : ∀ nRand, findRandomNotInVec env vMasternodes vecToExclude protocolVersion nRand = none →
    ∀ mn ∈ checkAll env vMasternodes, mn.isEligible (protocolAsked env protocolVersion) →
      isExcluded vecToExclude mn
  sound : ∀ nRand i,
    findRandomNotInVec env vMasternodes vecToExclude protocolVersion nRand = some i →
      ∃ mn, (checkAll env vMasternodes)[i]? = some mn ∧
        mn.isEligible (protocolAsked env protocolVersion) = true ∧
        isExcluded vecToExclude mn = false
  complete : ∀ i mn, (checkAll env vMasternodes)[i]? = some mn →
    mn.isEligible (protocolAsked env protocolVersion) = true → isExcluded vecToExclude mn = false →
      ∃ nRand, findRandomNotInVec env vMasternodes vecToExclude protocolVersion nRand = some i

/-- How many masternodes the draws below a bound tell apart: 0 and 1 both name the first. -/
def drawn (nMax : Int) : Int := if nMax < 0 then 2 ^ 31 - 1 else max 1 (nMax - 1)

/-- No masternode is left, or as many as the draws tell apart. -/
def DrawFits (env : CallEnv) (vMasternodes : List CMasternode) (vecToExclude : List CTxIn)
    (protocolVersion : Int) : Prop :=
  let nCountEnabled := (countEnabled env protocolVersion vMasternodes).1
  let left := (checkAll env vMasternodes).countP fun mn =>
    mn.isEligible (protocolAsked env protocolVersion) && !isExcluded vecToExclude mn
  left = 0 ∨ (nCountEnabled - vecToExclude.length) % 2 ^ 64 ≠ 0 ∧
    left = drawn (toInt32 (nCountEnabled - vecToExclude.length))

/-- The positions of the masternodes that may be returned. -/
def placesFrom (protocolVersion : Int) (vecToExclude : List CTxIn) : ℕ → List CMasternode → List ℕ
  | _, [] => []
  | i, mn :: rest =>
    if mn.isEligible protocolVersion && !isExcluded vecToExclude mn then
      i :: placesFrom protocolVersion vecToExclude (i + 1) rest
    else placesFrom protocolVersion vecToExclude (i + 1) rest

section
variable {env : CallEnv} {protocolVersion rand nMax : Int} {vecToExclude : List CTxIn}
  {vMasternodes : List CMasternode} {i j : ℕ} {mn : CMasternode}

theorem findFrom_eq : findFrom protocolVersion vecToExclude rand i vMasternodes =
    (placesFrom protocolVersion vecToExclude i vMasternodes)[(rand - 1).toNat]? := by
  induction vMasternodes generalizing rand i with
  | nil => rfl
  | cons mn rest ih =>
    rw [findFrom, placesFrom]
    cases heligible : mn.isEligible protocolVersion with
    | false => simpa using ih
    | true =>
      cases hexcluded : isExcluded vecToExclude mn with
      | true => simpa using ih
      | false =>
        simp only [Bool.not_true, Bool.false_eq_true, if_false, Bool.not_false, Bool.and_self,
          if_true]
        by_cases hfirst : rand - 1 < 1
        · have hzero : (rand - 1).toNat = 0 := by omega
          rw [if_pos hfirst, hzero, List.getElem?_cons_zero]
        · have hsucc : (rand - 1).toNat = (rand - 1 - 1).toNat + 1 := by omega
          rw [if_neg hfirst, ih, hsucc, List.getElem?_cons_succ]

theorem mem_placesFrom : j ∈ placesFrom protocolVersion vecToExclude i vMasternodes ↔
    ∃ k mn, j = i + k ∧ vMasternodes[k]? = some mn ∧ mn.isEligible protocolVersion = true ∧
      isExcluded vecToExclude mn = false := by
  induction vMasternodes generalizing i with
  | nil => simp [placesFrom]
  | cons mn rest ih =>
    have hrest : j ∈ placesFrom protocolVersion vecToExclude (i + 1) rest ↔
        ∃ k mn', j = i + (k + 1) ∧ (mn :: rest)[k + 1]? = some mn' ∧
          mn'.isEligible protocolVersion = true ∧ isExcluded vecToExclude mn' = false := by
      rw [ih]
      simp only [List.getElem?_cons_succ, Nat.add_assoc, Nat.add_comm 1]
    rw [placesFrom]
    split_ifs with hnamed
    · rw [Bool.and_eq_true, Bool.not_eq_true'] at hnamed
      rw [List.mem_cons, hrest]
      constructor
      · rintro (rfl | ⟨k, hk⟩)
        · exact ⟨0, mn, rfl, rfl, hnamed⟩
        · exact ⟨k + 1, hk⟩
      · rintro ⟨k, mn', hj, hk⟩
        cases k with
        | zero => exact Or.inl hj
        | succ k => exact Or.inr ⟨k, mn', hj, hk⟩
    · rw [Bool.and_eq_true, Bool.not_eq_true'] at hnamed
      rw [hrest]
      constructor
      · rintro ⟨k, hk⟩
        exact ⟨k + 1, hk⟩
      · rintro ⟨k, mn', hj, hk, hcase⟩
        cases k with
        | zero =>
          rw [List.getElem?_cons_zero, Option.some.injEq] at hk
          exact absurd (hk ▸ hcase) hnamed
        | succ k => exact ⟨k, mn', hj, hk, hcase⟩

theorem nodup_placesFrom : (placesFrom protocolVersion vecToExclude i vMasternodes).Nodup := by
  induction vMasternodes generalizing i with
  | nil => exact List.nodup_nil
  | cons mn rest ih =>
    rw [placesFrom]
    split
    · refine List.nodup_cons.mpr ⟨?_, ih⟩
      intro hmem
      obtain ⟨k, _, hk, _⟩ := mem_placesFrom.mp hmem
      omega
    · exact ih

theorem length_placesFrom : (placesFrom protocolVersion vecToExclude i vMasternodes).length =
    vMasternodes.countP fun mn => mn.isEligible protocolVersion && !isExcluded vecToExclude mn := by
  induction vMasternodes generalizing i with
  | nil => rfl
  | cons mn rest ih =>
    rw [placesFrom, List.countP_cons]
    split
    · rw [List.length_cons, ih]
    · rw [ih, Nat.add_zero]

theorem getRandInt_lt (nRand : UInt64) : getRandInt nMax nRand < 2 ^ 31 := by
  obtain ⟨_, _, _, hupper⟩ := exists_toInt32_eq (getRand (nMax % 2 ^ 64).toNat nRand)
  exact hupper

/-- A draw below the bound is drawn from its own bits. -/
theorem getRandInt_ofNat {k : ℕ} (hk : (k : Int) < 2 ^ 31) (hbelow : k < (nMax % 2 ^ 64).toNat) :
    getRandInt nMax (UInt64.ofNat k) = k := by
  have hbits : (UInt64.ofNat k).toNat = k := UInt64.toNat_ofNat_of_lt' (by
    have hsize : UInt64.size = 2 ^ 64 := rfl
    omega)
  rw [getRandInt, getRand, if_neg (by omega), hbits, Nat.mod_eq_of_lt hbelow]
  exact toInt32_of_lt (by omega) hk

/-- The skips that the draws below a bound make are the first ones. -/
theorem exists_getRandInt_iff (hlower : -2 ^ 31 ≤ nMax) (hupper : nMax < 2 ^ 31) (k : ℕ) :
    (∃ nRand, (getRandInt nMax nRand - 1).toNat = k) ↔ (k : Int) < drawn nMax := by
  unfold drawn
  constructor
  · rintro ⟨nRand, rfl⟩
    have hlt := @getRandInt_lt nMax nRand
    split_ifs with hneg
    · omega
    · have hbound : getRandInt nMax nRand ≤ max 0 (nMax - 1) := by
        have hsame : (nMax % 2 ^ 64).toNat = nMax.toNat := by omega
        rw [getRandInt, getRand, hsame]
        split_ifs with hzero
        · have hnone : toInt32 ((0 : ℕ) : Int) = 0 := by decide
          rw [hnone]
          exact le_max_left _ _
        · have hmod := Nat.mod_lt nRand.toNat (Nat.pos_of_ne_zero hzero)
          rw [toInt32_of_lt (by omega) (by omega)]
          omega
      omega
  · intro hk
    split_ifs at hk with hneg
    · refine ⟨UInt64.ofNat (k + 1), ?_⟩
      rw [getRandInt_ofNat (by omega) (by omega)]
      omega
    · by_cases hfirst : k = 0
      · have hzero : getRandInt nMax (UInt64.ofNat 0) = 0 := by
          by_cases hnMax : nMax = 0
          · rw [hnMax]
            rfl
          · exact getRandInt_ofNat (by omega) (by omega)
        exact ⟨UInt64.ofNat 0, by rw [hzero, hfirst]; rfl⟩
      · refine ⟨UInt64.ofNat (k + 1), ?_⟩
        rw [getRandInt_ofNat (by omega) (by omega)]
        omega

/-- Positions below a bound always name an entry, and name every entry, exactly where there are
none or as many as the bound. -/
theorem names_iff {places : List ℕ} {bound : Int} (hnodup : places.Nodup) (hpos : 1 ≤ bound) :
    ((∀ k : ℕ, (k : Int) < bound → places[k]? = none → places = []) ∧
      ∀ j ∈ places, ∃ k : ℕ, (k : Int) < bound ∧ places[k]? = some j) ↔
      places.length = 0 ∨ (places.length : Int) = bound := by
  constructor
  · rintro ⟨hnames, hnamed⟩
    by_contra hne
    rw [not_or] at hne
    rcases lt_or_gt_of_ne hne.2 with hless | hmore
    · have hnone : places[places.length]? = none := by simp
      exact hne.1 (by rw [hnames places.length hless hnone]; rfl)
    · -- the last one is named by no position below the bound
      have hlast : places.length - 1 < places.length := by omega
      obtain ⟨k, hk, hget⟩ := hnamed _ (List.getElem_mem hlast)
      obtain ⟨hin, hsame⟩ := List.getElem?_eq_some_iff.mp hget
      have hindex := (hnodup.getElem_inj_iff).mp hsame
      omega
  · rintro (hnone | hall)
    · have hempty := List.length_eq_zero_iff.mp hnone
      subst hempty
      exact ⟨fun _ _ _ => rfl, fun j hj => absurd hj List.not_mem_nil⟩
    · constructor
      · intro k hk hget
        rw [List.getElem?_eq_none_iff] at hget
        omega
      · intro j hj
        obtain ⟨k, hk, rfl⟩ := List.getElem_of_mem hj
        exact ⟨k, by omega, List.getElem?_eq_getElem hk⟩

/-- The places that the function chooses from. -/
def places (env : CallEnv) (vMasternodes : List CMasternode) (vecToExclude : List CTxIn)
    (protocolVersion : Int) : List ℕ :=
  placesFrom (protocolAsked env protocolVersion) vecToExclude 0 (checkAll env vMasternodes)

theorem mem_places : i ∈ places env vMasternodes vecToExclude protocolVersion ↔
    ∃ mn, (checkAll env vMasternodes)[i]? = some mn ∧
      mn.isEligible (protocolAsked env protocolVersion) = true ∧
      isExcluded vecToExclude mn = false := by
  rw [places, mem_placesFrom]
  constructor
  · rintro ⟨k, mn, hi, hcase⟩
    rw [Nat.zero_add] at hi
    exact ⟨mn, hi ▸ hcase⟩
  · rintro ⟨mn, hcase⟩
    exact ⟨i, mn, (Nat.zero_add i).symm, hcase⟩

theorem protocolAsked_idem :
    protocolAsked env (protocolAsked env protocolVersion) = protocolAsked env protocolVersion := by
  unfold protocolAsked
  split_ifs <;> rfl

theorem toInt32_emod (n : Int) : toInt32 (n % 2 ^ 64) = toInt32 n := by
  have hdvd : ((2 ^ 32 : ℕ) : Int) ∣ 2 ^ 64 := by norm_num
  rw [toInt32, toInt32, ← Int.emod_bmod (n % 2 ^ 64), Int.emod_emod_of_dvd n hdvd, Int.emod_bmod]

/-- Where the list is as long as there are enabled masternodes, none is returned. -/
theorem findRandomNotInVec_of_eq (nRand : UInt64) (hzero :
    ((countEnabled env protocolVersion vMasternodes).1 - vecToExclude.length) % 2 ^ 64 = 0) :
    findRandomNotInVec env vMasternodes vecToExclude protocolVersion nRand = none := by
  simp only [countEnabled] at hzero
  simp only [findRandomNotInVec, countEnabled, protocolAsked_idem]
  exact if_pos (by omega)

theorem findRandomNotInVec_of_ne (nRand : UInt64) (hzero :
    ((countEnabled env protocolVersion vMasternodes).1 - vecToExclude.length) % 2 ^ 64 ≠ 0) :
    findRandomNotInVec env vMasternodes vecToExclude protocolVersion nRand =
      (places env vMasternodes vecToExclude protocolVersion)[(getRandInt (toInt32
        ((countEnabled env protocolVersion vMasternodes).1 - vecToExclude.length)) nRand
          - 1).toNat]? := by
  simp only [countEnabled] at hzero ⊢
  simp only [findRandomNotInVec, countEnabled, protocolAsked_idem, findFrom_eq, toInt32_emod]
  exact if_neg (by omega)

theorem all_excluded_iff : places env vMasternodes vecToExclude protocolVersion = [] ↔
    ∀ mn ∈ checkAll env vMasternodes, mn.isEligible (protocolAsked env protocolVersion) →
      isExcluded vecToExclude mn := by
  rw [List.eq_nil_iff_forall_not_mem]
  constructor
  · intro hnone mn hmn heligible
    obtain ⟨i, hi, rfl⟩ := List.getElem_of_mem hmn
    by_contra hnot
    rw [Bool.not_eq_true] at hnot
    exact hnone i (mem_places.mpr ⟨_, List.getElem?_eq_getElem hi, heligible, hnot⟩)
  · intro hall i hi
    obtain ⟨mn, hget, heligible, hnot⟩ := mem_places.mp hi
    rw [hall mn (List.mem_of_getElem? hget) heligible] at hnot
    contradiction

end

/-- The choice is sound and complete exactly where no masternode is left to choose, or as many as
the draws tell apart. -/
theorem findRandomNotInVec_sound_iff (env : CallEnv) (vMasternodes : List CMasternode)
    (vecToExclude : List CTxIn) (protocolVersion : Int) :
    ChoiceSound env vMasternodes vecToExclude protocolVersion ↔
      DrawFits env vMasternodes vecToExclude protocolVersion := by
  have hlength : (places env vMasternodes vecToExclude protocolVersion).length =
      (checkAll env vMasternodes).countP fun mn =>
        mn.isEligible (protocolAsked env protocolVersion) && !isExcluded vecToExclude mn :=
    length_placesFrom
  have hsound : ∀ nRand i,
      findRandomNotInVec env vMasternodes vecToExclude protocolVersion nRand = some i →
        i ∈ places env vMasternodes vecToExclude protocolVersion := by
    intro nRand i hfound
    by_cases hzero :
        ((countEnabled env protocolVersion vMasternodes).1 - vecToExclude.length) % 2 ^ 64 = 0
    · rw [findRandomNotInVec_of_eq nRand hzero] at hfound
      contradiction
    · rw [findRandomNotInVec_of_ne nRand hzero] at hfound
      exact List.mem_of_getElem? hfound
  unfold DrawFits
  dsimp only
  rw [← hlength]
  by_cases hzero :
      ((countEnabled env protocolVersion vMasternodes).1 - vecToExclude.length) % 2 ^ 64 = 0
  · have hnull : ∀ nRand,
        findRandomNotInVec env vMasternodes vecToExclude protocolVersion nRand = none :=
      fun nRand => findRandomNotInVec_of_eq nRand hzero
    rw [hzero]
    simp only [ne_eq, not_true_eq_false, false_and, or_false, List.length_eq_zero_iff]
    constructor
    · intro choice
      exact all_excluded_iff.mpr (choice.null 0 (hnull 0))
    · intro hempty
      refine ⟨fun _ _ => all_excluded_iff.mp hempty, fun nRand i hfound => ?_, ?_⟩
      · exact mem_places.mp (hsound nRand i hfound)
      · intro i mn hget heligible hnot
        have hplace := mem_places.mpr ⟨mn, hget, heligible, hnot⟩
        rw [hempty] at hplace
        exact absurd hplace List.not_mem_nil
  · obtain ⟨_, _, hlower, hupper⟩ := exists_toInt32_eq
      ((countEnabled env protocolVersion vMasternodes).1 - vecToExclude.length)
    have hdraws := exists_getRandInt_iff hlower hupper
    have hpos : 1 ≤ drawn (toInt32
        ((countEnabled env protocolVersion vMasternodes).1 - vecToExclude.length)) := by
      unfold drawn
      split_ifs <;> omega
    have hnodup : (places env vMasternodes vecToExclude protocolVersion).Nodup := nodup_placesFrom
    have hnames := names_iff hnodup hpos
    simp only [ne_eq, hzero, not_false_eq_true, true_and]
    rw [← hnames]
    have hfind := fun nRand =>
      @findRandomNotInVec_of_ne env protocolVersion vecToExclude vMasternodes nRand hzero
    constructor
    · intro choice
      constructor
      · intro k hk hnone
        obtain ⟨nRand, rfl⟩ := (hdraws k).mpr hk
        exact all_excluded_iff.mpr (choice.null nRand (by rw [hfind, hnone]))
      · intro j hj
        obtain ⟨mn, hget, heligible, hnot⟩ := mem_places.mp hj
        obtain ⟨nRand, hfound⟩ := choice.complete j mn hget heligible hnot
        rw [hfind] at hfound
        exact ⟨_, (hdraws _).mp ⟨nRand, rfl⟩, hfound⟩
    · rintro ⟨hnames, hnamed⟩
      refine ⟨?_, fun nRand i hfound => mem_places.mp (hsound nRand i hfound), ?_⟩
      · intro nRand hnone
        rw [hfind] at hnone
        exact all_excluded_iff.mp (hnames _ ((hdraws _).mp ⟨nRand, rfl⟩) hnone)
      · intro i mn hget heligible hnot
        obtain ⟨k, hk, hplace⟩ := hnamed i (mem_places.mpr ⟨mn, hget, heligible, hnot⟩)
        obtain ⟨nRand, rfl⟩ := (hdraws k).mpr hk
        exact ⟨nRand, by rw [hfind, hplace]⟩

section
variable {env : CallEnv} {vMasternodes : List CMasternode} {vecToExclude : List CTxIn}
  {protocolVersion : Int}

end

/-- An enabled masternode that was just checked. -/
def listed (n : Uint256) : CMasternode :=
  { CMasternode.ofBroadcast announcement with
    vin := ⟨⟨n, 0⟩, [], 0xffffffff⟩
    lastTimeChecked := sampleCall.time }

/-- Two masternodes, and three exclusions that are of neither: some draws return none. -/
theorem not_findRandomNotInVec_sound :
    ¬∀ (env : CallEnv) (vMasternodes : List CMasternode) (vecToExclude : List CTxIn)
      (protocolVersion : Int), ChoiceSound env vMasternodes vecToExclude protocolVersion := by
  intro h
  have choice := h sampleCall [listed 1, listed 2]
    [⟨⟨3, 0⟩, [], 0⟩, ⟨⟨4, 0⟩, [], 0⟩, ⟨⟨5, 0⟩, [], 0⟩] (-1)
  have hexcluded := choice.null 3 (by decide) (listed 1) List.mem_cons_self (by decide)
  exact absurd hexcluded (by decide)

end Lytix.Masternodes
