import Lytix.Payments.Subsidy

/-! Votes for the nodes to be paid, the payee outputs a block template gets, and the check a
received block is put to. The template computes the amounts at the height of its predecessor,
the check at the height of the block. -/
namespace Lytix

def MNPAYMENTS_SIGNATURES_REQUIRED : Int := 6

structure CMasternodePayee where
  scriptPubKey : Script
  nVotes : Int
deriving DecidableEq, Repr

structure CMasternodeBlockPayees where
  nBlockHeight : Int
  vecPayments : List CMasternodePayee
deriving DecidableEq, Repr

/-- `mapMasternodeBlocks`: every entry is made for the height it is kept under. The maxnode
table `CMaxnodePayments` is a copy of this one. -/
structure CMasternodePayments where
  mapMasternodeBlocks : Int → Option CMasternodeBlockPayees
  keyed : ∀ h payees, mapMasternodeBlocks h = some payees → payees.nBlockHeight = h

theorem keyed_none (h : Int) (payees : CMasternodeBlockPayees) :
    none = some payees → payees.nBlockHeight = h := by
  intro hpayees
  contradiction

namespace CMasternodeBlockPayees

/-- The loop of `GetPayee`: the first payee with the most votes so far, and its votes. -/
def bestPayee : Option Script × Int → List CMasternodePayee → Option Script × Int
  | best, [] => best
  | best, p :: rest =>
    bestPayee (if best.2 < p.nVotes then (some p.scriptPubKey, p.nVotes) else best) rest

def getPayee (payees : CMasternodeBlockPayees) : Option Script :=
  let (payee, nVotes) := bestPayee (none, -1) payees.vecPayments
  if -1 < nVotes then payee else none

/-- The loop that requires at least 6 signatures. -/
def maxSignatures : Int → List CMasternodePayee → Int
  | nMaxSignatures, [] => nMaxSignatures
  | nMaxSignatures, payee :: rest =>
    maxSignatures
      (if nMaxSignatures ≤ payee.nVotes ∧ MNPAYMENTS_SIGNATURES_REQUIRED ≤ payee.nVotes
        then payee.nVotes else nMaxSignatures) rest

def isTransactionValid (network : Network) (sporks : Sporks) (payees : CMasternodeBlockPayees)
    (txNew : CTransaction) : Bool :=
  let nReward := getBlockValue network payees.nBlockHeight
  let requiredMasternodePayment :=
    getMasternodePayment network sporks payees.nBlockHeight nReward
  -- without 6 signatures on a payee, approve whichever is the longest chain
  if maxSignatures 0 payees.vecPayments < MNPAYMENTS_SIGNATURES_REQUIRED then true
  else
    payees.vecPayments.any fun payee =>
      let found := txNew.vout.any fun out =>
        payee.scriptPubKey == out.scriptPubKey && decide (requiredMasternodePayment ≤ out.nValue)
      decide (MNPAYMENTS_SIGNATURES_REQUIRED ≤ payee.nVotes) && found

end CMasternodeBlockPayees

namespace CMasternodePayments

def getBlockPayee (payments : CMasternodePayments) (nBlockHeight : Int) : Option Script :=
  (payments.mapMasternodeBlocks nBlockHeight).bind CMasternodeBlockPayees.getPayee

def isTransactionValid (network : Network) (sporks : Sporks) (payments : CMasternodePayments)
    (txNew : CTransaction) (nBlockHeight : Int) : Bool :=
  match payments.mapMasternodeBlocks nBlockHeight with
  | some payees => payees.isTransactionValid network sporks txNew
  | none => true

end CMasternodePayments

/-- What a node that fills a template knows: the vote tables, the node its own list would pay
next (`GetCurrentMasterNode`, `GetCurrentMaxNode`), and the script of the dev fee address. -/
structure PayeeTables where
  masternodePayments : CMasternodePayments
  maxnodePayments : CMasternodePayments
  currentMasterNode : Option Script
  currentMaxNode : Option Script
  devFeeScript : Script

namespace PayeeTables

def masternodePayee (tables : PayeeTables) (nHeight : Int) : Option Script :=
  (tables.masternodePayments.getBlockPayee nHeight).or tables.currentMasterNode

def maxnodePayee (tables : PayeeTables) (nHeight : Int) : Option Script :=
  (tables.maxnodePayments.getBlockPayee nHeight).or tables.currentMaxNode

end PayeeTables

def resizeVout (vout : List CTxOut) (n : Nat) : List CTxOut :=
  vout.take n ++ List.replicate (n - vout.length) CTxOut.null

/-- Set the script and the value of an output, by default of a new one. -/
def payTo (scriptPubKey : Script) (nValue : Int) (out : CTxOut := CTxOut.null) : CTxOut :=
  { out with scriptPubKey := scriptPubKey, nValue := nValue }

/-- `txNew.vout[i - 1].nValue -= amount`, unless output 1 is a zerocoin mint; `none` where the
template has no output `i - 1`. -/
def takeFromStake (vout : List CTxOut) (i : Nat) (amount : Int) : Option (List CTxOut) :=
  match i with
  | 0 => none
  | j + 1 =>
    if vout[1]?.any CTxOut.isZerocoinMint then some vout
    else some (vout.modify j fun out => { out with nValue := out.nValue - amount })

section fill
variable (network : Network) (sporks : Sporks) (tables : PayeeTables)

/-- `CMasternodePayments::FillBlockPayee` on the outputs of the template, over a predecessor at
`nPrevHeight`. -/
def fillBlockPayee (nPrevHeight : Int) (fProofOfStake : Bool) (vout : List CTxOut) :
    Option (List CTxOut) :=
  match tables.masternodePayee (nPrevHeight + 1) with
  | none => some vout
  | some payee =>
    let blockValue := getBlockValue network nPrevHeight
    let masternodePayment := getMasternodePayment network sporks nPrevHeight blockValue
    if fProofOfStake then
      takeFromStake (vout ++ [payTo payee masternodePayment]) vout.length masternodePayment
    else
      match resizeVout vout 2 with
      | [out₀, out₁] => some [{ out₀ with nValue := blockValue - masternodePayment },
          payTo payee masternodePayment out₁]
      | _ => none

/-- `CMaxnodePayments::FillMaxBlockPayee`. Without a maxnode or without a masternode to pay,
nothing is paid to any of the three. -/
def fillMaxBlockPayee (nPrevHeight : Int) (fProofOfStake : Bool) (vout : List CTxOut) :
    Option (List CTxOut) :=
  match tables.maxnodePayee (nPrevHeight + 1), tables.masternodePayee (nPrevHeight + 1) with
  | some payee, some payee2 =>
    let payee3 := tables.devFeeScript
    let blockValue := getBlockValue network nPrevHeight
    let maxnodePayment := getMaxnodePayment network sporks nPrevHeight blockValue
    let masternodePayment := getMasternodePayment network sporks nPrevHeight blockValue
    let devPayment := getDevFeePayment sporks nPrevHeight blockValue
    if fProofOfStake then
      takeFromStake (vout ++ [payTo payee maxnodePayment, payTo payee3 devPayment,
        payTo payee2 masternodePayment]) vout.length
        (masternodePayment + maxnodePayment + devPayment)
    else
      match resizeVout vout 4 with
      | [out₀, out₁, out₂, out₃] =>
        some [{ out₀ with nValue := blockValue - maxnodePayment - masternodePayment - devPayment },
          payTo payee maxnodePayment out₁, payTo payee2 masternodePayment out₂,
          payTo payee3 devPayment out₃]
      | _ => none
  | _, _ => some vout

end fill

namespace CMasternodeBlockPayees

theorem bestPayee_spec (payments : List CMasternodePayee) (best : Option Script × Int) :
    (best.2 ≤ (bestPayee best payments).2 ∧
      ∀ p ∈ payments, p.nVotes ≤ (bestPayee best payments).2) ∧
    (bestPayee best payments = best ∨
      ∃ p ∈ payments, bestPayee best payments = (some p.scriptPubKey, p.nVotes)) := by
  induction payments generalizing best with
  | nil => exact ⟨⟨le_refl _, by simp⟩, Or.inl rfl⟩
  | cons p rest ih =>
    rw [bestPayee]
    by_cases hmore : best.2 < p.nVotes
    · rw [if_pos hmore]
      obtain ⟨⟨hbest, hall⟩, hwho⟩ := ih (some p.scriptPubKey, p.nVotes)
      constructor
      · constructor
        · exact hmore.le.trans hbest
        · intro q hq
          rcases List.mem_cons.mp hq with rfl | hq
          · exact hbest
          · exact hall q hq
      · rcases hwho with hsame | ⟨q, hq, heq⟩
        · exact Or.inr ⟨p, by simp, hsame⟩
        · exact Or.inr ⟨q, by simp [hq], heq⟩
    · rw [if_neg hmore]
      obtain ⟨⟨hbest, hall⟩, hwho⟩ := ih best
      constructor
      · constructor
        · exact hbest
        · intro q hq
          rcases List.mem_cons.mp hq with rfl | hq
          · exact (not_lt.mp hmore).trans hbest
          · exact hall q hq
      · rcases hwho with hsame | ⟨q, hq, heq⟩
        · exact Or.inl hsame
        · exact Or.inr ⟨q, by simp [hq], heq⟩

/-- The winner is one of the payees, and none has more votes. -/
theorem getPayee_eq_some {payees : CMasternodeBlockPayees} {payee : Script}
    (h : payees.getPayee = some payee) :
    ∃ p ∈ payees.vecPayments, p.scriptPubKey = payee ∧
      ∀ q ∈ payees.vecPayments, q.nVotes ≤ p.nVotes := by
  obtain ⟨⟨-, hall⟩, hwho⟩ := bestPayee_spec payees.vecPayments (none, -1)
  unfold getPayee at h
  generalize bestPayee (none, -1) payees.vecPayments = winner at h hall hwho
  obtain ⟨script, nVotes⟩ := winner
  dsimp only at h hall
  split_ifs at h with hvotes
  rcases hwho with hnone | ⟨p, hp, heq⟩
  · have hminus : nVotes = -1 := congrArg Prod.snd hnone
    omega
  · obtain ⟨hscript, rfl⟩ := Prod.mk.inj heq
    refine ⟨p, hp, ?_, hall⟩
    exact Option.some.inj (hscript.symm.trans h)

theorem maxSignatures_cases (payments : List CMasternodePayee) (n : Int) :
    maxSignatures n payments = n ∨ ∃ p ∈ payments, maxSignatures n payments = p.nVotes := by
  induction payments generalizing n with
  | nil => exact Or.inl rfl
  | cons p rest ih =>
    rw [maxSignatures]
    split_ifs with hp
    · rcases ih p.nVotes with hsame | ⟨q, hq, heq⟩
      · exact Or.inr ⟨p, by simp, hsame⟩
      · exact Or.inr ⟨q, by simp [hq], heq⟩
    · rcases ih n with hsame | ⟨q, hq, heq⟩
      · exact Or.inl hsame
      · exact Or.inr ⟨q, by simp [hq], heq⟩

/-- Paying the winner what the height requires satisfies the check. -/
theorem isTransactionValid_of_paid {network : Network} {sporks : Sporks}
    {payees : CMasternodeBlockPayees} {payee : Script} {txNew : CTransaction} {out : CTxOut}
    (hpayee : payees.getPayee = some payee) (hout : out ∈ txNew.vout)
    (hscript : out.scriptPubKey = payee)
    (hvalue : getMasternodePayment network sporks payees.nBlockHeight
      (getBlockValue network payees.nBlockHeight) ≤ out.nValue) :
    payees.isTransactionValid network sporks txNew = true := by
  obtain ⟨p, hp, hpscript, hmost⟩ := getPayee_eq_some hpayee
  unfold isTransactionValid
  dsimp only
  split_ifs with hfew
  · rfl
  · have hvotes : MNPAYMENTS_SIGNATURES_REQUIRED ≤ p.nVotes := by
      rcases maxSignatures_cases payees.vecPayments 0 with hzero | ⟨q, hq, heq⟩
      · rw [hzero] at hfew
        exact absurd (by decide) hfew
      · have hle := hmost q hq
        omega
    refine List.any_eq_true.mpr ⟨p, hp, ?_⟩
    have hfound : (txNew.vout.any fun o => p.scriptPubKey == o.scriptPubKey &&
        decide (getMasternodePayment network sporks payees.nBlockHeight
          (getBlockValue network payees.nBlockHeight) ≤ o.nValue)) = true := by
      refine List.any_eq_true.mpr ⟨out, hout, ?_⟩
      rw [hpscript, hscript, beq_self_eq_true, Bool.true_and]
      exact decide_eq_true hvalue
    rw [hfound, Bool.and_true]
    exact decide_eq_true hvotes

theorem maxSignatures_le (payments : List CMasternodePayee) (n : Int) :
    n ≤ maxSignatures n payments ∧ ∀ p ∈ payments, MNPAYMENTS_SIGNATURES_REQUIRED ≤ p.nVotes →
      p.nVotes ≤ maxSignatures n payments := by
  induction payments generalizing n with
  | nil => exact ⟨le_rfl, fun p hp => absurd hp List.not_mem_nil⟩
  | cons q rest ih =>
    rw [maxSignatures]
    split_ifs with hq
    · have ⟨hle, hrest⟩ := ih q.nVotes
      refine ⟨hq.1.trans hle, ?_⟩
      intro p hp hvotes
      rcases List.mem_cons.mp hp with rfl | hp
      · exact hle
      · exact hrest p hp hvotes
    · have ⟨hle, hrest⟩ := ih n
      refine ⟨hle, ?_⟩
      intro p hp hvotes
      rcases List.mem_cons.mp hp with rfl | hp
      · -- its votes suffice, so it has fewer than the most so far
        have hfewer : p.nVotes < n := by
          by_contra hmore
          exact hq ⟨not_lt.mp hmore, hvotes⟩
        exact hfewer.le.trans hle
      · exact hrest p hp hvotes

/-- The loop finds 6 signatures exactly when some payee has them. -/
theorem maxSignatures_lt_iff (payments : List CMasternodePayee) :
    maxSignatures 0 payments < MNPAYMENTS_SIGNATURES_REQUIRED ↔
      ∀ p ∈ payments, p.nVotes < MNPAYMENTS_SIGNATURES_REQUIRED := by
  constructor
  · intro hfew p hp
    by_contra hvotes
    have hmost := (maxSignatures_le payments 0).2 p hp (not_lt.mp hvotes)
    omega
  · intro hall
    rcases maxSignatures_cases payments 0 with hzero | ⟨q, hq, heq⟩
    · rw [hzero]
      decide
    · rw [heq]
      exact hall q hq

/-- Accepted are exactly the transactions that pay a payee with 6 signatures what the height
requires, where some payee has them. -/
theorem isTransactionValid_iff_paid (network : Network) (sporks : Sporks)
    (payees : CMasternodeBlockPayees) (txNew : CTransaction) :
    payees.isTransactionValid network sporks txNew = true ↔
      (∀ payee ∈ payees.vecPayments, payee.nVotes < MNPAYMENTS_SIGNATURES_REQUIRED) ∨
      ∃ payee ∈ payees.vecPayments, MNPAYMENTS_SIGNATURES_REQUIRED ≤ payee.nVotes ∧
        ∃ out ∈ txNew.vout, out.scriptPubKey = payee.scriptPubKey ∧
          getMasternodePayment network sporks payees.nBlockHeight
            (getBlockValue network payees.nBlockHeight) ≤ out.nValue := by
  unfold isTransactionValid
  dsimp only
  by_cases hfew : maxSignatures 0 payees.vecPayments < MNPAYMENTS_SIGNATURES_REQUIRED
  · rw [if_pos hfew]
    exact iff_of_true rfl (Or.inl ((maxSignatures_lt_iff _).mp hfew))
  · have hmany : ¬ ∀ p ∈ payees.vecPayments, p.nVotes < MNPAYMENTS_SIGNATURES_REQUIRED :=
      fun hall => hfew ((maxSignatures_lt_iff _).mpr hall)
    rw [if_neg hfew, or_iff_right hmany, List.any_eq_true]
    constructor
    · rintro ⟨payee, hpayee, hpaid⟩
      rw [Bool.and_eq_true, decide_eq_true_eq, List.any_eq_true] at hpaid
      obtain ⟨hvotes, out, hout, hfound⟩ := hpaid
      rw [Bool.and_eq_true, beq_iff_eq, decide_eq_true_eq] at hfound
      exact ⟨payee, hpayee, hvotes, out, hout, hfound.1.symm, hfound.2⟩
    · rintro ⟨payee, hpayee, hvotes, out, hout, hscript, hvalue⟩
      refine ⟨payee, hpayee, ?_⟩
      rw [Bool.and_eq_true, decide_eq_true_eq, List.any_eq_true]
      refine ⟨hvotes, out, hout, ?_⟩
      rw [Bool.and_eq_true, beq_iff_eq, decide_eq_true_eq]
      exact ⟨hscript.symm, hvalue⟩

end CMasternodeBlockPayees

/-- The two functions that put payee outputs into a template. -/
inductive PayeeFiller where
  | FillBlockPayee
  | FillMaxBlockPayee

def PayeeFiller.fill (network : Network) (sporks : Sporks) (tables : PayeeTables)
    (nPrevHeight : Int) (fProofOfStake : Bool) (vout : List CTxOut) :
    PayeeFiller → Option (List CTxOut)
  | .FillBlockPayee => fillBlockPayee network sporks tables nPrevHeight fProofOfStake vout
  | .FillMaxBlockPayee => fillMaxBlockPayee network sporks tables nPrevHeight fProofOfStake vout

/-- The filler has somebody to pay: `FillMaxBlockPayee` needs a maxnode too. -/
def PayeeFiller.Pays (tables : PayeeTables) (nPrevHeight : Int) : PayeeFiller → Prop
  | .FillBlockPayee => True
  | .FillMaxBlockPayee => (tables.maxnodePayee (nPrevHeight + 1)).isSome

/-- Whatever the votes, the node lists and the template: the outputs paid to the voted winner
over a predecessor at `nPrevHeight` satisfy the check of the next height. -/
def TemplateAgrees (network : Network) (sporks : Sporks) (filler : PayeeFiller)
    (nPrevHeight : Int) : Prop :=
  ∀ (tables : PayeeTables) (payee : Script) (fProofOfStake : Bool) (vout filled : List CTxOut)
    (txNew : CTransaction),
    tables.masternodePayments.getBlockPayee (nPrevHeight + 1) = some payee →
    filler.Pays tables nPrevHeight →
    filler.fill network sporks tables nPrevHeight fProofOfStake vout = some filled →
    txNew.vout = filled →
    tables.masternodePayments.isTransactionValid network sporks txNew (nPrevHeight + 1) = true

section agree
variable {network : Network} {sporks : Sporks} {tables : PayeeTables} {nPrevHeight : Int}
  {payee : Script} {fProofOfStake : Bool} {vout filled : List CTxOut}

theorem takeFromStake_mem {amount : Int} {paid : List CTxOut} {out : CTxOut}
    (h : takeFromStake (vout ++ paid) vout.length amount = some filled) (hout : out ∈ paid) :
    out ∈ filled := by
  have happend : out ∈ vout ++ paid := List.mem_append_right _ hout
  obtain ⟨i, hi⟩ := List.getElem?_of_mem hout
  unfold takeFromStake at h
  split at h
  · exact absurd h (by simp)
  · rename_i j hj
    split_ifs at h
    · rwa [← Option.some.inj h]
    · rw [← Option.some.inj h]
      refine List.mem_of_getElem? (i := vout.length + i) ?_
      have hne : j ≠ vout.length + i := by omega
      rw [List.getElem?_modify, List.getElem?_append_right (by omega), Nat.add_sub_cancel_left, hi]
      simp only [if_neg hne, Option.map_eq_map, Option.map_some]

/-- Either filler leaves an output that pays the winner the amount of its own height. -/
theorem fill_pays {filler : PayeeFiller}
    (hpayee : tables.masternodePayments.getBlockPayee (nPrevHeight + 1) = some payee)
    (hpays : filler.Pays tables nPrevHeight)
    (hfill : filler.fill network sporks tables nPrevHeight fProofOfStake vout = some filled) :
    ∃ out ∈ filled, out.scriptPubKey = payee ∧ out.nValue =
      getMasternodePayment network sporks nPrevHeight (getBlockValue network nPrevHeight) := by
  have hmaster : tables.masternodePayee (nPrevHeight + 1) = some payee := by
    rw [PayeeTables.masternodePayee, hpayee]
    rfl
  cases filler with
  | FillBlockPayee =>
    simp only [PayeeFiller.fill, fillBlockPayee, hmaster] at hfill
    split_ifs at hfill with hstake
    · exact ⟨_, takeFromStake_mem hfill (List.mem_singleton.mpr rfl), rfl, rfl⟩
    · split at hfill
      · rw [← Option.some.inj hfill]
        exact ⟨_, List.mem_cons_of_mem _ (List.mem_singleton.mpr rfl), rfl, rfl⟩
      · exact absurd hfill (by simp)
  | FillMaxBlockPayee =>
    obtain ⟨maxPayee, hmax⟩ := Option.isSome_iff_exists.mp hpays
    simp only [PayeeFiller.fill, fillMaxBlockPayee, hmaster, hmax] at hfill
    split_ifs at hfill with hstake
    · exact ⟨payTo payee
        (getMasternodePayment network sporks nPrevHeight (getBlockValue network nPrevHeight)),
        takeFromStake_mem hfill (by simp), rfl, rfl⟩
    · split at hfill
      · rename_i out₀ out₁ out₂ out₃ _
        rw [← Option.some.inj hfill]
        exact ⟨payTo payee
          (getMasternodePayment network sporks nPrevHeight (getBlockValue network nPrevHeight)) out₂,
          by simp, rfl, rfl⟩
      · exact absurd hfill (by simp)

end agree

/-- Six votes for one payee at `nHeight`, and nothing else. -/
def sixVotes (payee : Script) (nHeight : Int) : CMasternodePayments where
  mapMasternodeBlocks h := if h = nHeight then some ⟨nHeight, [⟨payee, 6⟩]⟩ else none
  keyed h payees hp := by
    split_ifs at hp with hh
    rw [← Option.some.inj hp, hh]

theorem sixVotes_getBlockPayee (payee : Script) (nHeight : Int) :
    (sixVotes payee nHeight).getBlockPayee nHeight = some payee := by
  simp [CMasternodePayments.getBlockPayee, sixVotes, CMasternodeBlockPayees.getPayee,
    CMasternodeBlockPayees.bestPayee]

theorem sixVotes_isTransactionValid_iff (network : Network) (sporks : Sporks) (payee : Script)
    (nHeight : Int) (txNew : CTransaction) :
    (sixVotes payee nHeight).isTransactionValid network sporks txNew nHeight = true ↔
      ∃ out ∈ txNew.vout, payee = out.scriptPubKey ∧
        getMasternodePayment network sporks nHeight (getBlockValue network nHeight) ≤
          out.nValue := by
  simp [CMasternodePayments.isTransactionValid, sixVotes, MNPAYMENTS_SIGNATURES_REQUIRED,
    CMasternodeBlockPayees.isTransactionValid, CMasternodeBlockPayees.maxSignatures]

/-- Tables in which the masternode with script `[1]` has won, a maxnode is there to be paid too,
and no two scripts are the same. -/
def wonTables (nHeight : Int) : PayeeTables where
  masternodePayments := sixVotes [1] nHeight
  maxnodePayments := sixVotes [3] nHeight
  currentMasterNode := none
  currentMaxNode := none
  devFeeScript := [4]

/-- The outputs of a coinstake before payees are added. -/
def stakeTemplate : List CTxOut := [⟨0, [], -10⟩, ⟨100 * COIN, [2], -10⟩]

theorem takeFromStake_stakeTemplate (paid : List CTxOut) (amount : Int) :
    takeFromStake (stakeTemplate ++ paid) stakeTemplate.length amount =
      some (⟨0, [], -10⟩ :: ⟨100 * COIN - amount, [2], -10⟩ :: paid) := by
  rfl

theorem fill_stakeTemplate (network : Network) (sporks : Sporks) (filler : PayeeFiller)
    (nPrevHeight : Int) : ∃ filled,
      filler.fill network sporks (wonTables (nPrevHeight + 1)) nPrevHeight true stakeTemplate =
        some filled ∧
      ∀ out ∈ filled, [1] = out.scriptPubKey → out.nValue =
        getMasternodePayment network sporks nPrevHeight (getBlockValue network nPrevHeight) := by
  have hmaster : (wonTables (nPrevHeight + 1)).masternodePayee (nPrevHeight + 1) = some [1] := by
    rw [PayeeTables.masternodePayee, wonTables, sixVotes_getBlockPayee]
    rfl
  have hmax : (wonTables (nPrevHeight + 1)).maxnodePayee (nPrevHeight + 1) = some [3] := by
    rw [PayeeTables.maxnodePayee, wonTables, sixVotes_getBlockPayee]
    rfl
  cases filler with
  | FillBlockPayee =>
    simp only [PayeeFiller.fill, fillBlockPayee, hmaster, if_true, takeFromStake_stakeTemplate]
    refine ⟨_, rfl, fun out hout hscript => ?_⟩
    simp only [List.mem_cons, List.not_mem_nil, or_false] at hout
    rcases hout with rfl | rfl | rfl
    · exact absurd hscript (by decide)
    · exact absurd hscript (by simp)
    · rfl
  | FillMaxBlockPayee =>
    simp only [PayeeFiller.fill, fillMaxBlockPayee, hmaster, hmax, if_true,
      takeFromStake_stakeTemplate]
    refine ⟨_, rfl, fun out hout hscript => ?_⟩
    simp only [List.mem_cons, List.not_mem_nil, or_false] at hout
    rcases hout with rfl | rfl | rfl | rfl | rfl
    · exact absurd hscript (by decide)
    · exact absurd hscript (by simp)
    · exact absurd hscript (by simp [payTo])
    · exact absurd hscript (by simp [payTo, wonTables])
    · rfl

/-- A payment that rises from one height to the next is missed by a template that pays nobody
else of that script. -/
theorem not_templateAgrees_of_lt {network : Network} {sporks : Sporks} (filler : PayeeFiller)
    {nPrevHeight : Int}
    (hless : getMasternodePayment network sporks nPrevHeight (getBlockValue network nPrevHeight) <
      getMasternodePayment network sporks (nPrevHeight + 1)
        (getBlockValue network (nPrevHeight + 1))) :
    ¬TemplateAgrees network sporks filler nPrevHeight := by
  intro hagrees
  obtain ⟨filled, hfill, honly⟩ := fill_stakeTemplate network sporks filler nPrevHeight
  have hpays : filler.Pays (wonTables (nPrevHeight + 1)) nPrevHeight := by
    cases filler with
    | FillBlockPayee => trivial
    | FillMaxBlockPayee =>
      unfold PayeeFiller.Pays PayeeTables.maxnodePayee wonTables
      rw [sixVotes_getBlockPayee]
      rfl
  have hvalid := hagrees (wonTables (nPrevHeight + 1)) [1] true stakeTemplate filled
    ⟨0, 1, [], filled, 0⟩ (sixVotes_getBlockPayee _ _) hpays hfill rfl
  obtain ⟨out, hout, hscript, hvalue⟩ := (sixVotes_isTransactionValid_iff ..).mp hvalid
  have hpaid := honly out hout hscript
  omega

/-- The template and the check agree on a height exactly when the payment does not rise there. -/
theorem templateAgrees_iff (network : Network) (sporks : Sporks) (filler : PayeeFiller)
    {nPrevHeight : Int} (h : 0 ≤ nPrevHeight) :
    TemplateAgrees network sporks filler nPrevHeight ↔
      ¬masternodePaymentRises network sporks nPrevHeight := by
  constructor
  · intro hagrees hrise
    exact not_templateAgrees_of_lt filler (getMasternodePayment_lt_succ network sporks hrise) hagrees
  · intro hstays tables payee fProofOfStake vout filled txNew hpayee hpays hfill htx
    obtain ⟨out, hout, hscript, hvalue⟩ := fill_pays hpayee hpays hfill
    have hcovers := getMasternodePayment_succ_le network sporks h hstays
    obtain ⟨payees, hpayees, hwinner⟩ := Option.bind_eq_some_iff.mp hpayee
    have hkey := tables.masternodePayments.keyed _ _ hpayees
    unfold CMasternodePayments.isTransactionValid
    rw [hpayees]
    rw [← htx] at hout
    rw [← hkey, ← hvalue] at hcovers
    exact CMasternodeBlockPayees.isTransactionValid_of_paid hwinner hout hscript hcovers

/-- No spork message has been seen, and the clock is before every default. -/
def quietSporks : Sporks := ⟨fun _ => none, 0⟩

theorem templateAgrees_iff_at_hundred :
    TemplateAgrees .main quietSporks .FillMaxBlockPayee 100 ↔
      ¬masternodePaymentRises .main quietSporks 100 :=
  templateAgrees_iff .main quietSporks .FillMaxBlockPayee (by decide)

/-- The first proof-of-stake block: the schedule steps from 30 to 100 coins. -/
theorem not_templateAgrees_after_last_pow :
    ¬TemplateAgrees .main quietSporks .FillMaxBlockPayee 100000 := by
  apply not_templateAgrees_of_lt
  decide

end Lytix
