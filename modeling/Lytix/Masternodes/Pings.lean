import Lytix.Lib.Runs
import Lytix.Masternodes.BroadcastMessage

/-! The masternode list, and how broadcasts and pings change it. -/
namespace Lytix
open Fields

/-- `obfuScationSigner.VerifyMessage`, and what the signed texts are made with. -/
structure Signer where
  verifyMessage : CPubKey → List UInt8 → List Char → Bool
  host : NumericHost
  hash160 : List UInt8 → BitVec 160
  /-- `CTxIn::ToString`. -/
  txInText : CTxIn → List Char

namespace CMasternodePing

/-- `operator==` with `CMasternodePing()`, which compares neither the time nor the signature. -/
def isDefault (ping : CMasternodePing) : Bool :=
  ping.vin == ⟨COutPoint.null, [], 0xffffffff⟩ && ping.blockHash == 0

def strMessage (signer : Signer) (ping : CMasternodePing) : List Char :=
  signer.txInText ping.vin ++ getHex ping.blockHash ++ ping.sigTime.toInt.repr.toList

def verifySignature (signer : Signer) (pubKeyMasternode : CPubKey) (ping : CMasternodePing) : Bool :=
  signer.verifyMessage pubKeyMasternode ping.vchSig (ping.strMessage signer)

end CMasternodePing

namespace Masternodes

inductive ActiveState where
  | MASTERNODE_PRE_ENABLED
  | MASTERNODE_ENABLED
  | MASTERNODE_EXPIRED
  | MASTERNODE_REMOVE
  | MASTERNODE_VIN_SPENT
deriving DecidableEq

structure CMasternode where
  vin : CTxIn
  addr : CService
  pubKeyCollateralAddress : CPubKey
  pubKeyMasternode : CPubKey
  sig : List UInt8
  activeState : ActiveState
  sigTime : Int64
  lastPing : CMasternodePing
  protocolVersion : Int32
  lastTimeChecked : Int := 0

/-- `vMasternodes`, of which `Add` keeps at most one with an outpoint. -/
abbrev MasternodeList := COutPoint → Option CMasternode

/-- What one call finds outside the list: the clocks, the chain, the coins and the node's own
masternode. -/
structure CallEnv where
  adjustedTime : Int
  time : Int
  shutdownRequested : Bool
  lockMain : Bool
  /-- `AcceptableInputs` of a transaction that spends the collateral: the penalty if it fails. -/
  acceptableInputs : CTxIn → Option Int
  minPaymentsProto : Int
  blockHeight : Uint256 → Option Int
  chainHeight : Int
  mainNet : Bool
  /-- The outpoint and the key of `activeMasternode`, with `fMasterNode`. -/
  activeMasternode : Option (COutPoint × CPubKey)
  inputAge : CTxIn → Int
  /-- The time of the block that gave the collateral its confirmations. -/
  confirmedTime : CTxIn → Option Int

def MASTERNODE_MIN_CONFIRMATIONS : Int := 15
def MASTERNODE_MIN_MNP_SECONDS : Int := 10 * 60
def MASTERNODE_MIN_MNB_SECONDS : Int := 5 * 60
def MASTERNODE_EXPIRATION_SECONDS : Int := 120 * 60
def MASTERNODE_REMOVAL_SECONDS : Int := 130 * 60
def MASTERNODE_CHECK_SECONDS : Int := 5
def MIN_PEER_MNANNOUNCE : Int := 71030

namespace CMasternode

variable (env : CallEnv)

def isEnabled (mn : CMasternode) : Bool := decide (mn.activeState = .MASTERNODE_ENABLED)

def isBroadcastedWithin (mn : CMasternode) (seconds : Int) : Bool :=
  decide (env.adjustedTime - mn.sigTime.toInt < seconds)

def isPingedWithin (mn : CMasternode) (seconds : Int) (now : Int := -1) : Bool :=
  let now := if now = -1 then env.adjustedTime else now
  !mn.lastPing.isDefault && decide (now - mn.lastPing.sigTime.toInt < seconds)

/-- The state that `Check` finds an entry in. -/
def checkedState (mn : CMasternode) : ActiveState :=
  -- once spent, stop doing the checks
  if mn.activeState = .MASTERNODE_VIN_SPENT then .MASTERNODE_VIN_SPENT
  else if !mn.isPingedWithin env MASTERNODE_REMOVAL_SECONDS then .MASTERNODE_REMOVE
  else if !mn.isPingedWithin env MASTERNODE_EXPIRATION_SECONDS then .MASTERNODE_EXPIRED
  else if mn.lastPing.sigTime.toInt - mn.sigTime.toInt < MASTERNODE_MIN_MNP_SECONDS then
    .MASTERNODE_PRE_ENABLED
  else if !env.lockMain then mn.activeState
  else if (env.acceptableInputs mn.vin).isSome then .MASTERNODE_VIN_SPENT
  else .MASTERNODE_ENABLED

def check (mn : CMasternode) (forceCheck : Bool := false) : CMasternode :=
  if env.shutdownRequested then mn
  else if !forceCheck && decide (env.time - mn.lastTimeChecked < MASTERNODE_CHECK_SECONDS) then mn
  else { mn with activeState := mn.checkedState env, lastTimeChecked := env.time }

end CMasternode

/-- What a function returns, the penalty it sets, and the list it leaves. -/
structure Handled where
  accepted : Bool
  nDos : Int
  vMasternodes : MasternodeList

variable (signer : Signer) (env : CallEnv)

/-- The two bounds on the time of a ping. -/
def timely (ping : CMasternodePing) : Bool :=
  decide (ping.sigTime.toInt ≤ env.adjustedTime + 60 * 60) &&
    decide (env.adjustedTime - 60 * 60 < ping.sigTime.toInt)

/-- `CMasternodePing::CheckAndUpdate` with `fCheckSigTimeOnly`: the penalty if it fails. -/
def pingRefused (vMasternodes : MasternodeList) (ping : CMasternodePing) : Option Int :=
  if !timely env ping then some 1
  else
    match vMasternodes ping.vin.prevout with
    | none => none
    | some pmn => if ping.verifySignature signer pmn.pubKeyMasternode then none else some 33

/-- `CMasternodePing::CheckAndUpdate` without `fCheckSigTimeOnly`. -/
def pingCheckAndUpdate (vMasternodes : MasternodeList) (ping : CMasternodePing)
    (fRequireEnabled : Bool := true) : Handled :=
  if !timely env ping then ⟨false, 1, vMasternodes⟩
  else
    match vMasternodes ping.vin.prevout with
    | none => ⟨false, 0, vMasternodes⟩
    | some pmn =>
      if pmn.protocolVersion.toInt < env.minPaymentsProto then ⟨false, 0, vMasternodes⟩
      else if fRequireEnabled && !pmn.isEnabled then ⟨false, 0, vMasternodes⟩
      else if pmn.isPingedWithin env (MASTERNODE_MIN_MNP_SECONDS - 60) ping.sigTime.toInt then
        ⟨false, 0, vMasternodes⟩
      else if !ping.verifySignature signer pmn.pubKeyMasternode then ⟨false, 33, vMasternodes⟩
      else
        match env.blockHeight ping.blockHash with
        | none => ⟨false, 0, vMasternodes⟩
        | some nHeight =>
          if nHeight < env.chainHeight - 24 then ⟨false, 0, vMasternodes⟩
          else
            let pinged := CMasternode.check env { pmn with lastPing := ping } true
            ⟨pinged.isEnabled, 0, Function.update vMasternodes ping.vin.prevout (some pinged)⟩

/-- An entry with what a broadcast says of it, but for its ping. -/
def CMasternode.renewed (mn : CMasternode) (mnb : CMasternodeBroadcast) : CMasternode :=
  { mn with
    pubKeyMasternode := mnb.pubKeyMasternode
    pubKeyCollateralAddress := mnb.pubKeyCollateralAddress
    sigTime := mnb.sigTime
    sig := mnb.sig
    protocolVersion := mnb.protocolVersion
    addr := mnb.addr
    lastTimeChecked := 0 }

/-- Change the entry with an outpoint. -/
def modify (vMasternodes : MasternodeList) (prevout : COutPoint)
    (change : CMasternode → CMasternode) : MasternodeList :=
  Function.update vMasternodes prevout ((vMasternodes prevout).map change)

/-- `UpdateFromNewBroadcast` of the entry with the outpoint of a newer broadcast. -/
def updateFromNewBroadcast (vMasternodes : MasternodeList) (mnb : CMasternodeBroadcast) :
    MasternodeList :=
  let renewed := modify vMasternodes mnb.vin.prevout fun mn => mn.renewed mnb
  let take := fun vMasternodes =>
    modify vMasternodes mnb.vin.prevout fun mn => { mn with lastPing := mnb.lastPing }
  if mnb.lastPing.isDefault then take renewed
  else
    let pinged := pingCheckAndUpdate signer env renewed mnb.lastPing false
    if pinged.accepted then take pinged.vMasternodes else pinged.vMasternodes

/-- The checks of `CMasternodeBroadcast::CheckAndUpdate` before it searches the list: the penalty
if one fails. The script of a key has 25 bytes. -/
def broadcastRefused (vMasternodes : MasternodeList) (mnb : CMasternodeBroadcast) : Option Int :=
  if env.adjustedTime + 60 * 60 < mnb.sigTime.toInt then some 1
  -- incorrect ping or its sigTime
  else if mnb.lastPing.isDefault then some 0
  else
    match pingRefused signer env vMasternodes mnb.lastPing with
    | some nDos => some nDos
    | none =>
      if mnb.protocolVersion.toInt < env.minPaymentsProto then some 0
      else if mnb.vin.scriptSig ≠ [] then some 0
      else if !mnb.verifySignature signer.host signer.hash160 signer.verifyMessage then
        some (if mnb.protocolVersion.toInt < MIN_PEER_MNANNOUNCE then 0 else 100)
      else if env.mainNet != decide (mnb.addr.port = 27071) then some 0
      else none

def broadcastCheckAndUpdate (vMasternodes : MasternodeList) (mnb : CMasternodeBroadcast) : Handled :=
  match broadcastRefused signer env vMasternodes mnb with
  | some nDos => ⟨false, nDos, vMasternodes⟩
  | none =>
    match vMasternodes mnb.vin.prevout with
    -- no such masternode, nothing to update
    | none => ⟨true, 0, vMasternodes⟩
    | some pmn =>
      if mnb.sigTime.toInt ≤ pmn.sigTime.toInt then ⟨false, 0, vMasternodes⟩
      else if !pmn.isEnabled then ⟨true, 0, vMasternodes⟩
      else if pmn.pubKeyCollateralAddress = mnb.pubKeyCollateralAddress ∧
          pmn.isBroadcastedWithin env MASTERNODE_MIN_MNB_SECONDS = false then
        let updated := updateFromNewBroadcast signer env vMasternodes mnb
        ⟨true, 0, modify updated mnb.vin.prevout fun mn => mn.check env⟩
      else ⟨true, 0, vMasternodes⟩

/-- The checks of the collateral in `CheckInputsAndAdd`: the penalty if one fails. -/
def inputsRefused (mnb : CMasternodeBroadcast) : Option Int :=
  if !env.lockMain then some 0
  else
    match env.acceptableInputs mnb.vin with
    | some nDos => some nDos
    | none =>
      if env.inputAge mnb.vin < MASTERNODE_MIN_CONFIRMATIONS then some 0
      else if (env.confirmedTime mnb.vin).any fun time => decide (mnb.sigTime.toInt < time) then
        some 0
      else none

/-- `CMasternode(const CMasternodeBroadcast&)`. -/
def CMasternode.ofBroadcast (mnb : CMasternodeBroadcast) : CMasternode where
  vin := mnb.vin
  addr := mnb.addr
  pubKeyCollateralAddress := mnb.pubKeyCollateralAddress
  pubKeyMasternode := mnb.pubKeyMasternode
  sig := mnb.sig
  activeState := .MASTERNODE_ENABLED
  sigTime := mnb.sigTime
  lastPing := mnb.lastPing
  protocolVersion := mnb.protocolVersion

def checkInputsAndAdd (vMasternodes : MasternodeList) (mnb : CMasternodeBroadcast) : Handled :=
  -- we are a masternode with the same vin, and this mnb is ours
  if env.activeMasternode = some (mnb.vin.prevout, mnb.pubKeyMasternode) then
    ⟨true, 0, vMasternodes⟩
  else if mnb.lastPing.isDefault then ⟨false, 0, vMasternodes⟩
  else
    match pingRefused signer env vMasternodes mnb.lastPing with
    | some nDos => ⟨false, nDos, vMasternodes⟩
    | none =>
      -- nothing to do if it's enabled, else remove the old entry first
      if (vMasternodes mnb.vin.prevout).any CMasternode.isEnabled then ⟨true, 0, vMasternodes⟩
      else
        let removed := Function.update vMasternodes mnb.vin.prevout none
        match inputsRefused env mnb with
        | some nDos => ⟨false, nDos, removed⟩
        | none =>
          ⟨true, 0, Function.update removed mnb.vin.prevout (some (CMasternode.ofBroadcast mnb))⟩

/-! Runs of messages. -/

/-- The messages, and what else checks or removes an entry. -/
inductive PingEvent where
  | mnp (env : CallEnv) (ping : CMasternodePing)
  | checkAndUpdate (env : CallEnv) (mnb : CMasternodeBroadcast)
  | checkInputsAndAdd (env : CallEnv) (mnb : CMasternodeBroadcast)
  | check (env : CallEnv) (prevout : COutPoint) (forceCheck : Bool)
  | remove (prevout : COutPoint)

def step (vMasternodes : MasternodeList) : PingEvent → MasternodeList
  | .mnp env ping => (pingCheckAndUpdate signer env vMasternodes ping).vMasternodes
  | .checkAndUpdate env mnb => (broadcastCheckAndUpdate signer env vMasternodes mnb).vMasternodes
  | .checkInputsAndAdd env mnb => (checkInputsAndAdd signer env vMasternodes mnb).vMasternodes
  | .check env prevout forceCheck => modify vMasternodes prevout fun mn => mn.check env forceCheck
  | .remove prevout => Function.update vMasternodes prevout none

/-- A ping is empty, or it carries a signature of a key. -/
def SignedBy (key : CPubKey) (ping : CMasternodePing) : Prop :=
  ping.isDefault = true ∨ ping.verifySignature signer key = true

/-- Every entry's ping is empty or signed by its own masternode key. -/
def Authentic (vMasternodes : MasternodeList) : Prop :=
  ∀ prevout mn, vMasternodes prevout = some mn → SignedBy signer mn.pubKeyMasternode mn.lastPing

/-- The entry takes a timely ping, if it need not be enabled. -/
def CMasternode.takes (pmn : CMasternode) (ping : CMasternodePing) : Bool :=
  decide (env.minPaymentsProto ≤ pmn.protocolVersion.toInt) &&
    !pmn.isPingedWithin env (MASTERNODE_MIN_MNP_SECONDS - 60) ping.sigTime.toInt &&
    ping.verifySignature signer pmn.pubKeyMasternode &&
    (env.blockHeight ping.blockHash).any fun nHeight => decide (env.chainHeight - 24 ≤ nHeight)

/-- The entry after it took a ping. -/
def CMasternode.pinged (pmn : CMasternode) (ping : CMasternodePing) : CMasternode :=
  CMasternode.check env { pmn with lastPing := ping } true

/-- An entry that a broadcast renews is left with a ping of its new key. A ping of the broadcast that
the entry does not take leaves the old one, and one that names another entry comes from there. -/
def RenewsSigned (vMasternodes : MasternodeList) (mnb : CMasternodeBroadcast)
    (pmn : CMasternode) : Prop :=
  if mnb.lastPing.vin.prevout = mnb.vin.prevout then
    (pmn.renewed mnb).takes signer env mnb.lastPing = true ∨
      SignedBy signer mnb.pubKeyMasternode pmn.lastPing
  else if ∃ other, vMasternodes mnb.lastPing.vin.prevout = some other ∧
      other.takes signer env mnb.lastPing = true ∧
      (other.pinged env mnb.lastPing).isEnabled = true then
    SignedBy signer mnb.pubKeyMasternode mnb.lastPing
  else SignedBy signer mnb.pubKeyMasternode pmn.lastPing

/-- What an event needs to leave every ping signed by the key of its entry. -/
def KeepsSigned (vMasternodes : MasternodeList) : PingEvent → Prop
  | .checkAndUpdate env mnb =>
    broadcastRefused signer env vMasternodes mnb = none →
      ∀ pmn, vMasternodes mnb.vin.prevout = some pmn → pmn.sigTime.toInt < mnb.sigTime.toInt →
        pmn.isEnabled = true → pmn.pubKeyCollateralAddress = mnb.pubKeyCollateralAddress →
        pmn.isBroadcastedWithin env MASTERNODE_MIN_MNB_SECONDS = false →
          RenewsSigned signer env vMasternodes mnb pmn
  | .checkInputsAndAdd env mnb =>
    env.activeMasternode ≠ some (mnb.vin.prevout, mnb.pubKeyMasternode) →
      mnb.lastPing.isDefault = false → pingRefused signer env vMasternodes mnb.lastPing = none →
      (vMasternodes mnb.vin.prevout).any CMasternode.isEnabled = false →
      inputsRefused env mnb = none → SignedBy signer mnb.pubKeyMasternode mnb.lastPing
  | _ => True

section
variable {signer : Signer} {env : CallEnv} {vMasternodes : MasternodeList} {mn pmn : CMasternode}
  {ping : CMasternodePing} {mnb : CMasternodeBroadcast} {prevout : COutPoint}

@[simp] theorem CMasternode.check_lastPing {forceCheck : Bool} :
    (mn.check env forceCheck).lastPing = mn.lastPing := by
  unfold CMasternode.check
  split_ifs <;> rfl

@[simp] theorem CMasternode.check_pubKeyMasternode {forceCheck : Bool} :
    (mn.check env forceCheck).pubKeyMasternode = mn.pubKeyMasternode := by
  unfold CMasternode.check
  split_ifs <;> rfl

@[simp] theorem CMasternode.pinged_lastPing : (mn.pinged env ping).lastPing = ping := by
  unfold CMasternode.pinged
  rw [CMasternode.check_lastPing]

@[simp] theorem CMasternode.pinged_pubKeyMasternode :
    (mn.pinged env ping).pubKeyMasternode = mn.pubKeyMasternode := by
  unfold CMasternode.pinged
  rw [CMasternode.check_pubKeyMasternode]

theorem authentic_update_iff (h : Authentic signer vMasternodes) :
    Authentic signer (Function.update vMasternodes prevout (some mn)) ↔
      SignedBy signer mn.pubKeyMasternode mn.lastPing := by
  constructor
  · intro hafter
    exact hafter prevout mn (Function.update_self _ _ _)
  · intro hsigned other found hfound
    rw [Function.update_apply] at hfound
    split_ifs at hfound with hsame
    · rw [← Option.some.inj hfound]
      exact hsigned
    · exact h other found hfound

theorem authentic_remove (h : Authentic signer vMasternodes) :
    Authentic signer (Function.update vMasternodes prevout none) := by
  intro other found hfound
  rw [Function.update_apply] at hfound
  split_ifs at hfound with hsame
  exact h other found hfound

/-- A change of neither key nor ping does not matter. -/
theorem authentic_modify_iff {change : CMasternode → CMasternode}
    (hkey : ∀ mn, (change mn).pubKeyMasternode = mn.pubKeyMasternode)
    (hping : ∀ mn, (change mn).lastPing = mn.lastPing) :
    Authentic signer (modify vMasternodes prevout change) ↔ Authentic signer vMasternodes := by
  unfold modify
  constructor
  · intro h other mn hmn
    by_cases hsame : other = prevout
    · have hafter := h other (change mn) (by
        rw [hsame, Function.update_self, ← hsame, hmn, Option.map_some])
      rw [hkey, hping] at hafter
      exact hafter
    · exact h other mn (by rw [Function.update_of_ne hsame, hmn])
  · intro h other mn hmn
    rw [Function.update_apply] at hmn
    split_ifs at hmn with hsame
    · obtain ⟨before, hbefore, rfl⟩ := Option.map_eq_some_iff.mp hmn
      rw [hkey, hping]
      exact h prevout before hbefore
    · exact h other mn hmn

theorem CMasternode.verifies_of_takes (h : pmn.takes signer env ping = true) :
    SignedBy signer pmn.pubKeyMasternode ping := by
  unfold CMasternode.takes at h
  simp only [Bool.and_eq_true] at h
  exact Or.inr h.1.2

/-- A ping leaves the list as it is, or the entry with its outpoint takes it. -/
theorem pingCheckAndUpdate_spec {fRequireEnabled : Bool} :
    ((∃ nDos, pingCheckAndUpdate signer env vMasternodes ping fRequireEnabled =
        ⟨false, nDos, vMasternodes⟩) ∧
      ∀ pmn, vMasternodes ping.vin.prevout = some pmn → timely env ping = true →
        (fRequireEnabled = true → pmn.isEnabled = true) → pmn.takes signer env ping = false) ∨
    ∃ pmn, vMasternodes ping.vin.prevout = some pmn ∧ pmn.takes signer env ping = true ∧
      pingCheckAndUpdate signer env vMasternodes ping fRequireEnabled =
        ⟨(pmn.pinged env ping).isEnabled, 0,
          Function.update vMasternodes ping.vin.prevout (some (pmn.pinged env ping))⟩ := by
  unfold pingCheckAndUpdate
  cases htime : timely env ping with
  | false =>
    refine Or.inl ⟨⟨1, rfl⟩, fun _ _ h => ?_⟩
    contradiction
  | true =>
    rw [Bool.not_true, if_neg Bool.false_ne_true]
    cases hfound : vMasternodes ping.vin.prevout with
    | none =>
      refine Or.inl ⟨⟨0, rfl⟩, fun _ h => ?_⟩
      contradiction
    | some pmn =>
      dsimp only
      cases htakes : pmn.takes signer env ping with
      | false =>
        refine Or.inl ⟨?_, fun mn hmn _ _ => ?_⟩
        · unfold CMasternode.takes at htakes
          cases hblock : env.blockHeight ping.blockHash with
          | none =>
            split_ifs
            all_goals exact ⟨_, rfl⟩
          | some nHeight =>
            dsimp only
            split_ifs with hproto henabled hearly hverify hold
            all_goals first | exact ⟨_, rfl⟩ | skip
            rw [hblock] at htakes
            simp only [Bool.and_eq_false_iff, Bool.not_eq_false', decide_eq_false_iff_not,
              Option.any_some] at htakes
            rcases htakes with ((hfew | hwithin) | hforged) | hnotRecent
            · exact absurd (not_lt.mp hproto) hfew
            · exact absurd hwithin hearly
            · rw [hforged] at hverify
              contradiction
            · exact absurd (not_lt.mp hold) hnotRecent
        · rw [← Option.some.inj hmn, htakes]
      | true =>
        have hall := htakes
        unfold CMasternode.takes at hall
        simp only [Bool.and_eq_true, Bool.not_eq_true', decide_eq_true_eq, Option.any_eq_true] at hall
        obtain ⟨⟨⟨hproto, hearly⟩, hverify⟩, nHeight, hblock, hrecent⟩ := hall
        rw [if_neg (not_lt.mpr hproto)]
        cases henabled : fRequireEnabled && !pmn.isEnabled with
        | true =>
          rw [Bool.and_eq_true, Bool.not_eq_true'] at henabled
          refine Or.inl ⟨⟨0, rfl⟩, fun mn hmn _ hneeds => ?_⟩
          have hstate := hneeds henabled.1
          rw [← Option.some.inj hmn, henabled.2] at hstate
          contradiction
        | false =>
          refine Or.inr ⟨pmn, rfl, htakes, ?_⟩
          rw [if_neg Bool.false_ne_true, hearly, if_neg Bool.false_ne_true, hverify, Bool.not_true,
            if_neg Bool.false_ne_true, hblock]
          dsimp only
          rw [if_neg (not_lt.mpr hrecent)]
          rfl

/-- A ping on its own is taken under the key of the entry it goes to. -/
theorem authentic_pingCheckAndUpdate {fRequireEnabled : Bool} (h : Authentic signer vMasternodes) :
    Authentic signer
      (pingCheckAndUpdate signer env vMasternodes ping fRequireEnabled).vMasternodes := by
  obtain ⟨⟨nDos, hsame⟩, -⟩ | ⟨pmn, -, htakes, htaken⟩ := @pingCheckAndUpdate_spec signer env
    vMasternodes ping fRequireEnabled
  · rw [hsame]
    exact h
  · rw [htaken]
    refine (authentic_update_iff h).mpr ?_
    rw [CMasternode.pinged_lastPing, CMasternode.pinged_pubKeyMasternode]
    exact CMasternode.verifies_of_takes htakes

theorem modify_of_some {change : CMasternode → CMasternode} (h : vMasternodes prevout = some mn) :
    modify vMasternodes prevout change =
      Function.update vMasternodes prevout (some (change mn)) := by
  unfold modify
  rw [h, Option.map_some]

/-- An update leaves the pings signed exactly when the renewed entry is left with one that is. -/
theorem authentic_updateFromNewBroadcast_iff (h : Authentic signer vMasternodes)
    (hpmn : vMasternodes mnb.vin.prevout = some pmn) (htime : timely env mnb.lastPing = true)
    (hdefault : mnb.lastPing.isDefault = false) :
    Authentic signer (updateFromNewBroadcast signer env vMasternodes mnb) ↔
      RenewsSigned signer env vMasternodes mnb pmn := by
  have hneeds : false = true → ∀ mn : CMasternode, mn.isEnabled = true := fun hfalse => by
    contradiction
  unfold updateFromNewBroadcast
  dsimp only
  rw [hdefault, if_neg Bool.false_ne_true, modify_of_some hpmn]
  have hself : ∀ base : MasternodeList, (Function.update base mnb.vin.prevout
      (some (pmn.renewed mnb))) mnb.vin.prevout = some (pmn.renewed mnb) :=
    fun base => Function.update_self _ _ _
  unfold RenewsSigned
  by_cases hsame : mnb.lastPing.vin.prevout = mnb.vin.prevout
  · rw [if_pos hsame]
    obtain ⟨⟨nDos, hleft⟩, hrefuses⟩ | ⟨taker, htaker, htakes, htaken⟩ := @pingCheckAndUpdate_spec
      signer env (Function.update vMasternodes mnb.vin.prevout (some (pmn.renewed mnb)))
      mnb.lastPing false
    · have hnot := hrefuses (pmn.renewed mnb) (by rw [hsame, hself]) htime
        fun hfalse => hneeds hfalse _
      rw [hleft, if_neg Bool.false_ne_true, hnot, authentic_update_iff h]
      simp [CMasternode.renewed]
    · rw [hsame, hself, Option.some.injEq] at htaker
      rw [← htaker] at htakes htaken
      have hsigned := CMasternode.verifies_of_takes htakes
      refine iff_of_true ?_ (Or.inl htakes)
      rw [htaken, hsame, Function.update_idem]
      dsimp only
      split_ifs
      · rw [modify_of_some (Function.update_self _ _ _), Function.update_idem,
          authentic_update_iff h, CMasternode.pinged_pubKeyMasternode]
        exact hsigned
      · rw [authentic_update_iff h, CMasternode.pinged_lastPing,
          CMasternode.pinged_pubKeyMasternode]
        exact hsigned
  · rw [if_neg hsame]
    obtain ⟨⟨nDos, hleft⟩, hrefuses⟩ | ⟨taker, htaker, htakes, htaken⟩ := @pingCheckAndUpdate_spec
      signer env (Function.update vMasternodes mnb.vin.prevout (some (pmn.renewed mnb)))
      mnb.lastPing false
    · rw [hleft, if_neg Bool.false_ne_true, if_neg, authentic_update_iff h]
      · rfl
      · rintro ⟨other, hother, htakes, -⟩
        have hnot := hrefuses other (by rw [Function.update_of_ne hsame, hother]) htime
          fun hfalse => hneeds hfalse _
        rw [hnot] at htakes
        contradiction
    · rw [Function.update_of_ne hsame] at htaker
      have hother : Authentic signer (Function.update vMasternodes mnb.lastPing.vin.prevout
          (some (taker.pinged env mnb.lastPing))) := by
        rw [authentic_update_iff h, CMasternode.pinged_lastPing,
          CMasternode.pinged_pubKeyMasternode]
        exact CMasternode.verifies_of_takes htakes
      rw [htaken, Function.update_comm (Ne.symm hsame)]
      dsimp only
      cases henabled : (taker.pinged env mnb.lastPing).isEnabled with
      | true =>
        rw [if_pos rfl, if_pos ⟨taker, htaker, htakes, henabled⟩, modify_of_some (hself _),
          Function.update_idem, authentic_update_iff hother]
        rfl
      | false =>
        rw [if_neg Bool.false_ne_true, if_neg, authentic_update_iff hother]
        · rfl
        · rintro ⟨other, hfound, -, hstate⟩
          rw [htaker, Option.some.injEq] at hfound
          rw [← hfound, henabled] at hstate
          contradiction

theorem timely_of_pingRefused (h : pingRefused signer env vMasternodes ping = none) :
    timely env ping = true := by
  unfold pingRefused at h
  by_contra htime
  rw [Bool.not_eq_true] at htime
  rw [htime] at h
  contradiction

/-- The ping of a broadcast that is not refused is there and timely. -/
theorem ping_of_broadcastRefused (h : broadcastRefused signer env vMasternodes mnb = none) :
    mnb.lastPing.isDefault = false ∧ timely env mnb.lastPing = true := by
  unfold broadcastRefused at h
  by_cases hfuture : env.adjustedTime + 60 * 60 < mnb.sigTime.toInt
  · rw [if_pos hfuture] at h
    contradiction
  rw [if_neg hfuture] at h
  cases hdefault : mnb.lastPing.isDefault with
  | true =>
    rw [hdefault, if_pos rfl] at h
    contradiction
  | false =>
    rw [hdefault, if_neg Bool.false_ne_true] at h
    cases hping : pingRefused signer env vMasternodes mnb.lastPing with
    | some nDos =>
      rw [hping] at h
      contradiction
    | none => exact ⟨rfl, timely_of_pingRefused hping⟩

theorem authentic_broadcastCheckAndUpdate_iff (h : Authentic signer vMasternodes) :
    Authentic signer (broadcastCheckAndUpdate signer env vMasternodes mnb).vMasternodes ↔
      KeepsSigned signer vMasternodes (.checkAndUpdate env mnb) := by
  unfold broadcastCheckAndUpdate
  dsimp only [KeepsSigned]
  cases hrefused : broadcastRefused signer env vMasternodes mnb with
  | some nDos => simpa using h
  | none =>
    obtain ⟨hdefault, htime⟩ := ping_of_broadcastRefused hrefused
    dsimp only
    cases hpmn : vMasternodes mnb.vin.prevout with
    | none => simpa using h
    | some pmn =>
      dsimp only
      split_ifs with holder hdisabled hupdates
      · refine iff_of_true h fun _ mn hmn hnewer => ?_
        rw [← Option.some.inj hmn] at hnewer
        omega
      · refine iff_of_true h fun _ mn hmn _ henabled => ?_
        rw [← Option.some.inj hmn] at henabled
        rw [henabled] at hdisabled
        contradiction
      · have hkey : ∀ mn : CMasternode, (mn.check env).pubKeyMasternode = mn.pubKeyMasternode :=
          fun mn => CMasternode.check_pubKeyMasternode
        have hping : ∀ mn : CMasternode, (mn.check env).lastPing = mn.lastPing :=
          fun mn => CMasternode.check_lastPing
        rw [authentic_modify_iff hkey hping, authentic_updateFromNewBroadcast_iff h hpmn htime
          hdefault]
        constructor
        · intro hrenews _ mn hmn _ _ _ _
          rw [← Option.some.inj hmn]
          exact hrenews
        · intro hall
          exact hall rfl pmn rfl (not_le.mp holder) (by simpa using hdisabled) hupdates.1 hupdates.2
      · refine iff_of_true h fun _ mn hmn _ _ hcollateral hbroadcast => ?_
        rw [← Option.some.inj hmn] at hcollateral hbroadcast
        exact absurd ⟨hcollateral, hbroadcast⟩ hupdates

theorem authentic_checkInputsAndAdd_iff (h : Authentic signer vMasternodes) :
    Authentic signer (checkInputsAndAdd signer env vMasternodes mnb).vMasternodes ↔
      KeepsSigned signer vMasternodes (.checkInputsAndAdd env mnb) := by
  unfold checkInputsAndAdd
  dsimp only [KeepsSigned]
  by_cases hours : env.activeMasternode = some (mnb.vin.prevout, mnb.pubKeyMasternode)
  · rw [if_pos hours]
    exact iff_of_true h fun hnot => absurd hours hnot
  rw [if_neg hours]
  cases hdefault : mnb.lastPing.isDefault with
  | true => simpa using h
  | false =>
    rw [if_neg Bool.false_ne_true]
    cases hrefused : pingRefused signer env vMasternodes mnb.lastPing with
    | some nDos => simpa using h
    | none =>
      dsimp only
      cases henabled : (vMasternodes mnb.vin.prevout).any CMasternode.isEnabled with
      | true => simpa using h
      | false =>
        rw [if_neg Bool.false_ne_true]
        cases hinputs : inputsRefused env mnb with
        | some nDos => simpa using authentic_remove h
        | none =>
          dsimp only
          rw [authentic_update_iff (authentic_remove h)]
          constructor
          · intro hsigned _ _ _ _ _
            exact hsigned
          · intro hall
            exact hall hours rfl rfl rfl rfl

/-- A step leaves the pings signed exactly when its event does. -/
theorem authentic_step_iff {e : PingEvent} (h : Authentic signer vMasternodes) :
    Authentic signer (step signer vMasternodes e) ↔ KeepsSigned signer vMasternodes e := by
  cases e with
  | mnp env ping => exact iff_of_true (authentic_pingCheckAndUpdate h) trivial
  | checkAndUpdate env mnb => exact authentic_broadcastCheckAndUpdate_iff h
  | checkInputsAndAdd env mnb => exact authentic_checkInputsAndAdd_iff h
  | check env prevout forceCheck =>
    refine iff_of_true ?_ trivial
    exact (authentic_modify_iff (fun _ => CMasternode.check_pubKeyMasternode)
      (fun _ => CMasternode.check_lastPing)).mpr h
  | remove prevout => exact iff_of_true (authentic_remove h) trivial

end

/-- From an empty list, all pings are signed all along a run exactly when every broadcast keeps
them signed. -/
theorem authentic_run_iff (signer : Signer) (events : List PingEvent) :
    (∀ before after, events = before ++ after →
        Authentic signer (Runs.run (step signer) (fun _ => none) before)) ↔
      Runs.Along (step signer) (KeepsSigned signer) (fun _ => none) events := by
  have hstart : Authentic signer fun _ => none := by
    intro prevout mn hmn
    contradiction
  exact Runs.forall_prefix_iff_along hstart fun vMasternodes e h => authentic_step_iff h

/-! A first broadcast with a ping that nobody signed. -/

/-- Only the signature `[1]` verifies. -/
def sampleSigner : Signer where
  verifyMessage := fun _ vchSig _ => vchSig == [1]
  host := CMasternodeBroadcast.numericHost
  hash160 := fun _ => 0
  txInText := fun _ => []

def sampleCall : CallEnv where
  adjustedTime := 1550000600
  time := 1550000600
  shutdownRequested := false
  lockMain := true
  acceptableInputs := fun _ => none
  minPaymentsProto := 70915
  blockHeight := fun _ => some 100
  chainHeight := 112
  mainNet := true
  activeMasternode := none
  inputAge := fun _ => 20
  confirmedTime := fun _ => some 1540000000

def forgedPing : CMasternodePing := ⟨⟨⟨7, 0⟩, [], 0xffffffff⟩, 3, 1550000600, [2]⟩

def announcement : CMasternodeBroadcast :=
  { CMasternodeBroadcast.announced 0 with sig := [1], lastPing := forgedPing }

theorem not_authentic_announcement : ¬ Authentic sampleSigner
    (Runs.run (step sampleSigner) (fun _ => none)
      [.checkAndUpdate sampleCall announcement, .checkInputsAndAdd sampleCall announcement]) := by
  intro h
  have hsigned := h ⟨7, 0⟩ (CMasternode.ofBroadcast announcement) rfl
  rcases hsigned with hdefault | hverifies
  · exact absurd hdefault (by decide)
  · exact absurd hverifies (by decide)

end Masternodes
end Lytix
