import Lytix.Masternodes.Pings

/-! Broadcasts that give a masternode another key. The ping of such a broadcast is checked under the
key of the entry that the list has. -/
namespace Lytix
namespace Masternodes

/-- A newer broadcast of an enabled entry, with a fresh ping signed by the key it announces. -/
structure Rebroadcast (signer : Signer) (env : CallEnv) (vMasternodes : MasternodeList)
    (mnb : CMasternodeBroadcast) (pmn : CMasternode) : Prop where
  found : vMasternodes mnb.vin.prevout = some pmn
  enabled : pmn.isEnabled = true
  newer : pmn.sigTime.toInt < mnb.sigTime.toInt
  interval : pmn.isBroadcastedWithin env MASTERNODE_MIN_MNB_SECONDS = false
  collateral : pmn.pubKeyCollateralAddress = mnb.pubKeyCollateralAddress
  signed : mnb.verifySignature signer.host signer.hash160 signer.verifyMessage = true
  address : env.mainNet = decide (mnb.addr.port = 27071)
  protocol : env.minPaymentsProto ≤ mnb.protocolVersion.toInt
  pinged : mnb.lastPing.isDefault = false
  fresh : timely env mnb.lastPing = true
  pingSigned : mnb.lastPing.verifySignature signer mnb.pubKeyMasternode = true

/-- The entry of a broadcast has its key, its address and its time. -/
def HasContent (vMasternodes : MasternodeList) (mnb : CMasternodeBroadcast) : Prop :=
  ∃ mn, vMasternodes mnb.vin.prevout = some mn ∧ mn.pubKeyMasternode = mnb.pubKeyMasternode ∧
    mn.addr = mnb.addr ∧ mn.sigTime = mnb.sigTime

/-- The broadcast is accepted without a penalty, and the entry takes its content over. -/
def Handled.TakesOver (handled : Handled) (mnb : CMasternodeBroadcast) : Prop :=
  handled.accepted = true ∧ handled.nDos = 0 ∧ HasContent handled.vMasternodes mnb

/-- A broadcast that spends nothing, is not from the future, and has a ping that the entry it names
takes for its own. -/
structure KeyKnown (signer : Signer) (env : CallEnv) (vMasternodes : MasternodeList)
    (mnb : CMasternodeBroadcast) : Prop where
  scriptSig : mnb.vin.scriptSig = []
  past : mnb.sigTime.toInt ≤ env.adjustedTime + 60 * 60
  ping : ∀ stored, vMasternodes mnb.lastPing.vin.prevout = some stored →
    mnb.lastPing.verifySignature signer stored.pubKeyMasternode = true

section
variable {signer : Signer} {env : CallEnv} {vMasternodes : MasternodeList} {mn pmn : CMasternode}
  {ping : CMasternodePing} {mnb : CMasternodeBroadcast} {prevout : COutPoint}

theorem pingRefused_eq_none_iff (hfresh : timely env ping = true) :
    pingRefused signer env vMasternodes ping = none ↔
      ∀ stored, vMasternodes ping.vin.prevout = some stored →
        ping.verifySignature signer stored.pubKeyMasternode = true := by
  unfold pingRefused
  rw [hfresh, Bool.not_true, if_neg Bool.false_ne_true]
  cases hstored : vMasternodes ping.vin.prevout with
  | none => simp
  | some stored => simp

/-- What is left to check of such a broadcast. -/
theorem broadcastRefused_eq_none_iff (h : Rebroadcast signer env vMasternodes mnb pmn) :
    broadcastRefused signer env vMasternodes mnb = none ↔
      KeyKnown signer env vMasternodes mnb := by
  have hping := @pingRefused_eq_none_iff signer env vMasternodes mnb.lastPing h.fresh
  have haddress : (env.mainNet != decide (mnb.addr.port = 27071)) = false := by
    rw [h.address, bne_self_eq_false]
  unfold broadcastRefused
  rw [h.pinged, if_neg Bool.false_ne_true]
  by_cases hfuture : env.adjustedTime + 60 * 60 < mnb.sigTime.toInt
  · rw [if_pos hfuture]
    refine iff_of_false (Option.some_ne_none _) fun known => ?_
    exact absurd known.past (not_le.mpr hfuture)
  · rw [if_neg hfuture]
    cases hrefused : pingRefused signer env vMasternodes mnb.lastPing with
    | some nDos =>
      refine iff_of_false (Option.some_ne_none _) fun known => ?_
      have hnone := hping.mpr known.ping
      rw [hrefused] at hnone
      contradiction
    | none =>
      dsimp only
      rw [if_neg (not_lt.mpr h.protocol), h.signed, Bool.not_true, if_neg Bool.false_ne_true,
        haddress, if_neg Bool.false_ne_true]
      by_cases hscript : mnb.vin.scriptSig = []
      · rw [if_neg (not_not.mpr hscript)]
        exact iff_of_true rfl ⟨hscript, not_lt.mp hfuture, hping.mp hrefused⟩
      · rw [if_pos hscript]
        exact iff_of_false (Option.some_ne_none _) fun known => hscript known.scriptSig

/-- A change of the rest of an entry. -/
def KeepsContent (change : CMasternode → CMasternode) : Prop :=
  ∀ mn, (change mn).pubKeyMasternode = mn.pubKeyMasternode ∧ (change mn).addr = mn.addr ∧
    (change mn).sigTime = mn.sigTime

theorem keepsContent_check {forceCheck : Bool} :
    KeepsContent fun mn => mn.check env forceCheck := by
  intro mn
  dsimp only
  unfold CMasternode.check
  split_ifs <;> exact ⟨rfl, rfl, rfl⟩

theorem keepsContent_ping : KeepsContent fun mn => { mn with lastPing := ping } :=
  fun _ => ⟨rfl, rfl, rfl⟩

theorem keepsContent_pinged : KeepsContent fun mn => mn.pinged env ping := by
  intro mn
  exact keepsContent_check { mn with lastPing := ping }

theorem HasContent.modify {change : CMasternode → CMasternode} (keeps : KeepsContent change)
    (h : HasContent vMasternodes mnb) : HasContent (modify vMasternodes prevout change) mnb := by
  obtain ⟨mn, hmn, hcontent⟩ := h
  unfold Masternodes.modify
  by_cases hsame : mnb.vin.prevout = prevout
  · have hchanged := keeps mn
    refine ⟨change mn, ?_, ?_⟩
    · rw [hsame, Function.update_self, ← hsame, hmn]
      rfl
    · rw [hchanged.1, hchanged.2.1, hchanged.2.2]
      exact hcontent
  · exact ⟨mn, by rw [Function.update_of_ne hsame, hmn], hcontent⟩

/-- A ping changes no content, whichever entry takes it. -/
theorem HasContent.pingCheckAndUpdate {fRequireEnabled : Bool} (h : HasContent vMasternodes mnb) :
    HasContent (pingCheckAndUpdate signer env vMasternodes ping fRequireEnabled).vMasternodes
      mnb := by
  obtain ⟨⟨nDos, hleft⟩, -⟩ | ⟨taker, htaker, -, htaken⟩ := @pingCheckAndUpdate_spec signer env
    vMasternodes ping fRequireEnabled
  · rw [hleft]
    exact h
  · have hpinged : Masternodes.modify vMasternodes ping.vin.prevout (fun mn => mn.pinged env ping) =
        Function.update vMasternodes ping.vin.prevout (some (taker.pinged env ping)) :=
      modify_of_some htaker
    rw [htaken]
    dsimp only
    rw [← hpinged]
    exact h.modify keepsContent_pinged

/-- The update takes the content over, whatever becomes of the ping. -/
theorem hasContent_updateFromNewBroadcast (h : vMasternodes mnb.vin.prevout = some pmn) :
    HasContent (updateFromNewBroadcast signer env vMasternodes mnb) mnb := by
  have hrenewed :
      HasContent (modify vMasternodes mnb.vin.prevout fun mn => mn.renewed mnb) mnb := by
    refine ⟨pmn.renewed mnb, ?_, rfl, rfl, rfl⟩
    rw [modify_of_some h, Function.update_self]
  unfold updateFromNewBroadcast
  dsimp only
  split_ifs
  · exact hrenewed.modify keepsContent_ping
  · exact hrenewed.pingCheckAndUpdate.modify keepsContent_ping
  · exact hrenewed.pingCheckAndUpdate

theorem takesOver_iff_not_refused (h : Rebroadcast signer env vMasternodes mnb pmn) :
    (broadcastCheckAndUpdate signer env vMasternodes mnb).TakesOver mnb ↔
      broadcastRefused signer env vMasternodes mnb = none := by
  unfold broadcastCheckAndUpdate
  cases hrefused : broadcastRefused signer env vMasternodes mnb with
  | some nDos =>
    refine iff_of_false ?_ (Option.some_ne_none nDos)
    intro htakes
    exact absurd htakes.1 Bool.false_ne_true
  | none =>
    refine iff_of_true ?_ rfl
    dsimp only
    rw [h.found]
    dsimp only
    rw [if_neg (not_le.mpr h.newer), h.enabled, Bool.not_true, if_neg Bool.false_ne_true,
      if_pos ⟨h.collateral, h.interval⟩]
    exact ⟨rfl, rfl, (hasContent_updateFromNewBroadcast h.found).modify keepsContent_check⟩

end

/-- A newer broadcast of an enabled entry takes over exactly if its ping is also signed by the key
that the named entry has already. -/
theorem broadcastCheckAndUpdate_takesOver_iff (signer : Signer) (env : CallEnv)
    (vMasternodes : MasternodeList) (mnb : CMasternodeBroadcast) (pmn : CMasternode)
    (h : Rebroadcast signer env vMasternodes mnb pmn) :
    (broadcastCheckAndUpdate signer env vMasternodes mnb).TakesOver mnb ↔
      KeyKnown signer env vMasternodes mnb :=
  (takesOver_iff_not_refused h).trans (broadcastRefused_eq_none_iff h)

/-- A signature verifies under a key if it is the first two bytes of the key. -/
def keySigner : Signer where
  verifyMessage := fun key vchSig _ => vchSig == key.bytes.take 2
  host := CMasternodeBroadcast.numericHost
  hash160 := fun _ => 0
  txInText := fun _ => []

def otherKey : CPubKey := ⟨2, List.replicate 32 2, by decide⟩

/-- A list with one enabled entry. -/
def oneMasternode : MasternodeList := fun prevout =>
  if prevout = ⟨7, 0⟩ then some (CMasternode.ofBroadcast (CMasternodeBroadcast.announced 0))
  else none

/-- A later broadcast of the entry with another address, with a key and a signature of its ping. -/
def rebroadcast (pubKeyMasternode : CPubKey) (vchSig : List UInt8) : CMasternodeBroadcast :=
  { CMasternodeBroadcast.announced 0 with
    addr := ⟨⟨[0, 0, 0, 0, 0, 0, 0, 0, 0, 0, 0xff, 0xff, 8, 8, 4, 4], rfl⟩, 27071⟩
    pubKeyMasternode := pubKeyMasternode
    sig := [2, 1]
    sigTime := 1550000500
    lastPing := ⟨⟨⟨7, 0⟩, [], 0xffffffff⟩, 3, 1550000500, vchSig⟩ }

theorem rebroadcast_signed {pubKeyMasternode : CPubKey} {vchSig : List UInt8}
    (hsig : vchSig = pubKeyMasternode.bytes.take 2) :
    Rebroadcast keySigner sampleCall oneMasternode (rebroadcast pubKeyMasternode vchSig)
      (CMasternode.ofBroadcast (CMasternodeBroadcast.announced 0)) where
  found := rfl
  enabled := rfl
  newer := (by decide : (1550000000 : Int64).toInt < (1550000500 : Int64).toInt)
  interval := by decide
  collateral := rfl
  signed := rfl
  address := rfl
  protocol := (by decide : 70915 ≤ (70915 : Int32).toInt)
  pinged := rfl
  fresh := rfl
  pingSigned := by
    rw [hsig]
    exact beq_self_eq_true _

/-- With the key that it has, the entry takes the new address over. -/
theorem rebroadcast_sameKey :
    (broadcastCheckAndUpdate keySigner sampleCall oneMasternode
      (rebroadcast CMasternodeBroadcast.masternodeKey [3, 1])).TakesOver
        (rebroadcast CMasternodeBroadcast.masternodeKey [3, 1]) := by
  refine (broadcastCheckAndUpdate_takesOver_iff keySigner sampleCall oneMasternode _ _
    (rebroadcast_signed rfl)).mpr ⟨rfl, by decide, ?_⟩
  intro stored hstored
  rw [← Option.some.inj hstored]
  rfl

/-- With another key it is refused, with a penalty. -/
theorem rebroadcast_otherKey :
    Rebroadcast keySigner sampleCall oneMasternode (rebroadcast otherKey [2, 2])
      (CMasternode.ofBroadcast (CMasternodeBroadcast.announced 0)) ∧
    (broadcastCheckAndUpdate keySigner sampleCall oneMasternode
      (rebroadcast otherKey [2, 2])).nDos = 33 ∧
    ¬ (broadcastCheckAndUpdate keySigner sampleCall oneMasternode
      (rebroadcast otherKey [2, 2])).TakesOver (rebroadcast otherKey [2, 2]) := by
  have hrefused : broadcastRefused keySigner sampleCall oneMasternode
    (rebroadcast otherKey [2, 2]) = some 33 := rfl
  refine ⟨rebroadcast_signed rfl, ?_, ?_⟩
  · rw [broadcastCheckAndUpdate, hrefused]
  · intro htakes
    rw [broadcastCheckAndUpdate, hrefused] at htakes
    exact absurd htakes.1 Bool.false_ne_true

end Masternodes
end Lytix
