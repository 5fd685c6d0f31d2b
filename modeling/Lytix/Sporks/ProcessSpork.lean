import Lytix.Lib.Fields
import Lytix.Lib.LatestWins
import Lytix.Lib.Runs
import Lytix.Params.ChainParams

/-! Spork messages, what is signed of them, and how a node takes them over. -/
namespace Lytix

structure CSporkMessage where
  vchSig : List UInt8
  nSporkID : Int
  nValue : Int
  nTimeSigned : Int
deriving DecidableEq, Repr

/-- The numbers in decimal, one after another. -/
def CSporkMessage.strMessage (spork : CSporkMessage) : String :=
  spork.nSporkID.repr ++ spork.nValue.repr ++ spork.nTimeSigned.repr

/-- `Params().SporkKey()` and `Params().SporkKeyOld()`. -/
inductive SporkSigner where
  | SporkKey
  | SporkKeyOld
deriving DecidableEq, Repr

/-- `obfuScationSigner.VerifyMessage`, the hash of a message, and the times of the change of keys. -/
structure SporkEnv where
  verifyMessage : SporkSigner → List UInt8 → String → Bool
  getHash : CSporkMessage → Uint256
  newSporkStart : Int
  rejectOldSporkKey : Int

def SporkEnv.checkSignature (env : SporkEnv) (adjustedTime : Int) (spork : CSporkMessage)
    (fCheckSigner : Bool) : Bool :=
  let fValidWithNewKey := env.verifyMessage .SporkKey spork.vchSig spork.strMessage
  if fCheckSigner && !fValidWithNewKey then false
  -- the window that allows for the old spork key
  else if !fValidWithNewKey && decide (adjustedTime < env.rejectOldSporkKey) then
    env.verifyMessage .SporkKeyOld spork.vchSig spork.strMessage
  else fValidWithNewKey

/-- Two messages that say the same. -/
def CSporkMessage.SameContent (spork spork' : CSporkMessage) : Prop :=
  spork.nSporkID = spork'.nSporkID ∧ spork.nValue = spork'.nValue ∧
    spork.nTimeSigned = spork'.nTimeSigned

section binding
variable {spork spork' : CSporkMessage}

open Fields

theorem toList_strMessage : spork.strMessage.toList =
    encode (fun z : ℤ => z.repr.toList) [spork.nSporkID, spork.nValue, spork.nTimeSigned] := by
  unfold CSporkMessage.strMessage
  rw [String.toList_append, String.toList_append]
  simp only [encode_cons, encode_nil, List.append_nil, List.append_assoc]

theorem sameContent_iff_lengths (h : spork.strMessage = spork'.strMessage) :
    spork.SameContent spork' ↔
      spork.nSporkID.repr.length = spork'.nSporkID.repr.length ∧
        spork.nValue.repr.length = spork'.nValue.repr.length := by
  have htext := congrArg String.toList h
  rw [toList_strMessage, toList_strMessage] at htext
  have hfields := eq_iff_lengths toList_repr_injective htext
  have htotal := congrArg List.length htext
  simp only [encode_cons, encode_nil, List.append_nil, List.length_append,
    String.length_toList] at htotal
  simp only [List.map_cons, List.map_nil, List.cons.injEq, and_true, String.length_toList] at hfields
  unfold CSporkMessage.SameContent
  rw [hfields]
  constructor
  · rintro ⟨hid, hvalue, -⟩
    exact ⟨hid, hvalue⟩
  · rintro ⟨hid, hvalue⟩
    refine ⟨hid, hvalue, ?_⟩
    omega

theorem checkSignature_congr {env : SporkEnv} {adjustedTime : Int} {vchSig : List UInt8}
    {fCheckSigner : Bool} (h : spork.strMessage = spork'.strMessage) :
    env.checkSignature adjustedTime { spork with vchSig := vchSig } fCheckSigner =
      env.checkSignature adjustedTime { spork' with vchSig := vchSig } fCheckSigner := by
  have htext : CSporkMessage.strMessage { spork with vchSig := vchSig } =
      CSporkMessage.strMessage { spork' with vchSig := vchSig } := h
  unfold SporkEnv.checkSignature
  rw [htext]

end binding

/-- One signature is good for both of two messages with one signed text, and they say the same
exactly when their ids are equally long in decimal and their values are. -/
theorem strMessage_binds_iff (spork spork' : CSporkMessage)
    (h : spork.strMessage = spork'.strMessage) :
    (∀ (env : SporkEnv) (adjustedTime : Int) (vchSig : List UInt8) (fCheckSigner : Bool),
      env.checkSignature adjustedTime { spork with vchSig := vchSig } fCheckSigner =
        env.checkSignature adjustedTime { spork' with vchSig := vchSig } fCheckSigner) ∧
    (spork.SameContent spork' ↔
      spork.nSporkID.repr.length = spork'.nSporkID.repr.length ∧
        spork.nValue.repr.length = spork'.nValue.repr.length) := by
  constructor
  · intro env adjustedTime vchSig fCheckSigner
    exact checkSignature_congr h
  · exact sameContent_iff_lengths h

/-- Payment enforcement set to a time of the year 2098. -/
def sampleSpork : CSporkMessage := ⟨[1], 10007, 4070908799, 1546731877⟩

/-- The last digit of the value moved into the time: enforcement since 1982. -/
def shiftedSpork : CSporkMessage := ⟨[1], 10007, 407090879, 91546731877⟩

theorem not_strMessage_binds_shifted :
    ¬ ∀ spork spork' : CSporkMessage, spork.strMessage = spork'.strMessage →
      spork.SameContent spork' := by
  intro hbinds
  have hsame := hbinds sampleSpork shiftedSpork (by decide)
  exact absurd hsame.2.1 (by decide)

theorem strMessage_binds_iff_shifted : sampleSpork.SameContent shiftedSpork ↔
    sampleSpork.nSporkID.repr.length = shiftedSpork.nSporkID.repr.length ∧
      sampleSpork.nValue.repr.length = shiftedSpork.nValue.repr.length :=
  (strMessage_binds_iff sampleSpork shiftedSpork (by decide)).2

end Lytix

/-! The tables of spork messages over the messages a node receives and those it signs itself. -/
namespace Lytix

def Spork.id : Spork → Int
  | .SPORK_2_SWIFTTX => 10001
  | .SPORK_3_SWIFTTX_BLOCK_FILTERING => 10002
  | .SPORK_5_MAX_VALUE => 10004
  | .SPORK_7_MASTERNODE_SCANNING => 10006
  | .SPORK_8_MASTERNODE_PAYMENT_ENFORCEMENT => 10007
  | .SPORK_9_MASTERNODE_BUDGET_ENFORCEMENT => 10008
  | .SPORK_10_MASTERNODE_PAY_UPDATED_NODES => 10009
  | .SPORK_13_ENABLE_SUPERBLOCKS => 10012
  | .SPORK_14_NEW_PROTOCOL_ENFORCEMENT => 10013
  | .SPORK_15_NEW_PROTOCOL_ENFORCEMENT_2 => 10014
  | .SPORK_16_ZEROCOIN_MAINTENANCE_MODE => 10015
  | .SPORK_17_NEW_PROTOCOL_ENFORCEMENT_3 => 10016
  | .SPORK_18_MASTERNODE_REWARDS_CHANGE => 10017
  | .SPORK_19_MAXNODE_ACTIVATION => 10018
  | .SPORK_20_DEVFEE => 10019

/-- The sporks in the order in which `GetSporkNameByID` tries them. -/
def Spork.all : List Spork :=
  [.SPORK_2_SWIFTTX, .SPORK_3_SWIFTTX_BLOCK_FILTERING, .SPORK_5_MAX_VALUE,
    .SPORK_7_MASTERNODE_SCANNING, .SPORK_8_MASTERNODE_PAYMENT_ENFORCEMENT,
    .SPORK_9_MASTERNODE_BUDGET_ENFORCEMENT, .SPORK_10_MASTERNODE_PAY_UPDATED_NODES,
    .SPORK_13_ENABLE_SUPERBLOCKS, .SPORK_14_NEW_PROTOCOL_ENFORCEMENT,
    .SPORK_15_NEW_PROTOCOL_ENFORCEMENT_2, .SPORK_16_ZEROCOIN_MAINTENANCE_MODE,
    .SPORK_17_NEW_PROTOCOL_ENFORCEMENT_3, .SPORK_18_MASTERNODE_REWARDS_CHANGE,
    .SPORK_19_MAXNODE_ACTIVATION, .SPORK_20_DEVFEE]

/-- `GetSporkNameByID`, where `none` is the name `Unknown`. -/
def getSporkByID (id : Int) : Option Spork := Spork.all.find? fun spork => spork.id = id

/-- `mapSporks`, `mapSporksActive` and the database. -/
structure SporkTables where
  mapSporks : Uint256 → Option CSporkMessage := fun _ => none
  mapSporksActive : Int → Option CSporkMessage := fun _ => none
  sporkDB : Int → Option CSporkMessage := fun _ => none

/-- Whether there is a tip, and `GetAdjustedTime()`. -/
structure SporkContext where
  hasTip : Bool
  adjustedTime : Int

namespace SporkTables

variable (env : SporkEnv) (tables : SporkTables)

/-- Messages signed since the change of keys need the new key, others may have the old one. -/
def signatureAccepted (ctx : SporkContext) (spork : CSporkMessage) : Bool :=
  (decide (spork.nTimeSigned < env.newSporkStart) ||
      env.checkSignature ctx.adjustedTime spork true) &&
    env.checkSignature ctx.adjustedTime spork false

/-- `ProcessSpork` on the message `spork`. -/
def processSpork (ctx : SporkContext) (spork : CSporkMessage) : SporkTables :=
  if ctx.hasTip = false then tables
  else if getSporkByID spork.nSporkID = none then tables
  else if (tables.mapSporksActive spork.nSporkID).any
      (fun active => decide (spork.nTimeSigned ≤ active.nTimeSigned)) then tables
  else if signatureAccepted env ctx spork = false then tables
  else
    { mapSporks := Function.update tables.mapSporks (env.getHash spork) (some spork)
      mapSporksActive := Function.update tables.mapSporksActive spork.nSporkID (some spork)
      sporkDB := Function.update tables.sporkDB spork.nSporkID (some spork) }

/-- `UpdateSpork` at `GetTime()`, with the signature that `Sign` makes if it succeeds. -/
def updateSpork (nSporkID nValue now : Int) (signed : Option (List UInt8)) : SporkTables :=
  match signed with
  | none => tables
  | some vchSig =>
    let msg : CSporkMessage := ⟨vchSig, nSporkID, nValue, now⟩
    { tables with
      mapSporks := Function.update tables.mapSporks (env.getHash msg) (some msg)
      mapSporksActive := Function.update tables.mapSporksActive nSporkID (some msg) }

/-- The values the consensus rules read. -/
def sporks (now : Int) : Sporks where
  mapSporksActive := fun spork => (tables.mapSporksActive spork.id).map CSporkMessage.nValue
  now := now

end SporkTables

/-- The messages received one after another. -/
def receiveSporks (env : SporkEnv) (tables : SporkTables)
    (deliveries : List (SporkContext × CSporkMessage)) : SporkTables :=
  Runs.run (fun tables d => tables.processSpork env d.1 d.2) tables deliveries

/-- The messages in some order, each to a node that has a tip and accepts its signature. -/
def SporkDelivery (env : SporkEnv) (sporks : List CSporkMessage)
    (deliveries : List (SporkContext × CSporkMessage)) : Prop :=
  (deliveries.map Prod.snd).Perm sporks ∧ ∀ d ∈ deliveries,
    d.1.hasTip = true ∧ SporkTables.signatureAccepted env d.1 d.2 = true

/-- Every order leaves the same active messages. -/
def SporksConverge (env : SporkEnv) (tables : SporkTables) (sporks : List CSporkMessage) : Prop :=
  ∀ deliveries deliveries', SporkDelivery env sporks deliveries →
    SporkDelivery env sporks deliveries' →
      (receiveSporks env tables deliveries).mapSporksActive =
        (receiveSporks env tables deliveries').mapSporksActive

/-- For every known id, one message only has the latest time, if that is later than the active one. -/
def UniqueLatest (tables : SporkTables) (sporks : List CSporkMessage) : Prop :=
  ∀ spork ∈ sporks, getSporkByID spork.nSporkID ≠ none →
    (∀ active ∈ tables.mapSporksActive spork.nSporkID, active.nTimeSigned < spork.nTimeSigned) →
    (∀ other ∈ sporks, other.nSporkID = spork.nSporkID → other.nTimeSigned ≤ spork.nTimeSigned) →
    ∀ other ∈ sporks, other.nSporkID = spork.nSporkID → other.nTimeSigned = spork.nTimeSigned →
      other = spork

/-- What happens to the tables: a message is received, or the node signs one. -/
inductive SporkEvent where
  | received (ctx : SporkContext) (spork : CSporkMessage)
  | signed (nSporkID nValue now : Int) (vchSig : Option (List UInt8))

def SporkTables.step (env : SporkEnv) (tables : SporkTables) : SporkEvent → SporkTables
  | .received ctx spork => tables.processSpork env ctx spork
  | .signed nSporkID nValue now vchSig => tables.updateSpork env nSporkID nValue now vchSig

/-- The node does not sign with a clock behind the active message. -/
def SporkEvent.ClockNotBehind (tables : SporkTables) : SporkEvent → Prop
  | .received _ _ => True
  | .signed nSporkID _ now _ =>
    ∀ active ∈ tables.mapSporksActive nSporkID, active.nTimeSigned ≤ now

section converge
variable {env : SporkEnv} {tables : SporkTables} {ctx : SporkContext} {spork : CSporkMessage}
  {sporks : List CSporkMessage} {deliveries : List (SporkContext × CSporkMessage)}

open LatestWins

/-- A message about a known spork. -/
def CSporkMessage.known (spork : CSporkMessage) : Bool := (getSporkByID spork.nSporkID).isSome

/-- A message whose signature is accepted is stored as the registers of the latest messages do it. -/
theorem mapSporksActive_processSpork (htip : ctx.hasTip = true)
    (haccepted : SporkTables.signatureAccepted env ctx spork = true) :
    (tables.processSpork env ctx spork).mapSporksActive =
      if spork.known then put CSporkMessage.nSporkID CSporkMessage.nTimeSigned 1
        tables.mapSporksActive spork else tables.mapSporksActive := by
  unfold SporkTables.processSpork CSporkMessage.known
  rw [htip, haccepted, if_neg Bool.noConfusion]
  cases hknown : getSporkByID spork.nSporkID with
  | none => rfl
  | some s =>
    rw [if_neg (Option.some_ne_none s), Option.isSome_some, if_pos rfl]
    unfold put
    cases hactive : tables.mapSporksActive spork.nSporkID with
    | none =>
      rw [keep_of_admits admits_none]
      rfl
    | some active =>
      rw [Option.any_some]
      by_cases hlater : spork.nTimeSigned ≤ active.nTimeSigned
      · have hnot : ¬ Admits CSporkMessage.nTimeSigned 1 (some active) spork := by
          rw [admits_some]
          omega
        rw [if_pos (decide_eq_true hlater), keep_of_not_admits hnot, ← hactive,
          Function.update_eq_self]
      · have hadmits : Admits CSporkMessage.nTimeSigned 1 (some active) spork := by
          rw [admits_some]
          omega
        rw [if_neg (by simpa using hlater), keep_of_admits hadmits]
        rfl

theorem mapSporksActive_receiveSporks (hok : ∀ d ∈ deliveries,
      d.1.hasTip = true ∧ SporkTables.signatureAccepted env d.1 d.2 = true) :
    (receiveSporks env tables deliveries).mapSporksActive =
      deliver CSporkMessage.nSporkID CSporkMessage.nTimeSigned 1 tables.mapSporksActive
        ((deliveries.map Prod.snd).filter CSporkMessage.known) := by
  induction deliveries generalizing tables with
  | nil => rfl
  | cons d deliveries ih =>
    obtain ⟨htip, haccepted⟩ := hok d List.mem_cons_self
    have hrest : ∀ d' ∈ deliveries, d'.1.hasTip = true ∧
        SporkTables.signatureAccepted env d'.1 d'.2 = true :=
      fun d' hd' => hok d' (List.mem_cons_of_mem d hd')
    have hstep : receiveSporks env tables (d :: deliveries) =
        receiveSporks env (tables.processSpork env d.1 d.2) deliveries := rfl
    rw [hstep, ih hrest, mapSporksActive_processSpork htip haccepted, List.map_cons]
    by_cases hknown : d.2.known = true
    · rw [if_pos hknown, List.filter_cons_of_pos hknown]
      rfl
    · rw [if_neg hknown, List.filter_cons_of_neg hknown]

/-- In terms of registers: the known messages of each id settle. -/
theorem uniqueLatest_iff : UniqueLatest tables sporks ↔
    ∀ k, Settled CSporkMessage.nTimeSigned 1 (tables.mapSporksActive k)
      ((sporks.filter CSporkMessage.known).filter fun spork => spork.nSporkID = k) := by
  have hmem : ∀ k spork, spork ∈ ((sporks.filter CSporkMessage.known).filter
      fun spork => spork.nSporkID = k) ↔
        spork ∈ sporks ∧ getSporkByID spork.nSporkID ≠ none ∧ spork.nSporkID = k := by
    intro k spork
    rw [List.mem_filter, List.mem_filter, and_assoc]
    simp [CSporkMessage.known, Option.isSome_iff_ne_none]
  constructor
  · intro hunique k
    rw [settled_one_iff]
    intro m hm hadmits hmax b hb hsame
    obtain ⟨hin, hknown, rfl⟩ := (hmem k m).mp hm
    obtain ⟨hbin, -, hid⟩ := (hmem _ b).mp hb
    apply hunique m hin hknown _ _ b hbin hid hsame
    · intro active hactive
      have hlater := hadmits active hactive
      omega
    · intro other hother hoid
      apply hmax other
      rw [hmem, hoid]
      exact ⟨hother, hknown, rfl⟩
  · intro hsettled m hin hknown hlater hmax b hbin hid hsame
    have hsettled := hsettled m.nSporkID
    rw [settled_one_iff] at hsettled
    apply hsettled m ((hmem _ m).mpr ⟨hin, hknown, rfl⟩) _ _ b _ hsame
    · intro active hactive
      have hless := hlater active hactive
      omega
    · intro other hother
      obtain ⟨hoin, -, hoid⟩ := (hmem _ other).mp hother
      exact hmax other hoin hoid
    · rw [hmem, hid]
      exact ⟨hbin, hknown, rfl⟩

/-- The orders agree exactly when no two messages share the latest time of an id. -/
theorem sporksConverge_iff
    (hvalid : ∀ spork ∈ sporks, ∃ ctx : SporkContext, ctx.hasTip = true ∧
      SporkTables.signatureAccepted env ctx spork = true) :
    SporksConverge env tables sporks ↔ UniqueLatest tables sporks := by
  rw [uniqueLatest_iff, ← deliver_perm_iff Int.zero_lt_one]
  constructor
  · intro hconverge order horder
    -- every order of the known messages is the order of a delivery, the others come last
    have hctx : ∀ spork, ∃ ctx : SporkContext, spork ∈ sporks → ctx.hasTip = true ∧
        SporkTables.signatureAccepted env ctx spork = true := by
      intro spork
      by_cases hspork : spork ∈ sporks
      · obtain ⟨ctx, hctx⟩ := hvalid spork hspork
        exact ⟨ctx, fun _ => hctx⟩
      · exact ⟨⟨true, 0⟩, fun h => absurd h hspork⟩
    choose ctxOf hctxOf using hctx
    have hdelivery : ∀ all : List CSporkMessage, all.Perm sporks →
        SporkDelivery env sporks (all.map fun spork => (ctxOf spork, spork)) := by
      intro all hall
      constructor
      · simpa [Function.comp_def] using hall
      · intro d hd
        obtain ⟨spork, hspork, rfl⟩ := List.mem_map.mp hd
        exact hctxOf spork (hall.mem_iff.mp hspork)
    have hall : (order ++ sporks.filter fun spork => !spork.known).Perm sporks :=
      (horder.append_right _).trans (List.filter_append_perm _ _)
    have hknown : (order ++ sporks.filter fun spork => !spork.known).filter CSporkMessage.known =
        order := by
      rw [List.filter_append, List.filter_filter]
      have horderKnown : order.filter CSporkMessage.known = order := by
        apply List.filter_eq_self.mpr
        intro spork hspork
        exact (List.mem_filter.mp (horder.mem_iff.mp hspork)).2
      rw [horderKnown]
      simp
    have heq := hconverge _ _ (hdelivery _ hall) (hdelivery sporks (List.Perm.refl sporks))
    rw [mapSporksActive_receiveSporks (hdelivery _ hall).2,
      mapSporksActive_receiveSporks (hdelivery sporks (List.Perm.refl sporks)).2] at heq
    simpa only [List.map_map, Function.comp_def, List.map_id', hknown] using heq
  · intro hsame deliveries deliveries' hd hd'
    rw [mapSporksActive_receiveSporks hd.2, mapSporksActive_receiveSporks hd'.2]
    exact (hsame _ (hd.1.filter _)).trans (hsame _ (hd'.1.filter _)).symm

end converge

/-- The active message of an id has at least the time `t`. -/
def SporkTables.SignedSince (tables : SporkTables) (id t : Int) : Prop :=
  ∃ active, tables.mapSporksActive id = some active ∧ t ≤ active.nTimeSigned

section monotone
variable {env : SporkEnv} {tables : SporkTables} {events : List SporkEvent} {id t : Int}

theorem SporkTables.SignedSince.processSpork {ctx : SporkContext} {spork : CSporkMessage}
    (h : tables.SignedSince id t) : (tables.processSpork env ctx spork).SignedSince id t := by
  obtain ⟨active, hactive, ht⟩ := h
  have hsame : tables.SignedSince id t := ⟨active, hactive, ht⟩
  unfold SporkTables.processSpork
  split_ifs with htip hknown hseen haccepted
  · exact hsame
  · exact hsame
  · exact hsame
  · exact hsame
  · by_cases hid : id = spork.nSporkID
    · subst hid
      refine ⟨spork, Function.update_self .., ?_⟩
      rw [hactive, Option.any_some, decide_eq_true_eq] at hseen
      omega
    · refine ⟨active, ?_, ht⟩
      show Function.update tables.mapSporksActive spork.nSporkID (some spork) id = some active
      rw [Function.update_of_ne hid, hactive]

theorem SporkTables.SignedSince.updateSpork {nSporkID nValue now : Int}
    {signed : Option (List UInt8)} (h : tables.SignedSince id t)
    (hclock : ∀ active ∈ tables.mapSporksActive nSporkID, active.nTimeSigned ≤ now) :
    (tables.updateSpork env nSporkID nValue now signed).SignedSince id t := by
  unfold SporkTables.updateSpork
  cases signed with
  | none => exact h
  | some vchSig =>
    obtain ⟨active, hactive, ht⟩ := h
    by_cases hid : id = nSporkID
    · subst hid
      refine ⟨⟨vchSig, id, nValue, now⟩, Function.update_self .., ?_⟩
      exact ht.trans (hclock active hactive)
    · refine ⟨active, ?_, ht⟩
      show Function.update tables.mapSporksActive nSporkID _ id = some active
      rw [Function.update_of_ne hid, hactive]

theorem SporkTables.SignedSince.run (h : tables.SignedSince id t)
    (along : Runs.Along (SporkTables.step env) (fun tables event => event.ClockNotBehind tables)
      tables events) :
    (Runs.run (SporkTables.step env) tables events).SignedSince id t := by
  apply @Runs.Along.invariant _ _ _ _ (fun tables => tables.SignedSince id t) _ _ along h
  intro tables event h hok
  cases event with
  | received ctx spork => exact h.processSpork
  | signed nSporkID nValue now vchSig => exact h.updateSpork hok

end monotone

/-- Validly signed messages leave the same active messages in every order exactly when one only has
the latest time of its id, and the time of an active message never decreases while the node does
not sign with a clock behind it. -/
theorem processSpork_converges (env : SporkEnv) (tables : SporkTables) (sporks : List CSporkMessage)
    (hvalid : ∀ spork ∈ sporks, ∃ ctx : SporkContext, ctx.hasTip = true ∧
      SporkTables.signatureAccepted env ctx spork = true) :
    (SporksConverge env tables sporks ↔ UniqueLatest tables sporks) ∧
    ∀ events, Runs.Along (SporkTables.step env) (fun tables event => event.ClockNotBehind tables)
        tables events →
      ∀ id active, tables.mapSporksActive id = some active →
        ∃ active', (Runs.run (SporkTables.step env) tables events).mapSporksActive id = some active' ∧
          active.nTimeSigned ≤ active'.nTimeSigned := by
  constructor
  · exact sporksConverge_iff hvalid
  · intro events along id active hactive
    have hsince : tables.SignedSince id active.nTimeSigned := ⟨active, hactive, le_rfl⟩
    exact hsince.run along

/-! Two messages signed in one second. -/

def sampleSporkEnv : SporkEnv where
  verifyMessage := fun _ _ _ => true
  getHash := fun spork => BitVec.ofInt 256 (spork.nSporkID + spork.nValue + spork.nTimeSigned)
  newSporkStart := 1544199012
  rejectOldSporkKey := 1544199012

/-- Payment enforcement switched on in the second in which it was switched off. -/
def sameSecondSpork : CSporkMessage := ⟨[1], 10007, 1546731877, 1546731877⟩

theorem not_sporksConverge_same_second :
    ¬ (∀ (tables : SporkTables) (sporks : List CSporkMessage),
      (∀ spork ∈ sporks, ∃ ctx : SporkContext, ctx.hasTip = true ∧
        SporkTables.signatureAccepted sampleSporkEnv ctx spork = true) →
      SporksConverge sampleSporkEnv tables sporks) ∧
    ¬ (∀ (tables : SporkTables) (events : List SporkEvent) (id : Int) (active : CSporkMessage),
      tables.mapSporksActive id = some active →
        ∃ active', (Runs.run (SporkTables.step sampleSporkEnv) tables events).mapSporksActive id =
          some active' ∧ active.nTimeSigned ≤ active'.nTimeSigned) := by
  constructor
  · intro hconverge
    have hctx : SporkTables.signatureAccepted sampleSporkEnv ⟨true, 1600000000⟩ sampleSpork = true ∧
        SporkTables.signatureAccepted sampleSporkEnv ⟨true, 1600000000⟩ sameSecondSpork = true := by
      decide
    have hsame := hconverge {} [sampleSpork, sameSecondSpork] (by
      intro spork hspork
      refine ⟨⟨true, 1600000000⟩, rfl, ?_⟩
      rcases List.mem_pair.mp hspork with rfl | rfl
      · exact hctx.1
      · exact hctx.2)
      [(⟨true, 1600000000⟩, sampleSpork), (⟨true, 1600000000⟩, sameSecondSpork)]
      [(⟨true, 1600000000⟩, sameSecondSpork), (⟨true, 1600000000⟩, sampleSpork)]
      ⟨List.Perm.refl _, by simp [hctx]⟩ ⟨List.Perm.swap _ _ _, by simp [hctx]⟩
    exact absurd (congrFun hsame 10007) (by decide)
  · intro hmonotone
    obtain ⟨active', hactive, hlater⟩ := hmonotone
      { mapSporksActive := fun id => if id = 10007 then some sampleSpork else none }
      [.signed 10007 0 1500000000 (some [])] 10007 sampleSpork rfl
    have hmsg : active' = ⟨[], 10007, 0, 1500000000⟩ := (Option.some.inj hactive).symm
    rw [hmsg] at hlater
    exact absurd hlater (by decide)

theorem sporksConverge_sample : SporksConverge sampleSporkEnv {} [sampleSpork, shiftedSpork] := by
  apply (processSpork_converges sampleSporkEnv {} [sampleSpork, shiftedSpork] _).1.mpr
  · intro spork hspork _ _ hmax other hother _ hsame
    rcases List.mem_pair.mp hspork with rfl | rfl
    · exact absurd (hmax shiftedSpork (by simp) rfl) (by decide)
    · rcases List.mem_pair.mp hother with rfl | rfl
      · exact absurd hsame (by decide)
      · rfl
  · intro spork hspork
    refine ⟨⟨true, 1600000000⟩, rfl, ?_⟩
    rcases List.mem_pair.mp hspork with rfl | rfl
    · decide
    · decide

end Lytix
