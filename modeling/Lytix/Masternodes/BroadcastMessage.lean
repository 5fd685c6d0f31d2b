import Lytix.Lib.LittleEndian
import Lytix.Net.NetAddress
import Lytix.Primitives.Transaction

/-! Masternode broadcasts, and what is signed of them. -/
namespace Lytix
open Fields

/-- `CPubKey::GetLen`. -/
def CPubKey.getLen (chHeader : UInt8) : Nat :=
  if chHeader == 2 || chHeader == 3 then 33
  else if chHeader == 4 || chHeader == 6 || chHeader == 7 then 65
  else 0

/-- The part of `vch` that `operator==` compares. -/
structure CPubKey where
  header : UInt8
  data : List UInt8
  length_data : data.length = CPubKey.getLen header - 1
deriving DecidableEq

namespace CPubKey

/-- From `begin()` to `end()`. -/
def bytes (key : CPubKey) : List UInt8 :=
  if getLen key.header = 0 then [] else key.header :: key.data

def getID (hash160 : List UInt8 → BitVec 160) (key : CPubKey) : BitVec 160 := hash160 key.bytes

/-- The bytes as characters of a `std::string`. -/
def vchText (key : CPubKey) : List Char := key.bytes.map Char.ofUInt8

end CPubKey

def hexByte (b : UInt8) : List Char := [(b.toNat / 16).digitChar, (b.toNat % 16).digitChar]

/-- `base_uint<BITS>::GetHex`, the highest byte first. -/
def getHex {w : Nat} (x : BitVec w) : List Char :=
  encode hexByte (LittleEndian.bytes (w / 8) x.toNat).reverse

structure CMasternodePing where
  vin : CTxIn
  blockHash : Uint256
  sigTime : Int64
  vchSig : List UInt8

structure CMasternodeBroadcast where
  vin : CTxIn
  addr : CService
  pubKeyCollateralAddress : CPubKey
  pubKeyMasternode : CPubKey
  sig : List UInt8
  sigTime : Int64
  protocolVersion : Int32
  lastPing : CMasternodePing

namespace CMasternodeBroadcast

variable (host : NumericHost) (hash160 : List UInt8 → BitVec 160)

def timeText (mnb : CMasternodeBroadcast) : List Char := mnb.sigTime.toInt.repr.toList

def versionText (mnb : CMasternodeBroadcast) : List Char := mnb.protocolVersion.toInt.repr.toList

def getOldStrMessage (mnb : CMasternodeBroadcast) : List Char :=
  mnb.addr.toString host ++ mnb.timeText ++ mnb.pubKeyCollateralAddress.vchText ++
    mnb.pubKeyMasternode.vchText ++ mnb.versionText

def getNewStrMessage (mnb : CMasternodeBroadcast) : List Char :=
  mnb.addr.toString host ++ mnb.timeText ++ getHex (mnb.pubKeyCollateralAddress.getID hash160) ++
    getHex (mnb.pubKeyMasternode.getID hash160) ++ mnb.versionText

/-- The texts that a signature may be of, in the order they are tried. -/
def strMessages (mnb : CMasternodeBroadcast) : List (List Char) :=
  [mnb.getNewStrMessage host hash160, mnb.getOldStrMessage host]

def verifySignature (verifyMessage : CPubKey → List UInt8 → List Char → Bool)
    (mnb : CMasternodeBroadcast) : Bool :=
  verifyMessage mnb.pubKeyCollateralAddress mnb.sig (mnb.getNewStrMessage host hash160) ||
    verifyMessage mnb.pubKeyCollateralAddress mnb.sig (mnb.getOldStrMessage host)

/-- Two broadcasts that announce the same. -/
def SameContent (mnb mnb' : CMasternodeBroadcast) : Prop :=
  mnb.vin.prevout = mnb'.vin.prevout ∧ mnb.addr = mnb'.addr ∧ mnb.sigTime = mnb'.sigTime ∧
    mnb.pubKeyMasternode = mnb'.pubKeyMasternode ∧ mnb.protocolVersion = mnb'.protocolVersion

end CMasternodeBroadcast

/-! Keys and their identifiers as text. -/

/-- No header byte of a key stands in such a text. -/
def Printed (text : List Char) : Prop := ∀ x ∈ text, 8 ≤ x.toNat

theorem Printed.append {text text' : List Char} (h : Printed text) (h' : Printed text') :
    Printed (text ++ text') := by
  intro x hx
  rcases List.mem_append.mp hx with hmem | hmem
  · exact h x hmem
  · exact h' x hmem

theorem printed_toDigits (n : ℕ) : Printed (Nat.toDigits 10 n) := by
  intro x hx
  obtain ⟨d, hd, rfl⟩ := exists_of_mem_toDigits (by decide) hx
  have hall : ∀ d : Fin 10, 8 ≤ d.val.digitChar.toNat := by decide
  exact hall ⟨d, hd⟩

theorem printed_repr (z : ℤ) : Printed z.repr.toList := by
  cases z with
  | ofNat n =>
    rw [toList_repr_ofNat]
    exact printed_toDigits n
  | negSucc n =>
    rw [toList_repr_negSucc]
    intro x hx
    rcases List.mem_cons.mp hx with rfl | hmem
    · decide
    · exact printed_toDigits _ x hmem

theorem hexByte_injective : Function.Injective hexByte := by
  intro b b' h
  have hb := b.toNat_lt
  have hb' := b'.toNat_lt
  unfold hexByte at h
  simp only [List.cons.injEq, and_true] at h
  have hhigh := digitChar_inj (by omega) (by omega) h.1
  have hlow := digitChar_inj (by omega) (by omega) h.2
  exact UInt8.toNat_inj.mp (by omega)

theorem printed_hexByte (b : UInt8) : Printed (hexByte b) := by
  have hb := b.toNat_lt
  have hall : ∀ d : Fin 16, 8 ≤ d.val.digitChar.toNat := by decide
  intro x hx
  unfold hexByte at hx
  simp only [List.mem_cons, List.not_mem_nil, or_false] at hx
  rcases hx with rfl | rfl
  · exact hall ⟨b.toNat / 16, by omega⟩
  · exact hall ⟨b.toNat % 16, by omega⟩

theorem printed_getHex {w : ℕ} (id : BitVec w) : Printed (getHex id) := by
  intro x hx
  obtain ⟨b, -, hmem⟩ := List.mem_flatMap.mp hx
  exact printed_hexByte b x hmem

theorem length_getHex (id : BitVec 160) : (getHex id).length = 40 := by
  have hlength : ∀ bytes : List UInt8, (encode hexByte bytes).length = bytes.length * 2 := by
    intro bytes
    unfold encode
    rw [List.length_flatMap, ← smul_eq_mul, ← List.sum_replicate, ← List.map_const']
    rfl
  unfold getHex
  rw [hlength, List.length_reverse, LittleEndian.length_bytes]

theorem getHex_injective : Function.Injective (getHex (w := 160)) := by
  intro id id' h
  have hlengths : ∀ bytes : List UInt8,
      bytes.map (fun b => (hexByte b).length) = List.replicate bytes.length 2 := by
    intro bytes
    rw [← List.map_const']
    rfl
  have hbytes := encode_inj_of_lengths hexByte_injective
    (by simp only [hlengths, List.length_reverse, LittleEndian.length_bytes]) h
  have hvalue := congrArg LittleEndian.value (List.reverse_injective hbytes)
  rw [LittleEndian.value_bytes, LittleEndian.value_bytes] at hvalue
  have hbound : ∀ id : BitVec 160, id.toNat % 256 ^ 20 = id.toNat := by
    intro id
    exact Nat.mod_eq_of_lt id.isLt
  rw [hbound, hbound] at hvalue
  exact BitVec.eq_of_toNat_eq hvalue

namespace CPubKey

variable {key key' : CPubKey}

theorem bytes_of_getLen (h : getLen key.header ≠ 0) : key.bytes = key.header :: key.data := by
  unfold bytes
  rw [if_neg h]

theorem header_toNat_lt (h : getLen key.header ≠ 0) : key.header.toNat < 8 := by
  unfold getLen at h
  split_ifs at h with hshort hlong
  · rcases Bool.or_eq_true_iff.mp hshort with htwo | hthree
    · rw [eq_of_beq htwo]
      decide
    · rw [eq_of_beq hthree]
      decide
  · simp only [Bool.or_eq_true, beq_iff_eq] at hlong
    rcases hlong with (hfour | hsix) | hseven
    · rw [hfour]
      decide
    · rw [hsix]
      decide
    · rw [hseven]
      decide
  · contradiction

theorem toNat_ofUInt8 (b : UInt8) : (Char.ofUInt8 b).toNat = b.toNat := rfl

theorem ofUInt8_injective : Function.Injective Char.ofUInt8 := by
  intro b b' h
  have hnat := congrArg Char.toNat h
  rw [toNat_ofUInt8, toNat_ofUInt8] at hnat
  exact UInt8.toNat_inj.mp hnat

theorem vchText_injective (h : key.vchText = key'.vchText) : key.bytes = key'.bytes :=
  List.map_injective_iff.mpr ofUInt8_injective h

/-- A valid key has a header, which no printed text has. -/
theorem vchText_eq_nil {rest text : List Char} (htext : Printed text)
    (h : key.vchText ++ rest = text) : key.vchText = [] := by
  by_cases hlen : getLen key.header = 0
  · unfold vchText bytes
    rw [if_pos hlen, List.map_nil]
  · have hbytes := bytes_of_getLen hlen
    unfold vchText at h
    rw [hbytes, List.map_cons, List.cons_append] at h
    have hprinted := htext (Char.ofUInt8 key.header) (h ▸ List.mem_cons_self)
    rw [toNat_ofUInt8] at hprinted
    have hheader := header_toNat_lt hlen
    omega

theorem vchText_append_inj {rest rest' : List Char} (hrest : Printed rest)
    (hrest' : Printed rest') (h : key.vchText ++ rest = key'.vchText ++ rest') :
    key.bytes = key'.bytes ∧ rest = rest' := by
  suffices htexts : key.vchText = key'.vchText by
    refine ⟨vchText_injective htexts, ?_⟩
    rw [htexts] at h
    exact List.append_cancel_left h
  by_cases hlen : getLen key.header = 0
  · have hnil : key.vchText = [] := by
      unfold vchText bytes
      rw [if_pos hlen, List.map_nil]
    rw [hnil, List.nil_append] at h
    rw [hnil, vchText_eq_nil hrest h.symm]
  by_cases hlen' : getLen key'.header = 0
  · have hnil : key'.vchText = [] := by
      unfold vchText bytes
      rw [if_pos hlen', List.map_nil]
    rw [hnil, List.nil_append] at h
    rw [hnil, vchText_eq_nil hrest' h]
  · have hbytes := bytes_of_getLen hlen
    have hbytes' := bytes_of_getLen hlen'
    unfold vchText at h ⊢
    have hheader : key.header = key'.header := by
      rw [hbytes, hbytes'] at h
      exact ofUInt8_injective (List.cons.inj h).1
    have hlength : key.bytes.length = key'.bytes.length := by
      rw [hbytes, hbytes', List.length_cons, List.length_cons, key.length_data, key'.length_data,
        hheader]
    exact (List.append_inj h (by rw [List.length_map, List.length_map, hlength])).1

end CPubKey

namespace CMasternodeBroadcast

variable {host : NumericHost} {hash160 : List UInt8 → BitVec 160}
  {mnb mnb' : CMasternodeBroadcast} {message : List Char}

theorem verifySignature_iff {verifyMessage : CPubKey → List UInt8 → List Char → Bool} :
    mnb.verifySignature host hash160 verifyMessage = true ↔
      ∃ message ∈ mnb.strMessages host hash160,
        verifyMessage mnb.pubKeyCollateralAddress mnb.sig message = true := by
  unfold verifySignature strMessages
  simp only [Bool.or_eq_true, List.mem_cons, List.not_mem_nil, or_false, exists_eq_or_imp,
    exists_eq_left]

/-- What a text has after the time: two keys or their identifiers, and the version. -/
def keyTexts (hash160 : List UInt8 → BitVec 160) (mnb : CMasternodeBroadcast) :
    List (List Char) :=
  [getHex (mnb.pubKeyCollateralAddress.getID hash160) ++
      getHex (mnb.pubKeyMasternode.getID hash160) ++ mnb.versionText,
    mnb.pubKeyCollateralAddress.vchText ++ mnb.pubKeyMasternode.vchText ++ mnb.versionText]

theorem mem_strMessages : message ∈ mnb.strMessages host hash160 ↔
    ∃ keys ∈ mnb.keyTexts hash160, message = mnb.addr.toString host ++ (mnb.timeText ++ keys) := by
  unfold strMessages keyTexts getNewStrMessage getOldStrMessage
  simp only [List.mem_cons, List.not_mem_nil, or_false, exists_eq_or_imp, exists_eq_left,
    List.append_assoc]

theorem versionText_injective (h : mnb.versionText = mnb'.versionText) :
    mnb.protocolVersion = mnb'.protocolVersion :=
  Int32.toInt_inj.mp (toList_repr_injective h)

theorem printed_versionText : Printed mnb.versionText := printed_repr _

theorem length_versionText_le : mnb.versionText.length ≤ 11 := by
  have hlow := mnb.protocolVersion.le_toInt
  have hhigh := mnb.protocolVersion.toInt_lt
  have hdigits := length_toList_repr_le (z := mnb.protocolVersion.toInt) (k := 10) (by decide)
    (by omega)
  exact hdigits

/-- The new form is too long for an old one without keys, and has no header of a key. -/
theorem keyTexts_ne (mnb mnb' : CMasternodeBroadcast) :
    getHex (mnb.pubKeyCollateralAddress.getID hash160) ++
        getHex (mnb.pubKeyMasternode.getID hash160) ++ mnb.versionText ≠
      mnb'.pubKeyCollateralAddress.vchText ++ mnb'.pubKeyMasternode.vchText ++
        mnb'.versionText := by
  intro h
  have hversion : Printed mnb.versionText := printed_versionText
  have hprinted := ((printed_getHex (mnb.pubKeyCollateralAddress.getID hash160)).append
    (printed_getHex (mnb.pubKeyMasternode.getID hash160))).append hversion
  have hlength := congrArg List.length h
  rw [List.append_assoc] at h
  rw [List.append_assoc (mnb'.pubKeyCollateralAddress.vchText)] at h
  have hfirst := CPubKey.vchText_eq_nil (by rw [List.append_assoc] at hprinted; exact hprinted)
    h.symm
  rw [hfirst, List.nil_append] at h
  have hsecond := CPubKey.vchText_eq_nil
    (by rw [List.append_assoc] at hprinted; exact hprinted) h.symm
  have hshort : mnb'.versionText.length ≤ 11 := length_versionText_le
  simp only [List.length_append, length_getHex, hfirst, hsecond, List.length_nil] at hlength
  omega

theorem keyTexts_inj {keys : List Char}
    (hkey : mnb.pubKeyCollateralAddress = mnb'.pubKeyCollateralAddress)
    (h : keys ∈ mnb.keyTexts hash160) (h' : keys ∈ mnb'.keyTexts hash160) :
    mnb.pubKeyMasternode.getID hash160 = mnb'.pubKeyMasternode.getID hash160 ∧
      mnb.protocolVersion = mnb'.protocolVersion := by
  unfold keyTexts at h h'
  simp only [List.mem_cons, List.not_mem_nil, or_false] at h h'
  rcases h with hnew | hold
  · rcases h' with hnew' | hold'
    · rw [hnew', hkey, List.append_assoc, List.append_assoc] at hnew
      have htail := List.append_cancel_left hnew
      obtain ⟨hid, hversion⟩ := List.append_inj htail (by rw [length_getHex, length_getHex])
      exact ⟨(getHex_injective hid).symm, (versionText_injective hversion).symm⟩
    · exact absurd (hnew.symm.trans hold') (keyTexts_ne mnb mnb')
  · rcases h' with hnew' | hold'
    · exact absurd (hnew'.symm.trans hold) (keyTexts_ne mnb' mnb)
    · rw [hold', hkey, List.append_assoc, List.append_assoc] at hold
      have htail := List.append_cancel_left hold
      obtain ⟨hbytes, hversion⟩ :=
        CPubKey.vchText_append_inj printed_versionText printed_versionText htail
      exact ⟨congrArg hash160 hbytes.symm, (versionText_injective hversion).symm⟩

theorem sameContent_iff (host : NumericHost) (hash160 : List UInt8 → BitVec 160)
    (hkey : mnb.pubKeyCollateralAddress = mnb'.pubKeyCollateralAddress)
    (h : message ∈ mnb.strMessages host hash160) (h' : message ∈ mnb'.strMessages host hash160) :
    mnb.SameContent mnb' ↔
      mnb.vin.prevout = mnb'.vin.prevout ∧
        mnb.addr.toStringPort.length = mnb'.addr.toStringPort.length ∧
        mnb.timeText.length = mnb'.timeText.length ∧
        (mnb.pubKeyMasternode.getID hash160 = mnb'.pubKeyMasternode.getID hash160 →
          mnb.pubKeyMasternode = mnb'.pubKeyMasternode) := by
  constructor
  · rintro ⟨hprevout, haddr, htime, hmasternode, -⟩
    unfold timeText
    rw [haddr, htime]
    exact ⟨hprevout, rfl, rfl, fun _ => hmasternode⟩
  · rintro ⟨hprevout, hport, htime, hmasternode⟩
    obtain ⟨keys, hkeys, hmessage⟩ := mem_strMessages.mp h
    obtain ⟨keys', hkeys', hmessage'⟩ := mem_strMessages.mp h'
    obtain ⟨haddr, hrest⟩ := CService.toString_append_inj (hmessage.symm.trans hmessage')
    obtain ⟨hports, hafter⟩ := List.append_inj hrest hport
    obtain ⟨htimes, hsame⟩ := List.append_inj hafter htime
    rw [← hsame] at hkeys'
    obtain ⟨hid, hversion⟩ := keyTexts_inj hkey hkeys hkeys'
    refine ⟨hprevout, ?_, Int64.toInt_inj.mp (toList_repr_injective htimes), hmasternode hid,
      hversion⟩
    exact CService.eq_of_toNat_port haddr (toDigits_injective hports)

/-! Two collaterals of one key, announced with one signature. -/

def numericHost : NumericHost where
  getnameinfo := fun _ => none
  faithful := fun _ _ _ _ h => absurd h (by simp)
  dotted := fun _ _ _ h => absurd h (by simp)
  unbracketed := fun _ _ _ h => absurd h (by simp)

def collateralKey : CPubKey := ⟨2, List.replicate 32 1, by decide⟩

def masternodeKey : CPubKey := ⟨3, List.replicate 32 1, by decide⟩

def announced (n : Nat) : CMasternodeBroadcast where
  vin := ⟨⟨7, n⟩, [], 0xffffffff⟩
  addr := ⟨⟨[0, 0, 0, 0, 0, 0, 0, 0, 0, 0, 0xff, 0xff, 8, 8, 8, 8], rfl⟩, 27071⟩
  pubKeyCollateralAddress := collateralKey
  pubKeyMasternode := masternodeKey
  sig := []
  sigTime := 1550000000
  protocolVersion := 70915
  lastPing := ⟨⟨⟨7, n⟩, [], 0xffffffff⟩, 3, 1550000600, []⟩

theorem strMessages_announced (n : Nat) :
    (announced n).strMessages host hash160 = (announced 0).strMessages host hash160 := rfl

theorem sameContent_iff_announced :
    (announced 0).SameContent (announced 0) ↔
      (announced 0).vin.prevout = (announced 0).vin.prevout ∧
        (announced 0).addr.toStringPort.length = (announced 0).addr.toStringPort.length ∧
        (announced 0).timeText.length = (announced 0).timeText.length ∧
        ((announced 0).pubKeyMasternode.getID (fun _ => 0) =
          (announced 0).pubKeyMasternode.getID (fun _ => 0) →
            (announced 0).pubKeyMasternode = (announced 0).pubKeyMasternode) :=
  sameContent_iff numericHost (fun _ => 0) rfl List.mem_cons_self List.mem_cons_self

theorem not_sameContent_announced :
    (announced 0).pubKeyCollateralAddress = (announced 1).pubKeyCollateralAddress ∧
      (∃ message ∈ (announced 0).strMessages numericHost (fun _ => 0),
        message ∈ (announced 1).strMessages numericHost (fun _ => 0)) ∧
      (∀ verifyMessage, (announced 0).verifySignature numericHost (fun _ => 0) verifyMessage =
        (announced 1).verifySignature numericHost (fun _ => 0) verifyMessage) ∧
      ¬ (announced 0).SameContent (announced 1) := by
  refine ⟨rfl, ⟨_, List.mem_cons_self, ?_⟩, fun _ => rfl, ?_⟩
  · rw [strMessages_announced 1]
    exact List.mem_cons_self
  · intro h
    have hprevout : (announced 0).vin.prevout = (announced 1).vin.prevout := h.1
    exact absurd hprevout (by decide)

end CMasternodeBroadcast
end Lytix
