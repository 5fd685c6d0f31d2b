import Lytix.Coins.DiskFormat
import Lytix.Kernel.StakeInput
import Lytix.Lib.LittleEndian

/-! Entries of the block index as records on disk. Which fields a record holds depends on the
status bits, on the kind of the block and on the version of its header. -/
namespace Lytix.DiskIndex

open Readers

/-- An outpoint, with the 32 bits of its number. -/
structure COutPoint where
  hash : Uint256
  n : UInt32
deriving DecidableEq

def COutPoint.null : COutPoint := ⟨0, 0xffffffff⟩

/-- A map with denominations as its keys. -/
abbrev SupplyMap := CoinDenomination → Option Int64

/-- The supply of an entry that is new: nothing of each denomination. -/
def SupplyMap.zero : SupplyMap := fun denom => if denom ∈ zerocoinDenomList then some 0 else none

def BLOCK_HAVE_DATA : UInt32 := 8
def BLOCK_HAVE_UNDO : UInt32 := 16
def BLOCK_PROOF_OF_STAKE : UInt32 := 1

/-- An entry with all that a record can hold of it. Its predecessor stands for itself by its
hash. -/
@[ext]
structure CBlockIndex where
  pprev : Option Uint256 := none
  nHeight : Int32 := 0
  nFile : Int32 := 0
  nDataPos : UInt32 := 0
  nUndoPos : UInt32 := 0
  nTx : UInt32 := 0
  nStatus : UInt32 := 0
  nFlags : UInt32 := 0
  nStakeModifier : UInt64 := 0
  prevoutStake : COutPoint := .null
  nStakeTime : UInt32 := 0
  hashProofOfStake : Uint256 := 0
  nMint : Int64 := 0
  nMoneySupply : Int64 := 0
  nVersion : Int32 := 0
  hashMerkleRoot : Uint256 := 0
  nTime : UInt32 := 0
  nBits : UInt32 := 0
  nNonce : UInt32 := 0
  nAccumulatorCheckpoint : Uint256 := 0
  mapZerocoinSupply : SupplyMap := .zero
  vMintDenominationsInBlock : List CoinDenomination := []

structure CBlockHeader where
  nVersion : Int32
  hashPrevBlock : Uint256
  hashMerkleRoot : Uint256
  nTime : UInt32
  nBits : UInt32
  nNonce : UInt32
  nAccumulatorCheckpoint : Uint256

/-- The two hashes of the bytes of a header. -/
structure HeaderHashes where
  hashQuark : List UInt8 → Uint256
  hash : List UInt8 → Uint256

namespace CBlockHeader

/-- From `nVersion` to `nNonce`, as they lie in memory. -/
def bytes (block : CBlockHeader) : List UInt8 :=
  leBytes 4 block.nVersion.toUInt32.toNat ++ leBytes 32 block.hashPrevBlock.toNat ++
    leBytes 32 block.hashMerkleRoot.toNat ++ leBytes 4 block.nTime.toNat ++
    leBytes 4 block.nBits.toNat ++ leBytes 4 block.nNonce.toNat

def getHash (hashes : HeaderHashes) (block : CBlockHeader) : Uint256 :=
  if block.nVersion < 4 then hashes.hashQuark block.bytes
  else hashes.hash (block.bytes ++ leBytes 32 block.nAccumulatorCheckpoint.toNat)

end CBlockHeader

namespace CBlockIndex

/-- The constructor for a new block. -/
def ofBlock (block : CBlockHeader) (fProofOfStake : Bool) (prevout : COutPoint) : CBlockIndex where
  nVersion := block.nVersion
  hashMerkleRoot := block.hashMerkleRoot
  nTime := block.nTime
  nBits := block.nBits
  nNonce := block.nNonce
  nAccumulatorCheckpoint := if 3 < block.nVersion then block.nAccumulatorCheckpoint else 0
  nFlags := if fProofOfStake then BLOCK_PROOF_OF_STAKE else 0
  prevoutStake := if fProofOfStake then prevout else .null
  nStakeTime := if fProofOfStake then block.nTime else 0

variable (pindex : CBlockIndex)

def isProofOfStake : Bool := pindex.nFlags &&& BLOCK_PROOF_OF_STAKE != 0
def haveData : Bool := pindex.nStatus &&& BLOCK_HAVE_DATA != 0
def haveUndo : Bool := pindex.nStatus &&& BLOCK_HAVE_UNDO != 0

/-- The entry is that of a block: it has the fields of the header that the hash covers. -/
structure Indexes (block : CBlockHeader) : Prop where
  nVersion : pindex.nVersion = block.nVersion
  hashPrevBlock : pindex.pprev.getD 0 = block.hashPrevBlock
  hashMerkleRoot : pindex.hashMerkleRoot = block.hashMerkleRoot
  nTime : pindex.nTime = block.nTime
  nBits : pindex.nBits = block.nBits
  nNonce : pindex.nNonce = block.nNonce
  nAccumulatorCheckpoint : 3 < block.nVersion →
    pindex.nAccumulatorCheckpoint = block.nAccumulatorCheckpoint

end CBlockIndex

structure CDiskBlockIndex extends CBlockIndex where
  hashPrev : Uint256 := 0
  hashNext : Uint256 := 0

/-- `WriteCompactSize` of a 64 bit number. -/
def writeCompactSize (nSize : ℕ) : List UInt8 :=
  if nSize < 253 then [UInt8.ofNat nSize]
  else if nSize ≤ 0xffff then 253 :: leBytes 2 nSize
  else if nSize ≤ 0xffffffff then 254 :: leBytes 4 nSize
  else 255 :: leBytes 8 nSize

/-- The end of `ReadCompactSize`: short sizes take few bytes, and no size is large. -/
def checkSize (least nSize : ℕ) : Reader UInt8 ℕ :=
  if nSize < least ∨ MAX_SIZE < nSize then failure else pure nSize

def readCompactSize : Reader UInt8 ℕ := do
  let chSize ← next
  if chSize < 253 then checkSize 0 chSize.toNat
  else if chSize = 253 then LittleEndian.read 2 >>= checkSize 253
  else if chSize = 254 then LittleEndian.read 4 >>= checkSize 0x10000
  else LittleEndian.read 8 >>= checkSize 0x100000000

def readUInt32 : Reader UInt8 UInt32 := UInt32.ofNat <$> LittleEndian.read 4
def readUInt64 : Reader UInt8 UInt64 := UInt64.ofNat <$> LittleEndian.read 8
def readUint256 : Reader UInt8 Uint256 := BitVec.ofNat 256 <$> LittleEndian.read 32
def readInt32 : Reader UInt8 Int32 := UInt32.toInt32 <$> readUInt32
def readInt64 : Reader UInt8 Int64 := UInt64.toInt64 <$> readUInt64

def readVarInt32 : Reader UInt8 Int32 := Int32.ofInt <$> readVarInt
def readVarUInt32 : Reader UInt8 UInt32 := UInt32.ofNat <$> VarInts.read 32

def writeDenomination (denom : CoinDenomination) : List UInt8 := leBytes 4 denom.toInt.toNat

def readDenomination : Reader UInt8 CoinDenomination :=
  (fun f => CoinDenomination.ofInt f.toInt) <$> readInt32

namespace SupplyMap

/-- The keys in their order. -/
def keys : List CoinDenomination := .ZQ_ERROR :: zerocoinDenomList

def entries (m : SupplyMap) : List (CoinDenomination × Int64) :=
  keys.filterMap fun denom => (m denom).map fun supply => (denom, supply)

/-- A key that is there keeps its value. -/
def insert (m : SupplyMap) (item : CoinDenomination × Int64) : SupplyMap :=
  if (m item.1).isSome then m else Function.update m item.1 (some item.2)

def writeItem (item : CoinDenomination × Int64) : List UInt8 :=
  writeDenomination item.1 ++ leBytes 8 item.2.toUInt64.toNat

def readItem : Reader UInt8 (CoinDenomination × Int64) := do
  let denom ← readDenomination
  let supply ← readInt64
  pure (denom, supply)

def serialize (m : SupplyMap) : List UInt8 :=
  writeCompactSize m.entries.length ++ m.entries.flatMap writeItem

def unserialize : Reader UInt8 SupplyMap := do
  let nSize ← readCompactSize
  let items ← many readItem nSize
  pure (items.foldl insert fun _ => none)

end SupplyMap

namespace CDiskBlockIndex

/-- The constructor for an entry that is to be written. -/
def ofIndex (pindex : CBlockIndex) : CDiskBlockIndex :=
  { pindex with hashPrev := pindex.pprev.getD 0 }

def getBlockHash (hashes : HeaderHashes) (record : CDiskBlockIndex) : Uint256 :=
  CBlockHeader.getHash hashes ⟨record.nVersion, record.hashPrev, record.hashMerkleRoot,
    record.nTime, record.nBits, record.nNonce, record.nAccumulatorCheckpoint⟩

section
variable (record : CDiskBlockIndex)

def serializeStake : List UInt8 :=
  leBytes 32 record.prevoutStake.hash.toNat ++ (leBytes 4 record.prevoutStake.n.toNat ++
    leBytes 4 record.nStakeTime.toNat)

/-- The fields up to the nonce. `nVersion` is the version of the program. -/
def serializeFields (fGetHash : Bool) (nVersion : Int32) : List UInt8 :=
  (if !fGetHash then writeVarInt nVersion.toInt else []) ++
  (writeVarInt record.nHeight.toInt ++
  (VarInts.write record.nStatus.toNat ++
  (VarInts.write record.nTx.toNat ++
  ((if record.haveData || record.haveUndo then writeVarInt record.nFile.toInt else []) ++
  ((if record.haveData then VarInts.write record.nDataPos.toNat else []) ++
  ((if record.haveUndo then VarInts.write record.nUndoPos.toNat else []) ++
  (leBytes 8 record.nMint.toUInt64.toNat ++
  (leBytes 8 record.nMoneySupply.toUInt64.toNat ++
  (leBytes 4 record.nFlags.toNat ++
  (leBytes 8 record.nStakeModifier.toNat ++
  ((if record.isProofOfStake then record.serializeStake else []) ++
  (leBytes 4 record.nVersion.toUInt32.toNat ++
  (leBytes 32 record.hashPrev.toNat ++
  (leBytes 32 record.hashNext.toNat ++
  (leBytes 32 record.hashMerkleRoot.toNat ++
  (leBytes 4 record.nTime.toNat ++
  (leBytes 4 record.nBits.toNat ++
  leBytes 4 record.nNonce.toNat)))))))))))))))))

def serializeZerocoin : List UInt8 :=
  leBytes 32 record.nAccumulatorCheckpoint.toNat ++ (record.mapZerocoinSupply.serialize ++
    (writeCompactSize record.vMintDenominationsInBlock.length ++
      record.vMintDenominationsInBlock.flatMap writeDenomination))

def serialize (fGetHash : Bool) (nVersion : Int32) : List UInt8 :=
  record.serializeFields fGetHash nVersion ++
    if 3 < record.nVersion then record.serializeZerocoin else []

end

def unserializeStake : Reader UInt8 (COutPoint × UInt32) := do
  let hash ← readUint256
  let n ← readUInt32
  let nStakeTime ← readUInt32
  pure (⟨hash, n⟩, nStakeTime)

/-- What is not in the stream stays as it is in a new record. -/
def unserializeFields (fGetHash : Bool) : Reader UInt8 CDiskBlockIndex := do
  let _ ← ifPresent (!fGetHash) readVarInt 0
  let nHeight ← readVarInt32
  let nStatus ← readVarUInt32
  let nTx ← readVarUInt32
  let fData := nStatus &&& BLOCK_HAVE_DATA != 0
  let fUndo := nStatus &&& BLOCK_HAVE_UNDO != 0
  let nFile ← ifPresent (fData || fUndo) readVarInt32 0
  let nDataPos ← ifPresent fData readVarUInt32 0
  let nUndoPos ← ifPresent fUndo readVarUInt32 0
  let nMint ← readInt64
  let nMoneySupply ← readInt64
  let nFlags ← readUInt32
  let nStakeModifier ← readUInt64
  let stake ← ifPresent (nFlags &&& BLOCK_PROOF_OF_STAKE != 0) unserializeStake (.null, 0)
  let nVersion ← readInt32
  let hashPrev ← readUint256
  let hashNext ← readUint256
  let hashMerkleRoot ← readUint256
  let nTime ← readUInt32
  let nBits ← readUInt32
  let nNonce ← readUInt32
  pure {
    nHeight, nStatus, nTx, nFile, nDataPos, nUndoPos, nMint, nMoneySupply, nFlags,
    nStakeModifier, nVersion, hashPrev, hashNext, hashMerkleRoot, nTime, nBits, nNonce,
    prevoutStake := stake.1
    nStakeTime := stake.2 }

def unserializeZerocoin (record : CDiskBlockIndex) : Reader UInt8 CDiskBlockIndex := do
  let nAccumulatorCheckpoint ← readUint256
  let mapZerocoinSupply ← SupplyMap.unserialize
  let nSize ← readCompactSize
  let vMintDenominationsInBlock ← many readDenomination nSize
  pure { record with nAccumulatorCheckpoint, mapZerocoinSupply, vMintDenominationsInBlock }

/-- A new record is read. -/
def unserialize (fGetHash : Bool) : Reader UInt8 CDiskBlockIndex := do
  let record ← unserializeFields fGetHash
  ifPresent (3 < record.nVersion) (unserializeZerocoin record) record

end CDiskBlockIndex

/-- The record of an entry is read back: the fields are those of the entry, the predecessor is
known by its hash, and the hash of the record is that of the block. -/
def RoundTrips (hashes : HeaderHashes) (fGetHash : Bool) (nVersion : Int32)
    (pindex : CBlockIndex) : Prop :=
  ∃ record, Reads (CDiskBlockIndex.unserialize fGetHash)
      ((CDiskBlockIndex.ofIndex pindex).serialize fGetHash nVersion) record ∧
    record.toCBlockIndex = { pindex with pprev := none } ∧
    record.hashPrev = pindex.pprev.getD 0 ∧
    ∀ block, pindex.Indexes block → record.getBlockHash hashes = block.getHash hashes

/-- What a record does not hold is as it is in a new entry. -/
structure CBlockIndex.Kept (pindex : CBlockIndex) : Prop where
  nHeight : 0 ≤ pindex.nHeight
  nFile : if pindex.haveData || pindex.haveUndo then 0 ≤ pindex.nFile else pindex.nFile = 0
  nDataPos : pindex.haveData = false → pindex.nDataPos = 0
  nUndoPos : pindex.haveUndo = false → pindex.nUndoPos = 0
  stake : pindex.isProofOfStake = false →
    pindex.prevoutStake = COutPoint.null ∧ pindex.nStakeTime = 0
  hashProofOfStake : pindex.hashProofOfStake = 0
  zerocoin : ¬ 3 < pindex.nVersion → pindex.nAccumulatorCheckpoint = 0 ∧
    pindex.mapZerocoinSupply = SupplyMap.zero ∧ pindex.vMintDenominationsInBlock = []
  length : 3 < pindex.nVersion → pindex.vMintDenominationsInBlock.length ≤ MAX_SIZE

section numbers

theorem reads_le {n x : ℕ} (h : x < 256 ^ n) : Reads (LittleEndian.read n) (leBytes n x) x := by
  have hread := LittleEndian.reads_bytes n x
  rw [Nat.mod_eq_of_lt h] at hread
  exact hread

theorem reads_uint32 (x : UInt32) : Reads readUInt32 (leBytes 4 x.toNat) x := by
  have hread := (reads_le (n := 4) x.toNat_lt).map UInt32.ofNat
  rw [UInt32.ofNat_toNat] at hread
  exact hread

theorem reads_uint64 (x : UInt64) : Reads readUInt64 (leBytes 8 x.toNat) x := by
  have hread := (reads_le (n := 8) x.toNat_lt).map UInt64.ofNat
  rw [UInt64.ofNat_toNat] at hread
  exact hread

theorem reads_uint256 (x : Uint256) : Reads readUint256 (leBytes 32 x.toNat) x := by
  have hlt : x.toNat < 256 ^ 32 := x.isLt
  have hread := (reads_le hlt).map (BitVec.ofNat 256)
  rw [BitVec.ofNat_toNat, BitVec.setWidth_eq] at hread
  exact hread

theorem reads_int32 (x : Int32) : Reads readInt32 (leBytes 4 x.toUInt32.toNat) x :=
  (reads_uint32 x.toUInt32).map UInt32.toInt32

theorem reads_int64 (x : Int64) : Reads readInt64 (leBytes 8 x.toUInt64.toNat) x :=
  (reads_uint64 x.toUInt64).map UInt64.toInt64

theorem reads_varUInt32 (x : UInt32) : Reads readVarUInt32 (VarInts.write x.toNat) x := by
  have hread := (VarInts.reads_write x.toNat_lt).map UInt32.ofNat
  rw [UInt32.ofNat_toNat] at hread
  exact hread

/-- What comes back of an `int` that is written with few bytes. -/
def int32Back (x : Int32) : Int32 := Int32.ofInt (CCoins.readBack x.toInt)

theorem reads_varInt32 (x : Int32) : Reads readVarInt32 (writeVarInt x.toInt) (int32Back x) :=
  (CCoins.reads_readVarInt x.toInt_lt).map Int32.ofInt

theorem int32Back_eq_iff (x : Int32) : int32Back x = x ↔ 0 ≤ x := by
  have hle : 0 ≤ x ↔ 0 ≤ x.toInt := Int32.le_iff_toInt_le
  have hrange := x.le_toInt
  have hback : (int32Back x).toInt = (CCoins.readBack x.toInt) := by
    unfold int32Back CCoins.readBack
    rw [Int32.toInt_ofInt]
    have hlt := x.toInt_lt
    have hsize : Int32.size = 2 ^ 32 := rfl
    rw [hsize]
    split_ifs with hneg
    · exact Int.bmod_eq_of_le (by omega) (by omega)
    · exact Int.bmod_eq_of_le (by omega) (by omega)
  rw [← Int32.toInt_inj, hback, hle]
  unfold CCoins.readBack
  split_ifs with hneg <;> omega

/-- Sizes up to the bound are read back. -/
theorem reads_compactSize {nSize : ℕ} (h : nSize ≤ MAX_SIZE) :
    Reads readCompactSize (writeCompactSize nSize) nSize := by
  have hmax : MAX_SIZE = 0x02000000 := rfl
  have hcheck (least : ℕ) (hleast : least ≤ nSize) : Reads (checkSize least nSize) [] nSize := by
    unfold checkSize
    rw [if_neg (by omega)]
    exact Reads.pure nSize
  unfold writeCompactSize readCompactSize
  by_cases hone : nSize < 253
  · have hdigit : (UInt8.ofNat nSize).toNat = nSize := by
      rw [UInt8.toNat_ofNat']
      omega
    have hbyte : UInt8.ofNat nSize < 253 := by
      rw [UInt8.lt_iff_toNat_lt, hdigit]
      exact hone
    rw [if_pos hone]
    apply (reads_next _).bind_nil
    rw [if_pos hbyte, hdigit]
    exact hcheck 0 (by omega)
  · rw [if_neg hone]
    by_cases htwo : nSize ≤ 0xffff
    · rw [if_pos htwo]
      apply (reads_next (253 : UInt8)).bind
      exact (reads_le (by omega)).bind_nil (hcheck 253 (by omega))
    · rw [if_neg htwo, if_pos (by omega)]
      apply (reads_next (254 : UInt8)).bind
      exact (reads_le (by omega)).bind_nil (hcheck 0x10000 (by omega))

/-- Larger sizes are refused. -/
theorem refuses_compactSize {nSize : ℕ} (h : MAX_SIZE < nSize) :
    Refuses readCompactSize (writeCompactSize nSize) := by
  have hmax : MAX_SIZE = 0x02000000 := rfl
  have hcheck (least size : ℕ) (hsize : size < least ∨ MAX_SIZE < size) :
      Refuses (checkSize least size) [] := by
    intro rest
    unfold checkSize
    rw [if_pos hsize]
    rfl
  unfold writeCompactSize readCompactSize
  rw [if_neg (by omega), if_neg (by omega)]
  by_cases hfour : nSize ≤ 0xffffffff
  · rw [if_pos hfour]
    apply (reads_next (254 : UInt8)).refuses_bind
    have hread := (reads_le (by omega : nSize < 256 ^ 4)).refuses_bind
      (hcheck 0x10000 nSize (Or.inr h))
    rw [List.append_nil] at hread
    exact hread
  · -- a number of 64 bits that is short here has wrapped
    rw [if_neg hfour]
    apply (reads_next (255 : UInt8)).refuses_bind
    have hread := (LittleEndian.reads_bytes 8 nSize).refuses_bind
      (hcheck 0x100000000 (nSize % 256 ^ 8) (by omega))
    rw [List.append_nil] at hread
    exact hread

end numbers

section zerocoin

theorem reads_denomination (denom : CoinDenomination) :
    Reads readDenomination (writeDenomination denom) denom := by
  have hread := (reads_int32 (Int32.ofInt denom.toInt)).map
    fun f => CoinDenomination.ofInt f.toInt
  have hbytes : leBytes 4 (Int32.ofInt denom.toInt).toUInt32.toNat = writeDenomination denom := by
    cases denom <;> rfl
  have hvalue : CoinDenomination.ofInt (Int32.ofInt denom.toInt).toInt = denom := by
    cases denom <;> rfl
  rw [hbytes, hvalue] at hread
  exact hread

namespace SupplyMap

theorem reads_item (item : CoinDenomination × Int64) : Reads readItem (writeItem item) item := by
  apply (reads_denomination item.1).bind
  exact (reads_int64 item.2).bind_nil (Reads.pure item)

/-- Items with keys of their own give the map they come from. -/
theorem foldl_insert (m : SupplyMap) {denoms : List CoinDenomination} (hnodup : denoms.Nodup)
    (m' : SupplyMap) (hnew : ∀ denom ∈ denoms, m' denom = none) :
    (denoms.filterMap fun denom => (m denom).map fun supply => (denom, supply)).foldl insert m' =
      fun denom => if denom ∈ denoms then m denom else m' denom := by
  induction denoms generalizing m' with
  | nil => simp
  | cons denom denoms ih =>
    obtain ⟨hfresh, hnodup⟩ := List.nodup_cons.mp hnodup
    have hnone := hnew denom List.mem_cons_self
    have hothers : ∀ d ∈ denoms, m' d = none := fun d hd => hnew d (List.mem_cons_of_mem _ hd)
    cases hm : m denom with
    | none =>
      rw [List.filterMap_cons_none (by rw [hm]; rfl), ih hnodup m' hothers]
      funext d
      by_cases hd : d = denom
      · rw [hd, if_neg hfresh, if_pos List.mem_cons_self, hnone, hm]
      · simp [hd]
    | some supply =>
      have hinsert : insert m' (denom, supply) = Function.update m' denom (some supply) := by
        unfold insert
        rw [hnone]
        rfl
      have hrest : ∀ d ∈ denoms, Function.update m' denom (some supply) d = none := by
        intro d hd
        rw [Function.update_of_ne (ne_of_mem_of_not_mem hd hfresh)]
        exact hothers d hd
      rw [List.filterMap_cons_some (by rw [hm]; rfl), List.foldl_cons, hinsert,
        ih hnodup _ hrest]
      funext d
      by_cases hd : d = denom
      · rw [hd, if_neg hfresh, if_pos List.mem_cons_self, Function.update_self, hm]
      · simp [hd]

theorem mem_keys (denom : CoinDenomination) : denom ∈ keys := by
  cases denom <;> decide

theorem reads_serialize (m : SupplyMap) : Reads unserialize m.serialize m := by
  have hlength : m.entries.length ≤ MAX_SIZE := by
    have hle : m.entries.length ≤ keys.length := List.length_filterMap_le _ _
    exact hle.trans (by decide)
  have hmap : (m.entries.foldl insert fun _ => none) = m := by
    unfold entries
    rw [foldl_insert m (by decide) _ fun _ _ => rfl]
    funext denom
    rw [if_pos (mem_keys denom)]
  apply (reads_compactSize hlength).bind
  apply (reads_many reads_item m.entries).bind_nil
  rw [hmap]
  exact Reads.pure m

end SupplyMap
end zerocoin

namespace CDiskBlockIndex

/-- What comes back of the fields up to the nonce. -/
def fieldsBack (record : CDiskBlockIndex) : CDiskBlockIndex where
  nHeight := int32Back record.nHeight
  nStatus := record.nStatus
  nTx := record.nTx
  nFile := if record.haveData || record.haveUndo then int32Back record.nFile else 0
  nDataPos := if record.haveData then record.nDataPos else 0
  nUndoPos := if record.haveUndo then record.nUndoPos else 0
  nMint := record.nMint
  nMoneySupply := record.nMoneySupply
  nFlags := record.nFlags
  nStakeModifier := record.nStakeModifier
  prevoutStake := (if record.isProofOfStake then (record.prevoutStake, record.nStakeTime)
    else (.null, 0)).1
  nStakeTime := (if record.isProofOfStake then (record.prevoutStake, record.nStakeTime)
    else (.null, 0)).2
  nVersion := record.nVersion
  hashPrev := record.hashPrev
  hashNext := record.hashNext
  hashMerkleRoot := record.hashMerkleRoot
  nTime := record.nTime
  nBits := record.nBits
  nNonce := record.nNonce

/-- `record` with the zerocoin fields of another. -/
def withZerocoin (record other : CDiskBlockIndex) : CDiskBlockIndex :=
  { record with
    nAccumulatorCheckpoint := other.nAccumulatorCheckpoint
    mapZerocoinSupply := other.mapZerocoinSupply
    vMintDenominationsInBlock := other.vMintDenominationsInBlock }

def back (record : CDiskBlockIndex) : CDiskBlockIndex :=
  { record.fieldsBack with
    nAccumulatorCheckpoint := if 3 < record.nVersion then record.nAccumulatorCheckpoint else 0
    mapZerocoinSupply := if 3 < record.nVersion then record.mapZerocoinSupply else .zero
    vMintDenominationsInBlock :=
      if 3 < record.nVersion then record.vMintDenominationsInBlock else [] }

variable (record : CDiskBlockIndex)

theorem reads_stake : Reads unserializeStake record.serializeStake
    (record.prevoutStake, record.nStakeTime) := by
  apply (reads_uint256 _).bind
  apply (reads_uint32 _).bind
  exact (reads_uint32 _).bind_nil (Reads.pure _)

theorem reads_fields (fGetHash : Bool) (nVersion : Int32) :
    Reads (unserializeFields fGetHash) (record.serializeFields fGetHash nVersion)
      record.fieldsBack := by
  have hversion := CCoins.reads_readVarInt nVersion.toInt_lt
  apply (hversion.ifPresent (!fGetHash) 0).bind
  apply (reads_varInt32 _).bind
  apply (reads_varUInt32 _).bind
  apply (reads_varUInt32 _).bind
  apply ((reads_varInt32 _).ifPresent (record.haveData || record.haveUndo) 0).bind
  apply ((reads_varUInt32 _).ifPresent record.haveData 0).bind
  apply ((reads_varUInt32 _).ifPresent record.haveUndo 0).bind
  apply (reads_int64 _).bind
  apply (reads_int64 _).bind
  apply (reads_uint32 _).bind
  apply (reads_uint64 _).bind
  apply (record.reads_stake.ifPresent record.isProofOfStake (.null, 0)).bind
  apply (reads_int32 _).bind
  apply (reads_uint256 _).bind
  apply (reads_uint256 _).bind
  apply (reads_uint256 _).bind
  apply (reads_uint32 _).bind
  apply (reads_uint32 _).bind
  exact (reads_uint32 _).bind_nil (Reads.pure _)

theorem reads_zerocoin (head : CDiskBlockIndex)
    (h : record.vMintDenominationsInBlock.length ≤ MAX_SIZE) :
    Reads (unserializeZerocoin head) record.serializeZerocoin (head.withZerocoin record) := by
  apply (reads_uint256 _).bind
  apply (SupplyMap.reads_serialize _).bind
  apply (reads_compactSize h).bind
  exact (reads_many reads_denomination _).bind_nil (Reads.pure _)

theorem refuses_zerocoin (head : CDiskBlockIndex)
    (h : MAX_SIZE < record.vMintDenominationsInBlock.length) :
    Refuses (unserializeZerocoin head) record.serializeZerocoin := by
  apply (reads_uint256 _).refuses_bind
  apply (SupplyMap.reads_serialize _).refuses_bind
  exact (refuses_compactSize h).bind _ _

/-- Every record is read back, unless its list of denominations is too long. -/
theorem reads_serialize (fGetHash : Bool) (nVersion : Int32)
    (h : 3 < record.nVersion → record.vMintDenominationsInBlock.length ≤ MAX_SIZE) :
    Reads (unserialize fGetHash) (record.serialize fGetHash nVersion) record.back := by
  have hversion : record.fieldsBack.nVersion = record.nVersion := rfl
  apply (record.reads_fields fGetHash nVersion).bind
  rw [hversion]
  by_cases hzerocoin : 3 < record.nVersion
  · have hback : record.back = record.fieldsBack.withZerocoin record := by
      simp [back, withZerocoin, hzerocoin]
    rw [hback, if_pos hzerocoin, decide_eq_true hzerocoin]
    exact record.reads_zerocoin _ (h hzerocoin)
  · have hback : record.back = record.fieldsBack := by
      simp only [back, hzerocoin, if_false]
      rfl
    rw [hback, if_neg hzerocoin, decide_eq_false hzerocoin]
    exact Reads.pure _

theorem length_of_reads {fGetHash : Bool} {nVersion : Int32} {other : CDiskBlockIndex}
    (h : Reads (unserialize fGetHash) (record.serialize fGetHash nVersion) other)
    (hzerocoin : 3 < record.nVersion) : record.vMintDenominationsInBlock.length ≤ MAX_SIZE := by
  by_contra hlong
  have hversion : record.fieldsBack.nVersion = record.nVersion := rfl
  apply h.not_refuses
  apply (record.reads_fields fGetHash nVersion).refuses_bind
  rw [hversion, if_pos hzerocoin, decide_eq_true hzerocoin]
  exact record.refuses_zerocoin _ (by omega)

end CDiskBlockIndex

namespace CBlockIndex

variable {pindex : CBlockIndex}

/-- The version decides which fields the hash covers, and the record holds these. -/
theorem Indexes.getBlockHash_back (hashes : HeaderHashes) {block : CBlockHeader}
    (h : pindex.Indexes block) :
    (CDiskBlockIndex.ofIndex pindex).back.getBlockHash hashes = block.getHash hashes := by
  obtain ⟨nVersion, hashPrevBlock, hashMerkleRoot, nTime, nBits, nNonce, nAccumulator⟩ := block
  obtain ⟨rfl, rfl, rfl, rfl, rfl, rfl, hcheckpoint⟩ := h
  unfold CDiskBlockIndex.getBlockHash CBlockHeader.getHash
  by_cases hzerocoin : 3 < pindex.nVersion
  · have hstored : (CDiskBlockIndex.ofIndex pindex).back.nAccumulatorCheckpoint =
        pindex.nAccumulatorCheckpoint := if_pos hzerocoin
    rw [hstored, ← hcheckpoint hzerocoin]
    rfl
  · have hshort : pindex.nVersion < 4 := by
      rw [Int32.lt_iff_toInt_lt] at hzerocoin ⊢
      have hthree : (3 : Int32).toInt = 3 := rfl
      have hfour : (4 : Int32).toInt = 4 := rfl
      omega
    rw [if_pos hshort]
    exact if_pos hshort

theorem Kept.back_eq (kept : pindex.Kept) :
    (CDiskBlockIndex.ofIndex pindex).back.toCBlockIndex = { pindex with pprev := none } := by
  have hstake : (if pindex.isProofOfStake then (pindex.prevoutStake, pindex.nStakeTime)
      else (.null, 0)) = (pindex.prevoutStake, pindex.nStakeTime) := by
    cases hflag : pindex.isProofOfStake with
    | true => rfl
    | false =>
      have hnone := kept.stake hflag
      rw [hnone.1, hnone.2]
      rfl
  apply CBlockIndex.ext <;> try rfl
  case nHeight => exact (int32Back_eq_iff _).mpr kept.nHeight
  case nFile =>
    have hstored := kept.nFile
    change (if pindex.haveData || pindex.haveUndo then int32Back pindex.nFile else 0) = _
    split_ifs at hstored ⊢ with hbits
    · exact (int32Back_eq_iff _).mpr hstored
    · exact hstored.symm
  case nDataPos =>
    apply ite_eq_left_iff.mpr
    intro hbit
    exact (kept.nDataPos (Bool.not_eq_true _ ▸ hbit)).symm
  case nUndoPos =>
    apply ite_eq_left_iff.mpr
    intro hbit
    exact (kept.nUndoPos (Bool.not_eq_true _ ▸ hbit)).symm
  case prevoutStake => exact congrArg Prod.fst hstake
  case nStakeTime => exact congrArg Prod.snd hstake
  case hashProofOfStake => exact kept.hashProofOfStake.symm
  case nAccumulatorCheckpoint =>
    apply ite_eq_left_iff.mpr
    intro hversion
    exact (kept.zerocoin hversion).1.symm
  case mapZerocoinSupply =>
    apply ite_eq_left_iff.mpr
    intro hversion
    exact (kept.zerocoin hversion).2.1.symm
  case vMintDenominationsInBlock =>
    apply ite_eq_left_iff.mpr
    intro hversion
    exact (kept.zerocoin hversion).2.2.symm

theorem kept_of_back
    (h : (CDiskBlockIndex.ofIndex pindex).back.toCBlockIndex = { pindex with pprev := none })
    (hlength : 3 < pindex.nVersion → pindex.vMintDenominationsInBlock.length ≤ MAX_SIZE) :
    pindex.Kept where
  nHeight := (int32Back_eq_iff _).mp (congrArg CBlockIndex.nHeight h)
  nFile := by
    have hfile : (if pindex.haveData || pindex.haveUndo then int32Back pindex.nFile else 0) =
        pindex.nFile := congrArg CBlockIndex.nFile h
    split_ifs at hfile ⊢ with hbits
    · exact (int32Back_eq_iff _).mp hfile
    · exact hfile.symm
  nDataPos := by
    intro hbit
    have hpos := ite_eq_left_iff.mp (congrArg CBlockIndex.nDataPos h)
    exact (hpos (ne_true_of_eq_false hbit)).symm
  nUndoPos := by
    intro hbit
    have hpos := ite_eq_left_iff.mp (congrArg CBlockIndex.nUndoPos h)
    exact (hpos (ne_true_of_eq_false hbit)).symm
  stake := by
    intro hflag
    have hnone : (if pindex.isProofOfStake then (pindex.prevoutStake, pindex.nStakeTime)
        else (COutPoint.null, 0)) = (COutPoint.null, 0) := if_neg (ne_true_of_eq_false hflag)
    have hprevout := congrArg CBlockIndex.prevoutStake h
    have htime := congrArg CBlockIndex.nStakeTime h
    change (if pindex.isProofOfStake then (pindex.prevoutStake, pindex.nStakeTime)
      else (COutPoint.null, 0)).1 = _ at hprevout
    change (if pindex.isProofOfStake then (pindex.prevoutStake, pindex.nStakeTime)
      else (COutPoint.null, 0)).2 = _ at htime
    rw [hnone] at hprevout htime
    exact ⟨hprevout.symm, htime.symm⟩
  hashProofOfStake := (congrArg CBlockIndex.hashProofOfStake h).symm
  zerocoin := by
    intro hversion
    have hcheckpoint := ite_eq_left_iff.mp (congrArg CBlockIndex.nAccumulatorCheckpoint h)
    have hsupply := ite_eq_left_iff.mp (congrArg CBlockIndex.mapZerocoinSupply h)
    have hmints := ite_eq_left_iff.mp (congrArg CBlockIndex.vMintDenominationsInBlock h)
    exact ⟨(hcheckpoint hversion).symm, (hsupply hversion).symm, (hmints hversion).symm⟩
  length := hlength

/-- A new entry holds nothing that its record would not. -/
theorem kept_ofBlock (block : CBlockHeader) (fProofOfStake : Bool) (prevout : COutPoint) :
    (ofBlock block fProofOfStake prevout).Kept where
  nHeight := by
    have hheight : (ofBlock block fProofOfStake prevout).nHeight = 0 := rfl
    rw [hheight]
    decide
  nFile := by
    have hbits : ((ofBlock block fProofOfStake prevout).haveData ||
        (ofBlock block fProofOfStake prevout).haveUndo) = false := by
      have hstatus : (ofBlock block fProofOfStake prevout).nStatus = 0 := rfl
      unfold haveData haveUndo
      rw [hstatus]
      decide
    rw [hbits, if_neg Bool.false_ne_true]
    rfl
  nDataPos := fun _ => rfl
  nUndoPos := fun _ => rfl
  stake := by
    intro hflag
    cases fProofOfStake with
    | true =>
      have hflags : (ofBlock block true prevout).nFlags = BLOCK_PROOF_OF_STAKE := rfl
      unfold isProofOfStake at hflag
      rw [hflags] at hflag
      contradiction
    | false => exact ⟨rfl, rfl⟩
  hashProofOfStake := rfl
  zerocoin := by
    intro hversion
    exact ⟨if_neg hversion, rfl, rfl⟩
  length := fun _ => Nat.zero_le _

end CBlockIndex

section
variable {hashes : HeaderHashes} {fGetHash : Bool} {nVersion : Int32} {pindex : CBlockIndex}

theorem RoundTrips.kept (h : RoundTrips hashes fGetHash nVersion pindex) : pindex.Kept := by
  obtain ⟨record, hreads, hsame, -⟩ := h
  have hlength := CDiskBlockIndex.length_of_reads _ hreads
  have hback := CDiskBlockIndex.reads_serialize _ fGetHash nVersion hlength
  rw [hreads.unique hback] at hsame
  exact CBlockIndex.kept_of_back hsame hlength

theorem CBlockIndex.Kept.roundTrips (kept : pindex.Kept) :
    RoundTrips hashes fGetHash nVersion pindex := by
  have hback := CDiskBlockIndex.reads_serialize (CDiskBlockIndex.ofIndex pindex) fGetHash
    nVersion kept.length
  refine ⟨_, hback, kept.back_eq, rfl, ?_⟩
  intro block hindexes
  exact hindexes.getBlockHash_back hashes

end

/-- Entries whose records are read back. The hash of a proof of stake is in no record. -/
theorem diskBlockIndex_roundTrips_iff (hashes : HeaderHashes) (fGetHash : Bool)
    (nVersion : Int32) (pindex : CBlockIndex) :
    RoundTrips hashes fGetHash nVersion pindex ↔ pindex.Kept :=
  ⟨RoundTrips.kept, CBlockIndex.Kept.roundTrips⟩

/-- A new entry of a proof-of-stake block is read back until the hash of its proof is set. -/
theorem roundTrips_ofBlock_iff (hashes : HeaderHashes) (fGetHash : Bool) (nVersion : Int32)
    (block : CBlockHeader) (prevout : COutPoint) (hashProofOfStake : Uint256) :
    RoundTrips hashes fGetHash nVersion
      { CBlockIndex.ofBlock block true prevout with hashProofOfStake } ↔ hashProofOfStake = 0 := by
  constructor
  · intro h
    exact h.kept.hashProofOfStake
  · intro hzero
    have kept := CBlockIndex.kept_ofBlock block true prevout
    rw [hzero]
    exact kept.roundTrips

/-- The entry of a proof-of-stake block whose proof has the hash 7. -/
def staked : CBlockIndex :=
  { CBlockIndex.ofBlock ⟨4, 0, 5, 1500000000, 0x1e0fffff, 0, 0⟩ true ⟨3, 1⟩ with
    nStatus := 11
    nTx := 2
    hashProofOfStake := 7 }

theorem not_diskBlockIndex_roundTrips : ¬ ∀ (hashes : HeaderHashes) (fGetHash : Bool)
    (nVersion : Int32) (pindex : CBlockIndex), RoundTrips hashes fGetHash nVersion pindex := by
  intro h
  have hkept := (h ⟨fun _ => 0, fun _ => 0⟩ false 3000000 staked).kept
  have hhash : staked.hashProofOfStake = 7 := rfl
  have hzero := hkept.hashProofOfStake
  rw [hhash] at hzero
  contradiction

end Lytix.DiskIndex
