import Mathlib.Data.BitVec
import Mathlib.Data.List.Basic
import Mathlib.Tactic

/-! Outpoints, inputs, outputs, transactions and blocks as the consensus code reads them.
A transaction and a block carry their hash as data: the code caches it and compares
transactions by it. Amounts (`CAmount`, an `int64_t` of satoshis) are integers: the one place
where the code looks for a wrap is `getValueOut`, which keeps its bound. -/
namespace Lytix

abbrev Uint256 := BitVec 256

instance : LawfulBEq Uint256 := inferInstance

abbrev Script := List UInt8

def COIN : Int := 100000000

def OP_PUSHDATA1 : UInt8 := 0x4c
def OP_PUSHDATA2 : UInt8 := 0x4d
def OP_PUSHDATA4 : UInt8 := 0x4e
def OP_RETURN : UInt8 := 0x6a
def OP_DUP : UInt8 := 0x76
def OP_EQUAL : UInt8 := 0x87
def OP_EQUALVERIFY : UInt8 := 0x88
def OP_HASH160 : UInt8 := 0xa9
def OP_CHECKSIG : UInt8 := 0xac
def OP_ZEROCOINMINT : UInt8 := 0xc1
def OP_ZEROCOINSPEND : UInt8 := 0xc2

def Script.isUnspendable (s : Script) : Bool := s.head? == some OP_RETURN

def Script.isZerocoinMint (s : Script) : Bool := s.head? == some OP_ZEROCOINMINT

def Script.isZerocoinSpend (s : Script) : Bool := s.head? == some OP_ZEROCOINSPEND

structure COutPoint where
  hash : Uint256
  n : Nat
deriving DecidableEq, Repr

/-- `(uint32_t) -1`. -/
def COutPoint.nullIndex : Nat := 0xffffffff

def COutPoint.null : COutPoint := ⟨0, COutPoint.nullIndex⟩

def COutPoint.isNull (o : COutPoint) : Bool := o.hash == 0 && o.n == COutPoint.nullIndex

structure CTxIn where
  prevout : COutPoint
  scriptSig : Script
  nSequence : Nat
deriving DecidableEq, Repr

structure CTxOut where
  nValue : Int
  scriptPubKey : Script
  nRounds : Int := -10
deriving DecidableEq, Repr

/-- `SetNull`, which is also the default constructor. -/
def CTxOut.null : CTxOut := ⟨-1, [], -10⟩

def CTxOut.isNull (o : CTxOut) : Bool := o.nValue == -1

def CTxOut.isEmpty (o : CTxOut) : Bool := o.nValue == 0 && o.scriptPubKey.isEmpty

def CTxOut.isZerocoinMint (o : CTxOut) : Bool := o.scriptPubKey.isZerocoinMint

@[simp] theorem CTxOut.isNull_null : CTxOut.null.isNull = true := rfl

structure CTransaction where
  hash : Uint256
  nVersion : Int
  vin : List CTxIn
  vout : List CTxOut
  nLockTime : Nat
deriving DecidableEq, Repr

namespace CTransaction

/-- Only the first input decides. The code reads `scriptSig[0]` of an empty script too, which
is outside the vector; here that reads as "not a spend". -/
def isZerocoinSpend (tx : CTransaction) : Bool :=
  match tx.vin with
  | [] => false
  | txin :: _ => txin.prevout.hash == 0 && txin.scriptSig.isZerocoinSpend

def isZerocoinMint (tx : CTransaction) : Bool := tx.vout.any CTxOut.isZerocoinMint

def containsZerocoins (tx : CTransaction) : Bool := tx.isZerocoinSpend || tx.isZerocoinMint

def isCoinBase (tx : CTransaction) : Bool :=
  match tx.vin with
  | [txin] => txin.prevout.isNull && !tx.containsZerocoins
  | _ => false

/-- ppcoin: the coin stake transaction is marked with the first output empty. -/
def isCoinStake (tx : CTransaction) : Bool :=
  match tx.vin with
  | [] => false
  | txin :: _ =>
    let fAllowNull := txin.scriptSig.isZerocoinSpend
    if txin.prevout.isNull && !fAllowNull then false
    else decide (2 ≤ tx.vout.length) && (tx.vout.head?.any CTxOut.isEmpty)

/-- The loop of `GetValueOut` from a partial sum; `none` is the exception it throws on a
negative output and when the sum leaves `int64_t`. -/
def addValueOut (nValueOut : Int) : List CTxOut → Option Int
  | [] => some nValueOut
  | txout :: rest =>
    if txout.nValue < 0 then none
    else if 2 ^ 63 ≤ nValueOut + txout.nValue then none
    else addValueOut (nValueOut + txout.nValue) rest

def getValueOut (tx : CTransaction) : Option Int := addValueOut 0 tx.vout

/-- Sum of the denominations of the zerocoin spends among the inputs. -/
def getZerocoinSpent (tx : CTransaction) : Int :=
  if tx.isZerocoinSpend then
    ((tx.vin.filter (·.scriptSig.isZerocoinSpend)).map (fun txin => (txin.nSequence : Int) * COIN)).sum
  else 0

/-- The value of the first mint output only. -/
def getZerocoinMinted (tx : CTransaction) : Int :=
  ((tx.vout.find? CTxOut.isZerocoinMint).map CTxOut.nValue).getD 0

theorem addValueOut_eq_some {outs : List CTxOut} {start total : Int}
    (h : addValueOut start outs = some total) :
    (∀ o ∈ outs, 0 ≤ o.nValue) ∧ total = start + (outs.map CTxOut.nValue).sum := by
  induction outs generalizing start with
  | nil => simpa [addValueOut, eq_comm] using h
  | cons o rest ih =>
    simp only [addValueOut] at h
    split_ifs at h with hneg hwrap
    obtain ⟨hrest, htotal⟩ := ih h
    refine ⟨?_, ?_⟩
    · intro x hx
      rcases List.mem_cons.mp hx with rfl | hx
      · omega
      · exact hrest x hx
    · rw [htotal, List.map_cons, List.sum_cons]
      ring

theorem getValueOut_eq_some {tx : CTransaction} {total : Int}
    (h : tx.getValueOut = some total) :
    (∀ o ∈ tx.vout, 0 ≤ o.nValue) ∧ total = (tx.vout.map CTxOut.nValue).sum := by
  simpa using addValueOut_eq_some h

end CTransaction

/-- Header fields and transactions of a block. -/
structure CBlock where
  hash : Uint256
  nVersion : Int
  hashPrevBlock : Uint256
  hashMerkleRoot : Uint256
  nTime : UInt32
  nBits : UInt32
  nNonce : UInt32
  nAccumulatorCheckpoint : Uint256
  vtx : List CTransaction
deriving DecidableEq, Repr

namespace CBlock

def getBlockTime (block : CBlock) : Int := block.nTime.toNat

/-- ppcoin: two types of block, proof-of-work or proof-of-stake. -/
def isProofOfStake (block : CBlock) : Bool :=
  match block.vtx with
  | _ :: tx :: _ => tx.isCoinStake
  | _ => false

def isProofOfWork (block : CBlock) : Bool := !block.isProofOfStake

end CBlock
end Lytix
