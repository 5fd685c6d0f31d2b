import Lytix.Chain.BlockIndex
import Lytix.Coins.Coins
import Lytix.Params.ChainParams

/-! What a node looks a stake up in, the kernel stake modifier, and the two kinds of stake
input. Functions with out-parameters return them, and `none` where the code returns false. -/
namespace Lytix
open Ancestry

structure Node where
  network : Network
  view : ChainView
  mempool : Uint256 → Option CTransaction
  mempool_hash : ∀ hash tx, mempool hash = some tx → tx.hash = hash
  fTxIndex : Bool
  /-- `ReadTxIndex` with the block hash and the transaction read at that place. -/
  txIndex : Uint256 → Option (Uint256 × CTransaction)
  /-- `pcoinsTip->AccessCoins`. -/
  accessCoins : Uint256 → Option CCoins
  /-- The block stored at the position that an index entry gives. -/
  readBlockFromDisk : Uint256 → Option CBlock

/-- A memory pool without transactions. -/
theorem mempool_hash_none (hash : Uint256) (tx : CTransaction) :
    none = some tx → tx.hash = hash := by
  intro h
  contradiction

namespace Node

variable (node : Node)

/-- The transaction and its block. The block's hash stays zero for one in the memory pool. -/
def getTransaction (hash : Uint256) : Option (CTransaction × Uint256) :=
  match node.mempool hash with
  | some tx => some (tx, 0)
  | none =>
    if node.fTxIndex then
      match node.txIndex hash with
      | some (hashBlock, tx) => if tx.hash = hash then some (tx, hashBlock) else none
      | none => none
    else
      let nHeight := ((node.accessCoins hash).map CCoins.nHeight).getD (-1)
      if nHeight ≤ 0 then none
      else
        match node.view.chainAt nHeight with
        | none => none
        | some pindexSlow =>
          match node.readBlockFromDisk pindexSlow with
          | none => none
          | some block =>
            if block.hash ≠ pindexSlow then none
            else (block.vtx.find? fun tx => tx.hash == hash).map fun tx => (tx, pindexSlow)

variable {node : Node} {hash hashBlock : Uint256} {tx : CTransaction}

theorem getTransaction_hash (h : node.getTransaction hash = some (tx, hashBlock)) :
    tx.hash = hash := by
  unfold getTransaction at h
  split at h
  · rename_i txPool hpool
    simp only [Option.some.injEq, Prod.mk.injEq] at h
    rw [← h.1]
    exact node.mempool_hash hash txPool hpool
  · split_ifs at h
    · split at h
      · split_ifs at h with heq
        simp only [Option.some.injEq, Prod.mk.injEq] at h
        rw [← h.1]
        exact heq
      · contradiction
    · dsimp only at h
      split_ifs at h
      split at h
      · contradiction
      · split at h
        · contradiction
        · split_ifs at h
          simp only [Option.map_eq_some_iff, Prod.mk.injEq] at h
          obtain ⟨found, hfound, rfl, -⟩ := h
          have heq := List.find?_some hfound
          exact beq_iff_eq.mp heq

end Node

def MODIFIER_INTERVAL : Nat := 60
def MODIFIER_INTERVAL_RATIO : Nat := 3

/-- Stake modifier selection interval section, in seconds; the interval version is the same on
all networks. -/
def getStakeModifierSelectionIntervalSection (nSection : Nat) : Nat :=
  MODIFIER_INTERVAL * 63 / (63 + (63 - nSection) * ( MODIFIER_INTERVAL_RATIO - 1))

def getStakeModifierSelectionInterval : Nat :=
  ((List.range 64).map getStakeModifierSelectionIntervalSection).sum

namespace ChainView

variable (view : ChainView)

/-- The loop of `GetKernelStakeModifier` from the entry it stands on. The third argument is what
is left of the active chain, whose head is `pindexNext`. -/
def kernelModifierLoop (nTimeStop : Int) (pindex : Uint256) (nStakeModifierTime : Int) :
    List Uint256 → Option Uint256
  | [] => if nStakeModifierTime < nTimeStop then none else some pindex
  | pindexNext :: rest =>
    if nStakeModifierTime < nTimeStop then
      let entry := view.index pindexNext
      kernelModifierLoop nTimeStop pindexNext
        (if entry.generatedStakeModifier then entry.getBlockTime else nStakeModifierTime) rest
    else some pindex

/-- The entry whose modifier hashes the kernels of the coins of a block. -/
def kernelModifierBlock (hashBlockFrom : Uint256) : Option Uint256 :=
  if !view.mapBlockIndex hashBlockFrom then none
  else
    let pindexFrom := view.index hashBlockFrom
    view.kernelModifierLoop (pindexFrom.getBlockTime + getStakeModifierSelectionInterval)
      hashBlockFrom pindexFrom.getBlockTime (view.chainActive.drop (pindexFrom.nHeight + 1))

def getKernelStakeModifier (hashBlockFrom : Uint256) : Option UInt64 :=
  (view.kernelModifierBlock hashBlockFrom).map fun pindex => (view.index pindex).nStakeModifier

/-- The loop of `GetChecksumHeight` from a height. The height grows in every round, so the
length of the chain bounds the rounds. -/
def checksumHeightLoop (nChecksum : UInt32) (denomination : CoinDenomination) :
    Nat → Nat → Nat
  | 0, _ => 0
  | rounds + 1, nHeight =>
    match view.chainActive[nHeight]? with
    | none => 0
    | some pindex =>
      if parseChecksum (view.index pindex).nAccumulatorCheckpoint denomination = nChecksum then
        nHeight
      else if nHeight % 10 = 0 then
        if view.height < nHeight + 10 then 0
        else checksumHeightLoop nChecksum denomination rounds (nHeight + 10)
      else checksumHeightLoop nChecksum denomination rounds (nHeight + 1)

def getChecksumHeight (network : Network) (nChecksum : UInt32) (denomination : CoinDenomination) :
    Nat :=
  view.checksumHeightLoop nChecksum denomination view.chainActive.length
    (Params network).nZerocoinStartHeight.toNat

/-- The loop of `CZPivStake::GetModifier` over the chain from the block staked from. -/
def accumulatorModifierLoop (nTimeBlockFrom : Int) : List Uint256 → Option UInt64
  | [] => none
  | pindex :: rest =>
    let entry := view.index pindex
    if 60 * 60 < entry.getBlockTime - nTimeBlockFrom then
      some (UInt64.ofNat entry.nAccumulatorCheckpoint.toNat)
    else accumulatorModifierLoop nTimeBlockFrom rest

end ChainView

/-- Little-endian serialization in `n` bytes. -/
def leBytes (n : Nat) (x : Nat) : List UInt8 :=
  (List.range n).map fun i => UInt8.ofNat (x / 256 ^ i)

inductive CStakeInput where
  | piv (txFrom : CTransaction) (nPosition : Nat)
  | zpiv (nChecksum : UInt32) (fMint : Bool) (denom : CoinDenomination) (hashSerial : Uint256)
deriving DecidableEq, Repr

namespace CStakeInput

def isZPIV : CStakeInput → Bool
  | .piv _ _ => false
  | .zpiv _ _ _ _ => true

/-- The checksum at the required depth, for a mint about to be staked. -/
def getChecksumHeightFromMint (node : Node) (denom : CoinDenomination) : Nat :=
  let nHeightChecksum :=
    node.view.height - (Params node.network).nZerocoinRequiredStakeDepth
  match node.view.chainAt nHeightChecksum with
  | none => 0
  | some pindex =>
    node.view.getChecksumHeight node.network
      (parseChecksum (node.view.index pindex).nAccumulatorCheckpoint denom) denom

def getIndexFrom (node : Node) : CStakeInput → Option Uint256
  | .piv txFrom _ =>
    match node.getTransaction txFrom.hash with
    | none => none
    | some (_, hashBlock) =>
      if node.view.mapBlockIndex hashBlock && node.view.contains hashBlock then some hashBlock
      else none
  | .zpiv nChecksum fMint denom _ =>
    let nHeightChecksum :=
      if fMint then getChecksumHeightFromMint node denom
      else node.view.getChecksumHeight node.network nChecksum denom
    if (nHeightChecksum : Int) < (Params node.network).nZerocoinStartHeight ∨
        node.view.height < nHeightChecksum then none
    else node.view.chainAt nHeightChecksum

def getModifier (node : Node) (stake : CStakeInput) : Option UInt64 :=
  match stake, stake.getIndexFrom node with
  | _, none => none
  | .piv _ _, some pindexFrom => node.view.getKernelStakeModifier pindexFrom
  | .zpiv _ _ _ _, some pindex =>
    let entry := node.view.index pindex
    node.view.accumulatorModifierLoop entry.getBlockTime (node.view.chainActive.drop entry.nHeight)

def getValue : CStakeInput → Int
  | .piv txFrom nPosition => ((txFrom.vout[nPosition]?).map CTxOut.nValue).getD 0
  | .zpiv _ _ denom _ => denom.toAmount

def getUniqueness : CStakeInput → List UInt8
  | .piv txFrom nPosition => leBytes 4 nPosition ++ leBytes 32 txFrom.hash.toNat
  | .zpiv _ _ _ hashSerial => leBytes 32 hashSerial.toNat

end CStakeInput
end Lytix

/-! Production (`Stake`) and verification (`CheckProofOfStake`) of a stake kernel. -/
namespace Lytix

/-- Code the kernel rests on: the double hash, the script interpreter and the parser of coin
spends, which throws on a malformed one. -/
structure KernelEnv where
  hash : List UInt8 → Uint256
  verifyScript : Script → Script → CTransaction → Bool
  txInToZerocoinSpend : CTxIn → Option CoinSpend

def nStakeMinAge : UInt32 := 15 * 60
def nHashDrift : Nat := 30

/-- `uint256::SetCompact`, without its two flags. -/
def setCompact (nCompact : UInt32) : Uint256 :=
  let nSize := nCompact.toNat / 2 ^ 24
  let nWord := nCompact.toNat % 2 ^ 23
  if nSize ≤ 3 then BitVec.ofNat 256 (nWord / 2 ^ (8 * (3 - nSize)))
  else BitVec.ofNat 256 nWord <<< (8 * (nSize - 3))

/-- Test hash against target; the stake weight is the coin amount. The product wraps. -/
def stakeTargetHit (hashProofOfStake : Uint256) (nValueIn : Int) (bnTargetPerCoinDay : Uint256) :
    Bool :=
  let bnCoinDayWeight : Uint256 := (BitVec.ofInt 64 nValueIn).setWidth 256 / 100
  decide (hashProofOfStake < bnCoinDayWeight * bnTargetPerCoinDay)

/-- Whether the kernel hash meets the target, with the hash. -/
def checkStake (env : KernelEnv) (ssUniqueID : List UInt8) (nValueIn : Int)
    (nStakeModifier : UInt64) (bnTarget : Uint256) (nTimeBlockFrom nTimeTx : UInt32) :
    Bool × Uint256 :=
  let hashProofOfStake := env.hash (leBytes 8 nStakeModifier.toNat ++
    leBytes 4 nTimeBlockFrom.toNat ++ ssUniqueID ++ leBytes 4 nTimeTx.toNat)
  (stakeTargetHit hashProofOfStake nValueIn bnTarget, hashProofOfStake)

/-- `nTryTime` of an iteration. -/
def nTryTime (nTimeTx : UInt32) (i : Nat) : UInt32 :=
  nTimeTx + UInt32.ofNat nHashDrift - UInt32.ofNat i

/-- Iterate the hashing over `nHashDrift` seconds after `nTimeTx`, the latest first. -/
def stakeLoop (check : UInt32 → Bool × Uint256) (nTimeTx : UInt32) :
    Option (UInt32 × Uint256) :=
  ((List.range nHashDrift).find? fun i => (check (nTryTime nTimeTx i)).1).map fun i =>
    (nTryTime nTimeTx i, (check (nTryTime nTimeTx i)).2)

/-- The time and hash of the kernel found from `nTimeTx` on. -/
def stake (env : KernelEnv) (node : Node) (stakeInput : CStakeInput) (nBits : UInt32)
    (nTimeBlockFrom nTimeTx : UInt32) : Option (UInt32 × Uint256) :=
  if nTimeTx < nTimeBlockFrom then none
  else if nTimeTx < nTimeBlockFrom + nStakeMinAge then none
  else
    match stakeInput.getModifier node with
    | none => none
    | some nStakeModifier =>
      stakeLoop (checkStake env stakeInput.getUniqueness stakeInput.getValue nStakeModifier
        (setCompact nBits) nTimeBlockFrom) nTimeTx

/-- The stake input that the kernel input of a coinstake stands for. -/
def kernelStakeInput (env : KernelEnv) (node : Node) (tx : CTransaction) (txin : CTxIn) :
    Option CStakeInput :=
  if tx.isZerocoinSpend then
    match env.txInToZerocoinSpend txin with
    | none => none
    | some spend =>
      if spend.spendType ≠ .STAKE then none
      else some (.zpiv spend.accChecksum false spend.denomination
        (env.hash (leBytes 32 (getuint256 spend.coinSerialNumber).toNat)))
  else
    match node.getTransaction txin.prevout.hash with
    | none => none
    | some (txPrev, _) =>
      match txPrev.vout[txin.prevout.n]? with
      -- the code reads outside the vector here
      | none => none
      | some out =>
        if !env.verifyScript txin.scriptSig out.scriptPubKey tx then none
        else some (.piv txPrev txin.prevout.n)

/-- The block a stake comes from, as it is read from disk. -/
def CStakeInput.blockFrom (node : Node) (stakeInput : CStakeInput) : Option CBlock :=
  (stakeInput.getIndexFrom node).bind node.readBlockFromDisk

/-- The proof hash and the stake of an accepted block. -/
def checkProofOfStake (env : KernelEnv) (node : Node) (block : CBlock) :
    Option (Uint256 × CStakeInput) :=
  match block.vtx with
  | _ :: tx :: _ =>
    if !tx.isCoinStake then none
    else
      match tx.vin with
      | [] => none
      | txin :: _ =>
        match kernelStakeInput env node tx txin with
        | none => none
        | some stakeInput =>
          match stakeInput.blockFrom node with
          | none => none
          | some blockprev =>
            match stakeInput.getModifier node with
            | none => none
            | some nStakeModifier =>
              let (hit, hashProofOfStake) := checkStake env stakeInput.getUniqueness
                stakeInput.getValue nStakeModifier (setCompact block.nBits) blockprev.nTime
                block.nTime
              if hit then some (hashProofOfStake, stakeInput) else none
  | _ => none

end Lytix
