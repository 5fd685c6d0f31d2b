import Lytix.Chain.BlockIndex
import Lytix.Kernel.StakeInput

/-! The block index with the active chain, the candidates for its tip and the blocks that wait for
data of their ancestors, and the operations on them. A pointer to an entry is the block's hash. -/
namespace Lytix

/-- The genesis block, and where in memory the entry of a block is: the order of the candidates
breaks ties by the addresses. -/
structure ChainEnv where
  hashGenesisBlock : Uint256
  address : Uint256 → Nat
  address_injective : Function.Injective address

/-- How `ConnectTip` ends: the block is connected, it breaks a rule, or there was an error that says
nothing about the block. -/
inductive ConnectTipOutcome where
  | connected
  | invalid (corruptionPossible : Bool)
  | error
deriving DecidableEq

structure ChainState where
  mapBlockIndex : List Uint256 := []
  index : Uint256 → CBlockIndex := fun _ => {}
  pskip : Uint256 → Option Uint256 := fun _ => none
  chainActive : List Uint256 := []
  setBlockIndexCandidates : List Uint256 := []
  mapBlocksUnlinked : List (Uint256 × Uint256) := []
  nBlockSequenceId : Nat := 1

def invertLowestOne (n : Nat) : Nat := n &&& (n - 1)

/-- The height that `pskip` jumps back to. -/
def getSkipHeight (height : Nat) : Nat :=
  if height < 2 then 0
  else if height % 2 = 1 then invertLowestOne (invertLowestOne (height - 1)) + 1
  else invertLowestOne height

/-- `GetBlockProof`: a target that is negative, overflows or is zero proves nothing. -/
def getBlockProof (nBits : UInt32) : Nat :=
  let nSize := nBits.toNat / 2 ^ 24
  let nMantissa := nBits.toNat % 2 ^ 23
  let nWord := if nSize ≤ 3 then nMantissa / 2 ^ (8 * (3 - nSize)) else nMantissa
  let fNegative := nWord ≠ 0 ∧ nBits.toNat.testBit 23
  let fOverflow := nWord ≠ 0 ∧ (34 < nSize ∨ 0xff < nWord ∧ 33 < nSize ∨ 0xffff < nWord ∧ 32 < nSize)
  let bnTarget := (setCompact nBits).toNat
  if fNegative ∨ fOverflow ∨ bnTarget = 0 then 0
  else (2 ^ 256 - 1 - bnTarget) / (bnTarget + 1) + 1

namespace ChainState

variable (env : ChainEnv) (s : ChainState)

def pprev (pindex : Uint256) : Option Uint256 := (s.index pindex).pprev

def tip : Option Uint256 := s.chainActive.getLast?

def contains (pindex : Uint256) : Bool :=
  s.chainActive[(s.index pindex).nHeight]? == some pindex

/-- Change one entry. -/
def modify (pindex : Uint256) (change : CBlockIndex → CBlockIndex) : ChainState :=
  { s with index := Function.update s.index pindex (change (s.index pindex)) }

/-- `CBlockIndexWorkComparator`: the first is the worse tip. -/
def worse (pa pb : Uint256) : Bool :=
  let a := s.index pa
  let b := s.index pb
  if b.nChainWork < a.nChainWork then false
  else if a.nChainWork < b.nChainWork then true
  else if a.nSequenceId < b.nSequenceId then false
  else if b.nSequenceId < a.nSequenceId then true
  else decide (env.address pb < env.address pa)

def insertCandidate (pindex : Uint256) : ChainState :=
  { s with setBlockIndexCandidates :=
      if pindex ∈ s.setBlockIndexCandidates then s.setBlockIndexCandidates
      else pindex :: s.setBlockIndexCandidates }

def eraseCandidates (pindexes : List Uint256) : ChainState :=
  { s with setBlockIndexCandidates :=
      s.setBlockIndexCandidates.filter fun pindex => !pindexes.contains pindex }

/-! `GetAncestor` over the skip list. -/

/-- Only follow `pskip` if `pprev->pskip` is not better than `pskip->pprev`. -/
def followsSkip (height heightWalk : Nat) : Bool :=
  let heightSkip := getSkipHeight heightWalk
  let heightSkipPrev := getSkipHeight (heightWalk - 1)
  decide (heightSkip = height) || decide (height < heightSkip) &&
    !(decide (heightSkipPrev < heightSkip - 2) && decide (height ≤ heightSkipPrev))

/-- The walk from an entry of the height `heightWalk`, which falls in every round. -/
def ancestorWalk (height : Nat) : Nat → Uint256 → Nat → Option Uint256
  | 0, pindexWalk, _ => some pindexWalk
  | rounds + 1, pindexWalk, heightWalk =>
    if heightWalk ≤ height then some pindexWalk
    else if followsSkip height heightWalk then
      (s.pskip pindexWalk).bind fun p => ancestorWalk height rounds p (getSkipHeight heightWalk)
    else (s.pprev pindexWalk).bind fun p => ancestorWalk height rounds p (heightWalk - 1)

def getAncestor (pindex : Uint256) (height : Nat) : Option Uint256 :=
  if (s.index pindex).nHeight < height then none
  else s.ancestorWalk height (s.index pindex).nHeight pindex (s.index pindex).nHeight

/-! The active chain. -/

/-- The loop of `SetTip`: go back to the entry that is in its place. -/
def fillChain : Nat → Uint256 → List Uint256 → List Uint256
  | 0, _, above => above
  | rounds + 1, pindex, above =>
    if s.contains pindex then s.chainActive.take ((s.index pindex).nHeight + 1) ++ above
    else
      match s.pprev pindex with
      | none => pindex :: above
      | some p => fillChain rounds p (pindex :: above)

def setTip (pindex : Option Uint256) : ChainState :=
  { s with chainActive :=
      match pindex with
      | none => []
      | some pindex => s.fillChain ((s.index pindex).nHeight + 1) pindex [] }

/-- `DisconnectTip`, which moves the tip to its predecessor. -/
def disconnectTip : ChainState := s.setTip (s.tip.bind s.pprev)

/-- `ConnectTip` where the block is connected. -/
def connectTip (pindexNew : Uint256) : ChainState :=
  let connected := if 0 < (s.index pindexNew).nHeight then
      s.modify pindexNew fun entry => entry.raiseValidity BLOCK_VALID_SCRIPTS
    else s
  connected.setTip (some pindexNew)

def setFailedValid (entry : CBlockIndex) : CBlockIndex :=
  { entry with nStatus := { entry.nStatus with failedValid := true } }

def setFailedChild (entry : CBlockIndex) : CBlockIndex :=
  { entry with nStatus := { entry.nStatus with failedChild := true } }

def clearFailed (entry : CBlockIndex) : CBlockIndex :=
  { entry with nStatus := { entry.nStatus with failedValid := false, failedChild := false } }

/-! New entries, and the data of blocks. -/

/-- `AddToBlockIndex`, on the predecessor if it is known. -/
def addToBlockIndex (block : CBlock) : ChainState :=
  if block.hash ∈ s.mapBlockIndex then s
  else
    let prev := if block.hashPrevBlock ∈ s.mapBlockIndex then some block.hashPrevBlock else none
    let nHeight := (prev.map fun p => (s.index p).nHeight + 1).getD 0
    let nPrevWork := (prev.map fun p => (s.index p).nChainWork).getD 0
    let pindexNew : CBlockIndex :=
      { pprev := prev
        nHeight := nHeight
        nVersion := block.nVersion
        nTime := block.nTime
        nBits := block.nBits
        nAccumulatorCheckpoint := block.nAccumulatorCheckpoint
        nChainWork := (nPrevWork + getBlockProof block.nBits) % 2 ^ 256
        nStatus := { valid := BLOCK_VALID_TREE } }
    { s with
      mapBlockIndex := block.hash :: s.mapBlockIndex
      index := Function.update s.index block.hash pindexNew
      pskip := Function.update s.pskip block.hash
        (prev.bind fun p => s.getAncestor p (getSkipHeight nHeight)) }

/-- The chain of a block has all data: count its transactions, and let no block wait for it. -/
def countBlock (pindex : Uint256) : ChainState :=
  let nPrevTx := ((s.pprev pindex).map fun p => (s.index p).nChainTx).getD 0
  { s.modify pindex fun entry =>
      { entry with nChainTx := nPrevTx + entry.nTx, nSequenceId := s.nBlockSequenceId } with
    nBlockSequenceId := s.nBlockSequenceId + 1
    mapBlocksUnlinked := s.mapBlocksUnlinked.filter fun pair => pair.1 ≠ pindex }

/-- One round of the loop of `ReceivedBlockTransactions`. -/
def linkBlock (pindex : Uint256) : ChainState :=
  let counted := s.countBlock pindex
  if counted.tip.all fun tip => !counted.worse env pindex tip then counted.insertCandidate pindex
  else counted

/-- The loop of `ReceivedBlockTransactions`. A block comes to the queue from `mapBlocksUnlinked`,
whose length bounds the rounds. -/
def linkBlocks : Nat → List Uint256 → ChainState → ChainState
  | rounds + 1, pindex :: queue, s =>
    let waiting := (s.mapBlocksUnlinked.filter fun pair => pair.1 = pindex).map Prod.snd
    linkBlocks rounds (queue ++ waiting) (s.linkBlock env pindex)
  | _, _, s => s

/-- The entry of a block whose data is stored. -/
def storeData (nTx : Nat) (entry : CBlockIndex) : CBlockIndex :=
  ({ entry with
    nTx := nTx
    nChainTx := 0
    nStatus := { entry.nStatus with haveData := true } }).raiseValidity BLOCK_VALID_TRANSACTIONS

/-- `ReceivedBlockTransactions` of a block with `nTx` transactions. -/
def receivedBlockTransactions (pindexNew : Uint256) (nTx : Nat) : ChainState :=
  let received := s.modify pindexNew (storeData nTx)
  match received.pprev pindexNew with
  | none => linkBlocks env (received.mapBlocksUnlinked.length + 1) [pindexNew] received
  | some p =>
    if (received.index p).nChainTx ≠ 0 then
      linkBlocks env (received.mapBlocksUnlinked.length + 1) [pindexNew] received
    else if (received.index p).isValid BLOCK_VALID_TREE then
      { received with mapBlocksUnlinked := (p, pindexNew) :: received.mapBlocksUnlinked }
    else received

/-! Blocks that are declared invalid, or valid again. -/

/-- The blocks of the map that pass a test become candidates. -/
def insertCandidates (test : Uint256 → Bool) : ChainState :=
  (s.mapBlockIndex.filter test).foldl insertCandidate s

/-- The loop of `InvalidateBlock`: disconnect the active chain down to below the block. -/
def disconnectFrom (pindex : Uint256) : Nat → ChainState → ChainState
  | 0, s => s
  | rounds + 1, s =>
    if s.contains pindex then
      match s.tip with
      | none => s
      | some pindexWalk =>
        let failed := (s.modify pindexWalk setFailedChild).eraseCandidates [pindexWalk]
        disconnectFrom pindex rounds failed.disconnectTip
    else s

/-- `InvalidateBlock`; `none` where no tip is left, which the code reads all the same. -/
def invalidateBlock (pindex : Uint256) : Option ChainState :=
  let failed := (s.modify pindex setFailedValid).eraseCandidates [pindex]
  let disconnected := disconnectFrom pindex failed.chainActive.length failed
  disconnected.tip.map fun tip => disconnected.insertCandidates fun x =>
    (disconnected.index x).isValid BLOCK_VALID_TRANSACTIONS &&
      decide ((disconnected.index x).nChainTx ≠ 0) && !disconnected.worse env x tip

/-- The entries from a block back to the first one. -/
def ancestors : Nat → Uint256 → List Uint256
  | 0, _ => []
  | rounds + 1, pindex =>
    pindex :: match s.pprev pindex with
      | none => []
      | some p => ancestors rounds p

/-- Clear the flags of the entries that pass a test. -/
def clearWhere (test : Uint256 → Bool) : ChainState :=
  { s with index := fun x => if test x then clearFailed (s.index x) else s.index x }

/-- The block has failed and is, or is above, the block that is reconsidered. -/
def reconsidered (pindex x : Uint256) : Bool :=
  decide (x ∈ s.mapBlockIndex) && !(s.index x).isValid BLOCK_VALID_TRANSACTIONS &&
    s.getAncestor x (s.index pindex).nHeight == some pindex

/-- `ReconsiderBlock`: the flags of the block, its descendants and its ancestors are cleared. Only
the block and its descendants become candidates. -/
def reconsiderBlock (pindex : Uint256) : ChainState :=
  let cleared := s.clearWhere (s.reconsidered pindex)
  let inserted := cleared.insertCandidates fun x =>
    s.reconsidered pindex x && (cleared.index x).isValid BLOCK_VALID_TRANSACTIONS &&
      decide ((cleared.index x).nChainTx ≠ 0) &&
        cleared.tip.any fun tip => cleared.worse env tip x
  inserted.clearWhere (inserted.ancestors ((s.index pindex).nHeight + 1) pindex).contains

/-! The search for the best chain, and the way to it. -/

/-- The last candidate of the set. -/
def bestCandidate : Option Uint256 :=
  s.setBlockIndexCandidates.foldl (fun best x =>
    match best with
    | none => some x
    | some b => if s.worse env b x then some x else some b) none

/-- The entries from a block back to the active chain. -/
def offChain : Nat → Uint256 → List Uint256
  | 0, _ => []
  | rounds + 1, pindex =>
    if s.contains pindex then []
    else
      pindex :: match s.pprev pindex with
        | none => []
        | some p => offChain rounds p

/-- The blocks between a block and the active chain, the block first. -/
def pathToChain (pindex : Uint256) : List Uint256 :=
  s.offChain ((s.index pindex).nHeight + 1) pindex

/-- `FindFork`: where the way back from a block meets the active chain. -/
def findFork (pindex : Uint256) : Option Uint256 :=
  match (s.pathToChain pindex).getLast? with
  | none => some pindex
  | some first => s.pprev first

def usable (pindex : Uint256) : Bool :=
  !(s.index pindex).nStatus.failed && (s.index pindex).nStatus.haveData

/-- Remove the chain of a candidate down to the block that is not usable. -/
def dropChain (above : List Uint256) (pindexTest : Uint256) : ChainState :=
  let marked :=
    if (s.index pindexTest).nStatus.failed then
      { s with index := fun x => if x ∈ above then setFailedChild (s.index x) else s.index x }
    else
      { s with mapBlocksUnlinked := above.filterMap (fun x => (s.pprev x).map fun p => (p, x)) ++
          s.mapBlocksUnlinked }
  marked.eraseCandidates (pindexTest :: above)

/-- `FindMostWorkChain`. Every round that finds a block which is not usable removes a candidate. -/
def findMostWorkChain : Nat → ChainState → Option Uint256 × ChainState
  | 0, s => (none, s)
  | rounds + 1, s =>
    match s.bestCandidate env with
    | none => (none, s)
    | some pindexNew =>
      match (s.pathToChain pindexNew).find? fun x => !s.usable x with
      | none => (some pindexNew, s)
      | some pindexTest =>
        findMostWorkChain rounds
          (s.dropChain ((s.pathToChain pindexNew).takeWhile s.usable) pindexTest)

def pruneBlockIndexCandidates : ChainState :=
  { s with setBlockIndexCandidates := s.setBlockIndexCandidates.filter fun x =>
      s.tip.any fun tip => !s.worse env x tip }

/-- Disconnect active blocks down to the fork. -/
def disconnectTo (pindexFork : Option Uint256) : Nat → ChainState → ChainState
  | 0, s => s
  | rounds + 1, s =>
    if s.tip = none ∨ s.tip = pindexFork then s
    else disconnectTo pindexFork rounds s.disconnectTip

/-- `InvalidBlockFound`. -/
def invalidBlockFound (pindex : Uint256) : ChainState :=
  (s.modify pindex setFailedValid).eraseCandidates [pindex]

/-- Connect new blocks until the tip has more work than the old one, and whether there was no
error. The code builds the list of the blocks in pieces of 32. -/
def connectBlocks (connect : ChainState → Uint256 → ConnectTipOutcome)
    (pindexOldTip : Option Uint256) : List Uint256 → ChainState → Bool × ChainState
  | [], s => (true, s)
  | pindexConnect :: rest, s =>
    match connect s pindexConnect with
    | .connected =>
      let connected := (s.connectTip pindexConnect).pruneBlockIndexCandidates env
      if pindexOldTip.all fun old =>
          decide ((connected.index old).nChainWork < (connected.index pindexConnect).nChainWork)
        then (true, connected)
      else connectBlocks connect pindexOldTip rest connected
    | .invalid corruptionPossible =>
      (true, if corruptionPossible then s else s.invalidBlockFound pindexConnect)
    | .error => (false, s)

def activateBestChainStep (connect : ChainState → Uint256 → ConnectTipOutcome)
    (pindexMostWork : Uint256) : Bool × ChainState :=
  connectBlocks env connect s.tip (s.pathToChain pindexMostWork).reverse
    (disconnectTo (s.findFork pindexMostWork) s.chainActive.length s)

/-- `ActivateBestChain`; `none` where it needs more rounds. -/
def activateBestChain (connect : ChainState → Uint256 → ConnectTipOutcome) :
    Nat → ChainState → Option ChainState
  | 0, _ => none
  | rounds + 1, s =>
    match findMostWorkChain env s.setBlockIndexCandidates.length s with
    | (none, found) => some found
    | (some pindexMostWork, found) =>
      if found.tip = some pindexMostWork then some found
      else
        match found.activateBestChainStep env connect pindexMostWork with
        | (false, failed) => some failed
        | (true, stepped) =>
          if stepped.tip = some pindexMostWork then some stepped
          else activateBestChain connect rounds stepped

end ChainState

end Lytix

/-! The assertions of `CheckBlockIndex`, and the steps a node's block index takes from the genesis
block on. -/
namespace Lytix

namespace ChainState

variable (env : ChainEnv) (s : ChainState)

/-- The entries from the first one to this one, as the search through the tree finds them. -/
def pathTo (pindex : Uint256) : List Uint256 :=
  (s.ancestors ((s.index pindex).nHeight + 1) pindex).reverse

/-- The oldest entry on the path that has a property. -/
def firstOnPath (pindex : Uint256) (test : CBlockIndex → Bool) : Option Uint256 :=
  (s.pathTo pindex).find? fun x => test (s.index x)

def firstInvalid (pindex : Uint256) : Option Uint256 :=
  s.firstOnPath pindex fun entry => entry.nStatus.failedValid

def firstMissing (pindex : Uint256) : Option Uint256 :=
  s.firstOnPath pindex fun entry => !entry.nStatus.haveData

/-- The oldest entry above the genesis block whose validity has not reached a level. -/
def firstNotValid (pindex : Uint256) (nLevel : Nat) : Option Uint256 :=
  s.firstOnPath pindex fun entry => entry.pprev.isSome && decide (entry.nStatus.valid < nLevel)

/-- The assertions about one entry. -/
structure EntryChecked (tip pindex : Uint256) : Prop where
  genesis : s.pprev pindex = none →
    pindex = env.hashGenesisBlock ∧ s.chainActive.head? = some pindex
  haveData : (s.index pindex).nStatus.haveData = false ↔ (s.index pindex).nTx = 0
  transactions : BLOCK_VALID_TRANSACTIONS ≤ (s.index pindex).nStatus.valid ↔
    0 < (s.index pindex).nTx
  sequence : (s.index pindex).nChainTx = 0 → (s.index pindex).nSequenceId = 0
  chainTx : s.firstMissing pindex ≠ none ↔ (s.index pindex).nChainTx = 0
  height : (s.index pindex).nHeight + 1 = (s.pathTo pindex).length
  work : ∀ p, s.pprev pindex = some p → (s.index p).nChainWork ≤ (s.index pindex).nChainWork
  skip : 2 ≤ (s.index pindex).nHeight →
    ∃ q ∈ s.pskip pindex, (s.index q).nHeight < (s.index pindex).nHeight
  tree : s.firstNotValid pindex BLOCK_VALID_TREE = none
  chain : BLOCK_VALID_CHAIN ≤ (s.index pindex).nStatus.valid →
    s.firstNotValid pindex BLOCK_VALID_CHAIN = none
  scripts : BLOCK_VALID_SCRIPTS ≤ (s.index pindex).nStatus.valid →
    s.firstNotValid pindex BLOCK_VALID_SCRIPTS = none
  notFailed : s.firstInvalid pindex = none → (s.index pindex).nStatus.failed = false
  candidate : s.worse env pindex tip = false → s.firstMissing pindex = none →
    s.firstInvalid pindex = none → pindex ∈ s.setBlockIndexCandidates
  notCandidate : s.worse env pindex tip = true ∨ s.firstMissing pindex ≠ none →
    pindex ∉ s.setBlockIndexCandidates
  unlinked : ∀ p, s.pprev pindex = some p → (s.index pindex).nStatus.haveData = true →
    s.firstMissing pindex ≠ none → s.firstInvalid pindex = none → (p, pindex) ∈ s.mapBlocksUnlinked
  notUnlinked : (s.index pindex).nStatus.haveData = false ∨ s.firstMissing pindex = none →
    ∀ p, s.pprev pindex = some p → (p, pindex) ∉ s.mapBlocksUnlinked

/-- `CheckBlockIndex`: one entry has no predecessor, every entry is above it, and every entry is
right. -/
structure CheckBlockIndex : Prop where
  noTip : s.tip = none → s.mapBlockIndex.length ≤ 1
  oneRoot : ∀ x ∈ s.mapBlockIndex, ∀ y ∈ s.mapBlockIndex, s.pprev x = none → s.pprev y = none → x = y
  traversed : ∀ x ∈ s.mapBlockIndex, ∃ root ∈ s.mapBlockIndex,
    (s.pathTo x).head? = some root ∧ s.pprev root = none
  entries : ∀ tip ∈ s.tip, ∀ x ∈ s.mapBlockIndex, EntryChecked env s tip x

/-- The candidates have every block that has all data, has not failed and is not below one that has,
and is not worse than the tip; the blocks that wait are those with data whose parent chain lacks
some. -/
structure CandidatesComplete : Prop where
  candidates : ∀ tip ∈ s.tip, ∀ x ∈ s.mapBlockIndex, (s.index x).nChainTx ≠ 0 →
    (∀ a ∈ s.pathTo x, (s.index a).nStatus.failed = false) → s.worse env x tip = false →
      x ∈ s.setBlockIndexCandidates
  unlinked : ∀ p x, (p, x) ∈ s.mapBlocksUnlinked ↔
    x ∈ s.mapBlockIndex ∧ s.pprev x = some p ∧ (s.index x).nStatus.haveData = true ∧
      ∃ a ∈ s.pathTo p, (s.index a).nStatus.haveData = false

/-- The state after `InitBlockIndex`. -/
def initBlockIndex (genesis : CBlock) : ChainState :=
  let added := ({} : ChainState).addToBlockIndex genesis
  let received := added.receivedBlockTransactions env genesis.hash genesis.vtx.length
  (received.connectTip genesis.hash).pruneBlockIndexCandidates env

/-- What `AcceptBlock` checked of a block before its data is received. -/
def acceptsData (block : CBlock) : Bool :=
  decide (block.hash ∈ s.mapBlockIndex) && !(s.index block.hash).nStatus.haveData &&
    !(s.index block.hash).nStatus.failed && !(s.index block.hashPrevBlock).nStatus.failed &&
      (s.index block.hash).pprev == some block.hashPrevBlock &&
        (s.index block.hash).nBits == block.nBits && decide (0 < getBlockProof block.nBits) &&
          !block.vtx.isEmpty

end ChainState

inductive ChainEvent where
  | addToBlockIndex (block : CBlock)
  | receivedBlockTransactions (block : CBlock)
  | invalidateBlock (pindex : Uint256)
  | reconsiderBlock (pindex : Uint256)
  | activateBestChain (connect : ChainState → Uint256 → ConnectTipOutcome) (rounds : Nat)

/-- A step, if it comes to an end. Headers of unknown predecessors, data that `AcceptBlock` refuses
and unknown blocks change nothing. -/
def ChainState.step (env : ChainEnv) (s : ChainState) : ChainEvent → Option ChainState
  | .addToBlockIndex block =>
    some (if block.hashPrevBlock ∈ s.mapBlockIndex then s.addToBlockIndex block else s)
  | .receivedBlockTransactions block =>
    some (if s.acceptsData block then
      s.receivedBlockTransactions env block.hash block.vtx.length else s)
  | .invalidateBlock pindex =>
    if pindex ∈ s.mapBlockIndex then s.invalidateBlock env pindex else some s
  | .reconsiderBlock pindex =>
    some (if pindex ∈ s.mapBlockIndex then s.reconsiderBlock env pindex else s)
  | .activateBestChain connect rounds => s.activateBestChain env connect rounds

/-- The states that are reached from the genesis block by steps that meet a condition. -/
inductive ChainRun (env : ChainEnv) (ok : ChainState → ChainEvent → Prop) : ChainState → Prop
  | start (genesis : CBlock) (hash : genesis.hash = env.hashGenesisBlock)
      (vtx : genesis.vtx ≠ []) : ChainRun env ok (ChainState.initBlockIndex env genesis)
  | step {s s' : ChainState} {event : ChainEvent} (run : ChainRun env ok s) (hok : ok s event)
      (hstep : s.step env event = some s') : ChainRun env ok s'

end Lytix
