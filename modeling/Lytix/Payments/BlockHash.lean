import Mathlib.Data.List.Sort
import Lytix.Kernel.ModifierAgreement
import Lytix.Lib.Memo

/-! `GetBlockHash`, which remembers its answers by height, and the scores and ranks of masternodes
that are computed from it. Nothing clears what it remembers when blocks are disconnected. -/
namespace Lytix
open Ancestry

/-- `mapCacheBlockHashes`. -/
abbrev BlockHashCache := Int → Option Uint256

namespace ChainView

variable (view : ChainView)

/-- The loop of `GetBlockHash`: back by `nBlocksAgo` blocks, but not to the genesis block. -/
def blocksAgo (blockReading : Uint256) (nBlocksAgo : Nat) : Option Uint256 :=
  if (view.index blockReading).nHeight = 0 then none
  else
    match nBlocksAgo with
    | 0 => some blockReading
    | n + 1 => (view.pprev blockReading).bind fun pprev => blocksAgo pprev n

def getBlockHash (cache : BlockHashCache) (nBlockHeight : Int) :
    Option Uint256 × BlockHashCache :=
  match view.tip with
  | none => (none, cache)
  | some tip =>
    let nTipHeight : Int := (view.index tip).nHeight
    let nBlockHeight := if nBlockHeight = 0 then nTipHeight else nBlockHeight
    match cache nBlockHeight with
    | some hash => (some hash, cache)
    | none =>
      if nTipHeight = 0 ∨ nTipHeight + 1 < nBlockHeight then (none, cache)
      else
        let nBlocksAgo := if 0 < nBlockHeight then (nTipHeight + 1 - nBlockHeight).toNat else 0
        match view.blocksAgo tip nBlocksAgo with
        | some hash => (some hash, Function.update cache nBlockHeight (some hash))
        | none => (none, cache)

end ChainView

/-- `uint256::GetCompact(false)`. -/
def getCompact (n : Uint256) : Nat :=
  let nSize := (n.toNat.size + 7) / 8
  let nCompact :=
    if nSize ≤ 3 then n.toNat * 2 ^ (8 * (3 - nSize)) else n.toNat / 2 ^ (8 * (nSize - 3))
  -- bit 23 denotes the sign
  if nCompact.testBit 23 then nCompact / 2 ^ 8 ||| (nSize + 1) * 2 ^ 24
  else nCompact ||| nSize * 2 ^ 24

structure CMasternode where
  vin : CTxIn
  protocolVersion : Int
  sigTime : Int

def MN_WINNER_MINIMUM_AGE : Int := 8000

/-- The hashes of a block hash alone and with a number, the masternode list, sporks and
`GetAdjustedTime()`, and whether a masternode is enabled after `Check()`. -/
structure RankEnv where
  hashBlockHash : Uint256 → Uint256
  hashBlockHashWith : Uint256 → Uint256 → Uint256
  vMasternodes : List CMasternode
  sporks : Sporks
  adjustedTime : Int
  enabled : CMasternode → Bool

section rank
variable (env : RankEnv) (view : ChainView)

def calculateScore (cache : BlockHashCache) (mn : CMasternode) (nBlockHeight : Int) :
    Uint256 × BlockHashCache :=
  if view.tip = none then (0, cache)
  else
    let aux := mn.vin.prevout.hash + BitVec.ofNat 256 mn.vin.prevout.n
    let result := view.getBlockHash cache (toInt32 nBlockHeight)
    match result.1 with
    | none => (0, result.2)
    | some hash =>
      let hash2 := env.hashBlockHash hash
      let hash3 := env.hashBlockHashWith hash aux
      (if hash2 < hash3 then hash3 - hash2 else hash2 - hash3, result.2)

/-- The loop of `GetMasternodeRank` over the masternodes. -/
def scoreMasternodes (nBlockHeight minProtocol : Int) (fOnlyActive : Bool) :
    List CMasternode → BlockHashCache → List (Nat × CTxIn) × BlockHashCache
  | [], cache => ([], cache)
  | mn :: rest, cache =>
    if mn.protocolVersion < minProtocol then
      scoreMasternodes nBlockHeight minProtocol fOnlyActive rest cache
    else if isSporkActive env.sporks .SPORK_8_MASTERNODE_PAYMENT_ENFORCEMENT ∧
        env.adjustedTime - mn.sigTime < MN_WINNER_MINIMUM_AGE then
      scoreMasternodes nBlockHeight minProtocol fOnlyActive rest cache
    else if fOnlyActive ∧ env.enabled mn = false then
      scoreMasternodes nBlockHeight minProtocol fOnlyActive rest cache
    else
      let score := calculateScore env view cache mn nBlockHeight
      let scores := scoreMasternodes nBlockHeight minProtocol fOnlyActive rest score.2
      ((getCompact score.1, mn.vin) :: scores.1, scores.2)

/-- `sort(rbegin, rend, CompareScoreTxIn())`, which leaves the order of equal scores open. -/
def sortScores (scores : List (Nat × CTxIn)) : List (Nat × CTxIn) :=
  (scores.reverse.insertionSort fun s t => s.1 ≤ t.1).reverse

def getMasternodeRank (cache : BlockHashCache) (vin : CTxIn) (nBlockHeight minProtocol : Int)
    (fOnlyActive : Bool) : Int × BlockHashCache :=
  let result := view.getBlockHash cache (toInt32 nBlockHeight)
  if result.1 = none then (-1, result.2)
  else
    let scores :=
      scoreMasternodes env view nBlockHeight minProtocol fOnlyActive env.vMasternodes result.2
    match (sortScores scores.1).findIdx? fun s => s.2.prevout == vin.prevout with
    | some i => ((i : Int) + 1, scores.2)
    | none => (-1, scores.2)

end rank

namespace ChainView

variable {view view' : ChainView} {cache : BlockHashCache}

/-- The block below a height, above the genesis block. -/
def blockBelow (view : ChainView) (nBlockHeight : Int) : Option Uint256 :=
  if 2 ≤ nBlockHeight then view.chainAt (nBlockHeight - 1) else none

/-- Height 0 stands for the height of the tip. -/
def resolve (view : ChainView) (nBlockHeight : Int) : Int :=
  if nBlockHeight = 0 then view.height else nBlockHeight

theorem blocksAgo_eq {blockReading : Uint256} {i n : ℕ}
    (h : view.chainActive[i]? = some blockReading) :
    view.blocksAgo blockReading n = if n < i then view.chainActive[i - n]? else none := by
  induction n generalizing i blockReading with
  | zero =>
    unfold blocksAgo
    rw [view.heights i blockReading h, Nat.sub_zero, h]
    by_cases hi : i = 0
    · rw [if_pos hi, if_neg (by omega)]
    · rw [if_neg hi, if_pos (by omega)]
  | succ n ih =>
    unfold blocksAgo
    rw [view.heights i blockReading h]
    cases i with
    | zero => rfl
    | succ i =>
      have hlength : i + 1 < view.chainActive.length := (List.getElem?_eq_some_iff.mp h).1
      have hbelow : view.chainActive[i]? = some view.chainActive[i] :=
        List.getElem?_eq_getElem (by omega)
      have hprev : view.pprev blockReading = some view.chainActive[i] := by
        rw [← hbelow]
        exact linked_parent_succ view.linked h
      rw [if_neg (by omega)]
      dsimp only
      rw [hprev, Option.bind_some, ih hbelow, Nat.add_sub_add_right]
      by_cases hn : n < i
      · rw [if_pos hn, if_pos (by omega)]
      · rw [if_neg hn, if_neg (by omega)]

theorem chainActive_of_tip {tip : Uint256} (h : view.tip = some tip) :
    view.chainActive[(view.index tip).nHeight]? = some tip ∧
      view.height = (view.index tip).nHeight := by
  have hlast : view.chainActive[view.chainActive.length - 1]? = some tip := by
    rw [← List.getLast?_eq_getElem?]
    exact h
  have hheight := view.heights _ tip hlast
  have hlength := (List.getElem?_eq_some_iff.mp hlast).1
  rw [hheight]
  refine ⟨hlast, ?_⟩
  unfold height
  omega

/-- A query asks the memo table for the block below its height. -/
theorem getBlockHash_eq_ask {nBlockHeight : Int} (htip : view.tip ≠ none) (h : 0 ≤ nBlockHeight) :
    view.getBlockHash cache nBlockHeight =
      Memo.ask view.blockBelow cache (view.resolve nBlockHeight) := by
  obtain ⟨tip, htip⟩ := Option.ne_none_iff_exists'.mp htip
  obtain ⟨hat, hheight⟩ := chainActive_of_tip htip
  unfold getBlockHash Memo.ask resolve
  rw [htip, hheight]
  dsimp only
  generalize hasked : (if nBlockHeight = 0 then ((view.index tip).nHeight : Int)
    else nBlockHeight) = asked
  have hasked_nonneg : 0 ≤ asked := by
    rw [← hasked]
    split_ifs <;> omega
  have hzero : asked = 0 → (view.index tip).nHeight = 0 := by
    intro hzero
    rw [← hasked] at hzero
    split_ifs at hzero
    · omega
    · contradiction
  cases cache asked with
  | some hash => rfl
  | none =>
    dsimp only
    have hlength : view.chainActive.length = (view.index tip).nHeight + 1 := by
      unfold height at hheight
      have hlt := (List.getElem?_eq_some_iff.mp hat).1
      omega
    by_cases hout : ((view.index tip).nHeight : Int) = 0 ∨ (view.index tip).nHeight + 1 < asked
    · have hnone : view.blockBelow asked = none := by
        unfold blockBelow chainAt
        split_ifs
        · rfl
        · apply List.getElem?_eq_none
          omega
        · rfl
      rw [if_pos hout, hnone]
    · rw [if_neg hout, blocksAgo_eq hat]
      have hsame : (if (if 0 < asked then ((view.index tip).nHeight + 1 - asked).toNat else 0) <
          (view.index tip).nHeight then view.chainActive[(view.index tip).nHeight -
            (if 0 < asked then ((view.index tip).nHeight + 1 - asked).toNat else 0)]? else none) =
          view.blockBelow asked := by
        rw [if_pos (show 0 < asked by omega)]
        unfold blockBelow chainAt
        by_cases htwo : 2 ≤ asked
        · rw [if_pos (by omega), if_pos htwo, if_neg (by omega)]
          congr 1
          omega
        · rw [if_neg (by omega), if_neg htwo]
      rw [hsame]
      cases view.blockBelow asked <;> rfl

end ChainView

/-- What the node remembers fits its chain. -/
def CacheFits (view : ChainView) (cache : BlockHashCache) : Prop := Memo.Valid view.blockBelow cache

section fits
variable {env : RankEnv} {view : ChainView} {cache : BlockHashCache} {nBlockHeight : Int}

theorem CacheFits.getBlockHash_fst (hfits : CacheFits view cache) (h : 0 ≤ nBlockHeight) :
    (view.getBlockHash cache nBlockHeight).1 =
      if view.tip = none then none else view.blockBelow (view.resolve nBlockHeight) := by
  by_cases htip : view.tip = none
  · rw [if_pos htip]
    unfold ChainView.getBlockHash
    rw [htip]
  · rw [if_neg htip, ChainView.getBlockHash_eq_ask htip h]
    exact hfits.ask_fst

theorem CacheFits.getBlockHash_snd (hfits : CacheFits view cache) (h : 0 ≤ nBlockHeight) :
    CacheFits view (view.getBlockHash cache nBlockHeight).2 := by
  by_cases htip : view.tip = none
  · unfold ChainView.getBlockHash
    rw [htip]
    exact hfits
  · rw [ChainView.getBlockHash_eq_ask htip h]
    exact hfits.ask_snd

theorem CacheFits.calculateScore_snd {mn : CMasternode} (hfits : CacheFits view cache)
    (h : 0 ≤ toInt32 nBlockHeight) :
    CacheFits view (calculateScore env view cache mn nBlockHeight).2 := by
  have hasked := hfits.getBlockHash_snd h
  unfold calculateScore
  split_ifs
  · exact hfits
  · dsimp only
    split
    · exact hasked
    · exact hasked

end fits

/-! Two nodes with one active chain, whatever each has been asked before. -/
section agree
variable {env : RankEnv} {view view' : ChainView} {cache cache' : BlockHashCache}
  {nBlockHeight : Int}

theorem blockBelow_congr (hchain : view.chainActive = view'.chainActive) :
    view.blockBelow = view'.blockBelow := by
  funext h
  unfold ChainView.blockBelow ChainView.chainAt
  rw [hchain]

theorem tip_congr (hchain : view.chainActive = view'.chainActive) : view.tip = view'.tip := by
  unfold ChainView.tip
  rw [hchain]

theorem getBlockHash_agree (hchain : view.chainActive = view'.chainActive)
    (hfits : CacheFits view cache) (hfits' : CacheFits view' cache') (h : 0 ≤ nBlockHeight) :
    (view.getBlockHash cache nBlockHeight).1 = (view'.getBlockHash cache' nBlockHeight).1 := by
  have hresolve : view.resolve nBlockHeight = view'.resolve nBlockHeight := by
    unfold ChainView.resolve ChainView.height
    rw [hchain]
  rw [hfits.getBlockHash_fst h, hfits'.getBlockHash_fst h, tip_congr hchain,
    blockBelow_congr hchain, hresolve]

theorem calculateScore_agree {mn : CMasternode} (hchain : view.chainActive = view'.chainActive)
    (hfits : CacheFits view cache) (hfits' : CacheFits view' cache')
    (h : 0 ≤ toInt32 nBlockHeight) :
    (calculateScore env view cache mn nBlockHeight).1 =
      (calculateScore env view' cache' mn nBlockHeight).1 := by
  have hsame := getBlockHash_agree hchain hfits hfits' h
  unfold calculateScore
  rw [tip_congr hchain]
  split_ifs
  · rfl
  · dsimp only
    rw [hsame]
    split <;> rfl

theorem scoreMasternodes_agree {minProtocol : Int} {fOnlyActive : Bool}
    {vMasternodes : List CMasternode} (hchain : view.chainActive = view'.chainActive)
    (hfits : CacheFits view cache) (hfits' : CacheFits view' cache')
    (h : 0 ≤ toInt32 nBlockHeight) :
    (scoreMasternodes env view nBlockHeight minProtocol fOnlyActive vMasternodes cache).1 =
      (scoreMasternodes env view' nBlockHeight minProtocol fOnlyActive vMasternodes cache').1 := by
  induction vMasternodes generalizing cache cache' with
  | nil => rfl
  | cons mn rest ih =>
    unfold scoreMasternodes
    split_ifs
    · exact ih hfits hfits'
    · exact ih hfits hfits'
    · exact ih hfits hfits'
    · dsimp only
      rw [calculateScore_agree hchain hfits hfits' h,
        ih (hfits.calculateScore_snd h) (hfits'.calculateScore_snd h)]

theorem getMasternodeRank_agree {vin : CTxIn} {minProtocol : Int} {fOnlyActive : Bool}
    (hchain : view.chainActive = view'.chainActive)
    (hfits : CacheFits view cache) (hfits' : CacheFits view' cache')
    (h : 0 ≤ toInt32 nBlockHeight) :
    (getMasternodeRank env view cache vin nBlockHeight minProtocol fOnlyActive).1 =
      (getMasternodeRank env view' cache' vin nBlockHeight minProtocol fOnlyActive).1 := by
  have hsame := getBlockHash_agree hchain hfits hfits' h
  unfold getMasternodeRank
  dsimp only
  rw [hsame]
  split_ifs
  · rfl
  · rw [scoreMasternodes_agree hchain (hfits.getBlockHash_snd h) (hfits'.getBlockHash_snd h) h]
    split <;> rfl

end agree

/-! A node that follows the chain and is asked for block hashes in between. -/

structure HashNode where
  view : ChainView
  mapCacheBlockHashes : BlockHashCache

inductive HashEvent where
  | connectTip (view' : ChainView)
  | disconnectTip (view' : ChainView)
  | getBlockHash (nBlockHeight : Int)

/-- Reorganisations are blocks disconnected and others connected. -/
inductive HashStep (node : HashNode) : HashEvent → HashNode → Prop where
  | connectTip {view' : ChainView} {b : Uint256}
      (hchain : view'.chainActive = node.view.chainActive ++ [b]) :
      HashStep node (.connectTip view') { node with view := view' }
  | disconnectTip {view' : ChainView} {b : Uint256}
      (hchain : node.view.chainActive = view'.chainActive ++ [b]) :
      HashStep node (.disconnectTip view') { node with view := view' }
  | getBlockHash (nBlockHeight : Int) :
      HashStep node (.getBlockHash nBlockHeight) { node with
        mapCacheBlockHashes := (node.view.getBlockHash node.mapCacheBlockHashes nBlockHeight).2 }

/-- A run from a node that has not been asked yet, of steps that are all `ok`. -/
inductive HashRun (ok : HashNode → HashEvent → Prop) : HashNode → Prop where
  | start (view : ChainView) : HashRun ok ⟨view, fun _ => none⟩
  | step {node node' : HashNode} {event : HashEvent} (run : HashRun ok node)
      (hok : ok node event) (hstep : HashStep node event node') : HashRun ok node'

/-- The hash of the block that is disconnected has not been given out, and queries are not about
negative heights. -/
def HashEvent.Harmless (node : HashNode) : HashEvent → Prop
  | .connectTip _ => True
  | .disconnectTip _ => node.mapCacheBlockHashes (node.view.height + 1) = none
  | .getBlockHash nBlockHeight => 0 ≤ nBlockHeight

theorem CacheFits.step {node node' : HashNode} {event : HashEvent}
    (hfits : CacheFits node.view node.mapCacheBlockHashes) (hok : event.Harmless node)
    (hstep : HashStep node event node') : CacheFits node'.view node'.mapCacheBlockHashes := by
  cases hstep with
  | @connectTip view' b hchain =>
    apply hfits.of_agree
    intro nBlockHeight hash hcached
    have hbelow := hfits nBlockHeight hash hcached
    rw [hbelow]
    unfold ChainView.blockBelow ChainView.chainAt at hbelow ⊢
    split_ifs at hbelow ⊢ with htwo hneg
    have hlength := (List.getElem?_eq_some_iff.mp hbelow).1
    rw [hchain, List.getElem?_append_left hlength]
    exact hbelow
  | @disconnectTip view' b hchain =>
    apply hfits.of_agree
    intro nBlockHeight hash hcached
    have hbelow := hfits nBlockHeight hash hcached
    rw [hbelow]
    unfold ChainView.blockBelow ChainView.chainAt at hbelow ⊢
    split_ifs at hbelow ⊢ with htwo hneg
    have hlength := (List.getElem?_eq_some_iff.mp hbelow).1
    have hlast : nBlockHeight ≠ node.view.height + 1 := by
      rintro rfl
      have hnone : node.mapCacheBlockHashes (node.view.height + 1) = none := hok
      rw [hnone] at hcached
      contradiction
    rw [hchain, List.length_append, List.length_singleton] at hlength
    have hheight : node.view.height = view'.chainActive.length := by
      unfold ChainView.height
      rw [hchain, List.length_append]
      simp
    rw [hchain, List.getElem?_append_left (by omega)] at hbelow
    exact hbelow
  | getBlockHash nBlockHeight => exact hfits.getBlockHash_snd hok

theorem HashRun.fits {node : HashNode} (run : HashRun (fun node event => event.Harmless node) node) :
    CacheFits node.view node.mapCacheBlockHashes := by
  induction run with
  | start view => exact Memo.valid_empty
  | step run hok hstep ih => exact ih.step hok hstep

/-- A query that succeeds gives the hash of the block below its height in the active chain, where
height 0 stands for the height of the tip. -/
def FollowsChain (node : HashNode) : Prop :=
  ∀ nBlockHeight, 0 ≤ nBlockHeight → ∀ hash,
    (node.view.getBlockHash node.mapCacheBlockHashes nBlockHeight).1 = some hash →
      node.view.chainAt ((if nBlockHeight = 0 then node.view.height else nBlockHeight) - 1) =
        some hash

/-- In a run of harmless steps queries follow the active chain, and the ranks and scores of two such
runs agree when their active chains do. -/
theorem getBlockHash_follows_chain {node node' : HashNode}
    (run : HashRun (fun node event => event.Harmless node) node)
    (run' : HashRun (fun node event => event.Harmless node) node') :
    FollowsChain node ∧
    (node.view.chainActive = node'.view.chainActive →
      ∀ (env : RankEnv) (nBlockHeight : Int), 0 ≤ toInt32 nBlockHeight →
        (∀ mn, (calculateScore env node.view node.mapCacheBlockHashes mn nBlockHeight).1 =
          (calculateScore env node'.view node'.mapCacheBlockHashes mn nBlockHeight).1) ∧
        ∀ vin minProtocol fOnlyActive,
          (getMasternodeRank env node.view node.mapCacheBlockHashes vin nBlockHeight minProtocol
            fOnlyActive).1 =
          (getMasternodeRank env node'.view node'.mapCacheBlockHashes vin nBlockHeight minProtocol
            fOnlyActive).1) := by
  constructor
  · intro nBlockHeight h hash hfound
    rw [run.fits.getBlockHash_fst h] at hfound
    split_ifs at hfound with htip
    change ChainView.blockBelow node.view (node.view.resolve nBlockHeight) = some hash at hfound
    unfold ChainView.blockBelow at hfound
    split_ifs at hfound
    exact hfound
  · intro hchain env nBlockHeight h
    constructor
    · intro mn
      exact calculateScore_agree hchain run.fits run'.fits h
    · intro vin minProtocol fOnlyActive
      exact getMasternodeRank_agree hchain run.fits run'.fits h

/-! A block is asked for, disconnected, and another one connected in its place. -/

/-- The chain of both forks below block 3 and block 5. -/
def stemView : ChainView := forkView []
  (by intro i pindex h; rcases i with _ | _ | i <;> simp at h <;> subst h <;> decide)
  (by intro i pindex h; rcases i with _ | _ | i <;> simp at h <;> subst h <;> decide)

/-- The node was asked for the hash of block 3 before the reorganisation. -/
def reorganisedNode : HashNode :=
  ⟨forkNode.view, (lateNode.view.getBlockHash (fun _ => none) 3).2⟩

theorem hashRun_reorganisedNode : HashRun (fun _ _ => True) reorganisedNode := by
  have hasked : HashRun (fun _ _ => True)
      ⟨lateNode.view, (lateNode.view.getBlockHash (fun _ => none) 3).2⟩ :=
    HashRun.step (HashRun.start lateNode.view) trivial (HashStep.getBlockHash 3)
  have hback : HashRun (fun _ _ => True)
      ⟨stemView, (lateNode.view.getBlockHash (fun _ => none) 3).2⟩ :=
    HashRun.step hasked trivial (HashStep.disconnectTip (b := 3) rfl)
  exact HashRun.step hback trivial (HashStep.connectTip (b := 5) rfl)

theorem not_followsChain_reorganised :
    ¬ ∀ node, HashRun (fun _ _ => True) node → FollowsChain node := by
  intro hfollows
  have hstale := hfollows reorganisedNode hashRun_reorganisedNode 3 (by decide) 3 (by decide)
  exact absurd hstale (by decide)

/-- Asked only for the hash below the tip, and never. -/
theorem followsChain_late : FollowsChain
      ⟨lateNode.view, (lateNode.view.getBlockHash (fun _ => none) 2).2⟩ ∧
    ∀ (env : RankEnv) mn,
      (calculateScore env lateNode.view (lateNode.view.getBlockHash (fun _ => none) 2).2 mn 2).1 =
        (calculateScore env lateNode.view (fun _ => none) mn 2).1 := by
  have hok : HashEvent.Harmless ⟨lateNode.view, fun _ => none⟩ (.getBlockHash 2) := by
    show (0 : Int) ≤ 2
    decide
  have run : HashRun (fun node event => event.Harmless node)
      ⟨lateNode.view, (lateNode.view.getBlockHash (fun _ => none) 2).2⟩ :=
    HashRun.step (HashRun.start lateNode.view) hok (HashStep.getBlockHash 2)
  have hboth := getBlockHash_follows_chain run (HashRun.start lateNode.view)
  constructor
  · exact hboth.1
  · intro env mn
    exact (hboth.2 rfl env 2 (by decide)).1 mn

end Lytix
