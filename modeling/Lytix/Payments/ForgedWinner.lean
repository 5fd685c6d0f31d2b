import Lytix.Payments.WinnerTally

/-! Payment votes that nobody signed. Whether the masternode may vote is recorded before the
signature is looked at. -/
namespace Lytix
open CountEntries

namespace PaymentNode

/-- The vote is new, and after the message it is kept and counted. -/
def Accepts (winnerHash : WinnerHash) (ctx : PaymentContext) (node : PaymentNode)
    (winner : CMasternodePaymentWinner) : Prop :=
  winner.getHash winnerHash ∉ node.masternodePayments.mapMasternodePayeeVotes ∧
    winner.getHash winnerHash ∈
      (node.processMnw winnerHash ctx winner).masternodePayments.mapMasternodePayeeVotes

/-- The height of a vote is outside the window around the tip. -/
def OutOfRange (ctx : PaymentContext) (nHeight : Int) (winner : CMasternodePaymentWinner) : Prop :=
  winner.nBlockHeight < Int.tdiv (4 * nHeight - 5 * ctx.mnodeman.countEnabled) 4 ∨
    nHeight + 20 < winner.nBlockHeight

/-- A check before the signature refuses the vote. -/
def Stopped (winnerHash : WinnerHash) (ctx : PaymentContext) (node : PaymentNode)
    (winner : CMasternodePaymentWinner) : Prop :=
  ctx.peerVersion < activeProtocol ctx.mnodeman.sporks ∨
    (∀ tip, ctx.view.tip = some tip → OutOfRange ctx (ctx.view.index tip).nHeight winner) ∨
    winner.getHash winnerHash ∈ node.masternodePayments.mapMasternodePayeeVotes ∨
    (node.winnerIsValid ctx winner).1 = false ∨
    node.masternodePayments.mapMasternodesLastVote
      (PaymentVotes.lastVoteKey winner.vinMasternode.prevout) = some winner.nBlockHeight

end PaymentNode

/-- From either state on, whatever happens later, the same signed votes are accepted. -/
def PaymentVotes.SameVotesLater (winnerHash : WinnerHash) (payments payments' : PaymentVotes) :
    Prop :=
  ∀ mapCacheBlockHashes events ctx winner, ctx.signatureValid winner = true →
    (PaymentNode.Accepts winnerHash ctx (Runs.run (PaymentNode.step winnerHash)
        ⟨payments, mapCacheBlockHashes⟩ events) winner ↔
      PaymentNode.Accepts winnerHash ctx (Runs.run (PaymentNode.step winnerHash)
        ⟨payments', mapCacheBlockHashes⟩ events) winner)

namespace PaymentNode

variable {winnerHash : WinnerHash} {ctx : PaymentContext} {node : PaymentNode}
  {winner : CMasternodePaymentWinner}

theorem processMnw_of_stopped (h : node.Stopped winnerHash ctx winner) :
    (node.processMnw winnerHash ctx winner).masternodePayments = node.masternodePayments := by
  have hvalid : (node.winnerIsValid ctx winner).2.masternodePayments = node.masternodePayments :=
    masternodePayments_winnerIsValid
  unfold processMnw
  by_cases hpeer : ctx.peerVersion < activeProtocol ctx.mnodeman.sporks
  · rw [if_pos hpeer]
  rw [if_neg hpeer]
  cases htip : ctx.view.tip with
  | none => rfl
  | some tip =>
    dsimp only
    split_ifs with hseen hrange hinvalid hrefused hsigned
    · rfl
    · rfl
    · exact hvalid
    · rw [hvalid] at hrefused ⊢
      exact canVote_snd_of_refused hrefused
    all_goals
      exfalso
      rw [hvalid] at hrefused
      rcases h with hold | hout | hmem | hnot | hlast
      · exact hpeer hold
      · exact hrange (hout tip htip)
      · exact hseen hmem
      · exact hinvalid hnot
      · exact ne_of_canVote hrefused hlast

/-- What the handler does with a vote that reaches the signature. -/
theorem processMnw_of_not_stopped (h : ¬ node.Stopped winnerHash ctx winner) :
    node.processMnw winnerHash ctx winner =
      (if ctx.signatureValid winner = false then
        { (node.winnerIsValid ctx winner).2 with
          masternodePayments := (node.masternodePayments.canVote winner.vinMasternode.prevout
            winner.nBlockHeight).2 }
      else
        (addWinningMasternode winnerHash ctx { (node.winnerIsValid ctx winner).2 with
          masternodePayments := (node.masternodePayments.canVote winner.vinMasternode.prevout
            winner.nBlockHeight).2 } winner).2) := by
  have hvalid : (node.winnerIsValid ctx winner).2.masternodePayments = node.masternodePayments :=
    masternodePayments_winnerIsValid
  unfold Stopped at h
  push Not at h
  obtain ⟨hpeer, ⟨tip, htip, hrange⟩, hseen, hok, hlast⟩ := h
  have hallowed : ¬ (node.masternodePayments.canVote winner.vinMasternode.prevout
      winner.nBlockHeight).1 = false := by
    unfold PaymentVotes.canVote
    rw [if_neg hlast]
    exact Bool.true_eq_false_eq_False
  unfold OutOfRange at hrange
  unfold processMnw
  rw [if_neg (not_lt.mpr hpeer), htip]
  dsimp only
  rw [if_neg hseen, if_neg hrange, if_neg hok, hvalid, if_neg hallowed]

/-- A forged vote that reaches the signature leaves its record behind. -/
theorem lastVote_of_not_stopped (h : ¬ node.Stopped winnerHash ctx winner)
    (hforged : ctx.signatureValid winner = false) :
    (node.processMnw winnerHash ctx winner).masternodePayments.mapMasternodesLastVote
        (PaymentVotes.lastVoteKey winner.vinMasternode.prevout) = some winner.nBlockHeight := by
  rw [processMnw_of_not_stopped h, if_pos hforged]
  unfold PaymentVotes.canVote
  by_cases hlast : node.masternodePayments.mapMasternodesLastVote
      (PaymentVotes.lastVoteKey winner.vinMasternode.prevout) = some winner.nBlockHeight
  · rw [if_pos hlast]
    exact hlast
  · rw [if_neg hlast]
    exact Function.update_self _ _ _

theorem not_accepts_of_stopped (h : node.Stopped winnerHash ctx winner) :
    ¬ node.Accepts winnerHash ctx winner := by
  intro haccepts
  have hnew := haccepts.1
  have hthere := haccepts.2
  rw [processMnw_of_stopped h] at hthere
  exact hnew hthere

/-- A signed vote that passes the checks is accepted where the block hash is known. -/
theorem accepts_of_not_stopped (h : ¬ node.Stopped winnerHash ctx winner)
    (hsigned : ctx.signatureValid winner = true)
    (hhash : (ctx.view.getBlockHash (node.winnerIsValid ctx winner).2.mapCacheBlockHashes
      (winner.nBlockHeight - 100)).1 ≠ none) :
    node.Accepts winnerHash ctx winner := by
  have hnew : winner.getHash winnerHash ∉ node.masternodePayments.mapMasternodePayeeVotes := by
    intro hseen
    exact h (Or.inr (Or.inr (Or.inl hseen)))
  refine ⟨hnew, ?_⟩
  have hunsigned : ¬ ctx.signatureValid winner = false := by
    rw [hsigned]
    exact Bool.true_eq_false_eq_False
  rw [processMnw_of_not_stopped h, if_neg hunsigned]
  unfold addWinningMasternode
  dsimp only
  rw [if_neg hhash, if_neg]
  · exact (AList.mem_insert _).mpr (Or.inl rfl)
  · rw [mapMasternodePayeeVotes_canVote]
    exact hnew

theorem getMinMasternodePaymentsProto_le (sporks : Sporks) :
    getMinMasternodePaymentsProto sporks ≤ activeProtocol sporks := by
  have hleast : MIN_PEER_PROTO_VERSION_BEFORE_ENFORCEMENT ≤ activeProtocol sporks := by
    unfold activeProtocol
    split_ifs
    all_goals decide
  unfold getMinMasternodePaymentsProto
  split_ifs
  · exact le_refl _
  · exact hleast

/-- A masternode list of nothing but copies of one masternode, all of them enabled and old enough. -/
def crowd (env : RankEnv) (mn : CMasternode) (n : ℕ) : RankEnv :=
  { env with
    vMasternodes := List.replicate n mn
    adjustedTime := mn.sigTime + MN_WINNER_MINIMUM_AGE
    enabled := fun _ => true }

/-- A node that has been asked for every height. -/
def everyHeight : BlockHashCache := fun _ => some 0

theorem getBlockHash_everyHeight {view : ChainView} (htip : view.tip ≠ none) (h : Int) :
    view.getBlockHash everyHeight h = (some 0, everyHeight) := by
  obtain ⟨tip, htip⟩ := Option.ne_none_iff_exists'.mp htip
  unfold ChainView.getBlockHash
  rw [htip]
  rfl

section crowd
variable {env : RankEnv} {mn : CMasternode} {view : ChainView} {minProtocol h : Int}

theorem countEnabled_crowd (hprotocol : activeProtocol env.sporks ≤ mn.protocolVersion) (n : ℕ) :
    (crowd env mn n).countEnabled = n := by
  have hold : getMinMasternodePaymentsProto (crowd env mn n).sporks ≤ mn.protocolVersion :=
    (getMinMasternodePaymentsProto_le env.sporks).trans hprotocol
  have hlist : (crowd env mn n).vMasternodes = List.replicate n mn := rfl
  have henabled : (crowd env mn n).enabled mn = true := rfl
  unfold RankEnv.countEnabled
  rw [hlist, List.countP_replicate, henabled, decide_eq_true hold]
  rfl

theorem scoreMasternodes_replicate (htip : view.tip ≠ none)
    (hprotocol : minProtocol ≤ mn.protocolVersion) (n m : ℕ) :
    scoreMasternodes (crowd env mn m) view h minProtocol true (List.replicate n mn) everyHeight =
      (List.replicate n
        (getCompact (calculateScore (crowd env mn m) view everyHeight mn h).1, mn.vin),
        everyHeight) := by
  have hcache : (calculateScore (crowd env mn m) view everyHeight mn h).2 = everyHeight := by
    unfold calculateScore
    rw [if_neg htip]
    dsimp only
    rw [getBlockHash_everyHeight htip]
  have hage : ¬ (isSporkActive (crowd env mn m).sporks .SPORK_8_MASTERNODE_PAYMENT_ENFORCEMENT ∧
      (crowd env mn m).adjustedTime - mn.sigTime < MN_WINNER_MINIMUM_AGE) := by
    intro hyoung
    have hlt := hyoung.2
    unfold crowd at hlt
    dsimp only at hlt
    omega
  have henabled : ¬ ((true : Bool) = true ∧ (crowd env mn m).enabled mn = false) := by
    intro hdisabled
    exact Bool.noConfusion hdisabled.2
  induction n with
  | zero => rfl
  | succ n ih =>
    rw [List.replicate_succ]
    unfold scoreMasternodes
    rw [if_neg (not_lt.mpr hprotocol), if_neg hage, if_neg henabled]
    dsimp only
    rw [hcache, ih]
    rfl

/-- Among its copies a masternode is the first. -/
theorem getMasternodeRank_crowd (htip : view.tip ≠ none)
    (hprotocol : minProtocol ≤ mn.protocolVersion) {vin : CTxIn}
    (hvin : (mn.vin.prevout == vin.prevout) = true) (n : ℕ) :
    getMasternodeRank (crowd env mn (n + 1)) view everyHeight vin h minProtocol true =
      (1, everyHeight) := by
  unfold getMasternodeRank
  dsimp only
  rw [getBlockHash_everyHeight htip, if_neg (Option.some_ne_none _)]
  dsimp only
  have hlist : (crowd env mn (n + 1)).vMasternodes = List.replicate (n + 1) mn := rfl
  rw [hlist, scoreMasternodes_replicate htip hprotocol]
  dsimp only
  generalize getCompact (calculateScore (crowd env mn (n + 1)) view everyHeight mn h).1 = score
  have hsorted : sortScores (List.replicate (n + 1) (score, mn.vin)) =
      List.replicate (n + 1) (score, mn.vin) := by
    apply List.eq_replicate_iff.mpr
    constructor
    · unfold sortScores
      rw [List.length_reverse, List.length_insertionSort, List.length_reverse,
        List.length_replicate]
    · intro s hs
      unfold sortScores at hs
      rw [List.mem_reverse, List.mem_insertionSort, List.mem_reverse] at hs
      exact List.eq_of_mem_replicate hs
  rw [hsorted, List.replicate_succ, List.findIdx?_cons, hvin]
  rfl

end crowd

/-- The same chain and peer, with a crowd of one masternode more than are enabled. -/
def crowdContext (ctx : PaymentContext) (mn : CMasternode) : PaymentContext :=
  ⟨ctx.view, crowd ctx.mnodeman mn (ctx.mnodeman.countEnabled + 1), ctx.peerVersion, fun _ => true⟩

theorem winnerIsValid_crowdContext {mn : CMasternode} {payments : PaymentVotes}
    (htip : ctx.view.tip ≠ none)
    (hprotocol : activeProtocol ctx.mnodeman.sporks ≤ mn.protocolVersion)
    (hvin : (mn.vin.prevout == winner.vinMasternode.prevout) = true) :
    winnerIsValid (crowdContext ctx mn) ⟨payments, everyHeight⟩ winner =
      (true, ⟨payments, everyHeight⟩) := by
  have hfound : (crowdContext ctx mn).mnodeman.find winner.vinMasternode = some mn := by
    have hhead : (crowdContext ctx mn).mnodeman.vMasternodes =
        mn :: List.replicate ctx.mnodeman.countEnabled mn := rfl
    unfold RankEnv.find
    rw [hhead]
    exact List.find?_cons_of_pos hvin
  have hnew : ¬ mn.protocolVersion < activeProtocol (crowdContext ctx mn).mnodeman.sporks :=
    not_lt.mpr hprotocol
  have hrank : getMasternodeRank (crowdContext ctx mn).mnodeman (crowdContext ctx mn).view
      everyHeight winner.vinMasternode (winner.nBlockHeight - 100)
      (activeProtocol (crowdContext ctx mn).mnodeman.sporks) true = (1, everyHeight) :=
    getMasternodeRank_crowd htip hprotocol hvin _
  unfold winnerIsValid
  rw [hfound]
  dsimp only
  rw [if_neg hnew, hrank]
  rfl

/-- Somewhere a signed copy of a vote that reaches the signature would be accepted. -/
theorem exists_accepts (h : ¬ node.Stopped winnerHash ctx winner) :
    ∃ ctx', ctx'.signatureValid winner = true ∧
      Accepts winnerHash ctx' ⟨node.masternodePayments, everyHeight⟩ winner := by
  unfold Stopped at h
  push Not at h
  obtain ⟨hpeer, ⟨tip, htip, hrange⟩, hseen, hok, hlast⟩ := h
  have htip' : ctx.view.tip ≠ none := by
    rw [htip]
    exact Option.some_ne_none tip
  cases hfind : ctx.mnodeman.find winner.vinMasternode with
  | none =>
    unfold winnerIsValid at hok
    rw [hfind] at hok
    contradiction
  | some mn =>
    have hvin : (mn.vin.prevout == winner.vinMasternode.prevout) = true := by
      have hfound := hfind
      unfold RankEnv.find at hfound
      have hbeq := List.find?_some hfound
      exact hbeq
    have hprotocol : activeProtocol ctx.mnodeman.sporks ≤ mn.protocolVersion := by
      by_contra hold
      unfold winnerIsValid at hok
      rw [hfind] at hok
      dsimp only at hok
      rw [if_pos (not_le.mp hold)] at hok
      contradiction
    have hvalid := @winnerIsValid_crowdContext ctx winner mn node.masternodePayments htip'
      hprotocol hvin
    refine ⟨crowdContext ctx mn, rfl, accepts_of_not_stopped ?_ rfl ?_⟩
    · intro hstopped
      rcases hstopped with hold | hout | hmem | hnot | hvoted
      · exact not_lt.mpr hpeer hold
      · have hcount : (crowdContext ctx mn).mnodeman.countEnabled =
            ctx.mnodeman.countEnabled + 1 := countEnabled_crowd hprotocol _
        have hwider : Int.tdiv (4 * (ctx.view.index tip).nHeight -
              5 * (crowdContext ctx mn).mnodeman.countEnabled) 4 ≤
            Int.tdiv (4 * (ctx.view.index tip).nHeight - 5 * ctx.mnodeman.countEnabled) 4 := by
          apply Int.tdiv_le_tdiv (by decide)
          omega
        apply hrange
        rcases hout tip htip with hlow | hhigh
        · exact Or.inl (hlow.trans_le hwider)
        · exact Or.inr hhigh
      · exact hseen hmem
      · rw [hvalid] at hnot
        contradiction
      · exact hlast hvoted
    · have hview : (crowdContext ctx mn).view.tip ≠ none := htip'
      rw [hvalid]
      dsimp only
      rw [getBlockHash_everyHeight hview]
      exact Option.some_ne_none _

def forgeryContext : PaymentContext :=
  { samplePaymentContext with signatureValid := fun winner => winner.vchSig == [1] }

def signedWinner : CMasternodePaymentWinner := { sampleWinner [1] 10 with vchSig := [1] }

end PaymentNode
end Lytix
