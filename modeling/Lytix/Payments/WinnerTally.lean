import Lytix.Payments.WinnerVotes

/-! What is counted at a height are the votes that are kept for it. -/
namespace Lytix
open CountEntries

/-- The votes recorded for a payee. -/
def votesIn (payee : Script) (vecPayments : List CMasternodePayee) : Int :=
  ((vecPayments.find? fun p => p.scriptPubKey = payee).map CMasternodePayee.nVotes).getD 0

section payees
variable {payee payeeIn : Script} {nIncrement : Int} {vecPayments : List CMasternodePayee}

theorem votesIn_cons {p : CMasternodePayee} : votesIn payee (p :: vecPayments) =
    if p.scriptPubKey = payee then p.nVotes else votesIn payee vecPayments := by
  unfold votesIn
  by_cases h : p.scriptPubKey = payee
  · rw [if_pos h, List.find?_cons_of_pos (by simpa using h)]
    rfl
  · rw [if_neg h, List.find?_cons_of_neg (by simpa using h)]

theorem votesIn_addPayee : votesIn payee (addPayee payeeIn nIncrement vecPayments) =
    votesIn payee vecPayments + if payee = payeeIn then nIncrement else 0 := by
  induction vecPayments with
  | nil =>
    unfold addPayee
    rw [votesIn_cons]
    by_cases h : payeeIn = payee
    · simp [h, votesIn]
    · simp [h, Ne.symm h, votesIn]
  | cons p rest ih =>
    unfold addPayee
    split_ifs with hp hsame
    · subst hsame
      rw [votesIn_cons, votesIn_cons, if_pos hp, if_pos hp]
    · rw [votesIn_cons, votesIn_cons, if_neg (fun h => hsame (h.symm.trans hp)),
        if_neg (fun h => hsame (h.symm.trans hp)), add_zero]
    · rename_i hsame
      subst hsame
      rw [votesIn_cons, votesIn_cons, if_neg hp, if_neg hp, ih, if_pos rfl]
    · rename_i hsame
      rw [votesIn_cons, votesIn_cons, ih, if_neg hsame, add_zero, add_zero]

theorem mem_addPayee_scripts :
    payee ∈ (addPayee payeeIn nIncrement vecPayments).map CMasternodePayee.scriptPubKey ↔
      payee = payeeIn ∨ payee ∈ vecPayments.map CMasternodePayee.scriptPubKey := by
  induction vecPayments with
  | nil => simp [addPayee]
  | cons p rest ih =>
    unfold addPayee
    split_ifs with hp
    · rw [List.map_cons, List.map_cons, List.mem_cons, hp]
      exact or_self_left.symm
    · rw [List.map_cons, List.map_cons, List.mem_cons, List.mem_cons, ih, or_left_comm]

theorem nodup_addPayee (h : (vecPayments.map CMasternodePayee.scriptPubKey).Nodup) :
    ((addPayee payeeIn nIncrement vecPayments).map CMasternodePayee.scriptPubKey).Nodup := by
  induction vecPayments with
  | nil => simp [addPayee]
  | cons p rest ih =>
    unfold addPayee
    rw [List.map_cons, List.nodup_cons] at h
    split_ifs with hp
    · exact List.nodup_cons.mpr h
    · rw [List.map_cons, List.nodup_cons]
      refine ⟨?_, ih h.2⟩
      rw [mem_addPayee_scripts]
      rintro (hsame | hmem)
      · exact hp hsame
      · exact h.1 hmem

end payees

namespace PaymentVotes

/-- The votes for a payee at a height. -/
def votesFor (payments : PaymentVotes) (nBlockHeight : Int) (payee : Script) : ℕ :=
  count (fun _ winner => decide (winner.nBlockHeight = nBlockHeight ∧ winner.payee = payee))
    payments.mapMasternodePayeeVotes

/-- What is recorded at the heights that are present is the number of votes, every payee stands
there once, and a height with a vote is present. -/
structure Tallied (payments : PaymentVotes) : Prop where
  counted : ∀ h payees, payments.mapMasternodeBlocks h = some payees →
    ∀ payee, votesIn payee payees.vecPayments = payments.votesFor h payee
  distinct : ∀ h payees, payments.mapMasternodeBlocks h = some payees →
    (payees.vecPayments.map CMasternodePayee.scriptPubKey).Nodup
  present : ∀ hash winner, payments.mapMasternodePayeeVotes.lookup hash = some winner →
    payments.mapMasternodeBlocks winner.nBlockHeight ≠ none

section
variable {winnerHash : WinnerHash} {payments : PaymentVotes} {winner : CMasternodePaymentWinner}
  {h nHeight nLimit : Int} {payee : Script}

theorem tallied_empty : Tallied empty where
  counted := by
    intro h payees hp
    contradiction
  distinct := by
    intro h payees hp
    contradiction
  present := by
    intro hash winner hw
    contradiction

/-- Also where nothing is recorded yet. -/
theorem Tallied.blockPayees_counted (ht : payments.Tallied) :
    votesIn payee (payments.blockPayees h).vecPayments = payments.votesFor h payee := by
  unfold blockPayees
  cases hold : payments.mapMasternodeBlocks h with
  | some payees => exact ht.counted h payees hold payee
  | none =>
    have hzero : payments.votesFor h payee = 0 := by
      apply count_eq_zero_iff.mpr
      intro hash winner hw
      have hne : winner.nBlockHeight ≠ h := by
        rintro rfl
        exact ht.present hash winner hw hold
      simp [hne]
    rw [hzero]
    rfl

theorem Tallied.blockPayees_distinct (ht : payments.Tallied) :
    ((payments.blockPayees h).vecPayments.map CMasternodePayee.scriptPubKey).Nodup := by
  unfold blockPayees
  cases hold : payments.mapMasternodeBlocks h with
  | some payees => exact ht.distinct h payees hold
  | none => exact List.nodup_nil

theorem votesFor_storeWinner
    (hnew : winner.getHash winnerHash ∉ payments.mapMasternodePayeeVotes) :
    (payments.storeWinner winnerHash winner).votesFor h payee =
      payments.votesFor h payee + if winner.nBlockHeight = h ∧ winner.payee = payee then 1 else 0 := by
  unfold votesFor storeWinner
  dsimp only
  rw [count_insert_of_notMem hnew]
  simp only [decide_eq_true_eq]

/-- A new vote is counted once. -/
theorem Tallied.storeWinner (ht : payments.Tallied)
    (hnew : winner.getHash winnerHash ∉ payments.mapMasternodePayeeVotes) :
    (payments.storeWinner winnerHash winner).Tallied where
  counted := by
    intro h payees hp payee
    rw [votesFor_storeWinner hnew]
    by_cases hh : h = winner.nBlockHeight
    · subst hh
      have hblocks : (payments.storeWinner winnerHash winner).mapMasternodeBlocks
          winner.nBlockHeight = some ((payments.blockPayees winner.nBlockHeight).addPayee
            winner.payee 1) := Function.update_self ..
      rw [← Option.some.inj (hblocks.symm.trans hp)]
      show votesIn payee (addPayee winner.payee 1 _) = _
      rw [votesIn_addPayee, ht.blockPayees_counted]
      by_cases hpayee : payee = winner.payee
      · simp [hpayee]
      · simp [hpayee, Ne.symm hpayee]
    · have hblocks : (payments.storeWinner winnerHash winner).mapMasternodeBlocks h =
          payments.mapMasternodeBlocks h := Function.update_of_ne hh ..
      rw [ht.counted h payees (hblocks.symm.trans hp)]
      simp [Ne.symm hh]
  distinct := by
    intro h payees hp
    by_cases hh : h = winner.nBlockHeight
    · subst hh
      have hblocks : (payments.storeWinner winnerHash winner).mapMasternodeBlocks
          winner.nBlockHeight = some ((payments.blockPayees winner.nBlockHeight).addPayee
            winner.payee 1) := Function.update_self ..
      rw [← Option.some.inj (hblocks.symm.trans hp)]
      exact nodup_addPayee ht.blockPayees_distinct
    · have hblocks : (payments.storeWinner winnerHash winner).mapMasternodeBlocks h =
          payments.mapMasternodeBlocks h := Function.update_of_ne hh ..
      exact ht.distinct h payees (hblocks.symm.trans hp)
  present := by
    intro hash w hw
    show Function.update payments.mapMasternodeBlocks winner.nBlockHeight _ w.nBlockHeight ≠ none
    by_cases hh : w.nBlockHeight = winner.nBlockHeight
    · rw [hh, Function.update_self]
      simp
    · rw [Function.update_of_ne hh]
      have hother : hash ≠ winner.getHash winnerHash := by
        rintro rfl
        have hself : (payments.storeWinner winnerHash winner).mapMasternodePayeeVotes.lookup
            (winner.getHash winnerHash) = some winner := AList.lookup_insert _
        rw [Option.some.inj (hself.symm.trans hw)] at hh
        exact hh rfl
      have hold : (payments.storeWinner winnerHash winner).mapMasternodePayeeVotes.lookup hash =
          payments.mapMasternodePayeeVotes.lookup hash := AList.lookup_insert_ne hother
      exact ht.present hash w (hold.symm.trans hw)

theorem lookup_eraseWinner {hash k : Uint256} {w : CMasternodePaymentWinner}
    (hw : (payments.eraseWinner hash h).mapMasternodePayeeVotes.lookup k = some w) :
    k ≠ hash ∧ payments.mapMasternodePayeeVotes.lookup k = some w := by
  change (payments.mapMasternodePayeeVotes.erase hash).lookup k = some w at hw
  by_cases hk : k = hash
  · subst hk
    rw [AList.lookup_erase] at hw
    contradiction
  · rw [AList.lookup_erase_ne hk] at hw
    exact ⟨hk, hw⟩

end

section clean
variable {payments : PaymentVotes} {votes : List (Sigma fun _ : Uint256 => CMasternodePaymentWinner)}
  {h nHeight nLimit : Int} {payee : Script}

open PaymentNode

/-- A vote that is there after the loop was there, and is not too old. -/
theorem lookup_foldl_cleanWinner {k : Uint256} {w : CMasternodePaymentWinner}
    (hw : (votes.foldl (cleanWinner nHeight nLimit) payments).mapMasternodePayeeVotes.lookup k =
      some w) :
    payments.mapMasternodePayeeVotes.lookup k = some w ∧
      ∀ e ∈ votes, e.1 = k → ¬ nLimit < nHeight - e.2.nBlockHeight := by
  induction votes generalizing payments with
  | nil => exact ⟨hw, fun e he => by contradiction⟩
  | cons e votes ih =>
    obtain ⟨hfirst, hrest⟩ := ih hw
    unfold cleanWinner at hfirst
    split_ifs at hfirst with hold
    · obtain ⟨hne, hlookup⟩ := lookup_eraseWinner hfirst
      refine ⟨hlookup, ?_⟩
      intro e' he' hkey
      rcases List.mem_cons.mp he' with rfl | he'
      · exact absurd hkey.symm hne
      · exact hrest e' he' hkey
    · refine ⟨hfirst, ?_⟩
      intro e' he' hkey
      rcases List.mem_cons.mp he' with rfl | he'
      · exact hold
      · exact hrest e' he' hkey

/-- A height that is present after the loop was, and had no vote that is too old. -/
theorem blocks_foldl_cleanWinner {payees : CMasternodeBlockPayees}
    (hp : (votes.foldl (cleanWinner nHeight nLimit) payments).mapMasternodeBlocks h = some payees) :
    payments.mapMasternodeBlocks h = some payees ∧
      ∀ e ∈ votes, nLimit < nHeight - e.2.nBlockHeight → e.2.nBlockHeight ≠ h := by
  induction votes generalizing payments with
  | nil => exact ⟨hp, fun e he => by contradiction⟩
  | cons e votes ih =>
    obtain ⟨hfirst, hrest⟩ := ih hp
    unfold cleanWinner at hfirst
    split_ifs at hfirst with hold
    · change Function.update payments.mapMasternodeBlocks e.2.nBlockHeight none h = _ at hfirst
      by_cases hh : h = e.2.nBlockHeight
      · rw [hh, Function.update_self] at hfirst
        contradiction
      · rw [Function.update_of_ne hh] at hfirst
        refine ⟨hfirst, ?_⟩
        intro e' he' hold'
        rcases List.mem_cons.mp he' with rfl | he'
        · exact Ne.symm hh
        · exact hrest e' he' hold'
    · refine ⟨hfirst, ?_⟩
      intro e' he' hold'
      rcases List.mem_cons.mp he' with rfl | he'
      · exact absurd hold' hold
      · exact hrest e' he' hold'

/-- Nothing changes at a height that is not too old. -/
theorem foldl_cleanWinner_of_live (hlive : ¬ nLimit < nHeight - h)
    (hvotes : ∀ e ∈ votes, ∀ w, payments.mapMasternodePayeeVotes.lookup e.1 = some w → w = e.2) :
    (votes.foldl (cleanWinner nHeight nLimit) payments).mapMasternodeBlocks h =
        payments.mapMasternodeBlocks h ∧
      (votes.foldl (cleanWinner nHeight nLimit) payments).votesFor h payee =
        payments.votesFor h payee := by
  induction votes generalizing payments with
  | nil => exact ⟨rfl, rfl⟩
  | cons e votes ih =>
    rw [List.foldl_cons]
    have hstep : (cleanWinner nHeight nLimit payments e).mapMasternodeBlocks h =
          payments.mapMasternodeBlocks h ∧
        (cleanWinner nHeight nLimit payments e).votesFor h payee = payments.votesFor h payee := by
      unfold cleanWinner
      split_ifs with hold
      · have hne : e.2.nBlockHeight ≠ h := by
          rintro rfl
          exact hlive hold
        constructor
        · exact Function.update_of_ne hne.symm ..
        · apply count_erase_of_not
          intro w hw
          rw [hvotes e List.mem_cons_self w hw]
          simp [hne]
      · exact ⟨rfl, rfl⟩
    have hrest : ∀ e' ∈ votes, ∀ w, (cleanWinner nHeight nLimit payments
        e).mapMasternodePayeeVotes.lookup e'.1 = some w → w = e'.2 := by
      intro e' he' w hw
      apply hvotes e' (List.mem_cons_of_mem e he') w
      unfold cleanWinner at hw
      split_ifs at hw
      · exact (lookup_eraseWinner hw).2
      · exact hw
    obtain ⟨hblocks, hcount⟩ := ih hrest
    exact ⟨hblocks.trans hstep.1, hcount.trans hstep.2⟩

/-- A height is cleaned with all its votes. -/
theorem Tallied.foldl_cleanWinner (ht : payments.Tallied) :
    (payments.mapMasternodePayeeVotes.entries.foldl (cleanWinner nHeight nLimit)
      payments).Tallied := by
  have hvotes : ∀ e ∈ payments.mapMasternodePayeeVotes.entries, ∀ w,
      payments.mapMasternodePayeeVotes.lookup e.1 = some w → w = e.2 := by
    intro e he w hw
    have hself := mem_entries_iff.mp he
    exact Option.some.inj (hw.symm.trans hself)
  constructor
  · intro h payees hp payee
    obtain ⟨hbefore, hkept⟩ := blocks_foldl_cleanWinner hp
    by_cases hlive : nLimit < nHeight - h
    · have hnone : payments.votesFor h payee = 0 := by
        apply count_eq_zero_iff.mpr
        intro hash w hw
        have hne : w.nBlockHeight ≠ h := by
          intro hh
          exact hkept ⟨hash, w⟩ (mem_entries_iff.mpr hw) (by rw [hh]; exact hlive) hh
        simp [hne]
      have hnone' : (payments.mapMasternodePayeeVotes.entries.foldl (cleanWinner nHeight nLimit)
          payments).votesFor h payee = 0 := by
        apply count_eq_zero_iff.mpr
        intro hash w hw
        have hw := (lookup_foldl_cleanWinner hw).1
        exact count_eq_zero_iff.mp hnone hash w hw
      rw [ht.counted h payees hbefore payee, hnone, hnone']
    · rw [ht.counted h payees hbefore payee, (foldl_cleanWinner_of_live hlive hvotes).2]
  · intro h payees hp
    exact ht.distinct h payees (blocks_foldl_cleanWinner hp).1
  · intro hash w hw
    obtain ⟨hbefore, hkept⟩ := lookup_foldl_cleanWinner hw
    have hlive := hkept ⟨hash, w⟩ (mem_entries_iff.mpr hbefore) rfl
    have hblocks := (@foldl_cleanWinner_of_live _ _ _ _ _ w.payee hlive hvotes).1
    rw [hblocks]
    exact ht.present hash w hbefore

end clean
end PaymentVotes

/-- What happens to the payment votes of a node. -/
inductive PaymentEvent where
  | mnw (ctx : PaymentContext) (winner : CMasternodePaymentWinner)
  | addWinningMasternode (ctx : PaymentContext) (winnerIn : CMasternodePaymentWinner)
  | cleanPaymentList (ctx : PaymentContext)

def PaymentNode.step (winnerHash : WinnerHash) (node : PaymentNode) : PaymentEvent → PaymentNode
  | .mnw ctx winner => node.processMnw winnerHash ctx winner
  | .addWinningMasternode ctx winnerIn => (node.addWinningMasternode winnerHash ctx winnerIn).2
  | .cleanPaymentList ctx => node.cleanPaymentList ctx

namespace PaymentNode

variable {winnerHash : WinnerHash} {ctx : PaymentContext} {node : PaymentNode}
  {winner : CMasternodePaymentWinner}

/-- Either nothing happens to the votes, or a new one is stored. -/
theorem addWinningMasternode_cases :
    (node.addWinningMasternode winnerHash ctx winner).2.masternodePayments =
        node.masternodePayments ∨
      winner.getHash winnerHash ∉ node.masternodePayments.mapMasternodePayeeVotes ∧
      (node.addWinningMasternode winnerHash ctx winner).2.masternodePayments =
        node.masternodePayments.storeWinner winnerHash winner := by
  unfold addWinningMasternode
  dsimp only
  split_ifs with hhash hseen
  · exact Or.inl rfl
  · exact Or.inl rfl
  · exact Or.inr ⟨hseen, rfl⟩

theorem masternodePayments_winnerIsValid :
    (node.winnerIsValid ctx winner).2.masternodePayments = node.masternodePayments := by
  unfold winnerIsValid
  split
  · rfl
  · split_ifs <;> rfl

theorem canVote_snd_of_refused {payments : PaymentVotes} {outMasternode : COutPoint}
    {nBlockHeight : Int} (h : (payments.canVote outMasternode nBlockHeight).1 = false) :
    (payments.canVote outMasternode nBlockHeight).2 = payments := by
  unfold PaymentVotes.canVote at h ⊢
  split_ifs at h ⊢
  rfl

theorem ne_of_canVote {payments : PaymentVotes} {outMasternode : COutPoint} {nBlockHeight : Int}
    (h : ¬(payments.canVote outMasternode nBlockHeight).1 = false) :
    payments.mapMasternodesLastVote (PaymentVotes.lastVoteKey outMasternode) ≠
      some nBlockHeight := by
  intro hlast
  apply h
  unfold PaymentVotes.canVote
  rw [if_pos hlast]

/-- A vote that is not refused is recorded as the masternode's last one, and stored if it is new. -/
theorem processMnw_cases :
    (node.processMnw winnerHash ctx winner).masternodePayments = node.masternodePayments ∨
    node.masternodePayments.mapMasternodesLastVote
        (PaymentVotes.lastVoteKey winner.vinMasternode.prevout) ≠ some winner.nBlockHeight ∧
      ((node.processMnw winnerHash ctx winner).masternodePayments =
          (node.masternodePayments.canVote winner.vinMasternode.prevout winner.nBlockHeight).2 ∨
        winner.getHash winnerHash ∉ node.masternodePayments.mapMasternodePayeeVotes ∧
        (node.processMnw winnerHash ctx winner).masternodePayments =
          (node.masternodePayments.canVote winner.vinMasternode.prevout
            winner.nBlockHeight).2.storeWinner winnerHash winner) := by
  have hvalid : (node.winnerIsValid ctx winner).2.masternodePayments = node.masternodePayments :=
    masternodePayments_winnerIsValid
  unfold processMnw
  by_cases hpeer : ctx.peerVersion < activeProtocol ctx.mnodeman.sporks
  · rw [if_pos hpeer]
    exact Or.inl rfl
  · rw [if_neg hpeer]
    cases ctx.view.tip with
    | none => exact Or.inl rfl
    | some tip =>
      dsimp only
      by_cases hseen : winner.getHash winnerHash ∈ node.masternodePayments.mapMasternodePayeeVotes
      · rw [if_pos hseen]
        exact Or.inl rfl
      · rw [if_neg hseen]
        split_ifs with hrange hinvalid hrefused hsigned
        · exact Or.inl rfl
        · exact Or.inl hvalid
        · left
          rw [hvalid] at hrefused ⊢
          exact canVote_snd_of_refused hrefused
        · right
          rw [hvalid] at hrefused ⊢
          exact ⟨ne_of_canVote hrefused, Or.inl rfl⟩
        · right
          rw [hvalid] at hrefused ⊢
          refine ⟨ne_of_canVote hrefused, ?_⟩
          rcases @addWinningMasternode_cases winnerHash ctx ⟨(node.masternodePayments.canVote
              winner.vinMasternode.prevout winner.nBlockHeight).2,
                (node.winnerIsValid ctx winner).2.mapCacheBlockHashes⟩ winner with
            hsame | ⟨-, hstored⟩
          · exact Or.inl hsame
          · exact Or.inr ⟨hseen, hstored⟩

/-- A vote that is recorded but not stored changes no tally. -/
theorem tallied_canVote {payments : PaymentVotes} {outMasternode : COutPoint} {nBlockHeight : Int}
    (ht : payments.Tallied) : (payments.canVote outMasternode nBlockHeight).2.Tallied := by
  unfold PaymentVotes.canVote
  split_ifs
  · exact ht
  · exact ⟨ht.counted, ht.distinct, ht.present⟩

theorem mapMasternodePayeeVotes_canVote {payments : PaymentVotes} {outMasternode : COutPoint}
    {nBlockHeight : Int} : (payments.canVote outMasternode nBlockHeight).2.mapMasternodePayeeVotes =
      payments.mapMasternodePayeeVotes := by
  unfold PaymentVotes.canVote
  split_ifs <;> rfl

theorem tallied_step {event : PaymentEvent} (ht : node.masternodePayments.Tallied) :
    (node.step winnerHash event).masternodePayments.Tallied := by
  cases event with
  | mnw ctx winner =>
    show (node.processMnw winnerHash ctx winner).masternodePayments.Tallied
    rcases @processMnw_cases winnerHash ctx node winner with
      hsame | ⟨-, hvoted | ⟨hnew, hstored⟩⟩
    · rw [hsame]
      exact ht
    · rw [hvoted]
      exact tallied_canVote ht
    · rw [hstored]
      apply (tallied_canVote ht).storeWinner
      rw [mapMasternodePayeeVotes_canVote]
      exact hnew
  | addWinningMasternode ctx winnerIn =>
    show (node.addWinningMasternode winnerHash ctx winnerIn).2.masternodePayments.Tallied
    rcases @addWinningMasternode_cases winnerHash ctx node winnerIn with
      hsame | ⟨hnew, hstored⟩
    · rw [hsame]
      exact ht
    · rw [hstored]
      exact ht.storeWinner hnew
  | cleanPaymentList ctx =>
    show (node.cleanPaymentList ctx).masternodePayments.Tallied
    unfold cleanPaymentList
    split
    · exact ht
    · exact ht.foldl_cleanWinner

theorem tallied_run {events : List PaymentEvent} (ht : node.masternodePayments.Tallied) :
    (Runs.run (step winnerHash) node events).masternodePayments.Tallied := by
  have along : Runs.Along (step winnerHash) (fun _ _ => True) node events :=
    Runs.along_of_forall fun _ _ _ => trivial
  apply @Runs.Along.invariant _ _ _ _ (fun node => node.masternodePayments.Tallied) _ _ along ht
  intro node event ht _
  exact tallied_step ht

end PaymentNode

/-- After any run from an empty node, what is recorded for a payee at a height that is present is
the number of votes kept for it. -/
theorem masternodePayments_tallied (winnerHash : WinnerHash) (events : List PaymentEvent)
    (h : Int) (payees : CMasternodeBlockPayees)
    (hpresent : (Runs.run (PaymentNode.step winnerHash) {} events).masternodePayments.mapMasternodeBlocks
      h = some payees) :
    (payees.vecPayments.map CMasternodePayee.scriptPubKey).Nodup ∧
      ∀ payee, votesIn payee payees.vecPayments =
        (Runs.run (PaymentNode.step winnerHash) {} events).masternodePayments.votesFor h payee := by
  have htallied : (Runs.run (PaymentNode.step winnerHash) {} events).masternodePayments.Tallied :=
    PaymentNode.tallied_run PaymentVotes.tallied_empty
  exact ⟨htallied.distinct h payees hpresent, htallied.counted h payees hpresent⟩

/-! One masternode votes on heights 10 and 11, and on 10 again for somebody else. -/

def sampleWinnerHash : WinnerHash := fun payee nBlockHeight outMasternode =>
  outMasternode.hash + BitVec.ofInt 256 (256 * nBlockHeight + (payee.headD 0).toNat)

def sampleWinner (payee : Script) (nBlockHeight : Int) : CMasternodePaymentWinner :=
  ⟨⟨⟨7, 0⟩, [], 0⟩, nBlockHeight, payee, []⟩

def samplePaymentContext : PaymentContext where
  view := lateNode.view
  mnodeman :=
    { hashBlockHash := fun hash => hash
      hashBlockHashWith := fun hash aux => hash + aux
      vMasternodes := [⟨⟨⟨7, 0⟩, [], 0⟩, 71033, 0⟩]
      sporks := quietSporks
      adjustedTime := 10000
      enabled := fun _ => true }
  peerVersion := 71033
  signatureValid := fun _ => true

theorem masternodePayments_tallied_sample :
    ([(⟨[1], 1⟩ : CMasternodePayee)].map CMasternodePayee.scriptPubKey).Nodup ∧
      ∀ payee, votesIn payee [⟨[1], 1⟩] = (Runs.run (PaymentNode.step sampleWinnerHash) {}
        [.addWinningMasternode samplePaymentContext (sampleWinner [1] 102)]).masternodePayments.votesFor
          102 payee :=
  masternodePayments_tallied sampleWinnerHash
    [.addWinningMasternode samplePaymentContext (sampleWinner [1] 102)] 102 ⟨102, [⟨[1], 1⟩]⟩ rfl

end Lytix

/-! How often a masternode votes on a height. What is remembered of its votes is the height of the
last one. -/
namespace Lytix
open CountEntries

namespace PaymentVotes

/-- The votes of a masternode on a height. -/
def votesBy (payments : PaymentVotes) (outMasternode : COutPoint) (nBlockHeight : Int) : ℕ :=
  count (fun _ winner => decide (winner.vinMasternode.prevout = outMasternode ∧
    winner.nBlockHeight = nBlockHeight)) payments.mapMasternodePayeeVotes

def VotedOnce (payments : PaymentVotes) : Prop :=
  ∀ outMasternode nBlockHeight, payments.votesBy outMasternode nBlockHeight ≤ 1

section
variable {winnerHash : WinnerHash} {payments : PaymentVotes} {winner : CMasternodePaymentWinner}
  {outMasternode : COutPoint} {h nHeight nLimit : Int}

theorem votesBy_storeWinner
    (hnew : winner.getHash winnerHash ∉ payments.mapMasternodePayeeVotes) :
    (payments.storeWinner winnerHash winner).votesBy outMasternode h =
      payments.votesBy outMasternode h +
        if winner.vinMasternode.prevout = outMasternode ∧ winner.nBlockHeight = h then 1 else 0 := by
  unfold votesBy storeWinner
  dsimp only
  rw [count_insert_of_notMem hnew]
  simp only [decide_eq_true_eq]

theorem VotedOnce.storeWinner (honce : payments.VotedOnce)
    (hnew : winner.getHash winnerHash ∉ payments.mapMasternodePayeeVotes)
    (hzero : payments.votesBy winner.vinMasternode.prevout winner.nBlockHeight = 0) :
    (payments.storeWinner winnerHash winner).VotedOnce := by
  intro outMasternode h
  rw [votesBy_storeWinner hnew]
  split_ifs with hsame
  · obtain ⟨rfl, rfl⟩ := hsame
    rw [hzero]
  · exact honce outMasternode h

theorem votesBy_foldl_cleanWinner_le
    {votes : List (Sigma fun _ : Uint256 => CMasternodePaymentWinner)} :
    (votes.foldl (PaymentNode.cleanWinner nHeight nLimit) payments).votesBy outMasternode h ≤
      payments.votesBy outMasternode h := by
  induction votes generalizing payments with
  | nil => exact le_rfl
  | cons e votes ih =>
    have hstep : (PaymentNode.cleanWinner nHeight nLimit payments e).votesBy outMasternode h ≤
        payments.votesBy outMasternode h := by
      unfold PaymentNode.cleanWinner
      split_ifs
      · exact count_erase_le
      · exact le_rfl
    exact ih.trans hstep

end

end PaymentVotes

/-- A masternode that already has a vote on a height votes on it again only while that is still the
height it voted on last. The node's own votes are on heights it has no vote on. -/
def PaymentEvent.StaysAtHeight (node : PaymentNode) : PaymentEvent → Prop
  | .mnw _ winner =>
    0 < node.masternodePayments.votesBy winner.vinMasternode.prevout winner.nBlockHeight →
      node.masternodePayments.mapMasternodesLastVote
        (PaymentVotes.lastVoteKey winner.vinMasternode.prevout) = some winner.nBlockHeight
  | .addWinningMasternode _ winnerIn =>
    node.masternodePayments.votesBy winnerIn.vinMasternode.prevout winnerIn.nBlockHeight = 0
  | .cleanPaymentList _ => True

namespace PaymentNode

variable {winnerHash : WinnerHash} {node : PaymentNode}

theorem votedOnce_step {event : PaymentEvent} (honce : node.masternodePayments.VotedOnce)
    (hok : event.StaysAtHeight node) :
    (node.step winnerHash event).masternodePayments.VotedOnce := by
  cases event with
  | mnw ctx winner =>
    show (node.processMnw winnerHash ctx winner).masternodePayments.VotedOnce
    have hvoted : (node.masternodePayments.canVote winner.vinMasternode.prevout
        winner.nBlockHeight).2.VotedOnce := by
      intro outMasternode h
      unfold PaymentVotes.votesBy
      rw [mapMasternodePayeeVotes_canVote]
      exact honce outMasternode h
    rcases @processMnw_cases winnerHash ctx node winner with hsame | ⟨hlast, hother⟩
    · rw [hsame]
      exact honce
    · rcases hother with hcan | ⟨hnew, hstored⟩
      · rw [hcan]
        exact hvoted
      · rw [hstored]
        apply hvoted.storeWinner
        · rw [mapMasternodePayeeVotes_canVote]
          exact hnew
        · unfold PaymentVotes.votesBy
          rw [mapMasternodePayeeVotes_canVote]
          by_contra hvotes
          exact hlast (hok (Nat.pos_of_ne_zero hvotes))
  | addWinningMasternode ctx winnerIn =>
    show (node.addWinningMasternode winnerHash ctx winnerIn).2.masternodePayments.VotedOnce
    rcases @addWinningMasternode_cases winnerHash ctx node winnerIn with hsame | ⟨hnew, hstored⟩
    · rw [hsame]
      exact honce
    · rw [hstored]
      exact honce.storeWinner hnew hok
  | cleanPaymentList ctx =>
    show (node.cleanPaymentList ctx).masternodePayments.VotedOnce
    unfold cleanPaymentList
    split
    · exact honce
    · intro outMasternode h
      exact PaymentVotes.votesBy_foldl_cleanWinner_le.trans (honce outMasternode h)

end PaymentNode

/-- In a run in which no masternode comes back to a height after it voted on another one, it has at
most one vote on each height, and what is recorded for the payees are those votes. -/
theorem masternodePayments_votedOnce (winnerHash : WinnerHash) (events : List PaymentEvent)
    (along : Runs.Along (PaymentNode.step winnerHash) (fun node event => event.StaysAtHeight node)
      {} events) :
    (∀ outMasternode h, (Runs.run (PaymentNode.step winnerHash) {}
        events).masternodePayments.votesBy outMasternode h ≤ 1) ∧
      ∀ h payees, (Runs.run (PaymentNode.step winnerHash) {}
        events).masternodePayments.mapMasternodeBlocks h = some payees →
          ∀ payee, votesIn payee payees.vecPayments = (Runs.run (PaymentNode.step winnerHash) {}
            events).masternodePayments.votesFor h payee := by
  constructor
  · have hempty : PaymentVotes.empty.VotedOnce := by
      intro outMasternode h
      show count _ (∅ : Table Uint256 CMasternodePaymentWinner) ≤ 1
      rw [count_empty]
      exact Nat.zero_le 1
    apply @Runs.Along.invariant _ _ _ _ (fun node => node.masternodePayments.VotedOnce) _ _ along
      hempty
    intro node event honce hok
    exact PaymentNode.votedOnce_step honce hok
  · exact (PaymentNode.tallied_run PaymentVotes.tallied_empty).counted

/-- The masternode comes back to height 10 after it voted on 11. -/
def backToTen : List PaymentEvent :=
  [.mnw samplePaymentContext (sampleWinner [1] 10), .mnw samplePaymentContext (sampleWinner [2] 11),
    .mnw samplePaymentContext (sampleWinner [3] 10)]

theorem not_votedOnce_backToTen :
    ¬ ∀ events : List PaymentEvent, (∀ e ∈ events, ∃ ctx winner, e = .mnw ctx winner) →
      ∀ outMasternode h, (Runs.run (PaymentNode.step sampleWinnerHash) {}
        events).masternodePayments.votesBy outMasternode h ≤ 1 := by
  intro honce
  have htwice := honce backToTen (by simp [backToTen]) ⟨7, 0⟩ 10
  have htwo : (Runs.run (PaymentNode.step sampleWinnerHash) {}
      backToTen).masternodePayments.votesBy ⟨7, 0⟩ 10 = 2 := by decide
  omega

theorem votedOnce_two_heights : (Runs.run (PaymentNode.step sampleWinnerHash) {}
    (backToTen.take 2)).masternodePayments.VotedOnce := by
  refine (masternodePayments_votedOnce sampleWinnerHash (backToTen.take 2) ?_).1
  refine ⟨?_, ?_, trivial⟩
  · intro hvotes
    exact absurd hvotes (by decide)
  · intro hvotes
    exact absurd hvotes (by decide)

end Lytix
