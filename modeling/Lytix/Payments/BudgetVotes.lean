import Lytix.Lib.Checks
import Lytix.Lib.CountEntries
import Lytix.Lib.LatestWins
import Lytix.Lib.Runs
import Lytix.Payments.Budget

/-! Votes of masternodes on budget proposals and on finalized budgets. Both kinds go through copies
of the same code, `AddOrUpdateVote`: a masternode's newer vote takes the place of its stored one
when it is an hour later. -/
namespace Lytix

structure CBudgetVote where
  vin : CTxIn
  nProposalHash : Uint256
  nVote : Int
  nTime : Int
  vchSig : List UInt8
deriving DecidableEq, Repr

structure CFinalizedBudgetVote where
  vin : CTxIn
  nBudgetHash : Uint256
  nTime : Int
  vchSig : List UInt8
deriving DecidableEq, Repr

/-- Hashes of outpoints and votes, and `VerifyMessage` under the key of the masternode. The hash of
a vote does not cover its signature. -/
structure VoteEnv where
  outpointHash : COutPoint → Uint256
  budgetVoteHash : CTxIn → Uint256 → Int → Int → Uint256
  finalizedVoteHash : CTxIn → Uint256 → Int → Uint256
  budgetVoteSigned : CBudgetVote → Bool
  finalizedVoteSigned : CFinalizedBudgetVote → Bool

/-- What the code for both kinds of votes reads from a vote. -/
class BudgetVote (V : Type) where
  vin : V → CTxIn
  /-- The hash of the proposal or the budget that is voted on. -/
  target : V → Uint256
  nTime : V → Int
  getHash : VoteEnv → V → Uint256
  signed : VoteEnv → V → Bool

instance : BudgetVote CBudgetVote where
  vin := CBudgetVote.vin
  target := CBudgetVote.nProposalHash
  nTime := CBudgetVote.nTime
  getHash := fun env vote => env.budgetVoteHash vote.vin vote.nProposalHash vote.nVote vote.nTime
  signed := VoteEnv.budgetVoteSigned

instance : BudgetVote CFinalizedBudgetVote where
  vin := CFinalizedBudgetVote.vin
  target := CFinalizedBudgetVote.nBudgetHash
  nTime := CFinalizedBudgetVote.nTime
  getHash := fun env vote => env.finalizedVoteHash vote.vin vote.nBudgetHash vote.nTime
  signed := VoteEnv.finalizedVoteSigned

/-- `mapVotes`, by the hash of the masternode's outpoint. -/
abbrev VoteMap (V : Type) := Uint256 → Option V

def BUDGET_VOTE_UPDATE_MIN : Int := 60 * 60

section
variable {V : Type} [BudgetVote V] (env : VoteEnv)

/-- The key of the masternode's vote in `mapVotes`. -/
def voterKey (vote : V) : Uint256 := env.outpointHash (BudgetVote.vin vote).prevout

/-- The votes with the new one stored, or the reason why it is not. `now` is `GetTime()`. -/
def addOrUpdateVote (now : Int) (mapVotes : VoteMap V) (vote : V) : Except String (VoteMap V) := do
  let hash := voterKey env vote
  match mapVotes hash with
  | some old =>
    Checks.stopIf (BudgetVote.nTime vote < BudgetVote.nTime old)
      "new vote older than existing vote"
    Checks.stopIf (BudgetVote.nTime vote - BudgetVote.nTime old < BUDGET_VOTE_UPDATE_MIN)
      "time between votes is too soon"
  | none => pure ()
  Checks.stopIf (now + 60 * 60 < BudgetVote.nTime vote) "new vote is too far ahead of current time"
  pure (Function.update mapVotes hash (some vote))

end

def CBudgetProposal.addOrUpdateVote (env : VoteEnv) (now : Int) (mapVotes : VoteMap CBudgetVote)
    (vote : CBudgetVote) : Except String (VoteMap CBudgetVote) :=
  Lytix.addOrUpdateVote env now mapVotes vote

def CFinalizedBudget.addOrUpdateVote (env : VoteEnv) (now : Int)
    (mapVotes : VoteMap CFinalizedBudgetVote) (vote : CFinalizedBudgetVote) :
    Except String (VoteMap CFinalizedBudgetVote) :=
  Lytix.addOrUpdateVote env now mapVotes vote

/-! Votes delivered one after another. -/
section delivery
variable {V : Type} [BudgetVote V]
  (addOrUpdateVote : Int → VoteMap V → V → Except String (VoteMap V))

/-- A vote that is not stored leaves the votes as they are. -/
def storeVote (now : Int) (mapVotes : VoteMap V) (vote : V) : VoteMap V :=
  match addOrUpdateVote now mapVotes vote with
  | .ok mapVotes' => mapVotes'
  | .error _ => mapVotes

/-- The votes of a new proposal or budget, each delivered with the clock that reads then. -/
def deliverVotes (deliveries : List (Int × V)) : VoteMap V :=
  deliveries.foldl (fun mapVotes d => storeVote addOrUpdateVote d.1 mapVotes d.2) fun _ => none

/-- The votes in some order, none too far ahead of the clock. -/
def DeliveryOf (votes : List V) (deliveries : List (Int × V)) : Prop :=
  (deliveries.map Prod.snd).Perm votes ∧
    ∀ d ∈ deliveries, BudgetVote.nTime d.2 ≤ d.1 + 60 * 60

/-- Every order of delivery leaves the same votes, the latest one of each masternode. -/
def VotesConverge (env : VoteEnv) (votes : List V) : Prop :=
  (∀ deliveries deliveries', DeliveryOf votes deliveries → DeliveryOf votes deliveries' →
    deliverVotes addOrUpdateVote deliveries = deliverVotes addOrUpdateVote deliveries') ∧
  ∀ deliveries, DeliveryOf votes deliveries → ∀ vote ∈ votes, ∃ latest ∈ votes,
    voterKey env latest = voterKey env vote ∧
    (∀ other ∈ votes, voterKey env other = voterKey env vote →
      BudgetVote.nTime other ≤ BudgetVote.nTime latest) ∧
    deliverVotes addOrUpdateVote deliveries (voterKey env vote) = some latest

/-- The latest vote of each masternode comes the minimum time after each other vote of it. -/
def Spaced (env : VoteEnv) (votes : List V) : Prop :=
  ∀ vote ∈ votes, ∃ latest ∈ votes, voterKey env latest = voterKey env vote ∧
    ∀ other ∈ votes, voterKey env other = voterKey env vote →
      other = latest ∨ BudgetVote.nTime other + BUDGET_VOTE_UPDATE_MIN ≤ BudgetVote.nTime latest

end delivery

section
variable {V : Type} [BudgetVote V] {env : VoteEnv} {votes : List V}

open LatestWins Checks

/-- A vote is stored when the masternode's stored vote is old enough, and the clock allows it. -/
theorem addOrUpdateVote_eq_ok {now : Int} {mapVotes mapVotes' : VoteMap V} {vote : V} :
    addOrUpdateVote env now mapVotes vote = .ok mapVotes' ↔
      Admits BudgetVote.nTime BUDGET_VOTE_UPDATE_MIN (mapVotes (voterKey env vote)) vote ∧
        BudgetVote.nTime vote ≤ now + 60 * 60 ∧
        Function.update mapVotes (voterKey env vote) (some vote) = mapVotes' := by
  have hmin : 0 < BUDGET_VOTE_UPDATE_MIN := by decide
  unfold addOrUpdateVote
  cases hold : mapVotes (voterKey env vote) with
  | none =>
    simp only [hold, bind_eq_ok, pure_eq_ok, stopIf_eq_ok, not_lt, exists_const]
    constructor
    · rintro ⟨hclock, hmap⟩
      exact ⟨admits_none, hclock, hmap⟩
    · rintro ⟨-, hclock, hmap⟩
      exact ⟨hclock, hmap⟩
  | some old =>
    simp only [hold, bind_eq_ok, pure_eq_ok, stopIf_eq_ok, not_lt, exists_const, admits_some]
    constructor
    · rintro ⟨-, hgap, hclock, hmap⟩
      exact ⟨by omega, hclock, hmap⟩
    · rintro ⟨hgap, hclock, hmap⟩
      exact ⟨by omega, by omega, hclock, hmap⟩

/-- A vote that is not too far ahead is stored as the registers of the latest messages do it. -/
theorem storeVote_eq_put {now : Int} {mapVotes : VoteMap V} {vote : V}
    (hnow : BudgetVote.nTime vote ≤ now + 60 * 60) :
    storeVote (addOrUpdateVote env) now mapVotes vote =
      put (voterKey env) BudgetVote.nTime BUDGET_VOTE_UPDATE_MIN mapVotes vote := by
  unfold storeVote put
  by_cases hadmits : Admits BudgetVote.nTime BUDGET_VOTE_UPDATE_MIN
      (mapVotes (voterKey env vote)) vote
  · have hstored := addOrUpdateVote_eq_ok.mpr ⟨hadmits, hnow, rfl⟩
    rw [hstored, keep_of_admits hadmits]
  · rw [keep_of_not_admits hadmits, Function.update_eq_self]
    cases hresult : addOrUpdateVote env now mapVotes vote with
    | error reason => rfl
    | ok mapVotes' => exact absurd (addOrUpdateVote_eq_ok.mp hresult).1 hadmits

theorem deliverVotes_eq_deliver {deliveries : List (Int × V)}
    (hnow : ∀ d ∈ deliveries, BudgetVote.nTime d.2 ≤ d.1 + 60 * 60) :
    deliverVotes (addOrUpdateVote env) deliveries =
      deliver (voterKey env) BudgetVote.nTime BUDGET_VOTE_UPDATE_MIN (fun _ => none)
        (deliveries.map Prod.snd) := by
  unfold deliverVotes deliver
  generalize (fun _ => none : VoteMap V) = mapVotes
  induction deliveries generalizing mapVotes with
  | nil => rfl
  | cons d deliveries ih =>
    rw [List.foldl_cons, List.map_cons, List.foldl_cons,
      storeVote_eq_put (hnow d List.mem_cons_self)]
    apply ih
    intro d' hd'
    exact hnow d' (List.mem_cons_of_mem d hd')

/-- The votes of one masternode lead to a latest one. -/
theorem spaced_iff_settled :
    Spaced env votes ↔ ∀ k, Settled BudgetVote.nTime BUDGET_VOTE_UPDATE_MIN none
      (votes.filter fun vote => voterKey env vote = k) := by
  constructor
  · intro hspaced k
    by_cases hnone : ∃ vote ∈ votes, voterKey env vote = k
    · obtain ⟨vote, hvote, rfl⟩ := hnone
      obtain ⟨latest, hlatest, hkey, hothers⟩ := hspaced vote hvote
      refine Or.inr ⟨latest, ?_, admits_none, ?_⟩
      · exact List.mem_filter.mpr ⟨hlatest, by simpa using hkey⟩
      · intro other hother _
        obtain ⟨hmem, hsame⟩ := List.mem_filter.mp hother
        exact hothers other hmem (by simpa using hsame)
    · left
      intro vote hvote
      obtain ⟨hmem, hsame⟩ := List.mem_filter.mp hvote
      exact absurd ⟨vote, hmem, by simpa using hsame⟩ hnone
  · intro hsettled vote hvote
    have hown : vote ∈ votes.filter fun other => voterKey env other = voterKey env vote :=
      List.mem_filter.mpr ⟨hvote, by simp⟩
    rcases hsettled (voterKey env vote) with hnone | ⟨latest, hmem, -, hothers⟩
    · exact absurd admits_none (hnone vote hown)
    · obtain ⟨hlatest, hkey⟩ := List.mem_filter.mp hmem
      refine ⟨latest, hlatest, by simpa using hkey, ?_⟩
      intro other hother hsame
      exact hothers other (List.mem_filter.mpr ⟨hother, by simpa using hsame⟩) admits_none

/-- Votes converge exactly when the latest of each masternode is well apart from the others. -/
theorem votesConverge_iff : VotesConverge (addOrUpdateVote env) env votes ↔ Spaced env votes := by
  have hmin : 0 < BUDGET_VOTE_UPDATE_MIN := by decide
  -- every order is an order of delivery, under clocks that read the times of the votes
  have hdelivery : ∀ order : List V, order.Perm votes →
      DeliveryOf votes (order.map fun vote => (BudgetVote.nTime vote, vote)) := by
    intro order horder
    constructor
    · simpa [Function.comp_def] using horder
    · intro d hd
      obtain ⟨vote, -, rfl⟩ := List.mem_map.mp hd
      show BudgetVote.nTime vote ≤ BudgetVote.nTime vote + 60 * 60
      omega
  rw [spaced_iff_settled]
  constructor
  · rintro ⟨hsame, -⟩
    apply (deliver_perm_iff hmin).mp
    intro order horder
    have heq := hsame _ _ (hdelivery order horder) (hdelivery votes (List.Perm.refl votes))
    rw [deliverVotes_eq_deliver (hdelivery order horder).2,
      deliverVotes_eq_deliver (hdelivery votes (List.Perm.refl votes)).2] at heq
    simpa [Function.comp_def] using heq
  · intro hsettled
    constructor
    · intro deliveries deliveries' hd hd'
      rw [deliverVotes_eq_deliver hd.2, deliverVotes_eq_deliver hd'.2]
      have hperm := (deliver_perm_iff hmin).mpr hsettled
      exact (hperm _ hd.1).trans (hperm _ hd'.1).symm
    · intro deliveries hd vote hvote
      have hown : vote ∈ votes.filter fun other => voterKey env other = voterKey env vote :=
        List.mem_filter.mpr ⟨hvote, by simp⟩
      rcases hsettled (voterKey env vote) with hnone | ⟨latest, hlead⟩
      · exact absurd admits_none (hnone vote hown)
      · obtain ⟨hlatest, hkey⟩ := List.mem_filter.mp hlead.1
        refine ⟨latest, hlatest, by simpa using hkey, ?_, ?_⟩
        · intro other hother hsame
          have hmem : other ∈ votes.filter fun vote' => voterKey env vote' = voterKey env vote :=
            List.mem_filter.mpr ⟨hother, decide_eq_true hsame⟩
          rcases hlead.2.2 other hmem admits_none with rfl | hlater
          · exact le_rfl
          · omega
        · rw [deliverVotes_eq_deliver hd.2, deliver_apply]
          exact (hlead.perm (hd.1.filter _)).run_eq hmin

end

def sampleVoteEnv : VoteEnv where
  outpointHash := fun prevout => prevout.hash
  budgetVoteHash := fun vin nProposalHash nVote nTime =>
    vin.prevout.hash + nProposalHash + BitVec.ofInt 256 (nVote + nTime)
  finalizedVoteHash := fun vin nBudgetHash nTime =>
    vin.prevout.hash + nBudgetHash + BitVec.ofInt 256 nTime
  budgetVoteSigned := fun _ => true
  finalizedVoteSigned := fun _ => true

def sampleVote (hash : Uint256) (nVote nTime : Int) : CBudgetVote :=
  ⟨⟨⟨hash, 0⟩, [], 0⟩, 50, nVote, nTime, []⟩

end Lytix

/-! The votes on finalized budgets while masternodes come and go. `CleanAndRemove` marks the votes
whose masternode is gone, and the budgets are compared by the number of all their votes. -/
namespace Lytix
open CountEntries

/-- A vote in `mapVotes`, with its flag. -/
structure StoredVote where
  vote : CFinalizedBudgetVote
  fValid : Bool

/-- A finalized budget with its votes. -/
structure VotedBudget where
  nBlockStart : Int
  vecBudgetPayments : List CTxBudgetPayment
  mapVotes : Table Uint256 StoredVote := ∅
  mapPayment_History : Uint256 → Option Int := fun _ => none

namespace VotedBudget

def getVoteCount (b : VotedBudget) : Nat := size b.mapVotes

/-- The budget as `IsBudgetPaymentBlock`, `IsTransactionValid` and `FillBlockPayee` compare it. -/
def toFinalizedBudget (b : VotedBudget) : CFinalizedBudget :=
  ⟨b.nBlockStart, b.vecBudgetPayments, b.getVoteCount, b.mapPayment_History⟩

/-- A vote that is stored is marked as valid. -/
def addOrUpdateVote (env : VoteEnv) (now : Int) (b : VotedBudget) (vote : CFinalizedBudgetVote) :
    VotedBudget :=
  match CFinalizedBudget.addOrUpdateVote env now
    (fun hash => (b.mapVotes.lookup hash).map StoredVote.vote) vote with
  | .ok _ => { b with mapVotes := b.mapVotes.insert (voterKey env vote) ⟨vote, true⟩ }
  | .error _ => b

/-- The votes that are marked as valid. -/
def liveVotes (b : VotedBudget) : Nat := count (fun _ stored => stored.fValid) b.mapVotes

end VotedBudget

/-- The finalized budgets, and the key of each masternode in the list. -/
structure BudgetNode (K : Type) where
  mapFinalizedBudgets : Uint256 → Option VotedBudget := fun _ => none
  find : COutPoint → Option K := fun _ => none

/-- What happens to the finalized budgets. Masternodes come, go and change their keys. -/
inductive BudgetEvent (K : Type) where
  | addFinalizedBudget (hash : Uint256) (budget : VotedBudget) (fresh : budget.mapVotes = ∅)
  | updateFinalizedBudget (now : Int) (vote : CFinalizedBudgetVote)
  | masternodes (find : COutPoint → Option K)
  | checkAndRemove (isValid : Uint256 → Bool)
  | cleanAndRemove (hash : Uint256) (fSignatureCheck : Bool)

namespace BudgetNode

variable {K : Type} (env : VoteEnv) (verifyMessage : K → CFinalizedBudgetVote → Bool)

/-- `CFinalizedBudgetVote::SignatureValid`. -/
def signatureValid (node : BudgetNode K) (fSignatureCheck : Bool) (vote : CFinalizedBudgetVote) :
    Bool :=
  match node.find vote.vin.prevout with
  | none => false
  | some pubKeyMasternode => !fSignatureCheck || verifyMessage pubKeyMasternode vote

/-- `CFinalizedBudget::CleanAndRemove`. -/
def cleanAndRemove (node : BudgetNode K) (fSignatureCheck : Bool) (b : VotedBudget) : VotedBudget :=
  { b with
    mapVotes := mapValues (fun _ stored =>
      ⟨stored.vote, node.signatureValid verifyMessage fSignatureCheck stored.vote⟩) b.mapVotes }

def setBudget (node : BudgetNode K) (hash : Uint256) (b : VotedBudget) : BudgetNode K :=
  { node with mapFinalizedBudgets := Function.update node.mapFinalizedBudgets hash (some b) }

def step (node : BudgetNode K) : BudgetEvent K → BudgetNode K
  | .addFinalizedBudget hash budget _ =>
    match node.mapFinalizedBudgets hash with
    | none => node.setBudget hash budget
    | some _ => node
  | .updateFinalizedBudget now vote =>
    match node.mapFinalizedBudgets vote.nBudgetHash with
    | none => node
    | some b => node.setBudget vote.nBudgetHash (b.addOrUpdateVote env now vote)
  | .masternodes find => { node with find := find }
  | .checkAndRemove isValid =>
    { node with
      mapFinalizedBudgets := fun hash =>
        if isValid hash then node.mapFinalizedBudgets hash else none }
  | .cleanAndRemove hash fSignatureCheck =>
    match node.mapFinalizedBudgets hash with
    | none => node
    | some b => node.setBudget hash (node.cleanAndRemove verifyMessage fSignatureCheck b)

/-- Budgets are compared by the number of their votes that are marked as valid. -/
def CountsLiveVotes (node : BudgetNode K) : Prop :=
  ∀ hash b, node.mapFinalizedBudgets hash = some b → b.toFinalizedBudget.nVoteCount = b.liveVotes

/-- A `CleanAndRemove` finds no vote on its budget to be invalid. -/
def FindsAllValid (node : BudgetNode K) : BudgetEvent K → Prop
  | .cleanAndRemove hash fSignatureCheck => ∀ b, node.mapFinalizedBudgets hash = some b →
      ∀ key stored, b.mapVotes.lookup key = some stored →
        node.signatureValid verifyMessage fSignatureCheck stored.vote = true
  | _ => True

/-- Every vote on a budget is marked as valid. -/
def AllValid (b : VotedBudget) : Prop :=
  ∀ key stored, b.mapVotes.lookup key = some stored → stored.fValid = true

variable {env : VoteEnv} {verifyMessage : K → CFinalizedBudgetVote → Bool} {node : BudgetNode K}
  {b : VotedBudget}

theorem countsLive_iff : b.toFinalizedBudget.nVoteCount = b.liveVotes ↔ AllValid b := by
  have hcount : b.toFinalizedBudget.nVoteCount = b.liveVotes ↔
      count (fun _ stored => stored.fValid) b.mapVotes = size b.mapVotes :=
    Int.natCast_inj.trans eq_comm
  rw [hcount, count_eq_size_iff]
  rfl

theorem countsLiveVotes_iff : node.CountsLiveVotes ↔
    ∀ hash b, node.mapFinalizedBudgets hash = some b → AllValid b := by
  simp only [CountsLiveVotes, countsLive_iff]

theorem allValid_addOrUpdateVote {now : Int} {vote : CFinalizedBudgetVote} (h : AllValid b) :
    AllValid (b.addOrUpdateVote env now vote) := by
  unfold VotedBudget.addOrUpdateVote
  cases CFinalizedBudget.addOrUpdateVote env now
      (fun hash => (b.mapVotes.lookup hash).map StoredVote.vote) vote with
  | error reason => exact h
  | ok mapVotes' =>
    intro key stored hlookup
    dsimp only at hlookup
    rw [lookup_insert_eq] at hlookup
    split_ifs at hlookup with hkey
    · rw [← Option.some.inj hlookup]
    · exact h key stored hlookup

theorem allValid_cleanAndRemove_iff {fSignatureCheck : Bool} :
    AllValid (node.cleanAndRemove verifyMessage fSignatureCheck b) ↔
      ∀ key stored, b.mapVotes.lookup key = some stored →
        node.signatureValid verifyMessage fSignatureCheck stored.vote = true := by
  unfold AllValid cleanAndRemove
  simp only [lookup_mapValues, Option.map_eq_some_iff]
  constructor
  · intro h key stored hlookup
    exact h key _ ⟨stored, hlookup, rfl⟩
  · rintro h key stored' ⟨stored, hlookup, rfl⟩
    exact h key stored hlookup

/-- A budget that is put in has live votes only, if the node's budgets and the new one have. -/
theorem countsLiveVotes_setBudget {hash : Uint256} (h : node.CountsLiveVotes) (hb : AllValid b) :
    (node.setBudget hash b).CountsLiveVotes := by
  rw [countsLiveVotes_iff] at h ⊢
  intro hash' b' hlookup
  unfold setBudget at hlookup
  dsimp only at hlookup
  rw [Function.update_apply] at hlookup
  split_ifs at hlookup with hsame
  · rw [← Option.some.inj hlookup]
    exact hb
  · exact h hash' b' hlookup

/-- A step keeps the counts live exactly when it finds no vote to be invalid. -/
theorem countsLiveVotes_step_iff {e : BudgetEvent K} (h : node.CountsLiveVotes) :
    (step env verifyMessage node e).CountsLiveVotes ↔ FindsAllValid verifyMessage node e := by
  have hall := countsLiveVotes_iff.mp h
  cases e with
  | addFinalizedBudget hash budget fresh =>
    refine iff_of_true ?_ trivial
    have hfresh : AllValid budget := by
      intro key stored hlookup
      rw [fresh] at hlookup
      contradiction
    dsimp only [step]
    cases node.mapFinalizedBudgets hash with
    | none => exact countsLiveVotes_setBudget h hfresh
    | some _ => exact h
  | updateFinalizedBudget now vote =>
    refine iff_of_true ?_ trivial
    dsimp only [step]
    cases hb : node.mapFinalizedBudgets vote.nBudgetHash with
    | none => exact h
    | some b => exact countsLiveVotes_setBudget h (allValid_addOrUpdateVote (hall _ b hb))
  | masternodes find => exact iff_of_true h trivial
  | checkAndRemove isValid =>
    refine iff_of_true ?_ trivial
    intro hash b hlookup
    dsimp only [step] at hlookup
    split_ifs at hlookup with hvalid
    exact h hash b hlookup
  | cleanAndRemove hash fSignatureCheck =>
    dsimp only [step, FindsAllValid]
    cases hb : node.mapFinalizedBudgets hash with
    | none => exact iff_of_true h (by simp)
    | some b =>
      constructor
      · intro hafter b' hb'
        obtain rfl := Option.some.inj hb'
        have hown := countsLiveVotes_iff.mp hafter hash _ (Function.update_self hash _ _)
        exact allValid_cleanAndRemove_iff.mp hown
      · intro hfinds
        exact countsLiveVotes_setBudget h (allValid_cleanAndRemove_iff.mpr (hfinds b rfl))

/-- From a node without finalized budgets, the counts are live all along exactly when no
`CleanAndRemove` finds an invalid vote. -/
theorem countsLiveVotes_run_iff (env : VoteEnv) (verifyMessage : K → CFinalizedBudgetVote → Bool)
    (find : COutPoint → Option K) (events : List (BudgetEvent K)) :
    (∀ before after, events = before ++ after →
        (Runs.run (step env verifyMessage) { find := find } before).CountsLiveVotes) ↔
      Runs.Along (step env verifyMessage) (FindsAllValid verifyMessage) { find := find } events := by
  have hstart : ({ find := find } : BudgetNode K).CountsLiveVotes := by
    intro hash b hlookup
    contradiction
  exact Runs.forall_prefix_iff_along hstart fun node e hnode => countsLiveVotes_step_iff hnode

/-! A masternode votes, leaves, and its vote is found invalid. -/

def loneVote : CFinalizedBudgetVote := ⟨⟨⟨1, 0⟩, [], 0⟩, 50, 0, []⟩

def voteAndLeave : List (BudgetEvent Unit) :=
  [.masternodes fun prevout => if prevout.hash = 1 then some () else none,
    .addFinalizedBudget 50 ⟨300, [⟨5, [1], 100⟩], ∅, fun _ => none⟩ rfl,
    .updateFinalizedBudget 0 loneVote, .masternodes fun _ => none, .cleanAndRemove 50 false]

/-- The budget is still compared as one with a vote. -/
theorem not_countsLiveVotes_voteAndLeave :
    ¬ (Runs.run (step sampleVoteEnv fun _ _ => true) {} voteAndLeave).CountsLiveVotes := by
  intro h
  have hcount := h 50 _ rfl
  revert hcount
  decide

end BudgetNode
end Lytix
