import Lytix.Payments.OrphanVotes

/-! Budget votes that nobody signed. A vote is put among the seen ones before its signature is
looked at, under a hash that leaves the signature out. -/
namespace Lytix

/-- A kind of votes with the choice that is made. -/
class BudgetBallot (V : Type) extends BudgetVote V where
  choice : V → Option Int

instance : BudgetBallot CBudgetVote where
  choice := fun vote => some vote.nVote

/-- A vote on a finalized budget is always for it. -/
instance : BudgetBallot CFinalizedBudgetVote where
  choice := fun _ => none

section
variable {V : Type} [BudgetBallot V]

/-- Two votes of one masternode on the same thing, with the same choice and time. -/
def SameBallot (vote vote' : V) : Prop :=
  (BudgetVote.vin vote).prevout = (BudgetVote.vin vote').prevout ∧
    BudgetVote.target vote = BudgetVote.target vote' ∧
    BudgetBallot.choice vote = BudgetBallot.choice vote' ∧
    BudgetVote.nTime vote = BudgetVote.nTime vote'

namespace VoteBook

/-- The message gets to `AddOrUpdateVote`, which stores the vote. -/
def Accepts (env : VoteEnv) (ctx : VoteContext) (book : VoteBook V) (vote : V) : Prop :=
  ∃ mapVotes mapVotes', book.items (BudgetVote.target vote) = some mapVotes ∧
    addOrUpdateVote env ctx.now mapVotes vote = .ok mapVotes' ∧
    (book.processVote env ctx vote).items (BudgetVote.target vote) = some mapVotes'

/-- Whatever becomes of the proposals and of their votes meanwhile, a signed vote with the same
content that is accepted without the first one is accepted after it. -/
def NotPrevented (env : VoteEnv) (before after : VoteBook V) (vote : V) : Prop :=
  ∀ items ctx later, SameBallot later vote → BudgetVote.signed env later = true →
    Accepts env ctx { before with items := items } later →
    Accepts env ctx { after with items := items } later

/-- The handler stops before it puts the vote among the seen ones. -/
def NotRecorded (env : VoteEnv) (ctx : VoteContext) (book : VoteBook V) (vote : V) : Prop :=
  (book.seenVotes (BudgetVote.getHash env vote)).isSome ∨ ctx.find (BudgetVote.vin vote) = false

/-- Some signed vote has the content and the hash of this one. -/
def SignedTwin (env : VoteEnv) (vote : V) : Prop :=
  ∃ later, SameBallot later vote ∧ BudgetVote.signed env later = true ∧
    BudgetVote.getHash env later = BudgetVote.getHash env vote

variable {env : VoteEnv} {ctx : VoteContext} {book : VoteBook V} {vote later : V}

theorem processVote_of_notRecorded (h : book.NotRecorded env ctx vote) :
    book.processVote env ctx vote = book := by
  unfold processVote
  rcases h with hseen | hunknown
  · rw [if_pos hseen]
  · by_cases hseen : (book.seenVotes (BudgetVote.getHash env vote)).isSome
    · rw [if_pos hseen]
    · rw [if_neg hseen, if_pos hunknown]

theorem processVote_of_forged (h : ¬ book.NotRecorded env ctx vote)
    (hforged : BudgetVote.signed env vote = false) :
    book.processVote env ctx vote = { book with
      seenVotes :=
        Function.update book.seenVotes (BudgetVote.getHash env vote) (some vote) } := by
  have hseen : ¬ (book.seenVotes (BudgetVote.getHash env vote)).isSome := by
    intro hseen
    exact h (Or.inl hseen)
  have hknown : ¬ ctx.find (BudgetVote.vin vote) = false := by
    intro hunknown
    exact h (Or.inr hunknown)
  unfold processVote
  rw [if_neg hseen, if_neg hknown]
  dsimp only
  rw [if_pos hforged]

/-- What a signed vote comes to is decided by whether it was seen. -/
theorem accepts_iff (hsigned : BudgetVote.signed env later = true) :
    book.Accepts env ctx later ↔
      ¬ book.NotRecorded env ctx later ∧
        ∃ mapVotes mapVotes', book.items (BudgetVote.target later) = some mapVotes ∧
          addOrUpdateVote env ctx.now mapVotes later = .ok mapVotes' := by
  have hunsigned : ¬ BudgetVote.signed env later = false := by
    rw [hsigned]
    exact Bool.true_eq_false_eq_False
  constructor
  · intro haccepts
    obtain ⟨mapVotes, mapVotes', hitem, hstored, hafter⟩ := haccepts
    refine ⟨?_, mapVotes, mapVotes', hitem, hstored⟩
    intro hnot
    rw [processVote_of_notRecorded hnot, hitem] at hafter
    have hsame := Option.some.inj hafter
    obtain ⟨hadmits, -, hupdate⟩ := addOrUpdateVote_eq_ok.mp hstored
    have hheld : mapVotes (voterKey env later) = some later := by
      rw [hsame, ← hupdate, Function.update_self]
    rw [hheld, LatestWins.admits_some] at hadmits
    have hmin : 0 < BUDGET_VOTE_UPDATE_MIN := by decide
    omega
  · intro hready
    obtain ⟨hrecorded, mapVotes, mapVotes', hitem, hstored⟩ := hready
    refine ⟨mapVotes, mapVotes', hitem, hstored, ?_⟩
    have hseen : ¬ (book.seenVotes (BudgetVote.getHash env later)).isSome := by
      intro hseen
      exact hrecorded (Or.inl hseen)
    have hknown : ¬ ctx.find (BudgetVote.vin later) = false := by
      intro hunknown
      exact hrecorded (Or.inr hunknown)
    unfold processVote
    rw [if_neg hseen, if_neg hknown]
    dsimp only
    rw [if_neg hunsigned]
    unfold update
    dsimp only
    rw [hitem]
    dsimp only
    rw [hstored]
    exact Function.update_self _ _ _

/-- A forged vote does no harm exactly when it is not recorded, or has no signed twin. -/
theorem notPrevented_forged_iff (hforged : BudgetVote.signed env vote = false) :
    NotPrevented env book (book.processVote env ctx vote) vote ↔
      book.NotRecorded env ctx vote ∨ ¬ SignedTwin env vote := by
  constructor
  · intro hharmless
    by_contra hboth
    push Not at hboth
    obtain ⟨hrecorded, later, hballot, hsigned, hhash⟩ := hboth
    let items : Uint256 → Option (VoteMap V) := fun _ => some fun _ => none
    let ctx' : VoteContext := ⟨BudgetVote.nTime later, true, fun _ => true⟩
    have hstored : addOrUpdateVote env ctx'.now (fun _ => none) later =
        .ok (Function.update (fun _ => none) (voterKey env later) (some later)) := by
      apply addOrUpdateVote_eq_ok.mpr
      refine ⟨LatestWins.admits_none, ?_, rfl⟩
      dsimp only [ctx']
      omega
    have hbefore : Accepts env ctx' { book with items := items } later := by
      apply (accepts_iff hsigned).mpr
      refine ⟨?_, _, _, rfl, hstored⟩
      intro hnot
      rcases hnot with hseen | hunknown
      · rw [hhash] at hseen
        exact hrecorded (Or.inl hseen)
      · contradiction
    have hafter := hharmless items ctx' later hballot hsigned hbefore
    apply ((accepts_iff hsigned).mp hafter).1
    left
    rw [processVote_of_forged hrecorded hforged, hhash]
    dsimp only
    rw [Function.update_self]
    rfl
  · intro hor items ctx' later hballot hsigned hbefore
    by_cases hrecorded : book.NotRecorded env ctx vote
    · rw [processVote_of_notRecorded hrecorded]
      exact hbefore
    · have hother : BudgetVote.getHash env later ≠ BudgetVote.getHash env vote := by
        intro hhash
        rcases hor with hnot | hnone
        · exact hrecorded hnot
        · exact hnone ⟨later, hballot, hsigned, hhash⟩
      rw [processVote_of_forged hrecorded hforged]
      obtain ⟨hready, hstored⟩ := (accepts_iff hsigned).mp hbefore
      apply (accepts_iff hsigned).mpr
      refine ⟨?_, hstored⟩
      intro hnot
      apply hready
      rcases hnot with hseen | hunknown
      · left
        dsimp only at hseen
        rw [Function.update_of_ne hother] at hseen
        exact hseen
      · exact Or.inr hunknown

end VoteBook
end

namespace BudgetTables

def forgeryVoteEnv : VoteEnv :=
  { sampleVoteEnv with
    budgetVoteSigned := fun vote => vote.vchSig == [1]
    finalizedVoteSigned := fun vote => vote.vchSig == [1] }

def anyoneContext (known : Bool) : VoteContext := ⟨1000, true, fun _ => known⟩

def forgedVote : CBudgetVote := ⟨⟨⟨1, 0⟩, [], 0⟩, 50, 1, 0, []⟩

def forgedFinalizedVote : CFinalizedBudgetVote := ⟨⟨⟨1, 0⟩, [], 0⟩, 50, 0, []⟩

end BudgetTables
end Lytix
