import Lytix.Payments.BudgetVotes

/-! Votes that arrive before the proposal or the finalized budget they are about. The orphan tables
are kept by the hash of the proposal or budget, so each has room for one such vote. -/
namespace Lytix

/-- `mapOrphanMasternodeBudgetVotes`, `mapOrphanFinalizedBudgetVotes`: a vote is kept under the hash
it is about, so the table is the list of its votes. -/
structure Orphans (V : Type) [BudgetVote V] where
  votes : List V
  keyed : votes.Pairwise fun v w => BudgetVote.target v ≠ BudgetVote.target w

namespace Orphans

variable {V : Type} [BudgetVote V]

def empty : Orphans V := ⟨[], List.Pairwise.nil⟩

def erase (orphans : Orphans V) (hash : Uint256) : Orphans V where
  votes := orphans.votes.filter fun v => BudgetVote.target v ≠ hash
  keyed := orphans.keyed.filter _

/-- `orphans[target] = vote`, in the place of the vote that was there. -/
def insert (orphans : Orphans V) (vote : V) : Orphans V where
  votes := vote :: (orphans.erase (BudgetVote.target vote)).votes
  keyed := by
    apply List.Pairwise.cons
    · intro w hw
      have hne := (List.mem_filter.mp hw).2
      exact Ne.symm (by simpa using hne)
    · exact (orphans.erase _).keyed

def lookup (orphans : Orphans V) (hash : Uint256) : Option V :=
  orphans.votes.find? fun v => BudgetVote.target v = hash

variable {orphans : Orphans V} {vote : V} {hash : Uint256}

theorem lookup_eq_some (h : orphans.lookup hash = some vote) :
    vote ∈ orphans.votes ∧ BudgetVote.target vote = hash := by
  refine ⟨List.mem_of_find?_eq_some h, ?_⟩
  simpa using List.find?_some h

theorem lookup_erase_self : (orphans.erase hash).lookup hash = none := by
  apply List.find?_eq_none.mpr
  intro v hv
  have hne := (List.mem_filter.mp hv).2
  simpa using hne

theorem lookup_erase_of_ne {other : Uint256} (hne : hash ≠ other) :
    (orphans.erase other).lookup hash = orphans.lookup hash := by
  unfold lookup erase
  rw [List.find?_filter]
  congr 1
  funext v
  by_cases hv : BudgetVote.target v = hash
  · simp [hv, hne]
  · simp [hv]

theorem lookup_insert_self : (orphans.insert vote).lookup (BudgetVote.target vote) = some vote := by
  unfold lookup insert
  rw [List.find?_cons_of_pos]
  simp

theorem lookup_insert_of_ne (hne : BudgetVote.target vote ≠ hash) :
    (orphans.insert vote).lookup hash = orphans.lookup hash := by
  have herase : (orphans.erase (BudgetVote.target vote)).lookup hash = orphans.lookup hash :=
    lookup_erase_of_ne hne.symm
  rw [← herase]
  unfold lookup insert
  rw [List.find?_cons_of_neg]
  simpa using hne

end Orphans

/-- The tables of the proposals and their votes, or those of the finalized budgets. -/
structure VoteBook (V : Type) [BudgetVote V] where
  items : Uint256 → Option (VoteMap V) := fun _ => none
  seenItems : Uint256 → Bool := fun _ => false
  seenVotes : Uint256 → Option V := fun _ => none
  orphans : Orphans V := Orphans.empty

/-- The clock, whether `masternodeSync.IsSynced()`, and whether `mnodeman.Find` finds the
masternode of an input. -/
structure VoteContext where
  now : Int
  synced : Bool
  find : CTxIn → Bool

namespace VoteBook

variable {V : Type} [BudgetVote V] (env : VoteEnv) (ctx : VoteContext) (book : VoteBook V)

/-- `UpdateProposal` and `UpdateFinalizedBudget`. A vote on something unknown becomes an orphan when
it comes from a peer and the node is synced. -/
def update (fromPeer : Bool) (vote : V) : Bool × VoteBook V :=
  match book.items (BudgetVote.target vote) with
  | none =>
    if fromPeer && ctx.synced then (false, { book with orphans := book.orphans.insert vote })
    else (false, book)
  | some mapVotes =>
    match addOrUpdateVote env ctx.now mapVotes vote with
    | .ok mapVotes' =>
      (true, { book with
        items := Function.update book.items (BudgetVote.target vote) (some mapVotes') })
    | .error _ => (false, book)

/-- One round of the loop of `CheckOrphanVotes`. -/
def checkOrphan (vote : V) : VoteBook V :=
  let result := book.update env ctx false vote
  if result.1 then
    { result.2 with orphans := result.2.orphans.erase (BudgetVote.target vote) }
  else result.2

def checkOrphanVotes : VoteBook V :=
  book.orphans.votes.foldl (fun book vote => book.checkOrphan env ctx vote) book

/-- `AddProposal`, `AddFinalizedBudget`. -/
def addItem (hash : Uint256) : VoteBook V :=
  if (book.items hash).isSome then book
  else { book with items := Function.update book.items hash (some fun _ => none) }

/-- The messages `mvote` and `fbvote`. -/
def processVote (vote : V) : VoteBook V :=
  if (book.seenVotes (BudgetVote.getHash env vote)).isSome then book
  else if ctx.find (BudgetVote.vin vote) = false then book
  else
    let book := { book with
      seenVotes := Function.update book.seenVotes (BudgetVote.getHash env vote) (some vote) }
    if BudgetVote.signed env vote = false then book
    else (book.update env ctx true vote).2

/-- The messages `mprop` and `fbs` up to `CheckOrphanVotes`, and whether they get there. -/
def processItem (hash : Uint256) (collateralValid isValid : Bool) : Bool × VoteBook V :=
  if book.seenItems hash then (false, book)
  else if collateralValid = false then (false, book)
  else
    let book := { book with seenItems := Function.update book.seenItems hash true }
    if isValid = false then (false, book) else (true, book.addItem hash)

end VoteBook

structure BudgetTables where
  proposals : VoteBook CBudgetVote := {}
  finalizedBudgets : VoteBook CFinalizedBudgetVote := {}

/-- What arrives about a proposal or a finalized budget comes with the verdicts of
`IsBudgetCollateralValid` and `IsValid` at that time. -/
inductive BudgetMessage where
  | mprop (hash : Uint256) (collateralValid isValid : Bool)
  | mvote (vote : CBudgetVote)
  | fbs (hash : Uint256) (collateralValid isValid : Bool)
  | fbvote (vote : CFinalizedBudgetVote)

namespace BudgetTables

variable (env : VoteEnv) (ctx : VoteContext) (tables : BudgetTables)

def updateProposal (fromPeer : Bool) (vote : CBudgetVote) : Bool × VoteBook CBudgetVote :=
  tables.proposals.update env ctx fromPeer vote

def updateFinalizedBudget (fromPeer : Bool) (vote : CFinalizedBudgetVote) :
    Bool × VoteBook CFinalizedBudgetVote :=
  tables.finalizedBudgets.update env ctx fromPeer vote

def checkOrphanVotes : BudgetTables where
  proposals := tables.proposals.checkOrphanVotes env ctx
  finalizedBudgets := tables.finalizedBudgets.checkOrphanVotes env ctx

def processMessage : BudgetMessage → BudgetTables
  | .mprop hash collateralValid isValid =>
    let result := tables.proposals.processItem hash collateralValid isValid
    let tables := { tables with proposals := result.2 }
    if result.1 then tables.checkOrphanVotes env ctx else tables
  | .mvote vote => { tables with proposals := tables.proposals.processVote env ctx vote }
  | .fbs hash collateralValid isValid =>
    let result := tables.finalizedBudgets.processItem hash collateralValid isValid
    let tables := { tables with finalizedBudgets := result.2 }
    if result.1 then tables.checkOrphanVotes env ctx else tables
  | .fbvote vote =>
    { tables with finalizedBudgets := tables.finalizedBudgets.processVote env ctx vote }

def processMessages (arrivals : List (VoteContext × BudgetMessage)) : BudgetTables :=
  arrivals.foldl (fun tables a => tables.processMessage env a.1 a.2) tables

end BudgetTables

/-! What happens to the tables of one proposal or budget. -/
section tables
open LatestWins
variable {V : Type} [BudgetVote V] {env : VoteEnv} {ctx : VoteContext} {book : VoteBook V}
  {hash : Uint256} {vote : V} {mapVotes : VoteMap V}

namespace VoteBook

/-- The votes on the item, if it is known, the vote that waits for it, and whether it was seen. -/
def about (book : VoteBook V) (hash : Uint256) : Option (VoteMap V) × Option V × Bool :=
  (book.items hash, book.orphans.lookup hash, book.seenItems hash)

/-- A vote does not touch the tables of another item. -/
theorem about_update_of_ne {fromPeer : Bool} (hne : BudgetVote.target vote ≠ hash) :
    (book.update env ctx fromPeer vote).2.about hash = book.about hash := by
  unfold update about
  split
  · split_ifs
    · rw [Orphans.lookup_insert_of_ne hne]
    · rfl
  · split
    · dsimp only
      rw [Function.update_of_ne hne.symm]
    · rfl

theorem about_checkOrphan_of_ne (hne : BudgetVote.target vote ≠ hash) :
    (book.checkOrphan env ctx vote).about hash = book.about hash := by
  have hupdate : (book.update env ctx false vote).2.about hash = book.about hash :=
    about_update_of_ne hne
  unfold checkOrphan
  dsimp only
  split_ifs
  · rw [← hupdate]
    unfold about
    dsimp only
    rw [Orphans.lookup_erase_of_ne hne.symm]
  · exact hupdate

/-- An orphan stays one while its item is unknown. -/
theorem checkOrphan_of_unknown (hitem : book.items (BudgetVote.target vote) = none) :
    book.checkOrphan env ctx vote = book := by
  have hupdate : book.update env ctx false vote = (false, book) := by
    unfold update
    rw [hitem]
    rfl
  unfold checkOrphan
  rw [hupdate]
  rfl

/-- An orphan of a known item becomes a vote. -/
theorem about_checkOrphan (hitem : book.items (BudgetVote.target vote) = some mapVotes)
    (hnew : mapVotes (voterKey env vote) = none)
    (hnow : BudgetVote.nTime vote ≤ ctx.now + 60 * 60) :
    (book.checkOrphan env ctx vote).about (BudgetVote.target vote) =
      (some (Function.update mapVotes (voterKey env vote) (some vote)), none,
        book.seenItems (BudgetVote.target vote)) := by
  have hstored : addOrUpdateVote env ctx.now mapVotes vote =
      .ok (Function.update mapVotes (voterKey env vote) (some vote)) := by
    apply addOrUpdateVote_eq_ok.mpr
    refine ⟨?_, hnow, rfl⟩
    rw [hnew]
    exact admits_none
  have hupdate : book.update env ctx false vote = (true, { book with
      items := Function.update book.items (BudgetVote.target vote)
        (some (Function.update mapVotes (voterKey env vote) (some vote))) }) := by
    unfold update
    rw [hitem]
    dsimp only
    rw [hstored]
  unfold checkOrphan
  rw [hupdate]
  dsimp only
  rw [if_pos rfl]
  unfold about
  dsimp only
  rw [Orphans.lookup_erase_self, Function.update_self]

theorem about_foldl_checkOrphan_of_not_mem {votes : List V}
    (h : ∀ v ∈ votes, BudgetVote.target v ≠ hash) :
    (votes.foldl (fun book v => book.checkOrphan env ctx v) book).about hash =
      book.about hash := by
  induction votes generalizing book with
  | nil => rfl
  | cons v votes ih =>
    rw [List.foldl_cons, ih fun w hw => h w (List.mem_cons_of_mem v hw)]
    exact about_checkOrphan_of_ne (h v List.mem_cons_self)

theorem items_of_about_eq {book' : VoteBook V} (h : book'.about hash = book.about hash) :
    book'.items hash = book.items hash := congrArg Prod.fst h

/-- Nothing changes for an item that is unknown. -/
theorem about_checkOrphanVotes_of_unknown (hitem : book.items hash = none) :
    (book.checkOrphanVotes env ctx).about hash = book.about hash := by
  unfold checkOrphanVotes
  generalize book.orphans.votes = votes
  induction votes generalizing book with
  | nil => rfl
  | cons v votes ih =>
    rw [List.foldl_cons]
    by_cases hv : BudgetVote.target v = hash
    · subst hv
      rw [checkOrphan_of_unknown hitem]
      exact ih hitem
    · have hstep : (book.checkOrphan env ctx v).about hash = book.about hash :=
        about_checkOrphan_of_ne hv
      rw [ih ((items_of_about_eq hstep).trans hitem), hstep]

/-- Nothing changes for an item that no vote waits for. -/
theorem about_checkOrphanVotes_of_none (horphan : book.orphans.lookup hash = none) :
    (book.checkOrphanVotes env ctx).about hash = book.about hash := by
  apply about_foldl_checkOrphan_of_not_mem
  intro v hv htarget
  have hno := List.find?_eq_none.mp horphan v hv
  simp [htarget] at hno

/-- The vote that waits for a known item becomes one of its votes. -/
theorem about_checkOrphanVotes (horphan : book.orphans.lookup hash = some vote)
    (hitem : book.items hash = some mapVotes) (hnew : mapVotes (voterKey env vote) = none)
    (hnow : BudgetVote.nTime vote ≤ ctx.now + 60 * 60) :
    (book.checkOrphanVotes env ctx).about hash =
      (some (Function.update mapVotes (voterKey env vote) (some vote)), none,
        book.seenItems hash) := by
  obtain ⟨hmem, rfl⟩ := Orphans.lookup_eq_some horphan
  obtain ⟨before, after, hsplit⟩ := List.append_of_mem hmem
  have hkeyed := book.orphans.keyed
  rw [hsplit, List.pairwise_append, List.pairwise_cons] at hkeyed
  obtain ⟨-, ⟨hafter, -⟩, hbefore⟩ := hkeyed
  unfold checkOrphanVotes
  rw [hsplit, List.foldl_append, List.foldl_cons]
  have hstart : (before.foldl (fun book v => book.checkOrphan env ctx v) book).about
      (BudgetVote.target vote) = book.about (BudgetVote.target vote) :=
    about_foldl_checkOrphan_of_not_mem fun v hv => hbefore v hv vote List.mem_cons_self
  rw [about_foldl_checkOrphan_of_not_mem fun v hv => (hafter v hv).symm]
  rw [about_checkOrphan ((items_of_about_eq hstart).trans hitem) hnew hnow]
  have hseen := congrArg (fun a => a.2.2) hstart
  rw [show (before.foldl (fun book v => book.checkOrphan env ctx v) book).seenItems
    (BudgetVote.target vote) = book.seenItems (BudgetVote.target vote) from hseen]

theorem seenVotes_update {fromPeer : Bool} :
    (book.update env ctx fromPeer vote).2.seenVotes = book.seenVotes := by
  unfold update
  split
  · split_ifs <;> rfl
  · split <;> rfl

theorem seenVotes_checkOrphanVotes :
    (book.checkOrphanVotes env ctx).seenVotes = book.seenVotes := by
  unfold checkOrphanVotes
  generalize book.orphans.votes = votes
  induction votes generalizing book with
  | nil => rfl
  | cons v votes ih =>
    rw [List.foldl_cons, ih]
    have hupdate : (book.update env ctx false v).2.seenVotes = book.seenVotes := seenVotes_update
    unfold checkOrphan
    dsimp only
    split_ifs <;> exact hupdate

theorem seenVotes_addItem : (book.addItem hash).seenVotes = book.seenVotes := by
  unfold addItem
  split_ifs <;> rfl

theorem seenVotes_processItem {collateralValid isValid : Bool} :
    (book.processItem hash collateralValid isValid).2.seenVotes = book.seenVotes := by
  unfold processItem
  dsimp only
  split_ifs
  · rfl
  · rfl
  · rfl
  · exact seenVotes_addItem

theorem about_addItem_of_ne {other : Uint256} (hne : other ≠ hash) :
    (book.addItem other).about hash = book.about hash := by
  unfold addItem about
  split_ifs
  · rfl
  · dsimp only
    rw [Function.update_of_ne hne.symm]

/-- The message of another item. -/
theorem about_processItem_of_ne {other : Uint256} {collateralValid isValid : Bool}
    (hne : other ≠ hash) :
    (book.processItem other collateralValid isValid).2.about hash = book.about hash := by
  have hseen : VoteBook.about { book with
      seenItems := Function.update book.seenItems other true } hash = book.about hash := by
    unfold about
    dsimp only
    rw [Function.update_of_ne hne.symm]
  unfold processItem
  dsimp only
  split_ifs
  · rfl
  · rfl
  · exact hseen
  · rw [about_addItem_of_ne hne]
    exact hseen

theorem processItem_of_seen {collateralValid isValid : Bool} (h : book.seenItems hash = true) :
    book.processItem hash collateralValid isValid = (false, book) := by
  unfold processItem
  rw [if_pos h]

/-- A new vote on a known item is stored. -/
theorem about_update_of_known {fromPeer seen : Bool}
    (habout : book.about (BudgetVote.target vote) = (some mapVotes, none, seen))
    (hnew : mapVotes (voterKey env vote) = none)
    (hnow : BudgetVote.nTime vote ≤ ctx.now + 60 * 60) {seenVotes : Uint256 → Option V} :
    (VoteBook.update env ctx { book with seenVotes := seenVotes } fromPeer vote).2.about
        (BudgetVote.target vote) =
      (some (Function.update mapVotes (voterKey env vote) (some vote)), none, seen) := by
  have hitem : book.items (BudgetVote.target vote) = some mapVotes := congrArg Prod.fst habout
  have hrest := congrArg Prod.snd habout
  have hstored : addOrUpdateVote env ctx.now mapVotes vote =
      .ok (Function.update mapVotes (voterKey env vote) (some vote)) := by
    apply addOrUpdateVote_eq_ok.mpr
    refine ⟨?_, hnow, rfl⟩
    rw [hnew]
    exact admits_none
  unfold update about
  dsimp only
  rw [hitem]
  dsimp only
  rw [hstored]
  dsimp only
  rw [Function.update_self]
  exact congrArg (Prod.mk _) hrest

/-- A valid vote that was not seen gets to `update`. -/
theorem processVote_of_valid (hunseen : book.seenVotes (BudgetVote.getHash env vote) = none)
    (hfind : ctx.find (BudgetVote.vin vote) = true) (hsigned : BudgetVote.signed env vote = true) :
    book.processVote env ctx vote = (VoteBook.update env ctx { book with
      seenVotes := Function.update book.seenVotes (BudgetVote.getHash env vote) (some vote) }
        true vote).2 := by
  unfold processVote
  rw [hunseen, if_neg (by simp), hfind, if_neg (by simp)]
  dsimp only
  rw [hsigned, if_neg (by simp)]

end VoteBook

end tables
end Lytix
