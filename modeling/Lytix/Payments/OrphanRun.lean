import Lytix.Payments.OrphanVotes

/-! Everything about one proposal or finalized budget that arrives at a node, in some order: which
of its votes are held in the end. -/
namespace Lytix

section tables
open LatestWins
variable {V : Type} [BudgetVote V] {env : VoteEnv} {ctx : VoteContext} {book : VoteBook V}
  {hash : Uint256} {vote : V} {mapVotes : VoteMap V}

/-- What arrives for one of the two tables. -/
inductive BookEvent (V : Type) where
  | item (hash : Uint256) (collateralValid isValid : Bool)
  | vote (v : V)

/-- The events handled one after another. Messages about the other kind make it check its orphan
votes in between. -/
inductive BookRun (env : VoteEnv) (ctxs : List VoteContext) :
    VoteBook V → List (VoteContext × BookEvent V) → VoteBook V → Prop where
  | nil (book : VoteBook V) : BookRun env ctxs book [] book
  | recheck {book book' ctx events} (hctx : ctx ∈ ctxs)
      (run : BookRun env ctxs (book.checkOrphanVotes env ctx) events book') :
      BookRun env ctxs book events book'
  | rejected {book book' ctx hash collateralValid isValid events} (hctx : ctx ∈ ctxs)
      (hadded : (book.processItem hash collateralValid isValid).1 = false)
      (run : BookRun env ctxs (book.processItem hash collateralValid isValid).2 events book') :
      BookRun env ctxs book ((ctx, .item hash collateralValid isValid) :: events) book'
  | added {book book' ctx hash collateralValid isValid events} (hctx : ctx ∈ ctxs)
      (hadded : (book.processItem hash collateralValid isValid).1 = true)
      (run : BookRun env ctxs ((book.processItem hash collateralValid isValid).2.checkOrphanVotes
        env ctx) events book') :
      BookRun env ctxs book ((ctx, .item hash collateralValid isValid) :: events) book'
  | vote {book book' ctx v events} (hctx : ctx ∈ ctxs)
      (run : BookRun env ctxs (book.processVote env ctx v) events book') :
      BookRun env ctxs book ((ctx, .vote v) :: events) book'

/-- The votes among the events. -/
def allVotes : List (VoteContext × BookEvent V) → List V
  | [] => []
  | (_, .vote v) :: events => v :: allVotes events
  | (_, .item _ _ _) :: events => allVotes events

def votesOn (hash : Uint256) (events : List (VoteContext × BookEvent V)) : List V :=
  (allVotes events).filter fun v => BudgetVote.target v = hash

/-- The votes on an item that arrive before it, with the state of the node at that time. -/
def earlyVotes (hash : Uint256) : List (VoteContext × BookEvent V) → List (VoteContext × V)
  | [] => []
  | (ctx, .vote v) :: events =>
    if BudgetVote.target v = hash then (ctx, v) :: earlyVotes hash events
    else earlyVotes hash events
  | (_, .item other collateralValid isValid) :: events =>
    if other = hash ∧ collateralValid = true ∧ isValid = true then [] else earlyVotes hash events

/-- Valid votes of distinct masternodes that were not seen, and an item that arrives. The votes on
the item are not too far ahead of the clock whenever something arrives. -/
structure ValidArrivals (env : VoteEnv) (ctxs : List VoteContext) (hash : Uint256)
    (book : VoteBook V) (events : List (VoteContext × BookEvent V)) : Prop where
  found : ∀ ctx v, (ctx, BookEvent.vote v) ∈ events → ctx.find (BudgetVote.vin v) = true
  signed : ∀ v ∈ allVotes events, BudgetVote.signed env v = true
  unseen : ∀ v ∈ allVotes events, book.seenVotes (BudgetVote.getHash env v) = none
  distinct : (allVotes events).Pairwise fun v w =>
    BudgetVote.getHash env v ≠ BudgetVote.getHash env w
  voters : (votesOn hash events).Pairwise fun v w => voterKey env v ≠ voterKey env w
  clock : ∀ v ∈ votesOn hash events, ∀ ctx ∈ ctxs, BudgetVote.nTime v ≤ ctx.now + 60 * 60

section run
variable {ctxs : List VoteContext} {book' : VoteBook V}
  {events : List (VoteContext × BookEvent V)}

omit [BudgetVote V] in
theorem allVotes_tail {e : VoteContext × BookEvent V} :
    ∀ v ∈ allVotes events, v ∈ allVotes (e :: events) := by
  intro v hv
  rcases e with ⟨ctx, other | w⟩
  · exact hv
  · exact List.mem_cons_of_mem w hv

theorem votesOn_cons_vote {v : V} : votesOn hash ((ctx, BookEvent.vote v) :: events) =
    if BudgetVote.target v = hash then v :: votesOn hash events else votesOn hash events := by
  show (v :: allVotes events).filter _ = _
  rw [List.filter_cons]
  by_cases h : BudgetVote.target v = hash
  · rw [if_pos (by simpa using h), if_pos h]
    rfl
  · rw [if_neg (by simpa using h), if_neg h]
    rfl

theorem votesOn_tail {e : VoteContext × BookEvent V} :
    ∀ v ∈ votesOn hash events, v ∈ votesOn hash (e :: events) := by
  intro v hv
  obtain ⟨hmem, htarget⟩ := List.mem_filter.mp hv
  exact List.mem_filter.mpr ⟨allVotes_tail v hmem, htarget⟩

namespace ValidArrivals

/-- What was not an event leaves the rest as it is. -/
theorem of_seenVotes (h : ValidArrivals env ctxs hash book events)
    (hseen : book'.seenVotes = book.seenVotes) : ValidArrivals env ctxs hash book' events where
  found := h.found
  signed := h.signed
  unseen := by
    intro v hv
    rw [hseen]
    exact h.unseen v hv
  distinct := h.distinct
  voters := h.voters
  clock := h.clock

theorem tail_item {other : Uint256} {collateralValid isValid : Bool}
    (h : ValidArrivals env ctxs hash book
      ((ctx, .item other collateralValid isValid) :: events))
    (hseen : book'.seenVotes = book.seenVotes) : ValidArrivals env ctxs hash book' events where
  found := fun ctx v hv => h.found ctx v (List.mem_cons_of_mem _ hv)
  signed := h.signed
  unseen := by
    intro v hv
    rw [hseen]
    exact h.unseen v hv
  distinct := h.distinct
  voters := h.voters
  clock := h.clock

theorem tail_vote {v : V} (h : ValidArrivals env ctxs hash book ((ctx, .vote v) :: events))
    (hseen : book'.seenVotes =
      Function.update book.seenVotes (BudgetVote.getHash env v) (some v)) :
    ValidArrivals env ctxs hash book' events where
  found := fun ctx w hw => h.found ctx w (List.mem_cons_of_mem _ hw)
  signed := fun w hw => h.signed w (allVotes_tail w hw)
  unseen := by
    intro w hw
    have hne := (List.pairwise_cons.mp h.distinct).1 w hw
    rw [hseen, Function.update_of_ne hne.symm]
    exact h.unseen w (allVotes_tail w hw)
  distinct := (List.pairwise_cons.mp h.distinct).2
  voters := by
    have hvoters := h.voters
    rw [votesOn_cons_vote] at hvoters
    split_ifs at hvoters
    · exact (List.pairwise_cons.mp hvoters).2
    · exact hvoters
  clock := fun w hw => h.clock w (votesOn_tail w hw)

end ValidArrivals

/-- The next vote gets to `update`. -/
theorem ValidArrivals.processVote_eq {v : V}
    (h : ValidArrivals env ctxs hash book ((ctx, .vote v) :: events)) :
    book.processVote env ctx v = (VoteBook.update env ctx { book with
      seenVotes := Function.update book.seenVotes (BudgetVote.getHash env v) (some v) }
        true v).2 := by
  apply VoteBook.processVote_of_valid
  · exact h.unseen v List.mem_cons_self
  · exact h.found ctx v List.mem_cons_self
  · exact h.signed v List.mem_cons_self

/-- Once an item is known and no vote waits for it, every vote on it is counted. -/
theorem BookRun.counted_of_known (run : BookRun env ctxs book events book')
    (hvalid : ValidArrivals env ctxs hash book events)
    (habout : book.about hash = (some mapVotes, none, true))
    (hnew : ∀ v ∈ votesOn hash events, mapVotes (voterKey env v) = none) :
    ∃ mapVotes', book'.items hash = some mapVotes' ∧
      (∀ v ∈ votesOn hash events, mapVotes' (voterKey env v) = some v) ∧
      ∀ k, (∀ v ∈ votesOn hash events, voterKey env v ≠ k) → mapVotes' k = mapVotes k := by
  induction run generalizing mapVotes with
  | nil book =>
    refine ⟨mapVotes, congrArg Prod.fst habout, ?_, fun k _ => rfl⟩
    intro v hv
    contradiction
  | @recheck book book' ctx events hctx run ih =>
    have hcheck : (book.checkOrphanVotes env ctx).about hash = book.about hash :=
      VoteBook.about_checkOrphanVotes_of_none (congrArg (fun a => a.2.1) habout)
    exact ih (hvalid.of_seenVotes VoteBook.seenVotes_checkOrphanVotes) (hcheck.trans habout) hnew
  | @rejected book book' ctx other collateralValid isValid events hctx hadded run ih =>
    apply ih (hvalid.tail_item VoteBook.seenVotes_processItem) _ hnew
    by_cases hother : other = hash
    · rw [hother, VoteBook.processItem_of_seen (congrArg (fun a => a.2.2) habout)]
      exact habout
    · rw [VoteBook.about_processItem_of_ne hother]
      exact habout
  | @added book book' ctx other collateralValid isValid events hctx hadded run ih =>
    have hother : other ≠ hash := by
      rintro rfl
      rw [VoteBook.processItem_of_seen (congrArg (fun a => a.2.2) habout)] at hadded
      exact Bool.false_ne_true hadded
    have hitem : (book.processItem other collateralValid isValid).2.about hash =
        (some mapVotes, none, true) := (VoteBook.about_processItem_of_ne hother).trans habout
    apply ih _ _ hnew
    · apply hvalid.tail_item
      rw [VoteBook.seenVotes_checkOrphanVotes, VoteBook.seenVotes_processItem]
    · rw [VoteBook.about_checkOrphanVotes_of_none (congrArg (fun a => a.2.1) hitem)]
      exact hitem
  | @vote book book' ctx v events hctx run ih =>
    have hprocess := hvalid.processVote_eq
    have hseen : (book.processVote env ctx v).seenVotes =
        Function.update book.seenVotes (BudgetVote.getHash env v) (some v) := by
      rw [hprocess, VoteBook.seenVotes_update]
    have htail := hvalid.tail_vote hseen
    by_cases htarget : BudgetVote.target v = hash
    · subst htarget
      have hvotes : votesOn (BudgetVote.target v) ((ctx, BookEvent.vote v) :: events) =
          v :: votesOn (BudgetVote.target v) events := by rw [votesOn_cons_vote, if_pos rfl]
      rw [hvotes] at hnew ⊢
      have hvoters := hvalid.voters
      rw [hvotes, List.pairwise_cons] at hvoters
      have hnow := hvalid.clock v (by rw [hvotes]; exact List.mem_cons_self) ctx hctx
      have hstored : (book.processVote env ctx v).about (BudgetVote.target v) =
          (some (Function.update mapVotes (voterKey env v) (some v)), none, true) := by
        rw [hprocess]
        exact VoteBook.about_update_of_known habout (hnew v List.mem_cons_self) hnow
      have hnew' : ∀ w ∈ votesOn (BudgetVote.target v) events,
          Function.update mapVotes (voterKey env v) (some v) (voterKey env w) = none := by
        intro w hw
        rw [Function.update_of_ne (hvoters.1 w hw).symm]
        exact hnew w (List.mem_cons_of_mem v hw)
      obtain ⟨mapVotes', hitem, hcounted, hothers⟩ := ih htail hstored hnew'
      refine ⟨mapVotes', hitem, ?_, ?_⟩
      · intro w hw
        rcases List.mem_cons.mp hw with rfl | hw
        · rw [hothers _ fun u hu => (hvoters.1 u hu).symm, Function.update_self]
        · exact hcounted w hw
      · intro k hk
        rw [hothers k fun w hw => hk w (List.mem_cons_of_mem v hw),
          Function.update_of_ne (hk v List.mem_cons_self).symm]
    · have hvotes : votesOn hash ((ctx, BookEvent.vote v) :: events) = votesOn hash events := by
        rw [votesOn_cons_vote, if_neg htarget]
      rw [hvotes] at hnew ⊢
      apply ih htail _ hnew
      rw [hprocess, VoteBook.about_update_of_ne htarget]
      exact habout

/-- The votes on an item that arrive after it. -/
def lateVotes (hash : Uint256) : List (VoteContext × BookEvent V) → List V
  | [] => []
  | (_, .vote _) :: events => lateVotes hash events
  | (_, .item other collateralValid isValid) :: events =>
    if other = hash ∧ collateralValid = true ∧ isValid = true then votesOn hash events
    else lateVotes hash events

theorem votesOn_eq_early_late :
    votesOn hash events = (earlyVotes hash events).map Prod.snd ++ lateVotes hash events := by
  induction events with
  | nil => rfl
  | cons e events ih =>
    rcases e with ⟨ctx, other | v⟩
    · show votesOn hash events = _
      unfold earlyVotes lateVotes
      split_ifs
      · rfl
      · exact ih
    · rw [votesOn_cons_vote]
      unfold earlyVotes lateVotes
      split_ifs
      · rw [List.map_cons, List.cons_append, ih]
      · exact ih

/-- The vote that waits for an item after more of its votes came early. -/
def waiting (orphan : Option V) (early : List (VoteContext × V)) : Option V :=
  early.foldl (fun orphan e => if e.1.synced then some e.2 else orphan) orphan

/-- The votes of a new item, for which a vote waits. -/
def firstVotes (env : VoteEnv) (orphan : Option V) (k : Uint256) : Option V :=
  orphan.filter fun v => voterKey env v == k

theorem earlyVotes_cons_vote {v : V} : earlyVotes hash ((ctx, BookEvent.vote v) :: events) =
    if BudgetVote.target v = hash then (ctx, v) :: earlyVotes hash events
    else earlyVotes hash events := rfl

theorem earlyVotes_cons_item {other : Uint256} {collateralValid isValid : Bool} :
    earlyVotes hash ((ctx, BookEvent.item (V := V) other collateralValid isValid) :: events) =
      if other = hash ∧ collateralValid = true ∧ isValid = true then []
      else earlyVotes hash events := rfl

theorem lateVotes_cons_item {other : Uint256} {collateralValid isValid : Bool} :
    lateVotes hash ((ctx, BookEvent.item (V := V) other collateralValid isValid) :: events) =
      if other = hash ∧ collateralValid = true ∧ isValid = true then votesOn hash events
      else lateVotes hash events := rfl

/-- The votes of an item that has just been added. -/
theorem VoteBook.about_added {orphan : Option V}
    (habout : book.about hash = (some fun _ => none, orphan, true))
    (hnow : ∀ v ∈ orphan, BudgetVote.nTime v ≤ ctx.now + 60 * 60) :
    (book.checkOrphanVotes env ctx).about hash = (some (firstVotes env orphan), none, true) := by
  have hitem : book.items hash = some fun _ => none := congrArg Prod.fst habout
  have hlookup : book.orphans.lookup hash = orphan := congrArg (fun a => a.2.1) habout
  have hseen : book.seenItems hash = true := congrArg (fun a => a.2.2) habout
  cases orphan with
  | none =>
    rw [VoteBook.about_checkOrphanVotes_of_none hlookup, habout]
    rfl
  | some v =>
    rw [VoteBook.about_checkOrphanVotes hlookup hitem rfl (hnow v rfl), hseen]
    have hfirst : Function.update (fun _ => none) (voterKey env v) (some v) =
        firstVotes env (some v) := by
      funext k
      by_cases hk : voterKey env v = k
      · subst hk
        rw [Function.update_self]
        simp [firstVotes, Option.filter]
      · rw [Function.update_of_ne (Ne.symm hk)]
        simp [firstVotes, Option.filter, hk]
    rw [hfirst]

/-- A vote on an unknown item waits when the node is synced. -/
theorem VoteBook.about_update_of_unknown {v : V} {orphan : Option V}
    {seenVotes : Uint256 → Option V}
    (habout : book.about (BudgetVote.target v) = (none, orphan, false)) :
    (VoteBook.update env ctx { book with seenVotes := seenVotes } true v).2.about
        (BudgetVote.target v) =
      (none, if ctx.synced then some v else orphan, false) := by
  have hitem : book.items (BudgetVote.target v) = none := congrArg Prod.fst habout
  have hseen : book.seenItems (BudgetVote.target v) = false := congrArg (fun a => a.2.2) habout
  unfold VoteBook.update
  dsimp only
  rw [hitem]
  dsimp only
  rw [Bool.true_and]
  split_ifs with hsynced
  · unfold VoteBook.about
    dsimp only
    rw [Orphans.lookup_insert_self, hitem, hseen]
  · exact habout

/-- An item that is not known yet gets added. -/
theorem VoteBook.about_processItem_of_unknown {orphan : Option V}
    (habout : book.about hash = (none, orphan, false)) :
    (book.processItem hash true true).1 = true ∧
      (book.processItem hash true true).2.about hash = (some fun _ => none, orphan, true) := by
  have hitem : book.items hash = none := congrArg Prod.fst habout
  have hlookup : book.orphans.lookup hash = orphan := congrArg (fun a => a.2.1) habout
  have hseen : book.seenItems hash = false := congrArg (fun a => a.2.2) habout
  unfold VoteBook.processItem VoteBook.addItem VoteBook.about
  simp [hitem, hseen, hlookup]

theorem VoteBook.processItem_of_collateral {other : Uint256} {isValid : Bool} :
    book.processItem other false isValid = (false, book) := by
  unfold VoteBook.processItem
  by_cases hseen : book.seenItems other = true
  · rw [if_pos hseen]
  · rw [if_neg hseen, if_pos rfl]

/-- What is counted on an item that arrives: the votes after it, and of those before it the one
that still waits. -/
theorem BookRun.counted_of_unknown {orphan : Option V}
    (run : BookRun env ctxs book events book')
    (hvalid : ValidArrivals env ctxs hash book events)
    (harrives : ∃ ctx, (ctx, BookEvent.item hash true true) ∈ events)
    (hitem : ∀ ctx isValid, (ctx, BookEvent.item hash true isValid) ∈ events → isValid = true)
    (habout : book.about hash = (none, orphan, false))
    (horphan : ∀ v ∈ orphan, (∀ w ∈ votesOn hash events, voterKey env v ≠ voterKey env w) ∧
      ∀ ctx ∈ ctxs, BudgetVote.nTime v ≤ ctx.now + 60 * 60) :
    ∃ mapVotes', book'.items hash = some mapVotes' ∧
      (∀ v ∈ lateVotes hash events, mapVotes' (voterKey env v) = some v) ∧
      ∀ k, (∀ v ∈ lateVotes hash events, voterKey env v ≠ k) →
        mapVotes' k = firstVotes env (waiting orphan (earlyVotes hash events)) k := by
  induction run generalizing orphan with
  | nil book =>
    obtain ⟨ctx, hmem⟩ := harrives
    contradiction
  | @recheck book book' ctx events hctx run ih =>
    have hcheck : (book.checkOrphanVotes env ctx).about hash = book.about hash :=
      VoteBook.about_checkOrphanVotes_of_unknown (congrArg Prod.fst habout)
    exact ih (hvalid.of_seenVotes VoteBook.seenVotes_checkOrphanVotes) harrives hitem
      (hcheck.trans habout) horphan
  | @rejected book book' ctx other collateralValid isValid events hctx hadded run ih =>
    have hother : ¬(other = hash ∧ collateralValid = true ∧ isValid = true) := by
      rintro ⟨rfl, rfl, rfl⟩
      rw [(VoteBook.about_processItem_of_unknown habout).1] at hadded
      exact Bool.false_ne_true hadded.symm
    have hstep : (book.processItem other collateralValid isValid).2.about hash =
        book.about hash := by
      by_cases hsame : other = hash
      · cases collateralValid with
        | false => rw [VoteBook.processItem_of_collateral]
        | true =>
          subst hsame
          exact absurd ⟨rfl, rfl, hitem ctx isValid List.mem_cons_self⟩ hother
      · exact VoteBook.about_processItem_of_ne hsame
    rw [lateVotes_cons_item, earlyVotes_cons_item, if_neg hother, if_neg hother]
    apply ih (hvalid.tail_item VoteBook.seenVotes_processItem) _ _ (hstep.trans habout) horphan
    · obtain ⟨ctx', hmem⟩ := harrives
      rcases List.mem_cons.mp hmem with heq | hmem
      · cases heq
        exact absurd ⟨rfl, rfl, rfl⟩ hother
      · exact ⟨ctx', hmem⟩
    · intro ctx' isValid' hmem
      exact hitem ctx' isValid' (List.mem_cons_of_mem _ hmem)
  | @added book book' ctx other collateralValid isValid events hctx hadded run ih =>
    have hseen : ((book.processItem other collateralValid isValid).2.checkOrphanVotes
        env ctx).seenVotes = book.seenVotes := by
      rw [VoteBook.seenVotes_checkOrphanVotes, VoteBook.seenVotes_processItem]
    have htail := hvalid.tail_item hseen
    by_cases hsame : other = hash
    · subst hsame
      have hcollateral : collateralValid = true := by
        cases collateralValid with
        | false =>
          rw [VoteBook.processItem_of_collateral] at hadded
          exact absurd hadded Bool.false_ne_true
        | true => rfl
      subst hcollateral
      have hisValid := hitem ctx isValid List.mem_cons_self
      subst hisValid
      rw [lateVotes_cons_item, earlyVotes_cons_item, if_pos ⟨rfl, rfl, rfl⟩,
        if_pos ⟨rfl, rfl, rfl⟩]
      have hknown : ((book.processItem other true true).2.checkOrphanVotes env ctx).about other =
          (some (firstVotes env orphan), none, true) := by
        apply VoteBook.about_added (VoteBook.about_processItem_of_unknown habout).2
        intro v hv
        exact (horphan v hv).2 ctx hctx
      apply run.counted_of_known htail hknown
      intro w hw
      apply Option.filter_eq_none_iff.mpr
      intro v hv
      have hne := (horphan v hv).1 w hw
      simpa using hne
    · rw [lateVotes_cons_item, earlyVotes_cons_item, if_neg fun h => hsame h.1,
        if_neg fun h => hsame h.1]
      have hitemStep : (book.processItem other collateralValid isValid).2.about hash =
          (none, orphan, false) := (VoteBook.about_processItem_of_ne hsame).trans habout
      apply ih htail _ _ _ horphan
      · obtain ⟨ctx', hmem⟩ := harrives
        rcases List.mem_cons.mp hmem with heq | hmem
        · cases heq
          exact absurd rfl hsame
        · exact ⟨ctx', hmem⟩
      · intro ctx' isValid' hmem
        exact hitem ctx' isValid' (List.mem_cons_of_mem _ hmem)
      · rw [VoteBook.about_checkOrphanVotes_of_unknown (congrArg Prod.fst hitemStep)]
        exact hitemStep
  | @vote book book' ctx v events hctx run ih =>
    have hprocess := hvalid.processVote_eq
    have hseen : (book.processVote env ctx v).seenVotes =
        Function.update book.seenVotes (BudgetVote.getHash env v) (some v) := by
      rw [hprocess, VoteBook.seenVotes_update]
    have htail := hvalid.tail_vote hseen
    have harrives' : ∃ ctx, (ctx, BookEvent.item hash true true) ∈ events := by
      obtain ⟨ctx', hmem⟩ := harrives
      rcases List.mem_cons.mp hmem with heq | hmem
      · cases heq
      · exact ⟨ctx', hmem⟩
    have hitem' : ∀ ctx isValid, (ctx, BookEvent.item hash true isValid) ∈ events →
        isValid = true := fun ctx' isValid' hmem => hitem ctx' isValid' (List.mem_cons_of_mem _ hmem)
    show ∃ mapVotes', book'.items hash = some mapVotes' ∧
      (∀ w ∈ lateVotes hash events, mapVotes' (voterKey env w) = some w) ∧ _
    rw [earlyVotes_cons_vote]
    by_cases htarget : BudgetVote.target v = hash
    · subst htarget
      have hvotes : votesOn (BudgetVote.target v) ((ctx, BookEvent.vote v) :: events) =
          v :: votesOn (BudgetVote.target v) events := by rw [votesOn_cons_vote, if_pos rfl]
      have hvoters := hvalid.voters
      rw [hvotes] at hvoters horphan
      rw [if_pos rfl]
      apply ih htail harrives' hitem'
      · rw [hprocess]
        exact VoteBook.about_update_of_unknown habout
      · intro w hw
        dsimp only at hw
        split_ifs at hw
        · cases hw
          refine ⟨(List.pairwise_cons.mp hvoters).1, ?_⟩
          apply hvalid.clock v
          rw [hvotes]
          exact List.mem_cons_self
        · obtain ⟨hothers, hclock⟩ := horphan w hw
          exact ⟨fun u hu => hothers u (List.mem_cons_of_mem v hu), hclock⟩
    · have hvotes : votesOn hash ((ctx, BookEvent.vote v) :: events) = votesOn hash events := by
        rw [votesOn_cons_vote, if_neg htarget]
      rw [hvotes] at horphan
      rw [if_neg htarget]
      apply ih htail harrives' hitem' _ horphan
      rw [hprocess, VoteBook.about_update_of_ne htarget]
      exact habout

/-- Every masternode's vote on the item is held. -/
def EveryVoteCounted (env : VoteEnv) (book : VoteBook V) (hash : Uint256) (votes : List V) : Prop :=
  ∃ mapVotes, book.items hash = some mapVotes ∧ ∀ v ∈ votes, mapVotes (voterKey env v) = some v

/-- The item is unknown at first and arrives, with valid votes of distinct masternodes. -/
structure FairArrivals (env : VoteEnv) (ctxs : List VoteContext) (hash : Uint256)
    (book : VoteBook V) (events : List (VoteContext × BookEvent V)) : Prop
    extends ValidArrivals env ctxs hash book events where
  unknown : book.about hash = (none, none, false)
  arrives : ∃ ctx, (ctx, BookEvent.item hash true true) ∈ events
  valid : ∀ ctx isValid, (ctx, BookEvent.item hash true isValid) ∈ events → isValid = true

/-- At most one vote on the item comes before it, to a node that is synced. -/
def AtMostOneEarly (hash : Uint256) (events : List (VoteContext × BookEvent V)) : Prop :=
  (earlyVotes hash events).length ≤ 1 ∧ ∀ e ∈ earlyVotes hash events, e.1.synced = true

/-- Every vote is held exactly when at most one of them came before the item. -/
theorem BookRun.everyVoteCounted_iff (run : BookRun env ctxs book events book')
    (hfair : FairArrivals env ctxs hash book events) :
    EveryVoteCounted env book' hash (votesOn hash events) ↔ AtMostOneEarly hash events := by
  obtain ⟨mapVotes, hitem, hlate, hearly⟩ := run.counted_of_unknown hfair.toValidArrivals
    hfair.arrives hfair.valid hfair.unknown (fun v hv => by contradiction)
  have hsplit : votesOn hash events =
      (earlyVotes hash events).map Prod.snd ++ lateVotes hash events := votesOn_eq_early_late
  have hvoters := hfair.voters
  rw [hsplit, List.pairwise_append] at hvoters
  obtain ⟨hpairs, -, hcross⟩ := hvoters
  -- an early vote is held when it is the one that waits
  have hheld : ∀ e ∈ earlyVotes hash events, mapVotes (voterKey env e.2) =
      firstVotes env (waiting none (earlyVotes hash events)) (voterKey env e.2) := by
    intro e he
    apply hearly
    intro v hv
    exact (hcross e.2 (List.mem_map_of_mem he) v hv).symm
  constructor
  · rintro ⟨mapVotes', hitem', hcounted⟩
    have hsame : mapVotes' = mapVotes := Option.some.inj (hitem'.symm.trans hitem)
    subst hsame
    have hfirst : ∀ e ∈ earlyVotes hash events,
        waiting none (earlyVotes hash events) = some e.2 := by
      intro e he
      have hmem : e.2 ∈ votesOn hash events := by
        rw [hsplit]
        exact List.mem_append_left _ (List.mem_map_of_mem he)
      have hvote := (hheld e he).symm.trans (hcounted e.2 hmem)
      exact (Option.filter_eq_some_iff.mp hvote).1
    unfold AtMostOneEarly
    generalize earlyVotes hash events = early at hfirst hpairs
    match early with
    | [] => simp
    | [e] =>
      have hsynced := hfirst e List.mem_cons_self
      simpa [waiting] using hsynced
    | e :: e' :: rest =>
      have hwaits := hfirst e List.mem_cons_self
      rw [hfirst e' (List.mem_cons_of_mem e List.mem_cons_self)] at hwaits
      have hne := (List.pairwise_cons.mp hpairs).1 e'.2 List.mem_cons_self
      exact absurd (congrArg (voterKey env) (Option.some.inj hwaits)).symm hne
  · rintro ⟨hlength, hsynced⟩
    refine ⟨mapVotes, hitem, ?_⟩
    intro v hv
    rw [hsplit] at hv
    rcases List.mem_append.mp hv with hv | hv
    · obtain ⟨e, he, rfl⟩ := List.mem_map.mp hv
      rw [hheld e he]
      have hone : earlyVotes hash events = [e] := by
        obtain ⟨before, after, hparts⟩ := List.append_of_mem he
        rw [hparts, List.length_append, List.length_cons] at hlength
        have hbefore := List.eq_nil_of_length_eq_zero (show before.length = 0 by omega)
        have hafter := List.eq_nil_of_length_eq_zero (show after.length = 0 by omega)
        rw [hparts, hbefore, hafter]
        rfl
      rw [hone]
      simp [waiting, firstVotes, Option.filter, hsynced e he]
    · exact hlate v hv

end run
end tables

/-! The two tables of a node. -/

/-- What arrives about proposals. -/
def proposalEvents : List (VoteContext × BudgetMessage) →
    List (VoteContext × BookEvent CBudgetVote)
  | [] => []
  | (ctx, .mprop hash collateralValid isValid) :: arrivals =>
    (ctx, .item hash collateralValid isValid) :: proposalEvents arrivals
  | (ctx, .mvote v) :: arrivals => (ctx, .vote v) :: proposalEvents arrivals
  | (_, .fbs _ _ _) :: arrivals => proposalEvents arrivals
  | (_, .fbvote _) :: arrivals => proposalEvents arrivals

/-- What arrives about finalized budgets. -/
def finalizedBudgetEvents : List (VoteContext × BudgetMessage) →
    List (VoteContext × BookEvent CFinalizedBudgetVote)
  | [] => []
  | (ctx, .fbs hash collateralValid isValid) :: arrivals =>
    (ctx, .item hash collateralValid isValid) :: finalizedBudgetEvents arrivals
  | (ctx, .fbvote v) :: arrivals => (ctx, .vote v) :: finalizedBudgetEvents arrivals
  | (_, .mprop _ _ _) :: arrivals => finalizedBudgetEvents arrivals
  | (_, .mvote _) :: arrivals => finalizedBudgetEvents arrivals

section manager
variable {env : VoteEnv} {ctx : VoteContext} {ctxs : List VoteContext} {tables : BudgetTables}
  {arrivals : List (VoteContext × BudgetMessage)}

/-- The event of an item, whether it is added or not. -/
theorem BookRun.item {V : Type} [BudgetVote V] {book book' : VoteBook V}
    {events : List (VoteContext × BookEvent V)} {hash : Uint256} {collateralValid isValid : Bool}
    (hctx : ctx ∈ ctxs)
    (run : BookRun env ctxs
      (if (book.processItem hash collateralValid isValid).1
        then (book.processItem hash collateralValid isValid).2.checkOrphanVotes env ctx
        else (book.processItem hash collateralValid isValid).2) events book') :
    BookRun env ctxs book ((ctx, .item hash collateralValid isValid) :: events) book' := by
  split_ifs at run with hadded
  · exact BookRun.added hctx hadded run
  · exact BookRun.rejected hctx (Bool.eq_false_of_not_eq_true hadded) run

/-- The item of the other table, whether it is added or not. -/
theorem BookRun.otherItem {V : Type} [BudgetVote V] {book book' : VoteBook V}
    {events : List (VoteContext × BookEvent V)} {added : Bool} (hctx : ctx ∈ ctxs)
    (run : BookRun env ctxs (if added then book.checkOrphanVotes env ctx else book) events book') :
    BookRun env ctxs book events book' := by
  split_ifs at run
  · exact BookRun.recheck hctx run
  · exact run

namespace BudgetTables

theorem proposals_processMessage_mprop {hash : Uint256} {collateralValid isValid : Bool} :
    (tables.processMessage env ctx (.mprop hash collateralValid isValid)).proposals =
      if (tables.proposals.processItem hash collateralValid isValid).1
        then (tables.proposals.processItem hash collateralValid isValid).2.checkOrphanVotes env ctx
        else (tables.proposals.processItem hash collateralValid isValid).2 := by
  unfold processMessage
  dsimp only
  split_ifs <;> rfl

theorem proposals_processMessage_fbs {hash : Uint256} {collateralValid isValid : Bool} :
    (tables.processMessage env ctx (.fbs hash collateralValid isValid)).proposals =
      if (tables.finalizedBudgets.processItem hash collateralValid isValid).1
        then tables.proposals.checkOrphanVotes env ctx else tables.proposals := by
  unfold processMessage
  dsimp only
  split_ifs <;> rfl

theorem finalizedBudgets_processMessage_fbs {hash : Uint256} {collateralValid isValid : Bool} :
    (tables.processMessage env ctx (.fbs hash collateralValid isValid)).finalizedBudgets =
      if (tables.finalizedBudgets.processItem hash collateralValid isValid).1
        then (tables.finalizedBudgets.processItem hash collateralValid isValid).2.checkOrphanVotes
          env ctx
        else (tables.finalizedBudgets.processItem hash collateralValid isValid).2 := by
  unfold processMessage
  dsimp only
  split_ifs <;> rfl

theorem finalizedBudgets_processMessage_mprop {hash : Uint256} {collateralValid isValid : Bool} :
    (tables.processMessage env ctx (.mprop hash collateralValid isValid)).finalizedBudgets =
      if (tables.proposals.processItem hash collateralValid isValid).1
        then tables.finalizedBudgets.checkOrphanVotes env ctx else tables.finalizedBudgets := by
  unfold processMessage
  dsimp only
  split_ifs <;> rfl

end BudgetTables

/-- The messages of the finalized budgets only make the proposals check their orphan votes. -/
theorem bookRun_proposals (hlast : ctx ∈ ctxs) (hctxs : ∀ a ∈ arrivals, a.1 ∈ ctxs) :
    BookRun env ctxs tables.proposals (proposalEvents arrivals)
      ((tables.processMessages env arrivals).checkOrphanVotes env ctx).proposals := by
  induction arrivals generalizing tables with
  | nil => exact BookRun.recheck hlast (BookRun.nil _)
  | cons a arrivals ih =>
    obtain ⟨now, message⟩ := a
    have hnow : now ∈ ctxs := hctxs _ List.mem_cons_self
    have hrest : BookRun env ctxs (tables.processMessage env now message).proposals
        (proposalEvents arrivals) ((tables.processMessages env
          ((now, message) :: arrivals)).checkOrphanVotes env ctx).proposals :=
      ih fun a ha => hctxs a (List.mem_cons_of_mem _ ha)
    cases message with
    | mprop hash collateralValid isValid =>
      rw [BudgetTables.proposals_processMessage_mprop] at hrest
      exact BookRun.item hnow hrest
    | mvote vote => exact BookRun.vote hnow hrest
    | fbs hash collateralValid isValid =>
      rw [BudgetTables.proposals_processMessage_fbs] at hrest
      exact BookRun.otherItem hnow hrest
    | fbvote vote => exact hrest

theorem bookRun_finalizedBudgets (hlast : ctx ∈ ctxs) (hctxs : ∀ a ∈ arrivals, a.1 ∈ ctxs) :
    BookRun env ctxs tables.finalizedBudgets (finalizedBudgetEvents arrivals)
      ((tables.processMessages env arrivals).checkOrphanVotes env ctx).finalizedBudgets := by
  induction arrivals generalizing tables with
  | nil => exact BookRun.recheck hlast (BookRun.nil _)
  | cons a arrivals ih =>
    obtain ⟨now, message⟩ := a
    have hnow : now ∈ ctxs := hctxs _ List.mem_cons_self
    have hrest : BookRun env ctxs (tables.processMessage env now message).finalizedBudgets
        (finalizedBudgetEvents arrivals) ((tables.processMessages env
          ((now, message) :: arrivals)).checkOrphanVotes env ctx).finalizedBudgets :=
      ih fun a ha => hctxs a (List.mem_cons_of_mem _ ha)
    cases message with
    | mprop hash collateralValid isValid =>
      rw [BudgetTables.finalizedBudgets_processMessage_mprop] at hrest
      exact BookRun.otherItem hnow hrest
    | mvote vote => exact hrest
    | fbs hash collateralValid isValid =>
      rw [BudgetTables.finalizedBudgets_processMessage_fbs] at hrest
      exact BookRun.item hnow hrest
    | fbvote vote => exact BookRun.vote hnow hrest

end manager

def syncedContext : VoteContext := ⟨1000, true, fun _ => true⟩

def twoEarlyVotes : List (VoteContext × BudgetMessage) :=
  [(syncedContext, .mvote (sampleVote 1 1 0)), (syncedContext, .mvote (sampleVote 2 1 0)),
    (syncedContext, .mprop 50 true true)]

def oneEarlyVote : List (VoteContext × BudgetMessage) :=
  [(syncedContext, .mvote (sampleVote 1 1 0)), (syncedContext, .mprop 50 true true),
    (syncedContext, .mvote (sampleVote 2 1 0))]

/-- Two votes and the proposal, in any order that starts with a vote. -/
theorem fairArrivals_sample {events : List (VoteContext × BookEvent CBudgetVote)}
    (h : events = proposalEvents twoEarlyVotes ∨ events = proposalEvents oneEarlyVote) :
    FairArrivals sampleVoteEnv [syncedContext, syncedContext, syncedContext, syncedContext] 50
      (BudgetTables.mk {} {}).proposals events := by
  have hevents : ∀ e ∈ events, e.1 = syncedContext ∧
      (e.2 = .vote (sampleVote 1 1 0) ∨ e.2 = .vote (sampleVote 2 1 0) ∨
        e.2 = .item 50 true true) := by
    rcases h with rfl | rfl <;> simp [proposalEvents, twoEarlyVotes, oneEarlyVote]
  have hvotes : allVotes events = [sampleVote 1 1 0, sampleVote 2 1 0] := by
    rcases h with rfl | rfl <;> rfl
  have hon : votesOn 50 events = [sampleVote 1 1 0, sampleVote 2 1 0] := by
    unfold votesOn
    rw [hvotes]
    decide
  constructor
  · constructor
    · intro ctx v hv
      have hctx : ctx = syncedContext := (hevents _ hv).1
      rw [hctx]
      rfl
    · rw [hvotes]
      decide
    · rw [hvotes]
      decide
    · rw [hvotes]
      decide
    · rw [hon]
      decide
    · rw [hon]
      intro v hv ctx hctx
      have hsynced : ctx = syncedContext := by simpa using hctx
      subst hsynced
      revert v
      decide
  · rfl
  · refine ⟨syncedContext, ?_⟩
    rcases h with rfl | rfl <;> simp [proposalEvents, twoEarlyVotes, oneEarlyVote]
  · intro ctx isValid hmem
    rcases (hevents _ hmem).2 with h | h | h
    · cases h
    · cases h
    · cases h
      rfl

end Lytix
