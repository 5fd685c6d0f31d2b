import Mathlib.Algebra.BigOperators.Group.Finset.Basic
import Mathlib.Algebra.Order.BigOperators.Group.Finset
import Mathlib.Data.Fintype.Option
import Lytix.Lib.Runs

/-! The queue of checks that worker threads and a master work off together. A critical section is
one step, and so is each check that a thread runs outside of it: a run is any order of these. -/
namespace Lytix

/-- The members that the mutex protects, and the bound on a batch. -/
structure CCheckQueue (α : Type) where
  queue : List α := []
  nIdle : ℕ := 0
  nTotal : ℕ := 0
  fAllOk : Bool := true
  nTodo : UInt32 := 0
  fQuit : Bool := false
  nBatchSize : UInt32

namespace CCheckQueue

variable {α W : Type}

/-- Where a thread is in `Loop`, with its local variables. A thread that waits holds no batch. -/
inductive Thread (α : Type) where
  | outside
  | running (nNow : ℕ) (fOk : Bool) (vChecks : List α)
  | waiting

/-- How the inner loop of a critical section ends. -/
inductive Outcome (α : Type) where
  | returned (fRet : Bool)
  | waits
  | batch (nNow : ℕ) (fOk : Bool) (vChecks : List α)

section sections
variable (q : CCheckQueue α)

/-- The clean-up of the previous round of the loop. -/
def cleanUp (nNow : ℕ) (fOk : Bool) : CCheckQueue α :=
  if nNow ≠ 0 then
    { q with
      fAllOk := q.fAllOk && fOk
      nTodo := q.nTodo - UInt32.ofNat nNow }
  else { q with nTotal := q.nTotal + 1 }

/-- How many work units are taken. The size of the queue is cut to 32 bits. -/
def batchSize : ℕ :=
  max 1 (min q.nBatchSize.toNat ((UInt32.ofNat q.queue.length).toNat / (q.nTotal + q.nIdle + 1)))

/-- The inner loop, up to where the thread leaves it or waits. -/
def takeBatch (fMaster : Bool) : CCheckQueue α × Outcome α :=
  if q.queue = [] then
    if (fMaster || q.fQuit) = true ∧ q.nTodo = 0 then
      ({ q with
          nTotal := q.nTotal - 1
          -- reset the status for new work later
          fAllOk := if fMaster then true else q.fAllOk }, .returned q.fAllOk)
    else ({ q with nIdle := q.nIdle + 1 }, .waits)
  else
    let nNow := q.batchSize
    ({ q with queue := q.queue.take (q.queue.length - nNow) },
      .batch nNow q.fAllOk (q.queue.reverse.take nNow))

def add (vChecks : List α) : CCheckQueue α :=
  { q with
    queue := q.queue ++ vChecks
    nTodo := q.nTodo + UInt32.ofNat vChecks.length }

end sections

/-- What became of a check that a thread came to. -/
inductive Entry (α : Type) where
  | executed (check : α) (result : Bool)
  | skipped (check : α)

def Entry.check : Entry α → α
  | .executed check _ => check
  | .skipped check => check

/-- What was added since `Wait` returned, and what became of it, in the order of time. -/
structure Round (α : Type) where
  added : List α := []
  log : List (Entry α) := []

/-- The queue with its threads. The master is `none`. -/
structure System (α W : Type) where
  q : CCheckQueue α
  threads : Option W → Thread α
  round : Round α

inductive Action (α W : Type) where
  /-- A worker starts, or the master calls `Wait`. -/
  | enter (t : Option W)
  /-- A thread that is done with its batch takes the lock. -/
  | lock (t : Option W)
  /-- A thread that waits is woken, by a notification or without one. -/
  | wake (t : Option W)
  /-- A thread comes to the next check of its batch; `result` is what the check gives if run. -/
  | check (t : Option W) (result : Bool)
  | add (vChecks : List α)

namespace System

variable [DecidableEq W] (s : System α W)

def init (nBatchSize : UInt32) : System α W where
  q := { nBatchSize }
  threads := fun _ => .outside
  round := {}

def setThread (t : Option W) (thread : Thread α) : System α W :=
  { s with threads := Function.update s.threads t thread }

/-- The clean-up. The thread has no batch any more. -/
def cleanUp (t : Option W) (nNow : ℕ) (fOk : Bool) : System α W :=
  { s.setThread t .waiting with q := s.q.cleanUp nNow fOk }

/-- The inner loop of a thread that has the lock, and what `Wait` returns. -/
def takeBatch (t : Option W) : System α W × Option Bool :=
  match s.q.takeBatch t.isNone with
  | (q, .returned fRet) =>
    if t.isNone then ({ s.setThread t .outside with q, round := {} }, some fRet)
    else ({ s.setThread t .outside with q }, none)
  | (q, .waits) => ({ s.setThread t .waiting with q }, none)
  | (q, .batch nNow fOk vChecks) => ({ s.setThread t (.running nNow fOk vChecks) with q }, none)

/-- A step, and what `Wait` returns in it. Each check is for one input of a block, so callers add
far less than `2 ^ 32` checks before they wait. -/
def step : Action α W → Option (System α W × Option Bool)
  | .enter t =>
    match s.threads t with
    | .outside => some (s.setThread t (.running 0 true []), none)
    | _ => none
  | .lock t =>
    match s.threads t with
    | .running nNow fOk [] => some ((s.cleanUp t nNow fOk).takeBatch t)
    | _ => none
  | .wake t =>
    match s.threads t with
    | .waiting => some ({ s with q := { s.q with nIdle := s.q.nIdle - 1 } }.takeBatch t)
    | _ => none
  | .check t result =>
    match s.threads t with
    | .running nNow fOk (check :: vChecks) =>
      let entry := if fOk then .executed check result else .skipped check
      some ({ s.setThread t (.running nNow (fOk && result) vChecks) with
        round := { s.round with log := s.round.log ++ [entry] } }, none)
    | _ => none
  | .add vChecks =>
    if s.round.added.length + vChecks.length < 2 ^ 32 then
      some ({ s with
        q := s.q.add vChecks
        round := { s.round with added := s.round.added ++ vChecks } }, none)
    else none

end System

/-- Some check was run and failed. -/
def Failed (log : List (Entry α)) : Prop := ∃ check, .executed check false ∈ log

/-- A check is skipped only after another one failed. -/
def SkipsJustified (log : List (Entry α)) : Prop :=
  ∀ before check after, log = before ++ .skipped check :: after → Failed before

/-- A call of `Wait` that returns `fRet` in the step from `s` to `s'`. -/
structure WaitSound (s s' : System α W) (fRet : Bool) : Prop where
  nTodo : s'.q.nTodo = 0
  queue : s'.q.queue = []
  once : s.round.added.Perm (s.round.log.map Entry.check)
  skips : SkipsJustified s.round.log
  result : fRet = true ↔ ¬ Failed s.round.log
  fAllOk : s'.q.fAllOk = true
  round : s'.round = {}

/-- How many checks of its batch a thread has not counted off. -/
def Thread.pending : Thread α → ℕ
  | .running nNow _ _ => nNow
  | _ => 0

/-- The checks that a thread has still to come to. -/
def Thread.held : Thread α → Multiset α
  | .running _ _ vChecks => vChecks
  | _ => 0

/-- The thread found a failure that it has not reported. -/
def Thread.Fails (thread : Thread α) : Prop := ∃ nNow vChecks, thread = .running nNow false vChecks

/-- A batch has no more checks than are counted, and a thread without one reports nothing. -/
structure Thread.Ok (thread : Thread α) : Prop where
  short : thread.held.card ≤ thread.pending
  silent : thread.pending = 0 → ¬ thread.Fails

section invariant
variable [Fintype W]

/-- Each check that was added is in the queue, in a batch or in the log. -/
structure Invariant (s : System α W) : Prop where
  todo : s.q.nTodo = UInt32.ofNat (s.q.queue.length + ∑ t, (s.threads t).pending)
  counted : s.q.queue.length + ∑ t, (s.threads t).pending ≤ s.round.added.length
  few : s.round.added.length < 2 ^ 32
  accounted : (s.round.added : Multiset α) =
    s.q.queue + ∑ t, (s.threads t).held + (s.round.log.map Entry.check : List α)
  threads : ∀ t, (s.threads t).Ok
  failed : Failed s.round.log ↔ s.q.fAllOk = false ∨ ∃ t, (s.threads t).Fails
  skips : SkipsJustified s.round.log

theorem Thread.fails_running {nNow : ℕ} {fOk : Bool} {vChecks : List α} :
    (Thread.running nNow fOk vChecks).Fails ↔ fOk = false := by
  constructor
  · rintro ⟨_, _, h⟩
    injection h
  · rintro rfl
    exact ⟨_, _, rfl⟩

theorem Thread.ok_waiting : (Thread.waiting : Thread α).Ok where
  short := Nat.le_refl 0
  silent := by
    rintro - ⟨_, _, h⟩
    contradiction

theorem Thread.ok_outside : (Thread.outside : Thread α).Ok where
  short := Nat.le_refl 0
  silent := by
    rintro - ⟨_, _, h⟩
    contradiction

theorem Thread.Ok.held_eq_zero {thread : Thread α} (ok : thread.Ok) (h : thread.pending = 0) :
    thread.held = 0 := by
  have hshort := ok.short
  rw [h] at hshort
  exact Multiset.card_eq_zero.mp (Nat.le_zero.mp hshort)

/-- The invariant does not depend on the counts of threads. -/
theorem Invariant.setQueue {s : System α W} (inv : Invariant s) {q : CCheckQueue α}
    (hqueue : q.queue = s.q.queue) (htodo : q.nTodo = s.q.nTodo) (hallOk : q.fAllOk = s.q.fAllOk) :
    Invariant { s with q } where
  todo := by
    rw [htodo, hqueue]
    exact inv.todo
  counted := by
    rw [hqueue]
    exact inv.counted
  few := inv.few
  accounted := by
    rw [hqueue]
    exact inv.accounted
  threads := inv.threads
  failed := by
    rw [hallOk]
    exact inv.failed
  skips := inv.skips

variable [DecidableEq W] {s : System α W} {t : Option W}

/-- A sum over the threads when one of them changes. -/
theorem exists_others {M : Type*} [AddCommMonoid M] (f : Thread α → M)
    (threads : Option W → Thread α) (t : Option W) : ∃ others,
    ∑ u, f (threads u) = f (threads t) + others ∧
      ∀ thread, ∑ u, f (Function.update threads t thread u) = f thread + others := by
  refine ⟨∑ u ∈ Finset.univ.erase t, f (threads u),
    (Finset.add_sum_erase _ _ (Finset.mem_univ t)).symm, ?_⟩
  intro thread
  rw [← Finset.add_sum_erase _ _ (Finset.mem_univ t), Function.update_self]
  congr 1
  apply Finset.sum_congr rfl
  intro u hu
  rw [Function.update_of_ne (Finset.ne_of_mem_erase hu)]

omit [Fintype W] in
theorem ok_update {threads : Option W → Thread α} (hok : ∀ u, (threads u).Ok) {thread : Thread α}
    (hthread : thread.Ok) (u : Option W) : (Function.update threads t thread u).Ok := by
  by_cases hut : u = t
  · rw [hut, Function.update_self]
    exact hthread
  · rw [Function.update_of_ne hut]
    exact hok u

omit [Fintype W] in
/-- Some thread fails, before and after one of them changes. -/
theorem exists_fails_iff (threads : Option W → Thread α) (t : Option W) : ∃ others : Prop,
    ((∃ u, (threads u).Fails) ↔ (threads t).Fails ∨ others) ∧
      ∀ thread, (∃ u, (Function.update threads t thread u).Fails) ↔ thread.Fails ∨ others := by
  refine ⟨∃ u, u ≠ t ∧ (threads u).Fails, ?_, fun thread => ?_⟩
  · have hself := Function.exists_update_iff threads (a := t) (b := threads t)
      (p := fun _ thread => thread.Fails)
    rw [Function.update_eq_self] at hself
    exact hself
  · exact Function.exists_update_iff threads (p := fun _ thread => thread.Fails)

/-- A thread with no batch is replaced by another one. -/
theorem Invariant.setThread (inv : Invariant s) {thread : Thread α}
    (hpending : (s.threads t).pending = 0) (hpending' : thread.pending = 0) (hok : thread.Ok) :
    Invariant (s.setThread t thread) := by
  obtain ⟨counts, hcounts, hcounts'⟩ := exists_others Thread.pending s.threads t
  obtain ⟨checks, hchecks, hchecks'⟩ := exists_others Thread.held s.threads t
  obtain ⟨others, hothers, hothers'⟩ := exists_fails_iff s.threads t
  have hsum := (hcounts' thread).trans ((congrArg (· + counts) (hpending'.trans
    hpending.symm)).trans hcounts.symm)
  have hheld := (hchecks' thread).trans ((congrArg (· + checks) ((hok.held_eq_zero
    hpending').trans ((inv.threads t).held_eq_zero hpending).symm)).trans hchecks.symm)
  have hfails := or_iff_right (b := others) (hok.silent hpending')
  have hfails' := or_iff_right (b := others) ((inv.threads t).silent hpending)
  unfold System.setThread
  constructor
  case todo => exact hsum ▸ inv.todo
  case counted => exact hsum ▸ inv.counted
  case few => exact inv.few
  case accounted =>
    dsimp only
    rw [hheld]
    exact inv.accounted
  case threads => exact ok_update inv.threads hok
  case failed =>
    dsimp only
    rw [hothers' thread, hfails, ← hfails', ← hothers]
    exact inv.failed
  case skips => exact inv.skips

/-- A batch that is done is counted off, and its result is reported. -/
theorem Invariant.cleanUp (inv : Invariant s) {nNow : ℕ} {fOk : Bool}
    (hthread : s.threads t = .running nNow fOk []) : Invariant (s.cleanUp t nNow fOk) := by
  have hpending : (s.threads t).pending = nNow := by
    rw [hthread]
    rfl
  by_cases hfirst : nNow = 0
  · have hset := inv.setThread (hpending.trans hfirst) rfl Thread.ok_waiting
    have hq : s.q.cleanUp nNow fOk = { s.q with nTotal := s.q.nTotal + 1 } :=
      if_neg (not_not_intro hfirst)
    unfold System.cleanUp
    rw [hq]
    exact hset.setQueue rfl rfl rfl
  · have hq : s.q.cleanUp nNow fOk = { s.q with
        fAllOk := s.q.fAllOk && fOk
        nTodo := s.q.nTodo - UInt32.ofNat nNow } := if_pos hfirst
    have hheld : (s.threads t).held = 0 := by
      rw [hthread]
      rfl
    obtain ⟨counts, hcounts, hcounts'⟩ := exists_others Thread.pending s.threads t
    obtain ⟨checks, hchecks, hchecks'⟩ := exists_others Thread.held s.threads t
    obtain ⟨others, hothers, hothers'⟩ := exists_fails_iff s.threads t
    have hsum := hcounts' .waiting
    have hwaiting : (Thread.waiting : Thread α).pending = 0 := rfl
    rw [hpending] at hcounts
    rw [hwaiting, Nat.zero_add] at hsum
    unfold System.cleanUp System.setThread
    rw [hq]
    constructor
    case todo =>
      dsimp only
      rw [hsum, inv.todo, hcounts, Nat.add_comm nNow, ← Nat.add_assoc, UInt32.ofNat_add,
        UInt32.add_sub_cancel]
    case counted =>
      have hcounted := inv.counted
      rw [hcounts] at hcounted
      dsimp only
      rw [hsum]
      omega
    case few => exact inv.few
    case accounted =>
      have haccounted := inv.accounted
      rw [hchecks, hheld] at haccounted
      dsimp only
      rw [hchecks' .waiting]
      exact haccounted
    case threads => exact ok_update inv.threads Thread.ok_waiting
    case failed =>
      dsimp only
      rw [hothers' .waiting, or_iff_right (Thread.ok_waiting.silent rfl), inv.failed, hothers,
        hthread, Thread.fails_running, Bool.and_eq_false_iff, or_assoc]
    case skips => exact inv.skips

theorem batchSize_pos (q : CCheckQueue α) : 0 < q.batchSize :=
  Nat.lt_of_lt_of_le Nat.one_pos (Nat.le_max_left _ _)

/-- A batch is not larger than a queue that is not empty. -/
theorem batchSize_le {q : CCheckQueue α} (hne : q.queue ≠ []) : q.batchSize ≤ q.queue.length := by
  have hpos := List.length_pos_iff.mpr hne
  have hcut : (UInt32.ofNat q.queue.length).toNat ≤ q.queue.length := by
    rw [UInt32.toNat_ofNat']
    exact Nat.mod_le _ _
  have hdiv := Nat.div_le_self (UInt32.ofNat q.queue.length).toNat (q.nTotal + q.nIdle + 1)
  unfold batchSize
  omega

/-- A batch moves from the queue to a thread, with the result so far. -/
theorem Invariant.batch (inv : Invariant s) (hpending : (s.threads t).pending = 0)
    {nNow : ℕ} (hpos : 0 < nNow) (hle : nNow ≤ s.q.queue.length) :
    Invariant { s.setThread t (.running nNow s.q.fAllOk (s.q.queue.reverse.take nNow)) with
      q := { s.q with queue := s.q.queue.take (s.q.queue.length - nNow) } } := by
  obtain ⟨counts, hcounts, hcounts'⟩ := exists_others Thread.pending s.threads t
  obtain ⟨checks, hchecks, hchecks'⟩ := exists_others Thread.held s.threads t
  obtain ⟨others, hothers, hothers'⟩ := exists_fails_iff s.threads t
  generalize hbatch : Thread.running nNow s.q.fAllOk (s.q.queue.reverse.take nNow) = batch
  have hsum := hcounts' batch
  have hnow : batch.pending = nNow := by
    rw [← hbatch]
    rfl
  have hlength : (s.q.queue.take (s.q.queue.length - nNow)).length =
      s.q.queue.length - nNow := by
    rw [List.length_take]
    omega
  have hsplit : (s.q.queue : Multiset α) =
      (s.q.queue.take (s.q.queue.length - nNow) : List α) + batch.held := by
    have hheld : batch.held = ((s.q.queue.drop (s.q.queue.length - nNow) : List α) :
        Multiset α) := by
      rw [← hbatch, ← Multiset.coe_reverse (s.q.queue.drop (s.q.queue.length - nNow))]
      unfold Thread.held
      rw [List.take_reverse]
    rw [hheld, Multiset.coe_add, List.take_append_drop]
  rw [hpending, Nat.zero_add] at hcounts
  rw [hnow] at hsum
  unfold System.setThread
  constructor
  case todo =>
    dsimp only
    have htodo := inv.todo
    rw [hcounts] at htodo
    rw [hsum, hlength, htodo]
    congr 1
    omega
  case counted =>
    have hcounted := inv.counted
    rw [hcounts] at hcounted
    dsimp only
    rw [hsum, hlength]
    omega
  case few => exact inv.few
  case accounted =>
    have haccounted := inv.accounted
    rw [hchecks, (inv.threads t).held_eq_zero hpending, zero_add, hsplit] at haccounted
    dsimp only
    rw [hchecks' batch, ← add_assoc]
    exact haccounted
  case threads =>
    apply ok_update inv.threads
    constructor
    · rw [hnow, ← hbatch]
      exact (Multiset.coe_card _).trans_le (List.length_take_le _ _)
    · intro hzero
      rw [hnow] at hzero
      omega
  case failed =>
    dsimp only
    rw [hothers' batch, inv.failed, hothers, or_iff_right ((inv.threads t).silent hpending),
      ← hbatch, Thread.fails_running, or_self_left]
  case skips => exact inv.skips

omit [DecidableEq W] in
/-- Where nothing is to be done, no thread has a batch. -/
theorem Invariant.idle (inv : Invariant s) (hqueue : s.q.queue = []) (htodo : s.q.nTodo = 0) :
    (∀ u, (s.threads u).pending = 0) ∧ s.round.added.Perm (s.round.log.map Entry.check) ∧
      (Failed s.round.log ↔ s.q.fAllOk = false) := by
  have hcounted := inv.counted
  have hfew := inv.few
  have hsum : ∑ u, (s.threads u).pending = 0 := by
    have hzero := inv.todo
    rw [htodo, hqueue, List.length_nil, Nat.zero_add] at hzero
    have hnat := congrArg UInt32.toNat hzero
    rw [UInt32.toNat_ofNat', Nat.mod_eq_of_lt (by omega)] at hnat
    exact hnat.symm
  have hpending : ∀ u, (s.threads u).pending = 0 := by
    intro u
    exact Finset.sum_eq_zero_iff.mp hsum u (Finset.mem_univ u)
  refine ⟨hpending, ?_, ?_⟩
  · have hheld : ∑ u, (s.threads u).held = 0 :=
      Finset.sum_eq_zero fun u _ => (inv.threads u).held_eq_zero (hpending u)
    have haccounted := inv.accounted
    rw [hqueue, hheld, Multiset.coe_nil, zero_add, zero_add] at haccounted
    exact Multiset.coe_eq_coe.mp haccounted
  · rw [inv.failed]
    apply or_iff_left
    rintro ⟨u, hu⟩
    exact (inv.threads u).silent (hpending u) hu

omit [DecidableEq W] in
/-- The next round starts with nothing to be done. -/
theorem Invariant.reset (inv : Invariant s) {q : CCheckQueue α} (hqueue : s.q.queue = [])
    (htodo : s.q.nTodo = 0) (hqueue' : q.queue = s.q.queue) (htodo' : q.nTodo = s.q.nTodo)
    (hallOk : q.fAllOk = true) : Invariant { s with q, round := {} } := by
  obtain ⟨hpending, -, -⟩ := inv.idle hqueue htodo
  have hsum : ∑ u, (s.threads u).pending = 0 := Finset.sum_eq_zero fun u _ => hpending u
  have hheld : ∑ u, (s.threads u).held = 0 :=
    Finset.sum_eq_zero fun u _ => (inv.threads u).held_eq_zero (hpending u)
  constructor
  case todo =>
    dsimp only
    rw [hsum, hqueue', hqueue, htodo', htodo]
    rfl
  case counted =>
    dsimp only
    rw [hsum, hqueue', hqueue]
    exact Nat.le_refl 0
  case few => exact Nat.two_pow_pos 32
  case accounted =>
    dsimp only
    rw [hheld, hqueue', hqueue]
    rfl
  case threads => exact inv.threads
  case failed =>
    constructor
    · rintro ⟨check, hcheck⟩
      exact absurd hcheck List.not_mem_nil
    · rintro (hbad | ⟨u, hu⟩)
      · dsimp only at hbad
        rw [hallOk] at hbad
        contradiction
      · exact absurd hu ((inv.threads u).silent (hpending u))
  case skips =>
    intro before check after hsplit
    have hnil := List.append_eq_nil_iff.mp hsplit.symm
    exact absurd hnil.2 (List.cons_ne_nil _ _)

/-- A thread that takes the lock leaves the loop, waits or gets a batch. -/
theorem Invariant.takeBatch (inv : Invariant s) (hpending : (s.threads t).pending = 0) :
    Invariant (s.takeBatch t).1 ∧
      ∀ fRet, (s.takeBatch t).2 = some fRet → WaitSound s (s.takeBatch t).1 fRet := by
  unfold System.takeBatch CCheckQueue.takeBatch
  by_cases hqueue : s.q.queue = []
  · rw [if_pos hqueue]
    by_cases hreturn : (t.isNone || s.q.fQuit) = true ∧ s.q.nTodo = 0
    · rw [if_pos hreturn]
      have hset := inv.setThread hpending rfl Thread.ok_outside
      by_cases hmaster : t.isNone = true
      · dsimp only
        rw [if_pos hmaster, if_pos hmaster]
        obtain ⟨-, honce, hfailed⟩ := inv.idle hqueue hreturn.2
        refine ⟨hset.reset hqueue hreturn.2 rfl rfl rfl, ?_⟩
        intro fRet hfRet
        have hresult : s.q.fAllOk = fRet := Option.some.inj hfRet
        constructor
        case nTodo => exact hreturn.2
        case queue => exact hqueue
        case once => exact honce
        case skips => exact inv.skips
        case result => rw [hfailed, ← hresult, Bool.not_eq_false]
        case fAllOk => rfl
        case round => rfl
      · dsimp only
        rw [if_neg hmaster, if_neg hmaster]
        exact ⟨hset.setQueue rfl rfl rfl, fun fRet h => by contradiction⟩
    · rw [if_neg hreturn]
      have hset := inv.setThread hpending rfl Thread.ok_waiting
      exact ⟨hset.setQueue rfl rfl rfl, fun fRet h => by contradiction⟩
  · rw [if_neg hqueue]
    exact ⟨inv.batch hpending (batchSize_pos s.q) (batchSize_le hqueue),
      fun fRet h => by contradiction⟩

theorem failed_snoc {log : List (Entry α)} {entry : Entry α} :
    Failed (log ++ [entry]) ↔ Failed log ∨ ∃ check, entry = .executed check false := by
  unfold Failed
  simp only [List.mem_append, List.mem_singleton, exists_or, eq_comm]

/-- The log stays justified where a check is skipped after a failure only. -/
theorem SkipsJustified.snoc {log : List (Entry α)} (h : SkipsJustified log) {entry : Entry α}
    (hentry : ∀ check, entry = .skipped check → Failed log) : SkipsJustified (log ++ [entry]) := by
  intro before check after hsplit
  rcases List.eq_nil_or_concat after with rfl | ⟨init, last, rfl⟩
  · have hlast := List.append_inj' hsplit rfl
    rw [← hlast.1]
    exact hentry check (List.singleton_inj.mp hlast.2)
  · rw [List.concat_eq_append, ← List.cons_append, ← List.append_assoc] at hsplit
    exact h before check init (List.append_inj' hsplit rfl).1

/-- A thread comes to the next check of its batch. -/
theorem Invariant.check (inv : Invariant s) {nNow : ℕ} {fOk result : Bool} {check : α}
    {vChecks : List α} (hthread : s.threads t = .running nNow fOk (check :: vChecks))
    {entry : Entry α} (hentry : entry = if fOk then .executed check result else .skipped check) :
    Invariant { s.setThread t (.running nNow (fOk && result) vChecks) with
      round := { s.round with log := s.round.log ++ [entry] } } := by
  obtain ⟨counts, hcounts, hcounts'⟩ := exists_others Thread.pending s.threads t
  obtain ⟨checks, hchecks, hchecks'⟩ := exists_others Thread.held s.threads t
  obtain ⟨others, hothers, hothers'⟩ := exists_fails_iff s.threads t
  generalize hrest : Thread.running nNow (fOk && result) vChecks = rest
  have hok := inv.threads t
  rw [hthread] at hok hcounts hchecks hothers
  have hsum : ∑ u, (Function.update s.threads t rest u).pending = ∑ u, (s.threads u).pending := by
    rw [hcounts' rest, hcounts, ← hrest]
    rfl
  have hcheck : entry.check = check := by
    rw [hentry]
    cases fOk <;> rfl
  unfold System.setThread
  constructor
  case todo => exact hsum ▸ inv.todo
  case counted => exact hsum ▸ inv.counted
  case few => exact inv.few
  case accounted =>
    have haccounted := inv.accounted
    have hheld : (Thread.running nNow fOk (check :: vChecks)).held = {check} + rest.held := by
      rw [← hrest]
      exact (Multiset.cons_coe check vChecks).symm.trans (Multiset.singleton_add _ _).symm
    rw [hchecks, hheld] at haccounted
    dsimp only
    rw [haccounted, hchecks' rest, List.map_append, List.map_singleton, hcheck,
      ← Multiset.coe_add, Multiset.coe_singleton]
    abel
  case threads =>
    apply ok_update inv.threads
    have hshort : vChecks.length + 1 ≤ nNow := hok.short
    rw [← hrest]
    constructor
    · exact (Multiset.coe_card _).trans_le (Nat.le_of_succ_le hshort)
    · intro hzero
      have hnow : nNow = 0 := hzero
      omega
  case failed =>
    dsimp only
    rw [failed_snoc, hothers' rest, inv.failed, hothers, ← hrest, Thread.fails_running,
      Thread.fails_running, hentry]
    cases fOk with
    | true => cases result <;> simp
    | false => simp
  case skips =>
    apply inv.skips.snoc
    intro check' hskip
    rw [hentry] at hskip
    cases fOk with
    | true => contradiction
    | false =>
      rw [inv.failed]
      exact Or.inr ⟨t, _, _, hthread⟩

omit [DecidableEq W] in
theorem Invariant.add (inv : Invariant s) {vChecks : List α}
    (hfew : s.round.added.length + vChecks.length < 2 ^ 32) :
    Invariant { s with
      q := s.q.add vChecks
      round := { s.round with added := s.round.added ++ vChecks } } where
  todo := by
    have hlength : (s.q.queue ++ vChecks).length + ∑ u, (s.threads u).pending =
        s.q.queue.length + ∑ u, (s.threads u).pending + vChecks.length := by
      rw [List.length_append]
      omega
    unfold CCheckQueue.add
    dsimp only
    rw [hlength, UInt32.ofNat_add, ← inv.todo]
  counted := by
    have hcounted := inv.counted
    unfold CCheckQueue.add
    dsimp only
    rw [List.length_append, List.length_append]
    omega
  few := by
    rw [List.length_append]
    exact hfew
  accounted := by
    unfold CCheckQueue.add
    dsimp only
    rw [← Multiset.coe_add, ← Multiset.coe_add, inv.accounted]
    abel
  threads := inv.threads
  failed := inv.failed
  skips := inv.skips

omit [DecidableEq W] in
/-- What `Wait` promises is about the round, whatever else came before. -/
theorem WaitSound.of_round {s₀ s s' : System α W} {fRet : Bool} (h : WaitSound s s' fRet)
    (hround : s.round = s₀.round) : WaitSound s₀ s' fRet where
  nTodo := h.nTodo
  queue := h.queue
  once := hround ▸ h.once
  skips := hround ▸ h.skips
  result := hround ▸ h.result
  fAllOk := h.fAllOk
  round := h.round

/-- Every step keeps the invariant, and `Wait` returns only when all is done. -/
theorem Invariant.step (inv : Invariant s) {a : Action α W} {s' : System α W}
    {returned : Option Bool} (hstep : s.step a = some (s', returned)) :
    Invariant s' ∧ ∀ fRet, returned = some fRet → WaitSound s s' fRet := by
  cases a with
  | enter t =>
    dsimp only [System.step] at hstep
    split at hstep
    case h_1 hthread =>
      obtain ⟨rfl, rfl⟩ := Prod.mk.inj (Option.some.inj hstep)
      have hpending : (s.threads t).pending = 0 := by
        rw [hthread]
        rfl
      have hok : (Thread.running 0 true [] : Thread α).Ok := by
        constructor
        · exact Nat.le_refl 0
        · rw [Thread.fails_running]
          simp
      exact ⟨inv.setThread hpending rfl hok, fun fRet h => by contradiction⟩
    case h_2 => contradiction
  | lock t =>
    dsimp only [System.step] at hstep
    split at hstep
    case h_1 nNow fOk hthread =>
      have hcleaned := inv.cleanUp hthread
      have hpending : ((s.cleanUp t nNow fOk).threads t).pending = 0 := by
        have hwaiting : (s.cleanUp t nNow fOk).threads t = .waiting := Function.update_self _ _ _
        rw [hwaiting]
        rfl
      have hspec := hcleaned.takeBatch hpending
      rw [Option.some.inj hstep] at hspec
      exact ⟨hspec.1, fun fRet hfRet => (hspec.2 fRet hfRet).of_round rfl⟩
    case h_2 => contradiction
  | wake t =>
    dsimp only [System.step] at hstep
    split at hstep
    case h_1 hthread =>
      have hwoken := inv.setQueue (q := { s.q with nIdle := s.q.nIdle - 1 }) rfl rfl rfl
      have hpending : (s.threads t).pending = 0 := by
        rw [hthread]
        rfl
      have hspec := hwoken.takeBatch hpending
      rw [Option.some.inj hstep] at hspec
      exact ⟨hspec.1, fun fRet hfRet => (hspec.2 fRet hfRet).of_round rfl⟩
    case h_2 => contradiction
  | check t result =>
    dsimp only [System.step] at hstep
    split at hstep
    case h_1 nNow fOk check vChecks hthread =>
      obtain ⟨rfl, rfl⟩ := Prod.mk.inj (Option.some.inj hstep)
      exact ⟨inv.check hthread rfl, fun fRet h => by contradiction⟩
    case h_2 => contradiction
  | add vChecks =>
    dsimp only [System.step] at hstep
    split_ifs at hstep with hfew
    obtain ⟨rfl, rfl⟩ := Prod.mk.inj (Option.some.inj hstep)
    exact ⟨inv.add hfew, fun fRet h => by contradiction⟩

omit [DecidableEq W] in
theorem invariant_init (nBatchSize : UInt32) :
    Invariant (System.init nBatchSize : System α W) where
  todo := by
    have hsum : ∑ t, ((System.init nBatchSize : System α W).threads t).pending = 0 :=
      Finset.sum_eq_zero fun t _ => rfl
    rw [hsum]
    rfl
  counted := by
    have hsum : ∑ t, ((System.init nBatchSize : System α W).threads t).pending = 0 :=
      Finset.sum_eq_zero fun t _ => rfl
    rw [hsum]
    exact Nat.le_refl 0
  few := Nat.two_pow_pos 32
  accounted := by
    have hsum : ∑ t, ((System.init nBatchSize : System α W).threads t).held = 0 :=
      Finset.sum_eq_zero fun t _ => rfl
    rw [hsum]
    rfl
  threads := fun _ => Thread.ok_outside
  failed := by
    constructor
    · rintro ⟨check, hcheck⟩
      exact absurd hcheck List.not_mem_nil
    · rintro (hbad | ⟨t, hfails⟩)
      · contradiction
      · exact absurd hfails (Thread.ok_outside.silent rfl)
  skips := by
    intro before check after hsplit
    have hnil := List.append_eq_nil_iff.mp hsplit.symm
    exact absurd hnil.2 (List.cons_ne_nil _ _)

/-- In any order of the steps of any number of threads, `Wait` returns when all checks are done,
with the result of all of them. -/
theorem wait_sound (nBatchSize : UInt32) (actions : List (Action α W)) :
    Runs.AttemptAlong (fun s a => (s.step a).map Prod.fst)
      (fun s a => ∀ s' fRet, s.step a = some (s', some fRet) → WaitSound s s' fRet)
      (System.init nBatchSize : System α W) actions := by
  apply Runs.attemptAlong_of_invariant (invariant_init nBatchSize)
  · intro s a inv s' fRet hstep
    exact (inv.step hstep).2 fRet rfl
  · intro s a s' inv hstep
    obtain ⟨⟨next, returned⟩, hnext, rfl⟩ := Option.map_eq_some_iff.mp hstep
    exact (inv.step hnext).1

end invariant

/-- A worker takes one of two checks and finds it bad, and the master runs the other one. -/
example : ((Runs.attempt (fun s a => (System.step s a).map Prod.fst)
    (System.init 128 : System ℕ (Fin 1))
    [.add [1, 2], .enter (some 0), .lock (some 0), .enter none, .lock none, .check (some 0) false,
      .check none true, .lock none, .lock (some 0)]).bind fun s =>
    (s.step (.wake none)).bind Prod.snd) = some false := by
  decide

end CCheckQueue
end Lytix
