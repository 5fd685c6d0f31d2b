import Mathlib.Data.List.Basic
import Mathlib.Tactic

/-! Runs of a step function over a list of events, and what holds along them. -/
namespace Runs

variable {σ ε : Type*}

def run (step : σ → ε → σ) (s : σ) (events : List ε) : σ := events.foldl step s

/-- Every event is `ok` in the state it comes to. -/
def Along (step : σ → ε → σ) (ok : σ → ε → Prop) : σ → List ε → Prop
  | _, [] => True
  | s, e :: events => ok s e ∧ Along step ok (step s e) events

/-- A run of steps that may be undefined. -/
def attempt (step : σ → ε → Option σ) : σ → List ε → Option σ
  | s, [] => some s
  | s, e :: events => (step s e).bind fun s' => attempt step s' events

/-- Every event of a run of steps that may be undefined is `ok` in the state it comes to. -/
def AttemptAlong (step : σ → ε → Option σ) (ok : σ → ε → Prop) : σ → List ε → Prop
  | _, [] => True
  | s, e :: events => ok s e ∧ ∀ s' ∈ step s e, AttemptAlong step ok s' events

/-- What the events of a run give, each in the state it comes to. -/
def collect {α : Type*} (step : σ → ε → σ) (yields : σ → ε → List α) : σ → List ε → List α
  | _, [] => []
  | s, e :: events => yields s e ++ collect step yields (step s e) events

section
variable {step : σ → ε → σ} {ok : σ → ε → Prop} {inv : σ → Prop} {s : σ} {e : ε}
  {events : List ε}

@[simp] theorem run_nil : run step s [] = s := rfl

@[simp] theorem run_cons : run step s (e :: events) = run step (step s e) events := rfl

theorem along_of_forall (h : ∀ s, ∀ e ∈ events, ok s e) : Along step ok s events := by
  induction events generalizing s with
  | nil => trivial
  | cons e events ih =>
    refine ⟨h s e List.mem_cons_self, ih ?_⟩
    intro s e' he'
    exact h s e' (List.mem_cons_of_mem e he')

/-- What each step keeps exactly when its event is `ok`, a run has at its end exactly when it had it
at first and all its events are. -/
theorem run_iff_along {p : σ → Prop} (hs : inv s)
    (hstep : ∀ s e, inv s → (p (step s e) ↔ p s ∧ ok s e))
    (hkeeps : ∀ s e, inv s → inv (step s e)) :
    p (run step s events) ↔ p s ∧ Along step ok s events := by
  induction events generalizing s with
  | nil => simp [Along]
  | cons e events ih => rw [run_cons, ih (hkeeps s e hs), hstep s e hs, and_assoc, Along]

/-- What each step from a state that has it keeps exactly when its event is `ok`, every state of a
run has exactly when all its events are. -/
theorem forall_prefix_iff_along {p : σ → Prop} (hs : p s)
    (hstep : ∀ s e, p s → (p (step s e) ↔ ok s e)) :
    (∀ before after, events = before ++ after → p (run step s before)) ↔
      Along step ok s events := by
  induction events generalizing s with
  | nil =>
    refine iff_of_true (fun before after hsplit => ?_) trivial
    obtain ⟨rfl, -⟩ := List.append_eq_nil_iff.mp hsplit.symm
    exact hs
  | cons e events ih =>
    constructor
    · intro h
      have hnext := h [e] events rfl
      refine ⟨(hstep s e hs).mp hnext, (ih hnext).mp ?_⟩
      intro before after hsplit
      exact h (e :: before) after (congrArg (e :: ·) hsplit)
    · rintro ⟨hok, hrest⟩ before after hsplit
      cases before with
      | nil => exact hs
      | cons first before =>
        obtain ⟨rfl, rfl⟩ := List.cons.inj hsplit
        exact (ih ((hstep s e hs).mpr hok)).mpr hrest before after rfl

theorem Along.and_forall {p : ε → Prop} (along : Along step ok s events)
    (h : ∀ e ∈ events, p e) : Along step (fun s e => ok s e ∧ p e) s events := by
  induction events generalizing s with
  | nil => trivial
  | cons e events ih =>
    constructor
    · exact ⟨along.1, h e List.mem_cons_self⟩
    · exact ih along.2 fun e' he' => h e' (List.mem_cons_of_mem e he')

/-- What holds at first and is kept by every `ok` step holds at the end of the run. -/
theorem Along.invariant (along : Along step ok s events) (hs : inv s)
    (hstep : ∀ s e, inv s → ok s e → inv (step s e)) : inv (run step s events) := by
  induction events generalizing s with
  | nil => exact hs
  | cons e events ih => exact ih along.2 (hstep s e hs along.1)

/-- What holds at first and is kept by every step holds at the end of the run. -/
theorem run_invariant (hs : inv s) (hstep : ∀ s e, inv s → inv (step s e)) :
    inv (run step s events) := by
  induction events generalizing s with
  | nil => exact hs
  | cons e events ih => exact ih (hstep s e hs)

/-- What a run collects some event gives, in the state that the events before it lead to. -/
theorem mem_collect {α : Type*} {yields : σ → ε → List α} {x : α} :
    x ∈ collect step yields s events ↔ ∃ before e after, events = before ++ e :: after ∧
      x ∈ yields (run step s before) e := by
  induction events generalizing s with
  | nil => simp [collect]
  | cons e events ih =>
    rw [collect, List.mem_append, ih]
    constructor
    · rintro (hnow | ⟨before, e', after, rfl, hlater⟩)
      · exact ⟨[], e, events, rfl, hnow⟩
      · exact ⟨e :: before, e', after, rfl, hlater⟩
    · rintro ⟨before, e', after, hsplit, hx⟩
      cases before with
      | nil =>
        obtain ⟨rfl, rfl⟩ := List.cons.inj hsplit
        exact Or.inl hx
      | cons first before =>
        obtain ⟨rfl, rfl⟩ := List.cons.inj hsplit
        exact Or.inr ⟨before, e', after, rfl, hx⟩

/-- What a state has comes from the start, or some event of the run gave it. -/
theorem Along.has_or_collect {α : Type*} {yields : σ → ε → List α} {has : σ → α → Prop} {x : α}
    (along : Along step ok s events)
    (hstep : ∀ s e x, ok s e → has (step s e) x → has s x ∨ x ∈ yields s e)
    (h : has (run step s events) x) : has s x ∨ x ∈ collect step yields s events := by
  induction events generalizing s with
  | nil => exact Or.inl h
  | cons e events ih =>
    rcases ih along.2 h with hafter | hlater
    · rcases hstep s e x along.1 hafter with hbefore | hnow
      · exact Or.inl hbefore
      · exact Or.inr (List.mem_append_left _ hnow)
    · exact Or.inr (List.mem_append_right _ hlater)

end

section
variable {step : σ → ε → Option σ} {ok : σ → ε → Prop} {inv : σ → Prop} {s s' : σ} {e : ε}
  {events : List ε}

theorem attempt_cons_eq_some : attempt step s (e :: events) = some s' ↔
    ∃ next, step s e = some next ∧ attempt step next events = some s' :=
  Option.bind_eq_some_iff

theorem attempt_append {more : List ε} :
    attempt step s (events ++ more) =
      (attempt step s events).bind fun s' => attempt step s' more := by
  induction events generalizing s with
  | nil => rfl
  | cons e events ih =>
    rw [List.cons_append, attempt, attempt, Option.bind_assoc]
    simp only [ih]

/-- The same event again and again, along the states that it leads to. -/
theorem attempt_replicate {n : ℕ} {states : ℕ → σ}
    (h : ∀ i < n, step (states i) e = some (states (i + 1))) :
    attempt step (states 0) (List.replicate n e) = some (states n) := by
  induction n generalizing states with
  | zero => rfl
  | succ n ih =>
    rw [List.replicate_succ, attempt_cons_eq_some]
    refine ⟨states 1, h 0 (Nat.zero_lt_succ n), ?_⟩
    exact @ih (fun i => states (i + 1)) fun i hi => h (i + 1) (Nat.succ_lt_succ hi)

theorem AttemptAlong.append {more : List ε} (along : AttemptAlong step ok s events)
    (run : attempt step s events = some s') (rest : AttemptAlong step ok s' more) :
    AttemptAlong step ok s (events ++ more) := by
  induction events generalizing s with
  | nil =>
    obtain rfl := Option.some.inj run
    exact rest
  | cons e events ih =>
    obtain ⟨next, hnext, hrest⟩ := attempt_cons_eq_some.mp run
    refine ⟨along.1, fun s'' hs'' => ?_⟩
    obtain rfl : next = s'' := Option.some.inj (hnext.symm.trans hs'')
    exact ih (along.2 next hnext) hrest

theorem attemptAlong_replicate {n : ℕ} {states : ℕ → σ}
    (h : ∀ i < n, step (states i) e = some (states (i + 1))) (hok : ∀ i < n, ok (states i) e) :
    AttemptAlong step ok (states 0) (List.replicate n e) := by
  induction n generalizing states with
  | zero => trivial
  | succ n ih =>
    rw [List.replicate_succ]
    refine ⟨hok 0 (Nat.zero_lt_succ n), fun s' hs' => ?_⟩
    obtain rfl : states 1 = s' := Option.some.inj ((h 0 (Nat.zero_lt_succ n)).symm.trans hs')
    exact @ih (fun i => states (i + 1)) (fun i hi => h (i + 1) (Nat.succ_lt_succ hi))
      fun i hi => hok (i + 1) (Nat.succ_lt_succ hi)

/-- What holds at first and is kept by every `ok` step holds at the end of the run. -/
theorem AttemptAlong.invariant (along : AttemptAlong step ok s events)
    (run : attempt step s events = some s') (hs : inv s)
    (hstep : ∀ s e s', inv s → ok s e → step s e = some s' → inv s') : inv s' := by
  induction events generalizing s with
  | nil =>
    have hsame : s = s' := Option.some.inj run
    rw [← hsame]
    exact hs
  | cons e events ih =>
    obtain ⟨next, hnext, hrest⟩ := attempt_cons_eq_some.mp run
    exact ih (along.2 next hnext) hrest (hstep s e next hs along.1 hnext)

/-- What the invariant says of the next event holds along every run. -/
theorem attemptAlong_of_invariant (hs : inv s) (hok : ∀ s e, inv s → ok s e)
    (hstep : ∀ s e s', inv s → step s e = some s' → inv s') (events : List ε) :
    AttemptAlong step ok s events := by
  induction events generalizing s with
  | nil => trivial
  | cons e events ih =>
    refine ⟨hok s e hs, ?_⟩
    intro s' hnext
    exact ih (hstep s e s' hs hnext)

/-- Where no step is undefined in a state with the invariant, no run is. -/
theorem exists_attempt (hs : inv s) (hstep : ∀ s e, inv s → ∃ s', step s e = some s' ∧ inv s')
    (events : List ε) : ∃ s', attempt step s events = some s' ∧ inv s' := by
  induction events generalizing s with
  | nil => exact ⟨s, rfl, hs⟩
  | cons e events ih =>
    obtain ⟨next, hnext, hinv⟩ := hstep s e hs
    obtain ⟨last, hlast, hend⟩ := ih hinv
    exact ⟨last, attempt_cons_eq_some.mpr ⟨next, hnext, hlast⟩, hend⟩

/-- What each step from a state that has it is defined and keeps exactly when its event is `ok`,
every beginning of a run is defined and has exactly when all its events are. -/
theorem forall_prefix_attempt_iff_along {p : σ → Prop} (hs : p s)
    (hstep : ∀ s e, p s → ((∃ s', step s e = some s' ∧ p s') ↔ ok s e)) :
    (∀ before after, events = before ++ after → ∃ s', attempt step s before = some s' ∧ p s') ↔
      AttemptAlong step ok s events := by
  induction events generalizing s with
  | nil =>
    refine iff_of_true (fun before after hsplit => ?_) trivial
    obtain ⟨rfl, -⟩ := List.append_eq_nil_iff.mp hsplit.symm
    exact ⟨s, rfl, hs⟩
  | cons e events ih =>
    constructor
    · intro h
      have hfirst : ∃ s', step s e = some s' ∧ p s' := by
        obtain ⟨s', hrun, hp⟩ := h [e] events rfl
        obtain ⟨next, hnext, hlast⟩ := attempt_cons_eq_some.mp hrun
        have hsame : next = s' := Option.some.inj hlast
        exact ⟨next, hnext, hsame ▸ hp⟩
      refine ⟨(hstep s e hs).mp hfirst, ?_⟩
      intro next hnext
      obtain ⟨s', hs', hp⟩ := hfirst
      have hsame : s' = next := Option.some.inj (hs'.symm.trans hnext)
      refine (ih (hsame ▸ hp)).mp ?_
      intro before after hsplit
      obtain ⟨last, hrun, hlast⟩ := h (e :: before) after (congrArg (e :: ·) hsplit)
      obtain ⟨next', hnext', hrest⟩ := attempt_cons_eq_some.mp hrun
      have hsame' : next' = next := Option.some.inj (hnext'.symm.trans hnext)
      exact ⟨last, hsame' ▸ hrest, hlast⟩
    · rintro ⟨hok, hrest⟩ before after hsplit
      cases before with
      | nil => exact ⟨s, rfl, hs⟩
      | cons first before =>
        obtain ⟨rfl, rfl⟩ := List.cons.inj hsplit
        obtain ⟨next, hnext, hp⟩ := (hstep s e hs).mpr hok
        obtain ⟨last, hrun, hlast⟩ := (ih hp).mpr (hrest next hnext) before after rfl
        exact ⟨last, attempt_cons_eq_some.mpr ⟨next, hnext, hrun⟩, hlast⟩

end
end Runs
