import Mathlib.Tactic

/-! Checks that stop with an error, what is known once they have passed, and what is known of a
computation however it ends. -/
namespace Checks

universe u

variable {ε : Type*} {α β σ : Type u}

/-- Stop with an error when the condition holds. -/
def stopIf (c : Prop) [Decidable c] (e : ε) : Except ε Unit := if c then .error e else .ok ()

/-- Stop with an error when there is no value. -/
def orStop (e : ε) (found : Option α) : Except ε α :=
  match found with
  | some a => .ok a
  | none => .error e

/-- Checks that are made only when the condition holds. -/
def checkWhen (c : Prop) [Decidable c] (x : Except ε Unit) : Except ε Unit :=
  if c then x else .ok ()

section
variable {c : Prop} [Decidable c] {e : ε} {u : Unit} {a : α} {b : β} {s s' : σ}

@[simp] theorem stopIf_eq_ok : stopIf c e = .ok u ↔ ¬ c := by
  unfold stopIf
  split_ifs with h <;> simp [h]

@[simp] theorem orStop_eq_ok {found : Option α} : orStop e found = .ok a ↔ found = some a := by
  cases found <;> simp [orStop]

@[simp] theorem checkWhen_eq_ok {x : Except ε Unit} :
    checkWhen c x = .ok u ↔ (c → x = .ok ()) := by
  unfold checkWhen
  split_ifs with h <;> simp [h]

@[simp] theorem bind_eq_ok {x : Except ε α} {f : α → Except ε β} :
    (x >>= f) = .ok b ↔ ∃ a, x = .ok a ∧ f a = .ok b := by
  cases x <;> simp [bind, Except.bind]

@[simp] theorem pure_eq_ok {x : α} : (pure x : Except ε α) = .ok a ↔ x = a := by
  simp [pure, Except.pure]

@[simp] theorem toOption_eq_some {x : Except ε α} : x.toOption = some a ↔ x = .ok a := by
  cases x <;> simp [Except.toOption]

theorem bind_eq_error {x : Except ε α} {f : α → Except ε β} :
    (x >>= f) = .error e ↔ x = .error e ∨ ∃ a, x = .ok a ∧ f a = .error e := by
  cases x <;> simp [bind, Except.bind]

/-- Checks over a list pass when each of them does. -/
theorem forM_eq_ok {f : α → Except ε PUnit.{u + 1}} (l : List α) {v : PUnit.{u + 1}} :
    l.forM f = .ok v ↔ ∀ x ∈ l, f x = .ok ⟨⟩ := by
  induction l with
  | nil => simp
  | cons x l ih =>
    simp only [List.forM_eq_forM, List.forM_cons, bind_eq_ok] at ih ⊢
    rw [List.forall_mem_cons]
    constructor
    · rintro ⟨_, hx, hl⟩
      exact ⟨hx, ih.mp hl⟩
    · rintro ⟨hx, hl⟩
      exact ⟨⟨⟩, hx, ih.mpr hl⟩

/-- One check for each element is a check for some element. -/
theorem forM_stopIf {p : α → Prop} [DecidablePred p] (l : List α) :
    (l.forM fun x => stopIf (p x) e) = stopIf (∃ x ∈ l, p x) e := by
  induction l with
  | nil => simp [stopIf]
  | cons x l ih =>
    simp only [List.forM_eq_forM, List.forM_cons] at ih ⊢
    rw [ih]
    by_cases hx : p x
    · simp [stopIf, hx]
      rfl
    · simp [stopIf, hx]
      rfl

/-- The states around one element of a loop that ran to its end. -/
theorem foldlM_split {f : σ → α → Except ε σ} {before after : List α} {x : α} :
    (before ++ x :: after).foldlM f s = .ok s' ↔
      ∃ s₁ s₂, before.foldlM f s = .ok s₁ ∧ f s₁ x = .ok s₂ ∧ after.foldlM f s₂ = .ok s' := by
  rw [List.foldlM_append, bind_eq_ok]
  constructor
  · rintro ⟨s₁, hbefore, hrest⟩
    rw [List.foldlM_cons, bind_eq_ok] at hrest
    obtain ⟨s₂, hx, hafter⟩ := hrest
    exact ⟨s₁, s₂, hbefore, hx, hafter⟩
  · rintro ⟨s₁, s₂, hbefore, hx, hafter⟩
    refine ⟨s₁, hbefore, ?_⟩
    rw [List.foldlM_cons, bind_eq_ok]
    exact ⟨s₂, hx, hafter⟩

/-- Every round of a loop that ran to its end passed. -/
theorem foldlM_mem {f : σ → α → Except ε σ} {l : List α} {x : α} (h : l.foldlM f s = .ok s')
    (hx : x ∈ l) : ∃ s₁ s₂, f s₁ x = .ok s₂ := by
  obtain ⟨before, after, rfl⟩ := List.append_of_mem hx
  obtain ⟨s₁, s₂, -, hstep, -⟩ := foldlM_split.mp h
  exact ⟨s₁, s₂, hstep⟩

/-- What every step preserves, a run preserves. -/
theorem foldlM_invariant {f : σ → α → Except ε σ} (inv : σ → Prop) {l : List α}
    (hstep : ∀ s x s', x ∈ l → f s x = .ok s' → inv s → inv s')
    (hrun : l.foldlM f s = .ok s') (hs : inv s) : inv s' := by
  induction l generalizing s with
  | nil =>
    rw [List.foldlM_nil, pure_eq_ok] at hrun
    exact hrun ▸ hs
  | cons x l ih =>
    rw [List.foldlM_cons, bind_eq_ok] at hrun
    obtain ⟨s₁, hx, hl⟩ := hrun
    have hs₁ := hstep s x s₁ List.mem_cons_self hx hs
    exact ih (fun s y s' hy => hstep s y s' (List.mem_cons_of_mem x hy)) hl hs₁

end

/-- The result meets `post`, and an error meets `fails`. -/
def Meets (fails : ε → Prop) (post : α → Prop) : Except ε α → Prop
  | .ok a => post a
  | .error e => fails e

section
variable {fails : ε → Prop} {post : α → Prop}

theorem Meets.ok {a : α} (h : post a) : Meets fails post (.ok a) := h

theorem Meets.error {e : ε} (h : fails e) : Meets fails post (.error e) := h

theorem Meets.mono {post' : α → Prop} {r : Except ε α} (hr : Meets fails post r)
    (h : ∀ a, post a → post' a) : Meets fails post' r := by
  cases r with
  | ok a => exact h a hr
  | error e => exact hr

theorem Meets.bind {m : β → Prop} {r : Except ε β} {k : β → Except ε α} (hr : Meets fails m r)
    (hk : ∀ b, m b → Meets fails post (k b)) : Meets fails post (r >>= k) := by
  cases r with
  | ok b => exact hk b hr
  | error e => exact hr

theorem Meets.ite {c : Prop} [Decidable c] {r r' : Except ε α} (hr : c → Meets fails post r)
    (hr' : ¬ c → Meets fails post r') : Meets fails post (if c then r else r') := by
  by_cases h : c
  · rw [if_pos h]
    exact hr h
  · rw [if_neg h]
    exact hr' h

theorem Meets.stopIf {c : Prop} [Decidable c] {e : ε} {post : Unit → Prop} (h : c → fails e)
    (hpost : ¬ c → post ()) : Meets fails post (stopIf c e) :=
  Meets.ite (fun hc => Meets.error (h hc)) fun hc => Meets.ok (hpost hc)

theorem Meets.foldlM_mem {step : α → β → Except ε α} {l : List β} {a : α} (ha : post a)
    (hstep : ∀ a, ∀ b ∈ l, post a → Meets fails post (step a b)) :
    Meets fails post (l.foldlM step a) := by
  induction l generalizing a with
  | nil => exact ha
  | cons b l ih =>
    rw [List.foldlM_cons]
    exact (hstep a b List.mem_cons_self ha).bind fun a' ha' =>
      ih ha' fun a'' b' hb' => hstep a'' b' (List.mem_cons_of_mem b hb')

/-- What each step keeps, a run keeps, also where it stops. -/
theorem Meets.foldlM {step : α → β → Except ε α} {l : List β} {a : α} (ha : post a)
    (hstep : ∀ a b, post a → Meets fails post (step a b)) :
    Meets fails post (l.foldlM step a) :=
  Meets.foldlM_mem ha fun a b _ => hstep a b

/-- A loop over consecutive numbers, with what is known before each. -/
theorem Meets.foldlM_range' {α : Type} {post : ℕ → α → Prop} {step : α → ℕ → Except ε α} {a : α}
    {start len : ℕ} (ha : post start a)
    (hstep : ∀ a k, start ≤ k → k < start + len → post k a → Meets fails (post (k + 1)) (step a k)) :
    Meets fails (post (start + len)) ((List.range' start len).foldlM step a) := by
  induction len generalizing start a with
  | zero => exact ha
  | succ len ih =>
    rw [List.range'_succ, List.foldlM_cons]
    refine (hstep a start le_rfl (by omega) ha).bind fun a' ha' => ?_
    have hrest := ih ha' fun a'' k hle hlt => hstep a'' k (by omega) (by omega)
    rwa [Nat.add_right_comm, Nat.add_assoc] at hrest

end

/-- Every error that the computation gives meets `fails`. -/
def OnlyFails (fails : ε → Prop) (r : Except ε α) : Prop := Meets fails (fun _ => True) r

section
variable {fails : ε → Prop}

theorem OnlyFails.ok {a : α} : OnlyFails fails (.ok a : Except ε α) := trivial

theorem OnlyFails.pure {a : α} : OnlyFails fails (pure a : Except ε α) := trivial

theorem OnlyFails.error {e : ε} (h : fails e) : OnlyFails fails (.error e : Except ε α) := h

theorem OnlyFails.bind {r : Except ε β} {k : β → Except ε α} (hr : OnlyFails fails r)
    (hk : ∀ b, OnlyFails fails (k b)) : OnlyFails fails (r >>= k) :=
  Meets.bind hr fun b _ => hk b

theorem OnlyFails.bind_of_ok {r : Except ε β} {k : β → Except ε α} (hr : OnlyFails fails r)
    (hk : ∀ b, r = .ok b → OnlyFails fails (k b)) : OnlyFails fails (r >>= k) := by
  cases r with
  | ok b => exact hk b rfl
  | error e => exact hr

theorem OnlyFails.ite {c : Prop} [Decidable c] {r r' : Except ε α} (hr : OnlyFails fails r)
    (hr' : OnlyFails fails r') : OnlyFails fails (if c then r else r') :=
  Meets.ite (fun _ => hr) fun _ => hr'

theorem OnlyFails.stopIf {c : Prop} [Decidable c] {e : ε} (h : fails e) :
    OnlyFails fails (stopIf c e) :=
  OnlyFails.ite (OnlyFails.error h) OnlyFails.ok

theorem OnlyFails.orStop {e : ε} {found : Option α} (h : fails e) :
    OnlyFails fails (orStop e found) := by
  cases found with
  | none => exact OnlyFails.error h
  | some a => exact OnlyFails.ok

theorem OnlyFails.checkWhen {c : Prop} [Decidable c] {x : Except ε Unit}
    (h : OnlyFails fails x) : OnlyFails fails (checkWhen c x) :=
  OnlyFails.ite h OnlyFails.ok

theorem OnlyFails.foldlM_mem {step : α → β → Except ε α} {l : List β} {a : α}
    (hstep : ∀ a, ∀ b ∈ l, OnlyFails fails (step a b)) : OnlyFails fails (l.foldlM step a) := by
  induction l generalizing a with
  | nil => exact OnlyFails.ok
  | cons b l ih =>
    rw [List.foldlM_cons]
    exact (hstep a b List.mem_cons_self).bind fun a' =>
      ih fun a'' b' hb' => hstep a'' b' (List.mem_cons_of_mem b hb')

/-- Each round may use that the rounds before it passed. -/
theorem OnlyFails.foldlM_before {step : α → β → Except ε α} {l : List β} {a : α}
    (hstep : ∀ before b after a', l = before ++ b :: after →
      before.foldlM step a = .ok a' → OnlyFails fails (step a' b)) :
    OnlyFails fails (l.foldlM step a) := by
  induction l generalizing a with
  | nil => exact OnlyFails.ok
  | cons b l ih =>
    rw [List.foldlM_cons]
    have hfirst : OnlyFails fails (step a b) := hstep [] b l a rfl rfl
    refine hfirst.bind_of_ok fun a' ha' => ih fun before b' after a'' hl hbefore => ?_
    have hrun : (b :: before).foldlM step a = .ok a'' := by
      rw [List.foldlM_cons, ha']
      exact hbefore
    exact hstep (b :: before) b' after a'' (by rw [hl, List.cons_append]) hrun

theorem OnlyFails.foldlM {step : α → β → Except ε α} {l : List β} {a : α}
    (hstep : ∀ a b, OnlyFails fails (step a b)) : OnlyFails fails (l.foldlM step a) :=
  OnlyFails.foldlM_mem fun a b _ => hstep a b

theorem OnlyFails.forM_mem {f : α → Except ε PUnit.{u + 1}} {l : List α}
    (hf : ∀ x ∈ l, OnlyFails fails (f x)) : OnlyFails fails (l.forM f) := by
  induction l with
  | nil => exact OnlyFails.ok
  | cons x l ih =>
    rw [List.forM_eq_forM, List.forM_cons]
    exact (hf x List.mem_cons_self).bind fun _ =>
      ih fun y hy => hf y (List.mem_cons_of_mem x hy)

theorem OnlyFails.forM {f : α → Except ε PUnit.{u + 1}} {l : List α}
    (hf : ∀ x, OnlyFails fails (f x)) : OnlyFails fails (l.forM f) :=
  OnlyFails.forM_mem fun x _ => hf x

theorem OnlyFails.ne_error {e : ε} {r : Except ε α} (h : OnlyFails (· ≠ e) r) : r ≠ .error e := by
  rintro rfl
  exact h rfl

end

/-- A loop whose every round passes passes, and keeps what each round keeps of the rounds before
it. -/
theorem exists_foldlM_pure {m : Type u → Type u} [Monad m] [LawfulMonad m] {σ α : Type u}
    {f : σ → α → m σ} {inv : List α → σ → Prop} {l : List α} {s : σ} (hs : inv [] s)
    (hstep : ∀ before x after s, l = before ++ x :: after → inv before s →
      ∃ s', f s x = pure s' ∧ inv (before ++ [x]) s') :
    ∃ s', l.foldlM f s = pure s' ∧ inv l s' := by
  induction l generalizing s inv with
  | nil => exact ⟨s, rfl, hs⟩
  | cons x l ih =>
    obtain ⟨next, hx, hnext⟩ := hstep [] x l s rfl hs
    have hrest : ∃ s', l.foldlM f next = pure s' ∧ inv (x :: l) s' := by
      apply @ih (fun before => inv (x :: before)) next hnext
      intro before y after s hl hinv
      exact hstep (x :: before) y after s (congrArg (x :: ·) hl) hinv
    obtain ⟨last, hloop, hlast⟩ := hrest
    refine ⟨last, ?_, hlast⟩
    rw [List.foldlM_cons, hx, pure_bind, hloop]

/-! Computations that fail together, and otherwise end in related values. -/

section
variable {α β γ δ σ τ : Type} {rel : α → β → Prop} {rel' : γ → δ → Prop}

theorem rel_bind {x : Option α} {y : Option β} {f : α → Option γ} {g : β → Option δ}
    (h : Option.Rel rel x y) (hnext : ∀ a b, rel a b → Option.Rel rel' (f a) (g b)) :
    Option.Rel rel' (x >>= f) (y >>= g) := by
  cases h with
  | none => exact Option.Rel.none
  | some h => exact hnext _ _ h

theorem rel_bind_refl {x : Option α} {f : α → Option γ} {g : α → Option δ}
    (hnext : ∀ a, Option.Rel rel' (f a) (g a)) : Option.Rel rel' (x >>= f) (x >>= g) := by
  cases x with
  | none => exact Option.Rel.none
  | some a => exact hnext a

theorem rel_eq_none_iff {x : Option α} {y : Option β} (h : Option.Rel rel x y) :
    x = none ↔ y = none := by
  cases h with
  | none => simp
  | some _ => simp

theorem rel_foldlM {rel : σ → τ → Prop} {f : σ → α → Option σ} {g : τ → α → Option τ} {l : List α}
    {s : σ} {t : τ} (h : rel s t) (hstep : ∀ s t x, rel s t → Option.Rel rel (f s x) (g t x)) :
    Option.Rel rel (l.foldlM f s) (l.foldlM g t) := by
  induction l generalizing s t with
  | nil => exact Option.Rel.some h
  | cons x l ih =>
    rw [List.foldlM_cons, List.foldlM_cons]
    exact rel_bind (hstep s t x h) fun s' t' h' => ih h'

/-- What every step brings about, a loop of at least one step does. -/
theorem foldlM_of_step {inv : σ → Prop} {f : σ → α → Option σ} {l : List α} {s s' : σ}
    (hl : l ≠ []) (hstep : ∀ s x s', f s x = some s' → inv s') (h : l.foldlM f s = some s') :
    inv s' := by
  induction l generalizing s with
  | nil => exact absurd rfl hl
  | cons x l ih =>
    rw [List.foldlM_cons] at h
    obtain ⟨mid, hfirst, hrest⟩ := Option.bind_eq_some_iff.mp h
    by_cases hlast : l = []
    · subst hlast
      obtain rfl := Option.some.inj hrest
      exact hstep s x mid hfirst
    · exact ih hlast hrest

end

end Checks
