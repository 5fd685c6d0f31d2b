import Mathlib.Data.List.Basic
import Mathlib.Tactic

/-! Loops that may not end, run with a bound on their passes, and total correctness of what is
built from them. -/
namespace BoundedLoops

variable {α β σ ι : Type}

/-- `do body while (continues)`, with at most `fuel` passes. -/
def doWhile (body : σ → σ) (continues : σ → Bool) : ℕ → σ → Option σ
  | 0, _ => none
  | fuel + 1, s =>
    if continues (body s) then doWhile body continues fuel (body s) else some (body s)

/-- `do { if (more) step } while (more)`. -/
def repeatWhile (step : σ → σ) (more : σ → Bool) : ℕ → σ → Option σ :=
  doWhile (fun s => if more s then step s else s) more

/-- Every bound that is large enough gives this result. -/
def Returns (f : ℕ → Option α) (a : α) : Prop := ∃ enough, ∀ fuel ≥ enough, f fuel = some a

theorem Returns.unique {f : ℕ → Option α} {a b : α} (ha : Returns f a) (hb : Returns f b) :
    a = b := by
  obtain ⟨enough, hreturns⟩ := ha
  obtain ⟨enough', hreturns'⟩ := hb
  apply Option.some.inj
  rw [← hreturns (max enough enough') (le_max_left _ _),
    hreturns' (max enough enough') (le_max_right _ _)]

/-- The computation returns, and its result meets the postcondition. -/
def Total (f : ℕ → Option α) (post : α → Prop) : Prop := ∃ a, Returns f a ∧ post a

theorem Total.pure {a : α} {post : α → Prop} (h : post a) : Total (fun _ => some a) post :=
  ⟨a, ⟨0, fun _ _ => rfl⟩, h⟩

theorem Total.mono {f : ℕ → Option α} {post post' : α → Prop} (hf : Total f post)
    (h : ∀ a, post a → post' a) : Total f post' := by
  obtain ⟨a, hreturns, hpost⟩ := hf
  exact ⟨a, hreturns, h a hpost⟩

/-- A computation has one result, so two postconditions hold of the same. -/
theorem Total.and {f : ℕ → Option α} {post post' : α → Prop} (h : Total f post)
    (h' : Total f post') : Total f fun a => post a ∧ post' a := by
  obtain ⟨a, hreturns, hpost⟩ := h
  obtain ⟨b, hreturns', hpost'⟩ := h'
  rw [← hreturns.unique hreturns'] at hpost'
  exact ⟨a, hreturns, hpost, hpost'⟩

theorem Total.bind {f : ℕ → Option α} {g : ℕ → α → Option β} {M : α → Prop} {post : β → Prop}
    (hf : Total f M) (hg : ∀ a, M a → Total (fun fuel => g fuel a) post) :
    Total (fun fuel => f fuel >>= g fuel) post := by
  obtain ⟨a, ⟨enough, hfirst⟩, hmid⟩ := hf
  obtain ⟨b, ⟨more, hsecond⟩, hpost⟩ := hg a hmid
  refine ⟨b, ⟨max enough more, ?_⟩, hpost⟩
  intro fuel hfuel
  have hthen := hsecond fuel (le_trans (le_max_right _ _) hfuel)
  simpa [hfirst fuel (le_trans (le_max_left _ _) hfuel)] using hthen

/-- What the elements still to come are promised, each step promises to those after it. -/
theorem Total.foldlM {step : ℕ → σ → ι → Option σ} {I : List ι → σ → Prop} {l : List ι} {s : σ}
    (hs : I l s)
    (hstep : ∀ i rest s, i :: rest <:+ l → I (i :: rest) s →
      Total (fun fuel => step fuel s i) (I rest)) :
    Total (fun fuel => l.foldlM (step fuel) s) (I []) := by
  induction l generalizing s with
  | nil => exact Total.pure hs
  | cons i rest ih =>
    simp only [List.foldlM_cons]
    refine Total.bind (hstep i rest s List.suffix_rfl hs) fun s' hs' => ih hs' ?_
    intro j later s hsuffix
    exact hstep j later s (hsuffix.trans (List.suffix_cons i rest))

/-- A loop ends where each pass that is followed by another lowers the measure. -/
theorem Total.doWhile {body : σ → σ} {continues : σ → Bool} {I post : σ → Prop} (measure : σ → ℕ)
    {s : σ} (hs : I s)
    (hagain : ∀ s, I s → continues (body s) = true →
      I (body s) ∧ measure (body s) < measure s)
    (hlast : ∀ s, I s → continues (body s) = false → post (body s)) :
    Total (fun fuel => doWhile body continues fuel s) post := by
  induction hn : measure s using Nat.strong_induction_on generalizing s with
  | _ n ih =>
    cases hmore : continues (body s) with
    | false =>
      refine ⟨body s, ⟨1, ?_⟩, hlast s hs hmore⟩
      intro fuel hfuel
      obtain ⟨passes, rfl⟩ := Nat.exists_eq_add_of_le' hfuel
      simp [BoundedLoops.doWhile, hmore]
    | true =>
      have hnext := hagain s hs hmore
      obtain ⟨a, ⟨enough, hreturns⟩, hpost⟩ := ih _ (hn ▸ hnext.2) hnext.1 rfl
      refine ⟨a, ⟨enough + 1, ?_⟩, hpost⟩
      intro fuel hfuel
      obtain ⟨passes, rfl⟩ := Nat.exists_eq_add_of_le' (le_trans (Nat.le_add_left 1 enough) hfuel)
      have hpasses := hreturns passes (Nat.le_of_succ_le_succ hfuel)
      simp [BoundedLoops.doWhile, hmore, hpasses]

theorem Total.repeatWhile {step : σ → σ} {more : σ → Bool} {I : σ → Prop} (measure : σ → ℕ)
    {s : σ} (hs : I s)
    (hstep : ∀ s, I s → more s = true → I (step s) ∧ measure (step s) < measure s) :
    Total (fun fuel => repeatWhile step more fuel s) (fun s' => I s' ∧ more s' = false) := by
  refine Total.doWhile measure hs ?_ ?_
  · intro s hinv hmore
    cases hnow : more s with
    | false => simp [hnow] at hmore
    | true => simpa using hstep s hinv hnow
  · intro s hinv hmore
    refine ⟨?_, hmore⟩
    cases hnow : more s with
    | false => simpa using hinv
    | true => simpa using (hstep s hinv hnow).1

/-- What each pass keeps holds where the loop has ended. -/
theorem repeatWhile_invariant {step : σ → σ} {more : σ → Bool} {I : σ → Prop} {fuel : ℕ} {s s' : σ}
    (h : repeatWhile step more fuel s = some s') (hs : I s)
    (hstep : ∀ s, I s → more s = true → I (step s)) : I s' ∧ more s' = false := by
  induction fuel generalizing s with
  | zero => simp [repeatWhile, doWhile] at h
  | succ fuel ih =>
    rw [repeatWhile, doWhile] at h
    cases hmore : more s with
    | false =>
      simp only [hmore, Bool.false_eq_true, if_false, Option.some.injEq] at h
      rw [← h]
      exact ⟨hs, hmore⟩
    | true =>
      have hnext := hstep s hs hmore
      simp only [hmore, if_true] at h
      split_ifs at h with hagain
      · exact ih h hnext
      · rw [← Option.some.inj h]
        exact ⟨hnext, by simpa using hagain⟩

/-- What each pass of a counted loop keeps, with the count of the passes behind it. -/
theorem fold_invariant {n : ℕ} {I : ℕ → σ → Prop} {body : (i : ℕ) → i < n → σ → σ}
    {s : σ} (hs : I 0 s) (hbody : ∀ i (hi : i < n) s, I i s → I (i + 1) (body i hi s)) :
    I n (Nat.fold n body s) := by
  induction n with
  | zero => exact hs
  | succ n ih =>
    rw [Nat.fold_succ]
    apply hbody
    exact ih fun i hi s h => hbody i (Nat.lt_succ_of_lt hi) s h

end BoundedLoops
