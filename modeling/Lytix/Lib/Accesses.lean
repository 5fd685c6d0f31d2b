import Lytix.Lib.Checks

/-! Checks that read lists by index. A read outside the list is an outcome of its own, beside the
errors of the checks. -/
namespace Accesses
open Checks

universe u

variable {ε : Type*} {α β : Type u}

/-- A result, an error, or a read outside a list, which is the error `none`. -/
abbrev Access (ε : Type*) (α : Type u) := Except (Option ε) α

/-- Read one element. -/
def readAt (l : List α) (i : ℕ) : Access ε α := orStop none l[i]?

/-- Read all elements from a position on; the end of the list is a position. -/
def readFrom (l : List α) (i : ℕ) : Access ε (List α) :=
  if i ≤ l.length then .ok (l.drop i) else .error none

/-- Follow a pointer. Following the null pointer reads outside as well. -/
def deref (pointer : Option α) : Access ε α := orStop none pointer

/-- Whatever fails, the caller fails with an error of its own. -/
def onFailure (e : ε) (r : Access ε α) : Access ε α := r.mapError fun failure => failure.map fun _ => e

/-- Checks that read no list by index. -/
def checks (x : Except ε α) : Access ε α := x.mapError some

section
variable {l : List α} {i : ℕ} {e : ε} {a : α}

@[simp] theorem checks_ok : checks (.ok a : Except ε α) = .ok a := rfl

@[simp] theorem checks_error : checks (.error e : Except ε α) = .error (some e) := rfl

theorem checks_ne_outside {x : Except ε α} : checks x ≠ .error none := by
  cases x <;> simp

theorem deref_eq_outside {pointer : Option α} :
    (deref pointer : Access ε α) = .error none ↔ pointer = none := by
  cases pointer <;> simp [deref, orStop]

@[simp] theorem deref_eq_ok {pointer : Option α} :
    (deref pointer : Access ε α) = .ok a ↔ pointer = some a := orStop_eq_ok

theorem orStop_ne_outside {found : Option α} : orStop (some e) found ≠ .error none := by
  cases found <;> simp [orStop]

theorem checks_eq_ok {x : Except ε α} : checks x = .ok a ↔ x = .ok a := by
  cases x <;> simp

theorem checks_bind {x : Except ε α} {f : α → Except ε β} :
    checks (x >>= f) = checks x >>= fun a => checks (f a) := by
  cases x <;> rfl

theorem checks_ite {c : Prop} [Decidable c] {x y : Except ε α} :
    checks (if c then x else y) = if c then checks x else checks y := by
  split_ifs <;> rfl

theorem readAt_of_getElem? (h : l[i]? = some a) : (readAt l i : Access ε α) = .ok a := by
  rw [readAt, h, orStop]

theorem readAt_eq_outside : (readAt l i : Access ε α) = .error none ↔ l.length ≤ i := by
  rw [readAt]
  cases hget : l[i]? with
  | none => simpa [orStop] using hget
  | some a =>
    have hlt := (List.getElem?_eq_some_iff.mp hget).1
    simp [orStop, hlt]

theorem readFrom_eq_outside : (readFrom l i : Access ε (List α)) = .error none ↔ l.length < i := by
  unfold readFrom
  split_ifs with h
  · simp [h]
  · simpa using h

/-- A loop over the indices from `k` on reads the elements from there on. -/
theorem forM_readAt {f : α → Access ε PUnit.{u + 1}} (l : List α) (k : ℕ) :
    (List.range' k (l.length - k)).forM (fun i => readAt l i >>= f) = (l.drop k).forM f := by
  generalize hn : l.length - k = n
  induction n generalizing k with
  | zero =>
    have hdrop : l.drop k = [] := List.drop_eq_nil_of_le (by omega)
    rw [hdrop]
    rfl
  | succ n ih =>
    have hk : k < l.length := by omega
    have hread : (readAt l k : Access ε α) = .ok l[k] :=
      readAt_of_getElem? (List.getElem?_eq_getElem hk)
    have hrest := ih (k + 1) (by omega)
    simp only [List.forM_eq_forM] at hrest ⊢
    rw [List.range'_succ, List.drop_eq_getElem_cons hk, List.forM_cons, List.forM_cons, hread,
      hrest]
    rfl

theorem checks_stopIf {p : Prop} [Decidable p] : checks (stopIf p e) = stopIf p (some e) := by
  unfold stopIf
  split_ifs <;> rfl

theorem checks_stopIf_of_not {p : Prop} [Decidable p] (h : ¬ p) : checks (stopIf p e) = .ok () := by
  rw [checks_eq_ok, stopIf_eq_ok]
  exact h

theorem forM_checks_stopIf {p : α → Prop} [DecidablePred p] (l : List α) :
    (l.forM fun x => checks (stopIf (p x) e)) = checks (stopIf (∃ x ∈ l, p x) e) := by
  simp only [checks_stopIf]
  exact forM_stopIf l

theorem checks_foldlM {σ : Type u} {f : σ → α → Except ε σ} {s : σ} :
    checks (l.foldlM f s) = l.foldlM (fun s x => checks (f s x)) s := by
  induction l generalizing s with
  | nil => rfl
  | cons x l ih =>
    rw [List.foldlM_cons, List.foldlM_cons, checks_bind]
    congr 1
    funext s'
    exact ih

end

/-- Nothing is read outside. -/
def Within (r : Access ε α) : Prop := OnlyFails (fun e => e ≠ none) r

section
variable {r : Access ε α}

theorem within_iff : Within r ↔ r ≠ .error none := by
  cases r with
  | ok a => simp [Within, OnlyFails, Meets]
  | error e => simp [Within, OnlyFails, Meets]

theorem within_checks {x : Except ε α} : Within (checks x) := within_iff.mpr checks_ne_outside

theorem within_readFrom {l : List α} {i : ℕ} (h : i ≤ l.length) :
    Within (readFrom l i : Access ε (List α)) := by
  rw [within_iff, ne_eq, readFrom_eq_outside]
  omega

end

section
variable {r : Access ε α} {x : Except ε α}

end

/-- The code with reads by index reads nothing outside, and gives a result where `x` has one. -/
structure Answers (r : Access ε α) (x : Option α) : Prop where
  within : Within r
  found : r.toOption = x

section
variable {r : Access ε α} {x : Option α} {e : ε} {a : α}

theorem Answers.ok : Answers (.ok a : Access ε α) (some a) := ⟨OnlyFails.ok, rfl⟩

theorem Answers.fails : Answers (.error (some e) : Access ε α) none :=
  ⟨within_iff.mpr (by simp), rfl⟩

theorem Answers.orStop : Answers (Checks.orStop (some e) x) x := by
  cases x with
  | none => exact .fails
  | some a => exact .ok

theorem Answers.bind {k : α → Access ε β} {f : α → Option β} (hr : Answers r x)
    (hk : ∀ a, x = some a → Answers (k a) (f a)) : Answers (r >>= k) (x.bind f) := by
  obtain ⟨hwithin, rfl⟩ := hr
  cases r with
  | ok a => exact hk a rfl
  | error e => exact ⟨hwithin, rfl⟩

theorem Answers.onFailure (hr : Answers r x) : Answers (onFailure e r) x := by
  obtain ⟨hwithin, rfl⟩ := hr
  rw [within_iff] at hwithin
  cases r with
  | ok a => exact .ok
  | error failure =>
    cases failure with
    | none => exact absurd rfl hwithin
    | some failure => exact .fails

theorem Answers.eq_ok (hr : Answers r x) : r = .ok a ↔ x = some a := by
  rw [← hr.found, toOption_eq_some]

theorem Answers.eq_error (hr : Answers r none) : ∃ e, r = .error (some e) := by
  obtain ⟨hwithin, hnone⟩ := hr
  rw [within_iff] at hwithin
  rcases r with (_ | e) | a
  · exact absurd rfl hwithin
  · exact ⟨e, rfl⟩
  · contradiction

theorem onFailure_eq_outside : onFailure e r = .error none ↔ r = .error none := by
  rcases r with (_ | failure) | a <;> simp [onFailure, Except.mapError]

theorem onFailure_eq_ok : onFailure e r = .ok a ↔ r = .ok a := by
  rcases r with (_ | failure) | b <;> simp [onFailure, Except.mapError]

end
end Accesses
