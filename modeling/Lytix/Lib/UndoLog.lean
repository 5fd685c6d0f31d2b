import Mathlib.Tactic

/-! Steps that record how to be undone. Undoing a step also reports whether it found the state
as the step left it. `Damaged w s` is a difference between a state `w` and the state `s` it
should be that no undoing of earlier steps repairs unnoticed. -/
namespace UndoLog

variable {S A U : Type*}

structure System (S A U : Type*) where
  apply : S → A → Option (U × S)
  undo : A → U → S → Bool × S

namespace System

def applyAll (sys : System S A U) : S → List A → Option (List U × S)
  | s, [] => some ([], s)
  | s, a :: as =>
    (sys.apply s a).bind fun (u, s') => (sys.applyAll s' as).map fun (us, t) => (u :: us, t)

/-- Undo the steps, the last one first. -/
def undoAll (sys : System S A U) : List (A × U) → S → Bool × S
  | [], s => (true, s)
  | (a, u) :: rest, s =>
    let (clean, s') := sys.undoAll rest s
    let (clean', s'') := sys.undo a u s'
    (clean && clean', s'')

/-- Every step is `good` in the state it is taken in. -/
def AllGood (sys : System S A U) (good : S → A → Prop) : S → List A → Prop
  | _, [] => True
  | s, a :: as => good s a ∧ ∀ u s', sys.apply s a = some (u, s') → sys.AllGood good s' as

/-- A good step is undone exactly; a step that is not good is noticed or leaves damage; damage
is noticed or stays. -/
structure Lawful (sys : System S A U) (inv : S → Prop) (allowed : A → Prop)
    (good : S → A → Prop) (Damaged : S → S → Prop) : Prop where
  inv_apply : ∀ {s a u s'}, inv s → allowed a → sys.apply s a = some (u, s') → inv s'
  undo_good : ∀ {s a u s'}, inv s → allowed a → sys.apply s a = some (u, s') → good s a →
    sys.undo a u s' = (true, s)
  undo_bad : ∀ {s a u s'}, inv s → allowed a → sys.apply s a = some (u, s') → ¬good s a →
    (sys.undo a u s').1 = false ∨ Damaged (sys.undo a u s').2 s
  undo_damaged : ∀ {s a u s' w}, inv s → allowed a → sys.apply s a = some (u, s') →
    Damaged w s' → (sys.undo a u w).1 = false ∨ Damaged (sys.undo a u w).2 s
  irrefl : ∀ s, ¬Damaged s s

variable {sys : System S A U} {inv : S → Prop} {allowed : A → Prop} {good : S → A → Prop}
  {Damaged : S → S → Prop}

theorem applyAll_cons_eq_some {s t : S} {a : A} {as : List A} {us : List U}
    (h : sys.applyAll s (a :: as) = some (us, t)) :
    ∃ u s' rest, us = u :: rest ∧ sys.apply s a = some (u, s') ∧
      sys.applyAll s' as = some (rest, t) := by
  obtain ⟨⟨u, s'⟩, hstep, hrest⟩ := Option.bind_eq_some_iff.mp h
  obtain ⟨⟨rest, t'⟩, hrun, heq⟩ := Option.map_eq_some_iff.mp hrest
  obtain ⟨rfl, rfl⟩ := Prod.mk.inj heq
  exact ⟨u, s', rest, rfl, hstep, hrun⟩

theorem applyAll_length {s t : S} {as : List A} {us : List U}
    (h : sys.applyAll s as = some (us, t)) : us.length = as.length := by
  induction as generalizing s us with
  | nil =>
    obtain ⟨rfl, -⟩ := Prod.mk.inj (Option.some.inj h)
    rfl
  | cons a as ih =>
    obtain ⟨u, s', rest, rfl, -, hrun⟩ := applyAll_cons_eq_some h
    simp only [List.length_cons, ih hrun]

namespace Lawful

theorem inv_applyAll (hl : sys.Lawful inv allowed good Damaged) {s t : S} {as : List A}
    {us : List U} (hs : inv s) (has : ∀ a ∈ as, allowed a)
    (h : sys.applyAll s as = some (us, t)) : inv t := by
  induction as generalizing s us with
  | nil =>
    obtain ⟨-, rfl⟩ := Prod.mk.inj (Option.some.inj h)
    exact hs
  | cons a as ih =>
    obtain ⟨u, s', rest, rfl, hstep, hrun⟩ := applyAll_cons_eq_some h
    exact ih (hl.inv_apply hs (has a (by simp)) hstep) (fun b hb => has b (by simp [hb])) hrun

/-- The damage `w` has against the end of a run is noticed on the way back, or is there still
at its start. -/
theorem undoAll_damaged (hl : sys.Lawful inv allowed good Damaged) {s t w : S} {as : List A}
    {us : List U} (hs : inv s) (has : ∀ a ∈ as, allowed a)
    (h : sys.applyAll s as = some (us, t)) (hw : Damaged w t) :
    (sys.undoAll (as.zip us) w).1 = false ∨ Damaged (sys.undoAll (as.zip us) w).2 s := by
  induction as generalizing s us with
  | nil =>
    obtain ⟨rfl, rfl⟩ := Prod.mk.inj (Option.some.inj h)
    exact Or.inr hw
  | cons a as ih =>
    obtain ⟨u, s', rest, rfl, hstep, hrun⟩ := applyAll_cons_eq_some h
    have ha : allowed a := has a (by simp)
    have hlater := ih (hl.inv_apply hs ha hstep) (fun b hb => has b (by simp [hb])) hrun
    simp only [List.zip_cons_cons, undoAll]
    rcases hlater with hdirty | hdamaged
    · exact Or.inl (by rw [hdirty, Bool.false_and])
    · rcases hl.undo_damaged hs ha hstep hdamaged with hdirty | hstill
      · exact Or.inl (by rw [hdirty, Bool.and_false])
      · exact Or.inr hstill

theorem undoAll_good (hl : sys.Lawful inv allowed good Damaged) {s t : S} {as : List A}
    {us : List U} (hs : inv s) (has : ∀ a ∈ as, allowed a)
    (h : sys.applyAll s as = some (us, t)) (hgood : sys.AllGood good s as) :
    sys.undoAll (as.zip us) t = (true, s) := by
  induction as generalizing s us with
  | nil =>
    obtain ⟨rfl, rfl⟩ := Prod.mk.inj (Option.some.inj h)
    rfl
  | cons a as ih =>
    obtain ⟨u, s', rest, rfl, hstep, hrun⟩ := applyAll_cons_eq_some h
    have ha : allowed a := has a (by simp)
    have hlater := ih (hl.inv_apply hs ha hstep) (fun b hb => has b (by simp [hb])) hrun
      (hgood.2 u s' hstep)
    simp only [List.zip_cons_cons, undoAll, hlater, hl.undo_good hs ha hstep hgood.1,
      Bool.and_self]

theorem undoAll_bad (hl : sys.Lawful inv allowed good Damaged) {s t : S} {as : List A}
    {us : List U} (hs : inv s) (has : ∀ a ∈ as, allowed a)
    (h : sys.applyAll s as = some (us, t)) (hbad : ¬sys.AllGood good s as) :
    (sys.undoAll (as.zip us) t).1 = false ∨ Damaged (sys.undoAll (as.zip us) t).2 s := by
  induction as generalizing s us with
  | nil => exact absurd trivial hbad
  | cons a as ih =>
    obtain ⟨u, s', rest, rfl, hstep, hrun⟩ := applyAll_cons_eq_some h
    have ha : allowed a := has a (by simp)
    have hs' := hl.inv_apply hs ha hstep
    have has' : ∀ b ∈ as, allowed b := fun b hb => has b (by simp [hb])
    simp only [List.zip_cons_cons, undoAll]
    by_cases hrest : sys.AllGood good s' as
    · -- the steps after this one are undone exactly, so this one is the bad one
      have hthis : ¬good s a := by
        intro hgood
        refine hbad ⟨hgood, fun u₁ s₁ h₁ => ?_⟩
        obtain ⟨rfl, rfl⟩ := Prod.mk.inj (Option.some.inj (hstep.symm.trans h₁))
        exact hrest
      rw [hl.undoAll_good hs' has' hrun hrest]
      simpa using hl.undo_bad hs ha hstep hthis
    · rcases ih hs' has' hrun hrest with hdirty | hdamaged
      · exact Or.inl (by rw [hdirty, Bool.false_and])
      · rcases hl.undo_damaged hs ha hstep hdamaged with hdirty | hstill
        · exact Or.inl (by rw [hdirty, Bool.and_false])
        · exact Or.inr hstill

/-- Undoing a run restores its start and reports nothing exactly when every step was good. -/
theorem undoAll_iff (hl : sys.Lawful inv allowed good Damaged) {s t : S} {as : List A}
    {us : List U} (hs : inv s) (has : ∀ a ∈ as, allowed a)
    (h : sys.applyAll s as = some (us, t)) :
    sys.undoAll (as.zip us) t = (true, s) ↔ sys.AllGood good s as := by
  refine ⟨fun hundo => ?_, hl.undoAll_good hs has h⟩
  by_contra hbad
  have hfail := hl.undoAll_bad hs has h hbad
  rw [hundo] at hfail
  rcases hfail with hdirty | hdamaged
  · exact absurd hdirty (by simp)
  · exact hl.irrefl s hdamaged

end Lawful
end System
end UndoLog
