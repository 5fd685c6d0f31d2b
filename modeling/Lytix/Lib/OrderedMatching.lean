import Mathlib.Data.List.Forall2
import Mathlib.Data.List.NodupEquivFin

/-! Elements of one list are matched with elements of another in the same order. To take the first
one that fits loses no matching. -/
namespace OrderedMatching

variable {α β : Type*} (fits : α → β → Bool)

/-- The greedy scan, which gives up once there are fewer elements left than have to be matched. -/
def greedy : List α → List β → Bool
  | [], _ => true
  | _ :: _, [] => false
  | a :: as, b :: bs =>
    let rest := if fits a b then as else a :: as
    if bs.length < rest.length then false else greedy rest bs

section
variable {fits} {R : α → β → Prop} {as : List α} {bs : List β} {a : α} {b : β}

theorem length_le_of_sublistForall₂ (h : List.SublistForall₂ R as bs) : as.length ≤ bs.length := by
  obtain ⟨l, hall, hsub⟩ := List.sublistForall₂_iff.mp h
  rw [hall.length_eq]
  exact hsub.length_le

/-- Fewer elements have still a matching. -/
theorem tail_of_sublistForall₂ (h : List.SublistForall₂ R (a :: as) bs) :
    List.SublistForall₂ R as bs := by
  obtain ⟨l, hall, hsub⟩ := List.sublistForall₂_iff.mp h
  cases hall with
  | @cons _ c _ l' _ hrest =>
    exact List.sublistForall₂_iff.mpr ⟨l', hrest, (List.sublist_cons_self c l').trans hsub⟩

/-- The first element that fits may be taken. -/
theorem sublistForall₂_cons_of_fits (hfits : R a b) :
    List.SublistForall₂ R (a :: as) (b :: bs) ↔ List.SublistForall₂ R as bs := by
  constructor
  · intro h
    cases h with
    | cons _ hrest => exact hrest
    | cons_right hrest => exact tail_of_sublistForall₂ hrest
  · intro h
    exact List.SublistForall₂.cons hfits h

theorem sublistForall₂_cons_of_not (hnot : ¬ R a b) :
    List.SublistForall₂ R (a :: as) (b :: bs) ↔ List.SublistForall₂ R (a :: as) bs := by
  constructor
  · intro h
    cases h with
    | cons hfits _ => exact absurd hfits hnot
    | cons_right hrest => exact hrest
  · exact List.SublistForall₂.cons_right

theorem greedy_iff :
    greedy fits as bs = true ↔ List.SublistForall₂ (fun a b => fits a b = true) as bs := by
  induction bs generalizing as with
  | nil =>
    cases as with
    | nil => simp [greedy, List.SublistForall₂.nil]
    | cons a as =>
      simp only [greedy, Bool.false_eq_true, false_iff]
      intro h
      have hlength := length_le_of_sublistForall₂ h
      simp at hlength
  | cons b bs ih =>
    cases as with
    | nil => simp [greedy, List.SublistForall₂.nil]
    | cons a as =>
      have hrest : List.SublistForall₂ (fun a b => fits a b = true) (a :: as) (b :: bs) ↔
          List.SublistForall₂ (fun a b => fits a b = true) (if fits a b then as else a :: as) bs := by
        split_ifs with hfits
        · exact sublistForall₂_cons_of_fits hfits
        · exact sublistForall₂_cons_of_not hfits
      rw [hrest, greedy]
      generalize (if fits a b then as else a :: as) = rest
      split_ifs with hfew
      · simp only [false_iff]
        intro h
        exact absurd (length_le_of_sublistForall₂ h) (not_le.mpr hfew)
      · exact ih

/-- A matching assigns positions in increasing order. -/
theorem sublistForall₂_iff_exists_orderEmbedding : List.SublistForall₂ R as bs ↔
    ∃ f : Fin as.length ↪o Fin bs.length, ∀ i, R (as.get i) (bs.get (f i)) := by
  rw [List.sublistForall₂_iff]
  constructor
  · rintro ⟨l, hall, hsub⟩
    obtain ⟨f, hf⟩ := List.sublist_iff_exists_fin_orderEmbedding_get_eq.mp hsub
    obtain ⟨hlength, hget⟩ := List.forall₂_iff_get.mp hall
    refine ⟨(Fin.castOrderIso hlength).toOrderEmbedding.trans f, ?_⟩
    intro i
    have hi := hget i i.isLt (hlength ▸ i.isLt)
    have hsame := hf (Fin.cast hlength i)
    rw [← show bs.get (f (Fin.cast hlength i)) =
      bs.get ((Fin.castOrderIso hlength).toOrderEmbedding.trans f i) from rfl, ← hsame]
    exact hi
  · rintro ⟨f, hf⟩
    refine ⟨(List.finRange as.length).map fun i => bs.get (f i), ?_, ?_⟩
    · refine List.forall₂_iff_get.mpr ⟨by simp, ?_⟩
      intro i hi hi'
      simpa using hf ⟨i, hi⟩
    · refine List.sublist_iff_exists_fin_orderEmbedding_get_eq.mpr
        ⟨(Fin.castOrderIso (by simp)).toOrderEmbedding.trans f, ?_⟩
      intro i
      simp
      rfl

/-- The order may be read from the other end. -/
theorem sublistForall₂_reverse :
    List.SublistForall₂ R as.reverse bs.reverse ↔ List.SublistForall₂ R as bs := by
  have hforth (as : List α) (bs : List β) (h : List.SublistForall₂ R as bs) :
      List.SublistForall₂ R as.reverse bs.reverse := by
    obtain ⟨l, hall, hsub⟩ := List.sublistForall₂_iff.mp h
    exact List.sublistForall₂_iff.mpr ⟨l.reverse, List.rel_reverse hall, hsub.reverse⟩
  constructor
  · intro h
    simpa using hforth as.reverse bs.reverse h
  · exact hforth as bs

end

end OrderedMatching
