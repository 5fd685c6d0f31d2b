import Mathlib.Data.List.Basic
import Mathlib.Tactic

/-! Worklists over a graph that shrinks. A node that is taken out pushes the nodes it leads to; what
is taken out in the end are the nodes that are reached from the queue. -/
namespace Worklists

variable {α : Type*}

/-- The living nodes that are on the queue, or that one of them leads to. -/
inductive Reached (alive : α → Prop) (link : α → α → Prop) (queue : List α) : α → Prop
  | queued {x : α} (hx : x ∈ queue) (halive : alive x) : Reached alive link queue x
  | next {x y : α} (hx : Reached alive link queue x) (hlink : link x y) (halive : alive y) :
      Reached alive link queue y

section
variable {alive alive' : α → Prop} {link link' : α → α → Prop} {queue kids : List α} {x y : α}

theorem Reached.living (h : Reached alive link queue x) : alive x := by
  cases h with
  | queued _ halive => exact halive
  | next _ _ halive => exact halive

theorem Reached.mono (h : Reached alive link queue x) (hlink : ∀ x y, link x y → link' x y) :
    Reached alive link' queue x := by
  induction h with
  | queued hx halive => exact Reached.queued hx halive
  | next _ hxy halive ih => exact Reached.next ih (hlink _ _ hxy) halive

theorem not_reached_nil : ¬ Reached alive link [] x := by
  intro h
  induction h with
  | queued hx => exact List.not_mem_nil hx
  | next _ _ _ ih => exact ih

/-- A node that is gone is passed over. -/
theorem reached_cons_of_dead (hdead : ¬ alive x) :
    Reached alive link (x :: queue) y ↔ Reached alive link queue y := by
  constructor
  · intro h
    induction h with
    | queued hy halive =>
      rcases List.mem_cons.mp hy with rfl | hy
      · exact absurd halive hdead
      · exact Reached.queued hy halive
    | next _ hlink halive ih => exact Reached.next ih hlink halive
  · intro h
    induction h with
    | queued hy halive => exact Reached.queued (List.mem_cons_of_mem _ hy) halive
    | next _ hlink halive ih => exact Reached.next ih hlink halive

/-- A living node is taken out, and the living nodes that it leads to are pushed. -/
theorem reached_cons_of_alive (hx : alive x) (hkids : ∀ y, alive y → (y ∈ kids ↔ link x y)) :
    Reached alive link (x :: queue) y ↔
      y = x ∨ Reached (fun z => alive z ∧ z ≠ x) link (queue ++ kids) y := by
  constructor
  · intro h
    induction h with
    | @queued y hy halive =>
      by_cases heq : y = x
      · exact Or.inl heq
      · have hmem := List.mem_of_ne_of_mem heq hy
        exact Or.inr (Reached.queued (List.mem_append_left _ hmem) ⟨halive, heq⟩)
    | @next z y _ hlink halive ih =>
      by_cases heq : y = x
      · exact Or.inl heq
      · right
        rcases ih with rfl | hz
        · exact Reached.queued (List.mem_append_right _ ((hkids y halive).mpr hlink)) ⟨halive, heq⟩
        · exact Reached.next hz hlink ⟨halive, heq⟩
  · rintro (rfl | h)
    · exact Reached.queued List.mem_cons_self hx
    · induction h with
      | queued hy halive =>
        rcases List.mem_append.mp hy with hy | hy
        · exact Reached.queued (List.mem_cons_of_mem _ hy) halive.1
        · exact Reached.next (Reached.queued List.mem_cons_self hx) ((hkids _ halive.1).mp hy)
            halive.1
      | next _ hlink halive ih => exact Reached.next ih hlink halive.1

end
end Worklists
