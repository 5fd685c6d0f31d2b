import Mathlib.Data.List.Basic
import Mathlib.Order.CompletePartialOrder
import Mathlib.Order.Disjoint
import Mathlib.Tactic

/-! Space that is given away part by part. The parts and what is still free are elements of an order
with meets and a least element. -/
namespace FreeSpace

variable {ρ : Type*} [SemilatticeInf ρ] [OrderBot ρ]

/-- A part is marked as used: what is free afterwards was free before, and is apart from it. -/
structure Marks (free part free' : ρ) : Prop where
  le : free' ≤ free
  apart : Disjoint part free'

/-- No part that was given away reaches into what is free. -/
def Unused (parts : List ρ) (free : ρ) : Prop := ∀ part ∈ parts, Disjoint part free

variable {parts : List ρ} {free free' part : ρ}

theorem unused_nil : Unused [] free := by simp [Unused]

theorem Unused.mark (unused : Unused parts free) (marks : Marks free part free') :
    Unused (parts ++ [part]) free' := by
  intro old hold
  rcases List.mem_append.mp hold with hbefore | hnow
  · exact (unused old hbefore).mono_right marks.le
  · rw [List.mem_singleton.mp hnow]
    exact marks.apart

/-- What is taken out of the free space was not given away before. -/
theorem Unused.apart (unused : Unused parts free) (htaken : part ≤ free) :
    ∀ old ∈ parts, Disjoint part old := by
  intro old hold
  exact ((unused old hold).mono_right htaken).symm

end FreeSpace
