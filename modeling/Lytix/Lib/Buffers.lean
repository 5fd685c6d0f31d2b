import Mathlib.Data.List.Basic
import Mathlib.Tactic

/-! Copies into a buffer, which fail where they would leave it. -/
namespace Buffers

variable {α : Type*}

/-- `memcpy(buf + offset, data, len)`. -/
def copyAt (buf : List α) (offset : ℕ) (data : List α) : Option (List α) :=
  if offset + data.length ≤ buf.length then
    some (buf.take offset ++ data ++ buf.drop (offset + data.length))
  else none

/-- `resize`, where new places hold a default value. -/
def resize (buf : List α) (n : ℕ) (a : α) : List α := buf.take n ++ List.replicate (n - buf.length) a

section
variable {buf data low mid high : List α} {offset n : ℕ} {a : α}

theorem copyAt_of_le (hle : offset + data.length ≤ buf.length) :
    ∃ buf', copyAt buf offset data = some buf' ∧ buf'.length = buf.length ∧
      buf'.take (offset + data.length) = buf.take offset ++ data := by
  unfold copyAt
  have hoffset : (buf.take offset).length = offset := by
    rw [List.length_take]
    omega
  refine ⟨_, if_pos hle, ?_, ?_⟩
  · simp only [List.length_append, List.length_drop, hoffset]
    omega
  · apply List.take_left'
    rw [List.length_append, hoffset]

/-- What stands before and behind the copy stays. -/
theorem copyAt_append (hoffset : low.length = offset) (hlength : mid.length = data.length) :
    copyAt (low ++ mid ++ high) offset data = some (low ++ data ++ high) := by
  have hle : offset + data.length ≤ (low ++ mid ++ high).length := by
    simp only [List.length_append]
    omega
  have hboth : (low ++ mid).length = offset + data.length := by
    rw [List.length_append, hoffset, hlength]
  unfold copyAt
  rw [if_pos hle, List.drop_left' hboth, List.append_assoc low mid, List.take_left' hoffset]

theorem length_resize : (resize buf n a).length = n := by
  unfold resize
  rw [List.length_append, List.length_take, List.length_replicate]
  omega

theorem take_resize {k : ℕ} (hk : k ≤ buf.length) (hn : k ≤ n) :
    (resize buf n a).take k = buf.take k := by
  unfold resize
  rw [List.take_append_of_le_length, List.take_take, min_eq_left hn]
  rw [List.length_take]
  exact le_min hn hk

end
end Buffers
