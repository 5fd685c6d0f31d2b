import Mathlib.Data.List.Basic
import Mathlib.Tactic

/-! Readers of a stream of symbols, and what they read back of what was written. -/
namespace Readers

abbrev Reader (β α : Type) := StateT (List β) Option α

variable {α α' β : Type}

/-- Whatever follows, the reader takes `written` and gives `a`. -/
def Reads (reader : Reader β α) (written : List β) (a : α) : Prop :=
  ∀ rest, reader.run (written ++ rest) = some (a, rest)

/-- Read one symbol. -/
def next : Reader β β := fun symbols =>
  match symbols with
  | [] => none
  | symbol :: rest => some (symbol, rest)

/-- Read a number of symbols. -/
def exactly (n : ℕ) : Reader β (List β) := fun symbols =>
  if symbols.length < n then none else some (symbols.take n, symbols.drop n)

/-- Read a number of items, one after the other. -/
def many (reader : Reader β α) : ℕ → Reader β (List α)
  | 0 => pure []
  | n + 1 => do
    let a ← reader
    let items ← many reader n
    pure (a :: items)

/-- Read what is present; otherwise the value is known. -/
def ifPresent (present : Bool) (reader : Reader β α) (value : α) : Reader β α :=
  if present then reader else pure value

/-- Whatever follows, the reader refuses `written`. -/
def Refuses (reader : Reader β α) (written : List β) : Prop :=
  ∀ rest, reader.run (written ++ rest) = none

section
variable {reader : Reader β α} {written written' : List β} {a : α} {a' : α'}

theorem Reads.pure (a : α) : Reads (pure a : Reader β α) [] a := fun _ => rfl

theorem Reads.bind {f : α → Reader β α'} (h : Reads reader written a)
    (h' : Reads (f a) written' a') : Reads (reader >>= f) (written ++ written') a' := by
  intro rest
  rw [StateT.run_bind, List.append_assoc, h (written' ++ rest)]
  exact h' rest

/-- What is read behind a part that is read is read by the rest. -/
theorem Reads.bind_iff {f : α → Reader β α'} (h : Reads reader written a) :
    Reads (reader >>= f) (written ++ written') a' ↔ Reads (f a) written' a' := by
  constructor
  · intro hall rest
    have hrun := hall rest
    rw [StateT.run_bind, List.append_assoc, h (written' ++ rest)] at hrun
    exact hrun
  · exact h.bind

theorem Reads.bind_nil {f : α → Reader β α'} (h : Reads reader written a)
    (h' : Reads (f a) [] a') : Reads (reader >>= f) written a' := by
  have hbind := h.bind h'
  rw [List.append_nil] at hbind
  exact hbind

theorem reads_next (symbol : β) : Reads next [symbol] symbol := fun _ => rfl

theorem reads_exactly (written : List β) : Reads (exactly written.length) written written := by
  intro rest
  have hlength : ¬ (written ++ rest).length < written.length := by
    rw [List.length_append]
    omega
  change (if _ then none else _) = _
  rw [if_neg hlength, List.take_left, List.drop_left]

/-- A reader of a number of symbols gives that many, the first ones of what is there. -/
theorem Reads.of_exactly {n : ℕ} {f : List β → Reader β α}
    (h : Reads (exactly n >>= f) written a) :
    n ≤ written.length ∧ (f (written.take n)).run (written.drop n) = some (a, []) := by
  have hrun := h []
  rw [List.append_nil, StateT.run_bind] at hrun
  by_cases hshort : written.length < n
  · have hnone : (exactly n).run written = none := if_pos hshort
    rw [hnone] at hrun
    contradiction
  · have hsome : (exactly n).run written = some (written.take n, written.drop n) := if_neg hshort
    rw [hsome] at hrun
    exact ⟨not_lt.mp hshort, hrun⟩

theorem Reads.map (f : α → α') (h : Reads reader written a) :
    Reads (f <$> reader) written (f a) := by
  intro rest
  rw [StateT.run_map, h rest]
  rfl

theorem reads_many {write : α → List β} (h : ∀ a, Reads reader (write a) a) (items : List α) :
    Reads (many reader items.length) (items.flatMap write) items := by
  induction items with
  | nil => exact Reads.pure []
  | cons a items ih =>
    apply (h a).bind
    exact ih.bind_nil (Reads.pure _)

theorem Reads.ifPresent (h : Reads reader written a) (present : Bool) (value : α) :
    Reads (ifPresent present reader value) (if present then written else [])
      (if present then a else value) := by
  unfold Readers.ifPresent
  cases present with
  | true => exact h
  | false => exact Reads.pure value

/-- What is refused after something was read is refused with it. -/
theorem Reads.refuses_bind {f : α → Reader β α'} (h : Reads reader written a)
    (h' : Refuses (f a) written') : Refuses (reader >>= f) (written ++ written') := by
  intro rest
  rw [StateT.run_bind, List.append_assoc, h (written' ++ rest)]
  exact h' rest

/-- A reader refuses what its first part refuses. -/
theorem Refuses.bind (h : Refuses reader written) (f : α → Reader β α') (written' : List β) :
    Refuses (reader >>= f) (written ++ written') := by
  intro rest
  rw [StateT.run_bind, List.append_assoc, h (written' ++ rest)]
  rfl

theorem Reads.not_refuses (h : Reads reader written a) : ¬ Refuses reader written := by
  intro hrefuses
  have heq := (h []).symm.trans (hrefuses [])
  contradiction

/-- What is read back is unique. -/
theorem Reads.unique {b : α} (h : Reads reader written a) (h' : Reads reader written b) :
    a = b := by
  have heq := (h []).symm.trans (h' [])
  exact (Prod.mk.inj (Option.some.inj heq)).1

end
end Readers
