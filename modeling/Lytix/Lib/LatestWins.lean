import Mathlib.Data.List.Basic
import Mathlib.Data.List.MinMax
import Mathlib.Logic.Function.Basic
import Mathlib.Tactic

/-! Registers that keep one message each. A message takes the place of the stored one when it is at
least `gap` later. The order of delivery does not matter exactly when the latest of the messages
that can get in is that much later than each of the others. -/
namespace LatestWins

section register
variable {μ : Type*} (time : μ → ℤ) (gap : ℤ)

/-- The stored message, if any, is at least `gap` older. -/
def Admits (stored : Option μ) (m : μ) : Prop := ∀ old ∈ stored, time old + gap ≤ time m

instance (stored : Option μ) (m : μ) : Decidable (Admits time gap stored m) :=
  match stored with
  | none => .isTrue (by intro old h; contradiction)
  | some old => decidable_of_iff (time old + gap ≤ time m) (by simp [Admits])

def keep (stored : Option μ) (m : μ) : Option μ :=
  if Admits time gap stored m then some m else stored

def run (stored : Option μ) (msgs : List μ) : Option μ := msgs.foldl (keep time gap) stored

/-- The message is the latest that can get in, by `gap`. -/
def Leads (stored : Option μ) (msgs : List μ) (m : μ) : Prop :=
  m ∈ msgs ∧ Admits time gap stored m ∧
    ∀ b ∈ msgs, Admits time gap stored b → b = m ∨ time b + gap ≤ time m

/-- Nothing gets in, or some message leads. -/
def Settled (stored : Option μ) (msgs : List μ) : Prop :=
  (∀ m ∈ msgs, ¬ Admits time gap stored m) ∨ ∃ m, Leads time gap stored msgs m

variable {time gap} {stored : Option μ} {msgs msgs' : List μ} {a b m x : μ}

theorem admits_none : Admits time gap none m := by
  intro old h
  contradiction

@[simp] theorem admits_some : Admits time gap (some a) m ↔ time a + gap ≤ time m := by
  simp [Admits]

theorem keep_of_admits (h : Admits time gap stored m) : keep time gap stored m = some m := if_pos h

theorem keep_of_not_admits (h : ¬ Admits time gap stored m) : keep time gap stored m = stored :=
  if_neg h

@[simp] theorem run_nil : run time gap stored [] = stored := rfl

@[simp] theorem run_cons : run time gap stored (x :: msgs) =
    run time gap (keep time gap stored x) msgs := rfl

/-- What gets in over a message that got in would have got in before it. -/
theorem Admits.trans (hgap : 0 < gap) (ha : Admits time gap stored a)
    (hb : Admits time gap (some a) b) : Admits time gap stored b := by
  intro old hold
  have hold' := ha old hold
  have hab := admits_some.mp hb
  omega

theorem run_of_none_admits (h : ∀ m ∈ msgs, ¬ Admits time gap stored m) :
    run time gap stored msgs = stored := by
  induction msgs with
  | nil => rfl
  | cons x msgs ih =>
    rw [run_cons, keep_of_not_admits (h x (by simp))]
    apply ih
    intro m hm
    exact h m (by simp [hm])

/-- What is stored in the end is what was stored, or a message that comes `gap` later. -/
theorem run_some (hgap : 0 < gap) (h : run time gap (some b) msgs = some m) :
    m = b ∨ (m ∈ msgs ∧ time b + gap ≤ time m) := by
  induction msgs generalizing b with
  | nil =>
    rw [run_nil, Option.some.injEq] at h
    exact Or.inl h.symm
  | cons x msgs ih =>
    rw [run_cons] at h
    by_cases hx : Admits time gap (some b) x
    · rw [keep_of_admits hx] at h
      have hbx := admits_some.mp hx
      rcases ih h with rfl | ⟨hmem, hlater⟩
      · exact Or.inr ⟨List.mem_cons_self, hbx⟩
      · exact Or.inr ⟨List.mem_cons_of_mem x hmem, by omega⟩
    · rw [keep_of_not_admits hx] at h
      rcases ih h with hsame | ⟨hmem, hlater⟩
      · exact Or.inl hsame
      · exact Or.inr ⟨List.mem_cons_of_mem x hmem, hlater⟩

theorem run_some_isSome (msgs : List μ) : ∃ m, run time gap (some b) msgs = some m := by
  induction msgs generalizing b with
  | nil => exact ⟨b, rfl⟩
  | cons x msgs ih =>
    rw [run_cons]
    unfold keep
    split_ifs
    · exact ih
    · exact ih

/-- A leading message is what is stored in the end: before it comes, what gets in leaves room for
it; once it is stored, nothing gets in any more. -/
theorem run_eq_leader (hgap : 0 < gap)
    (hwhere : stored = some m ∨ (m ∈ msgs ∧ Admits time gap stored m))
    (hlead : ∀ b ∈ msgs, Admits time gap stored b → b = m ∨ time b + gap ≤ time m) :
    run time gap stored msgs = some m := by
  induction msgs generalizing stored with
  | nil =>
    rcases hwhere with hstored | ⟨hmem, -⟩
    · exact hstored
    · contradiction
  | cons x msgs ih =>
    rw [run_cons]
    by_cases hx : Admits time gap stored x
    · rw [keep_of_admits hx]
      apply ih
      · rcases hlead x List.mem_cons_self hx with rfl | hlater
        · exact Or.inl rfl
        · rcases hwhere with rfl | ⟨hmem, -⟩
          · have hback := admits_some.mp hx
            omega
          · have hne : m ≠ x := by
              rintro rfl
              omega
            exact Or.inr ⟨List.mem_of_ne_of_mem hne hmem, admits_some.mpr hlater⟩
      · intro b hb hadmits
        exact hlead b (List.mem_cons_of_mem x hb) (hx.trans hgap hadmits)
    · rw [keep_of_not_admits hx]
      apply ih
      · rcases hwhere with hstored | ⟨hmem, hadmits⟩
        · exact Or.inl hstored
        · have hne : m ≠ x := by
            rintro rfl
            exact hx hadmits
          exact Or.inr ⟨List.mem_of_ne_of_mem hne hmem, hadmits⟩
      · intro b hb hadmits
        exact hlead b (List.mem_cons_of_mem x hb) hadmits

theorem Leads.run_eq (hgap : 0 < gap) (h : Leads time gap stored msgs m) :
    run time gap stored msgs = some m :=
  run_eq_leader hgap (Or.inr ⟨h.1, h.2.1⟩) h.2.2

theorem Leads.perm (h : Leads time gap stored msgs m) (hperm : msgs'.Perm msgs) :
    Leads time gap stored msgs' m := by
  refine ⟨hperm.mem_iff.mpr h.1, h.2.1, ?_⟩
  intro b hb
  exact h.2.2 b (hperm.mem_iff.mp hb)

/-- The order of delivery does not matter exactly when the messages are settled. -/
theorem run_perm_iff (hgap : 0 < gap) :
    (∀ msgs', msgs'.Perm msgs → run time gap stored msgs' = run time gap stored msgs) ↔
      Settled time gap stored msgs := by
  constructor
  · intro hsame
    by_cases hnone : ∀ m ∈ msgs, ¬ Admits time gap stored m
    · exact Or.inl hnone
    right
    push Not at hnone
    -- any message that can get in may come first
    have hfirst : ∀ b ∈ msgs, Admits time gap stored b →
        ∃ rest, run time gap (some b) rest = run time gap stored msgs ∧ ∀ m ∈ rest, m ∈ msgs := by
      intro b hb hadmits
      obtain ⟨before, after, rfl⟩ := List.append_of_mem hb
      refine ⟨before ++ after, ?_, ?_⟩
      · have hrun := hsame (b :: (before ++ after)) List.perm_middle.symm
        rw [run_cons, keep_of_admits hadmits] at hrun
        exact hrun
      · intro m hm
        rcases List.mem_append.mp hm with hm | hm
        · exact List.mem_append_left _ hm
        · exact List.mem_append_right _ (List.mem_cons_of_mem b hm)
    obtain ⟨first, hmem, hadmits⟩ := hnone
    obtain ⟨rest, hrest, hsub⟩ := hfirst first hmem hadmits
    have hsome : ∃ m, run time gap (some first) rest = some m := run_some_isSome rest
    obtain ⟨m, hm⟩ := hsome
    rw [hm] at hrest
    refine ⟨m, ?_⟩
    have hmlive : m ∈ msgs ∧ Admits time gap stored m := by
      rcases run_some hgap hm with rfl | ⟨hin, hlater⟩
      · exact ⟨hmem, hadmits⟩
      · exact ⟨hsub m hin, hadmits.trans hgap (admits_some.mpr hlater)⟩
    refine ⟨hmlive.1, hmlive.2, ?_⟩
    intro b hb hbadmits
    obtain ⟨rest', hrest', -⟩ := hfirst b hb hbadmits
    rw [← hrest] at hrest'
    rcases run_some hgap hrest' with rfl | ⟨-, hlater⟩
    · exact Or.inl rfl
    · exact Or.inr hlater
  · intro hsettled msgs' hperm
    rcases hsettled with hnone | ⟨m, hlead⟩
    · have hnone' : ∀ m ∈ msgs', ¬ Admits time gap stored m := fun m hm =>
        hnone m (hperm.mem_iff.mp hm)
      rw [run_of_none_admits hnone, run_of_none_admits hnone']
    · rw [hlead.run_eq hgap, (hlead.perm hperm).run_eq hgap]

/-- Any later message gets in: they settle when one message only has the latest time. -/
theorem settled_one_iff : Settled time 1 stored msgs ↔
    ∀ m ∈ msgs, Admits time 1 stored m → (∀ b ∈ msgs, time b ≤ time m) →
      ∀ b ∈ msgs, time b = time m → b = m := by
  constructor
  · rintro (hnone | ⟨m, hmem, hadmits, hlead⟩) x hx hxadmits hmax b hb hsame
    · exact absurd hxadmits (hnone x hx)
    · have hle := hmax m hmem
      have hxm : x = m := by
        rcases hlead x hx hxadmits with heq | hless
        · exact heq
        · omega
      subst hxm
      have hbadmits : Admits time 1 stored b := by
        intro old hold
        have hold' := hadmits old hold
        omega
      rcases hlead b hb hbadmits with heq | hless
      · exact heq
      · omega
  · intro hunique
    by_cases hnone : ∀ m ∈ msgs, ¬ Admits time 1 stored m
    · exact Or.inl hnone
    · right
      push Not at hnone
      obtain ⟨a, ha, hadmits⟩ := hnone
      cases hm : List.argmax time msgs with
      | none =>
        rw [List.argmax_eq_none.mp hm] at ha
        contradiction
      | some m =>
        have hmem : m ∈ msgs := List.argmax_mem hm
        have hmax : ∀ b ∈ msgs, time b ≤ time m := fun b hb => List.le_of_mem_argmax hb hm
        have hmadmits : Admits time 1 stored m := by
          intro old hold
          have hold' := hadmits old hold
          have hle := hmax a ha
          omega
        refine ⟨m, hmem, hmadmits, ?_⟩
        intro b hb _
        by_cases hsame : time b = time m
        · exact Or.inl (hunique m hmem hmadmits hmax b hb hsame)
        · have hle := hmax b hb
          right
          omega

end register

/-! A table of registers, one for each key. -/
section table
variable {κ μ : Type*} [DecidableEq κ] (key : μ → κ) (time : μ → ℤ) (gap : ℤ)

def put (table : κ → Option μ) (m : μ) : κ → Option μ :=
  Function.update table (key m) (keep time gap (table (key m)) m)

def deliver (table : κ → Option μ) (msgs : List μ) : κ → Option μ :=
  msgs.foldl (put key time gap) table

variable {key time gap} {table : κ → Option μ} {msgs : List μ} {k : κ} {m : μ}

theorem put_apply : put key time gap table m k =
    if key m = k then keep time gap (table k) m else table k := by
  unfold put
  by_cases h : key m = k
  · subst h
    simp
  · rw [Function.update_of_ne (Ne.symm h), if_neg h]

/-- A register sees the messages of its key only. -/
theorem deliver_apply : deliver key time gap table msgs k =
    run time gap (table k) (msgs.filter fun m => key m = k) := by
  induction msgs generalizing table with
  | nil => rfl
  | cons x msgs ih =>
    show deliver key time gap (put key time gap table x) msgs k = _
    rw [ih, put_apply]
    by_cases h : key x = k
    · rw [if_pos h, List.filter_cons_of_pos (by simpa using h), run_cons]
    · rw [if_neg h, List.filter_cons_of_neg (by simpa using h)]

theorem deliver_perm_iff (hgap : 0 < gap) :
    (∀ msgs', msgs'.Perm msgs →
        deliver key time gap table msgs' = deliver key time gap table msgs) ↔
      ∀ k, Settled time gap (table k) (msgs.filter fun m => key m = k) := by
  constructor
  · intro hsame k
    apply (run_perm_iff hgap).mp
    intro own hown
    -- the messages of the key in the other order, then the rest
    have hperm : (own ++ msgs.filter fun m => !decide (key m = k)).Perm msgs :=
      (hown.append_right _).trans (List.filter_append_perm _ msgs)
    have hk := congrFun (hsame _ hperm) k
    rw [deliver_apply, deliver_apply, List.filter_append] at hk
    have hkeep : own.filter (fun m => key m = k) = own := by
      apply List.filter_eq_self.mpr
      intro m hm
      exact (List.mem_filter.mp (hown.mem_iff.mp hm)).2
    have hdrop : (msgs.filter fun m => !decide (key m = k)).filter (fun m => key m = k) = [] := by
      apply List.filter_eq_nil_iff.mpr
      intro m hm
      simpa using (List.mem_filter.mp hm).2
    rw [hkeep, hdrop, List.append_nil] at hk
    exact hk
  · intro hsettled msgs' hperm
    funext k
    rw [deliver_apply, deliver_apply]
    exact (run_perm_iff hgap).mpr (hsettled k) _ (hperm.filter _)

end table
end LatestWins
