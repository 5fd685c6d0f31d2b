import Mathlib.Data.List.AList
import Mathlib.Tactic

/-! Write-back caching, one slot at a time. A cache holds for some keys a value with two flags:
`dirty` (the value may differ from what lies below) and `fresh` (nothing can be seen below).
`obs` says what a reader sees of a stored value; a value it maps to `none` reads as absent. -/
namespace WriteBack

structure Entry (V : Type*) where
  val : V
  dirty : Bool
  fresh : Bool

variable {V W : Type*} (obs : V → Option W)

/-- What is seen through a slot: the cached value if there is one, else what lies below. -/
def seen (below : Option W) : Option (Entry V) → Option W
  | some e => obs e.val
  | none => below

/-- A clean value repeats what lies below, and below a fresh one nothing is seen. -/
structure Coherent (below : Option W) (e : Entry V) : Prop where
  clean : e.dirty = false → obs e.val = below
  fresh : e.fresh = true → below = none

/-- Filling a slot on a read. -/
def fetch (v : V) : Entry V := ⟨v, false, (obs v).isNone⟩

/-- Overwriting a slot: a fresh slot whose value becomes invisible is dropped. -/
def store (e : Entry V) (v : V) : Option (Entry V) :=
  if e.fresh && (obs v).isNone then none else some ⟨v, true, e.fresh⟩

/-- Writing a child's entry back into the slot of its parent. -/
def merge (parent : Option (Entry V)) (child : Entry V) : Option (Entry V) :=
  if child.dirty then
    match parent with
    | none => if (obs child.val).isNone then none else some ⟨child.val, true, true⟩
    | some e => store obs e child.val
  else parent

/-- The write back needs no answer from below the parent: an entry the parent lacks is fresh
unless there is nothing to write. -/
def Writable (parent : Option (Entry V)) (child : Entry V) : Prop :=
  child.dirty = true → parent = none → (obs child.val).isNone = false → child.fresh = true

variable {obs} {below : Option W}

theorem fetch_coherent {v : V} (h : obs v = below) : Coherent obs below (fetch obs v) where
  clean _ := h
  fresh hf := by
    rw [← h]
    exact Option.isNone_iff_eq_none.mp hf

theorem store_coherent {e e' : Entry V} {v : V} (he : Coherent obs below e)
    (h : store obs e v = some e') : Coherent obs below e' := by
  unfold store at h
  split_ifs at h
  obtain rfl := Option.some.inj h
  exact ⟨fun hd => absurd hd (by simp), he.fresh⟩

theorem seen_store {e : Entry V} {v : V} (he : Coherent obs below e) :
    seen obs below (store obs e v) = obs v := by
  unfold store
  split_ifs with h
  · obtain ⟨hf, hv⟩ := Bool.and_eq_true_iff.mp h
    rw [Option.isNone_iff_eq_none.mp hv]
    exact he.fresh hf
  · rfl

section merge
variable {parent : Option (Entry V)} {child : Entry V}

theorem writable_of_held (hheld : child.fresh = false → parent.isSome) :
    Writable obs parent child := by
  intro _ hnone _
  by_contra hfresh
  have hsome := hheld (by simpa using hfresh)
  simp [hnone] at hsome

/-- After the write back the parent shows what the child showed. -/
theorem seen_merge (hp : ∀ e ∈ parent, Coherent obs below e)
    (hc : Coherent obs (seen obs below parent) child)
    (hheld : child.fresh = false → parent.isSome) :
    seen obs below (merge obs parent child) = obs child.val := by
  cases hd : child.dirty with
  | false =>
    simp only [merge, hd, Bool.false_eq_true, if_false]
    exact (hc.clean hd).symm
  | true =>
    cases parent with
    | some e =>
      simp only [merge, hd, if_true]
      exact seen_store (hp e rfl)
    | none =>
      have hfresh : child.fresh = true := by
        by_contra hf
        simpa using hheld (by simpa using hf)
      have hbelow : below = none := hc.fresh hfresh
      simp only [merge, hd, if_true]
      split_ifs with hv
      · rw [Option.isNone_iff_eq_none.mp hv]
        exact hbelow
      · rfl

theorem merge_coherent {e' : Entry V} (hp : ∀ e ∈ parent, Coherent obs below e)
    (hc : Coherent obs (seen obs below parent) child)
    (hheld : child.fresh = false → parent.isSome)
    (h : merge obs parent child = some e') : Coherent obs below e' := by
  cases hd : child.dirty with
  | false =>
    simp only [merge, hd, Bool.false_eq_true, if_false] at h
    exact hp e' h
  | true =>
    cases parent with
    | some e =>
      simp only [merge, hd, if_true] at h
      exact store_coherent (hp e rfl) h
    | none =>
      have hfresh : child.fresh = true := by
        by_contra hf
        simpa using hheld (by simpa using hf)
      simp only [merge, hd, if_true] at h
      split_ifs at h
      obtain rfl := Option.some.inj h
      exact ⟨fun hd' => absurd hd' (by simp), fun _ => hc.fresh hfresh⟩

/-- A merged entry has a value of the child or the parent, and is never less fresh than the
entry it replaces. -/
theorem of_merge_eq_some {e' : Entry V} (h : merge obs parent child = some e') :
    (e'.val = child.val ∨ parent = some e') ∧
      (e'.fresh = false → ∃ e, parent = some e ∧ e.fresh = false) := by
  cases hd : child.dirty with
  | false =>
    simp only [merge, hd, Bool.false_eq_true, if_false] at h
    exact ⟨Or.inr h, fun hf => ⟨e', h, hf⟩⟩
  | true =>
    cases parent with
    | none =>
      simp only [merge, hd, if_true] at h
      split_ifs at h
      obtain rfl := Option.some.inj h
      exact ⟨Or.inl rfl, fun hf => absurd hf (by simp)⟩
    | some e =>
      simp only [merge, hd, if_true, store] at h
      split_ifs at h
      obtain rfl := Option.some.inj h
      exact ⟨Or.inl rfl, fun hf => ⟨e, rfl, hf⟩⟩

end merge
end WriteBack

/-! A loop over the entries of a map in which the round for a key reads and writes that key
only: the order of the rounds does not matter, and each key ends as its own round leaves it. -/
namespace KeyedLoop

variable {M K E F : Type*} [DecidableEq K]

theorem exists_foldlM (get : M → K → Option F) (step : M → (Σ _ : K, E) → Option M)
    (ok : Option F → E → Prop) (upd : Option F → E → Option F)
    (hstep : ∀ m k e, ok (get m k) e → ∃ m', step m ⟨k, e⟩ = some m' ∧
      get m' k = upd (get m k) e ∧ ∀ k' ≠ k, get m' k' = get m k')
    (entries : List (Σ _ : K, E)) (hkeys : entries.NodupKeys) (m : M)
    (hok : ∀ k e, ⟨k, e⟩ ∈ entries → ok (get m k) e) :
    ∃ m', entries.foldlM step m = some m' ∧
      ∀ k, get m' k = ((entries.dlookup k).map (upd (get m k))).getD (get m k) := by
  induction entries generalizing m with
  | nil => exact ⟨m, rfl, fun k => by simp⟩
  | cons s rest ih =>
    obtain ⟨k₀, e₀⟩ := s
    obtain ⟨hnew, hrest⟩ := List.nodupKeys_cons.mp hkeys
    obtain ⟨m₁, hm₁, hself, hother⟩ := hstep m k₀ e₀ (hok k₀ e₀ (by simp))
    have hne : ∀ k e, (⟨k, e⟩ : Σ _ : K, E) ∈ rest → k ≠ k₀ := by
      rintro k e hmem rfl
      have hin : k ∈ rest.keys := List.mem_keys_of_mem hmem
      exact hnew hin
    obtain ⟨m', hm', hget⟩ := ih hrest m₁ (by
      intro k e hmem
      rw [hother k (hne k e hmem)]
      exact hok k e (by simp [hmem]))
    refine ⟨m', by simp [List.foldlM_cons, hm₁, hm'], fun k => ?_⟩
    rw [hget k]
    by_cases hk : k = k₀
    · subst hk
      rw [List.dlookup_eq_none.mpr hnew, List.dlookup_cons_eq]
      simpa using hself
    · rw [List.dlookup_cons_ne _ _ hk, hother k hk]

theorem get_foldl (get : M → K → F) (step : M → (Σ _ : K, E) → M) (upd : F → E → F)
    (hself : ∀ m k e, get (step m ⟨k, e⟩) k = upd (get m k) e)
    (hother : ∀ m k e k', k' ≠ k → get (step m ⟨k, e⟩) k' = get m k')
    (entries : List (Σ _ : K, E)) (hkeys : entries.NodupKeys) (m : M) (k : K) :
    get (entries.foldl step m) k =
      ((entries.dlookup k).map (upd (get m k))).getD (get m k) := by
  induction entries generalizing m with
  | nil => simp
  | cons s rest ih =>
    obtain ⟨k₀, e₀⟩ := s
    obtain ⟨hnew, hrest⟩ := List.nodupKeys_cons.mp hkeys
    rw [List.foldl_cons, ih hrest]
    by_cases hk : k = k₀
    · subst hk
      rw [List.dlookup_eq_none.mpr hnew, List.dlookup_cons_eq]
      simpa using hself m k e₀
    · rw [List.dlookup_cons_ne _ _ hk, hother m k₀ e₀ k hk]

end KeyedLoop
