import Mathlib.Data.List.Basic
import Mathlib.Tactic

/-! Fields written one after another with nothing in between. The text determines the fields only
together with the lengths they were written with. -/
namespace Fields

variable {α χ : Type*} (enc : α → List χ)

def encode (fields : List α) : List χ := fields.flatMap enc

variable {enc} {a b : α} {xs ys : List α}

@[simp] theorem encode_nil : encode enc ([] : List α) = [] := rfl

@[simp] theorem encode_cons : encode enc (a :: xs) = enc a ++ encode enc xs := List.flatMap_cons

theorem encode_inj_of_lengths (hinj : Function.Injective enc)
    (hlengths : xs.map (fun a => (enc a).length) = ys.map (fun a => (enc a).length))
    (heq : encode enc xs = encode enc ys) : xs = ys := by
  induction xs generalizing ys with
  | nil =>
    cases ys with
    | nil => rfl
    | cons b ys => contradiction
  | cons a xs ih =>
    cases ys with
    | nil => contradiction
    | cons b ys =>
      rw [List.map_cons, List.map_cons, List.cons.injEq] at hlengths
      rw [encode_cons, encode_cons] at heq
      obtain ⟨hhead, htail⟩ := List.append_inj heq hlengths.1
      rw [hinj hhead, ih hlengths.2 htail]

/-- With one text, the fields are the same exactly when their lengths are. -/
theorem eq_iff_lengths (hinj : Function.Injective enc) (heq : encode enc xs = encode enc ys) :
    xs = ys ↔ xs.map (fun a => (enc a).length) = ys.map (fun a => (enc a).length) := by
  constructor
  · intro h
    rw [h]
  · intro hlengths
    exact encode_inj_of_lengths hinj hlengths heq

/-! Texts that end at a separator, which they do not have inside. -/

section
variable {sep : χ}

theorem append_cons_inj {text text' rest rest' : List χ} (htext : sep ∉ text)
    (htext' : sep ∉ text') (heq : text ++ sep :: rest = text' ++ sep :: rest') :
    text = text' ∧ rest = rest' := by
  induction text generalizing text' with
  | nil =>
    cases text' with
    | nil => exact ⟨rfl, (List.cons.inj heq).2⟩
    | cons x text' =>
      have hfirst : sep = x := (List.cons.inj heq).1
      exact absurd (hfirst ▸ List.mem_cons_self) htext'
  | cons x text ih =>
    cases text' with
    | nil =>
      have hfirst : x = sep := (List.cons.inj heq).1
      exact absurd (hfirst ▸ List.mem_cons_self) htext
    | cons x' text' =>
      obtain ⟨hfirst, hrest⟩ := List.cons.inj heq
      obtain ⟨hsame, hafter⟩ := ih (fun hmem => htext (List.mem_cons_of_mem x hmem))
        (fun hmem => htext' (List.mem_cons_of_mem x' hmem)) hrest
      exact ⟨by rw [hfirst, hsame], hafter⟩

def separated (sep : χ) : List (List χ) → List χ
  | [] => []
  | [text] => text
  | text :: texts => text ++ sep :: separated sep texts

theorem separated_inj {texts texts' : List (List χ)} (hlength : texts.length = texts'.length)
    (hsep : ∀ text ∈ texts, sep ∉ text) (hsep' : ∀ text ∈ texts', sep ∉ text)
    (heq : separated sep texts = separated sep texts') : texts = texts' := by
  induction texts generalizing texts' with
  | nil => exact (List.length_eq_zero_iff.mp hlength.symm).symm
  | cons text texts ih =>
    obtain ⟨hfirst, hrest⟩ := List.forall_mem_cons.mp hsep
    match texts', hlength with
    | text' :: texts', hlength =>
      obtain ⟨hfirst', hrest'⟩ := List.forall_mem_cons.mp hsep'
      have hlength : texts.length = texts'.length := Nat.succ.inj hlength
      match texts, texts', hlength with
      | [], [], _ => exact congrArg (fun text => [text]) heq
      | next :: texts, next' :: texts', hlength =>
        obtain ⟨hsame, hafter⟩ := append_cons_inj hfirst hfirst' heq
        rw [hsame, ih hlength hrest hrest' hafter]

theorem mem_separated {texts : List (List χ)} {x : χ} (hx : x ∈ separated sep texts) :
    x = sep ∨ ∃ text ∈ texts, x ∈ text := by
  induction texts with
  | nil => contradiction
  | cons text texts ih =>
    match texts with
    | [] => exact Or.inr ⟨text, List.mem_singleton_self text, hx⟩
    | next :: texts =>
      rcases List.mem_append.mp hx with hfirst | hrest
      · exact Or.inr ⟨text, List.mem_cons_self, hfirst⟩
      rcases List.mem_cons.mp hrest with hsep | hafter
      · exact Or.inl hsep
      rcases ih hafter with hsep | ⟨later, hlater, hmem⟩
      · exact Or.inl hsep
      · exact Or.inr ⟨later, List.mem_cons_of_mem text hlater, hmem⟩

end

/-! Numbers in the digits of a base. -/

theorem digitChar_inj {i j : ℕ} (hi : i < 16) (hj : j < 16) (h : i.digitChar = j.digitChar) :
    i = j := by
  have hall : ∀ i j : Fin 16, i.val.digitChar = j.val.digitChar → i = j := by decide
  exact congrArg Fin.val (hall ⟨i, hi⟩ ⟨j, hj⟩ h)

theorem toDigits_inj {base m n : ℕ} (hbase : 1 < base) (hmost : base ≤ 16)
    (h : Nat.toDigits base m = Nat.toDigits base n) : m = n := by
  induction m using Nat.strong_induction_on generalizing n with
  | _ m ih =>
    have hnonempty : ∀ k, 0 < (Nat.toDigits base k).length := fun k => Nat.length_toDigits_pos
    have hlength := congrArg List.length h
    rw [Nat.toDigits_eq_if (n := m) hbase, Nat.toDigits_eq_if (n := n) hbase] at h hlength
    split_ifs at h hlength with hm hn hn
    · exact digitChar_inj (by omega) (by omega) (List.cons.inj h).1
    · have hpos := hnonempty (n / base)
      simp only [List.length_append, List.length_singleton] at hlength
      omega
    · have hpos := hnonempty (m / base)
      simp only [List.length_append, List.length_singleton] at hlength
      omega
    · have hmod : m % base < base := Nat.mod_lt m (by omega)
      have hmod' : n % base < base := Nat.mod_lt n (by omega)
      obtain ⟨hhigh, hlow⟩ := List.append_inj' h rfl
      have hdiv := ih (m / base) (Nat.div_lt_self (by omega) hbase) hhigh
      have hrem := digitChar_inj (by omega) (by omega) (List.cons.inj hlow).1
      calc m = base * (m / base) + m % base := (Nat.div_add_mod m base).symm
        _ = base * (n / base) + n % base := by rw [hdiv, hrem]
        _ = n := Nat.div_add_mod n base

theorem exists_of_mem_toDigits {base n : ℕ} {x : Char} (hbase : 1 < base)
    (h : x ∈ Nat.toDigits base n) : ∃ d < base, x = d.digitChar := by
  induction n using Nat.strong_induction_on with
  | _ n ih =>
    rw [Nat.toDigits_eq_if hbase] at h
    split_ifs at h with hn
    · exact ⟨n, hn, List.mem_singleton.mp h⟩
    · rcases List.mem_append.mp h with hhigh | hlow
      · exact ih (n / base) (Nat.div_lt_self (by omega) hbase) hhigh
      · exact ⟨n % base, Nat.mod_lt n (by omega), List.mem_singleton.mp hlow⟩

/-! Integers in decimal. -/

theorem toDigits_injective : Function.Injective (Nat.toDigits 10) := by
  intro m n h
  have hvalue := congrArg (fun digits => Nat.ofDigitChars 10 digits 0) h
  simpa only [Nat.ofDigitChars_ten_toDigits] using hvalue

/-- No decimal number starts with a minus sign. -/
theorem minus_not_mem_toDigits {n : ℕ} : '-' ∉ Nat.toDigits 10 n := by
  intro hmem
  have hdigit := Nat.isDigit_of_mem_toDigits (by decide) (by decide) hmem
  exact absurd hdigit (by decide)

theorem toList_repr_ofNat (n : ℕ) : (Int.repr (Int.ofNat n)).toList = Nat.toDigits 10 n :=
  Nat.toList_repr

theorem toList_repr_negSucc (n : ℕ) :
    (Int.repr (Int.negSucc n)).toList = '-' :: Nat.toDigits 10 (n + 1) := by
  show ("-" ++ Nat.repr (n + 1)).toList = _
  rw [String.toList_append, Nat.toList_repr]
  rfl

theorem toList_repr_injective : Function.Injective fun z : ℤ => z.repr.toList := by
  intro a b h
  dsimp only at h
  cases a with
  | ofNat m =>
    cases b with
    | ofNat n =>
      rw [toList_repr_ofNat, toList_repr_ofNat] at h
      rw [toDigits_injective h]
    | negSucc n =>
      rw [toList_repr_ofNat, toList_repr_negSucc] at h
      have hmem : '-' ∈ Nat.toDigits 10 m := by
        rw [h]
        exact List.mem_cons_self
      exact absurd hmem minus_not_mem_toDigits
  | negSucc m =>
    cases b with
    | ofNat n =>
      rw [toList_repr_ofNat, toList_repr_negSucc] at h
      have hmem : '-' ∈ Nat.toDigits 10 n := by
        rw [← h]
        exact List.mem_cons_self
      exact absurd hmem minus_not_mem_toDigits
    | negSucc n =>
      rw [toList_repr_negSucc, toList_repr_negSucc, List.cons.injEq] at h
      have hsucc := toDigits_injective h.2
      rw [Nat.succ.inj hsucc]

theorem length_toList_repr_le {z : ℤ} {k : ℕ} (hk : 0 < k) (h : z.natAbs < 10 ^ k) :
    z.repr.toList.length ≤ k + 1 := by
  cases z with
  | ofNat n =>
    rw [toList_repr_ofNat]
    exact Nat.le_succ_of_le ((Nat.length_toDigits_le_iff (by decide) hk).mpr h)
  | negSucc n =>
    rw [toList_repr_negSucc, List.length_cons]
    exact Nat.succ_le_succ ((Nat.length_toDigits_le_iff (by decide) hk).mpr h)

end Fields
