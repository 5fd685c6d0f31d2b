import Lytix.Lib.Fields

/-! Network addresses and their texts. -/
namespace Lytix
open Fields

def pchIPv4 : List UInt8 := [0, 0, 0, 0, 0, 0, 0, 0, 0, 0, 0xff, 0xff]
def pchOnionCat : List UInt8 := [0xFD, 0x87, 0xD8, 0x7E, 0xEB, 0x43]

structure CNetAddr where
  ip : List UInt8
  length_ip : ip.length = 16
deriving DecidableEq

def base32Char (i : Nat) : Char := ("abcdefghijklmnopqrstuvwxyz234567".toList[i]?).getD '='

/-- The loop of `EncodeBase32` in one of its five modes, and the padding after it. -/
def encodeBase32 : Nat → Nat → List UInt8 → List Char
  | 0, _, enc :: rest =>
    base32Char (enc.toNat >>> 3) :: encodeBase32 1 ((enc.toNat &&& 7) <<< 2) rest
  | 1, left, enc :: rest =>
    base32Char (left ||| enc.toNat >>> 6) :: base32Char (enc.toNat >>> 1 &&& 31) ::
      encodeBase32 2 ((enc.toNat &&& 1) <<< 4) rest
  | 2, left, enc :: rest =>
    base32Char (left ||| enc.toNat >>> 4) :: encodeBase32 3 ((enc.toNat &&& 15) <<< 1) rest
  | 3, left, enc :: rest =>
    base32Char (left ||| enc.toNat >>> 7) :: base32Char (enc.toNat >>> 2 &&& 31) ::
      encodeBase32 4 ((enc.toNat &&& 3) <<< 3) rest
  | _, left, enc :: rest =>
    base32Char (left ||| enc.toNat >>> 5) :: base32Char (enc.toNat &&& 31) ::
      encodeBase32 0 left rest
  | 0, _, [] => []
  | mode, left, [] => base32Char left :: List.replicate ([0, 6, 4, 3, 1].getD mode 0) '='

namespace CNetAddr

def isIPv4 (addr : CNetAddr) : Bool := addr.ip.take 12 == pchIPv4

def isTor (addr : CNetAddr) : Bool := addr.ip.take 6 == pchOnionCat

def getByte (addr : CNetAddr) (n : Nat) : UInt8 := addr.ip.getD (15 - n) 0

/-- The text that `ToStringIP` makes where `getnameinfo` fails. -/
def numericText (addr : CNetAddr) : List Char :=
  if addr.isIPv4 then
    separated '.' ([3, 2, 1, 0].map fun n => Nat.toDigits 10 (addr.getByte n).toNat)
  else
    separated ':' ([15, 13, 11, 9, 7, 5, 3, 1].map fun n =>
      Nat.toDigits 16 ((addr.getByte n).toNat <<< 8 ||| (addr.getByte (n - 1)).toNat))

end CNetAddr

/-- `getnameinfo` with `NI_NUMERICHOST`. Its text says which address of a kind it is, and has the
digits of an IPv4 address between dots, or no bracket. -/
structure NumericHost where
  getnameinfo : CNetAddr → Option (List Char)
  faithful : ∀ addr addr' text, addr.isIPv4 = addr'.isIPv4 → getnameinfo addr = some text →
    getnameinfo addr' = some text ∨ addr'.numericText = text → addr = addr'
  dotted : ∀ addr text, addr.isIPv4 = true → getnameinfo addr = some text →
    ∀ x ∈ text, x.isDigit = true ∨ x = '.'
  unbracketed : ∀ addr text, addr.isIPv4 = false → getnameinfo addr = some text → ']' ∉ text

def CNetAddr.toStringIP (host : NumericHost) (addr : CNetAddr) : List Char :=
  if addr.isTor then encodeBase32 0 0 (addr.ip.drop 6) ++ ".onion".toList
  else (host.getnameinfo addr).getD addr.numericText

structure CService extends CNetAddr where
  port : UInt16
deriving DecidableEq

namespace CService

def toStringPort (addr : CService) : List Char := Nat.toDigits 10 addr.port.toNat

def toString (host : NumericHost) (addr : CService) : List Char :=
  if addr.isIPv4 || addr.isTor then addr.toStringIP host ++ ':' :: addr.toStringPort
  else '[' :: addr.toStringIP host ++ ']' :: ':' :: addr.toStringPort

end CService

theorem base32Char_inj {i j : ℕ} (hi : i < 32) (hj : j < 32) (h : base32Char i = base32Char j) :
    i = j := by
  have hall : ∀ i j : Fin 32, base32Char i = base32Char j → i = j := by decide
  exact congrArg Fin.val (hall ⟨i, hi⟩ ⟨j, hj⟩ h)

/-- The eight digits of five bytes. -/
def base32Digits (a b c d e : ℕ) : List ℕ :=
  [a / 8, a % 8 * 4 + b / 64, b / 2 % 32, b % 2 * 16 + c / 16, c % 16 * 2 + d / 128, d / 4 % 32,
    d % 4 * 8 + e / 32, e % 32]

theorem encodeBase32_block (left : ℕ) (a b c d e : UInt8) (rest : List UInt8) :
    ∃ left', encodeBase32 0 left (a :: b :: c :: d :: e :: rest) =
      (base32Digits a.toNat b.toNat c.toNat d.toNat e.toNat).map base32Char ++
        encodeBase32 0 left' rest := by
  have hor : ∀ i n m : ℕ, m < 2 ^ i → n <<< i ||| m = n * 2 ^ i + m := by
    intro i n m hm
    rw [Nat.shiftLeft_eq, Nat.mul_comm, ← Nat.two_pow_add_eq_or_of_lt hm]
  have hone : ∀ n : ℕ, n &&& 1 = n % 2 := fun n => Nat.and_two_pow_sub_one_eq_mod n 1
  have htwo : ∀ n : ℕ, n &&& 3 = n % 4 := fun n => Nat.and_two_pow_sub_one_eq_mod n 2
  have hthree : ∀ n : ℕ, n &&& 7 = n % 8 := fun n => Nat.and_two_pow_sub_one_eq_mod n 3
  have hfour : ∀ n : ℕ, n &&& 15 = n % 16 := fun n => Nat.and_two_pow_sub_one_eq_mod n 4
  have hfive : ∀ n : ℕ, n &&& 31 = n % 32 := fun n => Nat.and_two_pow_sub_one_eq_mod n 5
  have ha := a.toNat_lt
  have hb := b.toNat_lt
  have hc := c.toNat_lt
  have hd := d.toNat_lt
  have he := e.toNat_lt
  refine ⟨(d.toNat &&& 3) <<< 3, ?_⟩
  simp only [encodeBase32, Nat.shiftRight_eq_div_pow]
  rw [hor 2 _ _ (by omega), hor 4 _ _ (by omega), hor 1 _ _ (by omega), hor 3 _ _ (by omega)]
  simp only [hone, htwo, hthree, hfour, hfive]
  rfl

theorem encodeBase32_inj {k left left' : ℕ} {xs ys : List UInt8} (hx : xs.length = 5 * k)
    (hy : ys.length = 5 * k) (h : encodeBase32 0 left xs = encodeBase32 0 left' ys) : xs = ys := by
  induction k generalizing xs ys left left' with
  | zero => rw [List.length_eq_zero_iff.mp hx, List.length_eq_zero_iff.mp hy]
  | succ k ih =>
    match xs, ys, hx, hy with
    | a :: b :: c :: d :: e :: xs, a' :: b' :: c' :: d' :: e' :: ys, hx, hy =>
      obtain ⟨next, hblock⟩ := encodeBase32_block left a b c d e xs
      obtain ⟨next', hblock'⟩ := encodeBase32_block left' a' b' c' d' e' ys
      rw [hblock, hblock'] at h
      obtain ⟨hdigits, hrest⟩ := List.append_inj h (by simp [base32Digits])
      have hxs := ih (by simpa [Nat.mul_succ] using hx) (by simpa [Nat.mul_succ] using hy) hrest
      have hsame : a = a' ∧ b = b' ∧ c = c' ∧ d = d' ∧ e = e' := by
        have ha := a.toNat_lt
        have hb := b.toNat_lt
        have hc := c.toNat_lt
        have hd := d.toNat_lt
        have he := e.toNat_lt
        have ha' := a'.toNat_lt
        have hb' := b'.toNat_lt
        have hc' := c'.toNat_lt
        have hd' := d'.toNat_lt
        have he' := e'.toNat_lt
        simp only [base32Digits, List.map_cons, List.map_nil, List.cons.injEq, and_true] at hdigits
        obtain ⟨h1, h2, h3, h4, h5, h6, h7, h8⟩ := hdigits
        have h1 := base32Char_inj (by omega) (by omega) h1
        have h2 := base32Char_inj (by omega) (by omega) h2
        have h3 := base32Char_inj (by omega) (by omega) h3
        have h4 := base32Char_inj (by omega) (by omega) h4
        have h5 := base32Char_inj (by omega) (by omega) h5
        have h6 := base32Char_inj (by omega) (by omega) h6
        have h7 := base32Char_inj (by omega) (by omega) h7
        have h8 := base32Char_inj (by omega) (by omega) h8
        simp only [← UInt8.toNat_inj]
        omega
      obtain ⟨rfl, rfl, rfl, rfl, rfl⟩ := hsame
      rw [hxs]
theorem base32Char_ne (i : ℕ) : base32Char i ≠ ':' ∧ base32Char i ≠ '[' := by
  by_cases hi : i < 32
  · have hall : ∀ i : Fin 32, base32Char i ≠ ':' ∧ base32Char i ≠ '[' := by decide
    exact hall ⟨i, hi⟩
  · have hnone : "abcdefghijklmnopqrstuvwxyz234567".toList[i]? = none :=
      List.getElem?_eq_none (Nat.not_lt.mp hi)
    unfold base32Char
    rw [hnone]
    decide

theorem exists_of_mem_encodeBase32 {mode left : ℕ} {xs : List UInt8} {x : Char}
    (h : x ∈ encodeBase32 mode left xs) : ∃ i, x = base32Char i := by
  fun_induction encodeBase32 mode left xs with
  | case1 left enc rest ih =>
    rcases List.mem_cons.mp h with hfirst | hrest
    · exact ⟨_, hfirst⟩
    · exact ih hrest
  | case2 left enc rest ih =>
    rcases List.mem_cons.mp h with hfirst | h
    · exact ⟨_, hfirst⟩
    rcases List.mem_cons.mp h with hsecond | hrest
    · exact ⟨_, hsecond⟩
    · exact ih hrest
  | case3 left enc rest ih =>
    rcases List.mem_cons.mp h with hfirst | hrest
    · exact ⟨_, hfirst⟩
    · exact ih hrest
  | case4 left enc rest ih =>
    rcases List.mem_cons.mp h with hfirst | h
    · exact ⟨_, hfirst⟩
    rcases List.mem_cons.mp h with hsecond | hrest
    · exact ⟨_, hsecond⟩
    · exact ih hrest
  | case5 mode left enc rest _ _ _ _ ih =>
    rcases List.mem_cons.mp h with hfirst | h
    · exact ⟨_, hfirst⟩
    rcases List.mem_cons.mp h with hsecond | hrest
    · exact ⟨_, hsecond⟩
    · exact ih hrest
  | case6 => contradiction
  | case7 mode left =>
    rcases List.mem_cons.mp h with hfirst | hpadding
    · exact ⟨_, hfirst⟩
    · exact ⟨32, List.eq_of_mem_replicate hpadding⟩

namespace CNetAddr

variable {addr addr' : CNetAddr} {host : NumericHost}

theorem ext_getByte (h : ∀ n < 16, addr.getByte n = addr'.getByte n) : addr = addr' := by
  have hip : addr.ip = addr'.ip := by
    apply List.ext_getElem (by rw [addr.length_ip, addr'.length_ip])
    intro i hi hi'
    have hlength := addr.length_ip
    have hbyte := h (15 - i) (by omega)
    unfold getByte at hbyte
    rw [show 15 - (15 - i) = i by omega] at hbyte
    simpa [List.getD_eq_getElem?_getD, hi, hi'] using hbyte
  obtain ⟨ip, length_ip⟩ := addr
  obtain ⟨ip', length_ip'⟩ := addr'
  simpa using hip

theorem getByte_congr_of_take {k n : ℕ} (h : addr.ip.take k = addr'.ip.take k) (hn : 15 - n < k) :
    addr.getByte n = addr'.getByte n := by
  have hbyte := congrArg (fun bytes => bytes.getD (15 - n) 0) h
  simpa [getByte, List.getD_eq_getElem?_getD, List.getElem?_take, hn] using hbyte

theorem shiftLeft_or_byte (high low : UInt8) :
    high.toNat <<< 8 ||| low.toNat = 256 * high.toNat + low.toNat := by
  have hlow : low.toNat < 2 ^ 8 := low.toNat_lt
  rw [Nat.shiftLeft_eq, Nat.mul_comm, ← Nat.two_pow_add_eq_or_of_lt hlow]

/-- Of one kind, the text that is made byte by byte says which address it is. -/
theorem numericText_inj (hkind : addr.isIPv4 = addr'.isIPv4)
    (h : addr.numericText = addr'.numericText) : addr = addr' := by
  apply ext_getByte
  unfold numericText at h
  rw [← hkind] at h
  have hdigit : ∀ base n x, 1 < base → x ∈ Nat.toDigits base n →
      base ≤ 16 → x ≠ '.' ∧ x ≠ ':' := by
    intro base n x hbase hx hmost
    obtain ⟨d, hd, rfl⟩ := exists_of_mem_toDigits hbase hx
    have hall : ∀ d : Fin 16, d.val.digitChar ≠ '.' ∧ d.val.digitChar ≠ ':' := by decide
    exact hall ⟨d, by omega⟩
  cases hfour : addr.isIPv4 with
  | true =>
    rw [hfour, if_pos rfl, if_pos rfl] at h
    have htexts := separated_inj (by simp) (by
      intro text htext hdot
      obtain ⟨n, -, rfl⟩ := List.mem_map.mp htext
      exact (hdigit 10 _ '.' (by decide) hdot (by decide)).1 rfl) (by
      intro text htext hdot
      obtain ⟨n, -, rfl⟩ := List.mem_map.mp htext
      exact (hdigit 10 _ '.' (by decide) hdot (by decide)).1 rfl) h
    have hbytes := List.map_inj_left.mp htexts
    have htake : addr.ip.take 12 = addr'.ip.take 12 := by
      rw [hfour] at hkind
      rw [eq_of_beq (hkind.symm : addr'.isIPv4 = true), eq_of_beq (hfour : addr.isIPv4 = true)]
    intro n hn
    by_cases hlow : n < 4
    · have hmem : n ∈ [3, 2, 1, 0] := by
        simp
        omega
      exact UInt8.toNat_inj.mp (toDigits_inj (by decide) (by decide) (hbytes n hmem))
    · exact getByte_congr_of_take htake (by omega)
  | false =>
    rw [hfour, if_neg Bool.false_ne_true, if_neg Bool.false_ne_true] at h
    have htexts := separated_inj (by simp) (by
      intro text htext hcolon
      obtain ⟨n, -, rfl⟩ := List.mem_map.mp htext
      exact (hdigit 16 _ ':' (by decide) hcolon (by decide)).2 rfl) (by
      intro text htext hcolon
      obtain ⟨n, -, rfl⟩ := List.mem_map.mp htext
      exact (hdigit 16 _ ':' (by decide) hcolon (by decide)).2 rfl) h
    have hgroups := List.map_inj_left.mp htexts
    intro n hn
    have hgroup := toDigits_inj (by decide) (by decide) (hgroups (n / 2 * 2 + 1) (by
      simp
      omega))
    rw [shiftLeft_or_byte, shiftLeft_or_byte, Nat.add_sub_cancel] at hgroup
    have hlow := (addr.getByte (n / 2 * 2)).toNat_lt
    have hlow' := (addr'.getByte (n / 2 * 2)).toNat_lt
    apply UInt8.toNat_inj.mp
    rcases Nat.mod_two_eq_zero_or_one n with heven | hodd
    · rw [show n = n / 2 * 2 by omega]
      omega
    · rw [show n = n / 2 * 2 + 1 by omega]
      omega

/-- The text of an IPv4 address has digits and dots. -/
theorem mem_text_of_isIPv4 {x : Char} (h : addr.isIPv4 = true)
    (hx : x ∈ (host.getnameinfo addr).getD addr.numericText) : x.isDigit = true ∨ x = '.' := by
  cases hname : host.getnameinfo addr with
  | some text =>
    rw [hname] at hx
    exact host.dotted addr text h hname x hx
  | none =>
    rw [hname, Option.getD_none, numericText, if_pos h] at hx
    rcases mem_separated hx with hdot | ⟨text, htext, hmem⟩
    · exact Or.inr hdot
    · obtain ⟨n, -, rfl⟩ := List.mem_map.mp htext
      exact Or.inl (Nat.isDigit_of_mem_toDigits (by decide) (by decide) hmem)

/-- No text outside brackets has a colon, or starts with a bracket. -/
theorem ne_of_mem_toStringIP {x : Char} (h : (addr.isIPv4 || addr.isTor) = true)
    (hx : x ∈ addr.toStringIP host) : x ≠ ':' ∧ x ≠ '[' := by
  unfold toStringIP at hx
  cases htor : addr.isTor with
  | true =>
    rw [htor, if_pos rfl] at hx
    rcases List.mem_append.mp hx with hname | honion
    · obtain ⟨i, rfl⟩ := exists_of_mem_encodeBase32 hname
      exact base32Char_ne i
    · have hall : ∀ x ∈ ".onion".toList, x ≠ ':' ∧ x ≠ '[' := by simp
      exact hall x honion
  | false =>
    rw [htor, if_neg Bool.false_ne_true] at hx
    rw [htor, Bool.or_false] at h
    rcases mem_text_of_isIPv4 h hx with hdigit | rfl
    · constructor
      · rintro rfl
        contradiction
      · rintro rfl
        contradiction
    · decide

theorem bracket_notMem_toStringIP (h : (addr.isIPv4 || addr.isTor) = false) :
    ']' ∉ addr.toStringIP host := by
  obtain ⟨hfour, htor⟩ := Bool.or_eq_false_iff.mp h
  unfold toStringIP
  rw [htor, if_neg Bool.false_ne_true]
  cases hname : host.getnameinfo addr with
  | some text => exact host.unbracketed addr text hfour hname
  | none =>
    rw [Option.getD_none, numericText, hfour, if_neg Bool.false_ne_true]
    intro hmem
    rcases mem_separated hmem with hcolon | ⟨text, htext, hmem⟩
    · contradiction
    · obtain ⟨n, -, rfl⟩ := List.mem_map.mp htext
      obtain ⟨d, hd, hdigit⟩ := exists_of_mem_toDigits (by decide) hmem
      have hall : ∀ d : Fin 16, ']' ≠ d.val.digitChar := by decide
      exact hall ⟨d, hd⟩ hdigit

/-- Outside Tor the text of a kind of address says which one it is. -/
theorem text_inj (hkind : addr.isIPv4 = addr'.isIPv4)
    (h : (host.getnameinfo addr).getD addr.numericText =
      (host.getnameinfo addr').getD addr'.numericText) : addr = addr' := by
  cases hname : host.getnameinfo addr with
  | some text =>
    rw [hname, Option.getD_some] at h
    apply host.faithful addr addr' text hkind hname
    cases hname' : host.getnameinfo addr' with
    | some text' =>
      rw [hname', Option.getD_some] at h
      exact Or.inl (congrArg some h.symm)
    | none =>
      rw [hname', Option.getD_none] at h
      exact Or.inr h.symm
  | none =>
    rw [hname, Option.getD_none] at h
    cases hname' : host.getnameinfo addr' with
    | some text' =>
      rw [hname', Option.getD_some] at h
      exact (host.faithful addr' addr text' hkind.symm hname' (Or.inr h)).symm
    | none =>
      rw [hname', Option.getD_none] at h
      exact numericText_inj hkind h

/-- The name of a hidden service ends in a letter, so it is no IPv4 address. -/
theorem onion_ne_text (h : addr'.isIPv4 = true) (name : List Char) :
    name ++ ".onion".toList ≠ (host.getnameinfo addr').getD addr'.numericText := by
  intro heq
  have hmem : 'n' ∈ (host.getnameinfo addr').getD addr'.numericText := by
    rw [← heq]
    exact List.mem_append_right name (by decide)
  rcases mem_text_of_isIPv4 h hmem with hdigit | hdot
  · contradiction
  · contradiction

theorem toStringIP_inj (hkind : (addr.isIPv4 || addr.isTor) = (addr'.isIPv4 || addr'.isTor))
    (h : addr.toStringIP host = addr'.toStringIP host) : addr = addr' := by
  unfold toStringIP at h
  cases htor : addr.isTor with
  | true =>
    rw [htor, if_pos rfl] at h
    cases htor' : addr'.isTor with
    | true =>
      rw [htor', if_pos rfl] at h
      have hrest := encodeBase32_inj (k := 2) (by rw [List.length_drop, addr.length_ip])
        (by rw [List.length_drop, addr'.length_ip]) (List.append_cancel_right h)
      have honion : addr.ip.take 6 = pchOnionCat := eq_of_beq htor
      have honion' : addr'.ip.take 6 = pchOnionCat := eq_of_beq htor'
      have hip : addr.ip = addr'.ip := by
        rw [← List.take_append_drop 6 addr.ip, ← List.take_append_drop 6 addr'.ip, honion,
          honion', hrest]
      obtain ⟨ip, length_ip⟩ := addr
      obtain ⟨ip', length_ip'⟩ := addr'
      simpa using hip
    | false =>
      rw [htor', if_neg Bool.false_ne_true] at h
      have hfour : addr'.isIPv4 = true := by simpa [htor, htor'] using hkind.symm
      exact absurd h (onion_ne_text hfour _)
  | false =>
    rw [htor, if_neg Bool.false_ne_true] at h
    cases htor' : addr'.isTor with
    | true =>
      rw [htor', if_pos rfl] at h
      have hfour : addr.isIPv4 = true := by simpa [htor, htor'] using hkind
      exact absurd h.symm (onion_ne_text hfour _)
    | false =>
      rw [htor', if_neg Bool.false_ne_true] at h
      exact text_inj (by simpa [htor, htor'] using hkind) h

end CNetAddr

theorem CService.eq_of_toNat_port {addr addr' : CService}
    (haddr : addr.toCNetAddr = addr'.toCNetAddr) (hport : addr.port.toNat = addr'.port.toNat) :
    addr = addr' := by
  obtain ⟨base, port⟩ := addr
  obtain ⟨base', port'⟩ := addr'
  have hnumber : port = port' := UInt16.toNat_inj.mp hport
  have hbase : base = base' := haddr
  rw [hnumber, hbase]

/-- What follows a written address is told apart from it but for the digits of its port. -/
theorem CService.toString_append_inj {host : NumericHost} {addr addr' : CService}
    {rest rest' : List Char}
    (h : addr.toString host ++ rest = addr'.toString host ++ rest') :
    addr.toCNetAddr = addr'.toCNetAddr ∧
      addr.toStringPort ++ rest = addr'.toStringPort ++ rest' := by
  have hplain : ∀ addr : CService, (addr.isIPv4 || addr.isTor) = true →
      ':' ∉ addr.toStringIP host ∧ (addr.toStringIP host).head? ≠ some '[' := by
    intro addr hkind
    constructor
    · intro hmem
      exact (CNetAddr.ne_of_mem_toStringIP hkind hmem).1 rfl
    · intro hhead
      exact (CNetAddr.ne_of_mem_toStringIP hkind (List.mem_of_mem_head? hhead)).2 rfl
  have hapart : ∀ text rest after : List Char, text.head? ≠ some '[' →
      text ++ ':' :: rest ≠ '[' :: after := by
    intro text rest after hhead heq
    cases text with
    | nil => exact absurd (List.cons.inj heq).1 (by decide)
    | cons x text => exact hhead (congrArg some (List.cons.inj heq).1)
  unfold toString at h
  cases hkind : addr.isIPv4 || addr.isTor with
  | true =>
    rw [hkind, if_pos rfl, List.append_assoc, List.cons_append] at h
    cases hkind' : addr'.isIPv4 || addr'.isTor with
    | true =>
      rw [hkind', if_pos rfl, List.append_assoc, List.cons_append] at h
      obtain ⟨htext, hrest⟩ := append_cons_inj (hplain addr hkind).1 (hplain addr' hkind').1 h
      exact ⟨CNetAddr.toStringIP_inj (by rw [hkind, hkind']) htext, hrest⟩
    | false =>
      rw [hkind', if_neg Bool.false_ne_true] at h
      exact absurd h (hapart _ _ _ (hplain addr hkind).2)
  | false =>
    rw [hkind, if_neg Bool.false_ne_true] at h
    cases hkind' : addr'.isIPv4 || addr'.isTor with
    | true =>
      rw [hkind', if_pos rfl] at h
      simp only [List.append_assoc, List.cons_append] at h
      exact absurd h.symm (hapart _ _ _ (hplain addr' hkind').2)
    | false =>
      rw [hkind', if_neg Bool.false_ne_true] at h
      simp only [List.cons_append, List.append_assoc, List.cons.injEq, true_and] at h
      obtain ⟨htext, hrest⟩ := append_cons_inj (CNetAddr.bracket_notMem_toStringIP hkind)
        (CNetAddr.bracket_notMem_toStringIP hkind') h
      exact ⟨CNetAddr.toStringIP_inj (by rw [hkind, hkind']) htext, (List.cons.inj hrest).2⟩

end Lytix

/-! The ranges of network addresses, which of them can be routed to, and the group of an address. -/
namespace Lytix

def NET_UNROUTABLE : UInt8 := 0
def NET_IPV4 : UInt8 := 1
def NET_IPV6 : UInt8 := 2
def NET_TOR : UInt8 := 3

namespace CNetAddr

section
variable (addr : CNetAddr)

/-- Whether bytes 3 and 2 of an IPv4 address lie in these ranges. -/
def inIPv4Range (first : UInt8) (low high : UInt8) : Bool :=
  addr.isIPv4 && addr.getByte 3 == first && decide (low ≤ addr.getByte 2) &&
    decide (addr.getByte 2 ≤ high)

def isRFC1918 : Bool :=
  addr.inIPv4Range 10 0 255 || addr.inIPv4Range 192 168 168 || addr.inIPv4Range 172 16 31

def isRFC2544 : Bool := addr.inIPv4Range 198 18 19

def isRFC3927 : Bool := addr.inIPv4Range 169 254 254

def isRFC6598 : Bool := addr.inIPv4Range 100 64 127

def isRFC5737 : Bool :=
  (addr.inIPv4Range 192 0 0 && addr.getByte 1 == 2) ||
    (addr.inIPv4Range 198 51 51 && addr.getByte 1 == 100) ||
    (addr.inIPv4Range 203 0 0 && addr.getByte 1 == 113)

def isRFC3849 : Bool := addr.ip.take 4 == [0x20, 0x01, 0x0D, 0xB8]

def isRFC3964 : Bool := addr.ip.take 2 == [0x20, 0x02]

def isRFC6052 : Bool := addr.ip.take 12 == [0, 0x64, 0xFF, 0x9B, 0, 0, 0, 0, 0, 0, 0, 0]

def isRFC4380 : Bool := addr.ip.take 4 == [0x20, 0x01, 0, 0]

def isRFC4862 : Bool := addr.ip.take 8 == [0xFE, 0x80, 0, 0, 0, 0, 0, 0]

def isRFC4193 : Bool := addr.getByte 15 &&& 0xFE == 0xFC

def isRFC6145 : Bool := addr.ip.take 12 == [0, 0, 0, 0, 0, 0, 0, 0, 0xFF, 0xFF, 0, 0]

def isRFC4843 : Bool := addr.ip.take 3 == [0x20, 0x01, 0x00] && addr.getByte 12 &&& 0xF0 == 0x10

def isLocal : Bool :=
  (addr.isIPv4 && (addr.getByte 3 == 127 || addr.getByte 3 == 0)) ||
    addr.ip == [0, 0, 0, 0, 0, 0, 0, 0, 0, 0, 0, 0, 0, 0, 0, 1]

def isValid : Bool :=
  -- an address that was read three bytes too late
  if addr.ip.take 9 == pchIPv4.drop 3 then false
  else if addr.ip == List.replicate 16 0 then false
  else if addr.isRFC3849 then false
  else
    -- `INADDR_NONE`, and 0
    !(addr.isIPv4 && (addr.ip.drop 12 == [255, 255, 255, 255] || addr.ip.drop 12 == [0, 0, 0, 0]))

def isRoutable : Bool :=
  addr.isValid && !(addr.isRFC1918 || addr.isRFC2544 || addr.isRFC3927 || addr.isRFC4862 ||
    addr.isRFC6598 || addr.isRFC5737 || (addr.isRFC4193 && !addr.isTor) || addr.isRFC4843 ||
    addr.isLocal)

/-- A class and the first bits of the address from a byte on; the other bits of the last byte are
filled with ones. -/
def groupOf (nClass : UInt8) (nStartByte nBits : Nat) : List UInt8 :=
  nClass :: (addr.ip.drop nStartByte).take (nBits / 8) ++
    if nBits % 8 = 0 then []
    else [addr.getByte (15 - (nStartByte + nBits / 8)) ||| UInt8.ofNat (2 ^ (nBits % 8) - 1)]

def getGroup : List UInt8 :=
  let nClass := if addr.isLocal then 255 else NET_IPV6
  let nBits := if addr.isLocal then 0 else 16
  if !addr.isRoutable then addr.groupOf NET_UNROUTABLE 0 0
  else if addr.isIPv4 || addr.isRFC6145 || addr.isRFC6052 then addr.groupOf NET_IPV4 12 nBits
  -- the IPv4 address inside a tunnelled one
  else if addr.isRFC3964 then addr.groupOf NET_IPV4 2 nBits
  else if addr.isRFC4380 then [NET_IPV4, addr.getByte 3 ^^^ 0xFF, addr.getByte 2 ^^^ 0xFF]
  else if addr.isTor then addr.groupOf NET_TOR 6 4
  -- he.net
  else if addr.ip.take 4 == [0x20, 0x01, 0x04, 0x70] then addr.groupOf nClass 0 36
  else addr.groupOf nClass 0 32

end

section
variable {addr : CNetAddr}

end
end CNetAddr
end Lytix
