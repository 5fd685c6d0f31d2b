import Lytix.Lib.BitGroups
import Lytix.Net.NetAddress
import Lytix.Script.SigOpCount

/-! Bytes as text in the bases 64 and 32. Both pairs of functions are machines that shift bits
from one width to the other, and check the padding at the end. -/
namespace Lytix

open BitGroups

/-- What a machine has written, how many symbols it has read in its cycle, and the bits that it
has not written yet. -/
structure BitMachine where
  ret : List UInt8 := []
  mode : ℕ := 0
  left : ℕ := 0

/-- What the functions for one base have of their own. `encodePadding` is how many `'='` follow
in a mode that is not 0, and `decodePadding` how many are required; in the other modes no text
ends. -/
structure BitCodec where
  width : ℕ
  symbols : List UInt8
  table : List ℤ
  encodeStep : (ℕ → UInt8) → BitMachine → ℕ → BitMachine
  encodePadding : List ℕ
  decodeStep : BitMachine → ℕ → BitMachine
  decodePadding : List (Option ℕ)

namespace BitCodec

variable (C : BitCodec)

/-- `pbase[digit]`. -/
def symbol (digit : ℕ) : UInt8 := C.symbols.getD digit 0

/-- `decode_table[(unsigned char)c]`. -/
def dec (c : UInt8) : ℤ := C.table.getD c.toNat (-1)

/-- The loop that encodes. -/
def encodeLoop (pch : List UInt8) : BitMachine :=
  pch.foldl (fun s enc => C.encodeStep C.symbol s enc.toNat) {}

def encode (pch : List UInt8) : List UInt8 :=
  let s := C.encodeLoop pch
  if s.mode ≠ 0 then
    s.ret ++ C.symbol s.left :: List.replicate (C.encodePadding.getD s.mode 0) 61
  else s.ret

/-- The loop that decodes, and what is left of the text behind it. -/
def decodeLoop (s : BitMachine) : List UInt8 → BitMachine × List UInt8
  | [] => (s, [])
  | c :: p => if C.dec c = -1 then (s, c :: p) else decodeLoop (C.decodeStep s (C.dec c).toNat) p

/-- So many `'='` are not in front, or a character of the alphabet is behind them. Behind the text
is a NUL character. -/
def unpadded (n : ℕ) (p : List UInt8) : Bool :=
  (List.range n).any (fun i => p.getD i 0 != 61) || C.dec (p.getD n 0) != -1

/-- What is decoded, and `pfInvalid`. -/
def decode (p : List UInt8) : List UInt8 × Bool :=
  let (s, p) := C.decodeLoop {} p
  (s.ret, if s.mode = 0 then false
    else
      match C.decodePadding.getD s.mode none with
      | none => true
      | some n => s.left != 0 || C.unpadded n p)

end BitCodec

def pbase64 : List UInt8 := (
  ['A', 'B', 'C', 'D', 'E', 'F', 'G', 'H', 'I', 'J', 'K', 'L', 'M', 'N', 'O', 'P', 'Q', 'R', 'S',
    'T', 'U', 'V', 'W', 'X', 'Y', 'Z', 'a', 'b', 'c', 'd', 'e', 'f', 'g', 'h', 'i', 'j', 'k',
    'l', 'm', 'n', 'o', 'p', 'q', 'r', 's', 't', 'u', 'v', 'w', 'x', 'y', 'z', '0', '1', '2',
    '3', '4', '5', '6', '7', '8', '9', '+', '/'] : List Char).map
    fun c => UInt8.ofNat c.toNat

def decode64_table : List ℤ :=
  [ -1, -1, -1, -1, -1, -1, -1, -1, -1, -1, -1, -1, -1, -1, -1, -1, -1, -1, -1, -1,
    -1, -1, -1, -1, -1, -1, -1, -1, -1, -1, -1, -1, -1, -1, -1, -1, -1, -1, -1, -1,
    -1, -1, -1, 62, -1, -1, -1, 63, 52, 53, 54, 55, 56, 57, 58, 59, 60, 61, -1, -1,
    -1, -1, -1, -1, -1, 0, 1, 2, 3, 4, 5, 6, 7, 8, 9, 10, 11, 12, 13, 14,
    15, 16, 17, 18, 19, 20, 21, 22, 23, 24, 25, -1, -1, -1, -1, -1, -1, 26, 27, 28,
    29, 30, 31, 32, 33, 34, 35, 36, 37, 38, 39, 40, 41, 42, 43, 44, 45, 46, 47, 48,
    49, 50, 51, -1, -1, -1, -1, -1, -1, -1, -1, -1, -1, -1, -1, -1, -1, -1, -1, -1,
    -1, -1, -1, -1, -1, -1, -1, -1, -1, -1, -1, -1, -1, -1, -1, -1, -1, -1, -1, -1,
    -1, -1, -1, -1, -1, -1, -1, -1, -1, -1, -1, -1, -1, -1, -1, -1, -1, -1, -1, -1,
    -1, -1, -1, -1, -1, -1, -1, -1, -1, -1, -1, -1, -1, -1, -1, -1, -1, -1, -1, -1,
    -1, -1, -1, -1, -1, -1, -1, -1, -1, -1, -1, -1, -1, -1, -1, -1, -1, -1, -1, -1,
    -1, -1, -1, -1, -1, -1, -1, -1, -1, -1, -1, -1, -1, -1, -1, -1, -1, -1, -1, -1,
    -1, -1, -1, -1, -1, -1, -1, -1, -1, -1, -1, -1, -1, -1, -1, -1]

def base64 : BitCodec where
  width := 6
  symbols := pbase64
  table := decode64_table
  encodeStep symbol s enc :=
    match s.mode with
    | 0 => -- we have no bits
      ⟨s.ret ++ [symbol (enc >>> 2)], 1, (enc &&& 3) <<< 4⟩
    | 1 => -- we have two bits
      ⟨s.ret ++ [symbol (s.left ||| enc >>> 4)], 2, (enc &&& 15) <<< 2⟩
    | 2 => -- we have four bits
      ⟨s.ret ++ [symbol (s.left ||| enc >>> 6), symbol (enc &&& 63)], 0, s.left⟩
    | _ => s
  encodePadding := [0, 2, 1]
  decodeStep s dec :=
    match s.mode with
    | 0 => -- we have no bits and get 6
      ⟨s.ret, 1, dec⟩
    | 1 => -- we have 6 bits and keep 4
      ⟨s.ret ++ [UInt8.ofNat (s.left <<< 2 ||| dec >>> 4)], 2, dec &&& 15⟩
    | 2 => -- we have 4 bits and get 6, we keep 2
      ⟨s.ret ++ [UInt8.ofNat (s.left <<< 4 ||| dec >>> 2)], 3, dec &&& 3⟩
    | 3 => -- we have 2 bits and get 6
      ⟨s.ret ++ [UInt8.ofNat (s.left <<< 6 ||| dec)], 0, s.left⟩
    | _ => s
  decodePadding := [none, none, some 2, some 1]

def BitText.encodeBase64 (pch : List UInt8) : List UInt8 := base64.encode pch
def BitText.decodeBase64 (p : List UInt8) : List UInt8 × Bool := base64.decode p

def pbase32 : List UInt8 := (
  ['a', 'b', 'c', 'd', 'e', 'f', 'g', 'h', 'i', 'j', 'k', 'l', 'm', 'n', 'o', 'p', 'q', 'r', 's',
    't', 'u', 'v', 'w', 'x', 'y', 'z', '2', '3', '4', '5', '6', '7'] : List Char).map
    fun c => UInt8.ofNat c.toNat

def decode32_table : List ℤ :=
  [ -1, -1, -1, -1, -1, -1, -1, -1, -1, -1, -1, -1, -1, -1, -1, -1, -1, -1, -1, -1,
    -1, -1, -1, -1, -1, -1, -1, -1, -1, -1, -1, -1, -1, -1, -1, -1, -1, -1, -1, -1,
    -1, -1, -1, -1, -1, -1, -1, -1, -1, -1, 26, 27, 28, 29, 30, 31, -1, -1, -1, -1,
    -1, -1, -1, -1, -1, 0, 1, 2, 3, 4, 5, 6, 7, 8, 9, 10, 11, 12, 13, 14,
    15, 16, 17, 18, 19, 20, 21, 22, 23, 24, 25, -1, -1, -1, -1, -1, -1, 0, 1, 2,
    3, 4, 5, 6, 7, 8, 9, 10, 11, 12, 13, 14, 15, 16, 17, 18, 19, 20, 21, 22,
    23, 24, 25, -1, -1, -1, -1, -1, -1, -1, -1, -1, -1, -1, -1, -1, -1, -1, -1, -1,
    -1, -1, -1, -1, -1, -1, -1, -1, -1, -1, -1, -1, -1, -1, -1, -1, -1, -1, -1, -1,
    -1, -1, -1, -1, -1, -1, -1, -1, -1, -1, -1, -1, -1, -1, -1, -1, -1, -1, -1, -1,
    -1, -1, -1, -1, -1, -1, -1, -1, -1, -1, -1, -1, -1, -1, -1, -1, -1, -1, -1, -1,
    -1, -1, -1, -1, -1, -1, -1, -1, -1, -1, -1, -1, -1, -1, -1, -1, -1, -1, -1, -1,
    -1, -1, -1, -1, -1, -1, -1, -1, -1, -1, -1, -1, -1, -1, -1, -1, -1, -1, -1, -1,
    -1, -1, -1, -1, -1, -1, -1, -1, -1, -1, -1, -1, -1, -1, -1, -1]

def base32 : BitCodec where
  width := 5
  symbols := pbase32
  table := decode32_table
  encodeStep symbol s enc :=
    match s.mode with
    | 0 => -- we have no bits
      ⟨s.ret ++ [symbol (enc >>> 3)], 1, (enc &&& 7) <<< 2⟩
    | 1 => -- we have three bits
      ⟨s.ret ++ [symbol (s.left ||| enc >>> 6), symbol (enc >>> 1 &&& 31)], 2, (enc &&& 1) <<< 4⟩
    | 2 => -- we have one bit
      ⟨s.ret ++ [symbol (s.left ||| enc >>> 4)], 3, (enc &&& 15) <<< 1⟩
    | 3 => -- we have four bits
      ⟨s.ret ++ [symbol (s.left ||| enc >>> 7), symbol (enc >>> 2 &&& 31)], 4, (enc &&& 3) <<< 3⟩
    | 4 => -- we have two bits
      ⟨s.ret ++ [symbol (s.left ||| enc >>> 5), symbol (enc &&& 31)], 0, s.left⟩
    | _ => s
  encodePadding := [0, 6, 4, 3, 1]
  decodeStep s dec :=
    match s.mode with
    | 0 => -- we have no bits and get 5
      ⟨s.ret, 1, dec⟩
    | 1 => -- we have 5 bits and keep 2
      ⟨s.ret ++ [UInt8.ofNat (s.left <<< 3 ||| dec >>> 2)], 2, dec &&& 3⟩
    | 2 => -- we have 2 bits and keep 7
      ⟨s.ret, 3, s.left <<< 5 ||| dec⟩
    | 3 => -- we have 7 bits and keep 4
      ⟨s.ret ++ [UInt8.ofNat (s.left <<< 1 ||| dec >>> 4)], 4, dec &&& 15⟩
    | 4 => -- we have 4 bits, and keep 1
      ⟨s.ret ++ [UInt8.ofNat (s.left <<< 4 ||| dec >>> 1)], 5, dec &&& 1⟩
    | 5 => -- we have 1 bit, and keep 6
      ⟨s.ret, 6, s.left <<< 5 ||| dec⟩
    | 6 => -- we have 6 bits, and keep 3
      ⟨s.ret ++ [UInt8.ofNat (s.left <<< 2 ||| dec >>> 3)], 7, dec &&& 7⟩
    | 7 => -- we have 3 bits, and keep 0
      ⟨s.ret ++ [UInt8.ofNat (s.left <<< 5 ||| dec)], 0, s.left⟩
    | _ => s
  decodePadding := [none, none, some 6, none, some 4, some 3, none, some 1]

def BitText.encodeBase32 (pch : List UInt8) : List UInt8 := base32.encode pch
def BitText.decodeBase32 (p : List UInt8) : List UInt8 × Bool := base32.decode p

namespace BitCodec

/-- The bits that are not written in each mode, and the letters that have the same meaning. -/
structure Bits where
  encode : ℕ → ℕ
  decode : ℕ → ℕ
  fold : UInt8 → UInt8

/-- What a machine has done that encodes `pch`: its digits, and the bits that are left. -/
structure Encoded (C : BitCodec) (bits : Bits) (pch : List ℕ) (s : BitMachine) (digits : List ℕ)
    (rest : ℕ) : Prop where
  ret : s.ret = digits.map C.symbol
  regroups : Regroups 8 C.width pch digits (bits.encode s.mode) rest
  left : s.mode ≠ 0 → s.left = rest * 2 ^ (C.width - bits.encode s.mode)
  mode : s.mode < C.encodePadding.length

/-- What a machine has done that decodes `digits`, and the bits that are left. -/
structure Decoded (C : BitCodec) (bits : Bits) (digits : List ℕ) (s : BitMachine) (rest : ℕ) :
    Prop where
  regroups : Regroups C.width 8 digits (s.ret.map UInt8.toNat) (bits.decode s.mode) rest
  left : s.mode ≠ 0 → s.left = rest
  mode : s.mode = digits.length % C.decodePadding.length

section steps
variable {C : BitCodec} {bits : Bits} {pch digits : List ℕ} {s s' : BitMachine}
  {rest enc dec r r' digit : ℕ}

/-- The last bits of a symbol that is read behind others. -/
theorem mod_of_le {x y i : ℕ} (h : r' ≤ i) : (x * 2 ^ i + y) % 2 ^ r' = y &&& 2 ^ r' - 1 := by
  obtain ⟨k, rfl⟩ := Nat.exists_eq_add_of_le h
  rw [and_low, pow_add, Nat.mul_comm (2 ^ r'), ← mul_assoc, Nat.mul_add_mod']

/-- A byte is read, and one digit is written. -/
theorem Encoded.one (h : Encoded C bits pch s digits rest) (henc : enc < 2 ^ 8)
    (hr : bits.encode s.mode = r) (hr' : bits.encode s'.mode = r')
    (hbits : C.width - r + r' = 8) (hle : r ≤ C.width)
    (hdigit : digit = rest * 2 ^ (C.width - r) ||| enc >>> r')
    (hret : s'.ret = s.ret ++ [C.symbol digit])
    (hleft : s'.mode ≠ 0 → s'.left = (enc &&& 2 ^ r' - 1) <<< (C.width - r'))
    (hmode : s'.mode < C.encodePadding.length) :
    ∃ digits' rest', Encoded C bits (pch ++ [enc]) s' digits' rest' := by
  have htaken := h.regroups.take henc
  have hcount : bits.encode s.mode + 8 = C.width + r' := by omega
  rw [hcount] at htaken
  have hemitted := htaken.emit
  have hlow : (rest * 2 ^ 8 + enc) % 2 ^ r' = enc &&& 2 ^ r' - 1 := mod_of_le (by omega)
  have hhigh : (rest * 2 ^ 8 + enc) / 2 ^ r' = digit := by
    have hor := or_shiftRight (x := rest) (i := C.width - r) (j := r') (hbits ▸ henc)
    rw [hbits] at hor
    rw [hdigit, hor]
  rw [hlow, hhigh, ← hr'] at hemitted
  refine ⟨_, _, ?_, hemitted, ?_, hmode⟩
  · rw [hret, h.ret, List.map_append, List.map_singleton]
  · intro hne
    rw [hleft hne, hr', Nat.shiftLeft_eq]

/-- A byte is read, and two digits are written. -/
theorem Encoded.two (h : Encoded C bits pch s digits rest) (henc : enc < 2 ^ 8)
    (hr : bits.encode s.mode = r) (hr' : bits.encode s'.mode = r')
    (hbits : C.width - r + (C.width + r') = 8) (hle : r ≤ C.width)
    (hdigit : digit = rest * 2 ^ (C.width - r) ||| enc >>> (C.width + r'))
    (hret : s'.ret = s.ret ++ [C.symbol digit, C.symbol (enc >>> r' &&& 2 ^ C.width - 1)])
    (hleft : s'.mode ≠ 0 → s'.left = (enc &&& 2 ^ r' - 1) <<< (C.width - r'))
    (hmode : s'.mode < C.encodePadding.length) :
    ∃ digits' rest', Encoded C bits (pch ++ [enc]) s' digits' rest' := by
  have htaken := h.regroups.take henc
  have hcount : bits.encode s.mode + 8 = C.width + (C.width + r') := by omega
  rw [hcount] at htaken
  have hemitted := htaken.emit.emit
  have hhigh : (rest * 2 ^ 8 + enc) / 2 ^ (C.width + r') = digit := by
    have hor := or_shiftRight (x := rest) (i := C.width - r) (j := C.width + r') (hbits ▸ henc)
    rw [hbits] at hor
    rw [hdigit, hor]
  have hmiddle : (rest * 2 ^ 8 + enc) % 2 ^ (C.width + r') / 2 ^ r' =
      enc >>> r' &&& 2 ^ C.width - 1 := by
    rw [mod_of_le (by omega), and_low, and_low, Nat.shiftRight_eq_div_pow, Nat.add_comm, pow_add,
      Nat.mod_mul_right_div_self]
  have hlow : (rest * 2 ^ 8 + enc) % 2 ^ (C.width + r') % 2 ^ r' = enc &&& 2 ^ r' - 1 := by
    rw [Nat.mod_mod_of_dvd _ (pow_dvd_pow 2 (Nat.le_add_left r' _)), mod_of_le (by omega)]
  rw [hlow, hmiddle, hhigh, List.append_assoc, ← hr'] at hemitted
  refine ⟨_, _, ?_, hemitted, ?_, hmode⟩
  · rw [hret, h.ret, List.map_append, hr']
    rfl
  · intro hne
    rw [hleft hne, hr', Nat.shiftLeft_eq]

/-- A digit is read, and nothing is written. -/
theorem Decoded.none (h : Decoded C bits digits s rest) (hdec : dec < 2 ^ C.width)
    (hr : bits.decode s.mode = r) (hr' : bits.decode s'.mode = r') (hbits : r + C.width = r')
    (hret : s'.ret = s.ret) (hleft : s'.left = rest <<< C.width ||| dec)
    (hmode : s'.mode = (digits.length + 1) % C.decodePadding.length) :
    ∃ rest', Decoded C bits (digits ++ [dec]) s' rest' := by
  have htaken := h.regroups.take hdec
  have hcount : bits.decode s.mode + C.width = bits.decode s'.mode := by omega
  rw [hcount, ← hret] at htaken
  refine ⟨_, htaken, fun _ => ?_, ?_⟩
  · rw [hleft, Nat.shiftLeft_eq, or_eq_add hdec]
  · rw [hmode, List.length_append, List.length_singleton]

/-- A digit is read, and a byte is written. -/
theorem Decoded.one (h : Decoded C bits digits s rest) (hdec : dec < 2 ^ C.width)
    (hr : bits.decode s.mode = r) (hr' : bits.decode s'.mode = r')
    (hbits : r + C.width = 8 + r') (hle : r' ≤ C.width) (hne : s.mode ≠ 0)
    (hret : s'.ret = s.ret ++ [UInt8.ofNat (s.left <<< (C.width - r') ||| dec >>> r')])
    (hleft : s'.mode ≠ 0 → s'.left = dec &&& 2 ^ r' - 1)
    (hmode : s'.mode = (digits.length + 1) % C.decodePadding.length) :
    ∃ rest', Decoded C bits (digits ++ [dec]) s' rest' := by
  have htaken := h.regroups.take hdec
  have hcount : bits.decode s.mode + C.width = 8 + r' := by omega
  rw [hcount] at htaken
  have hemitted := htaken.emit
  have hlow : (rest * 2 ^ C.width + dec) % 2 ^ r' = dec &&& 2 ^ r' - 1 := mod_of_le hle
  have hhigh : (rest * 2 ^ C.width + dec) / 2 ^ r' =
      s.left <<< (C.width - r') ||| dec >>> r' := by
    have hsum : C.width - r' + r' = C.width := Nat.sub_add_cancel hle
    have hor := or_shiftRight (x := rest) (i := C.width - r') (j := r') (hsum.symm ▸ hdec)
    rw [hsum] at hor
    rw [h.left hne, Nat.shiftLeft_eq, hor]
  have hbyte := hemitted.written_lt _ (List.mem_append_right _ (List.mem_singleton_self _))
  rw [hlow, hhigh] at hemitted
  rw [hhigh] at hbyte
  have hwritten : s'.ret.map UInt8.toNat =
      s.ret.map UInt8.toNat ++ [s.left <<< (C.width - r') ||| dec >>> r'] := by
    rw [hret, List.map_append, List.map_singleton, UInt8.toNat_ofNat_of_lt' hbyte]
  rw [← hwritten, ← hr'] at hemitted
  refine ⟨_, hemitted, fun hne => ?_, ?_⟩
  · rw [hleft hne, hr']
  · rw [hmode, List.length_append, List.length_singleton]

end steps

/-- What the steps of a codec do with the bits, and how its alphabet and its paddings fit. -/
structure Lawful (C : BitCodec) (bits : Bits) : Prop where
  width_pos : 0 < C.width
  width_le : C.width ≤ 8
  encode_step : ∀ {pch s digits rest enc}, Encoded C bits pch s digits rest → enc < 2 ^ 8 →
    ∃ digits' rest', Encoded C bits (pch ++ [enc]) (C.encodeStep C.symbol s enc) digits' rest'
  decode_step : ∀ {digits s rest dec}, Decoded C bits digits s rest → dec < 2 ^ C.width →
    ∃ rest', Decoded C bits (digits ++ [dec]) (C.decodeStep s dec) rest'
  encodePadding_pos : 0 < C.encodePadding.length
  encode_zero : bits.encode 0 = 0
  decode_zero : bits.decode 0 = 0
  encode_bits : ∀ mode < C.encodePadding.length, mode ≠ 0 →
    0 < bits.encode mode ∧ bits.encode mode < C.width
  decode_bits : ∀ mode < C.decodePadding.length, bits.decode mode < 8 ∧
    (mode ≠ 0 → 0 < bits.decode mode)
  decode_padding : ∀ mode < C.decodePadding.length,
    (C.decodePadding.getD mode none).isSome = true → bits.decode mode < C.width
  paddings : ∀ mode < C.encodePadding.length, mode ≠ 0 → ∀ mode' < C.decodePadding.length,
    bits.decode mode' = C.width - bits.encode mode →
      C.decodePadding.getD mode' none = some (C.encodePadding.getD mode 0)
  dec_symbol : ∀ digit < 2 ^ C.width, C.dec (C.symbol digit) = digit
  dec_fold : ∀ c, C.dec c ≠ -1 → (C.dec c).toNat < 2 ^ C.width ∧
    C.symbol (C.dec c).toNat = bits.fold c ∧ C.dec c = (C.dec c).toNat
  dec_end : C.dec 61 = -1 ∧ C.dec 0 = -1
  fold_end : bits.fold 61 = 61
  decodePadding_pos : 0 < C.decodePadding.length
  decodePadding_zero : C.decodePadding.getD 0 none = none

/-- A text of the alphabet, with the padding behind it that so many characters require. -/
def Closed (C : BitCodec) (p : List UInt8) : Prop :=
  ∃ chars, (∀ c ∈ chars, C.dec c ≠ -1) ∧ p = chars ++ List.replicate
    ((C.decodePadding.getD (chars.length % C.decodePadding.length) none).getD 0) 61

section lawful
variable {C : BitCodec} {bits : Bits}

/-- What the loop that encodes has done at its end. -/
theorem Lawful.encodeLoop_encoded (hC : C.Lawful bits) (pch : List UInt8) : ∃ digits rest,
    Encoded C bits (pch.map UInt8.toNat) (C.encodeLoop pch) digits rest := by
  induction pch using List.reverseRecOn with
  | nil =>
    have hempty : Regroups 8 C.width [] [] (bits.encode 0) 0 := by
      rw [hC.encode_zero]
      exact Regroups.nil 8 C.width
    exact ⟨[], 0, rfl, hempty, fun h => absurd rfl h, hC.encodePadding_pos⟩
  | append_singleton pch enc ih =>
    obtain ⟨digits, rest, hencoded⟩ := ih
    unfold encodeLoop
    rw [List.foldl_append, List.map_append]
    exact hC.encode_step hencoded enc.toNat_lt

/-- What is encoded: digits with the bits of the bytes and zeros behind them, and the padding that
is required for as many bits. -/
theorem Lawful.encode_eq (hC : C.Lawful bits) (pch : List UInt8) : ∃ digits p n,
    C.encode pch = digits.map C.symbol ++ List.replicate n 61 ∧
      Regroups C.width 8 digits (pch.map UInt8.toNat) p 0 ∧ p < C.width ∧
      ∀ mode < C.decodePadding.length, bits.decode mode = p →
        (mode = 0 → n = 0) ∧ (mode ≠ 0 → C.decodePadding.getD mode none = some n) := by
  obtain ⟨digits, rest, hencoded⟩ := hC.encodeLoop_encoded pch
  have hregroups := hencoded.regroups
  unfold encode
  by_cases hmode : (C.encodeLoop pch).mode = 0
  · rw [hmode, hC.encode_zero] at hregroups
    have hrest : rest = 0 := by
      have hlt := hregroups.left_lt
      omega
    subst hrest
    refine ⟨digits, 0, 0, ?_, hregroups.symm, hC.width_pos, ?_⟩
    · simp only [hmode, ne_eq, not_true_eq_false, if_false, List.replicate_zero, List.append_nil]
      exact hencoded.ret
    · intro mode hlt hbits
      refine ⟨fun _ => rfl, fun hne => ?_⟩
      have hpos := (hC.decode_bits mode hlt).2 hne
      omega
  · obtain ⟨hpos, hlt⟩ := hC.encode_bits _ hencoded.mode hmode
    refine ⟨_, _, C.encodePadding.getD (C.encodeLoop pch).mode 0, ?_, hregroups.fill hlt.le,
      by omega, ?_⟩
    · simp only [ne_eq, hmode, not_false_eq_true, if_true]
      rw [hencoded.ret, hencoded.left hmode, List.map_append, List.append_assoc]
      rfl
    · intro mode' hlt' hbits
      refine ⟨?_, fun _ => hC.paddings _ hencoded.mode hmode mode' hlt' hbits⟩
      rintro rfl
      rw [hC.decode_zero] at hbits
      omega

/-- The loop that decodes takes the characters of the alphabet that are in front. -/
theorem Lawful.decodeLoop_chars (hC : C.Lawful bits) {chars p : List UInt8} {digits : List ℕ}
    {s : BitMachine} {rest : ℕ} (h : Decoded C bits digits s rest)
    (hchars : ∀ c ∈ chars, C.dec c ≠ -1) (hp : ∀ c, p.head? = some c → C.dec c = -1) :
    ∃ s' rest', C.decodeLoop s (chars ++ p) = (s', p) ∧
      Decoded C bits (digits ++ chars.map fun c => (C.dec c).toNat) s' rest' := by
  induction chars generalizing digits s rest with
  | nil =>
    refine ⟨s, rest, ?_, by simpa using h⟩
    cases p with
    | nil => rfl
    | cons c p => rw [List.nil_append, decodeLoop, if_pos (hp c rfl)]
  | cons c chars ih =>
    have hc := hchars c List.mem_cons_self
    obtain ⟨rest', hnext⟩ := hC.decode_step h (hC.dec_fold c hc).1
    obtain ⟨s', last, hloop, hdecoded⟩ :=
      ih hnext fun c hmem => hchars c (List.mem_cons_of_mem _ hmem)
    refine ⟨s', last, ?_, ?_⟩
    · rw [List.cons_append, decodeLoop, if_neg hc]
      exact hloop
    · rw [List.append_assoc] at hdecoded
      exact hdecoded

/-- What is decoded from characters of the alphabet with padding behind them. -/
theorem Lawful.decode_padded (hC : C.Lawful bits) {chars : List UInt8} (n : ℕ)
    (hchars : ∀ c ∈ chars, C.dec c ≠ -1) : ∃ s rest,
    C.decodeLoop {} (chars ++ List.replicate n 61) = (s, List.replicate n 61) ∧
      Decoded C bits (chars.map fun c => (C.dec c).toNat) s rest := by
  have hstart : Decoded C bits [] {} 0 := by
    refine ⟨?_, fun h => absurd rfl h, (Nat.zero_mod _).symm⟩
    rw [hC.decode_zero]
    exact Regroups.nil C.width 8
  have hstop : ∀ c, (List.replicate n (61 : UInt8)).head? = some c → C.dec c = -1 := by
    intro c hc
    rw [List.eq_of_mem_replicate (List.mem_of_head? hc)]
    exact hC.dec_end.1
  obtain ⟨s, rest, hloop, hdecoded⟩ := hC.decodeLoop_chars hstart hchars hstop
  exact ⟨s, rest, hloop, hdecoded⟩

/-- The required padding is in front, and nothing is behind it. -/
theorem Lawful.unpadded_replicate (hC : C.Lawful bits) (n : ℕ) :
    C.unpadded n (List.replicate n 61) = false := by
  have hall : ((List.range n).any fun i => (List.replicate n (61 : UInt8)).getD i 0 != 61) =
      false := by
    rw [List.any_eq_false]
    intro i hi
    have hlt : i < n := List.mem_range.mp hi
    simp [List.getD, hlt]
  have hend : (List.replicate n (61 : UInt8)).getD n 0 = 0 := by simp [List.getD]
  unfold unpadded
  rw [hall, hend, hC.dec_end.2]
  rfl

/-- What is encoded is decoded. -/
theorem Lawful.decode_encode (hC : C.Lawful bits) (pch : List UInt8) :
    C.decode (C.encode pch) = (pch, false) := by
  obtain ⟨digits, p, n, hencode, hregroups, hp, hpadding⟩ := hC.encode_eq pch
  have hdec : ∀ digit ∈ digits, C.dec (C.symbol digit) = digit := by
    intro digit hmem
    exact hC.dec_symbol digit (hregroups.read_lt digit hmem)
  have hchars : ∀ c ∈ digits.map C.symbol, C.dec c ≠ -1 := by
    intro c hc
    obtain ⟨digit, hmem, rfl⟩ := List.mem_map.mp hc
    rw [hdec digit hmem]
    omega
  have hdigits : (digits.map C.symbol).map (fun c => (C.dec c).toNat) = digits := by
    have hsame : ∀ digit ∈ digits, ((fun c => (C.dec c).toNat) ∘ C.symbol) digit = id digit := by
      intro digit hmem
      rw [Function.comp_apply, hdec digit hmem]
      rfl
    rw [List.map_map, List.map_congr_left hsame, List.map_id]
  obtain ⟨s, rest, hloop, hdecoded⟩ := hC.decode_padded n hchars
  rw [hdigits] at hdecoded
  have hmode : s.mode < C.decodePadding.length := by
    rw [hdecoded.mode]
    exact Nat.mod_lt _ hC.decodePadding_pos
  have hwidth := hC.width_le
  obtain ⟨hbytes, hbits, hrest⟩ := hdecoded.regroups.written_unique hregroups
    (hC.decode_bits s.mode hmode).1 (by omega)
  have hret : s.ret = pch := 
    List.map_injective_iff.mpr (fun _ _ h => UInt8.toNat_inj.mp h) hbytes
  obtain ⟨_, hrequired⟩ := hpadding s.mode hmode hbits
  unfold decode
  rw [hencode, hloop]
  dsimp only
  rw [hret]
  split_ifs with hzero
  · rfl
  · have hleft : s.left = 0 := (hdecoded.left hzero).trans hrest
    rw [hrequired hzero, hleft]
    simp [hC.unpadded_replicate n]

/-- What is decoded without a fault is encoded, up to the letters. -/
theorem Lawful.encode_decode (hC : C.Lawful bits) {p pch : List UInt8} (hclosed : Closed C p)
    (h : C.decode p = (pch, false)) : C.encode pch = p.map bits.fold := by
  obtain ⟨chars, hchars, rfl⟩ := hclosed
  obtain ⟨s, rest, hloop, hdecoded⟩ := hC.decode_padded
    ((C.decodePadding.getD (chars.length % C.decodePadding.length) none).getD 0) hchars
  have hmode : s.mode = chars.length % C.decodePadding.length := by
    rw [hdecoded.mode, List.length_map]
  have hlt : s.mode < C.decodePadding.length := by
    rw [hmode]
    exact Nat.mod_lt _ hC.decodePadding_pos
  unfold decode at h
  rw [hloop] at h
  obtain ⟨rfl, hvalid⟩ := Prod.mk.inj h
  -- the mode is one in which a text can end, and no bits are left
  obtain ⟨hrest, hbits⟩ : rest = 0 ∧ bits.decode s.mode < C.width := by
    by_cases hzero : s.mode = 0
    · have hregroups := hdecoded.regroups
      rw [hzero, hC.decode_zero] at hregroups
      have hleft := hregroups.left_lt
      rw [hzero, hC.decode_zero]
      exact ⟨by omega, hC.width_pos⟩
    · rw [if_neg hzero] at hvalid
      cases hpadding : C.decodePadding.getD s.mode none with
      | none =>
        rw [hpadding] at hvalid
        contradiction
      | some n =>
        rw [hpadding] at hvalid
        have hleft : s.left = 0 := by
          by_contra hne
          simp [hne] at hvalid
        have hends : (C.decodePadding.getD s.mode none).isSome = true := by rw [hpadding]; rfl
        exact ⟨(hdecoded.left hzero).symm.trans hleft, hC.decode_padding s.mode hlt hends⟩
  subst hrest
  obtain ⟨digits, p, n, hencode, hregroups, hp, hrequired⟩ := hC.encode_eq s.ret
  obtain ⟨hdigits, hsame⟩ := hdecoded.regroups.read_unique hregroups hbits hp
  obtain ⟨hnone, hsome⟩ := hrequired s.mode hlt hsame
  have hn : (C.decodePadding.getD s.mode none).getD 0 = n := by
    by_cases hzero : s.mode = 0
    · rw [hnone hzero, hzero, hC.decodePadding_zero]
      rfl
    · rw [hsome hzero]
      rfl
  have hfold : ∀ c ∈ chars, (C.symbol ∘ fun c => (C.dec c).toNat) c = bits.fold c := by
    intro c hc
    exact (hC.dec_fold c (hchars c hc)).2.1
  rw [hencode, ← hmode, hn, List.map_append, List.map_replicate, hC.fold_end, ← hdigits,
    List.map_map, List.map_congr_left hfold]

end lawful

end BitCodec

section base64
open BitCodec

def bits64 : Bits where
  encode mode := [0, 2, 4].getD mode 0
  decode mode := [0, 6, 4, 2].getD mode 0
  fold := id

/-- `tolower`, with the letters of the C locale. -/
def tolower (c : UInt8) : UInt8 := if 65 ≤ c ∧ c ≤ 90 then c + 32 else c

def bits32 : Bits where
  encode mode := [0, 3, 1, 4, 2].getD mode 0
  decode mode := [0, 5, 2, 7, 4, 1, 6, 3].getD mode 0
  fold := tolower

variable {pch digits : List ℕ} {s : BitMachine} {rest enc dec : ℕ}

theorem base64_encodeStep (h : Encoded base64 bits64 pch s digits rest) (henc : enc < 2 ^ 8) :
    ∃ digits' rest', Encoded base64 bits64 (pch ++ [enc])
      (base64.encodeStep base64.symbol s enc) digits' rest' := by
  obtain ⟨ret, mode, left⟩ := s
  have hlt : rest < 2 ^ bits64.encode mode := h.regroups.left_lt
  have hmode : mode < 3 := h.mode
  have hleft := h.left
  interval_cases mode
  · have hempty : rest = 0 := Nat.lt_one_iff.mp hlt
    have hdigit : enc >>> 2 = rest * 2 ^ 6 ||| enc >>> 2 := by
      rw [hempty, Nat.zero_mul, Nat.zero_or]
    exact h.one henc rfl rfl rfl (Nat.le_of_ble_eq_true rfl) hdigit rfl
      (fun _ => rfl) (Nat.le_of_ble_eq_true rfl)
  · have hdigit : left ||| enc >>> 4 = rest * 2 ^ 4 ||| enc >>> 4 :=
      congrArg (· ||| _) (hleft (Nat.succ_ne_zero _))
    exact h.one henc rfl rfl rfl (Nat.le_of_ble_eq_true rfl) hdigit rfl
      (fun _ => rfl) (Nat.le_of_ble_eq_true rfl)
  · have hdigit : left ||| enc >>> 6 = rest * 2 ^ 2 ||| enc >>> 6 :=
      congrArg (· ||| _) (hleft (Nat.succ_ne_zero _))
    exact h.two henc rfl rfl rfl (Nat.le_of_ble_eq_true rfl) hdigit rfl
      (fun hne => absurd rfl hne) (Nat.le_of_ble_eq_true rfl)

theorem base64_decodeStep (h : Decoded base64 bits64 digits s rest) (hdec : dec < 2 ^ 6) :
    ∃ rest', Decoded base64 bits64 (digits ++ [dec]) (base64.decodeStep s dec) rest' := by
  obtain ⟨ret, mode, left⟩ := s
  have hlt : rest < 2 ^ bits64.decode mode := h.regroups.left_lt
  have hcycle : mode = digits.length % 4 := h.mode
  have hmode : mode < 4 := by omega
  have hnext (k : ℕ) (hk : k = digits.length % 4) :
      (k + 1) % 4 = (digits.length + 1) % 4 := by omega
  have hleft := h.left
  interval_cases mode
  · have hempty : rest = 0 := Nat.lt_one_iff.mp hlt
    have hbits : dec = rest <<< 6 ||| dec := by
      rw [hempty, Nat.zero_shiftLeft, Nat.zero_or]
    exact h.none hdec rfl rfl rfl rfl hbits (hnext 0 hcycle)
  · exact h.one hdec rfl rfl rfl (Nat.le_of_ble_eq_true rfl) (Nat.succ_ne_zero _) rfl (fun _ => rfl)
      (hnext 1 hcycle)
  · exact h.one hdec rfl rfl rfl (Nat.le_of_ble_eq_true rfl) (Nat.succ_ne_zero _) rfl (fun _ => rfl)
      (hnext 2 hcycle)
  · exact h.one hdec rfl rfl rfl (Nat.le_of_ble_eq_true rfl) (Nat.succ_ne_zero _) rfl
      (fun hne => absurd rfl hne) (hnext 3 hcycle)

theorem base32_encodeStep (h : Encoded base32 bits32 pch s digits rest) (henc : enc < 2 ^ 8) :
    ∃ digits' rest', Encoded base32 bits32 (pch ++ [enc])
      (base32.encodeStep base32.symbol s enc) digits' rest' := by
  obtain ⟨ret, mode, left⟩ := s
  have hlt : rest < 2 ^ bits32.encode mode := h.regroups.left_lt
  have hmode : mode < 5 := h.mode
  have hleft := h.left
  interval_cases mode
  · have hempty : rest = 0 := Nat.lt_one_iff.mp hlt
    have hdigit : enc >>> 3 = rest * 2 ^ 5 ||| enc >>> 3 := by
      rw [hempty, Nat.zero_mul, Nat.zero_or]
    exact h.one henc rfl rfl rfl (Nat.le_of_ble_eq_true rfl) hdigit rfl
      (fun _ => rfl) (Nat.le_of_ble_eq_true rfl)
  · have hdigit : left ||| enc >>> 6 = rest * 2 ^ 2 ||| enc >>> 6 :=
      congrArg (· ||| _) (hleft (Nat.succ_ne_zero _))
    exact h.two henc rfl rfl rfl (Nat.le_of_ble_eq_true rfl) hdigit rfl
      (fun _ => rfl) (Nat.le_of_ble_eq_true rfl)
  · have hdigit : left ||| enc >>> 4 = rest * 2 ^ 4 ||| enc >>> 4 :=
      congrArg (· ||| _) (hleft (Nat.succ_ne_zero _))
    exact h.one henc rfl rfl rfl (Nat.le_of_ble_eq_true rfl) hdigit rfl
      (fun _ => rfl) (Nat.le_of_ble_eq_true rfl)
  · have hdigit : left ||| enc >>> 7 = rest * 2 ^ 1 ||| enc >>> 7 :=
      congrArg (· ||| _) (hleft (Nat.succ_ne_zero _))
    exact h.two henc rfl rfl rfl (Nat.le_of_ble_eq_true rfl) hdigit rfl
      (fun _ => rfl) (Nat.le_of_ble_eq_true rfl)
  · have hdigit : left ||| enc >>> 5 = rest * 2 ^ 3 ||| enc >>> 5 :=
      congrArg (· ||| _) (hleft (Nat.succ_ne_zero _))
    exact h.two henc rfl rfl rfl (Nat.le_of_ble_eq_true rfl) hdigit rfl
      (fun hne => absurd rfl hne) (Nat.le_of_ble_eq_true rfl)

theorem base32_decodeStep (h : Decoded base32 bits32 digits s rest) (hdec : dec < 2 ^ 5) :
    ∃ rest', Decoded base32 bits32 (digits ++ [dec]) (base32.decodeStep s dec) rest' := by
  obtain ⟨ret, mode, left⟩ := s
  have hlt : rest < 2 ^ bits32.decode mode := h.regroups.left_lt
  have hcycle : mode = digits.length % 8 := h.mode
  have hmode : mode < 8 := by omega
  have hnext (k : ℕ) (hk : k = digits.length % 8) :
      (k + 1) % 8 = (digits.length + 1) % 8 := by omega
  have hleft := h.left
  interval_cases mode
  · have hempty : rest = 0 := Nat.lt_one_iff.mp hlt
    have hbits : dec = rest <<< 5 ||| dec := by
      rw [hempty, Nat.zero_shiftLeft, Nat.zero_or]
    exact h.none hdec rfl rfl rfl rfl hbits (hnext 0 hcycle)
  · exact h.one hdec rfl rfl rfl (Nat.le_of_ble_eq_true rfl) (Nat.succ_ne_zero _) rfl (fun _ => rfl)
      (hnext 1 hcycle)
  · have hbits : left <<< 5 ||| dec = rest <<< 5 ||| dec :=
      congrArg (· <<< 5 ||| dec) (hleft (Nat.succ_ne_zero _))
    exact h.none hdec rfl rfl rfl rfl hbits (hnext 2 hcycle)
  · exact h.one hdec rfl rfl rfl (Nat.le_of_ble_eq_true rfl) (Nat.succ_ne_zero _) rfl (fun _ => rfl)
      (hnext 3 hcycle)
  · exact h.one hdec rfl rfl rfl (Nat.le_of_ble_eq_true rfl) (Nat.succ_ne_zero _) rfl (fun _ => rfl)
      (hnext 4 hcycle)
  · have hbits : left <<< 5 ||| dec = rest <<< 5 ||| dec :=
      congrArg (· <<< 5 ||| dec) (hleft (Nat.succ_ne_zero _))
    exact h.none hdec rfl rfl rfl rfl hbits (hnext 5 hcycle)
  · exact h.one hdec rfl rfl rfl (Nat.le_of_ble_eq_true rfl) (Nat.succ_ne_zero _) rfl (fun _ => rfl)
      (hnext 6 hcycle)
  · exact h.one hdec rfl rfl rfl (Nat.le_of_ble_eq_true rfl) (Nat.succ_ne_zero _) rfl
      (fun hne => absurd rfl hne) (hnext 7 hcycle)

set_option maxRecDepth 8000 in
theorem base64_lawful : base64.Lawful bits64 where
  width_pos := by decide
  width_le := by decide
  encode_step := base64_encodeStep
  decode_step := base64_decodeStep
  encodePadding_pos := by decide
  encode_zero := rfl
  decode_zero := rfl
  encode_bits := by decide
  decode_bits := by decide
  decode_padding := by decide
  paddings := by decide
  dec_symbol := by decide
  dec_fold := forall_byte (by decide)
  dec_end := by decide
  fold_end := rfl
  decodePadding_pos := by decide
  decodePadding_zero := rfl

set_option maxRecDepth 8000 in
theorem base32_lawful : base32.Lawful bits32 where
  width_pos := by decide
  width_le := by decide
  encode_step := base32_encodeStep
  decode_step := base32_decodeStep
  encodePadding_pos := by decide
  encode_zero := rfl
  decode_zero := rfl
  encode_bits := by decide
  decode_bits := by decide
  decode_padding := by decide
  paddings := by decide
  dec_symbol := by decide
  dec_fold := forall_byte (by decide)
  dec_end := by decide
  fold_end := rfl
  decodePadding_pos := by decide
  decodePadding_zero := rfl

namespace BitText

/-- What is claimed of a byte string and of a text. -/
structure Exact (v str : List UInt8) : Prop where
  decode_encode64 : decodeBase64 (encodeBase64 v) = (v, false)
  decode_encode32 : decodeBase32 (encodeBase32 v) = (v, false)
  encode_decode64 : ∀ w, base64.Closed str → decodeBase64 str = (w, false) → encodeBase64 w = str
  encode_decode32 : ∀ w, base32.Closed str → decodeBase32 str = (w, false) →
    encodeBase32 w = str.map tolower

/-- Both codecs are exact on every text that ends where its padding does; base 32 does not tell
capital letters from small ones. -/
theorem exact_text (v str : List UInt8) : Exact v str where
  decode_encode64 := base64_lawful.decode_encode v
  decode_encode32 := base32_lawful.decode_encode v
  encode_decode64 := by
    intro w hclosed hdecode
    have hencode := base64_lawful.encode_decode hclosed hdecode
    have hfold : str.map bits64.fold = str := List.map_id str
    exact hencode.trans hfold
  encode_decode32 := fun _ hclosed hdecode => base32_lawful.encode_decode hclosed hdecode

/-- Capital letters are decoded in base 32, and what is behind a text is not looked at in
base 64. -/
theorem not_exact_text :
    (¬ ∀ str w, decodeBase32 str = (w, false) → encodeBase32 w = str) ∧
    ¬ ∀ str w, decodeBase64 str = (w, false) → encodeBase64 w = str := by
  constructor
  · intro hall
    have hdecode : decodeBase32 [77, 69, 61, 61, 61, 61, 61, 61] = ([97], false) := by decide
    have hencode : encodeBase32 [97] = [109, 101, 61, 61, 61, 61, 61, 61] := by decide
    have hback := hall _ _ hdecode
    rw [hencode] at hback
    contradiction
  · intro hall
    have hdecode : decodeBase64 [81, 85, 74, 68, 33] = ([65, 66, 67], false) := by decide
    have hencode : encodeBase64 [65, 66, 67] = [81, 85, 74, 68] := by decide
    have hback := hall _ _ hdecode
    rw [hencode] at hback
    contradiction

end BitText

end base64

section address

end address

end Lytix
