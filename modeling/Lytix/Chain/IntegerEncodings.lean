import Lytix.Chain.DiskBlockIndex

/-! The two encodings of integers in a stream. A compact size has one encoding, and no other is
accepted. A number of variable length is read in an integer type that may be too narrow for it:
it then wraps. -/
namespace Lytix.IntegerEncodings

open Readers DiskIndex

/-- An integer type of C++, by the number of its bytes. -/
structure IntType where
  size : ℕ
  signed : Bool
  size_pos : 0 < size

namespace IntType

def unsignedInt : IntType := ⟨4, false, by omega⟩
def int : IntType := ⟨4, true, by omega⟩

variable (I : IntType)

def bits : ℕ := 8 * I.size

def min : ℤ := if I.signed then -2 ^ (I.bits - 1) else 0

def max : ℤ := if I.signed then 2 ^ (I.bits - 1) - 1 else 2 ^ I.bits - 1

/-- What a variable of the type holds after an integer is assigned to it. -/
def wrap (x : ℤ) : ℤ := if I.signed then x.bmod (2 ^ I.bits) else x % 2 ^ I.bits

/-- The values of the type. -/
abbrev Value := {n : ℤ // I.min ≤ n ∧ n ≤ I.max}

instance : Inhabited I.Value where
  default := ⟨0, by
    have hpow : (0 : ℤ) < 2 ^ (I.bits - 1) := by positivity
    have hpow' : (0 : ℤ) < 2 ^ I.bits := by positivity
    unfold min max
    split_ifs <;> omega⟩

theorem two_pow_bits : (2 : ℤ) ^ I.bits = 2 * 2 ^ (I.bits - 1) := by
  have hsize := I.size_pos
  have hbits : I.bits = I.bits - 1 + 1 := by
    unfold bits
    omega
  rw [hbits, pow_succ, Nat.add_sub_cancel, mul_comm]

variable {I}

theorem wrap_modEq (x : ℤ) : I.wrap x ≡ x [ZMOD 2 ^ I.bits] := by
  unfold wrap
  split_ifs
  · have hmod := @Int.bmod_emod x (2 ^ I.bits)
    push_cast at hmod
    exact hmod
  · exact Int.mod_modEq x _

theorem wrap_congr {x y : ℤ} (h : x ≡ y [ZMOD 2 ^ I.bits]) : I.wrap x = I.wrap y := by
  have hmod : x % 2 ^ I.bits = y % 2 ^ I.bits := h
  unfold wrap
  split_ifs
  · have hcast : ((2 ^ I.bits : ℕ) : ℤ) = 2 ^ I.bits := by norm_num
    rw [← @Int.emod_bmod x, ← @Int.emod_bmod y, hcast, hmod]
  · exact hmod

theorem wrap_eq {x : ℤ} (hmin : I.min ≤ x) (hmax : x ≤ I.max) : I.wrap x = x := by
  have hhalf := I.two_pow_bits
  unfold min at hmin
  unfold max at hmax
  unfold wrap
  split_ifs at hmin hmax ⊢
  · have hcast : ((2 ^ I.bits : ℕ) : ℤ) = 2 * 2 ^ (I.bits - 1) := by
      rw [← hhalf]
      norm_num
    apply Int.bmod_eq_of_le
    · rw [hcast]
      omega
    · rw [hcast]
      omega
  · exact Int.emod_eq_of_lt hmin (by omega)

theorem wrap_le (x : ℤ) : I.wrap x ≤ I.max := by
  have hhalf := I.two_pow_bits
  have hpos : (0 : ℤ) < 2 ^ (I.bits - 1) := by positivity
  unfold wrap max
  split_ifs
  · have hcast : ((2 ^ I.bits : ℕ) : ℤ) = 2 * 2 ^ (I.bits - 1) := by
      rw [← hhalf]
      norm_num
    have hlt := @Int.bmod_lt x (2 ^ I.bits) (by positivity)
    rw [hcast] at hlt
    omega
  · have hlt := Int.emod_lt_of_pos x (by positivity : (0 : ℤ) < 2 ^ I.bits)
    omega

theorem min_nonpos : I.min ≤ 0 := by
  have hpos : (0 : ℤ) < 2 ^ (I.bits - 1) := by positivity
  unfold min
  split_ifs <;> omega

theorem max_lt : I.max < 2 ^ I.bits := by
  have hhalf := I.two_pow_bits
  have hpos : (0 : ℤ) < 2 ^ (I.bits - 1) := by positivity
  unfold max
  split_ifs <;> omega

theorem le_max : 127 ≤ I.max := by
  have hsize := I.size_pos
  have hpow : (2 : ℤ) ^ 7 ≤ 2 ^ (I.bits - 1) := by
    apply pow_le_pow_right₀ (by omega)
    unfold bits
    omega
  have hhalf := I.two_pow_bits
  unfold max
  split_ifs <;> omega

theorem Value.toNat_lt (n : I.Value) : n.1.toNat < 2 ^ I.bits := by
  have hpos : (0 : ℤ) < 2 ^ I.bits := by positivity
  have hlt := lt_of_le_of_lt n.2.2 I.max_lt
  zify
  omega

/-- A number that is not negative is its own value in the type exactly when it fits. -/
theorem wrap_natCast_eq_iff {n : ℕ} : I.wrap n = n ↔ (n : ℤ) ≤ I.max := by
  constructor
  · intro heq
    have hle := I.wrap_le n
    rw [heq] at hle
    exact hle
  · have hmin := I.min_nonpos
    exact wrap_eq (by omega)

end IntType

open IntType

/-- The loop of `WriteVarInt`. The bytes in `tmp` are those that are there so far, the latest one
first, and `room` is what is left of the array: there is no result when a byte would be written
behind its end. -/
def fillTmp (n : ℤ) (tmp : List UInt8) : ℕ → Option (List UInt8)
  | 0 => none
  | room + 1 =>
    let tmp' := UInt8.ofNat ((n % 128).toNat + if tmp ≠ [] then 128 else 0) :: tmp
    if n ≤ 127 then some tmp' else fillTmp (n / 128 - 1) tmp' room

def writeVarInt (I : IntType) (n : I.Value) : Option (List UInt8) :=
  fillTmp n.1 [] ((I.size * 8 + 6) / 7)

/-- The loop of `ReadVarInt`. -/
def readDigits (I : IntType) (n : ℤ) : Reader UInt8 ℤ
  | [] => none
  | chData :: is =>
    let n := I.wrap (n * 128 + (chData.toNat % 128 : ℕ))
    if 128 ≤ chData.toNat then readDigits I (I.wrap (n + 1)) is else some (n, is)

def readVarInt (I : IntType) : Reader UInt8 ℤ := readDigits I 0

/-- What is claimed of the encodings, for a value of an integer type and a stream. -/
structure Canonical (I : IntType) (n : I.Value) (is : List UInt8) : Prop where
  compactSize : ∀ nSize ≤ MAX_SIZE, Reads readCompactSize (writeCompactSize nSize) nSize
  accepted : ∀ nSize rest, readCompactSize.run is = some (nSize, rest) →
    is = writeCompactSize nSize ++ rest
  varInt : ∃ bytes, writeVarInt I n = some bytes ∧ Reads (readVarInt I) bytes n.1
  denotes : ∀ m rest, (readVarInt I).run is = some (m, rest) →
    ∃ bytes, VarInts.Complete bytes ∧ is = bytes ++ rest ∧ m = VarInts.denoted bytes

section compactSize

/-- A size that is checked was read, and is as long as it has to be. -/
theorem run_checkSize {least nSize nSizeRet : ℕ} {is rest : List UInt8}
    (h : (checkSize least nSize).run is = some (nSizeRet, rest)) :
    nSizeRet = nSize ∧ rest = is ∧ least ≤ nSize ∧ nSize ≤ MAX_SIZE := by
  unfold checkSize at h
  split_ifs at h with hbad
  · contradiction
  · have heq : some (nSize, is) = some (nSizeRet, rest) := h
    simp only [Option.some.injEq, Prod.mk.injEq] at heq
    exact ⟨heq.1.symm, heq.2.symm, by omega, by omega⟩

/-- A marker is followed by the bytes of the size. -/
theorem run_marked {k least nSize : ℕ} {is rest : List UInt8}
    (h : (LittleEndian.read k >>= checkSize least).run is = some (nSize, rest)) :
    is = leBytes k nSize ++ rest ∧ least ≤ nSize ∧ nSize < 256 ^ k := by
  rw [StateT.run_bind] at h
  cases hread : (LittleEndian.read k).run is with
  | none =>
    rw [hread] at h
    contradiction
  | some result =>
    obtain ⟨x, rest'⟩ := result
    rw [hread] at h
    obtain ⟨rfl, rfl, hleast, _⟩ := run_checkSize h
    obtain ⟨hbytes, hlt⟩ := LittleEndian.eq_bytes_of_read hread
    exact ⟨hbytes, hleast, hlt⟩

/-- Whatever is accepted as a size was written for it. -/
theorem readCompactSize_accepts {is rest : List UInt8} {nSize : ℕ}
    (h : readCompactSize.run is = some (nSize, rest)) : is = writeCompactSize nSize ++ rest := by
  cases is with
  | nil => contradiction
  | cons chSize is =>
    unfold readCompactSize at h
    rw [StateT.run_bind] at h
    change StateT.run (if chSize < 253 then _ else _) is = _ at h
    unfold writeCompactSize
    split_ifs at h with hone htwo hfour
    · obtain ⟨rfl, rfl, _, _⟩ := run_checkSize h
      have hsmall : chSize.toNat < 253 := hone
      rw [if_pos hsmall, UInt8.ofNat_toNat]
      rfl
    · obtain ⟨rfl, hleast, hlt⟩ := run_marked h
      have hmark : chSize = 253 := htwo
      rw [if_neg (by omega), if_pos (by omega), hmark, List.cons_append]
    · obtain ⟨rfl, hleast, hlt⟩ := run_marked h
      have hmark : chSize = 254 := hfour
      rw [if_neg (by omega), if_neg (by omega), if_pos (by omega), hmark, List.cons_append]
    · obtain ⟨rfl, hleast, hlt⟩ := run_marked h
      have hlast : chSize = 255 := by
        have hlarge : ¬ chSize.toNat < 253 := hone
        have hbyte := chSize.toNat_lt
        rw [← UInt8.toNat_inj] at htwo hfour ⊢
        change chSize.toNat ≠ 253 at htwo
        change chSize.toNat ≠ 254 at hfour
        change chSize.toNat = 255
        omega
      rw [if_neg (by omega), if_neg (by omega), if_neg (by omega), hlast, List.cons_append]

end compactSize

section varInt
variable {I : IntType}

/-- The array is large enough for the bytes of a number with that many digits, which end up in
front of those that are there. -/
theorem fillTmp_eq {n room : ℕ} {tmp : List UInt8} (htmp : tmp ≠ [])
    (hroom : VarInts.size n ≤ room) : fillTmp n tmp room = some (VarInts.more n ++ tmp) := by
  induction room generalizing n tmp with
  | zero =>
    rw [VarInts.size] at hroom
    split_ifs at hroom <;> omega
  | succ room ih =>
    have hdigit : ((n : ℤ) % 128).toNat = n % 128 := by omega
    rw [VarInts.size] at hroom
    rw [fillTmp, if_pos htmp, hdigit, VarInts.more]
    by_cases hlarge : 127 < n
    · have hnext : (n : ℤ) / 128 - 1 = (n / 128 - 1 : ℕ) := by omega
      rw [if_pos hlarge] at hroom
      rw [if_neg (by omega), if_pos hlarge, hnext, ih (List.cons_ne_nil _ _) (by omega),
        List.append_assoc, List.singleton_append]
    · rw [if_pos (by omega), if_neg hlarge, List.nil_append, List.singleton_append]

/-- From an empty array the digits of the number are written. -/
theorem fillTmp_nil {n room : ℕ} (hroom : VarInts.size n ≤ room) :
    fillTmp n [] room = some (VarInts.write n) := by
  cases room with
  | zero =>
    rw [VarInts.size] at hroom
    split_ifs at hroom <;> omega
  | succ room =>
    have hdigit : ((n : ℤ) % 128).toNat = n % 128 := by omega
    rw [VarInts.size] at hroom
    rw [fillTmp, if_neg (not_not.mpr rfl), hdigit, VarInts.write, Nat.add_zero]
    by_cases hlarge : 127 < n
    · have hnext : (n : ℤ) / 128 - 1 = (n / 128 - 1 : ℕ) := by omega
      rw [if_pos hlarge] at hroom
      rw [if_neg (by omega), if_pos hlarge, hnext, fillTmp_eq (List.cons_ne_nil _ _) (by omega)]
    · rw [if_pos (by omega), if_neg hlarge, List.nil_append]

theorem exists_room (I : IntType) : ∃ room, (I.size * 8 + 6) / 7 = room + 1 := by
  have hsize := I.size_pos
  exact ⟨(I.size * 8 + 6) / 7 - 1, by omega⟩

/-- What is written for a number that is not negative: its digits, and the array has room for
them. -/
theorem writeVarInt_eq (n : I.Value) (hn : 0 ≤ n.1) :
    writeVarInt I n = some (VarInts.write n.1.toNat) := by
  obtain ⟨room, hroom⟩ := exists_room I
  have hvalue : n.1 = (n.1.toNat : ℤ) := (Int.toNat_of_nonneg hn).symm
  have hsmall : n.1.toNat < 128 ^ (room + 1) := by
    have hbits : I.bits ≤ 7 * (room + 1) := by
      unfold bits
      omega
    calc n.1.toNat < 2 ^ I.bits := Value.toNat_lt n
      _ ≤ 2 ^ (7 * (room + 1)) := Nat.pow_le_pow_right (by omega) hbits
      _ = (2 ^ 7) ^ (room + 1) := pow_mul 2 7 (room + 1)
  unfold writeVarInt
  rw [hvalue, hroom, fillTmp_nil (VarInts.size_le hsmall)]
  rfl

/-- The loop ends at once on a negative number: the last seven bits of it are written. -/
theorem writeVarInt_neg (n : I.Value) (hn : n.1 < 0) :
    writeVarInt I n = some [UInt8.ofNat (n.1 % 128).toNat] := by
  obtain ⟨room, hroom⟩ := exists_room I
  unfold writeVarInt
  rw [hroom, fillTmp, if_neg (not_not.mpr rfl), if_pos (by omega)]
  rfl

/-- The loop in an integer type is the one in as many bits, up to the sign. -/
theorem readDigits_eq (n : ℕ) (is : List UInt8) : readDigits I (I.wrap n) is =
    (VarInts.readFrom I.bits n is).map fun (m, rest) => (I.wrap m, rest) := by
  induction is generalizing n with
  | nil => rfl
  | cons chData is ih =>
    have hshift : I.wrap (I.wrap n * 128 + (chData.toNat % 128 : ℕ)) =
        I.wrap ((n * 128 + chData.toNat % 128) % 2 ^ I.bits : ℕ) := by
      apply wrap_congr
      push_cast
      exact (((wrap_modEq _).mul_right _).add_right _).trans (Int.mod_modEq _ _).symm
    have hnext (m : ℕ) : I.wrap (I.wrap m + 1) = I.wrap ((m + 1) % 2 ^ I.bits : ℕ) := by
      apply wrap_congr
      push_cast
      exact ((wrap_modEq _).add_right _).trans (Int.mod_modEq _ _).symm
    rw [readDigits, VarInts.readFrom, hshift, hnext]
    split_ifs
    · exact ih _
    · rfl

theorem run_readVarInt (is : List UInt8) : (readVarInt I).run is =
    ((VarInts.read I.bits).run is).map fun (m, rest) => (I.wrap m, rest) := by
  have hzero : I.wrap (0 : ℕ) = 0 := I.wrap_natCast_eq_iff.mpr (default : I.Value).2.2
  have hloop := readDigits_eq (I := I) 0 is
  rw [hzero] at hloop
  exact hloop

/-- What is returned is what the bytes denote, wrapped to the type. -/
theorem run_readVarInt_iff {m : ℤ} {is rest : List UInt8} :
    (readVarInt I).run is = some (m, rest) ↔ ∃ bytes, VarInts.Complete bytes ∧
      is = bytes ++ rest ∧ m = I.wrap (VarInts.denoted bytes) := by
  have hmod (k : ℕ) : I.wrap (k % 2 ^ I.bits : ℕ) = I.wrap k := by
    apply wrap_congr
    push_cast
    exact Int.mod_modEq _ _
  rw [run_readVarInt, Option.map_eq_some_iff]
  constructor
  · rintro ⟨⟨k, rest'⟩, hread, heq⟩
    obtain ⟨rfl, rfl⟩ := Prod.mk.inj heq
    obtain ⟨bytes, hbytes, his, rfl⟩ := VarInts.run_read_iff.mp hread
    exact ⟨bytes, hbytes, his, hmod _⟩
  · rintro ⟨bytes, hbytes, his, rfl⟩
    have hread := (VarInts.run_read_iff (w := I.bits)).mpr ⟨bytes, hbytes, his, rfl⟩
    exact ⟨_, hread, Prod.ext (hmod _) rfl⟩

/-- The digits of a number are read back, wrapped to the type. -/
theorem reads_digits {k : ℕ} (hk : k < 2 ^ I.bits) :
    Reads (readVarInt I) (VarInts.write k) (I.wrap k) := by
  intro rest
  rw [run_readVarInt, VarInts.reads_write hk rest]
  rfl

/-- A value comes back exactly when it is not negative. -/
theorem varInt_roundtrip_iff (n : I.Value) :
    (∃ bytes, writeVarInt I n = some bytes ∧ Reads (readVarInt I) bytes n.1) ↔ 0 ≤ n.1 := by
  constructor
  · rintro ⟨bytes, hwrite, hreads⟩
    by_contra hneg
    have hmax := I.le_max
    have hlt := I.max_lt
    have hsmall : (n.1 % 128).toNat ≤ 127 := by omega
    have hbits : (n.1 % 128).toNat < 2 ^ I.bits := by
      zify
      omega
    rw [writeVarInt_neg n (by omega), ← VarInts.write_of_le hsmall, Option.some.injEq] at hwrite
    have hback := reads_digits (I := I) hbits
    rw [hwrite, I.wrap_natCast_eq_iff.mpr (by omega)] at hback
    have hsame := hreads.unique hback
    omega
  · intro hn
    have hvalue : I.wrap n.1.toNat = n.1 := by
      rw [Int.toNat_of_nonneg hn]
      exact wrap_eq n.2.1 n.2.2
    have hback := reads_digits (Value.toNat_lt n)
    rw [hvalue] at hback
    exact ⟨_, writeVarInt_eq n hn, hback⟩

/-- The numbers that a stream begins with, each of which a reader could take, fit the type. -/
def Fits (I : IntType) (is : List UInt8) : Prop :=
  ∀ bytes rest, is = bytes ++ rest → VarInts.Complete bytes → (VarInts.denoted bytes : ℤ) ≤ I.max

/-- What is returned is never a wrapped value exactly when the number fits. -/
theorem denotes_iff (is : List UInt8) :
    (∀ m rest, (readVarInt I).run is = some (m, rest) →
      ∃ bytes, VarInts.Complete bytes ∧ is = bytes ++ rest ∧ m = VarInts.denoted bytes) ↔
    Fits I is := by
  constructor
  · intro hall bytes rest his hbytes
    have hrun := (run_readVarInt_iff (I := I)).mpr ⟨bytes, hbytes, his, rfl⟩
    obtain ⟨bytes', _, his', hvalue⟩ := hall _ _ hrun
    have hsame : bytes' = bytes := List.append_cancel_right (his'.symm.trans his)
    rw [hsame] at hvalue
    exact I.wrap_natCast_eq_iff.mp hvalue
  · intro hfits m rest hrun
    obtain ⟨bytes, hbytes, his, rfl⟩ := run_readVarInt_iff.mp hrun
    exact ⟨bytes, hbytes, his, I.wrap_natCast_eq_iff.mpr (hfits bytes rest his hbytes)⟩

/-- `ReadVarInt` and `WriteVarInt` of an `int` are those of the records on disk. -/
theorem readVarInt_int (is : List UInt8) :
    (readVarInt IntType.int).run is = Lytix.readVarInt.run is := by
  have hbits : IntType.int.bits = 32 := rfl
  have hwrap (m : ℤ) : IntType.int.wrap m = m.bmod (2 ^ 32) := by
    have hsigned : IntType.int.signed = true := rfl
    unfold wrap
    rw [if_pos hsigned, hbits]
  unfold Lytix.readVarInt
  rw [run_readVarInt, hbits, StateT.run_bind]
  cases (VarInts.read 32).run is with
  | none => rfl
  | some result =>
    have hpair : (IntType.int.wrap result.1, result.2) =
        ((result.1 : ℤ).bmod (2 ^ 32), result.2) := by rw [hwrap]
    exact congrArg some hpair

theorem writeVarInt_int (n : IntType.int.Value) :
    writeVarInt IntType.int n = some (Lytix.writeVarInt n.1) := by
  unfold Lytix.writeVarInt
  by_cases hneg : n.1 < 0
  · rw [writeVarInt_neg n hneg, if_pos (by omega)]
  · rw [writeVarInt_eq n (by omega)]
    split_ifs with hsmall
    · have hdigit : (n.1 % 128).toNat = n.1.toNat := by omega
      rw [VarInts.write_of_le (by omega), hdigit]
    · rfl

end varInt

/-- The encodings keep what is claimed of them for a value and a stream exactly when the value is
not negative and the stream begins with no number that is too large for the type. -/
theorem canonical_iff (I : IntType) (n : I.Value) (is : List UInt8) :
    Canonical I n is ↔ 0 ≤ n.1 ∧ Fits I is := by
  constructor
  · intro h
    exact ⟨(varInt_roundtrip_iff n).mp h.varInt, (denotes_iff is).mp h.denotes⟩
  · rintro ⟨hn, hfits⟩
    exact {
      compactSize := fun _ hsize => reads_compactSize hsize
      accepted := fun _ _ hrun => readCompactSize_accepts hrun
      varInt := (varInt_roundtrip_iff n).mpr hn
      denotes := (denotes_iff is).mpr hfits }

/-- Five bytes that denote 2 ^ 32 are read as zero into 32 bits. -/
theorem not_canonical :
    ¬ ∀ (I : IntType) (n : I.Value) (is : List UInt8), Canonical I n is := by
  intro hall
  have hcanonical := hall IntType.unsignedInt default [0x8E, 0xFE, 0xFE, 0xFF, 0x00]
  have hread : (readVarInt IntType.unsignedInt).run [0x8E, 0xFE, 0xFE, 0xFF, 0x00] =
      some (0, []) := by rfl
  obtain ⟨bytes, _, hbytes, hvalue⟩ := hcanonical.denotes _ _ hread
  rw [List.append_nil] at hbytes
  have hdenoted : VarInts.denoted [0x8E, 0xFE, 0xFE, 0xFF, 0x00] = 2 ^ 32 := by decide
  rw [← hbytes, hdenoted] at hvalue
  contradiction

end Lytix.IntegerEncodings
