import Lytix.Script.SigOpCount

/-! The encoding of numbers on the stack, in the 64-bit integers of script.h. -/
namespace Lytix

open Checks

namespace CScriptNum

/-- `nMaxNumSize`. -/
def nMaxNumSize : ℕ := 4

/-- `while (absvalue)`. -/
def absBytes (absvalue : UInt64) : valtype :=
  if _h : absvalue = 0 then []
  else (absvalue &&& 0xff).toUInt8 :: absBytes (absvalue >>> 8)
termination_by absvalue.toNat
decreasing_by
  have hpos : absvalue.toNat ≠ 0 := fun hzero => _h (UInt64.toNat_inj.mp hzero)
  have hshift : (8 : UInt64).toNat % 64 = 8 := by decide
  rw [UInt64.toNat_shiftRight, hshift, Nat.shiftRight_eq_div_pow]
  omega

/-- The sign, in a byte of its own where the highest bit is taken. -/
def signed (neg : Bool) (result : valtype) : valtype :=
  match result.getLast? with
  | none => []
  | some back =>
    if back &&& 0x80 ≠ 0 then result ++ [if neg then 0x80 else 0]
    else if neg then result.dropLast ++ [back ||| 0x80]
    else result

/-- `serialize`. -/
def serializeInt64 (value : Int64) : valtype :=
  if value = 0 then []
  else
    let neg := decide (value < 0)
    let absvalue := (if neg then -value else value).toUInt64
    signed neg (absBytes absvalue)

/-- `result |= static_cast<int64_t>(vch[i]) << 8*i`, from byte `i` on. -/
def orBytes (i : ℕ) (result : UInt64) : valtype → UInt64
  | [] => result
  | b :: vch => orBytes (i + 1) (result ||| b.toUInt64 <<< UInt64.ofNat (8 * i)) vch

/-- `set_vch`, defined for eight bytes at most: a shift by more bits is undefined. -/
def set_vchInt64 (vch : valtype) : Int64 :=
  match vch.getLast? with
  | none => 0
  | some back =>
    let result := orBytes 0 0 vch
    if back &&& 0x80 ≠ 0 then
      -(result &&& ~~~(0x80 <<< UInt64.ofNat (8 * (vch.length - 1)))).toInt64
    else result.toInt64

/-- The constructor of bytes. -/
def ofBytesInt64 (vch : valtype) (fRequireMinimal : Bool) : Except Fault Int64 := do
  stopIf (nMaxNumSize < vch.length) .scriptnum_error
  stopIf (fRequireMinimal && isPadded vch) .scriptnum_error
  return set_vchInt64 vch

/-! The encoding in numbers without a bound. -/

theorem serialize_eq_signed (value : Int) : serialize value =
    signed (decide (value < 0)) (LittleEndian.shortest (value.natAbs % 2 ^ 64)) := by
  dsimp only [serialize, signed, LittleEndian.shortest]
  generalize (Nat.digits 256 (value.natAbs % 2 ^ 64)).map UInt8.ofNat = result
  cases result.getLast? with
  | none => rfl
  | some back => simp

set_option maxRecDepth 4000 in
theorem or_sign : ∀ back : UInt8, back &&& 0x80 = 0 →
    (back ||| 0x80) &&& 0x80 ≠ 0 ∧ (back ||| 0x80) &&& 0x7f = back ∧ back &&& 0x7f = back :=
  forall_byte (by decide)

set_option maxRecDepth 4000 in
theorem and_sign : ∀ back : UInt8, back &&& 0x80 ≠ 0 →
    back.toNat = (back &&& 0x7f).toNat + 0x80 ∧ (back &&& 0x7f) &&& 0x80 = 0 ∧
      (back &&& 0x7f) ||| 0x80 = back ∧ back ≠ 0 :=
  forall_byte (by decide)

set_option maxRecDepth 4000 in
theorem sign_alone : ∀ back : UInt8, back &&& 0x7f = 0 →
    back = if back &&& 0x80 ≠ 0 then 0x80 else 0 :=
  forall_byte (by decide)

/-- The number that the bytes below the sign and the bits beside it stand for. -/
theorem set_vch_append (init : valtype) (back : UInt8) :
    set_vch (init ++ [back]) =
      if back &&& 0x80 ≠ 0 then -(LittleEndian.value (init ++ [back &&& 0x7f]) : Int)
      else LittleEndian.value (init ++ [back &&& 0x7f]) := by
  unfold set_vch
  simp only [List.getLast?_append, List.getLast?_singleton, Option.some_or, List.length_append,
    List.length_singleton, Nat.add_sub_cancel, LittleEndian.value_append,
    LittleEndian.value_singleton]
  split_ifs with hsign
  · rw [(and_sign back hsign).1]
    push_cast
    ring
  · rw [(or_sign back (by simpa using hsign)).2.2]

theorem natAbs_set_vch_lt (vch : valtype) : (set_vch vch).natAbs < 256 ^ vch.length := by
  cases vch using List.reverseRecOn with
  | nil => decide
  | append_singleton init back =>
    have hlt := LittleEndian.value_lt (init ++ [back &&& 0x7f])
    rw [set_vch_append, List.length_append, List.length_singleton]
    rw [List.length_append, List.length_singleton] at hlt
    split_ifs
    · rwa [Int.natAbs_neg, Int.natAbs_natCast]
    · rwa [Int.natAbs_natCast]

theorem isPadded_append (init : valtype) (back : UInt8) :
    isPadded (init ++ [back]) = true ↔
      back &&& 0x7f = 0 ∧ ∀ below, init.getLast? = some below → below &&& 0x80 = 0 := by
  cases init using List.reverseRecOn with
  | nil => simp [isPadded]
  | append_singleton init below => simp [isPadded]

/-- The forms of an encoded magnitude without zeros at its top. -/
theorem signed_append (neg : Bool) (init : valtype) (back : UInt8) :
    signed neg (init ++ [back]) =
      if back &&& 0x80 ≠ 0 then init ++ [back] ++ [if neg then 0x80 else 0]
      else if neg then init ++ [back ||| 0x80] else init ++ [back] := by
  unfold signed
  simp

theorem set_vch_signed (neg : Bool) (magnitude : valtype) :
    set_vch (signed neg magnitude) =
      if neg then -(LittleEndian.value magnitude : Int) else LittleEndian.value magnitude := by
  cases magnitude using List.reverseRecOn with
  | nil => cases neg <;> rfl
  | append_singleton init back =>
    rw [signed_append]
    split_ifs with hsign hneg hneg
    · rw [set_vch_append, if_pos (by decide), LittleEndian.value_append (init ++ [back])]
      simp [LittleEndian.value_singleton]
    · rw [set_vch_append, if_neg (by decide), LittleEndian.value_append (init ++ [back])]
      simp [LittleEndian.value_singleton]
    · obtain ⟨hset, hback, _⟩ := or_sign back (by simpa using hsign)
      rw [set_vch_append, if_pos hset, hback]
    · obtain ⟨_, _, hback⟩ := or_sign back (by simpa using hsign)
      rw [set_vch_append, if_neg hsign, hback]

theorem not_isPadded_signed (neg : Bool) {magnitude : valtype}
    (h : magnitude.getLast? ≠ some 0) : isPadded (signed neg magnitude) = false := by
  cases magnitude using List.reverseRecOn with
  | nil => rfl
  | append_singleton init back =>
    have hback : back ≠ 0 := by simpa using h
    rw [← Bool.not_eq_true, signed_append]
    split_ifs with hsign hneg hneg
    all_goals rw [isPadded_append]
    · intro hpadded
      exact hsign (hpadded.2 back (by simp))
    · intro hpadded
      exact hsign (hpadded.2 back (by simp))
    · intro hpadded
      rw [(or_sign back (by simpa using hsign)).2.1] at hpadded
      exact hback hpadded.1
    · intro hpadded
      rw [(or_sign back (by simpa using hsign)).2.2] at hpadded
      exact hback hpadded.1

/-- Every encoding that is not padded is the one of its magnitude and its sign. -/
theorem exists_signed_of_not_padded {vch : valtype} (h : isPadded vch = false) :
    ∃ neg magnitude, vch = signed neg magnitude ∧ magnitude.getLast? ≠ some 0 ∧
      (magnitude = [] → neg = false) ∧ magnitude.length ≤ vch.length := by
  cases vch using List.reverseRecOn with
  | nil => exact ⟨false, [], rfl, by simp, fun _ => rfl, le_rfl⟩
  | append_singleton init back =>
    rw [← Bool.not_eq_true, isPadded_append] at h
    by_cases hback : back &&& 0x7f = 0
    · -- the byte of the sign holds nothing else, so the byte below fills its own
      obtain ⟨below, hlast, hbelow⟩ : ∃ below, init.getLast? = some below ∧
          below &&& 0x80 ≠ 0 := by
        by_contra hnone
        exact h ⟨hback, fun below hlast => by_contra fun hne => hnone ⟨below, hlast, hne⟩⟩
      obtain ⟨rest, rfl⟩ := List.getLast?_eq_some_iff.mp hlast
      refine ⟨decide (back &&& 0x80 ≠ 0), rest ++ [below], ?_, ?_, by simp, by simp⟩
      · rw [signed_append, if_pos hbelow]
        simp only [decide_eq_true_eq]
        rw [← sign_alone back hback]
      · simpa using (and_sign below hbelow).2.2.2
    · refine ⟨decide (back &&& 0x80 ≠ 0), init ++ [back &&& 0x7f], ?_, by simpa using hback,
        by simp, by simp⟩
      rw [signed_append]
      by_cases hsign : back &&& 0x80 = 0
      · obtain ⟨_, _, hplain⟩ := or_sign back hsign
        simp [hsign, hplain]
      · obtain ⟨_, hclear, hor, _⟩ := and_sign back hsign
        simp [hsign, hclear, hor]

theorem set_vch_serialize {n : Int} (hn : n.natAbs < 2 ^ 64) : set_vch (serialize n) = n := by
  rw [serialize_eq_signed, set_vch_signed, LittleEndian.value_shortest, Nat.mod_eq_of_lt hn]
  by_cases hneg : n < 0
  · simp [hneg, abs_of_neg hneg]
  · simp [hneg, abs_of_nonneg (not_lt.mp hneg)]

theorem not_isPadded_serialize (n : Int) : isPadded (serialize n) = false := by
  rw [serialize_eq_signed]
  exact not_isPadded_signed _ (LittleEndian.getLast?_shortest _)

theorem serialize_set_vch {vch : valtype} (hlength : vch.length ≤ 8) (h : isPadded vch = false) :
    serialize (set_vch vch) = vch := by
  obtain ⟨neg, magnitude, rfl, hlast, hzero, hle⟩ := exists_signed_of_not_padded h
  have hrange : LittleEndian.value magnitude < 2 ^ 64 := by
    calc
      LittleEndian.value magnitude < 256 ^ magnitude.length := LittleEndian.value_lt magnitude
      _ ≤ 256 ^ 8 := Nat.pow_le_pow_right (by omega) (hle.trans hlength)
      _ = 2 ^ 64 := by norm_num
  have hshortest := LittleEndian.shortest_value hlast
  cases neg with
  | false =>
    have hvalue : set_vch (signed false magnitude) = (LittleEndian.value magnitude : Int) :=
      set_vch_signed false magnitude
    have hsign : decide ((LittleEndian.value magnitude : Int) < 0) = false := by simp
    rw [hvalue, serialize_eq_signed, Int.natAbs_natCast, Nat.mod_eq_of_lt hrange, hshortest, hsign]
  | true =>
    have hvalue : set_vch (signed true magnitude) = -(LittleEndian.value magnitude : Int) :=
      set_vch_signed true magnitude
    have hpos : LittleEndian.value magnitude ≠ 0 := by
      intro hnothing
      rw [hnothing] at hshortest
      exact absurd (hzero hshortest.symm) (by decide)
    have hsign : decide (-(LittleEndian.value magnitude : Int) < 0) = true := by
      simpa using Nat.pos_of_ne_zero hpos
    rw [hvalue, serialize_eq_signed, Int.natAbs_neg, Int.natAbs_natCast, Nat.mod_eq_of_lt hrange,
      hshortest, hsign]

/-! The 64-bit integers hold what the encoding without a bound computes. -/

theorem absBytes_eq (absvalue : UInt64) :
    absBytes absvalue = LittleEndian.shortest absvalue.toNat := by
  induction absvalue using absBytes.induct with
  | case1 =>
    rw [absBytes]
    rfl
  | case2 absvalue hne ih =>
    have hpos : 0 < absvalue.toNat := Nat.pos_of_ne_zero fun h => hne (UInt64.toNat_inj.mp h)
    have hmask : (0xff : UInt64).toNat = 2 ^ 8 - 1 := by decide
    have hshift : (8 : UInt64).toNat % 64 = 8 := by decide
    have hbyte : (absvalue &&& 0xff).toUInt8 = UInt8.ofNat (absvalue.toNat % 256) := by
      apply UInt8.toNat_inj.mp
      rw [UInt64.toNat_toUInt8, UInt64.toNat_and, hmask, Nat.and_two_pow_sub_one_eq_mod,
        UInt8.toNat_ofNat']
    have hrest : (absvalue >>> 8).toNat = absvalue.toNat / 256 := by
      rw [UInt64.toNat_shiftRight, hshift, Nat.shiftRight_eq_div_pow]
    rw [absBytes, dif_neg hne, ih, hbyte, hrest]
    unfold LittleEndian.shortest
    rw [Nat.digits_def' (by omega) hpos, List.map_cons]

theorem toInt_toInt64 {x : UInt64} (hx : x.toNat < 2 ^ 63) : x.toInt64.toInt = x.toNat := by
  have hbits : x.toBitVec.toNat = x.toNat := rfl
  rw [← Int64.toInt_toBitVec, UInt64.toBitVec_toInt64, BitVec.toInt_eq_toNat_of_lt (by omega), hbits]

theorem toInt_neg {n : Int64} (hn : n ≠ Int64.minValue) : (-n).toInt = -n.toInt := by
  have hlt := n.toInt_lt
  have hle := n.le_toInt
  have hne : n.toInt ≠ -2 ^ 63 := by
    intro h
    exact hn (Int64.toInt.inj (h.trans Int64.toInt_minValue.symm))
  rw [Int64.toInt_neg]
  exact Int.bmod_eq_of_le (by omega) (by omega)

theorem toNat_toUInt64_of_nonneg {n : Int64} (hn : 0 ≤ n.toInt) :
    n.toUInt64.toNat = n.toInt.natAbs := by
  have hbits : n.toBitVec.toNat = n.toUInt64.toNat := rfl
  have hcases := BitVec.toInt_eq_toNat_cond n.toBitVec
  have hlt := n.toUInt64.toNat_lt
  rw [Int64.toInt_toBitVec, hbits] at hcases
  split_ifs at hcases <;> omega

/-- The magnitude fits unless the number is the least one, which has no opposite. -/
theorem toNat_absvalue {n : Int64} (hn : n ≠ Int64.minValue) :
    ((if n < 0 then -n else n).toUInt64).toNat = n.toInt.natAbs := by
  have hsign : n < 0 ↔ n.toInt < 0 := by rw [Int64.lt_iff_toInt_lt, Int64.toInt_zero]
  split_ifs with hneg
  · have hopposite := toInt_neg hn
    have hless := hsign.mp hneg
    rw [toNat_toUInt64_of_nonneg (by omega), hopposite, Int.natAbs_neg]
  · exact toNat_toUInt64_of_nonneg (not_lt.mp fun hless => hneg (hsign.mpr hless))

theorem serializeInt64_eq {n : Int64} (hn : n ≠ Int64.minValue) :
    serializeInt64 n = serialize n.toInt := by
  have hrange : n.toInt.natAbs < 2 ^ 64 := by
    have hle := n.le_toInt
    have hlt := n.toInt_lt
    omega
  rw [serialize_eq_signed, Nat.mod_eq_of_lt hrange]
  unfold serializeInt64
  by_cases hzero : n = 0
  · subst hzero
    simp [LittleEndian.shortest, signed]
  · have hneg : decide (n < 0) = decide (n.toInt < 0) := by
      simp [Int64.lt_iff_toInt_lt]
    rw [if_neg hzero]
    simp only [decide_eq_true_eq]
    rw [absBytes_eq, toNat_absvalue hn, hneg]

theorem toNat_orBytes {vch : valtype} {i : ℕ} {result : UInt64} (hi : i + vch.length ≤ 8)
    (hresult : result.toNat < 2 ^ (8 * i)) :
    (orBytes i result vch).toNat = result.toNat + 2 ^ (8 * i) * LittleEndian.value vch := by
  induction vch generalizing i result with
  | nil => simp [orBytes, LittleEndian.value_nil]
  | cons b vch ih =>
    have hlength : i + 1 + vch.length ≤ 8 := by
      rw [List.length_cons] at hi
      omega
    have hamount : (UInt64.ofNat (8 * i)).toNat % 64 = 8 * i := by
      rw [UInt64.toNat_ofNat']
      omega
    have hbyte := b.toNat_lt
    have hplace : 2 ^ (8 * i) * b.toNat < 2 ^ 64 := by
      calc
        2 ^ (8 * i) * b.toNat < 2 ^ (8 * i) * 2 ^ 8 :=
          Nat.mul_lt_mul_of_pos_left hbyte (Nat.two_pow_pos _)
        _ = 2 ^ (8 * i + 8) := (pow_add 2 _ _).symm
        _ ≤ 2 ^ 64 := Nat.pow_le_pow_right (by omega) (by omega)
    have hshift : (b.toUInt64 <<< UInt64.ofNat (8 * i)).toNat = 2 ^ (8 * i) * b.toNat := by
      rw [UInt64.toNat_shiftLeft, hamount, UInt8.toNat_toUInt64, Nat.shiftLeft_eq, mul_comm,
        Nat.mod_eq_of_lt hplace]
    have hor : (result ||| b.toUInt64 <<< UInt64.ofNat (8 * i)).toNat =
        2 ^ (8 * i) * b.toNat + result.toNat := by
      rw [UInt64.toNat_or, hshift, Nat.or_comm, Nat.two_pow_add_eq_or_of_lt hresult]
    have hpow : 2 ^ (8 * (i + 1)) = 2 ^ (8 * i) * 256 := by
      rw [Nat.mul_succ, pow_add]
      norm_num
    have hnext : 2 ^ (8 * i) * b.toNat + result.toNat < 2 ^ (8 * (i + 1)) := by
      rw [hpow]
      nlinarith
    rw [orBytes, ih hlength (by rw [hor]; exact hnext), hor, hpow, LittleEndian.value_cons]
    ring

/-- The bit of the sign is taken out of the top byte. -/
theorem toNat_clearSign {init : valtype} {back : UInt8} {result : UInt64}
    (hlength : init.length ≤ 7) (hresult : result.toNat = LittleEndian.value (init ++ [back])) :
    (result &&& ~~~(0x80 <<< UInt64.ofNat (8 * init.length))).toNat =
      LittleEndian.value (init ++ [back &&& 0x7f]) := by
  have hamount : (UInt64.ofNat (8 * init.length)).toNat % 64 = 8 * init.length := by
    rw [UInt64.toNat_ofNat']
    omega
  have hsign : (0x80 : UInt64).toNat = 2 ^ 7 := by decide
  have hmask : (0x7f : UInt8).toNat = 2 ^ 7 - 1 := by decide
  have hplace : 2 ^ (7 + 8 * init.length) < 2 ^ 64 := Nat.pow_lt_pow_right (by omega) (by omega)
  have hlow : LittleEndian.value init < 2 ^ (8 * init.length) := by
    rw [pow_mul]
    exact LittleEndian.value_lt init
  have hbit : (0x80 <<< UInt64.ofNat (8 * init.length) : UInt64).toNat =
      2 ^ (7 + 8 * init.length) := by
    rw [UInt64.toNat_shiftLeft, hamount, hsign, Nat.shiftLeft_eq, ← pow_add,
      Nat.mod_eq_of_lt hplace]
  have hparts (b : UInt8) : LittleEndian.value (init ++ [b]) =
      2 ^ (8 * init.length) * b.toNat + LittleEndian.value init := by
    rw [LittleEndian.value_append, LittleEndian.value_singleton, pow_mul, add_comm]
    norm_num
  apply Nat.eq_of_testBit_eq
  intro j
  have hnot : (~~~(0x80 <<< UInt64.ofNat (8 * init.length)) : UInt64).toNat =
      2 ^ 64 - (2 ^ (7 + 8 * init.length) + 1) := by
    rw [UInt64.toNat_not, hbit, Nat.sub_sub, add_comm 1]
    rfl
  rw [UInt64.toNat_and, hnot, Nat.testBit_and, Nat.testBit_two_pow_sub_succ hplace, hresult,
    hparts, hparts, Nat.testBit_two_pow_mul_add _ hlow, Nat.testBit_two_pow_mul_add _ hlow,
    UInt8.toNat_and, hmask, Nat.testBit_and, Nat.testBit_two_pow_sub_one, Nat.testBit_two_pow]
  split_ifs with hbelow
  · have hin : j < 64 := by omega
    have hother : ¬ 7 + 8 * init.length = j := by omega
    simp [hin, hother]
  · by_cases htop : j - 8 * init.length < 7
    · have hin : j < 64 := by omega
      have hother : ¬ 7 + 8 * init.length = j := by omega
      simp [hin, hother, htop]
    · by_cases hseven : 7 + 8 * init.length = j
      · simp [hseven, htop]
      · have hbits : back.toNat < 2 ^ (j - 8 * init.length) :=
          lt_of_lt_of_le back.toNat_lt (Nat.pow_le_pow_right (by omega) (by omega))
        simp [htop, Nat.testBit_lt_two_pow hbits]

theorem toInt_set_vchInt64 {vch : valtype} (hlength : vch.length ≤ 8) :
    (set_vchInt64 vch).toInt = set_vch vch := by
  cases vch using List.reverseRecOn with
  | nil => rfl
  | append_singleton init back =>
    have hinit : init.length ≤ 7 := by
      rw [List.length_append, List.length_singleton] at hlength
      omega
    have hresult := @toNat_orBytes (init ++ [back]) 0 0 (by omega) (by decide)
    rw [UInt64.toNat_zero, mul_zero, pow_zero, one_mul, zero_add] at hresult
    have hclear := toNat_clearSign hinit hresult
    have hsmall : LittleEndian.value (init ++ [back &&& 0x7f]) < 2 ^ 63 := by
      have hmask : (0x7f : UInt8).toNat = 2 ^ 7 - 1 := by decide
      have htop : (back &&& 0x7f).toNat ≤ 2 ^ 7 - 1 := by
        rw [UInt8.toNat_and, hmask]
        exact Nat.and_le_right
      have hlow := LittleEndian.value_lt init
      rw [LittleEndian.value_append, LittleEndian.value_singleton]
      calc
        LittleEndian.value init + 256 ^ init.length * (back &&& 0x7f).toNat
          < 256 ^ init.length + 256 ^ init.length * (2 ^ 7 - 1) :=
            Nat.add_lt_add_of_lt_of_le hlow (Nat.mul_le_mul_left _ htop)
        _ = 256 ^ init.length * 2 ^ 7 := by ring
        _ ≤ 256 ^ 7 * 2 ^ 7 := Nat.mul_le_mul_right _ (Nat.pow_le_pow_right (by omega) hinit)
        _ = 2 ^ 63 := by norm_num
    have hpositive := @toInt_toInt64 (orBytes 0 0 (init ++ [back]) &&&
      ~~~(0x80 <<< UInt64.ofNat (8 * init.length))) (by rw [hclear]; exact hsmall)
    rw [set_vch_append]
    unfold set_vchInt64
    simp only [List.getLast?_append, List.getLast?_singleton, Option.some_or, List.length_append,
      List.length_singleton, Nat.add_sub_cancel]
    split_ifs with hsign
    · rw [toInt_neg, hpositive, hclear]
      intro hmin
      rw [hmin, Int64.toInt_minValue] at hpositive
      omega
    · have hplain := (or_sign back (by simpa using hsign)).2.2
      rw [hplain] at hsmall ⊢
      rw [toInt_toInt64 (by rw [hresult]; exact hsmall), hresult]

/-- A magnitude that leaves a bit of eight bytes for the sign. -/
theorem length_signed_le (neg : Bool) {magnitude : valtype} (hlast : magnitude.getLast? ≠ some 0)
    (hvalue : LittleEndian.value magnitude < 2 ^ 63) : (signed neg magnitude).length ≤ 8 := by
  cases magnitude using List.reverseRecOn with
  | nil => simp [signed]
  | append_singleton init back =>
    have hback : back ≠ 0 := by simpa using hlast
    have hpos : 0 < back.toNat := Nat.pos_of_ne_zero fun h => hback (UInt8.toNat_inj.mp h)
    have hle : 256 ^ init.length * back.toNat < 2 ^ 63 := by
      rw [LittleEndian.value_append, LittleEndian.value_singleton] at hvalue
      omega
    have hinit : init.length ≤ 7 := by
      by_contra hlong
      have hpow : 256 ^ 8 ≤ 256 ^ init.length := Nat.pow_le_pow_right (by omega) (by omega)
      have hmul : 256 ^ init.length * 1 ≤ 256 ^ init.length * back.toNat :=
        Nat.mul_le_mul_left _ hpos
      omega
    by_cases hsign : back &&& 0x80 ≠ 0
    · have htop := (and_sign back hsign).1
      have hshort : init.length ≠ 7 := by
        intro hseven
        rw [hseven] at hle
        omega
      rw [signed_append, if_pos hsign, List.length_append, List.length_append,
        List.length_singleton, List.length_singleton]
      omega
    · have hlength : (signed neg (init ++ [back])).length = init.length + 1 := by
        rw [signed_append, if_neg hsign]
        split_ifs <;> simp
      omega

theorem length_serializeInt64 {n : Int64} (hn : n ≠ Int64.minValue) :
    (serializeInt64 n).length ≤ 8 := by
  have hle := n.le_toInt
  have hlt := n.toInt_lt
  have hne : n.toInt ≠ -2 ^ 63 := by
    intro h
    exact hn (Int64.toInt.inj (h.trans Int64.toInt_minValue.symm))
  rw [serializeInt64_eq hn, serialize_eq_signed, Nat.mod_eq_of_lt (by omega)]
  apply length_signed_le _ (LittleEndian.getLast?_shortest _)
  rw [LittleEndian.value_shortest]
  omega

theorem set_vch_serializeInt64 {n : Int64} (hn : n ≠ Int64.minValue) :
    set_vchInt64 (serializeInt64 n) = n := by
  have hle := n.le_toInt
  have hlt := n.toInt_lt
  have hnumber := toInt_set_vchInt64 (length_serializeInt64 hn)
  rw [serializeInt64_eq hn, set_vch_serialize (by omega)] at hnumber
  rw [serializeInt64_eq hn]
  exact Int64.toInt.inj hnumber

/-- The constructor of bytes is the one that the interpreter is modelled with. -/
theorem toInt_ofBytesInt64 (vch : valtype) (fRequireMinimal : Bool) :
    Int64.toInt <$> ofBytesInt64 vch fRequireMinimal = ofBytes vch fRequireMinimal := by
  unfold ofBytesInt64 ofBytes stopIf nMaxNumSize
  by_cases hlong : 4 < vch.length
  · simp only [if_pos hlong]
    rfl
  · have hvalue := @toInt_set_vchInt64 vch (by omega)
    by_cases hpadded : (fRequireMinimal && isPadded vch) = true
    · simp only [if_neg hlong, if_pos hpadded]
      rfl
    · simp only [if_neg hlong, if_neg hpadded, ← hvalue]
      rfl

theorem ofBytesInt64_minimal {vch : valtype} (hlength : vch.length ≤ nMaxNumSize) :
    ofBytesInt64 vch true =
      if isPadded vch then .error .scriptnum_error else .ok (set_vchInt64 vch) := by
  unfold ofBytesInt64 stopIf
  rw [if_neg (not_lt.mpr hlength)]
  cases hpadded : isPadded vch <;> rfl

/-- The least number has no bytes of its own: short bytes never stand for it. -/
theorem set_vchInt64_ne_minValue {vch : valtype} (hlength : vch.length ≤ nMaxNumSize) :
    set_vchInt64 vch ≠ Int64.minValue := by
  intro hmin
  have hnumber := @toInt_set_vchInt64 vch (hlength.trans (by decide))
  have hlt := natAbs_set_vch_lt vch
  have hpow : 256 ^ vch.length ≤ 256 ^ 4 := Nat.pow_le_pow_right (by omega) hlength
  rw [hmin, Int64.toInt_minValue] at hnumber
  rw [← hnumber] at hlt
  omega

theorem scriptnum_roundtrip (n : Int64) (vch : valtype) (hn : n ≠ Int64.minValue)
    (hvch : vch.length ≤ nMaxNumSize) :
    set_vchInt64 (serializeInt64 n) = n ∧
      ((serializeInt64 n).length ≤ nMaxNumSize → ofBytesInt64 (serializeInt64 n) true = .ok n) ∧
      ((∃ m, ofBytesInt64 vch true = .ok m) ↔ vch = serializeInt64 (set_vchInt64 vch)) := by
  refine ⟨set_vch_serializeInt64 hn, ?_, ?_⟩
  · intro hlength
    have hminimal : isPadded (serializeInt64 n) = false := by
      rw [serializeInt64_eq hn]
      exact not_isPadded_serialize _
    rw [ofBytesInt64_minimal hlength, hminimal, set_vch_serializeInt64 hn]
    rfl
  · have hshort : vch.length ≤ 8 := hvch.trans (by decide)
    rw [ofBytesInt64_minimal hvch, serializeInt64_eq (set_vchInt64_ne_minValue hvch),
      toInt_set_vchInt64 hshort]
    constructor
    · rintro ⟨m, hm⟩
      cases hpadded : isPadded vch with
      | false => exact (serialize_set_vch hshort hpadded).symm
      | true => simp [hpadded] at hm
    · intro heq
      have hminimal : isPadded vch = false := by
        rw [heq]
        exact not_isPadded_serialize _
      exact ⟨set_vchInt64 vch, by rw [hminimal]; rfl⟩

/-- The number 255 needs a byte for its sign. -/
theorem scriptnum_roundtrip_255 :
    set_vchInt64 (serializeInt64 255) = 255 ∧
      ((serializeInt64 255).length ≤ nMaxNumSize →
        ofBytesInt64 (serializeInt64 255) true = .ok 255) ∧
      ((∃ m, ofBytesInt64 [0xff, 0x00] true = .ok m) ↔
        [0xff, 0x00] = serializeInt64 (set_vchInt64 [0xff, 0x00])) :=
  scriptnum_roundtrip 255 [0xff, 0x00] (by decide) (by decide)

end CScriptNum

end Lytix
