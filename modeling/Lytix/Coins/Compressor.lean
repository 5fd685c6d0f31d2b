import Lytix.Lib.VarInts
import Lytix.Primitives.Transaction

/-! The compressed form of an output on disk: its amount and its script. -/
namespace Lytix

open Readers

/-- What the compression of scripts asks the elliptic curve library. -/
structure PubKeys where
  isFullyValid : List UInt8 → Bool
  decompress : List UInt8 → Option (List UInt8)

/-- The compressed form of an uncompressed key: the parity of the second coordinate, and the
first coordinate. -/
def compressedKey (pubkey : List UInt8) : List UInt8 :=
  (2 ||| (pubkey.getD 64 0 &&& 1)) :: (pubkey.drop 1).take 32

/-- A valid key is the one that its compressed form stands for. -/
def PubKeys.Lawful (keys : PubKeys) : Prop :=
  ∀ pubkey, pubkey.length = 65 → pubkey.head? = some 4 → keys.isFullyValid pubkey = true →
    keys.decompress (compressedKey pubkey) = some pubkey

namespace CScriptCompressor

def nSpecialScripts : ℕ := 6

/-- Pay to pubkey hash, of exactly this form. -/
def isToKeyID (script : Script) : Option (List UInt8) :=
  if script.length = 25 ∧ script.take 3 = [OP_DUP, OP_HASH160, 20] ∧
      script.drop 23 = [OP_EQUALVERIFY, OP_CHECKSIG] then some ((script.drop 3).take 20)
  else none

/-- Pay to script hash. -/
def isToScriptID (script : Script) : Option (List UInt8) :=
  if script.length = 23 ∧ script.take 2 = [OP_HASH160, 20] ∧ script.drop 22 = [OP_EQUAL] then
    some ((script.drop 2).take 20)
  else none

/-- Pay to pubkey. A key that is not compressed has to be valid. -/
def isToPubKey (keys : PubKeys) (script : Script) : Option (List UInt8) :=
  if script.length = 35 ∧ script.take 1 = [33] ∧ script.drop 34 = [OP_CHECKSIG] ∧
      (script[1]? = some 2 ∨ script[1]? = some 3) then some ((script.drop 1).take 33)
  else if script.length = 67 ∧ script.take 1 = [65] ∧ script.drop 66 = [OP_CHECKSIG] ∧
      script[1]? = some 4 then
    if keys.isFullyValid ((script.drop 1).take 65) then some ((script.drop 1).take 65) else none
  else none

def compress (keys : PubKeys) (script : Script) : Option (List UInt8) :=
  match isToKeyID script with
  | some keyID => some (0 :: keyID)
  | none =>
    match isToScriptID script with
    | some scriptID => some (1 :: scriptID)
    | none =>
      match isToPubKey keys script with
      | none => none
      | some pubkey =>
        if pubkey.head? = some 2 ∨ pubkey.head? = some 3 then
          some (pubkey.getD 0 0 :: (pubkey.drop 1).take 32)
        else if pubkey.head? = some 4 then
          some ((4 ||| (pubkey.getD 64 0 &&& 1)) :: (pubkey.drop 1).take 32)
        else none

def getSpecialSize (nSize : ℕ) : ℕ :=
  if nSize = 0 ∨ nSize = 1 then 20
  else if nSize = 2 ∨ nSize = 3 ∨ nSize = 4 ∨ nSize = 5 then 32
  else 0

/-- `none` where it fails and leaves the script as it was. -/
def decompress (keys : PubKeys) (nSize : ℕ) (vch : List UInt8) : Option Script :=
  if nSize = 0 then some ([OP_DUP, OP_HASH160, 20] ++ vch ++ [OP_EQUALVERIFY, OP_CHECKSIG])
  else if nSize = 1 then some ([OP_HASH160, 20] ++ vch ++ [OP_EQUAL])
  else if nSize = 2 ∨ nSize = 3 then some ([33, UInt8.ofNat nSize] ++ vch ++ [OP_CHECKSIG])
  else if nSize = 4 ∨ nSize = 5 then
    (keys.decompress (UInt8.ofNat (nSize - 2) :: vch)).map fun pubkey =>
      [65] ++ pubkey ++ [OP_CHECKSIG]
  else none

/-- `nSize`, an `unsigned int`. -/
def plainSize (script : Script) : ℕ := (script.length + nSpecialScripts) % 2 ^ 32

def getSerializeSize (keys : PubKeys) (script : Script) : ℕ :=
  match compress keys script with
  | some compr => compr.length
  | none => script.length + VarInts.size (plainSize script)

def serialize (keys : PubKeys) (script : Script) : List UInt8 :=
  match compress keys script with
  | some compr => compr
  | none => VarInts.write (plainSize script) ++ script

/-- Into an empty script. -/
def unserialize (keys : PubKeys) : Reader UInt8 Script := do
  let nSize ← VarInts.read 32
  if nSize < nSpecialScripts then
    let vch ← exactly (getSpecialSize nSize)
    pure ((decompress keys nSize vch).getD [])
  else exactly (nSize - nSpecialScripts)

theorem split_at (script : Script) (a b : ℕ) :
    script = script.take a ++ (script.drop a).take b ++ script.drop (a + b) := by
  rw [List.append_assoc, ← List.drop_drop, List.take_append_drop, List.take_append_drop]

theorem isToKeyID_spec {script hash : List UInt8} (h : isToKeyID script = some hash) :
    hash.length = 20 ∧
      script = [OP_DUP, OP_HASH160, 20] ++ hash ++ [OP_EQUALVERIFY, OP_CHECKSIG] := by
  unfold isToKeyID at h
  split_ifs at h with hform
  obtain ⟨hlength, hfront, hback⟩ := hform
  have hhash := Option.some.inj h
  constructor
  · rw [← hhash, List.length_take, List.length_drop]
    omega
  · rw [← hhash, ← hfront, ← hback]
    exact split_at script 3 20

theorem isToScriptID_spec {script hash : List UInt8} (h : isToScriptID script = some hash) :
    hash.length = 20 ∧ script = [OP_HASH160, 20] ++ hash ++ [OP_EQUAL] := by
  unfold isToScriptID at h
  split_ifs at h with hform
  obtain ⟨hlength, hfront, hback⟩ := hform
  have hhash := Option.some.inj h
  constructor
  · rw [← hhash, List.length_take, List.length_drop]
    omega
  · rw [← hhash, ← hfront, ← hback]
    exact split_at script 2 20

/-- A script that pays to a key: its length byte, the key and the check. -/
theorem isToPubKey_spec {keys : PubKeys} {script pubkey : List UInt8}
    (h : isToPubKey keys script = some pubkey) :
    (pubkey.length = 33 ∧ (pubkey.head? = some 2 ∨ pubkey.head? = some 3) ∧
      script = [33] ++ pubkey ++ [OP_CHECKSIG]) ∨
    (pubkey.length = 65 ∧ pubkey.head? = some 4 ∧ keys.isFullyValid pubkey = true ∧
      script = [65] ++ pubkey ++ [OP_CHECKSIG]) := by
  have hhead (n : ℕ) : ((script.drop 1).take (n + 1)).head? = script[1]? := by
    rw [List.head?_take, if_neg (by omega), List.head?_drop]
  unfold isToPubKey at h
  split_ifs at h with hform hform hvalid
  · left
    obtain ⟨hlength, hfront, hback, hheader⟩ := hform
    rw [← Option.some.inj h]
    refine ⟨?_, ?_, ?_⟩
    · rw [List.length_take, List.length_drop]
      omega
    · rw [hhead]
      exact hheader
    · rw [← hfront, ← hback]
      exact split_at script 1 33
  · right
    obtain ⟨hlength, hfront, hback, hheader⟩ := hform
    rw [← Option.some.inj h]
    refine ⟨?_, ?_, hvalid, ?_⟩
    · rw [List.length_take, List.length_drop]
      omega
    · rw [hhead]
      exact hheader
    · rw [← hfront, ← hback]
      exact split_at script 1 65

theorem parity_cases (b : UInt8) : b &&& 1 = 0 ∨ b &&& 1 = 1 := by
  have hmod : (b &&& 1).toNat = b.toNat % 2 := by
    rw [UInt8.toNat_and]
    exact Nat.and_one_is_mod _
  rcases Nat.mod_two_eq_zero_or_one b.toNat with h | h
  · left
    apply UInt8.toNat_inj.mp
    rw [hmod, h]
    rfl
  · right
    apply UInt8.toNat_inj.mp
    rw [hmod, h]
    rfl

/-- A compressed script is a special size and as many bytes as that says, from which it is
decompressed. -/
theorem compress_spec {keys : PubKeys} (lawful : keys.Lawful) {script compr : List UInt8}
    (h : compress keys script = some compr) : ∃ nSize vch, nSize < nSpecialScripts ∧
      compr = UInt8.ofNat nSize :: vch ∧ vch.length = getSpecialSize nSize ∧
      decompress keys nSize vch = some script := by
  unfold compress at h
  cases hkeyID : isToKeyID script with
  | some keyID =>
    rw [hkeyID] at h
    obtain ⟨hlength, hscript⟩ := isToKeyID_spec hkeyID
    refine ⟨0, keyID, by decide, (Option.some.inj h).symm, hlength, ?_⟩
    rw [hscript]
    rfl
  | none =>
    rw [hkeyID] at h
    cases hscriptID : isToScriptID script with
    | some scriptID =>
      rw [hscriptID] at h
      obtain ⟨hlength, hscript⟩ := isToScriptID_spec hscriptID
      refine ⟨1, scriptID, by decide, (Option.some.inj h).symm, hlength, ?_⟩
      rw [hscript]
      rfl
    | none =>
      rw [hscriptID] at h
      cases hpubKey : isToPubKey keys script with
      | none =>
        rw [hpubKey] at h
        contradiction
      | some pubkey =>
        rw [hpubKey] at h
        rcases isToPubKey_spec hpubKey with
          ⟨hlength, hheader, hscript⟩ | ⟨hlength, hheader, hvalid, hscript⟩
        · dsimp only at h
          rw [if_pos hheader] at h
          obtain ⟨first, rest, rfl⟩ := List.exists_cons_of_length_pos (by omega : 0 < pubkey.length)
          have hrest : rest.length = 32 := by simpa using hlength
          have hvch : (List.drop 1 (first :: rest)).take 32 = rest := by
            rw [List.drop_succ_cons, List.drop_zero, List.take_of_length_le (by omega)]
          rw [hvch] at h
          rcases hheader with hfirst | hfirst
          all_goals
            have hvalue := Option.some.inj hfirst
            subst hvalue
          · refine ⟨2, rest, by decide, (Option.some.inj h).symm, hrest, ?_⟩
            rw [hscript]
            rfl
          · refine ⟨3, rest, by decide, (Option.some.inj h).symm, hrest, ?_⟩
            rw [hscript]
            rfl
        · dsimp only at h
          have hother : ¬ (pubkey.head? = some 2 ∨ pubkey.head? = some 3) := by
            rw [hheader]
            decide
          rw [if_neg hother, if_pos hheader] at h
          have hkey := lawful pubkey hlength hheader hvalid
          unfold compressedKey at hkey
          have hvch : ((pubkey.drop 1).take 32).length = 32 := by
            rw [List.length_take, List.length_drop]
            omega
          generalize (pubkey.drop 1).take 32 = vch at h hkey hvch
          rcases parity_cases (pubkey.getD 64 0) with hparity | hparity
          · rw [hparity] at h hkey
            refine ⟨4, vch, by decide, (Option.some.inj h).symm, hvch, ?_⟩
            have hdecompress : keys.decompress (UInt8.ofNat (4 - 2) :: vch) = some pubkey := hkey
            rw [decompress, if_neg (by decide), if_neg (by decide), if_neg (by decide),
              if_pos (by decide), hdecompress, Option.map_some, hscript]
          · rw [hparity] at h hkey
            refine ⟨5, vch, by decide, (Option.some.inj h).symm, hvch, ?_⟩
            have hdecompress : keys.decompress (UInt8.ofNat (5 - 2) :: vch) = some pubkey := hkey
            rw [decompress, if_neg (by decide), if_neg (by decide), if_neg (by decide),
              if_pos (by decide), hdecompress, Option.map_some, hscript]

/-- Any script is read back, if its size fits an `unsigned int`. -/
theorem reads_serialize {keys : PubKeys} (lawful : keys.Lawful) {script : Script}
    (hsize : script.length + nSpecialScripts < 2 ^ 32) :
    Reads (unserialize keys) (serialize keys script) script := by
  unfold serialize
  cases hcompr : compress keys script with
  | some compr =>
    obtain ⟨nSize, vch, hspecial, rfl, hlength, hdecompress⟩ := compress_spec lawful hcompr
    have hsmall : nSize < 6 := hspecial
    have hwritten : UInt8.ofNat nSize :: vch = VarInts.write nSize ++ vch := by
      rw [VarInts.write_of_le (by omega)]
      rfl
    dsimp only
    rw [hwritten]
    apply (VarInts.reads_write (by omega : nSize < 2 ^ 32)).bind
    rw [if_pos hspecial, ← hlength]
    apply (reads_exactly vch).bind_nil
    rw [hdecompress]
    exact Reads.pure script
  | none =>
    have hplain : plainSize script = script.length + nSpecialScripts := Nat.mod_eq_of_lt hsize
    dsimp only
    rw [hplain]
    apply (VarInts.reads_write hsize).bind
    rw [if_neg (by omega), Nat.add_sub_cancel]
    exact reads_exactly script

theorem length_serialize (keys : PubKeys) (script : Script) :
    (serialize keys script).length = getSerializeSize keys script := by
  unfold serialize getSerializeSize
  cases compress keys script with
  | some compr => rfl
  | none =>
    dsimp only
    rw [List.length_append, VarInts.length_write, Nat.add_comm]

end CScriptCompressor

namespace CTxOutCompressor

/-- Divide by the largest power of ten, up to `9` times: the result and the exponent. -/
def stripZeros : ℕ → ℕ → ℕ × ℕ
  | 0, n => (n, 0)
  | rounds + 1, n =>
    if n % 10 = 0 then ((stripZeros rounds (n / 10)).1, (stripZeros rounds (n / 10)).2 + 1)
    else (n, 0)

/-- `CompressAmount`, of a `uint64_t`. -/
def compressAmount (nAmount : ℕ) : ℕ :=
  if nAmount = 0 then 0
  else
    let (n, e) := stripZeros 9 nAmount
    if e < 9 then (1 + (n / 10 * 9 + n % 10 - 1) * 10 + e) % 2 ^ 64
    else (1 + (n - 1) * 10 + 9) % 2 ^ 64

def decompressAmount (x : ℕ) : ℕ :=
  if x = 0 then 0
  else
    let e := (x - 1) % 10
    let x := (x - 1) / 10
    let n := if e < 9 then x / 9 * 10 + (x % 9 + 1) else x + 1
    n * 10 ^ e % 2 ^ 64

theorem stripZeros_spec (rounds n : ℕ) : (stripZeros rounds n).2 ≤ rounds ∧
    n = (stripZeros rounds n).1 * 10 ^ (stripZeros rounds n).2 ∧
    ((stripZeros rounds n).2 < rounds → (stripZeros rounds n).1 % 10 ≠ 0) := by
  induction rounds generalizing n with
  | zero =>
    refine ⟨Nat.le_refl _, ?_, ?_⟩
    · simp [stripZeros]
    · intro h
      exact absurd h (Nat.not_lt_zero _)
  | succ rounds ih =>
    unfold stripZeros
    by_cases hzero : n % 10 = 0
    · obtain ⟨hle, heq, hdigit⟩ := ih (n / 10)
      rw [if_pos hzero]
      refine ⟨by dsimp only; omega, ?_, ?_⟩
      · dsimp only
        rw [Nat.pow_succ, ← Nat.mul_assoc, ← heq]
        omega
      · dsimp only
        intro hlt
        exact hdigit (by omega)
    · rw [if_neg hzero]
      refine ⟨Nat.zero_le _, by simp, ?_⟩
      intro _
      exact hzero

/-- The digits that are left of an amount, and its exponent. -/
theorem exists_parts {n : ℕ} (hzero : n ≠ 0) (hn : n ≤ 10 ^ 18) :
    ∃ m e, stripZeros 9 n = (m, e) ∧ e ≤ 9 ∧ n = m * 10 ^ e ∧ 0 < m ∧ m ≤ 10 ^ 18 ∧
      (e < 9 → m % 10 ≠ 0) := by
  obtain ⟨hle, heq, hdigit⟩ := stripZeros_spec 9 n
  generalize hparts : stripZeros 9 n = parts at *
  obtain ⟨m, e⟩ := parts
  have hpos : 0 < 10 ^ e := Nat.pow_pos (by omega)
  have hm : 0 < m := by
    rcases Nat.eq_zero_or_pos m with hm | hm
    · dsimp only at heq
      rw [hm, Nat.zero_mul] at heq
      exact absurd heq hzero
    · exact hm
  have hmul : m * 1 ≤ m * 10 ^ e := Nat.mul_le_mul_left m hpos
  dsimp only at heq
  exact ⟨m, e, rfl, hle, heq, hm, by omega, hdigit⟩

/-- The number that is decompressed gives back the digits and the exponent. -/
theorem compressAmount_parts {n m e : ℕ} (hzero : n ≠ 0) (hparts : stripZeros 9 n = (m, e))
    (he : e ≤ 9) (hpos : 0 < m) (hm : m ≤ 10 ^ 18) (hdigit : e < 9 → m % 10 ≠ 0) :
    compressAmount n ≠ 0 ∧ (compressAmount n - 1) % 10 = e ∧
      (if e < 9 then (compressAmount n - 1) / 10 / 9 * 10 + ((compressAmount n - 1) / 10 % 9 + 1)
        else (compressAmount n - 1) / 10 + 1) = m := by
  unfold compressAmount
  rw [if_neg hzero, hparts]
  dsimp only
  by_cases hless : e < 9
  · have hlast := hdigit hless
    have hx : (1 + (m / 10 * 9 + m % 10 - 1) * 10 + e) % 2 ^ 64 =
        1 + (m / 10 * 9 + m % 10 - 1) * 10 + e := Nat.mod_eq_of_lt (by omega)
    rw [if_pos hless, if_pos hless, hx]
    refine ⟨by omega, by omega, ?_⟩
    omega
  · have hx : (1 + (m - 1) * 10 + 9) % 2 ^ 64 = 1 + (m - 1) * 10 + 9 :=
      Nat.mod_eq_of_lt (by omega)
    rw [if_neg hless, if_neg hless, hx]
    refine ⟨by omega, by omega, ?_⟩
    omega

/-- Amounts that do not make the arithmetic wrap are decompressed to what they were. -/
theorem decompressAmount_compressAmount {n : ℕ} (hn : n ≤ 10 ^ 18) :
    decompressAmount (compressAmount n) = n := by
  by_cases hzero : n = 0
  · rw [hzero]
    rfl
  obtain ⟨m, e, hparts, he, heq, hpos, hm, hdigit⟩ := exists_parts hzero hn
  obtain ⟨hne, hexp, hdigits⟩ := compressAmount_parts hzero hparts he hpos hm hdigit
  unfold decompressAmount
  rw [if_neg hne]
  dsimp only
  rw [hexp, hdigits, ← heq]
  exact Nat.mod_eq_of_lt (by omega)

theorem compressAmount_lt (nAmount : ℕ) : compressAmount nAmount < 2 ^ 64 := by
  unfold compressAmount
  split_ifs
  · decide
  · dsimp only
    split_ifs
    · exact Nat.mod_lt _ (by decide)
    · exact Nat.mod_lt _ (by decide)

/-- The `uint64_t` that is written for the amount. -/
def amountWritten (txout : CTxOut) : ℕ := compressAmount (txout.nValue % 2 ^ 64).toNat

def serialize (keys : PubKeys) (txout : CTxOut) : List UInt8 :=
  VarInts.write (amountWritten txout) ++ CScriptCompressor.serialize keys txout.scriptPubKey

def getSerializeSize (keys : PubKeys) (txout : CTxOut) : ℕ :=
  VarInts.size (amountWritten txout) +
    CScriptCompressor.getSerializeSize keys txout.scriptPubKey

/-- A new output. The amount is a `uint64_t` that becomes a `CAmount`. -/
def readBack (nVal : ℕ) (scriptPubKey : Script) : CTxOut :=
  { CTxOut.null with
    nValue := (decompressAmount nVal : Int).bmod (2 ^ 64)
    scriptPubKey := scriptPubKey }

def unserialize (keys : PubKeys) : Reader UInt8 CTxOut := do
  let nVal ← VarInts.read 64
  let scriptPubKey ← CScriptCompressor.unserialize keys
  pure (readBack nVal scriptPubKey)

theorem reads_serialize {keys : PubKeys} (lawful : keys.Lawful) {txout : CTxOut}
    (hvalue : 0 ≤ txout.nValue) (hmax : txout.nValue ≤ 10 ^ 18) (hrounds : txout.nRounds = -10)
    (hsize : txout.scriptPubKey.length + CScriptCompressor.nSpecialScripts < 2 ^ 32) :
    Reads (unserialize keys) (serialize keys txout) txout := by
  have hamount : decompressAmount (amountWritten txout) = txout.nValue.toNat := by
    unfold amountWritten
    rw [Int.emod_eq_of_lt hvalue (by omega)]
    exact decompressAmount_compressAmount (by omega)
  have hnVal : Reads (VarInts.read 64) (VarInts.write (amountWritten txout))
      (amountWritten txout) := VarInts.reads_write (compressAmount_lt _)
  unfold serialize
  apply hnVal.bind
  apply (CScriptCompressor.reads_serialize lawful hsize).bind_nil
  have hread : readBack (amountWritten txout) txout.scriptPubKey = txout := by
    unfold readBack
    rw [hamount, Int.toNat_of_nonneg hvalue, Int.bmod_eq_of_le (by omega) (by omega)]
    cases txout
    dsimp only at hrounds
    rw [hrounds]
    rfl
  rw [hread]
  exact Reads.pure txout

theorem length_serialize (keys : PubKeys) (txout : CTxOut) :
    (serialize keys txout).length = getSerializeSize keys txout := by
  unfold serialize getSerializeSize
  rw [List.length_append, VarInts.length_write, CScriptCompressor.length_serialize]

end CTxOutCompressor
end Lytix
