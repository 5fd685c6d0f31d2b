import Lytix.Coins.Compressor
import Lytix.Validation.Consensus

/-! The compressed form of an output, for every amount of money and every script. -/
namespace Lytix

open Readers

/-- `assert(pubkey.size() == 65)` behind a decompression. -/
def PubKeys.Sized (keys : PubKeys) : Prop :=
  ∀ vch pubkey, keys.decompress vch = some pubkey → pubkey.length = 65

namespace CTxOutCompressor

/-- A result that a `uint64_t` holds. -/
def checked (x : ℕ) : Option ℕ := if x < 2 ^ 64 then some x else none

/-- `CompressAmount`, where no result may leave the 64 bits and no assertion may fail. -/
def compressChecked (nAmount : ℕ) : Option ℕ :=
  if nAmount = 0 then some 0
  else
    let (n, e) := stripZeros 9 nAmount
    if e < 9 then
      let d := n % 10
      if 1 ≤ d ∧ d ≤ 9 then do
        let n ← checked (n / 10 * 9)
        let n ← checked (n + d)
        let n ← checked ((n - 1) * 10)
        let n ← checked (1 + n)
        checked (n + e)
      else none
    else do
      let n ← checked ((n - 1) * 10)
      let n ← checked (1 + n)
      checked (n + 9)

/-- `while (e)`. -/
def scaleChecked : ℕ → ℕ → Option ℕ
  | 0, n => some n
  | e + 1, n => do
    let n ← checked (n * 10)
    scaleChecked e n

/-- `DecompressAmount`, where no result may leave the 64 bits. -/
def decompressChecked (x : ℕ) : Option ℕ :=
  if x = 0 then some 0
  else do
    let e := (x - 1) % 10
    let x := (x - 1) / 10
    let n ← if e < 9 then do
        let n ← checked (x / 9 * 10)
        checked (n + (x % 9 + 1))
      else checked (x + 1)
    scaleChecked e n

theorem checked_of_lt {x : ℕ} (h : x < 2 ^ 64) : checked x = some x := if_pos h

theorem checked_bind {x : ℕ} {k : ℕ → Option ℕ} (h : x < 2 ^ 64) : checked x >>= k = k x := by
  rw [checked_of_lt h]
  rfl

theorem scaleChecked_of_lt {e n : ℕ} (h : n * 10 ^ e < 2 ^ 64) :
    scaleChecked e n = some (n * 10 ^ e) := by
  induction e generalizing n with
  | zero => simp [scaleChecked]
  | succ e ih =>
    have hassoc : n * 10 ^ (e + 1) = n * 10 * 10 ^ e := by
      rw [pow_succ']
      ring
    rw [hassoc] at h ⊢
    have hstep : n * 10 < 2 ^ 64 :=
      lt_of_le_of_lt (Nat.le_mul_of_pos_right _ (Nat.pow_pos (by omega))) h
    rw [scaleChecked, checked_bind hstep]
    exact ih h

theorem compressChecked_eq {n : ℕ} (hn : n ≤ 10 ^ 18) :
    compressChecked n = some (compressAmount n) := by
  unfold compressChecked compressAmount
  by_cases hzero : n = 0
  · rw [if_pos hzero, if_pos hzero]
  obtain ⟨m, e, hparts, he, _, hpos, hm, hdigit⟩ := exists_parts hzero hn
  rw [if_neg hzero, if_neg hzero, hparts]
  dsimp only
  by_cases hless : e < 9
  · have hlast := hdigit hless
    have hfits : (1 + (m / 10 * 9 + m % 10 - 1) * 10 + e) % 2 ^ 64 =
        1 + (m / 10 * 9 + m % 10 - 1) * 10 + e := Nat.mod_eq_of_lt (by omega)
    rw [if_pos hless, if_pos hless, if_pos (by omega), hfits]
    rw [checked_bind (by omega), checked_bind (by omega), checked_bind (by omega),
      checked_bind (by omega), checked_of_lt (by omega)]
  · rw [if_neg hless, if_neg hless]
    rw [checked_bind (by omega), checked_bind (by omega), checked_of_lt (by omega),
      Nat.mod_eq_of_lt (by omega)]

theorem decompressChecked_eq {n : ℕ} (hn : n ≤ 10 ^ 18) :
    decompressChecked (compressAmount n) = some n := by
  by_cases hzero : n = 0
  · rw [hzero]
    rfl
  obtain ⟨m, e, hparts, he, heq, hpos, hm, hdigit⟩ := exists_parts hzero hn
  obtain ⟨hne, hexp, hdigits⟩ := compressAmount_parts hzero hparts he hpos hm hdigit
  have hscale : scaleChecked e m = some n := by
    rw [heq]
    exact scaleChecked_of_lt (by omega)
  unfold decompressChecked
  rw [if_neg hne]
  dsimp only
  rw [hexp]
  by_cases hless : e < 9
  · rw [if_pos hless] at hdigits
    rw [if_pos hless, checked_bind (by omega), checked_of_lt (by omega), hdigits]
    exact hscale
  · rw [if_neg hless] at hdigits
    rw [if_neg hless, checked_of_lt (by omega), hdigits]
    exact hscale

theorem compressAmount_injective {n n' : ℕ} (hn : n ≤ 10 ^ 18) (hn' : n' ≤ 10 ^ 18)
    (h : compressAmount n = compressAmount n') : n = n' := by
  rw [← decompressAmount_compressAmount hn, h, decompressAmount_compressAmount hn']

end CTxOutCompressor

namespace CScriptCompressor

/-- The special forms are those of short scripts. -/
theorem length_of_compress {keys : PubKeys} {script compr : List UInt8}
    (h : compress keys script = some compr) : script.length ≤ 67 := by
  unfold compress at h
  cases hkeyID : isToKeyID script with
  | some keyID =>
    obtain ⟨hlength, hscript⟩ := isToKeyID_spec hkeyID
    simp [hscript, hlength]
  | none =>
    cases hscriptID : isToScriptID script with
    | some scriptID =>
      obtain ⟨hlength, hscript⟩ := isToScriptID_spec hscriptID
      simp [hscript, hlength]
    | none =>
      cases hpubKey : isToPubKey keys script with
      | none => simp [hkeyID, hscriptID, hpubKey] at h
      | some pubkey =>
        rcases isToPubKey_spec hpubKey with ⟨hlength, _, hscript⟩ | ⟨hlength, _, _, hscript⟩
        · simp [hscript, hlength]
        · simp [hscript, hlength]

theorem length_decompress {keys : PubKeys} (sized : keys.Sized) {nSize : ℕ} {vch : List UInt8}
    (hvch : vch.length ≤ 32) : ((decompress keys nSize vch).getD []).length ≤ 67 := by
  unfold decompress
  split_ifs
  · simp
    omega
  · simp
    omega
  · simp
    omega
  · cases hkey : keys.decompress (UInt8.ofNat (nSize - 2) :: vch) with
    | none => simp
    | some pubkey => simp [sized _ _ hkey]
  · simp

/-- A size that an `unsigned int` does not hold is read back as a smaller one. -/
theorem not_reads_serialize {keys : PubKeys} (sized : keys.Sized) {script : Script}
    (hsize : 2 ^ 32 ≤ script.length + nSpecialScripts) :
    ¬ Reads (unserialize keys) (serialize keys script) script := by
  intro hreads
  have hspecials : nSpecialScripts = 6 := rfl
  have hcompr : compress keys script = none := by
    cases hcompr : compress keys script with
    | none => rfl
    | some compr =>
      have hlength := length_of_compress hcompr
      omega
  have hless : plainSize script < 2 ^ 32 := Nat.mod_lt _ (by omega)
  unfold serialize unserialize at hreads
  rw [hcompr] at hreads
  dsimp only at hreads
  rw [(VarInts.reads_write hless).bind_iff] at hreads
  split_ifs at hreads with hspecial
  · obtain ⟨_, hrun⟩ := hreads.of_exactly
    have hscript := (Prod.mk.inj (Option.some.inj hrun)).1
    have hsmall := @length_decompress keys sized (plainSize script)
      (script.take (getSpecialSize (plainSize script))) (by
        have hspecialSize : getSpecialSize (plainSize script) ≤ 32 := by
          unfold getSpecialSize
          split_ifs <;> omega
        rw [List.length_take]
        omega)
    rw [hscript] at hsmall
    omega
  · rw [← bind_pure (exactly _)] at hreads
    obtain ⟨_, hrun⟩ := hreads.of_exactly
    have hscript := congrArg List.length (Prod.mk.inj (Option.some.inj hrun)).1
    rw [List.length_take] at hscript
    omega

theorem reads_serialize_iff {keys : PubKeys} (lawful : keys.Lawful) (sized : keys.Sized)
    {script : Script} : Reads (unserialize keys) (serialize keys script) script ↔
      script.length + nSpecialScripts < 2 ^ 32 := by
  constructor
  · intro hreads
    by_contra hlarge
    exact not_reads_serialize sized (not_lt.mp hlarge) hreads
  · exact reads_serialize lawful

end CScriptCompressor

/-- Amounts of money and the script of an output come back from their compressed forms. -/
structure CompressionRoundTrips (keys : PubKeys) (network : Network) (script : Script) :
    Prop where
  amount : ∀ n : ℕ, MoneyRange (Params network) n →
    CTxOutCompressor.compressChecked n = some (CTxOutCompressor.compressAmount n) ∧
      CTxOutCompressor.decompressChecked (CTxOutCompressor.compressAmount n) = some n ∧
      CTxOutCompressor.decompressAmount (CTxOutCompressor.compressAmount n) = n
  injective : ∀ n n' : ℕ, MoneyRange (Params network) n → MoneyRange (Params network) n' →
    CTxOutCompressor.compressAmount n = CTxOutCompressor.compressAmount n' → n = n'
  special : ∀ compr, CScriptCompressor.compress keys script = some compr →
    ∃ nSize vch, nSize < CScriptCompressor.nSpecialScripts ∧ compr = UInt8.ofNat nSize :: vch ∧
      vch.length = CScriptCompressor.getSpecialSize nSize ∧
      CScriptCompressor.decompress keys nSize vch = some script
  script : Reads (CScriptCompressor.unserialize keys) (CScriptCompressor.serialize keys script)
    script

theorem le_of_moneyRange {network : Network} {n : ℕ} (h : MoneyRange (Params network) n) :
    n ≤ 10 ^ 18 := by
  have hmax : (Params network).nMaxMoneyOut ≤ 10 ^ 16 := by cases network <;> decide
  have hle := h.2
  omega

theorem compression_roundtrips_iff {keys : PubKeys} (lawful : keys.Lawful) (sized : keys.Sized)
    (network : Network) (script : Script) :
    CompressionRoundTrips keys network script ↔
      script.length + CScriptCompressor.nSpecialScripts < 2 ^ 32 := by
  constructor
  · intro h
    exact (CScriptCompressor.reads_serialize_iff lawful sized).mp h.script
  · intro hsize
    refine ⟨?_, ?_, ?_, CScriptCompressor.reads_serialize lawful hsize⟩
    · intro n hn
      have hle := le_of_moneyRange hn
      exact ⟨CTxOutCompressor.compressChecked_eq hle, CTxOutCompressor.decompressChecked_eq hle,
        CTxOutCompressor.decompressAmount_compressAmount hle⟩
    · intro n n' hn hn'
      exact CTxOutCompressor.compressAmount_injective (le_of_moneyRange hn) (le_of_moneyRange hn')
    · intro compr hcompr
      exact CScriptCompressor.compress_spec lawful hcompr

/-- A library that finds no point on the curve. -/
def noPoints : PubKeys := ⟨fun _ => false, fun _ => none⟩

theorem noPoints_lawful : noPoints.Lawful := by
  intro pubkey _ _ hvalid
  contradiction

theorem noPoints_sized : noPoints.Sized := by
  intro vch pubkey h
  contradiction

theorem compression_roundtrips_iff_return :
    CompressionRoundTrips noPoints .main [0x6a] ↔
      ([0x6a] : Script).length + CScriptCompressor.nSpecialScripts < 2 ^ 32 :=
  compression_roundtrips_iff noPoints_lawful noPoints_sized .main [0x6a]

/-- The size of the script and of the special ones is `2 ^ 32`, written as zero. -/
theorem not_compression_roundtrips : ¬ ∀ keys : PubKeys, keys.Lawful → keys.Sized →
    ∀ network script, CompressionRoundTrips keys network script := by
  intro h
  obtain ⟨n, hn⟩ : ∃ n, n + 6 = 2 ^ 32 := ⟨2 ^ 32 - 6, by norm_num⟩
  have hroundtrips := h noPoints noPoints_lawful noPoints_sized .main (List.replicate n 0)
  have hreads := hroundtrips.script
  rw [CScriptCompressor.reads_serialize_iff noPoints_lawful noPoints_sized,
    List.length_replicate] at hreads
  exact absurd hn (by have hspecials : CScriptCompressor.nSpecialScripts = 6 := rfl; omega)

end Lytix
